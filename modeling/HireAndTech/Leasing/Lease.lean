import Mathlib

/-!
# Expiring leases

A store maps keys to entries; an entry has a token and lives up to a time.  A lease is
acquired by setting a key that has no live entry, under a token that no other lease has.  It
is released by a script that deletes the key if the key still has the token of the lease.  A
script that has been sent may run at any later time, or never, and the owner of the lease
sends no further one once it knows that a script has run.

Main results:

- Theorem {lit}`run_own`: a script deletes the entry of its own lease only.
- Theorem {lit}`Sane.exclusive`: a key has at most one holder.
- Theorem {lit}`Sane.run`: every sequence of operations keeps the leases sane.
-/

namespace Leasing

/-- A value of the store. -/
structure Entry (τ : Type) where
  token : τ
  expiresAt : ℕ
deriving DecidableEq, Repr

/-- A lease as its owner has it, with the time up to which its entry lives. -/
structure Lease (κ τ : Type) where
  key : κ
  token : τ
  expiresAt : ℕ
deriving DecidableEq, Repr

/-- The entry of a lease. -/
def Lease.entry {κ τ : Type} (lease : Lease κ τ) : Entry τ :=
  ⟨lease.token, lease.expiresAt⟩

/-- The store with its clock, all leases so far, the scripts that have been sent and have not
run, the tokens of the scripts that have run, and those of the leases whose owner knows it. -/
structure State (κ τ : Type) where
  now : ℕ
  entries : κ → Option (Entry τ)
  leases : List (Lease κ τ)
  sent : List (Lease κ τ)
  ran : List τ
  released : List τ

variable {κ τ : Type}

namespace State

/-- The store before the first lease. -/
def initial : State κ τ :=
  ⟨0, fun _ => none, [], [], [], []⟩

variable (s : State κ τ)

/-- The token of the live entry of a key. -/
def get (key : κ) : Option τ :=
  ((s.entries key).filter fun entry => s.now ≤ entry.expiresAt).map (·.token)

/-- The passing of time. -/
def wait (elapsed : ℕ) : State κ τ :=
  { s with now := s.now + elapsed }

/-- Send the script of a lease. -/
def send (lease : Lease κ τ) : State κ τ :=
  { s with sent := lease :: s.sent }

/-- The owner of a lease is told that its script has run. -/
def answer (token : τ) : State κ τ :=
  { s with released := token :: s.released }

variable [DecidableEq κ] [DecidableEq τ]

/-- Set a key that has no live entry; {lean}`none` when another lease has the token. -/
def acquire (ttl : ℕ) (key : κ) (token : τ) : Option (State κ τ × Option (Lease κ τ)) :=
  if token ∈ s.leases.map (·.token) then none
  else if (s.get key).isSome then some (s, none)
  else
    some ({ s with
        entries := Function.update s.entries key (some ⟨token, s.now + ttl⟩)
        leases := ⟨key, token, s.now + ttl⟩ :: s.leases }, some ⟨key, token, s.now + ttl⟩)

/-- The script of a lease runs. -/
def runScript (lease : Lease κ τ) : State κ τ × Bool :=
  let s' := { s with sent := s.sent.erase lease, ran := lease.token :: s.ran }
  if s.get lease.key = some lease.token then
    ({ s' with entries := Function.update s.entries lease.key none }, true)
  else (s', false)

end State

/-- What the owners of leases, the store and time do. -/
inductive Op (κ τ : Type)
  | acquire (ttl : ℕ) (key : κ) (token : τ)
  | send (lease : Lease κ τ)
  | run (lease : Lease κ τ) (answered : Bool)
  | wait (elapsed : ℕ)

/-- One operation; {lean}`none` when it cannot happen. -/
def step [DecidableEq κ] [DecidableEq τ] (s : State κ τ) : Op κ τ → Option (State κ τ)
  | .acquire ttl key token => (s.acquire ttl key token).map (·.1)
  | .send lease =>
      if lease ∈ s.leases ∧ lease.token ∉ s.released then some (s.send lease) else none
  | .run lease answered =>
      if lease ∈ s.sent then
        let s' := (s.runScript lease).1
        some (if answered then s'.answer lease.token else s')
      else none
  | .wait elapsed => some (s.wait elapsed)

/-- A lease has time to live left, and its script has not run. -/
structure State.Holds (s : State κ τ) (lease : Lease κ τ) : Prop where
  acquired : lease ∈ s.leases
  pending : lease.token ∉ s.ran
  live : s.now ≤ lease.expiresAt

/-- Every entry belongs to a lease, and every holder has the entry of its key. -/
structure Sane (s : State κ τ) : Prop where
  tokens : (s.leases.map (·.token)).Nodup
  sent : ∀ lease ∈ s.sent, lease ∈ s.leases
  entries : ∀ key entry, s.entries key = some entry →
    ∃ lease ∈ s.leases, lease.key = key ∧ lease.entry = entry
  live : ∀ lease ∈ s.leases, lease.token ∉ s.ran → s.now ≤ lease.expiresAt →
    s.entries lease.key = some lease.entry

section

variable {s s' : State κ τ} {key : κ} {token : τ} {lease lease' : Lease κ τ}

theorem get_eq_some :
    s.get key = some token ↔
      ∃ entry, s.entries key = some entry ∧ s.now ≤ entry.expiresAt ∧ entry.token = token := by
  simp only [State.get, Option.map_eq_some_iff, Option.filter_eq_some_iff, decide_eq_true_eq]
  constructor
  · rintro ⟨entry, ⟨hentry, hlive⟩, htoken⟩
    exact ⟨entry, hentry, hlive, htoken⟩
  · rintro ⟨entry, hentry, hlive, htoken⟩
    exact ⟨entry, ⟨hentry, hlive⟩, htoken⟩

theorem sane_initial : Sane (State.initial : State κ τ) where
  tokens := List.nodup_nil
  sent := by simp [State.initial]
  entries := by simp [State.initial]
  live := by simp [State.initial]

/-! ## Holders -/

theorem Sane.eq_of_token (h : Sane s) (hlease : lease ∈ s.leases) (hlease' : lease' ∈ s.leases)
    (htoken : lease.token = lease'.token) : lease = lease' :=
  List.inj_on_of_nodup_map h.tokens hlease hlease' htoken

/-- A holder has the entry of its key. -/
theorem Sane.get_of_holds (h : Sane s) (hholds : s.Holds lease) :
    s.get lease.key = some lease.token :=
  get_eq_some.mpr ⟨_, h.live lease hholds.acquired hholds.pending hholds.live, hholds.live, rfl⟩

/-- A key has at most one holder. -/
theorem Sane.exclusive (h : Sane s) (hkey : lease.key = lease'.key) (hholds : s.Holds lease)
    (hholds' : s.Holds lease') : lease = lease' := by
  have hget := h.get_of_holds hholds
  rw [hkey, h.get_of_holds hholds', Option.some.injEq] at hget
  exact h.eq_of_token hholds.acquired hholds'.acquired hget.symm

/-! ## One operation -/

theorem Sane.wait (h : Sane s) (elapsed : ℕ) : Sane (s.wait elapsed) where
  tokens := h.tokens
  sent := h.sent
  entries := h.entries
  live lease hlease hran hlive := h.live lease hlease hran ((Nat.le_add_right _ _).trans hlive)

theorem Sane.send (h : Sane s) (hlease : lease ∈ s.leases) : Sane (s.send lease) where
  tokens := h.tokens
  sent other hother := by
    rcases List.mem_cons.mp hother with rfl | hother
    · exact hlease
    · exact h.sent other hother
  entries := h.entries
  live := h.live

theorem Sane.answer (h : Sane s) (token : τ) : Sane (s.answer token) :=
  ⟨h.tokens, h.sent, h.entries, h.live⟩

variable [DecidableEq κ] [DecidableEq τ]

/-- A script deletes the entry of its own lease and no other. -/
theorem run_own (hne : (s.runScript lease).1.get key ≠ s.get key) :
    key = lease.key ∧ s.get key = some lease.token ∧ (s.runScript lease).1.get key = none := by
  unfold State.runScript at hne ⊢
  dsimp only at hne ⊢
  split at hne
  · rename_i hown
    by_cases hkey : key = lease.key
    · subst hkey
      rw [if_pos hown]
      exact ⟨rfl, hown, by simp [State.get]⟩
    · exact absurd (by simp [State.get, Function.update_of_ne hkey]) hne
  · exact absurd rfl hne

/-- What an acquisition does. -/
theorem acquire_cases {ttl : ℕ} {answer : Option (Lease κ τ)}
    (h : s.acquire ttl key token = some (s', answer)) :
    token ∉ s.leases.map (·.token) ∧ ((s' = s ∧ answer = none) ∨
      s.get key = none ∧ answer = some ⟨key, token, s.now + ttl⟩ ∧
        s' = { s with
          entries := Function.update s.entries key (some ⟨token, s.now + ttl⟩)
          leases := ⟨key, token, s.now + ttl⟩ :: s.leases }) := by
  unfold State.acquire at h
  split at h
  · contradiction
  rename_i hfresh
  refine ⟨hfresh, ?_⟩
  split at h
  · cases h
    exact Or.inl ⟨rfl, rfl⟩
  · rename_i hfree
    cases h
    exact Or.inr ⟨by simpa using hfree, rfl, rfl⟩

/-- A key that is set had no live entry, so no lease with time to live left loses it. -/
theorem Sane.acquire {ttl : ℕ} (h : Sane s) {answer : Option (Lease κ τ)}
    (hacquire : s.acquire ttl key token = some (s', answer)) : Sane s' := by
  obtain ⟨hfresh, ⟨rfl, _⟩ | ⟨hfree, _, rfl⟩⟩ := acquire_cases hacquire
  · exact h
  constructor
  · exact List.nodup_cons.mpr ⟨hfresh, h.tokens⟩
  · intro lease hlease
    exact List.mem_cons_of_mem _ (h.sent lease hlease)
  · intro other entry hentry
    by_cases hother : other = key
    · subst hother
      dsimp only at hentry
      rw [Function.update_self, Option.some.injEq] at hentry
      exact ⟨_, List.mem_cons_self, rfl, hentry⟩
    · dsimp only at hentry
      rw [Function.update_of_ne hother] at hentry
      obtain ⟨lease, hlease, hkey, heq⟩ := h.entries other entry hentry
      exact ⟨lease, List.mem_cons_of_mem _ hlease, hkey, heq⟩
  · intro lease hlease hran hlive
    rcases List.mem_cons.mp hlease with rfl | hlease
    · exact Function.update_self _ _ _
    · have hkey : lease.key ≠ key := by
        intro heq
        have hholds := h.get_of_holds ⟨hlease, hran, hlive⟩
        rw [heq] at hholds
        rw [hfree] at hholds
        contradiction
      dsimp only
      rw [Function.update_of_ne hkey]
      exact h.live lease hlease hran hlive

@[simp]
theorem runScript_now : (s.runScript lease).1.now = s.now := by
  unfold State.runScript
  split <;> rfl

@[simp]
theorem runScript_leases : (s.runScript lease).1.leases = s.leases := by
  unfold State.runScript
  split <;> rfl

@[simp]
theorem runScript_sent : (s.runScript lease).1.sent = s.sent.erase lease := by
  unfold State.runScript
  split <;> rfl

@[simp]
theorem runScript_ran : (s.runScript lease).1.ran = lease.token :: s.ran := by
  unfold State.runScript
  split <;> rfl

/-- A script that runs takes the entry of its own lease only. -/
theorem Sane.runScript (h : Sane s) (lease : Lease κ τ) :
    Sane (s.runScript lease).1 := by
  have hsent : ∀ other ∈ s.sent.erase lease, other ∈ s.leases := fun other hother =>
    h.sent other (List.mem_of_mem_erase hother)
  unfold State.runScript
  dsimp only
  split
  · rename_i hown
    refine ⟨h.tokens, hsent, ?_, ?_⟩
    · intro key entry hentry
      by_cases hkey : key = lease.key
      · dsimp only at hentry
        rw [hkey, Function.update_self] at hentry
        contradiction
      · dsimp only at hentry
        rw [Function.update_of_ne hkey] at hentry
        exact h.entries key entry hentry
    · intro other hother hran hlive
      have hne : other.token ≠ lease.token := fun heq => hran (heq ▸ List.mem_cons_self)
      have hran : other.token ∉ s.ran := fun hmem => hran (List.mem_cons_of_mem _ hmem)
      have hkey : other.key ≠ lease.key := by
        intro heq
        have hholds := h.get_of_holds ⟨hother, hran, hlive⟩
        rw [heq, hown, Option.some.injEq] at hholds
        exact hne hholds.symm
      dsimp only
      rw [Function.update_of_ne hkey]
      exact h.live other hother hran hlive
  · refine ⟨h.tokens, hsent, h.entries, fun other hother hran hlive => ?_⟩
    exact h.live other hother (fun hmem => hran (List.mem_cons_of_mem _ hmem)) hlive

theorem Sane.step {op : Op κ τ} (h : Sane s) (hstep : step s op = some s') :
    Sane s' := by
  cases op with
  | acquire ttl key token =>
      obtain ⟨⟨_, answer⟩, hacquire, rfl⟩ := Option.map_eq_some_iff.mp hstep
      exact h.acquire hacquire
  | send lease =>
      simp only [Leasing.step] at hstep
      split at hstep
      · rename_i hsend
        cases hstep
        exact h.send hsend.1
      · contradiction
  | run lease answered =>
      simp only [Leasing.step] at hstep
      split at hstep
      · rename_i hsent
        cases hstep
        have hran := h.runScript lease
        split
        · exact hran.answer lease.token
        · exact hran
      · contradiction
  | wait elapsed =>
      cases hstep
      exact h.wait elapsed

/-! ## Sequences of operations -/

/-- Every sequence of operations keeps the leases sane. -/
theorem Sane.run (h : Sane s) {ops : List (Op κ τ)}
    (hops : ops.foldlM Leasing.step s = some s') : Sane s' := by
  induction ops generalizing s with
  | nil =>
      cases hops
      exact h
  | cons op ops ih =>
      rw [List.foldlM_cons] at hops
      obtain ⟨s₁, hop, hrest⟩ := Option.bind_eq_some_iff.mp hops
      exact ih (h.step hop) hrest

end

end Leasing
