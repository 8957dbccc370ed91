import Mathlib

/-!
# Interleaved calls over a shared world

A call is a program that issues commands one at a time.  A machine says what
one command does to the shared world under one choice of the environment, and
a configuration holds the world together with every call that has been
started.  A run interleaves the commands of its calls in any order and may cut
a call off between two of its commands.

Main results:

- Theorem {lit}`reachable_of_play`: playing a list of labels that a regime
  permits ends in a reachable configuration.
- Theorem {lit}`Reachable.mono`: a run under a narrower regime is a run under
  every wider one.
-/

namespace Interleaving

/-! ## Programs -/

/-- Name of one call of a run. -/
abbrev CallId := Nat

/-- A program has a result, or issues one command and continues with the
answer. -/
inductive Prog (Cmd : Type → Type) (α : Type) : Type 1
  | pure (a : α) : Prog Cmd α
  | step {β : Type} (c : Cmd β) (next : β → Prog Cmd α) : Prog Cmd α

namespace Prog

variable {Cmd : Type → Type} {α β : Type}

/-- Run a program and continue with its result. -/
def bind : Prog Cmd α → (α → Prog Cmd β) → Prog Cmd β
  | .pure a, f => f a
  | .step c next, f => .step c fun b => (next b).bind f

instance : Monad (Prog Cmd) where
  pure := Prog.pure
  bind := Prog.bind

/-- The program that issues a single command. -/
def perform (c : Cmd β) : Prog Cmd β :=
  .step c .pure

/-- The program that issues a single command which may raise. -/
def attempt {ε : Type} (c : Cmd (Except ε β)) : ExceptT ε (Prog Cmd) β :=
  ExceptT.mk (perform c)

end Prog

/-! ## Machines and configurations -/

/-- Programs for the requests that calls serve, and the effect of one command
of one call on the shared world.  The choice is what the environment decides;
{lean}`none` means that the choice does not answer the command or that the
command has to wait.  {lit}`close` ends the session of a call, whether the call
finished or was cut off. -/
structure Machine (World : Type) (Cmd : Type → Type) (Choice Request Result : Type) where
  program : Request → Prog Cmd Result
  exec : {β : Type} → CallId → Cmd β → Choice → World → Option (β × World)
  close : CallId → World → World

/-- Life of one call. -/
inductive CallState (Cmd : Type → Type) (Request Result : Type) : Type 1
  | idle
  | running (request : Request) (prog : Prog Cmd Result)
  | ended (request : Request) (result : Option Result)

/-- The request and the result of a call that has returned and not been closed. -/
def CallState.returned {Cmd : Type → Type} {Request Result : Type} :
    CallState Cmd Request Result → Option (Request × Result)
  | .running r (.pure a) => some (r, a)
  | _ => none

theorem CallState.returned_eq_some {Cmd : Type → Type} {Request Result : Type}
    {s : CallState Cmd Request Result} {r : Request} {a : Result}
    (h : s.returned = some (r, a)) : s = .running r (.pure a) := by
  unfold returned at h
  split at h
  · cases h
    rfl
  · contradiction

/-- The shared world and the state of every call. -/
structure Config (World : Type) (Cmd : Type → Type) (Request Result : Type) where
  world : World
  calls : CallId → CallState Cmd Request Result

/-- One step of a run. -/
inductive Label (Choice Request : Type)
  | start (i : CallId) (request : Request)
  | step (i : CallId) (choice : Choice)
  | finish (i : CallId)
  | cut (i : CallId)

/-- The requests that the calls of a run may serve and the commands, with their
choices, that it may take in a given world. -/
structure Regime (World : Type) (Cmd : Type → Type) (Choice Request : Type) where
  starts : CallId → Request → Bool
  allows : {β : Type} → World → Request → Cmd β → Choice → Bool

/-- The regime of all runs. -/
def Regime.any {World : Type} {Cmd : Type → Type} {Choice Request : Type} :
    Regime World Cmd Choice Request where
  starts _ _ := true
  allows _ _ _ _ := true

variable {World : Type} {Cmd : Type → Type} {Choice Request Result : Type}

/-- The configuration in which no call has been started. -/
def Config.initial (w : World) : Config World Cmd Request Result where
  world := w
  calls := fun _ => .idle

/-- The configuration with another world and another state of call {lit}`i`. -/
def Config.put (c : Config World Cmd Request Result) (w : World) (i : CallId)
    (s : CallState Cmd Request Result) : Config World Cmd Request Result where
  world := w
  calls := Function.update c.calls i s

@[simp]
theorem Config.put_world (c : Config World Cmd Request Result) (w : World) (i : CallId)
    (s : CallState Cmd Request Result) : (c.put w i s).world = w :=
  rfl

@[simp]
theorem Config.put_calls_self (c : Config World Cmd Request Result) (w : World) (i : CallId)
    (s : CallState Cmd Request Result) : (c.put w i s).calls i = s := by
  simp [Config.put]

theorem Config.put_calls_of_ne (c : Config World Cmd Request Result) (w : World) {i j : CallId}
    (s : CallState Cmd Request Result) (h : j ≠ i) : (c.put w i s).calls j = c.calls j := by
  simp [Config.put, h]

/-- Whether a regime permits a step from a configuration. -/
def Regime.permits (R : Regime World Cmd Choice Request) :
    Label Choice Request → Config World Cmd Request Result → Bool
  | .start i r, _ => R.starts i r
  | .step i ch, c =>
      match c.calls i with
      | .running r (.step cmd _) => R.allows c.world r cmd ch
      | _ => true
  | .finish _, _ => true
  | .cut _, _ => true

@[simp]
theorem Regime.permits_any (l : Label Choice Request) (c : Config World Cmd Request Result) :
    (Regime.any : Regime World Cmd Choice Request).permits l c = true := by
  cases l with
  | step i ch =>
      simp only [permits]
      split <;> rfl
  | _ => rfl

namespace Machine

variable (M : Machine World Cmd Choice Request Result)

/-- The configuration after one step, when the step can be taken. -/
def next : Label Choice Request → Config World Cmd Request Result →
    Option (Config World Cmd Request Result)
  | .start i r, c =>
      match c.calls i with
      | .idle => some (c.put c.world i (.running r (M.program r)))
      | _ => none
  | .step i ch, c =>
      match c.calls i with
      | .running r (.step cmd k) =>
          (M.exec i cmd ch c.world).map fun bw => c.put bw.2 i (.running r (k bw.1))
      | _ => none
  | .finish i, c =>
      match c.calls i with
      | .running r (.pure a) =>
          some (c.put (M.close i c.world) i (.ended r (some a)))
      | _ => none
  | .cut i, c =>
      match c.calls i with
      | .running r _ => some (c.put (M.close i c.world) i (.ended r none))
      | _ => none

/-- Configurations that some run from {lit}`w₀` reaches, all of whose steps the
regime permits. -/
inductive Reachable (R : Regime World Cmd Choice Request) (w₀ : World) :
    Config World Cmd Request Result → Prop
  | initial : Reachable R w₀ (.initial w₀)
  | next {c c' : Config World Cmd Request Result} {l : Label Choice Request}
      (h : Reachable R w₀ c) (hp : R.permits l c = true) (hn : M.next l c = some c') :
      Reachable R w₀ c'

/-- Play a list of labels, refusing the ones that the regime does not permit. -/
def play (R : Regime World Cmd Choice Request) :
    List (Label Choice Request) → Config World Cmd Request Result →
      Option (Config World Cmd Request Result)
  | [], c => some c
  | l :: ls, c =>
      if R.permits l c then (M.next l c).bind (play R ls) else none

variable {M} {R : Regime World Cmd Choice Request} {w₀ : World}

theorem Reachable.play {c c' : Config World Cmd Request Result} (h : M.Reachable R w₀ c)
    {ls : List (Label Choice Request)} (hp : M.play R ls c = some c') :
    M.Reachable R w₀ c' := by
  induction ls generalizing c with
  | nil =>
      simp only [Machine.play, Option.some.injEq] at hp
      exact hp ▸ h
  | cons l ls ih =>
      rw [Machine.play] at hp
      split at hp
      · rename_i hl
        obtain ⟨d, hd, hrest⟩ := Option.bind_eq_some_iff.mp hp
        exact ih (h.next hl hd) hrest
      · contradiction

/-- A permitted list of labels, played from the initial configuration, ends in
a reachable configuration. -/
theorem reachable_of_play {c : Config World Cmd Request Result}
    {ls : List (Label Choice Request)} (hp : M.play R ls (.initial w₀) = some c) :
    M.Reachable R w₀ c :=
  Reachable.initial.play hp

/-- What one step of a configuration can do. -/
theorem next_cases {c c' : Config World Cmd Request Result} {l : Label Choice Request}
    (h : M.next l c = some c') :
    (∃ i r, l = .start i r ∧ c.calls i = .idle ∧
      c' = c.put c.world i (.running r (M.program r))) ∨
    (∃ i ch r, ∃ (β : Type) (cmd : Cmd β) (k : β → Prog Cmd Result), ∃ b w,
      l = .step i ch ∧ c.calls i = .running r (.step cmd k) ∧
      M.exec i cmd ch c.world = some (b, w) ∧
      c' = c.put w i (.running r (k b))) ∨
    (∃ i r res, (∃ p, c.calls i = .running r p) ∧
      c' = c.put (M.close i c.world) i (.ended r res)) := by
  cases l with
  | start i r =>
      simp only [next] at h
      split at h
      · exact Or.inl ⟨i, r, rfl, ‹_›, (Option.some.inj h).symm⟩
      · contradiction
  | step i ch =>
      simp only [next] at h
      split at h
      · obtain ⟨⟨b, w⟩, hexec, hc⟩ := Option.map_eq_some_iff.mp h
        exact Or.inr (Or.inl ⟨i, ch, _, _, _, _, b, w, rfl, ‹_›, hexec, hc.symm⟩)
      · contradiction
  | finish i =>
      simp only [next] at h
      split at h
      · exact Or.inr (Or.inr ⟨i, _, _, ⟨_, ‹_›⟩, (Option.some.inj h).symm⟩)
      · contradiction
  | cut i =>
      simp only [next] at h
      split at h
      · exact Or.inr (Or.inr ⟨i, _, _, ⟨_, ‹_›⟩, (Option.some.inj h).symm⟩)
      · contradiction

/-- A running call was started by a request of the regime. -/
theorem Reachable.starts {c : Config World Cmd Request Result} (h : M.Reachable R w₀ c)
    {i : CallId} {r : Request} {p : Prog Cmd Result} (hi : c.calls i = .running r p) :
    R.starts i r = true := by
  induction h generalizing i r p with
  | initial => simp [Config.initial] at hi
  | next _ hp hn ih =>
      rcases next_cases hn with ⟨j, r', rfl, _, rfl⟩ |
        ⟨j, ch, r', β, cmd, k, b, w, rfl, hj, _, rfl⟩ | ⟨j, r', res, _, rfl⟩
      all_goals by_cases hij : i = j
      · subst hij
        rw [Config.put_calls_self] at hi
        cases hi
        exact hp
      · exact ih (Config.put_calls_of_ne _ _ _ hij ▸ hi)
      · subst hij
        rw [Config.put_calls_self] at hi
        cases hi
        exact ih hj
      · exact ih (Config.put_calls_of_ne _ _ _ hij ▸ hi)
      · subst hij
        simp at hi
      · exact ih (Config.put_calls_of_ne _ _ _ hij ▸ hi)

/-- A run under one regime is a run under another that starts the same requests
and allows every command that the first one allows. -/
theorem Reachable.mono {R' : Regime World Cmd Choice Request}
    (hstarts : ∀ i r, R.starts i r = true → R'.starts i r = true)
    (hallows : ∀ {β : Type} (w : World) (i : CallId) (r : Request) (cmd : Cmd β) (ch : Choice),
      R.starts i r = true → R.allows w r cmd ch = true → R'.allows w r cmd ch = true)
    {c : Config World Cmd Request Result} (h : M.Reachable R w₀ c) : M.Reachable R' w₀ c := by
  induction h with
  | initial => exact .initial
  | @next c c' l h hp hn ih =>
      refine ih.next ?_ hn
      cases l with
      | start i r => exact hstarts i r hp
      | finish i => rfl
      | cut i => rfl
      | step i ch =>
          simp only [Regime.permits] at hp ⊢
          split
          · rename_i r β cmd k hi
            rw [hi] at hp
            exact hallows _ _ _ _ _ (h.starts hi) hp
          · rfl

end Machine
end Interleaving
