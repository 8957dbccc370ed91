import Mathlib

/-!
# Counting semaphores with a queue

A semaphore has a value and a queue of waiters.  Whoever finds it locked joins the queue.  A
permit that is released goes to the first waiter that still waits, who takes it along when it
resumes, or gives it back if it has been cancelled in the meantime.

Main results:

- Definition {lit}`Semaphore.permits`: the permits that are free or granted to a waiter.
- Theorems {lit}`permits_acquire`, {lit}`permits_resume`, {lit}`permits_release` and
  {lit}`permits_cancel`: what the operations do to them.
-/

namespace Semaphores

/-- The future of a waiter. -/
inductive Waiter
  | pending
  | granted
  | cancelled
deriving DecidableEq, Repr

/-- The value of a semaphore, and its waiters in their order. -/
structure Semaphore (ι : Type) where
  value : ℕ
  waiters : List (ι × Waiter)
deriving DecidableEq, Repr

variable {ι : Type}

/-- The first waiter that still waits is granted a permit. -/
def grantFirst : List (ι × Waiter) → Option (List (ι × Waiter))
  | [] => none
  | (i, .pending) :: ws => some ((i, .granted) :: ws)
  | w :: ws => (grantFirst ws).map (w :: ·)

/-- Grant permits as long as there are permits and waiters that wait. -/
def wakeUp : ℕ → List (ι × Waiter) → Semaphore ι
  | 0, ws => ⟨0, ws⟩
  | n + 1, ws =>
      match grantFirst ws with
      | none => ⟨n + 1, ws⟩
      | some ws' => wakeUp n ws'

namespace Semaphore

/-- The semaphore before its first use. -/
def initial (value : ℕ) : Semaphore ι :=
  ⟨value, []⟩

variable (s : Semaphore ι)

/-- The semaphore cannot be acquired at once. -/
def locked : Bool :=
  s.value = 0 || s.waiters.any (·.2 ≠ .cancelled)

/-- Acquire a permit, or join the queue. -/
def acquire (i : ι) : Semaphore ι × Bool :=
  if s.locked then ({ s with waiters := s.waiters ++ [(i, .pending)] }, false)
  else ({ s with value := s.value - 1 }, true)

/-- Release a permit. -/
def release : Semaphore ι :=
  match grantFirst s.waiters with
  | none => { s with value := s.value + 1 }
  | some waiters => { s with waiters := waiters }

/-- The waiters in their order. -/
def queue : List ι :=
  s.waiters.map (·.1)

/-- The waiters that have been granted a permit. -/
def granted : List ι :=
  (s.waiters.filter (·.2 = .granted)).map (·.1)

/-- The permits that are free or granted to a waiter. -/
def permits : ℕ :=
  s.value + s.granted.length

variable [DecidableEq ι]

/-- A waiter that still waits is cancelled. -/
def cancel (i : ι) : Semaphore ι :=
  { s with waiters := s.waiters.map fun w => if w = (i, .pending) then (i, .cancelled) else w }

/-- A waiter resumes; {lean}`none` while it has to wait.  It has a permit unless it has been
cancelled, before or after the permit was granted. -/
def resume (i : ι) (cancelled : Bool) : Option (Semaphore ι × Bool) :=
  let others := s.waiters.filter (·.1 ≠ i)
  if (i, .granted) ∈ s.waiters then
    if cancelled then some (wakeUp (s.value + 1) others, false)
    else some (wakeUp s.value others, true)
  else if (i, .cancelled) ∈ s.waiters then some (wakeUp s.value others, false)
  else none

end Semaphore

/-! ## Waking up -/

section

variable {ws ws' : List (ι × Waiter)}

theorem grantFirst_queue (h : grantFirst ws = some ws') : ws'.map (·.1) = ws.map (·.1) := by
  induction ws generalizing ws' with
  | nil => contradiction
  | cons w ws ih =>
      obtain ⟨i, _ | _ | _⟩ := w
      case pending =>
        cases h
        rfl
      all_goals
        obtain ⟨rest, hrest, rfl⟩ := Option.map_eq_some_iff.mp h
        exact congrArg (i :: ·) (ih hrest)

theorem grantFirst_granted (h : grantFirst ws = some ws') :
    (ws'.filter (·.2 = .granted)).length = (ws.filter (·.2 = .granted)).length + 1 := by
  induction ws generalizing ws' with
  | nil => contradiction
  | cons w ws ih =>
      obtain ⟨i, _ | _ | _⟩ := w
      case pending =>
        cases h
        simp
      all_goals
        obtain ⟨rest, hrest, rfl⟩ := Option.map_eq_some_iff.mp h
        have := ih hrest
        simp_all

theorem wakeUp_queue (n : ℕ) (ws : List (ι × Waiter)) : (wakeUp n ws).queue = ws.map (·.1) := by
  induction n generalizing ws with
  | zero => rfl
  | succ n ih =>
      rw [wakeUp]
      split
      · rfl
      · rename_i ws' hgrant
        rw [ih, grantFirst_queue hgrant]

theorem wakeUp_permits (n : ℕ) (ws : List (ι × Waiter)) :
    (wakeUp n ws).permits = n + (ws.filter (·.2 = .granted)).length := by
  induction n generalizing ws with
  | zero => simp [wakeUp, Semaphore.permits, Semaphore.granted]
  | succ n ih =>
      rw [wakeUp]
      split
      · simp [Semaphore.permits, Semaphore.granted]
      · rename_i ws' hgrant
        rw [ih, grantFirst_granted hgrant]
        omega

end

/-! ## The operations -/

section

variable {s s' : Semaphore ι} {i : ι}

theorem permits_release : s.release.permits = s.permits + 1 := by
  unfold Semaphore.release
  split
  · simp only [Semaphore.permits, Semaphore.granted]
    omega
  · rename_i ws hgrant
    simp only [Semaphore.permits, Semaphore.granted, List.length_map]
    rw [grantFirst_granted hgrant]
    omega

theorem queue_release : s.release.queue = s.queue := by
  unfold Semaphore.release
  split
  · rfl
  · rename_i ws hgrant
    exact grantFirst_queue hgrant

/-- An acquisition takes a permit, or joins the queue. -/
theorem permits_acquire {acquired : Bool} (h : s.acquire i = (s', acquired)) :
    (acquired = true ∧ s'.permits + 1 = s.permits ∧ s'.queue = s.queue) ∨
      (acquired = false ∧ s'.permits = s.permits ∧ s'.queue = s.queue ++ [i]) := by
  unfold Semaphore.acquire at h
  split at h
  · cases h
    refine Or.inr ⟨rfl, ?_, ?_⟩
    · simp [Semaphore.permits, Semaphore.granted]
    · simp [Semaphore.queue]
  · rename_i hlocked
    cases h
    have hvalue : s.value ≠ 0 := by
      intro hzero
      exact hlocked (by simp [Semaphore.locked, hzero])
    refine Or.inl ⟨rfl, ?_, rfl⟩
    simp only [Semaphore.permits, Semaphore.granted]
    omega

variable [DecidableEq ι]

theorem queue_cancel : (s.cancel i).queue = s.queue := by
  rw [Semaphore.queue, Semaphore.cancel, List.map_map]
  refine List.map_congr_left fun w _ => ?_
  rw [Function.comp_apply]
  split
  · rename_i heq
    rw [heq]
  · rfl

theorem permits_cancel : (s.cancel i).permits = s.permits := by
  have hgranted : ∀ ws : List (ι × Waiter),
      ((ws.map fun w => if w = (i, .pending) then (i, .cancelled) else w).filter
        (·.2 = .granted)).length = (ws.filter (·.2 = .granted)).length := by
    intro ws
    rw [List.filter_map, List.length_map]
    congr 1
    refine List.filter_congr fun w _ => ?_
    rw [Function.comp_apply]
    split
    · rename_i heq
      simp [heq]
    · rfl
  simp only [Semaphore.permits, Semaphore.granted, List.length_map]
  exact congrArg (s.value + ·) (hgranted s.waiters)

/-- The granted permits without those of one waiter. -/
theorem granted_others (hnodup : (s.waiters.map (·.1)).Nodup) :
    ((s.waiters.filter (·.1 ≠ i)).filter (·.2 = .granted)).length +
      (if (i, .granted) ∈ s.waiters then 1 else 0) = s.granted.length := by
  obtain ⟨value, ws⟩ := s
  simp only [Semaphore.granted, List.length_map]
  induction ws with
  | nil => simp
  | cons w ws ih =>
      obtain ⟨hfresh, hnodup⟩ := List.nodup_cons.mp hnodup
      have ih := ih hnodup
      obtain ⟨j, waiter⟩ := w
      by_cases hij : j = i
      · subst hij
        have habsent : (j, Waiter.granted) ∉ ws := fun hmem =>
          hfresh (List.mem_map_of_mem (f := (·.1)) hmem)
        rw [if_neg habsent] at ih
        cases waiter <;> simp_all
      · have hne : (i, Waiter.granted) ≠ (j, waiter) := fun heq => hij (congrArg (·.1) heq).symm
        have hmem : (i, Waiter.granted) ∈ (j, waiter) :: ws ↔ (i, Waiter.granted) ∈ ws := by
          rw [List.mem_cons, or_iff_right hne]
        simp only [hmem]
        cases waiter with
        | granted =>
            simp_all
            omega
        | _ => simp_all

/-- A waiter that resumes takes its permit along, or leaves the queue without one. -/
theorem permits_resume {cancelled acquired : Bool} (hnodup : s.queue.Nodup)
    (h : s.resume i cancelled = some (s', acquired)) :
    s'.queue = s.queue.filter (· ≠ i) ∧ i ∈ s.queue ∧
      s'.permits + (if acquired then 1 else 0) = s.permits := by
  have hothers := granted_others (i := i) hnodup
  have hqueue : (s.waiters.filter (·.1 ≠ i)).map (·.1) = s.queue.filter (· ≠ i) := by
    rw [Semaphore.queue, List.filter_map]
    rfl
  unfold Semaphore.resume at h
  dsimp only at h
  split at h
  · rename_i hgranted
    have hmem : i ∈ s.queue := List.mem_map_of_mem (f := (·.1)) hgranted
    rw [if_pos hgranted] at hothers
    split at h
    · cases h
      refine ⟨(wakeUp_queue _ _).trans hqueue, hmem, ?_⟩
      rw [wakeUp_permits, Semaphore.permits]
      simp only [Bool.false_eq_true, if_false]
      omega
    · cases h
      refine ⟨(wakeUp_queue _ _).trans hqueue, hmem, ?_⟩
      rw [wakeUp_permits, Semaphore.permits]
      simp only [if_true]
      omega
  · rename_i hgranted
    rw [if_neg hgranted] at hothers
    split at h
    · rename_i hcancelled
      have hmem : i ∈ s.queue := List.mem_map_of_mem (f := (·.1)) hcancelled
      cases h
      refine ⟨(wakeUp_queue _ _).trans hqueue, hmem, ?_⟩
      rw [wakeUp_permits, Semaphore.permits]
      simp only [Bool.false_eq_true, if_false]
      omega
    · contradiction

end

end Semaphores
