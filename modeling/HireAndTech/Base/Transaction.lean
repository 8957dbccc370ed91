import Mathlib

/-!
# Transactions of one session

A program of a session reads and changes what its transaction shows.  Others see the changes when
the session commits.  A program that raises leaves its session as it stands.

Main results:

- Definition {lit}`Transaction`: programs of a session.
- Theorem {lit}`Quiet.bind_atomic`: a program that raises has committed nothing, when the parts
  before its last one commit nothing.
- Theorem {lit}`returns_bind_iff`: what a program that returns has done.
-/

namespace Base

/-- What is committed, and what the transaction of a session shows. -/
structure Session (σ : Type) where
  committed : σ
  working : σ

/-- A program of a session. -/
def Transaction (σ ε α : Type) :=
  Session σ → Except ε α × Session σ

namespace Transaction

variable {σ ε α β : Type}

instance : Monad (Transaction σ ε) where
  pure a := fun s => (.ok a, s)
  bind x f := fun s =>
    match x s with
    | (.ok a, s') => f a s'
    | (.error e, s') => (.error e, s')

instance : MonadExceptOf ε (Transaction σ ε) where
  throw e := fun s => (.error e, s)
  tryCatch x handler := fun s =>
    match x s with
    | (.ok a, s') => (.ok a, s')
    | (.error e, s') => handler e s'

/-- What the transaction shows. -/
def read : Transaction σ ε σ :=
  fun s => (.ok s.working, s)

def change (f : σ → σ) : Transaction σ ε Unit :=
  fun s => (.ok (), { s with working := f s.working })

def commit : Transaction σ ε Unit :=
  fun s => (.ok (), { s with committed := s.working })

def rollback : Transaction σ ε Unit :=
  fun s => (.ok (), { s with working := s.committed })

/-- A program without effects on its session. -/
def lift (x : Except ε α) : Transaction σ ε α :=
  fun s => (x, s)

/-- From one session to another the program returns a value. -/
def Returns (x : Transaction σ ε α) (s : Session σ) (a : α) (s' : Session σ) : Prop :=
  x s = (.ok a, s')

/-- The program commits nothing. -/
def Quiet (x : Transaction σ ε α) : Prop :=
  ∀ s, (x s).2.committed = s.committed

/-- The program commits nothing when it raises. -/
def Atomic (x : Transaction σ ε α) : Prop :=
  ∀ s e s', x s = (.error e, s') → s'.committed = s.committed

section

variable {x : Transaction σ ε α} {f : α → Transaction σ ε β} {a a' : α} {b : β} {e : ε}
  {s s' : Session σ}

/-! ## Values -/

theorem bind_apply : (x >>= f) s =
    match x s with
    | (Except.ok a, s') => f a s'
    | (Except.error e, s') => (Except.error e, s') :=
  rfl

theorem tryCatch_apply {handler : ε → Transaction σ ε α} : tryCatch x handler s =
    match x s with
    | (Except.ok a, s') => (Except.ok a, s')
    | (Except.error e, s') => handler e s' :=
  rfl

@[simp]
theorem returns_pure_iff : (pure a : Transaction σ ε α).Returns s a' s' ↔ a = a' ∧ s = s' := by
  simp [Returns, pure]

@[simp]
theorem not_returns_throw : ¬(throw e : Transaction σ ε α).Returns s a s' := by
  intro h
  cases h

@[simp]
theorem returns_read_iff {shown : σ} :
    (read : Transaction σ ε σ).Returns s shown s' ↔ s.working = shown ∧ s = s' := by
  simp [Returns, read]

@[simp]
theorem returns_change_iff {g : σ → σ} {done : Unit} :
    (change g : Transaction σ ε Unit).Returns s done s' ↔
      { s with working := g s.working } = s' := by
  simp [Returns, change]

@[simp]
theorem returns_commit_iff {done : Unit} :
    (commit : Transaction σ ε Unit).Returns s done s' ↔
      { s with committed := s.working } = s' := by
  simp [Returns, commit]

@[simp]
theorem returns_lift_iff {result : Except ε α} :
    (lift result : Transaction σ ε α).Returns s a s' ↔ result = .ok a ∧ s = s' := by
  simp [Returns, lift]

theorem returns_bind_iff :
    (x >>= f).Returns s b s' ↔ ∃ a middle, x.Returns s a middle ∧ (f a).Returns middle b s' := by
  unfold Returns
  rw [bind_apply]
  rcases x s with ⟨e | a, middle⟩ <;> simp

/-- A handler that only raises plays no part in what is returned. -/
theorem returns_tryCatch_iff {handler : ε → Transaction σ ε α}
    (h : ∀ e s s', ¬(handler e).Returns s a s') :
    (tryCatch x handler).Returns s a s' ↔ x.Returns s a s' := by
  unfold Returns
  rw [tryCatch_apply]
  rcases x s with ⟨e | a', middle⟩
  · exact iff_of_false (h e middle s') (by simp)
  · rfl

/-! ## What is committed -/

theorem quiet_pure : (pure a : Transaction σ ε α).Quiet :=
  fun _ => rfl

theorem quiet_throw : (throw e : Transaction σ ε α).Quiet :=
  fun _ => rfl

theorem quiet_read : (read : Transaction σ ε σ).Quiet :=
  fun _ => rfl

theorem quiet_change {g : σ → σ} : (change g : Transaction σ ε Unit).Quiet :=
  fun _ => rfl

theorem quiet_rollback : (rollback : Transaction σ ε Unit).Quiet :=
  fun _ => rfl

theorem quiet_lift {result : Except ε α} : (lift result : Transaction σ ε α).Quiet :=
  fun _ => rfl

theorem Quiet.bind (hx : x.Quiet) (hf : ∀ a, (f a).Quiet) : (x >>= f).Quiet := by
  intro s
  have hs := hx s
  rw [bind_apply]
  rcases hrun : x s with ⟨e | a, middle⟩ <;> rw [hrun] at hs
  · exact hs
  · exact (hf a middle).trans hs

theorem atomic_commit : (commit : Transaction σ ε Unit).Atomic := by
  intro s e s' h
  cases h

/-- The parts before the last one commit nothing. -/
theorem Quiet.bind_atomic (hx : x.Quiet) (hf : ∀ a, (f a).Atomic) : (x >>= f).Atomic := by
  intro s e s' h
  have hs := hx s
  rw [bind_apply] at h
  rcases hrun : x s with ⟨e' | a, middle⟩ <;> rw [hrun] at hs h
  · cases h
    exact hs
  · exact (hf a middle e s' h).trans hs

/-- What follows the last part returns. -/
theorem Atomic.bind_pure (hx : x.Atomic) {g : α → β} : (x >>= fun a => pure (g a)).Atomic := by
  intro s e s' h
  rw [bind_apply] at h
  rcases hrun : x s with ⟨e' | a, middle⟩ <;> rw [hrun] at h
  · cases h
    exact hx s e s' hrun
  · cases h

theorem Atomic.tryCatch {handler : ε → Transaction σ ε α} (hx : x.Atomic)
    (hhandler : ∀ e, (handler e).Quiet) : (tryCatch x handler).Atomic := by
  intro s e s' h
  rw [tryCatch_apply] at h
  rcases hrun : x s with ⟨e' | a, middle⟩ <;> rw [hrun] at h
  · have hhandled : handler e' middle = (Except.error e, s') := h
    have hmiddle := hhandler e' middle
    rw [hhandled] at hmiddle
    exact hmiddle.trans (hx s e' middle hrun)
  · cases h

end

end Transaction
end Base
