import Mathlib

/-!
# Runs of calls that may fail

A system takes one call after the other.  A call that fails changes nothing.  A
condition on calls is stated in the state before the call, and a property of states is
asked of every state of the run.

Main results:

- Theorem {lit}`invariant`: a property that every successful call keeps.
- Theorem {lit}`throughout_of_each`: a property that every successful call keeps under a
  condition.
- Theorem {lit}`throughout_iff_each`: the case in which the condition is also necessary.
-/

namespace Runs

variable {σ α : Type}

/-- The state after a sequence of calls. -/
def final (step : σ → α → Option σ) (s : σ) (calls : List α) : σ :=
  calls.foldl (fun s call => (step s call).getD s) s

/-- Every call of the run that succeeds meets the condition in the state before it. -/
def Each (step : σ → α → Option σ) (ok : σ → α → Prop) (s : σ) (calls : List α) : Prop :=
  ∀ before call after, calls = before ++ call :: after →
    (step (final step s before) call).isSome → ok (final step s before) call

/-- The property holds in every state of the run. -/
def Throughout (step : σ → α → Option σ) (I : σ → Prop) (s : σ) (calls : List α) : Prop :=
  ∀ before after, calls = before ++ after → I (final step s before)

section

variable {step : σ → α → Option σ} {I J : σ → Prop} {ok : σ → α → Prop} {s : σ} {call : α}
  {calls : List α}

@[simp]
theorem final_nil : final step s [] = s :=
  rfl

@[simp]
theorem final_cons : final step s (call :: calls) = final step ((step s call).getD s) calls :=
  rfl

@[simp]
theorem each_nil : Each step ok s [] := by
  intro before call after h
  cases before <;> contradiction

theorem each_cons :
    Each step ok s (call :: calls) ↔
      ((step s call).isSome → ok s call) ∧ Each step ok ((step s call).getD s) calls := by
  constructor
  · intro h
    constructor
    · exact h [] call calls rfl
    · intro before next after hcalls
      exact h (call :: before) next after (by rw [hcalls, List.cons_append])
  · rintro ⟨hfirst, hrest⟩ before next after hcalls
    cases before with
    | nil =>
        cases hcalls
        exact hfirst
    | cons first before =>
        cases hcalls
        exact hrest before next after rfl

theorem throughout_nil : Throughout step I s [] ↔ I s := by
  constructor
  · intro h
    exact h [] [] rfl
  · intro h before after hcalls
    rw [(List.append_eq_nil_iff.mp hcalls.symm).1]
    exact h

theorem throughout_cons :
    Throughout step I s (call :: calls) ↔
      I s ∧ Throughout step I ((step s call).getD s) calls := by
  constructor
  · intro h
    constructor
    · exact h [] (call :: calls) rfl
    · intro before after hcalls
      exact h (call :: before) after (by rw [hcalls, List.cons_append])
  · rintro ⟨hfirst, hrest⟩ before after hcalls
    cases before with
    | nil => exact hfirst
    | cons first before =>
        cases hcalls
        exact hrest before after rfl

theorem Throughout.final (h : Throughout step I s calls) : I (final step s calls) :=
  h calls [] (List.append_nil calls).symm

/-- What every successful call keeps holds in every state of the run. -/
theorem invariant (hstep : ∀ s call s', J s → step s call = some s' → J s') (hJ : J s)
    (calls : List α) : Throughout step J s calls := by
  induction calls generalizing s with
  | nil => exact throughout_nil.mpr hJ
  | cons call calls ih =>
      refine throughout_cons.mpr ⟨hJ, ih ?_⟩
      cases hcall : step s call with
      | none => exact hJ
      | some s' => exact hstep s call s' hJ hcall

/-- What every successful call that meets a condition keeps, next to an invariant. -/
theorem throughout_of_each (hJstep : ∀ s call s', J s → step s call = some s' → J s')
    (hstep : ∀ s call s', J s → I s → ok s call → step s call = some s' → I s')
    (hJ : J s) (hI : I s) (hcalls : Each step ok s calls) : Throughout step I s calls := by
  induction calls generalizing s with
  | nil => exact throughout_nil.mpr hI
  | cons call calls ih =>
      obtain ⟨hfirst, hrest⟩ := each_cons.mp hcalls
      refine throughout_cons.mpr ⟨hI, ?_⟩
      cases hcall : step s call with
      | none =>
          rw [hcall] at hrest
          exact ih hJ hI hrest
      | some s' =>
          rw [hcall] at hrest
          have hok : ok s call := hfirst (by rw [hcall]; rfl)
          exact ih (hJstep s call s' hJ hcall) (hstep s call s' hJ hI hok hcall) hrest

/-- A property that a successful call keeps exactly when it meets a condition holds in every
state of the run exactly when every successful call meets the condition. -/
theorem throughout_iff_each (hJstep : ∀ s call s', J s → step s call = some s' → J s')
    (hstep : ∀ s call s', J s → I s → step s call = some s' → (I s' ↔ ok s call))
    (hJ : J s) (hI : I s) : Throughout step I s calls ↔ Each step ok s calls := by
  constructor
  · intro h
    induction calls generalizing s with
    | nil => exact each_nil
    | cons call calls ih =>
        have hrest := (throughout_cons.mp h).2
        have hnext : I ((step s call).getD s) := hrest [] calls rfl
        rw [each_cons]
        cases hcall : step s call with
        | none =>
            rw [hcall] at hrest hnext
            exact ⟨by simp, ih hJ hnext hrest⟩
        | some s' =>
            rw [hcall] at hrest hnext
            have hok : ok s call := (hstep s call s' hJ hI hcall).mp hnext
            exact ⟨fun _ => hok, ih (hJstep s call s' hJ hcall) hnext hrest⟩
  · intro hcalls
    apply throughout_of_each hJstep _ hJ hI hcalls
    intro s call s' hJ hI hok hcall
    exact (hstep s call s' hJ hI hcall).mpr hok

theorem throughout_and {K : σ → Prop} :
    Throughout step (fun s => I s ∧ K s) s calls ↔
      Throughout step I s calls ∧ Throughout step K s calls := by
  constructor
  · intro h
    exact ⟨fun before after hcalls => (h before after hcalls).1,
      fun before after hcalls => (h before after hcalls).2⟩
  · intro h before after hcalls
    exact ⟨h.1 before after hcalls, h.2 before after hcalls⟩

/-- Properties that agree next to an invariant hold in the same runs. -/
theorem throughout_congr {K : σ → Prop}
    (hJstep : ∀ s call s', J s → step s call = some s' → J s') (hJ : J s)
    (h : ∀ s, J s → (I s ↔ K s)) : Throughout step I s calls ↔ Throughout step K s calls := by
  have hinv : Throughout step J s calls := invariant hJstep hJ calls
  constructor
  · intro hI before after hcalls
    exact (h _ (hinv before after hcalls)).mp (hI before after hcalls)
  · intro hK before after hcalls
    exact (h _ (hinv before after hcalls)).mpr (hK before after hcalls)

end

end Runs
