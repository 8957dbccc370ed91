import HireAndTech.Runs.Partial

/-!
# Registers over runs

A register is created with the value of one call, and every later call replaces the value or
leaves it.  Calls that fail do not count: a run leaves the list of the calls that succeed.

Main results:

- Definition {lit}`succeeded`: the calls of a run that succeed.
- Theorem {lit}`tracked`: an invariant about the state and the calls that led to it.
- Theorem {lit}`Register.after_supplied`: a register holds the value that was supplied last.
-/

namespace Runs

variable {σ α β : Type}

/-! ## Calls that succeed -/

/-- The calls of a run that succeed, in their order. -/
def succeeded (step : σ → α → Option σ) (s : σ) : List α → List α
  | [] => []
  | call :: calls =>
      match step s call with
      | none => succeeded step s calls
      | some s' => call :: succeeded step s' calls

/-- What every successful call keeps of a state and of what the calls before it have left
behind. -/
theorem tracked (step : σ → α → Option σ) (trace : α → List β) {J : σ → Prop}
    {I : σ → List β → Prop} (hJstep : ∀ s call s', J s → step s call = some s' → J s')
    (hstep : ∀ s past call s', J s → I s past → step s call = some s' →
      I s' (past ++ trace call))
    {s : σ} (hJ : J s) {past : List β} (hI : I s past) (calls : List α) :
    I (final step s calls) (past ++ (succeeded step s calls).flatMap trace) := by
  induction calls generalizing s past with
  | nil =>
      rw [succeeded, List.flatMap_nil, List.append_nil]
      exact hI
  | cons call calls ih =>
      rw [final_cons, succeeded]
      cases hcall : step s call with
      | none => exact ih hJ hI
      | some s' =>
          have hnext := ih (hJstep s call s' hJ hcall) (hstep s past call s' hJ hI hcall)
          rw [List.append_assoc] at hnext
          exact hnext

/-! ## Registers -/

/-- Which calls supply a value, and the value of a call. -/
structure Register (α β : Type) where
  supplied : α → Bool
  incoming : α → β

namespace Register

variable (r : Register α β)

/-- The value after a call. -/
def update (value : β) (call : α) : β :=
  if r.supplied call then r.incoming call else value

/-- The value after some calls, of which the first creates the register. -/
def after : List α → Option β
  | [] => none
  | call :: calls => some (calls.foldl r.update (r.incoming call))

theorem after_append {calls : List α} {value : β} (h : r.after calls = some value) (call : α) :
    r.after (calls ++ [call]) = some (r.update value call) := by
  cases calls with
  | nil => contradiction
  | cons first rest =>
      cases h
      rw [List.cons_append, after, List.foldl_append]
      rfl

/-- A register holds the value that was supplied last. -/
theorem after_supplied {calls : List α} {call : α}
    (h : (calls.filter r.supplied).getLast? = some call) :
    r.after calls = some (r.incoming call) := by
  induction calls using List.reverseRecOn with
  | nil => contradiction
  | append_singleton calls last ih =>
      rw [List.filter_append] at h
      by_cases hlast : r.supplied last = true
      · rw [List.filter_cons_of_pos hlast, List.filter_nil, List.getLast?_concat,
          Option.some_inj] at h
        subst h
        cases calls with
        | nil => rfl
        | cons first rest =>
            rw [after_append r rfl, update, if_pos hlast]
      · rw [List.filter_cons_of_neg hlast, List.filter_nil, List.append_nil] at h
        rw [after_append r (ih h), update, if_neg hlast]

end Register

end Runs
