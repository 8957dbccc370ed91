import Mathlib

/-!
# Updates that override

An update overrides when it replaces some parts of a state by fixed values and leaves the others.
Of such updates the last one of each part decides, so that a sequence of them that is applied again
changes nothing.

Main results:

- Definition {lit}`Overriding`: a family of updates of this kind.
- Theorem {lit}`applyAll_again`: updates that have been applied leave no trace before the sequence.
- Theorem {lit}`applyAll_twice`: a sequence applied twice is the sequence.
-/

namespace Base

variable {α ι : Type}

/-- Each update is idempotent, and states that it maps to one stay so under the others. -/
structure Overriding (f : ι → α → α) : Prop where
  idem : ∀ i x, f i (f i x) = f i x
  compatible : ∀ i j x y, f i x = f i y → f i (f j x) = f i (f j y)

/-- One update after the other. -/
def applyAll (f : ι → α → α) (is : List ι) (x : α) : α :=
  is.foldl (fun x i => f i x) x

section

variable {f : ι → α → α} {i : ι} {is js : List ι} {x y : α}

@[simp]
theorem applyAll_nil : applyAll f [] x = x :=
  rfl

@[simp]
theorem applyAll_cons : applyAll f (i :: is) x = applyAll f is (f i x) :=
  rfl

theorem applyAll_append : applyAll f (is ++ js) x = applyAll f js (applyAll f is x) :=
  List.foldl_append

/-- States that an update maps to one stay so under a sequence of updates. -/
theorem Overriding.compatible_applyAll (h : Overriding f) (hxy : f i x = f i y) :
    f i (applyAll f is x) = f i (applyAll f is y) := by
  induction is generalizing x y with
  | nil => exact hxy
  | cons j is ih => exact ih (h.compatible i j x y hxy)

/-- An update leaves no trace before a sequence that has it. -/
theorem Overriding.applyAll_absorb (h : Overriding f) (hi : i ∈ is) :
    applyAll f is (f i x) = applyAll f is x := by
  obtain ⟨before, after, rfl⟩ := List.append_of_mem hi
  rw [applyAll_append, applyAll_append, applyAll_cons, applyAll_cons,
    h.compatible_applyAll (h.idem i x)]

/-- Updates leave no trace before a sequence that has them. -/
theorem Overriding.applyAll_again (h : Overriding f) (hsub : ∀ j ∈ js, j ∈ is) :
    applyAll f is (applyAll f js x) = applyAll f is x := by
  induction js generalizing x with
  | nil => rfl
  | cons j js ih =>
      rw [applyAll_cons, ih fun k hk => hsub k (List.mem_cons_of_mem j hk),
        h.applyAll_absorb (hsub j List.mem_cons_self)]

/-- A sequence that is applied again changes nothing. -/
theorem Overriding.applyAll_twice (h : Overriding f) :
    applyAll f is (applyAll f is x) = applyAll f is x :=
  h.applyAll_again fun _ hj => hj

end

end Base
