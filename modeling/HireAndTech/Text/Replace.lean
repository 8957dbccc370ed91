import Mathlib

/-!
# Replacing pairs

The replacement of every occurrence of a pair of elements, from left to right, where the
occurrences do not overlap.

Main results:

- Definition {lit}`replacePair`: the replacement.
- Theorems {lit}`replacePair_cons_of_ne`, {lit}`replacePair_cons_of_head` and
  {lit}`replacePair_pair`: the replacement step by step.
- Theorem {lit}`head_replacePair_ne`: what a replacement begins with.
-/

namespace Replace

variable {α : Type} [DecidableEq α]

/-- The list with each pair replaced. -/
def replacePair (a b : α) (new : List α) : List α → List α
  | [] => []
  | [x] => [x]
  | x :: y :: rest =>
      if x = a ∧ y = b then new ++ replacePair a b new rest
      else x :: replacePair a b new (y :: rest)

variable {a b x y : α} {new xs : List α}

@[simp]
theorem replacePair_nil : replacePair a b new [] = [] :=
  rfl

/-- An element that no pair begins with is kept. -/
theorem replacePair_cons_of_ne (h : x ≠ a) :
    replacePair a b new (x :: xs) = x :: replacePair a b new xs := by
  cases xs with
  | nil => rfl
  | cons y rest => simp [replacePair, h]

/-- An element that is not followed by the second one of the pair is kept. -/
theorem replacePair_cons_of_head (h : xs.head? ≠ some b) :
    replacePair a b new (x :: xs) = x :: replacePair a b new xs := by
  cases xs with
  | nil => rfl
  | cons y rest =>
      have hy : y ≠ b := by simpa using h
      simp [replacePair, hy]

theorem replacePair_cons_cons_of_ne (h : y ≠ b) :
    replacePair a b new (x :: y :: xs) = x :: replacePair a b new (y :: xs) :=
  replacePair_cons_of_head (by simpa using h)

theorem replacePair_pair : replacePair a b new (a :: b :: xs) = new ++ replacePair a b new xs := by
  simp [replacePair]

/-- A replacement begins with the new elements or with what the list begins with. -/
theorem head_replacePair_ne (hxs : xs.head? ≠ some y) (hnew : new.head? ≠ some y)
    (hnonempty : new ≠ []) : (replacePair a b new xs).head? ≠ some y := by
  cases xs with
  | nil => exact hxs
  | cons x rest =>
      cases rest with
      | nil => exact hxs
      | cons z rest =>
          by_cases hpair : x = a ∧ z = b
          · obtain ⟨n, new', rfl⟩ := List.exists_cons_of_ne_nil hnonempty
            simpa [replacePair, hpair] using hnew
          · simpa [replacePair, hpair] using hxs

end Replace
