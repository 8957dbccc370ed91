import Mathlib

/-!
# Queries over tables

Outer joins, ordered results and pages.  An ordered query may return its rows in any order
that its sort key allows, and may choose it anew for every limit and offset.

Main results:

- Definitions {lit}`leftJoin`, {lit}`SortPlan` and {lit}`page`.
- Theorem {lit}`leftJoin_eq_map`: a join with at most one partner keeps one row for each row.
- Theorem {lit}`filter_pushdown`: a prefilter that is coarser than the test after it.
- Theorem {lit}`SortPlan.rows_eq`: distinct keys leave one order.
- Theorem {lit}`mem_take_of_precedes`: a prefix of an ordered list is closed downwards.
- Theorem {lit}`pages_eq`: the pages of a list make up the list.
- Theorem {lit}`length_page`: every page but the last one is full.
-/

namespace Relational

variable {α β κ : Type}

/-! ## Joins -/

/-- `LEFT OUTER JOIN … ON …`. -/
def leftJoin (on : α → β → Bool) (rows : List α) (others : List β) : List (α × Option β) :=
  rows.flatMap fun x =>
    match others.filter (on x) with
    | [] => [(x, none)]
    | partners => partners.map fun y => (x, some y)

theorem mem_leftJoin {on : α → β → Bool} {rows : List α} {others : List β}
    {row : α × Option β} (h : row ∈ leftJoin on rows others) : row.1 ∈ rows := by
  obtain ⟨x, hx, hrow⟩ := List.mem_flatMap.mp h
  cases hpartners : others.filter (on x) with
  | nil =>
      rw [hpartners, List.mem_singleton] at hrow
      exact hrow ▸ hx
  | cons y rest =>
      rw [hpartners] at hrow
      obtain ⟨z, _, rfl⟩ := List.mem_map.mp hrow
      exact hx

/-- A row with at most one partner keeps its place. -/
theorem leftJoin_eq_map {on : α → β → Bool} {rows : List α} {others : List β}
    (h : ∀ x ∈ rows, (others.filter (on x)).length ≤ 1) :
    leftJoin on rows others = rows.map fun x => (x, (others.filter (on x)).head?) := by
  rw [leftJoin, List.map_eq_flatMap]
  apply List.flatMap_congr
  intro x hx
  have hlength := h x hx
  cases hpartners : others.filter (on x) with
  | nil => rfl
  | cons y rest =>
      rw [hpartners, List.length_cons] at hlength
      have hrest : rest = [] := List.eq_nil_of_length_eq_zero (by omega)
      rw [hrest]
      rfl

/-- A filter that keeps all that a later test accepts may come first. -/
theorem filter_pushdown {read : α → Option β} {admits : α → Bool} {accepts : β → Bool}
    (h : ∀ x y, read x = some y → accepts y = true → admits x = true) (xs : List α) :
    ((xs.filter admits).filterMap read).filter accepts =
      (xs.filterMap read).filter accepts := by
  rw [List.filterMap_filter, List.filter_filterMap, List.filter_filterMap]
  apply List.filterMap_congr
  intro x _
  by_cases hadmits : admits x = true
  · rw [if_pos hadmits]
  · rw [if_neg hadmits]
    cases hread : read x with
    | none => rfl
    | some y =>
        have hrejected : accepts y = false := by
          by_contra hy
          exact hadmits (h x y hread (Bool.eq_true_of_not_eq_false hy))
        rw [Option.filter_some, if_neg (by rw [hrejected]; exact Bool.false_ne_true)]
        rfl

/-! ## Orders -/

/-- The rows of an ordered query for every offset and limit, in some order of their keys. -/
structure SortPlan [LinearOrder κ] (key : α → κ) where
  rows : Nat → Nat → List α → List α
  perm : ∀ offset limit xs, (rows offset limit xs).Perm xs
  sorted : ∀ offset limit xs, (rows offset limit xs).Pairwise fun x y => key x ≤ key y

/-- The rows in a stable order. -/
def sortedBy [LinearOrder κ] (key : α → κ) (xs : List α) : List α :=
  xs.insertionSort fun x y => key x ≤ key y

section

variable [LinearOrder κ] {key : α → κ} {xs ys : List α}

instance byKey_total : Std.Total fun x y : α => key x ≤ key y :=
  ⟨fun x y => le_total (key x) (key y)⟩

instance byKey_trans : IsTrans α fun x y => key x ≤ key y :=
  ⟨fun _ _ _ => le_trans⟩

theorem sortedBy_perm (key : α → κ) (xs : List α) : (sortedBy key xs).Perm xs :=
  List.perm_insertionSort _ xs

theorem sortedBy_sorted (key : α → κ) (xs : List α) :
    (sortedBy key xs).Pairwise fun x y => key x ≤ key y :=
  List.pairwise_insertionSort _ xs

/-- Rows with distinct keys are in order in one way. -/
theorem sorted_unique (hkeys : (xs.map key).Nodup) (hperm : xs.Perm ys)
    (hxs : xs.Pairwise fun x y => key x ≤ key y) (hys : ys.Pairwise fun x y => key x ≤ key y) :
    xs = ys := by
  apply hperm.eq_of_pairwise _ hxs hys
  intro x y hx hy hxy hyx
  exact List.inj_on_of_nodup_map hkeys hx (hperm.mem_iff.mpr hy) (le_antisymm hxy hyx)

/-- The first row in the order is a row whose key is least. -/
theorem head_sortedBy {x : α} (h : (sortedBy key xs).head? = some x) :
    x ∈ xs ∧ ∀ y ∈ xs, key x ≤ key y := by
  cases hsorted : sortedBy key xs with
  | nil => simp [hsorted] at h
  | cons z rest =>
      have hz : z = x := by simpa [hsorted] using h
      have hpairs := sortedBy_sorted key xs
      rw [hsorted, List.pairwise_cons] at hpairs
      have hmem : ∀ y, y ∈ xs ↔ y = z ∨ y ∈ rest := by
        intro y
        rw [← (sortedBy_perm key xs).mem_iff, hsorted, List.mem_cons]
      rw [← hz]
      constructor
      · exact (hmem z).mpr (Or.inl rfl)
      · intro y hy
        cases (hmem y).mp hy with
        | inl heq => exact heq ▸ le_rfl
        | inr hrest => exact hpairs.1 y hrest

/-- The stable order. -/
def SortPlan.stable (key : α → κ) : SortPlan key where
  rows _ _ xs := sortedBy key xs
  perm _ _ xs := sortedBy_perm key xs
  sorted _ _ xs := sortedBy_sorted key xs

/-- Distinct keys leave one order for every offset and limit. -/
theorem SortPlan.rows_eq (plan : SortPlan key) (hkeys : (xs.map key).Nodup)
    (offset limit : Nat) : plan.rows offset limit xs = sortedBy key xs := by
  have hplan : (plan.rows offset limit xs).Perm xs := plan.perm offset limit xs
  apply sorted_unique _ (hplan.trans (sortedBy_perm key xs).symm)
    (plan.sorted offset limit xs) (sortedBy_sorted key xs)
  exact (hplan.map key).nodup_iff.mpr hkeys

end

/-- What precedes a row of a prefix of an ordered list is in the prefix. -/
theorem mem_take_of_precedes {r : α → α → Prop} {xs : List α} {x y : α} {n : Nat}
    (hsorted : xs.Pairwise r) (hanti : ∀ x ∈ xs, ∀ y ∈ xs, r x y → r y x → x = y)
    (hx : x ∈ xs.take n) (hy : y ∈ xs) (hyx : r y x) : y ∈ xs.take n := by
  have hsplit := hy
  rw [← List.take_append_drop n xs, List.mem_append] at hsplit
  rcases hsplit with htake | hdrop
  · exact htake
  · rw [← List.take_append_drop n xs, List.pairwise_append] at hsorted
    have hxy : r x y := hsorted.2.2 x hx y hdrop
    rw [← hanti x (List.mem_of_mem_take hx) y hy hxy hyx]
    exact hx

/-! ## Pages -/

/-- `OFFSET … LIMIT …`. -/
def page (offset limit : Nat) (xs : List α) : List α :=
  (xs.drop offset).take limit

/-- The first pages make up a prefix. -/
theorem flatMap_page (size : Nat) (xs : List α) (n : Nat) :
    ((List.range n).flatMap fun k => page (k * size) size xs) = xs.take (n * size) := by
  induction n with
  | zero => simp
  | succ n ih =>
      rw [List.range_succ, List.flatMap_append, ih, List.flatMap_singleton, page, Nat.succ_mul,
        List.take_add]

/-- The number of pages of a given size. -/
def pageCount (total size : Nat) : Nat :=
  (total + size - 1) / size

/-- All pages make up the list. -/
theorem pages_eq {size : Nat} (hsize : 1 ≤ size) (xs : List α) :
    ((List.range (pageCount xs.length size)).flatMap fun k => page (k * size) size xs) = xs := by
  rw [flatMap_page]
  apply List.take_of_length_le
  have hdiv := Nat.div_add_mod (xs.length + size - 1) size
  have hmod := Nat.mod_lt (xs.length + size - 1) hsize
  rw [pageCount, Nat.mul_comm]
  omega

/-- Every page but the last one is full. -/
theorem length_page {size k : Nat} {xs : List α} (h : k + 1 < pageCount xs.length size) :
    (page (k * size) size xs).length = size := by
  have hpages : (k + 2) * size ≤ xs.length + size - 1 :=
    (Nat.mul_le_mul_right size h).trans (Nat.div_mul_le_self _ _)
  simp only [page, List.length_take, List.length_drop]
  have hsplit : (k + 2) * size = k * size + size + size := by ring
  omega

/-- The pages of a list whose elements are tested page by page. -/
theorem filtered_pages_eq {size : Nat} (hsize : 1 ≤ size) (p : α → Bool) (xs : List α) :
    ((List.range (pageCount xs.length size)).flatMap fun k =>
      (page (k * size) size xs).filter p) = xs.filter p := by
  rw [← List.filter_flatMap, pages_eq hsize]

end Relational
