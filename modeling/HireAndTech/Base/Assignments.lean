import Mathlib

/-!
# Assignments to keys

A mapping as the list of its items in the order of their keys' first assignments.  A later
assignment to a key replaces the value.

Main results:

- Definition {lit}`assignAll`: the mapping after several assignments.
- Theorem {lit}`mem_assignAll_iff`: its items are the last assignments.
-/

namespace Base

variable {κ β : Type} [DecidableEq κ]

/-- `d[key] = value`. -/
def assign (d : List (κ × β)) (item : κ × β) : List (κ × β) :=
  if d.any fun other => other.1 = item.1 then
    d.map fun other => if other.1 = item.1 then item else other
  else d ++ [item]

def assignAll (items : List (κ × β)) : List (κ × β) :=
  items.foldl assign []

section

variable {d items : List (κ × β)} {item other : κ × β}

theorem mem_assign_iff :
    other ∈ assign d item ↔ other = item ∨ (other ∈ d ∧ other.1 ≠ item.1) := by
  unfold assign
  split
  · rename_i hany
    obtain ⟨old, hold, hkey⟩ := List.any_eq_true.mp hany
    rw [decide_eq_true_eq] at hkey
    rw [List.mem_map]
    constructor
    · rintro ⟨entry, hentry, rfl⟩
      split
      · exact Or.inl rfl
      · exact Or.inr ⟨hentry, ‹_›⟩
    · rintro (rfl | ⟨hother, hne⟩)
      · exact ⟨old, hold, if_pos hkey⟩
      · exact ⟨other, hother, if_neg hne⟩
  · rename_i hnone
    rw [List.mem_append, List.mem_singleton, or_comm]
    refine or_congr_right ⟨fun hother => ⟨hother, fun hkey => ?_⟩, And.left⟩
    exact hnone (List.any_eq_true.mpr ⟨other, hother, decide_eq_true hkey⟩)

theorem length_assign_le : (assign d item).length ≤ d.length + 1 := by
  unfold assign
  split
  · rw [List.length_map]
    exact Nat.le_succ _
  · rw [List.length_append, List.length_singleton]

theorem assignAll_concat : assignAll (items ++ [item]) = assign (assignAll items) item := by
  rw [assignAll, List.foldl_append]
  rfl

theorem length_assignAll_le : (assignAll items).length ≤ items.length := by
  induction items using List.reverseRecOn with
  | nil => exact Nat.le_refl 0
  | append_singleton items item ih =>
      rw [assignAll_concat, List.length_append, List.length_singleton]
      exact length_assign_le.trans (Nat.succ_le_succ ih)

omit [DecidableEq κ] in
/-- What a key is mapped to is one of the items. -/
theorem mem_of_lookup [BEq κ] [LawfulBEq κ] {key : κ} {value : β}
    (h : d.lookup key = some value) : (key, value) ∈ d := by
  obtain ⟨before, after, rfl, _⟩ := List.lookup_eq_some_iff.mp h
  exact List.mem_append_right before List.mem_cons_self

/-- The items of a mapping are the assignments that no later one replaces. -/
theorem mem_assignAll_iff : other ∈ assignAll items ↔
    ∃ before after, items = before ++ other :: after ∧ ∀ later ∈ after, later.1 ≠ other.1 := by
  induction items using List.reverseRecOn with
  | nil => simp [assignAll]
  | append_singleton items item ih =>
      rw [assignAll_concat, mem_assign_iff, ih]
      constructor
      · rintro (rfl | ⟨⟨before, after, rfl, hafter⟩, hne⟩)
        · exact ⟨items, [], rfl, fun _ h => absurd h List.not_mem_nil⟩
        · refine ⟨before, after ++ [item], by simp, fun later hlater => ?_⟩
          rcases List.mem_append.mp hlater with hlater | hlater
          · exact hafter later hlater
          · rw [List.mem_singleton.mp hlater]
            exact hne.symm
      · rintro ⟨before, after, heq, hafter⟩
        rcases List.eq_nil_or_concat after with rfl | ⟨after, last, rfl⟩
        · left
          exact (List.singleton_inj.mp (List.append_inj' heq rfl).2).symm
        · right
          rw [List.concat_eq_append] at heq hafter
          rw [← List.cons_append, ← List.append_assoc] at heq
          obtain ⟨hitems, hlast⟩ := List.append_inj' heq rfl
          rw [List.singleton_inj] at hlast
          refine ⟨⟨before, after, hitems, fun later hlater => ?_⟩, ?_⟩
          · exact hafter later (List.mem_append_left _ hlater)
          · rw [hlast]
            exact (hafter last (List.mem_append_right _ (List.mem_singleton_self last))).symm

/-- Assignments that are made for some items of a list. -/
theorem mem_assignAll_filterMap_iff {α : Type} {f : α → Option (κ × β)} {sources : List α} :
    other ∈ assignAll (sources.filterMap f) ↔
      ∃ before source after, sources = before ++ source :: after ∧ f source = some other ∧
        ∀ later ∈ after, ∀ item ∈ f later, item.1 ≠ other.1 := by
  rw [mem_assignAll_iff]
  constructor
  · rintro ⟨before, after, heq, hafter⟩
    obtain ⟨front, tail, rfl, _, htail⟩ := List.filterMap_eq_append_iff.mp heq
    obtain ⟨skipped, source, rest, rfl, _, hsource, rfl⟩ := List.filterMap_eq_cons_iff.mp htail
    refine ⟨front ++ skipped, source, rest, by simp, hsource, fun later hlater item hitem => ?_⟩
    exact hafter item (List.mem_filterMap.mpr ⟨later, hlater, hitem⟩)
  · rintro ⟨before, source, after, rfl, hsource, hafter⟩
    refine ⟨before.filterMap f, after.filterMap f, ?_, fun item hitem => ?_⟩
    · rw [List.filterMap_append, List.filterMap_cons_some hsource]
    · obtain ⟨later, hlater, hitem⟩ := List.mem_filterMap.mp hitem
      exact hafter later hlater item hitem

end

end Base
