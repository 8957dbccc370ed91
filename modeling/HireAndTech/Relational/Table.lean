import Mathlib

/-!
# Tables with keys

A table is a list of rows, and a key is a function of its rows.  A key is unique
when no two rows of the table agree on it.

Main results:

- Theorem {lit}`mem_updateWhere`: the rows after an update.
- Theorems {lit}`Unique.updateWhere` and {lit}`Unique.insert`: updates that leave a key
  alone and inserts of a new key keep it unique.
- Theorem {lit}`mem_put`: the rows after a row has been replaced by key.
-/

namespace Relational

variable {α κ : Type}

/-- No two rows have the same key. -/
def Unique (key : α → κ) (rows : List α) : Prop :=
  (rows.map key).Nodup

instance Unique.decidable [DecidableEq κ] (key : α → κ) (rows : List α) :
    Decidable (Unique key rows) :=
  inferInstanceAs (Decidable (rows.map key).Nodup)

/-- `UPDATE … SET … WHERE …`. -/
def updateWhere (p : α → Bool) (f : α → α) (rows : List α) : List α :=
  rows.map fun x => if p x then f x else x

/-- Replace the row that has the key of {lit}`new`. -/
def put [DecidableEq κ] (key : α → κ) (new : α) (rows : List α) : List α :=
  updateWhere (fun x => key x = key new) (fun _ => new) rows

section

variable {key : α → κ} {rows : List α} {p : α → Bool} {f : α → α} {x y new : α}

@[simp]
theorem unique_nil : Unique key ([] : List α) :=
  List.nodup_nil

theorem Unique.eq (h : Unique key rows) (hx : x ∈ rows) (hy : y ∈ rows) (hkey : key x = key y) :
    x = y :=
  List.inj_on_of_nodup_map h hx hy hkey

theorem mem_updateWhere :
    y ∈ updateWhere p f rows ↔ ∃ x ∈ rows, (if p x then f x else x) = y := by
  simp [updateWhere]

theorem mem_updateWhere_of_mem (hx : x ∈ rows) :
    (if p x then f x else x) ∈ updateWhere p f rows :=
  mem_updateWhere.mpr ⟨x, hx, rfl⟩

/-- An update that leaves a function of the rows alone leaves it alone on the table. -/
theorem map_updateWhere (hf : ∀ x ∈ rows, p x = true → key (f x) = key x) :
    (updateWhere p f rows).map key = rows.map key := by
  rw [updateWhere, List.map_map]
  refine List.map_congr_left fun x hx => ?_
  simp only [Function.comp_apply]
  split
  · exact hf x hx ‹_›
  · rfl

theorem Unique.updateWhere (h : Unique key rows)
    (hf : ∀ x ∈ rows, p x = true → key (f x) = key x) :
    Unique key (updateWhere p f rows) := by
  rw [Unique, map_updateWhere hf]
  exact h

theorem Unique.insert (h : Unique key rows) (hnew : ∀ x ∈ rows, key x ≠ key new) :
    Unique key (rows ++ [new]) := by
  rw [Unique, List.map_append, List.nodup_append]
  refine ⟨h, List.nodup_singleton _, fun k hk k' hk' => ?_⟩
  obtain ⟨x, hx, rfl⟩ := List.mem_map.mp hk
  rw [List.map_singleton, List.mem_singleton] at hk'
  exact hk' ▸ hnew x hx

/-- At most one row has a given value of a unique key. -/
theorem Unique.length_filter_le [DecidableEq κ] (h : Unique key rows) (k : κ) :
    (rows.filter fun x => key x = k).length ≤ 1 := by
  have hcount : (rows.map key).count k ≤ 1 := List.nodup_iff_count_le_one.mp h k
  rw [List.count, List.countP_map, List.countP_eq_length_filter] at hcount
  exact hcount

end

section

variable [DecidableEq κ] {key : α → κ} {rows : List α} {x y old new : α}

theorem mem_put_self (hold : old ∈ rows) (hkey : key old = key new) : new ∈ put key new rows :=
  mem_updateWhere.mpr ⟨old, hold, if_pos (decide_eq_true hkey)⟩

/-- With a unique key the replaced row is the only one that changes. -/
theorem mem_put (h : Unique key rows) (hold : old ∈ rows) (hkey : key old = key new) :
    y ∈ put key new rows ↔ y = new ∨ (y ∈ rows ∧ y ≠ old) := by
  rw [put, mem_updateWhere]
  constructor
  · rintro ⟨x, hx, rfl⟩
    by_cases hxnew : key x = key new
    · simp [hxnew]
    · simp only [hxnew, decide_false, Bool.false_eq_true, if_false]
      exact Or.inr ⟨hx, fun heq => hxnew (heq ▸ hkey)⟩
  · rintro (rfl | ⟨hy, hne⟩)
    · exact ⟨old, hold, by simp [hkey]⟩
    · refine ⟨y, hy, if_neg ?_⟩
      simp only [decide_eq_true_eq]
      exact fun hynew => hne (h.eq hy hold (hynew.trans hkey.symm))

/-- Replacing a row by one that agrees on another function of the rows. -/
theorem map_put {β : Type} {g : α → β} (h : Unique key rows) (hold : old ∈ rows)
    (hkey : key old = key new) (hg : g new = g old) : (put key new rows).map g = rows.map g := by
  refine map_updateWhere fun x hx hxnew => ?_
  rw [hg, h.eq hx hold ((of_decide_eq_true hxnew).trans hkey.symm)]

theorem Unique.put {β : Type} {g : α → β} (hg : Unique g rows) (h : Unique key rows)
    (hold : old ∈ rows) (hkey : key old = key new) (hsame : g new = g old) :
    Unique g (put key new rows) := by
  rw [Unique, map_put h hold hkey hsame]
  exact hg

end

end Relational
