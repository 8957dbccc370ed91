import Mathlib

/-!
# First occurrences

The items of a list whose keys have not been seen before, in their order.

Main results:

- Definition {lit}`firstSeen`: the items, after keys that have been seen already.
- Theorem {lit}`firstSeen_append`: a list that is read in two parts.
- Theorem {lit}`firstSeen_absorb`: a list whose own repetitions have been left out before.
- Theorem {lit}`length_firstSeen_eq_iff`: when nothing is left out.
- Theorem {lit}`mem_firstSeen_filterMap_iff`: which items are left.
- Theorem {lit}`firstSeen_renew_iff`: when the items are the same after they have been renewed.
-/

namespace Base

variable {α β : Type} [DecidableEq β] (key : α → β)

/-- The items whose keys are seen for the first time. -/
def firstSeen (seen : List β) : List α → List α
  | [] => []
  | x :: xs =>
      if key x ∈ seen then firstSeen seen xs else x :: firstSeen (key x :: seen) xs

section

variable {key} {seen seen' : List β} {xs ys : List α} {x : α} {k : β}

theorem firstSeen_of_mem (h : key x ∈ seen) :
    firstSeen key seen (x :: xs) = firstSeen key seen xs :=
  if_pos h

theorem firstSeen_of_not_mem (h : key x ∉ seen) :
    firstSeen key seen (x :: xs) = x :: firstSeen key (key x :: seen) xs :=
  if_neg h

/-- The order of the keys that have been seen does not matter. -/
theorem firstSeen_congr (h : ∀ k, k ∈ seen ↔ k ∈ seen') :
    firstSeen key seen xs = firstSeen key seen' xs := by
  induction xs generalizing seen seen' with
  | nil => rfl
  | cons x xs ih =>
      by_cases hx : key x ∈ seen
      · rw [firstSeen_of_mem hx, firstSeen_of_mem ((h (key x)).mp hx), ih h]
      · have hcons : ∀ k, k ∈ key x :: seen ↔ k ∈ key x :: seen' := fun k => by
          rw [List.mem_cons, List.mem_cons, h k]
        rw [firstSeen_of_not_mem hx, firstSeen_of_not_mem (mt (h (key x)).mpr hx), ih hcons]

/-- A list that is read in two parts. -/
theorem firstSeen_append :
    firstSeen key seen (xs ++ ys) =
      firstSeen key seen xs ++ firstSeen key (xs.map key ++ seen) ys := by
  induction xs generalizing seen with
  | nil => rfl
  | cons x xs ih =>
      rw [List.cons_append, List.map_cons]
      by_cases hx : key x ∈ seen
      · rw [firstSeen_of_mem hx, firstSeen_of_mem hx, ih]
        congr 1
        apply firstSeen_congr
        intro k
        simp only [List.cons_append, List.mem_cons, List.mem_append]
        refine ⟨Or.inr, fun hk => hk.elim (fun heq => Or.inr (heq ▸ hx)) id⟩
      · rw [firstSeen_of_not_mem hx, firstSeen_of_not_mem hx, ih, List.cons_append]
        congr 2
        apply firstSeen_congr
        intro k
        simp only [List.cons_append, List.mem_cons, List.mem_append]
        tauto

theorem mem_map_firstSeen_iff :
    k ∈ (firstSeen key seen xs).map key ↔ k ∈ xs.map key ∧ k ∉ seen := by
  induction xs generalizing seen with
  | nil => simp [firstSeen]
  | cons x xs ih =>
      by_cases hx : key x ∈ seen
      · rw [firstSeen_of_mem hx, ih, List.map_cons, List.mem_cons]
        constructor
        · exact fun ⟨hk, hnot⟩ => ⟨Or.inr hk, hnot⟩
        · exact fun ⟨hk, hnot⟩ => ⟨hk.resolve_left fun heq => hnot (heq ▸ hx), hnot⟩
      · rw [firstSeen_of_not_mem hx, List.map_cons, List.mem_cons, ih, List.map_cons,
          List.mem_cons, List.mem_cons]
        constructor
        · rintro (rfl | ⟨hk, hnot⟩)
          · exact ⟨Or.inl rfl, hx⟩
          · exact ⟨Or.inr hk, fun hseen => hnot (Or.inr hseen)⟩
        · rintro ⟨rfl | hk, hnot⟩
          · exact Or.inl rfl
          · by_cases heq : k = key x
            · exact Or.inl heq
            · exact Or.inr ⟨hk, fun hor => hor.elim heq hnot⟩

/-- The keys that are seen for the first time. -/
theorem map_firstSeen : (firstSeen key seen xs).map key = firstSeen id seen (xs.map key) := by
  induction xs generalizing seen with
  | nil => rfl
  | cons x xs ih =>
      rw [List.map_cons]
      by_cases hx : key x ∈ seen
      · rw [firstSeen_of_mem hx, ih]
        exact (firstSeen_of_mem (by exact hx)).symm
      · rw [firstSeen_of_not_mem hx, List.map_cons, ih]
        exact (firstSeen_of_not_mem (by exact hx)).symm

theorem nodup_map_firstSeen : ((firstSeen key seen xs).map key).Nodup := by
  induction xs generalizing seen with
  | nil => exact List.nodup_nil
  | cons x xs ih =>
      by_cases hx : key x ∈ seen
      · rw [firstSeen_of_mem hx]
        exact ih
      · rw [firstSeen_of_not_mem hx, List.map_cons, List.nodup_cons]
        refine ⟨fun hmem => ?_, ih⟩
        exact (mem_map_firstSeen_iff.mp hmem).2 List.mem_cons_self

/-- Repetitions that have been left out before make no difference. -/
theorem firstSeen_absorb (h : ∀ k ∈ seen', k ∈ seen) :
    firstSeen key seen (firstSeen key seen' xs) = firstSeen key seen xs := by
  induction xs generalizing seen seen' with
  | nil => rfl
  | cons x xs ih =>
      by_cases hx' : key x ∈ seen'
      · rw [firstSeen_of_mem hx', firstSeen_of_mem (h _ hx'), ih h]
      · rw [firstSeen_of_not_mem hx']
        by_cases hx : key x ∈ seen
        · rw [firstSeen_of_mem hx, firstSeen_of_mem hx]
          exact ih fun k hk => (List.mem_cons.mp hk).elim (fun heq => heq ▸ hx) (h k)
        · rw [firstSeen_of_not_mem hx, firstSeen_of_not_mem hx, ih]
          intro k hk
          exact (List.mem_cons.mp hk).elim (fun heq => heq ▸ List.mem_cons_self)
            fun hk => List.mem_cons_of_mem _ (h k hk)

/-- Only the first part of a list has been left out before. -/
theorem firstSeen_firstSeen_append :
    firstSeen key [] (firstSeen key [] xs ++ ys) = firstSeen key [] (xs ++ ys) := by
  rw [firstSeen_append, firstSeen_append, firstSeen_absorb fun _ => id]
  congr 1
  apply firstSeen_congr
  intro k
  rw [List.append_nil, List.append_nil, mem_map_firstSeen_iff, and_iff_left List.not_mem_nil]

theorem firstSeen_sublist : (firstSeen key seen xs).Sublist xs := by
  induction xs generalizing seen with
  | nil => exact List.Sublist.refl []
  | cons x xs ih =>
      by_cases hx : key x ∈ seen
      · rw [firstSeen_of_mem hx]
        exact ih.cons x
      · rw [firstSeen_of_not_mem hx]
        exact ih.cons_cons x

theorem firstSeen_eq_self (h : (xs.map key).Nodup) (hseen : ∀ x ∈ xs, key x ∉ seen) :
    firstSeen key seen xs = xs := by
  induction xs generalizing seen with
  | nil => rfl
  | cons x xs ih =>
      rw [List.map_cons, List.nodup_cons] at h
      rw [firstSeen_of_not_mem (hseen x List.mem_cons_self), ih h.2]
      intro y hy hmem
      rcases List.mem_cons.mp hmem with heq | hmem
      · exact h.1 (heq ▸ List.mem_map_of_mem hy)
      · exact hseen y (List.mem_cons_of_mem x hy) hmem

/-- Nothing is left out exactly when no key stands twice. -/
theorem length_firstSeen_eq_iff :
    (firstSeen key [] xs).length = xs.length ↔ (xs.map key).Nodup := by
  constructor
  · intro hlength
    have hself : firstSeen key [] xs = xs := firstSeen_sublist.eq_of_length hlength
    rw [← hself]
    exact nodup_map_firstSeen
  · intro hnodup
    rw [firstSeen_eq_self hnodup fun _ _ => List.not_mem_nil]

/-- Nothing is left exactly when all keys have been seen. -/
theorem firstSeen_eq_nil_iff : firstSeen key seen xs = [] ↔ ∀ x ∈ xs, key x ∈ seen := by
  rw [← List.map_eq_nil_iff (f := key), List.eq_nil_iff_forall_not_mem]
  constructor
  · intro hnil x hx
    by_contra hnot
    exact hnil (key x) (mem_map_firstSeen_iff.mpr ⟨List.mem_map_of_mem hx, hnot⟩)
  · intro hall k hk
    obtain ⟨hmem, hnot⟩ := mem_map_firstSeen_iff.mp hk
    obtain ⟨x, hx, rfl⟩ := List.mem_map.mp hmem
    exact hnot (hall x hx)

/-- The items that are left have no item with their key before them. -/
theorem mem_firstSeen_iff : x ∈ firstSeen key seen xs ↔
    key x ∉ seen ∧ ∃ before after, xs = before ++ x :: after ∧ ∀ y ∈ before, key y ≠ key x := by
  induction xs generalizing seen with
  | nil => simp [firstSeen]
  | cons y ys ih =>
      by_cases hy : key y ∈ seen
      · rw [firstSeen_of_mem hy, ih]
        refine and_congr_right fun hx => ?_
        constructor
        · rintro ⟨before, after, rfl, hbefore⟩
          refine ⟨y :: before, after, rfl, List.forall_mem_cons.mpr ⟨?_, hbefore⟩⟩
          exact fun heq => hx (heq ▸ hy)
        · rintro ⟨before, after, hsplit, hbefore⟩
          cases before with
          | nil => exact absurd hy ((List.cons_eq_cons.mp hsplit).1 ▸ hx)
          | cons z before =>
              exact ⟨before, after, (List.cons_eq_cons.mp hsplit).2,
                (List.forall_mem_cons.mp hbefore).2⟩
      · rw [firstSeen_of_not_mem hy, List.mem_cons, ih, List.mem_cons, not_or]
        constructor
        · rintro (rfl | ⟨⟨hne, hx⟩, before, after, rfl, hbefore⟩)
          · exact ⟨hy, [], ys, rfl, fun _ hmem => absurd hmem List.not_mem_nil⟩
          · exact ⟨hx, y :: before, after, rfl,
              List.forall_mem_cons.mpr ⟨Ne.symm hne, hbefore⟩⟩
        · rintro ⟨hx, before, after, hsplit, hbefore⟩
          cases before with
          | nil => exact Or.inl (List.cons_eq_cons.mp hsplit).1.symm
          | cons z before =>
              obtain ⟨rfl, hys⟩ := List.cons_eq_cons.mp hsplit
              obtain ⟨hne, hbefore⟩ := List.forall_mem_cons.mp hbefore
              exact Or.inr ⟨⟨Ne.symm hne, hx⟩, before, after, hys, hbefore⟩

/-- An item that shares its key with no other one is left. -/
theorem mem_firstSeen_of_mem (hx : x ∈ xs) (hkey : ∀ y ∈ xs, key y = key x → y = x) :
    x ∈ firstSeen key [] xs := by
  have hmap : key x ∈ (firstSeen key [] xs).map key :=
    mem_map_firstSeen_iff.mpr ⟨List.mem_map_of_mem hx, List.not_mem_nil⟩
  obtain ⟨y, hy, heq⟩ := List.mem_map.mp hmap
  exact hkey y (firstSeen_sublist.subset hy) heq ▸ hy

/-- The items that are left of those that are made of a list. -/
theorem mem_firstSeen_filterMap_iff {γ : Type} {f : γ → Option α} {sources : List γ} :
    x ∈ firstSeen key [] (sources.filterMap f) ↔
      ∃ before source after, sources = before ++ source :: after ∧ f source = some x ∧
        ∀ earlier ∈ before, ∀ y ∈ f earlier, key y ≠ key x := by
  rw [mem_firstSeen_iff, and_iff_right List.not_mem_nil]
  constructor
  · rintro ⟨before, after, heq, hbefore⟩
    obtain ⟨front, tail, rfl, rfl, htail⟩ := List.filterMap_eq_append_iff.mp heq
    obtain ⟨skipped, source, rest, rfl, hskipped, hsource, rfl⟩ :=
      List.filterMap_eq_cons_iff.mp htail
    refine ⟨front ++ skipped, source, rest, by simp, hsource, fun earlier hearlier y hy => ?_⟩
    rcases List.mem_append.mp hearlier with hfront | hskip
    · exact hbefore y (List.mem_filterMap.mpr ⟨earlier, hfront, hy⟩)
    · rw [hskipped earlier hskip] at hy
      contradiction
  · rintro ⟨before, source, after, rfl, hsource, hbefore⟩
    refine ⟨before.filterMap f, after.filterMap f, ?_, fun y hy => ?_⟩
    · rw [List.filterMap_append, List.filterMap_cons_some hsource]
    · obtain ⟨earlier, hearlier, hy⟩ := List.mem_filterMap.mp hy
      exact hbefore earlier hearlier y hy

/-- A loop that adds the items whose keys are new. -/
theorem foldl_eq_append_firstSeen {step : List α → α → List α}
    (hstep : ∀ acc x, step acc x = if key x ∈ acc.map key then acc else acc ++ [x])
    (acc : List α) : xs.foldl step acc = acc ++ firstSeen key (acc.map key) xs := by
  induction xs generalizing acc with
  | nil => exact (List.append_nil acc).symm
  | cons x xs ih =>
      rw [List.foldl_cons, ih, hstep]
      by_cases hx : key x ∈ acc.map key
      · rw [if_pos hx, firstSeen_of_mem hx]
      · rw [if_neg hx, firstSeen_of_not_mem hx, List.append_assoc, List.singleton_append]
        congr 2
        apply firstSeen_congr
        intro k
        simp [or_comm]

/-! ## Renewed items -/

/-- Items that are found again in their order have been renewed one by one. -/
theorem eq_some_of_sublist_filterMap {f : α → Option α} (h : xs.Sublist (xs.filterMap f ++ ys))
    (hdisjoint : ∀ x ∈ xs, x ∉ ys) (hx : x ∈ xs) : f x = some x := by
  obtain ⟨front, tail, hsplit, hfront, htail⟩ := List.sublist_append_iff.mp h
  have hnil : tail = [] := by
    refine List.eq_nil_iff_forall_not_mem.mpr fun y hy => ?_
    exact hdisjoint y (hsplit ▸ List.mem_append_right front hy) (htail.subset hy)
  rw [hnil, List.append_nil] at hsplit
  rw [← hsplit] at hfront
  have hself : xs = xs.filterMap f := hfront.eq_of_length_le (List.length_filterMap_le f xs)
  clear h hdisjoint hsplit hfront htail hnil
  induction xs with
  | nil => contradiction
  | cons z zs ih =>
      cases hz : f z with
      | none =>
          rw [List.filterMap_cons_none hz] at hself
          have hlength := congrArg List.length hself
          have hle := List.length_filterMap_le f zs
          rw [List.length_cons] at hlength
          omega
      | some w =>
          rw [List.filterMap_cons_some hz, List.cons_eq_cons] at hself
          rcases List.mem_cons.mp hx with rfl | hx
          · rw [hz, ← hself.1]
          · exact ih hx hself.2

/-- When items are renewed, and those that came last are given again, the items are the same exactly
when each of them is renewed as itself. -/
theorem firstSeen_renew_iff {f : α → Option α} {kept : List α}
    (hkept : kept = firstSeen key [] (xs ++ ys)) (hys : ∀ y ∈ ys, f y = some y) :
    firstSeen key [] (kept.filterMap f ++ ys) = kept ↔ ∀ x ∈ kept, f x = some x := by
  have hnodup : (kept.map key).Nodup := hkept ▸ nodup_map_firstSeen
  constructor
  · intro hagain
    rw [firstSeen_append] at hagain
    set front := firstSeen key [] (kept.filterMap f)
    set tail := firstSeen key ((kept.filterMap f).map key ++ []) ys
    have htail : ∀ y ∈ tail, f y = some y := fun y hy => hys y (firstSeen_sublist.subset hy)
    have hrenewed : tail.filterMap f = tail := by
      rw [List.filterMap_congr htail, List.filterMap_some]
    have hsublist : front.Sublist (front.filterMap f ++ tail) := by
      have hsub : front.Sublist (kept.filterMap f) := firstSeen_sublist
      rwa [← hagain, List.filterMap_append, hrenewed] at hsub
    have hdisjoint : ∀ x ∈ front, x ∉ tail := by
      have hnodup' : (front ++ tail).Nodup := hagain ▸ List.Nodup.of_map key hnodup
      exact fun x hx hx' => List.disjoint_of_nodup_append hnodup' hx hx'
    intro x hx
    rw [← hagain] at hx
    rcases List.mem_append.mp hx with hx | hx
    · exact eq_some_of_sublist_filterMap hsublist hdisjoint hx
    · exact htail x hx
  · intro hall
    have hself : kept.filterMap f = kept := by
      rw [List.filterMap_congr hall, List.filterMap_some]
    have hnone : firstSeen key (kept.map key ++ []) ys = [] := by
      refine firstSeen_eq_nil_iff.mpr fun y hy => List.mem_append_left [] ?_
      rw [hkept, mem_map_firstSeen_iff]
      exact ⟨List.mem_map_of_mem (List.mem_append_right xs hy), List.not_mem_nil⟩
    rw [hself, firstSeen_append, hnone, List.append_nil,
      firstSeen_eq_self hnodup fun _ _ => List.not_mem_nil]

end

end Base
