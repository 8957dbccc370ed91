import HireAndTech.Text.Regex

/-!
# Suffixes of file names

The suffixes of a file name without separators, as {lit}`pathlib` finds them, and the components
that the dots of the name separate.

Main results:

- Definitions {lit}`suffix` and {lit}`suffixes`.
- Theorem {lit}`suffix_append`: the last suffix.
- Theorem {lit}`splitOn_dots`: the dots with which a name begins separate empty components.
- Theorem {lit}`mem_innerComponents_iff`: which component the inner suffixes leave out.
-/

namespace Text

/-! ## Definitions -/

/-- `str.rfind` of a character. -/
def rfind (c : Char) (cs : List Char) : Option ℕ :=
  (cs.reverse.idxOf? c).map fun i => cs.length - 1 - i

/-- `PurePath.name` of a path without separators. -/
def pathName (path : List Char) : List Char :=
  if path = ['.'] then [] else path

/-- `PurePath.suffix`. -/
def suffix (name : List Char) : List Char :=
  match rfind '.' name with
  | some i => if 0 < i ∧ i < name.length - 1 then name.drop i else []
  | none => []

/-- `lstrip(".")`. -/
def withoutDots (name : List Char) : List Char :=
  name.dropWhile (· = '.')

/-- `PurePath.suffixes`. -/
def suffixes (name : List Char) : List (List Char) :=
  if name.getLast? = some '.' then []
  else ((withoutDots name).splitOn '.').tail.map ('.' :: ·)

/-- The components of a name after its first dot and before its last one. -/
def innerComponents (name : List Char) : List (List Char) :=
  (name.splitOn '.').tail.dropLast

section

variable {c : Char} {cs name front last : List Char}

/-! ## The last suffix -/

theorem exists_last_of_mem (h : c ∈ cs) :
    ∃ front last, cs = front ++ c :: last ∧ c ∉ last := by
  obtain ⟨back, rest, hback, hmem⟩ := List.eq_append_cons_of_mem (List.mem_reverse.mpr h)
  refine ⟨rest.reverse, back.reverse, ?_, by simpa using hmem⟩
  rw [← List.reverse_inj, hback]
  simp

theorem rfind_append (h : c ∉ last) : rfind c (front ++ c :: last) = some front.length := by
  have hrev : (front ++ c :: last).reverse = last.reverse ++ c :: front.reverse := by simp
  have hidx : (last.reverse ++ c :: front.reverse).idxOf? c = some last.reverse.length := by
    refine List.idxOf?_eq_some_iff.mpr ⟨by simp, by simp, fun j hj heq => h ?_⟩
    rw [List.getElem_append_left hj] at heq
    exact List.mem_reverse.mp (heq ▸ List.getElem_mem hj)
  rw [rfind, hrev, hidx]
  simp

theorem rfind_eq_none (h : c ∉ cs) : rfind c cs = none := by
  simp [rfind, h]

/-- The suffix of a name with a dot that neither begins nor ends it. -/
theorem suffix_append (hdot : '.' ∉ last) (hfront : front ≠ []) (hlast : last ≠ []) :
    suffix (front ++ '.' :: last) = '.' :: last := by
  have hpos := List.length_pos_of_ne_nil hfront
  have hlen := List.length_pos_of_ne_nil hlast
  simp only [suffix, rfind_append hdot]
  rw [if_pos (by simp; omega), List.drop_left]

/-- A name has a suffix only when such a dot is its last one. -/
theorem exists_of_suffix_ne_nil (h : suffix name ≠ []) :
    ∃ front last, name = front ++ '.' :: last ∧ '.' ∉ last ∧ front ≠ [] ∧ last ≠ [] := by
  by_cases hdot : '.' ∈ name
  · obtain ⟨front, last, rfl, hlast⟩ := exists_last_of_mem hdot
    simp only [suffix, rfind_append hlast] at h
    have hbounds := of_not_not fun hno => h (if_neg hno)
    refine ⟨front, last, rfl, hlast, List.ne_nil_of_length_pos hbounds.1, ?_⟩
    apply List.ne_nil_of_length_pos
    have hlt := hbounds.2
    simp only [List.length_append, List.length_cons] at hlt
    omega
  · rw [suffix, rfind_eq_none hdot] at h
    contradiction

/-- A name with such a dot does not end with one. -/
theorem getLast?_ne_dot (hdot : '.' ∉ last) (hlast : last ≠ []) :
    (front ++ '.' :: last).getLast? ≠ some '.' := by
  intro h
  rw [List.getLast?_append_of_ne_nil _ (List.cons_ne_nil _ _),
    List.getLast?_cons_of_ne_nil hlast] at h
  exact hdot (List.mem_of_getLast? h)

/-! ## Components -/

/-- The components whose suffixes a name has before its last one. -/
def suffixComponents (name : List Char) : List (List Char) :=
  ((withoutDots name).splitOn '.').tail.dropLast

/-- The component after the dots with which a name begins, when it is not the last one. -/
def hiddenComponent (name : List Char) : Option (List Char) :=
  if name.head? = some '.' then ((withoutDots name).splitOn '.').dropLast.head? else none

theorem dropLast_suffixes (h : name.getLast? ≠ some '.') :
    (suffixes name).dropLast = (suffixComponents name).map ('.' :: ·) := by
  rw [suffixes, if_neg h, suffixComponents, List.map_dropLast]

theorem exists_dots (name : List Char) :
    ∃ k, name = List.replicate k '.' ++ withoutDots name := by
  refine ⟨(name.takeWhile (· = '.')).length, ?_⟩
  have hdots : name.takeWhile (· = '.') =
      List.replicate (name.takeWhile (· = '.')).length '.' := by
    refine List.eq_replicate_of_mem fun c hc => ?_
    simpa using List.mem_takeWhile_imp hc
  rw [← hdots]
  exact List.takeWhile_append_dropWhile.symm

/-- The dots with which a name begins separate empty components. -/
theorem splitOn_dots (k : ℕ) :
    (List.replicate k '.' ++ cs).splitOn '.' = List.replicate k [] ++ cs.splitOn '.' := by
  induction k with
  | zero => rfl
  | succ k ih =>
      have hsplit := List.splitOn_append_cons_self_of_not_mem (List.not_mem_nil (a := '.'))
        (List.replicate k '.' ++ cs)
      rw [List.nil_append] at hsplit
      rw [List.replicate_succ, List.cons_append, hsplit, ih]
      rfl

/-- The inner components are those of the inner suffixes, and the one that the dots at the front
of the name hide. -/
theorem mem_innerComponents_iff {part : List Char} (hne : part ≠ []) :
    part ∈ innerComponents name ↔
      part ∈ suffixComponents name ∨ part ∈ hiddenComponent name := by
  obtain ⟨k, hk⟩ := exists_dots name
  have hsplit : name.splitOn '.' = List.replicate k [] ++ (withoutDots name).splitOn '.' := by
    rw [← splitOn_dots, ← hk]
  rw [innerComponents, hsplit, suffixComponents, hiddenComponent]
  cases hpieces : (withoutDots name).splitOn '.' with
  | nil => exact absurd hpieces (List.splitOn_ne_nil _ _)
  | cons first more =>
      cases k with
      | zero =>
          have hhead : name.head? ≠ some '.' := by
            intro hdot
            have hnot := List.head?_dropWhile_not (· = '.') name
            rw [List.replicate_zero, List.nil_append, withoutDots] at hk
            rw [← hk, hdot] at hnot
            contradiction
          simp [if_neg hhead]
      | succ k =>
          have hhead : name.head? = some '.' := by
            rw [hk, List.replicate_succ]
            rfl
          rw [if_pos hhead, List.replicate_succ, List.cons_append, List.tail_cons,
            List.dropLast_append_of_ne_nil (List.cons_ne_nil first more), List.mem_append,
            List.mem_replicate]
          cases more with
          | nil => simp [hne]
          | cons second more => simp [hne, eq_comm, or_comm]

end

end Text
