import HireAndTech.Base.RoundRobin
import HireAndTech.Collection.Scheduler
import HireAndTech.Salaries.Parser

/-!
# Rotation of the targets of a source

`_rotate_queries` with a working Redis: each call takes the next few targets of a list, from an
offset that is stored as a text.  An offset that cannot be read is left as it is, and the call takes
the first targets.

Main results:

- Definition {lit}`selected`: the targets of one call.
- Theorem {lit}`rotation_covers`: a few calls in a row take every target.
- Theorem {lit}`rotation_stuck`: calls with an offset of too many digits.
-/

namespace HireAndTech
namespace Collection

open Text Base

/-! ## Numbers -/

/-- `int` of a text: white space around it, a sign, and at most 4300 decimal digits, between two of
which an underscore may stand. -/
def intOf (text : List Char) : Option ℤ :=
  let (negative, digits) : Bool × List Char :=
    match strip isWhiteSpace text with
    | '-' :: cs => (true, cs)
    | '+' :: cs => (false, cs)
    | cs => (false, cs)
  let groups := digits.splitOn '_'
  if groups.any List.isEmpty || 4300 < groups.flatten.length then none
  else (Salaries.digitsValue groups.flatten).map fun n => if negative then -n else n

/-- `str` of an integer. -/
def strOf (n : ℤ) : List Char :=
  if n < 0 then '-' :: Nat.toDigits 10 n.natAbs else Nat.toDigits 10 n.natAbs

/-! ## Calls -/

/-- The offset that a stored text stands for; a text that is no integer raises. -/
def readOffset (stored : Option (List Char)) : Except String (Option ℤ) :=
  match stored with
  | none => .ok none
  | some text =>
      match intOf text with
      | some offset => .ok (some offset)
      | none => .error "invalid literal for int()"

section

variable (ctx : SchedulerContext) (sourceName namespace_ : String)
  (targets : List CollectionTarget) (batchSize : ℕ)

/-- Redis works, and holds an offset. -/
def withOffset (stored : Option (List Char)) : SchedulerContext :=
  { ctx with
    queryOffset := fun _ => readOffset stored
    saveRaises := false }

/-- The targets that `_rotate_queries` selects. -/
def selected (stored : Option (List Char)) : List CollectionTarget :=
  rotateQueries (withOffset ctx stored) sourceName targets batchSize namespace_

/-- The offset that `_rotate_queries` leaves in Redis. -/
def nextOffset (stored : Option (List Char)) : Option (List Char) :=
  if targets = [] ∨ targets.length ≤ batchSize then stored
  else
    match readOffset stored with
    | .error _ => stored
    | .ok _ =>
        let start := startIdx (withOffset ctx stored)
          (namespace_ ++ ":query_offset:" ++ sourceName) targets.length
        some (strOf ((start + batchSize) % targets.length))

/-- The offset that several calls leave in Redis. -/
def offsetAfter (stored : Option (List Char)) (calls : ℕ) : Option (List Char) :=
  (nextOffset ctx sourceName namespace_ targets batchSize)^[calls] stored

/-- The targets that a call selects after several others. -/
def selectedAfter (stored : Option (List Char)) (calls : ℕ) : List CollectionTarget :=
  selected ctx sourceName namespace_ targets batchSize
    (offsetAfter ctx sourceName namespace_ targets batchSize stored calls)

end

/-! ## Texts of numbers -/

section

variable {n : ℕ} {text : List Char}

/-- Digits are read up to their limit. -/
theorem intOf_of_isDigit (hne : text ≠ []) (hdigits : ∀ c ∈ text, c.isDigit = true) :
    intOf text =
      if 4300 < text.length then none else some (Nat.ofDigitChars 10 text 0 : ℤ) := by
  have hstrip : strip isWhiteSpace text = text := by
    apply strip_eq_self
    intro c hc
    simp [isWhiteSpace, Salaries.isSpace_of_isDigit (hdigits c hc)]
  have hsplit : text.splitOn '_' = [text] := by
    apply List.splitOnP_eq_singleton
    intro c hc
    rw [beq_eq_false_iff_ne]
    rintro rfl
    exact absurd (hdigits '_' hc) (by decide)
  have hsign : ∀ cs, text ≠ '-' :: cs ∧ text ≠ '+' :: cs := by
    intro cs
    constructor
    · rintro rfl
      exact absurd (hdigits '-' List.mem_cons_self) (by decide)
    · rintro rfl
      exact absurd (hdigits '+' List.mem_cons_self) (by decide)
  unfold intOf
  rw [hstrip]
  split
  rename_i heq
  split at heq
  · exact absurd rfl (hsign _).1
  · exact absurd rfl (hsign _).2
  · cases heq
    simp [hsplit, hne, Salaries.digitsValue_of_isDigit hdigits]

/-- A number of at most 4300 digits can be read back. -/
theorem intOf_strOf_natCast :
    intOf (strOf n) = if n < 10 ^ 4300 then some (n : ℤ) else none := by
  have htext : strOf n = Nat.toDigits 10 n := by simp [strOf]
  have hlength : 4300 < (Nat.toDigits 10 n).length ↔ ¬n < 10 ^ 4300 := by
    rw [← Nat.length_toDigits_le_iff (by decide) (by decide), Nat.not_le]
  have hdigits : ∀ c ∈ Nat.toDigits 10 n, c.isDigit = true := fun c hc =>
    Nat.isDigit_of_mem_toDigits (by decide) (by decide) hc
  rw [htext, intOf_of_isDigit Nat.toDigits_ne_nil hdigits, Nat.ofDigitChars_ten_toDigits]
  simp only [hlength, ite_not]

end

/-! ## Runs -/

section

variable {ctx : SchedulerContext} {sourceName namespace_ : String}
  {targets : List CollectionTarget} {batchSize start : ℕ} {stored : Option (List Char)}

/-- The start that a stored offset stands for. -/
def Begins (stored : Option (List Char)) (n start : ℕ) : Prop :=
  ∃ offset, readOffset stored = .ok offset ∧ (offset.getD 0 % n).toNat = start

theorem Begins.startIdx_eq (h : Begins stored targets.length start) (ctx : SchedulerContext)
    (key : String) : startIdx (withOffset ctx stored) key targets.length =
      start := by
  obtain ⟨offset, hread, hstart⟩ := h
  simp [startIdx, withOffset, hread, hstart]

/-- The targets of a window. -/
def targetsAt (targets : List CollectionTarget) (positions : List ℕ) : List CollectionTarget :=
  positions.filterMap fun i => targets[i]?

theorem targetsAt_eq {positions : List ℕ} (h : ∀ position ∈ positions, position < targets.length) :
    targetsAt targets positions = (positions.pmap Fin.mk h).map targets.get := by
  induction positions with
  | nil => rfl
  | cons position positions ih =>
      have hposition := h position List.mem_cons_self
      have hrest := ih fun other hother => h other (List.mem_cons_of_mem position hother)
      rw [targetsAt, List.filterMap_cons_some (List.getElem?_eq_getElem hposition)]
      exact congrArg (targets[position] :: ·) hrest

theorem selected_eq (hbatch : batchSize < targets.length) (h : Begins stored targets.length start) :
    selected ctx sourceName namespace_ targets batchSize stored =
      targetsAt targets (window targets.length batchSize start) := by
  have hne : ¬(targets = [] ∨ targets.length ≤ batchSize) := by
    rintro (rfl | hle)
    · exact Nat.not_lt_zero _ hbatch
    · omega
  rw [selected, rotateQueries, if_neg hne, targetsAt, window, List.filterMap_map]
  simp only [h.startIdx_eq]
  rfl

theorem begins_strOf {n : ℕ} (hlt : start < n) (hn : n < 10 ^ 4300) :
    Begins (some (strOf start)) n start := by
  refine ⟨some start, ?_, ?_⟩
  · simp only [readOffset, intOf_strOf_natCast, if_pos (hlt.trans hn)]
  · rw [Option.getD_some, ← Int.natCast_mod, Int.toNat_natCast, Nat.mod_eq_of_lt hlt]

theorem Begins.next (hbatch : batchSize < targets.length) (hn : targets.length < 10 ^ 4300)
    (h : Begins stored targets.length start) :
    Begins (nextOffset ctx sourceName namespace_ targets batchSize stored) targets.length
      ((start + batchSize) % targets.length) := by
  have hne : ¬(targets = [] ∨ targets.length ≤ batchSize) := by
    rintro (rfl | hle)
    · exact Nat.not_lt_zero _ hbatch
    · omega
  have hstart := h.startIdx_eq ctx (namespace_ ++ ":query_offset:" ++ sourceName)
  obtain ⟨offset, hread, _⟩ := h
  rw [nextOffset, if_neg hne, hread, hstart]
  exact begins_strOf (Nat.mod_lt _ (by omega)) hn

/-- Every call begins where the last one has ended. -/
theorem Begins.after (hbatch : batchSize < targets.length) (hn : targets.length < 10 ^ 4300)
    (h : Begins stored targets.length start) (calls : ℕ) :
    Begins (offsetAfter ctx sourceName namespace_ targets batchSize stored calls) targets.length
      ((start + calls * batchSize) % targets.length) := by
  induction calls with
  | zero =>
      obtain ⟨offset, hread, rfl⟩ := h
      have hlt : (offset.getD 0 % targets.length).toNat < targets.length := by
        have hpos : (0 : ℤ) < targets.length := by omega
        have hmod := Int.emod_lt_of_pos (offset.getD 0) hpos
        omega
      refine ⟨offset, hread, ?_⟩
      rw [Nat.zero_mul, Nat.add_zero, Nat.mod_eq_of_lt hlt]
  | succ calls ih =>
      have hnext := @Begins.next ctx sourceName namespace_ _ _ _ _ hbatch hn ih
      rw [Nat.mod_add_mod, Nat.add_assoc, ← Nat.succ_mul] at hnext
      rw [offsetAfter, Function.iterate_succ_apply']
      exact hnext

/-- The positions that a call selects. -/
theorem selectedAfter_eq (hbatch : batchSize < targets.length)
    (hn : targets.length < 10 ^ 4300) (h : Begins stored targets.length start) (calls : ℕ) :
    selectedAfter ctx sourceName namespace_ targets batchSize stored calls =
      targetsAt targets (window targets.length batchSize
        ((start + calls * batchSize) % targets.length)) :=
  selected_eq hbatch (h.after hbatch hn calls)

theorem exists_begins {n : ℕ} (hstored : ∀ text ∈ stored, (intOf text).isSome = true) :
    ∃ start, Begins stored n start := by
  cases stored with
  | none => exact ⟨_, none, rfl, rfl⟩
  | some text =>
      obtain ⟨offset, hoffset⟩ := Option.isSome_iff_exists.mp (hstored text rfl)
      exact ⟨_, some offset, by simp only [readOffset, hoffset], rfl⟩

end

/-- With a stored offset that can be read, every call selects so many distinct targets, and as many
calls in a row as the list has batches select every target. -/
theorem rotation_covers (ctx : SchedulerContext) (sourceName namespace_ : String)
    (targets : List CollectionTarget) (batchSize : ℕ) (stored : Option (List Char))
    (hpos : 1 ≤ batchSize) (hbatch : batchSize < targets.length)
    (hsize : targets.length < 2 ^ 63) (hstored : ∀ text ∈ stored, (intOf text).isSome = true) :
    ∃ positions : ℕ → List (Fin targets.length),
      (∀ call, selectedAfter ctx sourceName namespace_ targets batchSize stored call =
          (positions call).map targets.get ∧
        (positions call).length = batchSize ∧ (positions call).Nodup) ∧
      ∀ call position, ∃ later < (targets.length + batchSize - 1) / batchSize,
        position ∈ positions (call + later) := by
  have hn : targets.length < 10 ^ 4300 :=
    hsize.trans_le ((Nat.pow_le_pow_left (by decide) 63).trans
      (Nat.pow_le_pow_right (by decide) (by decide)))
  obtain ⟨start, hbegins⟩ := @exists_begins stored targets.length hstored
  have hwindow (calls : ℕ) : ∀ position ∈ window targets.length batchSize
      ((start + calls * batchSize) % targets.length), position < targets.length := by
    intro position hposition
    obtain ⟨i, _, rfl⟩ := mem_window_iff.mp hposition
    exact Nat.mod_lt _ (by omega)
  refine ⟨fun call => List.pmap Fin.mk _ (hwindow call), fun call => ⟨?_, ?_, ?_⟩,
    fun call position => ?_⟩
  · rw [selectedAfter_eq hbatch hn hbegins, targetsAt_eq (hwindow call)]
  · rw [List.length_pmap, length_window]
  · exact (nodup_window hbatch.le).pmap fun _ _ _ _ heq => Fin.mk.inj heq
  · have henough : targets.length ≤ (targets.length + batchSize - 1) / batchSize * batchSize := by
      have hdiv := Nat.div_add_mod (targets.length + batchSize - 1) batchSize
      have hmod := Nat.mod_lt (targets.length + batchSize - 1) hpos
      rw [Nat.mul_comm] at hdiv
      omega
    obtain ⟨later, hlater, hmem⟩ :=
      @exists_mem_window _ _ (start + call * batchSize) _ _ position.isLt hpos henough
    refine ⟨later, hlater, List.mem_pmap.mpr ⟨position, ?_, rfl⟩⟩
    rwa [Nat.add_mul, ← Nat.add_assoc]

/-- Two targets. -/
def pythonAndJava : List CollectionTarget :=
  [⟨.glassdoor, "python", none, true, 100, by decide, no_location_nonblank,
      default_maxJobs_bounds⟩,
    ⟨.glassdoor, "java", none, true, 100, by decide, no_location_nonblank,
      default_maxJobs_bounds⟩]

/-- A negative offset is taken modulo the number of targets. -/
theorem rotation_covers_two : ∃ positions : ℕ → List (Fin 2),
    (∀ call, selectedAfter openContext "glassdoor" "hireandtech" pythonAndJava 1
        (some "-3".toList) call = (positions call).map pythonAndJava.get ∧
      (positions call).length = 1 ∧ (positions call).Nodup) ∧
    ∀ call position, ∃ later < 2, position ∈ positions (call + later) :=
  rotation_covers openContext "glassdoor" "hireandtech" pythonAndJava 1 (some "-3".toList)
    (by decide) (by decide) (by decide) fun text htext => by
      cases htext
      decide

/-- An offset of 4301 digits stays in Redis, and no call selects the second target. -/
theorem rotation_stuck : ¬ ∃ call, ∃ target ∈ pythonAndJava.drop 1,
    target ∈ selectedAfter openContext "glassdoor" "hireandtech" pythonAndJava 1
      (some (strOf (10 ^ 4300 : ℕ))) call := by
  rintro ⟨call, target, hdrop, htarget⟩
  have hread : readOffset (some (strOf (10 ^ 4300 : ℕ))) =
      .error "invalid literal for int()" := by
    simp only [readOffset, intOf_strOf_natCast, lt_irrefl, if_false]
  generalize some (strOf (10 ^ 4300 : ℕ)) = stored at hread htarget
  have hnext : nextOffset openContext "glassdoor" "hireandtech" pythonAndJava 1 stored =
      stored := by
    rw [nextOffset, if_neg (by decide), hread]
  have hselected : selectedAfter openContext "glassdoor" "hireandtech" pythonAndJava 1 stored
      call = pythonAndJava.take 1 := by
    rw [selectedAfter, offsetAfter, Function.iterate_fixed hnext, selected, rotateQueries,
      if_neg (by decide)]
    simp only [startIdx, withOffset, hread]
    rfl
  rw [hselected] at htarget
  revert target
  decide

end Collection
end HireAndTech
