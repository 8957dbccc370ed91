import HireAndTech.Salaries.Parser
import HireAndTech.Text.Groups
import HireAndTech.Text.Words

/-!
# Numbers of a match

The decimal digits of Unicode are no spaces and stand for numbers, so that what the patterns for
years and amounts capture can be read.

Main results:

- Definition {lit}`numerals`: the texts of at least one digit.
- Theorem {lit}`amount_consumes`: what an amount consumes.
- Theorem {lit}`exists_parseAmount`: such a text is a number.
-/

namespace HireAndTech
namespace Salaries

open Text Text.Regex Catalogue

/-! ## Digits -/

/-- The decimal digits of Unicode. -/
theorem exists_zero_of_isDecimal {c : Char} (hc : isDecimal c = true) :
    ∃ first ∈ digitZeros, ∃ k < 10, c = Char.ofNat (first + k) := by
  obtain ⟨value, hvalue⟩ := Option.isSome_iff_exists.mp hc
  obtain ⟨first, hfirst, hrange⟩ := List.exists_of_findSome?_eq_some hvalue
  split at hrange
  · rename_i hbounds
    refine ⟨first, hfirst, c.toNat - first, by omega, ?_⟩
    rw [Nat.add_sub_cancel' hbounds.1, Char.ofNat_toNat]
  · contradiction

theorem isSpace_of_isDecimal {c : Char} (hc : isDecimal c = true) : isSpace c = false := by
  obtain ⟨first, hfirst, k, hk, rfl⟩ := exists_zero_of_isDecimal hc
  have hall : ∀ first ∈ digitZeros, ∀ k < 10, isSpace (Char.ofNat (first + k)) = false := by
    decide +kernel
  exact hall first hfirst k hk

theorem ne_of_isDecimal {c d : Char} (hc : isDecimal c = true) (hd : isDecimal d = false) :
    c ≠ d := by
  rintro rfl
  rw [hc] at hd
  contradiction

variable {cs piece : List Char}

/-- Digits stand for a number. -/
theorem exists_digitsValue (h : ∀ c ∈ cs, isDecimal c = true) :
    ∃ value, digitsValue cs = some value := by
  suffices hall : ∀ n, ∃ value, cs.foldlM (fun n c => (digitValue c).map (10 * n + ·)) n =
      some value from hall 0
  induction cs with
  | nil => exact fun n => ⟨n, rfl⟩
  | cons c cs ih =>
      intro n
      obtain ⟨value, hvalue⟩ := Option.isSome_iff_exists.mp (h c List.mem_cons_self)
      obtain ⟨total, htotal⟩ := ih (fun d hd => h d (List.mem_cons_of_mem c hd)) (10 * n + value)
      exact ⟨total, by rw [List.foldlM_cons, hvalue]; exact htotal⟩

/-- The texts of at least one digit. -/
def numerals : Language Char :=
  {piece | piece ≠ [] ∧ ∀ c ∈ piece, isDecimal c = true}

theorem digit_consumes : digit.Consumes numerals := by
  apply consumes_satisfy.mono
  rintro piece ⟨c, hc, rfl⟩
  exact ⟨List.cons_ne_nil c [], by simpa using hc⟩

theorem append_mem_numerals (h : piece ∈ numerals) (hcs : cs ∈ charsIn isDecimal) :
    piece ++ cs ∈ numerals :=
  ⟨by simp [h.1], mem_charsIn_append h.2 hcs⟩

/-- A digit and at most so many more. -/
theorem digit_upTo_consumes (n : ℕ) : (seq digit (upTo digit n)).Consumes numerals := by
  have hupTo : (upTo digit n).Consumes (charsIn isDecimal) := by
    induction n with
    | zero =>
        apply consumes_empty.mono
        intro piece hpiece c hc
        rw [(Language.mem_one piece).mp hpiece] at hc
        contradiction
    | succ n ih =>
        refine consumes_optional ((consumes_satisfy_charsIn.seq ih).mono ?_)
        rintro _ ⟨first, hfirst, second, hsecond, rfl⟩
        exact mem_charsIn_append hfirst hsecond
  apply (digit_consumes.seq hupTo).mono
  rintro _ ⟨first, hfirst, second, hsecond, rfl⟩
  exact append_mem_numerals hfirst hsecond

theorem digits_consumes : (plus digit).Consumes numerals := by
  apply (digit_consumes.seq (consumes_satisfy_charsIn).star).mono
  rintro _ ⟨first, hfirst, second, hsecond, rfl⟩
  exact append_mem_numerals hfirst hsecond

/-! ## Amounts -/

/-- A digit or a comma. -/
def isGrouped (c : Char) : Bool :=
  isDecimal c || c = ','

/-- The texts of amounts: digits with commas, and a fraction. -/
def amounts : Language Char :=
  {piece | ∃ first grouped places, isDecimal first = true ∧
    (∀ c ∈ grouped, isGrouped c = true) ∧ (places = [] ∨ ∃ ds ∈ numerals, places = '.' :: ds) ∧
    piece = first :: grouped ++ places}

theorem isGrouped_of_isDecimal {c : Char} (hc : isDecimal c = true) : isGrouped c = true := by
  rw [isGrouped, hc, Bool.true_or]

theorem fraction_consumes :
    fraction.Consumes {places | places = [] ∨ ∃ ds ∈ numerals, places = '.' :: ds} := by
  apply Consumes.alt
  · apply (consumes_satisfy.seq (digit_upTo_consumes 1)).mono
    rintro _ ⟨_, ⟨c, hc, rfl⟩, ds, hds, rfl⟩
    exact Or.inr ⟨ds, hds, by rw [of_decide_eq_true hc]; rfl⟩
  · exact consumes_empty.mono fun piece hpiece => Or.inl ((Language.mem_one piece).mp hpiece)

/-- Groups of three digits after commas. -/
theorem groups_consumes :
    (star (.seq (.satisfy (· = ',')) (.times digit 3))).Consumes (charsIn isGrouped) := by
  have hdigit : digit.Consumes (charsIn isGrouped) :=
    digit_consumes.mono fun piece hpiece c hc => isGrouped_of_isDecimal (hpiece.2 c hc)
  have hseq {r s : Regex} (hr : r.Consumes (charsIn isGrouped))
      (hs : s.Consumes (charsIn isGrouped)) : (seq r s).Consumes (charsIn isGrouped) := by
    apply (hr.seq hs).mono
    rintro _ ⟨first, hfirst, second, hsecond, rfl⟩
    exact mem_charsIn_append hfirst hsecond
  have hempty : empty.Consumes (charsIn isGrouped) := by
    apply consumes_empty.mono
    intro piece hpiece c hc
    rw [(Language.mem_one piece).mp hpiece] at hc
    contradiction
  apply Consumes.star
  refine hseq ?_ (hseq hdigit (hseq hdigit (hseq hdigit hempty)))
  apply consumes_satisfy.mono
  rintro piece ⟨c, hc, rfl⟩ d hd
  rw [List.mem_singleton.mp hd, of_decide_eq_true hc]
  rfl

theorem mem_amounts {whole places : List Char} (hne : whole ≠ [])
    (hhead : ∀ c ∈ whole.head?, isDecimal c = true) (hwhole : ∀ c ∈ whole, isGrouped c = true)
    (hplaces : places = [] ∨ ∃ ds ∈ numerals, places = '.' :: ds) : whole ++ places ∈ amounts := by
  cases whole with
  | nil => contradiction
  | cons first grouped =>
      exact ⟨first, grouped, places, hhead first rfl,
        fun c hc => hwhole c (List.mem_cons_of_mem first hc), hplaces, rfl⟩

theorem amount_consumes : amount.Consumes amounts := by
  apply Consumes.alt
  · apply ((digit_upTo_consumes 2).seq (groups_consumes.seq fraction_consumes)).mono
    rintro _ ⟨whole, ⟨hne, hwhole⟩, _, ⟨grouped, hgrouped, places, hplaces, rfl⟩, rfl⟩
    have hall : whole ++ grouped ++ places ∈ amounts := by
      refine mem_amounts (by simp [hne]) (fun c hc => ?_) (fun c hc => ?_) hplaces
      · rw [List.head?_append_of_ne_nil _ hne] at hc
        exact hwhole c (List.mem_of_mem_head? hc)
      · rcases List.mem_append.mp hc with hc | hc
        · exact isGrouped_of_isDecimal (hwhole c hc)
        · exact hgrouped c hc
    simpa using hall
  · apply (digits_consumes.seq fraction_consumes).mono
    rintro _ ⟨whole, ⟨hne, hwhole⟩, places, hplaces, rfl⟩
    exact mem_amounts hne (fun c hc => hwhole c (List.mem_of_mem_head? hc))
      (fun c hc => isGrouped_of_isDecimal (hwhole c hc)) hplaces

theorem mem_filter_grouped {grouped : List Char} (hgrouped : ∀ c ∈ grouped, isGrouped c = true)
    {c : Char} (hc : c ∈ grouped.filter (· ≠ ',')) : isDecimal c = true := by
  obtain ⟨hmem, hne⟩ := List.mem_filter.mp hc
  simpa [isGrouped, of_decide_eq_true hne] using hgrouped c hmem

/-- The text of an amount is a number. -/
theorem exists_decimalOf (h : piece ∈ amounts) :
    ∃ d, decimalOf (strip isSpace (piece.filter (· ≠ ','))) = some d := by
  obtain ⟨first, grouped, places, hfirst, hgrouped, hplaces, rfl⟩ := h
  have hpoint : isDecimal '.' = false := by decide
  -- without its commas the amount is digits and a fraction
  obtain ⟨whole, hwhole, hfilter⟩ : ∃ whole, (∀ c ∈ whole, isDecimal c = true) ∧
      (first :: grouped ++ places).filter (· ≠ ',') = whole ++ places := by
    refine ⟨first :: grouped.filter (· ≠ ','), fun c hc => ?_, ?_⟩
    · rcases List.mem_cons.mp hc with rfl | hc
      · exact hfirst
      · exact mem_filter_grouped hgrouped hc
    · have hcomma : isDecimal ',' = false := by decide
      have hkeep : places.filter (· ≠ ',') = places := by
        rw [List.filter_eq_self]
        rcases hplaces with rfl | ⟨ds, hds, rfl⟩
        · exact fun c hc => absurd hc List.not_mem_nil
        · intro c hc
          rcases List.mem_cons.mp hc with rfl | hc
          · decide
          · exact decide_eq_true (ne_of_isDecimal (hds.2 c hc) hcomma)
      have hfilter : (first :: grouped).filter (· ≠ ',') = first :: grouped.filter (· ≠ ',') :=
        List.filter_cons_of_pos (decide_eq_true (ne_of_isDecimal hfirst hcomma))
      rw [List.filter_append, hkeep, hfilter]
  have hnotin : '.' ∉ whole := fun hmem => ne_of_isDecimal (hwhole '.' hmem) hpoint rfl
  have hspace : ∀ c ∈ whole ++ places, isSpace c = false := by
    intro c hc
    rcases List.mem_append.mp hc with hc | hc
    · exact isSpace_of_isDecimal (hwhole c hc)
    · rcases hplaces with rfl | ⟨ds, hds, rfl⟩
      · contradiction
      · rcases List.mem_cons.mp hc with rfl | hc
        · decide
        · exact isSpace_of_isDecimal (hds.2 c hc)
  rw [hfilter, strip_eq_self hspace]
  rcases hplaces with rfl | ⟨ds, hds, rfl⟩
  · obtain ⟨value, hvalue⟩ := exists_digitsValue hwhole
    refine ⟨⟨value, 0⟩, ?_⟩
    rw [List.append_nil, decimalOf, partition_of_notMem hnotin]
    dsimp only
    rw [List.append_nil, hvalue]
    rfl
  · have hall : ∀ c ∈ whole ++ ds, isDecimal c = true := fun c hc =>
      (List.mem_append.mp hc).elim (hwhole c) (hds.2 c)
    obtain ⟨value, hvalue⟩ := exists_digitsValue hall
    refine ⟨⟨value, ds.length⟩, ?_⟩
    rw [decimalOf, partition_append hnotin]
    dsimp only
    rw [hvalue]
    rfl

theorem exists_parseAmount (h : piece ∈ amounts) (hasK : Bool) :
    ∃ value, parseAmount piece hasK = some value := by
  obtain ⟨d, hd⟩ := exists_decimalOf h
  exact ⟨_, by rw [parseAmount, hd]; rfl⟩

theorem parseAmount_nonneg {hasK : Bool} {value : ℚ} (h : parseAmount piece hasK = some value) :
    0 ≤ value := by
  obtain ⟨d, _, rfl⟩ := Option.map_eq_some_iff.mp h
  split
  · exact div_nonneg (Nat.cast_nonneg _) (by positivity)
  · exact div_nonneg (Nat.cast_nonneg _) (by positivity)

/-- An amount has a character that is no space. -/
theorem exists_not_space_of_mem_amounts (h : piece ∈ amounts) : ∃ c ∈ piece, isSpace c = false := by
  obtain ⟨first, grouped, places, hfirst, _, _, rfl⟩ := h
  exact ⟨first, by simp, isSpace_of_isDecimal hfirst⟩

end Salaries
end HireAndTech
