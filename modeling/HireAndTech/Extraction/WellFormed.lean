import HireAndTech.Base.Assignments
import HireAndTech.Extraction.Requirements
import HireAndTech.Salaries.Bounds
import HireAndTech.Salaries.Reading

/-!
# Well-formed extracts

What the two extractors return for any text.  Both return nothing at all, or values in order with
the part of the text that states them.  Nothing is raised except for the product of an amount in
thousands, whose overflow is not among the exceptions that are caught.

Main results:

- Definitions {lit}`SalaryWellFormed` and {lit}`ExperienceWellFormed`.
- Theorem {lit}`extractExperienceChecked_eq`: every number of years is read.
- Theorem {lit}`extracts_wellFormed_iff`: the texts whose extracts are well formed.
-/

namespace HireAndTech
namespace Extraction

open Text Text.Regex Catalogue Salaries

/-! ## Quoted parts -/

/-- The text that is returned is a part of the text that is read, and not empty. -/
def Quotes (text : String) (quoted : Option String) : Prop :=
  ∃ part, quoted = some part ∧ part ≠ "" ∧ part.toList <:+: text.toList

/-- A match with a character that is no space is quoted without the spaces around it. -/
theorem quotes_of_mem_finditer {γ : Type} {pattern : Pattern γ} {text : String} {found : Found γ}
    {piece : List Char} (h : found ∈ pattern.finditer text.toList)
    (hpiece : piece <:+: found.text) (hsome : ∃ c ∈ piece, isSpace c = false) :
    Quotes text (some (String.ofList (strip isSpace found.text))) := by
  obtain ⟨front, rest, htext, hfound⟩ := Pattern.exists_of_mem_finditer h
  obtain ⟨c, hc, hspace⟩ := hsome
  have hmem : c ∈ strip isSpace found.text := mem_strip (hpiece.subset hc) hspace
  have hinfix : found.text <:+: text.toList := by
    rw [htext]
    exact (Pattern.text_infix_of_matchAt hfound).trans (List.suffix_append front rest).isInfix
  refine ⟨_, rfl, fun hempty => ?_, ?_⟩
  · rw [← String.toList_inj, String.toList_ofList] at hempty
    rw [hempty] at hmem
    contradiction
  · rw [String.toList_ofList]
    exact isInfix_strip.trans hinfix

/-! ## Years -/

/-- `ValueError` or `TypeError` of `int`. -/
inductive Unreadable
  | number
deriving DecidableEq, Repr

/-- Every group of the pattern is captured, and is a number. -/
def readsNumbers (pattern : Pattern Group) (found : Found Group) : Bool :=
  pattern.names.all fun name => (yearsOf found name).isSome

/-- The years of the first pattern whose first match is realistic. -/
def searchYears (text : List Char) : List (Pattern Group) → Except Unreadable Experience
  | [] => .ok (none, none, none)
  | pattern :: patterns =>
      match (pattern.finditer text).head? with
      | none => searchYears text patterns
      | some found =>
          if readsNumbers pattern found then
            match readExperience found with
            | some experience => .ok experience
            | none => searchYears text patterns
          else .error .number

/-- `extract_experience`, which raises when a group is no number. -/
def extractExperienceChecked (u : Unicode) (text : String) : Except Unreadable Experience :=
  searchYears text.toList (experiencePatterns u)

/-- Nothing is known, or a number of years is, and another that is no less; both are at
most thirty. -/
def ExperienceWellFormed (text : String) (experience : Experience) : Prop :=
  experience = (none, none, none) ∨
    (∃ low : ℤ, experience.1 = some low ∧ 0 ≤ low ∧ low ≤ 30 ∧
      ∀ high ∈ experience.2.1, low ≤ high ∧ high ≤ 30) ∧
    Quotes text experience.2.2

section

variable {u : Unicode} {pattern : Pattern Group} {found : Found Group} {text : String}
  {experience : Experience}

/-- Every number of years that a match captures is read. -/
theorem readsNumbers_of_matchAt {place : Place} (hpattern : pattern ∈ experiencePatterns u)
    (h : pattern.matchAt place = some found) : readsNumbers pattern found = true := by
  obtain ⟨low, hlow⟩ := exists_yearsOf_min hpattern h
  simp only [experiencePatterns, List.mem_cons, List.not_mem_nil, or_false] at hpattern
  rcases hpattern with rfl | rfl | rfl | rfl
  · obtain ⟨piece, hpiece, hgroup, _⟩ : ∃ piece ∈ numerals, found.group .max = some piece ∧
        piece <:+: found.text :=
      Pattern.exists_captured (i := 5) rfl (by simp [Pattern.names, edge]) years_consumes h
    obtain ⟨high, hhigh⟩ := exists_digitsValue hpiece.2
    have hmax : yearsOf found .max = some high := by
      rw [yearsOf, hgroup]
      exact hhigh
    simp [readsNumbers, Pattern.names_sequence, Pattern.names, edge, hlow, hmax]
  · simp [readsNumbers, Pattern.names_sequence, Pattern.names, edge, hlow]
  · simp [readsNumbers, Pattern.names_sequence, Pattern.names, edge, hlow]
  · simp [readsNumbers, Pattern.names_sequence, Pattern.names, edge, hlow]

theorem searchYears_eq {patterns : List (Pattern Group)}
    (h : ∀ pattern ∈ patterns, pattern ∈ experiencePatterns u) :
    searchYears text.toList patterns =
      .ok ((patterns.findSome? fun pattern =>
        (pattern.finditer text.toList).head?.bind readExperience).getD (none, none, none)) := by
  induction patterns with
  | nil => rfl
  | cons pattern patterns ih =>
      have hmore := ih fun other hother => h other (List.mem_cons_of_mem pattern hother)
      rw [searchYears, List.findSome?_cons]
      cases hhead : (pattern.finditer text.toList).head? with
      | none => exact hmore
      | some found =>
          obtain ⟨front, rest, _, hfound⟩ :=
            Pattern.exists_of_mem_finditer (List.mem_of_mem_head? hhead)
          dsimp only
          rw [if_pos (readsNumbers_of_matchAt (h pattern List.mem_cons_self) hfound),
            Option.bind_some]
          cases readExperience found with
          | none => exact hmore
          | some experience => rfl

/-- Every number of years is read. -/
theorem extractExperienceChecked_eq (u : Unicode) (text : String) :
    extractExperienceChecked u text = .ok (extractExperience u text) :=
  searchYears_eq fun _ => id

theorem readExperience_bounds (h : readExperience found = some experience) :
    (∃ low : ℤ, experience.1 = some low ∧ 0 ≤ low ∧ low ≤ 30 ∧
      ∀ high ∈ experience.2.1, low ≤ high ∧ high ≤ 30) ∧
    experience.2.2 = some (String.ofList (strip isSpace found.text)) := by
  simp only [readExperience] at h
  split at h
  · split_ifs at h <;> cases h
    · exact ⟨⟨_, rfl, by omega, by omega, by simp; omega⟩, rfl⟩
    · exact ⟨⟨_, rfl, by omega, by omega, by simp; omega⟩, rfl⟩
  · split_ifs at h
    cases h
    exact ⟨⟨_, rfl, by omega, by omega, by simp⟩, rfl⟩
  · contradiction

theorem extractExperience_wellFormed (u : Unicode) (text : String) :
    ExperienceWellFormed text (extractExperience u text) := by
  unfold extractExperience
  cases hfound : (experiencePatterns u).findSome? fun pattern =>
      (pattern.finditer text.toList).head?.bind readExperience with
  | none => exact Or.inl rfl
  | some experience =>
      obtain ⟨pattern, hmem, hpattern⟩ := List.exists_of_findSome?_eq_some hfound
      obtain ⟨found, hhead, hread⟩ := Option.bind_eq_some_iff.mp hpattern
      obtain ⟨hbounds, hquoted⟩ := readExperience_bounds hread
      obtain ⟨front, rest, _, hmatch⟩ :=
        Pattern.exists_of_mem_finditer (List.mem_of_mem_head? hhead)
      obtain ⟨piece, hpiece, _, hinfix⟩ := exists_captured_min hmem hmatch
      obtain ⟨c, hc⟩ := List.exists_mem_of_ne_nil piece hpiece.1
      refine Or.inr ⟨hbounds, ?_⟩
      rw [Option.getD_some, hquoted]
      exact quotes_of_mem_finditer (List.mem_of_mem_head? hhead) hinfix
        ⟨c, hc, isSpace_of_isDecimal (hpiece.2 c hc)⟩

end

/-! ## Salaries -/

/-- The currencies of salaries. -/
def salaryCurrencies : List String :=
  ["USD", "CAD", "GBP", "EUR"]

/-- The periods of salaries. -/
def salaryPeriods : List String :=
  ["year", "hour", "month", "day", "week"]

/-- A salary with its amounts in order, its currency and the part of the text that states it. -/
structure SalaryStated (text : String) (salary : Salary) : Prop where
  amounts : ∃ low high, salary.min = some low ∧ salary.max = some high ∧ 0 ≤ low ∧ low ≤ high
  currency : ∃ code ∈ salaryCurrencies, salary.currency = some code
  period : ∀ period ∈ salary.period, period ∈ salaryPeriods
  quoted : Quotes text salary.text

/-- Nothing is known, or a salary is stated. -/
def SalaryWellFormed (text : String) (salary : Salary) : Prop :=
  salary = ⟨none, none, none, none, none⟩ ∨ SalaryStated text salary

section

variable {u : Unicode} {found : Found Salaries.Group} {text : String} {salary : Salary}
  {place : Place}

theorem currencyOf_mem (u : Unicode) (raw : Option (List Char)) :
    currencyOf u raw ∈ salaryCurrencies := by
  have hall : ∀ pair ∈ currencyMap, pair.2 ∈ salaryCurrencies := by decide
  unfold currencyOf
  cases hlookup : currencyMap.lookup (String.ofList (u.casefold (raw.getD ['$']))) with
  | none => exact List.mem_cons_self
  | some code => exact hall _ (Base.mem_of_lookup hlookup)

theorem detectPeriod_mem {raw : Option (List Char)} {amount : ℚ} {period : String}
    (h : detectPeriod u raw amount = some period) : period ∈ salaryPeriods := by
  have hall : ∀ pair ∈ periodMap, pair.2 ∈ salaryPeriods := by decide
  simp only [detectPeriod] at h
  cases hnamed : raw.bind fun raw =>
      periodMap.lookup (String.ofList (strip isSpace (u.casefold raw))) with
  | some named =>
      obtain ⟨raw, _, hlookup⟩ := Option.bind_eq_some_iff.mp hnamed
      rw [hnamed] at h
      cases h
      exact hall _ (Base.mem_of_lookup hlookup)
  | none =>
      simp only [hnamed, Option.orElse_eq_orElse, Option.orElse_eq_or, Option.none_or] at h
      split_ifs at h <;> cases h <;> decide

theorem amount_captured_range (h : (salaryRangeRe u).matchAt place = some found) :
    ∃ piece ∈ amounts, found.group .min = some piece ∧ piece <:+: found.text :=
  Pattern.exists_captured (i := 2) rfl
    (by simp [Pattern.names, Pattern.optional, trailingCode, perPeriod]) amount_consumes h

theorem amount_captured_single (h : (salarySingleRe u).matchAt place = some found) :
    ∃ piece ∈ amounts, found.group .amount = some piece ∧ piece <:+: found.text :=
  Pattern.exists_captured (i := 2) rfl
    (by simp [Pattern.names, Pattern.optional, trailingCode, perPeriod]) amount_consumes h

theorem readRange_stated (hfound : found ∈ (salaryRangeRe u).finditer text.toList)
    (h : readRange u found = some salary) : SalaryStated text salary := by
  obtain ⟨front, rest, _, hmatch⟩ := Pattern.exists_of_mem_finditer hfound
  obtain ⟨piece, hpiece, _, hinfix⟩ := amount_captured_range hmatch
  have hquoted := quotes_of_mem_finditer hfound hinfix (exists_not_space_of_mem_amounts hpiece)
  simp only [readRange] at h
  split_ifs at h
  split at h
  · rename_i low high hlow hhigh
    have hlow := parseAmount_nonneg hlow
    have hhigh := parseAmount_nonneg hhigh
    split_ifs at h with _ hlt <;> cases h
    · exact ⟨⟨high, low, rfl, rfl, hhigh, hlt.le⟩, ⟨_, currencyOf_mem u _, rfl⟩,
        fun _ => detectPeriod_mem, hquoted⟩
    · exact ⟨⟨low, high, rfl, rfl, hlow, not_lt.mp hlt⟩, ⟨_, currencyOf_mem u _, rfl⟩,
        fun _ => detectPeriod_mem, hquoted⟩
  · contradiction

theorem readSingle_stated (hfound : found ∈ (salarySingleRe u).finditer text.toList)
    (h : readSingle u found = some salary) : SalaryStated text salary := by
  obtain ⟨front, rest, _, hmatch⟩ := Pattern.exists_of_mem_finditer hfound
  obtain ⟨piece, hpiece, _, hinfix⟩ := amount_captured_single hmatch
  have hquoted := quotes_of_mem_finditer hfound hinfix (exists_not_space_of_mem_amounts hpiece)
  simp only [readSingle] at h
  split_ifs at h
  obtain ⟨value, hvalue, hread⟩ := Option.bind_eq_some_iff.mp h
  split_ifs at hread
  cases hread
  exact ⟨⟨value, value, rfl, rfl, parseAmount_nonneg hvalue, le_refl value⟩,
    ⟨_, currencyOf_mem u _, rfl⟩, fun _ => detectPeriod_mem, hquoted⟩

theorem parseSalary_wellFormed (u : Unicode) (text : String) :
    SalaryWellFormed text (parseSalary u text) := by
  unfold parseSalary
  dsimp only
  cases hrange : ((salaryRangeRe u).finditer text.toList).findSome? (readRange u) with
  | some salary =>
      obtain ⟨found, hfound, hread⟩ := List.exists_of_findSome?_eq_some hrange
      exact Or.inr (readRange_stated hfound hread)
  | none =>
      cases hsingle : ((salarySingleRe u).finditer text.toList).findSome? (readSingle u) with
      | some salary =>
          obtain ⟨found, hfound, hread⟩ := List.exists_of_findSome?_eq_some hsingle
          exact Or.inr (readSingle_stated hfound hread)
      | none => exact Or.inl rfl

/-- `Decimal(min_raw.replace(",", ""))` reads the first amount of every range. -/
def ReadsFirstAmounts (u : Unicode) (text : String) : Prop :=
  ∀ found ∈ (salaryRangeRe u).finditer text.toList,
    (parseAmount ((found.group .min).getD []) false).isSome = true

theorem readsFirstAmounts (u : Unicode) (text : String) : ReadsFirstAmounts u text := by
  intro found hfound
  obtain ⟨front, rest, _, hmatch⟩ := Pattern.exists_of_mem_finditer hfound
  obtain ⟨piece, hpiece, hgroup, _⟩ := amount_captured_range hmatch
  obtain ⟨value, hvalue⟩ := exists_parseAmount hpiece false
  rw [hgroup, Option.getD_some, hvalue]
  rfl

/-- What is extracted is well formed, and nothing is raised, exactly when no amount that is read
overflows. -/
theorem extracts_wellFormed_iff (u : Unicode) (text : String) :
    (((∃ salary, parseSalaryChecked u text = .ok salary ∧ SalaryWellFormed text salary) ∧
        ReadsFirstAmounts u text) ∧
      ∃ experience, extractExperienceChecked u text = .ok experience ∧
        ExperienceWellFormed text experience) ↔
    salaryOverflows u text = false := by
  have hexperience : ∃ experience, extractExperienceChecked u text = .ok experience ∧
      ExperienceWellFormed text experience :=
    ⟨_, extractExperienceChecked_eq u text, extractExperience_wellFormed u text⟩
  rw [and_iff_left hexperience, and_iff_left (readsFirstAmounts u text), parseSalaryChecked_eq]
  cases salaryOverflows u text with
  | true => simp
  | false =>
      refine iff_of_true ⟨_, ?_, parseSalary_wellFormed u text⟩ rfl
      rfl

end

/-! ## An amount that overflows -/

section

variable (u : Unicode)

/-- Nothing has to follow the second amount. -/
theorem reaches_afterMax_nil : (afterMax u).Reaches ∅ [] [] [] := by
  have hnone {p : Char → Bool} : (Regex.satisfy p).EndsIn ∅ [] :=
    endsIn_satisfy_of_head fun c hc => absurd hc (by simp)
  have hspaces : (Pattern.plain spaces : Pattern Salaries.Group).Reaches ∅ [] [] [] :=
    Pattern.reaches_plain (reaches_spaces_none fun c hc => absurd hc (by simp))
  have hthousand : (Pattern.optional (.group Salaries.Group.maxK thousand)).Reaches ∅ [] [] [] :=
    Pattern.reaches_optional_of_endsIn (Pattern.endsIn_group hnone)
  have hcode : (trailingCode u .curr3).Reaches ∅ [] [] [] :=
    reaches_trailingCode u (endsIn_oneOf rfl)
  have hper : per.EndsIn ∅ [] := by
    apply endsIn_anyOf
    intro r hr
    fin_cases hr
    · exact endsIn_folded rfl
    · exact hnone
    · exact endsIn_folded rfl
  have hperiod : (Pattern.optional (.seq (.plain spaces) perPeriod)).Reaches ∅ [] [] [] := by
    apply Pattern.reaches_optional_of_endsIn
    refine (Pattern.endsIn_plain (endsIn_spaces_none fun c hc => absurd hc (by simp))).seq ?_
    rintro text rfl
    exact (Pattern.endsIn_plain hper.seq_of_empty).seq_of_empty
  exact hspaces.next (hthousand.next (hspaces.next (hcode.next (hperiod.next
    (Pattern.reaches_plain reaches_empty)))))

/-- A first amount in thousands, and a second amount. -/
theorem reaches_thousands :
    (afterMin u).Reaches ∅ ['k', '-', '1'] [] [(.max, ['1']), (.minK, ['k'])] := by
  have hspaces {c : Char} {rest : List Char} (hc : isSpace c = false) :
      (Pattern.plain spaces : Pattern Salaries.Group).Reaches ∅ (c :: rest) (c :: rest) [] :=
    Pattern.reaches_plain (reaches_spaces_none fun d hd => by cases hd; exact hc)
  have hthousand : (Pattern.optional (.group Salaries.Group.minK thousand)).Reaches ∅
      (['k'] ++ ['-', '1']) ['-', '1'] [(.minK, ['k'])] :=
    (Pattern.reaches_group (reaches_satisfy rfl)).left
  have hdash : (Pattern.plain dash : Pattern Salaries.Group).Reaches ∅ ['-', '1'] ['1'] [] :=
    Pattern.reaches_plain (reaches_satisfy rfl).left
  have hcurr : (Pattern.optional (.group Salaries.Group.curr2 currency)).Reaches ∅ ['1'] ['1'] [] :=
    Pattern.reaches_optional_of_endsIn
      (Pattern.endsIn_group (endsIn_currency ⟨'1', rfl, by decide⟩))
  have hdigits : ∀ c ∈ ['1'], c.isDigit = true := by simp
  have hamount : amount.Reaches ∅ (['1'] ++ []) [] :=
    reaches_amount_short (List.cons_ne_nil _ _) hdigits fun c hc => absurd hc (by simp)
  have hmax : (Pattern.group Salaries.Group.max amount).Reaches ∅ ['1'] [] [(.max, ['1'])] :=
    Pattern.reaches_group hamount
  exact (hspaces rfl).next (hthousand.next ((hspaces rfl).next (hdash.next ((hspaces rfl).next
    (hcurr.next ((hspaces rfl).next (hmax.next (reaches_afterMax_nil u))))))))

variable {digits : List Char}

/-- What the range pattern captures of dollars in thousands. -/
theorem reaches_dollars (hne : digits ≠ []) (hdigits : ∀ c ∈ digits, c.isDigit = true) :
    (salaryRangeRe u).Reaches ∅ ('$' :: (digits ++ ['k', '-', '1'])) []
      [(.max, ['1']), (.minK, ['k']), (.min, digits), (.curr, ['$'])] := by
  have hcurr : (Pattern.group Salaries.Group.curr currency).Reaches ∅
      (['$'] ++ (digits ++ ['k', '-', '1'])) (digits ++ ['k', '-', '1']) [(.curr, ['$'])] :=
    Pattern.reaches_group (reaches_satisfy rfl).left
  have hspaces : (Pattern.plain spaces : Pattern Salaries.Group).Reaches ∅
      (digits ++ ['k', '-', '1']) (digits ++ ['k', '-', '1']) [] :=
    Pattern.reaches_plain (reaches_spaces_none (head_of_digitTexts (mem_digitTexts hne hdigits)))
  have hends : EndsAmount ['k', '-', '1'] := by
    intro c hc
    cases hc
    exact ⟨rfl, by decide, by decide⟩
  have hmin : (Pattern.group Salaries.Group.min amount).Reaches digitTexts
      (digits ++ ['k', '-', '1']) ['k', '-', '1'] [(.min, digits)] :=
    Pattern.reaches_group (reaches_amount hne hdigits hends)
  exact hcurr.left.next (hspaces.next (hmin.seq (fun _ => endsIn_afterMin u) (reaches_thousands u)))

end

theorem length_toDigits_pow (n : ℕ) : (Nat.toDigits 10 (10 ^ n)).length = n + 1 := by
  apply le_antisymm
  · rw [Nat.length_toDigits_le_iff (by omega) (by omega)]
    exact Nat.pow_lt_pow_right (by omega) (by omega)
  · rcases n.eq_zero_or_pos with rfl | hpos
    · exact Nat.length_toDigits_pos
    · by_contra hlt
      have hshort : (Nat.toDigits 10 (10 ^ n)).length ≤ n := by omega
      exact lt_irrefl _ ((Nat.length_toDigits_le_iff (by omega) hpos).mp hshort)

/-- A power of ten keeps its digits when it is rounded. -/
theorem roundCoefficient_pow (n : ℕ) : roundCoefficient (10 ^ n) = 10 ^ n := by
  have hdvd : 10 ^ (n + 1 - 28) ∣ 10 ^ n := Nat.pow_dvd_pow 10 (by omega)
  have hpos : 0 < 10 ^ (n + 1 - 28) := Nat.pos_of_ne_zero (by simp)
  rw [roundCoefficient, length_toDigits_pow, Nat.mod_eq_zero_of_dvd hdvd, Nat.mul_zero,
    if_pos (Or.inl hpos), Nat.div_mul_cancel hdvd]

/-- One with {lit}`n` zeros after it. -/
def powerDigits (n : ℕ) : List Char :=
  '1' :: List.replicate n '0'

theorem isDigit_powerDigits {n : ℕ} : ∀ c ∈ powerDigits n, c.isDigit = true := by
  intro c hc
  rcases List.mem_cons.mp hc with rfl | hc
  · rfl
  · rw [List.eq_of_mem_replicate hc]
    rfl

/-- A power of ten overflows in thousands when it has too many digits. -/
theorem amountOverflows_powerDigits {n : ℕ} (hn : 1000000 ≤ n + 3) :
    amountOverflows (powerDigits n) true = true := by
  have hvalue : Nat.ofDigitChars 10 (powerDigits n) 0 = 10 ^ n := by
    rw [powerDigits, Nat.ofDigitChars_cons, Nat.ofDigitChars_replicate_zero]
    simp
  rw [amountOverflows, decimalOf_of_isDigit isDigit_powerDigits, hvalue]
  have hthousand : 10 ^ n * 1000 = 10 ^ (n + 3) := by
    rw [pow_add]
    norm_num
  simp only [hthousand, roundCoefficient_pow, length_toDigits_pow, Bool.true_and, Option.any_some,
    decide_eq_true_eq]
  omega

/-- A range of dollars whose first amount is in thousands. -/
def dollars (n : ℕ) : String :=
  String.ofList ('$' :: (powerDigits n ++ ['k', '-', '1']))

theorem salaryOverflows_dollars (u : Unicode) {n : ℕ} (hn : 1000000 ≤ n + 3) :
    salaryOverflows u (dollars n) = true := by
  have hreaches := reaches_dollars u (List.cons_ne_nil '1' _) (@isDigit_powerDigits n)
  rw [← powerDigits, ← List.append_nil ('$' :: _)] at hreaches
  obtain ⟨before, more, hfound⟩ := Pattern.finditer_of_reaches hreaches
  rw [List.append_nil] at hfound
  generalize hfirst : (⟨_, _, _⟩ : Found Salaries.Group) = found at hfound
  have hcurr : found.group .curr = some ['$'] := by rw [← hfirst]; rfl
  have hmin : found.group .min = some (powerDigits n) := by rw [← hfirst]; rfl
  have hminK : found.group .minK = some ['k'] := by rw [← hfirst]; rfl
  have hoverflows : rangeOverflows u found = true := by
    simp [rangeOverflows, readsRange, hcurr, hmin, hminK, amountOverflows_powerDigits hn]
  rw [salaryOverflows, dollars, String.toList_ofList, hfound]
  simp [overflowsFirst, hoverflows]

/-- A million zeros overflow. -/
theorem extracts_overflow :
    parseSalaryChecked Unicode.ascii (dollars 1000000) = .error .overflow := by
  rw [parseSalaryChecked_eq, if_pos (salaryOverflows_dollars Unicode.ascii (by omega))]

end Extraction
end HireAndTech
