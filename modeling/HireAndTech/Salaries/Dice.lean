import HireAndTech.Salaries.Reading

/-!
# Salaries of Dice postings

{lit}`DiceCollector._extract_salary` renders the base salary of a posting as a text, and
{lit}`parse_salary` reads such texts.

A rendered range is read back as long as the second amount has at most three digits.  Of a longer
one the first three digits are taken for the amount, and the period after it is not found.

Main results:

- Definition {lit}`extractSalary`: the rendered salary of a posting.
- Theorem {lit}`parseSalary_rendered`: what is read of a rendered range.
- Theorem {lit}`salary_round_trip_iff`: which ranges are read back.
-/

namespace HireAndTech
namespace Salaries

open Text Catalogue

/-! ## Postings -/

/-- A number of a posting.  Of a float the program sees the integer that it equals, if there is
one, and its text. -/
inductive Number
  | bool (b : Bool)
  | int (n : ℤ)
  | float (whole : Option ℤ) (text : String)

/-- A value of a posting; null and lists are not read. -/
inductive Value
  | number (x : Number)
  | str (s : String)
  | mapping (fields : List (String × Value))
  | other

/-- A mapping, of which `value.get(key)` is the look up. -/
abbrev Mapping := List (String × Value)

/-- Why the text of an integer is refused: it has too many digits. -/
inductive ValueError
  | digits
deriving DecidableEq, Repr

/-- `str` of an integer. -/
def strInt (n : ℤ) : Except ValueError String :=
  if 4300 < (Nat.toDigits 10 n.natAbs).length then .error .digits else .ok (toString n)

/-- `str` of a number. -/
def Number.str : Number → Except ValueError String
  | .bool true => .ok "True"
  | .bool false => .ok "False"
  | .int n => strInt n
  | .float _ text => .ok text

/-- `_format_number`. -/
def formatNumber : Number → Except ValueError String
  | .float (some n) _ => strInt n
  | x => x.str

/-- `isinstance(value, (int, float))`. -/
def numberOf : Option Value → Option Number
  | some (.number x) => some x
  | _ => none

/-- The stripped text of a value, unless it is blank. -/
def strippedOf : Option Value → Option (List Char)
  | some (.str s) =>
      let stripped := strip isSpace s.toList
      if stripped = [] then none else some stripped
  | _ => none

/-- `_first_text`. -/
def firstText (value : Mapping) : List String → Except ValueError (Option String)
  | [] => .ok none
  | key :: keys =>
      match value.lookup key with
      | some (.str s) =>
          if joinSplit s ≠ "" then .ok (some (joinSplit s)) else firstText value keys
      | some (.number x) => x.str.map some
      | _ => firstText value keys

/-- Where the amounts of a base salary stand. -/
def salarySource (baseSalary : Mapping) : Mapping :=
  match baseSalary.lookup "value" with
  | some (.mapping source) => source
  | _ => baseSalary

/-- The amounts of a base salary. -/
def amountText (source : Mapping) : Except ValueError (Option (List Char)) :=
  match numberOf (source.lookup "minValue"), numberOf (source.lookup "maxValue"),
      numberOf (source.lookup "value") with
  | some low, some high, _ => do
      let lowText ← formatNumber low
      let highText ← formatNumber high
      return some (lowText.toList ++ " - ".toList ++ highText.toList)
  | some low, none, _ => do
      let lowText ← formatNumber low
      return some (lowText.toList ++ ['+'])
  | none, some high, _ => do
      let highText ← formatNumber high
      return some ("Up to ".toList ++ highText.toList)
  | none, none, some exact => do
      let text ← formatNumber exact
      return some text.toList
  | none, none, none => return none

/-- `_extract_salary`, for a given `str.lower`. -/
def extractSalary (lower : List Char → List Char) (value : Mapping) :
    Except ValueError (Option String) := do
  let direct ← firstText value ["salary", "salaryText"]
  if truthy direct then
    return direct
  match value.lookup "baseSalary" with
  | some (.mapping baseSalary) =>
      let source := salarySource baseSalary
      match ← amountText source with
      | none => return none
      | some amount =>
          let currency := (strippedOf (baseSalary.lookup "currency")).toList
          let unit := (strippedOf (source.lookup "unitText")).map fun text =>
            "per ".toList ++ lower text
          return some (String.ofList ([' '].intercalate (currency ++ amount :: unit.toList)))
  | _ => return none

/-! ## Rendered ranges -/

/-- The text of a range of amounts. -/
def rendered (currency unit : String) (low high : ℕ) : List Char :=
  currency.toList ++ ' ' :: (Nat.toDigits 10 low ++ (" - ".toList ++
    (Nat.toDigits 10 high ++ (" per ".toList ++ unit.toList))))

/-- On ASCII a function maps letters to lower case. -/
def AsciiLower (f : List Char → List Char) : Prop :=
  ∀ cs : List Char, (∀ c ∈ cs, c.toNat < 128) → f cs = cs.map Char.toLower

/-- A posting has no salary text, and a base salary with a currency, two amounts and a unit. -/
structure StatesRange (value : Mapping) (currency unit : String) (low high : ℕ) : Prop where
  direct : firstText value ["salary", "salaryText"] = .ok none
  base : ∃ baseSalary, value.lookup "baseSalary" = some (.mapping baseSalary) ∧
    baseSalary.lookup "currency" = some (.str currency) ∧
    (salarySource baseSalary).lookup "minValue" = some (.number (.int low)) ∧
    (salarySource baseSalary).lookup "maxValue" = some (.number (.int high)) ∧
    (salarySource baseSalary).lookup "unitText" = some (.str unit)

/-- The rendered salary of a posting is read as the salary that the posting states. -/
def RoundTrips (u : Unicode) (lower : List Char → List Char) (value : Mapping)
    (currency unit : String) (low high : ℕ) : Prop :=
  ∃ text, extractSalary lower value = .ok (some text) ∧
    (parseSalary u text).min = some (low : ℚ) ∧ (parseSalary u text).max = some (high : ℚ) ∧
    (parseSalary u text).currency = some currency ∧ (parseSalary u text).period = some unit

section

variable {u : Unicode} {lower : List Char → List Char} {value : Mapping} {currency unit : String}
  {low high : ℕ}

theorem AsciiLower.apply_unit (hlower : AsciiLower lower) (hunit : unit ∈ units) :
    lower unit.toList = unit.toList := by
  have hascii : units.all (fun unit => unit.toList.all fun c => c.toNat < 128) = true := by decide
  have hall : ∀ c ∈ unit.toList, c.toNat < 128 := by
    simpa using List.all_eq_true.mp hascii unit hunit
  rw [hlower unit.toList hall]
  fin_cases hunit <;> rfl

theorem strippedOf_currency (hcurrency : currency ∈ currencies) :
    strippedOf (some (.str currency)) = some currency.toList := by
  fin_cases hcurrency <;> rfl

theorem strippedOf_unit (hunit : unit ∈ units) :
    strippedOf (some (.str unit)) = some unit.toList := by
  fin_cases hunit <;> rfl

theorem strInt_natCast (n : ℕ) :
    strInt n = if 4300 < (Nat.toDigits 10 n).length then .error .digits else .ok n.repr :=
  rfl

theorem repr_toList (n : ℕ) : n.repr.toList = Nat.toDigits 10 n :=
  String.toList_ofList

/-- What is rendered of a stated range, unless an amount has too many digits. -/
theorem extractSalary_eq (hlower : AsciiLower lower) (hcurrency : currency ∈ currencies)
    (hunit : unit ∈ units) (h : StatesRange value currency unit low high) :
    extractSalary lower value =
      if 4300 < (Nat.toDigits 10 low).length ∨ 4300 < (Nat.toDigits 10 high).length then
        .error .digits
      else .ok (some (String.ofList (rendered currency unit low high))) := by
  obtain ⟨baseSalary, hbase, hcurr, hmin, hmax, hper⟩ := h.base
  have hamount : amountText (salarySource baseSalary) =
      if 4300 < (Nat.toDigits 10 low).length ∨ 4300 < (Nat.toDigits 10 high).length then
        .error .digits
      else .ok (some (Nat.toDigits 10 low ++ " - ".toList ++ Nat.toDigits 10 high)) := by
    rw [amountText, hmin, hmax]
    simp only [numberOf, formatNumber, Number.str, strInt_natCast]
    by_cases hlow : 4300 < (Nat.toDigits 10 low).length
    · rw [if_pos hlow, if_pos (Or.inl hlow)]
      rfl
    · by_cases hhigh : 4300 < (Nat.toDigits 10 high).length
      · rw [if_neg hlow, if_pos hhigh, if_pos (Or.inr hhigh)]
        rfl
      · rw [if_neg hlow, if_neg hhigh, if_neg (not_or.mpr ⟨hlow, hhigh⟩),
          ← repr_toList low, ← repr_toList high]
        rfl
  rw [extractSalary, h.direct, hbase]
  simp only [hcurr, hper, hamount, strippedOf_currency hcurrency, strippedOf_unit hunit]
  split_ifs with hdigits
  · rfl
  · have hparts : [' '].intercalate
        [currency.toList, Nat.toDigits 10 low ++ " - ".toList ++ Nat.toDigits 10 high,
          "per ".toList ++ lower unit.toList] = rendered currency unit low high := by
      simp [List.intercalate, rendered, hlower.apply_unit hunit]
    rw [← hparts]
    rfl

/-! ## Reading a rendered range -/

theorem isDigit_of_mem_toDigits {n : ℕ} : ∀ c ∈ Nat.toDigits 10 n, c.isDigit = true :=
  fun _ hc => Nat.isDigit_of_mem_toDigits (by omega) (le_refl 10) hc

theorem toDigits_ne_nil (n : ℕ) : Nat.toDigits 10 n ≠ [] :=
  List.ne_nil_of_length_pos Nat.length_toDigits_pos

/-- A match has captured a currency in front and two amounts, neither of them in thousands. -/
structure Matched (found : Found Group) (currency : String) (low high : List Char) : Prop where
  curr : found.group .curr = some currency.toList
  min : found.group .min = some low
  max : found.group .max = some high
  minK : found.group .minK = none
  maxK : found.group .maxK = none

/-- The first match of the range pattern in a rendered range. -/
theorem finditer_rendered (u : Unicode) (hcurrency : currency ∈ currencies) (hunit : unit ∈ units)
    (low high : ℕ) : ∃ found more,
      (salaryRangeRe u).finditer (rendered currency unit low high) = found :: more ∧
        Matched found currency (Nat.toDigits 10 low) ((Nat.toDigits 10 high).take 3) ∧
        ((Nat.toDigits 10 high).length ≤ 3 → found.group .period = some unit.toList) := by
  have hrest : EndsAmount (" per ".toList ++ unit.toList) := by
    intro c hc
    cases hc
    exact ⟨rfl, by decide, by decide⟩
  by_cases hshort : (Nat.toDigits 10 high).length ≤ 3
  · have hafter : (afterMax u).Reaches ∅
        ((Nat.toDigits 10 high).drop 3 ++ (" per ".toList ++ unit.toList)) []
        [(.period, unit.toList)] := by
      rw [List.drop_eq_nil_of_le hshort]
      exact reaches_afterMax_period u hunit
    have hreaches := reaches_salaryRangeRe u hcurrency (toDigits_ne_nil low) isDigit_of_mem_toDigits
      (toDigits_ne_nil high) isDigit_of_mem_toDigits hrest hafter
    rw [← rendered, ← List.append_nil (rendered currency unit low high)] at hreaches
    obtain ⟨before, more, hfound⟩ := Pattern.finditer_of_reaches hreaches
    rw [List.append_nil] at hfound
    exact ⟨_, more, hfound, ⟨rfl, rfl, rfl, rfl, rfl⟩, fun _ => rfl⟩
  · have hmore : (Nat.toDigits 10 high).drop 3 ++ (" per ".toList ++ unit.toList) ∈ digitTexts :=
      mem_digitTexts (List.drop_eq_nil_iff.not.mpr hshort)
        fun c hc => isDigit_of_mem_toDigits c (List.mem_of_mem_drop hc)
    have hafter := reaches_afterMax_digits u hmore
    have hsplit : rendered currency unit low high =
        (currency.toList ++ ' ' :: (Nat.toDigits 10 low ++ (" - ".toList ++
          (Nat.toDigits 10 high).take 3))) ++
        ((Nat.toDigits 10 high).drop 3 ++ (" per ".toList ++ unit.toList)) := by
      simp only [rendered, List.append_assoc, List.cons_append]
      rw [← List.append_assoc ((Nat.toDigits 10 high).take 3), List.take_append_drop]
    have hreaches := reaches_salaryRangeRe u hcurrency (toDigits_ne_nil low) isDigit_of_mem_toDigits
      (toDigits_ne_nil high) isDigit_of_mem_toDigits hrest hafter
    rw [← rendered, hsplit] at hreaches
    obtain ⟨before, more, hfound⟩ := Pattern.finditer_of_reaches hreaches
    rw [← hsplit] at hfound
    exact ⟨_, more, hfound, ⟨rfl, rfl, rfl, rfl, rfl⟩, fun h => absurd h hshort⟩

/-- What is read of a match with a currency. -/
theorem readRange_of_matched {found : Found Group} {digits digits' : List Char}
    (h : Matched found currency digits digits') (hdigits : ∀ c ∈ digits, c.isDigit = true)
    (hdigits' : ∀ c ∈ digits', c.isDigit = true) (low high : ℕ)
    (hlow : Nat.ofDigitChars 10 digits 0 = low) (hhigh : Nat.ofDigitChars 10 digits' 0 = high) :
    ∃ text, readRange u found =
      some ⟨some ((min low high : ℕ) : ℚ), some ((max low high : ℕ) : ℚ),
        some (currencyOf u (some currency.toList)),
        detectPeriod u (found.group .period) (max low high : ℕ), some text⟩ := by
  refine ⟨String.ofList (strip isSpace found.text), ?_⟩
  have hread : parseAmount digits false = some (low : ℚ) :=
    hlow ▸ parseAmount_of_isDigit hdigits
  have hread' : parseAmount digits' false = some (high : ℚ) :=
    hhigh ▸ parseAmount_of_isDigit hdigits'
  rw [readRange]
  simp only [h.curr, h.min, h.max, h.minK, h.maxK, Option.some_or, Option.isSome_some,
    Option.isSome_none, Option.getD_some, Bool.or_false, Bool.true_or, Bool.not_true,
    Bool.false_and, Bool.false_eq_true, if_false, hread, hread', Nat.cast_lt]
  by_cases hlt : high < low
  · rw [if_pos hlt, Nat.min_eq_right hlt.le, Nat.max_eq_left hlt.le]
  · rw [if_neg hlt, Nat.min_eq_left (not_lt.mp hlt), Nat.max_eq_right (not_lt.mp hlt)]

/-- What is read of a rendered range: the second amount up to its first three digits. -/
theorem parseSalary_rendered (u : Unicode) (hcurrency : currency ∈ currencies)
    (hunit : unit ∈ units) (low high : ℕ) : ∃ read period text,
      parseSalary u (String.ofList (rendered currency unit low high)) =
        ⟨some ((min low read : ℕ) : ℚ), some ((max low read : ℕ) : ℚ),
          some (currencyOf u (some currency.toList)), period, some text⟩ ∧
        read < 1000 ∧
        (high < 1000 → read = high ∧
          period = detectPeriod u (some unit.toList) (max low high : ℕ)) := by
  obtain ⟨found, more, hfound, hmatched, hperiod⟩ := finditer_rendered u hcurrency hunit low high
  have htake : ∀ c ∈ (Nat.toDigits 10 high).take 3, c.isDigit = true :=
    fun c hc => isDigit_of_mem_toDigits c (List.mem_of_mem_take hc)
  obtain ⟨text, hread⟩ := readRange_of_matched (u := u) hmatched isDigit_of_mem_toDigits htake low
    (Nat.ofDigitChars 10 ((Nat.toDigits 10 high).take 3) 0) Nat.ofDigitChars_ten_toDigits rfl
  refine ⟨Nat.ofDigitChars 10 ((Nat.toDigits 10 high).take 3) 0, detectPeriod u
    (found.group .period) (max low (Nat.ofDigitChars 10 ((Nat.toDigits 10 high).take 3) 0) : ℕ),
    text, ?_, ?_, ?_⟩
  · rw [parseSalary, String.toList_ofList, hfound, List.findSome?_cons, hread]
    rfl
  · calc Nat.ofDigitChars 10 ((Nat.toDigits 10 high).take 3) 0
        < 10 ^ ((Nat.toDigits 10 high).take 3).length := ofDigitChars_lt htake
      _ ≤ 10 ^ 3 := Nat.pow_le_pow_right (by omega) (List.length_take_le 3 _)
  · intro hhigh
    have hshort : (Nat.toDigits 10 high).length ≤ 3 :=
      (Nat.length_toDigits_le_iff (by omega) (by omega)).mpr hhigh
    have hvalue : Nat.ofDigitChars 10 ((Nat.toDigits 10 high).take 3) 0 = high := by
      rw [List.take_of_length_le hshort, Nat.ofDigitChars_ten_toDigits]
    rw [hvalue, hperiod hshort]
    exact ⟨rfl, rfl⟩

/-! ## The round trip -/

theorem currencyOf_code (hu : AsciiLower u.casefold) (hcurrency : currency ∈ currencies) :
    currencyOf u (some currency.toList) = currency := by
  have hascii : currencies.all (fun code => code.toList.all fun c => c.toNat < 128) = true := by
    decide
  have hall : ∀ c ∈ currency.toList, c.toNat < 128 := by
    simpa using List.all_eq_true.mp hascii currency hcurrency
  rw [currencyOf, Option.getD_some, hu currency.toList hall]
  fin_cases hcurrency <;> rfl

theorem detectPeriod_unit (hu : AsciiLower u.casefold) (hunit : unit ∈ units) (amount : ℚ) :
    detectPeriod u (some unit.toList) amount = some unit := by
  rw [detectPeriod, Option.bind_some, hu.apply_unit hunit]
  fin_cases hunit <;> rfl

/-- A stated range is read back exactly if its second amount has at most three digits. -/
theorem salary_round_trip_iff (u : Unicode) (lower : List Char → List Char)
    (hu : AsciiLower u.casefold) (hlower : AsciiLower lower) (value : Mapping)
    (currency unit : String) (hcurrency : currency ∈ currencies) (hunit : unit ∈ units)
    (low high : ℕ) (hle : low ≤ high) (h : StatesRange value currency unit low high) :
    RoundTrips u lower value currency unit low high ↔ high < 1000 := by
  obtain ⟨read, period, text, hparse, hread, hshort⟩ :=
    parseSalary_rendered u hcurrency hunit low high
  have hrender := extractSalary_eq hlower hcurrency hunit h
  constructor
  · rintro ⟨rendering, hextract, hmin, hmax, _, _⟩
    rw [hrender] at hextract
    split_ifs at hextract
    cases hextract
    rw [hparse, Option.some_inj, Nat.cast_inj] at hmin hmax
    -- the two amounts that are read are those that are stated, so that the second one is short
    omega
  · intro hhigh
    obtain ⟨hreadHigh, hperiod⟩ := hshort hhigh
    have hlength (n : ℕ) (hn : n < 1000) : (Nat.toDigits 10 n).length ≤ 3 :=
      (Nat.length_toDigits_le_iff (by omega) (by omega)).mpr hn
    have hlowLength := hlength low (by omega)
    have hhighLength := hlength high hhigh
    refine ⟨String.ofList (rendered currency unit low high), ?_, ?_⟩
    · rw [hrender, if_neg (by omega)]
    · rw [hparse, hreadHigh, hperiod, Nat.min_eq_left hle, Nat.max_eq_right hle,
        currencyOf_code hu hcurrency, detectPeriod_unit hu hunit]
      exact ⟨rfl, rfl, rfl, rfl⟩

/-- A posting with a base salary. -/
def posting (currency unit : String) (low high : ℕ) : Mapping :=
  [("baseSalary", .mapping
    [("currency", .str currency), ("value", .mapping
      [("minValue", .number (.int low)), ("maxValue", .number (.int high)),
        ("unitText", .str unit)])])]

theorem statesRange_posting (currency unit : String) (low high : ℕ) :
    StatesRange (posting currency unit low high) currency unit low high :=
  ⟨rfl, _, rfl, rfl, rfl, rfl, rfl⟩

theorem asciiLower_toLower : AsciiLower (List.map Char.toLower) :=
  fun _ _ => rfl

/-- An hourly salary. -/
theorem salary_round_trip_iff_hourly :
    RoundTrips .ascii (List.map Char.toLower) (posting "USD" "hour" 70 90) "USD" "hour" 70 90 :=
  (salary_round_trip_iff .ascii (List.map Char.toLower) asciiLower_toLower asciiLower_toLower
    (posting "USD" "hour" 70 90) "USD" "hour" (by decide) (by decide) 70 90 (by decide)
    (statesRange_posting "USD" "hour" 70 90)).mpr (by decide)

/-- A yearly salary: what is read goes from 120 to 100000. -/
theorem yearly_not_read_back :
    StatesRange (posting "USD" "year" 100000 120000) "USD" "year" 100000 120000 ∧
      extractSalary (List.map Char.toLower) (posting "USD" "year" 100000 120000) =
        .ok (some "USD 100000 - 120000 per year") ∧
      (parseSalary .ascii "USD 100000 - 120000 per year").min = some 120 ∧
      (parseSalary .ascii "USD 100000 - 120000 per year").max = some 100000 ∧
      ¬RoundTrips .ascii (List.map Char.toLower) (posting "USD" "year" 100000 120000)
        "USD" "year" 100000 120000 := by
  have hextract : extractSalary (List.map Char.toLower) (posting "USD" "year" 100000 120000) =
      .ok (some "USD 100000 - 120000 per year") := rfl
  have hmin : (parseSalary .ascii "USD 100000 - 120000 per year").min = some 120 := by
    decide +kernel
  have hmax : (parseSalary .ascii "USD 100000 - 120000 per year").max = some 100000 := by
    decide +kernel
  refine ⟨statesRange_posting "USD" "year" 100000 120000, hextract, hmin, hmax, ?_⟩
  rintro ⟨text, hextract', hmin', _⟩
  rw [hextract] at hextract'
  cases hextract'
  rw [hmin] at hmin'
  norm_num at hmin'

end

end Salaries
end HireAndTech
