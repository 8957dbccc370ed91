import HireAndTech.Catalogue.Normalization
import HireAndTech.Text.Captures
import HireAndTech.Text.Forms

/-!
# Salary texts

The module {lit}`app.jobs.parsing.salary`: two patterns find amounts in a text, with their currency
and period, and a range is preferred to a single amount.

An amount is at most three digits with groups of three after them, or else any number of
digits.  A pattern that can go on after the amount takes the first of these that leads to a match.

Main results:

- Definitions {lit}`salaryRangeRe` and {lit}`salarySingleRe`: the two patterns.
- Definition {lit}`parseSalary`: the salary that a text states.
- Theorem {lit}`parseAmount_of_isDigit`: the number that digits stand for.
-/

namespace HireAndTech
namespace Salaries

open Text Catalogue

/-! ## Characters -/

/-- The zeros of the decimal digits of Unicode. -/
def digitZeros : List ℕ :=
  [0x30, 0x660, 0x6F0, 0x7C0, 0x966, 0x9E6, 0xA66, 0xAE6, 0xB66, 0xBE6, 0xC66, 0xCE6, 0xD66, 0xDE6,
    0xE50, 0xED0, 0xF20, 0x1040, 0x1090, 0x17E0, 0x1810, 0x1946, 0x19D0, 0x1A80, 0x1A90, 0x1B50,
    0x1BB0, 0x1C40, 0x1C50, 0xA620, 0xA8D0, 0xA900, 0xA9D0, 0xA9F0, 0xAA50, 0xABF0, 0xFF10, 0x104A0,
    0x10D30, 0x11066, 0x110F0, 0x11136, 0x111D0, 0x112F0, 0x11450, 0x114D0, 0x11650, 0x116C0,
    0x11730, 0x118E0, 0x11950, 0x11C50, 0x11D50, 0x11DA0, 0x11F50, 0x16A60, 0x16AC0, 0x16B50,
    0x1D7CE, 0x1D7D8, 0x1D7E2, 0x1D7EC, 0x1D7F6, 0x1E140, 0x1E2F0, 0x1E4F0, 0x1E950, 0x1FBF0]

/-- The value of a decimal digit. -/
def digitValue (c : Char) : Option ℕ :=
  digitZeros.findSome? fun first =>
    if first ≤ c.toNat ∧ c.toNat < first + 10 then some (c.toNat - first) else none

/-- The class `\d`. -/
def isDecimal (c : Char) : Bool :=
  (digitValue c).isSome

/-- The letter that stands for a character when case is ignored. -/
def ignoreCase (c : Char) : Char :=
  if c = '\u0130' ∨ c = '\u0131' then 'i'
  else if c = '\u017F' then 's'
  else if c = '\u212A' then 'k'
  else c.toLower

/-- A text in lower case, in any case. -/
def folded (s : String) : Regex :=
  .sequence (s.toList.map fun c => .satisfy fun d => ignoreCase d = c)

/-! ## Patterns -/

/-- The groups of both patterns. -/
inductive Group
  | curr
  | min
  | minK
  | curr2
  | max
  | maxK
  | curr3
  | period
  | amount
  | k
  | periodAdv
deriving DecidableEq, Repr

/-- `\s*`. -/
def spaces : Regex :=
  .star (.satisfy isSpace)

def digit : Regex :=
  .satisfy isDecimal

/-- `(?:\.\d{1,2})?`. -/
def fraction : Regex :=
  .optional (.seq (.satisfy (· = '.')) (.seq digit (.upTo digit 1)))

/-- `\d{1,3}(?:,\d{3})*(?:\.\d{1,2})?|\d+(?:\.\d{1,2})?`. -/
def amount : Regex :=
  .alt
    (.seq (.seq digit (.upTo digit 2))
      (.seq (.star (.seq (.satisfy (· = ',')) (.times digit 3))) fraction))
    (.seq (.plus digit) fraction)

/-- One of several words. -/
def oneOf (words : List String) : Regex :=
  .anyOf (words.map folded)

def currencyCodes : List String :=
  ["usd", "cad", "gbp", "eur"]

/-- `USD|CAD|GBP|EUR`. -/
def currencyCode : Regex :=
  oneOf currencyCodes

/-- `[$£€]|USD|CAD|GBP|EUR`. -/
def currency : Regex :=
  .alt (.satisfy fun c => ['$', '£', '€'].contains c) currencyCode

/-- `[kK]`. -/
def thousand : Regex :=
  .satisfy fun c => ignoreCase c = 'k'

/-- `(?:-|\u2013|\u2014|to)`. -/
def dash : Regex :=
  .anyOf [.satisfy (· = '-'), .satisfy (· = '\u2013'), .satisfy (· = '\u2014'), folded "to"]

/-- `(?:per|\/|a)`. -/
def per : Regex :=
  .anyOf [folded "per", .satisfy (· = '/'), folded "a"]

def periodNames : List String :=
  ["year", "yr", "annually", "annual", "hour", "hr", "hourly", "month", "mo", "monthly", "day",
    "week"]

def periodName : Regex :=
  oneOf periodNames

variable (u : Unicode)

/-- `(?:(?P<name>USD|CAD|GBP|EUR)\b)?`. -/
def trailingCode (name : Group) : Pattern Group :=
  .optional (.seq (.group name currencyCode) (.plain (.boundary u.isWord)))

/-- `(?:per|\/|a)\s*(?P<period>…)`. -/
def perPeriod : Pattern Group :=
  .seq (.plain (.seq per spaces)) (.group .period periodName)

/-- `_SALARY_RANGE_RE`. -/
def salaryRangeRe : Pattern Group :=
  .sequence
    [.optional (.group .curr currency), .plain spaces, .group .min amount, .plain spaces,
      .optional (.group .minK thousand), .plain spaces, .plain dash, .plain spaces,
      .optional (.group .curr2 currency), .plain spaces, .group .max amount, .plain spaces,
      .optional (.group .maxK thousand), .plain spaces, trailingCode u .curr3,
      .optional (.seq (.plain spaces) perPeriod)]

/-- `_SALARY_SINGLE_RE`. -/
def salarySingleRe : Pattern Group :=
  .sequence
    [.optional (.group .curr currency), .plain spaces, .group .amount amount, .plain spaces,
      .optional (.group .k thousand), .plain spaces, trailingCode u .curr2,
      .optional (.seq (.plain spaces) (.alt perPeriod (.group .periodAdv
        (oneOf ["annually", "annual", "hourly", "monthly", "daily", "weekly"]))))]

/-! ## Amounts -/

/-- A decimal number that is not negative. -/
structure Decimal where
  coefficient : ℕ
  places : ℕ
deriving DecidableEq, Repr

def Decimal.value (d : Decimal) : ℚ :=
  d.coefficient / 10 ^ d.places

/-- A coefficient rounded to 28 digits, halves to even. -/
def roundCoefficient (n : ℕ) : ℕ :=
  let unit := 10 ^ ((Nat.toDigits 10 n).length - 28)
  let quotient := n / unit
  let remainder := n % unit
  if 2 * remainder < unit ∨ 2 * remainder = unit ∧ quotient % 2 = 0 then quotient * unit
  else (quotient + 1) * unit

/-- `d * 1000`. -/
def Decimal.timesThousand (d : Decimal) : ℚ :=
  roundCoefficient (d.coefficient * 1000) / 10 ^ d.places

/-- The number that digits stand for. -/
def digitsValue (cs : List Char) : Option ℕ :=
  cs.foldlM (fun n c => (digitValue c).map (10 * n + ·)) 0

/-- `Decimal(clean)`, for the texts of amounts. -/
def decimalOf (clean : List Char) : Option Decimal :=
  let (whole, places) := partition '.' clean
  (digitsValue (whole ++ places)).map (⟨·, places.length⟩)

/-- `_parse_amount`. -/
def parseAmount (raw : List Char) (hasK : Bool) : Option ℚ :=
  (decimalOf (strip isSpace (raw.filter (· ≠ ',')))).map fun d =>
    if hasK then d.timesThousand else d.value

/-! ## Salaries -/

/-- `_CURRENCY_MAP`. -/
def currencyMap : List (String × String) :=
  [("$", "USD"), ("usd", "USD"), ("cad", "CAD"), ("c$", "CAD"), ("£", "GBP"), ("gbp", "GBP"),
    ("€", "EUR"), ("eur", "EUR")]

/-- `_PERIOD_MAP`. -/
def periodMap : List (String × String) :=
  [("year", "year"), ("yr", "year"), ("annually", "year"), ("annual", "year"), ("per year", "year"),
    ("p.a.", "year"), ("pa", "year"), ("hour", "hour"), ("hr", "hour"), ("hourly", "hour"),
    ("per hour", "hour"), ("month", "month"), ("mo", "month"), ("monthly", "month"),
    ("per month", "month"), ("day", "day"), ("daily", "day"), ("per day", "day"),
    ("week", "week"), ("weekly", "week"), ("per week", "week")]

/-- `_detect_period`. -/
def detectPeriod (periodRaw : Option (List Char)) (amountHint : ℚ) : Option String :=
  let named := periodRaw.bind fun raw =>
    periodMap.lookup (String.ofList (strip isSpace (u.casefold raw)))
  named <|>
    if 20000 ≤ amountHint then some "year"
    else if amountHint ≤ 300 then some "hour"
    else none

/-- The currency of a salary; dollars are the default. -/
def currencyOf (raw : Option (List Char)) : String :=
  (currencyMap.lookup (String.ofList (u.casefold (raw.getD ['$'])))).getD "USD"

/-- What follows a range of years of experience. -/
def experiencePrefixes : List String :=
  ["year", "yr", "month", "day", "week", "yoe"]

/-- The salary of a range match, unless the match is passed over. -/
def readRange (found : Found Group) : Option Salary :=
  let curr := (found.group .curr).or ((found.group .curr2).or (found.group .curr3))
  let hasK := (found.group .minK).isSome || (found.group .maxK).isSome
  let hasPeriod := (found.group .period).isSome
  let tail := u.casefold ((found.stop.rest.take 25).dropWhile isSpace)
  if !(curr.isSome || hasK || hasPeriod) then none
  else if !curr.isSome && !hasPeriod &&
      experiencePrefixes.any fun word => word.toList.isPrefixOf tail then none
  else
    let minRaw := (found.group .min).getD []
    let maxK := (found.group .maxK).isSome
    -- in "120 - 160k" the first amount is in thousands as well
    let minK := (found.group .minK).isSome ||
      maxK && (parseAmount minRaw false).any (· < 1000)
    match parseAmount minRaw minK, parseAmount ((found.group .max).getD []) maxK with
    | some low, some high =>
        if !curr.isSome && low < 5 then none
        else
          let (low, high) := if high < low then (high, low) else (low, high)
          some ⟨some low, some high, some (currencyOf u curr),
            detectPeriod u (found.group .period) high,
            some (String.ofList (strip isSpace found.text))⟩
    | _, _ => none

/-- The salary of a single match, unless the match is passed over. -/
def readSingle (found : Found Group) : Option Salary :=
  let curr := (found.group .curr).or (found.group .curr2)
  let hasK := (found.group .k).isSome
  let period := (found.group .period).or (found.group .periodAdv)
  if !(curr.isSome || hasK && period.isSome) then none
  else
    (parseAmount ((found.group .amount).getD []) hasK).bind fun value =>
      if value < 10 && period.isNone then none
      else
        some ⟨some value, some value, some (currencyOf u curr), detectPeriod u period value,
          some (String.ofList (strip isSpace found.text))⟩

/-- `parse_salary`. -/
def parseSalary (text : String) : Salary :=
  let range := ((salaryRangeRe u).finditer text.toList).findSome? (readRange u)
  let single := ((salarySingleRe u).finditer text.toList).findSome? (readSingle u)
  (range.or single).getD ⟨none, none, none, none, none⟩

/-! ## Values of digits -/

/-- The digits of ASCII. -/
def asciiDigits : List Char :=
  ['0', '1', '2', '3', '4', '5', '6', '7', '8', '9']

theorem mem_asciiDigits {c : Char} (hc : c.isDigit = true) : c ∈ asciiDigits := by
  obtain ⟨hlow, hhigh⟩ := toNat_of_isDigit hc
  rw [← Char.ofNat_toNat c]
  interval_cases c.toNat <;> decide

theorem digitValue_of_isDigit {c : Char} (hc : c.isDigit = true) :
    digitValue c = some (c.toNat - '0'.toNat) := by
  have hall : asciiDigits.all (fun d => digitValue d = some (d.toNat - '0'.toNat)) = true := by
    decide
  exact of_decide_eq_true (List.all_eq_true.mp hall c (mem_asciiDigits hc))

theorem isSpace_of_isDigit {c : Char} (hc : c.isDigit = true) : isSpace c = false := by
  have hall : asciiDigits.all (fun d => isSpace d = false) = true := by decide
  exact of_decide_eq_true (List.all_eq_true.mp hall c (mem_asciiDigits hc))

section

variable {cs : List Char}

/-- Digits stand for the number that they spell. -/
theorem digitsValue_of_isDigit (hdigits : ∀ c ∈ cs, c.isDigit = true) :
    digitsValue cs = some (Nat.ofDigitChars 10 cs 0) := by
  suffices h : ∀ n, cs.foldlM (fun n c => (digitValue c).map (10 * n + ·)) n =
      some (Nat.ofDigitChars 10 cs n) from h 0
  induction cs with
  | nil => exact fun n => rfl
  | cons c cs ih =>
      intro n
      rw [List.foldlM_cons, digitValue_of_isDigit (hdigits c List.mem_cons_self),
        Nat.ofDigitChars_cons]
      exact ih (fun d hd => hdigits d (List.mem_cons_of_mem c hd)) _

/-- The decimal number that digits stand for. -/
theorem decimalOf_of_isDigit (hdigits : ∀ c ∈ cs, c.isDigit = true) :
    decimalOf (strip isSpace (cs.filter (· ≠ ','))) = some ⟨Nat.ofDigitChars 10 cs 0, 0⟩ := by
  have hcomma : cs.filter (· ≠ ',') = cs := by
    rw [List.filter_eq_self]
    intro c hc
    rw [decide_eq_true_eq]
    rintro rfl
    exact absurd (hdigits ',' hc) (by decide)
  have hspace : strip isSpace cs = cs :=
    strip_eq_self fun c hc => isSpace_of_isDigit (hdigits c hc)
  have hpoint : partition '.' cs = (cs, []) :=
    partition_of_notMem fun hmem => absurd (hdigits '.' hmem) (by decide)
  rw [hcomma, hspace, decimalOf, hpoint]
  simp [digitsValue_of_isDigit hdigits]

/-- The amount that digits stand for. -/
theorem parseAmount_of_isDigit (hdigits : ∀ c ∈ cs, c.isDigit = true) :
    parseAmount cs false = some (Nat.ofDigitChars 10 cs 0 : ℚ) := by
  rw [parseAmount, decimalOf_of_isDigit hdigits]
  simp [Decimal.value]

end

end Salaries
end HireAndTech
