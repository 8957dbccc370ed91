import HireAndTech.Text.IsoFormat

/-!
# Reading texts of times

{lit}`datetime.fromisoformat`: the texts of ISO 8601 with a calendar date or a week date, any
character between the date and the time of day, and an offset that may have a fraction.

Main results:

- Definition {lit}`fromisoformat`: the time that a text stands for.
-/

namespace Text

/-- A time of a calendar in microseconds from the beginning of year 1, with the offset of the
calendar when it is known. -/
structure LocalTime where
  wall : ℤ
  offset : Option ℤ
deriving DecidableEq, Repr

/-! ## Dates -/

/-- The number of so many digits at the beginning of a text, and the rest. -/
def takeNumber (width : ℕ) (cs : List Char) : Option (ℕ × List Char) :=
  if width ≤ cs.length ∧ (cs.take width).all Char.isDigit then
    some (Nat.ofDigitChars 10 (cs.take width) 0, cs.drop width)
  else none

/-- The number of days of a month. -/
def daysInMonth (leap : Bool) (month : ℕ) : ℕ :=
  [0, 31, if leap then 29 else 28, 31, 30, 31, 30, 31, 31, 30, 31, 30, 31].getD month 0

/-- `_check_date_fields`. -/
def checkDateFields (date : Date) : Bool :=
  1 ≤ date.year && date.year ≤ 9999 && 1 ≤ date.month && date.month ≤ 12 && 1 ≤ date.day &&
    date.day ≤ daysInMonth (isLeap date.year) date.month

/-- `_isoweek1monday`, with days counted from zero. -/
def isoWeek1Monday (year : ℕ) : ℤ :=
  let first := ordinal ⟨year, 1, 1⟩
  let monday : ℤ := first - first % 7
  if 3 < first % 7 then monday + 7 else monday

/-- `_isoweek_to_gregorian`. -/
def isoWeekToGregorian (year week day : ℕ) : Option Date :=
  let weekday := ordinal ⟨year, 1, 1⟩ % 7
  let long := weekday = 3 || weekday = 2 && isLeap year
  if 1 ≤ year ∧ year ≤ 9999 ∧ 1 ≤ week ∧ (week ≤ 52 ∨ week = 53 ∧ long) ∧ 1 ≤ day ∧ day ≤ 7 then
    some (dateOf (isoWeek1Monday year + ((week - 1) * 7 + day - 1 : ℕ)).toNat)
  else none

/-- A calendar date after its year, with hyphens or without. -/
def calendarDate (year : ℕ) (hyphens : Bool) (cs : List Char) : Option Date := do
  let (month, cs) ← takeNumber 2 cs
  let cs ← match hyphens, cs with
    | true, '-' :: cs => some cs
    | true, _ => none
    | false, cs => some cs
  match ← takeNumber 2 cs with
  | (day, []) => return ⟨year, month, day⟩
  | _ => none

/-- A week date after its year and the letter, with hyphens or without. -/
def weekDate (year : ℕ) (hyphens : Bool) (cs : List Char) : Option Date := do
  let (week, cs) ← takeNumber 2 cs
  let cs ← match hyphens, cs with
    | true, '-' :: cs => some cs
    | true, [] => some ['1']
    | true, _ => none
    | false, [] => some ['1']
    | false, cs => some cs
  match ← takeNumber 1 cs with
  | (day, []) => isoWeekToGregorian year week day
  | _ => none

/-- `_parse_isoformat_date`. -/
def parseIsoformatDate (cs : List Char) : Option Date := do
  let (year, cs) ← takeNumber 4 cs
  let date ← match cs with
    | '-' :: 'W' :: cs => weekDate year true cs
    | '-' :: cs => calendarDate year true cs
    | 'W' :: cs => weekDate year false cs
    | cs => calendarDate year false cs
  if checkDateFields date then some date else none

/-! ## Times of day -/

/-- A time of day, or an offset. -/
structure Clock where
  hour : ℕ
  minute : ℕ
  second : ℕ
  micros : ℕ
deriving DecidableEq, Repr

def Clock.seconds (c : Clock) : ℕ :=
  c.hour * 3600 + c.minute * 60 + c.second

/-- The microseconds of a fraction with its point, of which six digits are read. -/
def parseFraction : List Char → Option ℕ
  | [] => some 0
  | c :: digits =>
      if (c = '.' ∨ c = ',') ∧ digits ≠ [] ∧ digits.all Char.isDigit then
        (takeNumber 6 (digits ++ List.replicate 6 '0')).map (·.1)
      else none

/-- The seconds and the fraction. -/
def parseSeconds (hour minute : ℕ) (cs : List Char) : Option Clock := do
  let (second, cs) ← takeNumber 2 cs
  let micros ← parseFraction cs
  return ⟨hour, minute, second, micros⟩

/-- `_parse_hh_mm_ss_ff`. -/
def parseHhMmSsFf (cs : List Char) : Option Clock := do
  let (hour, cs) ← takeNumber 2 cs
  match cs with
  | [] => return ⟨hour, 0, 0, 0⟩
  | ':' :: cs =>
      let (minute, cs) ← takeNumber 2 cs
      match cs with
      | [] => return ⟨hour, minute, 0, 0⟩
      | ':' :: cs => parseSeconds hour minute cs
      | _ => none
  | cs =>
      let (minute, cs) ← takeNumber 2 cs
      match cs with
      | [] => return ⟨hour, minute, 0, 0⟩
      | cs => parseSeconds hour minute cs

/-- The offset of a time zone in microseconds, which is less than a day. -/
def parseOffset (sign : Char) (cs : List Char) : Option ℤ :=
  if sign = 'Z' then if cs = [] then some 0 else none
  else do
    let clock ← parseHhMmSsFf cs
    let offset := clock.seconds * 1000000 + clock.micros
    if offset < 86400000000 then
      return if sign = '-' then -(offset : ℤ) else offset
    else none

def isZoneSign (c : Char) : Bool :=
  c ∈ ['+', '-', 'Z']

/-- `_parse_isoformat_time`: the microseconds of the day, and the offset. -/
def parseIsoformatTime (cs : List Char) : Option (ℕ × Option ℤ) := do
  let clock ← parseHhMmSsFf (cs.takeWhile (!isZoneSign ·))
  let micros := clock.seconds * 1000000 + clock.micros
  if clock.hour < 24 ∧ clock.minute < 60 ∧ clock.second < 60 then
    match cs.dropWhile (!isZoneSign ·) with
    | [] => return (micros, none)
    | sign :: zone =>
        let offset ← parseOffset sign zone
        return (micros, some offset)
  else none

/-! ## Date and time -/

/-- `_find_isoformat_datetime_separator`, in a text of seven characters or more. -/
def findSeparator (cs : List Char) : ℕ :=
  if cs.length = 7 then 7
  else if cs[4]? = some '-' then
    if cs[5]? = some 'W' then
      if cs[8]? = some '-' then
        -- a digit after the hyphen and the day is taken for the hour
        if (cs[10]?).any Char.isDigit then 8 else 10
      else 8
    else 10
  else if cs[4]? = some 'W' then
    let digits := 7 + ((cs.drop 7).takeWhile Char.isDigit).length
    if digits < 9 then digits
    else if digits % 2 = 0 then 7
    else 8
  else 8

/-- `datetime.fromisoformat`; a `ValueError` is `none`.  The forms are the documented ones: CPython
also reads a few others, such as `2020-01-01T05:Z`, `2020-01-01T05.5` and `2020-01-01T05:00.5`,
which are `none` here. -/
def fromisoformat (cs : List Char) : Option LocalTime :=
  if cs.length < 7 then none
  else do
    let date ← parseIsoformatDate (cs.take (findSeparator cs))
    let days : ℤ := ordinal date * 86400000000
    match cs.drop (findSeparator cs) with
    | [] => return ⟨days, none⟩
    | _ :: time =>
        let (micros, offset) ← parseIsoformatTime time
        return ⟨days + micros, offset⟩

end Text
