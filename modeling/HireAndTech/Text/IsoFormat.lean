import HireAndTech.Text.Json

/-!
# Texts of times

The ISO 8601 text of a time in UTC, which is counted in microseconds from the beginning of 1970.
The date of a day is computed from the cycles of four hundred, one hundred and four years.

Main results:

- Definition {lit}`isoformat`: the text of a time.
- Theorem {lit}`ordinal_dateOf`: the day of a date.
- Theorem {lit}`isoformat_injective`: times with one text are equal.
-/

namespace Text

/-! ## Dates -/

/-- `_is_leap`. -/
def isLeap (year : ℕ) : Bool :=
  year % 4 = 0 && (year % 100 ≠ 0 || year % 400 = 0)

/-- `_days_before_year`. -/
def daysBeforeYear (year : ℕ) : ℕ :=
  (year - 1) * 365 + (year - 1) / 4 - (year - 1) / 100 + (year - 1) / 400

/-- `_days_before_month`, for a year that is leap or not. -/
def daysBeforeMonth (leap : Bool) (month : ℕ) : ℕ :=
  [0, 0, 31, 59, 90, 120, 151, 181, 212, 243, 273, 304, 334].getD month 0 +
    if 2 < month && leap then 1 else 0

/-- The month of a day of a year. -/
def monthOf (leap : Bool) (dayOfYear : ℕ) : ℕ :=
  let month := (dayOfYear + 50) / 32
  if dayOfYear < daysBeforeMonth leap month then month - 1 else month

/-- A date of the proleptic Gregorian calendar. -/
structure Date where
  year : ℕ
  month : ℕ
  day : ℕ
deriving DecidableEq, Repr

/-- `_ord2ymd`, with days counted from zero. -/
def dateOf (n : ℕ) : Date :=
  let n400 := n / 146097
  let n100 := n % 146097 / 36524
  let n4 := n % 146097 % 36524 / 1461
  let n1 := n % 146097 % 36524 % 1461 / 365
  let dayOfYear := n % 146097 % 36524 % 1461 % 365
  let year := n400 * 400 + n100 * 100 + n4 * 4 + n1 + 1
  if n1 = 4 ∨ n100 = 4 then ⟨year - 1, 12, 31⟩
  else
    let leap := n1 = 3 && (n4 ≠ 24 || n100 = 3)
    let month := monthOf leap dayOfYear
    ⟨year, month, dayOfYear - daysBeforeMonth leap month + 1⟩

/-- `_ymd2ord`, with days counted from zero. -/
def ordinal (date : Date) : ℕ :=
  daysBeforeYear date.year + daysBeforeMonth (isLeap date.year) date.month + date.day - 1

/-- The month of a day begins before the day, and not a month before. -/
theorem monthOf_spec : ∀ leap : Bool, ∀ dayOfYear < 365,
    daysBeforeMonth leap (monthOf leap dayOfYear) ≤ dayOfYear ∧
      dayOfYear < daysBeforeMonth leap (monthOf leap dayOfYear) + 31 ∧
      1 ≤ monthOf leap dayOfYear ∧ monthOf leap dayOfYear ≤ 12 := by
  decide +kernel

/-- A year by its place in the cycles. -/
theorem daysBeforeYear_cycles (a b c d : ℕ) (hb : b < 4) (hc : c < 25) (hd : d < 4) :
    daysBeforeYear (a * 400 + b * 100 + c * 4 + d + 1) =
      a * 146097 + b * 36524 + c * 1461 + d * 365 := by
  have h4 : (a * 400 + b * 100 + c * 4 + d) / 4 = a * 100 + b * 25 + c := by omega
  have h100 : (a * 400 + b * 100 + c * 4 + d) / 100 = a * 4 + b := by omega
  have h400 : (a * 400 + b * 100 + c * 4 + d) / 400 = a := by omega
  rw [daysBeforeYear, Nat.add_sub_cancel, h4, h100, h400]
  omega

theorem isLeap_cycles (a b c d : ℕ) (hb : b < 4) (hc : c < 25) (hd : d < 4) :
    isLeap (a * 400 + b * 100 + c * 4 + d + 1) = (d = 3 && (c ≠ 24 || b = 3)) := by
  have h4 : (a * 400 + b * 100 + c * 4 + d + 1) % 4 = 0 ↔ d = 3 := by omega
  have h100 : (a * 400 + b * 100 + c * 4 + d + 1) % 100 = 0 ↔ c = 24 ∧ d = 3 := by omega
  have h400 : (a * 400 + b * 100 + c * 4 + d + 1) % 400 = 0 ↔ b = 3 ∧ c = 24 ∧ d = 3 := by omega
  rw [isLeap, Bool.eq_iff_iff]
  simp only [Bool.and_eq_true, Bool.or_eq_true, decide_eq_true_eq, ne_eq, h4, h100, h400]
  tauto

/-- The last day of a leap year. -/
theorem ordinal_lastDay (a b c : ℕ) (hb : b < 4) (hc : c < 25) (hleap : c ≠ 24 ∨ b = 3) :
    ordinal ⟨a * 400 + b * 100 + c * 4 + 3 + 1, 12, 31⟩ =
      a * 146097 + b * 36524 + c * 1461 + 1460 := by
  have hyear : (decide (3 = 3) && (decide (c ≠ 24) || decide (b = 3))) = true := by
    simpa using hleap
  have hmonth : daysBeforeMonth true 12 = 335 := rfl
  simp only [ordinal]
  rw [daysBeforeYear_cycles a b c 3 hb hc (by omega), isLeap_cycles a b c 3 hb hc (by omega),
    hyear, hmonth]
  omega

/-- The day of the date of a day. -/
theorem ordinal_dateOf (n : ℕ) : ordinal (dateOf n) = n := by
  have hn4 : n % 146097 % 36524 / 1461 < 25 := by omega
  rw [dateOf]
  dsimp only
  split
  · rename_i hlast
    -- the cycles have counted one year too many
    by_cases hn100 : n % 146097 / 36524 = 4
    · have hyear : n / 146097 * 400 + n % 146097 / 36524 * 100 +
          n % 146097 % 36524 / 1461 * 4 + n % 146097 % 36524 % 1461 / 365 + 1 - 1 =
          n / 146097 * 400 + 3 * 100 + 24 * 4 + 3 + 1 := by omega
      rw [hyear, ordinal_lastDay _ 3 24 (by omega) (by omega) (Or.inr rfl)]
      omega
    · have hn1 : n % 146097 % 36524 % 1461 / 365 = 4 := hlast.resolve_right hn100
      have hyear : n / 146097 * 400 + n % 146097 / 36524 * 100 +
          n % 146097 % 36524 / 1461 * 4 + n % 146097 % 36524 % 1461 / 365 + 1 - 1 =
          n / 146097 * 400 + n % 146097 / 36524 * 100 + n % 146097 % 36524 / 1461 * 4 + 3 + 1 := by
        omega
      rw [hyear, ordinal_lastDay _ _ _ (by omega) hn4 (by omega)]
      omega
  · rename_i hlast
    push Not at hlast
    have hb : n % 146097 / 36524 < 4 := by omega
    have hd : n % 146097 % 36524 % 1461 / 365 < 4 := by omega
    have hmonth := monthOf_spec
      (n % 146097 % 36524 % 1461 / 365 = 3 &&
        (n % 146097 % 36524 / 1461 ≠ 24 || n % 146097 / 36524 = 3))
      (n % 146097 % 36524 % 1461 % 365) (Nat.mod_lt _ (by omega))
    rw [ordinal]
    dsimp only
    rw [daysBeforeYear_cycles _ _ _ _ hb hn4 hd, isLeap_cycles _ _ _ _ hb hn4 hd]
    omega

/-- A month has no more than 31 days. -/
theorem dateOf_bounds (n : ℕ) : (dateOf n).month ≤ 12 ∧ (dateOf n).day ≤ 31 := by
  rw [dateOf]
  dsimp only
  split
  · exact ⟨le_refl 12, le_refl 31⟩
  · have hmonth := monthOf_spec
      (n % 146097 % 36524 % 1461 / 365 = 3 &&
        (n % 146097 % 36524 / 1461 ≠ 24 || n % 146097 / 36524 = 3))
      (n % 146097 % 36524 % 1461 % 365) (Nat.mod_lt _ (by omega))
    dsimp only
    omega

/-! ## Texts -/

/-- The {lit}`width` low decimal digits of a number, most significant first. -/
def decimals : ℕ → ℕ → List Char
  | 0, _ => []
  | width + 1, n => decimals width (n / 10) ++ [(n % 10).digitChar]

/-- A year in four digits; a larger one has as many as it needs. -/
def yearText (year : ℕ) : List Char :=
  if year < 10000 then decimals 4 year else year.repr.toList

/-- The microseconds of a time, unless there are none. -/
def microText (micros : ℕ) : List Char :=
  if micros = 0 then [] else '.' :: decimals 6 micros

/-- The days before 1970. -/
def epochDay : ℕ := 719162

/-- The text of a date. -/
def dateText (date : Date) : List Char :=
  yearText date.year ++ '-' :: (decimals 2 date.month ++ '-' :: decimals 2 date.day)

/-- The text of a time of the day, in seconds. -/
def clockText (seconds : ℕ) : List Char :=
  decimals 2 (seconds / 3600) ++ ':' :: (decimals 2 (seconds / 60 % 60) ++ ':' ::
    decimals 2 (seconds % 60))

/-- `datetime.isoformat`, in UTC. -/
def isoformat (micros : ℕ) : String :=
  let seconds := micros / 1000000
  String.ofList (dateText (dateOf (epochDay + seconds / 86400)) ++ 'T' ::
    (clockText (seconds % 86400) ++ microText (micros % 1000000) ++ ['+', '0', '0', ':', '0', '0']))

@[simp]
theorem decimals_length (width n : ℕ) : (decimals width n).length = width := by
  induction width generalizing n with
  | zero => rfl
  | succ width ih => rw [decimals, List.length_append, ih, List.length_singleton]

theorem ofDigitChars_decimals (width n : ℕ) :
    Nat.ofDigitChars 10 (decimals width n) 0 = n % 10 ^ width := by
  induction width generalizing n with
  | zero => rw [decimals, Nat.ofDigitChars_nil, pow_zero, Nat.mod_one]
  | succ width ih =>
      rw [decimals, Nat.ofDigitChars_append, ih,
        Nat.ofDigitChars_cons_digitChar_of_lt_ten (Nat.mod_lt _ (by omega)), Nat.ofDigitChars_nil,
        pow_succ', Nat.mod_mul]
      omega

/-- The low digits of a number determine it. -/
theorem decimals_inj {width m n : ℕ} (hm : m < 10 ^ width) (hn : n < 10 ^ width)
    (h : decimals width m = decimals width n) : m = n := by
  have hvalue := congrArg (fun cs => Nat.ofDigitChars 10 cs 0) h
  simp only [ofDigitChars_decimals] at hvalue
  rwa [Nat.mod_eq_of_lt hm, Nat.mod_eq_of_lt hn] at hvalue

theorem isDigit_of_mem_decimals {width n : ℕ} {c : Char} (hc : c ∈ decimals width n) :
    c.isDigit = true := by
  induction width generalizing n with
  | zero => cases hc
  | succ width ih =>
      rw [decimals, List.mem_append, List.mem_singleton] at hc
      rcases hc with hc | rfl
      · exact ih hc
      · have hlt : n % 10 < 10 := Nat.mod_lt _ (by omega)
        interval_cases n % 10 <;> rfl

theorem yearText_injective : Function.Injective yearText := by
  have hvalue (year : ℕ) : Nat.ofDigitChars 10 (yearText year) 0 = year := by
    unfold yearText
    split_ifs with hlt
    · rw [ofDigitChars_decimals]
      exact Nat.mod_eq_of_lt hlt
    · rw [Nat.repr, String.toList_ofList, Nat.ofDigitChars_ten_toDigits]
  exact Function.LeftInverse.injective hvalue

theorem hyphen_notMem_yearText (year : ℕ) : '-' ∉ yearText year := by
  intro hmem
  have hdigit : ('-').isDigit = true := by
    unfold yearText at hmem
    split_ifs at hmem
    · exact isDigit_of_mem_decimals hmem
    · rw [Nat.repr, String.toList_ofList] at hmem
      exact Nat.isDigit_of_mem_toDigits (by omega) (le_refl 10) hmem
  exact absurd hdigit (by decide)

/-- The text of a date can be read off the front of a text. -/
theorem dateText_append {date date' : Date} {r r' : List Char} (hmonth : date.month < 100)
    (hday : date.day < 100) (hmonth' : date'.month < 100) (hday' : date'.day < 100)
    (h : dateText date ++ r = dateText date' ++ r') : date = date' ∧ r = r' := by
  simp only [dateText, List.append_assoc, List.cons_append] at h
  have hsplit := congrArg (partition '-') h
  rw [partition_append (hyphen_notMem_yearText date.year),
    partition_append (hyphen_notMem_yearText date'.year), Prod.mk.injEq] at hsplit
  have hyear := yearText_injective hsplit.1
  obtain ⟨hmonths, h⟩ := List.append_inj hsplit.2 (by simp)
  obtain ⟨hdays, h⟩ := List.append_inj (List.cons_inj_right _ |>.mp h) (by simp)
  have hmonths := decimals_inj (by omega) (by omega) hmonths
  have hdays := decimals_inj (by omega) (by omega) hdays
  cases date
  cases date'
  simp_all

theorem clockText_append {seconds seconds' : ℕ} {r r' : List Char} (hlt : seconds < 86400)
    (hlt' : seconds' < 86400) (h : clockText seconds ++ r = clockText seconds' ++ r') :
    seconds = seconds' ∧ r = r' := by
  simp only [clockText, List.append_assoc, List.cons_append] at h
  obtain ⟨hhours, h⟩ := List.append_inj h (by simp)
  obtain ⟨hminutes, h⟩ := List.append_inj (List.cons_inj_right _ |>.mp h) (by simp)
  obtain ⟨hseconds, h⟩ := List.append_inj (List.cons_inj_right _ |>.mp h) (by simp)
  have hhours := decimals_inj (by omega) (by omega) hhours
  have hminutes := decimals_inj (by omega) (by omega) hminutes
  have hseconds := decimals_inj (by omega) (by omega) hseconds
  exact ⟨by omega, h⟩

theorem microText_inj {micros micros' : ℕ} (hlt : micros < 1000000) (hlt' : micros' < 1000000)
    (h : microText micros = microText micros') : micros = micros' := by
  unfold microText at h
  split_ifs at h with hzero hzero'
  · rw [hzero, hzero']
  · rw [List.cons_inj_right] at h
    exact decimals_inj (by omega) (by omega) h

/-- Times with one text are equal. -/
theorem isoformat_injective : Function.Injective isoformat := by
  intro t t' h
  have hchars := String.ofList_injective h
  have hbounds := dateOf_bounds (epochDay + t / 1000000 / 86400)
  have hbounds' := dateOf_bounds (epochDay + t' / 1000000 / 86400)
  obtain ⟨hdate, hrest⟩ := dateText_append (by omega) (by omega) (by omega) (by omega) hchars
  rw [List.cons_inj_right, List.append_assoc, List.append_assoc] at hrest
  obtain ⟨hclock, hmicro⟩ := clockText_append (by omega) (by omega) hrest
  have hmicro := microText_inj (by omega) (by omega) (List.append_cancel_right hmicro)
  have hday := congrArg ordinal hdate
  rw [ordinal_dateOf, ordinal_dateOf] at hday
  omega

end Text
