import HireAndTech.Salaries.Parser

/-!
# Bounds of salaries

The amounts that {lit}`parse_salary` returns are in order.  It does not return when an amount in
thousands has more than a million digits, because the product overflows in the context of decimal
numbers.

Main results:

- Theorem {lit}`parseSalary_inOrder`: the amounts that a text states are in order.
- Definition {lit}`parseSalaryChecked`: the salary that a text states, or the overflow.
- Theorem {lit}`parseSalaryChecked_eq`: which texts overflow.
-/

namespace HireAndTech
namespace Salaries

open Text Catalogue

/-! ## Order -/

/-- Where both amounts are known they are in order. -/
def InOrder (min max : Option ℚ) : Prop :=
  ∀ low ∈ min, ∀ high ∈ max, low ≤ high

section

variable {u : Unicode} {found : Found Group} {salary : Salary}

theorem readRange_inOrder (h : readRange u found = some salary) :
    InOrder salary.min salary.max := by
  simp only [readRange] at h
  split_ifs at h
  split at h
  · split_ifs at h with _ hlt <;> cases h
    · simpa [InOrder] using hlt.le
    · simpa [InOrder] using hlt
  · contradiction

theorem readSingle_inOrder (h : readSingle u found = some salary) :
    InOrder salary.min salary.max := by
  simp only [readSingle] at h
  split_ifs at h
  obtain ⟨value, _, hvalue⟩ := Option.bind_eq_some_iff.mp h
  split_ifs at hvalue
  cases hvalue
  simp [InOrder]

/-- The amounts that a text states are in order. -/
theorem parseSalary_inOrder (u : Unicode) (text : String) :
    InOrder (parseSalary u text).min (parseSalary u text).max := by
  unfold parseSalary
  dsimp only
  cases hrange : ((salaryRangeRe u).finditer text.toList).findSome? (readRange u) with
  | some salary =>
      obtain ⟨found, _, hfound⟩ := List.exists_of_findSome?_eq_some hrange
      exact readRange_inOrder hfound
  | none =>
      cases hsingle : ((salarySingleRe u).finditer text.toList).findSome? (readSingle u) with
      | some salary =>
          obtain ⟨found, _, hfound⟩ := List.exists_of_findSome?_eq_some hsingle
          exact readSingle_inOrder hfound
      | none => simp [InOrder]

end

/-! ## Overflow -/

/-- `decimal.Overflow`. -/
inductive Overflow
  | overflow
deriving DecidableEq, Repr

/-- The product of an amount in thousands has too many digits before its point. -/
def amountOverflows (raw : List Char) (hasK : Bool) : Bool :=
  hasK && (decimalOf (strip isSpace (raw.filter (· ≠ ',')))).any fun d =>
    1000000 + d.places < (Nat.toDigits 10 (roundCoefficient (d.coefficient * 1000))).length

variable (u : Unicode)

/-- The amounts of a range match are read. -/
def readsRange (found : Found Group) : Bool :=
  let curr := (found.group .curr).or ((found.group .curr2).or (found.group .curr3))
  let hasK := (found.group .minK).isSome || (found.group .maxK).isSome
  let hasPeriod := (found.group .period).isSome
  let tail := u.casefold ((found.stop.rest.take 25).dropWhile isSpace)
  (curr.isSome || hasK || hasPeriod) &&
    !(!curr.isSome && !hasPeriod &&
      experiencePrefixes.any fun word => word.toList.isPrefixOf tail)

/-- An amount of a range match that is read overflows. -/
def rangeOverflows (found : Found Group) : Bool :=
  let minRaw := (found.group .min).getD []
  let maxK := (found.group .maxK).isSome
  let minK := (found.group .minK).isSome ||
    maxK && (parseAmount minRaw false).any (· < 1000)
  readsRange u found &&
    (amountOverflows minRaw minK || amountOverflows ((found.group .max).getD []) maxK)

/-- The amount of a single match that is read overflows. -/
def singleOverflows (found : Found Group) : Bool :=
  let curr := (found.group .curr).or (found.group .curr2)
  let hasK := (found.group .k).isSome
  let period := (found.group .period).or (found.group .periodAdv)
  (curr.isSome || hasK && period.isSome) &&
    amountOverflows ((found.group .amount).getD []) hasK

/-- The first match that is read, up to one that overflows. -/
def firstRead (overflows : Found Group → Bool) (read : Found Group → Option Salary) :
    List (Found Group) → Except Overflow (Option Salary)
  | [] => .ok none
  | found :: more =>
      if overflows found then .error .overflow
      else
        match read found with
        | some salary => .ok (some salary)
        | none => firstRead overflows read more

/-- `parse_salary`, which may overflow. -/
def parseSalaryChecked (text : String) : Except Overflow Salary := do
  let range ← firstRead (rangeOverflows u) (readRange u) ((salaryRangeRe u).finditer text.toList)
  match range with
  | some salary => return salary
  | none =>
      let single ← firstRead singleOverflows (readSingle u)
        ((salarySingleRe u).finditer text.toList)
      return single.getD ⟨none, none, none, none, none⟩

/-- The first match that is read or overflows is one that overflows. -/
def overflowsFirst (overflows : Found Group → Bool) (read : Found Group → Option Salary)
    (matched : List (Found Group)) : Bool :=
  (matched.find? fun found => overflows found || (read found).isSome).any overflows

/-- A text whose salary overflows. -/
def salaryOverflows (text : String) : Bool :=
  let ranges := (salaryRangeRe u).finditer text.toList
  let singles := (salarySingleRe u).finditer text.toList
  overflowsFirst (rangeOverflows u) (readRange u) ranges ||
    (ranges.findSome? (readRange u)).isNone &&
      overflowsFirst singleOverflows (readSingle u) singles

theorem firstRead_eq (overflows : Found Group → Bool) (read : Found Group → Option Salary)
    (matched : List (Found Group)) :
    firstRead overflows read matched =
      if overflowsFirst overflows read matched then .error .overflow
      else .ok (matched.findSome? read) := by
  induction matched with
  | nil => rfl
  | cons found more ih =>
      rw [firstRead]
      by_cases hoverflow : overflows found = true
      · simp [hoverflow, overflowsFirst]
      · cases hread : read found with
        | some salary => simp [hoverflow, overflowsFirst, hread]
        | none =>
            have hmore : overflowsFirst overflows read (found :: more) =
                overflowsFirst overflows read more := by
              simp [overflowsFirst, hoverflow, hread]
            rw [if_neg hoverflow, hmore, List.findSome?_cons, hread]
            exact ih

/-- A salary is read unless it overflows. -/
theorem parseSalaryChecked_eq (text : String) :
    parseSalaryChecked u text =
      if salaryOverflows u text then .error .overflow else .ok (parseSalary u text) := by
  rw [parseSalaryChecked, firstRead_eq, firstRead_eq, salaryOverflows, parseSalary]
  cases hrange : overflowsFirst (rangeOverflows u) (readRange u)
      ((salaryRangeRe u).finditer text.toList) with
  | true => rfl
  | false =>
      cases hread : ((salaryRangeRe u).finditer text.toList).findSome? (readRange u) with
      | some salary => rfl
      | none =>
          cases hsingle : overflowsFirst singleOverflows (readSingle u)
              ((salarySingleRe u).finditer text.toList) with
          | true => rfl
          | false => rfl

end Salaries
end HireAndTech
