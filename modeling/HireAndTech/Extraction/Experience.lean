import HireAndTech.Salaries.Parser

/-!
# Experience texts

The module {lit}`app.jobs.parsing.experience`: four patterns find years of experience in a text.
A pattern whose first match states more than thirty years is passed over.

Main results:

- Definition {lit}`extractExperience`: the years that a text states.
- Theorem {lit}`extractExperience_ordered`: they are no less than zero, and in order.
-/

namespace HireAndTech
namespace Extraction

open Text Catalogue Salaries

/-! ## Patterns -/

inductive Group
  | min
  | max
deriving DecidableEq, Repr

/-- `\d{1,2}`. -/
def years : Regex :=
  .seq digit (.optional digit)

/-- `\s+`. -/
def gap : Regex :=
  .plus (.satisfy isSpace)

def plusSign : Regex :=
  .satisfy (· = '+')

/-- `(?:years?|yrs?)`. -/
def unit : Regex :=
  .alt (.seq (folded "year") (.optional (folded "s"))) (.seq (folded "yr") (.optional (folded "s")))

variable (u : Unicode)

/-- `\b`. -/
def edge : Pattern Group :=
  .plain (.boundary u.isWord)

/-- `_EXPERIENCE_PATTERNS`. -/
def experiencePatterns : List (Pattern Group) :=
  [.sequence
      [edge u, .group .min years, .plain spaces, .plain dash, .plain spaces, .group .max years,
        .plain spaces, .plain (.optional plusSign), .plain spaces, .plain unit, edge u],
    .sequence
      [edge u, .group .min years, .plain spaces, .plain plusSign, .plain spaces, .plain unit,
        edge u],
    .sequence
      [edge u, .plain (.alt (folded "at least") (.seq (folded "minimum") (.optional
        (folded " of")))), .plain gap, .group .min years, .plain spaces, .plain unit, edge u],
    .sequence
      [edge u, .group .min years, .plain (.optional plusSign), .plain spaces, .plain unit,
        .plain gap, .plain (.optional (.seq (folded "of") gap)),
        .plain (.optional (.seq (oneOf ["relevant", "professional", "hands-on"]) gap)),
        .plain (folded "experience"), edge u]]

/-! ## Years -/

/-- The years of experience of a text, and the part of it that states them. -/
abbrev Experience :=
  Option ℤ × Option ℤ × Option String

/-- `int(match.group(name))`. -/
def yearsOf (found : Found Group) (name : Group) : Option ℕ :=
  (found.group name).bind digitsValue

/-- The years that a match states, unless they are unrealistic. -/
def readExperience (found : Found Group) : Option Experience :=
  let text := some (String.ofList (strip isSpace found.text))
  match yearsOf found .min, yearsOf found .max with
  | some low, some high =>
      if 30 < low ∨ 30 < high then none
      else if high < low then some (some high, some low, text)
      else some (some low, some high, text)
  | some low, none => if 30 < low then none else some (some low, none, text)
  | none, _ => none

/-- `extract_experience`. -/
def extractExperience (text : String) : Experience :=
  ((experiencePatterns u).findSome? fun pattern =>
    (pattern.finditer text.toList).head?.bind readExperience).getD (none, none, none)

/-! ## Order -/

/-- Years are not negative, and in order where both are known. -/
structure Ordered (min max : Option ℤ) : Prop where
  low_nonneg : ∀ low ∈ min, 0 ≤ low
  high_nonneg : ∀ high ∈ max, 0 ≤ high
  low_le_high : ∀ low ∈ min, ∀ high ∈ max, low ≤ high

theorem readExperience_ordered {found : Found Group} {experience : Experience}
    (h : readExperience found = some experience) : Ordered experience.1 experience.2.1 := by
  simp only [readExperience] at h
  split at h
  · split_ifs at h <;> cases h
    · constructor <;> simp <;> omega
    · constructor <;> simp <;> omega
  · split_ifs at h
    cases h
    constructor <;> simp
  · contradiction

/-- The years that a text states are in order. -/
theorem extractExperience_ordered (text : String) :
    Ordered (extractExperience u text).1 (extractExperience u text).2.1 := by
  unfold extractExperience
  cases hfound : (experiencePatterns u).findSome? fun pattern =>
      (pattern.finditer text.toList).head?.bind readExperience with
  | none => constructor <;> simp
  | some experience =>
      obtain ⟨pattern, _, hpattern⟩ := List.exists_of_findSome?_eq_some hfound
      obtain ⟨found, _, hread⟩ := Option.bind_eq_some_iff.mp hpattern
      exact readExperience_ordered hread

end Extraction
end HireAndTech
