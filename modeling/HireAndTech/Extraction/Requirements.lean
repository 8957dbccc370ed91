import HireAndTech.Extraction.Experience
import HireAndTech.Salaries.Digits

/-!
# Hidden requirements

A pattern is searched for its first match only.  Where that match states too many years, the
pattern is passed over, and a later match of it is not seen.

Main results:

- Theorem {lit}`exists_yearsOf_min`: every match states a number of years.
- Definition {lit}`Unhidden`: a realistic match with no unrealistic one before it.
- Theorem {lit}`extractExperience_finds_iff`: the texts in which no realistic match is hidden.
-/

namespace HireAndTech
namespace Extraction

open Text Text.Regex Catalogue Salaries

/-! ## Numbers of a match -/

theorem years_consumes : years.Consumes numerals := by
  apply (digit_consumes.seq (consumes_optional consumes_satisfy_charsIn)).mono
  rintro _ ⟨first, hfirst, second, hsecond, rfl⟩
  exact append_mem_numerals hfirst hsecond

variable {u : Unicode} {pattern : Pattern Group} {place : Place} {found : Found Group}
  {text : List Char}

/-- Every match captures its least number of years. -/
theorem exists_captured_min (hpattern : pattern ∈ experiencePatterns u)
    (h : pattern.matchAt place = some found) :
    ∃ piece ∈ numerals, found.group .min = some piece ∧ piece <:+: found.text := by
  simp only [experiencePatterns, List.mem_cons, List.not_mem_nil, or_false] at hpattern
  rcases hpattern with rfl | rfl | rfl | rfl
  · exact Pattern.exists_captured (i := 1) rfl (by simp [Pattern.names, edge]) years_consumes h
  · exact Pattern.exists_captured (i := 1) rfl (by simp [Pattern.names, edge]) years_consumes h
  · exact Pattern.exists_captured (i := 3) rfl (by simp [Pattern.names, edge]) years_consumes h
  · exact Pattern.exists_captured (i := 1) rfl (by simp [Pattern.names, edge]) years_consumes h

/-- Every match states a number of years. -/
theorem exists_yearsOf_min (hpattern : pattern ∈ experiencePatterns u)
    (h : pattern.matchAt place = some found) : ∃ low, yearsOf found .min = some low := by
  obtain ⟨piece, hpiece, hgroup, _⟩ := exists_captured_min hpattern h
  obtain ⟨low, hlow⟩ := exists_digitsValue hpiece.2
  exact ⟨low, by rw [yearsOf, hgroup]; exact hlow⟩

/-- The numbers that a match states. -/
def numbersOf (found : Found Group) : List ℕ :=
  [Group.min, Group.max].filterMap (yearsOf found)

/-- The numbers of a match are all at most thirty. -/
def Realistic (found : Found Group) : Prop :=
  ∀ n ∈ numbersOf found, n ≤ 30

instance (found : Found Group) : Decidable (Realistic found) :=
  inferInstanceAs (Decidable (∀ n ∈ numbersOf found, n ≤ 30))

/-- A match is read exactly when it is realistic. -/
theorem readExperience_isSome_iff {low : ℕ} (hlow : yearsOf found .min = some low) :
    (readExperience found).isSome = true ↔ Realistic found := by
  cases hhigh : yearsOf found .max with
  | none => simp [readExperience, Realistic, numbersOf, hlow, hhigh]
  | some high =>
      have hrealistic : Realistic found ↔ low ≤ 30 ∧ high ≤ 30 := by
        simp [Realistic, numbersOf, hlow, hhigh]
      rw [hrealistic]
      simp only [readExperience, hlow, hhigh]
      split_ifs with hmany hswap
      · exact iff_of_false (by simp) (by omega)
      · exact iff_of_true rfl (by omega)
      · exact iff_of_true rfl (by omega)

/-! ## Matches that are hidden -/

/-- The text has a realistic match of a pattern, and no unrealistic one before it. -/
def Unhidden (pattern : Pattern Group) (text : List Char) : Prop :=
  ∃ offset found, pattern.MatchesAt text offset found ∧ Realistic found ∧
    ∀ earlier < offset, ∀ other, pattern.MatchesAt text earlier other → Realistic other

/-- The first match of a pattern is read exactly when the pattern has an unhidden match. -/
theorem first_isSome_iff (hpattern : pattern ∈ experiencePatterns u) :
    ((pattern.finditer text).head?.bind readExperience).isSome = true ↔ Unhidden pattern text := by
  cases hhead : (pattern.finditer text).head? with
  | none =>
      refine iff_of_false (by simp) ?_
      rintro ⟨offset, found, hfound, _, _⟩
      exact Pattern.head?_ne_none_of_matchesAt hfound hhead
  | some first =>
      obtain ⟨n, hfirst, hbefore⟩ := Pattern.firstMatch_of_head? hhead
      obtain ⟨low, hlow⟩ := exists_yearsOf_min hpattern hfirst.2
      rw [Option.bind_some, readExperience_isSome_iff hlow]
      constructor
      · intro hrealistic
        exact ⟨n, first, hfirst, hrealistic,
          fun earlier hlt other hother => absurd hother (hbefore earlier hlt other)⟩
      · rintro ⟨offset, found, hfound, hrealistic, hearlier⟩
        rcases lt_trichotomy n offset with hlt | rfl | hlt
        · exact hearlier n hlt first hfirst
        · rwa [Option.some.inj (hfirst.2.symm.trans hfound.2)]
        · exact absurd hfound (hbefore offset hlt found)

theorem low_isSome_of_readExperience {experience : Experience}
    (h : readExperience found = some experience) : experience.1.isSome = true := by
  simp only [readExperience] at h
  split at h
  · split_ifs at h <;> cases h <;> rfl
  · split_ifs at h
    cases h
    rfl
  · contradiction

/-- Years are found exactly when some pattern has an unhidden match. -/
theorem extractExperience_ne_none_iff (u : Unicode) (text : String) :
    extractExperience u text ≠ (none, none, none) ↔
      ∃ pattern ∈ experiencePatterns u, Unhidden pattern text.toList := by
  have hexists : (∃ pattern ∈ experiencePatterns u, Unhidden pattern text.toList) ↔
      ((experiencePatterns u).findSome? fun pattern =>
        (pattern.finditer text.toList).head?.bind readExperience).isSome = true := by
    rw [List.findSome?_isSome_iff]
    exact exists_congr fun pattern => and_congr_right fun hpattern =>
      (first_isSome_iff hpattern).symm
  rw [hexists, extractExperience]
  cases hfound : (experiencePatterns u).findSome? fun pattern =>
      (pattern.finditer text.toList).head?.bind readExperience with
  | none => simp
  | some experience =>
      obtain ⟨pattern, _, hpattern⟩ := List.exists_of_findSome?_eq_some hfound
      obtain ⟨found, _, hread⟩ := Option.bind_eq_some_iff.mp hpattern
      have hlow := low_isSome_of_readExperience hread
      refine iff_of_true ?_ rfl
      rintro rfl
      contradiction

/-- Where a realistic match exists years are found, exactly when some pattern has an unhidden match
or no match is realistic. -/
theorem extractExperience_finds_iff (u : Unicode) (text : String) :
    ((∃ pattern ∈ experiencePatterns u, ∃ offset found,
        pattern.MatchesAt text.toList offset found ∧ Realistic found) →
      extractExperience u text ≠ (none, none, none)) ↔
    ((∃ pattern ∈ experiencePatterns u, Unhidden pattern text.toList) ∨
      ∀ pattern ∈ experiencePatterns u, ∀ offset found,
        pattern.MatchesAt text.toList offset found → ¬ Realistic found) := by
  rw [extractExperience_ne_none_iff]
  constructor
  · intro h
    by_cases hsome : ∃ pattern ∈ experiencePatterns u, ∃ offset found,
        pattern.MatchesAt text.toList offset found ∧ Realistic found
    · exact Or.inl (h hsome)
    · push Not at hsome
      exact Or.inr hsome
  · rintro (hunhidden | hnone) ⟨pattern, hpattern, offset, found, hfound, hrealistic⟩
    · exact hunhidden
    · exact absurd hrealistic (hnone pattern hpattern offset found hfound)

/-- A text whose second number is hidden by the first. -/
def hiddenText : String :=
  "40 years of experience; 5 years of experience"

/-- Forty years hide five. -/
theorem extractExperience_hides :
    (∃ pattern ∈ experiencePatterns Unicode.ascii, ∃ offset found,
      pattern.MatchesAt hiddenText.toList offset found ∧ Realistic found) ∧
    extractExperience Unicode.ascii hiddenText = (none, none, none) := by
  constructor
  · have hfourth : ∃ pattern ∈ experiencePatterns Unicode.ascii,
        (pattern.matchAt (Pattern.placeAt hiddenText.toList 24)).any (Realistic ·) = true := by
      decide +kernel
    obtain ⟨pattern, hpattern, hany⟩ := hfourth
    obtain ⟨found, hfound, hrealistic⟩ := (Option.any_eq_true _ _).mp hany
    exact ⟨pattern, hpattern, 24, found, ⟨by decide +kernel, hfound⟩, of_decide_eq_true hrealistic⟩
  · decide +kernel

end Extraction
end HireAndTech
