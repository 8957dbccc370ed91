import HireAndTech.Search.Matching

/-!
# Bounds and monotonicity of scores

The components of a score in exact rational arithmetic: their ranges, what raises them, and
what the eligibility rules give.

Main results:

- Theorems {lit}`skillsScore_mem`, {lit}`freshnessScore_mem`: the ranges of the components.
- Theorems {lit}`skillsScore_mono`, {lit}`experienceScore_mono`, {lit}`freshnessScore_mono`:
  what raises them.
- Theorem {lit}`score_sound`: the score in exact arithmetic.
-/

namespace HireAndTech
namespace Search

open Catalogue Text

/-! ## Components -/

variable (u : Unicode) (candidate : Candidate) (job : CanonicalJobRead) (now : Time)

/-- The role component. -/
def roleScore : ℚ :=
  if rolesCompatible u candidate.role job.roleFamily then 30 else 0

theorem roleScore_mem : 0 ≤ roleScore u candidate job ∧ roleScore u candidate job ≤ 30 := by
  unfold roleScore
  split <;> norm_num

theorem experienceScore_mem :
    0 ≤ experienceScore id candidate job ∧ experienceScore id candidate job ≤ 20 := by
  unfold experienceScore
  split
  · norm_num
  · split <;> norm_num
  · norm_num

theorem locationScore_mem :
    0 ≤ locationScore u candidate job ∧ locationScore u candidate job ≤ 10 := by
  unfold locationScore
  split
  · norm_num
  · split
    · split <;> norm_num
    · norm_num

/-- The skills of a candidate up to case. -/
def candidateSkills (skills : Finset String) : Finset (List Char) :=
  skills.image fun skill => u.casefold skill.toList

/-- The skills component is thirty times the share of the skills of the job. -/
theorem skillsScore_eq (h : foldedSkills u job.skills ≠ ∅) :
    skillsScore u id candidate job =
      30 * (((foldedSkills u job.skills ∩ candidateSkills u candidate.skills).card : ℚ) /
        (foldedSkills u job.skills).card) := by
  unfold skillsScore
  rw [if_neg h]
  rfl

theorem skillsScore_mem :
    0 ≤ skillsScore u id candidate job ∧ skillsScore u id candidate job ≤ 30 := by
  by_cases h : foldedSkills u job.skills = ∅
  · simp [skillsScore, h]
  · rw [skillsScore_eq u candidate job h]
    have hcard : ((foldedSkills u job.skills ∩ candidateSkills u candidate.skills).card : ℚ) ≤
        (foldedSkills u job.skills).card := by
      exact_mod_cast Finset.card_le_card Finset.inter_subset_left
    constructor
    · positivity
    · have hshare := div_le_one_of_le₀ hcard (Nat.cast_nonneg _)
      linarith

theorem freshnessScore_mem :
    0 ≤ freshnessScore id job now ∧ freshnessScore id job now ≤ 10 := by
  simp only [freshnessScore, id]
  have hage : (0 : ℚ) ≤
      max 0 (((now : ℚ) - (job.postedAt.getD job.lastSeenAt : ℕ)) / 1000000 / 86400) :=
    le_max_left _ _
  constructor
  · exact le_max_left _ _
  · apply max_le (by norm_num)
    have hmin := le_min hage (by norm_num : (0 : ℚ) ≤ 10)
    linarith

/-! ## Monotonicity -/

/-- More skills of the candidate never lower the component. -/
theorem skillsScore_mono {skills : Finset String} (h : candidate.skills ⊆ skills) :
    skillsScore u id candidate job ≤ skillsScore u id { candidate with skills := skills } job := by
  by_cases hjob : foldedSkills u job.skills = ∅
  · simp [skillsScore, hjob]
  · rw [skillsScore_eq u _ job hjob, skillsScore_eq u _ job hjob]
    have hskills : candidateSkills u candidate.skills ⊆ candidateSkills u skills :=
      Finset.image_subset_image h
    gcongr

/-- More years of experience never lower the component. -/
theorem experienceScore_mono {years years' : ℚ} (hknown : candidate.yearsExperience = some years)
    (h : years ≤ years') :
    experienceScore id candidate job ≤
      experienceScore id { candidate with yearsExperience := some years' } job := by
  unfold experienceScore
  cases job.experienceMinYears with
  | none => exact le_rfl
  | some minimum =>
      simp only [hknown, id]
      by_cases hyears : (minimum : ℚ) ≤ years
      · rw [if_pos hyears, if_pos (hyears.trans h)]
      · rw [if_neg hyears]
        split <;> norm_num

/-- A more recent reference never lowers the component. -/
theorem freshnessScore_mono {postedAt : Option Time} {lastSeenAt : Time}
    (h : job.postedAt.getD job.lastSeenAt ≤ postedAt.getD lastSeenAt) :
    freshnessScore id job now ≤
      freshnessScore id { job with postedAt := postedAt, lastSeenAt := lastSeenAt } now := by
  have hcast : ((job.postedAt.getD job.lastSeenAt : ℕ) : ℚ) ≤ (postedAt.getD lastSeenAt : ℕ) := by
    exact_mod_cast h
  simp only [freshnessScore, id]
  gcongr

/-- The parts of a score, which make up the whole in exact arithmetic. -/
theorem scoreJob_eq :
    scoreJob u id candidate job now =
      { overallScore := roleScore u candidate job + skillsScore u id candidate job +
          experienceScore id candidate job + locationScore u candidate job +
          freshnessScore id job now
        roleScore := roleScore u candidate job
        skillsScore := skillsScore u id candidate job
        experienceScore := experienceScore id candidate job
        locationScore := locationScore u candidate job
        freshnessScore := freshnessScore id job now } :=
  rfl

/-! ## The score -/

/-- The ranges of the components, whose sum is the score. -/
structure ScoreBounds (score : JobMatchScore) : Prop where
  role : 0 ≤ score.roleScore ∧ score.roleScore ≤ 30
  skills : 0 ≤ score.skillsScore ∧ score.skillsScore ≤ 30
  experience : 0 ≤ score.experienceScore ∧ score.experienceScore ≤ 20
  location : 0 ≤ score.locationScore ∧ score.locationScore ≤ 10
  freshness : 0 ≤ score.freshnessScore ∧ score.freshnessScore ≤ 10
  sum : score.overallScore = score.roleScore + score.skillsScore + score.experienceScore +
    score.locationScore + score.freshnessScore
  overall : 0 ≤ score.overallScore ∧ score.overallScore ≤ 100

theorem scoreJob_bounds : ScoreBounds (scoreJob u id candidate job now) := by
  have hrole := roleScore_mem u candidate job
  have hskills := skillsScore_mem u candidate job
  have hexperience := experienceScore_mem candidate job
  have hlocation := locationScore_mem u candidate job
  have hfreshness := freshnessScore_mem job now
  rw [scoreJob_eq u candidate job now]
  constructor <;> dsimp only
  · exact hrole
  · exact hskills
  · exact hexperience
  · exact hlocation
  · exact hfreshness
  · constructor <;> linarith

/-- An eligible job has the role component and, for known years, the experience component in
full. -/
theorem eligible_full {years : ℚ} (hknown : candidate.yearsExperience = some years)
    (h : isEligible u id candidate job = true) :
    (scoreJob u id candidate job now).roleScore = 30 ∧
      (scoreJob u id candidate job now).experienceScore = 20 := by
  simp only [isEligible, Bool.and_eq_true] at h
  obtain ⟨⟨_, hrole⟩, hexperience⟩ := h
  rw [scoreJob_eq u candidate job now]
  constructor
  · simp [roleScore, hrole]
  · unfold experienceCompatible at hexperience
    unfold experienceScore
    cases hminimum : job.experienceMinYears with
    | none => rfl
    | some minimum =>
        simp only [hknown, hminimum, decide_eq_true_eq] at hexperience
        simp only [hknown, if_pos hexperience]

/-- In exact arithmetic the components lie in their ranges and add up to the score; more
skills, more known years and a more recent reference never lower it; and an eligible job has
the role and experience components in full when the years of the candidate are known. -/
theorem score_sound (u : Unicode) (candidate : Candidate) (job : CanonicalJobRead) (now : Time) :
    ScoreBounds (scoreJob u id candidate job now) ∧
      (∀ skills, candidate.skills ⊆ skills →
        (scoreJob u id candidate job now).overallScore ≤
          (scoreJob u id { candidate with skills := skills } job now).overallScore) ∧
      (∀ years years', candidate.yearsExperience = some years → years ≤ years' →
        (scoreJob u id candidate job now).overallScore ≤
          (scoreJob u id { candidate with yearsExperience := some years' } job
            now).overallScore) ∧
      (∀ postedAt lastSeenAt, job.postedAt.getD job.lastSeenAt ≤ postedAt.getD lastSeenAt →
        (scoreJob u id candidate job now).overallScore ≤
          (scoreJob u id candidate { job with postedAt := postedAt, lastSeenAt := lastSeenAt }
            now).overallScore) ∧
      ∀ years, candidate.yearsExperience = some years → isEligible u id candidate job = true →
        (scoreJob u id candidate job now).roleScore = 30 ∧
          (scoreJob u id candidate job now).experienceScore = 20 := by
  refine ⟨scoreJob_bounds u candidate job now, ?_, ?_, ?_, ?_⟩
  · intro skills hskills
    have hscore := skillsScore_mono u candidate job hskills
    simp only [scoreJob_eq]
    exact add_le_add_left (add_le_add_left (add_le_add_left (add_le_add_right hscore _) _) _) _
  · intro years years' hknown hyears
    have hscore := experienceScore_mono candidate job hknown hyears
    simp only [scoreJob_eq]
    exact add_le_add_left (add_le_add_left (add_le_add_right hscore _) _) _
  · intro postedAt lastSeenAt hreference
    have hscore := freshnessScore_mono job now hreference
    simp only [scoreJob_eq]
    exact add_le_add_right hscore _
  · intro years hknown heligible
    exact eligible_full u candidate job now hknown heligible

/-- A backend opening that asks for two skills and two years. -/
def skilledRead : CanonicalJobRead :=
  { backendRead 1 5 with
    skills := ["Python", "PostgreSQL"]
    experienceMinYears := some 2 }

/-- A candidate with three years of experience and one of the skills who learns the other. -/
theorem score_sound_backend :
    (scoreJob .ascii id ⟨"backend engineer", some 3, {"python"}, none, none⟩ skilledRead
        9).overallScore ≤
        (scoreJob .ascii id ⟨"backend engineer", some 3, {"python", "postgresql"}, none, none⟩
          skilledRead 9).overallScore ∧
      (scoreJob .ascii id ⟨"backend engineer", some 3, {"python"}, none, none⟩ skilledRead
        9).roleScore = 30 ∧
      (scoreJob .ascii id ⟨"backend engineer", some 3, {"python"}, none, none⟩ skilledRead
        9).experienceScore = 20 := by
  have hsound := score_sound .ascii ⟨"backend engineer", some 3, {"python"}, none, none⟩
    skilledRead 9
  exact ⟨hsound.2.1 {"python", "postgresql"} (by decide), hsound.2.2.2.2 3 rfl (by decide)⟩

end Search
end HireAndTech
