import HireAndTech.Catalogue.DualWrite
import HireAndTech.Catalogue.Normalization

/-!
# Merging of a refresh

A refresh keeps the value of a row where the listing supplies none, column by column.  Columns that
belong together, such as the ends of a range or the parts of a salary, may come from different
listings afterwards.

Main results:

- Theorem {lit}`ordered_merge_iff`: when the ends of a merged range are in order.
- Theorem {lit}`merged_ranges_ordered_iff`: the same for the rows of both tables.
- Theorem {lit}`salary_group_whole_iff`: when a salary comes from one listing.
-/

namespace HireAndTech
namespace Catalogue

/-! ## Ranges -/

/-- An end that comes without the other one lies beyond the stored other end. -/
def Crosses {α : Type} [LT α] (low high storedLow storedHigh : Option α) : Prop :=
  (high = none ∧ ∃ a ∈ low, ∃ b ∈ storedHigh, b < a) ∨
    (low = none ∧ ∃ b ∈ high, ∃ a ∈ storedLow, b < a)

/-- The ends of a merged range are in order unless one of them crosses a stored one. -/
theorem ordered_merge_iff {α : Type} [LinearOrder α] {low high storedLow storedHigh : Option α}
    (hincoming : ordered low high = true) (hstored : ordered storedLow storedHigh = true) :
    ordered (low <|> storedLow) (high <|> storedHigh) = true ↔
      ¬Crosses low high storedLow storedHigh := by
  unfold Crosses
  cases low with
  | none =>
      cases high with
      | none => simpa using hstored
      | some b =>
          cases storedLow with
          | none => simp [ordered]
          | some a => simp [ordered]
  | some a =>
      cases high with
      | none =>
          cases storedHigh with
          | none => simp [ordered]
          | some b => simp [ordered]
      | some b => simpa using hincoming

/-- The experience and the salary of a canonical job are in order. -/
def CanonicalJob.Ranges (j : CanonicalJob) : Prop :=
  ordered j.experienceMinYears j.experienceMaxYears = true ∧ ordered j.salaryMin j.salaryMax = true

/-- The experience and the salary of a listing are in order. -/
def NormalizedJob.Ranges (job : NormalizedJob) : Prop :=
  ordered job.experienceMinYears job.experienceMaxYears = true ∧
    ordered job.salaryMin job.salaryMax = true

/-- The experience of a legacy row is in order. -/
def GlobalJob.Ranges (g : GlobalJob) : Prop :=
  ordered g.experienceMinYears g.experienceMaxYears = true

/-- No end of a range that the listing supplies alone lies beyond the stored other end. -/
structure RangesFit (j : CanonicalJob) (g : GlobalJob) (job : NormalizedJob) : Prop where
  experience : ¬Crosses job.experienceMinYears job.experienceMaxYears j.experienceMinYears
    j.experienceMaxYears
  salary : ¬Crosses job.salaryMin job.salaryMax j.salaryMin j.salaryMax
  legacy : ¬Crosses job.experienceMinYears job.experienceMaxYears g.experienceMinYears
    g.experienceMaxYears

/-- The merged rows of both tables have their ranges in order exactly when the ranges fit. -/
theorem merged_ranges_ordered_iff (rt : Runtime) (j : CanonicalJob) (g : GlobalJob)
    (job : NormalizedJob) (company : Option Company) (id : UUID) (observedAt now : Time)
    (hj : j.Ranges) (hg : g.Ranges) (hjob : job.Ranges) :
    ((refreshedJob rt j job company observedAt).Ranges ∧
        (mergeValues g (incomingValues id job now)).Ranges) ↔
      RangesFit j g job := by
  have hexperience := ordered_merge_iff hjob.1 hj.1
  have hsalary := ordered_merge_iff hjob.2 hj.2
  have hlegacy := ordered_merge_iff hjob.1 hg
  constructor
  · rintro ⟨hcanonical, hmerged⟩
    exact ⟨hexperience.mp hcanonical.1, hsalary.mp hcanonical.2, hlegacy.mp hmerged⟩
  · intro hfit
    exact ⟨⟨hexperience.mpr hfit.experience, hsalary.mpr hfit.salary⟩, hlegacy.mpr hfit.legacy⟩

/-- A listing with the given experience. -/
def experiencedListing (low high : Option Int) : NormalizedJob :=
  { austinListing with experienceMinYears := low, experienceMaxYears := high }

/-- The canonical job of such a listing. -/
def experiencedJob (low high : Option Int) : CanonicalJob :=
  createdJob sampleRuntime 2 (experiencedListing low high) none 1788220800000000

/-- The legacy row of such a listing. -/
def experiencedRow (low high : Option Int) : GlobalJob :=
  incomingValues 9 (experiencedListing low high) 1788220800000000

/-- A listing that comes back with both ends. -/
theorem merged_ranges_ordered_iff_both :
    (refreshedJob sampleRuntime (experiencedJob (some 5) (some 8))
        (experiencedListing (some 10) (some 12)) none 1788307200000000).Ranges ∧
      (mergeValues (experiencedRow (some 5) (some 8))
        (incomingValues 9 (experiencedListing (some 10) (some 12)) 1788307200000000)).Ranges := by
  apply (merged_ranges_ordered_iff sampleRuntime (experiencedJob (some 5) (some 8))
    (experiencedRow (some 5) (some 8)) (experiencedListing (some 10) (some 12)) none 9
    1788307200000000 1788307200000000 ⟨by decide, by decide⟩ (by decide : ordered _ _ = true)
    ⟨by decide, by decide⟩).mpr
  constructor <;> simp [Crosses, experiencedListing, austinListing, NormalizedJob.bare]

/-- A listing that comes back with a lower end alone. -/
theorem lower_end_crosses :
    (experiencedJob (some 5) (some 8)).Ranges ∧ (experiencedRow (some 5) (some 8)).Ranges ∧
      (experiencedListing (some 10) none).Ranges ∧
      ¬(refreshedJob sampleRuntime (experiencedJob (some 5) (some 8))
          (experiencedListing (some 10) none) none 1788307200000000).Ranges ∧
      ¬(mergeValues (experiencedRow (some 5) (some 8))
          (incomingValues 9 (experiencedListing (some 10) none) 1788307200000000)).Ranges := by
  unfold CanonicalJob.Ranges NormalizedJob.Ranges GlobalJob.Ranges
  decide

/-! ## Salaries -/

/-- The amounts, the currency and the period of a salary. -/
abbrev SalaryGroup := Option ℚ × Option ℚ × Option String × Option String

/-- The salary of a canonical job. -/
def CanonicalJob.salary (j : CanonicalJob) : SalaryGroup :=
  (j.salaryMin, j.salaryMax, j.salaryCurrency, j.salaryPeriod)

/-- The salary of a listing. -/
def NormalizedJob.salary (job : NormalizedJob) : SalaryGroup :=
  (job.salaryMin, job.salaryMax, job.salaryCurrency, job.salaryPeriod)

/-- Every part of the salary that the listing supplies is in the row already. -/
structure RepeatsSalary (job : NormalizedJob) (j : CanonicalJob) : Prop where
  min : job.salaryMin.isSome → job.salaryMin = j.salaryMin
  max : job.salaryMax.isSome → job.salaryMax = j.salaryMax
  currency : truthy job.salaryCurrency = true → job.salaryCurrency = j.salaryCurrency
  period : truthy job.salaryPeriod = true → job.salaryPeriod = j.salaryPeriod

/-- Every part of the salary that the listing leaves out is left out in the row. -/
structure ReplacesSalary (job : NormalizedJob) (j : CanonicalJob) : Prop where
  min : job.salaryMin = none → j.salaryMin = none
  max : job.salaryMax = none → j.salaryMax = none
  currency : truthy job.salaryCurrency = false → j.salaryCurrency = job.salaryCurrency
  period : truthy job.salaryPeriod = false → j.salaryPeriod = job.salaryPeriod

section

variable {α : Type} {incoming stored : Option α} {text storedText : Option String}

theorem merge_eq_stored :
    (incoming <|> stored) = stored ↔ (incoming.isSome → incoming = stored) := by
  cases incoming <;> simp

theorem merge_eq_incoming :
    (incoming <|> stored) = incoming ↔ (incoming = none → stored = none) := by
  cases incoming <;> simp

theorem whenTruthy_eq_stored :
    (if truthy text then text else storedText) = storedText ↔
      (truthy text = true → text = storedText) := by
  cases truthy text <;> simp

theorem whenTruthy_eq_incoming :
    (if truthy text then text else storedText) = text ↔
      (truthy text = false → storedText = text) := by
  cases truthy text <;> simp

end

/-- After a refresh the salary is that of the row or that of the listing exactly when the listing
repeats or replaces the salary. -/
theorem salary_group_whole_iff (rt : Runtime) (j : CanonicalJob) (job : NormalizedJob)
    (company : Option Company) (observedAt : Time) :
    ((refreshedJob rt j job company observedAt).salary = j.salary ∨
        (refreshedJob rt j job company observedAt).salary = job.salary) ↔
      RepeatsSalary job j ∨ ReplacesSalary job j := by
  have hstored : (refreshedJob rt j job company observedAt).salary = j.salary ↔
      RepeatsSalary job j := by
    simp only [CanonicalJob.salary, refreshedJob, Prod.mk.injEq, merge_eq_stored,
      whenTruthy_eq_stored]
    constructor
    · rintro ⟨hmin, hmax, hcurrency, hperiod⟩
      exact ⟨hmin, hmax, hcurrency, hperiod⟩
    · rintro ⟨hmin, hmax, hcurrency, hperiod⟩
      exact ⟨hmin, hmax, hcurrency, hperiod⟩
  have hincoming : (refreshedJob rt j job company observedAt).salary = job.salary ↔
      ReplacesSalary job j := by
    simp only [CanonicalJob.salary, NormalizedJob.salary, refreshedJob, Prod.mk.injEq,
      merge_eq_incoming, whenTruthy_eq_incoming]
    constructor
    · rintro ⟨hmin, hmax, hcurrency, hperiod⟩
      exact ⟨hmin, hmax, hcurrency, hperiod⟩
    · rintro ⟨hmin, hmax, hcurrency, hperiod⟩
      exact ⟨hmin, hmax, hcurrency, hperiod⟩
  rw [hstored, hincoming]

/-- The canonical job of a listing with a yearly salary. -/
def salariedJob : CanonicalJob :=
  createdJob sampleRuntime 2
    { austinListing with
      salaryMin := some 100000
      salaryMax := some 120000
      salaryCurrency := some "USD"
      salaryPeriod := some "year" }
    none 1788220800000000

/-- A payload with amounts and a currency. -/
def salaryWithoutPeriod : RawSourceJob where
  source := "dice"
  externalJobId := "a1"
  title := "Backend Engineer"
  salaryMin := some 5000
  salaryMax := some 6000
  salaryCurrency := some "CAD"

/-- Amounts that come back without a period take over the one of other amounts. -/
theorem amounts_take_period :
    ∃ job, normalizeJob .ascii titleParsing salaryWithoutPeriod = .ok job ∧
      (refreshedJob sampleRuntime salariedJob job none 1788307200000000).salary =
        (some 5000, some 6000, some "CAD", some "year") ∧
      ¬((refreshedJob sampleRuntime salariedJob job none 1788307200000000).salary =
          salariedJob.salary ∨
        (refreshedJob sampleRuntime salariedJob job none 1788307200000000).salary = job.salary) :=
  ⟨_, rfl, by decide, by decide⟩

end Catalogue
end HireAndTech
