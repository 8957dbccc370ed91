import HireAndTech.Search.Matching

/-!
# Requests and results

The results that an execution saves over a state of the catalogue.  A request for remote or
on-site work reaches the query as a truth value, one for hybrid work does not reach it, and the
experience that a request asks for is stored and never read: the rules compare the experience that a
job asks for with that of the candidate.

Main results:

- Definition {lit}`savedResults`: retrieval, ranking and truncation.
- Theorem {lit}`saved_results_satisfy`: what saved results have to do with the request.
-/

namespace HireAndTech
namespace Search

open Catalogue Text
open Resumes (CandidateProfile)

/-- The filters of the catalogue search that an execution makes. -/
def catalogueFilter (f : JobFilter) : SearchFilter where
  query := f.query
  location := f.location
  remote := f.remote
  employmentType := f.employmentType

variable (sql : Sql) (u : Unicode) (round : ℚ → ℚ) (searchCandidateLimit : Nat)

/-- The jobs that an execution retrieves. -/
def retrieve (db : Database) (f : JobFilter) : List CanonicalJobRead :=
  (Catalogue.search sql db (catalogueFilter f) f.page f.pageSize).1

/-- The results that an execution saves. -/
def savedResults (db : Database) (search : JobSearch) (profile : CandidateProfile)
    (startedAt : Time) : List JobSearchResult :=
  let env := matchingEnv u round searchCandidateLimit
  rankedResults env search (candidateOf search profile) startedAt
    (retrieve sql db (jobFilterOf env search))

section

variable {sql u round searchCandidateLimit} {db : Database} {search : JobSearch}
  {profile : CandidateProfile} {startedAt : Time}

/-- A saved result belongs to a retrieved job that is eligible. -/
theorem mem_savedResults {result : JobSearchResult}
    (h : result ∈ savedResults sql u round searchCandidateLimit db search profile startedAt) :
    ∃ read ∈ retrieve sql db (jobFilterOf (matchingEnv u round searchCandidateLimit) search),
      isEligible u round (candidateOf search profile) read = true ∧ result.jobId = read.id := by
  obtain ⟨matched, hmatched, hid, _⟩ := mem_rankedResults h
  obtain ⟨read, hread, rfl⟩ := mem_ranked_iff.mp (List.mem_of_mem_take hmatched)
  obtain ⟨hread, heligible⟩ := List.mem_filter.mp hread
  exact ⟨read, hread, heligible, hid⟩

/-- The retrieved jobs have the workplace that a request for remote or on-site work names. -/
theorem remoteType_of_predicate {row : SearchRow}
    (h : searchPredicate sql db
      (catalogueFilter (jobFilterOf (matchingEnv u round searchCandidateLimit) search)) row = true)
    (hrequest : search.remoteType = some .remote ∨ search.remoteType = some .onSite) :
    row.1.remoteType = search.remoteType := by
  simp only [searchPredicate, Bool.and_eq_true] at h
  have hremote := h.1.2
  rcases hrequest with hrequest | hrequest <;>
    simpa [catalogueFilter, jobFilterOf, hrequest] using hremote

/-- An eligible job asks for no more years than the candidate has. -/
theorem years_of_isEligible {candidate : Candidate} {read : CanonicalJobRead} {years : ℚ}
    {minimum : Int} (h : isEligible u round candidate read = true)
    (hyears : candidate.yearsExperience = some years)
    (hminimum : read.experienceMinYears = some minimum) : (minimum : ℚ) ≤ round years := by
  simp only [isEligible, experienceCompatible, hyears, hminimum, Bool.and_eq_true,
    decide_eq_true_eq] at h
  exact h.2

end

/-! ## Years -/

/-- `float` of a decimal: it keeps the order, and it is exact on sixteenths of a moderate size. -/
structure FloatOf (round : ℚ → ℚ) : Prop where
  monotone : Monotone round
  exact : ∀ n : ℤ, |n| ≤ 2 ^ 53 → round (n / 16) = n / 16

/-- The years that {lit}`years_of_experience` holds: tenths, within the CHECK constraint. -/
structure StoredYears (years : ℚ) : Prop where
  tenths : ∃ n : ℤ, years = n / 10
  bounds : 0 ≤ years ∧ years ≤ 80

/-- Stored years are not rounded up to an integer. -/
theorem FloatOf.le_years {round : ℚ → ℚ} (h : FloatOf round) {years : ℚ}
    (hyears : StoredYears years) {minimum : ℤ} (hminimum : (minimum : ℚ) ≤ round years) :
    (minimum : ℚ) ≤ years := by
  obtain ⟨⟨tenths, rfl⟩, hlow, hhigh⟩ := hyears
  by_contra hlt
  have hlow : 0 ≤ tenths := by
    have hten : (0 : ℚ) ≤ tenths := by linarith
    exact_mod_cast hten
  have hhigh : tenths ≤ 800 := by
    have hten : (tenths : ℚ) ≤ 800 := by linarith
    exact_mod_cast hten
  have hlt : tenths < 10 * minimum := by
    have hten : (tenths : ℚ) < 10 * minimum := by linarith
    exact_mod_cast hten
  -- a sixteenth below the next integer there is a number that is not rounded
  have hnext : 10 * (16 * (tenths / 10 + 1) - 1) ≥ 16 * tenths := by omega
  have hbelow : (tenths / 10 : ℚ) ≤ ((16 * (tenths / 10 + 1) - 1 : ℤ) : ℚ) / 16 := by
    have hcast : (16 * tenths : ℚ) ≤ 10 * ((16 * (tenths / 10 + 1) - 1 : ℤ) : ℚ) := by
      exact_mod_cast hnext
    linarith
  have hround := h.monotone hbelow
  rw [h.exact _ (abs_le.mpr ⟨by omega, by omega⟩)] at hround
  have hless : ((16 * (tenths / 10 + 1) - 1 : ℤ) : ℚ) < 16 * minimum := by
    have hint : 16 * (tenths / 10 + 1) - 1 < 16 * minimum := by omega
    exact_mod_cast hint
  linarith

/-- Every saved result belongs to a canonical job that has the requested workplace when remote
or on-site work was requested, and that asks for no more years than the candidate has when
both are known.  A request for hybrid work has the results of a request that names no workplace,
and the requested experience has no influence on the results. -/
theorem saved_results_satisfy (hround : FloatOf round) (db : Database) (search : JobSearch)
    (profile : CandidateProfile) (startedAt : Time)
    (hyears : ∀ years, profile.yearsOfExperience = some years → StoredYears years) :
    (∀ result ∈ savedResults sql u round searchCandidateLimit db search profile startedAt,
      ∃ j ∈ db.jobs, j.id = result.jobId ∧
        (search.remoteType = some .remote ∨ search.remoteType = some .onSite →
          j.remoteType = search.remoteType) ∧
        ∀ years minimum, profile.yearsOfExperience = some years →
          j.experienceMinYears = some minimum → (minimum : ℚ) ≤ years) ∧
    (search.remoteType = some .hybrid →
      savedResults sql u round searchCandidateLimit db
          { search with remoteType := none } profile startedAt =
        savedResults sql u round searchCandidateLimit db search profile startedAt) ∧
    ∀ experienceMin experienceMax,
      savedResults sql u round searchCandidateLimit db
          { search with experienceMin, experienceMax } profile startedAt =
        savedResults sql u round searchCandidateLimit db search profile startedAt := by
  refine ⟨?_, fun hhybrid => ?_, fun _ _ => rfl⟩
  · intro result hresult
    obtain ⟨read, hread, heligible, hid⟩ := mem_savedResults hresult
    obtain ⟨row, observation, hrow, hpredicate, rfl⟩ := mem_search hread
    refine ⟨row.1, hrow, hid.symm, remoteType_of_predicate hpredicate, ?_⟩
    intro years minimum hknown hminimum
    exact hround.le_years (hyears years hknown) (years_of_isEligible heligible hknown hminimum)
  · have hfilter : jobFilterOf (matchingEnv u round searchCandidateLimit)
        { search with remoteType := none } =
          jobFilterOf (matchingEnv u round searchCandidateLimit) search := by
      simp [jobFilterOf, hhybrid]
    have hcandidate : candidateOf { search with remoteType := none } profile =
        candidateOf search profile := by
      simp [candidateOf, hhybrid]
    rw [savedResults, savedResults, hfilter, hcandidate]
    rfl

/-- A backend engineer with ten years of experience. -/
def seniorProfile : CandidateProfile where
  fullName := none
  email := none
  phone := none
  location := none
  currentTitle := some "Backend Engineer"
  professionalSummary := none
  yearsOfExperience := some 10
  extractedText := ""
  skills := []
  employmentHistory := []
  education := []
  certifications := []
  languages := []
  rawParserOutput := "{}"
  resumeId := 8
  ownerProfileId := 7
  updatedAt := 1

/-- One on-site opening that asks for five years. -/
def fiveYearOpening : Database where
  companies := []
  jobs :=
    [{ opening 1 "Backend Engineer" "backend engineer" "backend" 5 with
        experienceMinYears := some 5
        remoteType := some .onSite }]
  observations :=
    [createdSource 3 (.bare "dice" "a1" "" "" "")
      (opening 1 "Backend Engineer" "backend engineer" "backend" 5) 5]

theorem floatOf_id : FloatOf id :=
  ⟨monotone_id, fun _ _ => rfl⟩

/-- A request for on-site work is met. -/
theorem saved_results_satisfy_onSite :
    (savedResults plainSql .ascii id 200 fiveYearOpening
        (newSearch 7 ⟨none, none, some .onSite, none, none, none, 10⟩) seniorProfile 5).map
      (·.jobId) = [1] ∧
      ∃ j ∈ fiveYearOpening.jobs, j.id = 1 ∧ j.remoteType = some .onSite ∧
        ∀ minimum, j.experienceMinYears = some minimum → (minimum : ℚ) ≤ 10 := by
  have hsaved : (savedResults plainSql .ascii id 200 fiveYearOpening
      (newSearch 7 ⟨none, none, some .onSite, none, none, none, 10⟩) seniorProfile 5).map
        (·.jobId) = [1] := by decide
  obtain ⟨result, hresult, hjobId⟩ := List.mem_map.mp (hsaved ▸ List.mem_singleton_self 1)
  obtain ⟨j, hj, hid, hremote, hminimum⟩ := (saved_results_satisfy plainSql .ascii id 200
    floatOf_id fiveYearOpening (newSearch 7 ⟨none, none, some .onSite, none, none, none, 10⟩)
    seniorProfile 5 (fun years hyears => by
      cases hyears
      exact ⟨⟨100, by norm_num⟩, by norm_num, by norm_num⟩)).1 result hresult
  exact ⟨hsaved, j, hj, hid.trans hjobId, hremote (Or.inr rfl),
    fun minimum => hminimum 10 minimum rfl⟩

/-- A request for hybrid work and at most two years of experience saves an on-site job that asks
for five. -/
theorem request_not_satisfied :
    let search := newSearch 7 ⟨none, none, some .hybrid, none, none, some 2, 10⟩
    (¬∀ result ∈ savedResults plainSql .ascii id 200 fiveYearOpening search seniorProfile 5,
      ∀ j ∈ fiveYearOpening.jobs, j.id = result.jobId → j.remoteType = search.remoteType) ∧
    ¬∀ result ∈ savedResults plainSql .ascii id 200 fiveYearOpening search seniorProfile 5,
      ∀ j ∈ fiveYearOpening.jobs, j.id = result.jobId →
        ∀ maximum ∈ search.experienceMax, ∀ minimum ∈ j.experienceMinYears,
          minimum ≤ (maximum : Int) := by
  decide

end Search
end HireAndTech
