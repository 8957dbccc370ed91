import HireAndTech.Catalogue.Normalization
import HireAndTech.Catalogue.Query
import HireAndTech.Search.Execution

/-!
# Matching

The eligibility rules and the component scores of the matching domain, and what they make
of the results that an execution saves.  A parameter rounds the result of every operation
on floating-point numbers.

Main results:

- Definitions {lit}`isEligible` and {lit}`scoreJob`: the matching domain.
- Theorem {lit}`rankMatches_congr`: the ranking does not depend on the order of retrieval.
- Theorem {lit}`saved_results_top`: the saved results are the first of the eligible jobs.
-/

namespace HireAndTech
namespace Search

open Catalogue Text
open Relational (mem_take_of_precedes)

/-! ## Eligibility and scores -/

variable (u : Unicode) (round : ℚ → ℚ)

/-- `experience_compatible`. -/
def experienceCompatible (candidateYears : Option ℚ) (minimum : Option Int) : Bool :=
  match candidateYears, minimum with
  | some years, some minimum => (minimum : ℚ) ≤ round years
  | _, _ => true

/-- `is_eligible`. -/
def isEligible (candidate : Candidate) (job : CanonicalJobRead) : Bool :=
  job.isActive && rolesCompatible u candidate.role job.roleFamily &&
    experienceCompatible round candidate.yearsExperience job.experienceMinYears

/-- Skills up to case. -/
def foldedSkills (skills : List String) : Finset (List Char) :=
  (skills.map fun skill => u.casefold skill.toList).toFinset

/-- `_location_score`. -/
def locationScore (candidate : Candidate) (job : CanonicalJobRead) : ℚ :=
  if job.remote = some true && candidate.remotePreferred = some true then 10
  else match truthy candidate.location, truthy job.location with
    | some candidateLocation, some location =>
        if u.casefold candidateLocation.toList <:+: u.casefold location.toList then 10 else 0
    | _, _ => 0

/-- The share of the skills of a job that a candidate has, in parts of thirty. -/
def skillsScore (candidate : Candidate) (job : CanonicalJobRead) : ℚ :=
  let candidateSkills := candidate.skills.image fun skill => u.casefold skill.toList
  let jobSkills := foldedSkills u job.skills
  if jobSkills = ∅ then 0
  else round (30 * round ((jobSkills ∩ candidateSkills).card / jobSkills.card))

/-- The experience component. -/
def experienceScore (candidate : Candidate) (job : CanonicalJobRead) : ℚ :=
  match job.experienceMinYears, candidate.yearsExperience with
  | none, _ => 20
  | some minimum, some years => if (minimum : ℚ) ≤ round years then 20 else 0
  | some _, none => 0

/-- The freshness component: ten points less one for each day. -/
def freshnessScore (job : CanonicalJobRead) (now : Time) : ℚ :=
  let reference := job.postedAt.getD job.lastSeenAt
  let seconds := round (((now : ℚ) - reference) / 1000000)
  let ageDays := max 0 (round (seconds / 86400))
  max 0 (round (10 - min ageDays 10))

/-- `score_job`. -/
def scoreJob (candidate : Candidate) (job : CanonicalJobRead) (now : Time) : JobMatchScore :=
  let role : ℚ := if rolesCompatible u candidate.role job.roleFamily then 30 else 0
  let skills := skillsScore u round candidate job
  let experience := experienceScore round candidate job
  let location := locationScore u candidate job
  let freshness := freshnessScore round job now
  { overallScore :=
      round (round (round (round (role + skills) + experience) + location) + freshness)
    roleScore := role
    skillsScore := skills
    experienceScore := experience
    locationScore := location
    freshnessScore := freshness }

/-- The matching domain over reads of the catalogue. -/
def matchingEnv (searchCandidateLimit : Nat) : Env CanonicalJobRead where
  jobId job := job.id
  isEligible := isEligible u round
  scoreJob := scoreJob u round
  searchCandidateLimit := searchCandidateLimit

/-! ## The order of matches -/

section

variable {Job : Type} {env : Env Job}

instance rankedBefore_total : Std.Total (rankedBefore env) := by
  constructor
  intro a b
  rcases lt_trichotomy a.2.overallScore b.2.overallScore with h | h | h
  · exact Or.inr (Or.inl h)
  · rcases le_total (env.jobId a.1) (env.jobId b.1) with hid | hid
    · exact Or.inl (Or.inr ⟨h, hid⟩)
    · exact Or.inr (Or.inr ⟨h.symm, hid⟩)
  · exact Or.inl (Or.inl h)

instance rankedBefore_trans : IsTrans (Job × JobMatchScore) (rankedBefore env) := by
  constructor
  rintro a b c (hab | ⟨hab, hidab⟩) (hbc | ⟨hbc, hidbc⟩)
  · exact Or.inl (hbc.trans hab)
  · exact Or.inl (hbc ▸ hab)
  · exact Or.inl (hab ▸ hbc)
  · exact Or.inr ⟨hab.trans hbc, hidab.trans hidbc⟩

/-- Matches that precede each other have one id. -/
theorem rankedBefore_antisymm {a b : Job × JobMatchScore} (hab : rankedBefore env a b)
    (hba : rankedBefore env b a) : env.jobId a.1 = env.jobId b.1 := by
  rcases hab with hab | ⟨hab, hidab⟩ <;> rcases hba with hba | ⟨hba, hidba⟩
  · exact absurd (hab.trans hba) (lt_irrefl _)
  · exact absurd hab (hba ▸ lt_irrefl _)
  · exact absurd hba (hab ▸ lt_irrefl _)
  · exact le_antisymm hidab hidba

theorem rankMatches_perm (env : Env Job) (scored : List (Job × JobMatchScore)) :
    (rankMatches env scored).Perm scored :=
  List.perm_insertionSort _ scored

theorem rankMatches_sorted (env : Env Job) (scored : List (Job × JobMatchScore)) :
    (rankMatches env scored).Pairwise (rankedBefore env) :=
  List.pairwise_insertionSort _ scored

/-- Matches that precede each other are one when ids are distinct. -/
theorem eq_of_rankedBefore {scored : List (Job × JobMatchScore)}
    (hids : (scored.map fun matched => env.jobId matched.1).Nodup) {a b : Job × JobMatchScore}
    (ha : a ∈ scored) (hb : b ∈ scored) (hab : rankedBefore env a b)
    (hba : rankedBefore env b a) : a = b :=
  List.inj_on_of_nodup_map hids ha hb (rankedBefore_antisymm hab hba)

/-- The ranking does not depend on the order of the matches. -/
theorem rankMatches_congr {scored scored' : List (Job × JobMatchScore)}
    (hids : (scored.map fun matched => env.jobId matched.1).Nodup) (h : scored.Perm scored') :
    rankMatches env scored = rankMatches env scored' := by
  have hperm := rankMatches_perm env scored
  have hperm' := (hperm.trans h).trans (rankMatches_perm env scored').symm
  apply hperm'.eq_of_pairwise _ (rankMatches_sorted env scored) (rankMatches_sorted env scored')
  intro a b ha hb hab hba
  have hb' : b ∈ scored := h.mem_iff.mpr ((rankMatches_perm env scored').mem_iff.mp hb)
  exact eq_of_rankedBefore hids (hperm.mem_iff.mp ha) hb' hab hba

/-! ## Saved results -/

/-- The eligible jobs with their scores. -/
def scoredMatches (env : Env Job) (candidate : Candidate) (startedAt : Time) (reads : List Job) :
    List (Job × JobMatchScore) :=
  (reads.filter (env.isEligible candidate)).map fun job =>
    (job, env.scoreJob candidate job startedAt)

variable {search : JobSearch} {candidate : Candidate} {startedAt : Time} {reads : List Job}

theorem scoredMatches_ids (hids : (reads.map env.jobId).Nodup) :
    ((scoredMatches env candidate startedAt reads).map fun matched =>
      env.jobId matched.1).Nodup := by
  rw [scoredMatches, List.map_map]
  exact hids.sublist (List.filter_sublist.map _)

/-- A column of the saved results that does not depend on the rank. -/
theorem map_rankedResults {γ : Type} (column : JobSearchResult → γ)
    (value : Job × JobMatchScore → γ)
    (h : ∀ index matched,
      column
        { searchId := search.id
          jobId := env.jobId matched.1
          rank := index + 1
          matchScore := matched.2.overallScore
          skillsScore := matched.2.skillsScore
          experienceScore := matched.2.experienceScore
          locationScore := matched.2.locationScore
          freshnessScore := matched.2.freshnessScore } = value matched) :
    (rankedResults env search candidate startedAt reads).map column =
      ((rankMatches env (scoredMatches env candidate startedAt reads)).take
        search.requestedLimit).map value := by
  apply List.ext_getElem
  · simp [rankedResults, scoredMatches]
  · intro index hindex hindex'
    simp [rankedResults, scoredMatches, h]

/-- The ranks count from one. -/
theorem rankedResults_ranks :
    (rankedResults env search candidate startedAt reads).map (·.rank) =
      (List.range (min search.requestedLimit
        (reads.filter (env.isEligible candidate)).length)).map (· + 1) := by
  have hlength : (rankMatches env (scoredMatches env candidate startedAt reads)).length =
      (reads.filter (env.isEligible candidate)).length := by
    rw [(rankMatches_perm env _).length_eq, scoredMatches, List.length_map]
  rw [← hlength, ← List.length_take]
  apply List.ext_getElem
  · simp [rankedResults, scoredMatches]
  · intro index hindex hindex'
    simp [rankedResults]

/-- A saved result is the result of an eligible job among the first of the ranking. -/
theorem mem_rankedResults {result : JobSearchResult}
    (h : result ∈ rankedResults env search candidate startedAt reads) :
    ∃ matched ∈ (rankMatches env (scoredMatches env candidate startedAt reads)).take
        search.requestedLimit,
      result.jobId = env.jobId matched.1 ∧ result.matchScore = matched.2.overallScore := by
  have hmap : (rankedResults env search candidate startedAt reads).map
        (fun result => (result.jobId, result.matchScore)) =
      ((rankMatches env (scoredMatches env candidate startedAt reads)).take
        search.requestedLimit).map fun matched => (env.jobId matched.1, matched.2.overallScore) :=
    map_rankedResults _ _ fun _ _ => rfl
  have hmem : (result.jobId, result.matchScore) ∈
      (rankedResults env search candidate startedAt reads).map
        (fun result => (result.jobId, result.matchScore)) := List.mem_map_of_mem h
  rw [hmap] at hmem
  obtain ⟨matched, hmatched, heq⟩ := List.mem_map.mp hmem
  simp only [Prod.mk.injEq] at heq
  exact ⟨matched, hmatched, heq.1.symm, heq.2.symm⟩

theorem jobIds_rankedResults :
    (rankedResults env search candidate startedAt reads).map (·.jobId) =
      ((rankMatches env (scoredMatches env candidate startedAt reads)).take
        search.requestedLimit).map fun matched => env.jobId matched.1 :=
  map_rankedResults _ _ fun _ _ => rfl

/-- A job that has been ranked is eligible, and carries its score. -/
theorem mem_ranked_iff {matched : Job × JobMatchScore} :
    matched ∈ rankMatches env (scoredMatches env candidate startedAt reads) ↔
      ∃ job ∈ reads.filter (env.isEligible candidate),
        (job, env.scoreJob candidate job startedAt) = matched := by
  rw [(rankMatches_perm env _).mem_iff, scoredMatches, List.mem_map]

theorem ranked_ids (hids : (reads.map env.jobId).Nodup) :
    ((rankMatches env (scoredMatches env candidate startedAt reads)).map fun matched =>
      env.jobId matched.1).Nodup :=
  ((rankMatches_perm env _).map _).nodup_iff.mpr (scoredMatches_ids hids)

/-- The scores do not increase along the ranks. -/
theorem rankedResults_scores :
    (rankedResults env search candidate startedAt reads).Pairwise fun a b =>
      b.matchScore ≤ a.matchScore := by
  have hscores : ((rankedResults env search candidate startedAt reads).map
      (·.matchScore)).Pairwise fun a b => b ≤ a := by
    rw [map_rankedResults (·.matchScore) (fun matched => matched.2.overallScore) fun _ _ => rfl,
      List.pairwise_map]
    apply ((rankMatches_sorted env _).sublist (List.take_sublist _ _)).imp
    rintro a b (h | ⟨h, _⟩)
    · exact h.le
    · exact h.ge
  exact List.pairwise_map.mp hscores

theorem rankedResults_nodup (hids : (reads.map env.jobId).Nodup) :
    ((rankedResults env search candidate startedAt reads).map (·.jobId)).Nodup := by
  rw [jobIds_rankedResults]
  exact (ranked_ids hids).sublist ((List.take_sublist _ _).map _)

/-- An eligible job that precedes a saved one is saved. -/
theorem rankedResults_closed (hids : (reads.map env.jobId).Nodup) {result : JobSearchResult}
    (hresult : result ∈ rankedResults env search candidate startedAt reads) {job : Job}
    (hjob : job ∈ reads.filter (env.isEligible candidate))
    (hprecedes : result.matchScore < (env.scoreJob candidate job startedAt).overallScore ∨
      ((env.scoreJob candidate job startedAt).overallScore = result.matchScore ∧
        env.jobId job ≤ result.jobId)) :
    env.jobId job ∈ (rankedResults env search candidate startedAt reads).map (·.jobId) := by
  obtain ⟨matched, hmatched, hid, hscore⟩ := mem_rankedResults hresult
  rw [hid, hscore] at hprecedes
  have htop := mem_take_of_precedes (rankMatches_sorted env _)
    (fun a ha b hb hab hba => eq_of_rankedBefore (ranked_ids hids) ha hb hab hba) hmatched
    (mem_ranked_iff.mpr ⟨job, hjob, rfl⟩) hprecedes
  rw [jobIds_rankedResults]
  exact List.mem_map_of_mem (f := fun matched => env.jobId matched.1) htop

/-- The saved results do not depend on the order of retrieval. -/
theorem rankedResults_congr (hids : (reads.map env.jobId).Nodup) {reads' : List Job}
    (h : reads.Perm reads') :
    rankedResults env search candidate startedAt reads' =
      rankedResults env search candidate startedAt reads := by
  have hscored : (scoredMatches env candidate startedAt reads).Perm
      (scoredMatches env candidate startedAt reads') :=
    (h.filter (env.isEligible candidate)).map _
  have hranked := rankMatches_congr (scoredMatches_ids hids) hscored
  unfold scoredMatches at hranked
  rw [rankedResults, rankedResults, hranked]

end

/-- The results that an execution saves have the ranks from one up to the limit or the number
of eligible jobs, scores that do not increase, and distinct eligible jobs; no eligible job
that precedes a saved one is left out, and the order of retrieval does not matter. -/
theorem saved_results_top (searchCandidateLimit : Nat) (search : JobSearch)
    (candidate : Candidate) (startedAt : Time) (reads : List CanonicalJobRead)
    (hids : (reads.map (·.id)).Nodup) :
    let env := matchingEnv u round searchCandidateLimit
    let results := rankedResults env search candidate startedAt reads
    let eligible := reads.filter (isEligible u round candidate)
    let score := fun job => (scoreJob u round candidate job startedAt).overallScore
    results.map (·.rank) =
        (List.range (min search.requestedLimit eligible.length)).map (· + 1) ∧
      results.Pairwise (fun a b => b.matchScore ≤ a.matchScore) ∧
      (results.map (·.jobId)).Nodup ∧
      (∀ result ∈ results, ∃ job ∈ eligible,
        result.jobId = job.id ∧ result.matchScore = score job) ∧
      (∀ result ∈ results, ∀ job ∈ eligible,
        result.matchScore < score job ∨ (score job = result.matchScore ∧ job.id ≤ result.jobId) →
          job.id ∈ results.map (·.jobId)) ∧
      ∀ reads', reads.Perm reads' →
        rankedResults env search candidate startedAt reads' = results := by
  refine ⟨rankedResults_ranks, rankedResults_scores, rankedResults_nodup hids, ?_, ?_, ?_⟩
  · intro result hresult
    obtain ⟨matched, hmatched, hid, hscore⟩ := mem_rankedResults hresult
    obtain ⟨job, hjob, rfl⟩ := mem_ranked_iff.mp (List.mem_of_mem_take hmatched)
    exact ⟨job, hjob, hid, hscore⟩
  · intro result hresult job hjob hprecedes
    exact rankedResults_closed hids hresult hjob hprecedes
  · intro reads' hreads
    exact rankedResults_congr hids hreads

/-- A read of a backend opening. -/
def backendRead (id : UUID) (lastSeenAt : Time) : CanonicalJobRead :=
  readOf (opening id "Backend Engineer" "backend engineer" "backend" lastSeenAt, none)
    (createdSource id (.bare "dice" "a1" "" "" "")
      (opening id "Backend Engineer" "backend engineer" "backend" lastSeenAt) lastSeenAt)

/-- Three equal openings and a limit of two. -/
theorem saved_results_top_tie :
    (rankedResults (matchingEnv .ascii id 200)
      (newSearch 7 ⟨some "backend engineer", none, none, none, none, none, 2⟩)
      ⟨"backend engineer", none, ∅, none, none⟩ 5
      [backendRead 3 5, backendRead 1 5, backendRead 2 5]).map (·.rank) = [1, 2] :=
  (saved_results_top .ascii id 200
    (newSearch 7 ⟨some "backend engineer", none, none, none, none, none, 2⟩)
    ⟨"backend engineer", none, ∅, none, none⟩ 5
    [backendRead 3 5, backendRead 1 5, backendRead 2 5] (by decide)).1.trans (by decide)

end Search
end HireAndTech
