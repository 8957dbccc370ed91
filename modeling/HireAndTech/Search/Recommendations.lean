import HireAndTech.Search.Requests

/-!
# Recommendations

`JobService.get_recommendations` over a state of the catalogue.  The query retrieves at most
five hundred jobs whose role is among those that are compatible with the role of the
candidate; eligibility, ranking and the cut into pages happen in memory.

Main results:

- Definition {lit}`getRecommendations`: the recommendations of a page and the total.
- Theorem {lit}`mem_compatibleRoles`: the query admits the roles that the rules accept.
- Theorem {lit}`recommendations_full_scan`: the pages are the ranking of a full scan.
-/

namespace HireAndTech
namespace Search

open Catalogue Text
open Relational (filter_pushdown pageCount pages_eq sortedBy sortedBy_perm)
open Resumes (CandidateProfile)

/-! ## The service -/

variable (sql : Sql) (u : Unicode) (round : ℚ → ℚ)

/-- The candidate of a profile. -/
def recommendationCandidate (profile : CandidateProfile) : Candidate where
  role := profile.currentTitle.getD ""
  yearsExperience := profile.yearsOfExperience
  skills := (profile.skills.map fun skill =>
    String.ofList (u.casefold skill.toList)).toFinset
  location := profile.location
  remotePreferred := none

/-- The roles that the query admits. -/
def compatibleRoles (role : String) : List String :=
  let candidateRole := normalizeRole u role
  (roleCompatibility.lookup candidateRole).getD [candidateRole]

/-- `JobService.get_recommendations`, for the profile that the repository returns. -/
def getRecommendations (db : Database) (profile : Option CandidateProfile) (now : Time)
    (page pageSize : Nat) : List (CanonicalJobRead × JobMatchScore) × Nat :=
  match profile with
  | none => ([], 0)
  | some profile =>
      let candidate := recommendationCandidate u profile
      let compatible := compatibleRoles u candidate.role
      let rows := (Catalogue.search sql db { roleFamilies := compatible } 1 500).1
      let env := matchingEnv u round 500
      let ranked := rankMatches env (scoredMatches env candidate now rows)
      let start := (page - 1) * pageSize
      let stop := page * pageSize
      ((ranked.take stop).drop start, ranked.length)

/-- The recommendations of all pages, one page after the other. -/
def allRecommendations (db : Database) (profile : CandidateProfile) (now : Time)
    (pageSize : Nat) : List (CanonicalJobRead × JobMatchScore) :=
  let total := (getRecommendations sql u round db (some profile) now 1 pageSize).2
  (List.range (pageCount total pageSize)).flatMap fun k =>
    (getRecommendations sql u round db (some profile) now (k + 1) pageSize).1

/-! ## The full scan -/

/-- An active job with an active observation. -/
def isListed (db : Database) (j : CanonicalJob) : Bool :=
  j.isActive && hasMatchingSource db.observations none j

/-- The read of a job with its company. -/
def readJob (db : Database) (j : CanonicalJob) : Option CanonicalJobRead :=
  present sql db (j, companyOf db j)

/-- The reads of all active jobs with an active observation. -/
def fullScan (db : Database) : List CanonicalJobRead :=
  (db.jobs.filter (isListed db)).filterMap (readJob sql db)

/-- The active jobs whose role is among the given ones. -/
def activeJobs (db : Database) (roles : List String) : List CanonicalJob :=
  db.jobs.filter fun j => j.isActive && roles.contains j.roleFamily

/-! ## The prefilter -/

section

variable {sql u round}

/-- The query admits the roles that the rules accept. -/
theorem mem_compatibleRoles (role roleFamily : String) :
    roleFamily ∈ compatibleRoles u role ↔ rolesCompatible u role roleFamily = true := by
  rw [rolesCompatible, decide_eq_true_eq]
  rfl

/-- Every role has compatible roles, so that the query is never without the filter. -/
theorem compatibleRoles_ne_nil (role : String) : compatibleRoles u role ≠ [] := by
  have hrows : ∀ row ∈ roleCompatibility, row.2 ≠ [] := by decide
  unfold compatibleRoles
  dsimp only
  cases hlookup : roleCompatibility.lookup (normalizeRole u role) with
  | none => exact List.cons_ne_nil _ _
  | some roles =>
      obtain ⟨before, after, hsplit, _⟩ := List.lookup_eq_some_iff.mp hlookup
      exact hrows (normalizeRole u role, roles) (hsplit ▸ by simp)

/-- With no other filter a job matches when it is listed and has one of the roles. -/
theorem isMatch_roles (db : Database) {roles : List String} (hroles : roles ≠ [])
    (j : CanonicalJob) :
    isMatch sql db { roleFamilies := roles } j =
      (isListed db j && roles.contains j.roleFamily) := by
  have hnonempty : roles.isEmpty = false := by
    rwa [← Bool.not_eq_true, List.isEmpty_iff]
  simp [isMatch, searchPredicate, isListed, whenText, Catalogue.truthy, hnonempty]

theorem matchingJobs_roles (db : Database) {roles : List String} (hroles : roles ≠ []) :
    matchingJobs sql db { roleFamilies := roles } =
      (db.jobs.filter (isListed db)).filter fun j => roles.contains j.roleFamily := by
  rw [matchingJobs, List.filter_filter]
  apply List.filter_congr
  intro j _
  rw [isMatch_roles db hroles, Bool.and_comm]

/-- The jobs that the query finds are active and have one of the roles. -/
theorem matchingJobs_length (db : Database) {roles : List String} (hroles : roles ≠ []) :
    (matchingJobs sql db { roleFamilies := roles }).length ≤ (activeJobs db roles).length := by
  rw [matchingJobs_roles db hroles, List.filter_filter]
  apply List.Sublist.length_le
  apply List.monotone_filter_right
  intro j hj
  simp only [isListed, Bool.and_eq_true] at hj ⊢
  exact ⟨hj.2.1, hj.1⟩

/-- The read of a job keeps its role. -/
theorem roleFamily_of_readJob {db : Database} {j : CanonicalJob} {read : CanonicalJobRead}
    (h : readJob sql db j = some read) : read.roleFamily = j.roleFamily := by
  obtain ⟨observation, _, rfl⟩ := Option.map_eq_some_iff.mp h
  rfl

/-- The full scan reads every active job with an active observation, in the order of the
table. -/
theorem fullScan_ids (db : Database) :
    (fullScan sql db).map (·.id) = (db.jobs.filter (isListed db)).map (·.id) := by
  rw [fullScan]
  apply map_filterMap_of_some
  intro j hj
  have hlisted := (List.mem_filter.mp hj).2
  rw [isListed, Bool.and_eq_true] at hlisted
  obtain ⟨o, ho⟩ := Option.isSome_iff_exists.mp (presentationSource_isSome hlisted.2)
  refine ⟨readOf (j, companyOf db j) o, ?_, rfl⟩
  rw [readJob, present, ho, Option.map_some]

/-! ## Retrieval -/

variable {db : KeyedDatabase}

/-- One page of five hundred retrieves all matching jobs when there are no more. -/
theorem search_fits {f : SearchFilter} (hcount : (matchingJobs sql db.toDatabase f).length ≤ 500) :
    (Catalogue.search sql db.toDatabase f 1 500).1 = matchingReads sql db.toDatabase f := by
  rw [search_items, matchingReads, Nat.sub_self, Nat.zero_mul, Relational.page, List.drop_zero]
  congr 1
  apply List.take_of_length_le
  rwa [(sortedBy_perm _ _).length_eq, List.length_map]

/-- The reads of the query are the reads of the jobs in the order of the table, up to
order. -/
theorem matchingReads_perm (f : SearchFilter) :
    (matchingReads sql db.toDatabase f).Perm
      ((matchingJobs sql db.toDatabase f).filterMap (readJob sql db.toDatabase)) := by
  rw [matchingReads]
  apply ((sortedBy_perm _ _).filterMap _).trans
  rw [List.filterMap_map]
  exact List.Perm.refl _

variable {candidate : Candidate}

/-- The prefilter keeps all eligible jobs of the full scan. -/
theorem eligible_of_prefilter (db : Database) :
    ((matchingJobs sql db { roleFamilies := compatibleRoles u candidate.role }).filterMap
        (readJob sql db)).filter (isEligible u round candidate) =
      (fullScan sql db).filter (isEligible u round candidate) := by
  rw [matchingJobs_roles db (compatibleRoles_ne_nil candidate.role), fullScan]
  apply filter_pushdown
  intro j read hread heligible
  simp only [isEligible, Bool.and_eq_true] at heligible
  rw [List.contains_iff_mem, mem_compatibleRoles, ← roleFamily_of_readJob hread]
  exact heligible.1.2

/-- The retrieved eligible jobs are those of the full scan, up to order. -/
theorem retrieved_perm
    (hcount : (activeJobs db.toDatabase (compatibleRoles u candidate.role)).length ≤ 500) :
    ((Catalogue.search sql db.toDatabase
        { roleFamilies := compatibleRoles u candidate.role } 1 500).1.filter
        (isEligible u round candidate)).Perm
      ((fullScan sql db.toDatabase).filter (isEligible u round candidate)) := by
  have hnonempty := compatibleRoles_ne_nil (u := u) candidate.role
  rw [search_fits ((matchingJobs_length db.toDatabase hnonempty).trans hcount),
    ← eligible_of_prefilter]
  exact (matchingReads_perm _).filter _

end

/-! ## Pages -/

section

variable {sql u round} {db : KeyedDatabase} {profile : CandidateProfile} {now : Time}

/-- The ranking of the full scan. -/
def rankedScan (sql : Sql) (u : Unicode) (round : ℚ → ℚ) (db : Database)
    (profile : CandidateProfile) (now : Time) : List (CanonicalJobRead × JobMatchScore) :=
  let env := matchingEnv u round 500
  rankMatches env (scoredMatches env (recommendationCandidate u profile) now (fullScan sql db))

theorem fullScan_nodup : ((fullScan sql db.toDatabase).map (·.id)).Nodup := by
  rw [fullScan_ids]
  exact db.jobIds.sublist (List.filter_sublist.map _)

/-- A page of recommendations is a page of the ranking of the full scan. -/
theorem getRecommendations_eq (sql : Sql) (round : ℚ → ℚ) (now : Time) (pageSize k : Nat)
    (hcount : (activeJobs db.toDatabase
      (compatibleRoles u (recommendationCandidate u profile).role)).length ≤ 500) :
    getRecommendations sql u round db.toDatabase (some profile) now (k + 1) pageSize =
      (Relational.page (k * pageSize) pageSize
          (rankedScan sql u round db.toDatabase profile now),
        (rankedScan sql u round db.toDatabase profile now).length) := by
  have hscored : (scoredMatches (matchingEnv u round 500) (recommendationCandidate u profile) now
      (fullScan sql db.toDatabase)).Perm
      (scoredMatches (matchingEnv u round 500) (recommendationCandidate u profile) now
        (Catalogue.search sql db.toDatabase
          { roleFamilies := compatibleRoles u (recommendationCandidate u profile).role } 1
          500).1) :=
    (retrieved_perm hcount).symm.map _
  have hranked := rankMatches_congr (scoredMatches_ids fullScan_nodup) hscored
  simp only [getRecommendations]
  rw [← hranked, List.drop_take, Nat.add_sub_cancel, Nat.succ_mul, Nat.add_sub_cancel_left]
  rfl

end

/-- With at most five hundred active jobs of the admitted roles, all pages together hold every
active job with an active observation that is eligible, each once, in the order of descending
score and ascending id; the total of every page is their number, and the query admits every
role that the rules accept. -/
theorem recommendations_full_scan (db : KeyedDatabase) (profile : CandidateProfile) (now : Time)
    (pageSize : Nat) (hsize : 1 ≤ pageSize)
    (hcount : (activeJobs db.toDatabase
      (compatibleRoles u (recommendationCandidate u profile).role)).length ≤ 500) :
    let candidate := recommendationCandidate u profile
    let eligible := (fullScan sql db.toDatabase).filter (isEligible u round candidate)
    let pages := allRecommendations sql u round db.toDatabase profile now pageSize
    pages.Perm (eligible.map fun job => (job, scoreJob u round candidate job now)) ∧
      (pages.map fun matched => matched.1.id).Nodup ∧
      pages.Pairwise (fun a b => b.2.overallScore < a.2.overallScore ∨
        (a.2.overallScore = b.2.overallScore ∧ a.1.id ≤ b.1.id)) ∧
      (∀ page, 1 ≤ page →
        (getRecommendations sql u round db.toDatabase (some profile) now page pageSize).2 =
          eligible.length) ∧
      (fullScan sql db.toDatabase).map (·.id) =
        (db.jobs.filter (isListed db.toDatabase)).map (·.id) ∧
      ∀ roleFamily, rolesCompatible u candidate.role roleFamily = true →
        roleFamily ∈ compatibleRoles u candidate.role := by
  dsimp only
  have hpages : allRecommendations sql u round db.toDatabase profile now pageSize =
      rankedScan sql u round db.toDatabase profile now := by
    have hfirst := getRecommendations_eq sql round now pageSize 0 hcount
    rw [Nat.zero_add] at hfirst
    simp only [allRecommendations, hfirst, getRecommendations_eq sql round now pageSize _ hcount]
    exact pages_eq hsize _
  have hperm := rankMatches_perm (matchingEnv u round 500)
    (scoredMatches (matchingEnv u round 500) (recommendationCandidate u profile) now
      (fullScan sql db.toDatabase))
  rw [hpages]
  have hids : ((rankedScan sql u round db.toDatabase profile now).map fun matched =>
      (matchingEnv u round 500).jobId matched.1).Nodup :=
    ranked_ids fullScan_nodup
  refine ⟨hperm, hids, rankMatches_sorted (matchingEnv u round 500) _, ?_, fullScan_ids _, ?_⟩
  · intro page hpage
    obtain ⟨k, rfl⟩ := Nat.exists_eq_add_of_le' hpage
    rw [getRecommendations_eq sql round now pageSize k hcount]
    exact hperm.length_eq.trans (List.length_map _)
  · intro roleFamily hcompatible
    exact (mem_compatibleRoles _ _).mpr hcompatible

/-- Two openings, of which one has an admitted role. -/
theorem recommendations_full_scan_backend :
    let pages := allRecommendations plainSql .ascii id twoOpenings.toDatabase seniorProfile 5 1
    (pages.map fun matched => matched.1.id).Nodup ∧
      (pages.map fun matched => matched.1.id) = [1] :=
  ⟨(recommendations_full_scan plainSql .ascii id twoOpenings seniorProfile 5 1 le_rfl
      (by decide)).2.1, by decide⟩

end Search
end HireAndTech
