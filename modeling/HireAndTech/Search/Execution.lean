import HireAndTech.Search.Machine

/-!
# The search services

`SearchService.start_search` and the task `run_job_search`, which runs
`SearchExecutionService.execute`, as programs over the commands of the search
machine.  The programs follow the source statement by statement.  Code between
two statements that may raise is taken to raise at the second of them, before it
takes effect, since the transaction that both belong to is rolled back either way.

The matching rules are parameters: a catalogue job is whatever they can read.

Main results:

- Definitions {lit}`startSearch` and {lit}`execute`: the operations.
- Definition {lit}`searchMachine`: the machine whose calls run them.
-/

namespace HireAndTech
namespace Search

open Interleaving Prog
open Catalogue (RemoteType)
open Resumes (CandidateProfile)

/-! ## Matching -/

/-- Structured candidate signals used by eligibility and scoring. -/
structure Candidate where
  role : String
  yearsExperience : Option ℚ
  skills : Finset String
  location : Option String
  remotePreferred : Option Bool
deriving DecidableEq

/-- Typed score components. -/
structure JobMatchScore where
  overallScore : ℚ
  roleScore : ℚ
  skillsScore : ℚ
  experienceScore : ℚ
  locationScore : ℚ
  freshnessScore : ℚ
deriving DecidableEq, Repr

/-- The matching domain and the settings that an execution reads. -/
structure Env (Job : Type) where
  jobId : Job → UUID
  isEligible : Candidate → Job → Bool
  scoreJob : Candidate → Job → Time → JobMatchScore
  searchCandidateLimit : Nat

variable {Job : Type} (env : Env Job)

/-- The order of `rank_matches`: descending score, then ascending id. -/
def rankedBefore (a b : Job × JobMatchScore) : Prop :=
  b.2.overallScore < a.2.overallScore ∨
    (a.2.overallScore = b.2.overallScore ∧ env.jobId a.1 ≤ env.jobId b.1)

instance : DecidableRel (rankedBefore env) := fun a b => by
  unfold rankedBefore
  infer_instance

/-- `rank_matches`. -/
def rankMatches (scored : List (Job × JobMatchScore)) : List (Job × JobMatchScore) :=
  scored.insertionSort (rankedBefore env)

/-- A text that Python takes to be true. -/
def truthy (text : Option String) : Option String :=
  text.filter (· ≠ "")

/-- The candidate of a search. -/
def candidateOf (search : JobSearch) (profile : CandidateProfile) : Candidate where
  role := ((truthy search.query <|> truthy profile.currentTitle) <|>
    truthy search.jobType).getD "Unknown"
  yearsExperience := profile.yearsOfExperience
  skills := profile.skills.toFinset
  location := profile.location
  remotePreferred := if search.remoteType = some .remote then some true else none

/-- The filter with which a search retrieves its candidates. -/
def jobFilterOf (search : JobSearch) : JobFilter where
  query := search.query
  location := search.location
  remote :=
    match search.remoteType with
    | some .remote => some true
    | some .onSite => some false
    | _ => none
  employmentType := search.jobType
  page := 1
  pageSize := env.searchCandidateLimit

/-- The results that an execution saves. -/
def rankedResults (search : JobSearch) (candidate : Candidate) (startedAt : Time)
    (canonicalReads : List Job) : List JobSearchResult :=
  let eligible := canonicalReads.filter (env.isEligible candidate)
  let scored := eligible.map fun job => (job, env.scoreJob candidate job startedAt)
  let top := (rankMatches env scored).take search.requestedLimit
  top.mapIdx fun index matched =>
    { searchId := search.id
      jobId := env.jobId matched.1
      rank := index + 1
      matchScore := matched.2.overallScore
      skillsScore := matched.2.skillsScore
      experienceScore := matched.2.experienceScore
      locationScore := matched.2.locationScore
      freshnessScore := matched.2.freshnessScore }

/-! ## Operations -/

/-- What a call of the services does. -/
abbrev Action (Job α : Type) := ExceptT SearchError (Prog (Cmd Job)) α

/-- `session.commit` flushes what has been assigned since the last flush. -/
def commit (search : JobSearch) : Action Job Unit := do
  attempt (.flush search)
  attempt (.commit search)

/-- `SearchRepository.save_results`. -/
def saveResults (searchId : UUID) (results : List JobSearchResult) : Action Job Unit :=
  if results = [] then return ()
  else attempt (.saveResults searchId results)

/-- The branch of {lit}`execute` for a user without a candidate profile. -/
def failWithoutProfile (search : JobSearch) : Action Job Unit := do
  let completedAt ← ExceptT.lift (perform .clock)
  commit { search with
    status := .failed
    currentStage := "loading_profile_failed"
    errorMessage := some "No candidate profile found. Please upload a resume first."
    completedAt := some completedAt }

/-- The rest of the `try` block of {lit}`execute`, once the profile is loaded. -/
def rankAndSave (search₀ : JobSearch) (profile : CandidateProfile) (startedAt : Time) :
    Action Job Unit := do
  let candidate := candidateOf search₀ profile
  let search := { search₀ with currentStage := "retrieving_candidates", progress := 10 }
  attempt (.flush search)
  let canonicalReads ← attempt (.searchJobs (jobFilterOf env search))
  let search := { search with currentStage := "filtering", progress := 40 }
  attempt (.flush search)
  let search := { search with currentStage := "matching", progress := 60 }
  attempt (.flush search)
  let search := { search with currentStage := "ranking", progress := 80 }
  attempt (.flush search)
  let search := { search with currentStage := "saving_results", progress := 90 }
  attempt (.flush search)
  attempt (.clearResults search.id)
  saveResults search.id (rankedResults env search candidate startedAt canonicalReads)
  let completedAt ← ExceptT.lift (perform .clock)
  commit { search with
    status := .completed
    currentStage := "completed"
    progress := 100
    completedAt := some completedAt }
  attempt (.logInfo "job_search_completed" search.id)

/-- The `try` block of {lit}`execute`. -/
def tryExecute (search : JobSearch) (startedAt : Time) : Action Job Unit := do
  match ← attempt (.getLatestOwned search.id search.userId) with
  | none => failWithoutProfile search
  | some profile => rankAndSave env search profile startedAt

/-- The failure handler of {lit}`execute`. -/
def handleFailure (searchId : UUID) : Action Job Unit := do
  attempt .rollback
  match ← attempt (.getSearchForWorker searchId) with
  | none => return ()
  | some search =>
      attempt (.logException "job_search_failed" searchId)
      let completedAt ← ExceptT.lift (perform .clock)
      commit { search with
        status := .failed
        currentStage := "failed"
        errorMessage := some "An unexpected error occurred during search execution."
        completedAt := some completedAt }

/-- `SearchExecutionService.execute`. -/
def execute (searchId : UUID) : Action Job Unit := do
  match ← attempt (.getSearchForWorker searchId) with
  | none => return ()
  | some search =>
    if search.status = .completed ∨ search.status = .failed then return ()
    else
      let startedAt ← ExceptT.lift (perform .clock)
      let search := { search with
        status := .processing
        currentStage := "loading_profile"
        startedAt := search.startedAt <|> some startedAt }
      attempt (.flush search)
      tryCatch (tryExecute env search startedAt) fun _ => handleFailure searchId

/-- `run_job_search`, which the queue delivers at least once. -/
def runJobSearch (searchId : UUID) : Action Job Unit := do
  ExceptT.lift (perform (.deliver searchId))
  execute env searchId

/-- `AsyncSearchRequest`. -/
structure AsyncSearchRequest where
  query : Option String
  location : Option String
  remoteType : Option RemoteType
  jobType : Option String
  experienceMin : Option Nat
  experienceMax : Option Nat
  limit : Nat
deriving DecidableEq, Repr

/-- The new row of a search; the database sets its id. -/
def newSearch (userId : UUID) (request : AsyncSearchRequest) : JobSearch where
  id := 0
  userId := userId
  status := .queued
  query := request.query
  location := request.location
  remoteType := request.remoteType
  jobType := request.jobType
  experienceMin := request.experienceMin
  experienceMax := request.experienceMax
  requestedLimit := request.limit
  currentStage := "queued"

/-- The failure branch of {lit}`startSearch`. -/
def failQueue (search : JobSearch) : Action Job Unit := do
  attempt (.logException "job_search_enqueue_failed" search.id)
  commit { search with
    status := .failed
    currentStage := "queue_failed"
    errorMessage := some "Failed to enqueue search task." }
  throw (.infrastructure "SEARCH_QUEUE_UNAVAILABLE"
    "The search could not be queued. Please try again later.")

/-- The `try` block of {lit}`startSearch`. -/
def enqueue (searchId : UUID) : Action Job Unit := do
  attempt (.enqueueJob searchId)
  attempt (.logInfo "job_search_enqueued" searchId)

/-- `SearchService.start_search`. -/
def startSearch (userId : UUID) (request : AsyncSearchRequest) : Action Job JobSearch := do
  let search ← attempt (.createSearch (newSearch userId request))
  commit search
  tryCatch (enqueue search.id) fun _ => failQueue search
  return search

/-! ## The machine -/

/-- The requests that calls serve. -/
inductive Request
  | startSearch (userId : UUID) (request : AsyncSearchRequest)
  | runJobSearch (searchId : UUID)
deriving DecidableEq, Repr

/-- The value that a call returns. -/
inductive Reply
  | search (search : JobSearch)
  | done
deriving DecidableEq, Repr

/-- What a call does for its request. -/
def serve : Request → Action Job Reply
  | .startSearch userId request => do
      let search ← startSearch userId request
      return .search search
  | .runJobSearch searchId => do
      runJobSearch env searchId
      return .done

/-- The machine of the search services. -/
def searchMachine : Machine World (Cmd Job) (Choice Job) Request (Attempt Reply) where
  program r := (serve env r).run
  exec := exec
  close i w := w.close i

end Search
end HireAndTech
