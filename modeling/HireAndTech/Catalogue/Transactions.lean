import HireAndTech.Catalogue.Machine
import HireAndTech.Catalogue.Rows
import HireAndTech.Interleaving.RelyGuarantee

/-!
# The catalogue services as transactions

{lit}`CanonicalJobIngestionService` and the deactivation of stale listings as programs over
the commands of the catalogue machine.  The programs follow the source statement by
statement, and every call is one transaction of its caller, which commits when the call
returns and rolls back when it raises.

An attribute that is assigned reaches its row with the next flush, which writes jobs before
observations.  A row that the call has loaded before is not queried again.

Main results:

- Definitions {lit}`ingest`, {lit}`touchSeen` and {lit}`deactivateStaleSources`: the
  operations.
- Definition {lit}`catalogueMachine`: the machine whose calls run them.
- Theorems {lit}`resolveCompany_quiet` and {lit}`companyOfResult_quiet`: parts of a call that
  leave the rows with {lit}`last_seen_at` alone.
-/

namespace HireAndTech
namespace Catalogue
namespace Concurrent

open Interleaving Prog

/-! ## Statements -/

/-- What a call of the services does. -/
abbrev Action (α : Type) := ExceptT CatalogueError (Prog Cmd) α

/-- Visit the rows of a bulk `UPDATE`; the answer is its row count. -/
def updateRows (update : UUID → Cmd (Attempt Nat)) : List UUID → Action Nat
  | [] => return 0
  | id :: ids => do
      let updated ← attempt (update id)
      let rest ← updateRows update ids
      return updated + rest

/-- A bulk `UPDATE jobs`. -/
def updateJobs (update : Snapshot → JobUpdate) : Action Nat := do
  let snapshot ← attempt .snapshot
  updateRows (fun id => .updateJob id (update snapshot))
    ((snapshot.tables.jobs.filter (update snapshot).applies).map (·.id))

/-- A bulk `UPDATE job_sources`. -/
def updateSources (update : Snapshot → SourceUpdate) : Action Nat := do
  let snapshot ← attempt .snapshot
  updateRows (fun id => .updateSource id (update snapshot))
    ((snapshot.tables.observations.filter (update snapshot).applies).map (·.id))

/-- The flush of a job whose attributes have been assigned. -/
def flushAssignedJob (loaded assigned : CanonicalJob) : Action Unit := do
  if assigned = loaded then return ()
  let updated ← attempt (.updateJob loaded.id (.flush loaded assigned))
  if updated = 1 then return () else throw .staleData

/-- The flush of an observation whose attributes have been assigned. -/
def flushAssignedSource (loaded assigned : JobSourceObservation) : Action Unit := do
  if assigned = loaded then return ()
  let updated ← attempt (.updateSource loaded.id (.flush loaded assigned))
  if updated = 1 then return () else throw .staleData

/-- `_resolve_company`. -/
def resolveCompany (job : NormalizedJob) : Action (Option Company) :=
  match job.company, job.normalizedCompany with
  | some name, some normalizedName => do
      match ← attempt (.insertCompany name normalizedName) with
      | some company => return some company
      | none =>
          match ← attempt (.selectCompany normalizedName) with
          | some company => return some company
          | none => throw (.runtime "company conflict did not resolve to an existing row")
  | _, _ => return none

/-! ## Ingestion -/

variable (rt : Runtime)

/-- `refresh_source`; the answer is the canonical job and the observation as assigned. -/
def refreshSource (source : JobSourceObservation) (job : NormalizedJob) (company : Option Company)
    (observedAt : Time) (contentChanged : Bool) : Action (CanonicalJob × JobSourceObservation) := do
  match ← attempt (.getJob source.jobId) with
  | none => throw (.runtime "source observation references a missing canonical job")
  | some canonical =>
      let canonical' := refreshedJob rt canonical job company observedAt
      let source' := refreshedSource source job observedAt contentChanged
      flushAssignedJob canonical canonical'
      flushAssignedSource source source'
      return (canonical', source')

/-- The company of a result. -/
def companyOfResult (company : Option Company) (canonical : CanonicalJob) :
    Action (Option Company) :=
  match company, canonical.companyId with
  | none, some id => attempt (.getCompany id)
  | company, _ => return company

/-- The branch of {lit}`ingest` for a listing that has been seen before. -/
def reobserve (existing : JobSourceObservation) (job : NormalizedJob) (observedAt : Time) :
    Action IngestionResult := do
  let contentChanged := existing.contentHash ≠ job.contentHash
  let company ← resolveCompany job
  let (canonical, source) ← refreshSource rt existing job company observedAt contentChanged
  let company ← companyOfResult company canonical
  return ⟨company, canonical, source, if contentChanged then .updated else .reobserved⟩

/-- The canonical job that a new listing may reuse. -/
def selectCanonical (job : NormalizedJob) (company : Option Company) :
    Action (Option CanonicalJob) := do
  let canonical ← attempt (.findJobBySourceUrl job.source job.jobUrl)
  if (evaluateSameSourceUrl canonical).shouldMerge then return canonical
  match company with
  | none => return none
  | some company =>
      let candidates ← attempt (.findDedupCandidates company.id job.normalizedTitle)
      return candidates.find? fun candidate =>
        (evaluateCrossSourceCandidate rt candidate job).shouldMerge

/-- `create_job`, or `mark_canonical_seen` and the flush that sends it. -/
def createOrReuse (job : NormalizedJob) (company : Option Company) (observedAt : Time) :
    Action CanonicalJob := do
  match ← selectCanonical rt job company with
  | none => attempt (.insertJob fun id => createdJob rt id job company observedAt)
  | some canonical =>
      let canonical' := markCanonicalSeen canonical observedAt
      flushAssignedJob canonical canonical'
      return canonical'

/-- The branch of {lit}`ingest` for a new listing. -/
def observeNew (job : NormalizedJob) (observedAt : Time) : Action IngestionResult := do
  let company ← resolveCompany job
  let canonical ← createOrReuse rt job company observedAt
  let source ← attempt (.insertSource fun id => createdSource id job canonical observedAt)
  return ⟨company, canonical, source, .created⟩

/-- `CanonicalJobIngestionService.ingest`. -/
def ingest (job : NormalizedJob) : Action IngestionResult := do
  let observedAt ← ExceptT.lift (perform .clock)
  attempt (.lockSourceIdentity job.source job.externalJobId)
  match ← attempt (.getSource job.source job.externalJobId) with
  | some existing => reobserve rt existing job observedAt
  | none => observeNew rt job observedAt

/-! ## Search results and deactivation -/

/-- `touch_sources_seen`. -/
def touchSourcesSeen (source : String) (sourceJobIds : List String) (observedAt : Time) :
    Action Nat := do
  if sourceJobIds.isEmpty then return 0
  let _ ← updateJobs fun snapshot => .seen snapshot source sourceJobIds observedAt
  updateSources fun _ => .seen source sourceJobIds observedAt

/-- `CanonicalJobIngestionService.touch_seen`. -/
def touchSeen (source : String) (sourceJobIds : List String) : Action Nat := do
  let observedAt ← ExceptT.lift (perform .clock)
  touchSourcesSeen source sourceJobIds.eraseDups observedAt

/-- The statements of {lit}`deactivateStaleSources` for a healthy source. -/
def deactivateStale (source : String) (staleThreshold : Time) : Action Nat := do
  let deactivatedCount ← updateSources fun snapshot => .deactivate snapshot source staleThreshold
  if 0 < deactivatedCount then
    let _ ← updateJobs fun snapshot => .deactivate snapshot
    return deactivatedCount
  else return deactivatedCount

/-- `deactivate_stale_sources`. -/
def deactivateStaleSources (source : String) (staleThreshold safetyWindowStart : Time) :
    Action Nat := do
  match ← attempt (.maxLastSeen source) with
  | none => return 0
  | some healthCheck =>
      if healthCheck < safetyWindowStart then return 0
      else deactivateStale source staleThreshold

/-! ## The machine -/

/-- The requests that calls serve. -/
inductive Request
  | ingest (job : NormalizedJob)
  | touchSeen (source : String) (sourceJobIds : List String)
  | deactivateStaleSources (source : String) (staleThreshold safetyWindowStart : Time)
deriving DecidableEq, Repr

/-- The value that a call returns. -/
inductive Reply
  | ingested (result : IngestionResult)
  | counted (n : Nat)
deriving DecidableEq, Repr

/-- What a call does for its request. -/
def serve : Request → Action Reply
  | .ingest job => do
      let result ← ingest rt job
      return .ingested result
  | .touchSeen source sourceJobIds => do
      let n ← touchSeen source sourceJobIds
      return .counted n
  | .deactivateStaleSources source staleThreshold safetyWindowStart => do
      let n ← deactivateStaleSources source staleThreshold safetyWindowStart
      return .counted n

/-- The call as one transaction of its caller. -/
def transaction (r : Request) : Action Reply := do
  let reply ← serve rt r
  attempt .commit
  return reply

/-- The machine of the catalogue services. -/
def catalogueMachine : Machine World Cmd Choice Request (Attempt Reply) where
  program r := (transaction rt r).run
  exec := exec rt
  close := World.close

/-! ## The queries for a company -/

theorem resolveCompany_quiet (job : NormalizedJob) :
    (resolveCompany job).run.Always fun c => c.isQuiet = true := by
  unfold resolveCompany
  split
  · apply Always.except_bind (always_attempt rfl)
    intro inserted
    cases inserted with
    | some company => trivial
    | none =>
        apply Always.except_bind (always_attempt rfl)
        intro selected
        cases selected <;> trivial
  · trivial

theorem companyOfResult_quiet (company : Option Company) (canonical : CanonicalJob) :
    (companyOfResult company canonical).run.Always fun c => c.isQuiet = true := by
  unfold companyOfResult
  split
  · exact always_attempt rfl
  · trivial

/-! ## A sample catalogue -/

/-- The employer of {lit}`austinListing`. -/
def acme : Company :=
  ⟨3, "Acme", "acme"⟩

/-- The row of {lit}`austinListing` in {lit}`jobs`. -/
def austinJob (seenAt : Time) : CanonicalJob :=
  createdJob sampleRuntime 1 austinListing (some acme) seenAt

/-- The row of {lit}`austinListing` in {lit}`job_sources`. -/
def austinSource (seenAt : Time) : JobSourceObservation :=
  createdSource 2 austinListing (austinJob seenAt) seenAt

/-- A catalogue with one listing. -/
def austinCatalogue (seenAt : Time) : StoredDatabase where
  companies := [acme]
  jobs := [austinJob seenAt]
  observations := [austinSource seenAt]
  jobIds := List.nodup_singleton _
  companyIds := List.nodup_singleton _
  observationIds := List.nodup_singleton _

end Concurrent
end Catalogue
end HireAndTech
