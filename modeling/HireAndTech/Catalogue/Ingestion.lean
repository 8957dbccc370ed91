import HireAndTech.Catalogue.Tables

/-!
# Catalogue ingestion

The queries and statements of `CanonicalJobRepository`, the deduplication
decisions, and the operations of `CanonicalJobIngestionService`, each as one
serially committed transaction.  An operation is {lean}`none` when one of its
statements raises, which rolls its transaction back.

A query with `LIMIT 1` and no order may return any of its rows; an operation
carries a number that picks one.

Main results:

- Definition {lit}`evaluateCrossSourceCandidate`: the decision about one candidate.
- Definitions {lit}`ingest`, {lit}`touchSeen` and {lit}`deactivateStaleSources`: the
  operations.
- Definition {lit}`run`: a sequence of operations.
-/

namespace HireAndTech
namespace Catalogue

open Relational

/-! ## Deduplication -/

/-- Explain whether an observed listing may reuse a canonical job.  The confidence is
counted in tenths, of which every decision takes a whole number. -/
structure DedupDecision where
  canonicalJobId : Option UUID
  confidence : Nat
  method : String
  evidence : List String
  shouldMerge : Bool
deriving DecidableEq, Repr

/-- `evaluate_same_source_url`. -/
def evaluateSameSourceUrl (candidate : Option CanonicalJob) : DedupDecision :=
  match candidate with
  | none => ⟨none, 0, "no_candidate", [], false⟩
  | some candidate =>
      ⟨some candidate.id, 10, "same_source_url", ["source", "normalized_source_url"], true⟩

/-- What one signal adds to the confidence and to the evidence. -/
abbrev Signal := Nat × List String

/-- Title similarity. -/
def titleSignal (candidate : CanonicalJob) (incoming : NormalizedJob) : Signal :=
  if candidate.normalizedTitle = incoming.normalizedTitle then (4, ["exact_normalized_title"])
  else (0, [])

/-- Location compatibility; {lean}`none` when both are known and differ. -/
def locationSignal (candidate : CanonicalJob) (incoming : NormalizedJob) : Option Signal :=
  if truthy candidate.normalizedLocation && truthy incoming.normalizedLocation then
    if candidate.normalizedLocation = incoming.normalizedLocation then
      some (2, ["exact_normalized_location"])
    else none
  else if !truthy candidate.normalizedLocation && !truthy incoming.normalizedLocation then
    some (0, ["both_no_location"])
  else some (0, ["partial_location"])

/-- Employment type; {lean}`none` when both are known and differ. -/
def employmentSignal (candidate : CanonicalJob) (incoming : NormalizedJob) : Option Signal :=
  if truthy candidate.employmentType && truthy incoming.employmentType then
    if candidate.employmentType = incoming.employmentType then some (1, ["exact_employment_type"])
    else none
  else some (0, [])

/-- Description similarity. -/
def descriptionSignal (rt : Runtime) (candidate : CanonicalJob) (incoming : NormalizedJob) :
    Signal :=
  if truthy candidate.description && truthy incoming.description then
    let desc1 := (rt.casefold (candidate.description.getD "")).toList
    let desc2 := (rt.casefold (incoming.description.getD "")).toList
    if desc1 = desc2 then (5, ["exact_description"])
    else if 100 < desc1.length && 100 < desc2.length then
      if desc1 <:+: desc2 ∨ desc2 <:+: desc1 then (3, ["subset_description"]) else (0, [])
    else (0, [])
  else (0, [])

/-- Three days. -/
def closePeriod : Time :=
  3 * 86400 * 1000000

/-- Proximity of the posted dates. -/
def postedSignal (candidate : CanonicalJob) (incoming : NormalizedJob) : Signal :=
  match candidate.postedAt, incoming.postedAt with
  | some t, some t' =>
      if t - t' ≤ closePeriod ∧ t' - t ≤ closePeriod then (1, ["close_posted_date"]) else (0, [])
  | _, _ => (0, [])

/-- The signals of a candidate that is compatible with the incoming listing. -/
def compatibleSignals (rt : Runtime) (candidate : CanonicalJob) (incoming : NormalizedJob)
    (location employment : Signal) : List Signal :=
  [titleSignal candidate incoming, location, employment, descriptionSignal rt candidate incoming,
    postedSignal candidate incoming]

/-- `evaluate_cross_source_candidate`. -/
def evaluateCrossSourceCandidate (rt : Runtime) (candidate : CanonicalJob)
    (incoming : NormalizedJob) : DedupDecision :=
  let reject (method : String) (evidence : List String) : DedupDecision :=
    ⟨some candidate.id, 0, method, evidence, false⟩
  if !candidate.isActive then reject "candidate_inactive" []
  else if candidate.companyId.isSome && !truthy incoming.normalizedCompany then
    reject "missing_incoming_company" []
  else
    let title := titleSignal candidate incoming
    match locationSignal candidate incoming with
    | none => reject "location_mismatch" title.2
    | some location =>
      match employmentSignal candidate incoming with
      | none => reject "employment_type_mismatch" (title.2 ++ location.2)
      | some employment =>
        let signals := compatibleSignals rt candidate incoming location employment
        let confidence := (signals.map (·.1)).sum
        let evidence := signals.flatMap (·.2)
        if 7 ≤ confidence && "exact_normalized_title" ∈ evidence then
          ⟨some candidate.id, confidence, "composite_high_confidence", evidence, true⟩
        else ⟨some candidate.id, confidence, "insufficient_evidence", evidence, false⟩

/-! ## Queries -/

namespace Database

variable (c : Database)

/-- `get_source`. -/
def getSource (source sourceJobId : String) : Option JobSourceObservation :=
  c.observations.find? fun o => o.source = source && o.sourceJobId = sourceJobId

/-- `session.get(CanonicalJob, …)`. -/
def getJob (id : UUID) : Option CanonicalJob :=
  c.jobs.find? fun j => j.id = id

/-- The canonical jobs of the observations of a source with the URL. -/
def jobsBySourceUrl (source url : String) : List CanonicalJob :=
  (c.observations.filter fun o => o.source = source && o.sourceUrl = some url).filterMap
    fun o => c.getJob o.jobId

/-- `find_job_by_source_url`; {lit}`pick` says which row the query returns. -/
def findJobBySourceUrl (source : String) (sourceUrl : Option String) (pick : Nat) :
    Option CanonicalJob :=
  match sourceUrl with
  | none => none
  | some url =>
      let hits := c.jobsBySourceUrl source url
      hits[pick % hits.length]?

/-- `ORDER BY posted_at DESC NULLS LAST, id`. -/
def latestPostedFirst (a b : CanonicalJob) : Prop :=
  match a.postedAt, b.postedAt with
  | some t, some t' => t' < t ∨ (t = t' ∧ a.id ≤ b.id)
  | some _, none => True
  | none, some _ => False
  | none, none => a.id ≤ b.id

instance : DecidableRel latestPostedFirst := fun a b => by
  unfold latestPostedFirst
  split <;> infer_instance

/-- `find_dedup_candidates`. -/
def findDedupCandidates (companyId : UUID) (normalizedTitle : String) : List CanonicalJob :=
  ((c.jobs.filter fun j => j.companyId = some companyId && j.isActive &&
    j.normalizedTitle = normalizedTitle).insertionSort latestPostedFirst).take 10

/-! ## Statements -/

/-- `INSERT INTO jobs`. -/
def insertJob (job : CanonicalJob) : Option Database :=
  if job.checks && c.jobs.all (·.id ≠ job.id) then some { c with jobs := c.jobs ++ [job] }
  else none

/-- `UPDATE jobs` of one instance. -/
def updateJob (job : CanonicalJob) : Option Database :=
  if job.checks then some { c with jobs := put (·.id) job c.jobs } else none

/-- `INSERT INTO job_sources`. -/
def insertSource (source : JobSourceObservation) : Option Database :=
  if c.observations.all (fun o => o.id ≠ source.id && o.identity ≠ source.identity) &&
      c.jobs.any (·.id = source.jobId) then
    some { c with observations := c.observations ++ [source] }
  else none

/-- `UPDATE job_sources` of one instance. -/
def updateSource (source : JobSourceObservation) : Database :=
  { c with observations := put (·.id) source c.observations }

/-- `_resolve_company`. -/
def resolveCompany (job : NormalizedJob) (newId : UUID) : Option (Database × Option Company) :=
  match job.company, job.normalizedCompany with
  | some name, some normalizedName =>
      match c.companies.find? (·.normalizedName = normalizedName) with
      | some company => some (c, some company)
      | none =>
          if c.companies.all (·.id ≠ newId) then
            let company := ⟨newId, name, normalizedName⟩
            some ({ c with companies := c.companies ++ [company] }, some company)
          else none
  | _, _ => some (c, none)

/-- `refresh_source`. -/
def refreshSource (rt : Runtime) (source : JobSourceObservation) (job : NormalizedJob)
    (company : Option Company) (observedAt : Time) (contentChanged : Bool) : Option Database := do
  let canonical ← c.getJob source.jobId
  let c ← c.updateJob (refreshedJob rt canonical job company observedAt)
  return c.updateSource (refreshedSource source job observedAt contentChanged)

end Database

/-! ## Operations -/

/-- The mutation outcome for one source listing. -/
inductive IngestionAction
  | created
  | reobserved
  | updated
deriving DecidableEq, Repr

/-- Canonical identities and mutation outcome for one source listing. -/
structure IngestionResult where
  company : Option Company
  job : CanonicalJob
  source : JobSourceObservation
  action : IngestionAction
deriving DecidableEq, Repr

/-- What the database chooses for one call of {lit}`ingest`: the ids of new rows and the
row of the unordered query. -/
structure IngestChoice where
  companyId : UUID
  jobId : UUID
  sourceId : UUID
  pick : Nat
deriving DecidableEq, Repr

/-- The canonical job that a new listing may reuse. -/
def selectCanonical (rt : Runtime) (c : Database) (job : NormalizedJob)
    (company : Option Company) (pick : Nat) : Option CanonicalJob :=
  let canonical := c.findJobBySourceUrl job.source job.jobUrl pick
  if (evaluateSameSourceUrl canonical).shouldMerge then canonical
  else match company with
    | none => none
    | some company =>
        (c.findDedupCandidates company.id job.normalizedTitle).find? fun candidate =>
          (evaluateCrossSourceCandidate rt candidate job).shouldMerge

/-- The branch of {lit}`ingest` for a listing that has been seen before. -/
def reobserve (rt : Runtime) (c : Database) (existing : JobSourceObservation)
    (job : NormalizedJob) (observedAt : Time) (choice : IngestChoice) :
    Option (Database × IngestionResult) := do
  let contentChanged := existing.contentHash ≠ job.contentHash
  let (c, company) ← c.resolveCompany job choice.companyId
  let c ← c.refreshSource rt existing job company observedAt contentChanged
  let canonical ← c.getJob existing.jobId
  let company := company <|>
    canonical.companyId.bind fun id => c.companies.find? (·.id = id)
  let source := refreshedSource existing job observedAt contentChanged
  return (c, ⟨company, canonical, source, if contentChanged then .updated else .reobserved⟩)

/-- Create the canonical job of a new listing, or mark the one that it reuses as seen. -/
def createOrReuse (rt : Runtime) (c : Database) (job : NormalizedJob) (company : Option Company)
    (observedAt : Time) (choice : IngestChoice) : Option (Database × CanonicalJob) :=
  match selectCanonical rt c job company choice.pick with
  | none =>
      let canonical := createdJob rt choice.jobId job company observedAt
      (c.insertJob canonical).map fun c => (c, canonical)
  | some candidate =>
      let canonical := markCanonicalSeen candidate observedAt
      (c.updateJob canonical).map fun c => (c, canonical)

/-- The branch of {lit}`ingest` for a new listing. -/
def observeNew (rt : Runtime) (c : Database) (job : NormalizedJob) (observedAt : Time)
    (choice : IngestChoice) : Option (Database × IngestionResult) := do
  let (c, company) ← c.resolveCompany job choice.companyId
  let (c, canonical) ← createOrReuse rt c job company observedAt choice
  let source := createdSource choice.sourceId job canonical observedAt
  let c ← c.insertSource source
  return (c, ⟨company, canonical, source, .created⟩)

/-- `CanonicalJobIngestionService.ingest`. -/
def ingest (rt : Runtime) (c : Database) (job : NormalizedJob) (observedAt : Time)
    (choice : IngestChoice) : Option (Database × IngestionResult) :=
  match c.getSource job.source job.externalJobId with
  | some existing => reobserve rt c existing job observedAt choice
  | none => observeNew rt c job observedAt choice

/-- The observations that a search result names. -/
def isListed (source : String) (sourceJobIds : List String) (o : JobSourceObservation) : Bool :=
  o.source = source && o.sourceJobId ∈ sourceJobIds

/-- `touch_sources_seen`. -/
def touchSourcesSeen (c : Database) (source : String) (sourceJobIds : List String)
    (observedAt : Time) : Database × Nat :=
  if sourceJobIds.isEmpty then (c, 0)
  else
    let listed := c.observations.filter (isListed source sourceJobIds)
    let jobIds := listed.map (·.jobId)
    ({ c with
        jobs := updateWhere (·.id ∈ jobIds) (markCanonicalSeen · observedAt) c.jobs
        observations := updateWhere (isListed source sourceJobIds)
          (fun o => { o with lastSeenAt := observedAt, isActive := true }) c.observations },
      listed.length)

/-- `CanonicalJobIngestionService.touch_seen`. -/
def touchSeen (c : Database) (source : String) (sourceJobIds : List String)
    (observedAt : Time) : Database × Nat :=
  touchSourcesSeen c source sourceJobIds.eraseDups observedAt

/-- `max(last_seen_at)` of a source. -/
def maxLastSeen (c : Database) (source : String) : Option Time :=
  ((c.observations.filter (·.source = source)).map (·.lastSeenAt)).max?

/-- An active observation of the source that has not been seen since the threshold. -/
def isStale (source : String) (staleThreshold : Time) (o : JobSourceObservation) : Bool :=
  o.source = source && o.isActive && o.lastSeenAt < staleThreshold

/-- The job has an active observation. -/
def hasActiveSource (observations : List JobSourceObservation) (j : CanonicalJob) : Bool :=
  observations.any fun o => o.jobId = j.id && o.isActive

/-- `deactivate_stale_sources`. -/
def deactivateStaleSources (c : Database) (source : String)
    (staleThreshold safetyWindowStart : Time) : Database × Nat :=
  match maxLastSeen c source with
  | none => (c, 0)
  | some healthCheck =>
      if healthCheck < safetyWindowStart then (c, 0)
      else
        let deactivatedCount := (c.observations.filter (isStale source staleThreshold)).length
        let observations := updateWhere (isStale source staleThreshold)
          (fun o => { o with isActive := false }) c.observations
        if 0 < deactivatedCount then
          ({ c with
              observations := observations
              jobs := updateWhere (fun j => j.isActive && !hasActiveSource observations j)
                (fun j => { j with isActive := false }) c.jobs },
            deactivatedCount)
        else ({ c with observations := observations }, deactivatedCount)

/-! ## Runs -/

/-- One call of the catalogue services. -/
inductive Op
  | ingest (job : NormalizedJob) (observedAt : Time) (choice : IngestChoice)
  | touchSeen (source : String) (sourceJobIds : List String) (observedAt : Time)
  | deactivateStaleSources (source : String) (staleThreshold safetyWindowStart : Time)
deriving DecidableEq, Repr

/-- The catalogue that a call commits; {lean}`none` when the call raises. -/
def step (rt : Runtime) (c : Database) : Op → Option Database
  | .ingest job observedAt choice => (ingest rt c job observedAt choice).map (·.1)
  | .touchSeen source sourceJobIds observedAt =>
      some (touchSeen c source sourceJobIds observedAt).1
  | .deactivateStaleSources source staleThreshold safetyWindowStart =>
      some (deactivateStaleSources c source staleThreshold safetyWindowStart).1

/-- The catalogue after a sequence of calls, of which those that raise change nothing. -/
def run (rt : Runtime) (c : Database) (ops : List Op) : Database :=
  ops.foldl (fun c op => (step rt c op).getD c) c

/-- The catalogue without rows. -/
def empty : Database :=
  ⟨[], [], []⟩

end Catalogue
end HireAndTech
