import HireAndTech.Collection.Coordinator
import HireAndTech.Collection.Targets
import HireAndTech.Interleaving.RelyGuarantee
import HireAndTech.Queue.Locks

/-!
# Collection tasks

`run_job_collection` validates its target, takes the lock of the target's identity, runs the
collector inside a database session and releases the lock.  Any number of workers run it at
once; a run may be cut off between two of its commands.

Before a command takes effect any amount of time may pass, and release scripts that have been
sent before may run.  A cancellation arrives as an exception of the command that is awaited.

Main results:

- Definition {lit}`runJobCollection`: the task.
- Definition {lit}`taskMachine`: its interleavings.
-/

namespace HireAndTech
namespace Queue

open Interleaving Prog
open Catalogue (JobSource Runtime)
open Collection (CollectionSettings CollectionTarget CoordinatorResult)

/-! ## The world -/

/-- What leaves a task or one of its commands as an exception. -/
inductive Raised
  | temporaryCollection (retryAfterSeconds : Int)
  | permanentCollection
  | retry (defer : Int)
  | other
  | cancelled
deriving DecidableEq, Repr

/-- The world of all workers: the locks, and of each run the time at which it has started, the
lease that it has acquired, and the target whose collector it is inside.  The releases that
have been attempted are history. -/
structure World where
  redis : Redis
  started : List (CallId × Time)
  held : CallId → Option RedisCollectionLease
  inside : List (CallId × CollectionTarget)
  attempts : List String

namespace World

/-- The world before the first run. -/
def initial : World :=
  ⟨.initial, [], fun _ => none, [], []⟩

/-- A script that has been sent runs. -/
def deliver (w : World) (lease : RedisCollectionLease) : World :=
  if lease ∈ w.redis.sent then { w with redis := (w.redis.runScript lease).1 } else w

/-- Time passes, and scripts run late. -/
def pass (w : World) (elapsed : Time) (late : List RedisCollectionLease) : World :=
  late.foldl deliver { w with redis := w.redis.wait elapsed }

/-- Run {lit}`i` starts. -/
def start (w : World) (i : CallId) : World :=
  { w with started := (i, w.redis.now) :: w.started }

/-- Run {lit}`i` knows what became of its acquisition. -/
def hold (w : World) (i : CallId) (redis : Redis) (lease : Option RedisCollectionLease) : World :=
  { w with
    redis := redis
    held := Function.update w.held i lease }

/-- Run {lit}`i` enters the collector. -/
def enter (w : World) (i : CallId) (target : CollectionTarget) : World :=
  { w with inside := (i, target) :: w.inside }

/-- Run {lit}`i` leaves the collector. -/
def leave (w : World) (i : CallId) : World :=
  { w with inside := w.inside.filter (·.1 ≠ i) }

/-- A run attempts the release of its lease. -/
def release (w : World) (lease : RedisCollectionLease) (delivery : Delivery) : World :=
  { w with
    redis := (Queue.release lease delivery w.redis).1
    attempts := lease.token :: w.attempts }

/-- Run {lit}`i` is over. -/
def close (i : CallId) (w : World) : World :=
  { w with
    started := w.started.filter (·.1 ≠ i)
    inside := w.inside.filter (·.1 ≠ i) }

end World

/-! ## Commands -/

/-- The commands of a task. -/
inductive Cmd : Type → Type
  | start : Cmd Time
  | clock : Cmd Time
  | acquire (key : String) : Cmd (Except Raised (Option RedisCollectionLease))
  | begin : Cmd (Except Raised Unit)
  | startCollector (target : CollectionTarget) : Cmd Unit
  | finishCollector : Cmd (Except Raised CoordinatorResult)
  | commit : Cmd (Except Raised Unit)
  | rollback : Cmd (Except Raised Unit)
  | release (lease : RedisCollectionLease) : Cmd (Except Raised Bool)

/-- The answers that the environment chooses.  An acquisition whose answer is lost may have set
the key. -/
inductive Outcome
  | quiet
  | raises (e : Raised)
  | token (token : String)
  | tokenLost (token : String) (e : Raised)
  | collected (result : CoordinatorResult)
  | delivery (delivery : Delivery) (e : Raised)

/-- The time that passes and the scripts that run before a command takes effect, and how it
ends. -/
structure Choice where
  elapsed : Time := 0
  late : List RedisCollectionLease := []
  outcome : Outcome := .quiet

variable (manager : RedisCollectionLockManager)

/-- The effect of a command of run {lit}`i`; {lean}`none` when the outcome does not answer it. -/
def act {β : Type} (i : CallId) (cmd : Cmd β) (outcome : Outcome) (w : World) :
    Option (β × World) :=
  match cmd, outcome with
  | .start, .quiet => some (w.redis.now, w.start i)
  | .clock, .quiet => some (w.redis.now, w)
  | .acquire key, .token token =>
      (manager.acquire key token w.redis).map fun (redis, lease) =>
        (.ok lease, w.hold i redis lease)
  | .acquire key, .tokenLost token e =>
      (manager.acquire key token w.redis).map fun (redis, _) =>
        (.error e, { w with redis := redis })
  | .acquire _, .raises e => some (.error e, w)
  | .begin, .quiet | .commit, .quiet | .rollback, .quiet => some (.ok (), w)
  | .begin, .raises e | .commit, .raises e | .rollback, .raises e => some (.error e, w)
  | .startCollector target, .quiet => some ((), w.enter i target)
  | .finishCollector, .collected result => some (.ok result, w.leave i)
  | .finishCollector, .raises e => some (.error e, w.leave i)
  | .release lease, .delivery delivery e =>
      match (release lease delivery w.redis).2 with
      | some released => some (.ok released, w.release lease delivery)
      | none => some (.error e, w.release lease delivery)
  | _, _ => none

/-- The effect of a command under one choice of the environment. -/
def exec {β : Type} (i : CallId) (cmd : Cmd β) (choice : Choice) (w : World) :
    Option (β × World) :=
  act manager i cmd choice.outcome (w.pass choice.elapsed choice.late)

/-! ## What each command can do -/

section

variable {manager} {i : CallId} {w w' : World} {choice : Choice}

/-- The commands that leave the runs as they are. -/
def Cmd.isQuiet {β : Type} : Cmd β → Bool
  | .clock | .begin | .commit | .rollback => true
  | _ => false

theorem exec_quiet {β : Type} {cmd : Cmd β} {b : β} (hquiet : cmd.isQuiet = true)
    (hexec : exec manager i cmd choice w = some (b, w')) :
    w' = w.pass choice.elapsed choice.late := by
  obtain ⟨elapsed, late, outcome⟩ := choice
  cases cmd <;> first | contradiction | skip
  all_goals cases outcome <;> cases hexec <;> rfl

theorem exec_start {b : Time} (hexec : exec manager i .start choice w = some (b, w')) :
    b = (w.pass choice.elapsed choice.late).redis.now ∧
      w' = (w.pass choice.elapsed choice.late).start i := by
  obtain ⟨elapsed, late, outcome⟩ := choice
  cases outcome <;> cases hexec
  exact ⟨rfl, rfl⟩

theorem exec_acquire {key : String} {b : Except Raised (Option RedisCollectionLease)}
    (hexec : exec manager i (.acquire key) choice w = some (b, w')) :
    (∃ e, b = .error e ∧ w' = w.pass choice.elapsed choice.late) ∨
    (∃ token redis lease,
      manager.acquire key token (w.pass choice.elapsed choice.late).redis = some (redis, lease) ∧
      ((∃ e, b = .error e ∧ w' = { w.pass choice.elapsed choice.late with redis := redis }) ∨
        b = .ok lease ∧ w' = (w.pass choice.elapsed choice.late).hold i redis lease)) := by
  obtain ⟨elapsed, late, outcome⟩ := choice
  cases outcome with
  | token token =>
      obtain ⟨⟨redis, lease⟩, hacquire, heq⟩ := Option.map_eq_some_iff.mp hexec
      cases heq
      exact Or.inr ⟨token, redis, lease, hacquire, Or.inr ⟨rfl, rfl⟩⟩
  | tokenLost token e =>
      obtain ⟨⟨redis, lease⟩, hacquire, heq⟩ := Option.map_eq_some_iff.mp hexec
      cases heq
      exact Or.inr ⟨token, redis, lease, hacquire, Or.inl ⟨e, rfl, rfl⟩⟩
  | raises e =>
      cases hexec
      exact Or.inl ⟨e, rfl, rfl⟩
  | _ => contradiction

theorem exec_startCollector {target : CollectionTarget} {b : Unit}
    (hexec : exec manager i (.startCollector target) choice w = some (b, w')) :
    w' = (w.pass choice.elapsed choice.late).enter i target := by
  obtain ⟨elapsed, late, outcome⟩ := choice
  cases outcome <;> cases hexec
  rfl

theorem exec_finishCollector {b : Except Raised CoordinatorResult}
    (hexec : exec manager i .finishCollector choice w = some (b, w')) :
    w' = (w.pass choice.elapsed choice.late).leave i := by
  obtain ⟨elapsed, late, outcome⟩ := choice
  cases outcome <;> cases hexec <;> rfl

theorem exec_release {lease : RedisCollectionLease} {b : Except Raised Bool}
    (hexec : exec manager i (.release lease) choice w = some (b, w')) :
    ∃ delivery, w' = (w.pass choice.elapsed choice.late).release lease delivery := by
  obtain ⟨elapsed, late, outcome⟩ := choice
  cases outcome with
  | delivery delivery e =>
      simp only [exec, act] at hexec
      split at hexec <;> cases hexec <;> exact ⟨delivery, rfl⟩
  | _ => contradiction

end

/-! ## The task -/

/-- `CollectionStatus`. -/
inductive CollectionStatus
  | success
  | partialSuccess
  | failed
  | skippedLocked
  | sourceUnavailable
deriving DecidableEq, Repr

/-- What a task returns; the duration is in microseconds. -/
structure TaskResult where
  source : String
  query : String
  location : Option String
  startedAt : Time
  finishedAt : Time
  duration : Int
  jobsDiscovered : Nat := 0
  jobsNormalized : Nat := 0
  jobsInserted : Nat := 0
  jobsUpdated : Nat := 0
  jobsSkipped : Nat := 0
  jobsFailed : Nat := 0
  canonicalJobsFailed : Nat := 0
  lockAcquired : Bool
  status : CollectionStatus
deriving DecidableEq, Repr

/-- The arguments of a task. -/
structure Request where
  source : String
  query : String
  location : Option String
  maxJobs : Int
deriving DecidableEq, Repr

/-- What a task does. -/
abbrev Action (α : Type) := ExceptT Raised (Prog Cmd) α

/-- `datetime.now(UTC)`. -/
def clock : Action Time :=
  ExceptT.lift (perform .clock)

/-- `_result` of a run without an outcome of the coordinator. -/
def resultOf (target : CollectionTarget) (startedAt : Time) (status : CollectionStatus)
    (lockAcquired : Bool) : Action TaskResult := do
  let finishedAt ← clock
  return {
    source := target.source.value
    query := target.query
    location := target.location
    startedAt, finishedAt
    duration := finishedAt - startedAt
    lockAcquired, status }

/-- `_result` of a run that the coordinator has finished. -/
def collectedResult (target : CollectionTarget) (startedAt : Time) (outcome : CoordinatorResult) :
    TaskResult where
  source := target.source.value
  query := target.query
  location := target.location
  startedAt := startedAt
  finishedAt := outcome.finishedAt
  duration := outcome.finishedAt - startedAt
  jobsDiscovered := outcome.jobsDiscovered
  jobsNormalized := outcome.jobsNormalized
  jobsInserted := outcome.jobsInserted
  jobsUpdated := outcome.jobsUpdated
  jobsSkipped := outcome.jobsSkipped
  jobsFailed := outcome.jobsFailed
  canonicalJobsFailed := outcome.canonicalJobsFailed
  lockAcquired := true
  status :=
    if outcome.jobsFailed ≠ 0 ∨ outcome.canonicalJobsFailed ≠ 0 then .partialSuccess else .success

/-- The block inside `database.sessions()` and `session.begin()`. -/
def collect (target : CollectionTarget) : Action CoordinatorResult := do
  attempt .begin
  ExceptT.lift (perform (.startCollector target))
  let outcome ← tryCatch (attempt .finishCollector) fun e => do
    attempt .rollback
    throw e
  attempt .commit
  return outcome

/-- The `except` clauses of the task. -/
def handle (target : CollectionTarget) (startedAt : Time) : Raised → Action TaskResult
  | .temporaryCollection retryAfterSeconds => throw (.retry retryAfterSeconds)
  | .permanentCollection => resultOf target startedAt .failed true
  | .cancelled => throw .cancelled
  | e => do
      let _ ← resultOf target startedAt .failed true
      throw e

/-- The `finally` clause of the task: an exception of the release is logged, a cancellation
replaces the outcome. -/
def withRelease {α : Type} (lease : RedisCollectionLease) (body : Action α) : Action α :=
  ExceptT.mk do
    let outcome ← body.run
    match ← perform (.release lease) with
    | .error .cancelled => return .error .cancelled
    | _ => return outcome

/-- `JobSource(source)`. -/
def jobSource (source : String) : Option JobSource :=
  JobSource.all.find? (·.value = source)

/-- The target of a task; {lean}`none` when its validation fails. -/
def targetOf (request : Request) : Option CollectionTarget :=
  (jobSource request.source).bind fun source =>
    (CollectionTarget.validate source request.query request.location true
      request.maxJobs).toOption

variable (rt : Runtime) (registry : List JobSource)

/-- The part of the task that has a target. -/
def collectTarget (target : CollectionTarget) (startedAt : Time) : Action TaskResult := do
  if target.source ∉ registry then
    resultOf target startedAt .sourceUnavailable false
  else
    match ← attempt (.acquire (target.identity rt)) with
    | none => resultOf target startedAt .skippedLocked false
    | some lease =>
        withRelease lease <| tryCatch (do
          let outcome ← collect target
          return collectedResult target startedAt outcome) (handle target startedAt)

/-- `run_job_collection`. -/
def runJobCollection (request : Request) : Action TaskResult := do
  let startedAt ← ExceptT.lift (perform .start)
  match targetOf request with
  | some target => collectTarget rt registry target startedAt
  | none =>
      let finishedAt ← clock
      return {
        source := request.source
        query := request.query
        location := request.location
        startedAt, finishedAt
        duration := finishedAt - startedAt
        lockAcquired := false
        status := .failed }

/-- The interleavings of tasks whose workers share one lock manager. -/
def taskMachine : Machine World Cmd Choice Request (Except Raised TaskResult) where
  program request := (runJobCollection rt registry request).run
  exec := exec manager
  close := World.close

end Queue
end HireAndTech
