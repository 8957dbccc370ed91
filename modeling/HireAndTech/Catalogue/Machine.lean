import HireAndTech.Catalogue.Ingestion
import HireAndTech.Catalogue.Query
import HireAndTech.Interleaving.Program
import HireAndTech.Relational.Versions

/-!
# Commands of concurrent catalogue transactions

The shared world of the transactions that ingest a listing, touch listings that have been
seen, or deactivate stale ones: the three tables with the uncommitted versions of every
transaction, the advisory locks and the clock.  A command is one statement, or one row of
a bulk `UPDATE`.

Statements run at READ COMMITTED.  A query sees what has been committed before it, under
the versions of its own transaction.  A bulk `UPDATE` takes its snapshot when it begins;
it then visits the rows that its `WHERE` selects there, in any order, waits for each row
lock, and asks the `WHERE` again of the version that is committed by then, with the
sub-queries still answered by the snapshot.  A flush writes only the columns whose value
differs from the loaded one.  Sessions do not flush on their own, and one call loads every
row at most once.

Any amount of time may pass before a command takes effect, and it may raise.

The world also carries its history: the clock reading of every call, the rows that it has
loaded, the committed writes with the clock readings of their transactions, and the calls
that have committed.  No command depends on the history.

Main results:

- Definition {lit}`exec`: the effect of one command under one choice of the environment.
- Theorem {lit}`exec_effect`: what a command can do to the world.
- Theorems {lit}`exec_updateJob`, {lit}`exec_getSource`, {lit}`exec_snapshot` and the others
  like them: what a command does, with its answer.
-/

namespace HireAndTech
namespace Catalogue
namespace Concurrent

open Interleaving Relational

/-! ## Rows and their updates -/

/-- Catalogue tables with the primary keys that ingestion locks rows by. -/
structure StoredDatabase extends KeyedDatabase where
  observationIds : Unique (·.id) observations

/-- A row that carries `last_seen_at`. -/
inductive Row
  | job (id : UUID)
  | source (id : UUID)
deriving DecidableEq, Repr

/-- What one statement sees, and the calls that had committed when it began. -/
structure Snapshot where
  tables : Database
  commits : List CallId
deriving DecidableEq, Repr

/-- The `UPDATE jobs` of a flush: the attributes that the services assign. -/
def flushJob (loaded assigned stored : CanonicalJob) : CanonicalJob :=
  { stored with
    companyId := flushed loaded.companyId assigned.companyId stored.companyId
    title := flushed loaded.title assigned.title stored.title
    normalizedTitle :=
      flushed loaded.normalizedTitle assigned.normalizedTitle stored.normalizedTitle
    description := flushed loaded.description assigned.description stored.description
    location := flushed loaded.location assigned.location stored.location
    normalizedLocation :=
      flushed loaded.normalizedLocation assigned.normalizedLocation stored.normalizedLocation
    employmentType := flushed loaded.employmentType assigned.employmentType stored.employmentType
    remoteType := flushed loaded.remoteType assigned.remoteType stored.remoteType
    skills := flushed loaded.skills assigned.skills stored.skills
    experienceMinYears :=
      flushed loaded.experienceMinYears assigned.experienceMinYears stored.experienceMinYears
    experienceMaxYears :=
      flushed loaded.experienceMaxYears assigned.experienceMaxYears stored.experienceMaxYears
    experienceText := flushed loaded.experienceText assigned.experienceText stored.experienceText
    roleFamily := flushed loaded.roleFamily assigned.roleFamily stored.roleFamily
    salaryMin := flushed loaded.salaryMin assigned.salaryMin stored.salaryMin
    salaryMax := flushed loaded.salaryMax assigned.salaryMax stored.salaryMax
    salaryCurrency := flushed loaded.salaryCurrency assigned.salaryCurrency stored.salaryCurrency
    salaryText := flushed loaded.salaryText assigned.salaryText stored.salaryText
    salaryPeriod := flushed loaded.salaryPeriod assigned.salaryPeriod stored.salaryPeriod
    postedAt := flushed loaded.postedAt assigned.postedAt stored.postedAt
    sourceUpdatedAt :=
      flushed loaded.sourceUpdatedAt assigned.sourceUpdatedAt stored.sourceUpdatedAt
    lastSeenAt := flushed loaded.lastSeenAt assigned.lastSeenAt stored.lastSeenAt
    isActive := flushed loaded.isActive assigned.isActive stored.isActive
    canonicalHash := flushed loaded.canonicalHash assigned.canonicalHash stored.canonicalHash }

/-- The `UPDATE job_sources` of a flush. -/
def flushSource (loaded assigned stored : JobSourceObservation) : JobSourceObservation :=
  { stored with
    sourceUrl := flushed loaded.sourceUrl assigned.sourceUrl stored.sourceUrl
    sourcePostedAt := flushed loaded.sourcePostedAt assigned.sourcePostedAt stored.sourcePostedAt
    sourceUpdatedAt :=
      flushed loaded.sourceUpdatedAt assigned.sourceUpdatedAt stored.sourceUpdatedAt
    lastSeenAt := flushed loaded.lastSeenAt assigned.lastSeenAt stored.lastSeenAt
    scrapedAt := flushed loaded.scrapedAt assigned.scrapedAt stored.scrapedAt
    contentHash := flushed loaded.contentHash assigned.contentHash stored.contentHash
    isActive := flushed loaded.isActive assigned.isActive stored.isActive
    rawData := flushed loaded.rawData assigned.rawData stored.rawData }

/-- What an `UPDATE jobs` does to a row. -/
inductive JobUpdate
  | flush (loaded assigned : CanonicalJob)
  | seen (snapshot : Snapshot) (source : String) (sourceJobIds : List String) (observedAt : Time)
  | deactivate (snapshot : Snapshot)
deriving DecidableEq, Repr

/-- What an `UPDATE job_sources` does to a row. -/
inductive SourceUpdate
  | flush (loaded assigned : JobSourceObservation)
  | seen (source : String) (sourceJobIds : List String) (observedAt : Time)
  | deactivate (snapshot : Snapshot) (source : String) (staleThreshold : Time)
deriving DecidableEq, Repr

namespace JobUpdate

/-- The `WHERE` of the statement, next to the primary key for a flush. -/
def applies : JobUpdate → CanonicalJob → Bool
  | .flush _ _, _ => true
  | .seen snapshot source sourceJobIds _, j =>
      j.id ∈ (snapshot.tables.observations.filter (isListed source sourceJobIds)).map (·.jobId)
  | .deactivate snapshot, j => j.isActive && !hasActiveSource snapshot.tables.observations j

/-- The `SET` of the statement. -/
def apply : JobUpdate → CanonicalJob → CanonicalJob
  | .flush loaded assigned, j => flushJob loaded assigned j
  | .seen _ _ _ observedAt, j => markCanonicalSeen j observedAt
  | .deactivate _, j => { j with isActive := false }

/-- The value that the statement gives to `last_seen_at`, if it assigns the column. -/
def observedAt : JobUpdate → Option Time
  | .flush loaded assigned =>
      if assigned.lastSeenAt = loaded.lastSeenAt then none else some assigned.lastSeenAt
  | .seen _ _ _ observedAt => some observedAt
  | .deactivate _ => none

@[simp]
theorem apply_id (u : JobUpdate) (j : CanonicalJob) : (u.apply j).id = j.id := by
  cases u <;> rfl

/-- Only an assigned column changes. -/
theorem apply_lastSeenAt (u : JobUpdate) (j : CanonicalJob) :
    (u.apply j).lastSeenAt = u.observedAt.getD j.lastSeenAt := by
  cases u with
  | flush loaded assigned =>
      simp only [apply, observedAt, flushJob, flushed]
      split <;> rfl
  | seen _ _ _ _ => rfl
  | deactivate _ => rfl

end JobUpdate

namespace SourceUpdate

/-- The `WHERE` of the statement, next to the primary key for a flush. -/
def applies : SourceUpdate → JobSourceObservation → Bool
  | .flush _ _, _ => true
  | .seen source sourceJobIds _, o => isListed source sourceJobIds o
  | .deactivate _ source staleThreshold, o => isStale source staleThreshold o

/-- The `SET` of the statement. -/
def apply : SourceUpdate → JobSourceObservation → JobSourceObservation
  | .flush loaded assigned, o => flushSource loaded assigned o
  | .seen _ _ observedAt, o =>
      { o with
        lastSeenAt := observedAt
        isActive := true }
  | .deactivate _ _ _, o => { o with isActive := false }

/-- The value that the statement gives to `last_seen_at`, if it assigns the column. -/
def observedAt : SourceUpdate → Option Time
  | .flush loaded assigned =>
      if assigned.lastSeenAt = loaded.lastSeenAt then none else some assigned.lastSeenAt
  | .seen _ _ observedAt => some observedAt
  | .deactivate _ _ _ => none

@[simp]
theorem apply_id (u : SourceUpdate) (o : JobSourceObservation) : (u.apply o).id = o.id := by
  cases u <;> rfl

@[simp]
theorem apply_jobId (u : SourceUpdate) (o : JobSourceObservation) :
    (u.apply o).jobId = o.jobId := by
  cases u <;> rfl

@[simp]
theorem apply_identity (u : SourceUpdate) (o : JobSourceObservation) :
    (u.apply o).identity = o.identity := by
  cases u <;> rfl

/-- Only an assigned column changes. -/
theorem apply_lastSeenAt (u : SourceUpdate) (o : JobSourceObservation) :
    (u.apply o).lastSeenAt = u.observedAt.getD o.lastSeenAt := by
  cases u with
  | flush loaded assigned =>
      simp only [apply, observedAt, flushSource, flushed]
      split <;> rfl
  | seen _ _ _ => rfl
  | deactivate _ _ _ => rfl

end SourceUpdate

/-! ## The world -/

/-- The world that all calls share. -/
structure World where
  now : Time
  companies : Versioned (·.id : Company → UUID) CallId
  jobs : Versioned (·.id : CanonicalJob → UUID) CallId
  observations : Versioned (·.id : JobSourceObservation → UUID) CallId
  advisory : List (CallId × String)
  readings : CallId → Option Time
  loads : List (CallId × Row)
  writes : List (Row × Time)
  commits : List CallId

/-- The rows of a catalogue, each with the time at which it was last seen. -/
def seenRows (c : Database) : List (Row × Time) :=
  c.jobs.map (fun j => (.job j.id, j.lastSeenAt)) ++
    c.observations.map fun o => (.source o.id, o.lastSeenAt)

namespace World

/-- The world before any call.  Its rows were last seen by transactions that have read the
clock then. -/
def initial (now : Time) (c : StoredDatabase) : World where
  now := now
  companies := .initial c.companies c.companyIds
  jobs := .initial c.jobs c.jobIds
  observations := .initial c.observations c.observationIds
  advisory := []
  readings := fun _ => none
  loads := []
  writes := seenRows c.toDatabase
  commits := []

/-- The committed catalogue. -/
def committed (w : World) : Database :=
  ⟨w.companies.committed, w.jobs.committed, w.observations.committed⟩

/-- The catalogue that a statement of call {lit}`i` sees. -/
def visible (w : World) (i : CallId) : Database :=
  ⟨w.companies.visible i, w.jobs.visible i, w.observations.visible i⟩

/-- Time passes. -/
def wait (w : World) (elapsed : Time) : World :=
  { w with now := w.now + elapsed }

/-- Call {lit}`i` loads rows. -/
def load (w : World) (i : CallId) (rows : List Row) : World :=
  { w with loads := w.loads ++ rows.map fun row => (i, row) }

/-- Call {lit}`i` writes a job. -/
def writeJob (w : World) (i : CallId) (j : CanonicalJob) : World :=
  { w with jobs := w.jobs.write i j }

/-- Call {lit}`i` writes an observation. -/
def writeSource (w : World) (i : CallId) (o : JobSourceObservation) : World :=
  { w with observations := w.observations.write i o }

/-- The rows with `last_seen_at` that call {lit}`i` has written. -/
def ownRows (w : World) (i : CallId) : List Row :=
  (w.jobs.own i).map (fun j => .job j.id) ++ (w.observations.own i).map fun o => .source o.id

/-- Call {lit}`i` commits. -/
def commit (w : World) (i : CallId) : World :=
  { w with
    companies := w.companies.commit i
    jobs := w.jobs.commit i
    observations := w.observations.commit i
    advisory := w.advisory.filter (·.1 ≠ i)
    writes := w.writes ++
      (w.readings i).toList.flatMap fun reading => (w.ownRows i).map fun row => (row, reading)
    commits := w.commits ++ [i] }

/-- The end of call {lit}`i` rolls back what it has not committed. -/
def close (i : CallId) (w : World) : World :=
  { w with
    companies := w.companies.discard i
    jobs := w.jobs.discard i
    observations := w.observations.discard i
    advisory := w.advisory.filter (·.1 ≠ i) }

end World

/-! ## Commands -/

/-- Exceptions that leave a call. -/
inductive CatalogueError
  | raised
  | runtime (message : String)
  | staleData
deriving DecidableEq, Repr

/-- The answer of a command that may raise. -/
abbrev Attempt (α : Type) := Except CatalogueError α

/-- The commands of the services.  An inserted row is given its id by the database. -/
inductive Cmd : Type → Type
  | clock : Cmd Time
  | lockSourceIdentity (source sourceJobId : String) : Cmd (Attempt Unit)
  | getSource (source sourceJobId : String) : Cmd (Attempt (Option JobSourceObservation))
  | getJob (id : UUID) : Cmd (Attempt (Option CanonicalJob))
  | getCompany (id : UUID) : Cmd (Attempt (Option Company))
  | insertCompany (name normalizedName : String) : Cmd (Attempt (Option Company))
  | selectCompany (normalizedName : String) : Cmd (Attempt (Option Company))
  | findJobBySourceUrl (source : String) (sourceUrl : Option String) :
      Cmd (Attempt (Option CanonicalJob))
  | findDedupCandidates (companyId : UUID) (normalizedTitle : String) :
      Cmd (Attempt (List CanonicalJob))
  | insertJob (row : UUID → CanonicalJob) : Cmd (Attempt CanonicalJob)
  | insertSource (row : UUID → JobSourceObservation) : Cmd (Attempt JobSourceObservation)
  | maxLastSeen (source : String) : Cmd (Attempt (Option Time))
  | snapshot : Cmd (Attempt Snapshot)
  | updateJob (id : UUID) (update : JobUpdate) : Cmd (Attempt Nat)
  | updateSource (id : UUID) (update : SourceUpdate) : Cmd (Attempt Nat)
  | commit : Cmd (Attempt Unit)

/-- The answers that the environment chooses.  A commit may raise before or after it takes
effect. -/
inductive Outcome
  | quiet
  | raises
  | raisesAfter
  | fresh (id : UUID)
  | pick (n : Nat)
  | scan (tables : Database)
deriving Repr

/-- How much time passes before the command takes effect, and how it ends. -/
structure Choice where
  elapsed : Time := 0
  outcome : Outcome := .quiet
deriving Repr

/-- The key of the advisory lock of an identity: the hexadecimal digits of the first eight
bytes of its digest. -/
def lockKey (rt : Runtime) (source sourceJobId : String) : String :=
  String.ofList ((rt.sha256 (source ++ "\x00" ++ sourceJobId)).toList.take 16)

section

variable {α : Type} {key : α → UUID}

/-- The id belongs to a row or to a version of one. -/
def isUsed (t : Versioned key CallId) (id : UUID) : Bool :=
  (lookup key id t.committed).isSome || (t.version id).isSome

end

namespace World

/-- `INSERT INTO companies … ON CONFLICT DO NOTHING RETURNING`; {lean}`none` while another
transaction has an uncommitted row of the name. -/
def insertCompany (w : World) (i : CallId) (id : UUID) (name normalizedName : String) :
    Option (Attempt (Option Company) × World) :=
  if w.companies.uncommitted.any fun entry =>
      entry.1 ≠ i && entry.2.normalizedName = normalizedName then none
  else if (w.visible i).companies.any (·.normalizedName = normalizedName) then some (.ok none, w)
  else if isUsed w.companies id then none
  else
    let company := ⟨id, name, normalizedName⟩
    some (.ok (some company), { w with companies := w.companies.write i company })

/-- `INSERT INTO jobs`. -/
def insertJob (w : World) (i : CallId) (id : UUID) (row : UUID → CanonicalJob) :
    Option (Attempt CanonicalJob × World) :=
  if isUsed w.jobs id then none
  else if (row id).checks then some (.ok (row id), w.writeJob i (row id))
  else some (.error .raised, w)

/-- `INSERT INTO job_sources`; {lean}`none` while another transaction has an uncommitted
row of the identity. -/
def insertSource (w : World) (i : CallId) (id : UUID) (row : UUID → JobSourceObservation) :
    Option (Attempt JobSourceObservation × World) :=
  if isUsed w.observations id then none
  else if w.observations.uncommitted.any fun entry =>
      entry.1 ≠ i && entry.2.identity = (row id).identity then none
  else if (w.visible i).observations.all (·.identity ≠ (row id).identity) &&
      (w.visible i).jobs.any (·.id = (row id).jobId) then
    some (.ok (row id), w.writeSource i (row id))
  else some (.error .raised, w)

/-- One row of an `UPDATE jobs`, with the number of rows updated; {lean}`none` while another
transaction holds the row lock. -/
def updateJob (w : World) (i : CallId) (id : UUID) (update : JobUpdate) :
    Option (Attempt Nat × World) :=
  if w.jobs.locked i id then none
  else match lookup (·.id) id (w.visible i).jobs with
    | none => some (.ok 0, w)
    | some j =>
        if !update.applies j then some (.ok 0, w)
        else if (update.apply j).checks then some (.ok 1, w.writeJob i (update.apply j))
        else some (.error .raised, w)

/-- One row of an `UPDATE job_sources`. -/
def updateSource (w : World) (i : CallId) (id : UUID) (update : SourceUpdate) :
    Option (Attempt Nat × World) :=
  if w.observations.locked i id then none
  else match lookup (·.id) id (w.visible i).observations with
    | none => some (.ok 0, w)
    | some o =>
        if !update.applies o then some (.ok 0, w)
        else some (.ok 1, w.writeSource i (update.apply o))

/-- The scan of a statement that begins visits the rows that it sees. -/
def scans (w : World) (i : CallId) (tables : Database) : Prop :=
  tables.companies.Perm (w.visible i).companies ∧ tables.jobs.Perm (w.visible i).jobs ∧
    tables.observations.Perm (w.visible i).observations

instance (w : World) (i : CallId) (tables : Database) : Decidable (w.scans i tables) :=
  inferInstanceAs (Decidable (_ ∧ _ ∧ _))

end World

/-- The effect of one command of call {lit}`i`; {lean}`none` when the choice does not
answer the command or the command has to wait. -/
def exec (rt : Runtime) {β : Type} (i : CallId) (cmd : Cmd β) (choice : Choice) (w₀ : World) :
    Option (β × World) :=
  let w := w₀.wait choice.elapsed
  match cmd, choice.outcome with
  | .clock, .quiet =>
      some (w.now, { w with readings := Function.update w.readings i (some w.now) })
  | .lockSourceIdentity source sourceJobId, .quiet =>
      let key := lockKey rt source sourceJobId
      if w.advisory.any fun lock => lock.1 ≠ i && lock.2 = key then none
      else some (.ok (), { w with advisory := (i, key) :: w.advisory })
  | .lockSourceIdentity _ _, .raises => some (.error .raised, w)
  | .getSource source sourceJobId, .quiet =>
      let found := (w.visible i).getSource source sourceJobId
      some (.ok found, w.load i (found.toList.map fun o => .source o.id))
  | .getSource _ _, .raises => some (.error .raised, w)
  | .getJob id, .quiet =>
      let found := (w.visible i).getJob id
      some (.ok found, w.load i (found.toList.map fun j => .job j.id))
  | .getJob _, .raises => some (.error .raised, w)
  | .getCompany id, .quiet => some (.ok (lookup (·.id) id (w.visible i).companies), w)
  | .getCompany _, .raises => some (.error .raised, w)
  | .insertCompany name normalizedName, .fresh id => w.insertCompany i id name normalizedName
  | .insertCompany _ _, .raises => some (.error .raised, w)
  | .selectCompany normalizedName, .quiet =>
      some (.ok ((w.visible i).companies.find? (·.normalizedName = normalizedName)), w)
  | .selectCompany _, .raises => some (.error .raised, w)
  | .findJobBySourceUrl source sourceUrl, .pick n =>
      let found := (w.visible i).findJobBySourceUrl source sourceUrl n
      some (.ok found, w.load i (found.toList.map fun j => .job j.id))
  | .findJobBySourceUrl _ _, .raises => some (.error .raised, w)
  | .findDedupCandidates companyId normalizedTitle, .quiet =>
      let found := (w.visible i).findDedupCandidates companyId normalizedTitle
      some (.ok found, w.load i (found.map fun j => .job j.id))
  | .findDedupCandidates _ _, .raises => some (.error .raised, w)
  | .insertJob row, .fresh id => w.insertJob i id row
  | .insertJob _, .raises => some (.error .raised, w)
  | .insertSource row, .fresh id => w.insertSource i id row
  | .insertSource _, .raises => some (.error .raised, w)
  | .maxLastSeen source, .quiet => some (.ok (maxLastSeen (w.visible i) source), w)
  | .maxLastSeen _, .raises => some (.error .raised, w)
  | .snapshot, .scan tables =>
      if w.scans i tables then some (.ok ⟨tables, w.commits⟩, w) else none
  | .snapshot, .raises => some (.error .raised, w)
  | .updateJob id update, .quiet => w.updateJob i id update
  | .updateJob _ _, .raises => some (.error .raised, w)
  | .updateSource id update, .quiet => w.updateSource i id update
  | .updateSource _ _, .raises => some (.error .raised, w)
  | .commit, .quiet => some (.ok (), w.commit i)
  | .commit, .raisesAfter => some (.error .raised, w.commit i)
  | .commit, .raises => some (.error .raised, w)
  | _, _ => none

/-! ## What each command can do -/

/-- Two worlds agree on the rows with `last_seen_at`, their versions and the history. -/
structure Same (w w' : World) : Prop where
  jobs : w'.jobs = w.jobs
  observations : w'.observations = w.observations
  readings : w'.readings = w.readings
  loads : w'.loads = w.loads
  writes : w'.writes = w.writes
  commits : w'.commits = w.commits

theorem Same.wait (w : World) (t : Time) : Same w (w.wait t) :=
  ⟨rfl, rfl, rfl, rfl, rfl, rfl⟩

/-- The commands that touch neither the rows with `last_seen_at` nor the history. -/
def Cmd.isQuiet {β : Type} : Cmd β → Bool
  | .lockSourceIdentity _ _ | .getCompany _ | .insertCompany _ _ | .selectCompany _ |
    .maxLastSeen _ | .snapshot => true
  | _ => false

/-- The queries whose rows the call loads. -/
def Cmd.isLoading {β : Type} : Cmd β → Bool
  | .findJobBySourceUrl _ _ | .findDedupCandidates _ _ => true
  | _ => false

section

attribute [local simp] exec

variable {rt : Runtime} {i : CallId} {w w' : World} {β : Type} {cmd : Cmd β} {b : β} {ch : Choice}

theorem exec_clock {b : Time} (he : exec rt i .clock ch w = some (b, w')) :
    ∃ w₁, Same w w₁ ∧ b = w₁.now ∧
      w' = { w₁ with readings := Function.update w₁.readings i (some b) } := by
  obtain ⟨t, o⟩ := ch
  cases o <;> simp only [exec, reduceCtorEq] at he
  case quiet =>
    cases he
    exact ⟨w.wait t, Same.wait w t, rfl, rfl⟩

theorem exec_quiet (hq : cmd.isQuiet = true) (he : exec rt i cmd ch w = some (b, w')) :
    Same w w' := by
  obtain ⟨t, o⟩ := ch
  cases cmd <;> simp only [Cmd.isQuiet, Bool.false_eq_true] at hq <;> cases o <;>
    simp only [exec, reduceCtorEq] at he
  case lockSourceIdentity.quiet =>
    split at he
    · contradiction
    · cases he
      exact ⟨rfl, rfl, rfl, rfl, rfl, rfl⟩
  case insertCompany.fresh id =>
    unfold World.insertCompany at he
    split at he
    · contradiction
    · split at he
      · cases he
        exact Same.wait w t
      · split at he
        · contradiction
        · cases he
          exact ⟨rfl, rfl, rfl, rfl, rfl, rfl⟩
  case snapshot.scan tables =>
    split at he
    · cases he
      exact Same.wait w t
    · contradiction
  all_goals
    cases he
    exact Same.wait w t

/-- A snapshot has the rows that the statement sees and the commits before it. -/
theorem exec_snapshot {b : Attempt Snapshot} (he : exec rt i .snapshot ch w = some (b, w')) :
    b = .error .raised ∨ ∃ snapshot, b = .ok snapshot ∧ snapshot.commits = w.commits ∧
      w.scans i snapshot.tables := by
  obtain ⟨t, o⟩ := ch
  cases o <;> simp only [exec, reduceCtorEq] at he
  case raises =>
    cases he
    exact Or.inl rfl
  case scan tables =>
    split at he
    · rename_i hscan
      cases he
      exact Or.inr ⟨⟨tables, w.commits⟩, rfl, rfl, hscan⟩
    · contradiction

theorem exec_getSource {source sourceJobId : String} {b : Attempt (Option JobSourceObservation)}
    (he : exec rt i (.getSource source sourceJobId) ch w = some (b, w')) :
    (b = .error .raised ∧ Same w w') ∨
      ∃ w₁, Same w w₁ ∧ b = .ok ((w.visible i).getSource source sourceJobId) ∧
        w' = w₁.load i
          (((w.visible i).getSource source sourceJobId).toList.map fun o => .source o.id) := by
  obtain ⟨t, o⟩ := ch
  cases o <;> simp only [exec, reduceCtorEq] at he
  case raises =>
    cases he
    exact Or.inl ⟨rfl, Same.wait w t⟩
  case quiet =>
    cases he
    exact Or.inr ⟨w.wait t, Same.wait w t, rfl, rfl⟩

theorem exec_getJob {id : UUID} {b : Attempt (Option CanonicalJob)}
    (he : exec rt i (.getJob id) ch w = some (b, w')) :
    (b = .error .raised ∧ Same w w') ∨
      ∃ w₁, Same w w₁ ∧ b = .ok ((w.visible i).getJob id) ∧
        w' = w₁.load i (((w.visible i).getJob id).toList.map fun j => .job j.id) := by
  obtain ⟨t, o⟩ := ch
  cases o <;> simp only [exec, reduceCtorEq] at he
  case raises =>
    cases he
    exact Or.inl ⟨rfl, Same.wait w t⟩
  case quiet =>
    cases he
    exact Or.inr ⟨w.wait t, Same.wait w t, rfl, rfl⟩

theorem exec_loading (hl : cmd.isLoading = true) (he : exec rt i cmd ch w = some (b, w')) :
    ∃ w₁ rows, Same w w₁ ∧ w' = w₁.load i rows := by
  obtain ⟨t, o⟩ := ch
  cases cmd <;> simp only [Cmd.isLoading, Bool.false_eq_true] at hl <;> cases o <;>
    simp only [exec, reduceCtorEq] at he
  case findJobBySourceUrl.pick n =>
    cases he
    exact ⟨w.wait t, _, Same.wait w t, rfl⟩
  case findDedupCandidates.quiet =>
    cases he
    exact ⟨w.wait t, _, Same.wait w t, rfl⟩
  all_goals
    cases he
    exact ⟨w.wait t, [], Same.wait w t, by simp [World.load]⟩

/-- A row of an `UPDATE jobs` is written only when no other call has its lock. -/
theorem exec_updateJob {id : UUID} {update : JobUpdate} {b : Attempt Nat}
    (he : exec rt i (.updateJob id update) ch w = some (b, w')) :
    (b ≠ .ok 1 ∧ Same w w') ∨
      ∃ j w₁, b = .ok 1 ∧ w.jobs.locked i id = false ∧
        lookup (·.id) id (w.jobs.visible i) = some j ∧ update.applies j = true ∧ Same w w₁ ∧
        w' = w₁.writeJob i (update.apply j) := by
  obtain ⟨t, o⟩ := ch
  cases o <;> simp only [exec, reduceCtorEq] at he
  case raises =>
    cases he
    exact Or.inl ⟨by simp, Same.wait w t⟩
  case quiet =>
    unfold World.updateJob at he
    split at he
    · contradiction
    · rename_i hlocked
      split at he
      · cases he
        exact Or.inl ⟨by simp, Same.wait w t⟩
      · rename_i j hj
        split at he
        · cases he
          exact Or.inl ⟨by simp, Same.wait w t⟩
        · rename_i happlies
          split at he
          · cases he
            exact Or.inr ⟨j, w.wait t, rfl, eq_false_of_ne_true hlocked, hj,
              by simpa using happlies, Same.wait w t, rfl⟩
          · cases he
            exact Or.inl ⟨by simp, Same.wait w t⟩

theorem exec_updateSource {id : UUID} {update : SourceUpdate} {b : Attempt Nat}
    (he : exec rt i (.updateSource id update) ch w = some (b, w')) :
    (b ≠ .ok 1 ∧ Same w w') ∨
      ∃ o w₁, b = .ok 1 ∧ w.observations.locked i id = false ∧
        lookup (·.id) id (w.observations.visible i) = some o ∧ update.applies o = true ∧
        Same w w₁ ∧ w' = w₁.writeSource i (update.apply o) := by
  obtain ⟨t, o⟩ := ch
  cases o <;> simp only [exec, reduceCtorEq] at he
  case raises =>
    cases he
    exact Or.inl ⟨by simp, Same.wait w t⟩
  case quiet =>
    unfold World.updateSource at he
    split at he
    · contradiction
    · rename_i hlocked
      split at he
      · cases he
        exact Or.inl ⟨by simp, Same.wait w t⟩
      · rename_i o ho
        split at he
        · cases he
          exact Or.inl ⟨by simp, Same.wait w t⟩
        · rename_i happlies
          cases he
          exact Or.inr ⟨o, w.wait t, rfl, eq_false_of_ne_true hlocked, ho, by simpa using happlies,
            Same.wait w t, rfl⟩

theorem not_isUsed {α : Type} {key : α → UUID} {t : Versioned key CallId} {id : UUID} :
    isUsed t id = false ↔ lookup key id t.committed = none ∧ t.version id = none := by
  simp [isUsed]

/-- An inserted job is new. -/
theorem exec_insertJob {row : UUID → CanonicalJob} {b : Attempt CanonicalJob}
    (he : exec rt i (.insertJob row) ch w = some (b, w')) :
    (b = .error .raised ∧ Same w w') ∨
      ∃ id w₁, isUsed w.jobs id = false ∧ b = .ok (row id) ∧ Same w w₁ ∧
        w' = w₁.writeJob i (row id) := by
  obtain ⟨t, o⟩ := ch
  cases o <;> simp only [exec, reduceCtorEq] at he
  case raises =>
    cases he
    exact Or.inl ⟨rfl, Same.wait w t⟩
  case fresh id =>
    unfold World.insertJob at he
    split at he
    · contradiction
    · rename_i hused
      split at he
      · cases he
        exact Or.inr ⟨id, w.wait t, eq_false_of_ne_true hused, rfl, Same.wait w t, rfl⟩
      · cases he
        exact Or.inl ⟨rfl, Same.wait w t⟩

/-- An inserted observation is new. -/
theorem exec_insertSource {row : UUID → JobSourceObservation} {b : Attempt JobSourceObservation}
    (he : exec rt i (.insertSource row) ch w = some (b, w')) :
    (b = .error .raised ∧ Same w w') ∨
      ∃ id w₁, isUsed w.observations id = false ∧ b = .ok (row id) ∧ Same w w₁ ∧
        w' = w₁.writeSource i (row id) := by
  obtain ⟨t, o⟩ := ch
  cases o <;> simp only [exec, reduceCtorEq] at he
  case raises =>
    cases he
    exact Or.inl ⟨rfl, Same.wait w t⟩
  case fresh id =>
    unfold World.insertSource at he
    split at he
    · contradiction
    · rename_i hused
      split at he
      · contradiction
      · split at he
        · cases he
          exact Or.inr ⟨id, w.wait t, eq_false_of_ne_true hused, rfl, Same.wait w t, rfl⟩
        · cases he
          exact Or.inl ⟨rfl, Same.wait w t⟩

theorem exec_commit {b : Attempt Unit} (he : exec rt i .commit ch w = some (b, w')) :
    (b = .error .raised ∧ Same w w') ∨ ∃ w₁, Same w w₁ ∧ w' = w₁.commit i := by
  obtain ⟨t, o⟩ := ch
  cases o <;> simp only [exec, reduceCtorEq] at he
  case raises =>
    cases he
    exact Or.inl ⟨rfl, Same.wait w t⟩
  case quiet =>
    cases he
    exact Or.inr ⟨w.wait t, Same.wait w t, rfl⟩
  case raisesAfter =>
    cases he
    exact Or.inr ⟨w.wait t, Same.wait w t, rfl⟩

/-- What a command of call {lit}`i` can do to a world. -/
inductive Effect (i : CallId) (w : World) : {β : Type} → Cmd β → World → Prop
  | same {w' : World} {β : Type} {cmd : Cmd β} (h : Same w w') : Effect i w cmd w'
  | clock {w₁ : World} (h : Same w w₁) (t : Time) :
      Effect i w .clock { w₁ with readings := Function.update w₁.readings i (some t) }
  | load {w₁ : World} {β : Type} {cmd : Cmd β} (h : Same w w₁) (rows : List Row) :
      Effect i w cmd (w₁.load i rows)
  | updateJob {w₁ : World} {id : UUID} {update : JobUpdate} {j : CanonicalJob} (h : Same w w₁)
      (hlocked : w.jobs.locked i id = false)
      (hj : lookup (·.id) id (w.jobs.visible i) = some j) (happlies : update.applies j = true) :
      Effect i w (.updateJob id update) (w₁.writeJob i (update.apply j))
  | insertJob {w₁ : World} {id : UUID} {row : UUID → CanonicalJob} (h : Same w w₁)
      (hused : isUsed w.jobs id = false) :
      Effect i w (.insertJob row) (w₁.writeJob i (row id))
  | updateSource {w₁ : World} {id : UUID} {update : SourceUpdate} {o : JobSourceObservation}
      (h : Same w w₁) (hlocked : w.observations.locked i id = false)
      (ho : lookup (·.id) id (w.observations.visible i) = some o)
      (happlies : update.applies o = true) :
      Effect i w (.updateSource id update) (w₁.writeSource i (update.apply o))
  | insertSource {w₁ : World} {id : UUID} {row : UUID → JobSourceObservation} (h : Same w w₁)
      (hused : isUsed w.observations id = false) :
      Effect i w (.insertSource row) (w₁.writeSource i (row id))
  | commit {w₁ : World} (h : Same w w₁) : Effect i w .commit (w₁.commit i)

theorem exec_effect (he : exec rt i cmd ch w = some (b, w')) : Effect i w cmd w' := by
  cases cmd with
  | clock =>
      obtain ⟨w₁, h, _, rfl⟩ := exec_clock he
      exact .clock h _
  | getSource _ _ =>
      rcases exec_getSource he with ⟨_, h⟩ | ⟨w₁, h, _, rfl⟩
      · exact .same h
      · exact .load h _
  | getJob _ =>
      rcases exec_getJob he with ⟨_, h⟩ | ⟨w₁, h, _, rfl⟩
      · exact .same h
      · exact .load h _
  | findJobBySourceUrl _ _ =>
      obtain ⟨w₁, rows, h, rfl⟩ := exec_loading rfl he
      exact .load h rows
  | findDedupCandidates _ _ =>
      obtain ⟨w₁, rows, h, rfl⟩ := exec_loading rfl he
      exact .load h rows
  | insertJob row =>
      rcases exec_insertJob he with ⟨_, h⟩ | ⟨id, w₁, hused, _, h, rfl⟩
      · exact .same h
      · exact .insertJob h hused
  | insertSource row =>
      rcases exec_insertSource he with ⟨_, h⟩ | ⟨id, w₁, hused, _, h, rfl⟩
      · exact .same h
      · exact .insertSource h hused
  | updateJob id update =>
      rcases exec_updateJob he with ⟨_, h⟩ | ⟨j, w₁, _, hlocked, hj, happlies, h, rfl⟩
      · exact .same h
      · exact .updateJob h hlocked hj happlies
  | updateSource id update =>
      rcases exec_updateSource he with ⟨_, h⟩ | ⟨o, w₁, _, hlocked, ho, happlies, h, rfl⟩
      · exact .same h
      · exact .updateSource h hlocked ho happlies
  | commit =>
      rcases exec_commit he with ⟨_, h⟩ | ⟨w₁, h, rfl⟩
      · exact .same h
      · exact .commit h
  | lockSourceIdentity _ _ => exact .same (exec_quiet rfl he)
  | getCompany _ => exact .same (exec_quiet rfl he)
  | insertCompany _ _ => exact .same (exec_quiet rfl he)
  | selectCompany _ => exact .same (exec_quiet rfl he)
  | maxLastSeen _ => exact .same (exec_quiet rfl he)
  | snapshot => exact .same (exec_quiet rfl he)

end

end Concurrent
end Catalogue
end HireAndTech
