import HireAndTech.Interleaving.Program
import HireAndTech.Resumes.Tables

/-!
# Commands of the resume service

The shared world of all resume calls: the committed tables, the storage bucket,
the row locks of reconciliation runs, and for every call the part of its
SQLAlchemy session that its behaviour depends on.  A command is one await of the
service: a statement, a flush with its commit, a rollback, one storage request
or one run of the parse executor.

A flush keeps its row locks until the commit that follows it, and the service
never does anything between the two, so they are one command.  Any amount of
time may pass before a command takes effect.

The world also carries its history: which UUIDs have been drawn, how far the
upload of every object key has come, and a log of the effects of all commands.
No command depends on the history, except that a fresh UUID is one that has not
been drawn before.

Main results:

- Definition {lit}`exec`: the effect of one command under one choice of the
  environment.
- Theorems {lit}`exec_log`, {lit}`exec_sessions` and {lit}`exec_locks`: what a
  command adds to the history, does to the sessions, and leaves locked.
- Theorem {lit}`exec_quiet`: the commands that change no table, object or key phase.
- Theorems {lit}`exec_uuid4`, {lit}`exec_flushCommit`, {lit}`exec_storageUpload`,
  {lit}`exec_storageDelete` and {lit}`exec_listDueForUpdate`: what the others do.
-/

namespace HireAndTech
namespace Resumes

open Interleaving

/-! ## The world -/

/-- The part of an `AsyncSession` that the service depends on.  Persistent
instances are named by the primary key of their row. -/
structure Session where
  inTransaction : Bool := false
  persistent : List UUID := []
  expired : List UUID := []
deriving DecidableEq, Repr

/-- How far the upload of an object key has come: its resume id has not been
drawn, call {lit}`i` has drawn it, call {lit}`i` has made its storage request, or
the call has persisted its resume or ended. -/
inductive KeyPhase
  | unused
  | reserved (i : CallId)
  | attempted (i : CallId)
  | settled
deriving DecidableEq, Repr

/-- The call still has the storage request for the key ahead of it. -/
def KeyPhase.isReserved : KeyPhase → Bool
  | .reserved _ => true
  | _ => false

/-- What a storage request comes to.  Every {lit}`httpx.RequestError` becomes a
`ResumeStorageError`, also one that is raised after the request took effect. -/
inductive StorageOutcome
  | done
  | failedBefore
  | failedAfter
deriving DecidableEq, Repr

/-- An `ApplicationError`: code, safe message and HTTP status. -/
structure ApplicationError where
  code : String
  message : String
  statusCode : Nat
deriving DecidableEq, Repr

/-- What the parse executor comes to. -/
inductive ParseOutcome
  | parsed (resume : ParsedResume)
  | rejected (error : ApplicationError)
  | executionError
deriving DecidableEq, Repr

/-- One entry of the history. -/
inductive Event
  | committed (u : UnitOfWork)
  | commitFailed (e : DbError)
  | uploaded (key : ObjectKey) (success : Bool)
  | removed (key : ObjectKey) (success : Bool)
  | parsed (outcome : ParseOutcome)
deriving DecidableEq, Repr

/-- The world that all resume calls share. -/
structure World where
  now : Time
  db : Database
  objects : List ObjectKey
  sessions : CallId → Session
  locks : UUID → Option CallId
  issued : List UUID
  phases : ObjectKey → KeyPhase
  log : List (CallId × Event)

/-! ## Updates of the world -/

namespace World

/-- Time passes. -/
def wait (w : World) (elapsed : Time) : World :=
  { w with now := w.now + elapsed }

/-- Call {lit}`i` changes its session. -/
def onSession (w : World) (i : CallId) (f : Session → Session) : World :=
  { w with sessions := Function.update w.sessions i (f (w.sessions i)) }

/-- Call {lit}`i` adds an entry to the history. -/
def record (w : World) (i : CallId) (e : Event) : World :=
  { w with log := w.log ++ [(i, e)] }

/-- Call {lit}`i` draws the id of a new resume of {lit}`owner`. -/
def draw (w : World) (i : CallId) (owner id : UUID) : World :=
  { w with
    issued := id :: w.issued
    phases := Function.update w.phases (buildResumeObjectKey owner id) (.reserved i) }

/-- Move the upload of {lit}`key` to another phase. -/
def setPhase (w : World) (key : ObjectKey) (p : KeyPhase) : World :=
  { w with phases := Function.update w.phases key p }

/-- Release the row locks of call {lit}`i`. -/
def unlock (w : World) (i : CallId) : World :=
  { w with locks := fun id => if w.locks id = some i then none else w.locks id }

/-- Put an object into the bucket. -/
def putObject (w : World) (key : ObjectKey) : World :=
  { w with objects := key :: w.objects }

/-- Take an object out of the bucket. -/
def dropObject (w : World) (key : ObjectKey) : World :=
  { w with objects := w.objects.filter (· ≠ key) }

/-- The end of call {lit}`i`: closing its session releases its locks, and a key
that it had in flight will see no further request from it. -/
def close (w : World) (i : CallId) : World :=
  { (w.unlock i) with
    sessions := Function.update w.sessions i {}
    phases := fun k =>
      if w.phases k = .reserved i ∨ w.phases k = .attempted i then .settled else w.phases k }

end World

/-! ## Session bookkeeping -/

namespace Session

/-- A statement begins a transaction when none is in progress, and it makes the
rows that it returns persistent and loaded. -/
def select (s : Session) (ids : List UUID) : Session where
  inTransaction := true
  persistent := ids ++ s.persistent
  expired := s.expired.filter (· ∉ ids)

/-- `session.add` begins a transaction when none is in progress. -/
def add (s : Session) : Session :=
  { s with inTransaction := true }

/-- A successful commit ends the transaction; `expire_on_commit` is off. -/
def commit (s : Session) (inserted deleted : List UUID) : Session :=
  { s with
    inTransaction := false
    persistent := inserted ++ s.persistent.filter (· ∉ deleted) }

/-- A rollback expires every persistent instance.  Without a transaction in progress
SQLAlchemy documents it as a pass-through; {lit}`always` says that it expires them
then as well. -/
def rollback (s : Session) (always : Bool) : Session :=
  if s.inTransaction || always then
    { s with
      inTransaction := false
      expired := s.persistent }
  else s

end Session

/-! ## Commands -/

/-- The settings that the service reads, and how its sessions treat a rollback
outside of a transaction. -/
structure Env where
  resumeStorageBucket : String
  resumeParserVersion : String
  rollbackAlwaysExpires : Bool

/-- What the database returns for a committed unit of work: its time and the id
of the inserted cleanup row. -/
structure Flushed where
  now : Time
  rowId : UUID
deriving DecidableEq, Repr

/-- The commands of the resume service. -/
inductive Cmd : Type → Type
  | now : Cmd Time
  | uuid4 (owner : UUID) : Cmd UUID
  | getOwned (resumeId owner : UUID) (includeDeleted : Bool) : Cmd (Option Resume)
  | listOwnedPage (owner : UUID) (offset limit : Nat) : Cmd (List Resume)
  | countOwned (owner : UUID) : Cmd Nat
  | getOwnedByResumeId (resumeId owner : UUID) : Cmd (Option CandidateProfile)
  | getByObjectKey (key : ObjectKey) : Cmd (Option ResumeStorageCleanup)
  | listDueForUpdate (now : Time) (limit : Nat) : Cmd (List ResumeStorageCleanup)
  | sessionAdd : Cmd Unit
  | flushCommit (u : UnitOfWork) : Cmd (Except DbError Flushed)
  | rollback : Cmd Unit
  | readObjectKey (cleanup : ResumeStorageCleanup) : Cmd (Option ObjectKey)
  | storageUpload (key : ObjectKey) : Cmd Bool
  | storageDelete (key : ObjectKey) : Cmd Bool
  | parse (content : List UInt8) : Cmd ParseOutcome

/-- The answers that the environment chooses. -/
inductive Outcome
  | quiet
  | fresh (id : UUID)
  | fails (e : DbError)
  | storage (o : StorageOutcome)
  | parse (o : ParseOutcome)
deriving DecidableEq, Repr

/-- A choice of the environment: how much time passes before the command takes
effect, and how the command ends. -/
structure Choice where
  elapsed : Time := 0
  outcome : Outcome := .quiet
deriving DecidableEq, Repr

/-- The cleanup rows that a unit of work deletes or updates. -/
def UnitOfWork.touched (u : UnitOfWork) : List UUID :=
  u.deleteCleanups ++ u.failCleanups

/-- A unit of work that touches a row locked by another call has to wait. -/
def World.blocked (w : World) (i : CallId) (u : UnitOfWork) : Bool :=
  u.touched.any fun id => (w.locks id).any (· ≠ i)

/-- Persisting a resume settles its object key. -/
def UnitOfWork.settle (u : UnitOfWork) (phases : ObjectKey → KeyPhase) : ObjectKey → KeyPhase :=
  match u.insertResume with
  | none => phases
  | some r => Function.update phases r.storageObjectKey .settled

/-- Flush and commit the unit of work of call {lit}`i`. -/
def World.flushCommit (w : World) (i : CallId) (u : UnitOfWork) (id : UUID) :
    Except DbError Flushed × World :=
  match w.db.flush u w.now id with
  | .error e => (.error e, (w.record i (.commitFailed e)).onSession i Session.add)
  | .ok db =>
      let inserted := u.insertResume.toList.map (·.id) ++ u.insertCleanup.toList.map fun _ => id
      (.ok ⟨w.now, id⟩,
        (({ w with
          db := db
          issued := id :: w.issued
          phases := u.settle w.phases }.record i (.committed u)).unlock i).onSession i
            (Session.commit · inserted u.deleteCleanups))

/-- `SupabaseResumeStorage.upload`: an existing object is never replaced. -/
def World.upload (w : World) (i : CallId) (key : ObjectKey) (o : StorageOutcome) :
    Bool × World :=
  let success := o = .done && key ∉ w.objects
  let w' := (w.setPhase key (.attempted i)).record i (.uploaded key success)
  (success, if o = .failedBefore || key ∈ w.objects then w' else w'.putObject key)

/-- `SupabaseResumeStorage.delete`: an absent object counts as deleted. -/
def World.remove (w : World) (i : CallId) (key : ObjectKey) (o : StorageOutcome) :
    Bool × World :=
  let success := o = .done
  let w' := w.record i (.removed key success)
  (success, if o = .failedBefore then w' else w'.dropObject key)

/-- The effect of one command of call {lit}`i`; {lean}`none` when the choice does not
answer the command or the command has to wait. -/
def exec (env : Env) {β : Type} (i : CallId) (cmd : Cmd β) (choice : Choice) (w₀ : World) :
    Option (β × World) :=
  let w := w₀.wait choice.elapsed
  match cmd, choice.outcome with
  | .now, .quiet => some (w.now, w)
  | .uuid4 owner, .fresh id => if id ∈ w.issued then none else some (id, w.draw i owner id)
  | .getOwned resumeId owner includeDeleted, .quiet =>
      let row := w.db.getOwned resumeId owner includeDeleted
      some (row, w.onSession i (Session.select · (row.toList.map (·.id))))
  | .listOwnedPage owner offset limit, .quiet =>
      let rows := w.db.listOwnedPage owner offset limit
      some (rows, w.onSession i (Session.select · (rows.map (·.id))))
  | .countOwned owner, .quiet =>
      some (w.db.countOwned owner, w.onSession i (Session.select · []))
  | .getOwnedByResumeId resumeId owner, .quiet =>
      some (w.db.getOwnedByResumeId resumeId owner, w.onSession i (Session.select · []))
  | .getByObjectKey key, .quiet =>
      let row := w.db.getByObjectKey key
      some (row, w.onSession i (Session.select · (row.toList.map (·.id))))
  | .listDueForUpdate now limit, .quiet =>
      let rows := w.db.listDueForUpdate now limit fun c => (w.locks c.id).any (· ≠ i)
      some (rows, { w.onSession i (Session.select · (rows.map (·.id))) with
        locks := fun id => if id ∈ rows.map (·.id) then some i else w.locks id })
  | .sessionAdd, .quiet => some ((), w.onSession i Session.add)
  | .flushCommit u, .fresh id =>
      if w.blocked i u || id ∈ w.issued then none else some (w.flushCommit i u id)
  | .flushCommit _, .fails e =>
      some (.error e, (w.record i (.commitFailed e)).onSession i Session.add)
  | .rollback, .quiet =>
      some ((), (w.unlock i).onSession i (Session.rollback · env.rollbackAlwaysExpires))
  | .readObjectKey cleanup, .quiet =>
      some (if cleanup.id ∈ (w.sessions i).expired then none else
        some cleanup.storageObjectKey, w)
  | .storageUpload key, .storage o => some (w.upload i key o)
  | .storageDelete key, .storage o => some (w.remove i key o)
  | .parse _, .parse o => some (o, w.record i (.parsed o))
  | _, _ => none

/-! ## What each command can do -/

/-- The entries that call {lit}`i` has added to the history. -/
def World.events (w : World) (i : CallId) : List Event :=
  (w.log.filter (·.1 = i)).map (·.2)

/-- What a command adds to the history when it ends with an answer. -/
def Cmd.events {β : Type} : Cmd β → β → List Event
  | .flushCommit u, .ok _ => [.committed u]
  | .flushCommit _, .error e => [.commitFailed e]
  | .storageUpload key, success => [.uploaded key success]
  | .storageDelete key, success => [.removed key success]
  | .parse _, outcome => [.parsed outcome]
  | _, _ => []

/-- What a command does to the session of its call when it ends with an answer. -/
def Cmd.session (env : Env) {β : Type} : Cmd β → β → Session → Session
  | .getOwned _ _ _, row => (Session.select · (row.toList.map (·.id)))
  | .listOwnedPage _ _ _, rows => (Session.select · (rows.map (·.id)))
  | .countOwned _, _ => (Session.select · [])
  | .getOwnedByResumeId _ _, _ => (Session.select · [])
  | .getByObjectKey _, row => (Session.select · (row.toList.map (·.id)))
  | .listDueForUpdate _ _, rows => (Session.select · (rows.map (·.id)))
  | .sessionAdd, _ => Session.add
  | .flushCommit u, .ok f => (Session.commit ·
      (u.insertResume.toList.map (·.id) ++ u.insertCleanup.toList.map fun _ => f.rowId)
      u.deleteCleanups)
  | .flushCommit _, .error _ => Session.add
  | .rollback, _ => (Session.rollback · env.rollbackAlwaysExpires)
  | _, _ => id

/-- The commands that change neither tables nor objects nor key phases. -/
def Cmd.isQuiet {β : Type} : Cmd β → Bool
  | .uuid4 _ | .flushCommit _ | .storageUpload _ | .storageDelete _ => false
  | _ => true

section

attribute [local simp] exec

variable {env : Env} {β : Type} {i : CallId} {ch : Choice} {w w' : World}

theorem exec_log {cmd : Cmd β} {b : β} (h : exec env i cmd ch w = some (b, w')) :
    w'.log = w.log ++ (cmd.events b).map (i, ·) := by
  obtain ⟨t, o⟩ := ch
  cases cmd <;> cases o <;> simp only [exec, reduceCtorEq] at h
  case flushCommit.fresh u id =>
    split at h
    · contradiction
    · unfold World.flushCommit at h
      split at h <;> cases h <;> rfl
  case uuid4.fresh owner id =>
    split at h
    · contradiction
    · cases h
      simp [World.draw, World.wait, Cmd.events]
  case storageUpload.storage key o =>
    cases h
    simp only [Cmd.events]
    split <;> rfl
  case storageDelete.storage key o =>
    cases h
    simp only [Cmd.events]
    split <;> rfl
  case flushCommit.fails u e => cases h; rfl
  case parse.parse content o => cases h; rfl
  all_goals
    cases h
    simp [World.wait, World.onSession, World.unlock, Cmd.events]

/-- A command takes as long as its choice says. -/
theorem exec_now {cmd : Cmd β} {b : β} (h : exec env i cmd ch w = some (b, w')) :
    w'.now = w.now + ch.elapsed := by
  obtain ⟨t, o⟩ := ch
  cases cmd <;> cases o <;> simp only [exec, reduceCtorEq] at h
  case flushCommit.fresh u id =>
    split at h
    · contradiction
    · unfold World.flushCommit at h
      split at h <;> cases h <;> rfl
  case uuid4.fresh owner id =>
    split at h
    · contradiction
    · cases h
      rfl
  case storageUpload.storage key o =>
    cases h
    split <;> rfl
  case storageDelete.storage key o =>
    cases h
    split <;> rfl
  all_goals
    cases h
    rfl

theorem exec_sessions {cmd : Cmd β} {b : β} (h : exec env i cmd ch w = some (b, w')) :
    w'.sessions = Function.update w.sessions i (cmd.session env b (w.sessions i)) := by
  obtain ⟨t, o⟩ := ch
  cases cmd <;> cases o <;> simp only [exec, reduceCtorEq] at h
  case flushCommit.fresh u id =>
    split at h
    · contradiction
    · unfold World.flushCommit at h
      split at h <;> cases h <;> rfl
  case uuid4.fresh owner id =>
    split at h
    · contradiction
    · cases h
      simp [World.draw, World.wait, Cmd.session]
  case storageUpload.storage key o =>
    cases h
    simp only [Cmd.session]
    split <;> simp [World.wait, World.record, World.setPhase, World.putObject]
  case storageDelete.storage key o =>
    cases h
    simp only [Cmd.session]
    split <;> simp [World.wait, World.record, World.dropObject]
  all_goals
    cases h
    simp [World.wait, World.onSession, World.unlock, World.record, Cmd.session]

theorem World.unlock_locks_of_ne {j : CallId} (hj : j ≠ i) {id : UUID}
    (hl : w.locks id = some j) : (w.unlock i).locks id = some j := by
  simp [World.unlock, hl, hj]

/-- A lock of another call is never taken away. -/
theorem exec_locks {cmd : Cmd β} {b : β} (h : exec env i cmd ch w = some (b, w')) {j : CallId}
    (hj : j ≠ i) {id : UUID} (hl : w.locks id = some j) : w'.locks id = some j := by
  obtain ⟨t, o⟩ := ch
  cases cmd <;> cases o <;> simp only [exec, reduceCtorEq] at h
  case flushCommit.fresh u id =>
    split at h
    · contradiction
    · unfold World.flushCommit at h
      split at h <;> cases h
      · exact hl
      · exact World.unlock_locks_of_ne hj hl
  case uuid4.fresh owner id =>
    split at h
    · contradiction
    · cases h
      exact hl
  case storageUpload.storage key o =>
    cases h
    split <;> exact hl
  case storageDelete.storage key o =>
    cases h
    split <;> exact hl
  case rollback.quiet =>
    cases h
    exact World.unlock_locks_of_ne hj hl
  case listDueForUpdate.quiet now limit =>
    cases h
    -- a row that another call has locked is skipped, so it is not locked again
    have hskip : id ∉ ((w.wait t).db.listDueForUpdate now limit
        fun c => ((w.wait t).locks c.id).any (· ≠ i)).map (·.id) := by
      intro hmem
      obtain ⟨c, hc, rfl⟩ := List.mem_map.mp hmem
      have hfree := List.mem_of_mem_take hc
      rw [List.mem_insertionSort, List.mem_filter] at hfree
      simp [World.wait, hl, hj] at hfree
    show (if id ∈ _ then some i else w.locks id) = some j
    rw [if_neg hskip, hl]
  all_goals
    cases h
    exact hl

/-- Quiet commands leave the tables, the bucket and the key phases alone. -/
theorem exec_quiet {cmd : Cmd β} {b : β} (hq : cmd.isQuiet = true)
    (h : exec env i cmd ch w = some (b, w')) :
    w'.db = w.db ∧ w'.objects = w.objects ∧ w'.phases = w.phases ∧ w'.issued = w.issued := by
  obtain ⟨t, o⟩ := ch
  cases cmd <;> cases o <;> simp only [exec, Cmd.isQuiet, reduceCtorEq] at h hq <;> cases h <;>
    exact ⟨rfl, rfl, rfl, rfl⟩

theorem exec_uuid4 {owner id : UUID} (h : exec env i (.uuid4 owner) ch w = some (id, w')) :
    id ∉ w.issued ∧ w'.db = w.db ∧ w'.objects = w.objects ∧ w'.issued = id :: w.issued ∧
      w'.phases = Function.update w.phases (buildResumeObjectKey owner id) (.reserved i) := by
  obtain ⟨t, o⟩ := ch
  cases o <;> simp only [exec, reduceCtorEq] at h
  split at h
  · contradiction
  · rename_i hid
    cases h
    exact ⟨hid, rfl, rfl, rfl, rfl⟩

/-- A flush with its commit raises and changes nothing, or it writes its unit of
work as a whole. -/
theorem exec_flushCommit {u : UnitOfWork} {b : Except DbError Flushed}
    (h : exec env i (.flushCommit u) ch w = some (b, w')) :
    (∃ e, b = .error e ∧ w'.db = w.db ∧ w'.objects = w.objects ∧ w'.issued = w.issued ∧
      w'.phases = w.phases) ∨
    (∃ f, b = .ok f ∧ w.blocked i u = false ∧ f.rowId ∉ w.issued ∧
      f.now = w.now + ch.elapsed ∧ w.db.flush u f.now f.rowId = .ok w'.db ∧
      w'.objects = w.objects ∧ w'.issued = f.rowId :: w.issued ∧
      w'.phases = u.settle w.phases) := by
  obtain ⟨t, o⟩ := ch
  cases o <;> simp only [exec, reduceCtorEq] at h
  case fails err =>
    cases h
    exact Or.inl ⟨err, rfl, rfl, rfl, rfl, rfl⟩
  case fresh id =>
    split at h
    · contradiction
    · rename_i hfree
      simp only [Bool.or_eq_true, decide_eq_true_eq, not_or, Bool.not_eq_true] at hfree
      unfold World.flushCommit at h
      split at h <;> cases h
      · exact Or.inl ⟨_, rfl, rfl, rfl, rfl, rfl⟩
      · exact Or.inr ⟨_, rfl, hfree.1, hfree.2, rfl, ‹_›, rfl, rfl, rfl⟩

/-- A commit has had its statements accepted. -/
theorem exec_flushCommit_ok {u : UnitOfWork} {f : Flushed}
    (h : exec env i (.flushCommit u) ch w = some (.ok f, w')) :
    ∃ id, ch.outcome = .fresh id ∧ w.db.flush u (w.now + ch.elapsed) id = .ok w'.db := by
  obtain ⟨t, o⟩ := ch
  cases o <;> simp only [exec, reduceCtorEq] at h
  case fails err => cases h
  case fresh id =>
    refine ⟨id, rfl, ?_⟩
    split at h
    · contradiction
    · unfold World.flushCommit at h
      split at h
      · cases h
      · cases h
        assumption

theorem exec_storageUpload {key : ObjectKey} {b : Bool}
    (h : exec env i (.storageUpload key) ch w = some (b, w')) :
    ∃ o, ch.outcome = .storage o ∧ w'.db = w.db ∧ w'.issued = w.issued ∧
      w'.phases = Function.update w.phases key (.attempted i) ∧
      (∀ k, k ∈ w'.objects ↔ k ∈ w.objects ∨ (k = key ∧ o ≠ .failedBefore)) ∧
      (b = true ↔ o = .done ∧ key ∉ w.objects) := by
  obtain ⟨t, o⟩ := ch
  cases o <;> simp only [exec, reduceCtorEq] at h
  case storage o =>
    cases h
    refine ⟨o, rfl, ?_, ?_, ?_, ?_, ?_⟩
    · split <;> rfl
    · split <;> rfl
    · split <;> rfl
    · intro k
      split
      · rename_i hkeep
        simp only [Bool.or_eq_true, decide_eq_true_eq] at hkeep
        show k ∈ w.objects ↔ _
        constructor
        · exact Or.inl
        · rintro (hk | ⟨rfl, ho⟩)
          · exact hk
          · exact hkeep.resolve_left ho
      · rename_i hput
        simp only [Bool.or_eq_true, decide_eq_true_eq, not_or] at hput
        show k ∈ key :: w.objects ↔ _
        rw [List.mem_cons, or_comm]
        simp [hput.1]
    · rw [Bool.and_eq_true, decide_eq_true_eq, decide_eq_true_eq]
      rfl

theorem exec_storageDelete {key : ObjectKey} {b : Bool}
    (h : exec env i (.storageDelete key) ch w = some (b, w')) :
    ∃ o, ch.outcome = .storage o ∧ w'.db = w.db ∧ w'.issued = w.issued ∧
      w'.phases = w.phases ∧
      (∀ k, k ∈ w'.objects ↔ k ∈ w.objects ∧ (k = key → o = .failedBefore)) ∧
      (b = true ↔ o = .done) := by
  obtain ⟨t, o⟩ := ch
  cases o <;> simp only [exec, reduceCtorEq] at h
  case storage o =>
    cases h
    refine ⟨o, rfl, ?_, ?_, ?_, ?_, by simp⟩
    · split <;> rfl
    · split <;> rfl
    · split <;> rfl
    · intro k
      split
      · rename_i ho
        show k ∈ w.objects ↔ _
        simp [ho]
      · rename_i ho
        show k ∈ w.objects.filter (· ≠ key) ↔ _
        simp [ho]

theorem exec_storageDelete_locks {key : ObjectKey} {b : Bool}
    (h : exec env i (.storageDelete key) ch w = some (b, w')) : w'.locks = w.locks := by
  obtain ⟨t, o⟩ := ch
  cases o <;> simp only [exec, reduceCtorEq] at h
  cases h
  split <;> rfl

/-- A reconciliation run locks the due rows that it lists. -/
theorem exec_listDueForUpdate {now : Time} {limit : Nat} {b : List ResumeStorageCleanup}
    (h : exec env i (.listDueForUpdate now limit) ch w = some (b, w')) :
    ∀ c ∈ b, c ∈ w.db.cleanups ∧ w'.locks c.id = some i := by
  obtain ⟨t, o⟩ := ch
  cases o <;> simp only [exec, reduceCtorEq] at h
  cases h
  intro c hc
  have hlisted := List.mem_of_mem_take hc
  rw [List.mem_insertionSort, List.mem_filter] at hlisted
  refine ⟨hlisted.1, ?_⟩
  show (if c.id ∈ _ then some i else w.locks c.id) = some i
  exact if_pos (List.mem_map_of_mem hc)

end

end Resumes
end HireAndTech
