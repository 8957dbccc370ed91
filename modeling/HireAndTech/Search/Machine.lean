import HireAndTech.Catalogue.Tables
import HireAndTech.Interleaving.Program
import HireAndTech.Relational.Versions
import HireAndTech.Resumes.Tables

/-!
# Commands of the search lifecycle

The shared world of all calls that create or execute asynchronous searches: for
every search its committed version and the uncommitted version of the
transaction that holds its row lock, the task queue, and for every call the part
of its SQLAlchemy session that its behaviour depends on.  A command is one
statement of the service.

Statements run at READ COMMITTED: a query sees what has been committed before it,
or the call's own uncommitted version, and a write waits for the row lock and
then applies to the version that is committed by then.  A flush writes only the
columns whose value differs from the loaded one.

What the statements on the profile and catalogue tables return is up to the
environment, since those tables are written by others.  Any amount of time may
pass before a command takes effect, and it may raise.

The world also carries its history: the statuses that have been committed, and
which calls are handling a failure.  No command depends on the history.

Main results:

- Definition {lit}`exec`: the effect of one command under one choice of the
  environment.
- Theorems {lit}`exec_flush`, {lit}`exec_commit`, {lit}`exec_logException`,
  {lit}`exec_getLatestOwned` and {lit}`exec_quiet`: what the commands do.
-/

namespace HireAndTech
namespace Search

open Interleaving
open Catalogue (RemoteType)
open Relational (flushed)
open Resumes (CandidateProfile)

/-! ## Rows -/

/-- Lifecycle states for an asynchronous job search. -/
inductive SearchStatus
  | queued
  | processing
  | completed
  | failed
deriving DecidableEq, Repr

/-- A record of an asynchronous user search. -/
structure JobSearch where
  id : UUID
  userId : UUID
  status : SearchStatus
  query : Option String
  location : Option String
  remoteType : Option RemoteType
  jobType : Option String
  experienceMin : Option Nat
  experienceMax : Option Nat
  requestedLimit : Nat
  progress : Nat := 0
  currentStage : String
  errorMessage : Option String := none
  startedAt : Option Time := none
  completedAt : Option Time := none
deriving DecidableEq, Repr

/-- A single matched job for a specific search. -/
structure JobSearchResult where
  searchId : UUID
  jobId : UUID
  rank : Nat
  matchScore : ℚ
  skillsScore : ℚ
  experienceScore : ℚ
  locationScore : ℚ
  freshnessScore : ℚ
deriving DecidableEq, Repr

/-- One search with its saved results. -/
structure Version where
  search : JobSearch
  results : List JobSearchResult
deriving DecidableEq, Repr

/-- The `UPDATE` of a flush: the attributes that the services assign. -/
def JobSearch.flush (loaded assigned stored : JobSearch) : JobSearch :=
  { stored with
    status := flushed loaded.status assigned.status stored.status
    progress := flushed loaded.progress assigned.progress stored.progress
    currentStage := flushed loaded.currentStage assigned.currentStage stored.currentStage
    errorMessage := flushed loaded.errorMessage assigned.errorMessage stored.errorMessage
    startedAt := flushed loaded.startedAt assigned.startedAt stored.startedAt
    completedAt := flushed loaded.completedAt assigned.completedAt stored.completedAt }

/-! ## The world -/

/-- The part of an `AsyncSession` that the services depend on: the one search in its
identity map, with the values that it has loaded or flushed. -/
structure Session where
  inTransaction : Bool := false
  search : Option JobSearch := none
  expired : Bool := false
deriving DecidableEq, Repr

/-- The world that all calls share. -/
structure World where
  now : Time
  committed : UUID → Option Version
  pending : UUID → Option (CallId × Version)
  sessions : CallId → Session
  queue : List UUID
  issued : List UUID
  failing : List (CallId × UUID)
  log : List (UUID × SearchStatus)

namespace World

/-- Time passes. -/
def wait (w : World) (elapsed : Time) : World :=
  { w with now := w.now + elapsed }

/-- Call {lit}`i` changes its session. -/
def onSession (w : World) (i : CallId) (f : Session → Session) : World :=
  { w with sessions := Function.update w.sessions i (f (w.sessions i)) }

/-- The version of a search that a statement of call {lit}`i` sees. -/
def visible (w : World) (i : CallId) (id : UUID) : Option Version :=
  match w.pending id with
  | some (j, v) => if j = i then some v else w.committed id
  | none => w.committed id

/-- Another transaction holds the row lock of the search. -/
def locked (w : World) (i : CallId) (id : UUID) : Bool :=
  (w.pending id).any (·.1 ≠ i)

/-- Call {lit}`i` writes a search, which puts the row lock into its hands. -/
def write (w : World) (i : CallId) (id : UUID) (v : Version) : World :=
  { w with pending := Function.update w.pending id (some (i, v)) }

/-- Call {lit}`i` begins to handle a failure of the search. -/
def fail (w : World) (i : CallId) (id : UUID) : World :=
  { w with failing := (i, id) :: w.failing }

/-- The uncommitted versions of call {lit}`i` are dropped. -/
def discard (w : World) (i : CallId) : World :=
  { w with pending := fun id => (w.pending id).filter (·.1 ≠ i) }

/-- Call {lit}`i` is done with the failure that it was handling. -/
def recover (w : World) (i : CallId) : World :=
  { w with failing := w.failing.filter (·.1 ≠ i) }

/-- The version of call {lit}`i` becomes the committed one. -/
def persist (w : World) (i : CallId) (id : UUID) (v : Version) : World :=
  { (w.discard i).recover i with
    committed := Function.update w.committed id (some v)
    log := w.log ++ [(id, v.search.status)] }

/-- Call {lit}`i` commits its version of the search, if it has one. -/
def commit (w : World) (i : CallId) (id : UUID) : World :=
  match w.pending id with
  | some (j, v) => if j = i then w.persist i id v else w.recover i
  | none => w.recover i

/-- The end of call {lit}`i` closes its session. -/
def close (w : World) (i : CallId) : World :=
  { (w.discard i).recover i with sessions := Function.update w.sessions i {} }

/-- The search is committed with status {lit}`COMPLETED`. -/
def isCompleted (w : World) (id : UUID) : Bool :=
  (w.committed id).any (·.search.status = .completed)

/-- The statuses that have been committed for a search, oldest first. -/
def statuses (w : World) (id : UUID) : List SearchStatus :=
  (w.log.filter (·.1 = id)).map (·.2)

end World

/-! ## Session bookkeeping -/

namespace Session

/-- A query begins a transaction when none is in progress. -/
def begin (s : Session) : Session :=
  { s with inTransaction := true }

/-- The instance is in the identity map with these column values. -/
def hold (s : Session) (search : JobSearch) : Session :=
  { s with
    inTransaction := true
    search := some search
    expired := false }

/-- A commit ends the transaction; `expire_on_commit` is off. -/
def commit (s : Session) : Session :=
  { s with inTransaction := false }

/-- A rollback expires the instance, and is a pass-through without a transaction. -/
def rollback (s : Session) : Session :=
  if s.inTransaction then
    { s with
      inTransaction := false
      expired := true }
  else s

/-- What a query for a row gives: an instance that is already loaded keeps its values. -/
def load (s : Session) (row : JobSearch) : JobSearch :=
  match s.search with
  | some loaded => if s.expired || loaded.id ≠ row.id then row else loaded
  | none => row

end Session

/-! ## Commands -/

/-- Exceptions that leave a call. -/
inductive SearchError
  | raised
  | infrastructure (code message : String)
deriving DecidableEq, Repr

/-- The answer of a command that may raise. -/
abbrev Attempt (α : Type) := Except SearchError α

/-- The arguments of `CanonicalJobRepository.search`. -/
structure JobFilter where
  query : Option String
  location : Option String
  remote : Option Bool
  employmentType : Option String
  page : Nat
  pageSize : Nat
deriving DecidableEq, Repr

/-- The commands of the services, over a type of catalogue jobs. -/
inductive Cmd (Job : Type) : Type → Type
  | deliver (searchId : UUID) : Cmd Job Unit
  | clock : Cmd Job Time
  | createSearch (search : JobSearch) : Cmd Job (Attempt JobSearch)
  | getSearchForWorker (searchId : UUID) : Cmd Job (Attempt (Option JobSearch))
  | getLatestOwned (searchId ownerProfileId : UUID) : Cmd Job (Attempt (Option CandidateProfile))
  | searchJobs (filter : JobFilter) : Cmd Job (Attempt (List Job))
  | clearResults (searchId : UUID) : Cmd Job (Attempt Unit)
  | saveResults (searchId : UUID) (results : List JobSearchResult) : Cmd Job (Attempt Unit)
  | flush (search : JobSearch) : Cmd Job (Attempt Unit)
  | commit (search : JobSearch) : Cmd Job (Attempt Unit)
  | rollback : Cmd Job (Attempt Unit)
  | enqueueJob (searchId : UUID) : Cmd Job (Attempt Unit)
  | logInfo (event : String) (searchId : UUID) : Cmd Job (Attempt Unit)
  | logException (event : String) (searchId : UUID) : Cmd Job (Attempt Unit)

/-- The answers that the environment chooses.  A command may raise before or after it
takes effect. -/
inductive Outcome (Job : Type)
  | quiet
  | raises
  | raisesAfter
  | fresh (id : UUID)
  | profile (profile : Option CandidateProfile)
  | jobs (jobs : List Job)
deriving Repr

/-- How much time passes before the command takes effect, and how it ends. -/
structure Choice (Job : Type) where
  elapsed : Time := 0
  outcome : Outcome Job := .quiet
deriving Repr

variable {Job : Type}

/-- Flush the assigned attributes of call {lit}`i`; {lean}`none` while another
transaction holds the row lock. -/
def World.flush (w : World) (i : CallId) (assigned : JobSearch) : Option (Attempt Unit × World) :=
  match (w.sessions i).search with
  | none => none
  | some loaded =>
      if assigned = loaded then some (.ok (), w)
      else if w.locked i loaded.id then none
      else match w.visible i loaded.id with
        | none => some (.error .raised, w.onSession i Session.begin)
        | some v =>
            let v' := { v with search := loaded.flush assigned v.search }
            some (.ok (), (w.write i loaded.id v').onSession i (Session.hold · assigned))

/-- Replace the saved results of a search in the transaction of call {lit}`i`. -/
def World.putResults (w : World) (i : CallId) (id : UUID)
    (f : List JobSearchResult → List JobSearchResult) : Option (Attempt Unit × World) :=
  if w.locked i id then none
  else match w.visible i id with
    | none => some (.ok (), w.onSession i Session.begin)
    | some v =>
        some (.ok (), (w.write i id { v with results := f v.results }).onSession i Session.begin)

/-- The effect of one command of call {lit}`i`; {lean}`none` when the choice does not
answer the command or the command has to wait. -/
def exec {β : Type} (i : CallId) (cmd : Cmd Job β) (choice : Choice Job) (w₀ : World) :
    Option (β × World) :=
  let w := w₀.wait choice.elapsed
  match cmd, choice.outcome with
  | .deliver id, .quiet => if id ∈ w.queue then some ((), w) else none
  | .clock, .quiet => some (w.now, w)
  | .createSearch search, .fresh id =>
      if id ∈ w.issued then none else
        let row := { search with id := id }
        some (.ok row, ({ w with issued := id :: w.issued }.write i id ⟨row, []⟩).onSession i
          (Session.hold · row))
  | .createSearch _, .raises => some (.error .raised, w)
  | .getSearchForWorker id, .quiet =>
      match w.visible i id with
      | none => some (.ok none, w.onSession i Session.begin)
      | some v =>
          let search := (w.sessions i).load v.search
          some (.ok (some search), w.onSession i (Session.hold · search))
  | .getSearchForWorker _, .raises => some (.error .raised, w)
  | .getLatestOwned _ _, .profile (some profile) =>
      some (.ok (some profile), w.onSession i Session.begin)
  | .getLatestOwned id _, .profile none =>
      some (.ok none, (w.fail i id).onSession i Session.begin)
  | .getLatestOwned _ _, .raises => some (.error .raised, w)
  | .searchJobs _, .jobs jobs => some (.ok jobs, w.onSession i Session.begin)
  | .searchJobs _, .raises => some (.error .raised, w)
  | .clearResults id, .quiet => w.putResults i id fun _ => []
  | .clearResults _, .raises => some (.error .raised, w)
  | .saveResults id results, .quiet => w.putResults i id (· ++ results)
  | .saveResults _ _, .raises => some (.error .raised, w)
  | .flush search, .quiet => w.flush i search
  | .flush _, .raises => some (.error .raised, w)
  | .commit search, .quiet => some (.ok (), (w.commit i search.id).onSession i Session.commit)
  | .commit search, .raisesAfter => some (.error .raised, w.commit i search.id)
  | .commit _, .raises => some (.error .raised, w)
  | .rollback, .quiet => some (.ok (), (w.discard i).onSession i Session.rollback)
  | .rollback, .raises => some (.error .raised, w)
  | .enqueueJob id, .quiet => some (.ok (), { w with queue := id :: w.queue })
  | .enqueueJob id, .raisesAfter => some (.error .raised, { w with queue := id :: w.queue })
  | .enqueueJob _, .raises => some (.error .raised, w)
  | .logInfo _ _, .quiet => some (.ok (), w)
  | .logInfo _ _, .raises => some (.error .raised, w)
  | .logException _ id, .quiet => some (.ok (), w.fail i id)
  | .logException _ _, .raises => some (.error .raised, w)
  | _, _ => none

/-! ## What each command can do -/

/-- Two worlds differ at most in the clock, the queue and in transactions begun. -/
structure Unchanged (w w' : World) : Prop where
  committed : w'.committed = w.committed
  pending : w'.pending = w.pending
  search : ∀ j, (w'.sessions j).search = (w.sessions j).search
  issued : w'.issued = w.issued
  failing : w'.failing = w.failing
  log : w'.log = w.log

/-- The commands that touch neither a search nor its history. -/
def Cmd.isQuiet {β : Type} : Cmd Job β → Bool
  | .deliver _ | .clock | .searchJobs _ | .enqueueJob _ | .logInfo _ _ => true
  | _ => false

@[simp]
theorem Unchanged.wait (w : World) (t : Time) : Unchanged w (w.wait t) :=
  ⟨rfl, rfl, fun _ => rfl, rfl, rfl, rfl⟩

section

attribute [local simp] exec

variable {i : CallId} {w w' : World} {β : Type} {cmd : Cmd Job β} {b : β} {ch : Choice Job}

theorem Unchanged.onSession (h : Unchanged w w') {f : Session → Session}
    (hf : ∀ s, (f s).search = s.search) : Unchanged w (w'.onSession i f) := by
  refine ⟨h.committed, h.pending, fun j => ?_, h.issued, h.failing, h.log⟩
  by_cases hj : j = i
  · subst hj
    simp [World.onSession, hf, h.search]
  · simp [World.onSession, hj, h.search]

theorem exec_quiet (hq : cmd.isQuiet = true) (he : exec i cmd ch w = some (b, w')) :
    Unchanged w w' := by
  obtain ⟨t, o⟩ := ch
  cases cmd <;> simp only [Cmd.isQuiet, Bool.false_eq_true] at hq <;> cases o <;>
    simp only [exec, reduceCtorEq] at he
  case deliver.quiet =>
    split at he
    · cases he
      exact Unchanged.wait w t
    · contradiction
  all_goals
    cases he
    first
    | exact ⟨rfl, rfl, fun _ => rfl, rfl, rfl, rfl⟩
    | exact (Unchanged.wait w t).onSession fun _ => rfl

theorem exec_createSearch {search : JobSearch} {b : Attempt JobSearch}
    (he : exec i (.createSearch search : Cmd Job _) ch w = some (b, w')) :
    (b = .error .raised ∧ Unchanged w w') ∨
      ∃ id w₁, id ∉ w.issued ∧ b = .ok { search with id := id } ∧ Unchanged w w₁ ∧
        w' = ({ w₁ with issued := id :: w₁.issued }.write i id
          ⟨{ search with id := id }, []⟩).onSession i
            (Session.hold · { search with id := id }) := by
  obtain ⟨t, o⟩ := ch
  cases o <;> simp only [exec, reduceCtorEq] at he
  case raises =>
    cases he
    exact Or.inl ⟨rfl, Unchanged.wait w t⟩
  case fresh id =>
    split at he
    · contradiction
    · cases he
      exact Or.inr ⟨id, w.wait t, ‹_›, rfl, Unchanged.wait w t, rfl⟩

theorem exec_getSearchForWorker {id : UUID} {b : Attempt (Option JobSearch)}
    (he : exec i (.getSearchForWorker id : Cmd Job _) ch w = some (b, w')) :
    (b = .error .raised ∧ Unchanged w w') ∨ (b = .ok none ∧ Unchanged w w') ∨
      ∃ v w₁, w.visible i id = some v ∧ b = .ok (some ((w.sessions i).load v.search)) ∧
        Unchanged w w₁ ∧
        w' = w₁.onSession i (Session.hold · ((w.sessions i).load v.search)) := by
  obtain ⟨t, o⟩ := ch
  cases o <;> simp only [exec, reduceCtorEq] at he
  case raises =>
    cases he
    exact Or.inl ⟨rfl, Unchanged.wait w t⟩
  case quiet =>
    split at he
    · cases he
      exact Or.inr (Or.inl ⟨rfl, (Unchanged.wait w t).onSession fun _ => rfl⟩)
    · cases he
      exact Or.inr (Or.inr ⟨_, w.wait t, ‹_›, rfl, Unchanged.wait w t, rfl⟩)

/-- A flush that does not raise leaves the instance with the assigned values, and either
there was nothing to send or it has written the row. -/
theorem exec_flush {assigned : JobSearch} {b : Attempt Unit}
    (he : exec i (.flush assigned : Cmd Job _) ch w = some (b, w')) :
    (b = .error .raised ∧ Unchanged w w') ∨
      (b = .ok () ∧ Unchanged w w' ∧ (w.sessions i).search = some assigned) ∨
      ∃ loaded v w₁, b = .ok () ∧ (w.sessions i).search = some loaded ∧
        w.locked i loaded.id = false ∧ w.visible i loaded.id = some v ∧ Unchanged w w₁ ∧
        w' = (w₁.write i loaded.id
          { v with search := loaded.flush assigned v.search }).onSession i
            (Session.hold · assigned) := by
  obtain ⟨t, o⟩ := ch
  cases o <;> simp only [exec, reduceCtorEq] at he
  case raises =>
    cases he
    exact Or.inl ⟨rfl, Unchanged.wait w t⟩
  case quiet =>
    unfold World.flush at he
    split at he
    · contradiction
    · rename_i loaded hloaded
      split at he
      · cases he
        exact Or.inr (Or.inl ⟨rfl, Unchanged.wait w t, ‹assigned = loaded› ▸ hloaded⟩)
      · split at he
        · contradiction
        · rename_i hlocked
          split at he
          · cases he
            exact Or.inl ⟨rfl, (Unchanged.wait w t).onSession fun _ => rfl⟩
          · cases he
            exact Or.inr (Or.inr ⟨loaded, _, w.wait t, rfl, hloaded,
              eq_false_of_ne_true hlocked, ‹_›, Unchanged.wait w t, rfl⟩)

theorem putResults_cases {id : UUID} {f : List JobSearchResult → List JobSearchResult}
    {b : Attempt Unit} (he : w.putResults i id f = some (b, w')) :
    Unchanged w w' ∨ ∃ v rs, w.locked i id = false ∧ w.visible i id = some v ∧
      Unchanged (w.write i id { v with results := rs }) w' := by
  unfold World.putResults at he
  split at he
  · contradiction
  · rename_i hlocked
    split at he
    · cases he
      exact Or.inl (Unchanged.onSession ⟨rfl, rfl, fun _ => rfl, rfl, rfl, rfl⟩ fun _ => rfl)
    · cases he
      exact Or.inr ⟨_, _, eq_false_of_ne_true hlocked, ‹_›,
        Unchanged.onSession ⟨rfl, rfl, fun _ => rfl, rfl, rfl, rfl⟩ fun _ => rfl⟩

/-- The search whose saved results a command changes. -/
def Cmd.resultsOf {β : Type} : Cmd Job β → Option UUID
  | .clearResults id | .saveResults id _ => some id
  | _ => none

theorem exec_results {id : UUID} (hcmd : cmd.resultsOf = some id)
    (he : exec i cmd ch w = some (b, w')) :
    ∃ w₁, Unchanged w w₁ ∧ (Unchanged w₁ w' ∨ ∃ v rs, w₁.locked i id = false ∧
      w₁.visible i id = some v ∧ Unchanged (w₁.write i id { v with results := rs }) w') := by
  obtain ⟨t, o⟩ := ch
  cases cmd <;> cases hcmd <;> cases o <;> simp only [exec, reduceCtorEq] at he
  case clearResults.refl.quiet => exact ⟨w.wait t, Unchanged.wait w t, putResults_cases he⟩
  case saveResults.refl.quiet => exact ⟨w.wait t, Unchanged.wait w t, putResults_cases he⟩
  all_goals
    cases he
    exact ⟨w.wait t, Unchanged.wait w t, Or.inl ⟨rfl, rfl, fun _ => rfl, rfl, rfl, rfl⟩⟩

theorem exec_commit {search : JobSearch} {b : Attempt Unit}
    (he : exec i (.commit search : Cmd Job _) ch w = some (b, w')) :
    (b = .error .raised ∧ Unchanged w w') ∨
      ∃ w₁, ch.outcome ≠ .raises ∧ Unchanged w w₁ ∧ Unchanged (w₁.commit i search.id) w' := by
  obtain ⟨t, o⟩ := ch
  cases o <;> simp only [exec, reduceCtorEq] at he
  case raises =>
    cases he
    exact Or.inl ⟨rfl, Unchanged.wait w t⟩
  case quiet =>
    cases he
    exact Or.inr ⟨w.wait t, by simp, Unchanged.wait w t,
      Unchanged.onSession ⟨rfl, rfl, fun _ => rfl, rfl, rfl, rfl⟩ fun _ => rfl⟩
  case raisesAfter =>
    cases he
    exact Or.inr ⟨w.wait t, by simp, Unchanged.wait w t, ⟨rfl, rfl, fun _ => rfl, rfl, rfl, rfl⟩⟩

@[simp]
theorem Session.rollback_search (s : Session) : s.rollback.search = s.search := by
  unfold Session.rollback
  split <;> rfl

theorem exec_rollback {b : Attempt Unit}
    (he : exec i (.rollback : Cmd Job _) ch w = some (b, w')) :
    (b = .error .raised ∧ Unchanged w w') ∨ ∃ w₁, Unchanged w w₁ ∧ Unchanged (w₁.discard i) w' := by
  obtain ⟨t, o⟩ := ch
  cases o <;> simp only [exec, reduceCtorEq] at he
  case raises =>
    cases he
    exact Or.inl ⟨rfl, Unchanged.wait w t⟩
  case quiet =>
    cases he
    exact Or.inr ⟨w.wait t, Unchanged.wait w t,
      Unchanged.onSession ⟨rfl, rfl, fun _ => rfl, rfl, rfl, rfl⟩ Session.rollback_search⟩

theorem exec_logException {event : String} {id : UUID} {b : Attempt Unit}
    (he : exec i (.logException event id : Cmd Job _) ch w = some (b, w')) :
    (b = .error .raised ∧ Unchanged w w') ∨
      ∃ w₁, b = .ok () ∧ ch.outcome = .quiet ∧ Unchanged w w₁ ∧ Unchanged (w₁.fail i id) w' := by
  obtain ⟨t, o⟩ := ch
  cases o <;> simp only [exec, reduceCtorEq] at he
  case raises =>
    cases he
    exact Or.inl ⟨rfl, Unchanged.wait w t⟩
  case quiet =>
    cases he
    exact Or.inr ⟨w.wait t, rfl, rfl, Unchanged.wait w t, ⟨rfl, rfl, fun _ => rfl, rfl, rfl, rfl⟩⟩

theorem exec_getLatestOwned {id owner : UUID} {b : Attempt (Option CandidateProfile)}
    (he : exec i (.getLatestOwned id owner : Cmd Job _) ch w = some (b, w')) :
    (b ≠ .ok none ∧ Unchanged w w') ∨
      ∃ w₁, b = .ok none ∧ ch.outcome = .profile none ∧ Unchanged w w₁ ∧
        Unchanged (w₁.fail i id) w' := by
  obtain ⟨t, o⟩ := ch
  rcases o with _ | _ | _ | _ | (_ | profile) | _ <;> simp only [exec, reduceCtorEq] at he
  case raises =>
    cases he
    exact Or.inl ⟨by simp, Unchanged.wait w t⟩
  case profile.some =>
    cases he
    exact Or.inl ⟨by simp, (Unchanged.wait w t).onSession fun _ => rfl⟩
  case profile.none =>
    cases he
    exact Or.inr ⟨w.wait t, rfl, rfl, Unchanged.wait w t,
      Unchanged.onSession ⟨rfl, rfl, fun _ => rfl, rfl, rfl, rfl⟩ fun _ => rfl⟩

end

end Search
end HireAndTech
