import HireAndTech.Resumes.Machine

/-!
# The resume service

The operations of `ResumeService` as programs over the commands of the resume
machine.  Each program follows the source statement by statement; an exception
that a source statement may raise is the error branch of the command's answer.

Main results:

- Definitions {lit}`upload`, {lit}`replace`, {lit}`delete`,
  {lit}`reconcileStorageCleanups`, {lit}`listOwned` and
  {lit}`getCandidateProfile`: the operations.
- Definition {lit}`resumeMachine`: the machine whose calls run them.
-/

namespace HireAndTech
namespace Resumes

open Interleaving Prog

/-! ## Errors -/

/-- Exceptions that leave an operation.  {lit}`missingGreenlet` is what SQLAlchemy
raises when an expired attribute is read without awaiting. -/
inductive ServiceError
  | application (e : ApplicationError)
  | database (e : DbError)
  | missingGreenlet
deriving DecidableEq, Repr

def notFound : ServiceError :=
  .application ⟨"NOT_FOUND", "The requested resource was not found.", 404⟩

def storageUnavailable (message : String) : ServiceError :=
  .application ⟨"RESUME_STORAGE_UNAVAILABLE", message, 503⟩

/-- `_parser_unavailable`. -/
def parserUnavailable : ServiceError :=
  .application ⟨"RESUME_PARSER_UNAVAILABLE", "Resume parsing is temporarily unavailable.", 503⟩

/-- `_concurrent_change`. -/
def concurrentChange : ServiceError :=
  .application
    ⟨"CONFLICT", "The resume changed during this request. Retry with the latest state.", 409⟩

/-! ## Inputs and outputs -/

/-- Trusted metadata calculated from validated upload bytes. -/
structure ValidatedResumeUpload where
  originalFilename : String
  contentType : String
  sizeBytes : Nat
  sha256 : String
  content : List UInt8
deriving DecidableEq, Repr

/-- The value that an operation returns. -/
inductive Reply
  | resume (r : Resume)
  | profile (p : CandidateProfile)
  | page (items : List Resume) (total : Nat)
  | counts (removed failed : Nat)
deriving DecidableEq, Repr

/-- The operations that a caller can request. -/
inductive Request
  | upload (owner : UUID) (file : ValidatedResumeUpload)
  | replace (resumeId owner : UUID) (file : ValidatedResumeUpload)
  | delete (resumeId owner : UUID)
  | reconcile (limit : Nat)
  | listOwned (owner : UUID) (offset limit : Nat)
  | getCandidateProfile (resumeId owner : UUID)
deriving DecidableEq, Repr

/-- What an operation returns or raises. -/
abbrev Raises (α : Type) := Except ServiceError α

variable (env : Env)

/-! ## Rows that the service builds -/

/-- `_cleanup_record`. -/
def cleanupRecord (owner : UUID) (objectKey : ObjectKey) (availableAt : Time) :
    CleanupDraft where
  ownerProfileId := owner
  storageBucket := env.resumeStorageBucket
  storageObjectKey := objectKey
  availableAt := availableAt
  attempts := 0
  lastErrorCode := none

/-- The resume row of a stored upload; the database sets its version and
{lit}`created_at`. -/
def newResume (id owner : UUID) (objectKey : ObjectKey) (file : ValidatedResumeUpload)
    (status : ResumeStatus) (parseErrorCode : Option String) : Resume where
  id := id
  ownerProfileId := owner
  originalFilename := file.originalFilename
  storageBucket := env.resumeStorageBucket
  storageObjectKey := objectKey
  contentType := file.contentType
  sizeBytes := file.sizeBytes
  sha256 := file.sha256
  status := status
  parserVersion := some env.resumeParserVersion
  parseErrorCode := parseErrorCode
  version := 1
  deletedAt := none
  createdAt := 0

/-- The candidate profile of a parsed resume; the database sets {lit}`updated_at`. -/
def newProfile (resumeId owner : UUID) (parsed : ParsedResume) : CandidateProfile where
  toParsedResume := parsed
  resumeId := resumeId
  ownerProfileId := owner
  updatedAt := 0

/-! ## Helpers -/

/-- `timedelta(minutes=15)`. -/
def reservationPeriod : Time :=
  15 * 60 * 1000000

/-- `_reserve_cleanup`. -/
def reserveCleanup (owner : UUID) (objectKey : ObjectKey) :
    Prog Cmd (Raises ResumeStorageCleanup) := do
  let now ← perform .now
  let cleanup := cleanupRecord env owner objectKey (now + reservationPeriod)
  match ← perform (.flushCommit { insertCleanup := some cleanup }) with
  | .error e =>
      perform .rollback
      return .error (.database e)
  | .ok flushed => return .ok { cleanup with id := flushed.rowId }

/-- `_clear_cleanup_best_effort`. -/
def clearCleanupBestEffort (cleanup : ResumeStorageCleanup) : Prog Cmd Unit := do
  match ← perform (.flushCommit { deleteCleanups := [cleanup.id] }) with
  | .error _ => perform .rollback
  | .ok _ => return ()

/-- `_compensate_with_journal`.  The key is an attribute of the persistent
reservation, so reading it fails when a rollback has expired it. -/
def compensateWithJournal (cleanup : ResumeStorageCleanup) : Prog Cmd (Raises Unit) := do
  match ← perform (.readObjectKey cleanup) with
  | none => return .error .missingGreenlet
  | some key =>
      if ← perform (.storageDelete key) then
        clearCleanupBestEffort cleanup
        return .ok ()
      else return .ok ()

/-- The handlers that compensate and then raise an error. -/
def compensateAndRaise {α : Type} (cleanup : ResumeStorageCleanup) (error : ServiceError) :
    Prog Cmd (Raises α) := do
  match ← compensateWithJournal cleanup with
  | .error e => return .error e
  | .ok () => return .error error

/-! ## Operations -/

/-- The end of {lit}`upload`: persist the resume, with its profile when there is one,
and drop the reservation. -/
def persistUpload (cleanup : ResumeStorageCleanup) (resume : Resume)
    (profile : Option CandidateProfile) : Prog Cmd (Raises Resume) := do
  match ← perform (.flushCommit {
      insertResume := some resume
      insertProfile := profile
      deleteCleanups := [cleanup.id] }) with
  | .error e =>
      perform .rollback
      compensateAndRaise cleanup (.database e)
  | .ok flushed => return .ok { resume with createdAt := flushed.now }

/-- `ResumeService.upload`. -/
def upload (owner : UUID) (file : ValidatedResumeUpload) : Prog Cmd (Raises Resume) := do
  let resumeId ← perform (.uuid4 owner)
  let objectKey := buildResumeObjectKey owner resumeId
  match ← reserveCleanup env owner objectKey with
  | .error e => return .error e
  | .ok cleanup =>
    if ← perform (.storageUpload objectKey) then
      perform .sessionAdd
      match ← perform (.parse file.content) with
      | .rejected error =>
          let resume := newResume env resumeId owner objectKey file .parseFailed (some error.code)
          match ← persistUpload cleanup resume none with
          | .error e => return .error e
          | .ok _ => return .error (.application error)
      | .executionError =>
          perform .rollback
          compensateAndRaise cleanup parserUnavailable
      | .parsed parsed =>
          let resume := newResume env resumeId owner objectKey file .parsed none
          persistUpload cleanup resume (some (newProfile resumeId owner parsed))
    else
      clearCleanupBestEffort cleanup
      return .error (storageUnavailable "The resume could not be stored.")

/-- The end of {lit}`replace`: retire the current resume in favour of its replacement
and remove the retired object. -/
def retireAndReplace (current : Resume) (cleanup : ResumeStorageCleanup) (replacement : Resume)
    (profile : CandidateProfile) : Prog Cmd (Raises Resume) := do
  let deletedAt ← perform .now
  let availableAt ← perform .now
  let oldCleanup :=
    cleanupRecord env replacement.ownerProfileId current.storageObjectKey availableAt
  match ← perform (.flushCommit {
      retire := some (current, deletedAt)
      insertResume := some replacement
      insertProfile := some profile
      insertCleanup := some oldCleanup
      deleteCleanups := [cleanup.id] }) with
  | .error .staleData =>
      perform .rollback
      compensateAndRaise cleanup concurrentChange
  | .error e =>
      perform .rollback
      compensateAndRaise cleanup (.database e)
  | .ok flushed =>
      if ← perform (.storageDelete current.storageObjectKey) then
        clearCleanupBestEffort { oldCleanup with id := flushed.rowId }
        return .ok { replacement with createdAt := flushed.now }
      else
        return .error (storageUnavailable
          "The replaced resume storage cleanup could not be completed.")

/-- `ResumeService.replace`. -/
def replace (resumeId owner : UUID) (file : ValidatedResumeUpload) : Prog Cmd (Raises Resume) := do
  match ← perform (.getOwned resumeId owner false) with
  | none => return .error notFound
  | some current =>
    let replacementId ← perform (.uuid4 owner)
    let objectKey := buildResumeObjectKey owner replacementId
    match ← reserveCleanup env owner objectKey with
    | .error e => return .error e
    | .ok cleanup =>
      if ← perform (.storageUpload objectKey) then
        match ← perform (.parse file.content) with
        | .rejected error => compensateAndRaise cleanup (.application error)
        | .executionError =>
            perform .rollback
            compensateAndRaise cleanup parserUnavailable
        | .parsed parsed =>
            retireAndReplace env current cleanup
              (newResume env replacementId owner objectKey file .parsed none)
              (newProfile replacementId owner parsed)
      else
        clearCleanupBestEffort cleanup
        return .error (storageUnavailable "The replacement resume could not be stored.")

/-- `ResumeService.list_owned`. -/
def listOwned (owner : UUID) (offset limit : Nat) : Prog Cmd (Raises (List Resume × Nat)) := do
  let rows ← perform (.listOwnedPage owner offset limit)
  let total ← perform (.countOwned owner)
  return .ok (rows, total)

/-- `ResumeService.get_candidate_profile`. -/
def getCandidateProfile (resumeId owner : UUID) : Prog Cmd (Raises CandidateProfile) := do
  match ← perform (.getOwned resumeId owner false) with
  | none => return .error notFound
  | some _ =>
    match ← perform (.getOwnedByResumeId resumeId owner) with
    | none => return .error notFound
    | some profile => return .ok profile

/-- The end of {lit}`delete`: remove the object of a deleted resume. -/
def removeDeleted (resume : Resume) (cleanup : ResumeStorageCleanup) :
    Prog Cmd (Raises Resume) := do
  if ← perform (.storageDelete resume.storageObjectKey) then
    clearCleanupBestEffort cleanup
    return .ok resume
  else
    return .error (storageUnavailable "The resume storage cleanup could not be completed.")

/-- `ResumeService.delete`. -/
def delete (resumeId owner : UUID) : Prog Cmd (Raises Resume) := do
  match ← perform (.getOwned resumeId owner true) with
  | none => return .error notFound
  | some resume =>
    if resume.status ≠ .deleted then
      let deletedAt ← perform .now
      let availableAt ← perform .now
      let cleanup := cleanupRecord env owner resume.storageObjectKey availableAt
      match ← perform (.flushCommit {
          retire := some (resume, deletedAt)
          insertCleanup := some cleanup }) with
      | .error .staleData =>
          perform .rollback
          return .error concurrentChange
      | .error e =>
          perform .rollback
          return .error (.database e)
      | .ok flushed =>
          removeDeleted (retireRow resume deletedAt resume) { cleanup with id := flushed.rowId }
    else
      match ← perform (.getByObjectKey resume.storageObjectKey) with
      | some existing => removeDeleted resume existing
      | none =>
          let availableAt ← perform .now
          let cleanup := cleanupRecord env owner resume.storageObjectKey availableAt
          match ← perform (.flushCommit { insertCleanup := some cleanup }) with
          | .error e => return .error (.database e)
          | .ok flushed => removeDeleted resume { cleanup with id := flushed.rowId }

/-- The loop of `reconcile_storage_cleanups`: the rows whose object could be
deleted and the rows whose attempt failed. -/
def sweep : List ResumeStorageCleanup →
    Prog Cmd (List ResumeStorageCleanup × List ResumeStorageCleanup)
  | [] => return ([], [])
  | cleanup :: rest => do
      let success ← perform (.storageDelete cleanup.storageObjectKey)
      let (removed, failed) ← sweep rest
      if success then return (cleanup :: removed, failed)
      else return (removed, cleanup :: failed)

/-- `ResumeService.reconcile_storage_cleanups`. -/
def reconcileStorageCleanups (limit : Nat) : Prog Cmd (Raises (Nat × Nat)) := do
  let now ← perform .now
  let cleanups ← perform (.listDueForUpdate now limit)
  let (removed, failed) ← sweep cleanups
  match ← perform (.flushCommit {
      deleteCleanups := removed.map (·.id)
      failCleanups := failed.map (·.id) }) with
  | .error e => return .error (.database e)
  | .ok _ => return .ok (removed.length, failed.length)

/-! ## The machine -/

/-- Turn the value of an operation into a reply. -/
def replyWith {α : Type} (f : α → Reply) (p : Prog Cmd (Raises α)) : Prog Cmd (Raises Reply) := do
  return (← p).map f

/-- The program of a request. -/
def program : Request → Prog Cmd (Raises Reply)
  | .upload owner file => replyWith .resume (upload env owner file)
  | .replace resumeId owner file => replyWith .resume (replace env resumeId owner file)
  | .delete resumeId owner => replyWith .resume (delete env resumeId owner)
  | .reconcile limit => replyWith (fun p => .counts p.1 p.2) (reconcileStorageCleanups limit)
  | .listOwned owner offset limit =>
      replyWith (fun p => .page p.1 p.2) (listOwned owner offset limit)
  | .getCandidateProfile resumeId owner =>
      replyWith .profile (getCandidateProfile resumeId owner)

/-- The machine of the resume service. -/
def resumeMachine : Machine World Cmd Choice Request (Except ServiceError Reply) where
  program := program env
  exec := exec env
  close i w := w.close i

end Resumes
end HireAndTech
