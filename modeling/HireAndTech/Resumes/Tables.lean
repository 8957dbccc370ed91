import HireAndTech.Base.Uuid

/-!
# Resume tables

Rows of {lit}`resumes`, {lit}`candidate_profiles` and
{lit}`resume_storage_cleanups`, the queries of the resume repositories, and the
effect of one flushed and committed unit of work.

The text fields of a row are kept where some function of the service reads or
writes them.  Times are microseconds.

Main results:

- Theorem {lit}`flush_eq_ok`: what a successful flush checked and what it wrote.
- Theorem {lit}`buildResumeObjectKey_injective`: an object key names one owner and
  one resume.
-/

namespace HireAndTech
namespace Resumes

/-- A storage key of the resume bucket. -/
abbrev ObjectKey := String

/-! ## Rows -/

/-- Lifecycle states for a privately stored resume. -/
inductive ResumeStatus
  | uploaded
  | parsing
  | parsed
  | parseFailed
  | deleted
deriving DecidableEq, Repr

/-- One privately stored, user-owned resume file. -/
structure Resume where
  id : UUID
  ownerProfileId : UUID
  originalFilename : String
  storageBucket : String
  storageObjectKey : ObjectKey
  contentType : String
  sizeBytes : Nat
  sha256 : String
  status : ResumeStatus
  parserVersion : Option String
  parseErrorCode : Option String
  version : Nat
  deletedAt : Option Time
  createdAt : Time
deriving DecidableEq, Repr

/-- Normalized employment entry extracted from a resume. -/
structure EmploymentEntry where
  company : Option String
  title : Option String
  location : Option String
  startDate : Option String
  endDate : Option String
  description : Option String
deriving DecidableEq, Repr

/-- Normalized education entry extracted from a resume. -/
structure EducationEntry where
  institution : Option String
  qualification : Option String
  fieldOfStudy : Option String
  startDate : Option String
  endDate : Option String
deriving DecidableEq, Repr

/-- Deterministic parser output before persistence.  The free-form
{lit}`raw_parser_output` object is kept as its JSON text. -/
structure ParsedResume where
  fullName : Option String
  email : Option String
  phone : Option String
  location : Option String
  currentTitle : Option String
  professionalSummary : Option String
  yearsOfExperience : Option ℚ
  extractedText : String
  skills : List String
  employmentHistory : List EmploymentEntry
  education : List EducationEntry
  certifications : List String
  languages : List String
  rawParserOutput : String
deriving DecidableEq, Repr

/-- Structured candidate data of one resume. -/
structure CandidateProfile extends ParsedResume where
  resumeId : UUID
  ownerProfileId : UUID
  updatedAt : Time
deriving DecidableEq, Repr

/-- A cleanup intent before the database has given it an id. -/
structure CleanupDraft where
  ownerProfileId : UUID
  storageBucket : String
  storageObjectKey : ObjectKey
  availableAt : Time
  attempts : Nat
  lastErrorCode : Option String
deriving DecidableEq, Repr

/-- Durable, private cleanup intent for cross-system storage consistency. -/
structure ResumeStorageCleanup extends CleanupDraft where
  id : UUID
deriving DecidableEq, Repr

/-- The three resume tables, in committed state. -/
structure Database where
  resumes : List Resume
  profiles : List CandidateProfile
  cleanups : List ResumeStorageCleanup
deriving DecidableEq, Repr

/-- `build_resume_object_key`. -/
def buildResumeObjectKey (ownerId resumeId : UUID) : ObjectKey :=
  ownerId.str ++ "/" ++ resumeId.str ++ ".pdf"

/-- An object key names its owner and its resume. -/
theorem buildResumeObjectKey_injective {o o' r r' : UUID}
    (h : buildResumeObjectKey o r = buildResumeObjectKey o' r') : o = o' ∧ r = r' := by
  have hl : o.str.toList ++ ('/' :: (r.str.toList ++ ".pdf".toList)) =
      o'.str.toList ++ ('/' :: (r'.str.toList ++ ".pdf".toList)) := by
    simpa [buildResumeObjectKey] using congrArg String.toList h
  obtain ⟨ho, hr⟩ := List.append_inj hl (by simp [UUID.toList_str_length])
  obtain ⟨hr, _⟩ := List.append_inj (List.tail_eq_of_cons_eq hr)
    (by simp [UUID.toList_str_length])
  exact ⟨UUID.str_injective (String.toList_injective ho),
    UUID.str_injective (String.toList_injective hr)⟩

/-! ## Repository queries -/

/-- `ResumeRepository.get_owned`. -/
def Database.getOwned (db : Database) (resumeId ownerProfileId : UUID)
    (includeDeleted : Bool) : Option Resume :=
  db.resumes.find? fun r => r.id = resumeId && r.ownerProfileId = ownerProfileId &&
    (includeDeleted || r.status != .deleted)

/-- The rows behind `ResumeRepository.list_owned_page`. -/
def Database.activeOwned (db : Database) (ownerProfileId : UUID) : List Resume :=
  db.resumes.filter fun r => r.ownerProfileId = ownerProfileId && r.status != .deleted

/-- `ORDER BY created_at DESC, id DESC`. -/
def newestFirst (a b : Resume) : Prop :=
  b.createdAt < a.createdAt ∨ (a.createdAt = b.createdAt ∧ b.id ≤ a.id)

instance : DecidableRel newestFirst := fun a b => by
  unfold newestFirst
  infer_instance

/-- The page statement of `ResumeRepository.list_owned_page`. -/
def Database.listOwnedPage (db : Database) (ownerProfileId : UUID) (offset limit : Nat) :
    List Resume :=
  (((db.activeOwned ownerProfileId).insertionSort newestFirst).drop offset).take limit

/-- The count statement of `ResumeRepository.list_owned_page`. -/
def Database.countOwned (db : Database) (ownerProfileId : UUID) : Nat :=
  (db.activeOwned ownerProfileId).length

/-- `CandidateProfileRepository.get_owned_by_resume_id`. -/
def Database.getOwnedByResumeId (db : Database) (resumeId ownerProfileId : UUID) :
    Option CandidateProfile :=
  db.profiles.find? fun p => p.resumeId = resumeId && p.ownerProfileId = ownerProfileId

/-- `ResumeStorageCleanupRepository.get_by_object_key`; the query names no owner. -/
def Database.getByObjectKey (db : Database) (objectKey : ObjectKey) :
    Option ResumeStorageCleanup :=
  db.cleanups.find? fun c => c.storageObjectKey = objectKey

/-- `ORDER BY available_at, id`. -/
def dueFirst (a b : ResumeStorageCleanup) : Prop :=
  a.availableAt < b.availableAt ∨ (a.availableAt = b.availableAt ∧ a.id ≤ b.id)

instance : DecidableRel dueFirst := fun a b => by
  unfold dueFirst
  infer_instance

/-- `ResumeStorageCleanupRepository.list_due_for_update`; {lit}`skipped` are the rows
that another transaction has locked. -/
def Database.listDueForUpdate (db : Database) (now : Time) (limit : Nat)
    (skipped : ResumeStorageCleanup → Bool) : List ResumeStorageCleanup :=
  ((db.cleanups.filter fun c => c.availableAt ≤ now && !skipped c).insertionSort dueFirst).take
    limit

/-! ## Flushing and committing a unit of work -/

/-- Errors that a flush or a commit raises. -/
inductive DbError
  | staleData
  | integrity
  | operational
deriving DecidableEq, Repr

/-- The changes that a session has staged when it is flushed and committed.
{lit}`retire` holds the resume as the session loaded it and its new
{lit}`deleted_at`; {lit}`failCleanups` are the rows whose failed attempt is
recorded. -/
structure UnitOfWork where
  retire : Option (Resume × Time) := none
  insertResume : Option Resume := none
  insertProfile : Option CandidateProfile := none
  insertCleanup : Option CleanupDraft := none
  deleteCleanups : List UUID := []
  failCleanups : List UUID := []
deriving DecidableEq, Repr

/-- The versioned row that `UPDATE resumes … WHERE id = … AND version = …` matches. -/
def matchesVersion (current row : Resume) : Bool :=
  row.id = current.id && row.version = current.version

/-- The retirement of a resume: the row loses its active status and its version
is counted up. -/
def retireRow (current : Resume) (deletedAt : Time) (row : Resume) : Resume :=
  if matchesVersion current row then
    { row with
      status := .deleted
      deletedAt := some deletedAt
      version := row.version + 1 }
  else row

/-- `cleanup.attempts += 1` together with the error code. -/
def failRow (ids : List UUID) (row : ResumeStorageCleanup) : ResumeStorageCleanup :=
  if row.id ∈ ids then
    { row with
      attempts := row.attempts + 1
      lastErrorCode := some "RESUME_STORAGE_UNAVAILABLE" }
  else row

/-- The retirement finds its row in the version that was loaded. -/
def Database.retirementFresh (db : Database) (u : UnitOfWork) : Bool :=
  match u.retire with
  | none => true
  | some (current, _) => db.resumes.any (matchesVersion current)

/-- The CHECK constraints of {lit}`resumes`. -/
def Resume.checks (r : Resume) : Bool :=
  0 < r.sizeBytes &&
  (r.sha256.length = 64 &&
    r.sha256.toList.all fun c => ('0' ≤ c && c ≤ '9') || ('a' ≤ c && c ≤ 'f')) &&
  r.originalFilename.toList.any (· ≠ ' ') &&
  r.contentType = "application/pdf" &&
  (r.status == .deleted) == r.deletedAt.isSome &&
  (r.status == .parseFailed) == r.parseErrorCode.isSome &&
  0 < r.version

/-- The CHECK constraint on {lit}`years_of_experience`. -/
def CandidateProfile.checks (p : CandidateProfile) : Bool :=
  p.yearsOfExperience.all fun y => 0 ≤ y && y ≤ 80

/-- Every row that the unit of work writes passes its CHECK constraints.  A retired
resume keeps its `parse_error_code`, which only a `parse_failed` row may have. -/
def Database.checksPass (db : Database) (u : UnitOfWork) : Bool :=
  (match u.retire with
    | none => true
    | some (current, deletedAt) => (db.resumes.filter (matchesVersion current)).all fun row =>
        (retireRow current deletedAt row).checks) &&
  u.insertResume.all (fun r => { r with version := 1 : Resume }.checks) &&
  u.insertProfile.all CandidateProfile.checks

/-- Primary keys, unique columns and the composite foreign key of the inserted rows. -/
def Database.insertsUnique (db : Database) (u : UnitOfWork) : Bool :=
  (match u.insertResume with
    | none => true
    | some r => db.resumes.all fun row =>
        row.id ≠ r.id && row.storageObjectKey ≠ r.storageObjectKey) &&
  (match u.insertProfile with
    | none => true
    | some p => db.profiles.all (fun row => row.resumeId ≠ p.resumeId) &&
        (db.resumes ++ u.insertResume.toList).any fun row =>
          row.id = p.resumeId && row.ownerProfileId = p.ownerProfileId) &&
  (match u.insertCleanup with
    | none => true
    | some c => db.cleanups.all fun row => row.storageObjectKey ≠ c.storageObjectKey)

/-- The tables after a unit of work.  The database supplies {lit}`created_at`, the
first version and the id of an inserted cleanup row; deleting a row that another
transaction has already deleted is only a warning. -/
def Database.write (db : Database) (u : UnitOfWork) (now : Time) (rowId : UUID) : Database where
  resumes :=
    (match u.retire with
      | none => db.resumes
      | some (current, deletedAt) => db.resumes.map (retireRow current deletedAt)) ++
    (u.insertResume.map fun r => { r with version := 1, createdAt := now }).toList
  profiles := db.profiles ++ (u.insertProfile.map fun p => { p with updatedAt := now }).toList
  cleanups :=
    ((db.cleanups.filter fun c => c.id ∉ u.deleteCleanups).map (failRow u.failCleanups)) ++
    (u.insertCleanup.map fun c => { c with id := rowId }).toList

/-- Flush and commit: all of the unit of work, or an error and none of it. -/
def Database.flush (db : Database) (u : UnitOfWork) (now : Time) (rowId : UUID) :
    Except DbError Database :=
  if !db.retirementFresh u || !(u.failCleanups.all fun id => db.cleanups.any (·.id = id)) then
    .error .staleData
  else if !(db.insertsUnique u && db.checksPass u) then .error .integrity
  else .ok (db.write u now rowId)

/-- What a successful flush checked and what it wrote. -/
theorem flush_eq_ok {db db' : Database} {u : UnitOfWork} {now : Time} {rowId : UUID}
    (h : db.flush u now rowId = .ok db') :
    db.retirementFresh u = true ∧ db.insertsUnique u = true ∧ db.checksPass u = true ∧
      db' = db.write u now rowId := by
  unfold Database.flush at h
  split at h
  · contradiction
  · rename_i hfresh
    split at h
    · contradiction
    · rename_i hunique
      simp only [Bool.or_eq_true, Bool.not_eq_true', not_or, Bool.not_eq_false] at hfresh
      simp only [Bool.not_eq_true', Bool.not_eq_false, Bool.and_eq_true] at hunique
      exact ⟨hfresh.1, hunique.1, hunique.2, (Except.ok.inj h).symm⟩

end Resumes
end HireAndTech
