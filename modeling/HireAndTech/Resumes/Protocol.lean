import HireAndTech.Interleaving.RelyGuarantee
import HireAndTech.Resumes.Constraints
import HireAndTech.Resumes.Service

/-!
# The protocol of the resume calls

What is true of the world between any two commands, what one command of a call
leaves alone, and what a call has done before it issues a command.  Together they
form the contract of the resume service: the later files derive every property
of its runs from them, without looking at the programs again.

Main results:

- Definition {lit}`Coherent`: the invariant of the world.
- Definition {lit}`Frame`: what every command of one call leaves alone.
- Definition {lit}`Issues`: the circumstances in which a command is issued.
- Theorem {lit}`exec_coherent`: commands issued in these circumstances keep the
  invariant and stay within the frame.
-/

namespace HireAndTech
namespace Resumes

open Interleaving

/-! ## Key phases -/

namespace KeyPhase

/-- The storage request for the key has been made. -/
def isMade : KeyPhase → Bool
  | .attempted _ => true
  | .settled => true
  | _ => false

/-- What a step of call {lit}`i` can do to the phase of a key. -/
def Advance (i : CallId) (p p' : KeyPhase) : Prop :=
  p' = p ∨ (p = .unused ∧ p' = .reserved i) ∨
    (p = .reserved i ∧ (p' = .attempted i ∨ p' = .settled)) ∨ (p = .attempted i ∧ p' = .settled)

variable {i j : CallId} {p p' : KeyPhase}

theorem Advance.refl : Advance i p p :=
  Or.inl rfl

theorem Advance.isMade (h : Advance i p p') (hp : p.isMade = true) : p'.isMade = true := by
  rcases h with rfl | ⟨rfl, rfl⟩ | ⟨rfl, rfl | rfl⟩ | ⟨rfl, rfl⟩
  · exact hp
  all_goals first | contradiction | rfl

theorem Advance.drawn (h : Advance i p p') (hp : p ≠ .unused) : p' ≠ .unused := by
  rcases h with rfl | ⟨rfl, rfl⟩ | ⟨rfl, rfl | rfl⟩ | ⟨rfl, rfl⟩
  · exact hp
  all_goals simp

theorem Advance.settled (h : Advance i .settled p') : p' = .settled := by
  simpa [Advance] using h

theorem Advance.reserved (h : Advance i (.reserved j) p') (hj : j ≠ i) : p' = .reserved j := by
  simpa [Advance, hj] using h

theorem Advance.attempted (h : Advance i (.attempted j) p') (hj : j ≠ i) :
    p' = .attempted j := by
  simpa [Advance, hj] using h

/-- A key that is reserved after a step was reserved before it, or drawn by it. -/
theorem Advance.of_reserved (h : Advance i p (.reserved j)) (hp : p ≠ .unused) :
    p = .reserved j := by
  rcases h with heq | ⟨hunused, _⟩ | ⟨_, hnew | hnew⟩ | ⟨_, hnew⟩
  · exact heq.symm
  · exact absurd hunused hp
  all_goals contradiction

end KeyPhase

/-! ## The invariant -/

/-- Every resume id has been drawn once, for one owner. -/
structure DrawnOnce (w : World) : Prop where
  issued : ∀ owner id, w.phases (buildResumeObjectKey owner id) ≠ .unused → id ∈ w.issued
  owner : ∀ owner owner' id, w.phases (buildResumeObjectKey owner id) ≠ .unused →
    w.phases (buildResumeObjectKey owner' id) ≠ .unused → owner = owner'

/-- A step that draws no key. -/
theorem DrawnOnce.mono {w w' : World} (h : DrawnOnce w) (hissued : ∀ id ∈ w.issued, id ∈ w'.issued)
    (hphases : ∀ k, w.phases k = .unused → w'.phases k = .unused) : DrawnOnce w' where
  issued owner id hdrawn := hissued id (h.issued owner id (mt (hphases _) hdrawn))
  owner owner owner' id hdrawn hdrawn' :=
    h.owner owner owner' id (mt (hphases _) hdrawn) (mt (hphases _) hdrawn')

/-- A step that draws one key with a new id. -/
theorem DrawnOnce.draw {w w' : World} {owner id : UUID} {p : KeyPhase} (h : DrawnOnce w)
    (hid : id ∉ w.issued) (hissued : w'.issued = id :: w.issued)
    (hphases : w'.phases = Function.update w.phases (buildResumeObjectKey owner id) p) :
    DrawnOnce w' := by
  have hold : ∀ owner' id', w'.phases (buildResumeObjectKey owner' id') ≠ .unused →
      (owner' = owner ∧ id' = id) ∨ w.phases (buildResumeObjectKey owner' id') ≠ .unused := by
    intro owner' id' hdrawn
    by_cases hk : buildResumeObjectKey owner' id' = buildResumeObjectKey owner id
    · exact Or.inl (buildResumeObjectKey_injective hk)
    · rw [hphases, Function.update_of_ne hk] at hdrawn
      exact Or.inr hdrawn
  refine ⟨fun owner' id' hdrawn => ?_, fun owner' owner'' id' hdrawn' hdrawn'' => ?_⟩
  · rw [hissued, List.mem_cons]
    exact (hold owner' id' hdrawn).imp And.right (h.issued owner' id')
  · rcases hold owner' id' hdrawn' with ⟨rfl, rfl⟩ | hdrawn'
    · rcases hold owner'' id' hdrawn'' with ⟨rfl, _⟩ | hdrawn''
      · rfl
      · exact absurd (h.issued owner'' id' hdrawn'') hid
    · rcases hold owner'' id' hdrawn'' with ⟨rfl, rfl⟩ | hdrawn''
      · exact absurd (h.issued owner' id' hdrawn') hid
      · exact h.owner owner' owner'' id' hdrawn' hdrawn''

/-- What holds between any two commands: the tables satisfy their constraints,
the phase of every key accounts for the rows and objects that use it, and every
id in use has been drawn. -/
structure Coherent (w : World) : Prop where
  constraints : w.db.Constraints
  resume_settled : ∀ r ∈ w.db.resumes, w.phases r.storageObjectKey = .settled
  resume_key : ∀ r ∈ w.db.resumes,
    r.storageObjectKey = buildResumeObjectKey r.ownerProfileId r.id
  object_made : ∀ k ∈ w.objects, (w.phases k).isMade = true
  cleanup_drawn : ∀ c ∈ w.db.cleanups, w.phases c.storageObjectKey ≠ .unused
  cleanup_key : ∀ c ∈ w.db.cleanups,
    ∃ id, c.storageObjectKey = buildResumeObjectKey c.ownerProfileId id
  cleanup_issued : ∀ c ∈ w.db.cleanups, c.id ∈ w.issued
  drawn : DrawnOnce w
  uploaded_made : ∀ i key b, (i, Event.uploaded key b) ∈ w.log → (w.phases key).isMade = true

/-! ## The frame -/

/-- The later state of a resume row: unchanged, or retired in the meantime. -/
def Resume.Follows (r' r : Resume) : Prop :=
  r'.id = r.id ∧ r'.ownerProfileId = r.ownerProfileId ∧
    r'.storageObjectKey = r.storageObjectKey ∧
    (r' = r ∨ (r'.status = .deleted ∧ r.version < r'.version))

theorem Resume.Follows.refl (r : Resume) : r.Follows r :=
  ⟨rfl, rfl, rfl, Or.inl rfl⟩

theorem Resume.Follows.trans {r r' r'' : Resume} (h' : r''.Follows r') (h : r'.Follows r) :
    r''.Follows r := by
  obtain ⟨hid, howner, hkey, hrow⟩ := h
  obtain ⟨hid', howner', hkey', hrow'⟩ := h'
  refine ⟨hid'.trans hid, howner'.trans howner, hkey'.trans hkey, ?_⟩
  rcases hrow' with rfl | ⟨hstatus', hversion'⟩
  · exact hrow
  · rcases hrow with rfl | ⟨_, hversion⟩
    · exact Or.inr ⟨hstatus', hversion'⟩
    · exact Or.inr ⟨hstatus', hversion.trans hversion'⟩

theorem Resume.Follows.deleted {r r' : Resume} (h : r'.Follows r) (hr : r.status = .deleted) :
    r'.status = .deleted := by
  rcases h.2.2.2 with rfl | ⟨hstatus, _⟩
  · exact hr
  · exact hstatus

/-- What every command of call {lit}`i` leaves alone, in the history, the sessions,
the locks and the tables. -/
structure Frame (i : CallId) (w w' : World) : Prop where
  issued : ∀ id ∈ w.issued, id ∈ w'.issued
  phases : ∀ k, (w.phases k).Advance i (w'.phases k)
  log : ∃ es : List Event, w'.log = w.log ++ es.map (i, ·)
  sessions : ∀ j, j ≠ i → w'.sessions j = w.sessions j
  locks : ∀ id j, j ≠ i → w.locks id = some j → w'.locks id = some j
  locked : ∀ c ∈ w.db.cleanups, ∀ j, j ≠ i → w.locks c.id = some j → c ∈ w'.db.cleanups
  cleanups : ∀ c' ∈ w'.db.cleanups,
    (∃ c ∈ w.db.cleanups, c'.id = c.id ∧ c'.storageObjectKey = c.storageObjectKey ∧
      c'.ownerProfileId = c.ownerProfileId) ∨
    (c'.id ∉ w.issued ∧
      (w.phases c'.storageObjectKey = .reserved i ∨ w.phases c'.storageObjectKey = .settled))
  resumes : ∀ r ∈ w.db.resumes, ∃ r' ∈ w'.db.resumes, r'.Follows r
  objects : ∀ k ∈ w'.objects, k ∈ w.objects ∨ w.phases k = .reserved i

/-- A command that leaves the tables alone. -/
theorem Frame.of_db_eq {i : CallId} {w w' : World} (hdb : w'.db = w.db)
    (issued : ∀ id ∈ w.issued, id ∈ w'.issued)
    (phases : ∀ k, (w.phases k).Advance i (w'.phases k))
    (log : ∃ es : List Event, w'.log = w.log ++ es.map (i, ·))
    (sessions : ∀ j, j ≠ i → w'.sessions j = w.sessions j)
    (locks : ∀ id j, j ≠ i → w.locks id = some j → w'.locks id = some j)
    (objects : ∀ k ∈ w'.objects, k ∈ w.objects ∨ w.phases k = .reserved i) : Frame i w w' where
  issued := issued
  phases := phases
  log := log
  sessions := sessions
  locks := locks
  locked _ hc _ _ _ := hdb ▸ hc
  cleanups c' hc' := Or.inl ⟨c', hdb ▸ hc', rfl, rfl, rfl⟩
  resumes r hr := ⟨r, hdb ▸ hr, .refl r⟩
  objects := objects

theorem Frame.refl (i : CallId) (w : World) : Frame i w w :=
  .of_db_eq rfl (fun _ h => h) (fun _ => .refl) ⟨[], by simp⟩ (fun _ _ => rfl)
    (fun _ _ _ h => h) fun _ h => Or.inl h

/-! ## Circumstances of a command -/

/-- The owner that a request names. -/
def Request.owner : Request → Option UUID
  | .upload owner _ => some owner
  | .replace _ owner _ => some owner
  | .delete _ owner => some owner
  | .reconcile _ => none
  | .listOwned owner _ _ => some owner
  | .getCandidateProfile _ owner => some owner

/-- The cleanup id {lit}`cid` names no row but one of {lit}`owner` for {lit}`key`. -/
structure Names (w : World) (cid owner : UUID) (key : ObjectKey) : Prop where
  issued : cid ∈ w.issued
  row : ∀ c ∈ w.db.cleanups, c.id = cid →
    c.storageObjectKey = key ∧ c.ownerProfileId = owner

/-- Call {lit}`i` has stored the object of the new resume {lit}`id` under the
reservation {lit}`cid` and has not asked for its removal. -/
structure Stored (i : CallId) (w : World) (owner id cid : UUID) : Prop where
  phase : w.phases (buildResumeObjectKey owner id) = .attempted i
  names : Names w cid owner (buildResumeObjectKey owner id)
  sole : ∀ c ∈ w.db.cleanups, c.storageObjectKey = buildResumeObjectKey owner id → c.id = cid
  uploaded : .uploaded (buildResumeObjectKey owner id) true ∈ w.events i
  kept : ∀ b, .removed (buildResumeObjectKey owner id) b ∉ w.events i

/-- The resume row that a call has loaded is still there, perhaps retired. -/
def Loaded (w : World) (current : Resume) : Prop :=
  ∃ r ∈ w.db.resumes, r.Follows current

/-- A deleted resume of {lit}`owner` has the object key. -/
def Retired (w : World) (owner : UUID) (key : ObjectKey) : Prop :=
  ∃ r ∈ w.db.resumes, r.ownerProfileId = owner ∧ r.storageObjectKey = key ∧ r.status = .deleted

/-- Call {lit}`i` holds the lock of a cleanup row. -/
def Listed (i : CallId) (w : World) (c : ResumeStorageCleanup) : Prop :=
  c ∈ w.db.cleanups ∧ w.locks c.id = some i

/-- The storage deletions that a call asks for: of its own new object, of the object
of a deleted resume, and of the object of a cleanup row that it has listed. -/
inductive Removes (i : CallId) (w : World) : Request → ObjectKey → Prop
  | compensation {r : Request} {key : ObjectKey} (hphase : w.phases key = .attempted i) :
      Removes i w r key
  | retired {r : Request} {owner : UUID} {key : ObjectKey} (hr : r.owner = some owner)
      (hretired : Retired w owner key) : Removes i w r key
  | listed {limit : Nat} {c : ResumeStorageCleanup} (hlisted : Listed i w c) :
      Removes i w (.reconcile limit) c.storageObjectKey

/-- The units of work that a call commits. -/
inductive Commits (env : Env) (i : CallId) (w : World) : Request → UnitOfWork → Prop
  | reserve {r : Request} {owner id : UUID} {availableAt : Time} (hr : r.owner = some owner)
      (hphase : w.phases (buildResumeObjectKey owner id) = .reserved i) :
      Commits env i w r
        { insertCleanup := some (cleanupRecord env owner (buildResumeObjectKey owner id)
            availableAt) }
  | clear {r : Request} {owner cid : UUID} {key : ObjectKey} (hr : r.owner = some owner)
      (hnames : Names w cid owner key) (hmade : (w.phases key).isMade = true)
      (hgone : .uploaded key false ∈ w.events i ∨ .removed key true ∈ w.events i) :
      Commits env i w r { deleteCleanups := [cid] }
  | persist {owner id cid : UUID} {file : ValidatedResumeUpload} {status : ResumeStatus}
      {code : Option String} {profile : Option CandidateProfile}
      (hstored : Stored i w owner id cid)
      (hshape : (status = .parsed ∧ ∃ parsed, profile = some (newProfile id owner parsed)) ∨
        (status = .parseFailed ∧ profile = none)) :
      Commits env i w (.upload owner file)
        { insertResume := some
            (newResume env id owner (buildResumeObjectKey owner id) file status code)
          insertProfile := profile
          deleteCleanups := [cid] }
  | replace {owner id cid : UUID} {current : Resume} {file : ValidatedResumeUpload}
      {parsed : ParsedResume} {deletedAt availableAt : Time}
      (hstored : Stored i w owner id cid) (hloaded : Loaded w current)
      (hactive : current.status ≠ .deleted) (howner : current.ownerProfileId = owner) :
      Commits env i w (.replace current.id owner file)
        { retire := some (current, deletedAt)
          insertResume := some
            (newResume env id owner (buildResumeObjectKey owner id) file .parsed none)
          insertProfile := some (newProfile id owner parsed)
          insertCleanup := some (cleanupRecord env owner current.storageObjectKey availableAt)
          deleteCleanups := [cid] }
  | delete {owner : UUID} {current : Resume} {deletedAt availableAt : Time}
      (hloaded : Loaded w current) (hactive : current.status ≠ .deleted)
      (howner : current.ownerProfileId = owner) :
      Commits env i w (.delete current.id owner)
        { retire := some (current, deletedAt)
          insertCleanup := some (cleanupRecord env owner current.storageObjectKey availableAt) }
  | deleteAgain {resumeId owner : UUID} {key : ObjectKey} {availableAt : Time}
      (hretired : Retired w owner key) :
      Commits env i w (.delete resumeId owner)
        { insertCleanup := some (cleanupRecord env owner key availableAt) }
  | reconcile {limit : Nat} {removed failed : List ResumeStorageCleanup}
      (hremoved : ∀ c ∈ removed, Listed i w c ∧ .removed c.storageObjectKey true ∈ w.events i)
      (hfailed : ∀ c ∈ failed, Listed i w c) :
      Commits env i w (.reconcile limit)
        { deleteCleanups := removed.map (·.id)
          failCleanups := failed.map (·.id) }

/-- A storage upload. -/
def Cmd.isUpload {β : Type} : Cmd β → Bool
  | .storageUpload _ => true
  | _ => false

/-- The circumstances in which a call issues a command. -/
def Issues (env : Env) {β : Type} (i : CallId) (r : Request) (w : World) : Cmd β → Prop
  | .storageUpload key => w.phases key = .reserved i ∧
      ∃ u ∈ w.events i, ∃ d, u = .committed { insertCleanup := some d } ∧ d.storageObjectKey = key
  | .storageDelete key => Removes i w r key
  | .flushCommit u => Commits env i w r u
  | .getOwned _ owner _ => r.owner = some owner
  | .listOwnedPage owner _ _ => r.owner = some owner
  | .countOwned owner => r.owner = some owner
  | .getOwnedByResumeId _ owner => r.owner = some owner
  | .getByObjectKey key => ∃ owner, r.owner = some owner ∧ Retired w owner key
  | .listDueForUpdate _ _ => r.owner = none
  | _ => True

/-- The contract of the resume service. -/
def resumeContract (env : Env) : Contract World Cmd Request where
  Inv := Coherent
  Issues := Issues env
  Guar i _ := Frame i

/-! ## Every command keeps the contract -/

section

variable {env : Env} {β : Type} {i : CallId} {r : Request} {ch : Choice} {w w' : World}

/-- The rows that a call inserts belong to keys that it has drawn itself, or to
resumes that exist. -/
theorem Commits.inserts {u : UnitOfWork} (hw : Coherent w) (h : Commits env i w r u) :
    (∀ x, u.insertResume = some x → w.phases x.storageObjectKey = .attempted i ∧
      x.storageObjectKey = buildResumeObjectKey x.ownerProfileId x.id) ∧
    (∀ d, u.insertCleanup = some d →
      (∃ id, d.storageObjectKey = buildResumeObjectKey d.ownerProfileId id) ∧
      (w.phases d.storageObjectKey = .reserved i ∨ w.phases d.storageObjectKey = .settled)) := by
  -- the key of a loaded resume has the owner's form and is settled
  have hold : ∀ {current : Resume} {owner : UUID}, Loaded w current →
      current.ownerProfileId = owner →
      (∃ id, current.storageObjectKey = buildResumeObjectKey owner id) ∧
        w.phases current.storageObjectKey = .settled := by
    rintro current owner ⟨x, hx, _, howner', hkey', _⟩ rfl
    refine ⟨⟨x.id, ?_⟩, ?_⟩
    · rw [← hkey', hw.resume_key x hx, howner']
    · rw [← hkey', hw.resume_settled x hx]
  cases h with
  | reserve hr hphase =>
      refine ⟨by simp, ?_⟩
      rintro d ⟨⟩
      exact ⟨⟨_, rfl⟩, Or.inl hphase⟩
  | clear hr hnames hmade hgone => simp
  | persist hstored hshape =>
      refine ⟨?_, by simp⟩
      rintro x ⟨⟩
      exact ⟨hstored.phase, rfl⟩
  | replace hstored hloaded hactive howner =>
      refine ⟨?_, ?_⟩
      · rintro x ⟨⟩
        exact ⟨hstored.phase, rfl⟩
      · rintro d ⟨⟩
        exact ⟨(hold hloaded howner).1, Or.inr (hold hloaded howner).2⟩
  | delete hloaded hactive howner =>
      refine ⟨by simp, ?_⟩
      rintro d ⟨⟩
      exact ⟨(hold hloaded howner).1, Or.inr (hold hloaded howner).2⟩
  | deleteAgain hretired =>
      refine ⟨by simp, ?_⟩
      rintro d ⟨⟩
      obtain ⟨x, hx, rfl, rfl, _⟩ := hretired
      exact ⟨⟨x.id, hw.resume_key x hx⟩, Or.inr (hw.resume_settled x hx)⟩
  | reconcile hremoved hfailed => simp

theorem mem_events {e : Event} : e ∈ w.events i ↔ (i, e) ∈ w.log := by
  simp [World.events]

/-- Only a storage upload adds an entry about an upload. -/
theorem uploaded_mem_log {cmd : Cmd β} {b : β} (hcmd : cmd.isUpload = false)
    (h : exec env i cmd ch w = some (b, w')) {j : CallId} {key : ObjectKey} {s : Bool}
    (hmem : (j, Event.uploaded key s) ∈ w'.log) : (j, Event.uploaded key s) ∈ w.log := by
  rw [exec_log h, List.mem_append] at hmem
  refine hmem.resolve_right fun hnew => ?_
  obtain ⟨e, he, heq⟩ := List.mem_map.mp hnew
  cases heq
  cases cmd <;> simp only [Cmd.events, List.not_mem_nil, List.mem_singleton] at he
  case storageUpload key' => simp [Cmd.isUpload] at hcmd
  case flushCommit u => cases b <;> simp at he
  all_goals contradiction

/-- Keys whose phase the unit of work settles were attempted by the call. -/
theorem settle_advance {u : UnitOfWork}
    (h : ∀ x, u.insertResume = some x → w.phases x.storageObjectKey = .attempted i)
    (k : ObjectKey) :
    (w.phases k).Advance i (u.settle w.phases k) := by
  cases hx : u.insertResume with
  | none =>
      simp only [UnitOfWork.settle, hx]
      exact .refl
  | some x =>
      simp only [UnitOfWork.settle, hx]
      by_cases hk : k = x.storageObjectKey
      · subst hk
        rw [Function.update_self]
        exact Or.inr (Or.inr (Or.inr ⟨h x hx, rfl⟩))
      · rw [Function.update_of_ne hk]
        exact .refl

/-- A unit of work draws no key. -/
theorem settle_ne_reserved {u : UnitOfWork} {k : ObjectKey} (h : w.phases k = .unused) :
    u.settle w.phases k ≠ .reserved i := by
  cases hx : u.insertResume with
  | none => simp [UnitOfWork.settle, hx, h]
  | some x =>
      simp only [UnitOfWork.settle, hx]
      by_cases hk : k = x.storageObjectKey
      · simp [hk]
      · simp [Function.update_of_ne hk, h]

/-- A unit of work makes no storage request. -/
theorem attempted_of_settle {u : UnitOfWork} {phases : ObjectKey → KeyPhase} {k : ObjectKey}
    {j : CallId} (h : u.settle phases k = .attempted j) : phases k = .attempted j := by
  cases hx : u.insertResume with
  | none => simpa [UnitOfWork.settle, hx] using h
  | some x =>
      simp only [UnitOfWork.settle, hx] at h
      by_cases hk : k = x.storageObjectKey
      · simp [hk] at h
      · rwa [Function.update_of_ne hk] at h

theorem exec_frame_of_db_eq {cmd : Cmd β} {b : β} (h : exec env i cmd ch w = some (b, w'))
    (hdb : w'.db = w.db) (issued : ∀ id ∈ w.issued, id ∈ w'.issued)
    (phases : ∀ k, (w.phases k).Advance i (w'.phases k))
    (objects : ∀ k ∈ w'.objects, k ∈ w.objects ∨ w.phases k = .reserved i) : Frame i w w' :=
  .of_db_eq hdb issued phases ⟨_, exec_log h⟩
    (fun j hj => by rw [exec_sessions h, Function.update_of_ne hj])
    (fun _ _ hj hl => exec_locks h hj hl) objects

/-- The invariant after a step that leaves the tables alone. -/
theorem Coherent.of_db_eq (hw : Coherent w) (hf : Frame i w w') (hdb : w'.db = w.db)
    (object_made : ∀ k ∈ w'.objects, (w'.phases k).isMade = true)
    (drawn : DrawnOnce w')
    (uploaded_made : ∀ i key b, (i, Event.uploaded key b) ∈ w'.log →
      (w'.phases key).isMade = true) : Coherent w' where
  constraints := hdb ▸ hw.constraints
  resume_settled x hx :=
    (hw.resume_settled x (hdb ▸ hx) ▸ hf.phases x.storageObjectKey : KeyPhase.Advance _ _ _).settled
  resume_key x hx := hw.resume_key x (hdb ▸ hx)
  object_made := object_made
  cleanup_drawn c hc := (hf.phases _).drawn (hw.cleanup_drawn c (hdb ▸ hc))
  cleanup_key c hc := hw.cleanup_key c (hdb ▸ hc)
  cleanup_issued c hc := hf.issued _ (hw.cleanup_issued c (hdb ▸ hc))
  drawn := drawn
  uploaded_made := uploaded_made

/-- Quiet commands. -/
theorem exec_quiet_coherent {cmd : Cmd β} {b : β} (hw : Coherent w) (hq : cmd.isQuiet = true)
    (h : exec env i cmd ch w = some (b, w')) : Coherent w' ∧ Frame i w w' := by
  obtain ⟨hdb, hobjects, hphases, hissued⟩ := exec_quiet hq h
  have hf : Frame i w w' := exec_frame_of_db_eq h hdb (by simp [hissued])
    (fun k => hphases ▸ .refl) (by simp +contextual [hobjects])
  refine ⟨hw.of_db_eq hf hdb ?_ ?_ ?_, hf⟩
  · rw [hobjects, hphases]
    exact hw.object_made
  · exact hw.drawn.mono hf.issued fun k hk => hphases ▸ hk
  · intro j key s hmem
    rw [hphases]
    refine hw.uploaded_made j key s (uploaded_mem_log ?_ h hmem)
    cases cmd <;> first | rfl | contradiction

/-- Drawing a resume id. -/
theorem exec_uuid4_coherent {owner id : UUID} (hw : Coherent w)
    (h : exec env i (.uuid4 owner) ch w = some (id, w')) : Coherent w' ∧ Frame i w w' := by
  obtain ⟨hid, hdb, hobjects, hissued, hphases⟩ := exec_uuid4 h
  have hunused : w.phases (buildResumeObjectKey owner id) = .unused := by
    by_contra hdrawn
    exact hid (hw.drawn.issued owner id hdrawn)
  have hadv : ∀ k, (w.phases k).Advance i (w'.phases k) := by
    intro k
    rw [hphases]
    by_cases hk : k = buildResumeObjectKey owner id
    · subst hk
      rw [Function.update_self]
      exact Or.inr (Or.inl ⟨hunused, rfl⟩)
    · rw [Function.update_of_ne hk]
      exact .refl
  have hf : Frame i w w' := exec_frame_of_db_eq h hdb (by simp +contextual [hissued]) hadv
    (by simp +contextual [hobjects])
  refine ⟨hw.of_db_eq hf hdb ?_ ?_ ?_, hf⟩
  · intro k hk
    rw [hobjects] at hk
    exact (hadv k).isMade (hw.object_made k hk)
  · exact hw.drawn.draw hid hissued hphases
  · intro j key s hmem
    exact (hadv key).isMade
      (hw.uploaded_made j key s (uploaded_mem_log rfl h hmem))

/-- A storage upload of a key that the call has reserved. -/
theorem exec_storageUpload_coherent {key : ObjectKey} {b : Bool} (hw : Coherent w)
    (hreserved : w.phases key = .reserved i)
    (h : exec env i (.storageUpload key) ch w = some (b, w')) : Coherent w' ∧ Frame i w w' := by
  obtain ⟨o, _, hdb, hissued, hphases, hobjects, _⟩ := exec_storageUpload h
  have hadv : ∀ k, (w.phases k).Advance i (w'.phases k) := by
    intro k
    rw [hphases]
    by_cases hk : k = key
    · subst hk
      rw [Function.update_self]
      exact Or.inr (Or.inr (Or.inl ⟨hreserved, Or.inl rfl⟩))
    · rw [Function.update_of_ne hk]
      exact .refl
  have hmade : (w'.phases key).isMade = true := by
    rw [hphases, Function.update_self]
    rfl
  have hf : Frame i w w' := exec_frame_of_db_eq h hdb (by simp [hissued]) hadv (by
    intro k hk
    rcases (hobjects k).mp hk with hk | ⟨rfl, _⟩
    · exact Or.inl hk
    · exact Or.inr hreserved)
  refine ⟨hw.of_db_eq hf hdb ?_ ?_ ?_, hf⟩
  · intro k hk
    rcases (hobjects k).mp hk with hk | ⟨rfl, _⟩
    · exact (hadv k).isMade (hw.object_made k hk)
    · exact hmade
  · refine hw.drawn.mono hf.issued fun k hunused => ?_
    have hk : k ≠ key := by
      rintro rfl
      rw [hreserved] at hunused
      contradiction
    rw [hphases, Function.update_of_ne hk, hunused]
  · intro j key' s hmem
    rw [exec_log h, List.mem_append] at hmem
    rcases hmem with hmem | hmem
    · exact (hadv key').isMade (hw.uploaded_made j key' s hmem)
    · simp only [Cmd.events, List.map_cons, List.map_nil, List.mem_singleton] at hmem
      cases hmem
      exact hmade

/-- A storage deletion, whatever the key. -/
theorem exec_storageDelete_coherent {key : ObjectKey} {b : Bool} (hw : Coherent w)
    (h : exec env i (.storageDelete key) ch w = some (b, w')) : Coherent w' ∧ Frame i w w' := by
  obtain ⟨o, _, hdb, hissued, hphases, hobjects, _⟩ := exec_storageDelete h
  have hf : Frame i w w' := exec_frame_of_db_eq h hdb (by simp [hissued])
    (fun k => hphases ▸ .refl) fun k hk => Or.inl ((hobjects k).mp hk).1
  refine ⟨hw.of_db_eq hf hdb ?_ ?_ ?_, hf⟩
  · intro k hk
    rw [hphases]
    exact hw.object_made k ((hobjects k).mp hk).1
  · exact hw.drawn.mono hf.issued fun k hk => hphases ▸ hk
  · intro j key' s hmem
    rw [hphases]
    exact hw.uploaded_made j key' s (uploaded_mem_log rfl h hmem)

/-- A flush with its commit. -/
theorem exec_flushCommit_coherent {u : UnitOfWork} {b : Except DbError Flushed}
    (hw : Coherent w) (hu : Commits env i w r u)
    (h : exec env i (.flushCommit u) ch w = some (b, w')) : Coherent w' ∧ Frame i w w' := by
  have huploaded : ∀ j key s, (j, Event.uploaded key s) ∈ w'.log →
      (j, Event.uploaded key s) ∈ w.log :=
    fun j key s hmem => uploaded_mem_log rfl h hmem
  rcases exec_flushCommit h with ⟨e, rfl, hdb, hobjects, hissued, hphases⟩ |
    ⟨f, rfl, hfree, hfresh, _, hflush, hobjects, hissued, hphases⟩
  · have hf : Frame i w w' := exec_frame_of_db_eq h hdb (by simp [hissued])
      (fun k => hphases ▸ .refl) (by simp +contextual [hobjects])
    refine ⟨hw.of_db_eq hf hdb ?_ ?_ ?_, hf⟩
    · rw [hobjects, hphases]
      exact hw.object_made
    · exact hw.drawn.mono hf.issued fun k hk => hphases ▸ hk
    · intro j key s hmem
      rw [hphases]
      exact hw.uploaded_made j key s (huploaded j key s hmem)
  · obtain ⟨hresume, hcleanup⟩ := hu.inserts hw
    have hadv : ∀ k, (w.phases k).Advance i (w'.phases k) := by
      intro k
      rw [hphases]
      exact settle_advance (fun x hx => (hresume x hx).1) k
    obtain ⟨_, _, _, hdb⟩ := flush_eq_ok hflush
    have hcleanups : ∀ c' ∈ w'.db.cleanups,
        (∃ c ∈ w.db.cleanups, c'.id = c.id ∧ c'.storageObjectKey = c.storageObjectKey ∧
          c'.ownerProfileId = c.ownerProfileId) ∨
        ∃ d, u.insertCleanup = some d ∧ c' = { d with id := f.rowId } := by
      intro c' hc'
      rw [hdb] at hc'
      rcases mem_write_cleanups.mp hc' with ⟨c, hc, _, rfl⟩ | hnew
      · exact Or.inl ⟨c, hc, by simp, by simp, by simp⟩
      · exact Or.inr hnew
    have hresumes : ∀ x' ∈ w'.db.resumes,
        (∃ x ∈ w.db.resumes, x'.id = x.id ∧ x'.ownerProfileId = x.ownerProfileId ∧
          x'.storageObjectKey = x.storageObjectKey) ∨
        ∃ x, u.insertResume = some x ∧ x' = { x with version := 1, createdAt := f.now } := by
      intro x' hx'
      rw [hdb] at hx'
      rcases mem_write_resumes.mp hx' with ⟨x, hx, ⟨c, t, _, rfl⟩ | ⟨_, rfl⟩⟩ | hnew
      · exact Or.inl ⟨x, hx, by simp, by simp, by simp⟩
      · exact Or.inl ⟨x', hx, rfl, rfl, rfl⟩
      · exact Or.inr hnew
    refine ⟨?_, ?_⟩
    · refine ⟨hw.constraints.flush hflush ?_, ?_, ?_, ?_, ?_, ?_, ?_, ?_, ?_⟩
      · intro c hc hid
        exact hfresh (hid ▸ hw.cleanup_issued c hc)
      · intro x' hx'
        rcases hresumes x' hx' with ⟨x, hx, _, _, hkey⟩ | ⟨x, hx, rfl⟩
        · have := hadv x.storageObjectKey
          rw [hw.resume_settled x hx] at this
          rw [hkey, this.settled]
        · show w'.phases x.storageObjectKey = .settled
          simp [hphases, UnitOfWork.settle, hx]
      · intro x' hx'
        rcases hresumes x' hx' with ⟨x, hx, hid, howner, hkey⟩ | ⟨x, hx, rfl⟩
        · rw [hkey, hid, howner, hw.resume_key x hx]
        · exact (hresume x hx).2
      · intro k hk
        rw [hobjects] at hk
        exact (hadv k).isMade (hw.object_made k hk)
      · intro c' hc'
        rcases hcleanups c' hc' with ⟨c, hc, _, hkey, _⟩ | ⟨d, hd, rfl⟩
        · rw [hkey]
          exact (hadv _).drawn (hw.cleanup_drawn c hc)
        · refine (hadv _).drawn ?_
          rcases (hcleanup d hd).2 with hphase | hphase <;> simp [hphase]
      · intro c' hc'
        rcases hcleanups c' hc' with ⟨c, hc, _, hkey, howner⟩ | ⟨d, hd, rfl⟩
        · rw [hkey, howner]
          exact hw.cleanup_key c hc
        · exact (hcleanup d hd).1
      · intro c' hc'
        rw [hissued, List.mem_cons]
        rcases hcleanups c' hc' with ⟨c, hc, hid, _, _⟩ | ⟨d, hd, rfl⟩
        · exact Or.inr (hid ▸ hw.cleanup_issued c hc)
        · exact Or.inl rfl
      · refine hw.drawn.mono (by simp +contextual [hissued]) fun k hunused => ?_
        rcases hadv k with heq | ⟨_, hnew⟩ | ⟨hold, _⟩ | ⟨hold, _⟩
        · rw [heq, hunused]
        · rw [hphases] at hnew
          exact absurd hnew (settle_ne_reserved hunused)
        · rw [hunused] at hold
          contradiction
        · rw [hunused] at hold
          contradiction
      · intro j key s hmem
        exact (hadv key).isMade (hw.uploaded_made j key s (huploaded j key s hmem))
    · refine ⟨by simp +contextual [hissued], hadv, ⟨_, exec_log h⟩, ?_,
        fun _ _ hj hl => exec_locks h hj hl, ?_, ?_, ?_, by simp +contextual [hobjects]⟩
      · intro j hj
        rw [exec_sessions h, Function.update_of_ne hj]
      · intro c hc j hj hl
        -- the flush would have waited for a row that another call has locked
        have huntouched : c.id ∉ u.touched := by
          intro hmem
          have hblocked : w.blocked i u = true :=
            List.any_eq_true.mpr ⟨c.id, hmem, by simp [hl, hj]⟩
          simp [hfree] at hblocked
        simp only [UnitOfWork.touched, List.mem_append, not_or] at huntouched
        rw [hdb]
        exact mem_write_cleanups_of_untouched hc huntouched.1 huntouched.2
      · intro c' hc'
        rcases hcleanups c' hc' with hold | ⟨d, hd, rfl⟩
        · exact Or.inl hold
        · exact Or.inr ⟨hfresh, (hcleanup d hd).2⟩
      · intro x hx
        rw [hdb]
        obtain ⟨x', hx', hid, howner, hkey, hrow⟩ := exists_write_resume hx
        refine ⟨x', hx', hid, howner, hkey, hrow.imp_right fun ⟨hstatus, hversion⟩ => ?_⟩
        exact ⟨hstatus, by omega⟩

/-- Commands issued in the circumstances of the contract keep the invariant and stay
within the frame of their call. -/
theorem exec_coherent {cmd : Cmd β} {b : β} (hw : Coherent w) (hissues : Issues env i r w cmd)
    (h : exec env i cmd ch w = some (b, w')) : Coherent w' ∧ Frame i w w' := by
  cases cmd with
  | uuid4 owner => exact exec_uuid4_coherent hw h
  | flushCommit u => exact exec_flushCommit_coherent hw hissues h
  | storageUpload key => exact exec_storageUpload_coherent hw hissues.1 h
  | storageDelete key => exact exec_storageDelete_coherent hw h
  | _ => exact exec_quiet_coherent hw rfl h

/-- The end of a call keeps the contract. -/
theorem close_coherent (hw : Coherent w) : Coherent (w.close i) ∧ Frame i w (w.close i) := by
  have hadv : ∀ k, (w.phases k).Advance i ((w.close i).phases k) := by
    intro k
    show KeyPhase.Advance i _ (if _ then _ else _)
    split
    · rename_i hown
      rcases hown with hown | hown
      · exact Or.inr (Or.inr (Or.inl ⟨hown, Or.inr rfl⟩))
      · exact Or.inr (Or.inr (Or.inr ⟨hown, rfl⟩))
    · exact .refl
  have hf : Frame i w (w.close i) := by
    refine .of_db_eq rfl (fun _ h => h) hadv ⟨[], by simp [World.close, World.unlock]⟩ ?_ ?_
      fun _ h => Or.inl h
    · intro j hj
      simp [World.close, hj]
    · intro id j hj hl
      exact World.unlock_locks_of_ne hj hl
  refine ⟨hw.of_db_eq hf rfl ?_ ?_ ?_, hf⟩
  · intro k hk
    exact (hadv k).isMade (hw.object_made k hk)
  · refine hw.drawn.mono hf.issued fun k hunused => ?_
    show (if _ then _ else _) = _
    simp [hunused]
  · intro j key s hmem
    exact (hadv key).isMade (hw.uploaded_made j key s hmem)

end

end Resumes
end HireAndTech
