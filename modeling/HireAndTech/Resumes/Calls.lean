import HireAndTech.Resumes.Protocol

/-!
# Validity of the resume programs

Every program of the resume service issues its commands in the circumstances of
the resume contract.  The walk through the programs also follows the session and
the history of the call, so that it knows how a call ends whose database or parse
executor failed.

Main results:

- Theorem {lit}`valid_program`: the program of every request is valid.
- Theorem {lit}`resumeSound`: the resume contract is sound for all runs.
-/

namespace HireAndTech
namespace Resumes

open Interleaving Prog

/-! ## Failed calls -/

/-- Why a call that has stored its object fails. -/
inductive Cause
  | commit (e : DbError)
  | executor
deriving DecidableEq, Repr

/-- A call that has stored its object and then failed: the key of the object, the
cause, and what the call has done since. -/
def failureOf : List Event → Option (ObjectKey × Cause × List Event)
  | .committed _ :: .uploaded key true :: .parsed .executionError :: rest =>
      some (key, .executor, rest)
  | .committed _ :: .uploaded key true :: .parsed _ :: .commitFailed e :: rest =>
      some (key, .commit e, rest)
  | _ => none

/-- The error that the caller of a failed call is to receive. -/
def raised : Request → Cause → ServiceError
  | _, .executor => parserUnavailable
  | .replace _ _ _, .commit .staleData => concurrentChange
  | _, .commit e => .database e

/-- The failed call has compensated: the caller receives the error, the object has
been asked to be removed, and if it was removed and the next commit succeeded, its
reservation is gone. -/
def Compensated {α : Type} (r : Request) (key : ObjectKey) (cause : Cause) (rest : List Event)
    (res : Raises α) (w : World) : Prop :=
  res = .error (raised r cause) ∧ ∃ success rest', rest = .removed key success :: rest' ∧
    (success = true → ∀ u rest'', rest' = .committed u :: rest'' →
      ∀ c ∈ w.db.cleanups, c.storageObjectKey ≠ key)

/-- The failures after which the reservation can still be read: a replacement has no
transaction in progress when its executor fails. -/
def reservationReadable (env : Env) : Request → Cause → Bool
  | .replace _ _ _, .executor => !env.rollbackAlwaysExpires
  | _, _ => false

/-- How a failed call ends. -/
def EndsFailed {α : Type} (env : Env) (r : Request) (key : ObjectKey) (cause : Cause)
    (rest : List Event) (res : Raises α) (w : World) : Prop :=
  if reservationReadable env r cause then Compensated r key cause rest res w
  else rest = [] ∧ res = .error .missingGreenlet

/-- What is known of a call that stores a resume and has returned. -/
def Stores {α : Type} (env : Env) (i : CallId) (r : Request) (res : Raises α) (w : World) : Prop :=
  ∀ key cause rest, failureOf (w.events i) = some (key, cause, rest) →
    w.phases key = .attempted i ∧ EndsFailed env r key cause rest res w

/-- What is known of a call that has returned. -/
def Post (env : Env) (i : CallId) (r : Request) (res : Raises Reply) (w : World) : Prop :=
  match r with
  | .upload _ _ | .replace _ _ _ => Stores env i r res w
  | _ => True

/-! ## History and sessions -/

section

variable {env : Env} {i : CallId} {r : Request} {w w' : World} {β : Type} {cmd : Cmd β} {b : β}
variable {ch : Choice}

theorem events_append {es : List Event} (h : w'.log = w.log ++ es.map (i, ·)) :
    w'.events i = w.events i ++ es := by
  simp [World.events, h, List.filter_map, Function.comp_def]

theorem events_of_ne {j : CallId} (hj : j ≠ i) {es : List Event}
    (h : w'.log = w.log ++ es.map (i, ·)) : w'.events j = w.events j := by
  simp [World.events, h, List.filter_map, Function.comp_def, hj.symm]

theorem Frame.events (h : Frame i w w') {j : CallId} (hj : j ≠ i) : w'.events j = w.events j := by
  obtain ⟨es, hlog⟩ := h.log
  exact events_of_ne hj hlog

theorem exec_events (h : exec env i cmd ch w = some (b, w')) :
    w'.events i = w.events i ++ cmd.events b :=
  events_append (exec_log h)

theorem exec_session (h : exec env i cmd ch w = some (b, w')) :
    w'.sessions i = cmd.session env b (w.sessions i) := by
  rw [exec_sessions h, Function.update_self]

theorem exec_readObjectKey {cleanup : ResumeStorageCleanup} {key : Option ObjectKey}
    (h : exec env i (.readObjectKey cleanup) ch w = some (key, w')) :
    key = if cleanup.id ∈ (w.sessions i).expired then none
      else some cleanup.storageObjectKey := by
  obtain ⟨t, o⟩ := ch
  cases o <;> simp only [exec, reduceCtorEq] at h
  cases h
  rfl

theorem exec_getOwned {resumeId owner : UUID} {includeDeleted : Bool} {row : Option Resume}
    (h : exec env i (.getOwned resumeId owner includeDeleted) ch w = some (row, w')) :
    row = w.db.getOwned resumeId owner includeDeleted ∧ w'.db = w.db := by
  obtain ⟨t, o⟩ := ch
  cases o <;> simp only [exec, reduceCtorEq] at h
  cases h
  exact ⟨rfl, rfl⟩

theorem exec_getByObjectKey {key : ObjectKey} {row : Option ResumeStorageCleanup}
    (h : exec env i (.getByObjectKey key) ch w = some (row, w')) :
    row = w.db.getByObjectKey key ∧ w'.db = w.db := by
  obtain ⟨t, o⟩ := ch
  cases o <;> simp only [exec, reduceCtorEq] at h
  cases h
  exact ⟨rfl, rfl⟩

theorem getOwned_eq_some {db : Database} {resumeId owner : UUID} {includeDeleted : Bool}
    {x : Resume} (h : db.getOwned resumeId owner includeDeleted = some x) :
    x ∈ db.resumes ∧ x.id = resumeId ∧ x.ownerProfileId = owner ∧
      (includeDeleted = true ∨ x.status ≠ .deleted) := by
  have hsome := List.find?_some h
  simp only [Bool.and_eq_true, decide_eq_true_eq, Bool.or_eq_true, bne_iff_ne] at hsome
  exact ⟨List.mem_of_find?_eq_some h, hsome.1.1, hsome.1.2, hsome.2⟩

theorem getByObjectKey_eq_some {db : Database} {key : ObjectKey} {c : ResumeStorageCleanup}
    (h : db.getByObjectKey key = some c) : c ∈ db.cleanups ∧ c.storageObjectKey = key :=
  ⟨List.mem_of_find?_eq_some h, by simpa using List.find?_some h⟩

/-! ## Assertions of a call -/

/-- Call {lit}`i` knows the cleanup row {lit}`cid` of {lit}`owner` for {lit}`key`, the phase of
the key, its own history and a property of its session.  No other row has the key
as long as it is in flight. -/
structure Holds (i : CallId) (p : KeyPhase) (owner : UUID) (key : ObjectKey) (cid : UUID)
    (es : List Event) (S : Session → Prop) (w : World) : Prop where
  phase : w.phases key = p
  own : p = .reserved i ∨ p = .attempted i ∨ p = .settled
  names : Names w cid owner key
  sole : p ≠ .settled → ∀ c ∈ w.db.cleanups, c.storageObjectKey = key → c.id = cid
  events : w.events i = es
  session : S (w.sessions i)

theorem Names.frame {j : CallId} {cid owner : UUID} {key : ObjectKey} (h : Names w cid owner key)
    (hf : Frame j w w') : Names w' cid owner key where
  issued := hf.issued cid h.issued
  row c' hc' hid := by
    rcases hf.cleanups c' hc' with ⟨c, hc, hid', hkey, howner⟩ | ⟨hnew, _⟩
    · rw [hkey, howner]
      exact h.row c hc (hid' ▸ hid)
    · exact absurd (hid ▸ h.issued) hnew

theorem Retired.frame {j : CallId} {owner : UUID} {key : ObjectKey} (h : Retired w owner key)
    (hf : Frame j w w') : Retired w' owner key := by
  obtain ⟨x, hx, howner, hkey, hstatus⟩ := h
  obtain ⟨x', hx', hfollows⟩ := hf.resumes x hx
  exact ⟨x', hx', hfollows.2.1.trans howner, hfollows.2.2.1.trans hkey,
    hfollows.deleted hstatus⟩

theorem Loaded.frame {j : CallId} {current : Resume} (h : Loaded w current)
    (hf : Frame j w w') : Loaded w' current := by
  obtain ⟨x, hx, hfollows⟩ := h
  obtain ⟨x', hx', hfollows'⟩ := hf.resumes x hx
  exact ⟨x', hx', hfollows'.trans hfollows⟩

/-- A row of a key in flight is not added by another call, nor by its own call after
the storage request. -/
theorem Frame.cleanup_old {j : CallId} (hf : Frame j w w') {key : ObjectKey}
    (hphase : w.phases key ≠ .reserved j) (hopen : w.phases key ≠ .settled)
    {c' : ResumeStorageCleanup} (hc' : c' ∈ w'.db.cleanups) (hkey : c'.storageObjectKey = key) :
    ∃ c ∈ w.db.cleanups, c'.id = c.id ∧ c.storageObjectKey = key := by
  rcases hf.cleanups c' hc' with ⟨c, hc, hid, hkey', _⟩ | ⟨_, hnew | hnew⟩
  · exact ⟨c, hc, hid, hkey' ▸ hkey⟩
  · exact absurd (hkey ▸ hnew) hphase
  · exact absurd (hkey ▸ hnew) hopen

section

variable {p : KeyPhase} {owner cid : UUID} {key : ObjectKey} {es : List Event}
variable {S T : Session → Prop}

theorem Holds.stable : (resumeContract env).Stable i (Holds i p owner key cid es S) := by
  intro j _ hj w w' _ _ (hf : Frame j w w') h
  have hne : i ≠ j := hj.symm
  refine ⟨?_, h.own, h.names.frame hf, ?_, ?_, ?_⟩
  · have hadv := hf.phases key
    rw [h.phase] at hadv
    rcases h.own with rfl | rfl | rfl
    · exact hadv.reserved hne
    · exact hadv.attempted hne
    · exact hadv.settled
  · intro hp c' hc' hkey
    have hphase : w.phases key ≠ .reserved j := by
      rw [h.phase]
      rcases h.own with rfl | rfl | rfl <;> simp [hne]
    obtain ⟨c, hc, hid, hkey'⟩ := hf.cleanup_old hphase (h.phase ▸ hp) hc' hkey
    exact hid.trans (h.sole hp c hc hkey')
  · rw [hf.events hne, h.events]
  · rw [hf.sessions i hne]
    exact h.session

/-- A command of the call itself that leaves the key in its phase. -/
theorem Holds.exec (h : Holds i p owner key cid es S w) (hf : Frame i w w')
    (hexec : exec env i cmd ch w = some (b, w')) (hphase : w'.phases key = w.phases key)
    (hrow : p = .reserved i → w'.db = w.db)
    (hS : S (w.sessions i) → T (cmd.session env b (w.sessions i))) :
    Holds i p owner key cid (es ++ cmd.events b) T w' := by
  refine ⟨hphase.trans h.phase, h.own, h.names.frame hf, ?_, ?_, ?_⟩
  · intro hp c' hc' hkey
    by_cases hres : p = .reserved i
    · exact h.sole hp c' (hrow hres ▸ hc') hkey
    · obtain ⟨c, hc, hid, hkey'⟩ :=
        hf.cleanup_old (h.phase ▸ hres) (h.phase ▸ hp) hc' hkey
      exact hid.trans (h.sole hp c hc hkey')
  · rw [exec_events hexec, h.events]
  · rw [exec_session hexec]
    exact hS h.session

/-- A quiet command of the call itself. -/
theorem Holds.quiet (h : Holds i p owner key cid es S w) (hf : Frame i w w')
    (hexec : Resumes.exec env i cmd ch w = some (b, w')) (hq : cmd.isQuiet = true)
    (hS : S (w.sessions i) → T (cmd.session env b (w.sessions i))) :
    Holds i p owner key cid (es ++ cmd.events b) T w' := by
  obtain ⟨hdb, _, hphases, _⟩ := exec_quiet hq hexec
  exact h.exec hf hexec (by rw [hphases]) (fun _ => hdb) hS

theorem Holds.mono (h : Holds i p owner key cid es S w) (hS : S (w.sessions i) → T (w.sessions i)) :
    Holds i p owner key cid es T w :=
  ⟨h.phase, h.own, h.names, h.sole, h.events, hS h.session⟩

end

end

/-! ## Walking through the programs -/

section

variable {env : Env} {i : CallId} {r : Request}

/-- A program is valid under the resume contract, in all runs. -/
abbrev ValidCall (env : Env) (i : CallId) (r : Request) {α : Type} (p : Prog Cmd α)
    (P : World → Prop) (Q : α → World → Prop) : Prop :=
  Valid (resumeMachine env) .any (resumeContract env) i r p P Q

theorem exec_flushCommit_phases {u : UnitOfWork} (hu : u.insertResume = none) {w w' : World}
    {ch : Choice} {b : Except DbError Flushed}
    (h : exec env i (.flushCommit u) ch w = some (b, w')) : w'.phases = w.phases := by
  rcases exec_flushCommit h with ⟨_, _, _, _, _, hphases⟩ | ⟨_, _, _, _, _, _, _, _, hphases⟩
  · exact hphases
  · rw [hphases, UnitOfWork.settle, hu]

/-- A quiet command after which the call knows what it knew before. -/
theorem valid_quiet {β : Type} {c : Cmd β} {p : KeyPhase} {owner cid : UUID} {key : ObjectKey}
    {es : List Event} {S T : Session → Prop} (hq : c.isQuiet = true)
    (hissues : ∀ w, Issues env i r w c) (hS : ∀ b s, S s → T (c.session env b s)) :
    ValidCall env i r (perform c) (Holds i p owner key cid es S)
      fun b => Holds i p owner key cid (es ++ c.events b) T := by
  refine Valid.cmd Holds.stable (fun w _ _ => hissues w) ?_
  intro b w w' ch _ _ hf h _ he
  exact h.quiet hf he hq (hS b _)

/-- `_clear_cleanup_best_effort` of a reservation whose object is gone. -/
theorem valid_clear {cleanup : ResumeStorageCleanup} {owner : UUID} {key : ObjectKey}
    {p : KeyPhase} {es : List Event} (hr : r.owner = some owner) (hp : p.isMade = true)
    (hgone : .uploaded key false ∈ es ∨ .removed key true ∈ es) :
    ValidCall env i r (clearCleanupBestEffort cleanup)
      (Holds i p owner key cleanup.id es fun _ => True) fun _ w =>
        ∃ e, Holds i p owner key cleanup.id (es ++ [e]) (fun _ => True) w ∧
          ∀ u, e = .committed u → p ≠ .settled →
            ∀ c ∈ w.db.cleanups, c.storageObjectKey ≠ key := by
  refine Valid.bind (Q := fun b w =>
    Holds i p owner key cleanup.id
      (es ++ (Cmd.flushCommit { deleteCleanups := [cleanup.id] }).events b) (fun _ => True) w ∧
    (b.isOk = true → p ≠ .settled → ∀ c ∈ w.db.cleanups, c.storageObjectKey ≠ key)) ?_ ?_
  · refine Valid.cmd Holds.stable ?_ ?_
    · intro w _ h
      exact .clear hr h.names (h.phase ▸ hp) (h.events ▸ hgone)
    · intro b w w' ch _ _ (hf : Frame i w w') h _ he
      have hphases : w'.phases = w.phases := exec_flushCommit_phases rfl he
      have h' := h.exec (T := fun _ => True) hf he (by rw [hphases])
        (by rintro rfl; simp [KeyPhase.isMade] at hp) fun _ => trivial
      refine ⟨h', fun hok hopen c' hc' hkey => ?_⟩
      rcases exec_flushCommit he with ⟨e, rfl, _⟩ | ⟨f, rfl, _, _, _, hflush, _⟩
      · contradiction
      · obtain ⟨_, _, _, hdb⟩ := flush_eq_ok hflush
        have hid := h'.sole hopen c' hc' hkey
        rw [hdb] at hc'
        rcases mem_write_cleanups.mp hc' with ⟨c, _, hdel, rfl⟩ | ⟨d, hd, _⟩
        · exact absurd (by simpa using hid) hdel
        · contradiction
  · intro b
    cases b with
    | error e =>
        have hrollback : ValidCall env i r (perform .rollback)
            (Holds i p owner key cleanup.id (es ++ [.commitFailed e]) fun _ => True)
            fun b => Holds i p owner key cleanup.id
              ((es ++ [.commitFailed e]) ++ Cmd.rollback.events b) fun _ => True :=
          valid_quiet rfl (fun _ => trivial) fun _ _ _ => trivial
        refine (hrollback.pre fun w _ h => h.1).post ?_
        intro _ w _ h
        exact ⟨_, by simpa [Cmd.events] using h, by simp⟩
    | ok f =>
        refine Valid.ret fun w _ h => ⟨_, h.1, ?_⟩
        intro u _ hopen
        exact h.2 rfl hopen

/-- A storage deletion, with its outcome in the history. -/
theorem valid_storageDelete {p : KeyPhase} {owner cid : UUID} {key : ObjectKey} {es : List Event}
    {S : Session → Prop} {F : World → Prop} (hF : (resumeContract env).Persistent F)
    (hissues : ∀ w, Holds i p owner key cid es S w → F w → Removes i w r key) :
    ValidCall env i r (perform (.storageDelete key))
      (fun w => Holds i p owner key cid es S w ∧ F w)
      fun success => Holds i p owner key cid (es ++ [.removed key success]) S := by
  refine Valid.cmd (Holds.stable.and hF.stable) (fun w _ h => hissues w h.1 h.2) ?_
  intro b w w' ch _ _ hf h _ he
  obtain ⟨_, _, hdb, _, hphases, _, _⟩ := exec_storageDelete he
  exact h.1.exec hf he (by rw [hphases]) (fun _ => hdb) id

/-- The compensation of a call whose reservation has expired. -/
theorem valid_compensate_expired {α : Type} {cleanup : ResumeStorageCleanup} {owner : UUID}
    {key : ObjectKey} {p : KeyPhase} {es : List Event} {error : ServiceError} :
    ValidCall env i r (compensateAndRaise (α := α) cleanup error)
      (Holds i p owner key cleanup.id es (cleanup.id ∈ ·.expired)) fun res w =>
        res = .error .missingGreenlet ∧ Holds i p owner key cleanup.id es (fun _ => True) w := by
  refine Valid.bind (Q := fun res w =>
    res = .error .missingGreenlet ∧ Holds i p owner key cleanup.id es (fun _ => True) w) ?_ ?_
  · refine Valid.bind (Q := fun b w =>
      b = none ∧ Holds i p owner key cleanup.id es (fun _ => True) w) ?_ ?_
    · refine Valid.cmd Holds.stable (fun _ _ _ => trivial) ?_
      intro b w w' ch _ _ hf h _ he
      refine ⟨?_, by simpa [Cmd.events] using h.quiet hf he rfl fun _ => trivial⟩
      rw [exec_readObjectKey he, if_pos h.session]
    · intro b
      refine Valid.assume ?_
      rintro rfl
      exact Valid.ret fun w _ h => ⟨rfl, h⟩
  · intro res
    refine Valid.assume ?_
    rintro rfl
    exact Valid.ret fun w _ h => ⟨rfl, h⟩

/-- The compensation of a call whose reservation can be read. -/
theorem valid_compensate {α : Type} {cleanup : ResumeStorageCleanup} {owner : UUID}
    {es : List Event} {error : ServiceError} (hr : r.owner = some owner) :
    ValidCall env i r (compensateAndRaise (α := α) cleanup error)
      (Holds i (.attempted i) owner cleanup.storageObjectKey cleanup.id es
        (cleanup.id ∉ ·.expired)) fun res w =>
        res = .error error ∧ ∃ success rest,
          Holds i (.attempted i) owner cleanup.storageObjectKey cleanup.id
            (es ++ .removed cleanup.storageObjectKey success :: rest) (fun _ => True) w ∧
          (success = true → ∀ u rest', rest = .committed u :: rest' →
            ∀ c ∈ w.db.cleanups, c.storageObjectKey ≠ cleanup.storageObjectKey) := by
  refine Valid.bind (Q := fun res w => res = .ok () ∧ ∃ success rest,
    Holds i (.attempted i) owner cleanup.storageObjectKey cleanup.id
      (es ++ .removed cleanup.storageObjectKey success :: rest) (fun _ => True) w ∧
    (success = true → ∀ u rest', rest = .committed u :: rest' →
      ∀ c ∈ w.db.cleanups, c.storageObjectKey ≠ cleanup.storageObjectKey)) ?_ ?_
  · refine Valid.bind (Q := fun b w => b = some cleanup.storageObjectKey ∧
      Holds i (.attempted i) owner cleanup.storageObjectKey cleanup.id es (fun _ => True) w) ?_ ?_
    · refine Valid.cmd Holds.stable (fun _ _ _ => trivial) ?_
      intro b w w' ch _ _ hf h _ he
      refine ⟨?_, by simpa [Cmd.events] using h.quiet hf he rfl fun _ => trivial⟩
      rw [exec_readObjectKey he, if_neg h.session]
    · intro b
      refine Valid.assume ?_
      rintro rfl
      refine Valid.bind ((valid_storageDelete (F := fun _ => True) (fun _ _ _ _ _ _ _ => id)
        fun w h _ => .compensation h.phase).pre fun w _ h => ⟨h, trivial⟩) ?_
      intro success
      cases success with
      | false =>
          exact Valid.ret fun w _ h => ⟨rfl, false, [], by simpa using h, by simp⟩
      | true =>
          refine Valid.bind (valid_clear hr rfl (Or.inr (by simp))) ?_
          intro _
          refine Valid.ret ?_
          rintro w _ ⟨e, h, hgone⟩
          refine ⟨rfl, true, [e], by simpa using h, ?_⟩
          rintro _ u rest' heq
          exact hgone u (List.cons.inj heq).1 (by simp)
  · intro res
    refine Valid.assume ?_
    rintro rfl
    exact Valid.ret fun w _ h => ⟨rfl, h⟩

/-! ### Storing a new resume -/

/-- The state of a session that has committed a reservation. -/
def Tracks (cid : UUID) (s : Session) : Prop :=
  cid ∈ s.persistent ∧ s.expired = [] ∧ s.inTransaction = false

/-- Call {lit}`i` has drawn the id of a new resume and done nothing else. -/
def Drawn (i : CallId) (owner id : UUID) (w : World) : Prop :=
  w.phases (buildResumeObjectKey owner id) = .reserved i ∧ w.events i = [] ∧
    (w.sessions i).expired = []

theorem Drawn.stable {owner id : UUID} : (resumeContract env).Stable i (Drawn i owner id) := by
  rintro j _ hj w w' _ _ (hf : Frame j w w') ⟨hphase, hevents, hsession⟩
  refine ⟨?_, (hf.events hj.symm).trans hevents, (hf.sessions i hj.symm).symm ▸ hsession⟩
  have hadv := hf.phases (buildResumeObjectKey owner id)
  rw [hphase] at hadv
  exact hadv.reserved hj.symm

/-- An inserted cleanup row is the only one of its id. -/
theorem names_of_insert {u : UnitOfWork} {d : CleanupDraft} (hd : u.insertCleanup = some d)
    {w w' : World} (hw : Coherent w) {f : Flushed} (hfresh : f.rowId ∉ w.issued)
    (hflush : w.db.flush u f.now f.rowId = .ok w'.db) (hissued : w'.issued = f.rowId :: w.issued) :
    { d with id := f.rowId } ∈ w'.db.cleanups ∧
      Names w' f.rowId d.ownerProfileId d.storageObjectKey := by
  obtain ⟨_, _, _, hdb⟩ := flush_eq_ok hflush
  rw [hdb]
  refine ⟨mem_write_cleanups.mpr (Or.inr ⟨d, hd, rfl⟩), by simp [hissued], ?_⟩
  intro c' hc' hid
  rw [hdb] at hc'
  rcases mem_write_cleanups.mp hc' with ⟨c, hc, _, rfl⟩ | ⟨d', hd', rfl⟩
  · rw [failRow_id] at hid
    exact absurd (hid ▸ hw.cleanup_issued c hc) hfresh
  · cases hd.symm.trans hd'
    exact ⟨rfl, rfl⟩

/-- `_reserve_cleanup`. -/
theorem valid_reserveCleanup {owner id : UUID} (hr : r.owner = some owner) :
    ValidCall env i r (reserveCleanup env owner (buildResumeObjectKey owner id))
      (Drawn i owner id)
      (Ends
        (fun c w => c.storageObjectKey = buildResumeObjectKey owner id ∧
          Holds i (.reserved i) owner (buildResumeObjectKey owner id) c.id
            [.committed { insertCleanup := some c.toCleanupDraft }] (Tracks c.id) w)
        fun _ w => ∃ e, w.events i = [.commitFailed e]) := by
  refine Valid.bind (Q := fun _ => Drawn i owner id) ?_ ?_
  · refine Valid.cmd Drawn.stable (fun _ _ _ => trivial) ?_
    rintro b w w' ch _ _ hf ⟨hphase, hevents, hsession⟩ _ he
    obtain ⟨_, _, hphases, _⟩ := exec_quiet rfl he
    exact ⟨hphases ▸ hphase, by rw [exec_events he, hevents]; rfl,
      by rw [exec_session he]; exact hsession⟩
  intro now
  refine Valid.bind (Q := Ends
    (fun f => Holds i (.reserved i) owner (buildResumeObjectKey owner id) f.rowId
      [.committed { insertCleanup := some (cleanupRecord env owner
        (buildResumeObjectKey owner id) (now + reservationPeriod)) }] (Tracks f.rowId))
    fun e w => w.events i = [.commitFailed e]) ?_ ?_
  · refine Valid.cmd Drawn.stable (fun w _ h => .reserve hr h.1) ?_
    rintro b w w' ch hw hw' hf ⟨hphase, hevents, hsession⟩ _ he
    have hphases := exec_flushCommit_phases rfl he
    have hev := exec_events he
    have hses := exec_session he
    rcases exec_flushCommit he with ⟨e, rfl, _⟩ |
      ⟨f, rfl, _, hfresh, _, hflush, _, hissued, _⟩
    · rw [hevents] at hev
      exact hev
    · obtain ⟨hrow, hnames⟩ := names_of_insert rfl hw hfresh hflush hissued
      refine ⟨hphases ▸ hphase, Or.inl rfl, hnames, ?_, by rw [hev, hevents]; rfl, ?_⟩
      · intro _ c hc hkey
        rw [hw'.constraints.cleanup_eq_of_key hc hrow hkey]
      · rw [hses]
        exact ⟨by simp [Cmd.session, Session.commit], hsession, rfl⟩
  · intro b
    cases b with
    | error e =>
        refine Valid.bind (Q := fun _ w => w.events i = [.commitFailed e]) ?_ fun _ =>
          Valid.ret fun w _ h => ⟨e, h⟩
        refine Valid.cmd ?_ (fun _ _ _ => trivial) ?_
        · intro j _ hj w w' _ _ (hf : Frame j w w') h
          exact (hf.events hj.symm).trans h
        · intro _ w w' ch _ _ _ h _ he
          rw [exec_events he, h]
          rfl
    | ok f => exact Valid.ret fun w _ h => ⟨rfl, h⟩

/-- The storage request for a reserved key. -/
theorem valid_storageUpload {owner cid : UUID} {key : ObjectKey} {d : CleanupDraft}
    {S : Session → Prop} (hd : d.storageObjectKey = key) :
    ValidCall env i r (perform (.storageUpload key))
      (Holds i (.reserved i) owner key cid [.committed { insertCleanup := some d }] S)
      fun success => Holds i (.attempted i) owner key cid
        [.committed { insertCleanup := some d }, .uploaded key success] S := by
  refine Valid.cmd Holds.stable (fun w _ h => ⟨h.phase, ?_⟩) ?_
  · exact ⟨_, by rw [h.events]; simp, d, rfl, hd⟩
  · intro b w w' ch _ _ hf h _ he
    obtain ⟨_, _, hdb, _, hphases, _, _⟩ := exec_storageUpload he
    refine ⟨by rw [hphases, Function.update_self], Or.inr (Or.inl rfl), h.names.frame hf, ?_, ?_,
      ?_⟩
    · intro _ c hc hkey
      exact h.sole (by simp) c (hdb ▸ hc) hkey
    · rw [exec_events he, h.events]
      rfl
    · rw [exec_session he]
      exact h.session

/-- A call that has stored its object and not removed it. -/
theorem Holds.stored {owner id cid : UUID} {es : List Event} {S : Session → Prop} {w : World}
    (h : Holds i (.attempted i) owner (buildResumeObjectKey owner id) cid es S w)
    (huploaded : .uploaded (buildResumeObjectKey owner id) true ∈ es)
    (hkept : ∀ b, .removed (buildResumeObjectKey owner id) b ∉ es) : Stored i w owner id cid where
  phase := h.phase
  names := h.names
  sole := h.sole (by simp)
  uploaded := h.events ▸ huploaded
  kept b := h.events ▸ hkept b

/-- The end of an upload. -/
theorem valid_persistUpload {owner id : UUID} {file : ValidatedResumeUpload}
    {status : ResumeStatus} {code : Option String} {profile : Option CandidateProfile}
    {cleanup : ResumeStorageCleanup} {es : List Event}
    (huploaded : .uploaded (buildResumeObjectKey owner id) true ∈ es)
    (hkept : ∀ b, .removed (buildResumeObjectKey owner id) b ∉ es)
    (hshape : (status = .parsed ∧ ∃ parsed, profile = some (newProfile id owner parsed)) ∨
      (status = .parseFailed ∧ profile = none)) :
    ValidCall env i (.upload owner file)
      (persistUpload cleanup
        (newResume env id owner (buildResumeObjectKey owner id) file status code) profile)
      (Holds i (.attempted i) owner (buildResumeObjectKey owner id) cleanup.id es
        (cleanup.id ∈ ·.persistent))
      (Ends (fun _ w => ∃ u, w.events i = es ++ [.committed u])
        fun error w => error = .missingGreenlet ∧ ∃ e,
          Holds i (.attempted i) owner (buildResumeObjectKey owner id) cleanup.id
            (es ++ [.commitFailed e]) (fun _ => True) w) := by
  refine Valid.bind (Q := Ends (fun _ w => ∃ u, w.events i = es ++ [.committed u])
    fun e => Holds i (.attempted i) owner (buildResumeObjectKey owner id) cleanup.id
      (es ++ [.commitFailed e]) fun s => cleanup.id ∈ s.persistent ∧ s.inTransaction = true) ?_ ?_
  · refine Valid.cmd Holds.stable
      (fun w _ h => .persist (h.stored huploaded hkept) hshape) ?_
    intro b w w' ch _ _ hf h _ he
    rcases exec_flushCommit he with ⟨e, rfl, hdb, _, _, hphases⟩ | ⟨f, rfl, _⟩
    · exact h.exec hf he (by rw [hphases]) (fun _ => hdb) fun hs => ⟨hs, rfl⟩
    · exact ⟨_, by rw [exec_events he, h.events]; rfl⟩
  · intro b
    cases b with
    | ok f => exact Valid.ret fun w _ h => h
    | error e =>
        refine Valid.bind (valid_quiet (c := .rollback) (T := (cleanup.id ∈ ·.expired)) rfl
            (fun _ => trivial) ?_) fun _ =>
          (valid_compensate_expired.pre fun w _ h => by simpa [Cmd.events] using h).post ?_
        · rintro _ s ⟨hs, htx⟩
          simpa [Cmd.session, Session.rollback, htx] using hs
        · rintro _ w _ ⟨rfl, h⟩
          exact ⟨rfl, e, h⟩

/-! ### The operations -/

/-- The call has not been started. -/
def Unstarted (i : CallId) (w : World) : Prop :=
  w.events i = [] ∧ w.sessions i = {}

theorem Unstarted.stable : (resumeContract env).Stable i (Unstarted i) := by
  rintro j _ hj w w' _ _ (hf : Frame j w w') ⟨hevents, hsession⟩
  exact ⟨(hf.events hj.symm).trans hevents, (hf.sessions i hj.symm).trans hsession⟩

theorem valid_uuid4 {owner : UUID} {P : World → Prop} (hP : (resumeContract env).Stable i P)
    (hstart : ∀ w, P w → w.events i = [] ∧ (w.sessions i).expired = []) :
    ValidCall env i r (perform (.uuid4 owner)) P fun id => Drawn i owner id := by
  refine Valid.cmd hP (fun _ _ _ => trivial) ?_
  intro id w w' ch _ _ _ h _ he
  obtain ⟨_, _, _, _, hphases⟩ := exec_uuid4 he
  obtain ⟨hevents, hsession⟩ := hstart w h
  exact ⟨by rw [hphases, Function.update_self], by rw [exec_events he, hevents]; rfl,
    by rw [exec_session he]; exact hsession⟩

theorem stores_of_events {α : Type} {res : Raises α} {w : World} {es : List Event}
    (hes : w.events i = es) (h : failureOf es = none) : Stores env i r res w := by
  intro key cause rest hfail
  rw [hes, h] at hfail
  contradiction

/-- A failed call whose reservation could not be read. -/
theorem Holds.stores_unreadable {α : Type} {owner cid : UUID} {key : ObjectKey} {es : List Event}
    {S : Session → Prop} {w : World} {cause : Cause}
    (h : Holds i (.attempted i) owner key cid es S w)
    (hfail : failureOf es = some (key, cause, []))
    (hread : reservationReadable env r cause = false) :
    Stores (α := α) env i r (.error .missingGreenlet) w := by
  intro key' cause' rest hfail'
  rw [h.events, hfail] at hfail'
  obtain ⟨rfl, rfl, rfl⟩ : key = key' ∧ cause = cause' ∧ [] = rest := by simpa using hfail'
  refine ⟨h.phase, ?_⟩
  rw [EndsFailed, hread]
  exact ⟨rfl, rfl⟩

/-- A failed call that has compensated. -/
theorem Holds.stores_compensated {α : Type} {owner cid : UUID} {key : ObjectKey}
    {es rest : List Event} {S : Session → Prop} {w : World} {cause : Cause} {success : Bool}
    (h : Holds i (.attempted i) owner key cid (es ++ .removed key success :: rest) S w)
    (hfail : failureOf (es ++ .removed key success :: rest) =
      some (key, cause, .removed key success :: rest))
    (hread : reservationReadable env r cause = true) {error : ServiceError}
    (herror : error = raised r cause)
    (hgone : success = true → ∀ u rest', rest = .committed u :: rest' →
      ∀ c ∈ w.db.cleanups, c.storageObjectKey ≠ key) :
    Stores (α := α) env i r (.error error) w := by
  intro key' cause' rest' hfail'
  rw [h.events, hfail] at hfail'
  obtain ⟨rfl, rfl, rfl⟩ : key = key' ∧ cause = cause' ∧ .removed key success :: rest = rest' := by
    simpa using hfail'
  refine ⟨h.phase, ?_⟩
  rw [EndsFailed, if_pos hread]
  exact ⟨by rw [herror], success, rest, rfl, hgone⟩

/-- `ResumeService.upload`. -/
theorem valid_upload {owner : UUID} {file : ValidatedResumeUpload} :
    ValidCall env i (.upload owner file) (upload env owner file) (Unstarted i)
      (Stores env i (.upload owner file)) := by
  refine Valid.bind (valid_uuid4 Unstarted.stable fun w h => ⟨h.1, by rw [h.2]⟩) ?_
  intro id
  refine Valid.bind (valid_reserveCleanup rfl) ?_
  intro res
  cases res with
  | error e =>
      refine Valid.ret ?_
      rintro w _ ⟨_, h⟩
      exact stores_of_events h rfl
  | ok cleanup =>
      refine Valid.assume fun hkey => ?_
      refine Valid.bind (valid_storageUpload (d := cleanup.toCleanupDraft) hkey) ?_
      intro success
      cases success with
      | false =>
          refine Valid.bind ((valid_clear rfl rfl (Or.inl (by simp))).pre
            fun w _ h => h.mono fun _ => trivial) fun _ => Valid.ret ?_
          rintro w _ ⟨e, h, _⟩
          exact stores_of_events h.events rfl
      | true =>
          refine Valid.bind (valid_quiet rfl (T := fun s =>
            cleanup.id ∈ s.persistent ∧ s.inTransaction = true)
            (fun _ => trivial) fun _ _ h => ⟨h.1, rfl⟩) fun _ => ?_
          refine Valid.bind (valid_quiet rfl (T := fun s =>
            cleanup.id ∈ s.persistent ∧ s.inTransaction = true) (fun _ => trivial)
            fun _ _ h => h) fun outcome => ?_
          cases outcome with
          | rejected error =>
              refine Valid.bind ((valid_persistUpload (by simp [Cmd.events]) (by simp [Cmd.events])
                (Or.inr ⟨rfl, rfl⟩)).pre fun w _ h => h.mono And.left) fun res => ?_
              cases res with
              | error e =>
                  refine Valid.ret ?_
                  rintro w _ ⟨rfl, e, h⟩
                  exact h.stores_unreadable rfl rfl
              | ok _ =>
                  refine Valid.ret ?_
                  rintro w _ ⟨u, h⟩
                  exact stores_of_events h rfl
          | executionError =>
              refine Valid.bind (valid_quiet (c := .rollback) (T := (cleanup.id ∈ ·.expired)) rfl
                  (fun _ => trivial) ?_) fun _ =>
                valid_compensate_expired.post ?_
              · rintro _ s ⟨hs, htx⟩
                simpa [Cmd.session, Session.rollback, htx] using hs
              · rintro _ w _ ⟨rfl, h⟩
                exact h.stores_unreadable rfl rfl
          | parsed parsed =>
              refine ((valid_persistUpload (by simp [Cmd.events]) (by simp [Cmd.events])
                (Or.inl ⟨rfl, parsed, rfl⟩)).pre fun w _ h => h.mono And.left).post ?_
              intro res w _ h
              cases res with
              | error e =>
                  obtain ⟨rfl, e, h⟩ := h
                  exact h.stores_unreadable rfl rfl
              | ok _ =>
                  obtain ⟨u, h⟩ := h
                  exact stores_of_events h rfl

/-- The call has read rows and nothing else. -/
def Reading (i : CallId) (w : World) : Prop :=
  w.events i = [] ∧ (w.sessions i).expired = []

theorem Reading.stable : (resumeContract env).Stable i (Reading i) := by
  rintro j _ hj w w' _ _ (hf : Frame j w w') ⟨hevents, hsession⟩
  exact ⟨(hf.events hj.symm).trans hevents, (hf.sessions i hj.symm).symm ▸ hsession⟩

theorem loaded_persistent {current : Resume} :
    (resumeContract env).Persistent fun w => Loaded w current :=
  fun _ _ _ _ _ _ hf h => h.frame hf

theorem retired_persistent {owner : UUID} {key : ObjectKey} :
    (resumeContract env).Persistent fun w => Retired w owner key :=
  fun _ _ _ _ _ _ hf h => h.frame hf

theorem valid_reading_now : ValidCall env i r (perform .now) (Reading i) fun _ => Reading i := by
  refine Valid.cmd Reading.stable (fun _ _ _ => trivial) ?_
  rintro b w w' ch _ _ _ ⟨hevents, hsession⟩ _ he
  exact ⟨by rw [exec_events he, hevents]; rfl, by rw [exec_session he]; exact hsession⟩

/-- Reading a resume of the owner. -/
theorem valid_getOwned {resumeId owner : UUID} {includeDeleted : Bool}
    (hr : r.owner = some owner) :
    ValidCall env i r (perform (.getOwned resumeId owner includeDeleted)) (Unstarted i)
      fun row w => Reading i w ∧ ∀ current, row = some current →
        current.id = resumeId ∧ current.ownerProfileId = owner ∧
          (includeDeleted = true ∨ current.status ≠ .deleted) ∧ current ∈ w.db.resumes := by
  refine Valid.cmd Unstarted.stable (fun _ _ _ => hr) ?_
  rintro row w w' ch _ _ _ ⟨hevents, hsession⟩ _ he
  obtain ⟨rfl, hdb⟩ := exec_getOwned he
  refine ⟨⟨by rw [exec_events he, hevents]; rfl, ?_⟩, ?_⟩
  · rw [exec_session he, hsession]
    rfl
  · intro current hrow
    obtain ⟨hmem, hid, howner, hactive⟩ := getOwned_eq_some hrow
    exact ⟨hid, howner, hactive, hdb ▸ hmem⟩

/-- A committed retirement leaves a deleted row under the object key. -/
theorem retired_of_flush {u : UnitOfWork} {current : Resume} {t : Time}
    (hu : u.retire = some (current, t)) {w w' : World} (hw : Coherent w)
    (hloaded : Loaded w current) {f : Flushed}
    (hflush : w.db.flush u f.now f.rowId = .ok w'.db) :
    Retired w' current.ownerProfileId current.storageObjectKey := by
  obtain ⟨hfresh, _, _, hdb⟩ := flush_eq_ok hflush
  simp only [Database.retirementFresh, hu, List.any_eq_true] at hfresh
  obtain ⟨x, hx, hmatch⟩ := hfresh
  obtain ⟨y, hy, hid, howner, hkey, _⟩ := hloaded
  have hxy : x = y :=
    hw.constraints.resume_eq hx hy ((matchesVersion_iff.mp hmatch).1.trans hid.symm)
  refine ⟨retireRow current t x, ?_, ?_, ?_, (retireRow_of_matches hmatch).1⟩
  · rw [hdb]
    exact mem_write_resumes.mpr (Or.inl ⟨x, hx, Or.inl ⟨current, t, hu, rfl⟩⟩)
  · rw [retireRow_ownerProfileId, hxy, howner]
  · rw [retireRow_storageObjectKey, hxy, hkey]

/-- The key of a retired resume is settled. -/
theorem Retired.settled {w : World} {owner : UUID} {key : ObjectKey} (hw : Coherent w)
    (h : Retired w owner key) : w.phases key = .settled := by
  obtain ⟨x, hx, _, rfl, _⟩ := h
  exact hw.resume_settled x hx

/-- The removal of the object of a retired resume under its cleanup row. -/
theorem valid_removeRetired {α : Type} {owner : UUID} {key : ObjectKey}
    (cleanup : ResumeStorageCleanup) {es : List Event} {done failed : Raises α}
    (hr : r.owner = some owner) :
    ValidCall env i r
      (do
        if ← perform (.storageDelete key) then
          clearCleanupBestEffort cleanup
          return done
        else return failed)
      (fun w => Holds i .settled owner key cleanup.id es (fun _ => True) w ∧ Retired w owner key)
      fun _ w => ∃ success rest, w.events i = es ++ .removed key success :: rest := by
  refine Valid.bind (valid_storageDelete retired_persistent
    fun w _ hretired => .retired hr hretired) ?_
  intro success
  cases success with
  | false => exact Valid.ret fun w _ h => ⟨false, [], h.events⟩
  | true =>
      refine Valid.bind (valid_clear hr rfl (Or.inr (by simp))) fun _ => Valid.ret ?_
      rintro w _ ⟨e, h, _⟩
      exact ⟨true, [e], by simpa using h.events⟩

/-- The end of a replacement. -/
theorem valid_retireAndReplace {owner id : UUID} {file : ValidatedResumeUpload}
    {current : Resume} {parsed : ParsedResume} {cleanup : ResumeStorageCleanup} {u : UnitOfWork}
    (hactive : current.status ≠ .deleted) (howner : current.ownerProfileId = owner) :
    ValidCall env i (.replace current.id owner file)
      (retireAndReplace env current cleanup
        (newResume env id owner (buildResumeObjectKey owner id) file .parsed none)
        (newProfile id owner parsed))
      (fun w => Holds i (.attempted i) owner (buildResumeObjectKey owner id) cleanup.id
        [.committed u, .uploaded (buildResumeObjectKey owner id) true, .parsed (.parsed parsed)]
        (Tracks cleanup.id) w ∧ Loaded w current)
      (Stores env i (.replace current.id owner file)) := by
  refine Valid.bind ((valid_quiet (c := .now) rfl (fun _ => trivial) fun _ _ h => h).frame
    loaded_persistent) fun deletedAt => ?_
  refine Valid.bind ((valid_quiet (c := .now) rfl (fun _ => trivial) fun _ _ h => h).frame
    loaded_persistent) fun availableAt => ?_
  refine Valid.bind (Q := Ends
    (fun f w => ∃ u', Holds i .settled owner current.storageObjectKey f.rowId
      [.committed u, .uploaded (buildResumeObjectKey owner id) true, .parsed (.parsed parsed),
        .committed u'] (fun _ => True) w ∧ Retired w owner current.storageObjectKey)
    fun e => Holds i (.attempted i) owner (buildResumeObjectKey owner id) cleanup.id
      [.committed u, .uploaded (buildResumeObjectKey owner id) true, .parsed (.parsed parsed),
        .commitFailed e] fun s => cleanup.id ∈ s.persistent ∧ s.inTransaction = true) ?_ ?_
  · refine Valid.cmd (Holds.stable.and loaded_persistent.stable) ?_ ?_
    · rintro w _ ⟨h, hloaded⟩
      exact .replace (h.stored (by simp [Cmd.events]) (by simp [Cmd.events])) hloaded hactive
        howner
    · rintro b w w' ch hw hw' hf ⟨h, hloaded⟩ _ he
      have hev := exec_events he
      rw [h.events] at hev
      rcases exec_flushCommit he with ⟨e, rfl, hdb, _, _, hphases⟩ |
        ⟨f, rfl, _, hfresh, _, hflush, _, hissued, _⟩
      · exact h.exec hf he (by rw [hphases]) (fun _ => hdb) fun hs => ⟨hs.1, rfl⟩
      · have hretired := retired_of_flush rfl hw hloaded hflush
        rw [howner] at hretired
        exact ⟨_, ⟨hretired.settled hw', Or.inr (Or.inr rfl),
          (names_of_insert rfl hw hfresh hflush hissued).2, by simp, hev, trivial⟩, hretired⟩
  · intro b
    cases b with
    | error e =>
        have hrollback : ValidCall env i (.replace current.id owner file) (perform .rollback)
            (Holds i (.attempted i) owner (buildResumeObjectKey owner id) cleanup.id
              [.committed u, .uploaded (buildResumeObjectKey owner id) true,
                .parsed (.parsed parsed), .commitFailed e]
              fun s => cleanup.id ∈ s.persistent ∧ s.inTransaction = true)
            fun _ => Holds i (.attempted i) owner (buildResumeObjectKey owner id) cleanup.id
              [.committed u, .uploaded (buildResumeObjectKey owner id) true,
                .parsed (.parsed parsed), .commitFailed e] (cleanup.id ∈ ·.expired) := by
          refine valid_quiet (c := .rollback) rfl (fun _ => trivial) ?_
          rintro _ s ⟨hs, htx⟩
          simpa [Cmd.session, Session.rollback, htx] using hs
        cases e with
        | staleData =>
            refine Valid.bind hrollback fun _ => valid_compensate_expired.post ?_
            rintro _ w _ ⟨rfl, h⟩
            exact h.stores_unreadable rfl rfl
        | integrity =>
            refine Valid.bind hrollback fun _ => valid_compensate_expired.post ?_
            rintro _ w _ ⟨rfl, h⟩
            exact h.stores_unreadable rfl rfl
        | operational =>
            refine Valid.bind hrollback fun _ => valid_compensate_expired.post ?_
            rintro _ w _ ⟨rfl, h⟩
            exact h.stores_unreadable rfl rfl
    | ok f =>
        let cleanup : ResumeStorageCleanup :=
          { cleanupRecord env owner current.storageObjectKey availableAt with id := f.rowId }
        refine Valid.exists_pre fun u' => (valid_removeRetired cleanup rfl).post ?_
        rintro _ w _ ⟨success, rest, h⟩
        exact stores_of_events h rfl

/-- `ResumeService.replace`. -/
theorem valid_replace {resumeId owner : UUID} {file : ValidatedResumeUpload} :
    ValidCall env i (.replace resumeId owner file) (replace env resumeId owner file)
      (Unstarted i) (Stores env i (.replace resumeId owner file)) := by
  refine Valid.bind (valid_getOwned rfl) fun row => ?_
  cases row with
  | none => exact Valid.ret fun w _ h => stores_of_events h.1.1 rfl
  | some current =>
      refine (Valid.assume (φ := current.id = resumeId ∧ current.ownerProfileId = owner ∧
        current.status ≠ .deleted) (P := fun w => Reading i w ∧ Loaded w current) ?_).pre ?_
      swap
      · rintro w _ ⟨hreading, hrow⟩
        obtain ⟨hid, howner, hactive, hmem⟩ := hrow current rfl
        exact ⟨⟨hid, howner, hactive.resolve_left (by simp)⟩, hreading, current, hmem, .refl _⟩
      rintro ⟨rfl, howner, hactive⟩
      refine Valid.bind ((valid_uuid4 Reading.stable fun w h => h).frame loaded_persistent) ?_
      intro id
      refine Valid.bind ((valid_reserveCleanup rfl).frame loaded_persistent) fun res => ?_
      cases res with
      | error e =>
          refine Valid.ret ?_
          rintro w _ ⟨⟨_, h⟩, _⟩
          exact stores_of_events h rfl
      | ok cleanup =>
          refine (Valid.assume (φ := cleanup.storageObjectKey = buildResumeObjectKey owner id)
            (P := fun w => Holds i (.reserved i) owner (buildResumeObjectKey owner id) cleanup.id
              [.committed { insertCleanup := some cleanup.toCleanupDraft }] (Tracks cleanup.id) w ∧
              Loaded w current) fun hkey => ?_).pre fun w _ h => ⟨h.1.1, h.1.2, h.2⟩
          refine Valid.bind ((valid_storageUpload (d := cleanup.toCleanupDraft) hkey).frame
            loaded_persistent) fun success => ?_
          cases success with
          | false =>
              refine Valid.bind ((valid_clear rfl rfl (Or.inl (by simp))).pre
                fun w _ h => h.1.mono fun _ => trivial) fun _ => Valid.ret ?_
              rintro w _ ⟨e, h, _⟩
              exact stores_of_events h.events rfl
          | true =>
              refine Valid.bind ((valid_quiet (c := .parse file.content) rfl
                (T := Tracks cleanup.id) (fun _ => trivial) fun _ _ h => h).frame
                  loaded_persistent) fun outcome => ?_
              cases outcome with
              | rejected error =>
                  rw [← hkey]
                  refine ((valid_compensate rfl).pre fun w _ h =>
                    h.1.mono fun hs => by simp [hs.2.1]).post ?_
                  rintro _ w _ ⟨rfl, success, rest, h, _⟩
                  exact stores_of_events h.events rfl
              | executionError =>
                  -- no transaction is in progress, so the rollback expires nothing unless it
                  -- always does
                  cases halways : env.rollbackAlwaysExpires with
                  | true =>
                      refine Valid.bind ((valid_quiet (c := .rollback)
                        (T := (cleanup.id ∈ ·.expired)) rfl (fun _ => trivial) ?_).pre
                        fun w _ h => h.1) fun _ => valid_compensate_expired.post ?_
                      · rintro _ s ⟨hs, _⟩
                        simpa [Cmd.session, Session.rollback, halways] using hs
                      · rintro _ w _ ⟨rfl, h⟩
                        exact h.stores_unreadable rfl (by simp [reservationReadable, halways])
                  | false =>
                      rw [← hkey]
                      refine Valid.bind ((valid_quiet (c := .rollback)
                        (T := (cleanup.id ∉ ·.expired)) rfl (fun _ => trivial) ?_).pre
                        fun w _ h => h.1) fun _ => (valid_compensate rfl).post ?_
                      · rintro _ s ⟨_, hs, htx⟩
                        simp [Cmd.session, Session.rollback, halways, htx, hs]
                      · rintro _ w _ ⟨rfl, success, rest, h, hgone⟩
                        exact h.stores_compensated rfl (by simp [reservationReadable, halways]) rfl
                          hgone
              | parsed parsed => exact valid_retireAndReplace hactive howner

/-- The end of a deletion. -/
theorem valid_removeDeleted {owner : UUID} {resume : Resume} {cleanup : ResumeStorageCleanup}
    (hr : r.owner = some owner) :
    ValidCall env i r (removeDeleted resume cleanup)
      (fun w => ∃ es,
        Holds i .settled owner resume.storageObjectKey cleanup.id es (fun _ => True) w ∧
        Retired w owner resume.storageObjectKey) fun _ _ => True :=
  Valid.exists_pre fun _ => (valid_removeRetired _ hr).post fun _ _ _ _ => trivial

/-- A flush that inserts the cleanup row of a retired resume. -/
theorem valid_flushRetired {u : UnitOfWork} {d : CleanupDraft} {P : World → Prop}
    (hd : u.insertCleanup = some d) (hP : (resumeContract env).Stable i P)
    (hissues : ∀ w, P w → Commits env i w r u)
    (hretired : ∀ w w' (f : Flushed), Coherent w → Frame i w w' → P w →
      w.db.flush u f.now f.rowId = .ok w'.db → Retired w' d.ownerProfileId d.storageObjectKey) :
    ValidCall env i r (perform (.flushCommit u)) P fun b w => ∀ f, b = .ok f → ∃ es,
      Holds i .settled d.ownerProfileId d.storageObjectKey f.rowId es (fun _ => True) w ∧
        Retired w d.ownerProfileId d.storageObjectKey := by
  refine Valid.cmd hP (fun w _ h => hissues w h) ?_
  rintro b w w' ch hw hw' hf h _ he f rfl
  rcases exec_flushCommit he with ⟨e, heq, _⟩ | ⟨f', heq, _, hfresh, _, hflush, _, hissued, _⟩
  · contradiction
  · cases heq
    have hret := hretired w w' f hw hf h hflush
    exact ⟨_, ⟨hret.settled hw', Or.inr (Or.inr rfl),
      (names_of_insert hd hw hfresh hflush hissued).2, by simp, rfl, trivial⟩, hret⟩

/-- Looking up the cleanup row of a retired resume, which the owner of the resume owns. -/
theorem valid_getByObjectKey {owner : UUID} {key : ObjectKey} (hr : r.owner = some owner) :
    ValidCall env i r (perform (.getByObjectKey key))
      (fun w => Reading i w ∧ Retired w owner key) fun row w =>
        (Reading i w ∧ Retired w owner key) ∧ ∀ c, row = some c → ∃ es,
          Holds i .settled owner key c.id es (fun _ => True) w ∧ Retired w owner key := by
  refine Valid.cmd (Reading.stable.and retired_persistent.stable)
    (fun w _ h => ⟨owner, hr, h.2⟩) ?_
  rintro row w w' ch hw hw' (hf : Frame i w w') ⟨⟨hevents, hsession⟩, hretired⟩ _ he
  obtain ⟨rfl, hdb⟩ := exec_getByObjectKey he
  have hev : w'.events i = [] := by
    rw [exec_events he, hevents]
    rfl
  have hret := hretired.frame hf
  refine ⟨⟨⟨hev, ?_⟩, hret⟩, fun c hrow => ?_⟩
  · rw [exec_session he]
    simp [Cmd.session, Session.select, hsession]
  · obtain ⟨hc, hkey⟩ := getByObjectKey_eq_some hrow
    have hc' : c ∈ w'.db.cleanups := hdb ▸ hc
    obtain ⟨x, hx, howner, hxkey, _⟩ := id hret
    -- both keys have their owner's form, so the owners agree
    obtain ⟨id, hid⟩ := hw'.cleanup_key c hc'
    have howner' : c.ownerProfileId = owner := by
      rw [← howner]
      have hkeys : buildResumeObjectKey c.ownerProfileId id =
          buildResumeObjectKey x.ownerProfileId x.id := by
        rw [← hid, ← hw'.resume_key x hx, hkey, hxkey]
      exact (buildResumeObjectKey_injective hkeys).1
    refine ⟨_, ⟨hret.settled hw', Or.inr (Or.inr rfl), ⟨hw'.cleanup_issued c hc', ?_⟩, by simp,
      rfl, trivial⟩, hret⟩
    intro c'' hc'' hcid
    rw [hw'.constraints.cleanup_eq hc'' hc' hcid]
    exact ⟨hkey, howner'⟩

/-- `ResumeService.delete`. -/
theorem valid_delete {resumeId owner : UUID} :
    ValidCall env i (.delete resumeId owner) (delete env resumeId owner) (Unstarted i)
      fun _ _ => True := by
  refine Valid.bind (valid_getOwned rfl) fun row => ?_
  cases row with
  | none => exact Valid.ret fun _ _ _ => trivial
  | some resume =>
      refine (Valid.assume (φ := resume.id = resumeId ∧ resume.ownerProfileId = owner)
        (P := fun w => (Reading i w ∧ Loaded w resume) ∧
          (resume.status = .deleted → Retired w owner resume.storageObjectKey)) ?_).pre ?_
      swap
      · rintro w _ ⟨hreading, hrow⟩
        obtain ⟨hid, howner, _, hmem⟩ := hrow resume rfl
        exact ⟨⟨hid, howner⟩, ⟨hreading, resume, hmem, .refl _⟩,
          fun hstatus => ⟨resume, hmem, howner, rfl, hstatus⟩⟩
      rintro ⟨rfl, rfl⟩
      show ValidCall env i _ (if resume.status ≠ .deleted then _ else _) _ _
      split
      · rename_i hactive
        refine Valid.bind ((valid_reading_now.frame
          loaded_persistent).pre fun w _ h => h.1) fun deletedAt => ?_
        refine Valid.bind (valid_reading_now.frame
          loaded_persistent) fun availableAt => ?_
        refine Valid.bind (valid_flushRetired rfl (Reading.stable.and loaded_persistent.stable)
          (fun w h => .delete h.2 hactive rfl) ?_) fun b => ?_
        · intro w w' f hw _ h hflush
          exact retired_of_flush rfl hw h.2 hflush
        have hrollback : ValidCall env i (.delete resume.id resume.ownerProfileId)
            (perform .rollback) (fun _ => True) fun _ _ => True :=
          Valid.cmd (Contract.stable_const _) (fun _ _ _ => trivial) fun _ _ _ _ _ _ _ _ _ _ =>
            trivial
        rcases b with e | f
        · cases e with
          | staleData =>
              exact Valid.bind (hrollback.pre fun _ _ _ => trivial) fun _ =>
                Valid.ret fun _ _ _ => trivial
          | integrity =>
              exact Valid.bind (hrollback.pre fun _ _ _ => trivial) fun _ =>
                Valid.ret fun _ _ _ => trivial
          | operational =>
              exact Valid.bind (hrollback.pre fun _ _ _ => trivial) fun _ =>
                Valid.ret fun _ _ _ => trivial
        · refine (valid_removeDeleted rfl).pre fun w _ h => ?_
          rw [retireRow_storageObjectKey]
          exact h f rfl
      · rename_i hdeleted
        rw [ne_eq, not_not] at hdeleted
        refine Valid.bind ((valid_getByObjectKey rfl).pre fun w _ h => ⟨h.1.1, h.2 hdeleted⟩)
          fun row => ?_
        cases row with
        | some existing => exact (valid_removeDeleted rfl).pre fun w _ h => h.2 existing rfl
        | none =>
            refine Valid.bind ((valid_reading_now.frame
              retired_persistent).pre fun w _ h => h.1) fun availableAt => ?_
            refine Valid.bind (valid_flushRetired rfl
              (Reading.stable.and retired_persistent.stable)
              (fun w h => .deleteAgain h.2) ?_) fun b => ?_
            · intro w w' f _ hf h _
              exact h.2.frame hf
            · rcases b with e | f
              · exact Valid.ret fun _ _ _ => trivial
              · exact (valid_removeDeleted rfl).pre fun w _ h => h f rfl

/-- The rows that a reconciliation run has listed, and the rows whose objects it has
removed so far. -/
def Sweeping (i : CallId) (held removed : List ResumeStorageCleanup) (w : World) : Prop :=
  (∀ c ∈ held, Listed i w c) ∧ ∀ c ∈ removed, .removed c.storageObjectKey true ∈ w.events i

theorem Sweeping.stable {held removed : List ResumeStorageCleanup} :
    (resumeContract env).Stable i (Sweeping i held removed) := by
  rintro j _ hj w w' _ _ (hf : Frame j w w') ⟨hheld, hremoved⟩
  refine ⟨fun c hc => ?_, fun c hc => ?_⟩
  · obtain ⟨hmem, hlock⟩ := hheld c hc
    exact ⟨hf.locked c hmem i hj.symm hlock, hf.locks c.id i hj.symm hlock⟩
  · rw [hf.events hj.symm]
    exact hremoved c hc

/-- The loop of a reconciliation run. -/
theorem valid_sweep {limit : Nat} {held : List ResumeStorageCleanup}
    (cleanups : List ResumeStorageCleanup) (hsub : ∀ c ∈ cleanups, c ∈ held)
    (done : List ResumeStorageCleanup) :
    ValidCall env i (.reconcile limit) (sweep cleanups) (Sweeping i held done) fun p w =>
      Sweeping i held (p.1 ++ done) w ∧ (∀ c ∈ p.1, c ∈ held) ∧ ∀ c ∈ p.2, c ∈ held := by
  induction cleanups generalizing done with
  | nil => exact Valid.ret fun w _ h => ⟨h, by simp, by simp⟩
  | cons cleanup rest ih =>
      refine Valid.bind (Q := fun success => Sweeping i held (if success then cleanup :: done
        else done)) ?_ fun success => ?_
      · refine Valid.cmd Sweeping.stable
          (fun w _ h => .listed (h.1 cleanup (hsub cleanup (by simp)))) ?_
        rintro success w w' ch _ _ _ ⟨hheld, hremoved⟩ _ he
        obtain ⟨_, _, hdb, _⟩ := exec_storageDelete he
        have hev : w'.events i = w.events i ++ [.removed cleanup.storageObjectKey success] :=
          exec_events he
        refine ⟨fun c hc => ?_, fun c hc => ?_⟩
        · rw [Listed, hdb, exec_storageDelete_locks he]
          exact hheld c hc
        · rw [hev, List.mem_append]
          cases success with
          | false => exact Or.inl (hremoved c hc)
          | true =>
              rcases List.mem_cons.mp hc with rfl | hc
              · exact Or.inr (by simp)
              · exact Or.inl (hremoved c hc)
      · refine Valid.bind (ih (fun c hc => hsub c (by simp [hc])) _) fun p => ?_
        have hhead : cleanup ∈ held := hsub cleanup (by simp)
        cases success with
        | false =>
            refine Valid.ret ?_
            rintro w _ ⟨h, h₁, h₂⟩
            exact ⟨h, h₁, by simpa using ⟨hhead, h₂⟩⟩
        | true =>
            refine Valid.ret ?_
            rintro w _ ⟨⟨hheld, hremoved⟩, h₁, h₂⟩
            refine ⟨⟨hheld, fun c hc => hremoved c ?_⟩, by simpa using ⟨hhead, h₁⟩, h₂⟩
            simp only [List.cons_append, List.mem_cons, List.mem_append, ite_true] at hc ⊢
            tauto

/-- `ResumeService.reconcile_storage_cleanups`. -/
theorem valid_reconcile {limit : Nat} :
    ValidCall env i (.reconcile limit) (reconcileStorageCleanups limit) (Unstarted i)
      fun _ _ => True := by
  refine Valid.bind (valid_reading_now.pre
    fun w _ h => ⟨h.1, by rw [h.2]⟩) fun now => ?_
  refine Valid.bind (Q := fun cleanups => Sweeping i cleanups []) ?_ fun cleanups => ?_
  · refine Valid.cmd Reading.stable (fun _ _ _ => rfl) ?_
    intro b w w' ch _ _ _ _ _ he
    refine ⟨fun c hc => ?_, by simp⟩
    obtain ⟨hmem, hlock⟩ := exec_listDueForUpdate he c hc
    exact ⟨(exec_quiet rfl he).1 ▸ hmem, hlock⟩
  · refine Valid.bind (valid_sweep cleanups (fun _ hc => hc) []) fun p => ?_
    refine Valid.bind (Q := fun _ _ => True) ?_ fun b => by
      cases b <;> exact Valid.ret fun _ _ _ => trivial
    refine (Valid.assume (φ := (∀ c ∈ p.1, c ∈ cleanups) ∧ ∀ c ∈ p.2, c ∈ cleanups)
      (P := Sweeping i cleanups p.1) ?_).pre fun w _ h => ⟨h.2, by simpa using h.1⟩
    rintro ⟨h₁, h₂⟩
    refine Valid.cmd Sweeping.stable ?_ fun _ _ _ _ _ _ _ _ _ _ => trivial
    rintro w _ ⟨hheld, hremoved⟩
    exact .reconcile (fun c hc => ⟨hheld c (h₁ c hc), hremoved c hc⟩)
      fun c hc => hheld c (h₂ c hc)

/-- A program that only reads. -/
theorem valid_read {β : Type} {c : Cmd β} (hissues : ∀ w, Issues env i r w c) :
    ValidCall env i r (perform c) (fun _ => True) fun _ _ => True :=
  Valid.cmd (Contract.stable_const _) (fun w _ _ => hissues w) fun _ _ _ _ _ _ _ _ _ _ => trivial

/-- `ResumeService.list_owned`. -/
theorem valid_listOwned {owner : UUID} {offset limit : Nat} (hr : r.owner = some owner) :
    ValidCall env i r (listOwned owner offset limit) (fun _ => True) fun _ _ => True :=
  Valid.bind (valid_read fun _ => hr) fun _ =>
    Valid.bind (valid_read fun _ => hr) fun _ => Valid.ret fun _ _ _ => trivial

/-- `ResumeService.get_candidate_profile`. -/
theorem valid_getCandidateProfile {resumeId owner : UUID} (hr : r.owner = some owner) :
    ValidCall env i r (getCandidateProfile resumeId owner) (fun _ => True) fun _ _ => True := by
  refine Valid.bind (valid_read fun _ => hr) fun row => ?_
  cases row with
  | none => exact Valid.ret fun _ _ _ => trivial
  | some _ =>
      refine Valid.bind (valid_read fun _ => hr) fun profile => ?_
      cases profile <;> exact Valid.ret fun _ _ _ => trivial

/-! ## Soundness -/

theorem valid_replyWith {α : Type} {f : α → Reply} {p : Prog Cmd (Raises α)} {P : World → Prop}
    {Q : Raises α → World → Prop} (h : ValidCall env i r p P Q) :
    ValidCall env i r (replyWith f p) P fun res w => ∃ a, res = a.map f ∧ Q a w :=
  Valid.bind h fun a => Valid.ret fun _ _ hQ => ⟨a, rfl, hQ⟩

theorem Stores.map {α : Type} {f : α → Reply} {res : Raises α} {w : World}
    (h : Stores env i r res w) : Stores env i r (res.map f) w := by
  intro key cause rest hfail
  obtain ⟨hphase, hend⟩ := h key cause rest hfail
  refine ⟨hphase, ?_⟩
  unfold EndsFailed at hend ⊢
  split
  · rw [if_pos ‹_›] at hend
    obtain ⟨rfl, hrest⟩ := hend
    exact ⟨rfl, hrest⟩
  · rw [if_neg ‹_›] at hend
    obtain ⟨hrest, rfl⟩ := hend
    exact ⟨hrest, rfl⟩

/-- The program of every request is valid. -/
theorem valid_program (env : Env) (i : CallId) (r : Request) :
    ValidCall env i r (program env r) (Unstarted i) (Post env i r) := by
  cases r with
  | upload owner file =>
      refine (valid_replyWith valid_upload).post ?_
      rintro _ w _ ⟨res, rfl, h⟩
      exact h.map
  | replace resumeId owner file =>
      refine (valid_replyWith valid_replace).post ?_
      rintro _ w _ ⟨res, rfl, h⟩
      exact h.map
  | delete resumeId owner =>
      exact (valid_replyWith valid_delete).post fun _ _ _ _ => trivial
  | reconcile limit =>
      exact (valid_replyWith valid_reconcile).post fun _ _ _ _ => trivial
  | listOwned owner offset limit =>
      exact ((valid_replyWith (valid_listOwned rfl)).pre fun _ _ _ => trivial).post
        fun _ _ _ _ => trivial
  | getCandidateProfile resumeId owner =>
      exact ((valid_replyWith (valid_getCandidateProfile rfl)).pre fun _ _ _ => trivial).post
        fun _ _ _ _ => trivial

theorem Post.stable {res : Raises Reply} : (resumeContract env).Stable i (Post env i r res) := by
  rintro j _ hj w w' _ _ (hf : Frame j w w') h
  have hstores : Stores env i r res w → Stores env i r res w' := by
    intro h key cause rest hfail
    rw [hf.events hj.symm] at hfail
    obtain ⟨hphase, hend⟩ := h key cause rest hfail
    have hadv := hf.phases key
    rw [hphase] at hadv
    refine ⟨hadv.attempted hj.symm, ?_⟩
    unfold EndsFailed at hend ⊢
    split
    · rw [if_pos ‹_›] at hend
      obtain ⟨hres, success, rest', hrest, hgone⟩ := hend
      refine ⟨hres, success, rest', hrest, fun hs u rest'' hu c' hc' hkey => ?_⟩
      obtain ⟨c, hc, _, hkey'⟩ :=
        hf.cleanup_old (by simp [hphase]) (by simp [hphase]) hc' hkey
      exact hgone hs u rest'' hu c hc hkey'
    · rw [if_neg ‹_›] at hend
      exact hend
  cases r with
  | upload _ _ => exact hstores h
  | replace _ _ _ => exact hstores h
  | _ => trivial

/-- A world in which no call of the run has begun. -/
structure Initial (w : World) : Prop where
  coherent : Coherent w
  log : w.log = []
  sessions : ∀ i, w.sessions i = {}

/-- The world before anything has been uploaded. -/
def World.empty : World where
  now := 0
  db := ⟨[], [], []⟩
  objects := []
  sessions := fun _ => {}
  locks := fun _ => none
  issued := []
  phases := fun _ => .unused
  log := []

theorem initial_empty : Initial World.empty where
  coherent := by
    constructor <;> simp [World.empty]
    · exact ⟨by simp, by simp, by simp, by simp, by simp, by simp⟩
    · exact ⟨by simp, by simp⟩
  log := rfl
  sessions _ := rfl

/-- The resume contract is sound for all runs. -/
theorem resumeSound (env : Env) {w₀ : World} (h : Initial w₀) :
    Sound (resumeMachine env) .any (resumeContract env) w₀ Unstarted (Post env) where
  init := h.coherent
  pre_init i := ⟨by simp [World.events, h.log], h.sessions i⟩
  pre_stable _ := Unstarted.stable
  post_stable _ _ _ := Post.stable
  exec _ _ _ _ _ _ _ _ _ hw hissues _ he := exec_coherent hw hissues he
  close _ _ _ _ hw := close_coherent hw
  refl i _ w _ _ := Frame.refl i w
  valid i r _ := valid_program env i r

end

/-! ## A concrete service -/

/-- The default settings. -/
def defaultEnv : Env where
  resumeStorageBucket := "resumes"
  resumeParserVersion := "deterministic-v1"
  rollbackAlwaysExpires := false

/-- A small validated upload. -/
def sampleFile : ValidatedResumeUpload where
  originalFilename := "cv.pdf"
  contentType := "application/pdf"
  sizeBytes := 4
  sha256 := "0f0f0f0f0f0f0f0f0f0f0f0f0f0f0f0f0f0f0f0f0f0f0f0f0f0f0f0f0f0f0f0f"
  content := [37, 80, 68, 70]

/-- What the parser finds in it. -/
def sampleParsed : ParsedResume where
  fullName := none
  email := none
  phone := none
  location := none
  currentTitle := some "Engineer"
  professionalSummary := none
  yearsOfExperience := none
  extractedText := "Engineer"
  skills := []
  employmentHistory := []
  education := []
  certifications := []
  languages := []
  rawParserOutput := "\x7b\x7d"

/-- A service with one parsed resume. -/
def oneResume : World where
  now := 100
  db :=
    { resumes := [newResume defaultEnv 1 7 (buildResumeObjectKey 7 1) sampleFile .parsed none]
      profiles := [newProfile 1 7 sampleParsed]
      cleanups := [] }
  objects := [buildResumeObjectKey 7 1]
  sessions := fun _ => {}
  locks := fun _ => none
  issued := [1]
  phases := fun key => if key = buildResumeObjectKey 7 1 then .settled else .unused
  log := []

theorem initial_oneResume : Initial oneResume where
  coherent := by
    constructor <;> simp [oneResume, newResume, KeyPhase.isMade]
    · exact ⟨by simp, by simp, by simp, by simp [newProfile], by simp, by simp⟩
    · refine ⟨fun owner id h => ?_, fun owner owner' id h h' => ?_⟩
      · simp only [ite_eq_right_iff, reduceCtorEq, imp_false, not_not, ne_eq] at h
        simpa using (buildResumeObjectKey_injective h).2
      · simp only [ite_eq_right_iff, reduceCtorEq, imp_false, not_not, ne_eq] at h h'
        rw [(buildResumeObjectKey_injective h).1, (buildResumeObjectKey_injective h').1]
  log := rfl
  sessions _ := rfl

end Resumes
end HireAndTech
