import HireAndTech.Resumes.Commits

/-!
# No dangling resume rows

A committed resume that has been parsed, or whose parse was rejected, has its
object in the bucket.  Its call stores the object first, and the object is removed
only with the resume deleted, by the call's own compensation, or by a
reconciliation run that has found the reservation due.  The last may happen while
the call is still waiting for the parse executor.

Main results:

- Theorem {lit}`no_dangling_rows`: with definite storage outcomes, and as long as no
  reconciliation run removes an object of a call in progress, every such resume has
  its object.
- Theorem {lit}`dangling_after_slow_parse`: a parse that outlives the reservation can
  leave a resume without its object.
-/

namespace HireAndTech
namespace Resumes

open Interleaving

/-! ## The property and its condition -/

/-- A status with which a stored resume is committed. -/
def ResumeStatus.isStored : ResumeStatus → Bool
  | .parsed | .parseFailed => true
  | _ => false

/-- Every parsed or rejected resume has its object in the bucket. -/
def NoDanglingRows (w : World) : Prop :=
  ∀ r ∈ w.db.resumes, r.status.isStored = true → r.storageObjectKey ∈ w.objects

/-- The call that drew the key has made its storage request, and has neither
persisted the resume nor ended. -/
def KeyPhase.isAttempted : KeyPhase → Bool
  | .attempted _ => true
  | _ => false

/-- The runs with definite storage outcomes. -/
def definiteStorage : Regime World Cmd Choice Request where
  starts _ _ := true
  allows _ _ _ ch := ch.outcome ≠ .storage .failedAfter

/-- A reconciliation run removes the object of a call that is still in progress. -/
def removesInProgress (w : World) {β : Type} (r : Request) (cmd : Cmd β) (ch : Choice) : Bool :=
  match r, cmd with
  | .reconcile _, .storageDelete key =>
      (w.phases key).isAttempted && key ∈ w.objects && ch.outcome = .storage .done
  | _, _ => false

/-- The runs with definite storage outcomes in which no reconciliation run removes the
object of a call in progress. -/
def patientReconciliation : Regime World Cmd Choice Request where
  starts _ _ := true
  allows w r cmd ch := definiteStorage.allows w r cmd ch && !removesInProgress w r cmd ch

/-! ## The invariant -/

/-- No cleanup row names the object of an active resume. -/
def Unclaimed (w : World) : Prop :=
  ∀ c ∈ w.db.cleanups, ∀ r ∈ w.db.resumes, r.status ≠ .deleted →
    r.storageObjectKey ≠ c.storageObjectKey

/-- The invariant behind {lit}`no_dangling_rows`. -/
structure Backed (w : World) : Prop where
  present : NoDanglingRows w
  stored : ∀ j key, (j, Event.uploaded key true) ∈ w.log → w.phases key = .attempted j →
    (∀ b, (j, Event.removed key b) ∉ w.log) → key ∈ w.objects
  unclaimed : Unclaimed w

section

variable {env : Env} {i : CallId} {r : Request} {w w' : World}
variable {β : Type} {cmd : Cmd β} {b : β} {ch : Choice}

theorem definite_of_allows (h : patientReconciliation.allows w r cmd ch = true) :
    ch.outcome ≠ .storage .failedAfter ∧ removesInProgress w r cmd ch = false := by
  simpa [patientReconciliation, definiteStorage] using h

/-- A step that changes neither tables nor objects. -/
theorem Backed.quiet (hdb : w'.db = w.db) (hobjects : w'.objects = w.objects)
    (hphases : ∀ key j, w'.phases key = .attempted j → w.phases key = .attempted j)
    (hlog : ∀ e ∈ w.log, e ∈ w'.log)
    (huploaded : ∀ j key, (j, Event.uploaded key true) ∈ w'.log →
      (j, Event.uploaded key true) ∈ w.log) (h : Backed w) : Backed w' := by
  refine ⟨?_, ?_, ?_⟩
  · unfold NoDanglingRows
    rw [hdb, hobjects]
    exact h.present
  · intro j key hmem hphase hkept
    rw [hobjects]
    exact h.stored j key (huploaded j key hmem) (hphases key j hphase)
      fun b hb => hkept b (hlog _ hb)
  · unfold Unclaimed
    rw [hdb]
    exact h.unclaimed

theorem Frame.mem_log (hf : Frame i w w') {e : CallId × Event} (he : e ∈ w.log) : e ∈ w'.log := by
  obtain ⟨es, hlog⟩ := hf.log
  rw [hlog]
  exact List.mem_append_left _ he

/-- A storage upload stores the object before the call can persist its resume. -/
theorem Backed.storageUpload {key : ObjectKey} {b : Bool} (hw : Coherent w)
    (hf : Frame i w w') (hreserved : w.phases key = .reserved i)
    (he : exec env i (.storageUpload key) ch w = some (b, w')) (h : Backed w) : Backed w' := by
  obtain ⟨o, _, hdb, _, hphases, hobjects, hb⟩ := exec_storageUpload he
  refine ⟨?_, ?_, ?_⟩
  · intro x hx hstatus
    exact (hobjects _).mpr (Or.inl (h.present x (hdb ▸ hx) hstatus))
  · intro j k hmem hphase hkept
    rw [hobjects]
    rcases mem_log_cases he hmem with hmem | ⟨_, hmem⟩
    · have hne : k ≠ key := by
        rintro rfl
        have hmade := hw.uploaded_made j k true hmem
        simp [hreserved, KeyPhase.isMade] at hmade
      rw [hphases, Function.update_of_ne hne] at hphase
      exact Or.inl (h.stored j k hmem hphase fun b hb => hkept b (hf.mem_log hb))
    · simp only [Cmd.events, List.mem_singleton, Event.uploaded.injEq] at hmem
      obtain ⟨rfl, hsuccess⟩ := hmem
      obtain ⟨rfl, _⟩ := hb.mp hsuccess.symm
      exact Or.inr ⟨rfl, by simp⟩
  · unfold Unclaimed
    rw [hdb]
    exact h.unclaimed

/-- A storage deletion spares the objects of stored resumes and of calls in progress. -/
theorem Backed.storageDelete {key : ObjectKey} {b : Bool} (hw : Coherent w)
    (hf : Frame i w w') (hremoves : Removes i w r key)
    (hallow : patientReconciliation.allows w r (.storageDelete key) ch = true)
    (he : exec env i (.storageDelete key) ch w = some (b, w')) (h : Backed w) : Backed w' := by
  obtain ⟨o, ho, hdb, _, hphases, hobjects, _⟩ := exec_storageDelete he
  obtain ⟨hdefinite, hpatient⟩ := definite_of_allows hallow
  refine ⟨?_, ?_, ?_⟩
  · intro x hx hstatus
    rw [hdb] at hx
    refine (hobjects _).mpr ⟨h.present x hx hstatus, fun hkey => ?_⟩
    have hactive : x.status ≠ .deleted := by
      intro hdeleted
      simp [hdeleted, ResumeStatus.isStored] at hstatus
    cases hremoves with
    | compensation hphase =>
        have hsettled := hw.resume_settled x hx
        rw [hkey, hphase] at hsettled
        contradiction
    | retired hr hretired =>
        obtain ⟨y, hy, _, hykey, hdeleted⟩ := hretired
        rw [hw.constraints.resume_eq_of_key hx hy (hkey.trans hykey.symm)] at hactive
        exact absurd hdeleted hactive
    | listed hlisted => exact absurd hkey (h.unclaimed _ hlisted.1 x hx hactive)
  · intro j k hmem hphase hkept
    rw [hphases] at hphase
    rw [hobjects]
    have hold : (j, Event.uploaded k true) ∈ w.log := by
      rcases mem_log_cases he hmem with hmem | ⟨_, hmem⟩
      · exact hmem
      · simp [Cmd.events] at hmem
    have hin := h.stored j k hold hphase fun b hb => hkept b (hf.mem_log hb)
    refine ⟨hin, ?_⟩
    rintro rfl
    cases hremoves with
    | compensation hown =>
        -- the call has just asked for the removal itself
        obtain rfl : i = j := by simpa using hown.symm.trans hphase
        refine absurd ?_ (hkept b)
        rw [exec_log he]
        simp [Cmd.events]
    | retired hr hretired =>
        rw [hretired.settled hw] at hphase
        contradiction
    | listed hlisted =>
        cases o with
        | done => simp [removesInProgress, hphase, KeyPhase.isAttempted, hin, ho] at hpatient
        | failedBefore => rfl
        | failedAfter => exact absurd ho hdefinite
  · unfold Unclaimed
    rw [hdb]
    exact h.unclaimed

/-- A committed unit of work persists only resumes whose object is stored. -/
theorem Backed.flushCommit {u : UnitOfWork} {b : Except DbError Flushed} (hw : Coherent w)
    (hw' : Coherent w') (hf : Frame i w w') (hu : Commits env i w r u)
    (he : exec env i (.flushCommit u) ch w = some (b, w')) (h : Backed w) : Backed w' := by
  have huploaded : ∀ j key, (j, Event.uploaded key true) ∈ w'.log →
      (j, Event.uploaded key true) ∈ w.log :=
    fun j key hmem => uploaded_mem_log rfl he hmem
  rcases exec_flushCommit he with ⟨e, rfl, hdb, hobjects, _, hphases⟩ |
    ⟨f, rfl, _, _, _, hflush, hobjects, _, hphases⟩
  · exact h.quiet hdb hobjects (fun key j hp => hphases ▸ hp) (fun _ => hf.mem_log) huploaded
  obtain ⟨_, _, _, hdb⟩ := flush_eq_ok hflush
  -- an active resume after the commit was there before, or is the inserted one
  have hactive : ∀ x' ∈ w'.db.resumes, x'.status ≠ .deleted → x' ∈ w.db.resumes ∨
      ∃ x owner id cid, u.insertResume = some x ∧ Stored i w owner id cid ∧
        x'.storageObjectKey = buildResumeObjectKey owner id ∧ cid ∈ u.deleteCleanups := by
    intro x' hx' hstatus
    rw [hdb] at hx'
    rcases mem_write_resumes.mp hx' with ⟨x, hx, ⟨c, t, _, rfl⟩ | ⟨_, rfl⟩⟩ | ⟨x, hx, rfl⟩
    · cases hm : matchesVersion c x with
      | true => exact absurd (retireRow_of_matches hm).1 hstatus
      | false =>
          rw [retireRow_of_not_matches hm]
          exact Or.inl hx
    · exact Or.inl hx
    · obtain ⟨owner, id, cid, hstored, hkey, hdel⟩ := hu.inserts_resume hx
      exact Or.inr ⟨x, owner, id, cid, hx, hstored, hkey, hdel⟩
  refine ⟨?_, ?_, ?_⟩
  · intro x' hx' hstatus
    rw [hobjects]
    have hne : x'.status ≠ .deleted := by
      intro hdeleted
      simp [hdeleted, ResumeStatus.isStored] at hstatus
    rcases hactive x' hx' hne with hx | ⟨x, owner, id, cid, _, hstored, hkey, _⟩
    · exact h.present x' hx hstatus
    · rw [hkey]
      exact h.stored i _ (mem_events.mp hstored.uploaded) hstored.phase
        fun b hb => hstored.kept b (mem_events.mpr hb)
  · intro j key hmem hphase hkept
    rw [hobjects]
    refine h.stored j key (huploaded j key hmem) ?_ fun b hb => hkept b (hf.mem_log hb)
    exact attempted_of_settle (hphases ▸ hphase)
  · intro c' hc' x' hx' hstatus hkey
    have hcleanup := hc'
    rw [hdb] at hcleanup
    rcases mem_write_cleanups.mp hcleanup with ⟨c, hc, hdel, rfl⟩ | ⟨d, hd, rfl⟩
    · rw [failRow_storageObjectKey] at hkey
      rcases hactive x' hx' hstatus with hx | ⟨x, owner, id, cid, _, hstored, hxkey, hcid⟩
      · exact h.unclaimed c hc x' hx hstatus hkey
      · exact hdel (hstored.sole c hc (hkey.symm.trans hxkey) ▸ hcid)
    · rcases hu.inserts_cleanup hw hf hflush hd with hphase | ⟨owner, y, hy, _, hykey, hdeleted⟩
      · rcases hactive x' hx' hstatus with hx | ⟨x, owner, id, cid, _, hstored, hxkey, _⟩
        · have hold := hw.resume_settled x' hx
          rw [hkey, hphase] at hold
          contradiction
        · have hold := hstored.phase
          rw [← hxkey, hkey, hphase] at hold
          contradiction
      · rw [hw'.constraints.resume_eq_of_key hx' hy (hkey.trans hykey.symm)] at hstatus
        exact hstatus hdeleted

/-- One command keeps the stored resumes backed by their objects. -/
theorem Backed.exec (hw : Coherent w) (hw' : Coherent w') (hf : Frame i w w')
    (hissues : Issues env i r w cmd) (hallow : patientReconciliation.allows w r cmd ch = true)
    (he : exec env i cmd ch w = some (b, w')) (h : Backed w) : Backed w' := by
  cases cmd with
  | storageUpload key => exact h.storageUpload hw hf hissues.1 he
  | storageDelete key => exact h.storageDelete hw hf hissues hallow he
  | flushCommit u => exact h.flushCommit hw hw' hf hissues he
  | uuid4 owner =>
      obtain ⟨_, hdb, hobjects, _, hphases⟩ := exec_uuid4 he
      refine h.quiet hdb hobjects ?_ (fun _ => hf.mem_log) fun j key => uploaded_mem_log rfl he
      intro key j hp
      rw [hphases] at hp
      by_cases hk : key = buildResumeObjectKey owner b
      · simp [hk] at hp
      · rwa [Function.update_of_ne hk] at hp
  | _ =>
      obtain ⟨hdb, hobjects, hphases, _⟩ := exec_quiet rfl he
      exact h.quiet hdb hobjects (fun key j hp => hphases ▸ hp) (fun _ => hf.mem_log)
        fun j key => uploaded_mem_log rfl he

/-- The end of a call keeps the stored resumes backed by their objects. -/
theorem Backed.close (h : Backed w) : Backed (w.close i) := by
  have hdb : (w.close i).db = w.db := rfl
  have hobjects : (w.close i).objects = w.objects := rfl
  have hphases : ∀ key j, (w.close i).phases key = .attempted j →
      w.phases key = .attempted j := by
    intro key j hp
    have hp' : (if _ then KeyPhase.settled else w.phases key) = .attempted j := hp
    split at hp'
    · contradiction
    · exact hp'
  exact h.quiet hdb hobjects hphases (fun _ => id) fun _ _ => id

end

/-! ## Main result -/

/-- With definite storage outcomes and patient reconciliation, every parsed or rejected
resume of every reachable world has its object. -/
theorem no_dangling_rows (env : Env) {w₀ : World} (h : Initial w₀) (hrows : NoDanglingRows w₀)
    (hcleanups : Unclaimed w₀) {c : Config World Cmd Request (Except ServiceError Reply)}
    (hc : (resumeMachine env).Reachable patientReconciliation w₀ c) : NoDanglingRows c.world := by
  have hbacked : Backed c.world := (resumeSound env h).invariant
    ⟨hrows, by simp [h.log], hcleanups⟩
    (fun _ _ _ _ _ _ _ _ _ hw hw' hf hissues hallow he hJ =>
      hJ.exec hw hw' hf hissues hallow he)
    (fun _ _ _ hJ => hJ.close) hc
  exact hbacked.present

/-- An upload that runs to its end. -/
def plainUpload : List (Label Choice Request) :=
  [.start 0 (.upload 7 sampleFile), .step 0 ⟨0, .fresh 1⟩, .step 0 ⟨0, .quiet⟩,
    .step 0 ⟨0, .fresh 2⟩, .step 0 ⟨0, .storage .done⟩, .step 0 ⟨0, .quiet⟩,
    .step 0 ⟨0, .parse (.parsed sampleParsed)⟩, .step 0 ⟨0, .fresh 3⟩, .finish 0]

theorem no_dangling_rows_plainUpload : ∃ c,
    (resumeMachine defaultEnv).play patientReconciliation plainUpload (.initial .empty) = some c ∧
      c.world.db.resumes.map (·.status) = [.parsed] ∧ NoDanglingRows c.world := by
  have hrun : ((resumeMachine defaultEnv).play patientReconciliation plainUpload
      (.initial .empty)).map (·.world.db.resumes.map (·.status)) = some [.parsed] := by decide
  obtain ⟨c, hc, hstatus⟩ := Option.map_eq_some_iff.mp hrun
  exact ⟨c, hc, hstatus, no_dangling_rows defaultEnv initial_empty
    (by simp [NoDanglingRows, World.empty]) (by simp [Unclaimed, World.empty])
    (Machine.reachable_of_play hc)⟩

/-- The parse executor has no free slot for a quarter of an hour.  A reconciliation run
finds the reservation due and removes the object, and then the upload goes on. -/
def slowParse : List (Label Choice Request) :=
  [.start 0 (.upload 7 sampleFile), .step 0 ⟨0, .fresh 1⟩, .step 0 ⟨0, .quiet⟩,
    .step 0 ⟨0, .fresh 2⟩, .step 0 ⟨0, .storage .done⟩, .step 0 ⟨0, .quiet⟩,
    .start 1 (.reconcile 100), .step 1 ⟨reservationPeriod, .quiet⟩, .step 1 ⟨0, .quiet⟩,
    .step 1 ⟨0, .storage .done⟩, .step 1 ⟨0, .fresh 3⟩, .finish 1,
    .step 0 ⟨0, .parse (.parsed sampleParsed)⟩, .step 0 ⟨0, .fresh 4⟩, .finish 0]

theorem dangling_after_slow_parse : ∃ c,
    (resumeMachine defaultEnv).play definiteStorage slowParse (.initial .empty) = some c ∧
      ¬ NoDanglingRows c.world := by
  have hrun : ((resumeMachine defaultEnv).play definiteStorage slowParse (.initial .empty)).map
      (fun c => (c.world.objects, c.world.db.resumes.map fun r => (r.storageObjectKey, r.status))) =
        some ([], [(buildResumeObjectKey 7 1, .parsed)]) := by decide
  obtain ⟨c, hc, hworld⟩ := Option.map_eq_some_iff.mp hrun
  obtain ⟨hobjects, hrows⟩ := Prod.mk.inj hworld
  refine ⟨c, hc, fun h => ?_⟩
  have hmem : (buildResumeObjectKey 7 1, ResumeStatus.parsed) ∈
      c.world.db.resumes.map fun r => (r.storageObjectKey, r.status) := by simp [hrows]
  obtain ⟨x, hx, hkey⟩ := List.mem_map.mp hmem
  have := h x hx (by rw [(Prod.mk.inj hkey).2]; rfl)
  simp [hobjects] at this

end Resumes
end HireAndTech
