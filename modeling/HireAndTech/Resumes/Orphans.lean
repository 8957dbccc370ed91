import HireAndTech.Resumes.Commits

/-!
# No orphaned resume objects

An object in the bucket is accounted for when an active resume or a cleanup row
names its key.  A call reserves its key before it stores the object, and it drops
the reservation only when it knows the object to be gone or has persisted the
resume.  Two things break this: a storage upload that fails after it took effect,
and a reconciliation run that processes a due reservation before the upload it
was made for.

Main results:

- Theorem {lit}`no_orphans`: without these two, every object of every reachable
  world is accounted for.
- Theorem {lit}`orphan_after_ambiguous_upload`: one ambiguous upload suffices for an
  orphan.
-/

namespace HireAndTech
namespace Resumes

open Interleaving

/-! ## The property and its condition -/

/-- An active resume or a cleanup row names the key. -/
def Accounted (w : World) (key : ObjectKey) : Prop :=
  (∃ r ∈ w.db.resumes, r.storageObjectKey = key ∧ r.status ≠ .deleted) ∨
    ∃ c ∈ w.db.cleanups, c.storageObjectKey = key

/-- Every object in the bucket is accounted for. -/
def NoOrphans (w : World) : Prop :=
  ∀ key ∈ w.objects, Accounted w key

/-- The runs in which an upload that fails has not taken effect, and in which no
reconciliation run removes the object of a reservation whose call still has its
storage request ahead of it. -/
def definiteUploads : Regime World Cmd Choice Request where
  starts _ _ := true
  allows w r cmd ch :=
    match cmd, ch.outcome with
    | .storageUpload _, .storage .failedAfter => false
    | .storageDelete key, .storage .done =>
        match r with
        | .reconcile _ => !(w.phases key).isReserved
        | _ => true
    | _, _ => true

/-! ## The invariant -/

/-- The invariant behind {lit}`no_orphans`.  Objects in {lit}`exempt` need not be
accounted for. -/
structure Journaled (exempt : List ObjectKey) (w : World) : Prop where
  accounted : ∀ key ∈ w.objects, key ∈ exempt ∨ Accounted w key
  drawn : ∀ j u d, (j, Event.committed u) ∈ w.log → u.insertCleanup = some d →
    w.phases d.storageObjectKey ≠ .unused
  reserved : ∀ j d, (j, Event.committed { insertCleanup := some d }) ∈ w.log →
    w.phases d.storageObjectKey = .reserved j →
    ∃ c ∈ w.db.cleanups, c.storageObjectKey = d.storageObjectKey
  failed : ∀ j key, (j, Event.uploaded key false) ∈ w.log → key ∉ w.objects
  removed : ∀ j key, (j, Event.removed key true) ∈ w.log →
    key ∉ w.objects ∧ (w.phases key).isMade = true

section

variable {env : Env} {exempt : List ObjectKey} {i : CallId} {r : Request} {w w' : World}
variable {β : Type} {cmd : Cmd β} {b : β} {ch : Choice}

/-- A step that adds no entry on commits or storage, and no object. -/
theorem Journaled.quiet (h : Journaled exempt w) (hf : Frame i w w') (hdb : w'.db = w.db)
    (hobjects : w'.objects = w.objects)
    (hlog : ∀ j e, (j, e) ∈ w'.log → (j, e) ∈ w.log ∨ (∃ o, e = .parsed o) ∨
      ∃ err, e = .commitFailed err) : Journaled exempt w' := by
  have hold : ∀ {j e}, (j, e) ∈ w'.log → (∀ o, e ≠ .parsed o) → (∀ err, e ≠ .commitFailed err) →
      (j, e) ∈ w.log := by
    intro j e hmem hparsed hfailed
    rcases hlog j e hmem with hmem | ⟨o, rfl⟩ | ⟨err, rfl⟩
    · exact hmem
    · exact absurd rfl (hparsed o)
    · exact absurd rfl (hfailed err)
  refine ⟨?_, ?_, ?_, ?_, ?_⟩
  · rw [hobjects]
    unfold Accounted
    rw [hdb]
    exact h.accounted
  · intro j u d hmem hd
    exact (hf.phases _).drawn (h.drawn j u d (hold hmem (by simp) (by simp)) hd)
  · intro j d hmem hphase
    have hmem := hold hmem (by simp) (by simp)
    rw [hdb]
    have hadv := hf.phases d.storageObjectKey
    rw [hphase] at hadv
    exact h.reserved j d hmem (hadv.of_reserved (h.drawn j _ d hmem rfl))
  · intro j key hmem
    rw [hobjects]
    exact h.failed j key (hold hmem (by simp) (by simp))
  · intro j key hmem
    rw [hobjects]
    obtain ⟨hgone, hmade⟩ := h.removed j key (hold hmem (by simp) (by simp))
    exact ⟨hgone, (hf.phases key).isMade hmade⟩

/-- A storage upload: the reservation accounts for the object. -/
theorem Journaled.storageUpload {key : ObjectKey} {b : Bool} (hw : Coherent w)
    (hf : Frame i w w') (hissues : Issues env i r w (.storageUpload key))
    (hallow : definiteUploads.allows w r (.storageUpload key) ch = true)
    (he : exec env i (.storageUpload key) ch w = some (b, w')) (h : Journaled exempt w) :
    Journaled exempt w' := by
  obtain ⟨hreserved, u, hu, d, rfl, hdkey⟩ := hissues
  obtain ⟨o, ho, hdb, _, hphases, hobjects, hb⟩ := exec_storageUpload he
  have habsent : key ∉ w.objects := by
    intro hmem
    have hmade := hw.object_made key hmem
    simp [hreserved, KeyPhase.isMade] at hmade
  have hne : ∀ {k}, (w.phases k).isMade = true → k ≠ key := by
    rintro k hmade rfl
    simp [hreserved, KeyPhase.isMade] at hmade
  refine ⟨?_, ?_, ?_, ?_, ?_⟩
  · intro k hk
    unfold Accounted
    rw [hdb]
    rcases (hobjects k).mp hk with hk | ⟨rfl, _⟩
    · exact h.accounted k hk
    · obtain ⟨c, hc, hkey⟩ := h.reserved i d (mem_events.mp hu) (hdkey ▸ hreserved)
      exact Or.inr (Or.inr ⟨c, hc, hkey.trans hdkey⟩)
  · intro j u d' hmem hd'
    rcases mem_log_cases he hmem with hmem | ⟨_, hmem⟩
    · exact (hf.phases _).drawn (h.drawn j u d' hmem hd')
    · simp [Cmd.events] at hmem
  · intro j d' hmem hphase
    rw [hdb]
    rcases mem_log_cases he hmem with hmem | ⟨_, hmem⟩
    · refine h.reserved j d' hmem ?_
      by_cases hk : d'.storageObjectKey = key
      · rw [hphases, hk, Function.update_self] at hphase
        contradiction
      · rwa [hphases, Function.update_of_ne hk] at hphase
    · simp [Cmd.events] at hmem
  · intro j k hmem hk
    rcases mem_log_cases he hmem with hmem | ⟨_, hmem⟩
    · rcases (hobjects k).mp hk with hk | ⟨rfl, _⟩
      · exact h.failed j k hmem hk
      · exact hne (hw.uploaded_made j k false hmem) rfl
    · -- the request has just failed, and a failed request has no effect
      simp only [Cmd.events, List.mem_singleton, Event.uploaded.injEq] at hmem
      obtain ⟨rfl, rfl⟩ := hmem
      rcases (hobjects k).mp hk with hk | ⟨_, hstored⟩
      · exact habsent hk
      · cases o with
        | done => simp [habsent] at hb
        | failedBefore => exact hstored rfl
        | failedAfter => simp [definiteUploads, ho] at hallow
  · intro j k hmem
    rcases mem_log_cases he hmem with hmem | ⟨_, hmem⟩
    · obtain ⟨hgone, hmade⟩ := h.removed j k hmem
      refine ⟨fun hk => ?_, (hf.phases k).isMade hmade⟩
      rcases (hobjects k).mp hk with hk | ⟨rfl, _⟩
      · exact hgone hk
      · exact hne hmade rfl
    · simp [Cmd.events] at hmem

/-- A storage deletion removes the object of a key whose storage request has been
made. -/
theorem Journaled.storageDelete {key : ObjectKey} {b : Bool} (hw : Coherent w)
    (hf : Frame i w w') (hremoves : Removes i w r key)
    (hallow : definiteUploads.allows w r (.storageDelete key) ch = true)
    (he : exec env i (.storageDelete key) ch w = some (b, w')) (h : Journaled exempt w) :
    Journaled exempt w' := by
  obtain ⟨o, ho, hdb, _, hphases, hobjects, hb⟩ := exec_storageDelete he
  refine ⟨?_, ?_, ?_, ?_, ?_⟩
  · intro k hk
    unfold Accounted
    rw [hdb]
    exact h.accounted k ((hobjects k).mp hk).1
  · intro j u d hmem hd
    rcases mem_log_cases he hmem with hmem | ⟨_, hmem⟩
    · exact (hf.phases _).drawn (h.drawn j u d hmem hd)
    · simp [Cmd.events] at hmem
  · intro j d hmem hphase
    rw [hdb]
    rcases mem_log_cases he hmem with hmem | ⟨_, hmem⟩
    · exact h.reserved j d hmem (hphases ▸ hphase)
    · simp [Cmd.events] at hmem
  · intro j k hmem hk
    rcases mem_log_cases he hmem with hmem | ⟨_, hmem⟩
    · exact h.failed j k hmem ((hobjects k).mp hk).1
    · simp [Cmd.events] at hmem
  · intro j k hmem
    rw [hphases]
    rcases mem_log_cases he hmem with hmem | ⟨_, hmem⟩
    · obtain ⟨hgone, hmade⟩ := h.removed j k hmem
      exact ⟨fun hk => hgone ((hobjects k).mp hk).1, hmade⟩
    · simp only [Cmd.events, List.mem_singleton, Event.removed.injEq] at hmem
      obtain ⟨rfl, hb'⟩ := hmem
      obtain rfl : o = .done := hb.mp hb'.symm
      refine ⟨fun hk => by simpa using ((hobjects k).mp hk).2 rfl, ?_⟩
      cases hremoves with
      | compensation hphase => simp [hphase, KeyPhase.isMade]
      | retired hr hretired =>
          obtain ⟨x, hx, _, rfl, _⟩ := hretired
          simp [hw.resume_settled x hx, KeyPhase.isMade]
      | @listed _ c hlisted =>
          have hdrawn := hw.cleanup_drawn c hlisted.1
          simp only [definiteUploads, ho, Bool.not_eq_true'] at hallow
          cases hp : w.phases c.storageObjectKey <;>
            simp_all [KeyPhase.isReserved, KeyPhase.isMade]

/-- A committed unit of work keeps every object accounted for. -/
theorem Journaled.flushCommit {u : UnitOfWork} {b : Except DbError Flushed} (hw : Coherent w)
    (hw' : Coherent w') (hf : Frame i w w') (hu : Commits env i w r u)
    (he : exec env i (.flushCommit u) ch w = some (b, w')) (h : Journaled exempt w) :
    Journaled exempt w' := by
  rcases exec_flushCommit he with ⟨e, rfl, hdb, hobjects, _⟩ |
    ⟨f, rfl, _, _, _, hflush, hobjects, _⟩
  · refine h.quiet hf hdb hobjects fun j e' hmem => ?_
    rcases mem_log_cases he hmem with hmem | ⟨_, hmem⟩
    · exact Or.inl hmem
    · exact Or.inr (Or.inr ⟨e, by simpa [Cmd.events] using hmem⟩)
  obtain ⟨_, _, _, hdb⟩ := flush_eq_ok hflush
  -- a deleted cleanup row has no object any more, or leaves an active resume behind
  have hdeleted : ∀ c ∈ w.db.cleanups, c.id ∈ u.deleteCleanups →
      (c.storageObjectKey ∉ w.objects ∧ (w.phases c.storageObjectKey).isMade = true) ∨
      ∃ x ∈ w'.db.resumes, x.storageObjectKey = c.storageObjectKey ∧ x.status ≠ .deleted := by
    intro c hc hdel
    rcases hu.deletes hw hc hdel with (hmem | hmem) | ⟨x, hx, hkey, hstatus⟩
    · rw [mem_events] at hmem
      exact Or.inl ⟨h.failed i _ hmem, hw.uploaded_made i _ _ hmem⟩
    · exact Or.inl (h.removed i _ (mem_events.mp hmem))
    · refine Or.inr ⟨{ x with version := 1, createdAt := f.now }, ?_, hkey, hstatus⟩
      rw [hdb]
      exact mem_write_resumes.mpr (Or.inr ⟨x, hx, rfl⟩)
  have hkept : ∀ c ∈ w.db.cleanups, c.id ∉ u.deleteCleanups →
      ∃ c' ∈ w'.db.cleanups, c'.storageObjectKey = c.storageObjectKey := by
    intro c hc hdel
    refine ⟨failRow u.failCleanups c, ?_, by simp⟩
    rw [hdb]
    exact mem_write_cleanups.mpr (Or.inl ⟨c, hc, hdel, rfl⟩)
  have hinserted : ∀ d, u.insertCleanup = some d →
      ∃ c' ∈ w'.db.cleanups, c'.storageObjectKey = d.storageObjectKey := by
    intro d hd
    refine ⟨{ d with id := f.rowId }, ?_, rfl⟩
    rw [hdb]
    exact mem_write_cleanups.mpr (Or.inr ⟨d, hd, rfl⟩)
  refine ⟨?_, ?_, ?_, ?_, ?_⟩
  · intro key hkey
    rw [hobjects] at hkey
    rcases h.accounted key hkey with hexempt | ⟨x, hx, rfl, hstatus⟩ | ⟨c, hc, rfl⟩
    · exact Or.inl hexempt
    · rcases hu.keeps_resume hw f.now f.rowId hx with hx | ⟨d, hd, hdkey⟩
      · exact Or.inr (Or.inl ⟨x, hdb ▸ hx, rfl, hstatus⟩)
      · obtain ⟨c, hc, hckey⟩ := hinserted d hd
        exact Or.inr (Or.inr ⟨c, hc, hckey.trans hdkey⟩)
    · by_cases hdel : c.id ∈ u.deleteCleanups
      · rcases hdeleted c hc hdel with ⟨hgone, _⟩ | hactive
        · exact absurd hkey hgone
        · exact Or.inr (Or.inl hactive)
      · exact Or.inr (Or.inr (hkept c hc hdel))
  · intro j u' d hmem hd
    rcases mem_log_cases he hmem with hmem | ⟨_, hmem⟩
    · exact (hf.phases _).drawn (h.drawn j u' d hmem hd)
    · simp only [Cmd.events, List.mem_singleton, Event.committed.injEq] at hmem
      subst hmem
      obtain ⟨c, hc, hckey⟩ := hinserted d hd
      exact hckey ▸ hw'.cleanup_drawn c hc
  · intro j d hmem hphase
    rcases mem_log_cases he hmem with hmem | ⟨_, hmem⟩
    · have hbefore : w.phases d.storageObjectKey = .reserved j := by
        have hadv := hf.phases d.storageObjectKey
        rw [hphase] at hadv
        exact hadv.of_reserved (h.drawn j _ d hmem rfl)
      obtain ⟨c, hc, hckey⟩ := h.reserved j d hmem hbefore
      by_cases hdel : c.id ∈ u.deleteCleanups
      · rcases hdeleted c hc hdel with ⟨_, hmade⟩ | ⟨x, hx, hkey, _⟩
        · rw [hckey, hbefore] at hmade
          contradiction
        · have hsettled := hw'.resume_settled x hx
          rw [hkey, hckey, hphase] at hsettled
          contradiction
      · obtain ⟨c', hc', hkey⟩ := hkept c hc hdel
        exact ⟨c', hc', hkey.trans hckey⟩
    · simp only [Cmd.events, List.mem_singleton, Event.committed.injEq] at hmem
      exact hinserted d (hmem ▸ rfl)
  · intro j key hmem
    rw [hobjects]
    rcases mem_log_cases he hmem with hmem | ⟨_, hmem⟩
    · exact h.failed j key hmem
    · simp [Cmd.events] at hmem
  · intro j key hmem
    rw [hobjects]
    rcases mem_log_cases he hmem with hmem | ⟨_, hmem⟩
    · obtain ⟨hgone, hmade⟩ := h.removed j key hmem
      exact ⟨hgone, (hf.phases key).isMade hmade⟩
    · simp [Cmd.events] at hmem

/-- One command keeps every object accounted for. -/
theorem Journaled.exec (hw : Coherent w) (hw' : Coherent w') (hf : Frame i w w')
    (hissues : Issues env i r w cmd) (hallow : definiteUploads.allows w r cmd ch = true)
    (he : exec env i cmd ch w = some (b, w')) (h : Journaled exempt w) :
    Journaled exempt w' := by
  cases cmd with
  | storageUpload key => exact h.storageUpload hw hf hissues hallow he
  | storageDelete key => exact h.storageDelete hw hf hissues hallow he
  | flushCommit u => exact h.flushCommit hw hw' hf hissues he
  | uuid4 owner =>
      obtain ⟨_, hdb, hobjects, _⟩ := exec_uuid4 he
      refine h.quiet hf hdb hobjects fun j e hmem => ?_
      rcases mem_log_cases he hmem with hmem | ⟨_, hmem⟩
      · exact Or.inl hmem
      · simp [Cmd.events] at hmem
  | parse content =>
      obtain ⟨hdb, hobjects, _⟩ := exec_quiet rfl he
      refine h.quiet hf hdb hobjects fun j e hmem => ?_
      rcases mem_log_cases he hmem with hmem | ⟨_, hmem⟩
      · exact Or.inl hmem
      · exact Or.inr (Or.inl ⟨b, by simpa [Cmd.events] using hmem⟩)
  | _ =>
      obtain ⟨hdb, hobjects, _⟩ := exec_quiet rfl he
      refine h.quiet hf hdb hobjects fun j e hmem => ?_
      rcases mem_log_cases he hmem with hmem | ⟨_, hmem⟩
      · exact Or.inl hmem
      · simp [Cmd.events] at hmem

/-- The end of a call keeps every object accounted for. -/
theorem Journaled.close (hw : Coherent w) (h : Journaled exempt w) :
    Journaled exempt (w.close i) := by
  obtain ⟨_, hf⟩ := close_coherent (i := i) hw
  exact h.quiet hf rfl rfl fun j e hmem => Or.inl hmem

end

theorem journaled_initial {exempt : List ObjectKey} {w₀ : World} (h : Initial w₀)
    (hw₀ : ∀ key ∈ w₀.objects, key ∈ exempt ∨ Accounted w₀ key) : Journaled exempt w₀ where
  accounted := hw₀
  drawn := by simp [h.log]
  reserved := by simp [h.log]
  failed := by simp [h.log]
  removed := by simp [h.log]

/-- A run with definite uploads keeps every object accounted for, but those exempt. -/
theorem journaled_reachable {env : Env} {exempt : List ObjectKey} {w₀ : World} (h : Initial w₀)
    (hw₀ : ∀ key ∈ w₀.objects, key ∈ exempt ∨ Accounted w₀ key)
    {c : Config World Cmd Request (Except ServiceError Reply)}
    (hc : (resumeMachine env).Reachable definiteUploads w₀ c) : Journaled exempt c.world :=
  (resumeSound env h).invariant (journaled_initial h hw₀)
    (fun _ _ _ _ _ _ _ _ _ hw hw' hf hissues hallow he hJ =>
      hJ.exec hw hw' hf hissues hallow he)
    (fun _ _ hw hJ => hJ.close hw) hc

/-! ## Main result -/

/-- In every run with definite uploads from a world without orphans, every object of
every reachable world is accounted for. -/
theorem no_orphans (env : Env) {w₀ : World} (h : Initial w₀) (hw₀ : NoOrphans w₀)
    {c : Config World Cmd Request (Except ServiceError Reply)}
    (hc : (resumeMachine env).Reachable definiteUploads w₀ c) : NoOrphans c.world := by
  have hJ : Journaled [] c.world := journaled_reachable h (fun key hkey => Or.inr (hw₀ key hkey)) hc
  intro key hkey
  exact (hJ.accounted key hkey).resolve_left (by simp)

/-- An upload that is cut off after its storage request. -/
def cutUpload : List (Label Choice Request) :=
  [.start 0 (.upload 7 sampleFile), .step 0 ⟨0, .fresh 1⟩, .step 0 ⟨0, .quiet⟩,
    .step 0 ⟨0, .fresh 2⟩, .step 0 ⟨0, .storage .done⟩, .cut 0]

theorem no_orphans_cutUpload : ∃ c,
    (resumeMachine defaultEnv).play definiteUploads cutUpload (.initial .empty) = some c ∧
      c.world.objects = [buildResumeObjectKey 7 1] ∧ NoOrphans c.world := by
  have hrun : ((resumeMachine defaultEnv).play definiteUploads cutUpload (.initial .empty)).map
      (·.world.objects) = some [buildResumeObjectKey 7 1] := by decide
  obtain ⟨c, hc, hobjects⟩ := Option.map_eq_some_iff.mp hrun
  exact ⟨c, hc, hobjects,
    no_orphans defaultEnv initial_empty (by simp [NoOrphans, World.empty])
      (Machine.reachable_of_play hc)⟩

/-- The storage request of an upload takes effect, but its answer is lost: the call
drops its reservation. -/
def ambiguousUpload : List (Label Choice Request) :=
  [.start 0 (.upload 7 sampleFile), .step 0 ⟨0, .fresh 1⟩, .step 0 ⟨0, .quiet⟩,
    .step 0 ⟨0, .fresh 2⟩, .step 0 ⟨0, .storage .failedAfter⟩, .step 0 ⟨0, .fresh 3⟩]

theorem orphan_after_ambiguous_upload : ∃ c,
    (resumeMachine defaultEnv).play .any ambiguousUpload (.initial .empty) = some c ∧
      ¬ NoOrphans c.world := by
  have hrun : ((resumeMachine defaultEnv).play .any ambiguousUpload (.initial .empty)).map
      (fun c => (c.world.objects, c.world.db)) =
        some ([buildResumeObjectKey 7 1], ⟨[], [], []⟩) := by decide
  obtain ⟨c, hc, hworld⟩ := Option.map_eq_some_iff.mp hrun
  obtain ⟨hobjects, hdb⟩ := Prod.mk.inj hworld
  refine ⟨c, hc, fun h => ?_⟩
  have := h (buildResumeObjectKey 7 1) (by simp [hobjects])
  simp [Accounted, hdb] at this

/-- A reconciliation run processes the reservation of an upload that has waited for a
quarter of an hour before its storage request. -/
def earlyReconciliation : List (Label Choice Request) :=
  [.start 0 (.upload 7 sampleFile), .step 0 ⟨0, .fresh 1⟩, .step 0 ⟨0, .quiet⟩,
    .step 0 ⟨0, .fresh 2⟩, .start 1 (.reconcile 100), .step 1 ⟨reservationPeriod, .quiet⟩,
    .step 1 ⟨0, .quiet⟩, .step 1 ⟨0, .storage .done⟩, .step 1 ⟨0, .fresh 3⟩,
    .step 0 ⟨0, .storage .done⟩, .cut 0]

example : ((resumeMachine defaultEnv).play .any earlyReconciliation (.initial .empty)).map
    (fun c => (c.world.objects, c.world.db)) =
      some ([buildResumeObjectKey 7 1], ⟨[], [], []⟩) := by decide

end Resumes
end HireAndTech
