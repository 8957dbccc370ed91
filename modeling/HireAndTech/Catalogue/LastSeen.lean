import HireAndTech.Catalogue.Transactions
import HireAndTech.Relational.Stamps

/-!
# The time at which a row was last seen

Every call reads the clock when it starts and writes that reading when it gets the row
locks, which may be later.  The committed time of a row never goes backward as long as no
call writes a row that a call with a later clock reading has committed before.

Main results:

- Theorem {lit}`protocol_sound`: every version carries the clock reading of its call, or
  the committed time of its row.
- Theorem {lit}`last_seen_monotone`: in a run without overtaken writes, no committed time
  goes backward.
-/

namespace HireAndTech
namespace Catalogue
namespace Concurrent

open Interleaving Prog Relational

/-! ## Commands with their clock reading -/

/-- The command writes no other time than the clock reading of its call. -/
def Stamped (reading : Option Time) {β : Type} : Cmd β → Prop
  | .clock => False
  | .updateJob _ update => ∀ t, update.observedAt = some t → reading = some t
  | .updateSource _ update => ∀ t, update.observedAt = some t → reading = some t
  | .insertJob row => ∀ id, (row id).id = id ∧ reading = some (row id).lastSeenAt
  | .insertSource row => ∀ id, (row id).id = id ∧ reading = some (row id).lastSeenAt
  | _ => True

section

variable {reading : Option Time} {observedAt : Time}

theorem updateRows_stamped {update : UUID → Cmd (Attempt Nat)}
    (h : ∀ id, Stamped reading (update id)) (ids : List UUID) :
    (updateRows update ids).run.Always (Stamped reading) := by
  induction ids with
  | nil => trivial
  | cons id ids ih =>
      apply Always.except_bind (always_attempt (h id))
      intro updated
      apply Always.except_bind ih
      intro rest
      trivial

theorem updateJobs_stamped {update : Snapshot → JobUpdate}
    (h : ∀ snapshot t, (update snapshot).observedAt = some t → reading = some t) :
    (updateJobs update).run.Always (Stamped reading) := by
  apply Always.except_bind (always_attempt trivial)
  intro snapshot
  apply updateRows_stamped
  intro id
  exact h snapshot

theorem updateSources_stamped {update : Snapshot → SourceUpdate}
    (h : ∀ snapshot t, (update snapshot).observedAt = some t → reading = some t) :
    (updateSources update).run.Always (Stamped reading) := by
  apply Always.except_bind (always_attempt trivial)
  intro snapshot
  apply updateRows_stamped
  intro id
  exact h snapshot

/-- An update that has to meet one row. -/
theorem updated_stamped {c : Cmd (Attempt Nat)} (h : Stamped reading c) :
    (do
      let updated ← attempt c
      if updated = 1 then return () else throw .staleData : Action Unit).run.Always
      (Stamped reading) := by
  apply Always.except_bind (always_attempt h)
  intro updated
  split <;> trivial

theorem flushAssignedJob_stamped {loaded assigned : CanonicalJob}
    (h : assigned.lastSeenAt = observedAt) :
    (flushAssignedJob loaded assigned).run.Always (Stamped (some observedAt)) := by
  unfold flushAssignedJob
  split
  · trivial
  · apply updated_stamped
    intro t ht
    simp only [JobUpdate.observedAt, h, Option.ite_none_left_eq_some] at ht
    exact ht.2

theorem flushAssignedSource_stamped {loaded assigned : JobSourceObservation}
    (h : assigned.lastSeenAt = observedAt) :
    (flushAssignedSource loaded assigned).run.Always (Stamped (some observedAt)) := by
  unfold flushAssignedSource
  split
  · trivial
  · apply updated_stamped
    intro t ht
    simp only [SourceUpdate.observedAt, h, Option.ite_none_left_eq_some] at ht
    exact ht.2

theorem stamped_of_quiet {β : Type} (c : Cmd β) (h : c.isQuiet = true) : Stamped reading c := by
  cases c <;> trivial

variable {rt : Runtime}

theorem refreshSource_stamped (source : JobSourceObservation) (job : NormalizedJob)
    (company : Option Company) (contentChanged : Bool) :
    (refreshSource rt source job company observedAt contentChanged).run.Always
      (Stamped (some observedAt)) := by
  apply Always.except_bind (always_attempt trivial)
  intro canonical
  cases canonical with
  | none => trivial
  | some canonical =>
      apply Always.except_bind
      · exact flushAssignedJob_stamped rfl
      · intro _
        apply Always.except_bind
        · exact flushAssignedSource_stamped rfl
        · intro _
          trivial

theorem reobserve_stamped (existing : JobSourceObservation) (job : NormalizedJob) :
    (reobserve rt existing job observedAt).run.Always (Stamped (some observedAt)) := by
  apply Always.except_bind ((resolveCompany_quiet job).mono stamped_of_quiet)
  intro company
  apply Always.except_bind (refreshSource_stamped _ _ _ _)
  intro rows
  apply Always.except_bind ((companyOfResult_quiet _ _).mono stamped_of_quiet)
  intro company'
  trivial

theorem selectCanonical_stamped (job : NormalizedJob) (company : Option Company) :
    (selectCanonical rt job company).run.Always (Stamped reading) := by
  apply Always.except_bind (always_attempt trivial)
  intro canonical
  split
  · trivial
  · cases company with
    | none => trivial
    | some company =>
        apply Always.except_bind (always_attempt trivial)
        intro candidates
        trivial

theorem observeNew_stamped (job : NormalizedJob) :
    (observeNew rt job observedAt).run.Always (Stamped (some observedAt)) := by
  apply Always.except_bind ((resolveCompany_quiet job).mono stamped_of_quiet)
  intro company
  apply Always.except_bind
  · apply Always.except_bind (selectCanonical_stamped job company)
    intro canonical
    cases canonical with
    | none => exact always_attempt fun id => ⟨rfl, rfl⟩
    | some canonical =>
        apply Always.except_bind
        · exact flushAssignedJob_stamped rfl
        · intro _
          trivial
  · intro canonical
    apply Always.except_bind (always_attempt fun id => ⟨rfl, rfl⟩)
    intro source
    trivial

theorem touchSourcesSeen_stamped (source : String) (sourceJobIds : List String) :
    (touchSourcesSeen source sourceJobIds observedAt).run.Always (Stamped (some observedAt)) := by
  unfold touchSourcesSeen
  split
  · trivial
  · apply Always.except_bind
    · exact updateJobs_stamped fun snapshot t ht => ht
    · intro _
      exact updateSources_stamped fun snapshot t ht => ht

theorem deactivateStale_stamped (source : String) (staleThreshold : Time) :
    (deactivateStale source staleThreshold).run.Always (Stamped reading) := by
  apply Always.except_bind
  · exact updateSources_stamped fun snapshot t ht => by cases ht
  · intro deactivatedCount
    split
    · apply Always.except_bind
      · exact updateJobs_stamped fun snapshot t ht => by cases ht
      · intro _
        trivial
    · trivial

theorem deactivateStaleSources_stamped (source : String)
    (staleThreshold safetyWindowStart : Time) :
    (deactivateStaleSources source staleThreshold safetyWindowStart).run.Always
      (Stamped reading) := by
  apply Always.except_bind (always_attempt trivial)
  intro healthCheck
  cases healthCheck with
  | none => trivial
  | some healthCheck =>
      by_cases h : healthCheck < safetyWindowStart
      · simp only [h, if_true]
        trivial
      · simp only [h, if_false]
        exact deactivateStale_stamped source staleThreshold

end

/-! ## The protocol -/

/-- The clock readings of the committed writes of a job. -/
def jobLog (writes : List (Row × Time)) (id : UUID) : Set Time :=
  {t | (.job id, t) ∈ writes}

/-- The clock readings of the committed writes of an observation. -/
def sourceLog (writes : List (Row × Time)) (id : UUID) : Set Time :=
  {t | (.source id, t) ∈ writes}

/-- The history has the clock reading of every committed time, and every version carries the
reading of its call or the committed time of its row. -/
structure Logged (w : World) : Prop where
  jobs : w.jobs.Recorded (·.lastSeenAt) w.readings (jobLog w.writes)
  observations : w.observations.Recorded (·.lastSeenAt) w.readings (sourceLog w.writes)

/-- No version is older than the committed row. -/
structure NoneBehind (w : World) : Prop where
  jobs : w.jobs.Ahead (·.lastSeenAt)
  observations : w.observations.Ahead (·.lastSeenAt)

/-- A command is issued with the clock reading of its call, which is read once. -/
def Issued (reading : Option Time) {β : Type} : Cmd β → Prop
  | .clock => reading = none
  | cmd => Stamped reading cmd

/-- The contract between the calls. -/
def protocol : Contract World Cmd Request where
  Inv := Logged
  Issues i _ w cmd := Issued (w.readings i) cmd
  Guar i _ w w' := ∀ j, j ≠ i → w'.readings j = w.readings j

section

variable {rt : Runtime} {i : CallId} {w w' : World} {β : Type} {cmd : Cmd β} {b : β} {ch : Choice}
  {reading : Option Time}

theorem Stamped.issued (h : Stamped reading cmd) : Issued reading cmd := by
  cases cmd <;> first | exact h | exact absurd h id

theorem Same.logged (h : Same w w') (hw : Logged w) : Logged w' where
  jobs := by
    rw [h.jobs, h.readings, h.writes]
    exact hw.jobs
  observations := by
    rw [h.observations, h.readings, h.writes]
    exact hw.observations

theorem Same.noneBehind (h : Same w w') (hw : NoneBehind w) : NoneBehind w' where
  jobs := by
    rw [h.jobs]
    exact hw.jobs
  observations := by
    rw [h.observations]
    exact hw.observations

theorem mem_ownRows_job {j : CanonicalJob} (h : j ∈ w.jobs.own i) : .job j.id ∈ w.ownRows i :=
  List.mem_append_left _ (List.mem_map_of_mem h)

theorem mem_ownRows_source {o : JobSourceObservation} (h : o ∈ w.observations.own i) :
    .source o.id ∈ w.ownRows i :=
  List.mem_append_right _ (List.mem_map_of_mem h)

/-- A commit records the rows of the call with its clock reading. -/
theorem mem_writes_commit {row : Row} {t : Time} (hrow : row ∈ w.ownRows i)
    (ht : w.readings i = some t) : (row, t) ∈ (w.commit i).writes := by
  apply List.mem_append_right
  rw [ht]
  simpa using hrow

theorem Logged.commit (h : Logged w) : Logged (w.commit i) where
  jobs := by
    apply h.jobs.commit
    · intro id t ht
      exact List.mem_append_left _ ht
    · intro j hj t ht
      exact mem_writes_commit (mem_ownRows_job hj) ht
  observations := by
    apply h.observations.commit
    · intro id t ht
      exact List.mem_append_left _ ht
    · intro o ho t ht
      exact mem_writes_commit (mem_ownRows_source ho) ht

/-- An update gives a row the clock reading of its call, or leaves its time alone. -/
theorem observedAt_cases {observedAt : Option Time} {seen seen' : Time}
    (hseen : seen' = observedAt.getD seen) (h : ∀ t, observedAt = some t → reading = some t) :
    reading = some seen' ∨ seen = seen' := by
  cases observedAt with
  | none => exact Or.inr hseen.symm
  | some t =>
      left
      rw [hseen]
      exact h t rfl

theorem exec_logged (hw : Logged w) (hcmd : Issued (w.readings i) cmd)
    (he : exec rt i cmd ch w = some (b, w')) :
    Logged w' ∧ ∀ j, j ≠ i → w'.readings j = w.readings j := by
  cases exec_effect he with
  | same h => exact ⟨h.logged hw, fun j _ => congrFun h.readings j⟩
  | clock h t =>
      rename_i w₁
      have hw₁ := h.logged hw
      have hnone : w₁.readings i = none := by
        rw [h.readings]
        exact hcmd
      refine ⟨⟨hw₁.jobs.read hnone ?_, hw₁.observations.read hnone ?_⟩, ?_⟩ <;> intro j hj
      · exact Function.update_of_ne hj _ _
      · exact Function.update_of_ne hj _ _
      · rw [← h.readings]
        exact Function.update_of_ne hj _ _
  | load h rows =>
      have hw₁ := h.logged hw
      exact ⟨⟨hw₁.jobs, hw₁.observations⟩, fun j _ => congrFun h.readings j⟩
  | @updateJob w₁ id update j h hlocked hj happlies =>
      have hw₁ := h.logged hw
      refine ⟨⟨hw₁.jobs.write ?_, hw₁.observations⟩, fun k _ => congrFun h.readings k⟩
      rw [h.readings, h.jobs, JobUpdate.apply_id, lookup_key hj]
      rcases observedAt_cases (update.apply_lastSeenAt j) hcmd with hread | hkept
      · exact Or.inl hread
      · exact Or.inr ⟨j, hj, hkept⟩
  | insertJob h hused =>
      have hw₁ := h.logged hw
      refine ⟨⟨hw₁.jobs.write ?_, hw₁.observations⟩, fun k _ => congrFun h.readings k⟩
      rw [h.readings]
      exact Or.inl (hcmd _).2
  | @updateSource w₁ id update o h hlocked ho happlies =>
      have hw₁ := h.logged hw
      refine ⟨⟨hw₁.jobs, hw₁.observations.write ?_⟩, fun k _ => congrFun h.readings k⟩
      rw [h.readings, h.observations, SourceUpdate.apply_id, lookup_key ho]
      rcases observedAt_cases (update.apply_lastSeenAt o) hcmd with hread | hkept
      · exact Or.inl hread
      · exact Or.inr ⟨o, ho, hkept⟩
  | insertSource h hused =>
      have hw₁ := h.logged hw
      refine ⟨⟨hw₁.jobs, hw₁.observations.write ?_⟩, fun k _ => congrFun h.readings k⟩
      rw [h.readings]
      exact Or.inl (hcmd _).2
  | commit h => exact ⟨(h.logged hw).commit, fun j _ => congrFun h.readings j⟩

/-- Only the clock gives a call its reading. -/
theorem exec_readings (hcmd : Stamped reading cmd) (he : exec rt i cmd ch w = some (b, w')) :
    w'.readings = w.readings := by
  cases exec_effect he with
  | same h => exact h.readings
  | clock h t => exact hcmd.elim
  | load h rows => exact h.readings
  | updateJob h _ _ _ => exact h.readings
  | insertJob h _ => exact h.readings
  | updateSource h _ _ _ => exact h.readings
  | insertSource h _ => exact h.readings
  | commit h => exact h.readings

end

/-! ## The calls keep the protocol -/

/-- The call has not read the clock. -/
def Unread (i : CallId) (w : World) : Prop :=
  w.readings i = none

section

variable {rt : Runtime} {R : Regime World Cmd Choice Request} {i : CallId} {r : Request}
  {reading : Option Time} {α : Type}

theorem reading_stable : protocol.Stable i fun w => w.readings i = reading := by
  intro j _ hj w w' _ _ hguar h
  rw [hguar i (Ne.symm hj)]
  exact h

/-- What happens once the clock has been read. -/
theorem valid_stamped {p : Action α} (h : p.run.Always (Stamped reading)) :
    Valid (catalogueMachine rt) R protocol i r p.run (fun w => w.readings i = reading)
      (Ends (fun _ _ => True) fun _ _ => True) := by
  have hvalid : Valid (catalogueMachine rt) R protocol i r p.run
      (fun w => w.readings i = reading) fun _ w => w.readings i = reading := by
    apply Valid.of_always reading_stable _ _ h
    · intro _ c w hc _ hw
      change Issued (w.readings i) c
      rw [hw]
      exact hc.issued
    · intro _ c b w w' ch hc _ _ hw he
      rw [exec_readings hc he]
      exact hw
  apply hvalid.post
  intro a w _ _
  cases a <;> trivial

/-- A call that reads the clock once and then issues its commands with that reading. -/
theorem valid_read {f : Time → Action α}
    (h : ∀ observedAt, (f observedAt).run.Always (Stamped (some observedAt))) :
    Valid (catalogueMachine rt) R protocol i r (ExceptT.lift (perform .clock) >>= f).run (Unread i)
      (Ends (fun _ _ => True) fun _ _ => True) := by
  apply Valid.except_bind (Q := fun observedAt w => w.readings i = some observedAt)
  · apply Valid.except_lift
    apply Valid.cmd reading_stable
    · intro w _ hw
      exact hw
    · intro observedAt w w' ch _ _ _ _ _ he
      obtain ⟨w₁, _, _, rfl⟩ := exec_clock he
      exact Function.update_self _ _ _
  · intro observedAt
    exact valid_stamped (h observedAt)

theorem ingest_stamped (job : NormalizedJob) (observedAt : Time) :
    (do
      attempt (.lockSourceIdentity job.source job.externalJobId)
      match ← attempt (.getSource job.source job.externalJobId) with
      | some existing => reobserve rt existing job observedAt
      | none => observeNew rt job observedAt : Action IngestionResult).run.Always
        (Stamped (some observedAt)) := by
  apply Always.except_bind (always_attempt trivial)
  intro _
  apply Always.except_bind (always_attempt trivial)
  intro existing
  cases existing with
  | some existing => exact reobserve_stamped existing job
  | none => exact observeNew_stamped job

theorem serve_valid (r : Request) :
    Valid (catalogueMachine rt) R protocol i r (serve rt r).run (Unread i)
      (Ends (fun _ _ => True) fun _ _ => True) := by
  cases r with
  | ingest job =>
      apply Valid.except_bind (valid_read fun observedAt => ingest_stamped job observedAt)
      intro result
      exact Valid.except_ret fun _ _ _ => trivial
  | touchSeen source sourceJobIds =>
      apply Valid.except_bind
        (valid_read fun observedAt => touchSourcesSeen_stamped source sourceJobIds.eraseDups)
      intro n
      exact Valid.except_ret fun _ _ _ => trivial
  | deactivateStaleSources source staleThreshold safetyWindowStart =>
      apply Valid.except_bind
        (valid_stamped (deactivateStaleSources_stamped source staleThreshold safetyWindowStart))
      intro n
      exact Valid.except_ret fun _ _ _ => trivial

theorem transaction_valid (r : Request) :
    Valid (catalogueMachine rt) R protocol i r (transaction rt r).run (Unread i)
      fun _ _ => True := by
  have hvalid : Valid (catalogueMachine rt) R protocol i r (transaction rt r).run (Unread i)
      (Ends (fun _ _ => True) fun _ _ => True) := by
    apply Valid.except_bind (serve_valid r)
    intro reply
    apply Valid.except_bind (Q := fun _ _ => True)
    · apply Valid.cmd (protocol.stable_const True)
      · intro w _ _
        trivial
      · intro b w w' ch _ _ _ _ _ _
        cases b <;> trivial
    · intro _
      exact Valid.except_ret fun _ _ _ => trivial
  exact hvalid.post fun _ _ _ _ => trivial

/-- The world before any call is logged. -/
theorem initial_logged (now : Time) (c : StoredDatabase) : Logged (World.initial now c) where
  jobs := by
    constructor
    · intro id j hj
      apply List.mem_append_left
      refine List.mem_map.mpr ⟨j, mem_of_lookup hj, ?_⟩
      rw [lookup_key hj]
    · intro id k j hj
      contradiction
  observations := by
    constructor
    · intro id o ho
      apply List.mem_append_right
      refine List.mem_map.mpr ⟨o, mem_of_lookup ho, ?_⟩
      rw [lookup_key ho]
    · intro id k o ho
      contradiction

/-- The catalogue services keep the protocol. -/
theorem protocol_sound (rt : Runtime) (now : Time) (c : StoredDatabase) :
    Sound (catalogueMachine rt) .any protocol (World.initial now c) Unread
      fun _ _ _ _ => True where
  init := initial_logged now c
  pre_init _ := rfl
  pre_stable _ := reading_stable
  post_stable _ _ _ := protocol.stable_const True
  exec _ _ _ _ _ _ _ _ _ hw hissues _ he := exec_logged hw hissues he
  close _ _ _ _ hw :=
    ⟨⟨hw.jobs.discard, hw.observations.discard⟩, fun _ _ => rfl⟩
  refl _ _ _ _ _ _ _ := rfl
  valid _ r _ := transaction_valid r

end

/-! ## Runs without overtaken writes -/

/-- A transaction that read the clock later has committed a write of the row. -/
def World.overtakes (w : World) (row : Row) (observedAt : Time) : Bool :=
  w.writes.any fun write => write.1 = row && observedAt < write.2

/-- The runs in which every update that assigns {lit}`last_seen_at` reaches its row before any
transaction with a later clock reading has committed a write of it. -/
def inClockOrder : Regime World Cmd Choice Request where
  starts := fun _ _ => true
  allows := fun w _ cmd _ =>
    match cmd with
    | .updateJob id update => update.observedAt.all fun t => !w.overtakes (.job id) t
    | .updateSource id update => update.observedAt.all fun t => !w.overtakes (.source id) t
    | _ => true

/-- Every row is still there, and none was last seen earlier than before. -/
structure SeenNoEarlier (c c' : Database) : Prop where
  jobs : ∀ j ∈ c.jobs, ∃ j' ∈ c'.jobs, j'.id = j.id ∧ j.lastSeenAt ≤ j'.lastSeenAt
  observations : ∀ o ∈ c.observations, ∃ o' ∈ c'.observations,
    o'.id = o.id ∧ o.lastSeenAt ≤ o'.lastSeenAt

theorem SeenNoEarlier.refl (c : Database) : SeenNoEarlier c c where
  jobs j hj := ⟨j, hj, rfl, le_refl _⟩
  observations o ho := ⟨o, ho, rfl, le_refl _⟩

theorem SeenNoEarlier.trans {c c' c'' : Database} (h : SeenNoEarlier c c')
    (h' : SeenNoEarlier c' c'') : SeenNoEarlier c c'' where
  jobs j hj := by
    obtain ⟨j', hj', hid, hle⟩ := h.jobs j hj
    obtain ⟨j'', hj'', hid', hle'⟩ := h'.jobs j' hj'
    exact ⟨j'', hj'', hid'.trans hid, hle.trans hle'⟩
  observations o ho := by
    obtain ⟨o', ho', hid, hle⟩ := h.observations o ho
    obtain ⟨o'', ho'', hid', hle'⟩ := h'.observations o' ho'
    exact ⟨o'', ho'', hid'.trans hid, hle.trans hle'⟩

section

variable {rt : Runtime} {i : CallId} {w w' : World} {β : Type} {cmd : Cmd β} {b : β} {ch : Choice}
  {r : Request}

theorem not_overtakes {row : Row} {t s : Time} (h : w.overtakes row t = false)
    (hs : (row, s) ∈ w.writes) : s ≤ t := by
  simp only [World.overtakes, List.any_eq_false, Bool.and_eq_true, decide_eq_true_eq] at h
  have hlater : ¬t < s := by simpa using h (row, s) hs
  exact not_lt.mp hlater

/-- An update that is not overtaken keeps the time of its row, or gives it one that no logged
reading exceeds. -/
theorem update_ahead {row : Row} {observedAt : Option Time} {seen seen' : Time}
    (hseen : seen' = observedAt.getD seen)
    (h : observedAt.all (fun t => !w.overtakes row t) = true) :
    seen' = seen ∨ ∀ s, (row, s) ∈ w.writes → s ≤ seen' := by
  cases observedAt with
  | none => exact Or.inl hseen
  | some t =>
      right
      intro s hs
      simp only [Option.all_some, Bool.not_eq_true'] at h
      rw [hseen]
      exact not_overtakes h hs

theorem exec_noneBehind (hlogged : Logged w) (hissues : Issued (w.readings i) cmd)
    (hallows : inClockOrder.allows w r cmd ch = true) (he : exec rt i cmd ch w = some (b, w'))
    (hw : NoneBehind w) : NoneBehind w' := by
  cases exec_effect he with
  | same h => exact h.noneBehind hw
  | clock h t => exact ⟨(h.noneBehind hw).jobs, (h.noneBehind hw).observations⟩
  | load h rows => exact ⟨(h.noneBehind hw).jobs, (h.noneBehind hw).observations⟩
  | @updateJob w₁ id update j h hlocked hj happlies =>
      have hw₁ := h.noneBehind hw
      refine ⟨hw₁.jobs.update (h.logged hlogged).jobs (y := j) ?_ ?_, hw₁.observations⟩
      · rw [h.jobs, JobUpdate.apply_id, lookup_key hj]
        exact hj
      · rw [JobUpdate.apply_id, lookup_key hj, h.writes]
        exact update_ahead (update.apply_lastSeenAt j) hallows
  | insertJob h hused =>
      have hw₁ := h.noneBehind hw
      refine ⟨hw₁.jobs.write ?_, hw₁.observations⟩
      intro j hj
      rw [(hissues _).1, h.jobs, (not_isUsed.mp hused).1] at hj
      contradiction
  | @updateSource w₁ id update o h hlocked ho happlies =>
      have hw₁ := h.noneBehind hw
      refine ⟨hw₁.jobs, hw₁.observations.update (h.logged hlogged).observations (y := o) ?_ ?_⟩
      · rw [h.observations, SourceUpdate.apply_id, lookup_key ho]
        exact ho
      · rw [SourceUpdate.apply_id, lookup_key ho, h.writes]
        exact update_ahead (update.apply_lastSeenAt o) hallows
  | insertSource h hused =>
      have hw₁ := h.noneBehind hw
      refine ⟨hw₁.jobs, hw₁.observations.write ?_⟩
      intro o ho
      rw [(hissues _).1, h.observations, (not_isUsed.mp hused).1] at ho
      contradiction
  | commit h =>
      have hw₁ := h.noneBehind hw
      exact ⟨hw₁.jobs.commit, hw₁.observations.commit⟩

/-- A commit of a call whose versions are not behind. -/
theorem seen_commit (hw : NoneBehind w) :
    SeenNoEarlier w.committed (w.commit i).committed where
  jobs j hj := by
    obtain ⟨j', hj', hle⟩ := hw.jobs.le_commit (i := i) (lookup_of_mem w.jobs.keys hj)
    exact ⟨j', mem_of_lookup hj', lookup_key hj', hle⟩
  observations o ho := by
    obtain ⟨o', ho', hle⟩ :=
      hw.observations.le_commit (i := i) (lookup_of_mem w.observations.keys ho)
    exact ⟨o', mem_of_lookup ho', lookup_key ho', hle⟩

theorem seen_of_eq (hjobs : w'.jobs.committed = w.jobs.committed)
    (hobservations : w'.observations.committed = w.observations.committed) :
    SeenNoEarlier w.committed w'.committed where
  jobs j hj := ⟨j, (congrArg (j ∈ ·) hjobs).mpr hj, rfl, le_refl _⟩
  observations o ho := ⟨o, (congrArg (o ∈ ·) hobservations).mpr ho, rfl, le_refl _⟩

theorem Same.committed_eq {w₁ : World} (h : Same w w₁) :
    w₁.jobs.committed = w.jobs.committed ∧
      w₁.observations.committed = w.observations.committed :=
  ⟨congrArg _ h.jobs, congrArg _ h.observations⟩

/-- One command changes the committed catalogue only if it is a commit. -/
theorem exec_seen (he : exec rt i cmd ch w = some (b, w')) (hw : NoneBehind w) :
    SeenNoEarlier w.committed w'.committed := by
  cases exec_effect he with
  | same h => exact seen_of_eq h.committed_eq.1 h.committed_eq.2
  | clock h t => exact seen_of_eq h.committed_eq.1 h.committed_eq.2
  | load h rows => exact seen_of_eq h.committed_eq.1 h.committed_eq.2
  | updateJob h _ _ _ => exact seen_of_eq h.committed_eq.1 h.committed_eq.2
  | insertJob h _ => exact seen_of_eq h.committed_eq.1 h.committed_eq.2
  | updateSource h _ _ _ => exact seen_of_eq h.committed_eq.1 h.committed_eq.2
  | insertSource h _ => exact seen_of_eq h.committed_eq.1 h.committed_eq.2
  | commit h =>
      exact (seen_of_eq h.committed_eq.1 h.committed_eq.2).trans (seen_commit (h.noneBehind hw))

end

section

variable {rt : Runtime} {now : Time} {c₀ : StoredDatabase}
  {c c' : Config World Cmd Request (Attempt Reply)}

/-- In a run in clock order no version is behind its committed row. -/
theorem noneBehind_of_reachable
    (h : (catalogueMachine rt).Reachable inClockOrder (World.initial now c₀) c) :
    NoneBehind c.world := by
  apply (protocol_sound rt now c₀).invariant (R := inClockOrder) (J := NoneBehind) _ _ _ h
  · constructor <;> intro id k x y hx <;> contradiction
  · intro i r _ cmd ch b w w' _ hw _ _ hissues hallows he hJ
    exact exec_noneBehind hw hissues hallows he hJ
  · intro i w _ hJ
    exact ⟨hJ.jobs.discard, hJ.observations.discard⟩

/-- One step of a run. -/
theorem next_seen {l : Label Choice Request} (hw : NoneBehind c.world)
    (hn : (catalogueMachine rt).next l c = some c') :
    SeenNoEarlier c.world.committed c'.world.committed := by
  rcases Machine.next_cases hn with ⟨i, r, _, _, rfl⟩ |
    ⟨i, ch, r, β, cmd, k, b, w, _, _, he, rfl⟩ | ⟨i, r, res, _, rfl⟩
  · exact .refl _
  · exact exec_seen he hw
  · exact seen_of_eq rfl rfl

/-- In a run in which no update is overtaken, no row is lost and no committed time goes
backward from any state of the run to any later one. -/
theorem last_seen_monotone
    (h : (catalogueMachine rt).Reachable inClockOrder (World.initial now c₀) c)
    {ls : List (Label Choice Request)}
    (hrun : (catalogueMachine rt).play inClockOrder ls c = some c') :
    SeenNoEarlier c.world.committed c'.world.committed := by
  induction ls generalizing c with
  | nil =>
      cases hrun
      exact .refl _
  | cons l ls ih =>
      rw [Machine.play] at hrun
      split at hrun
      · rename_i hl
        obtain ⟨d, hd, hrest⟩ := Option.bind_eq_some_iff.mp hrun
        exact (next_seen (noneBehind_of_reachable h) hd).trans (ih (h.next hl hd) hrest)
      · contradiction

end

/-! ## Two search results that touch one listing -/

/-- The sample catalogue with other times at which its rows were last seen. -/
def austinSeen (job source : Time) : Database where
  companies := [acme]
  jobs := [{ austinJob 90 with lastSeenAt := job }]
  observations := [{ austinSource 90 with lastSeenAt := source }]

/-- Call {lit}`i` starts to touch the listing and reads the clock. -/
def readSteps (i : CallId) (elapsed : Time) : List (Label Choice Request) :=
  [.start i (.touchSeen "dice" ["a1"]), .step i ⟨elapsed, .quiet⟩]

/-- Call {lit}`i` writes its clock reading over rows last seen at {lit}`seenAt`, and
commits. -/
def writeSteps (i : CallId) (seenAt reading : Time) : List (Label Choice Request) :=
  [.step i ⟨0, .scan (austinSeen seenAt seenAt)⟩, .step i {},
    .step i ⟨0, .scan (austinSeen reading seenAt)⟩, .step i {}, .step i {}]

/-- The committed times of jobs and of observations. -/
def seenTimes (c : Config World Cmd Request (Attempt Reply)) : List Time × List Time :=
  (c.world.committed.jobs.map (·.lastSeenAt), c.world.committed.observations.map (·.lastSeenAt))

/-- Two calls read the clock at 100 and at 110, and write in that order. -/
theorem last_seen_monotone_touch : ∃ c c',
    (catalogueMachine sampleRuntime).play inClockOrder
        (readSteps 0 0 ++ readSteps 1 10 ++ writeSteps 0 90 100)
        (.initial (World.initial 100 (austinCatalogue 90))) = some c ∧
      (catalogueMachine sampleRuntime).play inClockOrder (writeSteps 1 100 110) c = some c' ∧
      SeenNoEarlier c.world.committed c'.world.committed := by
  have hrun : (((catalogueMachine sampleRuntime).play inClockOrder
      (readSteps 0 0 ++ readSteps 1 10 ++ writeSteps 0 90 100)
      (.initial (World.initial 100 (austinCatalogue 90)))).bind
        ((catalogueMachine sampleRuntime).play inClockOrder (writeSteps 1 100 110))).map
          seenTimes = some ([110], [110]) := by
    decide
  obtain ⟨c', hc', _⟩ := Option.map_eq_some_iff.mp hrun
  obtain ⟨c, hc, hrest⟩ := Option.bind_eq_some_iff.mp hc'
  exact ⟨c, c', hc, hrest, last_seen_monotone (Machine.reachable_of_play hc) hrest⟩

/-- The call that read the clock at 100 writes after the one that read it at 110 has
committed. -/
theorem overtaken_goes_backward : ∃ c c',
    (catalogueMachine sampleRuntime).play .any
        (readSteps 0 0 ++ readSteps 1 10 ++ writeSteps 1 90 110)
        (.initial (World.initial 100 (austinCatalogue 90))) = some c ∧
      (catalogueMachine sampleRuntime).play .any (writeSteps 0 110 100) c = some c' ∧
      ¬ SeenNoEarlier c.world.committed c'.world.committed := by
  have hrun : ((catalogueMachine sampleRuntime).play .any
      (readSteps 0 0 ++ readSteps 1 10 ++ writeSteps 1 90 110)
      (.initial (World.initial 100 (austinCatalogue 90)))).map
        (fun c => (seenTimes c, ((catalogueMachine sampleRuntime).play .any
          (writeSteps 0 110 100) c).map seenTimes)) =
      some (([110], [110]), some ([100], [100])) := by
    decide
  obtain ⟨c, hc, hpair⟩ := Option.map_eq_some_iff.mp hrun
  have hseen : seenTimes c = ([110], [110]) := congrArg Prod.fst hpair
  obtain ⟨c', hc', hseen'⟩ := Option.map_eq_some_iff.mp (congrArg Prod.snd hpair)
  refine ⟨c, c', hc, hc', fun h => ?_⟩
  have hjobs : c.world.committed.jobs.map (·.lastSeenAt) = [110] := congrArg Prod.fst hseen
  have hjobs' : c'.world.committed.jobs.map (·.lastSeenAt) = [100] := congrArg Prod.fst hseen'
  have hmem : 110 ∈ c.world.committed.jobs.map (·.lastSeenAt) := by
    rw [hjobs]
    exact List.mem_singleton_self _
  obtain ⟨j, hj, hjseen⟩ := List.mem_map.mp hmem
  obtain ⟨j', hj', _, hle⟩ := h.jobs j hj
  have hmem' : j'.lastSeenAt ∈ c'.world.committed.jobs.map (·.lastSeenAt) :=
    List.mem_map_of_mem hj'
  rw [hjobs', List.mem_singleton] at hmem'
  rw [hjseen, hmem'] at hle
  contradiction

end Concurrent
end Catalogue
end HireAndTech
