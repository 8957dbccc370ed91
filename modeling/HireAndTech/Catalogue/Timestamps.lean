import HireAndTech.Catalogue.Rows

/-!
# Freshness timestamps

A call that sees listings at time {lit}`t` stamps their observations and canonical jobs with
{lit}`t`.  As long as the clock does not go back, the times of a canonical job stay the
extremes of the times of its observations.

Main results:

- Theorem {lit}`seenAt_of_step`: what a call at time {lit}`t` does to rows.
- Theorem {lit}`Timed.seenAt`: such a call keeps the timestamps in order.
- Theorem {lit}`freshness_timestamps`: the timestamps in every state of a run.
-/

namespace HireAndTech
namespace Catalogue

open Relational

/-! ## Timestamps -/

/-- The observations of a canonical job. -/
def Database.observationsOf (c : Database) (jobId : UUID) : Set JobSourceObservation :=
  {o | o ∈ c.observations ∧ o.jobId = jobId}

/-- The timestamps of the observations are in order, and those of a canonical job are the
extremes of the timestamps of its observations. -/
structure Timed (c : Database) : Prop where
  ordered : ∀ o ∈ c.observations, o.firstSeenAt ≤ o.scrapedAt ∧ o.scrapedAt ≤ o.lastSeenAt
  latest : ∀ j ∈ c.jobs,
    IsGreatest (JobSourceObservation.lastSeenAt '' c.observationsOf j.id) j.lastSeenAt
  earliest : ∀ j ∈ c.jobs,
    IsLeast (JobSourceObservation.firstSeenAt '' c.observationsOf j.id) j.firstSeenAt

/-- Nothing has been seen after {lit}`t`. -/
def SeenUntil (c : Database) (t : Time) : Prop :=
  ∀ o ∈ c.observations, o.lastSeenAt ≤ t

/-- The observations of {lit}`c` are still there, with their first times. -/
def FirstSeenKept (c c' : Database) : Prop :=
  ∀ o ∈ c.observations, (∃ o' ∈ c'.observations, o'.id = o.id) ∧
    ∀ o' ∈ c'.observations, o'.id = o.id → o'.firstSeenAt = o.firstSeenAt

/-- The clock reading of a call that sees listings. -/
def Op.clock : Op → Option Time
  | .ingest _ observedAt _ => some observedAt
  | .touchSeen _ _ observedAt => some observedAt
  | .deactivateStaleSources _ _ _ => none

/-! ## What a call at one time does -/

/-- Where an observation comes from after a call at time {lit}`t`. -/
inductive ObservationSeen (c : Database) (t : Time) (o' : JobSourceObservation) : Prop
  | kept (h : o' ∈ c.observations)
  | again (o : JobSourceObservation) (h : o ∈ c.observations) (hid : o'.id = o.id)
      (hjob : o'.jobId = o.jobId) (hfirst : o'.firstSeenAt = o.firstSeenAt)
      (hlast : o'.lastSeenAt = t) (hscraped : o'.scrapedAt = o.scrapedAt ∨ o'.scrapedAt = t)
  | new (hid : ∀ o ∈ c.observations, o.id ≠ o'.id) (hfirst : o'.firstSeenAt = t)
      (hlast : o'.lastSeenAt = t) (hscraped : o'.scrapedAt = t)

/-- Where a canonical job comes from after a call at time {lit}`t`. -/
inductive JobSeen (c c' : Database) (t : Time) (j' : CanonicalJob) : Prop
  | kept (h : j' ∈ c.jobs)
      (hsame : ∀ o, o.jobId = j'.id → (o ∈ c'.observations ↔ o ∈ c.observations))
  | again (j : CanonicalJob) (h : j ∈ c.jobs) (hid : j'.id = j.id)
      (hfirst : j'.firstSeenAt = j.firstSeenAt) (hlast : j'.lastSeenAt = t)
      (hseen : ∃ o ∈ c'.observations, o.jobId = j'.id ∧ o.lastSeenAt = t)
  | new (hfirst : j'.firstSeenAt = t) (hlast : j'.lastSeenAt = t)
      (hseen : ∃ o ∈ c'.observations, o.jobId = j'.id)
      (hall : ∀ o ∈ c'.observations, o.jobId = j'.id → o.firstSeenAt = t ∧ o.lastSeenAt = t)

/-- The effect of a call at time {lit}`t` on the rows. -/
structure SeenAt (c c' : Database) (t : Time) : Prop where
  observations : ∀ o' ∈ c'.observations, ObservationSeen c t o'
  stays : ∀ o ∈ c.observations,
    ∃ o' ∈ c'.observations, o'.id = o.id ∧ o'.jobId = o.jobId ∧ o'.firstSeenAt = o.firstSeenAt
  jobs : ∀ j' ∈ c'.jobs, JobSeen c c' t j'

section

variable {rt : Runtime} {c c' : Database} {job : NormalizedJob} {t t' : Time}
  {choice : IngestChoice} {op : Op}

theorem SeenAt.refl (c : Database) (t : Time) : SeenAt c c t where
  observations _ h := .kept h
  stays o h := ⟨o, h, rfl, rfl, rfl⟩
  jobs _ h := .kept h fun _ _ => Iff.rfl

theorem seenAt_of_ingested (hgraph : Graph c) (hi : Ingested rt c job t choice c') :
    SeenAt c c' t := by
  cases hi with
  | reobserved c₁ o j company hsource _ hjob _ hjobs hobservations =>
      have ho : o ∈ c.observations := (getSource_eq_some hsource).1
      have hj : j ∈ c.jobs ∧ j.id = o.jobId := getJob_eq_some hjob
      set o₁ := refreshedSource o job t (o.contentHash ≠ job.contentHash) with ho₁
      set j₁ := refreshedJob rt j job company t with hj₁
      have hmemSource : ∀ x, x ∈ c'.observations ↔ x = o₁ ∨ (x ∈ c.observations ∧ x ≠ o) := by
        intro x
        rw [hobservations]
        exact mem_put hgraph.sourceIds ho rfl
      have hmemJob : ∀ x, x ∈ c'.jobs ↔ x = j₁ ∨ (x ∈ c.jobs ∧ x ≠ j) := by
        intro x
        rw [hjobs]
        exact mem_put hgraph.jobIds hj.1 rfl
      have hnew : o₁ ∈ c'.observations := (hmemSource o₁).mpr (Or.inl rfl)
      constructor
      · intro x hx
        rcases (hmemSource x).mp hx with rfl | ⟨hold, _⟩
        · exact .again o ho rfl rfl rfl rfl (Or.inr rfl)
        · exact .kept hold
      · intro x hx
        by_cases hxo : x = o
        · subst hxo
          exact ⟨o₁, hnew, rfl, rfl, rfl⟩
        · exact ⟨x, (hmemSource x).mpr (Or.inr ⟨hx, hxo⟩), rfl, rfl, rfl⟩
      · intro x hx
        rcases (hmemJob x).mp hx with rfl | ⟨hold, hne⟩
        · exact .again j hj.1 rfl rfl rfl ⟨o₁, hnew, hj.2.symm, rfl⟩
        · have hid : x.id ≠ o.jobId :=
            fun heq => hne (hgraph.jobIds.eq hold hj.1 (heq.trans hj.2.symm))
          refine .kept hold fun y hy => ?_
          rw [hmemSource]
          constructor
          · rintro (rfl | ⟨hy', _⟩)
            · exact absurd hy.symm hid
            · exact hy'
          · intro hy'
            have hyo : y ≠ o := fun heq => hid (heq ▸ hy.symm)
            exact Or.inr ⟨hy', hyo⟩
  | created c₁ company _ _ _ hfresh hsourceId _ hjobs hobservations =>
      set j₁ := createdJob rt choice.jobId job company t with hj₁
      set o₁ := createdSource choice.sourceId job j₁ t with ho₁
      have hmemSource : ∀ x, x ∈ c'.observations ↔ x ∈ c.observations ∨ x = o₁ := by
        intro x
        rw [hobservations, List.mem_append, List.mem_singleton]
      constructor
      · intro x hx
        rcases (hmemSource x).mp hx with hold | rfl
        · exact .kept hold
        · exact .new hsourceId rfl rfl rfl
      · intro x hx
        exact ⟨x, (hmemSource x).mpr (Or.inl hx), rfl, rfl, rfl⟩
      · intro x hx
        rw [hjobs, List.mem_append, List.mem_singleton] at hx
        rcases hx with hold | rfl
        · refine .kept hold fun y hy => ?_
          have hyo : y ≠ o₁ := fun heq => hfresh x hold (hy.symm.trans (heq ▸ rfl))
          rw [hmemSource]
          exact or_iff_left hyo
        · refine .new rfl rfl ⟨o₁, (hmemSource o₁).mpr (Or.inr rfl), rfl⟩ fun y hy hyjob => ?_
          rcases (hmemSource y).mp hy with hold | rfl
          · obtain ⟨z, hz, hzid⟩ := hgraph.canonical y hold
            exact absurd (hzid.trans hyjob) (hfresh z hz)
          · exact ⟨rfl, rfl⟩
  | merged c₁ company candidate _ hresolve hselect hsourceId _ hjobs hobservations =>
      have hj : candidate ∈ c.jobs :=
        (resolveCompany_eq_some hresolve).1 ▸ selectCanonical_mem hselect
      set j₁ := markCanonicalSeen candidate t with hj₁
      set o₁ := createdSource choice.sourceId job j₁ t with ho₁
      have hmemSource : ∀ x, x ∈ c'.observations ↔ x ∈ c.observations ∨ x = o₁ := by
        intro x
        rw [hobservations, List.mem_append, List.mem_singleton]
      have hmemJob : ∀ x, x ∈ c'.jobs ↔ x = j₁ ∨ (x ∈ c.jobs ∧ x ≠ candidate) := by
        intro x
        rw [hjobs]
        exact mem_put hgraph.jobIds hj rfl
      constructor
      · intro x hx
        rcases (hmemSource x).mp hx with hold | rfl
        · exact .kept hold
        · exact .new hsourceId rfl rfl rfl
      · intro x hx
        exact ⟨x, (hmemSource x).mpr (Or.inl hx), rfl, rfl, rfl⟩
      · intro x hx
        rcases (hmemJob x).mp hx with rfl | ⟨hold, hne⟩
        · exact .again candidate hj rfl rfl rfl ⟨o₁, (hmemSource o₁).mpr (Or.inr rfl), rfl, rfl⟩
        · refine .kept hold fun y hy => ?_
          have hyo : y ≠ o₁ := by
            intro heq
            have hid : x.id = candidate.id := hy.symm.trans (heq ▸ rfl)
            exact hne (hgraph.jobIds.eq hold hj hid)
          rw [hmemSource]
          exact or_iff_left hyo

/-- Recording a search result stamps the listed observations and their canonical jobs. -/
theorem seenAt_touchSeen {source : String} {sourceJobIds : List String} :
    SeenAt c (touchSeen c source sourceJobIds t).1 t := by
  unfold touchSeen touchSourcesSeen
  split
  · exact SeenAt.refl c t
  · set ids := sourceJobIds.eraseDups
    constructor
    · intro x hx
      obtain ⟨o, ho, rfl⟩ := mem_updateWhere.mp hx
      split
      · exact .again o ho rfl rfl rfl rfl (Or.inl rfl)
      · exact .kept ho
    · intro o ho
      refine ⟨_, mem_updateWhere_of_mem ho, ?_⟩
      split <;> exact ⟨rfl, rfl, rfl⟩
    · intro x hx
      obtain ⟨j, hj, rfl⟩ := mem_updateWhere.mp hx
      by_cases hlisted : j.id ∈ (c.observations.filter (isListed source ids)).map (·.jobId)
      · rw [if_pos (by simpa using hlisted)]
        obtain ⟨o, ho, hojob⟩ := List.mem_map.mp hlisted
        obtain ⟨ho, holisted⟩ := List.mem_filter.mp ho
        refine .again j hj rfl rfl rfl ⟨_, mem_updateWhere_of_mem ho, ?_⟩
        rw [if_pos holisted]
        exact ⟨hojob, rfl⟩
      · rw [if_neg (by simpa using hlisted)]
        have hunlisted : ∀ o ∈ c.observations, o.jobId = j.id → isListed source ids o = false := by
          intro o ho hojob
          by_contra hyes
          have hyes : isListed source ids o = true := by simpa using hyes
          exact hlisted (List.mem_map.mpr ⟨o, List.mem_filter.mpr ⟨ho, hyes⟩, hojob⟩)
        refine .kept hj fun y hy => ?_
        constructor
        · intro hmem
          obtain ⟨o, ho, heq⟩ := mem_updateWhere.mp hmem
          have hojob : o.jobId = j.id := by
            rw [← hy, ← heq]
            split <;> rfl
          rw [hunlisted o ho hojob] at heq
          exact heq ▸ ho
        · intro hmem
          have hmoved := mem_updateWhere_of_mem (p := isListed source ids)
            (f := fun o => { o with lastSeenAt := t, isActive := true }) hmem
          rwa [hunlisted y hmem hy] at hmoved

/-- A call at time {lit}`t` has the effect of such a call. -/
theorem seenAt_of_step (hgraph : Graph c) (hclock : op.clock = some t)
    (h : step rt c op = some c') : SeenAt c c' t := by
  cases op with
  | ingest job observedAt choice =>
      cases hclock
      obtain ⟨⟨_, result⟩, hingest, rfl⟩ := Option.map_eq_some_iff.mp h
      exact seenAt_of_ingested hgraph (ingested_of_ingest hingest)
  | touchSeen source sourceJobIds observedAt =>
      cases hclock
      cases h
      exact seenAt_touchSeen
  | deactivateStaleSources => contradiction

/-! ## One call -/

theorem SeenAt.until (h : SeenAt c c' t) (huntil : SeenUntil c t) : SeenUntil c' t := by
  intro o' ho'
  cases h.observations o' ho' with
  | kept hold => exact huntil o' hold
  | again _ _ _ _ _ hlast _ => exact hlast.le
  | new _ _ hlast _ => exact hlast.le

theorem SeenAt.firstSeenKept (h : SeenAt c c' t) (hids : Unique (·.id) c.observations) :
    FirstSeenKept c c' := by
  intro o ho
  constructor
  · obtain ⟨o', ho', hid, _⟩ := h.stays o ho
    exact ⟨o', ho', hid⟩
  · intro o' ho' hid
    cases h.observations o' ho' with
    | kept hold => rw [hids.eq hold ho hid]
    | again x hx hxid _ hfirst _ _ =>
        have hxo : x = o := hids.eq hx ho (hxid.symm.trans hid)
        rw [hfirst, hxo]
    | new hnew _ _ _ => exact absurd hid.symm (hnew o ho)

/-- The earliest time of a canonical job is not after anything that has been seen. -/
theorem Timed.firstSeenAt_le (h : Timed c) (huntil : SeenUntil c t) {j : CanonicalJob}
    (hj : j ∈ c.jobs) : j.firstSeenAt ≤ t := by
  obtain ⟨o, ⟨ho, _⟩, hfirst⟩ := (h.earliest j hj).1
  obtain ⟨hscraped, hlast⟩ := h.ordered o ho
  calc
    j.firstSeenAt = o.firstSeenAt := hfirst.symm
    _ ≤ o.scrapedAt := hscraped
    _ ≤ o.lastSeenAt := hlast
    _ ≤ t := huntil o ho

/-- A call at a time after everything that has been seen keeps the timestamps in order. -/
theorem Timed.seenAt (h : Timed c) (hseen : SeenAt c c' t) (huntil : SeenUntil c t) :
    Timed c' := by
  have huntil' : SeenUntil c' t := hseen.until huntil
  constructor
  · intro o' ho'
    cases hseen.observations o' ho' with
    | kept hold => exact h.ordered o' hold
    | again o ho _ _ hfirst hlast hscraped =>
        obtain ⟨hbefore, hafter⟩ := h.ordered o ho
        have hbound : o.scrapedAt ≤ t := hafter.trans (huntil o ho)
        rw [hfirst, hlast]
        rcases hscraped with hscraped | hscraped <;> rw [hscraped]
        · exact ⟨hbefore, hbound⟩
        · exact ⟨hbefore.trans hbound, le_rfl⟩
    | new _ hfirst hlast hscraped =>
        rw [hfirst, hlast, hscraped]
        exact ⟨le_rfl, le_rfl⟩
  · intro j' hj'
    cases hseen.jobs j' hj' with
    | kept hold hsame =>
        have heq : c'.observationsOf j'.id = c.observationsOf j'.id := by
          ext o
          exact and_congr_left fun hjob => hsame o hjob
        rw [heq]
        exact h.latest j' hold
    | again j _ _ _ hlast hattained =>
        obtain ⟨o, ho, hjob, hold⟩ := hattained
        constructor
        · exact ⟨o, ⟨ho, hjob⟩, hold.trans hlast.symm⟩
        · rintro _ ⟨x, ⟨hx, _⟩, rfl⟩
          rw [hlast]
          exact huntil' x hx
    | new _ hlast hattained hall =>
        obtain ⟨o, ho, hjob⟩ := hattained
        constructor
        · exact ⟨o, ⟨ho, hjob⟩, (hall o ho hjob).2.trans hlast.symm⟩
        · rintro _ ⟨x, ⟨hx, hxjob⟩, rfl⟩
          rw [hlast]
          exact (hall x hx hxjob).2.le
  · intro j' hj'
    cases hseen.jobs j' hj' with
    | kept hold hsame =>
        have heq : c'.observationsOf j'.id = c.observationsOf j'.id := by
          ext o
          exact and_congr_left fun hjob => hsame o hjob
        rw [heq]
        exact h.earliest j' hold
    | again j hj hid hfirst _ _ =>
        obtain ⟨⟨o, ⟨ho, hojob⟩, hofirst⟩, hbound⟩ := h.earliest j hj
        obtain ⟨o', ho', _, hjob', hfirst'⟩ := hseen.stays o ho
        constructor
        · exact ⟨o', ⟨ho', hjob'.trans (hojob.trans hid.symm)⟩,
            hfirst'.trans (hofirst.trans hfirst.symm)⟩
        · rintro _ ⟨x, ⟨hx, hxjob⟩, rfl⟩
          rw [hfirst]
          cases hseen.observations x hx with
          | kept hold => exact hbound ⟨x, ⟨hold, hxjob.trans hid⟩, rfl⟩
          | again y hy _ hyjob hyfirst _ _ =>
              rw [hyfirst]
              exact hbound ⟨y, ⟨hy, hyjob.symm.trans (hxjob.trans hid)⟩, rfl⟩
          | new _ hxfirst _ _ =>
              rw [hxfirst]
              exact h.firstSeenAt_le huntil hj
    | new hfirst _ hattained hall =>
        obtain ⟨o, ho, hjob⟩ := hattained
        constructor
        · exact ⟨o, ⟨ho, hjob⟩, (hall o ho hjob).1.trans hfirst.symm⟩
        · rintro _ ⟨x, ⟨hx, hxjob⟩, rfl⟩
          rw [hfirst]
          exact (hall x hx hxjob).1.ge

/-! ## Runs -/

theorem FirstSeenKept.refl (hids : Unique (·.id) c.observations) : FirstSeenKept c c := by
  intro o ho
  refine ⟨⟨o, ho, rfl⟩, fun o' ho' hid => ?_⟩
  rw [hids.eq ho' ho hid]

theorem FirstSeenKept.trans {c₁ c₂ c₃ : Database} (h : FirstSeenKept c₁ c₂)
    (h' : FirstSeenKept c₂ c₃) : FirstSeenKept c₁ c₃ := by
  intro o ho
  obtain ⟨⟨o₂, ho₂, hid₂⟩, hsame₂⟩ := h o ho
  obtain ⟨⟨o₃, ho₃, hid₃⟩, hsame₃⟩ := h' o₂ ho₂
  refine ⟨⟨o₃, ho₃, hid₃.trans hid₂⟩, fun x hx hid => ?_⟩
  rw [hsame₃ x hx (hid.trans hid₂.symm), hsame₂ o₂ ho₂ hid₂]

theorem timed_empty : Timed empty where
  ordered := by simp [empty]
  latest := by simp [empty]
  earliest := by simp [empty]

/-- Calls that read the clock after everything that has been seen, and whose readings do not
go back, keep the timestamps in order. -/
theorem Timed.run (rt : Runtime) (hgraph : Graph c) (h : Timed c) {ops : List Op}
    (hsees : ∀ op ∈ ops, op.clock.isSome) (huntil : ∀ t ∈ ops.filterMap Op.clock, SeenUntil c t)
    (hclock : (ops.filterMap Op.clock).Pairwise (· ≤ ·)) :
    Timed (Catalogue.run rt c ops) ∧ FirstSeenKept c (Catalogue.run rt c ops) ∧
      ∀ b, SeenUntil c b → (∀ t ∈ ops.filterMap Op.clock, t ≤ b) →
        SeenUntil (Catalogue.run rt c ops) b := by
  induction ops generalizing c with
  | nil => exact ⟨h, FirstSeenKept.refl hgraph.sourceIds, fun _ hb _ => hb⟩
  | cons op ops ih =>
      obtain ⟨t, ht⟩ := Option.isSome_iff_exists.mp (hsees op List.mem_cons_self)
      have hrest : ∀ op ∈ ops, op.clock.isSome :=
        fun op hop => hsees op (List.mem_cons_of_mem _ hop)
      rw [List.filterMap_cons_some ht] at huntil hclock ⊢
      obtain ⟨hlater, hclock⟩ := List.pairwise_cons.mp hclock
      have hnow : SeenUntil c t := huntil t List.mem_cons_self
      have hbounds : ∀ b, (∀ t' ∈ t :: ops.filterMap Op.clock, t' ≤ b) →
          ∀ t' ∈ ops.filterMap Op.clock, t' ≤ b := fun b hb t' ht' =>
        hb t' (List.mem_cons_of_mem t ht')
      rw [Catalogue.run, List.foldl_cons, ← Catalogue.run]
      cases hstep : Catalogue.step rt c op with
      | none =>
          have huntil' : ∀ t' ∈ ops.filterMap Op.clock, SeenUntil c t' := fun t' ht' =>
            huntil t' (List.mem_cons_of_mem t ht')
          obtain ⟨htimed, hkept, hbound⟩ := ih hgraph h hrest huntil' hclock
          exact ⟨htimed, hkept, fun b hb hle => hbound b hb (hbounds b hle)⟩
      | some c' =>
          have hseen : SeenAt c c' t := seenAt_of_step hgraph ht hstep
          have huntil' : ∀ t' ∈ ops.filterMap Op.clock, SeenUntil c' t' := fun t' ht' o ho =>
            (hseen.until hnow o ho).trans (hlater t' ht')
          obtain ⟨htimed, hkept, hbound⟩ := ih (hgraph.step hstep).1 (h.seenAt hseen hnow)
            hrest huntil' hclock
          refine ⟨htimed, (hseen.firstSeenKept hgraph.sourceIds).trans hkept, ?_⟩
          intro b hb hle
          have hb' : SeenUntil c' b := fun o ho =>
            (hseen.until hnow o ho).trans (hle t List.mem_cons_self)
          exact hbound b hb' (hbounds b hle)

end

/-- In every state of a run of {lit}`ingest` and {lit}`touch_seen` calls whose clock does not go
back, the timestamps are in order and those of a canonical job are extremes; no later state
changes when an observation has first been seen; and {lit}`touch_seen` leaves every
{lit}`scraped_at` alone. -/
theorem freshness_timestamps (rt : Runtime) (ops more : List Op)
    (hsees : ∀ op ∈ ops ++ more, op.clock.isSome)
    (hclock : ((ops ++ more).filterMap Op.clock).Pairwise (· ≤ ·)) :
    Timed (run rt empty ops) ∧ FirstSeenKept (run rt empty ops) (run rt empty (ops ++ more)) ∧
      ∀ c source sourceJobIds observedAt,
        (touchSeen c source sourceJobIds observedAt).1.observations.map
          (fun o => (o.id, o.scrapedAt)) = c.observations.map fun o => (o.id, o.scrapedAt) := by
  rw [List.filterMap_append, List.pairwise_append] at hclock
  obtain ⟨hbefore, hafter, hacross⟩ := hclock
  have hops : ∀ op ∈ ops, op.clock.isSome := fun op hop =>
    hsees op (List.mem_append_left _ hop)
  have hmore : ∀ op ∈ more, op.clock.isSome := fun op hop =>
    hsees op (List.mem_append_right _ hop)
  have hnothing : ∀ t, SeenUntil empty t := by simp [SeenUntil, empty]
  have hgraph : Graph (run rt empty ops) := (graph_empty.run ops).1
  obtain ⟨htimed, _, hbound⟩ := timed_empty.run rt graph_empty hops
    (fun t _ => hnothing t) hbefore
  have huntil : ∀ t ∈ more.filterMap Op.clock, SeenUntil (run rt empty ops) t := fun t ht =>
    hbound t (hnothing t) fun t' ht' => hacross t' ht' t ht
  obtain ⟨_, hkept, _⟩ := htimed.run rt hgraph hmore huntil hafter
  rw [run_append]
  refine ⟨htimed, hkept, fun c source sourceJobIds observedAt => ?_⟩
  unfold touchSeen touchSourcesSeen
  split
  · rfl
  · exact map_updateWhere fun _ _ _ => rfl

/-- A listing is ingested, recorded by a search and ingested again. -/
theorem freshness_timestamps_reobserved :
    Timed (run sampleRuntime empty
      [.ingest austinListing 10 ⟨1, 2, 3, 0⟩, .touchSeen "dice" ["a1"] 20]) :=
  (freshness_timestamps sampleRuntime
    [.ingest austinListing 10 ⟨1, 2, 3, 0⟩, .touchSeen "dice" ["a1"] 20]
    [.ingest austinListing 30 ⟨4, 5, 6, 0⟩] (by decide) (by decide)).1

end Catalogue
end HireAndTech
