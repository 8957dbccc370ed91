import HireAndTech.Collection.Coordinator

/-!
# Skipped listings

`CollectionCoordinator.run` asks a collector for the listings of a target and fetches the
details of those that the legacy table does not hold recent and complete.  The others are
skipped: the run only stamps their rows.

A row of {lit}`global_jobs` can be recent and complete while the catalogue has no observation
of the listing, because the two writes of an earlier run have savepoints of their own.

Main results:

- Definition {lit}`Invocation.run`: one run.
- Theorem {lit}`observed_iff`: which listings the catalogue has observed after any history.
- Theorem {lit}`skipped_listings_tracked_iff`: when the skipped listings are tracked in both
  tables.
-/

namespace HireAndTech
namespace Collection

open Catalogue Relational Text

/-! ## Discovery -/

/-- Lightweight source result used before detail fetching. -/
structure DiscoveredSourceJob where
  source : String
  externalJobId : String
  title : String
  url : Option String := none
deriving DecidableEq, Repr

/-- Assignment to a key of a dict whose values carry their keys. -/
def setItem (d : List DiscoveredSourceJob) (c : DiscoveredSourceJob) : List DiscoveredSourceJob :=
  if c.externalJobId ∈ d.map (·.externalJobId) then put (·.externalJobId) c d else d ++ [c]

/-- `{candidate.external_job_id: candidate for candidate in candidates}.values()`. -/
def uniqueCandidates (candidates : List DiscoveredSourceJob) : List DiscoveredSourceJob :=
  candidates.foldl setItem []

/-- Six hours. -/
def refreshPeriod : Time :=
  6 * 3600 * 1000000

/-- `_has_complete_core_details`. -/
def hasCompleteCoreDetails (job : GlobalJob) : Bool :=
  hasText job.company && hasText job.location && hasText job.jobUrl && hasText job.description &&
    hasText job.employmentType && job.postedAt.isSome

/-- The payload of an observation is neither empty nor a stub of the migration. -/
def isDetailFetched (o : JobSourceObservation) : Bool :=
  !o.rawData.isEmpty && "legacy_global_job_id" ∉ o.rawData.map (·.1)

/-- `get_existing_by_external_ids`, read at one id. -/
def getExistingByExternalIds (t : LegacyTable) (source : String) (externalIds : List String)
    (id : String) : Option GlobalJob :=
  (t.rows.filter fun g => g.source = source && g.externalJobId ∈ externalIds).find?
    (·.externalJobId = id)

/-- `detail_fetched_by_source_id`, read at one id with the default {lean}`false`. -/
def detailFetchedBySourceId (c : Database) (source : String) (sourceJobIds : List String)
    (id : String) : Bool :=
  ((c.observations.filter (isListed source sourceJobIds)).find? (·.sourceJobId = id)).any
    isDetailFetched

/-- An update of columns that are no keys. -/
def LegacyTable.updateWhere (t : LegacyTable) (p : GlobalJob → Bool) (f : GlobalJob → GlobalJob)
    (hid : ∀ g, (f g).id = g.id) (hidentity : ∀ g, (f g).identity = g.identity) : LegacyTable where
  rows := Relational.updateWhere p f t.rows
  ids := t.ids.updateWhere fun g _ _ => hid g
  identities := t.identities.updateWhere fun g _ _ => hidentity g

/-- The row of a listing that a search has shown. -/
def seenRow (seenAt : Time) (g : GlobalJob) : GlobalJob :=
  { g with
    lastSeenAt := seenAt
    isActive := true }

theorem seenRow_id (seenAt : Time) (g : GlobalJob) : (seenRow seenAt g).id = g.id :=
  rfl

theorem seenRow_identity (seenAt : Time) (g : GlobalJob) :
    (seenRow seenAt g).identity = g.identity :=
  rfl

/-- `touch_seen` of the legacy table. -/
def touchSeenLegacy (t : LegacyTable) (source : String) (externalIds : List String)
    (seenAt : Time) : LegacyTable :=
  LegacyTable.updateWhere t (fun g => g.source = source && g.externalJobId ∈ externalIds)
    (seenRow seenAt) (seenRow_id seenAt) (seenRow_identity seenAt)

/-! ## One run -/

/-- A search of a collector with what it returns, what the detail pages give, and the clock
readings of the run.  A fetch that raises gives {lean}`none`. -/
structure Discovery where
  source : JobSource
  candidates : List DiscoveredSourceJob
  fetchDetails : List DiscoveredSourceJob → Option (List Item)
  started : Time
  now : Time
  legacySeenAt : Time
  canonicalSeenAt : Time
  finished : Time

namespace Discovery

variable (d : Discovery) (s : Stores)

/-- The ids of the listings that the search has shown. -/
def ids : List String :=
  (uniqueCandidates d.candidates).map (·.externalJobId)

/-- The test of one id. -/
def isRecent (id : String) : Bool :=
  (getExistingByExternalIds s.legacy d.source.value d.ids id).any fun existing =>
    d.now ≤ existing.scrapedAt + refreshPeriod &&
      (hasCompleteCoreDetails existing ||
        detailFetchedBySourceId s.catalogue d.source.value d.ids id)

/-- `recent_ids`. -/
def recentIds : List String :=
  d.ids.filter (d.isRecent s)

/-- `detail_candidates`. -/
def detailCandidates : List DiscoveredSourceJob :=
  (uniqueCandidates d.candidates).filter fun candidate =>
    candidate.externalJobId ∉ d.recentIds s

/-- The tables when the details are fetched. -/
def touched : Stores :=
  if (d.recentIds s).isEmpty then s
  else
    { legacy := touchSeenLegacy s.legacy d.source.value (d.recentIds s) d.legacySeenAt
      catalogue := (touchSeen s.catalogue d.source.value (d.recentIds s) d.canonicalSeenAt).1 }

/-- The clock readings of a run that stamps rows. -/
def readings (rawJobs : List Item) : List Time :=
  d.legacySeenAt :: d.canonicalSeenAt :: rawJobs.flatMap fun item => [item.now, item.observedAt]

end Discovery

/-- One call of the coordinator: with a collector that returns listings at once, or with one
that separates the search from the details. -/
inductive Invocation
  | collect (source : JobSource) (rawJobs : List Item) (started finished : Time)
  | discover (d : Discovery)

variable (env : Platform)

/-- `run` with a collector that separates the search from the details. -/
def Discovery.run (d : Discovery) (s : Stores) : Option (CoordinatorResult × Stores) :=
  (d.fetchDetails (d.detailCandidates s)).map fun rawJobs =>
    let (result, s') := persistRawJobs env d.source rawJobs d.started d.finished (d.touched s)
    ({ result with
        jobsDiscovered := (uniqueCandidates d.candidates).length
        detailsFetched := rawJobs.length
        detailsSkippedRecent := (d.recentIds s).length }, s')

/-- `CollectionCoordinator.run`; {lean}`none` when it raises, which rolls its transaction
back. -/
def Invocation.run (s : Stores) : Invocation → Option (CoordinatorResult × Stores)
  | .collect source rawJobs started finished =>
      some (persistRawJobs env source rawJobs started finished s)
  | .discover d => d.run env s

/-- The tables that a call commits. -/
def Invocation.commit (s : Stores) (call : Invocation) : Stores :=
  ((call.run env s).map (·.2)).getD s

/-- The writes of a call that succeed. -/
def Invocation.parts (s : Stores) : Invocation → List Part
  | .collect source rawJobs _ _ => allSuccessfulParts env source s rawJobs
  | .discover d =>
      ((d.fetchDetails (d.detailCandidates s)).map
        (allSuccessfulParts env d.source (d.touched s))).getD []

/-- The tables after the calls. -/
def tablesAfter (s : Stores) (history : List Invocation) : Stores :=
  history.foldl (Invocation.commit env) s

/-- The writes of the calls that succeed, in their order. -/
def historyParts : Stores → List Invocation → List Part
  | _, [] => []
  | s, call :: history => call.parts env s ++ historyParts (call.commit env s) history

/-- The part is the ingestion of a listing of the identity. -/
def Part.observes (identity : String × String) : Part → Prop
  | .legacy _ _ _ => False
  | .canonical job _ _ => (job.source, job.externalJobId) = identity

/-! ## The listings that the catalogue has observed -/

/-- The catalogue has an observation of the identity. -/
def Observed (c : Database) (identity : String × String) : Prop :=
  identity ∈ c.observations.map JobSourceObservation.identity

section

variable {env} {rt : Runtime} {c c' : Database} {s s' : Stores} {job : NormalizedJob}
  {observedAt : Time} {choice : IngestChoice} {identity : String × String} {source : String}
  {part : Part} {parts : List Part}

theorem observed_iff_exists : Observed c identity ↔ ∃ o ∈ c.observations, o.identity = identity :=
  List.mem_map

/-- The ingestion of a listing observes the listing and no other. -/
theorem observed_ingested (hgraph : Graph c) (hi : Ingested rt c job observedAt choice c') :
    Observed c' identity ↔ Observed c identity ∨ (job.source, job.externalJobId) = identity := by
  unfold Observed
  cases hi with
  | reobserved c₁ o j company hsource _ _ _ _ hobservations =>
      obtain ⟨ho, hidentity⟩ := getSource_eq_some hsource
      have hmap : c'.observations.map JobSourceObservation.identity =
          c.observations.map JobSourceObservation.identity := by
        rw [hobservations]
        exact map_put hgraph.sourceIds ho rfl rfl
      rw [hmap]
      refine (or_iff_left_of_imp fun heq => ?_).symm
      rw [← heq, ← hidentity]
      exact List.mem_map_of_mem ho
  | created c₁ company _ _ _ _ _ _ _ hobservations =>
      rw [hobservations, List.map_append, List.mem_append]
      exact or_congr_right (List.mem_singleton.trans eq_comm)
  | merged c₁ company candidate _ _ _ _ _ _ hobservations =>
      rw [hobservations, List.map_append, List.mem_append]
      exact or_congr_right (List.mem_singleton.trans eq_comm)

/-- The identities of the observations do not change with their freshness. -/
theorem identity_seen (rows : List JobSourceObservation) (p : JobSourceObservation → Bool)
    (t : Time) :
    (updateWhere p (fun o => { o with lastSeenAt := t, isActive := true }) rows).map
      JobSourceObservation.identity = rows.map JobSourceObservation.identity :=
  map_updateWhere fun _ _ _ => rfl

/-- A search result observes no new listing. -/
theorem observed_touchSeen {sourceJobIds : List String} :
    Observed (touchSeen c source sourceJobIds observedAt).1 identity ↔ Observed c identity := by
  unfold Observed touchSeen touchSourcesSeen
  split
  · exact Iff.rfl
  · exact iff_of_eq (congrArg (identity ∈ ·) (identity_seen _ _ _))

/-- A write observes its listing when it is an ingestion. -/
theorem observed_apply (hgraph : Graph s.catalogue) (h : part.apply env.rt s = some s') :
    Graph s'.catalogue ∧ ∀ identity,
      (Observed s'.catalogue identity ↔
        Observed s.catalogue identity ∨ part.observes identity) := by
  cases part with
  | legacy job now id =>
      obtain ⟨result, _, rfl⟩ := Option.map_eq_some_iff.mp h
      exact ⟨hgraph, fun identity => (or_iff_left fun hfalse : False => hfalse).symm⟩
  | canonical job observedAt choice =>
      obtain ⟨catalogue, hstep, rfl⟩ := Option.map_eq_some_iff.mp h
      refine ⟨(hgraph.step hstep).1, fun identity => ?_⟩
      obtain ⟨⟨_, result⟩, hingest, rfl⟩ := Option.map_eq_some_iff.mp hstep
      exact observed_ingested hgraph (ingested_of_ingest hingest)

/-- Several writes observe the listings of their ingestions. -/
theorem observed_applyParts (hgraph : Graph s.catalogue)
    (h : applyParts env.rt s parts = some s') :
    Graph s'.catalogue ∧ ∀ identity, (Observed s'.catalogue identity ↔
      Observed s.catalogue identity ∨ ∃ part ∈ parts, part.observes identity) := by
  induction parts generalizing s with
  | nil =>
      cases h
      exact ⟨hgraph, fun identity => by simp⟩
  | cons part parts ih =>
      obtain ⟨s₁, hpart, hrest⟩ := Option.bind_eq_some_iff.mp h
      obtain ⟨hgraph₁, hobserved₁⟩ := observed_apply hgraph hpart
      obtain ⟨hgraph', hobserved'⟩ := ih hgraph₁ hrest
      refine ⟨hgraph', fun identity => ?_⟩
      rw [hobserved', hobserved₁, List.exists_mem_cons_iff, or_assoc]

/-- Stamping rows observes no new listing. -/
theorem observed_touchedTables (rt : Runtime) (d : Discovery) (hgraph : Graph s.catalogue) :
    Graph (d.touched s).catalogue ∧ ∀ identity,
      (Observed (d.touched s).catalogue identity ↔ Observed s.catalogue identity) := by
  unfold Discovery.touched
  split
  · exact ⟨hgraph, fun _ => Iff.rfl⟩
  · have hstep : step rt s.catalogue
        (.touchSeen d.source.value (d.recentIds s) d.canonicalSeenAt) =
          some (touchSeen s.catalogue d.source.value (d.recentIds s) d.canonicalSeenAt).1 := rfl
    exact ⟨(hgraph.step hstep).1, fun _ => observed_touchSeen⟩

/-- A call observes the listings that it ingests. -/
theorem observed_commit (env : Platform) (call : Invocation) (hgraph : Graph s.catalogue) :
    Graph (call.commit env s).catalogue ∧ ∀ identity,
      (Observed (call.commit env s).catalogue identity ↔
        Observed s.catalogue identity ∨ ∃ part ∈ call.parts env s, part.observes identity) := by
  cases call with
  | collect source rawJobs started finished =>
      exact observed_applyParts hgraph (foldl_persistOne env source rawJobs {} s).1
  | discover d =>
      cases hfetch : d.fetchDetails (d.detailCandidates s) with
      | none =>
          simp only [Invocation.commit, Invocation.parts, Invocation.run, Discovery.run, hfetch]
          exact ⟨hgraph, fun identity => by simp⟩
      | some rawJobs =>
          obtain ⟨hgraph₁, hobserved₁⟩ := observed_touchedTables env.rt d hgraph
          obtain ⟨hgraph', hobserved'⟩ := observed_applyParts hgraph₁
            (foldl_persistOne env d.source rawJobs {} (d.touched s)).1
          simp only [Invocation.commit, Invocation.parts, Invocation.run, Discovery.run, hfetch]
          refine ⟨hgraph', fun identity => ?_⟩
          exact (hobserved' identity).trans (or_congr_left (hobserved₁ identity))

/-- After any history the catalogue has observed the listings whose ingestion has succeeded. -/
theorem observed_iff (env : Platform) (s : Stores) (history : List Invocation)
    (hgraph : Graph s.catalogue) :
    Graph (tablesAfter env s history).catalogue ∧ ∀ identity,
      (Observed (tablesAfter env s history).catalogue identity ↔
        Observed s.catalogue identity ∨
          ∃ part ∈ historyParts env s history, part.observes identity) := by
  induction history generalizing s with
  | nil => exact ⟨hgraph, fun identity => by simp [tablesAfter, historyParts]⟩
  | cons call history ih =>
      obtain ⟨hgraph₁, hobserved₁⟩ := observed_commit env call hgraph
      obtain ⟨hgraph', hobserved'⟩ := ih (call.commit env s) hgraph₁
      refine ⟨hgraph', fun identity => ?_⟩
      have hparts : (∃ part ∈ historyParts env s (call :: history), part.observes identity) ↔
          (∃ part ∈ call.parts env s, part.observes identity) ∨
            ∃ part ∈ historyParts env (call.commit env s) history, part.observes identity := by
        simp only [historyParts, List.mem_append, or_and_right, exists_or]
      rw [hparts, ← or_assoc, ← hobserved₁]
      exact hobserved' identity

end

/-! ## Stamped rows -/

/-- The legacy row and the observation of the identity were last seen at one of the times. -/
structure SeenIn (times : List Time) (identity : String × String) (s : Stores) : Prop where
  legacy : ∃ g ∈ s.legacy.rows, g.identity = identity ∧ g.lastSeenAt ∈ times
  canonical : ∃ o ∈ s.catalogue.observations, o.identity = identity ∧ o.lastSeenAt ∈ times

/-- The clock reading of a write. -/
def Part.time : Part → Time
  | .legacy _ now _ => now
  | .canonical _ observedAt _ => observedAt

section

variable {env} {rt : Runtime} {t t' : LegacyTable} {c c' : Database} {s s' : Stores}
  {g row : GlobalJob} {job : NormalizedJob} {now observedAt : Time} {newId : UUID}
  {status : JobUpsertStatus} {choice : IngestChoice} {identity : String × String}
  {times : List Time} {part : Part} {parts : List Part}

/-- An upsert stamps the row of its listing, and keeps the other rows. -/
theorem upsert_stays (h : t.upsertWithOutcome job now newId = some (t', row, status))
    (hg : g ∈ t.rows) :
    ∃ g' ∈ t'.rows, g'.identity = g.identity ∧ (g' = g ∨ g'.lastSeenAt = now) := by
  unfold LegacyTable.upsertWithOutcome at h
  split at h
  · obtain ⟨table, hinsert, heq⟩ := Option.map_eq_some_iff.mp h
    cases heq
    unfold LegacyTable.insert at hinsert
    split at hinsert
    · cases hinsert
      exact ⟨g, List.mem_append_left _ hg, rfl, Or.inl rfl⟩
    · contradiction
  · rename_i existing hget
    obtain ⟨table, hupdate, heq⟩ := Option.map_eq_some_iff.mp h
    cases heq
    obtain ⟨hmem, hidentity⟩ := LegacyTable.get_eq_some hget
    have hrow : (mergeValues existing (incomingValues newId job now)).identity =
        existing.identity := hidentity.symm
    have hkey : existing.id = (mergeValues existing (incomingValues newId job now)).id := rfl
    unfold LegacyTable.update at hupdate
    split at hupdate
    · cases hupdate
      by_cases hsame : g = existing
      · subst hsame
        exact ⟨_, mem_put_self hg rfl, hrow, Or.inr rfl⟩
      · exact ⟨g, (mem_put t.ids hmem hkey).mpr (Or.inr ⟨hg, hsame⟩), rfl, Or.inl rfl⟩
    · contradiction

/-- The ingestion of a listing stamps its observation, and keeps the others. -/
theorem ingested_stays (hgraph : Graph c) (hi : Ingested rt c job observedAt choice c')
    {o : JobSourceObservation} (ho : o ∈ c.observations) :
    ∃ o' ∈ c'.observations, o'.identity = o.identity ∧ (o' = o ∨ o'.lastSeenAt = observedAt) := by
  cases hi with
  | reobserved c₁ existing j company hsource _ _ _ _ hobservations =>
      obtain ⟨hmem, _⟩ := getSource_eq_some hsource
      have hkey : existing.id = (refreshedSource existing job observedAt
          (existing.contentHash ≠ job.contentHash)).id := rfl
      rw [hobservations]
      by_cases hsame : o = existing
      · subst hsame
        exact ⟨_, mem_put_self ho rfl, rfl, Or.inr rfl⟩
      · exact ⟨o, (mem_put hgraph.sourceIds hmem hkey).mpr (Or.inr ⟨ho, hsame⟩), rfl, Or.inl rfl⟩
  | created c₁ company _ _ _ _ _ _ _ hobservations =>
      rw [hobservations]
      exact ⟨o, List.mem_append_left _ ho, rfl, Or.inl rfl⟩
  | merged c₁ company candidate _ _ _ _ _ _ hobservations =>
      rw [hobservations]
      exact ⟨o, List.mem_append_left _ ho, rfl, Or.inl rfl⟩

/-- A write at one of the times leaves stamped rows stamped. -/
theorem SeenIn.apply (h : SeenIn times identity s) (hgraph : Graph s.catalogue)
    (hpart : part.apply env.rt s = some s') (htime : part.time ∈ times) :
    SeenIn times identity s' := by
  obtain ⟨g, hg, hgid, hgseen⟩ := h.legacy
  obtain ⟨o, ho, hoid, hoseen⟩ := h.canonical
  cases part with
  | legacy job now id =>
      obtain ⟨⟨legacy, row, status⟩, hupsert, rfl⟩ := Option.map_eq_some_iff.mp hpart
      obtain ⟨g', hg', hid, hseen⟩ := upsert_stays hupsert hg
      refine ⟨⟨g', hg', hid.trans hgid, ?_⟩, h.canonical⟩
      rcases hseen with rfl | hseen
      · exact hgseen
      · rw [hseen]
        exact htime
  | canonical job observedAt choice =>
      obtain ⟨catalogue, hstep, rfl⟩ := Option.map_eq_some_iff.mp hpart
      obtain ⟨⟨_, result⟩, hingest, rfl⟩ := Option.map_eq_some_iff.mp hstep
      obtain ⟨o', ho', hid, hseen⟩ := ingested_stays hgraph (ingested_of_ingest hingest) ho
      refine ⟨h.legacy, ⟨o', ho', hid.trans hoid, ?_⟩⟩
      rcases hseen with rfl | hseen
      · exact hoseen
      · rw [hseen]
        exact htime

theorem SeenIn.applyParts (h : SeenIn times identity s) (hgraph : Graph s.catalogue)
    (hparts : applyParts env.rt s parts = some s') (htimes : ∀ part ∈ parts, part.time ∈ times) :
    SeenIn times identity s' := by
  induction parts generalizing s with
  | nil =>
      cases hparts
      exact h
  | cons part parts ih =>
      obtain ⟨s₁, hpart, hrest⟩ := Option.bind_eq_some_iff.mp hparts
      have hseen : SeenIn times identity s₁ :=
        h.apply hgraph hpart (htimes part List.mem_cons_self)
      exact ih hseen (observed_apply hgraph hpart).1 hrest fun part hmem =>
        htimes part (List.mem_cons_of_mem _ hmem)

/-- The successful parts of a job read the clock for the job. -/
theorem time_mem_successfulParts {source : JobSource} {item : Item}
    (h : part ∈ successfulParts env source s item) :
    part.time ∈ [item.now, item.observedAt] := by
  unfold successfulParts at h
  split at h
  · simp at h
  · dsimp only at h
    split at h
    · simp at h
    · split at h
      · simp at h
      · split at h
        · rw [List.mem_singleton] at h
          subst h
          exact List.mem_cons_self
        · rw [List.mem_cons, List.mem_singleton] at h
          rcases h with rfl | rfl
          · exact List.mem_cons_self
          · exact List.mem_cons_of_mem _ List.mem_cons_self

theorem time_mem_allSuccessfulParts {source : JobSource} {items : List Item}
    (h : part ∈ allSuccessfulParts env source s items) :
    part.time ∈ items.flatMap fun item => [item.now, item.observedAt] := by
  induction items generalizing s with
  | nil => simp [allSuccessfulParts] at h
  | cons item items ih =>
      rw [allSuccessfulParts, List.mem_append] at h
      rw [List.flatMap_cons, List.mem_append]
      rcases h with h | h
      · exact Or.inl (time_mem_successfulParts h)
      · exact Or.inr (ih h)

end

/-! ## The partition of the discovered ids -/

section

variable {d : Discovery} {s : Stores} {listings : List DiscoveredSourceJob}
  {c : DiscoveredSourceJob} {id : String}

theorem ids_setItem :
    (setItem listings c).map (·.externalJobId) =
      if c.externalJobId ∈ listings.map (·.externalJobId) then listings.map (·.externalJobId)
      else listings.map (·.externalJobId) ++ [c.externalJobId] := by
  unfold setItem
  split
  · exact map_updateWhere fun x _ hx => (of_decide_eq_true hx).symm
  · rw [List.map_append, List.map_singleton]

theorem nodup_ids_setItem (h : (listings.map (·.externalJobId)).Nodup) :
    ((setItem listings c).map (·.externalJobId)).Nodup := by
  rw [ids_setItem]
  split
  · exact h
  · rename_i hnew
    exact List.nodup_append.mpr ⟨h, List.nodup_singleton _, fun x hx y hy hxy =>
      hnew (List.mem_singleton.mp hy ▸ hxy ▸ hx)⟩

theorem mem_ids_setItem :
    id ∈ (setItem listings c).map (·.externalJobId) ↔
      id ∈ listings.map (·.externalJobId) ∨ id = c.externalJobId := by
  rw [ids_setItem]
  split
  · rename_i hold
    exact (or_iff_left_of_imp fun heq => heq ▸ hold).symm
  · rw [List.mem_append, List.mem_singleton]

/-- The dict has every id once. -/
theorem ids_foldl_setItem (candidates : List DiscoveredSourceJob)
    (h : (listings.map (·.externalJobId)).Nodup) :
    ((candidates.foldl setItem listings).map (·.externalJobId)).Nodup ∧
      ∀ id, (id ∈ (candidates.foldl setItem listings).map (·.externalJobId) ↔
        id ∈ listings.map (·.externalJobId) ∨ ∃ c ∈ candidates, id = c.externalJobId) := by
  induction candidates generalizing listings with
  | nil => exact ⟨h, fun id => by simp⟩
  | cons c candidates ih =>
      obtain ⟨hnodup, hmem⟩ := ih (nodup_ids_setItem (c := c) h)
      refine ⟨hnodup, fun id => ?_⟩
      rw [List.exists_mem_cons_iff, ← or_assoc, ← mem_ids_setItem]
      exact hmem id

theorem Discovery.nodup_ids : d.ids.Nodup :=
  (ids_foldl_setItem d.candidates unique_nil).1

theorem Discovery.mem_ids : id ∈ d.ids ↔ ∃ c ∈ d.candidates, id = c.externalJobId := by
  have hmem := (ids_foldl_setItem d.candidates unique_nil).2 id
  exact hmem.trans (or_iff_right List.not_mem_nil)

theorem Discovery.mem_recentIds : id ∈ d.recentIds s ↔ id ∈ d.ids ∧ d.isRecent s id = true :=
  List.mem_filter

/-- The details of an id are fetched once or not at all. -/
theorem Discovery.count_detailCandidates (hid : id ∈ d.ids) :
    ((d.detailCandidates s).map (·.externalJobId)).count id =
      if id ∈ d.recentIds s then 0 else 1 := by
  have hmap : (d.detailCandidates s).map (·.externalJobId) =
      d.ids.filter fun id => id ∉ d.recentIds s := by
    rw [ids, List.filter_map]
    rfl
  have hnodup : ((d.detailCandidates s).map (·.externalJobId)).Nodup := by
    rw [hmap]
    exact d.nodup_ids.filter _
  split
  · rename_i hrecent
    rw [List.count_eq_zero, hmap]
    simp [hrecent]
  · rename_i hrecent
    refine List.count_eq_one_of_mem hnodup ?_
    rw [hmap]
    simp [hrecent, hid]

end

/-! ## The test of one id -/

section

variable {α : Type} {xs : List α} {p q : α → Bool}

/-- A search for a row that is unique. -/
theorem any_find?_iff (h : ∀ x ∈ xs, ∀ y ∈ xs, p x = true → p y = true → x = y) :
    (xs.find? p).any q = true ↔ ∃ x ∈ xs, p x = true ∧ q x = true := by
  cases hfind : xs.find? p with
  | none =>
      rw [List.find?_eq_none] at hfind
      simp only [Option.any_none, Bool.false_eq_true, false_iff]
      rintro ⟨x, hx, hp, _⟩
      exact hfind x hx hp
  | some y =>
      have hy : y ∈ xs := List.mem_of_find?_eq_some hfind
      have hpy : p y = true := List.find?_some hfind
      rw [Option.any_some]
      constructor
      · intro hq
        exact ⟨y, hy, hpy, hq⟩
      · rintro ⟨x, hx, hpx, hq⟩
        rwa [h y hy x hx hpy hpx]

end

section

variable {d : Discovery} {s : Stores} {id : String}

/-- The catalogue has a payload of the details of the listing. -/
def DetailFetched (c : Database) (identity : String × String) : Prop :=
  ∃ o ∈ c.observations, o.identity = identity ∧ isDetailFetched o = true

theorem detailFetchedBySourceId_iff {c : Database} {source : String} {ids : List String}
    (hgraph : Graph c) (hid : id ∈ ids) :
    detailFetchedBySourceId c source ids id = true ↔ DetailFetched c (source, id) := by
  have hlisted : ∀ o : JobSourceObservation, o ∈ c.observations.filter (isListed source ids) ∧
      o.sourceJobId = id ↔ o ∈ c.observations ∧ o.identity = (source, id) := by
    intro o
    simp only [List.mem_filter, isListed, JobSourceObservation.identity, Bool.and_eq_true,
      decide_eq_true_eq, Prod.mk.injEq]
    constructor
    · rintro ⟨⟨ho, hsource, _⟩, hoid⟩
      exact ⟨ho, hsource, hoid⟩
    · rintro ⟨ho, hsource, hoid⟩
      exact ⟨⟨ho, hsource, hoid ▸ hid⟩, hoid⟩
  rw [detailFetchedBySourceId, any_find?_iff]
  · constructor
    · rintro ⟨o, ho, hoid, hdetail⟩
      obtain ⟨ho, hidentity⟩ := (hlisted o).mp ⟨ho, of_decide_eq_true hoid⟩
      exact ⟨o, ho, hidentity, hdetail⟩
    · rintro ⟨o, ho, hidentity, hdetail⟩
      obtain ⟨ho, hoid⟩ := (hlisted o).mpr ⟨ho, hidentity⟩
      exact ⟨o, ho, decide_eq_true hoid, hdetail⟩
  · intro x hx y hy hxid hyid
    obtain ⟨hx, hxidentity⟩ := (hlisted x).mp ⟨hx, of_decide_eq_true hxid⟩
    obtain ⟨hy, hyidentity⟩ := (hlisted y).mp ⟨hy, of_decide_eq_true hyid⟩
    exact hgraph.identities.eq hx hy (hxidentity.trans hyidentity.symm)

/-- The legacy row of the listing has been scraped within the period, and it is complete or
the catalogue has a payload of its details. -/
def Discovery.RecentRow (d : Discovery) (s : Stores) (id : String) : Prop :=
  ∃ g ∈ s.legacy.rows, g.identity = (d.source.value, id) ∧ d.now ≤ g.scrapedAt + refreshPeriod ∧
    (hasCompleteCoreDetails g = true ∨ DetailFetched s.catalogue (d.source.value, id))

theorem Discovery.isRecent_iff (hgraph : Graph s.catalogue) (hid : id ∈ d.ids) :
    d.isRecent s id = true ↔ d.RecentRow s id := by
  have hlisted : ∀ g : GlobalJob,
      g ∈ (s.legacy.rows.filter fun g => g.source = d.source.value && g.externalJobId ∈ d.ids) ∧
        g.externalJobId = id ↔ g ∈ s.legacy.rows ∧ g.identity = (d.source.value, id) := by
    intro g
    simp only [List.mem_filter, GlobalJob.identity, Bool.and_eq_true, decide_eq_true_eq,
      Prod.mk.injEq]
    constructor
    · rintro ⟨⟨hg, hsource, _⟩, hgid⟩
      exact ⟨hg, hsource, hgid⟩
    · rintro ⟨hg, hsource, hgid⟩
      exact ⟨⟨hg, hsource, hgid ▸ hid⟩, hgid⟩
  have htest : ∀ g : GlobalJob, (d.now ≤ g.scrapedAt + refreshPeriod &&
      (hasCompleteCoreDetails g ||
        detailFetchedBySourceId s.catalogue d.source.value d.ids id)) = true ↔
      d.now ≤ g.scrapedAt + refreshPeriod ∧ (hasCompleteCoreDetails g = true ∨
        DetailFetched s.catalogue (d.source.value, id)) := by
    intro g
    rw [Bool.and_eq_true, decide_eq_true_eq, Bool.or_eq_true,
      detailFetchedBySourceId_iff hgraph hid]
  rw [isRecent, getExistingByExternalIds, any_find?_iff]
  · constructor
    · rintro ⟨g, hg, hgid, hrecent⟩
      obtain ⟨hg, hidentity⟩ := (hlisted g).mp ⟨hg, of_decide_eq_true hgid⟩
      exact ⟨g, hg, hidentity, (htest g).mp hrecent⟩
    · rintro ⟨g, hg, hidentity, hrecent⟩
      obtain ⟨hg, hgid⟩ := (hlisted g).mpr ⟨hg, hidentity⟩
      exact ⟨g, hg, decide_eq_true hgid, (htest g).mpr hrecent⟩
  · intro x hx y hy hxid hyid
    obtain ⟨hx, hxidentity⟩ := (hlisted x).mp ⟨hx, of_decide_eq_true hxid⟩
    obtain ⟨hy, hyidentity⟩ := (hlisted y).mp ⟨hy, of_decide_eq_true hyid⟩
    exact s.legacy.identities.eq hx hy (hxidentity.trans hyidentity.symm)

/-- A skipped listing that the catalogue has observed is stamped in both tables. -/
theorem Discovery.seenIn_touched (hid : id ∈ d.recentIds s) (hrecent : d.RecentRow s id)
    (hobserved : Observed s.catalogue (d.source.value, id)) :
    SeenIn [d.legacySeenAt, d.canonicalSeenAt] (d.source.value, id) (d.touched s) := by
  obtain ⟨g, hg, hgid, _⟩ := hrecent
  obtain ⟨o, ho, hoid⟩ := observed_iff_exists.mp hobserved
  obtain ⟨hgsource, hgjob⟩ := Prod.mk.inj hgid
  obtain ⟨hosource, hojob⟩ := Prod.mk.inj hoid
  have hnonempty : (d.recentIds s).isEmpty = false :=
    List.isEmpty_eq_false_iff_exists_mem.mpr ⟨id, hid⟩
  rw [touched, if_neg (by simp [hnonempty])]
  constructor
  · refine ⟨_, mem_updateWhere_of_mem hg, ?_⟩
    rw [if_pos (by simp [hgsource, hgjob, hid])]
    exact ⟨hgid, List.mem_cons_self⟩
  · have herase : (d.recentIds s).eraseDups.isEmpty = false :=
      List.isEmpty_eq_false_iff_exists_mem.mpr ⟨id, by simpa using hid⟩
    dsimp only
    rw [touchSeen, touchSourcesSeen, if_neg (by simp [herase])]
    refine ⟨_, mem_updateWhere_of_mem ho, ?_⟩
    rw [if_pos (by simp [isListed, hosource, hojob, hid])]
    exact ⟨hoid, List.mem_cons_of_mem _ List.mem_cons_self⟩

end

/-! ## Skipped listings -/

/-- The id is fetched once and not skipped, or it is skipped and not fetched; a skipped listing
has a recent row, and both of its rows are stamped at one of the times. -/
def Accounted (d : Discovery) (s s' : Stores) (times : List Time) (id : String) : Prop :=
  (((d.detailCandidates s).map (·.externalJobId)).count id = 1 ∧ id ∉ d.recentIds s) ∨
    (((d.detailCandidates s).map (·.externalJobId)).count id = 0 ∧ id ∈ d.recentIds s ∧
      d.RecentRow s id ∧ SeenIn times (d.source.value, id) s')

/-- The discovered ids are accounted for when the details are fetched, and in the tables that
the run commits. -/
def Discovery.Tracks (d : Discovery) (s : Stores) : Prop :=
  (∀ c ∈ d.candidates,
      Accounted d s (d.touched s) [d.legacySeenAt, d.canonicalSeenAt] c.externalJobId) ∧
    ∀ rawJobs, d.fetchDetails (d.detailCandidates s) = some rawJobs → ∀ c ∈ d.candidates,
      Accounted d s (Invocation.commit env s (.discover d)) (d.readings rawJobs) c.externalJobId

section

variable {env} {d : Discovery} {s s' : Stores} {times : List Time} {id : String}

/-- An id whose skipped listing the catalogue has observed is accounted for. -/
theorem accounted_of_seenIn (hgraph : Graph s.catalogue) (hid : id ∈ d.ids)
    (hseen : id ∈ d.recentIds s → SeenIn times (d.source.value, id) s') :
    Accounted d s s' times id := by
  unfold Accounted
  rw [d.count_detailCandidates hid]
  by_cases hrecent : id ∈ d.recentIds s
  · have hrow : d.RecentRow s id := (d.isRecent_iff hgraph hid).mp (d.mem_recentIds.mp hrecent).2
    exact Or.inr ⟨if_pos hrecent, hrecent, hrow, hseen hrecent⟩
  · exact Or.inl ⟨if_neg hrecent, hrecent⟩

/-- When the catalogue has observed every skipped listing, the run tracks them. -/
theorem Discovery.tracks_of_observed (hgraph : Graph s.catalogue)
    (hobserved : ∀ id ∈ d.recentIds s, Observed s.catalogue (d.source.value, id)) :
    d.Tracks env s := by
  have htouched : ∀ id ∈ d.recentIds s,
      SeenIn [d.legacySeenAt, d.canonicalSeenAt] (d.source.value, id) (d.touched s) := by
    intro id hid
    obtain ⟨hids, hrecent⟩ := d.mem_recentIds.mp hid
    exact d.seenIn_touched hid ((d.isRecent_iff hgraph hids).mp hrecent) (hobserved id hid)
  constructor
  · intro c hc
    exact accounted_of_seenIn hgraph (d.mem_ids.mpr ⟨c, hc, rfl⟩) (htouched _)
  · intro rawJobs hfetch c hc
    refine accounted_of_seenIn hgraph (d.mem_ids.mpr ⟨c, hc, rfl⟩) fun hrecent => ?_
    have hcommit : Invocation.commit env s (.discover d) =
        (rawJobs.foldl (persistOne env d.source) ({}, d.touched s)).2 := by
      simp only [Invocation.commit, Invocation.run, Discovery.run, hfetch]
      rfl
    rw [hcommit]
    have hstamped : SeenIn (d.readings rawJobs) (d.source.value, c.externalJobId)
        (d.touched s) := by
      obtain ⟨⟨g, hg, hgid, hgseen⟩, o, ho, hoid, hoseen⟩ := htouched _ hrecent
      have hmem : ∀ t ∈ [d.legacySeenAt, d.canonicalSeenAt], t ∈ d.readings rawJobs := by
        intro t ht
        simp only [List.mem_cons, List.not_mem_nil, or_false] at ht
        rcases ht with rfl | rfl <;> simp [readings]
      exact ⟨⟨g, hg, hgid, hmem _ hgseen⟩, o, ho, hoid, hmem _ hoseen⟩
    refine hstamped.applyParts (observed_touchedTables env.rt d hgraph).1
      (foldl_persistOne env d.source rawJobs {} (d.touched s)).1 fun part hpart => ?_
    exact List.mem_cons_of_mem _ (List.mem_cons_of_mem _ (time_mem_allSuccessfulParts hpart))

/-- A run that tracks its listings skips only listings that the catalogue has observed. -/
theorem Discovery.observed_of_tracks (htracks : d.Tracks env s) (hgraph : Graph s.catalogue)
    (hid : id ∈ d.recentIds s) : Observed s.catalogue (d.source.value, id) := by
  obtain ⟨c, hc, rfl⟩ := d.mem_ids.mp (d.mem_recentIds.mp hid).1
  rcases htracks.1 c hc with ⟨_, hfetched⟩ | ⟨_, _, _, hseen⟩
  · exact absurd hid hfetched
  · obtain ⟨o, ho, hoid, _⟩ := hseen.canonical
    exact ((observed_touchedTables env.rt d hgraph).2 _).mp (observed_iff_exists.mpr ⟨o, ho, hoid⟩)

end

/-- After any history, a run tracks the listings that it skips exactly when every discovered
listing with a recent and complete legacy row has been ingested before. -/
theorem skipped_listings_tracked_iff (history : List Invocation) (d : Discovery) :
    d.Tracks env (tablesAfter env emptyStores history) ↔
      ∀ c ∈ d.candidates, ∀ g ∈ (tablesAfter env emptyStores history).legacy.rows,
        g.identity = (d.source.value, c.externalJobId) → d.now ≤ g.scrapedAt + refreshPeriod →
          hasCompleteCoreDetails g = true →
            ∃ part ∈ historyParts env emptyStores history,
              part.observes (d.source.value, c.externalJobId) := by
  obtain ⟨hgraph, hobserved⟩ := observed_iff env emptyStores history graph_empty
  have hempty : ∀ identity, Observed emptyStores.catalogue identity ↔ False := by
    simp [Observed, emptyStores, empty]
  simp only [hempty, false_or] at hobserved
  constructor
  · intro htracks c hc g hg hidentity hscraped hcomplete
    have hid : c.externalJobId ∈ d.ids := d.mem_ids.mpr ⟨c, hc, rfl⟩
    have hrecent : d.isRecent _ c.externalJobId = true :=
      (d.isRecent_iff hgraph hid).mpr ⟨g, hg, hidentity, hscraped, Or.inl hcomplete⟩
    exact (hobserved _).mp
      (d.observed_of_tracks htracks hgraph (d.mem_recentIds.mpr ⟨hid, hrecent⟩))
  · intro hwritten
    refine d.tracks_of_observed hgraph fun id hid => ?_
    obtain ⟨hids, hrecent⟩ := d.mem_recentIds.mp hid
    obtain ⟨g, hg, hidentity, hscraped, hcomplete | ⟨o, ho, hoid, _⟩⟩ :=
      (d.isRecent_iff hgraph hids).mp hrecent
    · obtain ⟨c, hc, rfl⟩ := d.mem_ids.mp hids
      exact (hobserved _).mpr (hwritten c hc g hg hidentity hscraped hcomplete)
    · exact observed_iff_exists.mpr ⟨o, ho, hoid⟩

/-- A parsing package that keeps URLs, with the digest of one listing. -/
def urlParsing : Parsing :=
  { titleParsing with normalizeUrl := id }

/-- A complete listing whose canonical write raises. -/
def completeItem : Item where
  raw :=
    { source := "dice"
      externalJobId := "d1"
      title := "Backend Engineer"
      company := some "Acme"
      location := some "Austin, TX"
      url := some "https://www.dice.com/job-detail/d1"
      description := some "APIs"
      employmentType := some "FULL_TIME"
      postedAt := some ⟨5, some 0⟩ }
  normalizationRaises := false
  now := 10
  legacyId := 1
  legacyRaises := false
  legacyLeft := emptyStores
  observedAt := 10
  choice := ⟨2, 3, 4, 0⟩
  canonicalRaises := true
  canonicalLeft := emptyStores

/-- A search that shows the listing at the given time. -/
def searchAt (now : Time) : Discovery where
  source := .dice
  candidates := [{ source := "dice", externalJobId := "d1", title := "Backend Engineer" }]
  fetchDetails candidates := some (candidates.map fun _ => completeItem)
  started := now
  now := now
  legacySeenAt := now
  canonicalSeenAt := now
  finished := now

/-- A listing whose canonical write has failed is skipped by the next run, and the catalogue
still has no observation of it. -/
theorem skipped_without_observation :
    ¬(searchAt 20).Tracks ⟨.ascii, urlParsing, undatedRuntime⟩
      (tablesAfter ⟨.ascii, urlParsing, undatedRuntime⟩ emptyStores [.discover (searchAt 9)]) := by
  intro htracks
  have hnone : ((searchAt 20).touched
      (tablesAfter ⟨.ascii, urlParsing, undatedRuntime⟩ emptyStores
        [.discover (searchAt 9)])).catalogue.observations = [] := by
    decide
  rcases htracks.1 _ List.mem_cons_self with ⟨_, hfetched⟩ | ⟨_, _, _, hseen⟩
  · revert hfetched
    decide
  · obtain ⟨o, ho, _⟩ := hseen.canonical
    rw [hnone] at ho
    exact absurd ho List.not_mem_nil

end Collection
end HireAndTech
