import HireAndTech.Catalogue.Transactions

/-!
# An ingestion beside a deactivation

One call ingests a listing that is in the catalogue, and one call deactivates the stale
observations of its source.  The deactivation and the flushes of the ingestion write the
same rows: an observation and its job.

The ingestion may have loaded a row as active.  Its flush then leaves the column alone, and
a deactivation that commits in between, or that takes its snapshot before the ingestion
commits, has the last word.

Main results:

- Definition {lit}`apart`: the runs in which neither call takes a row from under the other.
- Theorem {lit}`duel_sound`: the contract of the two calls.
- Theorem {lit}`activity_kept`: in such a run the refreshed observation and its job are
  active once both calls have committed.
-/

namespace HireAndTech
namespace Catalogue
namespace Concurrent

open Interleaving Prog Relational

/-! ## The two calls -/

/-- The runs of one ingestion and one deactivation of the source. -/
def duel (job : NormalizedJob) (staleThreshold safetyWindowStart : Time) :
    Regime World Cmd Choice Request where
  starts := fun i r =>
    (i = 0 && r = .ingest job) ||
      (i = 1 && r = .deactivateStaleSources job.source staleThreshold safetyWindowStart)
  allows := fun _ _ _ _ => true

/-- The calls that have loaded the row had committed when the statement began. -/
def World.readersBefore (w : World) (row : Row) (snapshot : Snapshot) : Bool :=
  w.loads.all fun load => load.2 ≠ row || load.1 ∈ snapshot.commits

/-- The runs of the two calls in which no row is loaded while it has an uncommitted version,
and none is deactivated by a statement that began before a call that has loaded it had
committed. -/
def apart (job : NormalizedJob) (staleThreshold safetyWindowStart : Time) :
    Regime World Cmd Choice Request where
  starts := (duel job staleThreshold safetyWindowStart).starts
  allows := fun w _ cmd _ =>
    match cmd with
    | .getSource source sourceJobId =>
        w.observations.uncommitted.all fun entry => entry.2.identity ≠ (source, sourceJobId)
    | .getJob id => (w.jobs.version id).isNone
    | .updateSource id (.deactivate snapshot source threshold) =>
        (w.observations.latest id).all fun o =>
          !isStale source threshold o || w.readersBefore (.source id) snapshot
    | .updateJob id (.deactivate snapshot) =>
        (w.jobs.latest id).all fun j =>
          !(JobUpdate.deactivate snapshot).applies j || w.readersBefore (.job id) snapshot
    | _ => true

/-- Once both calls have committed, the observation that the ingestion has refreshed since
the stale threshold is active, and its job is active. -/
def ActivityKept (source sourceJobId : String) (staleThreshold : Time) (w : World) : Prop :=
  0 ∈ w.commits → 1 ∈ w.commits → ∀ reading, w.readings 0 = some reading →
    staleThreshold ≤ reading →
      ∃ o j, w.committed.getSource source sourceJobId = some o ∧ o.isActive = true ∧
        w.committed.getJob o.jobId = some j ∧ j.isActive = true

/-! ## The contract -/

section

variable (job : NormalizedJob) (staleThreshold : Time) (target : JobSourceObservation)

/-- Both rows are active and nobody is about to change them. -/
structure Settled (w : World) : Prop where
  source : ∃ o, lookup (·.id) target.id w.observations.committed = some o ∧ o.isActive = true ∧
    staleThreshold ≤ o.lastSeenAt ∧ w.observations.version target.id = none
  job : ∃ j, lookup (·.id) target.jobId w.jobs.committed = some j ∧ j.isActive = true ∧
    w.jobs.version target.jobId = none

/-- Every version of the row belongs to the ingestion. -/
def OnlyIngestion {α : Type} {key : α → UUID} (t : Versioned key CallId) (id : UUID) : Prop :=
  ∀ i x, t.version id = some (i, x) → i = 0

/-- The invariant of the shared world. -/
structure DuelInv (w : World) : Prop where
  found : ∃ o, w.committed.getSource job.source job.externalJobId = some o ∧ o.id = target.id ∧
    o.jobId = target.jobId
  sameSource : ∀ id i v, w.observations.version id = some (i, v) →
    ∃ o, lookup (·.id) id w.observations.committed = some o ∧ v.identity = o.identity ∧
      v.jobId = o.jobId
  sourceLoaded : (0, .source target.id) ∈ w.loads → 0 ∉ w.commits →
    OnlyIngestion w.observations target.id
  jobLoaded : (0, .job target.jobId) ∈ w.loads → 0 ∉ w.commits →
    OnlyIngestion w.jobs target.jobId
  committedLoaded : 0 ∈ w.commits → (0, .job target.jobId) ∈ w.loads
  settled : 0 ∈ w.commits → ∀ reading, w.readings 0 = some reading → staleThreshold ≤ reading →
    Settled staleThreshold target w

/-- A snapshot that was taken after the ingestion has committed shows the observation. -/
def ShowsCommitted (snapshot : Snapshot) (w : World) : Prop :=
  (∀ i ∈ snapshot.commits, i ∈ w.commits) ∧
    (0 ∈ snapshot.commits → ∀ reading, w.readings 0 = some reading → staleThreshold ≤ reading →
      ∃ o ∈ snapshot.tables.observations, o.jobId = target.jobId ∧ o.isActive = true)

/-- What the ingestion sees when it commits. -/
structure ReadyToCommit (w : World) : Prop where
  loaded : (0, .job target.jobId) ∈ w.loads
  onlySource : OnlyIngestion w.observations target.id
  onlyJob : OnlyIngestion w.jobs target.jobId
  source : ∃ o, lookup (·.id) target.id (w.observations.visible 0) = some o ∧
    o.isActive = true ∧ w.readings 0 = some o.lastSeenAt
  job : ∃ j, lookup (·.id) target.jobId (w.jobs.visible 0) = some j ∧ j.isActive = true

/-- The circumstances in which the two calls issue their commands. -/
def DuelIssues (i : CallId) (w : World) {β : Type} : Cmd β → Prop
  | .clock => i = 0 ∧ 0 ∉ w.commits
  | .getSource source sourceJobId =>
      i = 0 ∧ (source, sourceJobId) = (job.source, job.externalJobId) ∧ 0 ∉ w.commits
  | .getJob id => i = 0 ∧ id = target.jobId ∧ 0 ∉ w.commits
  | .updateSource _ (.flush _ _) => i = 0 ∧ 0 ∉ w.commits
  | .updateSource _ (.deactivate snapshot _ threshold) =>
      i = 1 ∧ threshold = staleThreshold ∧ ShowsCommitted staleThreshold target snapshot w
  | .updateJob _ (.flush _ _) => i = 0 ∧ 0 ∉ w.commits
  | .updateJob _ (.deactivate snapshot) =>
      i = 1 ∧ ShowsCommitted staleThreshold target snapshot w
  | .updateSource _ (.seen _ _ _) | .updateJob _ (.seen _ _ _ _) | .insertJob _ |
    .insertSource _ | .findJobBySourceUrl _ _ | .findDedupCandidates _ _ => False
  | .commit => i = 0 → ReadyToCommit target w
  | _ => True

/-- What the deactivation leaves alone of a row that the ingestion has loaded. -/
structure LeavesLoaded (w w' : World) : Prop where
  loads : ∀ row, (0, row) ∈ w.loads → (0, row) ∈ w'.loads
  sources : ∀ id o, w'.observations.version id = some (0, o) ↔
    w.observations.version id = some (0, o)
  jobs : ∀ id j, w'.jobs.version id = some (0, j) ↔ w.jobs.version id = some (0, j)
  source : (0, .source target.id) ∈ w.loads → 0 ∉ w.commits →
    lookup (·.id) target.id w'.observations.committed =
      lookup (·.id) target.id w.observations.committed
  job : (0, .job target.jobId) ∈ w.loads → 0 ∉ w.commits →
    lookup (·.id) target.jobId w'.jobs.committed = lookup (·.id) target.jobId w.jobs.committed

/-- What the steps of call {lit}`i` leave alone. -/
structure DuelGuar (i : CallId) (w w' : World) : Prop where
  reading : i ≠ 0 ∨ 0 ∈ w.commits → w'.readings 0 = w.readings 0
  commits : ∀ k ∈ w.commits, k ∈ w'.commits
  uncommitted : i ≠ 0 → 0 ∉ w.commits → 0 ∉ w'.commits
  loaded : i ≠ 0 → LeavesLoaded target w w'

/-- The contract of the two calls. -/
def duelContract : Contract World Cmd Request where
  Inv := DuelInv job staleThreshold target
  Issues i _ w cmd := DuelIssues job staleThreshold target i w cmd
  Guar i _ w w' := DuelGuar target i w w'

end

/-! ## Commands keep the contract -/

section

variable {job : NormalizedJob} {staleThreshold safetyWindowStart : Time}
  {target : JobSourceObservation} {rt : Runtime} {i : CallId} {w w' : World} {β : Type}
  {cmd : Cmd β} {b : β} {ch : Choice} {r : Request}

theorem getSource_congr {c c' : Database} (h : c'.observations = c.observations)
    (source sourceJobId : String) :
    c'.getSource source sourceJobId = c.getSource source sourceJobId := by
  rw [Database.getSource, h]
  rfl

theorem getSource_identity {c : Database} {source sourceJobId : String} {o : JobSourceObservation}
    (h : c.getSource source sourceJobId = some o) : o.identity = (source, sourceJobId) := by
  have hfound := List.find?_some h
  simp only [Bool.and_eq_true, decide_eq_true_eq] at hfound
  rw [JobSourceObservation.identity, hfound.1, hfound.2]

theorem Same.duelInv (h : Same w w') (hw : DuelInv job staleThreshold target w) :
    DuelInv job staleThreshold target w' := by
  have hobservations : w'.committed.observations = w.committed.observations :=
    congrArg Versioned.committed h.observations
  constructor
  · obtain ⟨o, ho⟩ := hw.found
    exact ⟨o, by rw [getSource_congr hobservations]; exact ho⟩
  · rw [h.observations]
    exact hw.sameSource
  · rw [h.observations, h.loads, h.commits]
    exact hw.sourceLoaded
  · rw [h.jobs, h.loads, h.commits]
    exact hw.jobLoaded
  · rw [h.loads, h.commits]
    exact hw.committedLoaded
  · rw [h.commits, h.readings]
    intro hcommitted reading hreading hfresh
    obtain ⟨hsource, hjob⟩ := hw.settled hcommitted reading hreading hfresh
    constructor
    · rw [h.observations]
      exact hsource
    · rw [h.jobs]
      exact hjob

theorem Same.leavesLoaded (h : Same w w') : LeavesLoaded target w w' where
  loads row hrow := h.loads ▸ hrow
  sources id o := by rw [h.observations]
  jobs id j := by rw [h.jobs]
  source _ _ := by rw [h.observations]
  job _ _ := by rw [h.jobs]

theorem Same.duelGuar (h : Same w w') : DuelGuar target i w w' where
  reading _ := congrFun h.readings 0
  commits _ hk := h.commits ▸ hk
  uncommitted _ hk := h.commits ▸ hk
  loaded _ := h.leavesLoaded

theorem Same.trans_duelGuar {w₁ : World} (h : Same w w₁) (hguar : DuelGuar target i w₁ w') :
    DuelGuar target i w w' := by
  constructor
  · rw [← h.commits, ← h.readings]
    exact hguar.reading
  · rw [← h.commits]
    exact hguar.commits
  · rw [← h.commits]
    exact hguar.uncommitted
  · intro hi
    have hloaded := hguar.loaded hi
    constructor
    · rw [← h.loads]
      exact hloaded.loads
    · rw [← h.observations]
      exact hloaded.sources
    · rw [← h.jobs]
      exact hloaded.jobs
    · rw [← h.loads, ← h.commits, ← h.observations]
      exact hloaded.source
    · rw [← h.loads, ← h.commits, ← h.jobs]
      exact hloaded.job

theorem Same.readyToCommit (h : Same w w') (hready : ReadyToCommit target w) :
    ReadyToCommit target w' := by
  constructor
  · rw [h.loads]
    exact hready.loaded
  · rw [h.observations]
    exact hready.onlySource
  · rw [h.jobs]
    exact hready.onlyJob
  · rw [h.observations, h.readings]
    exact hready.source
  · rw [h.jobs]
    exact hready.job

/-- Steps of the ingestion guarantee little. -/
theorem duelGuar_ingestion (hreading : 0 ∈ w.commits → w'.readings 0 = w.readings 0)
    (hcommits : ∀ k ∈ w.commits, k ∈ w'.commits) : DuelGuar target 0 w w' where
  reading h := hreading (h.resolve_left fun hne => hne rfl)
  commits := hcommits
  uncommitted h := (h rfl).elim
  loaded h := (h rfl).elim

/-- The observation that the listing has in the catalogue. -/
theorem DuelInv.lookup_target (hw : DuelInv job staleThreshold target w) :
    ∃ o, lookup (·.id) target.id w.observations.committed = some o ∧
      o.identity = (job.source, job.externalJobId) ∧ o.jobId = target.jobId := by
  obtain ⟨o, ho, hid, hjob⟩ := hw.found
  have hmem : o ∈ w.observations.committed := List.mem_of_find?_eq_some ho
  refine ⟨o, ?_, getSource_identity ho, hjob⟩
  rw [← hid]
  exact lookup_of_mem w.observations.keys hmem

/-- A new version of an observation has its identity and its job. -/
theorem sameSource_write (hw : DuelInv job staleThreshold target w) {id : UUID}
    {o : JobSourceObservation} (ho : lookup (·.id) id (w.observations.visible i) = some o)
    (update : SourceUpdate) (id' : UUID) (k : CallId) (v : JobSourceObservation)
    (hv : (w.observations.write i (update.apply o)).version id' = some (k, v)) :
    ∃ u, lookup (·.id) id' w.observations.committed = some u ∧ v.identity = u.identity ∧
      v.jobId = u.jobId := by
  rw [Versioned.version_write] at hv
  split at hv
  · rename_i hid
    cases hv
    rw [SourceUpdate.apply_id, lookup_key ho] at hid
    subst hid
    rw [SourceUpdate.apply_identity, SourceUpdate.apply_jobId]
    rcases Versioned.visible_cases ho with hown | hcommitted
    · exact hw.sameSource id i o hown
    · exact ⟨o, hcommitted, rfl, rfl⟩
  · exact hw.sameSource id' k v hv

/-- A write by the ingestion leaves its rows to it. -/
theorem OnlyIngestion.write {α : Type} {key : α → UUID} {t : Versioned key CallId} {id : UUID}
    {x : α} (h : OnlyIngestion t id) : OnlyIngestion (t.write 0 x) id := by
  intro k y hy
  rw [Versioned.version_write] at hy
  split at hy
  · cases hy
    rfl
  · exact h k y hy

/-- A write of another row. -/
theorem OnlyIngestion.write_of_ne {α : Type} {key : α → UUID} {t : Versioned key CallId}
    {id : UUID} {x : α} (h : OnlyIngestion t id) (hx : key x ≠ id) :
    OnlyIngestion (t.write i x) id := by
  intro k y hy
  rw [Versioned.version_write, if_neg hx] at hy
  exact h k y hy

theorem OnlyIngestion.filter {α : Type} {key : α → UUID} {t t' : Versioned key CallId} {id : UUID}
    (h : OnlyIngestion t id) (ht : t'.version id = (t.version id).filter (·.1 ≠ i)) :
    OnlyIngestion t' id := by
  intro k y hy
  rw [ht] at hy
  exact h k y (Versioned.version_of_filter hy).1

/-- The versions of the ingestion under a write of the deactivation. -/
theorem version_write_foreign {α : Type} {key : α → UUID} {t : Versioned key CallId} {id id' : UUID}
    {x y : α} (hlocked : t.locked 1 id = false) (hx : key x = id) :
    (t.write 1 x).version id' = some (0, y) ↔ t.version id' = some (0, y) := by
  rw [Versioned.version_write, hx]
  by_cases hid : id = id'
  · subst hid
    have hnot : t.version id ≠ some (0, y) := by
      intro hversion
      simp [Versioned.locked, hversion] at hlocked
    simp [hnot]
  · rw [if_neg hid]

/-- The versions of the ingestion when the deactivation ends. -/
theorem version_filter_foreign {α : Type} {key : α → UUID} {t : Versioned key CallId} {id : UUID}
    {y : α} : (t.version id).filter (·.1 ≠ 1) = some (0, y) ↔ t.version id = some (0, y) := by
  rw [Option.filter_eq_some_iff]
  simp

/-! ### Loads and the clock -/

theorem duel_clock (hw : DuelInv job staleThreshold target w)
    (hissues : DuelIssues job staleThreshold target i w .clock) {b : Time}
    (he : exec rt i .clock ch w = some (b, w')) :
    DuelInv job staleThreshold target w' ∧ DuelGuar target i w w' := by
  obtain ⟨rfl, hopen⟩ := hissues
  obtain ⟨w₁, h, _, rfl⟩ := exec_clock he
  have hw₁ := h.duelInv hw
  have hopen₁ : 0 ∉ w₁.commits := h.commits ▸ hopen
  constructor
  · exact ⟨hw₁.found, hw₁.sameSource, hw₁.sourceLoaded, hw₁.jobLoaded, hw₁.committedLoaded,
      fun hcommitted => (hopen₁ hcommitted).elim⟩
  · apply duelGuar_ingestion
    · intro hcommitted
      exact (hopen hcommitted).elim
    · intro k hk
      exact h.commits ▸ hk

/-- A query of the ingestion that loads rows. -/
theorem duel_load {w₁ : World} {rows : List Row} (h : Same w w₁)
    (hw : DuelInv job staleThreshold target w)
    (hsource : .source target.id ∈ rows → OnlyIngestion w.observations target.id)
    (hjob : .job target.jobId ∈ rows → OnlyIngestion w.jobs target.jobId) :
    DuelInv job staleThreshold target (w₁.load 0 rows) ∧
      DuelGuar target 0 w (w₁.load 0 rows) := by
  have hw₁ := h.duelInv hw
  have hloads : ∀ row, (0, row) ∈ (w₁.load 0 rows).loads → (0, row) ∈ w₁.loads ∨ row ∈ rows := by
    intro row hrow
    rcases List.mem_append.mp hrow with hold | hnew
    · exact Or.inl hold
    · obtain ⟨row', hrow', heq⟩ := List.mem_map.mp hnew
      cases heq
      exact Or.inr hrow'
  refine ⟨⟨hw₁.found, hw₁.sameSource, ?_, ?_, ?_, ?_⟩, ?_⟩
  · intro hloaded hopen
    rcases hloads _ hloaded with hold | hnew
    · exact hw₁.sourceLoaded hold hopen
    · change OnlyIngestion w₁.observations target.id
      rw [h.observations]
      exact hsource hnew
  · intro hloaded hopen
    rcases hloads _ hloaded with hold | hnew
    · exact hw₁.jobLoaded hold hopen
    · change OnlyIngestion w₁.jobs target.jobId
      rw [h.jobs]
      exact hjob hnew
  · intro hcommitted
    exact List.mem_append_left _ (hw₁.committedLoaded hcommitted)
  · intro hcommitted reading hreading hfresh
    obtain ⟨hs, hj⟩ := hw₁.settled hcommitted reading hreading hfresh
    exact ⟨hs, hj⟩
  · apply duelGuar_ingestion
    · intro _
      exact congrFun h.readings 0
    · intro k hk
      exact h.commits ▸ hk

theorem duel_getSource (hw : DuelInv job staleThreshold target w) {source sourceJobId : String}
    (hissues : DuelIssues job staleThreshold target i w (.getSource source sourceJobId))
    (hallows : (apart job staleThreshold safetyWindowStart).allows w r
      (.getSource source sourceJobId) ch = true)
    {b : Attempt (Option JobSourceObservation)}
    (he : exec rt i (.getSource source sourceJobId) ch w = some (b, w')) :
    DuelInv job staleThreshold target w' ∧ DuelGuar target i w w' := by
  obtain ⟨rfl, hidentity, _⟩ := hissues
  rcases exec_getSource he with ⟨_, h⟩ | ⟨w₁, h, _, rfl⟩
  · exact ⟨h.duelInv hw, h.duelGuar⟩
  · apply duel_load h hw
    · intro _ k v hv
      obtain ⟨o, ho, hsame, _⟩ := hw.sameSource _ _ _ hv
      obtain ⟨o', ho', hidentity', _⟩ := hw.lookup_target
      rw [ho] at ho'
      cases ho'
      have hmem : (k, v) ∈ w.observations.uncommitted := mem_of_lookup hv
      have hne := of_decide_eq_true (List.all_eq_true.mp hallows _ hmem)
      rw [hidentity, hsame] at hne
      exact absurd hidentity' hne
    · intro hrow
      obtain ⟨_, _, heq⟩ := List.mem_map.mp hrow
      cases heq

theorem duel_getJob (hw : DuelInv job staleThreshold target w) {id : UUID}
    (hissues : DuelIssues job staleThreshold target i w (.getJob id))
    (hallows : (apart job staleThreshold safetyWindowStart).allows w r (.getJob id) ch = true)
    {b : Attempt (Option CanonicalJob)} (he : exec rt i (.getJob id) ch w = some (b, w')) :
    DuelInv job staleThreshold target w' ∧ DuelGuar target i w w' := by
  obtain ⟨rfl, rfl, _⟩ := hissues
  rcases exec_getJob he with ⟨_, h⟩ | ⟨w₁, h, _, rfl⟩
  · exact ⟨h.duelInv hw, h.duelGuar⟩
  · apply duel_load h hw
    · intro hrow
      obtain ⟨_, _, heq⟩ := List.mem_map.mp hrow
      cases heq
    · intro _ k v hv
      have hnone : w.jobs.version target.jobId = none := Option.isNone_iff_eq_none.mp hallows
      rw [hnone] at hv
      contradiction

/-! ### Updates -/

/-- A row that the ingestion writes before it commits. -/
theorem duel_flushSource (hw : DuelInv job staleThreshold target w) {w₁ : World} (h : Same w w₁)
    (hopen : 0 ∉ w.commits) {id : UUID} {o : JobSourceObservation}
    (ho : lookup (·.id) id (w.observations.visible 0) = some o) (update : SourceUpdate) :
    DuelInv job staleThreshold target (w₁.writeSource 0 (update.apply o)) ∧
      DuelGuar target 0 w (w₁.writeSource 0 (update.apply o)) := by
  have hw₁ := h.duelInv hw
  have hopen₁ : 0 ∉ w₁.commits := h.commits ▸ hopen
  have ho₁ : lookup (·.id) id (w₁.observations.visible 0) = some o := h.observations ▸ ho
  constructor
  · exact ⟨hw₁.found, sameSource_write hw₁ ho₁ update,
      fun hloaded _ => (hw₁.sourceLoaded hloaded hopen₁).write, hw₁.jobLoaded,
      hw₁.committedLoaded, fun hcommitted => (hopen₁ hcommitted).elim⟩
  · apply duelGuar_ingestion
    · intro _
      exact congrFun h.readings 0
    · intro k hk
      exact h.commits ▸ hk

theorem duel_flushJob (hw : DuelInv job staleThreshold target w) {w₁ : World} (h : Same w w₁)
    (hopen : 0 ∉ w.commits) (j : CanonicalJob) :
    DuelInv job staleThreshold target (w₁.writeJob 0 j) ∧
      DuelGuar target 0 w (w₁.writeJob 0 j) := by
  have hw₁ := h.duelInv hw
  have hopen₁ : 0 ∉ w₁.commits := h.commits ▸ hopen
  constructor
  · exact ⟨hw₁.found, hw₁.sameSource, hw₁.sourceLoaded,
      fun hloaded _ => (hw₁.jobLoaded hloaded hopen₁).write, hw₁.committedLoaded,
      fun hcommitted => (hopen₁ hcommitted).elim⟩
  · apply duelGuar_ingestion
    · intro _
      exact congrFun h.readings 0
    · intro k hk
      exact h.commits ▸ hk

theorem mem_commits_of_readersBefore {row : Row} {snapshot : Snapshot}
    (h : w.readersBefore row snapshot = true) (hrow : (i, row) ∈ w.loads) :
    i ∈ snapshot.commits := by
  have hall := List.all_eq_true.mp h _ hrow
  simpa using hall

/-- If the deactivation sees what a reader of a row has done, the reader has committed. -/
theorem committed_of_readersBefore {w₁ : World} (h : Same w w₁) {row : Row} {snapshot : Snapshot}
    (hsnapshot : ShowsCommitted staleThreshold target snapshot w)
    (hreaders : w.readersBefore row snapshot = true) (hloaded : (i, row) ∈ w₁.loads) :
    i ∈ snapshot.commits ∧ i ∈ w₁.commits := by
  have hseen := mem_commits_of_readersBefore hreaders (h.loads ▸ hloaded)
  exact ⟨hseen, h.commits ▸ hsnapshot.1 i hseen⟩

/-- A row of the deactivation, which it sees in its newest version. -/
theorem duel_deactivateSource (hw : DuelInv job staleThreshold target w) {w₁ : World}
    (h : Same w w₁) {id : UUID} {snapshot : Snapshot} {source : String}
    (hsnapshot : ShowsCommitted staleThreshold target snapshot w)
    (hallows : (apart job staleThreshold safetyWindowStart).allows w r
      (.updateSource id (.deactivate snapshot source staleThreshold)) ch = true)
    (hlocked : w.observations.locked 1 id = false) {o : JobSourceObservation}
    (ho : lookup (·.id) id (w.observations.visible 1) = some o)
    (happlies : isStale source staleThreshold o = true) :
    DuelInv job staleThreshold target (w₁.writeSource 1 { o with isActive := false }) ∧
      DuelGuar target 1 w (w₁.writeSource 1 { o with isActive := false }) := by
  have hw₁ := h.duelInv hw
  have hid : o.id = id := lookup_key ho
  have ho₁ : lookup (·.id) id (w₁.observations.visible 1) = some o := h.observations ▸ ho
  have hreaders : w.readersBefore (.source id) snapshot = true := by
    have hlatest : w.observations.latest id = some o :=
      (Versioned.lookup_visible_of_unlocked hlocked).symm.trans ho
    change (w.observations.latest id).all _ = true at hallows
    simpa [hlatest, happlies] using hallows
  refine ⟨⟨hw₁.found, sameSource_write hw₁ ho₁ (.deactivate snapshot source staleThreshold), ?_,
    hw₁.jobLoaded, hw₁.committedLoaded, ?_⟩, ?_⟩
  · -- a row that the ingestion has loaded and not committed is not this one
    intro hloaded hopen
    have hne : o.id ≠ target.id := by
      intro heq
      rw [← heq, hid] at hloaded
      exact hopen (committed_of_readersBefore h hsnapshot hreaders hloaded).2
    exact (hw₁.sourceLoaded hloaded hopen).write_of_ne hne
  · -- a row that the ingestion has committed is not stale
    intro hcommitted reading hreading hfresh
    obtain ⟨⟨u, hu, hactive, hseen, hnone⟩, hjob⟩ :=
      hw₁.settled hcommitted reading hreading hfresh
    refine ⟨⟨u, hu, hactive, hseen, ?_⟩, hjob⟩
    have hne : o.id ≠ target.id := by
      intro heq
      have hvisible := Versioned.lookup_visible_of_foreign (t := w₁.observations) (i := 1)
        (k := target.id) (by simp [hnone])
      rw [← heq, hid, ho₁, ← hid, heq, hu] at hvisible
      cases hvisible
      simp only [isStale, Bool.and_eq_true, decide_eq_true_eq] at happlies
      exact absurd happlies.2 (not_lt.mpr hseen)
    change (w₁.observations.write 1 _).version target.id = none
    rw [Versioned.version_write, if_neg hne]
    exact hnone
  · refine ⟨fun _ => congrFun h.readings 0, fun k hk => h.commits ▸ hk,
      fun _ hk => h.commits ▸ hk, fun _ => ⟨fun row hrow => h.loads ▸ hrow, ?_, ?_, ?_, ?_⟩⟩
    · intro id' o'
      rw [← h.observations] at hlocked ⊢
      exact version_write_foreign hlocked hid
    · intro id' j
      rw [← h.jobs]
      rfl
    · intro _ _
      rw [← h.observations]
      rfl
    · intro _ _
      rw [← h.jobs]
      rfl

theorem duel_deactivateJob (hw : DuelInv job staleThreshold target w) {w₁ : World}
    (h : Same w w₁) {id : UUID} {snapshot : Snapshot}
    (hsnapshot : ShowsCommitted staleThreshold target snapshot w)
    (hallows : (apart job staleThreshold safetyWindowStart).allows w r
      (.updateJob id (.deactivate snapshot)) ch = true)
    (hlocked : w.jobs.locked 1 id = false) {j : CanonicalJob}
    (hj : lookup (·.id) id (w.jobs.visible 1) = some j)
    (happlies : (JobUpdate.deactivate snapshot).applies j = true) :
    DuelInv job staleThreshold target (w₁.writeJob 1 { j with isActive := false }) ∧
      DuelGuar target 1 w (w₁.writeJob 1 { j with isActive := false }) := by
  have hw₁ := h.duelInv hw
  have hid : j.id = id := lookup_key hj
  have hreaders : w.readersBefore (.job id) snapshot = true := by
    have hlatest : w.jobs.latest id = some j :=
      (Versioned.lookup_visible_of_unlocked hlocked).symm.trans hj
    change (w.jobs.latest id).all _ = true at hallows
    simpa [hlatest, happlies] using hallows
  refine ⟨⟨hw₁.found, hw₁.sameSource, hw₁.sourceLoaded, ?_, hw₁.committedLoaded, ?_⟩, ?_⟩
  · -- a row that the ingestion has loaded and not committed is not this one
    intro hloaded hopen
    have hne : j.id ≠ target.jobId := by
      intro heq
      rw [← heq, hid] at hloaded
      exact hopen (committed_of_readersBefore h hsnapshot hreaders hloaded).2
    exact (hw₁.jobLoaded hloaded hopen).write_of_ne hne
  · -- a statement that began after the commit finds the observation active
    intro hcommitted reading hreading hfresh
    obtain ⟨hsource, u, hu, hactive, hnone⟩ := hw₁.settled hcommitted reading hreading hfresh
    refine ⟨hsource, u, hu, hactive, ?_⟩
    have hne : j.id ≠ target.jobId := by
      intro heq
      have hloaded := hw₁.committedLoaded hcommitted
      rw [← heq, hid] at hloaded
      have hseen := (committed_of_readersBefore h hsnapshot hreaders hloaded).1
      obtain ⟨o, ho, hojob, hoactive⟩ :=
        hsnapshot.2 hseen reading (h.readings ▸ hreading) hfresh
      have hlisted : hasActiveSource snapshot.tables.observations j = true :=
        List.any_eq_true.mpr ⟨o, ho, by simp [hojob, heq, hoactive]⟩
      simp [JobUpdate.applies, hlisted] at happlies
    change (w₁.jobs.write 1 _).version target.jobId = none
    rw [Versioned.version_write, if_neg hne]
    exact hnone
  · refine ⟨fun _ => congrFun h.readings 0, fun k hk => h.commits ▸ hk,
      fun _ hk => h.commits ▸ hk, fun _ => ⟨fun row hrow => h.loads ▸ hrow, ?_, ?_, ?_, ?_⟩⟩
    · intro id' o
      rw [← h.observations]
      rfl
    · intro id' j'
      rw [← h.jobs] at hlocked ⊢
      exact version_write_foreign hlocked hid
    · intro _ _
      rw [← h.observations]
      rfl
    · intro _ _
      rw [← h.jobs]
      rfl

/-! ### The end of a transaction -/

/-- A commit finds the observation of the listing under its newest version. -/
theorem found_commit (hw : DuelInv job staleThreshold target w) :
    ∃ o, (w.commit i).committed.getSource job.source job.externalJobId = some o ∧
      o.id = target.id ∧ o.jobId = target.jobId := by
  obtain ⟨o, ho, hid, hjob⟩ := hw.found
  have hsame : ∀ y ∈ w.observations.committed, ∀ v ∈ w.observations.own i, v.id = y.id →
      v.identity = y.identity ∧ v.jobId = y.jobId := by
    intro y hy v hv hvy
    obtain ⟨u, hu, hidentity, hvjob⟩ := hw.sameSource _ _ _ (Versioned.mem_own.mp hv)
    have hfound := lookup_of_mem w.observations.keys hy
    simp only [← hvy, hu, Option.some.injEq] at hfound
    exact ⟨hfound ▸ hidentity, hfound ▸ hvjob⟩
  have hfind : (w.commit i).committed.getSource job.source job.externalJobId =
      some ((lookup (·.id) o.id (w.observations.own i)).getD o) :=
    find?_overlay ho fun y hy v hv hvy => by
      have hidentity := (hsame y hy v hv hvy).1
      simp only [JobSourceObservation.identity, Prod.mk.injEq] at hidentity
      rw [hidentity.1, hidentity.2]
  refine ⟨_, hfind, ?_, ?_⟩
  · exact key_newest.trans hid
  · cases hnewest : lookup (·.id) o.id (w.observations.own i) with
    | none => exact hjob
    | some v =>
        have hmem : o ∈ w.observations.committed := List.mem_of_find?_eq_some ho
        exact (hsame o hmem v (mem_of_lookup hnewest) (lookup_key hnewest)).2.trans hjob

theorem sameSource_commit (hw : DuelInv job staleThreshold target w) (id : UUID) (k : CallId)
    (v : JobSourceObservation) (hv : (w.observations.commit i).version id = some (k, v)) :
    ∃ o, lookup (·.id) id (w.observations.commit i).committed = some o ∧
      v.identity = o.identity ∧ v.jobId = o.jobId := by
  rw [Versioned.version_commit] at hv
  obtain ⟨hversion, hk⟩ := Versioned.version_of_filter hv
  rw [Versioned.lookup_commit_of_foreign hversion hk]
  exact hw.sameSource id k v hversion

/-- Nothing remains of a row that belongs to the ingestion when it commits. -/
theorem OnlyIngestion.version_commit {α : Type} {key : α → UUID} {t : Versioned key CallId}
    {id : UUID} (h : OnlyIngestion t id) : (t.commit 0).version id = none := by
  cases hversion : (t.commit 0).version id with
  | none => rfl
  | some entry =>
      obtain ⟨k, x⟩ := entry
      rw [Versioned.version_commit] at hversion
      obtain ⟨hold, hk⟩ := Versioned.version_of_filter hversion
      exact absurd (h k x hold) hk

/-- The other call sees and commits the committed row. -/
theorem OnlyIngestion.lookup_commit {α : Type} {key : α → UUID} {t : Versioned key CallId}
    {id : UUID} (h : OnlyIngestion t id) :
    lookup key id (t.commit 1).committed = lookup key id t.committed := by
  apply Versioned.lookup_visible_of_foreign
  intro x hx
  have hzero := h 1 x hx
  contradiction

theorem onlyIngestion_of_none {α : Type} {key : α → UUID} {t : Versioned key CallId} {id : UUID}
    (h : t.version id = none) : OnlyIngestion t id := by
  intro k x hx
  rw [h] at hx
  contradiction

theorem duel_commit_ingestion (hw : DuelInv job staleThreshold target w)
    (hready : ReadyToCommit target w) :
    DuelInv job staleThreshold target (w.commit 0) ∧ DuelGuar target 0 w (w.commit 0) := by
  have hcommitted : 0 ∈ (w.commit 0).commits := List.mem_append_right _ (List.mem_singleton_self 0)
  refine ⟨⟨found_commit hw, sameSource_commit hw, fun _ hopen => (hopen hcommitted).elim,
    fun _ hopen => (hopen hcommitted).elim, fun _ => hready.loaded, ?_⟩, ?_⟩
  · intro _ reading hreading hfresh
    obtain ⟨o, ho, hactive, hseen⟩ := hready.source
    obtain ⟨j, hj, hjactive⟩ := hready.job
    have hreads : w.readings 0 = some reading := hreading
    rw [hreads] at hseen
    cases hseen
    exact ⟨⟨o, ho, hactive, hfresh, hready.onlySource.version_commit⟩,
      j, hj, hjactive, hready.onlyJob.version_commit⟩
  · apply duelGuar_ingestion
    · intro _
      rfl
    · intro k hk
      exact List.mem_append_left _ hk

theorem duel_commit_deactivation (hw : DuelInv job staleThreshold target w) :
    DuelInv job staleThreshold target (w.commit 1) ∧ DuelGuar target 1 w (w.commit 1) := by
  have hopened : 0 ∈ (w.commit 1).commits → 0 ∈ w.commits := by
    intro hcommitted
    rcases List.mem_append.mp hcommitted with hold | hnew
    · exact hold
    · contradiction
  have hopen : 0 ∉ (w.commit 1).commits → 0 ∉ w.commits :=
    fun h hold => h (List.mem_append_left _ hold)
  refine ⟨⟨found_commit hw, sameSource_commit hw, ?_, ?_, fun h => hw.committedLoaded (hopened h),
    ?_⟩, ?_⟩
  · intro hloaded h
    exact (hw.sourceLoaded hloaded (hopen h)).filter Versioned.version_commit
  · intro hloaded h
    exact (hw.jobLoaded hloaded (hopen h)).filter Versioned.version_commit
  · intro h reading hreading hfresh
    obtain ⟨⟨o, ho, hactive, hseen, hnone⟩, j, hj, hjactive, hjnone⟩ :=
      hw.settled (hopened h) reading hreading hfresh
    refine ⟨⟨o, ?_, hactive, hseen, ?_⟩, j, ?_, hjactive, ?_⟩
    · exact (onlyIngestion_of_none hnone).lookup_commit.trans ho
    · exact Versioned.version_commit.trans (by rw [hnone]; rfl)
    · exact (onlyIngestion_of_none hjnone).lookup_commit.trans hj
    · exact Versioned.version_commit.trans (by rw [hjnone]; rfl)
  · refine ⟨fun _ => rfl, fun k hk => List.mem_append_left _ hk,
      fun _ hclosed h => hclosed (hopened h), fun _ => ⟨fun row hrow => hrow, ?_, ?_, ?_, ?_⟩⟩
    · intro id o
      exact (congrArg (· = _) Versioned.version_commit).to_iff.trans version_filter_foreign
    · intro id j
      exact (congrArg (· = _) Versioned.version_commit).to_iff.trans version_filter_foreign
    · intro hloaded hclosed
      exact (hw.sourceLoaded hloaded hclosed).lookup_commit
    · intro hloaded hclosed
      exact (hw.jobLoaded hloaded hclosed).lookup_commit

theorem duel_close (hi : i = 0 ∨ i = 1) (hw : DuelInv job staleThreshold target w) :
    DuelInv job staleThreshold target (World.close i w) ∧
      DuelGuar target i w (World.close i w) := by
  have hnone : ∀ {α : Type} {key : α → UUID} {t : Versioned key CallId} {id : UUID},
      t.version id = none → (t.discard i).version id = none := by
    intro α key t id h
    rw [Versioned.version_discard, h]
    rfl
  refine ⟨⟨hw.found, ?_, ?_, ?_, hw.committedLoaded, ?_⟩, ?_⟩
  · intro id k v hv
    exact hw.sameSource id k v
      (Versioned.version_of_filter (Versioned.version_discard.symm.trans hv)).1
  · intro hloaded h
    exact (hw.sourceLoaded hloaded h).filter Versioned.version_discard
  · intro hloaded h
    exact (hw.jobLoaded hloaded h).filter Versioned.version_discard
  · intro h reading hreading hfresh
    obtain ⟨⟨o, ho, hactive, hseen, hsource⟩, j, hj, hjactive, hjob⟩ :=
      hw.settled h reading hreading hfresh
    exact ⟨⟨o, ho, hactive, hseen, hnone hsource⟩, j, hj, hjactive, hnone hjob⟩
  · refine ⟨fun _ => rfl, fun _ hk => hk, fun _ hclosed => hclosed, fun hne => ?_⟩
    obtain rfl : i = 1 := hi.resolve_left hne
    refine ⟨fun row hrow => hrow, fun id o => ?_, fun id j => ?_, fun _ _ => rfl, fun _ _ => rfl⟩
    · exact (congrArg (· = _) Versioned.version_discard).to_iff.trans version_filter_foreign
    · exact (congrArg (· = _) Versioned.version_discard).to_iff.trans version_filter_foreign

/-- Every command of the two calls keeps the contract. -/
theorem exec_duel (hi : i = 0 ∨ i = 1) (hw : DuelInv job staleThreshold target w)
    (hissues : DuelIssues job staleThreshold target i w cmd)
    (hallows : (apart job staleThreshold safetyWindowStart).allows w r cmd ch = true)
    (he : exec rt i cmd ch w = some (b, w')) :
    DuelInv job staleThreshold target w' ∧ DuelGuar target i w w' := by
  cases cmd with
  | clock => exact duel_clock hw hissues he
  | getSource _ _ => exact duel_getSource hw hissues hallows he
  | getJob _ => exact duel_getJob hw hissues hallows he
  | updateSource id update =>
      rcases exec_updateSource he with ⟨_, h⟩ | ⟨o, w₁, _, hlocked, ho, happlies, h, rfl⟩
      · exact ⟨h.duelInv hw, h.duelGuar⟩
      · cases update with
        | flush loaded assigned =>
            obtain ⟨rfl, hopen⟩ := hissues
            exact duel_flushSource hw h hopen ho (.flush loaded assigned)
        | seen _ _ _ => exact hissues.elim
        | deactivate snapshot source threshold =>
            obtain ⟨rfl, rfl, hsnapshot⟩ := hissues
            exact duel_deactivateSource hw h hsnapshot hallows hlocked ho happlies
  | updateJob id update =>
      rcases exec_updateJob he with ⟨_, h⟩ | ⟨j, w₁, _, hlocked, hj, happlies, h, rfl⟩
      · exact ⟨h.duelInv hw, h.duelGuar⟩
      · cases update with
        | flush loaded assigned =>
            obtain ⟨rfl, hopen⟩ := hissues
            exact duel_flushJob hw h hopen _
        | seen _ _ _ _ => exact hissues.elim
        | deactivate snapshot =>
            obtain ⟨rfl, hsnapshot⟩ := hissues
            exact duel_deactivateJob hw h hsnapshot hallows hlocked hj happlies
  | commit =>
      rcases exec_commit he with ⟨_, h⟩ | ⟨w₁, h, rfl⟩
      · exact ⟨h.duelInv hw, h.duelGuar⟩
      · have hw₁ := h.duelInv hw
        rcases hi with rfl | rfl
        · have hcommit := duel_commit_ingestion hw₁ (h.readyToCommit (hissues rfl))
          exact ⟨hcommit.1, h.trans_duelGuar hcommit.2⟩
        · have hcommit := duel_commit_deactivation hw₁
          exact ⟨hcommit.1, h.trans_duelGuar hcommit.2⟩
  | insertJob _ => exact hissues.elim
  | insertSource _ => exact hissues.elim
  | findJobBySourceUrl _ _ => exact hissues.elim
  | findDedupCandidates _ _ => exact hissues.elim
  | lockSourceIdentity _ _ =>
      have h := exec_quiet rfl he
      exact ⟨h.duelInv hw, h.duelGuar⟩
  | getCompany _ =>
      have h := exec_quiet rfl he
      exact ⟨h.duelInv hw, h.duelGuar⟩
  | insertCompany _ _ =>
      have h := exec_quiet rfl he
      exact ⟨h.duelInv hw, h.duelGuar⟩
  | selectCompany _ =>
      have h := exec_quiet rfl he
      exact ⟨h.duelInv hw, h.duelGuar⟩
  | maxLastSeen _ =>
      have h := exec_quiet rfl he
      exact ⟨h.duelInv hw, h.duelGuar⟩
  | snapshot =>
      have h := exec_quiet rfl he
      exact ⟨h.duelInv hw, h.duelGuar⟩

end

/-! ## The ingestion -/

/-- The ingestion has written no row of the table. -/
def Unwritten {α : Type} {key : α → UUID} (t : Versioned key CallId) : Prop :=
  ∀ id x, t.version id ≠ some (0, x)

/-- The ingestion has not committed, nor written a row. -/
structure Opened (w : World) : Prop where
  opened : 0 ∉ w.commits
  noSource : Unwritten w.observations
  noJob : Unwritten w.jobs

/-- The ingestion has read the clock. -/
structure ClockRead (observedAt : Time) (w : World) : Prop extends Opened w where
  reading : w.readings 0 = some observedAt

/-- It has loaded the observation. -/
structure SourceRead (target : JobSourceObservation) (observedAt : Time)
    (existing : JobSourceObservation) (w : World) : Prop extends ClockRead observedAt w where
  sourceLoaded : (0, .source target.id) ∈ w.loads
  sourceRow : lookup (·.id) target.id w.observations.committed = some existing

/-- It has loaded the job. -/
structure JobRead (target : JobSourceObservation) (observedAt : Time)
    (existing : JobSourceObservation) (canonical : CanonicalJob) (w : World) : Prop
    extends SourceRead target observedAt existing w where
  jobLoaded : (0, .job target.jobId) ∈ w.loads
  jobRow : lookup (·.id) target.jobId w.jobs.committed = some canonical

/-- It has sent what it assigned to the job. -/
structure JobSent (target : JobSourceObservation) (observedAt : Time)
    (existing : JobSourceObservation) (w : World) : Prop where
  opened : 0 ∉ w.commits
  reading : w.readings 0 = some observedAt
  noSource : Unwritten w.observations
  sourceLoaded : (0, .source target.id) ∈ w.loads
  sourceRow : lookup (·.id) target.id w.observations.committed = some existing
  jobLoaded : (0, .job target.jobId) ∈ w.loads
  job : ∃ j, lookup (·.id) target.jobId (w.jobs.visible 0) = some j ∧ j.isActive = true

/-- It has sent what it assigned to both rows. -/
structure BothSent (target : JobSourceObservation) (observedAt : Time) (w : World) : Prop where
  opened : 0 ∉ w.commits
  reading : w.readings 0 = some observedAt
  sourceLoaded : (0, .source target.id) ∈ w.loads
  jobLoaded : (0, .job target.jobId) ∈ w.loads
  source : ∃ o, lookup (·.id) target.id (w.observations.visible 0) = some o ∧
    o.isActive = true ∧ o.lastSeenAt = observedAt
  job : ∃ j, lookup (·.id) target.jobId (w.jobs.visible 0) = some j ∧ j.isActive = true

section

variable {job : NormalizedJob} {staleThreshold safetyWindowStart : Time}
  {target existing : JobSourceObservation} {canonical : CanonicalJob} {observedAt : Time}
  {rt : Runtime} {i : CallId} {w w' : World} {r : Request} {α : Type}

/-! ### The steps of the deactivation leave the assertions true -/

theorem Opened.leave (h : Opened w) (hguar : DuelGuar target i w w') (hi : i ≠ 0) :
    Opened w' where
  opened := hguar.uncommitted hi h.opened
  noSource id o ho := h.noSource id o (((hguar.loaded hi).sources id o).mp ho)
  noJob id j hj := h.noJob id j (((hguar.loaded hi).jobs id j).mp hj)

theorem ClockRead.leave (h : ClockRead observedAt w) (hguar : DuelGuar target i w w')
    (hi : i ≠ 0) : ClockRead observedAt w' where
  toOpened := h.toOpened.leave hguar hi
  reading := (hguar.reading (Or.inl hi)).trans h.reading

theorem SourceRead.leave (h : SourceRead target observedAt existing w)
    (hguar : DuelGuar target i w w') (hi : i ≠ 0) : SourceRead target observedAt existing w' where
  toClockRead := h.toClockRead.leave hguar hi
  sourceLoaded := (hguar.loaded hi).loads _ h.sourceLoaded
  sourceRow := ((hguar.loaded hi).source h.sourceLoaded h.opened).trans h.sourceRow

theorem JobRead.leave (h : JobRead target observedAt existing canonical w)
    (hguar : DuelGuar target i w w') (hi : i ≠ 0) :
    JobRead target observedAt existing canonical w' where
  toSourceRead := h.toSourceRead.leave hguar hi
  jobLoaded := (hguar.loaded hi).loads _ h.jobLoaded
  jobRow := ((hguar.loaded hi).job h.jobLoaded h.opened).trans h.jobRow

/-- What the ingestion sees of its job does not change under it. -/
theorem LeavesLoaded.visible_job (h : LeavesLoaded target w w')
    (hloaded : (0, .job target.jobId) ∈ w.loads) (hopen : 0 ∉ w.commits) :
    lookup (·.id) target.jobId (w'.jobs.visible 0) =
      lookup (·.id) target.jobId (w.jobs.visible 0) :=
  Versioned.lookup_visible_congr (h.jobs _) (h.job hloaded hopen)

theorem LeavesLoaded.visible_source (h : LeavesLoaded target w w')
    (hloaded : (0, .source target.id) ∈ w.loads) (hopen : 0 ∉ w.commits) :
    lookup (·.id) target.id (w'.observations.visible 0) =
      lookup (·.id) target.id (w.observations.visible 0) :=
  Versioned.lookup_visible_congr (h.sources _) (h.source hloaded hopen)

theorem JobSent.leave (h : JobSent target observedAt existing w) (hguar : DuelGuar target i w w')
    (hi : i ≠ 0) : JobSent target observedAt existing w' where
  opened := hguar.uncommitted hi h.opened
  reading := (hguar.reading (Or.inl hi)).trans h.reading
  noSource id o ho := h.noSource id o (((hguar.loaded hi).sources id o).mp ho)
  sourceLoaded := (hguar.loaded hi).loads _ h.sourceLoaded
  sourceRow := ((hguar.loaded hi).source h.sourceLoaded h.opened).trans h.sourceRow
  jobLoaded := (hguar.loaded hi).loads _ h.jobLoaded
  job := by
    rw [(hguar.loaded hi).visible_job h.jobLoaded h.opened]
    exact h.job

theorem BothSent.leave (h : BothSent target observedAt w) (hguar : DuelGuar target i w w')
    (hi : i ≠ 0) : BothSent target observedAt w' where
  opened := hguar.uncommitted hi h.opened
  reading := (hguar.reading (Or.inl hi)).trans h.reading
  sourceLoaded := (hguar.loaded hi).loads _ h.sourceLoaded
  jobLoaded := (hguar.loaded hi).loads _ h.jobLoaded
  source := by
    rw [(hguar.loaded hi).visible_source h.sourceLoaded h.opened]
    exact h.source
  job := by
    rw [(hguar.loaded hi).visible_job h.jobLoaded h.opened]
    exact h.job

/-! ### Quiet commands leave them true -/

theorem Same.sourceRead (h : Same w w') (hw : SourceRead target observedAt existing w) :
    SourceRead target observedAt existing w' := by
  obtain ⟨⟨⟨hopened, hnoSource, hnoJob⟩, hreading⟩, hloaded, hrow⟩ := hw
  rw [← h.commits] at hopened
  rw [← h.observations] at hnoSource hrow
  rw [← h.jobs] at hnoJob
  rw [← h.readings] at hreading
  rw [← h.loads] at hloaded
  exact ⟨⟨⟨hopened, hnoSource, hnoJob⟩, hreading⟩, hloaded, hrow⟩

theorem Same.bothSent (h : Same w w') (hw : BothSent target observedAt w) :
    BothSent target observedAt w' := by
  obtain ⟨hopened, hreading, hsourceLoaded, hjobLoaded, hsource, hjob⟩ := hw
  rw [← h.commits] at hopened
  rw [← h.readings] at hreading
  rw [← h.loads] at hsourceLoaded hjobLoaded
  rw [← h.observations] at hsource
  rw [← h.jobs] at hjob
  exact ⟨hopened, hreading, hsourceLoaded, hjobLoaded, hsource, hjob⟩

/-! ### The program of the ingestion -/

variable (rt job staleThreshold safetyWindowStart target) in
/-- A block of one of the two calls from worlds with {lit}`P`, which ends with {lit}`Q` unless
an exception leaves it. -/
abbrev Block (i : CallId) (r : Request) {α : Type} (p : Action α) (P : World → Prop)
    (Q : α → World → Prop) : Prop :=
  Valid (catalogueMachine rt) (apart job staleThreshold safetyWindowStart)
    (duelContract job staleThreshold target) i r p.run P (Ends Q fun _ _ => True)

theorem issues_of_quiet {β : Type} (c : Cmd β) (h : c.isQuiet = true) :
    DuelIssues job staleThreshold target i w c := by
  cases c <;> trivial

/-- A block of quiet commands. -/
theorem block_quiet {p : Action α} {P : World → Prop}
    (hst : (duelContract job staleThreshold target).Stable i P)
    (hsame : ∀ w w', Same w w' → P w → P w') (h : p.run.Always fun c => c.isQuiet = true) :
    Block job staleThreshold safetyWindowStart target rt i r p P fun _ => P := by
  have hvalid : Valid (catalogueMachine rt) (apart job staleThreshold safetyWindowStart)
      (duelContract job staleThreshold target) i r p.run P fun _ => P := by
    apply Valid.of_always hst _ _ h
    · intro _ c w hc _ _
      exact issues_of_quiet c hc
    · intro _ c b w w' ch hc _ _ hP he
      exact hsame w w' (exec_quiet hc he) hP
  apply hvalid.post
  intro a w _ hP
  cases a with
  | ok a => exact hP
  | error e => trivial

theorem clockRead_stable :
    (duelContract job staleThreshold target).Stable 0 (ClockRead observedAt) :=
  fun _ _ hi _ _ _ _ hguar h => h.leave hguar hi

theorem sourceRead_stable :
    (duelContract job staleThreshold target).Stable 0 (SourceRead target observedAt existing) :=
  fun _ _ hi _ _ _ _ hguar h => h.leave hguar hi

theorem jobRead_stable : (duelContract job staleThreshold target).Stable 0
    (JobRead target observedAt existing canonical) :=
  fun _ _ hi _ _ _ _ hguar h => h.leave hguar hi

theorem jobSent_stable :
    (duelContract job staleThreshold target).Stable 0 (JobSent target observedAt existing) :=
  fun _ _ hi _ _ _ _ hguar h => h.leave hguar hi

theorem bothSent_stable :
    (duelContract job staleThreshold target).Stable 0 (BothSent target observedAt) :=
  fun _ _ hi _ _ _ _ hguar h => h.leave hguar hi

theorem opened_stable : (duelContract job staleThreshold target).Stable 0 Opened :=
  fun _ _ hi _ _ _ _ hguar h => h.leave hguar hi

theorem block_clock :
    Block job staleThreshold safetyWindowStart target rt 0 r (ExceptT.lift (perform .clock)) Opened
      fun observedAt => ClockRead observedAt := by
  apply Valid.except_lift
  apply Valid.cmd opened_stable
  · intro w _ hw
    exact ⟨rfl, hw.opened⟩
  · intro observedAt w w' ch _ _ _ hw _ he
    obtain ⟨w₁, h, _, rfl⟩ := exec_clock he
    refine ⟨⟨?_, ?_, ?_⟩, ?_⟩
    · change 0 ∉ w₁.commits
      rw [h.commits]
      exact hw.opened
    · change Unwritten w₁.observations
      rw [h.observations]
      exact hw.noSource
    · change Unwritten w₁.jobs
      rw [h.jobs]
      exact hw.noJob
    · exact Function.update_self (0 : CallId) _ w₁.readings

theorem Same.clockRead (h : Same w w') (hw : ClockRead observedAt w) :
    ClockRead observedAt w' := by
  obtain ⟨⟨hopened, hnoSource, hnoJob⟩, hreading⟩ := hw
  rw [← h.commits] at hopened
  rw [← h.observations] at hnoSource
  rw [← h.jobs] at hnoJob
  rw [← h.readings] at hreading
  exact ⟨⟨hopened, hnoSource, hnoJob⟩, hreading⟩

/-- The ingestion finds the observation of its listing. -/
theorem block_getSource :
    Block job staleThreshold safetyWindowStart target rt 0 r
      (attempt (.getSource job.source job.externalJobId)) (ClockRead observedAt)
      fun found w => ∃ existing, found = some existing ∧ existing.jobId = target.jobId ∧
        SourceRead target observedAt existing w := by
  apply Valid.cmd clockRead_stable
  · intro w _ hw
    exact ⟨rfl, rfl, hw.opened⟩
  · intro found w w' ch hinv _ _ hw _ he
    rcases exec_getSource he with ⟨rfl, _⟩ | ⟨w₁, h, rfl, rfl⟩
    · trivial
    · obtain ⟨o, ho, hid, hjob⟩ := DuelInv.found hinv
      have hvisible : (w.visible 0).getSource job.source job.externalJobId = some o := by
        have hsees : (w.visible 0).observations = w.committed.observations :=
          Versioned.visible_of_unwritten hw.noSource
        rw [getSource_congr hsees]
        exact ho
      rw [hvisible]
      have hread := h.clockRead hw
      have hmem : o ∈ w.observations.committed := List.mem_of_find?_eq_some ho
      refine ⟨o, rfl, hjob, ⟨⟨hread.opened, hread.noSource, hread.noJob⟩, hread.reading⟩, ?_, ?_⟩
      · rw [← hid]
        exact List.mem_append_right _ (List.mem_singleton_self _)
      · change lookup (·.id) target.id w₁.observations.committed = some o
        rw [h.observations, ← hid]
        exact lookup_of_mem w.observations.keys hmem

/-- It finds the job of the observation, if there is one. -/
theorem block_getJob (hjob : existing.jobId = target.jobId) :
    Block job staleThreshold safetyWindowStart target rt 0 r (attempt (.getJob existing.jobId))
      (SourceRead target observedAt existing)
      fun found w => ∀ canonical, found = some canonical →
        JobRead target observedAt existing canonical w := by
  apply Valid.cmd sourceRead_stable
  · intro w _ hw
    exact ⟨rfl, hjob, hw.opened⟩
  · intro found w w' ch _ _ _ hw _ he
    rcases exec_getJob he with ⟨rfl, _⟩ | ⟨w₁, h, rfl, rfl⟩
    · trivial
    · intro canonical hfound
      have hread := h.sourceRead hw
      have hrow : lookup (·.id) target.jobId w.jobs.committed = some canonical := by
        rw [← hjob, ← Versioned.visible_of_unwritten hw.noJob]
        exact hfound
      refine ⟨⟨⟨⟨hread.opened, hread.noSource, hread.noJob⟩, hread.reading⟩, ?_, hread.sourceRow⟩,
        ?_, ?_⟩
      · exact List.mem_append_left _ hread.sourceLoaded
      · rw [hfound, ← lookup_key hrow]
        exact List.mem_append_right _ (List.mem_singleton_self _)
      · change lookup (·.id) target.jobId w₁.jobs.committed = some canonical
        rw [h.jobs]
        exact hrow

/-- A flush leaves an assigned value in a column that nobody has changed. -/
theorem flushed_self {γ : Type} [DecidableEq γ] (loaded assigned : γ) :
    flushed loaded assigned loaded = assigned := by
  unfold flushed
  split
  · exact Eq.symm ‹_›
  · rfl

theorem JobRead.sent (h : JobRead target observedAt existing canonical w)
    (hactive : canonical.isActive = true) : JobSent target observedAt existing w where
  opened := h.opened
  reading := h.reading
  noSource := h.noSource
  sourceLoaded := h.sourceLoaded
  sourceRow := h.sourceRow
  jobLoaded := h.jobLoaded
  job := by
    refine ⟨canonical, ?_, hactive⟩
    rw [Versioned.visible_of_unwritten h.noJob]
    exact h.jobRow

/-- An update of the ingestion that has to meet one row. -/
theorem block_updated {P Q : World → Prop} {c : Cmd (Attempt Nat)}
    (hst : (duelContract job staleThreshold target).Stable 0 P)
    (hissues : ∀ w, P w → DuelIssues job staleThreshold target 0 w c)
    (hexec : ∀ w w' ch, P w → exec rt 0 c ch w = some (.ok 1, w') → Q w') :
    Block job staleThreshold safetyWindowStart target rt 0 r
      (do
        let updated ← attempt c
        if updated = 1 then return () else throw .staleData)
      P fun _ => Q := by
  apply Valid.except_bind (Q := fun updated w => updated = 1 → Q w)
  · apply Valid.cmd hst
    · intro w _ hw
      exact hissues w hw
    · intro updated w w' ch _ _ _ hw _ he
      cases updated with
      | ok n =>
          rintro rfl
          exact hexec w w' ch hw he
      | error e => trivial
  · intro updated
    split
    · exact Valid.except_ret fun w _ hw => hw ‹_›
    · exact Valid.except_throw fun _ _ _ => trivial

/-- The flush of the job, which nobody has changed since it was loaded. -/
theorem block_flushJob {assigned : CanonicalJob} (hactive : assigned.isActive = true) :
    Block job staleThreshold safetyWindowStart target rt 0 r (flushAssignedJob canonical assigned)
      (JobRead target observedAt existing canonical)
      fun _ => JobSent target observedAt existing := by
  unfold flushAssignedJob
  split
  · rename_i heq
    subst heq
    exact Valid.except_ret fun w _ hw => hw.sent hactive
  · apply block_updated jobRead_stable
    · intro w hw
      exact ⟨rfl, hw.opened⟩
    · intro w w' ch hw he
      rcases exec_updateJob he with ⟨hne, _⟩ | ⟨j, w₁, _, _, hj, _, h, rfl⟩
      · exact absurd rfl hne
      · have hread := h.sourceRead hw.toSourceRead
        have hid : canonical.id = target.jobId := lookup_key hw.jobRow
        rw [Versioned.visible_of_unwritten hw.noJob, hid, hw.jobRow] at hj
        cases hj
        refine ⟨hread.opened, hread.reading, hread.noSource, hread.sourceLoaded,
          hread.sourceRow, h.loads ▸ hw.jobLoaded, flushJob canonical assigned canonical, ?_, ?_⟩
        · change lookup (·.id) target.jobId ((w₁.jobs.write 0 _).visible 0) = _
          rw [Versioned.lookup_visible, Versioned.version_write]
          simp [flushJob, hid, Option.filter, JobUpdate.apply]
        · exact (flushed_self canonical.isActive assigned.isActive).trans hactive

theorem JobSent.sent (h : JobSent target observedAt existing w)
    (hactive : existing.isActive = true) (hseen : existing.lastSeenAt = observedAt) :
    BothSent target observedAt w where
  opened := h.opened
  reading := h.reading
  sourceLoaded := h.sourceLoaded
  jobLoaded := h.jobLoaded
  source := by
    refine ⟨existing, ?_, hactive, hseen⟩
    rw [Versioned.visible_of_unwritten h.noSource]
    exact h.sourceRow
  job := h.job

theorem block_flushSource {assigned : JobSourceObservation} (hactive : assigned.isActive = true)
    (hseen : assigned.lastSeenAt = observedAt) :
    Block job staleThreshold safetyWindowStart target rt 0 r
      (flushAssignedSource existing assigned) (JobSent target observedAt existing)
      fun _ => BothSent target observedAt := by
  unfold flushAssignedSource
  split
  · rename_i heq
    subst heq
    exact Valid.except_ret fun w _ hw => hw.sent hactive hseen
  · apply block_updated jobSent_stable
    · intro w hw
      exact ⟨rfl, hw.opened⟩
    · intro w w' ch hw he
      rcases exec_updateSource he with ⟨hne, _⟩ | ⟨o, w₁, _, _, ho, _, h, rfl⟩
      · exact absurd rfl hne
      · have hid : existing.id = target.id := lookup_key hw.sourceRow
        rw [Versioned.visible_of_unwritten hw.noSource, hid, hw.sourceRow] at ho
        cases ho
        refine ⟨h.commits ▸ hw.opened, h.readings ▸ hw.reading, h.loads ▸ hw.sourceLoaded,
          h.loads ▸ hw.jobLoaded, ⟨flushSource existing assigned existing, ?_, ?_, ?_⟩, ?_⟩
        · change lookup (·.id) target.id ((w₁.observations.write 0 _).visible 0) = _
          rw [Versioned.lookup_visible, Versioned.version_write]
          simp [flushSource, hid, Option.filter, SourceUpdate.apply]
        · exact (flushed_self existing.isActive assigned.isActive).trans hactive
        · exact (flushed_self existing.lastSeenAt assigned.lastSeenAt).trans hseen
        · change ∃ j, lookup (·.id) target.jobId (w₁.jobs.visible 0) = some j ∧ _
          rw [h.jobs]
          exact hw.job

theorem block_refreshSource (hjob : existing.jobId = target.jobId) (company : Option Company)
    (contentChanged : Bool) :
    Block job staleThreshold safetyWindowStart target rt 0 r
      (refreshSource rt existing job company observedAt contentChanged)
      (SourceRead target observedAt existing) fun _ => BothSent target observedAt := by
  apply Valid.except_bind (block_getJob hjob)
  intro found
  cases found with
  | none => exact Valid.except_throw fun _ _ _ => trivial
  | some canonical =>
      apply Valid.pre (P := JobRead target observedAt existing canonical)
      · apply Valid.except_bind (Q := fun _ => JobSent target observedAt existing)
        · exact block_flushJob rfl
        · intro _
          apply Valid.except_bind (Q := fun _ => BothSent target observedAt)
          · exact block_flushSource rfl rfl
          · intro _
            exact Valid.except_ret fun _ _ hw => hw
      · intro w _ hw
        exact hw canonical rfl

theorem block_reobserve (hjob : existing.jobId = target.jobId) :
    Block job staleThreshold safetyWindowStart target rt 0 r (reobserve rt existing job observedAt)
      (SourceRead target observedAt existing) fun _ => BothSent target observedAt := by
  apply Valid.except_bind
    (block_quiet sourceRead_stable (fun _ _ h hw => h.sourceRead hw) (resolveCompany_quiet job))
  intro company
  apply Valid.except_bind (block_refreshSource hjob company _)
  intro rows
  apply Valid.except_bind
    (block_quiet bothSent_stable (fun _ _ h hw => h.bothSent hw) (companyOfResult_quiet _ _))
  intro company'
  exact Valid.except_ret fun _ _ hw => hw

theorem block_ingest :
    Block job staleThreshold safetyWindowStart target rt 0 r (ingest rt job) Opened
      fun _ w => ∃ observedAt, BothSent target observedAt w := by
  apply Valid.except_bind block_clock
  intro observedAt
  apply Valid.except_bind (Q := fun _ => ClockRead observedAt)
  · apply block_quiet clockRead_stable (fun _ _ h hw => h.clockRead hw)
    exact always_attempt rfl
  · intro _
    apply Valid.except_bind block_getSource
    intro found
    cases found with
    | none =>
        apply Valid.absurd
        rintro w ⟨existing, hfound, _⟩
        contradiction
    | some existing =>
        apply Valid.pre (P := fun w => existing.jobId = target.jobId ∧
          SourceRead target observedAt existing w)
        · apply Valid.assume
          intro hjob
          apply (block_reobserve hjob).post
          intro result w _ hw
          cases result with
          | ok result => exact ⟨observedAt, hw⟩
          | error e => trivial
        · rintro w _ ⟨existing', hfound, hw⟩
          cases hfound
          exact hw

/-- The ingestion is ready when it has sent both rows. -/
theorem BothSent.ready (h : BothSent target observedAt w)
    (hw : DuelInv job staleThreshold target w) : ReadyToCommit target w where
  loaded := h.jobLoaded
  onlySource := hw.sourceLoaded h.sourceLoaded h.opened
  onlyJob := hw.jobLoaded h.jobLoaded h.opened
  source := by
    obtain ⟨o, ho, hactive, hseen⟩ := h.source
    exact ⟨o, ho, hactive, hseen ▸ h.reading⟩
  job := h.job

/-- The commit of a call that meets the circumstances for it. -/
theorem block_commit {P : World → Prop}
    (hst : (duelContract job staleThreshold target).Stable i P)
    (hready : ∀ w, DuelInv job staleThreshold target w → P w → i = 0 → ReadyToCommit target w) :
    Block job staleThreshold safetyWindowStart target rt i r (attempt .commit) P
      fun _ _ => True := by
  apply Valid.cmd hst
  · intro w hinv hw hi
    exact hready w hinv hw hi
  · intro b w w' ch _ _ _ _ _ _
    cases b <;> trivial

theorem ingestion_valid :
    Block job staleThreshold safetyWindowStart target rt 0 r (transaction rt (.ingest job)) Opened
      fun _ _ => True := by
  have hsent : (duelContract job staleThreshold target).Stable 0 fun w =>
      ∃ observedAt, BothSent target observedAt w := by
    rintro k r' hk w w' _ _ hguar ⟨observedAt, hw⟩
    exact ⟨observedAt, hw.leave hguar hk⟩
  apply Valid.except_bind (Q := fun _ w => ∃ observedAt, BothSent target observedAt w)
  · apply Valid.except_bind block_ingest
    intro result
    exact Valid.except_ret fun _ _ hw => hw
  · intro reply
    apply Valid.except_bind (Q := fun _ _ => True)
    · apply block_commit hsent
      rintro w hinv ⟨observedAt, hw⟩ _
      exact hw.ready hinv
    · intro _
      exact Valid.except_ret fun _ _ _ => trivial

/-! ### The program of the deactivation -/

/-- The steps of both calls leave a snapshot what it is. -/
theorem showsCommitted_persistent {snapshot : Snapshot} :
    (duelContract job staleThreshold target).Persistent
      (ShowsCommitted staleThreshold target snapshot) := by
  rintro k r' w w' _ _ hguar ⟨hcommits, hshows⟩
  refine ⟨fun i hi => hguar.commits i (hcommits i hi), fun hzero reading hreading => ?_⟩
  rw [hguar.reading (Or.inr (hcommits 0 hzero))] at hreading
  exact hshows hzero reading hreading

/-- A statement of the deactivation begins. -/
theorem block_snapshot :
    Block job staleThreshold safetyWindowStart target rt 1 r (attempt .snapshot) (fun _ => True)
      (ShowsCommitted staleThreshold target) := by
  apply Valid.cmd (Contract.stable_const True)
  · intro w _ _
    trivial
  · intro b w w' ch hinv _ _ _ _ he
    have hsame := exec_quiet rfl he
    rcases exec_snapshot he with rfl | ⟨snapshot, rfl, hcommits, _, _, hscan⟩
    · trivial
    · refine ⟨fun k hk => ?_, fun hzero reading hreading hfresh => ?_⟩
      · rw [hsame.commits, ← hcommits]
        exact hk
      · rw [hsame.readings] at hreading
        rw [hcommits] at hzero
        obtain ⟨⟨o, ho, hactive, _, hnone⟩, _⟩ := hinv.settled hzero reading hreading hfresh
        obtain ⟨o', ho', _, hjob⟩ := DuelInv.lookup_target hinv
        rw [ho] at ho'
        cases ho'
        have hvisible : lookup (·.id) target.id (w.observations.visible 1) = some o := by
          rw [Versioned.lookup_visible_of_foreign (by simp [hnone])]
          exact ho
        exact ⟨o, hscan.mem_iff.mpr (mem_of_lookup hvisible), hjob, hactive⟩

/-- The rows of a statement of the deactivation. -/
theorem block_updateRows {snapshot : Snapshot} {update : UUID → Cmd (Attempt Nat)}
    (h : ∀ id w, ShowsCommitted staleThreshold target snapshot w →
      DuelIssues job staleThreshold target 1 w (update id)) (ids : List UUID) :
    Block job staleThreshold safetyWindowStart target rt 1 r (updateRows update ids)
      (ShowsCommitted staleThreshold target snapshot) fun _ _ => True := by
  induction ids with
  | nil => exact Valid.except_ret fun _ _ _ => trivial
  | cons id ids ih =>
      apply Valid.except_bind (Q := fun _ => ShowsCommitted staleThreshold target snapshot)
      · apply Valid.cmd showsCommitted_persistent.stable
        · intro w _ hw
          exact h id w hw
        · intro b w w' ch hinv hinv' hguar hw _ _
          have hw' := showsCommitted_persistent 1 r w w' hinv hinv' hguar hw
          cases b with
          | ok n => exact hw'
          | error e => trivial
      · intro updated
        apply Valid.except_bind ih
        intro rest
        exact Valid.except_ret fun _ _ _ => trivial

theorem block_deactivateStale :
    Block job staleThreshold safetyWindowStart target rt 1 r
      (deactivateStale job.source staleThreshold) (fun _ => True) fun _ _ => True := by
  apply Valid.except_bind (Q := fun _ _ => True)
  · apply Valid.except_bind block_snapshot
    intro snapshot
    apply block_updateRows
    intro id w hw
    exact ⟨rfl, rfl, hw⟩
  · intro deactivatedCount
    split
    · apply Valid.except_bind (Q := fun _ _ => True)
      · apply Valid.except_bind block_snapshot
        intro snapshot
        apply block_updateRows
        intro id w hw
        exact ⟨rfl, hw⟩
      · intro _
        exact Valid.except_ret fun _ _ _ => trivial
    · exact Valid.except_ret fun _ _ _ => trivial

theorem deactivation_valid :
    Block job staleThreshold safetyWindowStart target rt 1 r
      (transaction rt (.deactivateStaleSources job.source staleThreshold safetyWindowStart))
      (fun _ => True) fun _ _ => True := by
  have hquiet : Block job staleThreshold safetyWindowStart target rt 1 r
      (attempt (.maxLastSeen job.source)) (fun _ => True) fun _ _ => True :=
    block_quiet (Contract.stable_const True) (fun _ _ _ _ => trivial) (always_attempt rfl)
  apply Valid.except_bind (Q := fun _ _ => True)
  · apply Valid.except_bind (Q := fun _ _ => True)
    · apply Valid.except_bind hquiet
      intro healthCheck
      cases healthCheck with
      | none => exact Valid.except_ret fun _ _ _ => trivial
      | some healthCheck =>
          by_cases h : healthCheck < safetyWindowStart
          · simp only [h, if_true]
            exact Valid.except_ret fun _ _ _ => trivial
          · simp only [h, if_false]
            exact block_deactivateStale
    · intro n
      exact Valid.except_ret fun _ _ _ => trivial
  · intro reply
    apply Valid.except_bind (Q := fun _ _ => True)
    · apply block_commit (Contract.stable_const True)
      intro w _ _ hi
      contradiction
    · intro _
      exact Valid.except_ret fun _ _ _ => trivial

/-! ## Soundness -/

/-- The call is the ingestion, which has done nothing yet, or it is the deactivation. -/
def DuelStart (i : CallId) (w : World) : Prop :=
  i = 0 → Opened w

theorem duel_starts (h : (apart job staleThreshold safetyWindowStart).starts i r = true) :
    (i = 0 ∧ r = .ingest job) ∨
      (i = 1 ∧ r = .deactivateStaleSources job.source staleThreshold safetyWindowStart) := by
  change (duel job staleThreshold safetyWindowStart).starts i r = true at h
  simpa [duel] using h

/-- The two calls keep their contract. -/
theorem duel_sound (rt : Runtime) (job : NormalizedJob) (staleThreshold safetyWindowStart : Time)
    (now : Time) {c₀ : StoredDatabase}
    (htarget : c₀.getSource job.source job.externalJobId = some target) :
    Sound (catalogueMachine rt) (apart job staleThreshold safetyWindowStart)
      (duelContract job staleThreshold target) (World.initial now c₀) DuelStart
      fun _ _ _ _ => True where
  init := by
    refine ⟨⟨target, htarget, rfl, rfl⟩, ?_, ?_, ?_, ?_, ?_⟩ <;> intro h
    · intro i v hv
      contradiction
    all_goals exact absurd h List.not_mem_nil
  pre_init _ _ := ⟨List.not_mem_nil, fun _ _ h => by contradiction, fun _ _ h => by contradiction⟩
  pre_stable i j r hj w w' _ _ hguar h hi := (h hi).leave hguar (hi ▸ hj)
  post_stable _ _ _ := Contract.stable_const True
  exec i r _ cmd ch b w w' hstarts hw hissues hallows he := by
    have hi : i = 0 ∨ i = 1 := (duel_starts hstarts).imp And.left And.left
    exact exec_duel hi hw hissues hallows he
  close i r w hstarts hw := duel_close ((duel_starts hstarts).imp And.left And.left) hw
  refl i r w _ _ := by
    have hsame : Same w w := ⟨rfl, rfl, rfl, rfl, rfl, rfl⟩
    exact hsame.duelGuar
  valid i r hstarts := by
    rcases duel_starts hstarts with ⟨rfl, rfl⟩ | ⟨rfl, rfl⟩
    · apply (ingestion_valid.pre fun w _ hw => hw rfl).post
      intro _ _ _ _
      trivial
    · apply (deactivation_valid.pre fun w _ _ => trivial).post
      intro _ _ _ _
      trivial

end

/-- In every run of an ingestion of a listing that the catalogue has and of a deactivation of
its source, in which neither takes a row from under the other: once both have committed, the
observation that the ingestion has refreshed since the stale threshold is active, and its job
is active. -/
theorem activity_kept (rt : Runtime) (job : NormalizedJob)
    (staleThreshold safetyWindowStart now : Time) (c₀ : StoredDatabase)
    (hlisted : (c₀.getSource job.source job.externalJobId).isSome = true)
    (c : Config World Cmd Request (Attempt Reply))
    (h : (catalogueMachine rt).Reachable (apart job staleThreshold safetyWindowStart)
      (World.initial now c₀) c) :
    ActivityKept job.source job.externalJobId staleThreshold c.world := by
  obtain ⟨target, htarget⟩ := Option.isSome_iff_exists.mp hlisted
  have hinv := ((duel_sound rt job staleThreshold safetyWindowStart now htarget).reachable h).1
  intro hcommitted _ reading hreading hfresh
  obtain ⟨⟨o, ho, hactive, _, _⟩, j, hj, hjactive, _⟩ :=
    hinv.settled hcommitted reading hreading hfresh
  obtain ⟨o', ho', hid, hjob⟩ := hinv.found
  have hmem : o' ∈ c.world.observations.committed := List.mem_of_find?_eq_some ho'
  have hsame : lookup (·.id) target.id c.world.observations.committed = some o' := by
    rw [← hid]
    exact lookup_of_mem c.world.observations.keys hmem
  rw [ho] at hsame
  cases hsame
  refine ⟨o, j, ho', hactive, ?_, hjactive⟩
  rw [hjob]
  exact hj

/-! ## A stale listing that is seen again -/

/-- A listing that has not been seen for a while. -/
def backendListing : NormalizedJob :=
  .bare "dice" "a1" "Backend Engineer" "backend engineer" "backend"

/-- A listing of the same source. -/
def dataListing : NormalizedJob :=
  .bare "dice" "b2" "Data Engineer" "data engineer" "data"

/-- The jobs of the two listings. -/
def staleJobs : List CanonicalJob :=
  [createdJob sampleRuntime 1 backendListing none 90,
    createdJob sampleRuntime 2 dataListing none 900]

/-- The observations of the two listings. -/
def staleSources : List JobSourceObservation :=
  [createdSource 3 backendListing (createdJob sampleRuntime 1 backendListing none 90) 90,
    createdSource 4 dataListing (createdJob sampleRuntime 2 dataListing none 900) 900]

/-- A catalogue of the two listings, of which one is stale. -/
def staleCatalogue : StoredDatabase where
  companies := []
  jobs := staleJobs
  observations := staleSources
  jobIds := by decide
  companyIds := List.nodup_nil
  observationIds := by decide

/-- What the second statement of the deactivation sees. -/
def deactivatedTables : Database where
  companies := []
  jobs := staleJobs
  observations := updateWhere (·.id = 3) (fun o => { o with isActive := false }) staleSources

/-- The ingestion loads the observation and its job. -/
def loadSteps : List (Label Choice Request) :=
  [.start 0 (.ingest backendListing), .step 0 {}, .step 0 {}, .step 0 {}, .step 0 {}]

/-- It sends what it has assigned, and commits. -/
def sendSteps : List (Label Choice Request) :=
  [.step 0 {}, .step 0 {}, .step 0 {}]

/-- The deactivation runs and commits. -/
def deactivateSteps : List (Label Choice Request) :=
  [.start 1 (.deactivateStaleSources "dice" 500 800), .step 1 {},
    .step 1 ⟨0, .scan staleCatalogue.toDatabase⟩, .step 1 {}, .step 1 ⟨0, .scan deactivatedTables⟩,
    .step 1 {}, .step 1 {}]

/-- The commits of a run, the clock reading of the ingestion, and whether the observation of
the stale listing is active. -/
def outcome (c : Config World Cmd Request (Attempt Reply)) :
    List CallId × Option Time × Option Bool :=
  (c.world.commits, c.world.readings 0,
    (c.world.committed.getSource "dice" "a1").map (·.isActive))

/-- The ingestion loads the rows after the deactivation has committed. -/
theorem activity_kept_after : ∃ c,
    (catalogueMachine sampleRuntime).play (apart backendListing 500 800)
        (deactivateSteps ++ loadSteps ++ sendSteps)
        (.initial (World.initial 1000 staleCatalogue)) = some c ∧
      c.world.commits = [1, 0] ∧ ActivityKept "dice" "a1" 500 c.world := by
  have hrun : ((catalogueMachine sampleRuntime).play (apart backendListing 500 800)
      (deactivateSteps ++ loadSteps ++ sendSteps)
      (.initial (World.initial 1000 staleCatalogue))).map outcome =
        some ([1, 0], some 1000, some true) := by
    decide
  obtain ⟨c, hc, houtcome⟩ := Option.map_eq_some_iff.mp hrun
  exact ⟨c, hc, congrArg Prod.fst houtcome,
    activity_kept sampleRuntime backendListing 500 800 1000 staleCatalogue (by decide) c
      (Machine.reachable_of_play hc)⟩

/-- The ingestion has loaded the rows as active when the deactivation commits, so its flushes
leave them inactive. -/
theorem stale_load_stays_inactive : ∃ c,
    (catalogueMachine sampleRuntime).play (duel backendListing 500 800)
        (loadSteps ++ deactivateSteps ++ sendSteps)
        (.initial (World.initial 1000 staleCatalogue)) = some c ∧
      ¬ ActivityKept "dice" "a1" 500 c.world := by
  have hrun : ((catalogueMachine sampleRuntime).play (duel backendListing 500 800)
      (loadSteps ++ deactivateSteps ++ sendSteps)
      (.initial (World.initial 1000 staleCatalogue))).map outcome =
        some ([1, 0], some 1000, some false) := by
    decide
  obtain ⟨c, hc, houtcome⟩ := Option.map_eq_some_iff.mp hrun
  refine ⟨c, hc, fun h => ?_⟩
  have hcommits : c.world.commits = [1, 0] := congrArg Prod.fst houtcome
  have hreading : c.world.readings 0 = some 1000 :=
    congrArg (fun result => result.2.1) houtcome
  have hinactive : (c.world.committed.getSource "dice" "a1").map (·.isActive) = some false :=
    congrArg (fun result => result.2.2) houtcome
  obtain ⟨o, _, ho, hactive, _⟩ :=
    h (by rw [hcommits]; decide) (by rw [hcommits]; decide) 1000 hreading (by decide)
  rw [ho, Option.map_some, hactive] at hinactive
  contradiction

end Concurrent
end Catalogue
end HireAndTech
