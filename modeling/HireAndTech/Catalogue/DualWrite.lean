import HireAndTech.Catalogue.Rows
import HireAndTech.Runs.Partial

/-!
# Dual writes

Collection writes a listing to the legacy table {lit}`global_jobs` and then ingests it into
the catalogue.  The two merge routines follow the same rules field by field, except that
the catalogue keeps its titles when the listing has a placeholder title.

A pair of writes of which one raises is no part of a sequence of dual writes.

Main results:

- Definitions {lit}`upsertWithOutcome` and {lit}`dualWrite`: the operations.
- Theorem {lit}`agree_refreshed`: when the two merges agree.
- Theorem {lit}`dual_write_parity_iff`: when all states of a sequence of dual writes of one
  listing agree.
-/

namespace HireAndTech
namespace Catalogue

open Relational

/-! ## The legacy table -/

/-- Legacy normalized job read model. -/
structure GlobalJob where
  id : UUID
  source : String
  externalJobId : String
  jobTitle : String
  normalizedTitle : String
  roleFamily : String
  company : Option String
  location : Option String
  jobUrl : Option String
  description : Option String
  salaryText : Option String
  employmentType : Option String
  remote : Option Bool
  skills : List String
  postedAt : Option Time
  experienceMinYears : Option Int
  experienceMaxYears : Option Int
  experienceText : Option String
  scrapedAt : Time
  lastSeenAt : Time
  isActive : Bool
  contentHash : String
deriving DecidableEq, Repr

/-- The provider and the provider's id of a legacy row. -/
def GlobalJob.identity (g : GlobalJob) : String × String :=
  (g.source, g.externalJobId)

/-- The CHECK constraints of {lit}`global_jobs`. -/
def GlobalJob.checks (g : GlobalJob) : Bool :=
  g.experienceMinYears.all (0 ≤ ·) && g.experienceMaxYears.all (0 ≤ ·) &&
    ordered g.experienceMinYears g.experienceMaxYears

/-- The table {lit}`global_jobs` with its unique keys. -/
structure LegacyTable where
  rows : List GlobalJob
  ids : Unique (·.id) rows
  identities : Unique GlobalJob.identity rows

/-- `GlobalJob(**values)`. -/
def incomingValues (id : UUID) (job : NormalizedJob) (now : Time) : GlobalJob where
  id := id
  source := job.source
  externalJobId := job.externalJobId
  jobTitle := job.jobTitle
  normalizedTitle := job.normalizedTitle
  roleFamily := job.roleFamily
  company := job.company
  location := job.location
  jobUrl := job.jobUrl
  description := job.description
  salaryText := job.salaryText
  employmentType := job.employmentType
  remote := job.remote
  skills := job.skills
  postedAt := job.postedAt
  experienceMinYears := job.experienceMinYears
  experienceMaxYears := job.experienceMaxYears
  experienceText := job.experienceText
  scrapedAt := now
  lastSeenAt := now
  isActive := true
  contentHash := job.contentHash

/-- `_merge_values`. -/
def mergeValues (existing values : GlobalJob) : GlobalJob :=
  { values with
    id := existing.id
    company := preferText values.company existing.company
    location := preferText values.location existing.location
    jobUrl := preferText values.jobUrl existing.jobUrl
    description := preferText values.description existing.description
    salaryText := preferText values.salaryText existing.salaryText
    employmentType := preferText values.employmentType existing.employmentType
    remote := values.remote <|> existing.remote
    skills := preferList values.skills existing.skills
    postedAt := values.postedAt <|> existing.postedAt
    experienceMinYears := values.experienceMinYears <|> existing.experienceMinYears
    experienceMaxYears := values.experienceMaxYears <|> existing.experienceMaxYears
    experienceText := preferText values.experienceText existing.experienceText }

/-- `JobUpsertStatus`. -/
inductive JobUpsertStatus
  | inserted
  | updated
  | skipped
deriving DecidableEq, Repr

namespace LegacyTable

variable (t : LegacyTable)

/-- The row of an identity. -/
def get (source externalJobId : String) : Option GlobalJob :=
  t.rows.find? fun g => g.source = source && g.externalJobId = externalJobId

/-- `INSERT INTO global_jobs`. -/
def insert (g : GlobalJob) : Option LegacyTable :=
  if h : g.checks = true ∧ (∀ x ∈ t.rows, x.id ≠ g.id) ∧ ∀ x ∈ t.rows, x.identity ≠ g.identity then
    some ⟨t.rows ++ [g], t.ids.insert h.2.1, t.identities.insert h.2.2⟩
  else none

/-- `UPDATE global_jobs` of one instance. -/
def update (g : GlobalJob) : Option LegacyTable :=
  if h : g.checks = true ∧ ∃ x ∈ t.rows, x.id = g.id ∧ g.identity = x.identity then
    some
      { rows := put (·.id) g t.rows
        ids := h.2.elim fun _ hx => t.ids.put t.ids hx.1 hx.2.1 hx.2.1.symm
        identities := h.2.elim fun _ hx => t.identities.put t.ids hx.1 hx.2.1 hx.2.2 }
  else none

/-- `upsert_with_outcome`. -/
def upsertWithOutcome (job : NormalizedJob) (now : Time) (newId : UUID) :
    Option (LegacyTable × GlobalJob × JobUpsertStatus) :=
  match t.get job.source job.externalJobId with
  | none =>
      let row := incomingValues newId job now
      (t.insert row).map fun t => (t, row, .inserted)
  | some existing =>
      let row := mergeValues existing (incomingValues newId job now)
      let status := if existing.contentHash = job.contentHash then .skipped else .updated
      (t.update row).map fun t => (t, row, status)

end LegacyTable

/-! ## Dual writes -/

/-- The legacy table and the catalogue. -/
structure Stores where
  legacy : LegacyTable
  catalogue : Database

/-- A dual write of a listing of one identity, with what the two writes read. -/
structure DualWrite (source externalJobId : String) where
  job : NormalizedJob
  hsource : job.source = source
  hid : job.externalJobId = externalJobId
  now : Time
  observedAt : Time
  legacyId : UUID
  choice : IngestChoice

variable {source externalJobId : String}

/-- The legacy write followed by the ingestion; {lean}`none` when one of them raises. -/
def dualWrite (rt : Runtime) (s : Stores) (call : DualWrite source externalJobId) :
    Option Stores := do
  let (legacy, _, _) ← s.legacy.upsertWithOutcome call.job call.now call.legacyId
  let catalogue ← step rt s.catalogue (.ingest call.job call.observedAt call.choice)
  return ⟨legacy, catalogue⟩

/-- The legacy row and the canonical job agree. -/
structure Agree (g : GlobalJob) (j : CanonicalJob) : Prop where
  title : g.jobTitle = j.title
  normalizedTitle : g.normalizedTitle = j.normalizedTitle
  roleFamily : g.roleFamily = j.roleFamily
  location : g.location = j.location
  description : g.description = j.description
  salaryText : g.salaryText = j.salaryText
  employmentType : g.employmentType = j.employmentType
  skills : g.skills = j.skills
  postedAt : g.postedAt = j.postedAt
  experienceMinYears : g.experienceMinYears = j.experienceMinYears
  experienceMaxYears : g.experienceMaxYears = j.experienceMaxYears
  experienceText : g.experienceText = j.experienceText

/-- The canonical job of the observation of an identity. -/
def CanonicalOf (c : Database) (identity : String × String) (j : CanonicalJob) : Prop :=
  j ∈ c.jobs ∧ ∃ o ∈ c.observations, o.identity = identity ∧ o.jobId = j.id

/-- The legacy row and the canonical job of the identity agree. -/
def Parity (source externalJobId : String) (s : Stores) : Prop :=
  ∀ g ∈ s.legacy.rows, g.identity = (source, externalJobId) →
    ∀ j, CanonicalOf s.catalogue (source, externalJobId) j → Agree g j

/-- The canonical job of the identity has no other observation. -/
def Sole (source externalJobId : String) (s : Stores) : Prop :=
  ∀ j, CanonicalOf s.catalogue (source, externalJobId) j →
    ∀ o ∈ s.catalogue.observations, o.jobId = j.id → o.identity = (source, externalJobId)

instance Agree.decidable (g : GlobalJob) (j : CanonicalJob) : Decidable (Agree g j) :=
  decidable_of_iff
    (g.jobTitle = j.title ∧ g.normalizedTitle = j.normalizedTitle ∧ g.roleFamily = j.roleFamily ∧
      g.location = j.location ∧ g.description = j.description ∧ g.salaryText = j.salaryText ∧
      g.employmentType = j.employmentType ∧ g.skills = j.skills ∧ g.postedAt = j.postedAt ∧
      g.experienceMinYears = j.experienceMinYears ∧ g.experienceMaxYears = j.experienceMaxYears ∧
      g.experienceText = j.experienceText)
    ⟨fun ⟨h₁, h₂, h₃, h₄, h₅, h₆, h₇, h₈, h₉, h₁₀, h₁₁, h₁₂⟩ =>
      ⟨h₁, h₂, h₃, h₄, h₅, h₆, h₇, h₈, h₉, h₁₀, h₁₁, h₁₂⟩,
    fun ⟨h₁, h₂, h₃, h₄, h₅, h₆, h₇, h₈, h₉, h₁₀, h₁₁, h₁₂⟩ =>
      ⟨h₁, h₂, h₃, h₄, h₅, h₆, h₇, h₈, h₉, h₁₀, h₁₁, h₁₂⟩⟩

/-- A statement about the canonical job of an identity ranges over the rows. -/
theorem forall_canonicalOf {c : Database} {identity : String × String} {p : CanonicalJob → Prop} :
    (∀ j, CanonicalOf c identity j → p j) ↔
      ∀ j ∈ c.jobs, (∃ o ∈ c.observations, o.identity = identity ∧ o.jobId = j.id) → p j := by
  simp only [CanonicalOf, and_imp]

instance Parity.decidable (source externalJobId : String) :
    DecidablePred (Parity source externalJobId) := fun s =>
  decidable_of_iff
    (∀ g ∈ s.legacy.rows, g.identity = (source, externalJobId) → ∀ j ∈ s.catalogue.jobs,
      (∃ o ∈ s.catalogue.observations, o.identity = (source, externalJobId) ∧ o.jobId = j.id) →
        Agree g j)
    (forall₃_congr fun _ _ _ => forall_canonicalOf.symm)

instance Sole.decidable (source externalJobId : String) :
    DecidablePred (Sole source externalJobId) := fun _ =>
  decidable_of_iff _ forall_canonicalOf.symm

/-- A listing with a placeholder title carries the titles of the canonical job. -/
def TitleKept (s : Stores) (call : DualWrite source externalJobId) : Prop :=
  call.job.hasRealTitle = false → ∀ j, CanonicalOf s.catalogue (source, externalJobId) j →
    call.job.jobTitle = j.title ∧ call.job.normalizedTitle = j.normalizedTitle

/-! ## The two merges -/

section

variable {rt : Runtime} {g : GlobalJob} {j : CanonicalJob} {job : NormalizedJob}
  {company : Option Company} {observedAt now : Time} {newId : UUID}

/-- A new row and a new canonical job agree. -/
theorem agree_created (id : UUID) :
    Agree (incomingValues newId job now) (createdJob rt id job company observedAt) := by
  constructor <;> rfl

/-- The two merges agree exactly when the catalogue takes the titles of the listing or has
them. -/
theorem agree_refreshed (h : Agree g j) :
    Agree (mergeValues g (incomingValues newId job now))
        (refreshedJob rt j job company observedAt) ↔
      (job.hasRealTitle = false →
        job.jobTitle = j.title ∧ job.normalizedTitle = j.normalizedTitle) := by
  constructor
  · intro hafter hplaceholder
    have htitle := hafter.title
    have hnormalized := hafter.normalizedTitle
    simp only [refreshedJob, hplaceholder, Bool.false_eq_true, if_false] at htitle hnormalized
    exact ⟨htitle, hnormalized⟩
  · intro htitles
    constructor
    case title | normalizedTitle =>
      cases hreal : job.hasRealTitle with
      | true => simp [mergeValues, incomingValues, refreshedJob, hreal]
      | false => simp [mergeValues, incomingValues, refreshedJob, hreal, htitles hreal]
    case roleFamily => rfl
    case location => simp [mergeValues, incomingValues, refreshedJob, preferText, h.location]
    case description => simp [mergeValues, incomingValues, refreshedJob, h.description]
    case salaryText => simp [mergeValues, incomingValues, refreshedJob, h.salaryText]
    case employmentType => simp [mergeValues, incomingValues, refreshedJob, h.employmentType]
    case skills => simp [mergeValues, incomingValues, refreshedJob, h.skills]
    case postedAt => simp [mergeValues, incomingValues, refreshedJob, h.postedAt]
    case experienceMinYears =>
      simp [mergeValues, incomingValues, refreshedJob, h.experienceMinYears]
    case experienceMaxYears =>
      simp [mergeValues, incomingValues, refreshedJob, h.experienceMaxYears]
    case experienceText => simp [mergeValues, incomingValues, refreshedJob, h.experienceText]

end

/-! ## One dual write -/

section

variable {rt : Runtime} {t t' : LegacyTable} {c : Database} {s s' : Stores} {g row : GlobalJob}
  {j : CanonicalJob} {job : NormalizedJob} {now : Time} {newId : UUID} {status : JobUpsertStatus}
  {call : DualWrite source externalJobId}

theorem LegacyTable.get_eq_some (h : t.get source externalJobId = some g) :
    g ∈ t.rows ∧ g.identity = (source, externalJobId) := by
  have hp := List.find?_some h
  simp only [Bool.and_eq_true, decide_eq_true_eq] at hp
  exact ⟨List.mem_of_find?_eq_some h, by rw [GlobalJob.identity, hp.1, hp.2]⟩

theorem LegacyTable.get_eq_none (h : t.get source externalJobId = none) :
    ∀ x ∈ t.rows, x.identity ≠ (source, externalJobId) := by
  intro x hx heq
  have hp := List.find?_eq_none.mp h x hx
  simp only [GlobalJob.identity, Prod.mk.injEq] at heq
  simp [heq.1, heq.2] at hp

/-- The row that an upsert returns: a new row, or the merge of the one that exists. -/
theorem LegacyTable.upsert_row (h : t.upsertWithOutcome job now newId = some (t', row, status)) :
    row = match t.get job.source job.externalJobId with
      | none => incomingValues newId job now
      | some existing => mergeValues existing (incomingValues newId job now) := by
  unfold upsertWithOutcome at h
  split at h <;> obtain ⟨_, _, heq⟩ := Option.map_eq_some_iff.mp h <;> cases heq <;> rfl

/-- The row that an upsert returns is in the table. -/
theorem LegacyTable.upsert_mem (h : t.upsertWithOutcome job now newId = some (t', row, status)) :
    row ∈ t'.rows ∧ row.identity = (job.source, job.externalJobId) := by
  refine ⟨?_, by rw [upsert_row h]; split <;> rfl⟩
  unfold upsertWithOutcome at h
  split at h
  · obtain ⟨table, hinsert, heq⟩ := Option.map_eq_some_iff.mp h
    cases heq
    unfold insert at hinsert
    split at hinsert
    · cases hinsert
      simp
    · contradiction
  · obtain ⟨table, hupdate, heq⟩ := Option.map_eq_some_iff.mp h
    cases heq
    unfold update at hupdate
    split at hupdate
    · rename_i hex
      cases hupdate
      obtain ⟨_, x, hx, hxid, _⟩ := hex
      exact mem_put_self hx hxid
    · contradiction

/-- The canonical job of an identity is unique. -/
theorem canonicalOf_unique (hgraph : Graph c) {identity : String × String} {x : CanonicalJob}
    (hj : CanonicalOf c identity j) (hx : CanonicalOf c identity x) : x = j := by
  obtain ⟨hj, o, ho, hoid, hojob⟩ := hj
  obtain ⟨hx, o', ho', hoid', hojob'⟩ := hx
  have hsame : o' = o := hgraph.identities.eq ho' ho (hoid'.trans hoid.symm)
  subst hsame
  exact hgraph.jobIds.eq hx hj (hojob'.symm.trans hojob)

/-- Parity speaks about one row and one canonical job. -/
theorem parity_iff (hgraph : Graph s.catalogue) (hg : g ∈ s.legacy.rows)
    (hidentity : g.identity = (source, externalJobId))
    (hj : CanonicalOf s.catalogue (source, externalJobId) j) :
    Parity source externalJobId s ↔ Agree g j := by
  constructor
  · intro h
    exact h g hg hidentity j hj
  · intro h x hx hxid y hy
    rw [s.legacy.identities.eq hx hg (hxid.trans hidentity.symm), canonicalOf_unique hgraph hj hy]
    exact h

theorem titleKept_iff (hgraph : Graph s.catalogue)
    (hj : CanonicalOf s.catalogue (source, externalJobId) j) :
    TitleKept s call ↔ (call.job.hasRealTitle = false →
      call.job.jobTitle = j.title ∧ call.job.normalizedTitle = j.normalizedTitle) := by
  constructor
  · intro h hplaceholder
    exact h hplaceholder j hj
  · intro h hplaceholder x hx
    rw [canonicalOf_unique hgraph hj hx]
    exact h hplaceholder

theorem dualWrite_eq_some (h : dualWrite rt s call = some s') :
    ∃ row status,
      s.legacy.upsertWithOutcome call.job call.now call.legacyId =
        some (s'.legacy, row, status) ∧
      Ingested rt s.catalogue call.job call.observedAt call.choice s'.catalogue := by
  simp only [dualWrite, Option.bind_eq_bind, Option.bind_eq_some_iff, Option.pure_def,
    Option.some.injEq, Prod.exists] at h
  obtain ⟨legacy, row, status, hupsert, catalogue, hstep, rfl⟩ := h
  obtain ⟨⟨_, result⟩, hingest, rfl⟩ := Option.map_eq_some_iff.mp hstep
  exact ⟨row, status, hupsert, ingested_of_ingest hingest⟩

theorem graph_dualWrite (hgraph : Graph s.catalogue) (h : dualWrite rt s call = some s') :
    Graph s'.catalogue := by
  obtain ⟨_, _, _, hi⟩ := dualWrite_eq_some h
  exact (hgraph.ingested hi).1

/-- Both tables have the identity. -/
structure Linked (source externalJobId : String) (s : Stores) : Prop where
  graph : Graph s.catalogue
  row : ∃ g ∈ s.legacy.rows, g.identity = (source, externalJobId)
  canonical : ∃ j, CanonicalOf s.catalogue (source, externalJobId) j

/-- Neither table has the identity. -/
structure Absent (source externalJobId : String) (s : Stores) : Prop where
  graph : Graph s.catalogue
  row : ∀ g ∈ s.legacy.rows, g.identity ≠ (source, externalJobId)
  observation : ∀ o ∈ s.catalogue.observations, o.identity ≠ (source, externalJobId)

/-- A dual write of an identity that both tables have merges both rows. -/
theorem Linked.merged (h : Linked source externalJobId s) (hstep : dualWrite rt s call = some s')
    (hg : g ∈ s.legacy.rows) (hidentity : g.identity = (source, externalJobId))
    (hj : CanonicalOf s.catalogue (source, externalJobId) j) :
    ∃ company, mergeValues g (incomingValues call.legacyId call.job call.now) ∈ s'.legacy.rows ∧
      CanonicalOf s'.catalogue (source, externalJobId)
        (refreshedJob rt j call.job company call.observedAt) := by
  obtain ⟨row, status, hupsert, hi⟩ := dualWrite_eq_some hstep
  have hget : s.legacy.get call.job.source call.job.externalJobId = some g := by
    rw [call.hsource, call.hid]
    cases hfind : s.legacy.get source externalJobId with
    | none => exact absurd hidentity (LegacyTable.get_eq_none hfind g hg)
    | some x =>
        obtain ⟨hx, hxid⟩ := LegacyTable.get_eq_some hfind
        rw [s.legacy.identities.eq hx hg (hxid.trans hidentity.symm)]
  have hrow := LegacyTable.upsert_row hupsert
  rw [hget] at hrow
  have hmem := (LegacyTable.upsert_mem hupsert).1
  rw [hrow] at hmem
  obtain ⟨hjmem, o, ho, hoid, hojob⟩ := hj
  cases hi with
  | reobserved c₁ o' j' company hsource _ hjob _ hjobs hobservations =>
      have hsame : o' = o := by
        obtain ⟨ho', hoid'⟩ := getSource_eq_some hsource
        rw [call.hsource, call.hid] at hoid'
        exact h.graph.identities.eq ho' ho (hoid'.trans hoid.symm)
      subst hsame
      have hsamejob : j' = j := by
        obtain ⟨hj', hjid'⟩ := getJob_eq_some hjob
        exact h.graph.jobIds.eq hj' hjmem (hjid'.trans hojob)
      subst hsamejob
      refine ⟨company, hmem, ?_,
        refreshedSource o' call.job call.observedAt (o'.contentHash ≠ call.job.contentHash),
        ?_, hoid, hojob⟩
      · rw [hjobs]
        exact mem_put_self hjmem rfl
      · rw [hobservations]
        exact mem_put_self ho rfl
  | created _ _ hsource =>
      rw [call.hsource, call.hid] at hsource
      exact absurd hoid (getSource_eq_none hsource o ho)
  | merged _ _ _ hsource =>
      rw [call.hsource, call.hid] at hsource
      exact absurd hoid (getSource_eq_none hsource o ho)

theorem Linked.step (h : Linked source externalJobId s) (hstep : dualWrite rt s call = some s') :
    Linked source externalJobId s' := by
  obtain ⟨g, hg, hidentity⟩ := h.row
  obtain ⟨j, hj⟩ := h.canonical
  obtain ⟨company, hrow, hcanonical⟩ := h.merged hstep hg hidentity hj
  refine ⟨graph_dualWrite h.graph hstep, ⟨_, hrow, ?_⟩, _, hcanonical⟩
  rw [GlobalJob.identity, mergeValues, incomingValues, call.hsource, call.hid]

/-- A dual write keeps parity exactly when it keeps the titles. -/
theorem Linked.parity_step (h : Linked source externalJobId s)
    (hparity : Parity source externalJobId s) (hstep : dualWrite rt s call = some s') :
    Parity source externalJobId s' ↔ TitleKept s call := by
  obtain ⟨g, hg, hidentity⟩ := h.row
  obtain ⟨j, hj⟩ := h.canonical
  obtain ⟨company, hrow, hcanonical⟩ := h.merged hstep hg hidentity hj
  have hidentity' : (mergeValues g (incomingValues call.legacyId call.job call.now)).identity =
      (source, externalJobId) := by
    rw [GlobalJob.identity, mergeValues, incomingValues, call.hsource, call.hid]
  rw [parity_iff (graph_dualWrite h.graph hstep) hrow hidentity' hcanonical,
    titleKept_iff h.graph hj]
  exact agree_refreshed ((parity_iff h.graph hg hidentity hj).mp hparity)

/-- The first dual write of an identity creates two rows that agree, unless it merges the
listing into a job with another observation. -/
theorem Absent.step (h : Absent source externalJobId s) (hstep : dualWrite rt s call = some s')
    (hsole : Sole source externalJobId s') :
    Linked source externalJobId s' ∧ Parity source externalJobId s' := by
  have hgraph' := graph_dualWrite h.graph hstep
  obtain ⟨row, status, hupsert, hi⟩ := dualWrite_eq_some hstep
  have hget : s.legacy.get call.job.source call.job.externalJobId = none := by
    rw [call.hsource, call.hid]
    cases hfind : s.legacy.get source externalJobId with
    | none => rfl
    | some x =>
        obtain ⟨hx, hxid⟩ := LegacyTable.get_eq_some hfind
        exact absurd hxid (h.row x hx)
  have hrow := LegacyTable.upsert_row hupsert
  rw [hget] at hrow
  obtain ⟨hmem, hidentity⟩ := LegacyTable.upsert_mem hupsert
  rw [call.hsource, call.hid] at hidentity
  cases hi with
  | reobserved _ o _ _ hsource =>
      obtain ⟨ho, hoid⟩ := getSource_eq_some hsource
      rw [call.hsource, call.hid] at hoid
      exact absurd hoid (h.observation o ho)
  | created c₁ company _ _ _ _ _ _ hjobs hobservations =>
      have hcanonical : CanonicalOf s'.catalogue (source, externalJobId)
          (createdJob rt call.choice.jobId call.job company call.observedAt) := by
        refine ⟨by simp [hjobs], createdSource call.choice.sourceId call.job
          (createdJob rt call.choice.jobId call.job company call.observedAt) call.observedAt,
          by simp [hobservations], ?_, rfl⟩
        rw [JobSourceObservation.identity, createdSource, call.hsource, call.hid]
      refine ⟨⟨hgraph', ⟨row, hmem, hidentity⟩, _, hcanonical⟩, ?_⟩
      rw [parity_iff hgraph' hmem hidentity hcanonical, hrow]
      exact agree_created call.choice.jobId
  | merged c₁ company candidate _ hresolve hselect _ _ hjobs hobservations =>
      -- the candidate is observed already, by another identity
      have hcandidate : candidate ∈ s.catalogue.jobs :=
        (resolveCompany_eq_some hresolve).1 ▸ selectCanonical_mem hselect
      obtain ⟨x, hx, hxjob⟩ := h.graph.observed candidate hcandidate
      have hcanonical : CanonicalOf s'.catalogue (source, externalJobId)
          (markCanonicalSeen candidate call.observedAt) := by
        refine ⟨?_, createdSource call.choice.sourceId call.job
          (markCanonicalSeen candidate call.observedAt) call.observedAt,
          by simp [hobservations], ?_, rfl⟩
        · rw [hjobs]
          exact mem_put_self hcandidate rfl
        · rw [JobSourceObservation.identity, createdSource, call.hsource, call.hid]
      have hxid := hsole _ hcanonical x (by simp [hobservations, hx]) hxjob
      exact absurd hxid (h.observation x hx)

end

/-! ## Sequences of dual writes -/

/-- Once both tables have the identity, they agree in every state exactly when every dual
write keeps the titles. -/
theorem Linked.parity_iff {rt : Runtime} {s : Stores} (h : Linked source externalJobId s)
    (hparity : Parity source externalJobId s) (calls : List (DualWrite source externalJobId)) :
    Runs.Throughout (dualWrite rt) (Parity source externalJobId) s calls ↔
      Runs.Each (dualWrite rt) TitleKept s calls := by
  apply Runs.throughout_iff_each (J := Linked source externalJobId)
  · intro s call s' hlinked hstep
    exact hlinked.step hstep
  · intro s call s' hlinked hparity hstep
    exact hlinked.parity_step hparity hstep
  · exact h
  · exact hparity

theorem Absent.parity_iff {rt : Runtime} {s : Stores} (h : Absent source externalJobId s)
    (calls : List (DualWrite source externalJobId))
    (hsole : Runs.Throughout (dualWrite rt) (Sole source externalJobId) s calls) :
    Runs.Throughout (dualWrite rt) (Parity source externalJobId) s calls ↔
      Runs.Each (dualWrite rt) TitleKept s calls := by
  have hparity : Parity source externalJobId s := fun g hg hidentity =>
    absurd hidentity (h.row g hg)
  induction calls with
  | nil => simp [Runs.throughout_nil, hparity]
  | cons call calls ih =>
      have hkept : TitleKept s call := by
        rintro _ j ⟨_, o, ho, hoid, _⟩
        exact absurd hoid (h.observation o ho)
      have hrest := (Runs.throughout_cons.mp hsole).2
      rw [Runs.throughout_cons, Runs.each_cons]
      cases hstep : dualWrite rt s call with
      | none =>
          rw [hstep] at hrest
          simp [hparity, ih hrest]
      | some s' =>
          rw [hstep] at hrest
          obtain ⟨hlinked, hparity'⟩ := h.step hstep (hrest [] calls rfl)
          simp [hparity, hkept, hlinked.parity_iff hparity']

/-- Over a sequence of dual writes of an identity that neither table has, after any calls of
the catalogue, and whose canonical job is given no other observation, the legacy row and
the canonical job agree in every state exactly when every dual write keeps the titles. -/
theorem dual_write_parity_iff (rt : Runtime) (ops : List Op) (legacy : LegacyTable)
    (calls : List (DualWrite source externalJobId))
    (hlegacy : ∀ g ∈ legacy.rows, g.identity ≠ (source, externalJobId))
    (hcatalogue : ∀ o ∈ (run rt empty ops).observations, o.identity ≠ (source, externalJobId))
    (hsole : Runs.Throughout (dualWrite rt) (Sole source externalJobId)
      ⟨legacy, run rt empty ops⟩ calls) :
    Runs.Throughout (dualWrite rt) (Parity source externalJobId) ⟨legacy, run rt empty ops⟩ calls ↔
      Runs.Each (dualWrite rt) TitleKept ⟨legacy, run rt empty ops⟩ calls :=
  Absent.parity_iff ⟨(graph_empty.run ops).1, hlegacy, hcatalogue⟩ calls hsole

/-- Empty tables. -/
def emptyStores : Stores :=
  ⟨⟨[], unique_nil, unique_nil⟩, empty⟩

/-- A dual write at the given time of a listing with the given titles, role and description. -/
def hiringcafeWrite (time : Time) (title normalizedTitle roleFamily : String)
    (description : Option String) (choice : IngestChoice) : DualWrite "hiringcafe" "h1" where
  job :=
    { NormalizedJob.bare "hiringcafe" "h1" title normalizedTitle roleFamily with description }
  hsource := rfl
  hid := rfl
  now := time
  observedAt := time
  legacyId := 9
  choice := choice

/-- A listing whose description changes. -/
theorem dual_write_parity_iff_described :
    Runs.Throughout (dualWrite undatedRuntime) (Parity "hiringcafe" "h1") emptyStores
      [hiringcafeWrite 1 "Backend Engineer" "backend engineer" "backend" none ⟨1, 2, 3, 0⟩,
        hiringcafeWrite 2 "Backend Engineer" "backend engineer" "backend" (some "APIs")
          ⟨4, 5, 6, 0⟩] := by
  apply (dual_write_parity_iff undatedRuntime [] emptyStores.legacy _ _ _ _).mpr
  · simp only [Runs.each_cons, Runs.each_nil, and_true]
    exact ⟨fun _ hplaceholder => absurd hplaceholder (by decide),
      fun _ hplaceholder => absurd hplaceholder (by decide)⟩
  · exact fun g hg => absurd hg (List.not_mem_nil)
  · exact fun o ho => absurd ho (List.not_mem_nil)
  · simp only [Runs.throughout_cons, Runs.throughout_nil]
    decide

/-- A listing that comes back with a placeholder title renames the legacy row and not the
canonical job. -/
theorem placeholder_breaks_parity :
    Runs.Throughout (dualWrite undatedRuntime) (Sole "hiringcafe" "h1") emptyStores
        [hiringcafeWrite 1 "Backend Engineer" "backend engineer" "backend" none ⟨1, 2, 3, 0⟩,
          hiringcafeWrite 2 "Unknown Title" "unknown title" "other" none ⟨4, 5, 6, 0⟩] ∧
      ¬Runs.Throughout (dualWrite undatedRuntime) (Parity "hiringcafe" "h1") emptyStores
        [hiringcafeWrite 1 "Backend Engineer" "backend engineer" "backend" none ⟨1, 2, 3, 0⟩,
          hiringcafeWrite 2 "Unknown Title" "unknown title" "other" none ⟨4, 5, 6, 0⟩] := by
  simp only [Runs.throughout_cons, Runs.throughout_nil]
  decide

end Catalogue
end HireAndTech
