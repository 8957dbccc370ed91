import HireAndTech.Catalogue.DualWrite
import HireAndTech.Catalogue.Freshness
import HireAndTech.Catalogue.Normalization

/-!
# Persistence of collected jobs

`CollectionCoordinator.persist_raw_jobs` normalizes the jobs of a collector one by one, writes
each to the legacy table and then to the catalogue, and counts what happens.  Each of the two
writes has a savepoint of its own.

A write that fails may leave the tables in any state before its savepoint is rolled back; the
environment chooses that state.

Main results:

- Definition {lit}`nested`: a block with a savepoint.
- Definition {lit}`persistRawJobs`: the loop.
- Theorem {lit}`persistOne_eq`: what one job does to the tables and the counts.
- Theorem {lit}`persist_raw_jobs_accounts`: the counts and the tables after any list of jobs.
-/

namespace HireAndTech
namespace Collection

open Catalogue Text

/-! ## Savepoints -/

section

variable {σ ε α : Type}

/-- A block of statements, which may raise after it has changed the state. -/
abbrev Block (σ ε α : Type) := σ → Except ε α × σ

/-- `async with session.begin_nested()`: the state before the block comes back when the block
raises. -/
def nested (body : Block σ ε α) : Block σ ε α := fun s =>
  match body s with
  | (.ok a, s') => (.ok a, s')
  | (.error e, _) => (.error e, s)

end

/-! ## The loop -/

/-- What the coordinator calls and does not look into. -/
structure Platform where
  unicode : Unicode
  parsing : Parsing
  rt : Runtime

/-- One job of a collector, with what the environment decides about it: whether its
normalization, its legacy write and its canonical write raise, the clock readings and ids of
the writes, and what a write that raises leaves behind. -/
structure Item where
  raw : RawSourceJob
  normalizationRaises : Bool
  now : Time
  legacyId : UUID
  legacyRaises : Bool
  legacyLeft : Stores
  observedAt : Time
  choice : IngestChoice
  canonicalRaises : Bool
  canonicalLeft : Stores

/-- The counts of one call. -/
structure Counts where
  normalized : Nat := 0
  inserted : Nat := 0
  updated : Nat := 0
  skipped : Nat := 0
  failed : Nat := 0
  canonicalFailed : Nat := 0
deriving DecidableEq, Repr

/-- The jobs whose legacy write has succeeded. -/
def Counts.persisted (n : Counts) : Nat :=
  n.inserted + n.updated + n.skipped

variable (env : Platform) (source : JobSource)

/-- The listing of a job of the source. -/
def normalizedItem (item : Item) : Except String NormalizedJob :=
  if item.raw.source ≠ source.value then
    .error "collector returned a job for a different source"
  else if item.normalizationRaises then .error "normalization raised"
  else normalizeJob env.unicode env.parsing item.raw

/-- `repository.upsert_with_outcome`. -/
def legacyWrite (item : Item) (canonical : NormalizedJob) :
    Block Stores String JobUpsertStatus := fun s =>
  match s.legacy.upsertWithOutcome canonical item.now item.legacyId with
  | some (legacy, _, status) =>
      if item.legacyRaises then (.error "legacy write raised", item.legacyLeft)
      else (.ok status, { s with legacy := legacy })
  | none => (.error "legacy write violates a constraint", item.legacyLeft)

/-- `canonical_ingestion.ingest`. -/
def canonicalWrite (item : Item) (canonical : NormalizedJob) : Block Stores String Unit := fun s =>
  match step env.rt s.catalogue (.ingest canonical item.observedAt item.choice) with
  | some catalogue =>
      if item.canonicalRaises then (.error "canonical write raised", item.canonicalLeft)
      else (.ok (), { s with catalogue := catalogue })
  | none => (.error "canonical write violates a constraint", item.canonicalLeft)

/-- The count of an upsert. -/
def Counts.record (n : Counts) : JobUpsertStatus → Counts
  | .inserted => { n with inserted := n.inserted + 1 }
  | .updated => { n with updated := n.updated + 1 }
  | .skipped => { n with skipped := n.skipped + 1 }

/-- The body of the loop. -/
def persistOne (state : Counts × Stores) (item : Item) : Counts × Stores :=
  let (n, s) := state
  match normalizedItem env source item with
  | .error _ => ({ n with failed := n.failed + 1 }, s)
  | .ok canonical =>
      let n := { n with normalized := n.normalized + 1 }
      match nested (legacyWrite item canonical) s with
      | (.error _, s) => ({ n with failed := n.failed + 1 }, s)
      | (.ok status, s) =>
          let n := n.record status
          match nested (canonicalWrite env item canonical) s with
          | (.ok _, s) => (n, s)
          | (.error _, s) => ({ n with canonicalFailed := n.canonicalFailed + 1 }, s)

/-- Truthful persistence statistics from one collector invocation. -/
structure CoordinatorResult where
  startedAt : Time
  finishedAt : Time
  jobsDiscovered : Nat
  jobsNormalized : Nat
  jobsInserted : Nat
  jobsUpdated : Nat
  jobsSkipped : Nat
  jobsFailed : Nat
  canonicalJobsFailed : Nat := 0
  detailsFetched : Nat := 0
  detailsSkippedRecent : Nat := 0
deriving DecidableEq, Repr

/-- `persist_raw_jobs`. -/
def persistRawJobs (rawJobs : List Item) (started finished : Time) (s : Stores) :
    CoordinatorResult × Stores :=
  let (n, s) := rawJobs.foldl (persistOne env source) ({}, s)
  ({ startedAt := started
     finishedAt := finished
     jobsDiscovered := rawJobs.length
     jobsNormalized := n.normalized
     jobsInserted := n.inserted
     jobsUpdated := n.updated
     jobsSkipped := n.skipped
     jobsFailed := n.failed
     canonicalJobsFailed := n.canonicalFailed
     detailsFetched := rawJobs.length }, s)

/-! ## The parts that succeed -/

/-- A write without a savepoint around it. -/
inductive Part
  | legacy (job : NormalizedJob) (now : Time) (id : UUID)
  | canonical (job : NormalizedJob) (observedAt : Time) (choice : IngestChoice)
deriving DecidableEq, Repr

/-- The tables after a write. -/
def Part.apply (rt : Runtime) (s : Stores) : Part → Option Stores
  | .legacy job now id =>
      (s.legacy.upsertWithOutcome job now id).map fun result => { s with legacy := result.1 }
  | .canonical job observedAt choice =>
      (step rt s.catalogue (.ingest job observedAt choice)).map fun catalogue =>
        { s with catalogue := catalogue }

/-- The tables after several writes. -/
def applyParts (rt : Runtime) (s : Stores) (parts : List Part) : Option Stores :=
  parts.foldlM (Part.apply rt) s

/-- The parts of a job that succeed in the given state of the tables. -/
def successfulParts (s : Stores) (item : Item) : List Part :=
  match normalizedItem env source item with
  | .error _ => []
  | .ok job =>
      let legacy := Part.legacy job item.now item.legacyId
      let canonical := Part.canonical job item.observedAt item.choice
      match legacy.apply env.rt s with
      | none => []
      | some s' =>
          if item.legacyRaises then []
          else if item.canonicalRaises || (canonical.apply env.rt s').isNone then [legacy]
          else [legacy, canonical]

/-- The parts of several jobs that succeed, in their order. -/
def allSuccessfulParts : Stores → List Item → List Part
  | _, [] => []
  | s, item :: items =>
      successfulParts env source s item ++
        allSuccessfulParts (persistOne env source ({}, s) item).2 items

/-- What the counts say about the parts of a job that succeed. -/
def Counts.CountsParts (n n' : Counts) : List Part → Prop
  | [] => n'.failed = n.failed + 1 ∧ n'.persisted = n.persisted ∧
      n'.canonicalFailed = n.canonicalFailed
  | [_] => n'.failed = n.failed ∧ n'.persisted = n.persisted + 1 ∧
      n'.canonicalFailed = n.canonicalFailed + 1
  | _ => n'.failed = n.failed ∧ n'.persisted = n.persisted + 1 ∧
      n'.canonicalFailed = n.canonicalFailed

section

variable {env source} {n n' : Counts} {s s' : Stores} {item : Item} {job : NormalizedJob}
  {status : JobUpsertStatus}

@[simp]
theorem Counts.persisted_record : (n.record status).persisted = n.persisted + 1 := by
  cases status <;> simp only [record, persisted] <;> omega

@[simp]
theorem Counts.failed_record : (n.record status).failed = n.failed := by
  cases status <;> rfl

@[simp]
theorem Counts.canonicalFailed_record : (n.record status).canonicalFailed = n.canonicalFailed := by
  cases status <;> rfl

/-- The legacy write of a job inside its savepoint. -/
theorem nested_legacyWrite (env : Platform) (s : Stores) (item : Item) (job : NormalizedJob) :
    (∃ e, nested (legacyWrite item job) s = (.error e, s) ∧
        ((Part.legacy job item.now item.legacyId).apply env.rt s = none ∨
          item.legacyRaises = true)) ∨
      ∃ status s', nested (legacyWrite item job) s = (.ok status, s') ∧
        (Part.legacy job item.now item.legacyId).apply env.rt s = some s' ∧
          item.legacyRaises = false := by
  cases hupsert : s.legacy.upsertWithOutcome job item.now item.legacyId with
  | none =>
      exact Or.inl ⟨"legacy write violates a constraint", by simp [nested, legacyWrite, hupsert],
        by simp [Part.apply, hupsert]⟩
  | some result =>
      obtain ⟨legacy, row, status⟩ := result
      cases hraises : item.legacyRaises with
      | true =>
          exact Or.inl ⟨"legacy write raised", by simp [nested, legacyWrite, hupsert, hraises],
            Or.inr rfl⟩
      | false =>
          exact Or.inr ⟨status, { s with legacy := legacy },
            by simp [nested, legacyWrite, hupsert, hraises], by simp [Part.apply, hupsert], rfl⟩

/-- The canonical write of a job inside its savepoint. -/
theorem nested_canonicalWrite (env : Platform) (s : Stores) (item : Item) (job : NormalizedJob) :
    (∃ e, nested (canonicalWrite env item job) s = (.error e, s) ∧
        (item.canonicalRaises ||
          ((Part.canonical job item.observedAt item.choice).apply env.rt s).isNone) = true) ∨
      ∃ s', nested (canonicalWrite env item job) s = (.ok (), s') ∧
        (Part.canonical job item.observedAt item.choice).apply env.rt s = some s' ∧
          item.canonicalRaises = false := by
  cases hstep : step env.rt s.catalogue (.ingest job item.observedAt item.choice) with
  | none =>
      exact Or.inl ⟨"canonical write violates a constraint",
        by simp [nested, canonicalWrite, hstep], by simp [Part.apply, hstep]⟩
  | some catalogue =>
      cases hraises : item.canonicalRaises with
      | true =>
          exact Or.inl ⟨"canonical write raised",
            by simp [nested, canonicalWrite, hstep, hraises], by simp⟩
      | false =>
          exact Or.inr ⟨{ s with catalogue := catalogue },
            by simp [nested, canonicalWrite, hstep, hraises], by simp [Part.apply, hstep], rfl⟩

/-- A job that cannot be normalized has no successful part. -/
theorem successfulParts_of_error {e : String} (hjob : normalizedItem env source item = .error e) :
    successfulParts env source s item = [] := by
  simp only [successfulParts, hjob]

/-- A job whose legacy write fails has no successful part. -/
theorem successfulParts_of_legacy_failed (hjob : normalizedItem env source item = .ok job)
    (hfailed : (Part.legacy job item.now item.legacyId).apply env.rt s = none ∨
      item.legacyRaises = true) :
    successfulParts env source s item = [] := by
  simp only [successfulParts, hjob]
  rcases hfailed with hnone | hraises
  · rw [hnone]
  · split
    · rfl
    · rw [if_pos hraises]

/-- A job whose canonical write fails keeps its legacy write. -/
theorem successfulParts_of_canonical_failed (hjob : normalizedItem env source item = .ok job)
    (hlegacy : (Part.legacy job item.now item.legacyId).apply env.rt s = some s')
    (hraises : item.legacyRaises = false)
    (hfailed : (item.canonicalRaises ||
      ((Part.canonical job item.observedAt item.choice).apply env.rt s').isNone) = true) :
    successfulParts env source s item = [Part.legacy job item.now item.legacyId] := by
  simp only [successfulParts, hjob, hlegacy]
  rw [if_neg (by simp [hraises]), if_pos hfailed]

/-- A job without a failure has both parts. -/
theorem successfulParts_of_ok {s'' : Stores} (hjob : normalizedItem env source item = .ok job)
    (hlegacy : (Part.legacy job item.now item.legacyId).apply env.rt s = some s')
    (hraises : item.legacyRaises = false)
    (hcanonical : (Part.canonical job item.observedAt item.choice).apply env.rt s' = some s'')
    (hcanonicalRaises : item.canonicalRaises = false) :
    successfulParts env source s item =
      [Part.legacy job item.now item.legacyId,
        Part.canonical job item.observedAt item.choice] := by
  simp only [successfulParts, hjob, hlegacy]
  rw [if_neg (by simp [hraises]), if_neg (by simp [hcanonical, hcanonicalRaises])]

/-- One job changes the tables by its successful parts and nothing else, and is counted once. -/
theorem persistOne_eq (env : Platform) (source : JobSource) (n : Counts) (s : Stores)
    (item : Item) :
    applyParts env.rt s (successfulParts env source s item) =
        some (persistOne env source (n, s) item).2 ∧
      n.CountsParts (persistOne env source (n, s) item).1 (successfulParts env source s item) := by
  cases hjob : normalizedItem env source item with
  | error e =>
      rw [successfulParts_of_error hjob]
      simp only [persistOne, hjob]
      exact ⟨rfl, rfl, rfl, rfl⟩
  | ok job =>
      rcases nested_legacyWrite env s item job with
        ⟨e, hnested, hfailed⟩ | ⟨status, s₁, hnested, hlegacy, hraises⟩
      · rw [successfulParts_of_legacy_failed hjob hfailed]
        simp only [persistOne, hjob, hnested]
        exact ⟨rfl, rfl, rfl, rfl⟩
      · rcases nested_canonicalWrite env s₁ item job with
          ⟨e, hcnested, hfailed⟩ | ⟨s₂, hcnested, hcanonical, hcraises⟩
        · rw [successfulParts_of_canonical_failed hjob hlegacy hraises hfailed]
          simp only [persistOne, hjob, hnested, hcnested]
          refine ⟨?_, ?_, ?_, ?_⟩
          · simp [applyParts, hlegacy]
          · simp
          · exact Counts.persisted_record
          · simp
        · rw [successfulParts_of_ok hjob hlegacy hraises hcanonical hcraises]
          simp only [persistOne, hjob, hnested, hcnested]
          refine ⟨?_, ?_, ?_, ?_⟩
          · simp [applyParts, hlegacy, hcanonical]
          · simp
          · exact Counts.persisted_record
          · simp

/-- The tables after a job do not depend on the counts before it. -/
theorem persistOne_stores :
    (persistOne env source (n, s) item).2 = (persistOne env source ({}, s) item).2 :=
  Option.some_inj.mp ((persistOne_eq env source n s item).1.symm.trans
    (persistOne_eq env source {} s item).1)

/-- A job without a successful part leaves the tables alone. -/
theorem persistOne_of_nil (h : successfulParts env source s item = []) :
    (persistOne env source (n, s) item).2 = s := by
  have happly := (persistOne_eq env source n s item).1
  rw [h] at happly
  exact (Option.some_inj.mp happly).symm

/-- The legacy write of a job whose canonical write fails is all that happens. -/
theorem persistOne_of_legacy {part : Part} (h : successfulParts env source s item = [part]) :
    part.apply env.rt s = some (persistOne env source (n, s) item).2 := by
  have happly := (persistOne_eq env source n s item).1
  rw [h] at happly
  simpa [applyParts] using happly

/-- Every one of {lit}`k` jobs is persisted or failed, and no job counts a canonical failure
without a legacy write. -/
structure Counts.Accounts (n n' : Counts) (k : Nat) : Prop where
  total : n'.persisted + n'.failed = n.persisted + n.failed + k
  canonical : n'.canonicalFailed + n.persisted ≤ n'.persisted + n.canonicalFailed

theorem Counts.CountsParts.accounts {parts : List Part} (h : n.CountsParts n' parts) :
    n.Accounts n' 1 := by
  match parts, h with
  | [], ⟨hfailed, hpersisted, hcanonical⟩ => exact ⟨by omega, by omega⟩
  | [_], ⟨hfailed, hpersisted, hcanonical⟩ => exact ⟨by omega, by omega⟩
  | _ :: _ :: _, ⟨hfailed, hpersisted, hcanonical⟩ => exact ⟨by omega, by omega⟩

theorem Counts.Accounts.trans {n'' : Counts} {k l : Nat} (h : n.Accounts n' k)
    (h' : n'.Accounts n'' l) : n.Accounts n'' (k + l) where
  total := by
    have := h.total
    have := h'.total
    omega
  canonical := by
    have := h.canonical
    have := h'.canonical
    omega

theorem applyParts_append {rt : Runtime} {parts parts' : List Part} :
    applyParts rt s (parts ++ parts') =
      (applyParts rt s parts).bind fun s => applyParts rt s parts' := by
  simp [applyParts, List.foldlM_append, Option.bind_eq_bind]

/-- The loop: by induction on the jobs, from any counts and any tables. -/
theorem foldl_persistOne (env : Platform) (source : JobSource) (items : List Item) (n : Counts)
    (s : Stores) :
    applyParts env.rt s (allSuccessfulParts env source s items) =
        some (items.foldl (persistOne env source) (n, s)).2 ∧
      n.Accounts (items.foldl (persistOne env source) (n, s)).1 items.length := by
  induction items generalizing n s with
  | nil => exact ⟨rfl, by simp, by simp [Nat.add_comm]⟩
  | cons item items ih =>
      have hstep := persistOne_eq env source n s item
      cases hone : persistOne env source (n, s) item with
      | mk n₁ s₁ =>
          rw [hone] at hstep
          have hs₁ : (persistOne env source ({}, s) item).2 = s₁ := by
            rw [← persistOne_stores (n := n), hone]
          have hrest := ih n₁ s₁
          rw [List.foldl_cons, hone]
          constructor
          · rw [allSuccessfulParts, applyParts_append, hstep.1, hs₁]
            exact hrest.1
          · have haccounts := hstep.2.accounts.trans hrest.2
            rw [List.length_cons, Nat.add_comm]
            exact haccounts

end

/-! ## The whole call -/

/-- The tables after the jobs. -/
def storesAfter (s : Stores) (items : List Item) : Stores :=
  (items.foldl (persistOne env source) ({}, s)).2

theorem storesAfter_append_singleton (s : Stores) (items : List Item) (item : Item) :
    storesAfter env source s (items ++ [item]) =
      (persistOne env source ({}, storesAfter env source s items) item).2 := by
  rw [storesAfter, List.foldl_append]
  exact persistOne_stores

/-- What one job does to the tables: a part that fails leaves no trace, and a failed canonical
write keeps the legacy write. -/
structure Isolated (item : Item) (s s' : Stores) : Prop where
  rejected : ∀ e, normalizedItem env source item = .error e → s' = s
  legacyFailed : ∀ job, normalizedItem env source item = .ok job →
    ((Part.legacy job item.now item.legacyId).apply env.rt s = none ∨ item.legacyRaises = true) →
    s' = s
  canonicalFailed : ∀ job s₁, normalizedItem env source item = .ok job →
    (Part.legacy job item.now item.legacyId).apply env.rt s = some s₁ →
    item.legacyRaises = false →
    ((Part.canonical job item.observedAt item.choice).apply env.rt s₁ = none ∨
      item.canonicalRaises = true) →
    s' = s₁
  written : ∀ job s₁ s₂, normalizedItem env source item = .ok job →
    (Part.legacy job item.now item.legacyId).apply env.rt s = some s₁ →
    item.legacyRaises = false →
    (Part.canonical job item.observedAt item.choice).apply env.rt s₁ = some s₂ →
    item.canonicalRaises = false →
    s' = s₂

theorem persistOne_isolated (item : Item) (n : Counts) (s : Stores) :
    Isolated env source item s (persistOne env source (n, s) item).2 where
  rejected _ hjob := persistOne_of_nil (successfulParts_of_error hjob)
  legacyFailed _ hjob hfailed :=
    persistOne_of_nil (successfulParts_of_legacy_failed hjob hfailed)
  canonicalFailed job s₁ hjob hlegacy hraises hfailed := by
    have hparts := successfulParts_of_canonical_failed hjob hlegacy hraises (by
      rw [Bool.or_eq_true, Option.isNone_iff_eq_none]
      exact hfailed.symm)
    have happly := persistOne_of_legacy (n := n) hparts
    rw [hlegacy] at happly
    exact (Option.some_inj.mp happly).symm
  written job s₁ s₂ hjob hlegacy hraises hcanonical hcraises := by
    have hparts := successfulParts_of_ok hjob hlegacy hraises hcanonical hcraises
    have happly := (persistOne_eq env source n s item).1
    rw [hparts] at happly
    have hboth : applyParts env.rt s [Part.legacy job item.now item.legacyId,
        Part.canonical job item.observedAt item.choice] = some s₂ := by
      simp [applyParts, hlegacy, hcanonical]
    exact Option.some_inj.mp (happly.symm.trans hboth)

/-- Every job is counted once; a part that fails leaves no trace; the tables at the end come
from the successful parts in their order. -/
theorem persist_raw_jobs_accounts (rawJobs : List Item) (started finished : Time) (s : Stores) :
    let result := (persistRawJobs env source rawJobs started finished s).1
    result.jobsInserted + result.jobsUpdated + result.jobsSkipped + result.jobsFailed =
        rawJobs.length ∧
      result.canonicalJobsFailed ≤
        result.jobsInserted + result.jobsUpdated + result.jobsSkipped ∧
      applyParts env.rt s (allSuccessfulParts env source s rawJobs) =
        some (persistRawJobs env source rawJobs started finished s).2 ∧
      ∀ before item after, rawJobs = before ++ item :: after →
        Isolated env source item (storesAfter env source s before)
          (storesAfter env source s (before ++ [item])) := by
  intro result
  have hrun := foldl_persistOne env source rawJobs {} s
  have htotal := hrun.2.total
  have hcanonical := hrun.2.canonical
  have hinitial : ({} : Counts).persisted + ({} : Counts).failed = 0 := rfl
  refine ⟨?_, ?_, hrun.1, ?_⟩
  · calc result.jobsInserted + result.jobsUpdated + result.jobsSkipped + result.jobsFailed
        = ({} : Counts).persisted + ({} : Counts).failed + rawJobs.length := htotal
      _ = rawJobs.length := by rw [hinitial, Nat.zero_add]
  · exact hcanonical
  · intro before item after _
    rw [storesAfter_append_singleton]
    exact persistOne_isolated env source item {} (storesAfter env source s before)

end Collection
end HireAndTech
