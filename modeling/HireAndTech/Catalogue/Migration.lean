import HireAndTech.Catalogue.Backfill
import HireAndTech.Catalogue.Constraints
import HireAndTech.Collection.Skipping

/-!
# The migrated catalogue in use

Migration 0007 gives every legacy row an opening of its own under the id of the row, and an
observation whose payload is a stub.  The constraints of the catalogue hold from there on, and an
observation stays with its opening.

Main results:

- Theorem {lit}`constraints_upgrade`: the migrated catalogue meets its constraints.
- Theorem {lit}`migration_carries_on`: what holds after every run from there.
- Theorem {lit}`stub_until_ingested`: until when the payload of an observation is a stub.
-/

namespace HireAndTech
namespace Catalogue
namespace Backfill

open Relational Text Collection

/-- The generated ids are distinct. -/
structure Postgres.Generates (pg : Postgres) (rows : List GlobalJob) : Prop where
  sourceIds : (rows.map fun row => pg.sourceId row.id).Nodup
  companyIds : (((namedCompanies rows).map (normalized pg)).dedup.map pg.companyId).Nodup

section

variable {u : Unicode} {parsing : Parsing} {pg : Postgres} {rt : Runtime}
  {firstSeenAt : UUID → Time} {t t' : LegacyTable} {row g : GlobalJob} {job : NormalizedJob}
  {now : Time} {newId : UUID} {status : JobUpsertStatus} {call : Write}

/-! ## Legacy rows -/

/-- A row that is written has passed its checks. -/
theorem upsert_checks (h : t.upsertWithOutcome job now newId = some (t', row, status)) :
    row.checks = true := by
  unfold LegacyTable.upsertWithOutcome at h
  split at h
  · obtain ⟨table, hinsert, heq⟩ := Option.map_eq_some_iff.mp h
    cases heq
    unfold LegacyTable.insert at hinsert
    split at hinsert
    · rename_i hrow
      exact hrow.1
    · contradiction
  · obtain ⟨table, hupdate, heq⟩ := Option.map_eq_some_iff.mp h
    cases heq
    unfold LegacyTable.update at hupdate
    split at hupdate
    · rename_i hrow
      exact hrow.1
    · contradiction

theorem checks_write (h : ∀ g ∈ t.rows, g.checks = true) :
    ∀ g ∈ (write u parsing t call).rows, g.checks = true := by
  unfold write
  split
  · exact h
  · rename_i job _
    cases hupsert : t.upsertWithOutcome job call.now call.newId with
    | none => exact h
    | some result =>
        obtain ⟨t', row, status⟩ := result
        intro g hg
        rcases upsert_rows hupsert hg with hg | rfl
        · exact h g hg
        · exact upsert_checks hupsert

/-- Every legacy row passes its checks. -/
theorem checks_writes (calls : List Write) :
    ∀ g ∈ (writes u parsing calls).rows, g.checks = true := by
  have hrun (t : LegacyTable) (h : ∀ g ∈ t.rows, g.checks = true) :
      ∀ g ∈ (calls.foldl (write u parsing) t).rows, g.checks = true := by
    induction calls generalizing t with
    | nil => exact h
    | cons call calls ih => exact ih _ (checks_write h)
  exact hrun _ fun g hg => absurd hg List.not_mem_nil

/-! ## The catalogue after the migration -/

/-- The opening of a row is active when its observation is. -/
theorem hasActiveSource_upgrade (hrow : row ∈ t.rows) (companies : List Company) :
    hasActiveSource (upgrade pg firstSeenAt t).observations (jobOf pg firstSeenAt companies row) =
      row.isActive := by
  rw [Bool.eq_iff_iff, hasActiveSource_iff]
  constructor
  · rintro ⟨o, ho, hjob, hactive⟩
    obtain ⟨other, hother, rfl⟩ := List.mem_map.mp ho
    rw [← t.ids.eq hother hrow hjob]
    exact hactive
  · intro hactive
    exact ⟨_, List.mem_map_of_mem hrow, rfl, hactive⟩

theorem graph_upgrade (hids : (t.rows.map fun row => pg.sourceId row.id).Nodup) :
    Graph (upgrade pg firstSeenAt t) where
  jobIds := by
    rw [Relational.Unique, upgrade, List.map_map]
    exact t.ids
  sourceIds := by
    rw [Relational.Unique, upgrade, List.map_map]
    exact hids
  identities := by
    rw [Relational.Unique, upgrade, List.map_map]
    exact t.identities
  canonical := by
    intro o ho
    obtain ⟨row, hrow, rfl⟩ := List.mem_map.mp ho
    exact ⟨_, List.mem_map_of_mem hrow, rfl⟩
  observed := by
    intro j hj
    obtain ⟨row, hrow, rfl⟩ := List.mem_map.mp hj
    exact ⟨_, List.mem_map_of_mem hrow, rfl⟩
  active := by
    intro j hj
    obtain ⟨row, hrow, rfl⟩ := List.mem_map.mp hj
    exact (hasActiveSource_upgrade hrow _).symm

theorem employers_upgrade (hids : pg.Generates t.rows) :
    Employers (upgrade pg firstSeenAt t) where
  companyIds := by
    rw [Relational.Unique, upgrade, companies, List.map_map]
    exact hids.companyIds
  employer := by
    intro j hj id hid
    obtain ⟨row, hrow, rfl⟩ := List.mem_map.mp hj
    obtain ⟨company, hcompany, rfl⟩ := Option.map_eq_some_iff.mp hid
    obtain ⟨name, -, hfind⟩ := Option.bind_eq_some_iff.mp hcompany
    exact ⟨company, List.mem_of_find?_eq_some hfind, rfl⟩

theorem names_upgrade :
    Relational.Unique (·.normalizedName) (upgrade pg firstSeenAt t).companies := by
  have hnames : (·.normalizedName) ∘ companyOf pg t.rows = id := rfl
  rw [Relational.Unique, upgrade, companies, List.map_map, hnames, List.map_id]
  exact List.nodup_dedup _

theorem checks_jobOf (h : row.checks = true) (companies : List Company) :
    (jobOf pg firstSeenAt companies row).checks = true := by
  simpa [CanonicalJob.checks, GlobalJob.checks, jobOf, ordered] using h

/-- The migrated catalogue meets its constraints. -/
theorem constraints_upgrade (hids : pg.Generates t.rows) (hchecks : ∀ g ∈ t.rows, g.checks = true) :
    TableConstraints (upgrade pg firstSeenAt t) where
  graph := graph_upgrade hids.sourceIds
  employers := employers_upgrade hids
  names := names_upgrade
  checks := by
    intro j hj
    obtain ⟨row, hrow, rfl⟩ := List.mem_map.mp hj
    exact checks_jobOf (hchecks row hrow) _

/-! ## Runs -/

/-- The observation of a legacy row belongs to the opening with the id of the row. -/
def StaysWithRow (c : Database) (row : GlobalJob) : Prop :=
  ∃ o ∈ c.observations, o.identity = row.identity ∧ o.jobId = row.id ∧
    ∀ x ∈ c.observations, x.identity = row.identity → x = o

/-- After the migration of a legacy table and any calls of the catalogue, the tables meet their
constraints and every legacy row has its own opening. -/
theorem migration_carries_on (u : Unicode) (parsing : Parsing) (pg : Postgres) (rt : Runtime)
    (firstSeenAt : UUID → Time) (calls : List Write) (ops : List Op)
    (hids : pg.Generates (writes u parsing calls).rows) :
    TableConstraints (run rt (upgrade pg firstSeenAt (writes u parsing calls)) ops) ∧
      ∀ row ∈ (writes u parsing calls).rows,
        StaysWithRow (run rt (upgrade pg firstSeenAt (writes u parsing calls)) ops) row := by
  have hmigrated : TableConstraints (upgrade pg firstSeenAt (writes u parsing calls)) :=
    constraints_upgrade hids (checks_writes calls)
  have hafter : TableConstraints (run rt _ ops) := hmigrated.run ops
  have hkept : Kept _ (run rt _ ops) := (hmigrated.graph.run ops).2
  refine ⟨hafter, fun row hrow => ?_⟩
  obtain ⟨o, ho, hidentity, hjob⟩ := hkept _ (List.mem_map_of_mem hrow)
  exact ⟨o, ho, hidentity, hjob, fun x hx hsame =>
    hafter.graph.identities.eq hx ho (hsame.trans hidentity.symm)⟩

/-- A legacy row of an employer, which a search shows again. -/
theorem migration_carries_on_acme :
    StaysWithRow
      (run undatedRuntime
        (upgrade sharpPostgres (fun _ => 1)
          (writes sharpFolding namedParsing [employerWrite "Acme Corp"]))
        [.touchSeen "hiringcafe" ["h1"] 5])
      (employerRow "Acme Corp"
        "29c1ae33b0205c904aeb22c5e9e326aa87da12bd1c35e62d15826107ae34f0fc") :=
  (migration_carries_on sharpFolding namedParsing sharpPostgres undatedRuntime (fun _ => 1)
    [employerWrite "Acme Corp"] [.touchSeen "hiringcafe" ["h1"] 5] ⟨by decide, by decide⟩).2 _
    (by decide)

/-! ## Stubs -/

/-- The payload of the listing is worth keeping. -/
def suppliesPayload (job : NormalizedJob) : Bool :=
  !job.rawData.isEmpty

/-- The observation of the identity has the payload of a listing. -/
structure PayloadTracked (identity : String × String) (c : Database)
    (listings : List NormalizedJob) : Prop where
  observed : ∃ o ∈ c.observations, o.identity = identity
  payload : (∀ job ∈ listings, "legacy_global_job_id" ∉ job.rawData.map (·.1)) →
    ∀ o ∈ c.observations, o.identity = identity →
      isDetailFetched o = listings.any suppliesPayload

/-- A payload replaces the stub. -/
theorem isDetailFetched_refreshedSource {o : JobSourceObservation} {observedAt : Time}
    {changed : Bool} (hkey : "legacy_global_job_id" ∉ job.rawData.map (·.1)) :
    isDetailFetched (refreshedSource o job observedAt changed) =
      (isDetailFetched o || suppliesPayload job) := by
  cases hdata : job.rawData with
  | nil =>
      have hraw : (refreshedSource o job observedAt changed).rawData = o.rawData := by
        simp [refreshedSource, preferList, hdata]
      rw [isDetailFetched, isDetailFetched, hraw, suppliesPayload, hdata]
      simp
  | cons entry rest =>
      have hraw : (refreshedSource o job observedAt changed).rawData = job.rawData := by
        simp [refreshedSource, preferList, hdata]
      rw [isDetailFetched, hraw, decide_eq_true hkey, suppliesPayload, hdata]
      simp

theorem PayloadTracked.step {identity : String × String} {c c' : Database} {op : Op}
    {listings : List NormalizedJob} (hgraph : Graph c) (h : PayloadTracked identity c listings)
    (hstep : Catalogue.step rt c op = some c') :
    PayloadTracked identity c' (listings ++ listingOf identity op) where
  observed := by
    obtain ⟨o, ho, hidentity⟩ := h.observed
    obtain ⟨o', ho', hsame, -⟩ := (hgraph.step hstep).2 o ho
    exact ⟨o', ho', hsame.trans hidentity⟩
  payload := by
    intro hkeys o' ho' hidentity
    subst hidentity
    have hold := h.payload fun job hjob => hkeys job (List.mem_append_left _ hjob)
    cases observationAfter_of_step hgraph hstep ho' with
    | kept o _ ho hreseen hnone =>
        obtain ⟨seen, active, rfl⟩ := hreseen
        rw [hnone, List.append_nil]
        exact hold o ho rfl
    | refreshed job observedAt choice o ho hidentity changed =>
        have hlisting : listingOf (refreshedSource o job observedAt changed).identity
            (.ingest job observedAt choice) = [job] := by
          rw [listingOf_ingest]
          exact if_pos hidentity.symm
        rw [hlisting, List.any_append, isDetailFetched_refreshedSource, hold o ho rfl]
        · simp
        · apply hkeys
          rw [hlisting]
          exact List.mem_append_right _ (List.mem_singleton_self job)
    | created job observedAt choice canonical hnew =>
        obtain ⟨o, ho, hidentity⟩ := h.observed
        exact absurd hidentity (hnew o ho)

/-- The listings of an identity that have been ingested since the migration. -/
def listingsSince (rt : Runtime) (c : Database) (identity : String × String) (ops : List Op) :
    List NormalizedJob :=
  (Runs.succeeded (Catalogue.step rt) c ops).flatMap (listingOf identity)

/-- The details of a legacy listing count as fetched exactly when a listing with a payload has been
ingested since the migration. -/
theorem stub_until_ingested (pg : Postgres) (rt : Runtime) (firstSeenAt : UUID → Time)
    (t : LegacyTable) (hids : (t.rows.map fun row => pg.sourceId row.id).Nodup)
    (row : GlobalJob) (hrow : row ∈ t.rows) (ops : List Op)
    (hkeys : ∀ job ∈ listingsSince rt (upgrade pg firstSeenAt t) row.identity ops,
      "legacy_global_job_id" ∉ job.rawData.map (·.1)) :
    DetailFetched (run rt (upgrade pg firstSeenAt t) ops) row.identity ↔
      ∃ job ∈ listingsSince rt (upgrade pg firstSeenAt t) row.identity ops, job.rawData ≠ [] := by
  have hgraph : Graph (upgrade pg firstSeenAt t) := graph_upgrade hids
  have hmigrated : PayloadTracked row.identity (upgrade pg firstSeenAt t) [] := by
    refine ⟨⟨_, List.mem_map_of_mem hrow, rfl⟩, fun _ o ho _ => ?_⟩
    obtain ⟨other, -, rfl⟩ := List.mem_map.mp ho
    simp [isDetailFetched, sourceOf]
  have hJstep : ∀ c op c', Graph c → Catalogue.step rt c op = some c' → Graph c' :=
    fun c op c' hgraph hstep => (hgraph.step hstep).1
  have hstep : ∀ c past op c', Graph c → PayloadTracked row.identity c past →
      Catalogue.step rt c op = some c' →
      PayloadTracked row.identity c' (past ++ listingOf row.identity op) :=
    fun c past op c' hgraph hpast hstep => hpast.step hgraph hstep
  have htracked : PayloadTracked row.identity (run rt (upgrade pg firstSeenAt t) ops)
      (listingsSince rt (upgrade pg firstSeenAt t) row.identity ops) :=
    Runs.tracked (Catalogue.step rt) (listingOf row.identity) hJstep hstep hgraph hmigrated ops
  have hsupplied : (listingsSince rt (upgrade pg firstSeenAt t) row.identity ops).any
      suppliesPayload = true ↔
      ∃ job ∈ listingsSince rt (upgrade pg firstSeenAt t) row.identity ops, job.rawData ≠ [] := by
    simp [suppliesPayload, List.any_eq_true]
  rw [← hsupplied]
  constructor
  · rintro ⟨o, ho, hidentity, hfetched⟩
    rwa [htracked.payload hkeys o ho hidentity] at hfetched
  · intro hany
    obtain ⟨o, ho, hidentity⟩ := htracked.observed
    exact ⟨o, ho, hidentity, (htracked.payload hkeys o ho hidentity).trans hany⟩

end

/-- The listing of the legacy row, with its payload. -/
def fetchedListing : NormalizedJob :=
  { NormalizedJob.bare "hiringcafe" "h1" "Backend Engineer" "backend engineer" "backend" with
    contentHash := "1a"
    rawData := [("next_data", "\x7b\x7d")] }

/-- A payload replaces the stub. -/
theorem stub_until_ingested_fetched :
    DetailFetched
      (run undatedRuntime
        (upgrade sharpPostgres (fun _ => 1)
          (writes sharpFolding namedParsing [employerWrite "Acme Corp"]))
        [.ingest fetchedListing 5 ⟨1, 2, 3, 0⟩]) ("hiringcafe", "h1") :=
  (stub_until_ingested sharpPostgres undatedRuntime (fun _ => 1)
    (writes sharpFolding namedParsing [employerWrite "Acme Corp"]) (by decide)
    (employerRow "Acme Corp"
      "29c1ae33b0205c904aeb22c5e9e326aa87da12bd1c35e62d15826107ae34f0fc") (by decide)
    [.ingest fetchedListing 5 ⟨1, 2, 3, 0⟩] (by decide)).mpr ⟨fetchedListing, by decide, by decide⟩

end Backfill
end Catalogue
end HireAndTech
