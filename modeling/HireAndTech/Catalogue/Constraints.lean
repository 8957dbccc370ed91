import HireAndTech.Catalogue.LastSupplied

/-!
# The constraints of the catalogue tables

The keys, the foreign keys and the CHECK constraints of the catalogue tables hold after every
operation if they hold before it, and so does the relation between openings and observations.

Main results:

- Definition {lit}`TableConstraints`: what the tables promise.
- Theorem {lit}`observationAfter_of_step`: where an observation comes from.
- Theorem {lit}`TableConstraints.run`: the constraints over a run.
-/

namespace HireAndTech
namespace Catalogue

open Relational

/-! ## Observations -/

/-- Where an observation comes from after a call. -/
inductive ObservationAfter (c : Database) : Op → JobSourceObservation → Prop
  | kept {op : Op} (o o' : JobSourceObservation) (ho : o ∈ c.observations)
      (hreseen : Reseen o o') (hnone : listingOf o'.identity op = []) : ObservationAfter c op o'
  | refreshed (job : NormalizedJob) (observedAt : Time) (choice : IngestChoice)
      (o : JobSourceObservation) (ho : o ∈ c.observations)
      (hidentity : o.identity = (job.source, job.externalJobId)) (changed : Bool) :
      ObservationAfter c (.ingest job observedAt choice) (refreshedSource o job observedAt changed)
  | created (job : NormalizedJob) (observedAt : Time) (choice : IngestChoice)
      (canonical : CanonicalJob)
      (hnew : ∀ o ∈ c.observations, o.identity ≠ (job.source, job.externalJobId)) :
      ObservationAfter c (.ingest job observedAt choice)
        (createdSource choice.sourceId job canonical observedAt)

section

variable {rt : Runtime} {c c' : Database} {op : Op} {o' : JobSourceObservation}
  {job : NormalizedJob} {observedAt : Time} {choice : IngestChoice}

theorem observationAfter_of_ingested (hgraph : Graph c)
    (h : Ingested rt c job observedAt choice c') (ho' : o' ∈ c'.observations) :
    ObservationAfter c (.ingest job observedAt choice) o' := by
  have hadded (hsource : c.getSource job.source job.externalJobId = none)
      (canonical : CanonicalJob) (hobservations : c'.observations =
        c.observations ++ [createdSource choice.sourceId job canonical observedAt]) :
      ObservationAfter c (.ingest job observedAt choice) o' := by
    have hnew := getSource_eq_none hsource
    rw [hobservations, List.mem_append, List.mem_singleton] at ho'
    rcases ho' with ho | rfl
    · refine .kept o' o' ho (Reseen.refl o') ?_
      rw [listingOf_ingest, if_neg (hnew o' ho).symm]
    · exact .created job observedAt choice canonical hnew
  cases h with
  | reobserved c₁ o j company hsource _ _ _ _ hobservations =>
      obtain ⟨ho, hidentity⟩ := getSource_eq_some hsource
      have hkey : o.id =
          (refreshedSource o job observedAt (o.contentHash ≠ job.contentHash)).id := rfl
      rw [hobservations, mem_put hgraph.sourceIds ho hkey] at ho'
      rcases ho' with rfl | ⟨hx, hne⟩
      · exact .refreshed job observedAt choice o ho hidentity _
      · refine .kept o' o' hx (Reseen.refl o') ?_
        rw [listingOf_ingest, if_neg]
        intro hsame
        exact hne (hgraph.identities.eq hx ho (hsame.symm.trans hidentity.symm))
  | created c₁ company hsource _ _ _ _ _ _ hobservations => exact hadded hsource _ hobservations
  | merged c₁ company candidate hsource _ _ _ _ _ hobservations =>
      exact hadded hsource _ hobservations

/-- An observation after a call. -/
theorem observationAfter_of_step (hgraph : Graph c) (hstep : step rt c op = some c')
    (ho' : o' ∈ c'.observations) : ObservationAfter c op o' := by
  cases op with
  | ingest job observedAt choice =>
      obtain ⟨⟨_, result⟩, hingest, rfl⟩ := Option.map_eq_some_iff.mp hstep
      exact observationAfter_of_ingested hgraph (ingested_of_ingest hingest) ho'
  | touchSeen source sourceJobIds observedAt =>
      cases hstep
      unfold touchSeen touchSourcesSeen at ho'
      split at ho'
      · exact .kept o' o' ho' (Reseen.refl o') rfl
      · obtain ⟨o, ho, rfl⟩ := mem_updateWhere.mp ho'
        exact .kept o _ ho (reseen_updateWhere (fun _ => ⟨observedAt, true, rfl⟩) o) rfl
  | deactivateStaleSources source staleThreshold safetyWindowStart =>
      cases hstep
      rw [deactivateStaleSources_observations] at ho'
      split at ho'
      · obtain ⟨o, ho, rfl⟩ := mem_updateWhere.mp ho'
        exact .kept o _ ho (reseen_updateWhere (fun o => ⟨o.lastSeenAt, false, rfl⟩) o) rfl
      · exact .kept o' o' ho' (Reseen.refl o') rfl

/-! ## CHECK constraints -/

theorem insertJob_checks {j : CanonicalJob} (h : c.insertJob j = some c') : j.checks = true := by
  unfold Database.insertJob at h
  split at h
  · rename_i hfree
    exact (Bool.and_eq_true_iff.mp hfree).1
  · contradiction

theorem updateJob_checks {j : CanonicalJob} (h : c.updateJob j = some c') : j.checks = true := by
  unfold Database.updateJob at h
  split at h
  · assumption
  · contradiction

theorem Freshened.checks {j j' : CanonicalJob} (h : Freshened j j') : j'.checks = j.checks := by
  obtain ⟨seen, active, rfl⟩ := h
  rfl

/-- The rows that an ingestion writes have passed their checks. -/
theorem checks_of_ingest {result : IngestionResult}
    (h : ingest rt c job observedAt choice = some (c', result))
    (hchecks : ∀ j ∈ c.jobs, j.checks = true) : ∀ j ∈ c'.jobs, j.checks = true := by
  have hput {c₂ : Database} {j : CanonicalJob} (hjobs : c₂.jobs = put (·.id) j c.jobs)
      (hj : j.checks = true) : ∀ x ∈ c₂.jobs, x.checks = true := by
    intro x hx
    rw [hjobs] at hx
    obtain ⟨y, hy, rfl⟩ := mem_updateWhere.mp hx
    split
    · exact hj
    · exact hchecks y hy
  unfold ingest at h
  split at h
  · simp only [reobserve, Database.refreshSource, Option.bind_eq_bind, Option.bind_eq_some_iff,
      Option.pure_def, Option.some.injEq, Prod.exists, Prod.mk.injEq] at h
    obtain ⟨c₁, company, hcompany, _, ⟨j, _, c₂, hupdate, rfl⟩, _, _, rfl, _⟩ := h
    have hjobs := (updateJob_eq_some hupdate).1
    rw [(resolveCompany_eq_some hcompany).1] at hjobs
    exact hput hjobs (updateJob_checks hupdate)
  · simp only [observeNew, Option.bind_eq_bind, Option.bind_eq_some_iff, Option.pure_def,
      Option.some.injEq, Prod.exists, Prod.mk.injEq] at h
    obtain ⟨c₁, company, hcompany, c₂, canonical, hcanonical, c₃, hinsert, rfl, _⟩ := h
    have hjobs₁ := (resolveCompany_eq_some hcompany).1
    rw [(insertSource_eq_some hinsert).2.1]
    unfold createOrReuse at hcanonical
    split at hcanonical <;>
      obtain ⟨_, hjob, heq⟩ := Option.map_eq_some_iff.mp hcanonical <;> cases heq
    · rw [(insertJob_eq_some hjob).2.1, hjobs₁]
      intro j hj
      rcases List.mem_append.mp hj with hj | hj
      · exact hchecks j hj
      · rw [List.mem_singleton.mp hj]
        exact insertJob_checks hjob
    · have hjobs := (updateJob_eq_some hjob).1
      rw [hjobs₁] at hjobs
      exact hput hjobs (updateJob_checks hjob)

/-- Every call keeps the CHECK constraints. -/
theorem checks_step (hstep : step rt c op = some c') (hchecks : ∀ j ∈ c.jobs, j.checks = true) :
    ∀ j ∈ c'.jobs, j.checks = true := by
  cases op with
  | ingest job observedAt choice =>
      obtain ⟨⟨_, result⟩, hingest, rfl⟩ := Option.map_eq_some_iff.mp hstep
      exact checks_of_ingest hingest hchecks
  | touchSeen source sourceJobIds observedAt =>
      cases hstep
      intro j hj
      obtain ⟨x, hx, hfresh⟩ := freshened_touchSeen hj
      rw [hfresh.checks]
      exact hchecks x hx
  | deactivateStaleSources source staleThreshold safetyWindowStart =>
      cases hstep
      intro j hj
      obtain ⟨x, hx, hfresh⟩ := freshened_deactivateStaleSources hj
      rw [hfresh.checks]
      exact hchecks x hx

/-! ## All constraints -/

/-- A company is added under a normalized name that no other company has. -/
theorem resolveCompany_names {newId : UUID} {c₁ : Database} {company : Option Company}
    (h : c.resolveCompany job newId = some (c₁, company))
    (hnames : Unique (·.normalizedName) c.companies) :
    Unique (·.normalizedName) c₁.companies := by
  unfold Database.resolveCompany at h
  split at h
  · rename_i name normalizedName _ _
    split at h
    · cases h
      exact hnames
    · rename_i hfind
      split at h
      · cases h
        refine hnames.insert fun company hcompany hsame => ?_
        exact List.find?_eq_none.mp hfind company hcompany (decide_eq_true hsame)
      · contradiction
  · cases h
    exact hnames

/-- Every call keeps the normalized names of companies unique. -/
theorem names_step (hstep : step rt c op = some c')
    (hnames : Unique (·.normalizedName) c.companies) :
    Unique (·.normalizedName) c'.companies := by
  cases op with
  | ingest job observedAt choice =>
      obtain ⟨⟨_, result⟩, hingest, rfl⟩ := Option.map_eq_some_iff.mp hstep
      cases ingested_of_ingest hingest with
      | reobserved c₁ _ _ _ _ hresolve _ hcompanies _ _ =>
          exact hcompanies ▸ resolveCompany_names hresolve hnames
      | created c₁ _ _ hresolve _ _ _ hcompanies _ _ =>
          exact hcompanies ▸ resolveCompany_names hresolve hnames
      | merged c₁ _ _ _ hresolve _ _ hcompanies _ _ =>
          exact hcompanies ▸ resolveCompany_names hresolve hnames
  | touchSeen source sourceJobIds observedAt =>
      cases hstep
      rwa [companies_touchSeen]
  | deactivateStaleSources source staleThreshold safetyWindowStart =>
      cases hstep
      rwa [companies_deactivateStaleSources]

/-- The keys, foreign keys and CHECK constraints of the catalogue tables, and the relation
between openings and observations. -/
structure TableConstraints (c : Database) : Prop where
  graph : Graph c
  employers : Employers c
  names : Unique (·.normalizedName) c.companies
  checks : ∀ j ∈ c.jobs, j.checks = true

/-- Every call keeps the constraints. -/
theorem TableConstraints.step (h : TableConstraints c) (hstep : Catalogue.step rt c op = some c') :
    TableConstraints c' where
  graph := (h.graph.step hstep).1
  employers := h.employers.step h.graph hstep
  names := names_step hstep h.names
  checks := checks_step hstep h.checks

theorem TableConstraints.run (h : TableConstraints c) (ops : List Op) :
    TableConstraints (run rt c ops) := by
  have hstep : ∀ c op c', TableConstraints c → Catalogue.step rt c op = some c' →
      TableConstraints c' := fun _ _ _ hc hstep => hc.step hstep
  exact (Runs.invariant hstep h ops).final

end

end Catalogue
end HireAndTech
