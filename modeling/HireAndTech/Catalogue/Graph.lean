import HireAndTech.Catalogue.Ingestion

/-!
# The catalogue graph

Every operation keeps the relation between canonical jobs and observations: no two
observations have one identity, every observation points to a canonical job and
never to another one, every canonical job has an observation, and it is active
exactly when one of its observations is.

Main results:

- Theorem {lit}`ingested_of_ingest`: the three ways in which a listing is ingested.
- Theorem {lit}`Graph.step`: every operation keeps the graph.
- Theorem {lit}`catalogue_graph`: the graph in every state that a sequence of operations
  reaches.
-/

namespace HireAndTech
namespace Catalogue

open Relational

/-! ## What an ingestion does -/

/-- The three ways in which a listing is ingested: it has been seen before, it is given
a canonical job of its own, or it is merged into one that exists. -/
inductive Ingested (rt : Runtime) (c : Database) (job : NormalizedJob) (observedAt : Time)
    (choice : IngestChoice) (c' : Database) : Prop
  | reobserved (c₁ : Database) (o : JobSourceObservation) (j : CanonicalJob)
      (company : Option Company)
      (hsource : c.getSource job.source job.externalJobId = some o)
      (hcompany : c.resolveCompany job choice.companyId = some (c₁, company))
      (hjob : c.getJob o.jobId = some j)
      (hcompanies : c'.companies = c₁.companies)
      (hjobs : c'.jobs = put (·.id) (refreshedJob rt j job company observedAt) c.jobs)
      (hobservations : c'.observations =
        put (·.id)
        (refreshedSource o job observedAt (o.contentHash ≠ job.contentHash)) c.observations)
  | created (c₁ : Database) (company : Option Company)
      (hsource : c.getSource job.source job.externalJobId = none)
      (hcompany : c.resolveCompany job choice.companyId = some (c₁, company))
      (hselect : selectCanonical rt c₁ job company choice.pick = none)
      (hfresh : ∀ j ∈ c.jobs, j.id ≠ choice.jobId)
      (hsourceId : ∀ o ∈ c.observations, o.id ≠ choice.sourceId)
      (hcompanies : c'.companies = c₁.companies)
      (hjobs : c'.jobs = c.jobs ++ [createdJob rt choice.jobId job company observedAt])
      (hobservations : c'.observations = c.observations ++
        [createdSource choice.sourceId job (createdJob rt choice.jobId job company observedAt)
          observedAt])
  | merged (c₁ : Database) (company : Option Company) (candidate : CanonicalJob)
      (hsource : c.getSource job.source job.externalJobId = none)
      (hcompany : c.resolveCompany job choice.companyId = some (c₁, company))
      (hselect : selectCanonical rt c₁ job company choice.pick = some candidate)
      (hsourceId : ∀ o ∈ c.observations, o.id ≠ choice.sourceId)
      (hcompanies : c'.companies = c₁.companies)
      (hjobs : c'.jobs = put (·.id) (markCanonicalSeen candidate observedAt) c.jobs)
      (hobservations : c'.observations = c.observations ++
        [createdSource choice.sourceId job (markCanonicalSeen candidate observedAt) observedAt])

section

variable {rt : Runtime} {c c' c₁ : Database} {job : NormalizedJob} {company : Option Company}
  {observedAt : Time} {choice : IngestChoice} {result : IngestionResult}

theorem getSource_eq_some {source sourceJobId : String} {o : JobSourceObservation}
    (h : c.getSource source sourceJobId = some o) :
    o ∈ c.observations ∧ o.identity = (source, sourceJobId) := by
  refine ⟨List.mem_of_find?_eq_some h, ?_⟩
  have hp := List.find?_some h
  simp only [Bool.and_eq_true, decide_eq_true_eq] at hp
  rw [JobSourceObservation.identity, hp.1, hp.2]

theorem getSource_eq_none {source sourceJobId : String}
    (h : c.getSource source sourceJobId = none) :
    ∀ o ∈ c.observations, o.identity ≠ (source, sourceJobId) := by
  intro o ho heq
  have hp := List.find?_eq_none.mp h o ho
  simp only [JobSourceObservation.identity, Prod.mk.injEq] at heq
  simp [heq.1, heq.2] at hp

theorem getJob_eq_some {id : UUID} {j : CanonicalJob} (h : c.getJob id = some j) :
    j ∈ c.jobs ∧ j.id = id :=
  ⟨List.mem_of_find?_eq_some h, by simpa using List.find?_some h⟩

theorem insertJob_eq_some {j : CanonicalJob} (h : c.insertJob j = some c') :
    (∀ x ∈ c.jobs, x.id ≠ j.id) ∧ c'.jobs = c.jobs ++ [j] ∧ c'.observations = c.observations ∧
      c'.companies = c.companies := by
  unfold Database.insertJob at h
  split at h
  · cases h
    simp_all
  · contradiction

theorem updateJob_eq_some {j : CanonicalJob} (h : c.updateJob j = some c') :
    c'.jobs = put (·.id) j c.jobs ∧ c'.observations = c.observations ∧
      c'.companies = c.companies := by
  unfold Database.updateJob at h
  split at h
  · cases h
    exact ⟨rfl, rfl, rfl⟩
  · contradiction

theorem insertSource_eq_some {o : JobSourceObservation} (h : c.insertSource o = some c') :
    (∀ x ∈ c.observations, x.id ≠ o.id) ∧ c'.jobs = c.jobs ∧
      c'.observations = c.observations ++ [o] ∧ c'.companies = c.companies := by
  unfold Database.insertSource at h
  split at h
  · rename_i hfree
    cases h
    simp only [Bool.and_eq_true, List.all_eq_true, decide_eq_true_eq] at hfree
    exact ⟨fun x hx => (hfree.1 x hx).1, rfl, rfl, rfl⟩
  · contradiction

theorem resolveCompany_eq_some {newId : UUID}
    (h : c.resolveCompany job newId = some (c₁, company)) :
    c₁.jobs = c.jobs ∧ c₁.observations = c.observations := by
  unfold Database.resolveCompany at h
  split at h
  · split at h
    · cases h
      exact ⟨rfl, rfl⟩
    · split at h
      · cases h
        exact ⟨rfl, rfl⟩
      · contradiction
  · cases h
    exact ⟨rfl, rfl⟩

theorem ingested_of_reobserve {o : JobSourceObservation}
    (hsource : c.getSource job.source job.externalJobId = some o)
    (h : reobserve rt c o job observedAt choice = some (c', result)) :
    Ingested rt c job observedAt choice c' := by
  simp only [reobserve, Database.refreshSource, Option.bind_eq_bind, Option.bind_eq_some_iff,
    Option.pure_def, Option.some.injEq, Prod.exists, Prod.mk.injEq] at h
  obtain ⟨c₁, company, hcompany, _, ⟨j, hjob, c₂, hupdate, rfl⟩, _, _, rfl, _⟩ := h
  obtain ⟨hjobs₁, hobservations₁⟩ := resolveCompany_eq_some hcompany
  obtain ⟨hjobs₂, hobservations₂, hcompanies₂⟩ := updateJob_eq_some hupdate
  refine .reobserved c₁ o j company hsource hcompany ?_ hcompanies₂ (hjobs₁ ▸ hjobs₂) ?_
  · rwa [Database.getJob, hjobs₁] at hjob
  · rw [Database.updateSource, hobservations₂, hobservations₁]

theorem ingested_of_observeNew
    (hsource : c.getSource job.source job.externalJobId = none)
    (h : observeNew rt c job observedAt choice = some (c', result)) :
    Ingested rt c job observedAt choice c' := by
  simp only [observeNew, Option.bind_eq_bind, Option.bind_eq_some_iff, Option.pure_def,
    Option.some.injEq, Prod.exists, Prod.mk.injEq] at h
  obtain ⟨c₁, company, hcompany, c₂, canonical, hcanonical, c₃, hinsert, rfl, _⟩ := h
  obtain ⟨hjobs₁, hobservations₁⟩ := resolveCompany_eq_some hcompany
  obtain ⟨hsourceId, hjobs₃, hobservations₃, hcompanies₃⟩ := insertSource_eq_some hinsert
  unfold createOrReuse at hcanonical
  split at hcanonical <;>
    obtain ⟨_, hjob, heq⟩ := Option.map_eq_some_iff.mp hcanonical <;> cases heq
  · obtain ⟨hfresh, hjobs₂, hobservations₂, hcompanies₂⟩ := insertJob_eq_some hjob
    refine .created c₁ company hsource hcompany ‹_› (hjobs₁ ▸ hfresh) ?_
      (hcompanies₃.trans hcompanies₂) ?_ ?_
    · rwa [hobservations₂, hobservations₁] at hsourceId
    · rw [hjobs₃, hjobs₂, hjobs₁]
    · rw [hobservations₃, hobservations₂, hobservations₁]
  · obtain ⟨hjobs₂, hobservations₂, hcompanies₂⟩ := updateJob_eq_some hjob
    refine .merged c₁ company _ hsource hcompany ‹_› ?_ (hcompanies₃.trans hcompanies₂) ?_ ?_
    · rwa [hobservations₂, hobservations₁] at hsourceId
    · rw [hjobs₃, hjobs₂, hjobs₁]
    · rw [hobservations₃, hobservations₂, hobservations₁]

/-- A listing is ingested in one of the three ways. -/
theorem ingested_of_ingest (h : ingest rt c job observedAt choice = some (c', result)) :
    Ingested rt c job observedAt choice c' := by
  unfold ingest at h
  split at h
  · exact ingested_of_reobserve ‹_› h
  · exact ingested_of_observeNew ‹_› h

end

/-! ## The graph -/

/-- The relation between canonical jobs and observations. -/
structure Graph (c : Database) : Prop where
  jobIds : Unique (·.id) c.jobs
  sourceIds : Unique (·.id) c.observations
  identities : Unique JobSourceObservation.identity c.observations
  canonical : ∀ o ∈ c.observations, ∃ j ∈ c.jobs, j.id = o.jobId
  observed : ∀ j ∈ c.jobs, ∃ o ∈ c.observations, o.jobId = j.id
  active : ∀ j ∈ c.jobs, j.isActive = hasActiveSource c.observations j

/-- The observations of {lit}`c` still point to their canonical jobs in {lit}`c'`. -/
def Kept (c c' : Database) : Prop :=
  ∀ o ∈ c.observations, ∃ o' ∈ c'.observations, o'.identity = o.identity ∧ o'.jobId = o.jobId

theorem Kept.refl (c : Database) : Kept c c :=
  fun o ho => ⟨o, ho, rfl, rfl⟩

theorem Kept.trans {c₁ c₂ c₃ : Database} (h : Kept c₁ c₂) (h' : Kept c₂ c₃) : Kept c₁ c₃ := by
  intro o ho
  obtain ⟨o₂, ho₂, hid₂, hjob₂⟩ := h o ho
  obtain ⟨o₃, ho₃, hid₃, hjob₃⟩ := h' o₂ ho₂
  exact ⟨o₃, ho₃, hid₃.trans hid₂, hjob₃.trans hjob₂⟩

theorem hasActiveSource_iff {observations : List JobSourceObservation} {j : CanonicalJob} :
    hasActiveSource observations j = true ↔
      ∃ o ∈ observations, o.jobId = j.id ∧ o.isActive = true := by
  simp [hasActiveSource]

section

variable {rt : Runtime} {c c' : Database}

/-- A change of one canonical job and its observations, after which the job is active and
has an active observation. -/
theorem Graph.local (h : Graph c) (id : UUID)
    (hjobs : ∀ j ∈ c'.jobs, j.id ≠ id → j ∈ c.jobs)
    (hself : ∀ j ∈ c'.jobs, j.id = id → j.isActive = true)
    (hobservations : ∀ o, o.jobId ≠ id → (o ∈ c'.observations ↔ o ∈ c.observations))
    (hactive : ∃ o ∈ c'.observations, o.jobId = id ∧ o.isActive = true) :
    (∀ j ∈ c'.jobs, ∃ o ∈ c'.observations, o.jobId = j.id) ∧
      ∀ j ∈ c'.jobs, j.isActive = hasActiveSource c'.observations j := by
  obtain ⟨o₀, ho₀, hid₀, hactive₀⟩ := hactive
  constructor
  · intro j hj
    by_cases hid : j.id = id
    · exact ⟨o₀, ho₀, hid₀.trans hid.symm⟩
    · obtain ⟨o, ho, hjob⟩ := h.observed j (hjobs j hj hid)
      exact ⟨o, (hobservations o (hjob ▸ hid)).mpr ho, hjob⟩
  · intro j hj
    by_cases hid : j.id = id
    · rw [hself j hj hid, eq_comm, hasActiveSource_iff]
      exact ⟨o₀, ho₀, hid₀.trans hid.symm, hactive₀⟩
    · rw [h.active j (hjobs j hj hid), Bool.eq_iff_iff, hasActiveSource_iff, hasActiveSource_iff]
      refine exists_congr fun o => ?_
      constructor
      · rintro ⟨ho, hjob, hact⟩
        exact ⟨(hobservations o (hjob ▸ hid)).mpr ho, hjob, hact⟩
      · rintro ⟨ho, hjob, hact⟩
        exact ⟨(hobservations o (hjob ▸ hid)).mp ho, hjob, hact⟩

/-- A listing that has been seen before refreshes its observation and canonical job. -/
theorem Graph.refresh {o : JobSourceObservation} {j : CanonicalJob} (h : Graph c)
    (o' : JobSourceObservation) (j' : CanonicalJob)
    (ho : o ∈ c.observations) (hj : j ∈ c.jobs) (hjob : j.id = o.jobId)
    (hid : o'.id = o.id) (hidentity : o'.identity = o.identity) (hjobId : o'.jobId = o.jobId)
    (hactive : o'.isActive = true) (hjid : j'.id = j.id) (hjactive : j'.isActive = true)
    (hjobs : c'.jobs = put (·.id) j' c.jobs)
    (hobservations : c'.observations = put (·.id) o' c.observations) :
    Graph c' ∧ Kept c c' := by
  have hmemJob : ∀ x, x ∈ c'.jobs ↔ x = j' ∨ (x ∈ c.jobs ∧ x ≠ j) := fun x => by
    rw [hjobs]
    exact mem_put h.jobIds hj hjid.symm
  have hmemSource : ∀ x, x ∈ c'.observations ↔ x = o' ∨ (x ∈ c.observations ∧ x ≠ o) := fun x => by
    rw [hobservations]
    exact mem_put h.sourceIds ho hid.symm
  have hkept : Kept c c' := by
    intro x hx
    by_cases hxo : x = o
    · subst hxo
      exact ⟨o', (hmemSource o').mpr (Or.inl rfl), hidentity, hjobId⟩
    · exact ⟨x, (hmemSource x).mpr (Or.inr ⟨hx, hxo⟩), rfl, rfl⟩
  obtain ⟨hobserved, hactives⟩ := h.local j.id
    (fun x hx hne => by
      rcases (hmemJob x).mp hx with rfl | ⟨hx, _⟩
      · exact absurd hjid hne
      · exact hx)
    (fun x hx hxid => by
      rcases (hmemJob x).mp hx with rfl | ⟨hx, hne⟩
      · exact hjactive
      · exact absurd (h.jobIds.eq hx hj hxid) hne)
    (fun x hne => by
      rw [hmemSource]
      constructor
      · rintro (rfl | ⟨hx, _⟩)
        · exact absurd (hjobId.trans hjob.symm) hne
        · exact hx
      · intro hx
        exact Or.inr ⟨hx, fun heq => hne (heq ▸ hjob.symm)⟩)
    ⟨o', (hmemSource o').mpr (Or.inl rfl), hjobId.trans hjob.symm, hactive⟩
  refine ⟨⟨?_, ?_, ?_, fun x hx => ?_, hobserved, hactives⟩, hkept⟩
  · rw [hjobs]
    exact h.jobIds.put h.jobIds hj hjid.symm hjid
  · rw [hobservations]
    exact h.sourceIds.put h.sourceIds ho hid.symm hid
  · rw [hobservations]
    exact h.identities.put h.sourceIds ho hid.symm hidentity
  · have hjobOf : ∃ y ∈ c.jobs, y.id = x.jobId := by
      rcases (hmemSource x).mp hx with rfl | ⟨hx, _⟩
      · exact ⟨j, hj, hjob.trans hjobId.symm⟩
      · exact h.canonical x hx
    obtain ⟨y, hy, hyid⟩ := hjobOf
    by_cases hyj : y = j
    · exact ⟨j', (hmemJob j').mpr (Or.inl rfl), hjid.trans (hyj ▸ hyid)⟩
    · exact ⟨y, (hmemJob y).mpr (Or.inr ⟨hy, hyj⟩), hyid⟩

/-- A new observation of an active canonical job, which may itself be new. -/
theorem Graph.observe {o : JobSourceObservation} {j : CanonicalJob} (h : Graph c)
    (hid : ∀ x ∈ c.observations, x.id ≠ o.id)
    (hidentity : ∀ x ∈ c.observations, x.identity ≠ o.identity) (hjob : o.jobId = j.id)
    (hactive : o.isActive = true) (hjactive : j.isActive = true)
    (hjobIds : Unique (·.id) c'.jobs)
    (hjobs : ∀ x, x ∈ c'.jobs ↔ x = j ∨ (x ∈ c.jobs ∧ x.id ≠ j.id))
    (hobservations : c'.observations = c.observations ++ [o]) : Graph c' ∧ Kept c c' := by
  have hmemSource : ∀ x, x ∈ c'.observations ↔ x ∈ c.observations ∨ x = o := fun x => by
    rw [hobservations, List.mem_append, List.mem_singleton]
  obtain ⟨hobserved, hactives⟩ := h.local j.id
    (fun x hx hne => by
      rcases (hjobs x).mp hx with rfl | ⟨hx, _⟩
      · exact absurd rfl hne
      · exact hx)
    (fun x hx hxid => by
      rcases (hjobs x).mp hx with rfl | ⟨_, hne⟩
      · exact hjactive
      · exact absurd hxid hne)
    (fun x hne => by
      rw [hmemSource]
      exact or_iff_left fun heq => hne (heq ▸ hjob))
    ⟨o, (hmemSource o).mpr (Or.inr rfl), hjob, hactive⟩
  refine ⟨⟨hjobIds, ?_, ?_, fun x hx => ?_, hobserved, hactives⟩,
    fun x hx => ⟨x, (hmemSource x).mpr (Or.inl hx), rfl, rfl⟩⟩
  · rw [hobservations]
    exact h.sourceIds.insert hid
  · rw [hobservations]
    exact h.identities.insert hidentity
  · rcases (hmemSource x).mp hx with hx | rfl
    · obtain ⟨y, hy, hyid⟩ := h.canonical x hx
      by_cases hyj : y.id = j.id
      · exact ⟨j, (hjobs j).mpr (Or.inl rfl), hyj.symm.trans hyid⟩
      · exact ⟨y, (hjobs y).mpr (Or.inr ⟨hy, hyj⟩), hyid⟩
    · exact ⟨j, (hjobs j).mpr (Or.inl rfl), hjob.symm⟩

theorem findJobBySourceUrl_eq_some {source : String} {sourceUrl : Option String} {pick : Nat}
    {canonical : CanonicalJob} (h : c.findJobBySourceUrl source sourceUrl pick = some canonical) :
    ∃ url, sourceUrl = some url ∧ ∃ o ∈ c.observations, o.source = source ∧
      o.sourceUrl = some url ∧ c.getJob o.jobId = some canonical := by
  cases sourceUrl with
  | none => contradiction
  | some url =>
      obtain ⟨o, ho, hjob⟩ := List.mem_filterMap.mp (List.mem_of_getElem? h)
      obtain ⟨ho, hurl⟩ := List.mem_filter.mp ho
      simp only [Bool.and_eq_true, decide_eq_true_eq] at hurl
      exact ⟨url, rfl, o, ho, hurl.1, hurl.2, hjob⟩

theorem mem_findDedupCandidates {companyId : UUID} {normalizedTitle : String} {j : CanonicalJob}
    (h : j ∈ c.findDedupCandidates companyId normalizedTitle) :
    j ∈ c.jobs ∧ j.companyId = some companyId ∧ j.isActive = true ∧
      j.normalizedTitle = normalizedTitle := by
  obtain ⟨hj, hp⟩ := List.mem_filter.mp
    ((List.mem_insertionSort _).mp (List.mem_of_mem_take h))
  simp only [Bool.and_eq_true, decide_eq_true_eq] at hp
  exact ⟨hj, hp.1.1, hp.1.2, hp.2⟩

theorem evaluateSameSourceUrl_shouldMerge (candidate : Option CanonicalJob) :
    (evaluateSameSourceUrl candidate).shouldMerge = candidate.isSome := by
  cases candidate <;> rfl

/-- A new listing reuses the job that its URL finds, or else the first candidate that the
evaluation accepts. -/
theorem selectCanonical_eq_some {job : NormalizedJob} {company : Option Company} {pick : Nat}
    {candidate : CanonicalJob} (h : selectCanonical rt c job company pick = some candidate) :
    c.findJobBySourceUrl job.source job.jobUrl pick = some candidate ∨
      c.findJobBySourceUrl job.source job.jobUrl pick = none ∧
        ∃ com, company = some com ∧
          (c.findDedupCandidates com.id job.normalizedTitle).find?
            (fun x => (evaluateCrossSourceCandidate rt x job).shouldMerge) = some candidate := by
  unfold selectCanonical at h
  dsimp only at h
  rw [evaluateSameSourceUrl_shouldMerge] at h
  cases hurl : c.findJobBySourceUrl job.source job.jobUrl pick with
  | some canonical => exact Or.inl (by simpa [hurl] using h)
  | none =>
      cases company with
      | none => simp [hurl] at h
      | some com => exact Or.inr ⟨rfl, com, rfl, by simpa [hurl] using h⟩

/-- The URL of a listing that is given a job of its own finds none. -/
theorem findJobBySourceUrl_of_selectCanonical {job : NormalizedJob} {company : Option Company}
    {pick : Nat} (h : selectCanonical rt c job company pick = none) :
    c.findJobBySourceUrl job.source job.jobUrl pick = none := by
  unfold selectCanonical at h
  dsimp only at h
  rw [evaluateSameSourceUrl_shouldMerge] at h
  cases hurl : c.findJobBySourceUrl job.source job.jobUrl pick with
  | none => rfl
  | some canonical => simp [hurl] at h

/-- The canonical job that a new listing reuses exists. -/
theorem selectCanonical_mem {job : NormalizedJob} {company : Option Company} {pick : Nat}
    {candidate : CanonicalJob} (h : selectCanonical rt c job company pick = some candidate) :
    candidate ∈ c.jobs := by
  rcases selectCanonical_eq_some h with hurl | ⟨_, com, _, hfind⟩
  · obtain ⟨_, _, o, _, _, _, hjob⟩ := findJobBySourceUrl_eq_some hurl
    exact (getJob_eq_some hjob).1
  · exact (mem_findDedupCandidates (List.mem_of_find?_eq_some hfind)).1

/-- Every ingestion keeps the graph. -/
theorem Graph.ingested {job : NormalizedJob} {observedAt : Time} {choice : IngestChoice}
    (h : Graph c) (hi : Ingested rt c job observedAt choice c') : Graph c' ∧ Kept c c' := by
  cases hi with
  | reobserved c₁ o j company hsource _ hjob _ hjobs hobservations =>
      have hj := getJob_eq_some hjob
      exact h.refresh (refreshedSource o job observedAt (o.contentHash ≠ job.contentHash))
        (refreshedJob rt j job company observedAt) (getSource_eq_some hsource).1 hj.1 hj.2
        rfl rfl rfl rfl rfl rfl hjobs hobservations
  | created c₁ company hsource _ _ hfresh hsourceId _ hjobs hobservations =>
      refine h.observe hsourceId (getSource_eq_none hsource) rfl rfl rfl ?_ (fun x => ?_)
        hobservations
      · rw [hjobs]
        exact h.jobIds.insert hfresh
      · rw [hjobs, List.mem_append, List.mem_singleton, or_comm]
        exact or_congr_right (iff_self_and.mpr fun hx => hfresh x hx)
  | merged c₁ company candidate hsource hcompany hselect hsourceId _ hjobs hobservations =>
      have hmem : candidate ∈ c.jobs :=
        (resolveCompany_eq_some hcompany).1 ▸ selectCanonical_mem hselect
      have hkey : candidate.id = (markCanonicalSeen candidate observedAt).id := rfl
      refine h.observe hsourceId (getSource_eq_none hsource) rfl rfl rfl ?_ (fun x => ?_)
        hobservations
      · rw [hjobs]
        exact h.jobIds.put h.jobIds hmem hkey rfl
      · rw [hjobs, mem_put h.jobIds hmem hkey]
        refine or_congr_right (and_congr_right fun hx => not_congr ?_)
        exact ⟨fun heq => heq ▸ hkey, fun hid => h.jobIds.eq hx hmem hid⟩

/-- Bulk updates that leave ids, identities and references alone. -/
theorem Graph.bulk {p : CanonicalJob → Bool} {f : CanonicalJob → CanonicalJob}
    {q : JobSourceObservation → Bool} {g : JobSourceObservation → JobSourceObservation}
    (h : Graph c) (hjobs : c'.jobs = updateWhere p f c.jobs)
    (hobservations : c'.observations = updateWhere q g c.observations)
    (hf : ∀ j, (f j).id = j.id) (hid : ∀ o, (g o).id = o.id)
    (hidentity : ∀ o, (g o).identity = o.identity) (hjobId : ∀ o, (g o).jobId = o.jobId)
    (hactive : ∀ j ∈ c'.jobs, j.isActive = hasActiveSource c'.observations j) :
    Graph c' ∧ Kept c c' := by
  have hjob : ∀ j ∈ c.jobs, ∃ j' ∈ c'.jobs, j'.id = j.id := by
    intro j hj
    rw [hjobs]
    refine ⟨_, mem_updateWhere_of_mem hj, ?_⟩
    split
    · exact hf j
    · rfl
  have hkept : Kept c c' := by
    intro o ho
    rw [hobservations]
    refine ⟨_, mem_updateWhere_of_mem ho, ?_⟩
    split
    · exact ⟨hidentity o, hjobId o⟩
    · exact ⟨rfl, rfl⟩
  refine ⟨⟨?_, ?_, ?_, fun o' ho' => ?_, fun j' hj' => ?_, hactive⟩, hkept⟩
  · rw [hjobs]
    exact h.jobIds.updateWhere fun j _ _ => hf j
  · rw [hobservations]
    exact h.sourceIds.updateWhere fun o _ _ => hid o
  · rw [hobservations]
    exact h.identities.updateWhere fun o _ _ => hidentity o
  · rw [hobservations] at ho'
    obtain ⟨o, ho, heq⟩ := mem_updateWhere.mp ho'
    have hsame : o'.jobId = o.jobId := by
      rw [← heq]
      split
      · exact hjobId o
      · rfl
    obtain ⟨j, hj, hjid⟩ := h.canonical o ho
    obtain ⟨j', hj', hid'⟩ := hjob j hj
    exact ⟨j', hj', by rw [hid', hjid, hsame]⟩
  · rw [hjobs] at hj'
    obtain ⟨j, hj, heq⟩ := mem_updateWhere.mp hj'
    have hsame : j'.id = j.id := by
      rw [← heq]
      split
      · exact hf j
      · rfl
    obtain ⟨o, ho, hojob⟩ := h.observed j hj
    obtain ⟨o', ho', _, hjob'⟩ := hkept o ho
    exact ⟨o', ho', by rw [hjob', hojob, hsame]⟩

/-- Whether a job has an active observation is decided by its own observations. -/
theorem hasActiveSource_updateWhere {q : JobSourceObservation → Bool}
    {g : JobSourceObservation → JobSourceObservation} {observations : List JobSourceObservation}
    {j : CanonicalJob} (hjobId : ∀ o, (g o).jobId = o.jobId)
    (hq : ∀ o ∈ observations, o.jobId = j.id → q o = false) :
    hasActiveSource (updateWhere q g observations) j = hasActiveSource observations j := by
  rw [Bool.eq_iff_iff, hasActiveSource_iff, hasActiveSource_iff]
  constructor
  · rintro ⟨o', ho', hjob, hactive⟩
    obtain ⟨o, ho, rfl⟩ := mem_updateWhere.mp ho'
    have hjob' : o.jobId = j.id := by
      split at hjob
      · exact (hjobId o).symm.trans hjob
      · exact hjob
    rw [if_neg (by simp [hq o ho hjob'])] at hactive
    exact ⟨o, ho, hjob', hactive⟩
  · rintro ⟨o, ho, hjob, hactive⟩
    refine ⟨o, ?_, hjob, hactive⟩
    have hmem := mem_updateWhere_of_mem (p := q) (f := g) ho
    rwa [if_neg (by simp [hq o ho hjob])] at hmem

/-- Recording a search result keeps the graph. -/
theorem Graph.touchSourcesSeen {source : String} {sourceJobIds : List String} {observedAt : Time}
    (h : Graph c) :
    Graph (touchSourcesSeen c source sourceJobIds observedAt).1 ∧
      Kept c (touchSourcesSeen c source sourceJobIds observedAt).1 := by
  unfold Catalogue.touchSourcesSeen
  split
  · exact ⟨h, Kept.refl c⟩
  · refine h.bulk rfl rfl (fun _ => rfl) (fun _ => rfl) (fun _ => rfl) (fun _ => rfl) ?_
    intro j' hj'
    obtain ⟨j, hj, heq⟩ := mem_updateWhere.mp hj'
    by_cases hlisted : j.id ∈ (c.observations.filter (isListed source sourceJobIds)).map (·.jobId)
    · -- a listed observation is active afterwards
      obtain ⟨o, ho, hojob⟩ := List.mem_map.mp hlisted
      obtain ⟨ho, hq⟩ := List.mem_filter.mp ho
      rw [if_pos (by simpa using hlisted)] at heq
      subst heq
      symm
      refine hasActiveSource_iff.mpr ⟨_, mem_updateWhere_of_mem ho, ?_⟩
      rw [if_pos hq]
      exact ⟨hojob, rfl⟩
    · rw [if_neg (by simpa using hlisted)] at heq
      subst heq
      rw [h.active j hj]
      symm
      apply hasActiveSource_updateWhere
      · exact fun _ => rfl
      · intro o ho hjob
        by_contra hq
        exact hlisted (List.mem_map.mpr ⟨o, List.mem_filter.mpr ⟨ho, by simpa using hq⟩, hjob⟩)

/-- A deactivation of observations only takes active observations away. -/
theorem hasActiveSource_deactivated {q : JobSourceObservation → Bool}
    {observations : List JobSourceObservation} {j : CanonicalJob}
    (h : hasActiveSource (updateWhere q (fun o => { o with isActive := false }) observations) j =
      true) : hasActiveSource observations j = true := by
  obtain ⟨o', ho', hjob, hactive⟩ := hasActiveSource_iff.mp h
  obtain ⟨o, ho, rfl⟩ := mem_updateWhere.mp ho'
  by_cases hq : q o = true
  · rw [if_pos hq] at hactive
    contradiction
  · rw [if_neg hq] at hjob hactive
    exact hasActiveSource_iff.mpr ⟨o, ho, hjob, hactive⟩

/-- Deactivating the stale observations of a source keeps the graph. -/
theorem Graph.deactivateStaleSources {source : String} {staleThreshold safetyWindowStart : Time}
    (h : Graph c) :
    Graph (deactivateStaleSources c source staleThreshold safetyWindowStart).1 ∧
      Kept c (deactivateStaleSources c source staleThreshold safetyWindowStart).1 := by
  unfold Catalogue.deactivateStaleSources
  split
  · exact ⟨h, Kept.refl c⟩
  · dsimp only
    split
    · exact ⟨h, Kept.refl c⟩
    split
    · refine h.bulk rfl rfl (fun _ => rfl) (fun _ => rfl) (fun _ => rfl) (fun _ => rfl) ?_
      intro j' hj'
      obtain ⟨j, hj, rfl⟩ := mem_updateWhere.mp hj'
      cases hnow : hasActiveSource (updateWhere (isStale source staleThreshold)
          (fun o => { o with isActive := false }) c.observations) j with
      | true =>
          have hactive : j.isActive = true :=
            (h.active j hj).trans (hasActiveSource_deactivated hnow)
          simp [hactive, hnow]
      | false =>
          cases hactive : j.isActive with
          | true =>
              rw [if_pos (by simp)]
              exact hnow.symm
          | false => simp [hactive, hnow]
    · -- no observation was stale, so none has changed
      rename_i hcount
      have hnone : ∀ o ∈ c.observations, isStale source staleThreshold o = false := by
        intro o ho
        by_contra hstale
        exact hcount (List.length_pos_of_mem (List.mem_filter.mpr ⟨ho, by simpa using hstale⟩))
      have hjobs : c.jobs = updateWhere (fun _ => false) id c.jobs := by simp [updateWhere]
      refine h.bulk hjobs rfl (fun _ => rfl) (fun _ => rfl) (fun _ => rfl) (fun _ => rfl)
        fun j hj => ?_
      rw [h.active j hj]
      symm
      apply hasActiveSource_updateWhere
      · exact fun _ => rfl
      · exact fun o ho _ => hnone o ho

/-! ## Runs -/

/-- Every operation keeps the graph. -/
theorem Graph.step {op : Op} (h : Graph c) (hstep : step rt c op = some c') :
    Graph c' ∧ Kept c c' := by
  cases op with
  | ingest job observedAt choice =>
      obtain ⟨⟨_, result⟩, hingest, rfl⟩ := Option.map_eq_some_iff.mp hstep
      exact h.ingested (ingested_of_ingest hingest)
  | touchSeen source sourceJobIds observedAt =>
      cases hstep
      exact h.touchSourcesSeen
  | deactivateStaleSources source staleThreshold safetyWindowStart =>
      cases hstep
      exact h.deactivateStaleSources

theorem Graph.run (h : Graph c) (ops : List Op) :
    Graph (run rt c ops) ∧ Kept c (run rt c ops) := by
  induction ops generalizing c with
  | nil => exact ⟨h, Kept.refl c⟩
  | cons op ops ih =>
      have hnext : Graph ((Catalogue.step rt c op).getD c) ∧
          Kept c ((Catalogue.step rt c op).getD c) := by
        cases hstep : Catalogue.step rt c op with
        | none => exact ⟨h, Kept.refl c⟩
        | some c' => exact h.step hstep
      obtain ⟨hgraph, hkept⟩ := ih hnext.1
      exact ⟨hgraph, hnext.2.trans hkept⟩

theorem graph_empty : Graph empty where
  jobIds := unique_nil
  sourceIds := unique_nil
  identities := unique_nil
  canonical := by simp [empty]
  observed := by simp [empty]
  active := by simp [empty]

theorem run_append (c : Database) (ops more : List Op) :
    run rt c (ops ++ more) = run rt (run rt c ops) more := by
  rw [run, List.foldl_append]
  rfl

/-- In every state that a sequence of operations reaches from the empty catalogue, an
identity names at most one observation, the canonical job of an observation exists, every
canonical job has an observation and is active exactly when one of its observations is;
and an observation keeps its canonical job over the rest of the run. -/
theorem catalogue_graph (rt : Runtime) (ops more : List Op) :
    Graph (run rt empty ops) ∧
      ∀ o ∈ (run rt empty ops).observations, ∃ o' ∈ (run rt empty (ops ++ more)).observations,
        o'.identity = o.identity ∧ o'.jobId = o.jobId ∧
          ∀ x ∈ (run rt empty (ops ++ more)).observations, x.identity = o.identity → x = o' := by
  have hgraph : Graph (run rt empty ops) := (graph_empty.run ops).1
  refine ⟨hgraph, fun o ho => ?_⟩
  rw [run_append]
  obtain ⟨hgraph', hkept⟩ : Graph (run rt (run rt empty ops) more) ∧
      Kept (run rt empty ops) (run rt (run rt empty ops) more) := hgraph.run more
  obtain ⟨o', ho', hidentity, hjob⟩ := hkept o ho
  exact ⟨o', ho', hidentity, hjob, fun x hx hxid =>
    hgraph'.identities.eq hx ho' (hxid.trans hidentity.symm)⟩

end

end Catalogue
end HireAndTech
