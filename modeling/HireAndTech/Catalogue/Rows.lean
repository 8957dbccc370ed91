import HireAndTech.Catalogue.Graph

/-!
# What a call does to the rows of canonical jobs

A row of {lit}`jobs` after a call is a row from before, up to its freshness, or it is the
row that the ingestion of a listing has refreshed or created.  Companies are only added,
and a row points to a company that exists.

Main results:

- Theorem {lit}`rowAfter_of_step`: where a row comes from.
- Theorem {lit}`Employers.step`: every call keeps the references to companies.
- Theorem {lit}`companyName_step`: a row keeps the name of its company.
-/

namespace HireAndTech
namespace Catalogue

open Relational

/-! ## Companies -/

/-- The normalized name of the company of a row. -/
def companyName (companies : List Company) (j : CanonicalJob) : String :=
  ((j.companyId.bind fun id => companies.find? (·.id = id)).map (·.normalizedName)).getD ""

/-- Company ids are unique and every reference to a company resolves. -/
structure Employers (c : Database) : Prop where
  companyIds : Unique (·.id) c.companies
  employer : ∀ j ∈ c.jobs, ∀ id, j.companyId = some id → ∃ company ∈ c.companies, company.id = id

/-- The listing carries the name of its employer and the normalized name. -/
def NormalizedJob.namesEmployer (job : NormalizedJob) : Bool :=
  job.company.isSome && job.normalizedCompany.isSome

section

variable {rt : Runtime} {c c' c₁ : Database} {job : NormalizedJob} {company : Option Company}
  {observedAt : Time} {newId : UUID} {j : CanonicalJob}

/-- A listing that does not name its employer resolves to no company and adds none. -/
theorem resolveCompany_unnamed (hnamed : job.namesEmployer = false) :
    c.resolveCompany job newId = some (c, none) := by
  unfold Database.resolveCompany
  split
  · simp_all [NormalizedJob.namesEmployer]
  · rfl

/-- A listing that names its employer resolves to a company with the normalized name, which
the table has or is given under a new id. -/
theorem resolveCompany_named (hnamed : job.namesEmployer = true)
    (h : c.resolveCompany job newId = some (c₁, company)) :
    ∃ com, company = some com ∧ job.normalizedCompany = some com.normalizedName ∧
      com ∈ c₁.companies ∧
      (c₁.companies = c.companies ∨
        c₁.companies = c.companies ++ [com] ∧ ∀ x ∈ c.companies, x.id ≠ com.id) := by
  unfold Database.resolveCompany at h
  split at h
  · rename_i name normalizedName hname hnormalized
    split at h
    · rename_i found hfind
      cases h
      have hnormalizedName : found.normalizedName = normalizedName := by
        simpa using List.find?_some hfind
      exact ⟨found, rfl, by rw [hnormalized, hnormalizedName], List.mem_of_find?_eq_some hfind,
        Or.inl rfl⟩
    · split at h
      · rename_i hfree
        cases h
        exact ⟨_, rfl, hnormalized, by simp, Or.inr ⟨rfl, by simpa using hfree⟩⟩
      · contradiction
  · rename_i hnone
    simp only [NormalizedJob.namesEmployer, Bool.and_eq_true, Option.isSome_iff_exists] at hnamed
    obtain ⟨⟨name, hname⟩, normalizedName, hnormalized⟩ := hnamed
    exact absurd hnormalized (hnone name normalizedName hname)

/-- Companies are only added, each under a new id. -/
theorem resolveCompany_companies (h : c.resolveCompany job newId = some (c₁, company)) :
    c₁.companies = c.companies ∨
      ∃ com, c₁.companies = c.companies ++ [com] ∧ ∀ x ∈ c.companies, x.id ≠ com.id := by
  cases hnamed : job.namesEmployer with
  | false =>
      rw [resolveCompany_unnamed hnamed] at h
      cases h
      exact Or.inl rfl
  | true =>
      obtain ⟨com, _, _, _, hcompanies⟩ := resolveCompany_named hnamed h
      exact hcompanies.imp id fun hadded => ⟨com, hadded⟩

theorem unique_grown {old new : List Company} (hids : Unique (·.id) old)
    (h : new = old ∨ ∃ com, new = old ++ [com] ∧ ∀ x ∈ old, x.id ≠ com.id) :
    Unique (·.id) new := by
  rcases h with rfl | ⟨com, rfl, hfree⟩
  · exact hids
  · exact hids.insert hfree

theorem subset_grown {old new : List Company}
    (h : new = old ∨ ∃ com, new = old ++ [com] ∧ ∀ x ∈ old, x.id ≠ com.id) :
    ∀ x ∈ old, x ∈ new := by
  intro x hx
  rcases h with rfl | ⟨com, rfl, _⟩
  · exact hx
  · exact List.mem_append_left _ hx

/-- A company is found under its id. -/
theorem find_company {companies : List Company} (hids : Unique (·.id) companies) {com : Company}
    (hcom : com ∈ companies) : companies.find? (·.id = com.id) = some com := by
  cases hfind : companies.find? (·.id = com.id) with
  | none =>
      have hnone := List.find?_eq_none.mp hfind com hcom
      simp at hnone
  | some found =>
      have hid : found.id = com.id := by simpa using List.find?_some hfind
      rw [hids.eq (List.mem_of_find?_eq_some hfind) hcom hid]

/-- The company of a row is the one its reference resolves to. -/
theorem companyName_eq {companies : List Company} (hids : Unique (·.id) companies) {com : Company}
    (hcom : com ∈ companies) (hj : j.companyId = some com.id) :
    companyName companies j = com.normalizedName := by
  rw [companyName, hj, Option.bind_some, find_company hids hcom]
  rfl

/-- Added companies leave the company of a row alone. -/
theorem companyName_grown {companies : List Company} (h : Employers c) (hj : j ∈ c.jobs)
    (hgrown : companies = c.companies ∨
      ∃ com, companies = c.companies ++ [com] ∧ ∀ x ∈ c.companies, x.id ≠ com.id) :
    companyName companies j = companyName c.companies j := by
  cases hid : j.companyId with
  | none => rw [companyName, companyName, hid]; rfl
  | some id =>
      obtain ⟨com, hcom, rfl⟩ := h.employer j hj id hid
      rw [companyName_eq h.companyIds hcom hid,
        companyName_eq (unique_grown h.companyIds hgrown) (subset_grown hgrown com hcom) hid]

theorem resolveCompany_mem (hresolve : c.resolveCompany job newId = some (c₁, company)) :
    ∀ com, company = some com → com ∈ c₁.companies := by
  intro com hcom
  cases hnamed : job.namesEmployer with
  | false =>
      rw [resolveCompany_unnamed hnamed] at hresolve
      cases hresolve
      contradiction
  | true =>
      obtain ⟨com', hcom', _, hmem, _⟩ := resolveCompany_named hnamed hresolve
      rw [hcom] at hcom'
      cases hcom'
      exact hmem

end

/-! ## Rows -/

/-- The row of {lit}`j` with another freshness. -/
def Freshened (j j' : CanonicalJob) : Prop :=
  ∃ seen active, j' = { j with lastSeenAt := seen, isActive := active }

theorem Freshened.refl (j : CanonicalJob) : Freshened j j :=
  ⟨j.lastSeenAt, j.isActive, rfl⟩

theorem freshened_updateWhere {jobs : List CanonicalJob} {p : CanonicalJob → Bool}
    {f : CanonicalJob → CanonicalJob} {j' : CanonicalJob} (hf : ∀ j, Freshened j (f j))
    (hj' : j' ∈ updateWhere p f jobs) : ∃ j ∈ jobs, Freshened j j' := by
  obtain ⟨j, hj, rfl⟩ := mem_updateWhere.mp hj'
  refine ⟨j, hj, ?_⟩
  split
  · exact hf j
  · exact Freshened.refl j

/-- Where a row of {lit}`jobs` comes from after a call. -/
inductive RowAfter (rt : Runtime) (c c' : Database) : Op → CanonicalJob → Prop
  | kept {op : Op} (y x : CanonicalJob) (hy : y ∈ c.jobs) (hfresh : Freshened y x) :
      RowAfter rt c c' op x
  | refreshed (job : NormalizedJob) (observedAt : Time) (choice : IngestChoice) (c₁ : Database)
      (o : JobSourceObservation) (j : CanonicalJob) (company : Option Company)
      (hsource : c.getSource job.source job.externalJobId = some o)
      (hresolve : c.resolveCompany job choice.companyId = some (c₁, company))
      (hjob : c.getJob o.jobId = some j) (hcompanies : c'.companies = c₁.companies) :
      RowAfter rt c c' (.ingest job observedAt choice) (refreshedJob rt j job company observedAt)
  | created (job : NormalizedJob) (observedAt : Time) (choice : IngestChoice) (c₁ : Database)
      (company : Option Company)
      (hsource : c.getSource job.source job.externalJobId = none)
      (hresolve : c.resolveCompany job choice.companyId = some (c₁, company))
      (hselect : selectCanonical rt c₁ job company choice.pick = none)
      (hcompanies : c'.companies = c₁.companies) :
      RowAfter rt c c' (.ingest job observedAt choice)
        (createdJob rt choice.jobId job company observedAt)

section

variable {rt : Runtime} {c c' c₁ : Database} {job : NormalizedJob} {company : Option Company}
  {observedAt : Time} {choice : IngestChoice} {j : CanonicalJob} {op : Op}

theorem rowAfter_of_ingested (hgraph : Graph c) (hi : Ingested rt c job observedAt choice c')
    (hj : j ∈ c'.jobs) : RowAfter rt c c' (.ingest job observedAt choice) j := by
  cases hi with
  | reobserved c₁ o canonical company hsource hresolve hjob hcompanies hjobs _ =>
      have hkey : canonical.id = (refreshedJob rt canonical job company observedAt).id := rfl
      rw [hjobs, mem_put hgraph.jobIds (getJob_eq_some hjob).1 hkey] at hj
      rcases hj with rfl | ⟨hj, _⟩
      · exact .refreshed job observedAt choice c₁ o canonical company hsource hresolve hjob
          hcompanies
      · exact .kept j j hj (Freshened.refl j)
  | created c₁ company hsource hresolve hselect _ _ hcompanies hjobs _ =>
      rw [hjobs, List.mem_append, List.mem_singleton] at hj
      rcases hj with hj | rfl
      · exact .kept j j hj (Freshened.refl j)
      · exact .created job observedAt choice c₁ company hsource hresolve hselect hcompanies
  | merged c₁ company candidate hsource hresolve hselect _ hcompanies hjobs _ =>
      have hmem : candidate ∈ c.jobs :=
        (resolveCompany_eq_some hresolve).1 ▸ selectCanonical_mem hselect
      have hkey : candidate.id = (markCanonicalSeen candidate observedAt).id := rfl
      rw [hjobs, mem_put hgraph.jobIds hmem hkey] at hj
      rcases hj with rfl | ⟨hj, _⟩
      · exact .kept candidate _ hmem ⟨observedAt, true, rfl⟩
      · exact .kept j j hj (Freshened.refl j)

/-- Recording a search result changes the freshness of rows and nothing else of them. -/
theorem freshened_touchSeen {source : String} {sourceJobIds : List String}
    (hj : j ∈ (touchSeen c source sourceJobIds observedAt).1.jobs) :
    ∃ x ∈ c.jobs, Freshened x j := by
  unfold touchSeen touchSourcesSeen at hj
  split at hj
  · exact ⟨j, hj, Freshened.refl j⟩
  · exact freshened_updateWhere (fun x => ⟨observedAt, true, rfl⟩) hj

/-- Deactivation changes the freshness of rows and nothing else of them. -/
theorem freshened_deactivateStaleSources {source : String} {staleThreshold safetyWindowStart : Time}
    (hj : j ∈ (deactivateStaleSources c source staleThreshold safetyWindowStart).1.jobs) :
    ∃ x ∈ c.jobs, Freshened x j := by
  unfold deactivateStaleSources at hj
  split at hj
  · exact ⟨j, hj, Freshened.refl j⟩
  · dsimp only at hj
    split at hj
    · exact ⟨j, hj, Freshened.refl j⟩
    split at hj
    · exact freshened_updateWhere (fun x => ⟨x.lastSeenAt, false, rfl⟩) hj
    · exact ⟨j, hj, Freshened.refl j⟩

theorem companies_touchSeen {source : String} {sourceJobIds : List String} :
    (touchSeen c source sourceJobIds observedAt).1.companies = c.companies := by
  unfold touchSeen touchSourcesSeen
  split <;> rfl

theorem companies_deactivateStaleSources {source : String}
    {staleThreshold safetyWindowStart : Time} :
    (deactivateStaleSources c source staleThreshold safetyWindowStart).1.companies =
      c.companies := by
  unfold deactivateStaleSources
  split
  · rfl
  · dsimp only
    split
    · rfl
    · split <;> rfl

/-- A row after a call. -/
theorem rowAfter_of_step (hgraph : Graph c) (h : step rt c op = some c') (hj : j ∈ c'.jobs) :
    RowAfter rt c c' op j := by
  cases op with
  | ingest job observedAt choice =>
      obtain ⟨⟨_, result⟩, hingest, rfl⟩ := Option.map_eq_some_iff.mp h
      exact rowAfter_of_ingested hgraph (ingested_of_ingest hingest) hj
  | touchSeen source sourceJobIds observedAt =>
      cases h
      obtain ⟨x, hx, hfresh⟩ := freshened_touchSeen hj
      exact .kept x j hx hfresh
  | deactivateStaleSources source staleThreshold safetyWindowStart =>
      cases h
      obtain ⟨x, hx, hfresh⟩ := freshened_deactivateStaleSources hj
      exact .kept x j hx hfresh

/-! ## References to companies -/

/-- Companies are only added, each under a new id. -/
theorem companies_step (h : step rt c op = some c') :
    c'.companies = c.companies ∨
      ∃ com, c'.companies = c.companies ++ [com] ∧ ∀ x ∈ c.companies, x.id ≠ com.id := by
  cases op with
  | ingest job observedAt choice =>
      obtain ⟨⟨_, result⟩, hingest, rfl⟩ := Option.map_eq_some_iff.mp h
      cases ingested_of_ingest hingest with
      | reobserved c₁ _ _ _ _ hresolve _ hcompanies _ _ =>
          rw [hcompanies]
          exact resolveCompany_companies hresolve
      | created c₁ _ _ hresolve _ _ _ hcompanies _ _ =>
          rw [hcompanies]
          exact resolveCompany_companies hresolve
      | merged c₁ _ _ _ hresolve _ _ hcompanies _ _ =>
          rw [hcompanies]
          exact resolveCompany_companies hresolve
  | touchSeen source sourceJobIds observedAt =>
      cases h
      exact Or.inl companies_touchSeen
  | deactivateStaleSources source staleThreshold safetyWindowStart =>
      cases h
      exact Or.inl companies_deactivateStaleSources

/-- Every call keeps the references to companies. -/
theorem Employers.step (hgraph : Graph c) (h : Employers c) (hstep : step rt c op = some c') :
    Employers c' := by
  have hgrown := companies_step hstep
  constructor
  · exact unique_grown h.companyIds hgrown
  · intro j hj id hid
    have hold : ∀ y ∈ c.jobs, y.companyId = some id → ∃ com ∈ c'.companies, com.id = id := by
      intro y hy hyid
      obtain ⟨com, hcom, hcomid⟩ := h.employer y hy id hyid
      exact ⟨com, subset_grown hgrown com hcom, hcomid⟩
    cases rowAfter_of_step hgraph hstep hj with
    | kept y _ hy hfresh =>
        obtain ⟨_, _, rfl⟩ := hfresh
        exact hold y hy hid
    | refreshed job observedAt choice c₁ o canonical company _ hresolve hjob hcompanies =>
        cases company with
        | none => exact hold canonical (getJob_eq_some hjob).1 hid
        | some com =>
            rw [hcompanies]
            exact ⟨com, resolveCompany_mem hresolve com rfl, Option.some.inj hid⟩
    | created job observedAt choice c₁ company _ hresolve _ hcompanies =>
        obtain ⟨com, hcom, hcomid⟩ := Option.map_eq_some_iff.mp hid
        rw [hcompanies]
        exact ⟨com, resolveCompany_mem hresolve com hcom, hcomid⟩

theorem employers_empty : Employers empty where
  companyIds := unique_nil
  employer := by simp [empty]

/-- A row keeps the name of its company over a call. -/
theorem companyName_step (h : Employers c) (hj : j ∈ c.jobs)
    (hstep : Catalogue.step rt c op = some c') :
    companyName c'.companies j = companyName c.companies j :=
  companyName_grown h hj (companies_step hstep)

end

/-! ## A sample listing -/

/-- The digests of three keys, and the date of one time. -/
def sampleRuntime : Runtime where
  casefold := id
  sha256 text :=
    if text = "acme\x00backend engineer\x00austin, tx\x002026-09-01" then
      "2568c06897a661b5cb890048da091753b9233199ef0ede7f4684aba593d5205d"
    else if text = "acme\x00senior backend engineer\x00austin, tx\x002026-09-01" then
      "8d4a114ef147bcb185d944d30c8c52608b55a92f8bb94ff8a9090671d0a8b326"
    else "d0c7467c58dfebdce6be113a71dde14eac22f7eac8e76d86c923da33eb14c9fa"
  isoDate _ := "2026-09-01"

/-- The digest of the key of a backend engineer without company, place and date. -/
def undatedRuntime : Runtime where
  casefold := id
  sha256 _ := "5520d8492a6a18eb7ec124b40906b76a5beae1bb363c8473377337cdd2a8ffe0"
  isoDate _ := "1970-01-01"

/-- A complete listing. -/
def austinListing : NormalizedJob :=
  { NormalizedJob.bare "dice" "a1" "Backend Engineer" "backend engineer" "backend" with
    company := some "Acme"
    normalizedCompany := some "acme"
    location := some "Austin, TX"
    normalizedLocation := some "austin, tx"
    postedAt := some 1788220800000000
    contentHash := "1f6c0d0a" }

end Catalogue
end HireAndTech
