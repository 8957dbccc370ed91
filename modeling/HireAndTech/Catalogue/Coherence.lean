import HireAndTech.Catalogue.Rows
import HireAndTech.Runs.Partial

/-!
# Coherence of the canonical hash

The canonical hash of a job is the digest of four parts of its row: the normalized name of
its company, its normalized title, its normalized location and its posting date.  A new job
is given the digest of the listing.  A refresh changes the parts under separate guards, and
takes the digest of the listing only when the listing carries a company, a location and a
posting date.

Main results:

- Theorem {lit}`rowKey_refreshedJob`: the parts of a row after a refresh.
- Theorem {lit}`HashCoherent.step`: a call that meets {lit}`KeyKept` keeps every hash equal to the
  digest of its row.
- Theorem {lit}`canonical_hash_coherent`: the same for runs.
-/

namespace HireAndTech
namespace Catalogue

open Relational

/-! ## Parts and digests -/

/-- The parts that `build_canonical_hash` joins. -/
@[ext]
structure HashKey where
  company : String
  title : String
  location : String
  postedDate : String
deriving DecidableEq, Repr

/-- The digest of the joined parts. -/
def HashKey.digest (rt : Runtime) (key : HashKey) : String :=
  rt.sha256 (String.intercalate "\x00" [key.company, key.title, key.location, key.postedDate])

/-- The text of the posting date. -/
def postedDate (rt : Runtime) (postedAt : Option Time) : String :=
  (postedAt.map rt.isoDate).getD ""

/-- The parts of a listing. -/
def NormalizedJob.hashKey (rt : Runtime) (job : NormalizedJob) : HashKey where
  company := job.normalizedCompany.getD ""
  title := job.normalizedTitle
  location := job.normalizedLocation.getD ""
  postedDate := postedDate rt job.postedAt

theorem buildCanonicalHash_eq (rt : Runtime) (job : NormalizedJob) :
    buildCanonicalHash rt job = (job.hashKey rt).digest rt :=
  rfl

/-- The parts of a row. -/
def rowKey (rt : Runtime) (c : Database) (j : CanonicalJob) : HashKey where
  company := companyName c.companies j
  title := j.normalizedTitle
  location := j.normalizedLocation.getD ""
  postedDate := postedDate rt j.postedAt

/-- Every hash is the digest of its row. -/
def HashCoherent (rt : Runtime) (c : Database) : Prop :=
  ∀ j ∈ c.jobs, j.canonicalHash = (rowKey rt c j).digest rt

/-! ## What a refresh does to the parts -/

section

variable {rt : Runtime} {c c' c₁ : Database} {job : NormalizedJob} {company : Option Company}
  {observedAt : Time} {choice : IngestChoice} {newId : UUID} {j : CanonicalJob} {op : Op}

/-- The parts of a row after a refresh. -/
theorem rowKey_refreshedJob (h : Employers c)
    (hresolve : c.resolveCompany job newId = some (c₁, company))
    (hcompanies : c'.companies = c₁.companies) :
    rowKey rt c' (refreshedJob rt j job company observedAt) =
      { company :=
          if job.namesEmployer then (job.hashKey rt).company else (rowKey rt c j).company
        title := if job.hasRealTitle then (job.hashKey rt).title else (rowKey rt c j).title
        location :=
          if hasText job.location then (job.hashKey rt).location else (rowKey rt c j).location
        postedDate :=
          if job.postedAt.isSome then (job.hashKey rt).postedDate
          else (rowKey rt c j).postedDate } := by
  have hcompany : companyName c₁.companies (refreshedJob rt j job company observedAt) =
      if job.namesEmployer then (job.hashKey rt).company else (rowKey rt c j).company := by
    cases hnamed : job.namesEmployer with
    | false =>
        rw [resolveCompany_unnamed hnamed] at hresolve
        cases hresolve
        rfl
    | true =>
        obtain ⟨com, rfl, hname, hcom, _⟩ := resolveCompany_named hnamed hresolve
        rw [companyName_eq (unique_grown h.companyIds (resolveCompany_companies hresolve)) hcom rfl,
          if_pos rfl, NormalizedJob.hashKey, hname, Option.getD_some]
  have hlocation : (refreshedJob rt j job company observedAt).normalizedLocation.getD "" =
      if hasText job.location then (job.hashKey rt).location else (rowKey rt c j).location :=
    apply_ite (fun location : Option String => location.getD "") _ _ _
  have hposted : postedDate rt (refreshedJob rt j job company observedAt).postedAt =
      if job.postedAt.isSome then (job.hashKey rt).postedDate
      else (rowKey rt c j).postedDate := by
    unfold refreshedJob
    cases hpostedAt : job.postedAt <;> simp [hpostedAt, NormalizedJob.hashKey, rowKey]
  rw [rowKey, hcompanies, hcompany, hlocation, hposted]
  rfl

/-- The listing carries what a refresh asks for before it takes the digest of the listing. -/
def NormalizedJob.isComplete (job : NormalizedJob) : Bool :=
  truthy job.normalizedCompany && truthy job.normalizedLocation && job.postedAt.isSome

/-- A refresh with the listing keeps hash and row together, where {lit}`key` holds the parts of
the row before.  A complete listing has to replace every part or agree with it.  Any other
listing has to agree with every part that it replaces. -/
def RefreshKept (rt : Runtime) (key : HashKey) (job : NormalizedJob) : Prop :=
  if job.isComplete then
    (job.namesEmployer = true ∨ (job.hashKey rt).company = key.company) ∧
      (job.hasRealTitle = true ∨ (job.hashKey rt).title = key.title) ∧
      (hasText job.location = true ∨ (job.hashKey rt).location = key.location)
  else
    (job.namesEmployer = true → (job.hashKey rt).company = key.company) ∧
      (job.hasRealTitle = true → (job.hashKey rt).title = key.title) ∧
      (hasText job.location = true → (job.hashKey rt).location = key.location) ∧
      (job.postedAt.isSome → (job.hashKey rt).postedDate = key.postedDate)

instance RefreshKept.decidable (rt : Runtime) (key : HashKey) (job : NormalizedJob) :
    Decidable (RefreshKept rt key job) := by
  unfold RefreshKept
  infer_instance

/-- The call keeps hash and row together.  A listing that is given a job of its own has to name
its employer or carry no normalized company. -/
def KeyKept (rt : Runtime) (c : Database) : Op → Prop
  | .ingest job _ choice =>
      match c.getSource job.source job.externalJobId with
      | some o => ∀ j ∈ c.getJob o.jobId, RefreshKept rt (rowKey rt c j) job
      | none =>
          c.findJobBySourceUrl job.source job.jobUrl choice.pick = none →
            job.namesEmployer = true ∨ (job.hashKey rt).company = ""
  | .touchSeen _ _ _ => True
  | .deactivateStaleSources _ _ _ => True

instance KeyKept.decidable (rt : Runtime) (c : Database) : DecidablePred (KeyKept rt c) := by
  intro op
  unfold KeyKept
  cases op with
  | ingest job observedAt choice => dsimp only; split <;> infer_instance
  | touchSeen source sourceJobIds observedAt => exact isTrue trivial
  | deactivateStaleSources source staleThreshold safetyWindowStart => exact isTrue trivial

theorem hash_refreshedJob (h : Employers c)
    (hhash : j.canonicalHash = (rowKey rt c j).digest rt)
    (hresolve : c.resolveCompany job newId = some (c₁, company))
    (hcompanies : c'.companies = c₁.companies) (hkept : RefreshKept rt (rowKey rt c j) job) :
    (refreshedJob rt j job company observedAt).canonicalHash =
      (rowKey rt c' (refreshedJob rt j job company observedAt)).digest rt := by
  rw [rowKey_refreshedJob h hresolve hcompanies]
  unfold RefreshKept at hkept
  cases hcomplete : job.isComplete with
  | true =>
      rw [if_pos hcomplete] at hkept
      obtain ⟨hcompany, htitle, hlocation⟩ := hkept
      have hposted : job.postedAt.isSome = true := by
        simp only [NormalizedJob.isComplete, Bool.and_eq_true] at hcomplete
        exact hcomplete.2
      have hnew : (refreshedJob rt j job company observedAt).canonicalHash =
          (job.hashKey rt).digest rt := by
        rw [← buildCanonicalHash_eq]
        exact if_pos hcomplete
      rw [hnew]
      congr 1
      ext <;> grind
  | false =>
      rw [if_neg (by simp [hcomplete])] at hkept
      obtain ⟨hcompany, htitle, hlocation, hposted⟩ := hkept
      have hold : (refreshedJob rt j job company observedAt).canonicalHash = j.canonicalHash :=
        if_neg (by simpa [NormalizedJob.isComplete] using hcomplete)
      rw [hold, hhash]
      congr 1
      ext <;> grind

theorem hash_createdJob (h : Employers c)
    (hresolve : c.resolveCompany job newId = some (c₁, company))
    (hcompanies : c'.companies = c₁.companies)
    (hkept : job.namesEmployer = true ∨ (job.hashKey rt).company = "") :
    (createdJob rt choice.jobId job company observedAt).canonicalHash =
      (rowKey rt c' (createdJob rt choice.jobId job company observedAt)).digest rt := by
  have hcompany : companyName c₁.companies (createdJob rt choice.jobId job company observedAt) =
      (job.hashKey rt).company := by
    cases hnamed : job.namesEmployer with
    | false =>
        rw [resolveCompany_unnamed hnamed] at hresolve
        cases hresolve
        rcases hkept with hnamed' | hempty
        · rw [hnamed] at hnamed'
          contradiction
        · rw [hempty]
          rfl
    | true =>
        obtain ⟨com, rfl, hname, hcom, _⟩ := resolveCompany_named hnamed hresolve
        rw [companyName_eq (unique_grown h.companyIds (resolveCompany_companies hresolve)) hcom rfl,
          NormalizedJob.hashKey, hname, Option.getD_some]
  rw [rowKey, hcompanies, hcompany]
  rfl

/-! ## Runs -/

/-- A call that meets the condition keeps every hash the digest of its row. -/
theorem HashCoherent.step (hgraph : Graph c) (hemployers : Employers c) (h : HashCoherent rt c)
    (hkept : KeyKept rt c op) (hstep : step rt c op = some c') : HashCoherent rt c' := by
  intro j hj
  cases rowAfter_of_step hgraph hstep hj with
  | kept y _ hy hfresh =>
      have hname := companyName_step hemployers hy hstep
      obtain ⟨_, _, rfl⟩ := hfresh
      have hhash := h y hy
      rw [rowKey, ← hname] at hhash
      exact hhash
  | refreshed job observedAt choice c₁ o canonical company hsource hresolve hjob hcompanies =>
      simp only [KeyKept, hsource] at hkept
      exact hash_refreshedJob hemployers (h canonical (getJob_eq_some hjob).1) hresolve hcompanies
        (hkept canonical hjob)
  | created job observedAt choice c₁ company hsource hresolve hselect hcompanies =>
      simp only [KeyKept, hsource] at hkept
      apply hash_createdJob hemployers hresolve hcompanies
      cases hnamed : job.namesEmployer with
      | true => exact Or.inl rfl
      | false =>
          rw [resolveCompany_unnamed hnamed] at hresolve
          cases hresolve
          simpa [hnamed] using hkept (findJobBySourceUrl_of_selectCanonical hselect)

/-- After every sequence of calls from the empty catalogue in which each call that succeeds
meets the condition, every canonical hash is the digest of its row. -/
theorem canonical_hash_coherent (rt : Runtime) (ops : List Op)
    (hops : Runs.Each (Catalogue.step rt) (KeyKept rt) empty ops) :
    ∀ j ∈ (run rt empty ops).jobs,
      j.canonicalHash = (rowKey rt (run rt empty ops) j).digest rt := by
  have hthroughout : Runs.Throughout (Catalogue.step rt) (HashCoherent rt) empty ops := by
    refine Runs.throughout_of_each (J := fun c => Graph c ∧ Employers c) ?_ ?_
      ⟨graph_empty, employers_empty⟩ ?_ hops
    · intro c op c' hJ hstep
      exact ⟨(hJ.1.step hstep).1, hJ.2.step hJ.1 hstep⟩
    · intro c op c' hJ hI hok hstep
      exact hI.step hJ.1 hJ.2 hok hstep
    · simp [HashCoherent, empty]
  exact hthroughout.final

end

/-- A complete listing that is seen twice, and a third time without a posting date. -/
theorem canonical_hash_coherent_reobserved :
    HashCoherent sampleRuntime (run sampleRuntime empty
      [.ingest austinListing 1788264000000000 ⟨1, 2, 3, 0⟩,
        .ingest austinListing 1788267600000000 ⟨4, 5, 6, 0⟩,
        .touchSeen "dice" ["a1"] 1788271200000000,
        .ingest { austinListing with postedAt := none } 1788274800000000 ⟨7, 8, 9, 0⟩]) := by
  apply canonical_hash_coherent
  simp only [Runs.each_cons, Runs.each_nil, and_true]
  exact ⟨fun _ => by decide, fun _ => by decide, fun _ => by decide, fun _ => by decide⟩

/-- A listing that comes back with another title and no location leaves the hash of the old
title. -/
theorem renamed_listing_keeps_hash :
    ¬∀ j ∈ (run sampleRuntime empty
      [.ingest austinListing 1788264000000000 ⟨1, 2, 3, 0⟩,
        .ingest
          { austinListing with
            jobTitle := "Senior Backend Engineer"
            normalizedTitle := "senior backend engineer"
            location := none
            normalizedLocation := none
            contentHash := "77b2e9d4" }
          1788267600000000 ⟨4, 5, 6, 0⟩]).jobs,
      j.canonicalHash = (rowKey sampleRuntime (run sampleRuntime empty
        [.ingest austinListing 1788264000000000 ⟨1, 2, 3, 0⟩,
          .ingest
            { austinListing with
              jobTitle := "Senior Backend Engineer"
              normalizedTitle := "senior backend engineer"
              location := none
              normalizedLocation := none
              contentHash := "77b2e9d4" }
            1788267600000000 ⟨4, 5, 6, 0⟩]) j).digest sampleRuntime := by
  decide

end Catalogue
end HireAndTech
