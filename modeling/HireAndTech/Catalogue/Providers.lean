import HireAndTech.Catalogue.Deduplication
import HireAndTech.Runs.Partial

/-!
# Listings of one provider

A new listing whose URL finds no job is compared with candidates by company and title.  The
query for candidates does not mention the provider, so a candidate may carry listings of
the provider that the new listing comes from.

Main results:

- Definition {lit}`Accepted`: the candidate that is taken for a new listing.
- Theorem {lit}`firstIngest_cases`: what the first ingestion of a listing does.
- Theorem {lit}`provider_listings_apart_iff`: when two listings of one provider share a
  canonical job only through a URL.
-/

namespace HireAndTech
namespace Catalogue

open Relational

/-! ## First ingestions -/

/-- The call ingests a listing whose identity the catalogue does not have, and succeeds. -/
structure FirstIngest (rt : Runtime) (c : Database) (job : NormalizedJob) (observedAt : Time)
    (choice : IngestChoice) (identity : String × String) : Prop where
  listing : (job.source, job.externalJobId) = identity
  absent : ∀ o ∈ c.observations, o.identity ≠ identity
  succeeds : (step rt c (.ingest job observedAt choice)).isSome

/-- The URL of the listing is the stored URL of an observation of the provider that points
to the job. -/
def UrlHit (c : Database) (job : NormalizedJob) (jobId : UUID) : Prop :=
  ∃ url, job.jobUrl = some url ∧ ∃ o ∈ c.observations,
    o.source = job.source ∧ o.sourceUrl = some url ∧ o.jobId = jobId

/-- Two listings of one provider share a canonical job only if the URL of the one that has
been ingested later found an observation of that job when it was first ingested. -/
def ListingsApart (rt : Runtime) (ops : List Op) : Prop :=
  ∀ o₁ ∈ (run rt empty ops).observations, ∀ o₂ ∈ (run rt empty ops).observations,
    o₁.source = o₂.source → o₁.sourceJobId ≠ o₂.sourceJobId → o₁.jobId = o₂.jobId →
      ∀ before job observedAt choice after,
        ops = before ++ .ingest job observedAt choice :: after →
          FirstIngest rt (run rt empty before) job observedAt choice o₂.identity →
            (∃ x ∈ (run rt empty before).observations, x.identity = o₁.identity) →
              UrlHit (run rt empty before) job o₂.jobId

/-- The candidate that the cross-source evaluation accepts for a listing whose URL finds no
job. -/
def acceptedCandidate (rt : Runtime) (c : Database) (job : NormalizedJob) (choice : IngestChoice) :
    Option CanonicalJob :=
  match c.findJobBySourceUrl job.source job.jobUrl choice.pick with
  | some _ => none
  | none => do
      let (c, company) ← c.resolveCompany job choice.companyId
      let company ← company
      (c.findDedupCandidates company.id job.normalizedTitle).find? fun candidate =>
        (evaluateCrossSourceCandidate rt candidate job).shouldMerge

/-- The URL of the listing finds no job, and among the ten latest active jobs of its employer with
its title, the candidate is the first one that can be merged with it. -/
structure Accepted (rt : Runtime) (c : Database) (job : NormalizedJob) (candidate : CanonicalJob) :
    Prop where
  url : ∀ jobId, ¬UrlHit c job jobId
  first : ∃ name company before after, job.company.isSome ∧ job.normalizedCompany = some name ∧
    c.companies.find? (·.normalizedName = name) = some company ∧
    c.findDedupCandidates company.id job.normalizedTitle = before ++ candidate :: after ∧
    Mergeable rt candidate job ∧ ∀ earlier ∈ before, ¬Mergeable rt earlier job

/-- The candidate that is accepted for a new listing carries no listing of its provider. -/
def ProviderKept (rt : Runtime) (c : Database) : Op → Prop
  | .ingest job _ _ =>
      (∀ o ∈ c.observations, o.identity ≠ (job.source, job.externalJobId)) →
        ∀ candidate, Accepted rt c job candidate →
          ∀ o ∈ c.observations, o.jobId = candidate.id → o.source ≠ job.source
  | .touchSeen _ _ _ => True
  | .deactivateStaleSources _ _ _ => True

section

variable {rt : Runtime} {c c' c₁ : Database} {job : NormalizedJob} {company : Option Company}
  {observedAt : Time} {choice : IngestChoice} {candidate : CanonicalJob}

theorem getSource_of_absent
    (h : ∀ o ∈ c.observations, o.identity ≠ (job.source, job.externalJobId)) :
    c.getSource job.source job.externalJobId = none := by
  cases hsource : c.getSource job.source job.externalJobId with
  | none => rfl
  | some o =>
      obtain ⟨ho, hid⟩ := getSource_eq_some hsource
      exact absurd hid (h o ho)

/-- A resolved company leaves the URL query alone. -/
theorem findJobBySourceUrl_resolved
    (hcompany : c.resolveCompany job choice.companyId = some (c₁, company)) :
    c₁.findJobBySourceUrl job.source job.jobUrl choice.pick =
      c.findJobBySourceUrl job.source job.jobUrl choice.pick := by
  obtain ⟨hjobs, hobservations⟩ := resolveCompany_eq_some hcompany
  unfold Database.findJobBySourceUrl Database.jobsBySourceUrl Database.getJob
  rw [hjobs, hobservations]

/-- Without a URL hit the accepted candidate is the one that the listing reuses. -/
theorem acceptedCandidate_eq (hurl : c.findJobBySourceUrl job.source job.jobUrl choice.pick = none)
    (hcompany : c.resolveCompany job choice.companyId = some (c₁, company)) :
    acceptedCandidate rt c job choice = selectCanonical rt c₁ job company choice.pick := by
  have hurl₁ := (findJobBySourceUrl_resolved hcompany).trans hurl
  unfold acceptedCandidate selectCanonical
  rw [hurl]
  simp only [hcompany, hurl₁, evaluateSameSourceUrl_shouldMerge, Option.isSome_none,
    Bool.false_eq_true, if_false, Option.bind_eq_bind, Option.bind_some]
  cases company <;> rfl

theorem url_of_acceptedCandidate (h : candidate ∈ acceptedCandidate rt c job choice) :
    c.findJobBySourceUrl job.source job.jobUrl choice.pick = none := by
  unfold acceptedCandidate at h
  cases hurl : c.findJobBySourceUrl job.source job.jobUrl choice.pick with
  | none => rfl
  | some canonical =>
      rw [hurl] at h
      contradiction

/-- A URL that finds no job is no stored URL of the provider. -/
theorem not_urlHit (hgraph : Graph c) {jobId : UUID}
    (hurl : c.findJobBySourceUrl job.source job.jobUrl choice.pick = none) :
    ¬UrlHit c job jobId := by
  rintro ⟨url, hjobUrl, o, ho, hsource, hourl, _⟩
  obtain ⟨j, hj, hjid⟩ := hgraph.canonical o ho
  have hget : ∃ j, c.getJob o.jobId = some j := by
    rw [← Option.isSome_iff_exists, Database.getJob, List.find?_isSome]
    exact ⟨j, hj, by simpa using hjid⟩
  obtain ⟨j', hj'⟩ := hget
  have hhit : j' ∈ c.jobsBySourceUrl job.source url := by
    rw [Database.jobsBySourceUrl, List.mem_filterMap]
    exact ⟨o, List.mem_filter.mpr ⟨ho, by simp [hsource, hourl]⟩, hj'⟩
  rw [hjobUrl] at hurl
  have hpos := List.length_pos_of_mem hhit
  have hnone := List.getElem?_eq_none_iff.mp hurl
  have hlt := Nat.mod_lt choice.pick hpos
  omega

/-- The first candidate that can be merged is the one that is found. -/
theorem find?_shouldMerge_iff {candidates : List CanonicalJob} :
    (candidates.find? fun candidate =>
        (evaluateCrossSourceCandidate rt candidate job).shouldMerge) = some candidate ↔
      ∃ before after, candidates = before ++ candidate :: after ∧ Mergeable rt candidate job ∧
        ∀ earlier ∈ before, ¬Mergeable rt earlier job := by
  rw [List.find?_eq_some_iff_append, shouldMerge_iff]
  simp only [Bool.not_eq_true', ← Bool.not_eq_true, shouldMerge_iff]
  constructor
  · rintro ⟨hmerge, before, after, hsplit, hbefore⟩
    exact ⟨before, after, hsplit, hmerge, hbefore⟩
  · rintro ⟨before, after, hsplit, hmerge, hbefore⟩
    exact ⟨hmerge, before, after, hsplit, hbefore⟩

/-- An employer that has just been added has no jobs. -/
theorem findDedupCandidates_of_new (hemployers : Employers c) {companyId : UUID}
    (hnew : ∀ company ∈ c.companies, company.id ≠ companyId) (title : String) :
    c.findDedupCandidates companyId title = [] := by
  refine List.eq_nil_iff_forall_not_mem.mpr fun j hj => ?_
  obtain ⟨hmem, hcompany, -⟩ := mem_findDedupCandidates hj
  obtain ⟨company, hcompany', hid⟩ := hemployers.employer j hmem _ hcompany
  exact hnew company hcompany' hid

/-- The first candidate of an employer that the catalogue has. -/
theorem accepted_iff_of_employer {normalizedName : String} {employer : Company}
    (hnone : ∀ jobId, ¬UrlHit c job jobId) (hnamed : job.company.isSome)
    (hnormalized : job.normalizedCompany = some normalizedName)
    (hfind : c.companies.find? (·.normalizedName = normalizedName) = some employer) :
    ((c.findDedupCandidates employer.id job.normalizedTitle).find? fun candidate =>
        (evaluateCrossSourceCandidate rt candidate job).shouldMerge) = some candidate ↔
      Accepted rt c job candidate := by
  rw [find?_shouldMerge_iff]
  constructor
  · rintro ⟨before, after, hfirst⟩
    exact ⟨hnone, normalizedName, employer, before, after, hnamed, hnormalized, hfind, hfirst⟩
  · rintro ⟨-, normalizedName', employer', before, after, -, hnormalized', hfind', hfirst⟩
    cases hnormalized.symm.trans hnormalized'
    cases hfind.symm.trans hfind'
    exact ⟨before, after, hfirst⟩

/-- No candidate is taken for an employer that the catalogue does not have. -/
theorem not_accepted_of_unknown {normalizedName : String}
    (hnormalized : job.normalizedCompany = some normalizedName)
    (hfind : c.companies.find? (·.normalizedName = normalizedName) = none) :
    ¬Accepted rt c job candidate := by
  rintro ⟨-, normalizedName', employer, -, -, -, hnormalized', hfind', -⟩
  cases hnormalized.symm.trans hnormalized'
  rw [hfind] at hfind'
  contradiction

/-- The candidate that the evaluation accepts, in terms of the evidence. -/
theorem mem_acceptedCandidate_iff (hgraph : Graph c) (hemployers : Employers c)
    (hcompany : c.resolveCompany job choice.companyId = some (c₁, company)) :
    candidate ∈ acceptedCandidate rt c job choice ↔ Accepted rt c job candidate := by
  cases hurl : c.findJobBySourceUrl job.source job.jobUrl choice.pick with
  | some canonical =>
      obtain ⟨url, hjobUrl, o, ho, hsource, hourl, -⟩ := findJobBySourceUrl_eq_some hurl
      refine iff_of_false (fun h => ?_) fun h =>
        h.url o.jobId ⟨url, hjobUrl, o, ho, hsource, hourl, rfl⟩
      rw [url_of_acceptedCandidate h] at hurl
      contradiction
  | none =>
      have hnone : ∀ jobId, ¬UrlHit c job jobId := fun jobId => not_urlHit hgraph hurl
      rw [Option.mem_def, acceptedCandidate, hurl]
      simp only [hcompany, Option.bind_eq_bind, Option.bind_some]
      unfold Database.resolveCompany at hcompany
      split at hcompany
      · rename_i name normalizedName hname hnormalized
        have hnamed : job.company.isSome := Option.isSome_of_eq_some hname
        split at hcompany
        · rename_i employer hfind
          cases hcompany
          exact accepted_iff_of_employer hnone hnamed hnormalized hfind
        · rename_i hfind
          split at hcompany
          · rename_i hfresh
            cases hcompany
            have hnew : ∀ employer ∈ c.companies, employer.id ≠ choice.companyId := by
              simpa using hfresh
            have hempty := findDedupCandidates_of_new hemployers hnew job.normalizedTitle
            refine iff_of_false ?_ (not_accepted_of_unknown hnormalized hfind)
            rw [Option.bind_some, ← Option.mem_def]
            intro h
            exact List.not_mem_nil (hempty ▸ List.mem_of_find?_eq_some h)
          · contradiction
      · rename_i hunnamed
        cases hcompany
        refine iff_of_false (by simp) ?_
        rintro ⟨-, normalizedName, -, -, -, hnamed, hnormalized, -⟩
        obtain ⟨name, hname⟩ := Option.isSome_iff_exists.mp hnamed
        exact hunnamed name normalizedName hname hnormalized

/-- The first ingestion of a listing gives it a job of its own, merges it through its URL, or
merges it into the accepted candidate. -/
theorem firstIngest_cases (hgraph : Graph c)
    (habsent : ∀ o ∈ c.observations, o.identity ≠ (job.source, job.externalJobId))
    (hi : Ingested rt c job observedAt choice c') :
    ∃ o ∈ c'.observations, o.identity = (job.source, job.externalJobId) ∧
      ((acceptedCandidate rt c job choice = none ∧ ∀ x ∈ c.observations, x.jobId ≠ o.jobId) ∨
        (acceptedCandidate rt c job choice = none ∧ UrlHit c job o.jobId) ∨
        ∃ candidate ∈ acceptedCandidate rt c job choice, o.jobId = candidate.id) := by
  have hsource := getSource_of_absent habsent
  cases hi with
  | reobserved _ _ _ _ hsource' =>
      rw [hsource] at hsource'
      contradiction
  | created c₁ company _ hcompany hselect hfresh _ _ _ hobservations =>
      refine ⟨createdSource choice.sourceId job
        (createdJob rt choice.jobId job company observedAt) observedAt, by simp [hobservations],
        rfl, Or.inl ⟨?_, ?_⟩⟩
      · have hurl := findJobBySourceUrl_of_selectCanonical hselect
        rw [findJobBySourceUrl_resolved hcompany] at hurl
        rw [acceptedCandidate_eq hurl hcompany, hselect]
      · intro x hx heq
        obtain ⟨j, hj, hjid⟩ := hgraph.canonical x hx
        exact hfresh j hj (hjid.trans heq)
  | merged c₁ company candidate _ hcompany hselect _ _ _ hobservations =>
      refine ⟨createdSource choice.sourceId job (markCanonicalSeen candidate observedAt) observedAt,
        by simp [hobservations], rfl, Or.inr ?_⟩
      cases hurl : c.findJobBySourceUrl job.source job.jobUrl choice.pick with
      | some canonical =>
          refine Or.inl ⟨by rw [acceptedCandidate, hurl], ?_⟩
          have hcandidate : canonical = candidate := by
            have hurl₁ := (findJobBySourceUrl_resolved hcompany).trans hurl
            rcases selectCanonical_eq_some hselect with hfound | ⟨hnone, _⟩
            · exact Option.some.inj (hurl₁.symm.trans hfound)
            · rw [hurl₁] at hnone
              contradiction
          obtain ⟨url, hjobUrl, x, hx, hxsource, hxurl, hxjob⟩ := findJobBySourceUrl_eq_some hurl
          refine ⟨url, hjobUrl, x, hx, hxsource, hxurl, ?_⟩
          rw [← (getJob_eq_some hxjob).2, hcandidate]
          rfl
      | none =>
          refine Or.inr ⟨candidate, ?_, rfl⟩
          rw [acceptedCandidate_eq hurl hcompany, hselect]
          rfl

/-- An ingestion that succeeds has resolved its employer. -/
theorem resolveCompany_of_step (hsome : (step rt c (.ingest job observedAt choice)).isSome) :
    ∃ c₁ company, c.resolveCompany job choice.companyId = some (c₁, company) := by
  obtain ⟨c', hstep⟩ := Option.isSome_iff_exists.mp hsome
  obtain ⟨⟨_, result⟩, hingest, rfl⟩ := Option.map_eq_some_iff.mp hstep
  cases ingested_of_ingest hingest with
  | reobserved c₁ _ _ company _ hcompany => exact ⟨c₁, company, hcompany⟩
  | created c₁ company _ hcompany => exact ⟨c₁, company, hcompany⟩
  | merged c₁ company _ _ hcompany => exact ⟨c₁, company, hcompany⟩

/-! ## Runs -/

/-- References to companies resolve after every sequence of calls. -/
theorem employers_run (rt : Runtime) (ops : List Op) : Employers (run rt empty ops) := by
  induction ops using List.reverseRecOn with
  | nil => exact employers_empty
  | append_singleton ops op ih =>
      rw [run_append]
      change Employers ((step rt (run rt empty ops) op).getD (run rt empty ops))
      cases hstep : step rt (run rt empty ops) op with
      | none => exact ih
      | some c' => exact ih.step (graph_empty.run ops).1 hstep

/-- After a sequence of calls the candidate that the evaluation accepts is the one that is
taken. -/
theorem mem_acceptedCandidate_run_iff {before : List Op}
    (hsome : (step rt (run rt empty before) (.ingest job observedAt choice)).isSome) :
    candidate ∈ acceptedCandidate rt (run rt empty before) job choice ↔
      Accepted rt (run rt empty before) job candidate := by
  obtain ⟨c₁, company, hcompany⟩ := resolveCompany_of_step hsome
  exact mem_acceptedCandidate_iff (graph_empty.run before).1 (employers_run rt before) hcompany

/-- The state of a run after a call that succeeds. -/
theorem run_step {before : List Op} (after : List Op) {op : Op}
    (hstep : step rt (run rt empty before) op = some c') :
    run rt empty (before ++ op :: after) = run rt c' after := by
  rw [run_append, run, List.foldl_cons, hstep]
  rfl

/-- An observation keeps its canonical job. -/
theorem jobId_run {more : List Op} (hgraph : Graph c) {o o' : JobSourceObservation}
    (ho : o ∈ c.observations) (ho' : o' ∈ (run rt c more).observations)
    (hid : o'.identity = o.identity) : o'.jobId = o.jobId := by
  obtain ⟨hgraph', hkept⟩ : Graph (run rt c more) ∧ Kept c (run rt c more) := hgraph.run more
  obtain ⟨x, hx, hxid, hxjob⟩ := hkept o ho
  rw [hgraph'.identities.eq ho' hx (hid.trans hxid.symm), hxjob]

/-- A first ingestion within a run, and the observation that it adds. -/
theorem firstIngest_run {before : List Op} (after : List Op)
    (habsent : ∀ o ∈ (run rt empty before).observations,
      o.identity ≠ (job.source, job.externalJobId))
    (hsome : (step rt (run rt empty before) (.ingest job observedAt choice)).isSome) :
    ∃ c', Graph c' ∧
      run rt empty (before ++ .ingest job observedAt choice :: after) = run rt c' after ∧
      ∃ o ∈ c'.observations, o.identity = (job.source, job.externalJobId) ∧
        ((acceptedCandidate rt (run rt empty before) job choice = none ∧
            ∀ x ∈ (run rt empty before).observations, x.jobId ≠ o.jobId) ∨
          (acceptedCandidate rt (run rt empty before) job choice = none ∧
            UrlHit (run rt empty before) job o.jobId) ∨
          ∃ candidate ∈ acceptedCandidate rt (run rt empty before) job choice,
            o.jobId = candidate.id) := by
  obtain ⟨c', hstep⟩ := Option.isSome_iff_exists.mp hsome
  have hgraph : Graph (run rt empty before) := (graph_empty.run before).1
  have hrun := run_step after hstep
  have hgraph' := (hgraph.step hstep).1
  obtain ⟨⟨_, result⟩, hingest, rfl⟩ := Option.map_eq_some_iff.mp hstep
  exact ⟨_, hgraph', hrun, firstIngest_cases hgraph habsent (ingested_of_ingest hingest)⟩

/-- A listing that is merged into a candidate with a listing of its provider. -/
theorem not_listingsApart {before after : List Op} {x : JobSourceObservation}
    (habsent : ∀ o ∈ (run rt empty before).observations,
      o.identity ≠ (job.source, job.externalJobId))
    (hsome : (step rt (run rt empty before) (.ingest job observedAt choice)).isSome)
    (hcandidate : candidate ∈ acceptedCandidate rt (run rt empty before) job choice)
    (hx : x ∈ (run rt empty before).observations) (hxjob : x.jobId = candidate.id)
    (hxsource : x.source = job.source) :
    ¬ListingsApart rt (before ++ .ingest job observedAt choice :: after) := by
  intro hapart
  have hgraph : Graph (run rt empty before) := (graph_empty.run before).1
  obtain ⟨c', hgraph', hrun, o, ho, hoid, hcases⟩ :=
    firstIngest_run after habsent hsome
  have hojob : o.jobId = candidate.id := by
    rcases hcases with ⟨hnone, _⟩ | ⟨hnone, _⟩ | ⟨candidate', hcandidate', hojob⟩
    · rw [hnone] at hcandidate
      contradiction
    · rw [hnone] at hcandidate
      contradiction
    · rw [hojob, Option.some.inj (hcandidate'.symm.trans hcandidate)]
  obtain ⟨o₁, ho₁, hid₁, hjob₁⟩ := (hgraph.run (.ingest job observedAt choice :: after)).2 x hx
  obtain ⟨o₂, ho₂, hid₂, hjob₂⟩ := (hgraph'.run after).2 o ho
  have hidentity₂ : o₂.identity = (job.source, job.externalJobId) := hid₂.trans hoid
  have hsource : o₁.source = o₂.source := by
    have h₁ : o₁.source = x.source := congrArg Prod.fst hid₁
    have h₂ : o₂.source = job.source := congrArg Prod.fst hidentity₂
    rw [h₁, h₂, hxsource]
  have hdistinct : o₁.sourceJobId ≠ o₂.sourceJobId := by
    intro heq
    have hsame : o₁.identity = o₂.identity := by
      rw [JobSourceObservation.identity, JobSourceObservation.identity, hsource, heq]
    exact habsent x hx (hid₁.symm.trans (hsame.trans hidentity₂))
  have hjobs : o₁.jobId = o₂.jobId := by rw [hjob₁, hxjob, hjob₂, hojob]
  rw [← run_append] at ho₁
  rw [← hrun] at ho₂
  have hhit : UrlHit (run rt empty before) job o₂.jobId := by
    apply hapart o₁ ho₁ o₂ ho₂ hsource hdistinct hjobs before job observedAt choice after rfl
    · exact ⟨hidentity₂.symm, hidentity₂ ▸ habsent, hsome⟩
    · exact ⟨x, hx, hid₁.symm⟩
  exact not_urlHit hgraph (url_of_acceptedCandidate hcandidate) hhit

end

/-- Two listings of one provider share a canonical job only through a URL, exactly when in no
first ingestion the accepted candidate carries a listing of the provider. -/
theorem provider_listings_apart_iff (rt : Runtime) (ops : List Op) :
    ListingsApart rt ops ↔ Runs.Each (step rt) (ProviderKept rt) empty ops := by
  constructor
  · intro hapart before op after hops hsome
    cases op with
    | touchSeen => trivial
    | deactivateStaleSources => trivial
    | ingest job observedAt choice =>
        intro habsent candidate haccepted x hx hxjob hxsource
        have hcandidate := (mem_acceptedCandidate_run_iff hsome).mpr haccepted
        rw [hops] at hapart
        exact not_listingsApart habsent hsome hcandidate hx hxjob hxsource hapart
  · intro hkept o₁ ho₁ o₂ ho₂ hsource hid hjob before job observedAt choice after hops hfirst hx
    obtain ⟨x, hx, hxid⟩ := hx
    have habsent := hfirst.absent
    rw [← hfirst.listing] at habsent
    have hgraph : Graph (run rt empty before) := (graph_empty.run before).1
    obtain ⟨c', hgraph', hrun, o, ho, hoid, hcases⟩ :=
      firstIngest_run after habsent hfirst.succeeds
    rw [hops, hrun] at ho₂
    have hojob : o₂.jobId = o.jobId :=
      jobId_run hgraph' ho ho₂ (hfirst.listing.symm.trans hoid.symm)
    rw [hops, run_append] at ho₁
    have hxjob : x.jobId = o.jobId := by
      rw [← jobId_run hgraph hx ho₁ hxid.symm, hjob, hojob]
    rw [hojob]
    rcases hcases with ⟨_, hnew⟩ | ⟨_, hurl⟩ | ⟨candidate, hcandidate, hcjob⟩
    · exact absurd hxjob (hnew x hx)
    · exact hurl
    · have hxsource : x.source = job.source := by
        have h₁ : x.source = o₁.source := congrArg Prod.fst hxid
        have h₂ : job.source = o₂.source := congrArg Prod.fst hfirst.listing
        rw [h₁, hsource, h₂]
      have haccepted := (mem_acceptedCandidate_run_iff hfirst.succeeds).mp hcandidate
      exact absurd hxsource (hkept before _ after hops hfirst.succeeds habsent candidate haccepted
        x hx (hxjob.trans hcjob))

/-- Two listings of one provider with the same text and no URL share a canonical job. -/
theorem equal_text_merges :
    ¬ListingsApart sampleRuntime
      [.ingest austinListing 1788264000000000 ⟨1, 2, 3, 0⟩,
        .ingest { austinListing with externalJobId := "a2" } 1788267600000000 ⟨4, 5, 6, 0⟩] := by
  intro h
  have hmerged : ∃ o₁ ∈ (run sampleRuntime empty
      [.ingest austinListing 1788264000000000 ⟨1, 2, 3, 0⟩,
        .ingest { austinListing with externalJobId := "a2" } 1788267600000000
          ⟨4, 5, 6, 0⟩]).observations,
      ∃ o₂ ∈ (run sampleRuntime empty
        [.ingest austinListing 1788264000000000 ⟨1, 2, 3, 0⟩,
          .ingest { austinListing with externalJobId := "a2" } 1788267600000000
            ⟨4, 5, 6, 0⟩]).observations,
      o₁.identity = ("dice", "a1") ∧ o₂.identity = ("dice", "a2") ∧ o₁.jobId = o₂.jobId := by
    decide
  obtain ⟨o₁, ho₁, o₂, ho₂, hid₁, hid₂, hjob⟩ := hmerged
  have hsource : o₁.source = o₂.source :=
    (congrArg Prod.fst hid₁).trans (congrArg Prod.fst hid₂).symm
  have hdistinct : o₁.sourceJobId ≠ o₂.sourceJobId := by
    intro heq
    have hsame : "a1" = "a2" :=
      (congrArg Prod.snd hid₁).symm.trans (heq.trans (congrArg Prod.snd hid₂))
    contradiction
  obtain ⟨url, hurl, _⟩ := h o₁ ho₁ o₂ ho₂ hsource hdistinct hjob
    [.ingest austinListing 1788264000000000 ⟨1, 2, 3, 0⟩]
    { austinListing with externalJobId := "a2" } 1788267600000000 ⟨4, 5, 6, 0⟩ [] rfl
    ⟨hid₂.symm, hid₂ ▸ by decide, by decide⟩
    (hid₁ ▸ by decide)
  contradiction

end Catalogue
end HireAndTech
