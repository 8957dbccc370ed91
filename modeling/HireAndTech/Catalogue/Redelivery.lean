import HireAndTech.Base.Overrides
import HireAndTech.Catalogue.Backfill
import HireAndTech.Catalogue.Constraints

/-!
# Listings that are delivered again

A collection task runs at least once, so that a batch of listings may be ingested again.  A listing
that is seen again overrides the columns that it supplies.  The listings of a batch find their
openings and companies when they come again, and override the same columns as before.

Main results:

- Definition {lit}`deliver`: the ingestion of a batch.
- Theorem {lit}`deliver_settled`: a batch of settled listings overrides rows.
- Theorem {lit}`redelivery_settles`: a batch that has come twice changes nothing but times.
- Theorem {lit}`redelivery_unseen_iff`: when a listing that comes again changes nothing but times.
-/

namespace HireAndTech
namespace Catalogue

open Relational Base

/-! ## Batches -/

/-- One listing of a batch, with what its ingestion reads. -/
structure IngestCall where
  job : NormalizedJob
  observedAt : Time
  choice : IngestChoice
deriving DecidableEq, Repr

/-- The call of the service. -/
def IngestCall.op (call : IngestCall) : Op :=
  .ingest call.job call.observedAt call.choice

/-- The catalogue after a batch; {lean}`none` when the ingestion of a listing raises. -/
def deliver (rt : Runtime) (c : Database) (calls : List IngestCall) : Option Database :=
  calls.foldlM (fun c call => step rt c call.op) c

/-- An opening without the time at which it was seen last. -/
def untimedJob (j : CanonicalJob) : CanonicalJob :=
  { j with lastSeenAt := 0 }

/-- An observation without the times at which it was seen and fetched last. -/
def untimedSource (o : JobSourceObservation) : JobSourceObservation :=
  { o with lastSeenAt := 0, scrapedAt := 0 }

/-- The catalogue without these times. -/
def Database.untimed (c : Database) : Database where
  companies := c.companies
  jobs := c.jobs.map untimedJob
  observations := c.observations.map untimedSource

/-! ## Overriding rows -/

/-- A listing overrides its opening. -/
def overrideJob (rt : Runtime) (place : NormalizedJob → UUID)
    (employer : NormalizedJob → Option Company) (job : NormalizedJob) (j : CanonicalJob) :
    CanonicalJob :=
  if j.id = place job then refreshedJob rt j job (employer job) 0 else j

/-- A listing overrides its observation. -/
def overrideSource (job : NormalizedJob) (o : JobSourceObservation) : JobSourceObservation :=
  if o.identity = (job.source, job.externalJobId) then
    refreshedSource o job 0 (o.contentHash ≠ job.contentHash)
  else o

section

variable {α : Type} {p q : Prop} [Decidable p] [Decidable q] {a b x y : α}

/-- Values that one override makes equal stay so under another one. -/
theorem ite_override (h : (if p then a else x) = if p then a else y) :
    (if p then a else if q then b else x) = if p then a else if q then b else y := by
  split_ifs at h ⊢
  · rfl
  · rfl
  · exact h

theorem orElse_override {a b x y : Option α} (h : (a <|> x) = (a <|> y)) :
    (a <|> (b <|> x)) = (a <|> (b <|> y)) := by
  cases a with
  | some a => rfl
  | none =>
      cases b with
      | some b => rfl
      | none => exact h

theorem preferList_override {a b x y : List α} (h : preferList a x = preferList a y) :
    preferList a (preferList b x) = preferList a (preferList b y) := by
  rw [preferList_eq_ite, preferList_eq_ite] at h
  rw [preferList_eq_ite a, preferList_eq_ite b, preferList_eq_ite a, preferList_eq_ite b]
  exact ite_override h

theorem preferText_override {a b x y : Option String} (h : preferText a x = preferText a y) :
    preferText a (preferText b x) = preferText a (preferText b y) :=
  ite_override h

end

section

variable {rt : Runtime} {job other : NormalizedJob} {company company' : Option Company}
  {j j' : CanonicalJob}

theorem refreshedJob_idem (rt : Runtime) (j : CanonicalJob) (job : NormalizedJob)
    (company : Option Company) :
    refreshedJob rt (refreshedJob rt j job company 0) job company 0 =
      refreshedJob rt j job company 0 := by
  cases hskills : job.skills <;> simp [refreshedJob, preferText, preferList, hskills]

/-- Openings that a listing makes equal stay so under another listing. -/
theorem refreshedJob_compatible
    (h : refreshedJob rt j job company 0 = refreshedJob rt j' job company 0) :
    refreshedJob rt (refreshedJob rt j other company' 0) job company 0 =
      refreshedJob rt (refreshedJob rt j' other company' 0) job company 0 := by
  simp only [refreshedJob, CanonicalJob.mk.injEq] at h ⊢
  obtain ⟨hid, hcompany, htitle, hnormalizedTitle, hdescription, hlocation, hnormalizedLocation,
    hemployment, hremote, hskills, hmin, hmax, hexperience, -, hsalaryMin, hsalaryMax, hcurrency,
    hsalaryText, hperiod, hposted, hupdated, hfirst, -, -, hhash⟩ := h
  exact ⟨hid, orElse_override hcompany, ite_override htitle, ite_override hnormalizedTitle,
    preferText_override hdescription, ite_override hlocation, ite_override hnormalizedLocation,
    preferText_override hemployment, orElse_override hremote, preferList_override hskills,
    orElse_override hmin, orElse_override hmax, preferText_override hexperience, trivial,
    orElse_override hsalaryMin, orElse_override hsalaryMax, ite_override hcurrency,
    preferText_override hsalaryText, ite_override hperiod, orElse_override hposted,
    orElse_override hupdated, hfirst, trivial, trivial,
    ite_override hhash⟩

/-- Listings override the openings that they belong to. -/
theorem overriding_overrideJob (rt : Runtime) (place : NormalizedJob → UUID)
    (employer : NormalizedJob → Option Company) : Overriding (overrideJob rt place employer) where
  idem job j := by
    by_cases hj : j.id = place job
    · have hid : (refreshedJob rt j job (employer job) 0).id = place job := hj
      simp only [overrideJob, if_pos hj, if_pos hid, refreshedJob_idem]
    · simp only [overrideJob, if_neg hj]
  compatible job other x y h := by
    have hid (job : NormalizedJob) (j : CanonicalJob) :
        (overrideJob rt place employer job j).id = j.id := by
      unfold overrideJob
      split <;> rfl
    have hsame : x.id = y.id := by
      rw [← hid job x, h, hid]
    by_cases hother : x.id = place other
    · have hothery : y.id = place other := hsame ▸ hother
      by_cases hx : x.id = place job
      · have hy : y.id = place job := hsame ▸ hx
        rw [overrideJob, if_pos hx, overrideJob, if_pos hy] at h
        rw [overrideJob, hid, if_pos hx, overrideJob, if_pos hother, overrideJob, hid, if_pos hy,
          overrideJob, if_pos hothery]
        exact refreshedJob_compatible h
      · have hy : ¬y.id = place job := hsame ▸ hx
        rw [overrideJob, if_neg hx, overrideJob, if_neg hy] at h
        rw [h]
    · have hothery : ¬y.id = place other := hsame ▸ hother
      rw [overrideJob.eq_1 rt place employer other, if_neg hother,
        overrideJob.eq_1 rt place employer other, if_neg hothery]
      exact h

/-- The hash of an observation is that of the listing. -/
theorem contentHash_refreshedSource (o : JobSourceObservation) (job : NormalizedJob) :
    (refreshedSource o job 0 (o.contentHash ≠ job.contentHash)).contentHash = job.contentHash := by
  by_cases hhash : o.contentHash = job.contentHash <;> simp [refreshedSource, hhash]

/-- Observations that a listing makes equal stay so under another listing. -/
theorem refreshedSource_compatible {x y : JobSourceObservation}
    (h : refreshedSource x job 0 (x.contentHash ≠ job.contentHash) =
      refreshedSource y job 0 (y.contentHash ≠ job.contentHash)) (changed changed' : Bool) :
    let x' := refreshedSource x other 0 changed
    let y' := refreshedSource y other 0 changed'
    refreshedSource x' job 0 (x'.contentHash ≠ job.contentHash) =
      refreshedSource y' job 0 (y'.contentHash ≠ job.contentHash) := by
  intro x' y'
  have hx := contentHash_refreshedSource x' job
  have hy := contentHash_refreshedSource y' job
  simp only [refreshedSource, JobSourceObservation.mk.injEq] at h ⊢ hx hy
  obtain ⟨hid, hjob, hsource, hsourceId, hurl, hposted, hupdated, hfirst, -, -, -, -, hdata⟩ := h
  exact ⟨hid, hjob, hsource, hsourceId, preferText_override hurl, orElse_override hposted,
    orElse_override hupdated, hfirst, trivial, trivial, hx.trans hy.symm, trivial,
    preferList_override hdata⟩

/-- Listings override their observations. -/
theorem overriding_overrideSource : Overriding overrideSource where
  idem job o := by
    by_cases ho : o.identity = (job.source, job.externalJobId)
    · have hid (changed : Bool) : (refreshedSource o job 0 changed).identity =
          (job.source, job.externalJobId) := ho
      rw [overrideSource.eq_1 job o, if_pos ho, overrideSource, if_pos (hid _)]
      have hhash := contentHash_refreshedSource o job
      cases hdata : job.rawData <;> simp [refreshedSource, preferText, preferList, hdata] at hhash ⊢
    · rw [overrideSource, overrideSource, if_neg ho, if_neg ho]
  compatible job other x y h := by
    have hid (job : NormalizedJob) (o : JobSourceObservation) :
        (overrideSource job o).identity = o.identity := by
      unfold overrideSource
      split <;> rfl
    have hsame : x.identity = y.identity := by
      rw [← hid job x, h, hid]
    by_cases hother : x.identity = (other.source, other.externalJobId)
    · have hothery : y.identity = (other.source, other.externalJobId) := hsame ▸ hother
      by_cases hx : x.identity = (job.source, job.externalJobId)
      · have hy : y.identity = (job.source, job.externalJobId) := hsame ▸ hx
        rw [overrideSource, if_pos hx, overrideSource, if_pos hy] at h
        rw [overrideSource, hid, if_pos hx, overrideSource, if_pos hother, overrideSource, hid,
          if_pos hy, overrideSource, if_pos hothery]
        exact refreshedSource_compatible h _ _
      · have hy : ¬y.identity = (job.source, job.externalJobId) := hsame ▸ hx
        rw [overrideSource, if_neg hx, overrideSource, if_neg hy] at h
        rw [h]
    · have hothery : ¬y.identity = (other.source, other.externalJobId) := hsame ▸ hother
      rw [overrideSource.eq_1 other, if_neg hother, overrideSource.eq_1 other, if_neg hothery]
      exact h

end

/-! ## Settled listings -/

/-- The listing has an observation of the opening, and its company is known. -/
structure Settled (c : Database) (job : NormalizedJob) (place : UUID) (employer : Option Company) :
    Prop where
  observed : ∃ o ∈ c.observations, o.identity = (job.source, job.externalJobId) ∧ o.jobId = place
  known : ∀ newId, c.resolveCompany job newId = some (c, employer)

section

variable {rt : Runtime} {c c' : Database} {job : NormalizedJob} {place : UUID}
  {employer : Option Company} {op : Op} {observedAt : Time} {choice : IngestChoice}

/-- A company that is found under its normalized name resolves the listing. -/
theorem resolveCompany_of_find {name normalizedName : String} {company : Company}
    (hname : job.company = some name) (hnormalized : job.normalizedCompany = some normalizedName)
    (hfind : c.companies.find? (·.normalizedName = normalizedName) = some company) (newId : UUID) :
    c.resolveCompany job newId = some (c, some company) := by
  simp only [Database.resolveCompany, hname, hnormalized, hfind]

/-- A resolved company is found again. -/
theorem resolveCompany_again {c₁ : Database} {newId : UUID}
    (h : c.resolveCompany job newId = some (c₁, employer))
    (hcompanies : c'.companies = c₁.companies) (again : UUID) :
    c'.resolveCompany job again = some (c', employer) := by
  unfold Database.resolveCompany at h
  split at h
  · rename_i name normalizedName hname hnormalized
    split at h
    · rename_i company hfind
      cases h
      exact resolveCompany_of_find hname hnormalized (hcompanies ▸ hfind) again
    · rename_i hfind
      split at h
      · cases h
        refine resolveCompany_of_find hname hnormalized ?_ again
        rw [hcompanies, List.find?_append, hfind]
        simp
      · contradiction
  · rename_i hnone
    cases h
    unfold Database.resolveCompany
    split
    · rename_i name normalizedName hname hnormalized
      exact absurd hnormalized (hnone name normalizedName hname)
    · rfl

/-- A known company stays known. -/
theorem resolveCompany_step (hknown : ∀ newId, c.resolveCompany job newId = some (c, employer))
    (hstep : step rt c op = some c') (newId : UUID) :
    c'.resolveCompany job newId = some (c', employer) := by
  cases hnamed : job.namesEmployer with
  | false =>
      have hnone := hknown newId
      rw [resolveCompany_unnamed hnamed] at hnone
      cases hnone
      exact resolveCompany_unnamed hnamed
  | true =>
      simp only [NormalizedJob.namesEmployer, Bool.and_eq_true, Option.isSome_iff_exists] at hnamed
      obtain ⟨⟨name, hname⟩, normalizedName, hnormalized⟩ := hnamed
      have hcase := hknown newId
      simp only [Database.resolveCompany, hname, hnormalized] at hcase
      cases hfind : c.companies.find? (·.normalizedName = normalizedName) with
      | some company =>
          rw [hfind] at hcase
          cases hcase
          exact resolveCompany_of_find hname hnormalized (Backfill.find_step hfind hstep) newId
      | none =>
          -- the company would have been added
          rw [hfind] at hcase
          dsimp only at hcase
          split at hcase
          · have hadded := congrArg (fun r => r.map (·.1.companies.length)) hcase
            simp at hadded
          · contradiction

/-- A settled listing stays settled. -/
theorem Settled.step (hgraph : Graph c) (h : Settled c job place employer)
    (hstep : Catalogue.step rt c op = some c') : Settled c' job place employer where
  observed := by
    obtain ⟨o, ho, hidentity, hplace⟩ := h.observed
    obtain ⟨o', ho', hidentity', hplace'⟩ := (hgraph.step hstep).2 o ho
    exact ⟨o', ho', hidentity'.trans hidentity, hplace'.trans hplace⟩
  known := resolveCompany_step h.known hstep

/-- A listing is settled once it has been ingested. -/
theorem settled_of_ingest (hstep : Catalogue.step rt c (.ingest job observedAt choice) = some c') :
    ∃ place employer, Settled c' job place employer := by
  have hlisting :
      listingOf (job.source, job.externalJobId) (.ingest job observedAt choice) ≠ [] := by
    rw [listingOf_ingest, if_pos rfl]
    exact List.cons_ne_nil _ _
  obtain ⟨o, ho, hidentity⟩ := listingOf_observed hstep hlisting
  obtain ⟨⟨_, result⟩, hingest, rfl⟩ := Option.map_eq_some_iff.mp hstep
  cases ingested_of_ingest hingest with
  | reobserved c₁ _ _ company _ hresolve _ hcompanies _ _ =>
      exact ⟨o.jobId, company, ⟨o, ho, hidentity, rfl⟩, resolveCompany_again hresolve hcompanies⟩
  | created c₁ company _ hresolve _ _ _ hcompanies _ _ =>
      exact ⟨o.jobId, company, ⟨o, ho, hidentity, rfl⟩, resolveCompany_again hresolve hcompanies⟩
  | merged c₁ company _ _ hresolve _ _ hcompanies _ _ =>
      exact ⟨o.jobId, company, ⟨o, ho, hidentity, rfl⟩, resolveCompany_again hresolve hcompanies⟩

/-- A settled listing overrides its rows. -/
theorem untimed_of_settled (hgraph : Graph c) (places : NormalizedJob → UUID)
    (employers : NormalizedJob → Option Company)
    (h : Settled c job (places job) (employers job))
    (hstep : Catalogue.step rt c (.ingest job observedAt choice) = some c') :
    c'.companies = c.companies ∧
      c'.untimed.jobs = c.untimed.jobs.map (overrideJob rt places employers job) ∧
      c'.untimed.observations = c.untimed.observations.map (overrideSource job) := by
  obtain ⟨seen, hseen, hidentity, hplace⟩ := h.observed
  obtain ⟨⟨_, result⟩, hingest, rfl⟩ := Option.map_eq_some_iff.mp hstep
  have hnone : c.getSource job.source job.externalJobId ≠ none :=
    fun hnone => getSource_eq_none hnone seen hseen hidentity
  cases ingested_of_ingest hingest with
  | created c₁ company hsource => exact absurd hsource hnone
  | merged c₁ company candidate hsource => exact absurd hsource hnone
  | reobserved c₁ o j company hsource hresolve hjob hcompanies hjobs hobservations =>
      obtain ⟨ho, hoidentity⟩ := getSource_eq_some hsource
      obtain rfl := hgraph.identities.eq ho hseen (hoidentity.trans hidentity.symm)
      obtain ⟨hj, hjid⟩ := getJob_eq_some hjob
      rw [h.known] at hresolve
      cases hresolve
      refine ⟨hcompanies, ?_, ?_⟩
      · simp only [Database.untimed, hjobs, put, updateWhere, List.map_map]
        refine List.map_congr_left fun x hx => ?_
        by_cases hxid : x.id = places job
        · obtain rfl := hgraph.jobIds.eq hx hj (hxid.trans (hplace.symm.trans hjid.symm))
          simp [overrideJob, untimedJob, hxid, refreshedJob]
        · have hne : x.id ≠ j.id := fun heq => hxid (heq.trans (hjid.trans hplace))
          simp [overrideJob, untimedJob, hxid, refreshedJob, hne]
      · simp only [Database.untimed, hobservations, put, updateWhere, List.map_map]
        refine List.map_congr_left fun x hx => ?_
        by_cases hxidentity : x.identity = (job.source, job.externalJobId)
        · obtain rfl := hgraph.identities.eq hx ho (hxidentity.trans hoidentity.symm)
          have huntimed : (untimedSource x).identity = (job.source, job.externalJobId) := hxidentity
          have hkey : decide (x.id =
              (refreshedSource x job observedAt (x.contentHash ≠ job.contentHash)).id) = true :=
            decide_eq_true rfl
          rw [Function.comp_apply, Function.comp_apply, if_pos hkey, overrideSource,
            if_pos huntimed]
          rfl
        · have hne : x.id ≠ o.id := by
            intro heq
            rw [hgraph.sourceIds.eq hx ho heq] at hxidentity
            exact hxidentity hoidentity
          have huntimed : (untimedSource x).identity ≠ (job.source, job.externalJobId) := hxidentity
          simp [overrideSource, huntimed, refreshedSource, hne]

/-! ## Batches that come again -/

variable {calls again : List IngestCall} {c₀ c₁ c₂ c₃ : Database}

theorem deliver_cons {call : IngestCall} :
    deliver rt c (call :: calls) =
      (Catalogue.step rt c call.op).bind fun c => deliver rt c calls := by
  rw [deliver, List.foldlM_cons]
  rfl

theorem Graph.deliver (hgraph : Graph c) (h : Catalogue.deliver rt c calls = some c') :
    Graph c' := by
  induction calls generalizing c with
  | nil =>
      cases h
      exact hgraph
  | cons call calls ih =>
      rw [deliver_cons] at h
      obtain ⟨next, hstep, hrest⟩ := Option.bind_eq_some_iff.mp h
      exact ih (hgraph.step hstep).1 hrest

theorem Settled.deliver (hgraph : Graph c) (h : Settled c job place employer)
    (hdeliver : Catalogue.deliver rt c calls = some c') : Settled c' job place employer := by
  induction calls generalizing c with
  | nil =>
      cases hdeliver
      exact h
  | cons call calls ih =>
      rw [deliver_cons] at hdeliver
      obtain ⟨next, hstep, hrest⟩ := Option.bind_eq_some_iff.mp hdeliver
      exact ih (hgraph.step hstep).1 (h.step hgraph hstep) hrest

/-- The listings of a batch are settled once it has come. -/
theorem settled_of_deliver (hgraph : Graph c) (h : Catalogue.deliver rt c calls = some c') :
    ∀ call ∈ calls, ∃ place employer, Settled c' call.job place employer := by
  induction calls generalizing c with
  | nil => exact fun call hcall => absurd hcall List.not_mem_nil
  | cons call calls ih =>
      rw [deliver_cons] at h
      obtain ⟨next, hstep, hrest⟩ := Option.bind_eq_some_iff.mp h
      have hnext : Graph next := (hgraph.step hstep).1
      obtain ⟨place, employer, hsettled⟩ := settled_of_ingest hstep
      exact List.forall_mem_cons.mpr
        ⟨⟨place, employer, hsettled.deliver hnext hrest⟩, ih hnext hrest⟩

/-- A batch of settled listings overrides rows, one listing after the other. -/
theorem deliver_settled (hgraph : Graph c) (places : NormalizedJob → UUID)
    (employers : NormalizedJob → Option Company)
    (hsettled : ∀ call ∈ calls, Settled c call.job (places call.job) (employers call.job))
    (h : Catalogue.deliver rt c calls = some c') :
    c'.companies = c.companies ∧
      c'.untimed.jobs =
        c.untimed.jobs.map (applyAll (overrideJob rt places employers) (calls.map (·.job))) ∧
      c'.untimed.observations =
        c.untimed.observations.map (applyAll overrideSource (calls.map (·.job))) := by
  induction calls generalizing c with
  | nil =>
      cases h
      exact ⟨rfl, (List.map_id _).symm, (List.map_id _).symm⟩
  | cons call calls ih =>
      rw [deliver_cons] at h
      obtain ⟨next, hstep, hrest⟩ := Option.bind_eq_some_iff.mp h
      obtain ⟨hfirst, htail⟩ := List.forall_mem_cons.mp hsettled
      obtain ⟨hcompanies, hjobs, hobservations⟩ :=
        untimed_of_settled hgraph places employers hfirst hstep
      obtain ⟨hcompanies', hjobs', hobservations'⟩ := ih (hgraph.step hstep).1
        (fun later hlater => (htail later hlater).step hgraph hstep) hrest
      refine ⟨hcompanies'.trans hcompanies, ?_, ?_⟩
      · rw [hjobs', hjobs, List.map_map]
        rfl
      · rw [hobservations', hobservations, List.map_map]
        rfl

/-- A batch of settled listings that override nothing any more changes nothing but times, however
often it comes. -/
theorem untimed_of_redeliveries {jobs : List NormalizedJob} {later : List (List IngestCall)}
    (places : NormalizedJob → UUID) (employers : NormalizedJob → Option Company)
    (hgraph : Graph c)
    (hsettled : ∀ job ∈ jobs, Settled c job (places job) (employers job))
    (hjobs : c.untimed.jobs.map (applyAll (overrideJob rt places employers) jobs) = c.untimed.jobs)
    (hobservations : c.untimed.observations.map (applyAll overrideSource jobs) =
      c.untimed.observations)
    (hlater : ∀ batch ∈ later, batch.map (·.job) = jobs)
    (h : later.foldlM (Catalogue.deliver rt) c = some c') : c'.untimed = c.untimed := by
  induction later generalizing c with
  | nil =>
      cases h
      rfl
  | cons batch later ih =>
      rw [List.foldlM_cons] at h
      obtain ⟨next, hbatch, hrest⟩ := Option.bind_eq_some_iff.mp h
      obtain ⟨hsame, hlater⟩ := List.forall_mem_cons.mp hlater
      have hnext := deliver_settled hgraph places employers
        (fun call hcall => hsettled call.job (hsame ▸ List.mem_map_of_mem hcall)) hbatch
      rw [hsame, hjobs, hobservations] at hnext
      obtain ⟨hcompanies', hjobs', hobservations'⟩ := hnext
      have huntimed : next.untimed = c.untimed := by
        rw [Database.untimed, Database.untimed, Database.mk.injEq]
        exact ⟨hcompanies', hjobs', hobservations'⟩
      rw [← huntimed] at hjobs hobservations ⊢
      exact ih (hgraph.deliver hbatch)
        (fun job hjob => (hsettled job hjob).deliver hgraph hbatch) hjobs hobservations hlater hrest

/-- A batch that has come twice changes nothing but times, however often it comes again. -/
theorem Graph.untimed_of_deliver_twice {later : List (List IngestCall)} (hgraph : Graph c₀)
    (hfirst : Catalogue.deliver rt c₀ calls = some c₁)
    (hsecond : Catalogue.deliver rt c₁ again = some c₂)
    (hrest : later.foldlM (Catalogue.deliver rt) c₂ = some c₃)
    (hagain : again.map (·.job) = calls.map (·.job))
    (hlater : ∀ batch ∈ later, batch.map (·.job) = calls.map (·.job)) :
    c₃.untimed = c₂.untimed := by
  have hgraph₁ := hgraph.deliver hfirst
  have hsettled : ∀ job ∈ calls.map (·.job), ∃ place employer, Settled c₁ job place employer := by
    intro job hjob
    obtain ⟨call, hcall, rfl⟩ := List.mem_map.mp hjob
    exact settled_of_deliver hgraph hfirst call hcall
  choose! places employers hplaces using hsettled
  obtain ⟨-, hjobs, hobservations⟩ := deliver_settled hgraph₁ places employers
    (fun call hcall => hplaces call.job (hagain ▸ List.mem_map_of_mem hcall)) hsecond
  refine untimed_of_redeliveries places employers (hgraph₁.deliver hsecond)
    (fun job hjob => (hplaces job hjob).deliver hgraph₁ hsecond) ?_ ?_ hlater hrest
  · rw [hjobs, hagain, List.map_map]
    exact List.map_congr_left fun _ _ =>
      (overriding_overrideJob rt places employers).applyAll_twice
  · rw [hobservations, hagain, List.map_map]
    exact List.map_congr_left fun _ _ => overriding_overrideSource.applyAll_twice

end

/-- A batch that has come twice changes nothing but times, however often it comes again. -/
theorem redelivery_settles (rt : Runtime) (ops : List Op) (calls again : List IngestCall)
    (later : List (List IngestCall)) (c₁ c₂ c₃ : Database)
    (hfirst : deliver rt (run rt empty ops) calls = some c₁)
    (hsecond : deliver rt c₁ again = some c₂)
    (hrest : later.foldlM (deliver rt) c₂ = some c₃)
    (hagain : again.map (·.job) = calls.map (·.job))
    (hlater : ∀ batch ∈ later, batch.map (·.job) = calls.map (·.job)) :
    c₃.untimed = c₂.untimed :=
  (graph_empty.run ops).1.untimed_of_deliver_twice hfirst hsecond hrest hagain hlater

/-- A listing. -/
def firstListing : NormalizedJob :=
  { NormalizedJob.bare "dice" "a1" "Backend Engineer" "backend engineer" "backend" with
    jobUrl := some "https://www.dice.com/job-detail/a1" }

/-- The listing under another id, with a description. -/
def secondListing : NormalizedJob :=
  { firstListing with
    externalJobId := "a2"
    description := some "Build services." }

/-- Both in one batch. -/
def describedBatch (now : Time) : List IngestCall :=
  [⟨firstListing, now, ⟨1, 2, 3, 0⟩⟩, ⟨secondListing, now, ⟨4, 5, 6, 0⟩⟩]

/-- The catalogue after the batch has come at some times. -/
def afterBatches (times : List Time) : Database :=
  run undatedRuntime empty ((times.flatMap describedBatch).map IngestCall.op)

/-- The opening of two listings with one URL gets the description when the batch comes again. -/
theorem redelivery_settles_described :
    (afterBatches [10]).untimed ≠ (afterBatches [10, 20]).untimed ∧
      (afterBatches [10, 20, 30]).untimed = (afterBatches [10, 20]).untimed :=
  ⟨by decide,
    redelivery_settles undatedRuntime [] (describedBatch 10) (describedBatch 20)
      [describedBatch 30] (afterBatches [10]) (afterBatches [10, 20]) (afterBatches [10, 20, 30])
      (by decide) (by decide) (by decide) (by decide) (by decide)⟩

/-! ## One listing that comes again -/

section

variable {rt : Runtime} {c c' : Database} {job : NormalizedJob} {company : Option Company}
  {candidate : CanonicalJob} {observedAt : Time}

/-- The ingestion of the listing merges it into an opening. -/
def MergedInto (rt : Runtime) (c : Database) (call : IngestCall) (candidate : CanonicalJob)
    (company : Option Company) : Prop :=
  c.getSource call.job.source call.job.externalJobId = none ∧
    ∃ c₁, c.resolveCompany call.job call.choice.companyId = some (c₁, company) ∧
      selectCanonical rt c₁ call.job company call.choice.pick = some candidate

/-- A listing adds nothing to the opening that it has created. -/
theorem refreshedJob_createdJob (rt : Runtime) (id : UUID) (job : NormalizedJob)
    (company : Option Company) (observedAt : Time) :
    refreshedJob rt (untimedJob (createdJob rt id job company observedAt)) job company 0 =
      untimedJob (createdJob rt id job company observedAt) := by
  cases hskills : job.skills <;>
    simp [refreshedJob, createdJob, untimedJob, preferText, preferList, hskills]

/-- A listing adds nothing to the observation that it has created. -/
theorem overrideSource_createdSource (id : UUID) (job : NormalizedJob) (canonical : CanonicalJob)
    (observedAt : Time) :
    overrideSource job (untimedSource (createdSource id job canonical observedAt)) =
      untimedSource (createdSource id job canonical observedAt) := by
  have hidentity : (untimedSource (createdSource id job canonical observedAt)).identity =
      (job.source, job.externalJobId) := rfl
  rw [overrideSource, if_pos hidentity]
  cases hdata : job.rawData <;>
    simp [refreshedSource, createdSource, untimedSource, preferText, preferList, hdata]

theorem map_eq_self {α : Type} {f : α → α} {l : List α} : l.map f = l ↔ ∀ x ∈ l, f x = x := by
  constructor
  · intro h x hx
    exact List.map_eq_map_iff.mp (h.trans (List.map_id l).symm) x hx
  · intro h
    exact (List.map_congr_left h).trans (List.map_id l)

theorem overrideSource_refreshedSource {o : JobSourceObservation}
    (ho : o.identity = (job.source, job.externalJobId)) :
    overrideSource job (untimedSource
        (refreshedSource o job observedAt (o.contentHash ≠ job.contentHash))) =
      untimedSource (refreshedSource o job observedAt (o.contentHash ≠ job.contentHash)) := by
  have hoverride : untimedSource
      (refreshedSource o job observedAt (o.contentHash ≠ job.contentHash)) =
        overrideSource job (untimedSource o) := by
    have huntimed : (untimedSource o).identity = (job.source, job.externalJobId) := ho
    rw [overrideSource, if_pos huntimed]
    rfl
  rw [hoverride]
  exact overriding_overrideSource.idem job (untimedSource o)

/-- A settled listing changes nothing but times when it adds nothing to its rows. -/
theorem untimed_eq_iff_of_settled (hgraph : Graph c) {o : JobSourceObservation} {j : CanonicalJob}
    {choice : IngestChoice} (ho : o ∈ c.observations)
    (hidentity : o.identity = (job.source, job.externalJobId)) (hj : j ∈ c.jobs)
    (hplace : o.jobId = j.id) (hknown : ∀ newId, c.resolveCompany job newId = some (c, company))
    (hsource : overrideSource job (untimedSource o) = untimedSource o)
    (hstep : Catalogue.step rt c (.ingest job observedAt choice) = some c') :
    c'.untimed = c.untimed ↔ refreshedJob rt j job company 0 = untimedJob j := by
  obtain ⟨hcompanies, hjobs, hobservations⟩ := untimed_of_settled hgraph (fun _ => j.id)
    (fun _ => company) ⟨⟨o, ho, hidentity, hplace⟩, hknown⟩ hstep
  have hjob : overrideJob rt (fun _ => j.id) (fun _ => company) job (untimedJob j) =
      refreshedJob rt j job company 0 := if_pos rfl
  constructor
  · intro heq
    have hsame := congrArg Database.jobs heq
    rw [hjobs, map_eq_self] at hsame
    rw [← hjob]
    exact hsame _ (List.mem_map_of_mem hj)
  · intro heq
    have hrows : c'.untimed.jobs = c.untimed.jobs := by
      rw [hjobs, map_eq_self]
      intro x hx
      obtain ⟨row, hrow, rfl⟩ := List.mem_map.mp hx
      by_cases hid : row.id = j.id
      · rw [hgraph.jobIds.eq hrow hj hid, hjob, heq]
      · exact if_neg hid
    have hsources : c'.untimed.observations = c.untimed.observations := by
      rw [hobservations, map_eq_self]
      intro x hx
      obtain ⟨row, hrow, rfl⟩ := List.mem_map.mp hx
      by_cases hrowIdentity : row.identity = (job.source, job.externalJobId)
      · rw [hgraph.identities.eq hrow ho (hrowIdentity.trans hidentity.symm), hsource]
      · exact if_neg hrowIdentity
    rw [Database.untimed, Database.untimed, Database.mk.injEq]
    exact ⟨hcompanies, hrows, hsources⟩

end

/-- The catalogue after a listing changes nothing but times when the listing comes again, unless
the listing has been merged into an opening to which it adds something. -/
theorem redelivery_unseen_iff (rt : Runtime) (ops : List Op) (first again : IngestCall)
    (c₁ c₂ : Database) (hfirst : step rt (run rt empty ops) first.op = some c₁)
    (hagain : step rt c₁ again.op = some c₂) (hjob : again.job = first.job) :
    c₂.untimed = c₁.untimed ↔
      ∀ candidate company, MergedInto rt (run rt empty ops) first candidate company →
        refreshedJob rt candidate first.job company 0 = markCanonicalSeen candidate 0 := by
  have hgraph : Graph (run rt empty ops) := (graph_empty.run ops).1
  have hgraph₁ : Graph c₁ := (hgraph.step hfirst).1
  rw [IngestCall.op, hjob] at hagain
  obtain ⟨⟨c₁, result⟩, hingest, rfl⟩ := Option.map_eq_some_iff.mp hfirst
  cases ingested_of_ingest hingest with
  | reobserved c' o j company hsource hresolve hopening hcompanies hjobs hobservations =>
      obtain ⟨ho, hidentity⟩ := getSource_eq_some hsource
      obtain ⟨hj, hid⟩ := getJob_eq_some hopening
      have hsource' : refreshedSource o first.job first.observedAt
          (o.contentHash ≠ first.job.contentHash) ∈ c₁.observations := by
        rw [hobservations]
        exact mem_put_self ho rfl
      have hopening' : refreshedJob rt j first.job company first.observedAt ∈ c₁.jobs := by
        rw [hjobs]
        exact mem_put_self hj rfl
      refine iff_of_true ?_ fun candidate _ hmerged => ?_
      · refine (untimed_eq_iff_of_settled hgraph₁ hsource' hidentity hopening' hid.symm
          (resolveCompany_again hresolve hcompanies) (overrideSource_refreshedSource hidentity)
          hagain).mpr ?_
        exact refreshedJob_idem rt j first.job company
      · exact absurd hmerged.1 (by rw [hsource]; exact Option.some_ne_none o)
  | created c' company hsource hresolve hselect _ _ hcompanies hjobs hobservations =>
      refine iff_of_true ?_ fun candidate company' hmerged => ?_
      · refine (untimed_eq_iff_of_settled hgraph₁
          (hobservations ▸ List.mem_append_right _ (List.mem_singleton_self _)) rfl
          (hjobs ▸ List.mem_append_right _ (List.mem_singleton_self _)) rfl
          (resolveCompany_again hresolve hcompanies) (overrideSource_createdSource _ _ _ _)
          hagain).mpr ?_
        exact refreshedJob_createdJob rt _ first.job company _
      · obtain ⟨-, c'', hresolve', hselect'⟩ := hmerged
        rw [hresolve] at hresolve'
        cases hresolve'
        rw [hselect] at hselect'
        contradiction
  | merged c' company candidate hsource hresolve hselect _ hcompanies hjobs hobservations =>
      have hcandidate : candidate ∈ (run rt empty ops).jobs :=
        (resolveCompany_eq_some hresolve).1 ▸ selectCanonical_mem hselect
      rw [untimed_eq_iff_of_settled hgraph₁
        (hobservations ▸ List.mem_append_right _ (List.mem_singleton_self _)) rfl
        (hjobs ▸ mem_put_self hcandidate rfl) rfl (resolveCompany_again hresolve hcompanies)
        (overrideSource_createdSource _ _ _ _) hagain]
      constructor
      · intro heq candidate' company' hmerged
        obtain ⟨-, c'', hresolve', hselect'⟩ := hmerged
        rw [hresolve] at hresolve'
        cases hresolve'
        rw [hselect] at hselect'
        cases hselect'
        exact heq
      · intro hall
        exact hall candidate company ⟨hsource, c', hresolve, hselect⟩

/-- The description of the second listing reaches the opening when the listing comes again. -/
theorem redelivery_unseen_iff_described :
    (run undatedRuntime (afterBatches [10]) [.ingest secondListing 20 ⟨4, 5, 6, 0⟩]).untimed ≠
      (afterBatches [10]).untimed := by
  have hiff := redelivery_unseen_iff undatedRuntime [.ingest firstListing 10 ⟨1, 2, 3, 0⟩]
    ⟨secondListing, 10, ⟨4, 5, 6, 0⟩⟩ ⟨secondListing, 20, ⟨4, 5, 6, 0⟩⟩ (afterBatches [10])
    (run undatedRuntime (afterBatches [10]) [.ingest secondListing 20 ⟨4, 5, 6, 0⟩])
    (by decide) (by decide) rfl
  intro hsame
  have hadds := hiff.mp hsame (createdJob undatedRuntime 2 firstListing none 10) none
    ⟨by decide, _, rfl, by decide⟩
  exact absurd (congrArg CanonicalJob.description hadds) (by decide)

end Catalogue
end HireAndTech
