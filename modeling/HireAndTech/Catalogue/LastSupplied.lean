import HireAndTech.Catalogue.Freshness
import HireAndTech.Catalogue.Rows
import HireAndTech.Runs.Registers

/-!
# The values supplied last

A listing that is seen again replaces what it supplies and leaves the rest: a blank text, an
empty list or a missing number does not erase what an earlier listing has supplied.  Each field
has a test of its own for what counts as supplied.

A canonical job that several observations share takes its values from all of them, and is left
out here.

Main results:

- Definition {lit}`Field`: a field with its test, and what creation and refreshing do to it.
- Theorem {lit}`soleAfter_of_step`: where the rows of a sole observation come from.
- Theorem {lit}`last_supplied_kept`: every field holds the value that was supplied last.
-/

namespace HireAndTech
namespace Catalogue

open Relational
open Runs (Register)

/-! ## Fields -/

/-- The observation with another freshness. -/
def Reseen (o o' : JobSourceObservation) : Prop :=
  ∃ seen active, o' = { o with lastSeenAt := seen, isActive := active }

theorem Reseen.refl (o : JobSourceObservation) : Reseen o o :=
  ⟨o.lastSeenAt, o.isActive, rfl⟩

/-- A field of a canonical job and its observation.  Creation stores what the listing has, and
refreshing stores it when the listing supplies it. -/
structure Field (β : Type) extends Register NormalizedJob β where
  stored : CanonicalJob → JobSourceObservation → β
  created : ∀ rt jobId sourceId job company observedAt,
    stored (createdJob rt jobId job company observedAt)
      (createdSource sourceId job (createdJob rt jobId job company observedAt) observedAt) =
      incoming job
  refreshed : ∀ rt j o job company observedAt changed,
    stored (refreshedJob rt j job company observedAt)
      (refreshedSource o job observedAt changed) =
      if supplied job then incoming job else stored j o
  freshened : ∀ j j' o o', Freshened j j' → Reseen o o' → stored j' o' = stored j o

/-- A column of the canonical job. -/
def Field.ofJob {β : Type} (supplied : NormalizedJob → Bool) (incoming : NormalizedJob → β)
    (column : CanonicalJob → β)
    (created : ∀ rt jobId job company observedAt,
      column (createdJob rt jobId job company observedAt) = incoming job)
    (refreshed : ∀ rt j job company observedAt,
      column (refreshedJob rt j job company observedAt) =
        if supplied job then incoming job else column j)
    (freshened : ∀ j seen active,
      column { j with lastSeenAt := seen, isActive := active } = column j) : Field β where
  supplied := supplied
  incoming := incoming
  stored j _ := column j
  created rt jobId _ job company observedAt := created rt jobId job company observedAt
  refreshed rt j _ job company observedAt _ := refreshed rt j job company observedAt
  freshened j j' o o' hj _ := by
    obtain ⟨seen, active, rfl⟩ := hj
    exact freshened j seen active

/-- Python's `or` and the test for a missing value keep the stored value alike. -/
theorem orElse_eq_ite {β : Type} (incoming stored : Option β) :
    (incoming <|> stored) = if incoming.isSome then incoming else stored := by
  cases incoming <;> rfl

/-- A list that is not empty replaces the stored one. -/
theorem preferList_eq_ite {β : Type} (incoming stored : List β) :
    preferList incoming stored = if !incoming.isEmpty then incoming else stored := by
  cases incoming <;> rfl

/-- `description`. -/
def descriptionField : Field (Option String) :=
  .ofJob (fun job => hasText job.description) (·.description) (·.description)
    (fun _ _ _ _ _ => rfl) (fun _ _ _ _ _ => rfl) (fun _ _ _ => rfl)

/-- `location` and `normalized_location`. -/
def locationField : Field (Option String × Option String) :=
  .ofJob (fun job => hasText job.location) (fun job => (job.location, job.normalizedLocation))
    (fun j => (j.location, j.normalizedLocation)) (fun _ _ _ _ _ => rfl)
    (fun _ j job _ _ => by
      by_cases h : hasText job.location = true
      · simp [refreshedJob, h]
      · simp [refreshedJob, h])
    (fun _ _ _ => rfl)

/-- `employment_type`. -/
def employmentTypeField : Field (Option String) :=
  .ofJob (fun job => hasText job.employmentType) (·.employmentType) (·.employmentType)
    (fun _ _ _ _ _ => rfl) (fun _ _ _ _ _ => rfl) (fun _ _ _ => rfl)

/-- `skills`. -/
def skillsField : Field (List String) :=
  .ofJob (fun job => !job.skills.isEmpty) (·.skills) (·.skills) (fun _ _ _ _ _ => rfl)
    (fun _ j job _ _ => preferList_eq_ite job.skills j.skills) (fun _ _ _ => rfl)

/-- `salary_text`. -/
def salaryTextField : Field (Option String) :=
  .ofJob (fun job => hasText job.salaryText) (·.salaryText) (·.salaryText)
    (fun _ _ _ _ _ => rfl) (fun _ _ _ _ _ => rfl) (fun _ _ _ => rfl)

/-- `posted_at`. -/
def postedAtField : Field (Option Time) :=
  .ofJob (fun job => job.postedAt.isSome) (·.postedAt) (·.postedAt) (fun _ _ _ _ _ => rfl)
    (fun _ j job _ _ => orElse_eq_ite job.postedAt j.postedAt) (fun _ _ _ => rfl)

/-- `experience_min_years`. -/
def experienceMinYearsField : Field (Option Int) :=
  .ofJob (fun job => job.experienceMinYears.isSome) (·.experienceMinYears)
    (·.experienceMinYears) (fun _ _ _ _ _ => rfl)
    (fun _ j job _ _ => orElse_eq_ite job.experienceMinYears j.experienceMinYears)
    (fun _ _ _ => rfl)

/-- `experience_max_years`. -/
def experienceMaxYearsField : Field (Option Int) :=
  .ofJob (fun job => job.experienceMaxYears.isSome) (·.experienceMaxYears)
    (·.experienceMaxYears) (fun _ _ _ _ _ => rfl)
    (fun _ j job _ _ => orElse_eq_ite job.experienceMaxYears j.experienceMaxYears)
    (fun _ _ _ => rfl)

/-- `experience_text`. -/
def experienceTextField : Field (Option String) :=
  .ofJob (fun job => hasText job.experienceText) (·.experienceText) (·.experienceText)
    (fun _ _ _ _ _ => rfl) (fun _ _ _ _ _ => rfl) (fun _ _ _ => rfl)

/-- `source_url` of the observation. -/
def sourceUrlField : Field (Option String) where
  supplied job := hasText job.jobUrl
  incoming := (·.jobUrl)
  stored _ o := o.sourceUrl
  created _ _ _ _ _ _ := rfl
  refreshed _ _ _ _ _ _ _ := rfl
  freshened _ _ _ _ _ h := by
    obtain ⟨_, _, rfl⟩ := h
    rfl

/-- `raw_data` of the observation. -/
def rawDataField : Field RawData where
  supplied job := !job.rawData.isEmpty
  incoming := (·.rawData)
  stored _ o := o.rawData
  created _ _ _ _ _ _ := rfl
  refreshed _ _ o job _ _ _ := preferList_eq_ite job.rawData o.rawData
  freshened _ _ _ _ _ h := by
    obtain ⟨_, _, rfl⟩ := h
    rfl

/-! ## Sole observations -/

/-- No other observation has the canonical job of the observation. -/
def IsSole (c : Database) (o : JobSourceObservation) : Prop :=
  ∀ x ∈ c.observations, x.jobId = o.jobId → x = o

/-- The listings of an identity among the calls. -/
def listingOf (identity : String × String) : Op → List NormalizedJob
  | .ingest job _ _ => if (job.source, job.externalJobId) = identity then [job] else []
  | _ => []

/-- Where a sole observation and its canonical job come from after a call. -/
inductive SoleAfter (rt : Runtime) (c : Database) (op : Op) (o' : JobSourceObservation)
    (j' : CanonicalJob) : Prop
  | kept (o : JobSourceObservation) (j : CanonicalJob) (ho : o ∈ c.observations)
      (hsole : IsSole c o) (hj : j ∈ c.jobs) (hid : j.id = o.jobId)
      (hidentity : o.identity = o'.identity) (hreseen : Reseen o o') (hfresh : Freshened j j')
      (hnone : listingOf o'.identity op = [])
  | refreshed (o : JobSourceObservation) (j : CanonicalJob) (ho : o ∈ c.observations)
      (hsole : IsSole c o) (hj : j ∈ c.jobs) (hid : j.id = o.jobId)
      (hidentity : o.identity = o'.identity) (job : NormalizedJob) (company : Option Company)
      (observedAt : Time) (changed : Bool) (hlisting : listingOf o'.identity op = [job])
      (hobservation : o' = refreshedSource o job observedAt changed)
      (hjob : j' = refreshedJob rt j job company observedAt)
  | created (job : NormalizedJob) (company : Option Company) (jobId sourceId : UUID)
      (observedAt : Time) (hnew : ∀ o ∈ c.observations, o.identity ≠ o'.identity)
      (hlisting : listingOf o'.identity op = [job])
      (hobservation : o' =
        createdSource sourceId job (createdJob rt jobId job company observedAt) observedAt)
      (hjob : j' = createdJob rt jobId job company observedAt)

section

variable {rt : Runtime} {c c' : Database} {op : Op} {job : NormalizedJob} {observedAt : Time}
  {choice : IngestChoice} {o o' : JobSourceObservation} {j j' : CanonicalJob}

theorem listingOf_ingest (identity : String × String) :
    listingOf identity (.ingest job observedAt choice) =
      if (job.source, job.externalJobId) = identity then [job] else [] :=
  rfl

/-- An ingestion of a listing that has been seen before. -/
theorem soleAfter_of_reobserved (hgraph : Graph c) {seen : JobSourceObservation}
    {canonical : CanonicalJob} {company : Option Company} {changed : Bool}
    (hsource : c.getSource job.source job.externalJobId = some seen)
    (hcanonical : c.getJob seen.jobId = some canonical)
    (hjobs : c'.jobs = put (·.id) (refreshedJob rt canonical job company observedAt) c.jobs)
    (hobservations : c'.observations =
      put (·.id) (refreshedSource seen job observedAt changed) c.observations)
    (ho' : o' ∈ c'.observations) (hsole : IsSole c' o') (hj' : j' ∈ c'.jobs)
    (hid : j'.id = o'.jobId) : SoleAfter rt c (.ingest job observedAt choice) o' j' := by
  obtain ⟨hseen, hidentity⟩ := getSource_eq_some hsource
  obtain ⟨hcanonicalMem, hcanonicalId⟩ := getJob_eq_some hcanonical
  have hkey : seen.id = (refreshedSource seen job observedAt changed).id := rfl
  have hjobKey : canonical.id = (refreshedJob rt canonical job company observedAt).id := rfl
  have hmem : ∀ x, x ∈ c'.observations ↔
      x = refreshedSource seen job observedAt changed ∨ (x ∈ c.observations ∧ x ≠ seen) := by
    intro x
    rw [hobservations, mem_put hgraph.sourceIds hseen hkey]
  rw [hjobs, mem_put hgraph.jobIds hcanonicalMem hjobKey] at hj'
  rcases (hmem o').mp ho' with rfl | ⟨ho, hother⟩
  · -- the observation of the listing itself: its job is the refreshed one
    have hjob : j' = refreshedJob rt canonical job company observedAt := by
      rcases hj' with hj' | ⟨hj', hne⟩
      · exact hj'
      · exact absurd (hgraph.jobIds.eq hj' hcanonicalMem (hid.trans hcanonicalId.symm)) hne
    refine .refreshed seen canonical hseen ?_ hcanonicalMem hcanonicalId rfl job company
      observedAt changed ?_ rfl hjob
    · intro x hx hxjob
      by_contra hne
      have hsame := hsole x ((hmem x).mpr (Or.inr ⟨hx, hne⟩)) hxjob
      exact hne (hgraph.sourceIds.eq hx hseen (congrArg (·.id) hsame))
    · rw [listingOf_ingest]
      exact if_pos hidentity.symm
  · -- another observation: the refreshed job is not its own
    have hjobId : seen.jobId ≠ o'.jobId := by
      intro hsame
      have hrefreshed := hsole _ ((hmem _).mpr (Or.inl rfl)) hsame
      exact hother (hgraph.sourceIds.eq ho hseen (congrArg (·.id) hrefreshed.symm))
    have hj : j' ∈ c.jobs := by
      rcases hj' with rfl | ⟨hj', _⟩
      · exact absurd (hcanonicalId.symm.trans hid) hjobId
      · exact hj'
    refine .kept o' j' ho ?_ hj hid rfl (Reseen.refl o') (Freshened.refl j') ?_
    · intro x hx hxjob
      have hne : x ≠ seen := by
        rintro rfl
        exact hjobId hxjob
      exact hsole x ((hmem x).mpr (Or.inr ⟨hx, hne⟩)) hxjob
    · have hne : (job.source, job.externalJobId) ≠ o'.identity := by
        intro hsame
        exact hother (hgraph.identities.eq ho hseen (hsame.symm.trans hidentity.symm))
      rw [listingOf_ingest, if_neg hne]

/-- An ingestion of a new listing, which adds its observation. -/
theorem soleAfter_of_added {new : JobSourceObservation}
    (hsource : c.getSource job.source job.externalJobId = none)
    (hfresh : ∀ x ∈ c.observations, x.id ≠ new.id)
    (hobservations : c'.observations = c.observations ++ [new])
    (ho : o' ∈ c.observations) (hsole : IsSole c' o')
    (hjob : ∃ j ∈ c.jobs, j.id = o'.jobId ∧ (new.jobId ≠ o'.jobId → Freshened j j')) :
    SoleAfter rt c (.ingest job observedAt choice) o' j' := by
  have hmem : ∀ x ∈ c.observations, x ∈ c'.observations := by
    intro x hx
    rw [hobservations]
    exact List.mem_append_left _ hx
  have hnewJob : new.jobId ≠ o'.jobId := by
    intro hsame
    have hnew : new ∈ c'.observations := by
      rw [hobservations]
      exact List.mem_append_right _ (List.mem_singleton_self new)
    exact hfresh o' ho (congrArg (·.id) (hsole new hnew hsame).symm)
  obtain ⟨j, hj, hid, hfreshened⟩ := hjob
  refine .kept o' j ho ?_ hj hid rfl (Reseen.refl o') (hfreshened hnewJob) ?_
  · intro x hx hxjob
    exact hsole x (hmem x hx) hxjob
  · rw [listingOf_ingest, if_neg (getSource_eq_none hsource o' ho).symm]

/-- Where the rows of a sole observation come from after an ingestion. -/
theorem soleAfter_of_ingested (hgraph : Graph c)
    (hingested : Ingested rt c job observedAt choice c') (ho' : o' ∈ c'.observations)
    (hsole : IsSole c' o') (hj' : j' ∈ c'.jobs) (hid : j'.id = o'.jobId) :
    SoleAfter rt c (.ingest job observedAt choice) o' j' := by
  cases hingested with
  | reobserved c₁ seen canonical company hsource _ hcanonical _ hjobs hobservations =>
      exact soleAfter_of_reobserved hgraph hsource hcanonical hjobs hobservations ho' hsole hj' hid
  | created c₁ company hsource _ _ hfresh hsourceId _ hjobs hobservations =>
      rw [hjobs, List.mem_append, List.mem_singleton] at hj'
      have hmem := ho'
      rw [hobservations, List.mem_append, List.mem_singleton] at hmem
      rcases hmem with ho | rfl
      · apply soleAfter_of_added hsource hsourceId hobservations ho hsole
        rcases hj' with hj | rfl
        · exact ⟨j', hj, hid, fun _ => Freshened.refl j'⟩
        · obtain ⟨j, hj, hjid⟩ := hgraph.canonical o' ho
          exact absurd (hjid.trans hid.symm) (hfresh j hj)
      · have hjob : j' = createdJob rt choice.jobId job company observedAt := by
          rcases hj' with hj | hj
          · exact absurd hid (hfresh j' hj)
          · exact hj
        refine .created job company choice.jobId choice.sourceId observedAt ?_ ?_ rfl hjob
        · exact getSource_eq_none hsource
        · rw [listingOf_ingest]
          exact if_pos rfl
  | merged c₁ company candidate hsource hcompany hselect hsourceId _ hjobs hobservations =>
      have hcandidate : candidate ∈ c.jobs :=
        (resolveCompany_eq_some hcompany).1 ▸ selectCanonical_mem hselect
      have hkey : candidate.id = (markCanonicalSeen candidate observedAt).id := rfl
      rw [hjobs, mem_put hgraph.jobIds hcandidate hkey] at hj'
      have hmem := ho'
      rw [hobservations, List.mem_append, List.mem_singleton] at hmem
      rcases hmem with ho | rfl
      · apply soleAfter_of_added hsource hsourceId hobservations ho hsole
        rcases hj' with rfl | ⟨hj, _⟩
        · exact ⟨candidate, hcandidate, hid, fun hne => absurd hid hne⟩
        · exact ⟨j', hj, hid, fun _ => Freshened.refl j'⟩
      · -- the job that is reused has an observation already
        obtain ⟨x, hx, hxjob⟩ := hgraph.observed candidate hcandidate
        have hsame := hsole x (by rw [hobservations]; exact List.mem_append_left _ hx) hxjob
        exact absurd (congrArg (·.id) hsame) (hsourceId x hx)

/-- A call that changes the freshness of rows and nothing else of them. -/
theorem soleAfter_of_reseen (hgraph : Graph c)
    (hobservations : ∃ see : JobSourceObservation → JobSourceObservation,
      (∀ o, Reseen o (see o)) ∧ c'.observations = c.observations.map see)
    (hjobs : ∃ j ∈ c.jobs, Freshened j j') (hnone : ∀ identity, listingOf identity op = [])
    (ho' : o' ∈ c'.observations) (hsole : IsSole c' o') (hid : j'.id = o'.jobId) :
    SoleAfter rt c op o' j' := by
  obtain ⟨see, hsee, hmap⟩ := hobservations
  have hkept : ∀ x, (see x).id = x.id ∧ (see x).jobId = x.jobId ∧
      (see x).identity = x.identity := by
    intro x
    obtain ⟨_, _, hx⟩ := hsee x
    rw [hx]
    exact ⟨rfl, rfl, rfl⟩
  rw [hmap] at ho'
  obtain ⟨o, ho, rfl⟩ := List.mem_map.mp ho'
  obtain ⟨j, hj, hfresh⟩ := hjobs
  have hjid : j.id = o.jobId := by
    obtain ⟨_, _, rfl⟩ := hfresh
    exact hid.trans (hkept o).2.1
  refine .kept o j ho ?_ hj hjid (hkept o).2.2.symm (hsee o) hfresh (hnone _)
  intro x hx hxjob
  have hsame : see x = see o := by
    apply hsole
    · rw [hmap]
      exact List.mem_map_of_mem hx
    · rw [(hkept x).2.1, (hkept o).2.1, hxjob]
  apply hgraph.sourceIds.eq hx ho
  rw [← (hkept x).1, ← (hkept o).1, hsame]

theorem reseen_updateWhere {p : JobSourceObservation → Bool}
    {f : JobSourceObservation → JobSourceObservation} (hf : ∀ o, Reseen o (f o))
    (o : JobSourceObservation) : Reseen o (if p o then f o else o) := by
  split
  · exact hf o
  · exact Reseen.refl o

/-- Where the rows of a sole observation come from after a call. -/
theorem soleAfter_of_step (hgraph : Graph c) (hstep : step rt c op = some c')
    (ho' : o' ∈ c'.observations) (hsole : IsSole c' o') (hj' : j' ∈ c'.jobs)
    (hid : j'.id = o'.jobId) : SoleAfter rt c op o' j' := by
  cases op with
  | ingest job observedAt choice =>
      obtain ⟨⟨_, result⟩, hingest, rfl⟩ := Option.map_eq_some_iff.mp hstep
      exact soleAfter_of_ingested hgraph (ingested_of_ingest hingest) ho' hsole hj' hid
  | touchSeen source sourceJobIds observedAt =>
      cases hstep
      apply soleAfter_of_reseen hgraph _ (freshened_touchSeen hj') (fun _ => rfl) ho' hsole hid
      rw [touchSeen, touchSourcesSeen]
      split
      · exact ⟨id, Reseen.refl, (List.map_id _).symm⟩
      · exact ⟨_, reseen_updateWhere fun o => ⟨observedAt, true, rfl⟩, rfl⟩
  | deactivateStaleSources source staleThreshold safetyWindowStart =>
      cases hstep
      apply soleAfter_of_reseen hgraph _ (freshened_deactivateStaleSources hj') (fun _ => rfl) ho'
        hsole hid
      rw [deactivateStaleSources_observations]
      split
      · exact ⟨_, reseen_updateWhere fun o => ⟨o.lastSeenAt, false, rfl⟩, rfl⟩
      · exact ⟨id, Reseen.refl, (List.map_id _).symm⟩

end

/-! ## Runs -/

/-- The fields of a sole observation of the identity and of its job hold what the listings
have supplied; before the first listing there is no observation. -/
structure Tracks (identity : String × String) (c : Database) (listings : List NormalizedJob) :
    Prop where
  first : (∀ o ∈ c.observations, o.identity ≠ identity) → listings = []
  fields : ∀ o ∈ c.observations, o.identity = identity → IsSole c o →
    ∀ j ∈ c.jobs, j.id = o.jobId →
      ∀ {β : Type} (field : Field β), field.after listings = some (field.stored j o)

section

variable {rt : Runtime} {identity : String × String} {c c' : Database} {op : Op}
  {listings : List NormalizedJob}

theorem tracks_empty (identity : String × String) : Tracks identity empty [] where
  first _ := rfl
  fields o ho := by
    cases ho

/-- An ingested listing has an observation afterwards. -/
theorem listingOf_observed (hstep : step rt c op = some c')
    (hlisting : listingOf identity op ≠ []) : ∃ o ∈ c'.observations, o.identity = identity := by
  cases op with
  | touchSeen source sourceJobIds observedAt => exact absurd rfl hlisting
  | deactivateStaleSources source staleThreshold safetyWindowStart => exact absurd rfl hlisting
  | ingest job observedAt choice =>
      have hidentity : (job.source, job.externalJobId) = identity := by
        by_contra hne
        exact hlisting (if_neg hne)
      obtain ⟨⟨_, result⟩, hingest, rfl⟩ := Option.map_eq_some_iff.mp hstep
      cases ingested_of_ingest hingest with
      | reobserved c₁ seen j company hsource _ _ _ _ hobservations =>
          obtain ⟨hseen, hseenIdentity⟩ := getSource_eq_some hsource
          refine ⟨refreshedSource seen job observedAt (seen.contentHash ≠ job.contentHash), ?_,
            hseenIdentity.trans hidentity⟩
          rw [hobservations]
          exact mem_put_self hseen rfl
      | created c₁ company _ _ _ _ _ _ _ hobservations =>
          refine ⟨createdSource choice.sourceId job
            (createdJob rt choice.jobId job company observedAt) observedAt, ?_, hidentity⟩
          rw [hobservations]
          exact List.mem_append_right _ (List.mem_singleton_self _)
      | merged c₁ company candidate _ _ _ _ _ _ hobservations =>
          refine ⟨createdSource choice.sourceId job (markCanonicalSeen candidate observedAt)
            observedAt, ?_, hidentity⟩
          rw [hobservations]
          exact List.mem_append_right _ (List.mem_singleton_self _)

/-- Every call keeps the fields what the listings have supplied. -/
theorem Tracks.step (hgraph : Graph c) (h : Tracks identity c listings)
    (hstep : step rt c op = some c') : Tracks identity c' (listings ++ listingOf identity op) where
  first hnone := by
    have hlisting : listingOf identity op = [] := by
      by_contra hne
      obtain ⟨o, ho, hidentity⟩ := listingOf_observed hstep hne
      exact hnone o ho hidentity
    rw [hlisting, List.append_nil]
    apply h.first
    intro o ho hidentity
    obtain ⟨o', ho', hsame, _⟩ := (hgraph.step hstep).2 o ho
    exact hnone o' ho' (hsame.trans hidentity)
  fields o' ho' hidentity hsole j' hj' hid β field := by
    subst hidentity
    cases soleAfter_of_step hgraph hstep ho' hsole hj' hid with
    | kept o j ho hsole hj hid hsame hreseen hfresh hnone =>
        rw [hnone, List.append_nil, field.freshened j j' o o' hfresh hreseen]
        exact h.fields o ho hsame hsole j hj hid field
    | refreshed o j ho hsole hj hid hsame job company observedAt changed hlisting hobservation
        hjob =>
        rw [hlisting, field.after_append (h.fields o ho hsame hsole j hj hid field),
          hobservation, hjob, field.refreshed]
        rfl
    | created job company jobId sourceId observedAt hnew hlisting hobservation hjob =>
        rw [hlisting, h.first hnew, hobservation, hjob, field.created]
        rfl

end

/-- The listings of an identity that have been ingested in a run from the empty catalogue. -/
def ingestedListings (rt : Runtime) (identity : String × String) (ops : List Op) :
    List NormalizedJob :=
  (Runs.succeeded (step rt) empty ops).flatMap (listingOf identity)

theorem tracks_run (rt : Runtime) (identity : String × String) (ops : List Op) :
    Tracks identity (run rt empty ops) (ingestedListings rt identity ops) := by
  have hJstep : ∀ c op c', Graph c → step rt c op = some c' → Graph c' := by
    intro c op c' hgraph hstep
    exact (hgraph.step hstep).1
  have hstep : ∀ c past op c', Graph c → Tracks identity c past → step rt c op = some c' →
      Tracks identity c' (past ++ listingOf identity op) := by
    intro c past op c' hgraph hpast hstep
    exact hpast.step hgraph hstep
  exact Runs.tracked (step rt) (listingOf identity) hJstep hstep graph_empty
    (tracks_empty identity) ops

/-- After every sequence of calls from the empty catalogue, each field of an observation that
is the only one of its canonical job, and of that job, is what the last listing of the
observation's identity that supplied the field has for it. -/
theorem last_supplied_kept (rt : Runtime) (ops : List Op) (o : JobSourceObservation)
    (j : CanonicalJob) (ho : o ∈ (run rt empty ops).observations)
    (hsole : ∀ x ∈ (run rt empty ops).observations, x.jobId = o.jobId → x = o)
    (hj : j ∈ (run rt empty ops).jobs) (hid : j.id = o.jobId) :
    let last := fun supplied : NormalizedJob → Bool =>
      ((ingestedListings rt o.identity ops).filter supplied).getLast?
    (∀ job ∈ last (fun job => hasText job.description), j.description = job.description) ∧
      (∀ job ∈ last (fun job => hasText job.location),
        j.location = job.location ∧ j.normalizedLocation = job.normalizedLocation) ∧
      (∀ job ∈ last (fun job => hasText job.employmentType),
        j.employmentType = job.employmentType) ∧
      (∀ job ∈ last (fun job => !job.skills.isEmpty), j.skills = job.skills) ∧
      (∀ job ∈ last (fun job => hasText job.salaryText), j.salaryText = job.salaryText) ∧
      (∀ job ∈ last (fun job => job.postedAt.isSome), j.postedAt = job.postedAt) ∧
      (∀ job ∈ last (fun job => job.experienceMinYears.isSome),
        j.experienceMinYears = job.experienceMinYears) ∧
      (∀ job ∈ last (fun job => job.experienceMaxYears.isSome),
        j.experienceMaxYears = job.experienceMaxYears) ∧
      (∀ job ∈ last (fun job => hasText job.experienceText),
        j.experienceText = job.experienceText) ∧
      (∀ job ∈ last (fun job => hasText job.jobUrl), o.sourceUrl = job.jobUrl) ∧
      ∀ job ∈ last (fun job => !job.rawData.isEmpty), o.rawData = job.rawData := by
  intro last
  have hfield : ∀ {β : Type} (field : Field β), ∀ job ∈ last field.supplied,
      field.stored j o = field.incoming job := by
    intro β field job hjob
    have hstored := (tracks_run rt o.identity ops).fields o ho rfl hsole j hj hid field
    rw [field.after_supplied hjob, Option.some_inj] at hstored
    exact hstored.symm
  refine ⟨hfield descriptionField, ?_, hfield employmentTypeField, hfield skillsField,
    hfield salaryTextField, hfield postedAtField, hfield experienceMinYearsField,
    hfield experienceMaxYearsField, hfield experienceTextField, hfield sourceUrlField,
    hfield rawDataField⟩
  intro job hjob
  have hplace := hfield locationField job hjob
  exact ⟨congrArg Prod.fst hplace, congrArg Prod.snd hplace⟩

/-- A listing that is seen with a description, then with a blank one, then without. -/
def fadingDescription : List Op :=
  [.ingest { austinListing with description := some "Build services." } 1788264000000000
      ⟨1, 2, 3, 0⟩,
    .ingest { austinListing with description := some " ", contentHash := "2b" }
      1788267600000000 ⟨4, 5, 6, 0⟩,
    .ingest { austinListing with contentHash := "3c" } 1788271200000000 ⟨7, 8, 9, 0⟩]

/-- The description stays. -/
theorem last_supplied_kept_blank :
    ∃ o ∈ (run sampleRuntime empty fadingDescription).observations,
      ∃ j ∈ (run sampleRuntime empty fadingDescription).jobs,
        j.id = o.jobId ∧ j.description = some "Build services." := by
  have hrows : ∃ o ∈ (run sampleRuntime empty fadingDescription).observations,
      ∃ j ∈ (run sampleRuntime empty fadingDescription).jobs,
        j.id = o.jobId ∧ o.identity = ("dice", "a1") ∧
          ∀ x ∈ (run sampleRuntime empty fadingDescription).observations,
            x.jobId = o.jobId → x = o := by
    decide
  obtain ⟨o, ho, j, hj, hid, hidentity, hsole⟩ := hrows
  have hkept := last_supplied_kept sampleRuntime fadingDescription o j ho hsole hj hid
  rw [hidentity] at hkept
  exact ⟨o, ho, j, hj, hid,
    hkept.1 { austinListing with description := some "Build services." } (by decide)⟩

end Catalogue
end HireAndTech
