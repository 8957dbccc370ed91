import HireAndTech.Catalogue.Freshness
import HireAndTech.Catalogue.Query

/-!
# The presented observation

A search under a source filter selects the jobs that the source lists.  The observation that
presents a job is then looked up among the active observations of all sources.

Main results:

- Theorem {lit}`presentationSource_spec`: the presented observation is the first of its job.
- Theorem {lit}`presented_step_iff`: when a job keeps an active observation.
- Theorem {lit}`shown_iff`: what the pages of a search show.
- Theorem {lit}`source_filter_iff`: when a source filter is honoured in what is shown.
-/

namespace HireAndTech
namespace Catalogue

open Relational (head_sortedBy mem_put mem_updateWhere mem_updateWhere_of_mem sortedBy_perm)

/-! ## The first observation of a job -/

/-- An active observation of a job. -/
def IsActiveSource (db : Database) (jobId : UUID) (o : JobSourceObservation) : Prop :=
  o ∈ db.observations ∧ o.jobId = jobId ∧ o.isActive = true

/-- Every active observation of a job by another source comes after one by the given source. -/
def SortsFirst (sql : Sql) (db : Database) (source : String) (jobId : UUID) : Prop :=
  ∀ o ∈ db.observations, o.jobId = jobId → o.isActive = true → o.source ≠ source →
    ∃ first ∈ db.observations, first.jobId = jobId ∧ first.isActive = true ∧
      first.source = source ∧ presentationKey sql first < presentationKey sql o

instance (sql : Sql) (db : Database) (source : String) (jobId : UUID) :
    Decidable (SortsFirst sql db source jobId) := by
  unfold SortsFirst
  infer_instance

section

variable {sql : Sql} {db : Database} {jobId : UUID} {o : JobSourceObservation}

/-- The presented observation is active, and none of its job comes before it. -/
theorem presentationSource_spec (h : presentationSource sql db jobId = some o) :
    IsActiveSource db jobId o ∧
      ∀ o', IsActiveSource db jobId o' → presentationKey sql o ≤ presentationKey sql o' := by
  obtain ⟨hmem, hleast⟩ := head_sortedBy h
  simp only [List.mem_filter, Bool.and_eq_true, decide_eq_true_eq] at hmem hleast
  exact ⟨hmem, hleast⟩

/-- Sources have one place in the order when texts do. -/
theorem source_of_key (hcollate : Function.Injective sql.collate) {o' : JobSourceObservation}
    (h : presentationKey sql o = presentationKey sql o') : o.source = o'.source := by
  simp only [presentationKey, toLex_inj, Prod.mk.injEq] at h
  exact hcollate h.2.2.1

/-- A job is presented by a source exactly when the source sorts first. -/
theorem source_of_presentation (hcollate : Function.Injective sql.collate) {source : String}
    (h : presentationSource sql db jobId = some o) :
    o.source = source ↔ SortsFirst sql db source jobId := by
  obtain ⟨hactive, hleast⟩ := presentationSource_spec h
  constructor
  · intro hsource o' ho' hjob hisActive hother
    refine ⟨o, hactive.1, hactive.2.1, hactive.2.2, hsource, ?_⟩
    apply lt_of_le_of_ne (hleast o' ⟨ho', hjob, hisActive⟩)
    intro hkey
    exact hother ((source_of_key hcollate hkey).symm.trans hsource)
  · intro hfirst
    by_contra hother
    obtain ⟨first, hmem, hjob, hisActive, _, hlt⟩ :=
      hfirst o hactive.1 hactive.2.1 hactive.2.2 hother
    exact absurd (hleast first ⟨hmem, hjob, hisActive⟩) (not_le_of_gt hlt)

end

/-! ## Jobs that stay presented -/

/-- The job has an active observation. -/
def IsPresented (db : Database) (jobId : UUID) : Prop :=
  ∃ o, IsActiveSource db jobId o

/-- The call leaves an active observation of the job alone. -/
def Spares (c : Database) (jobId : UUID) : Op → Prop
  | .deactivateStaleSources source staleThreshold safetyWindowStart =>
      ∃ o, IsActiveSource c jobId o ∧
        (isHealthy c source safetyWindowStart && isStale source staleThreshold o) = false
  | _ => True

section

variable {rt : Runtime} {c c' : Database} {jobId : UUID}

/-- A job with an active observation is presented by one. -/
theorem presented_iff (sql : Sql) :
    (∃ o, presentationSource sql c jobId = some o) ↔ IsPresented c jobId := by
  constructor
  · rintro ⟨o, ho⟩
    exact ⟨o, (presentationSource_spec ho).1⟩
  · rintro ⟨o, hmem, hjob, hactive⟩
    apply Option.isSome_iff_exists.mp
    rw [presentationSource, List.isSome_head?]
    apply List.ne_nil_of_mem (a := o)
    rw [(sortedBy_perm _ _).mem_iff, List.mem_filter]
    exact ⟨hmem, by simp [hjob, hactive]⟩

/-- What a search shows has been presented. -/
theorem presented_of_mem_search {sql : Sql} {f : SearchFilter} {page pageSize : Nat}
    {read : CanonicalJobRead} (h : read ∈ (search sql c f page pageSize).1) :
    IsPresented c read.id := by
  obtain ⟨row, _, hread⟩ := List.mem_filterMap.mp h
  obtain ⟨observation, hobservation, rfl⟩ := Option.map_eq_some_iff.mp hread
  exact (presented_iff sql).mp ⟨observation, hobservation⟩

/-- An ingestion keeps the observations of a job active. -/
theorem IsPresented.ingested {job : NormalizedJob} {observedAt : Time} {choice : IngestChoice}
    (hgraph : Graph c) (h : IsPresented c jobId) (hi : Ingested rt c job observedAt choice c') :
    IsPresented c' jobId := by
  obtain ⟨o, hmem, hjob, hactive⟩ := h
  cases hi with
  | reobserved c₁ existing j company hsource hcompany hfound _ _ hobservations =>
      have hexisting := (getSource_eq_some hsource).1
      have hput : ∀ y, y ∈ c'.observations ↔
          y = refreshedSource existing job observedAt
              (existing.contentHash ≠ job.contentHash) ∨
            (y ∈ c.observations ∧ y ≠ existing) := by
        intro y
        rw [hobservations]
        exact mem_put hgraph.sourceIds hexisting rfl
      by_cases hsame : o = existing
      · exact ⟨_, (hput _).mpr (Or.inl rfl), (congrArg (·.jobId) hsame).symm.trans hjob, rfl⟩
      · exact ⟨o, (hput o).mpr (Or.inr ⟨hmem, hsame⟩), hjob, hactive⟩
  | created c₁ company _ _ _ _ _ _ _ hobservations =>
      exact ⟨o, hobservations ▸ List.mem_append_left _ hmem, hjob, hactive⟩
  | merged c₁ company candidate _ _ _ _ _ _ hobservations =>
      exact ⟨o, hobservations ▸ List.mem_append_left _ hmem, hjob, hactive⟩

theorem IsPresented.touchSeen {source : String} {sourceJobIds : List String} {observedAt : Time}
    (h : IsPresented c jobId) :
    IsPresented (Catalogue.touchSeen c source sourceJobIds observedAt).1 jobId := by
  obtain ⟨o, hmem, hjob, hactive⟩ := h
  unfold Catalogue.touchSeen touchSourcesSeen
  split
  · exact ⟨o, hmem, hjob, hactive⟩
  · refine ⟨_, mem_updateWhere_of_mem hmem, ?_, ?_⟩
    · split <;> exact hjob
    · split
      · rfl
      · exact hactive

theorem presented_deactivateStaleSources_iff {source : String}
    {staleThreshold safetyWindowStart : Time} :
    IsPresented (Catalogue.deactivateStaleSources c source staleThreshold safetyWindowStart).1
        jobId ↔
      Spares c jobId (.deactivateStaleSources source staleThreshold safetyWindowStart) := by
  simp only [IsPresented, IsActiveSource, Spares, deactivateStaleSources_observations]
  cases isHealthy c source safetyWindowStart with
  | false => simp
  | true =>
      simp only [if_true, mem_updateWhere, Bool.true_and]
      constructor
      · rintro ⟨_, ⟨o, hmem, rfl⟩, hjob, hactive⟩
        by_cases hstale : isStale source staleThreshold o = true
        · simp [hstale] at hactive
        · rw [if_neg hstale] at hjob hactive
          exact ⟨o, ⟨hmem, hjob, hactive⟩, by simpa using hstale⟩
      · rintro ⟨o, ⟨hmem, hjob, hactive⟩, hstale⟩
        exact ⟨o, ⟨o, hmem, by simp [hstale]⟩, hjob, hactive⟩

/-- A job keeps an active observation exactly when the call spares one. -/
theorem presented_step_iff {op : Op} (hgraph : Graph c) (h : IsPresented c jobId)
    (hstep : step rt c op = some c') : IsPresented c' jobId ↔ Spares c jobId op := by
  cases op with
  | ingest job observedAt choice =>
      obtain ⟨⟨_, result⟩, hingest, rfl⟩ := Option.map_eq_some_iff.mp hstep
      exact iff_of_true (h.ingested hgraph (ingested_of_ingest hingest)) trivial
  | touchSeen source sourceJobIds observedAt =>
      cases hstep
      exact iff_of_true h.touchSeen trivial
  | deactivateStaleSources source staleThreshold safetyWindowStart =>
      cases hstep
      exact presented_deactivateStaleSources_iff

end

/-! ## What is shown -/

/-- The read is on some page of the search. -/
def IsShown (sql : Sql) (db : Database) (f : SearchFilter) (read : CanonicalJobRead) : Prop :=
  ∃ page pageSize, read ∈ (search sql db f page pageSize).1

/-- The pages show the matching jobs, each with the observation that presents it. -/
theorem shown_iff {sql : Sql} {db : KeyedDatabase} {f : SearchFilter} {read : CanonicalJobRead} :
    IsShown sql db.toDatabase f read ↔
      ∃ j ∈ matchingJobs sql db.toDatabase f, ∃ o,
        presentationSource sql db.toDatabase j.id = some o ∧
          read = readOf (j, companyOf db.toDatabase j) o := by
  constructor
  · rintro ⟨page, pageSize, hread⟩
    rw [search_items] at hread
    obtain ⟨row, hrow, hpresent⟩ := List.mem_filterMap.mp hread
    have hsorted := List.mem_of_mem_drop (List.mem_of_mem_take hrow)
    rw [(sortedBy_perm _ _).mem_iff, List.mem_map] at hsorted
    obtain ⟨j, hj, rfl⟩ := hsorted
    obtain ⟨o, ho, hreadOf⟩ := Option.map_eq_some_iff.mp hpresent
    exact ⟨j, hj, o, ho, hreadOf.symm⟩
  · rintro ⟨j, hj, o, ho, rfl⟩
    -- one page that is long enough holds every matching job
    refine ⟨1, (matchingJobs sql db.toDatabase f).length, ?_⟩
    rw [search_items, Nat.sub_self, Nat.zero_mul, Relational.page, List.drop_zero,
      List.take_of_length_le (by rw [(sortedBy_perm _ _).length_eq, List.length_map])]
    apply List.mem_filterMap.mpr
    refine ⟨(j, companyOf db.toDatabase j), ?_, ?_⟩
    · rw [(sortedBy_perm _ _).mem_iff]
      exact List.mem_map_of_mem hj
    · rw [present, ho, Option.map_some]

/-- The read shows the source, and the external id and URL of an active observation of it. -/
def ShowsSource (db : Database) (source : String) (read : CanonicalJobRead) : Prop :=
  read.source = source ∧ ∃ o, IsActiveSource db read.id o ∧ o.source = source ∧
    read.externalJobId = o.sourceJobId ∧ read.jobUrl = o.sourceUrl

/-- Every read on the pages of a search under a source filter shows the source. -/
def HonoursSource (sql : Sql) (db : Database) (f : SearchFilter) (source : String) : Prop :=
  ∀ read, IsShown sql db { f with source := some source } read → ShowsSource db source read

/-- A source filter is honoured in what is shown exactly when every active observation of a
matching job by another source comes after one by the given source. -/
theorem source_filter_iff (sql : Sql) (hcollate : Function.Injective sql.collate)
    (db : KeyedDatabase) (f : SearchFilter) (source : String) :
    HonoursSource sql db.toDatabase f source ↔
      ∀ j ∈ db.jobs, isMatch sql db.toDatabase { f with source := some source } j = true →
        SortsFirst sql db.toDatabase source j.id := by
  constructor
  · intro hhonours j hj hmatch
    have hmatching := List.mem_filter.mpr ⟨hj, hmatch⟩
    simp only [isMatch, searchPredicate, Bool.and_eq_true] at hmatch
    have hsome : (presentationSource sql db.toDatabase j.id).isSome = true :=
      presentationSource_isSome hmatch.1.1.1.1.1.1.2
    obtain ⟨o, ho⟩ := Option.isSome_iff_exists.mp hsome
    have hshown := hhonours _ (shown_iff.mpr ⟨j, hmatching, o, ho, rfl⟩)
    exact (source_of_presentation hcollate ho).mp hshown.1
  · intro hfirst read hread
    obtain ⟨j, hj, o, ho, rfl⟩ := shown_iff.mp hread
    obtain ⟨hmem, hmatch⟩ := List.mem_filter.mp hj
    have hsource := (source_of_presentation hcollate ho).mpr (hfirst j hmem hmatch)
    exact ⟨hsource, o, (presentationSource_spec ho).1, hsource, rfl, rfl⟩

/-- The provider that is alphabetically first presents the jobs that two providers list. -/
theorem source_filter_iff_dice : HonoursSource plainSql twoOpenings.toDatabase {} "dice" :=
  (source_filter_iff plainSql (fun _ _ => String.toList_inj.mp) twoOpenings {}
    "dice").mpr (by decide)

/-- A search for the other provider shows the first one. -/
theorem source_filter_shows_other :
    ¬HonoursSource plainSql twoOpenings.toDatabase {} "linkedin" := by
  intro hhonours
  have hread : ∃ read ∈
      (search plainSql twoOpenings.toDatabase { source := some "linkedin" } 1 50).1,
      read.source ≠ "linkedin" := by decide
  obtain ⟨read, hmem, hsource⟩ := hread
  exact hsource (hhonours read ⟨1, 50, hmem⟩).1

end Catalogue
end HireAndTech
