import HireAndTech.Base.FirstSeen
import HireAndTech.Collection.Scheduler

/-!
# Isolation of the scheduler from profiles

The title and the top skills of a profile each ask for a search of every source.  What a source
hands to the queue is said here in terms of these searches: without repetitions, up to a hundred for
each source, and a batch of them at a time for Glassdoor.

Main results:

- Definition {lit}`TargetsOf`: the targets that the stored profiles stand for.
- Definition {lit}`HandsOn`: which targets of a source one call takes.
- Theorem {lit}`filter_grouped`: the group of a source.
- Theorem {lit}`scheduling_isolated_iff`: when no profile ends the call.
-/

namespace HireAndTech
namespace Collection

open Catalogue Text

/-! ## What profiles ask for -/

/-- One search that is asked for. -/
structure TargetSearch where
  source : JobSource
  query : String
  location : String

/-- The search of every source for one query. -/
def searchesOf (query location : String) : List TargetSearch :=
  [.dice, .linkedin, .glassdoor, .hiringcafe].map fun source => { source, query, location }

/-- What a profile looks for: its title, and its top skills. -/
def queriesOf (profile : Resumes.CandidateProfile) : List String :=
  profile.currentTitle.toList ++ if profile.skills = [] then [] else [topSkills profile]

/-- The searches of one profile. -/
def searchesOfProfile (profile : Resumes.CandidateProfile) : List TargetSearch :=
  (queriesOf profile).flatMap fun query =>
    searchesOf query (profile.location.getD "United States")

/-- The searches that the profiles of parsed resumes ask for. -/
def askedSearches (db : Resumes.Database) : List TargetSearch :=
  (schedulableProfiles db).flatMap searchesOfProfile

/-- The target of a search: its texts, with their words joined by single spaces. -/
structure TargetOf (search : TargetSearch) (target : CollectionTarget) : Prop where
  source : target.source = search.source
  query : target.query = joinSplit search.query
  location : target.location = some (joinSplit search.location)
  enabled : target.enabled = true
  maxJobs : target.maxJobs = 100

/-- The targets that stored profiles stand for.  Without any search the configured targets are
taken, and without these the last resort. -/
inductive TargetsOf (settings : CollectionSettings) (db : Resumes.Database) :
    List CollectionTarget → Prop
  | profiles {targets : List CollectionTarget} (hasked : askedSearches db ≠ [])
      (htargets : List.Forall₂ TargetOf (askedSearches db) targets) : TargetsOf settings db targets
  | configured (hasked : askedSearches db = [])
      (hconfigured : settings.jobCollectionTargets.filter (·.enabled) ≠ []) :
      TargetsOf settings db (settings.jobCollectionTargets.filter (·.enabled))
  | standard {targets : List CollectionTarget} (hasked : askedSearches db = [])
      (hconfigured : settings.jobCollectionTargets.filter (·.enabled) = [])
      (htargets : List.Forall₂ TargetOf (searchesOf "software engineer" "United States") targets) :
      TargetsOf settings db targets

/-! ## What a call hands to the queue -/

/-- The targets of one source: those whose identity stands for the first time, up to a hundred. -/
def targetsOfSource (rt : Runtime) (targets : List CollectionTarget) (source : JobSource) :
    List CollectionTarget :=
  ((Base.firstSeen (CollectionTarget.identity rt) [] targets).filter
    (·.source = source)).take 100

/-- What one call hands on of the targets of a source: all of them, or a batch of neighbours for
Glassdoor if there are more. -/
def HandsOn (settings : CollectionSettings) (source : JobSource)
    (targets handed : List CollectionTarget) : Prop :=
  if source = .glassdoor ∧ settings.glassdoorCollectionBatchSize < targets.length then
    ∃ start, handed = (targets.rotate start).take settings.glassdoorCollectionBatchSize
  else handed = targets

/-- The job that a target asks for. -/
structure EnqueuedFor (settings : CollectionSettings) (target : CollectionTarget)
    (call : EnqueueCall) : Prop where
  source : call.source = target.source.value
  query : call.query = target.query
  location : call.location = target.location
  maxJobs : call.maxJobs = min target.maxJobs settings.jobCollectionMaxJobsPerTarget
  queueName : call.queueName = settings.jobCollectionQueueName

variable (rt : Runtime) (settings : CollectionSettings) (ctx : SchedulerContext)

/-- The call does not raise, and every registered source that is due has its targets handed to the
queue: those that the stored profiles stand for. -/
def SchedulingIsolated (db : Resumes.Database) : Prop :=
  ∃ report calls, scheduleDueCollections rt settings ctx (some db) = .ok (report, calls) ∧
    (settings.jobCollectionEnabled = true → ∃ targets, TargetsOf settings db targets ∧
      ∀ source, ctx.isRegistered source = true → isDue settings ctx source = true →
        ∃ handed, HandsOn settings source (targetsOfSource rt targets source) handed ∧
          List.Forall₂ (EnqueuedFor settings) handed
            (calls.filter (·.source = source.value)))

/-! ## The targets of profiles -/

section

variable {rt : Runtime} {settings : CollectionSettings} {db : Resumes.Database}
  {profile : Resumes.CandidateProfile} {query location : String}
  {targets dynamic : List CollectionTarget}

theorem targetOf_validate {source : JobSource} {target : CollectionTarget}
    (h : CollectionTarget.validate source query (some location) true 100 = .ok target) :
    TargetOf { source, query, location } target := by
  unfold CollectionTarget.validate at h
  split at h
  · split at h
    · split at h
      · cases h
        exact ⟨rfl, rfl, rfl, rfl, rfl⟩
      · contradiction
    · contradiction
  · contradiction

theorem targetOf_sourceTargets (h : sourceTargets query (some location) = .ok targets) :
    List.Forall₂ TargetOf (searchesOf query location) targets := by
  rw [searchesOf, List.forall₂_map_left_iff]
  exact (Runs.mapM_eq_ok_iff.mp h).imp fun _ _ => targetOf_validate

theorem targetOf_titleTargets (hprofile : ProfileText profile)
    (h : titleTargets profile = .ok targets) :
    List.Forall₂ TargetOf (profile.currentTitle.toList.flatMap fun query =>
      searchesOf query (profile.location.getD "United States")) targets := by
  unfold titleTargets at h
  cases htitle : profile.currentTitle with
  | none =>
      rw [htitle] at h
      cases h
      exact .nil
  | some title =>
      have hne : title ≠ "" := by
        rintro rfl
        exact absurd (hprofile.title "" htitle).1 (by decide)
      rw [htitle] at h
      dsimp only at h
      rw [if_pos hne, locationOf_eq hprofile] at h
      rw [Option.toList_some, List.flatMap_singleton]
      exact targetOf_sourceTargets h

theorem targetOf_skillTargets (hprofile : ProfileText profile)
    (h : skillTargets profile = .ok targets) :
    List.Forall₂ TargetOf
      ((if profile.skills = [] then [] else [topSkills profile]).flatMap fun query =>
        searchesOf query (profile.location.getD "United States")) targets := by
  unfold skillTargets at h
  by_cases hskills : profile.skills = []
  · rw [if_neg fun hboth => hboth.1 hskills] at h
    cases h
    rw [if_pos hskills]
    exact .nil
  · have hne : topSkills profile ≠ "" := by
      intro hempty
      have htext := hasText_topSkills hprofile hskills
      rw [hempty] at htext
      contradiction
    rw [if_pos ⟨hskills, hne⟩, locationOf_eq hprofile] at h
    rw [if_neg hskills, List.flatMap_singleton]
    exact targetOf_sourceTargets h

theorem targetOf_profileTargets (hprofile : ProfileText profile)
    (h : profileTargets profile = .ok targets) :
    List.Forall₂ TargetOf (searchesOfProfile profile) targets := by
  obtain ⟨byTitle, htitle, h⟩ := Runs.bind_eq_ok_iff.mp h
  obtain ⟨bySkills, hskills, h⟩ := Runs.bind_eq_ok_iff.mp h
  cases h
  rw [searchesOfProfile, queriesOf, List.flatMap_append]
  exact List.rel_append (targetOf_titleTargets hprofile htitle)
    (targetOf_skillTargets hprofile hskills)

/-- The dynamic targets are those of the searches that the profiles ask for. -/
theorem targetOf_profilesTargets
    (hprofiles : ∀ profile ∈ schedulableProfiles db, ProfileText profile)
    (h : profilesTargets db = .ok dynamic) :
    List.Forall₂ TargetOf (askedSearches db) dynamic := by
  obtain ⟨found, hfound, h⟩ := Runs.bind_eq_ok_iff.mp h
  cases h
  rw [askedSearches, List.flatMap_def]
  apply List.rel_flatten
  rw [List.forall₂_map_left_iff]
  have hall := Runs.mapM_eq_ok_iff.mp hfound
  exact ((List.forall₂_and_left _ _).mpr ⟨hprofiles, hall⟩).imp fun profile targets hboth =>
    targetOf_profileTargets hboth.1 hboth.2

/-! ## Repetitions -/

theorem foldl_setDefault (targets : List CollectionTarget) :
    targets.foldl (setDefault rt) [] =
      Base.firstSeen (CollectionTarget.identity rt) [] targets := by
  refine Base.foldl_eq_append_firstSeen (fun acc target => if_congr ?_ rfl rfl) []
  simp only [List.any_eq_true, decide_eq_true_eq, List.mem_map]

theorem firstSeen_ne_nil (h : targets ≠ []) :
    Base.firstSeen (CollectionTarget.identity rt) [] targets ≠ [] := by
  intro hnil
  obtain ⟨target, htarget⟩ := List.exists_mem_of_ne_nil targets h
  exact List.not_mem_nil (Base.firstSeen_eq_nil_iff.mp hnil target htarget)

theorem filter_enabled {searches : List TargetSearch} (h : List.Forall₂ TargetOf searches targets) :
    targets.filter (·.enabled) = targets := by
  induction h with
  | nil => rfl
  | cons hfirst _ ih => rw [List.filter_cons_of_pos hfirst.enabled, ih]

/-- The unique targets are the first ones of those that the profiles stand for. -/
theorem targetsOf_uniqueTargets (h : List.Forall₂ TargetOf (askedSearches db) dynamic)
    (hunique : uniqueTargets rt settings dynamic = .ok targets) :
    ∃ stated, TargetsOf settings db stated ∧
      targets = Base.firstSeen (CollectionTarget.identity rt) [] stated := by
  unfold uniqueTargets at hunique
  simp only [filter_enabled h, enabledTargets, foldl_setDefault] at hunique
  have hnil : Base.firstSeen (CollectionTarget.identity rt) [] [] = [] := rfl
  by_cases hasked : askedSearches db = []
  · have hnone : dynamic = [] := by
      rw [hasked] at h
      exact List.forall₂_nil_left_iff.mp h
    rw [hnone, if_neg (not_not.mpr hnil)] at hunique
    by_cases hconfigured : settings.jobCollectionTargets.filter (·.enabled) = []
    · rw [hconfigured, if_neg (not_not.mpr hnil)] at hunique
      obtain ⟨found, hfound, hunique⟩ := Runs.bind_eq_ok_iff.mp hunique
      cases hunique
      exact ⟨found, .standard hasked hconfigured (targetOf_sourceTargets hfound), rfl⟩
    · rw [if_pos (firstSeen_ne_nil hconfigured)] at hunique
      cases hunique
      exact ⟨_, .configured hasked hconfigured, Base.firstSeen_absorb fun _ => id⟩
  · have hsome : dynamic ≠ [] := by
      rintro rfl
      exact hasked (List.forall₂_nil_right_iff.mp h)
    rw [if_pos (firstSeen_ne_nil hsome)] at hunique
    cases hunique
    exact ⟨dynamic, .profiles hasked h, rfl⟩

end

/-! ## Groups -/

section

variable {source : JobSource} {group : JobSource × List CollectionTarget}

/-- The groups of one source after a target has been added. -/
theorem filter_addToGroup (groups : List (JobSource × List CollectionTarget))
    (target : CollectionTarget) : (addToGroup groups target).filter (·.1 = source) =
      if target.source = source then addToGroup (groups.filter (·.1 = source)) target
      else groups.filter (·.1 = source) := by
  induction groups with
  | nil =>
      by_cases htarget : target.source = source <;> simp [addToGroup, htarget]
  | cons group groups ih =>
      obtain ⟨first, targets⟩ := group
      by_cases hfirst : first = target.source
      · subst hfirst
        by_cases htarget : target.source = source <;> simp [addToGroup, htarget]
      · rw [addToGroup, if_neg hfirst, List.filter_cons, List.filter_cons, ih]
        by_cases htarget : target.source = source
        · have hother : first ≠ source := htarget ▸ hfirst
          simp [htarget, hother]
        · simp [htarget]

/-- The group of a source has its targets, up to a hundred. -/
theorem filter_grouped (targets : List CollectionTarget) :
    (grouped targets).filter (·.1 = source) =
      if targets.filter (·.source = source) = [] then []
      else [(source, (targets.filter (·.source = source)).take 100)] := by
  induction targets using List.reverseRecOn with
  | nil => rfl
  | append_singleton targets target ih =>
      rw [grouped, List.foldl_append, ← grouped, List.foldl_cons, List.foldl_nil,
        filter_addToGroup, ih, List.filter_append]
      by_cases htarget : target.source = source
      · subst htarget
        rw [if_pos rfl, List.filter_cons_of_pos (by simp), List.filter_nil]
        generalize targets.filter (fun other => decide (other.source = target.source)) = found
        have hne : found ++ [target] ≠ [] :=
          List.append_ne_nil_of_right_ne_nil _ (List.cons_ne_nil _ _)
        rw [if_neg hne]
        cases found with
        | nil => rfl
        | cons first found =>
            rw [if_neg (List.cons_ne_nil first found), addToGroup, if_pos rfl, List.length_take]
            by_cases hfull : (first :: found).length < 100
            · rw [if_pos (by omega), List.take_of_length_le (by omega),
                List.take_of_length_le (by rw [List.length_append, List.length_singleton]; omega)]
            · rw [if_neg (by omega), List.take_append_of_le_length (by omega)]
      · rw [if_neg htarget, List.filter_cons_of_neg (by simpa using htarget), List.filter_nil,
          List.append_nil]

end

/-! ## Rotation -/

section

variable {settings : CollectionSettings} {ctx : SchedulerContext}
  {source : JobSource} {targets handed : List CollectionTarget}

/-- The first entries of a list, one by one. -/
theorem filterMap_range_getElem? {α : Type} (xs : List α) (n : ℕ) :
    (List.range n).filterMap (fun i => xs[i]?) = xs.take n := by
  induction n with
  | zero => rfl
  | succ n ih =>
      rw [List.range_succ, List.filterMap_append, ih, List.take_add_one]
      cases h : xs[n]? <;> simp [h]

/-- The active targets of a source are handed on. -/
theorem handsOn_activeTargets :
    HandsOn settings source targets (activeTargets settings ctx source targets) := by
  have hbatch : 0 < settings.glassdoorCollectionBatchSize := settings.batchSizeBounds.1
  unfold HandsOn activeTargets
  by_cases hsource : source = .glassdoor
  · by_cases hmore : settings.glassdoorCollectionBatchSize < targets.length
    · have hrotates : ¬(targets = [] ∨ targets.length ≤ settings.glassdoorCollectionBatchSize) := by
        rintro (rfl | hle)
        · exact Nat.not_lt_zero _ hmore
        · omega
      rw [if_pos ⟨hsource, hmore⟩, if_pos ⟨hsource, hbatch⟩, rotateQueries, if_neg hrotates]
      dsimp only
      generalize startIdx ctx _ targets.length = start
      refine ⟨start, ?_⟩
      rw [← filterMap_range_getElem?]
      refine List.filterMap_congr fun i hi => ?_
      rw [List.getElem?_rotate ((List.mem_range.mp hi).trans hmore), Nat.add_comm]
    · rw [if_neg fun hboth => hmore hboth.2, if_pos ⟨hsource, hbatch⟩, rotateQueries,
        if_pos (Or.inr (not_lt.mp hmore))]
  · rw [if_neg fun hboth => hsource hboth.1, if_neg fun hboth => hsource hboth.1]

theorem HandsOn.subset (h : HandsOn settings source targets handed) : handed ⊆ targets := by
  unfold HandsOn at h
  split at h
  · obtain ⟨start, rfl⟩ := h
    exact fun target htarget => List.mem_rotate.mp (List.mem_of_mem_take htarget)
  · exact h ▸ List.Subset.refl targets

end

/-! ## The loop over the sources -/

section

variable {rt : Runtime} {settings : CollectionSettings} {ctx : SchedulerContext}
  {source : JobSource}

/-- The jobs of one group. -/
def groupCalls (rt : Runtime) (settings : CollectionSettings) (ctx : SchedulerContext)
    (group : JobSource × List CollectionTarget) : List EnqueueCall :=
  if ctx.isRegistered group.1 = true ∧ isDue settings ctx group.1 = true then
    (activeTargets settings ctx group.1 group.2).map (enqueueCall rt settings ctx group.1)
  else []

theorem scheduleSource_calls (state : ScheduleReport × List EnqueueCall)
    (group : JobSource × List CollectionTarget) :
    (scheduleSource rt settings ctx state group).2 =
      state.2 ++ groupCalls rt settings ctx group := by
  unfold scheduleSource groupCalls
  cases hregistered : ctx.isRegistered group.1 with
  | false => simp [hregistered]
  | true =>
      cases hdue : isDue settings ctx group.1 <;> simp [hregistered, hdue]

theorem foldl_scheduleSource_calls (groups : List (JobSource × List CollectionTarget))
    (state : ScheduleReport × List EnqueueCall) :
    (groups.foldl (scheduleSource rt settings ctx) state).2 =
      state.2 ++ groups.flatMap (groupCalls rt settings ctx) := by
  induction groups generalizing state with
  | nil => rw [List.foldl_nil, List.flatMap_nil, List.append_nil]
  | cons group groups ih =>
      rw [List.foldl_cons, ih, scheduleSource_calls, List.flatMap_cons, List.append_assoc]

theorem value_inj {other : JobSource} : source.value = other.value ↔ source = other := by
  cases source <;> cases other <;> decide

/-- The jobs of a group are all of its source. -/
theorem filter_groupCalls {group : JobSource × List CollectionTarget}
    (h : ∀ target ∈ group.2, target.source = group.1) :
    (groupCalls rt settings ctx group).filter (·.source = source.value) =
      if group.1 = source then groupCalls rt settings ctx group else [] := by
  have hsource : ∀ call ∈ groupCalls rt settings ctx group, call.source = group.1.value := by
    intro call hcall
    unfold groupCalls at hcall
    split at hcall
    · obtain ⟨target, htarget, rfl⟩ := List.mem_map.mp hcall
      exact congrArg JobSource.value (h target (handsOn_activeTargets.subset htarget))
    · contradiction
  by_cases hgroup : group.1 = source
  · rw [if_pos hgroup, List.filter_eq_self]
    intro call hcall
    rw [decide_eq_true_eq, hsource call hcall, hgroup]
  · rw [if_neg hgroup, List.filter_eq_nil_iff]
    intro call hcall
    rwa [decide_eq_true_eq, hsource call hcall, value_inj]

end

/-! ## The whole call -/

section

variable {rt : Runtime} {settings : CollectionSettings} {ctx : SchedulerContext}
  {source : JobSource} {db : Resumes.Database} {targets : List CollectionTarget}

theorem source_of_mem_grouped {group : JobSource × List CollectionTarget}
    (h : group ∈ grouped targets) : ∀ target ∈ group.2, target.source = group.1 := by
  have hmem : group ∈ (grouped targets).filter (·.1 = group.1) :=
    List.mem_filter.mpr ⟨h, decide_eq_true rfl⟩
  rw [filter_grouped] at hmem
  split at hmem
  · contradiction
  · rw [List.mem_singleton.mp hmem]
    intro target htarget
    exact of_decide_eq_true (List.mem_filter.mp (List.mem_of_mem_take htarget)).2

/-- The entries that a list gives for some of its items. -/
theorem flatMap_ite {α β : Type} (p : α → Prop) [DecidablePred p] (f : α → List β) (xs : List α) :
    (xs.flatMap fun x => if p x then f x else []) = (xs.filter p).flatMap f := by
  induction xs with
  | nil => rfl
  | cons x xs ih =>
      rw [List.flatMap_cons, ih, List.filter_cons]
      by_cases hx : p x <;> simp [hx]

/-- The jobs of a source are those of its group. -/
theorem filter_flatMap_groupCalls (targets : List CollectionTarget) (source : JobSource) :
    ((grouped targets).flatMap (groupCalls rt settings ctx)).filter (·.source = source.value) =
      ((grouped targets).filter (·.1 = source)).flatMap (groupCalls rt settings ctx) := by
  rw [List.filter_flatMap, ← flatMap_ite]
  exact List.flatMap_congr fun group hgroup => filter_groupCalls (source_of_mem_grouped hgroup)

/-- A registered source that is due has the active ones of its targets handed on. -/
theorem sourceCalls_eq (hregistered : ctx.isRegistered source = true)
    (hdue : isDue settings ctx source = true) :
    ((grouped targets).flatMap (groupCalls rt settings ctx)).filter (·.source = source.value) =
      (activeTargets settings ctx source ((targets.filter (·.source = source)).take 100)).map
        (enqueueCall rt settings ctx source) := by
  rw [filter_flatMap_groupCalls, filter_grouped]
  by_cases hnone : targets.filter (·.source = source) = []
  · have hactive : activeTargets settings ctx source [] = [] :=
      List.subset_nil.mp handsOn_activeTargets.subset
    rw [if_pos hnone, hnone, List.take_nil, hactive, List.flatMap_nil, List.map_nil]
  · rw [if_neg hnone, List.flatMap_singleton, groupCalls, if_pos ⟨hregistered, hdue⟩]

/-- A target and its job. -/
theorem enqueuedFor_enqueueCall (target : CollectionTarget) :
    EnqueuedFor settings target (enqueueCall rt settings ctx source target) :=
  ⟨rfl, rfl, rfl, rfl, rfl⟩

/-- The result of a call whose targets can be built. -/
theorem scheduleDueCollections_eq_ok_iff {result : ScheduleReport × List EnqueueCall}
    (henabled : settings.jobCollectionEnabled = true) :
    scheduleDueCollections rt settings ctx (some db) = .ok result ↔
      ∃ dynamic unique, profilesTargets db = .ok dynamic ∧
        uniqueTargets rt settings dynamic = .ok unique ∧
        (grouped unique).foldl (scheduleSource rt settings ctx) (⟨"completed", 0, 0, 0⟩, []) =
          result := by
  rw [scheduleDueCollections, henabled, if_neg (by decide), dynamicTargets, Runs.bind_eq_ok_iff]
  refine exists_congr fun dynamic => ?_
  rw [Runs.bind_eq_ok_iff, ← exists_and_left]
  refine exists_congr fun unique => and_congr_right fun _ => and_congr_right fun _ => ?_
  exact ⟨Except.ok.inj, congrArg Except.ok⟩

/-- A call that does not raise has built the targets of all profiles. -/
theorem SchedulingIsolated.profilesTargets_isOk (h : SchedulingIsolated rt settings ctx db)
    (henabled : settings.jobCollectionEnabled = true) :
    ∃ dynamic, profilesTargets db = .ok dynamic := by
  obtain ⟨report, calls, hcall, -⟩ := h
  obtain ⟨dynamic, -, hdynamic, -⟩ := (scheduleDueCollections_eq_ok_iff henabled).mp hcall
  exact ⟨dynamic, hdynamic⟩

end

/-- Over profiles that the schema admits, the scheduler is isolated from each of them exactly
when collection is disabled or every profile of a parsed resume is schedulable. -/
theorem scheduling_isolated_iff (u : Unicode) (db : Resumes.Database)
    (hadmitted : ∀ profile ∈ db.profiles, Admitted u profile) :
    SchedulingIsolated rt settings ctx db ↔
      settings.jobCollectionEnabled = false ∨
        ∀ profile ∈ schedulableProfiles db, Schedulable profile := by
  have htexts : ∀ profile ∈ schedulableProfiles db, ProfileText profile := fun profile hprofile =>
    (hadmitted profile (List.mem_of_mem_filter hprofile)).profileText
  rw [← profilesTargets_isOk_iff db htexts]
  cases henabled : settings.jobCollectionEnabled with
  | false => simp [SchedulingIsolated, scheduleDueCollections, henabled]
  | true =>
      simp only [Bool.true_eq_false, false_or]
      constructor
      · exact fun hisolated => hisolated.profilesTargets_isOk henabled
      · rintro ⟨dynamic, hdynamic⟩
        obtain ⟨unique, hunique⟩ := uniqueTargets_isOk rt settings dynamic
        obtain ⟨targets, hstated, rfl⟩ :=
          targetsOf_uniqueTargets (targetOf_profilesTargets htexts hdynamic) hunique
        refine ⟨_, _, (scheduleDueCollections_eq_ok_iff henabled).mpr
          ⟨dynamic, _, hdynamic, hunique, rfl⟩, fun _ => ⟨targets, hstated, ?_⟩⟩
        intro source hregistered hdue
        refine ⟨activeTargets settings ctx source (targetsOfSource rt targets source),
          handsOn_activeTargets, ?_⟩
        rw [foldl_scheduleSource_calls, List.nil_append, sourceCalls_eq hregistered hdue,
          List.forall₂_map_right_iff]
        exact List.forall₂_same.mpr fun target _ => enqueuedFor_enqueueCall target

/-- A profile with the given skills and nothing else. -/
def skilledProfile (skills : List String) : Resumes.CandidateProfile where
  fullName := none
  email := none
  phone := none
  location := none
  currentTitle := none
  professionalSummary := none
  yearsOfExperience := none
  extractedText := "resume"
  skills := skills
  employmentHistory := []
  education := []
  certifications := []
  languages := []
  rawParserOutput := "\x7b\x7d"
  resumeId := 1
  ownerProfileId := 7
  updatedAt := 0

/-- One parsed resume and its profile. -/
def oneProfile (skills : List String) : Resumes.Database where
  resumes :=
    [{ id := 1, ownerProfileId := 7, originalFilename := "resume.pdf", storageBucket := "resumes"
       storageObjectKey := "7/1.pdf", contentType := "application/pdf", sizeBytes := 1
       sha256 := "", status := .parsed, parserVersion := none, parseErrorCode := none
       version := 1, deletedAt := none, createdAt := 0 }]
  profiles := [skilledProfile skills]
  cleanups := []

/-- A short list of skills. -/
theorem scheduling_isolated_iff_short :
    SchedulingIsolated undatedRuntime enabledSettings openContext
      (oneProfile ["Python", "SQL"]) := by
  have hadmitted : ∀ profile ∈ (oneProfile ["Python", "SQL"]).profiles,
      Admitted .ascii profile := by
    intro profile hprofile
    rw [List.mem_singleton.mp hprofile]
    exact ⟨none, none, ["Python", "SQL"], by decide⟩
  refine (scheduling_isolated_iff undatedRuntime enabledSettings openContext .ascii _
    hadmitted).mpr (Or.inr fun profile hprofile => ?_)
  rw [List.mem_singleton.mp (List.mem_of_mem_filter hprofile)]
  exact ⟨by simp [skilledProfile], fun _ => by decide, by simp [skilledProfile]⟩

/-- A skill of equal letters. -/
def letters (n : Nat) (c : Char) : String :=
  String.ofList (List.replicate n c)

theorem shortText_letters {n : Nat} {c : Char} (hc : isWhiteSpace c = false)
    (hn : 1 ≤ n ∧ n ≤ 200) : shortText (letters n c) = some (letters n c) := by
  have hlength : (String.ofList (List.replicate n c)).length = n := by
    rw [String.length_ofList, List.length_replicate]
  rw [shortText, letters, String.toList_ofList, strip_replicate hc, if_pos (hlength.symm ▸ hn)]

theorem normalizeStringList_letters {n : Nat} {c d : Char} (hc : isSpace c = false)
    (hd : isSpace d = false) (hcd : d.toLower ≠ c.toLower) :
    normalizeStringList .ascii [letters (n + 1) c, letters (n + 1) d] =
      [letters (n + 1) c, letters (n + 1) d] := by
  have hnil : ∀ e : Char, List.replicate (n + 1) e ≠ [] := fun e => by
    rw [List.replicate_succ]
    exact List.cons_ne_nil _ _
  have hfold : ∀ e : Char, Unicode.ascii.casefold (List.replicate (n + 1) e) =
      List.replicate (n + 1) e.toLower := fun e => List.map_replicate
  have hkey : Unicode.ascii.casefold (List.replicate (n + 1) d) ∉
      [Unicode.ascii.casefold (List.replicate (n + 1) c)] := by
    rw [List.mem_singleton, hfold, hfold]
    exact fun heq => hcd (List.replicate_right_injective n.succ_ne_zero heq)
  rw [normalizeStringList, normalizeStrings, letters, String.toList_ofList, strip_replicate hc]
  dsimp only
  rw [if_neg (hnil c), if_neg (by simp), normalizeStrings, letters, String.toList_ofList,
    strip_replicate hd]
  dsimp only
  rw [if_neg (hnil d), if_neg (by simpa using hkey), normalizeStrings]

theorem admitted_letters :
    Admitted .ascii (skilledProfile [letters 100 'a', letters 100 'b']) := by
  refine ⟨none, none, [letters 100 'a', letters 100 'b'], ?_⟩
  have hlist : normalizeStringList .ascii [letters 100 'a', letters 100 'b'] =
      [letters 100 'a', letters 100 'b'] :=
    normalizeStringList_letters (by decide) (by decide) (by decide)
  have ha : shortText (letters 100 'a') = some (letters 100 'a') :=
    shortText_letters (by decide) (by decide)
  have hb : shortText (letters 100 'b') = some (letters 100 'b') :=
    shortText_letters (by decide) (by decide)
  simp [validateProfileText, hlist, ha, hb, skilledProfile]

theorem length_topSkills_letters :
    (topSkills (skilledProfile [letters 100 'a', letters 100 'b'])).length = 201 := by
  rw [topSkills, String.length_ofList]
  change ([' '].intercalate [(letters 100 'a').toList, (letters 100 'b').toList]).length = 201
  rw [List.intercalate_cons_cons, List.intercalate_singleton, letters, letters,
    String.toList_ofList, String.toList_ofList, List.length_append, List.length_append,
    List.length_replicate, List.length_replicate]
  rfl

/-- Two skills of a hundred letters are admitted, and do not fit into a query together. -/
theorem long_skills_end_scheduling :
    (∀ profile ∈ (oneProfile [letters 100 'a', letters 100 'b']).profiles,
      Admitted .ascii profile) ∧
      ¬SchedulingIsolated undatedRuntime enabledSettings openContext
        (oneProfile [letters 100 'a', letters 100 'b']) := by
  constructor
  · intro profile hprofile
    rw [List.mem_singleton.mp hprofile]
    exact admitted_letters
  · intro hisolated
    have hprofiles : schedulableProfiles (oneProfile [letters 100 'a', letters 100 'b']) =
        [skilledProfile [letters 100 'a', letters 100 'b']] := rfl
    have hschedulable : Schedulable (skilledProfile [letters 100 'a', letters 100 'b']) := by
      refine (profilesTargets_isOk_iff _ ?_).mp (hisolated.profilesTargets_isOk rfl) _ ?_
      · intro profile hprofile
        rw [hprofiles, List.mem_singleton] at hprofile
        rw [hprofile]
        exact admitted_letters.profileText
      · rw [hprofiles]
        exact List.mem_singleton_self _
    have hfits := hschedulable.skills (List.cons_ne_nil _ _)
    have hlength := length_topSkills_letters
    omega

end Collection
end HireAndTech
