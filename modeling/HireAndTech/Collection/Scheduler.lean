import HireAndTech.Collection.Targets
import HireAndTech.Resumes.Tables
import HireAndTech.Runs.Attempts

/-!
# The collection scheduler

`schedule_due_collections` turns the profiles of parsed resumes into targets, groups the
targets by source, claims the sources that are due and enqueues their targets.  A target that
cannot be enqueued is counted and left out; a target that cannot be built ends the call.

Redis and the collector registry answer as the environment decides.

Main results:

- Definition {lit}`scheduleDueCollections`: the call.
- Theorem {lit}`profileTargets_isOk_iff`: which profiles give targets.
- Theorem {lit}`profilesTargets_isOk_iff`: when all of them do.
-/

namespace HireAndTech
namespace Collection

open Catalogue Text

/-! ## The schema of stored profiles -/

/-- A character that the schema strips. -/
def isWhiteSpace (c : Char) : Bool :=
  isSpace c && !(28 ≤ c.val.toNat && c.val.toNat ≤ 31)

/-- `ShortText`. -/
def shortText (value : String) : Option String :=
  let stripped := String.ofList (strip isWhiteSpace value.toList)
  if 1 ≤ stripped.length ∧ stripped.length ≤ 200 then some stripped else none

/-- The loop of `_normalize_string_list`, after the keys that it has seen. -/
def normalizeStrings (u : Unicode) : List (List Char) → List String → List String
  | _, [] => []
  | seen, value :: values =>
      let cleaned := strip isSpace value.toList
      if cleaned = [] then normalizeStrings u seen values
      else
        let key := u.casefold cleaned
        if seen.contains key then normalizeStrings u seen values
        else String.ofList cleaned :: normalizeStrings u (key :: seen) values

/-- `_normalize_string_list`. -/
def normalizeStringList (u : Unicode) (values : List String) : List String :=
  normalizeStrings u [] values

/-- What the schema of parsed resumes makes of a title, a place and skills. -/
def validateProfileText (u : Unicode) (currentTitle location : Option String)
    (skills : List String) : Option (Option String × Option String × List String) := do
  let currentTitle ← currentTitle.mapM shortText
  let location ← location.mapM shortText
  let skills ← (normalizeStringList u skills).mapM shortText
  if skills.length ≤ 500 then return (currentTitle, location, skills) else none

/-- A profile that the schema admits. -/
def Admitted (u : Unicode) (profile : Resumes.CandidateProfile) : Prop :=
  ∃ currentTitle location skills, validateProfileText u currentTitle location skills =
    some (profile.currentTitle, profile.location, profile.skills)

/-! ## Dynamic targets -/

/-- `query_sources`. -/
def querySources : List JobSource :=
  [.dice, .linkedin, .glassdoor, .hiringcafe]

/-- One target of each source. -/
def sourceTargets (query : String) (location : Option String) :
    Except ValidationError (List CollectionTarget) :=
  querySources.mapM fun source => CollectionTarget.validate source query location true 100

/-- `profile.location or "United States"`. -/
def locationOf (profile : Resumes.CandidateProfile) : Option String :=
  if truthy profile.location then profile.location else some "United States"

/-- `" ".join(profile.skills[:3])`. -/
def topSkills (profile : Resumes.CandidateProfile) : String :=
  String.ofList ([' '].intercalate ((profile.skills.take 3).map String.toList))

/-- The targets of the current title. -/
def titleTargets (profile : Resumes.CandidateProfile) :
    Except ValidationError (List CollectionTarget) :=
  match profile.currentTitle with
  | some title => if title ≠ "" then sourceTargets title (locationOf profile) else .ok []
  | none => .ok []

/-- The targets of the top skills. -/
def skillTargets (profile : Resumes.CandidateProfile) :
    Except ValidationError (List CollectionTarget) :=
  if profile.skills ≠ [] ∧ topSkills profile ≠ "" then
    sourceTargets (topSkills profile) (locationOf profile)
  else .ok []

/-- The targets of one profile. -/
def profileTargets (profile : Resumes.CandidateProfile) :
    Except ValidationError (List CollectionTarget) := do
  let byTitle ← titleTargets profile
  let bySkills ← skillTargets profile
  return byTitle ++ bySkills

/-- The profiles of parsed resumes that are not deleted. -/
def schedulableProfiles (db : Resumes.Database) : List Resumes.CandidateProfile :=
  db.profiles.filter fun profile => db.resumes.any fun resume =>
    resume.id = profile.resumeId && resume.deletedAt.isNone && resume.status = .parsed

/-- The targets of all profiles. -/
def profilesTargets (db : Resumes.Database) : Except ValidationError (List CollectionTarget) := do
  let targets ← (schedulableProfiles db).mapM profileTargets
  return targets.flatten

/-! ## Grouping -/

variable (rt : Runtime) (settings : CollectionSettings)

/-- `setdefault` under the identity of a target. -/
def setDefault (targets : List CollectionTarget) (target : CollectionTarget) :
    List CollectionTarget :=
  if targets.any fun other => other.identity rt = target.identity rt then targets
  else targets ++ [target]

/-- `enabled_targets`. -/
def enabledTargets : List CollectionTarget :=
  (settings.jobCollectionTargets.filter (·.enabled)).foldl (setDefault rt) []

/-- `dynamic_targets`: those of the profiles, or the configured ones without a database. -/
def dynamicTargets (database : Option Resumes.Database) :
    Except ValidationError (List CollectionTarget) :=
  match database with
  | some db => profilesTargets db
  | none => .ok (enabledTargets rt settings)

/-- The targets when nothing else is configured. -/
def softwareEngineer : Except ValidationError (List CollectionTarget) :=
  sourceTargets "software engineer" (some "United States")

/-- `unique_targets`. -/
def uniqueTargets (dynamic : List CollectionTarget) :
    Except ValidationError (List CollectionTarget) := do
  let unique := (dynamic.filter (·.enabled)).foldl (setDefault rt) []
  if unique ≠ [] then return unique
  else if enabledTargets rt settings ≠ [] then
    return (enabledTargets rt settings).foldl (setDefault rt) []
  else
    let targets ← softwareEngineer
    return targets.foldl (setDefault rt) []

/-- Append a target to the group of its source, up to 100. -/
def addToGroup (groups : List (JobSource × List CollectionTarget)) (target : CollectionTarget) :
    List (JobSource × List CollectionTarget) :=
  match groups with
  | [] => [(target.source, [target])]
  | (source, targets) :: groups =>
      if source = target.source then
        (source, if targets.length < 100 then targets ++ [target] else targets) :: groups
      else (source, targets) :: addToGroup groups target

/-- `grouped`. -/
def grouped (targets : List CollectionTarget) : List (JobSource × List CollectionTarget) :=
  targets.foldl addToGroup []

/-! ## Enqueueing -/

/-- What happens to one job that is handed to the queue. -/
inductive EnqueueOutcome
  | job
  | duplicate
  | raises
deriving DecidableEq, Repr

/-- One call of `enqueue_job`. -/
structure EnqueueCall where
  source : String
  query : String
  location : Option String
  maxJobs : Nat
  jobId : String
  queueName : String
deriving DecidableEq, Repr

/-- The clock, the registry and Redis.  A read of the query offset that raises, or whose value
is no number, is an error. -/
structure SchedulerContext where
  now : Time
  isRegistered : JobSource → Bool
  claim : String → Nat → Bool
  queryOffset : String → Except String (Option Int)
  saveRaises : Bool
  enqueue : EnqueueCall → EnqueueOutcome

/-- Every source is registered and due, and every job is queued. -/
def openContext : SchedulerContext where
  now := 0
  isRegistered _ := true
  claim _ _ := true
  queryOffset _ := .ok none
  saveRaises := false
  enqueue _ := .job

variable (ctx : SchedulerContext)

/-- `source_interval_minutes`. -/
def sourceIntervalMinutes : JobSource → Nat
  | .dice => settings.diceCollectionIntervalMinutes
  | .linkedin => settings.linkedinCollectionIntervalMinutes
  | .glassdoor => settings.glassdoorCollectionIntervalMinutes
  | .hiringcafe => settings.hiringcafeCollectionIntervalMinutes

/-- `interval_seconds`. -/
def intervalSeconds (source : JobSource) : Nat :=
  sourceIntervalMinutes settings source * 60

/-- The source is due: the claim of its key succeeds. -/
def isDue (source : JobSource) : Bool :=
  ctx.claim (settings.jobCollectionRedisNamespace ++ ":scheduler:" ++ source.value)
    (intervalSeconds settings source)

/-- `start_idx` of `_rotate_queries`. -/
def startIdx (offsetKey : String) (length : Nat) : Nat :=
  match ctx.queryOffset offsetKey with
  | .error _ => 0
  | .ok stored => if ctx.saveRaises then 0 else (stored.getD 0 % length).toNat

/-- `_rotate_queries`. -/
def rotateQueries (sourceName : String) (targets : List CollectionTarget) (batchSize : Nat)
    (namespace_ : String) : List CollectionTarget :=
  if targets = [] ∨ targets.length ≤ batchSize then targets
  else
    let start := startIdx ctx (namespace_ ++ ":query_offset:" ++ sourceName) targets.length
    (List.range batchSize).filterMap fun i => targets[(start + i) % targets.length]?

/-- `active_targets`. -/
def activeTargets (source : JobSource) (targets : List CollectionTarget) : List CollectionTarget :=
  if source = .glassdoor ∧ 0 < settings.glassdoorCollectionBatchSize then
    rotateQueries ctx source.value targets settings.glassdoorCollectionBatchSize
      settings.jobCollectionRedisNamespace
  else targets

/-- The job of a target. -/
def enqueueCall (source : JobSource) (target : CollectionTarget) : EnqueueCall where
  source := target.source.value
  query := target.query
  location := target.location
  maxJobs := min target.maxJobs settings.jobCollectionMaxJobsPerTarget
  jobId := "collection:" ++ target.identity rt ++ ":" ++
    toString (ctx.now / 1000000 / intervalSeconds settings source)
  queueName := settings.jobCollectionQueueName

/-- The counts of a call. -/
structure ScheduleReport where
  status : String
  enqueued : Nat
  failed : Nat
  unavailable : Nat
deriving DecidableEq, Repr

/-- The count of one job, after it has been handed to the queue. -/
def ScheduleReport.record (report : ScheduleReport) (outcome : EnqueueOutcome) : ScheduleReport :=
  match outcome with
  | .job => { report with enqueued := report.enqueued + 1 }
  | .duplicate => report
  | .raises => { report with failed := report.failed + 1 }

/-- The body of the loop over the sources. -/
def scheduleSource (state : ScheduleReport × List EnqueueCall)
    (group : JobSource × List CollectionTarget) : ScheduleReport × List EnqueueCall :=
  let (report, calls) := state
  let (source, targets) := group
  if !ctx.isRegistered source then
    ({ report with unavailable := report.unavailable + targets.length }, calls)
  else if !isDue settings ctx source then state
  else
    let jobs := (activeTargets settings ctx source targets).map (enqueueCall rt settings ctx source)
    (jobs.foldl (fun report job => report.record (ctx.enqueue job)) report, calls ++ jobs)

/-- `schedule_due_collections`, with the jobs that it hands to the queue. -/
def scheduleDueCollections (database : Option Resumes.Database) :
    Except ValidationError (ScheduleReport × List EnqueueCall) :=
  if !settings.jobCollectionEnabled then .ok (⟨"disabled", 0, 0, 0⟩, [])
  else do
    let dynamic ← dynamicTargets rt settings database
    let unique ← uniqueTargets rt settings dynamic
    return (grouped unique).foldl (scheduleSource rt settings ctx) (⟨"completed", 0, 0, 0⟩, [])

/-! ## The profiles that give targets -/

section

variable {u : Unicode} {profile : Resumes.CandidateProfile} {value text : String}

theorem shortText_eq_some (h : shortText value = some text) :
    text = String.ofList (strip isWhiteSpace value.toList) ∧ 1 ≤ text.length ∧
      text.length ≤ 200 := by
  unfold shortText at h
  dsimp only at h
  split at h
  · rename_i hbounds
    cases h
    exact ⟨rfl, hbounds⟩
  · contradiction

/-- A character that Python does not take for a space stays in a stripped text. -/
theorem hasText_shortText (h : shortText value = some text) (hvalue : hasText (some value) = true) :
    hasText (some text) = true := by
  simp only [hasText, Option.any_some, List.any_eq_true, Bool.not_eq_true'] at hvalue ⊢
  obtain ⟨c, hc, hspace⟩ := hvalue
  have hwhite : isWhiteSpace c = false := by
    rw [isWhiteSpace, hspace, Bool.false_and]
  refine ⟨c, ?_, hspace⟩
  rw [(shortText_eq_some h).1, String.toList_ofList]
  exact mem_strip hc hwhite

/-- The normalized strings have text. -/
theorem hasText_normalizeStrings (values : List String) (seen : List (List Char)) :
    ∀ value ∈ normalizeStrings u seen values, hasText (some value) = true := by
  induction values generalizing seen with
  | nil => simp [normalizeStrings]
  | cons first values ih =>
      intro value hvalue
      unfold normalizeStrings at hvalue
      dsimp only at hvalue
      split at hvalue
      · exact ih seen value hvalue
      · rename_i hcleaned
        split at hvalue
        · exact ih seen value hvalue
        · rcases List.mem_cons.mp hvalue with rfl | hvalue
          · obtain ⟨c, hc, hspace⟩ := exists_of_strip_ne_nil hcleaned
            simp only [hasText, Option.any_some, List.any_eq_true, Bool.not_eq_true',
              String.toList_ofList]
            exact ⟨c, hc, hspace⟩
          · exact ih _ value hvalue

theorem mem_of_mapM_some {α β : Type} {f : α → Option β} {xs : List α} {ys : List β}
    (h : xs.mapM f = some ys) {y : β} (hy : y ∈ ys) : ∃ x ∈ xs, f x = some y := by
  induction xs generalizing ys with
  | nil =>
      cases h
      contradiction
  | cons x xs ih =>
      rw [List.mapM_cons] at h
      obtain ⟨first, hfirst, h⟩ := Option.bind_eq_some_iff.mp h
      obtain ⟨rest, hrest, h⟩ := Option.bind_eq_some_iff.mp h
      cases h
      rcases List.mem_cons.mp hy with rfl | hy
      · exact ⟨x, List.mem_cons_self, hfirst⟩
      · obtain ⟨z, hz, hzy⟩ := ih hrest hy
        exact ⟨z, List.mem_cons_of_mem x hz, hzy⟩

theorem bounds_of_mapM {value : Option String} (h : value.mapM shortText = some (some text)) :
    1 ≤ text.length ∧ text.length ≤ 200 := by
  cases value with
  | none => cases h
  | some raw =>
      rw [Option.mapM_some, Option.map_eq_map] at h
      obtain ⟨found, hfound, heq⟩ := Option.map_eq_some_iff.mp h
      cases heq
      exact (shortText_eq_some hfound).2

/-- What the schema says of the texts of a profile. -/
structure ProfileText (profile : Resumes.CandidateProfile) : Prop where
  title : ∀ title, profile.currentTitle = some title → 1 ≤ title.length ∧ title.length ≤ 200
  location : ∀ location, profile.location = some location →
    1 ≤ location.length ∧ location.length ≤ 200
  skills : ∀ skill ∈ profile.skills, hasText (some skill) = true

theorem Admitted.profileText (h : Admitted u profile) : ProfileText profile := by
  obtain ⟨currentTitle, location, skills, h⟩ := h
  obtain ⟨title, htitle, h⟩ := Option.bind_eq_some_iff.mp h
  obtain ⟨place, hplace, h⟩ := Option.bind_eq_some_iff.mp h
  obtain ⟨names, hnames, h⟩ := Option.bind_eq_some_iff.mp h
  split at h
  · simp only [pure, Option.some.injEq, Prod.mk.injEq] at h
    obtain ⟨hTitle, hLocation, hSkills⟩ := h
    constructor
    · intro text htext
      rw [hTitle, htext] at htitle
      exact bounds_of_mapM htitle
    · intro text htext
      rw [hLocation, htext] at hplace
      exact bounds_of_mapM hplace
    · intro skill hskill
      rw [← hSkills] at hskill
      obtain ⟨raw, hraw, hshort⟩ := mem_of_mapM_some hnames hskill
      exact hasText_shortText hshort (hasText_normalizeStrings skills [] raw hraw)
  · contradiction

theorem sourceTargets_isOk_iff {query : String} {location : Option String} :
    (∃ targets, sourceTargets query location = .ok targets) ↔
      CollectionTarget.Accepts query ∧
        ∀ text, location = some text → CollectionTarget.Accepts text := by
  rw [sourceTargets, Runs.mapM_isOk_iff]
  constructor
  · intro h
    exact CollectionTarget.validate_isOk_iff.mp (h .dice List.mem_cons_self)
  · intro h source _
    exact CollectionTarget.validate_isOk_iff.mpr h

/-- The place of an admitted profile, or the default one. -/
theorem locationOf_eq (h : ProfileText profile) :
    locationOf profile = some (profile.location.getD "United States") := by
  cases hlocation : profile.location with
  | none =>
      rw [locationOf, hlocation]
      rfl
  | some location =>
      have hne : location ≠ "" := by
        intro hempty
        have hmin := (h.location location hlocation).1
        rw [hempty] at hmin
        contradiction
      rw [locationOf, hlocation, truthy, Option.any_some, if_pos (decide_eq_true hne),
        Option.getD_some]

/-- The place of a profile is accepted when it has text. -/
theorem accepts_locationOf (h : ProfileText profile) :
    (∀ text, locationOf profile = some text → CollectionTarget.Accepts text) ↔
      ∀ location, profile.location = some location → hasText (some location) = true := by
  rw [locationOf_eq h]
  simp only [Option.some.injEq, forall_eq']
  cases hlocation : profile.location with
  | none =>
      simp only [Option.getD_none, reduceCtorEq, false_implies, implies_true, iff_true]
      exact ⟨by decide, by decide⟩
  | some location =>
      simp only [Option.getD_some, Option.some.injEq, forall_eq']
      exact and_iff_right (h.location location hlocation).2

/-- The skills of a profile, when it has some, are a text. -/
theorem hasText_topSkills (h : ProfileText profile) (hskills : profile.skills ≠ []) :
    hasText (some (topSkills profile)) = true := by
  cases hcases : profile.skills with
  | nil => exact absurd hcases hskills
  | cons skill rest =>
      have htext : hasText (some skill) = true := h.skills skill (hcases ▸ List.mem_cons_self)
      simp only [hasText, Option.any_some, List.any_eq_true, Bool.not_eq_true'] at htext ⊢
      obtain ⟨c, hc, hspace⟩ := htext
      refine ⟨c, ?_, hspace⟩
      rw [topSkills, hcases, String.toList_ofList, List.take_succ_cons, List.map_cons]
      cases hrest : (rest.take 2).map String.toList with
      | nil => simpa using hc
      | cons next more =>
          rw [List.intercalate_cons_cons]
          exact List.mem_append_left _ (List.mem_append_left _ hc)

/-- The profile gives targets: the three skills fit into a query together, and the texts that
it uses have a character that Python does not take for a space. -/
structure Schedulable (profile : Resumes.CandidateProfile) : Prop where
  title : ∀ title, profile.currentTitle = some title → hasText (some title) = true
  skills : profile.skills ≠ [] → (topSkills profile).length ≤ 200
  location : profile.currentTitle.isSome ∨ profile.skills ≠ [] →
    ∀ location, profile.location = some location → hasText (some location) = true

theorem titleTargets_isOk_iff (h : ProfileText profile) :
    (∃ targets, titleTargets profile = .ok targets) ↔
      (∀ title, profile.currentTitle = some title → hasText (some title) = true) ∧
        (profile.currentTitle.isSome → ∀ location, profile.location = some location →
          hasText (some location) = true) := by
  unfold titleTargets
  cases hcases : profile.currentTitle with
  | none => simp
  | some title =>
      obtain ⟨hmin, hmax⟩ := h.title title hcases
      have hne : title ≠ "" := by
        intro hempty
        rw [hempty] at hmin
        contradiction
      simp only [hne, ne_eq, not_false_eq_true, if_true, sourceTargets_isOk_iff,
        accepts_locationOf h, Option.isSome_some, true_implies, Option.some.injEq, forall_eq']
      exact and_congr_left fun _ => and_iff_right hmax

theorem skillTargets_isOk_iff (h : ProfileText profile) :
    (∃ targets, skillTargets profile = .ok targets) ↔
      (profile.skills ≠ [] → (topSkills profile).length ≤ 200) ∧
        (profile.skills ≠ [] → ∀ location, profile.location = some location →
          hasText (some location) = true) := by
  unfold skillTargets
  by_cases hnone : profile.skills = []
  · simp [hnone]
  · have htext := hasText_topSkills h hnone
    have hne : topSkills profile ≠ "" := by
      intro hempty
      rw [hempty] at htext
      contradiction
    rw [if_pos ⟨hnone, hne⟩, sourceTargets_isOk_iff, accepts_locationOf h]
    simp only [hnone, ne_eq, not_false_eq_true, true_implies]
    exact and_congr_left fun _ => and_iff_left htext

/-- A profile that the schema admits gives targets exactly when it is schedulable. -/
theorem profileTargets_isOk_iff (h : ProfileText profile) :
    (∃ targets, profileTargets profile = .ok targets) ↔ Schedulable profile := by
  have hparts : (∃ targets, profileTargets profile = .ok targets) ↔
      (∃ targets, titleTargets profile = .ok targets) ∧
        ∃ targets, skillTargets profile = .ok targets := by
    unfold profileTargets
    cases titleTargets profile with
    | error e => simp [bind, Except.bind]
    | ok byTitle =>
        cases skillTargets profile with
        | error e => simp [bind, Except.bind]
        | ok bySkills => simp [bind, Except.bind, pure, Except.pure]
  rw [hparts, titleTargets_isOk_iff h, skillTargets_isOk_iff h]
  constructor
  · rintro ⟨⟨htitle, hplace⟩, hskills, hplace'⟩
    exact ⟨htitle, hskills, fun huses => huses.elim hplace hplace'⟩
  · intro hschedulable
    exact ⟨⟨hschedulable.title, fun huses => hschedulable.location (Or.inl huses)⟩,
      hschedulable.skills, fun huses => hschedulable.location (Or.inr huses)⟩

/-- The targets of all profiles can be built exactly when those of each can. -/
theorem profilesTargets_isOk_iff (db : Resumes.Database)
    (h : ∀ profile ∈ schedulableProfiles db, ProfileText profile) :
    (∃ targets, profilesTargets db = .ok targets) ↔
      ∀ profile ∈ schedulableProfiles db, Schedulable profile := by
  have hmapM : (∃ targets, profilesTargets db = .ok targets) ↔
      ∃ targets, (schedulableProfiles db).mapM profileTargets = .ok targets := by
    unfold profilesTargets
    cases (schedulableProfiles db).mapM profileTargets with
    | error e => simp [bind, Except.bind]
    | ok targets => simp [bind, Except.bind, pure, Except.pure]
  rw [hmapM, Runs.mapM_isOk_iff]
  exact forall₂_congr fun profile hprofile => profileTargets_isOk_iff (h profile hprofile)

end

/-! ## The whole call -/

section

/-- The last resort can be built. -/
theorem softwareEngineer_isOk : ∃ targets, softwareEngineer = .ok targets := by
  refine sourceTargets_isOk_iff.mpr ⟨⟨by decide, by decide⟩, fun text htext => ?_⟩
  cases htext
  exact ⟨by decide, by decide⟩

theorem uniqueTargets_isOk (rt : Runtime) (settings : CollectionSettings)
    (dynamic : List CollectionTarget) :
    ∃ targets, uniqueTargets rt settings dynamic = .ok targets := by
  unfold uniqueTargets
  dsimp only
  split
  · exact ⟨_, rfl⟩
  · split
    · exact ⟨_, rfl⟩
    · obtain ⟨targets, htargets⟩ := softwareEngineer_isOk
      rw [htargets]
      exact ⟨_, rfl⟩

end

end Collection
end HireAndTech
