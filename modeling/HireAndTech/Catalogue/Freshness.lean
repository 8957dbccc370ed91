import HireAndTech.Catalogue.Graph

/-!
# Deactivation of stale listings

The cron task that deactivates the observations of every source which have not been seen
for a while.  It reads the clock twice, runs one transaction for each source, and goes on
when a transaction raises.

A source is taken to be healthy when its newest observation has been seen since the start
of the safety window, and its stale observations are those last seen before the stale
threshold.  No validator relates the two windows.

Main results:

- Definition {lit}`deactivateStaleJobsCron`: the task.
- Theorem {lit}`mem_cron`: which observations stay active.
- Theorem {lit}`fresh_evidence_iff`: when a deactivation rests on an observation that has
  been seen since the stale threshold.
- Theorem {lit}`no_gap_of_windows`: a safety window within the stale window leaves no gap.
-/

namespace HireAndTech
namespace Catalogue

open Relational

/-! ## The task -/

/-- Supported global job providers. -/
inductive JobSource
  | dice
  | linkedin
  | glassdoor
  | hiringcafe
deriving DecidableEq, Repr

/-- `JobSource.value`. -/
def JobSource.value : JobSource → String
  | .dice => "dice"
  | .linkedin => "linkedin"
  | .glassdoor => "glassdoor"
  | .hiringcafe => "hiringcafe"

/-- The members of `JobSource` in their order. -/
def JobSource.all : List JobSource :=
  [.dice, .linkedin, .glassdoor, .hiringcafe]

/-- The settings of the task, within the bounds that the validators accept. -/
structure FreshnessSettings where
  jobStaleAfterHours : Nat := 48
  jobStaleSafetyHours : Nat := 12
  afterBounds : 1 ≤ jobStaleAfterHours ∧ jobStaleAfterHours ≤ 720 := by decide
  safetyBounds : 1 ≤ jobStaleSafetyHours ∧ jobStaleSafetyHours ≤ 168 := by decide

/-- `timedelta(hours=…)`. -/
def hours (n : Nat) : Time :=
  n * 3600 * 1000000

/-- The stale threshold of a run that reads the clock at {lit}`now`. -/
def FreshnessSettings.staleThreshold (settings : FreshnessSettings) (now : Time) : Time :=
  now - hours settings.jobStaleAfterHours

/-- The start of the safety window. -/
def FreshnessSettings.safetyWindowStart (settings : FreshnessSettings) (now : Time) : Time :=
  now - hours settings.jobStaleSafetyHours

/-- The transaction of the task for one source. -/
def deactivateSource (staleThreshold safetyWindowStart : Time) (raises : JobSource → Bool)
    (state : Database × List (JobSource × Nat)) (source : JobSource) :
    Database × List (JobSource × Nat) :=
  if raises source then state
  else
    let (c, count) :=
      deactivateStaleSources state.1 source.value staleThreshold safetyWindowStart
    (c, state.2 ++ [(source, count)])

/-- `deactivate_stale_jobs_cron`; {lit}`raises` says for which sources the transaction
raises. -/
def deactivateStaleJobsCron (settings : FreshnessSettings) (now now' : Time)
    (raises : JobSource → Bool) (c : Database) : Database × List (JobSource × Nat) :=
  JobSource.all.foldl
    (deactivateSource (settings.staleThreshold now) (settings.safetyWindowStart now') raises)
    (c, [])

/-! ## What one transaction does -/

section

variable {c : Database} {staleThreshold safetyWindowStart : Time} {raises : JobSource → Bool}

/-- The newest observation of the source lies in the safety window. -/
def isHealthy (c : Database) (source : String) (safetyWindowStart : Time) : Bool :=
  (maxLastSeen c source).any (safetyWindowStart ≤ ·)

theorem deactivateStaleSources_observations (source : String) :
    (deactivateStaleSources c source staleThreshold safetyWindowStart).1.observations =
      if isHealthy c source safetyWindowStart then
        updateWhere (isStale source staleThreshold) (fun o => { o with isActive := false })
          c.observations
      else c.observations := by
  unfold deactivateStaleSources isHealthy
  cases maxLastSeen c source with
  | none => rfl
  | some newest =>
      by_cases h : newest < safetyWindowStart
      · have hnot : ¬safetyWindowStart ≤ newest := not_le.mpr h
        simp [h, hnot]
      · have hle : safetyWindowStart ≤ newest := not_lt.mp h
        simp only [h, if_false, Option.any_some, hle, decide_true, if_true]
        split <;> rfl

/-- A deactivation leaves sources and times alone. -/
theorem deactivateStaleSources_seen (source : String) :
    (deactivateStaleSources c source staleThreshold safetyWindowStart).1.observations.map
        (fun o => (o.source, o.lastSeenAt)) =
      c.observations.map fun o => (o.source, o.lastSeenAt) := by
  rw [deactivateStaleSources_observations]
  split
  · exact map_updateWhere fun _ _ _ => rfl
  · rfl

theorem maxLastSeen_eq (source : String) :
    maxLastSeen c source =
      (((c.observations.map fun o => (o.source, o.lastSeenAt)).filter (·.1 = source)).map
        (·.2)).max? := by
  simp [maxLastSeen, List.filter_map, Function.comp_def]

theorem isHealthy_congr {c' : Database} {source : String}
    (h : c'.observations.map (fun o => (o.source, o.lastSeenAt)) =
      c.observations.map fun o => (o.source, o.lastSeenAt)) :
    isHealthy c' source safetyWindowStart = isHealthy c source safetyWindowStart := by
  rw [isHealthy, isHealthy, maxLastSeen_eq, maxLastSeen_eq, h]

/-- The observation is stale and its source is healthy. -/
def isDeactivated (c : Database) (staleThreshold safetyWindowStart : Time) (source : JobSource)
    (o : JobSourceObservation) : Bool :=
  isHealthy c source.value safetyWindowStart && isStale source.value staleThreshold o

/-- An active observation stays as it is exactly when it is not deactivated. -/
theorem mem_deactivateStaleSources {source : JobSource} {o : JobSourceObservation}
    (ho : o.isActive = true) :
    o ∈ (deactivateStaleSources c source.value staleThreshold safetyWindowStart).1.observations ↔
      o ∈ c.observations ∧
        isDeactivated c staleThreshold safetyWindowStart source o = false := by
  rw [deactivateStaleSources_observations, isDeactivated]
  cases hhealthy : isHealthy c source.value safetyWindowStart with
  | false => simp
  | true =>
      rw [if_pos rfl, mem_updateWhere, Bool.true_and]
      constructor
      · rintro ⟨x, hx, rfl⟩
        by_cases hstale : isStale source.value staleThreshold x = true
        · simp [hstale] at ho
        · rw [if_neg hstale]
          exact ⟨hx, by simpa using hstale⟩
      · rintro ⟨ho, hstale⟩
        exact ⟨o, ho, by simp [hstale]⟩

/-- The active observations after the transactions of several sources. -/
theorem mem_cron {o : JobSourceObservation} (ho : o.isActive = true) (sources : List JobSource)
    (state : Database × List (JobSource × Nat)) :
    o ∈ (sources.foldl (deactivateSource staleThreshold safetyWindowStart raises)
        state).1.observations ↔
      o ∈ state.1.observations ∧ ∀ source ∈ sources, raises source = false →
        isDeactivated state.1 staleThreshold safetyWindowStart source o = false := by
  induction sources generalizing state with
  | nil => simp
  | cons source sources ih =>
      rw [List.foldl_cons, ih, deactivateSource, List.forall_mem_cons]
      cases hraises : raises source with
      | true => simp
      | false =>
          simp only [Bool.false_eq_true, if_false, true_implies, mem_deactivateStaleSources ho]
          rw [and_assoc]
          refine and_congr_right fun _ => and_congr_right fun _ => ?_
          apply forall₃_congr
          intro other _ _
          rw [isDeactivated, isDeactivated, isHealthy_congr (deactivateStaleSources_seen _)]

/-! ## Evidence -/

/-- An active observation of {lit}`c` is no longer active in {lit}`c'`. -/
def Deactivated (c c' : Database) (o : JobSourceObservation) : Prop :=
  o ∈ c.observations ∧ o.isActive = true ∧ o ∉ c'.observations

/-- The newest observation of the source has been seen since the start of the safety window
but not since the stale threshold, and the source has an active observation. -/
def NewestInGap (c : Database) (source : String) (staleThreshold safetyWindowStart : Time) :
    Prop :=
  ∃ newest, maxLastSeen c source = some newest ∧ safetyWindowStart ≤ newest ∧
    newest < staleThreshold ∧ ∃ o ∈ c.observations, o.source = source ∧ o.isActive = true

theorem maxLastSeen_eq_some {source : String} {newest : Time} :
    maxLastSeen c source = some newest ↔
      (∃ o ∈ c.observations, o.source = source ∧ o.lastSeenAt = newest) ∧
        ∀ o ∈ c.observations, o.source = source → o.lastSeenAt ≤ newest := by
  rw [maxLastSeen, List.max?_eq_some_iff]
  simp only [List.mem_map, List.mem_filter, decide_eq_true_eq]
  constructor
  · rintro ⟨⟨o, ⟨ho, hsource⟩, hseen⟩, hbound⟩
    exact ⟨⟨o, ho, hsource, hseen⟩, fun x hx hxs => hbound _ ⟨x, ⟨hx, hxs⟩, rfl⟩⟩
  · rintro ⟨⟨o, ho, hsource, hseen⟩, hbound⟩
    refine ⟨⟨o, ⟨ho, hsource⟩, hseen⟩, ?_⟩
    rintro _ ⟨x, ⟨hx, hxs⟩, rfl⟩
    exact hbound x hx hxs

theorem JobSource.mem_all (source : JobSource) : source ∈ JobSource.all := by
  cases source <;> decide

/-- The transactions of all sources deactivate on fresh evidence exactly when no handled
source has its newest observation in the gap. -/
theorem deactivated_iff (staleThreshold safetyWindowStart : Time) (raises : JobSource → Bool)
    (c : Database) :
    (∀ o, Deactivated c (JobSource.all.foldl
        (deactivateSource staleThreshold safetyWindowStart raises) (c, [])).1 o →
      ∃ x ∈ c.observations, x.source = o.source ∧ staleThreshold ≤ x.lastSeenAt) ↔
    ∀ source, raises source = false →
      ¬NewestInGap c source.value staleThreshold safetyWindowStart := by
  constructor
  · rintro hevidence source hraises ⟨newest, hnewest, hstart, hgap, o, ho, hsource, hactive⟩
    have hbound := (maxLastSeen_eq_some.mp hnewest).2
    have hdeactivated : isDeactivated c staleThreshold safetyWindowStart source o = true := by
      have hstale : o.lastSeenAt < staleThreshold :=
        lt_of_le_of_lt (hbound o ho hsource) hgap
      simp [isDeactivated, isHealthy, isStale, hnewest, hstart, hsource, hactive, hstale]
    have hgone : Deactivated c (JobSource.all.foldl
        (deactivateSource staleThreshold safetyWindowStart raises) (c, [])).1 o := by
      refine ⟨ho, hactive, fun hmem => ?_⟩
      have hkept := ((mem_cron hactive _ _).mp hmem).2 source source.mem_all hraises
      simp [hdeactivated] at hkept
    obtain ⟨x, hx, hxsource, hfresh⟩ := hevidence o hgone
    exact absurd (hfresh.trans (hbound x hx (hxsource.trans hsource))) (not_le.mpr hgap)
  · rintro hgap o ⟨ho, hactive, hgone⟩
    have hsome : ∃ source, raises source = false ∧
        isDeactivated c staleThreshold safetyWindowStart source o = true := by
      by_contra hnone
      push Not at hnone
      refine hgone ((mem_cron hactive _ _).mpr ⟨ho, fun source _ hraises => ?_⟩)
      simpa using hnone source hraises
    obtain ⟨source, hraises, hdeactivated⟩ := hsome
    simp only [isDeactivated, isHealthy, isStale, Bool.and_eq_true, decide_eq_true_eq,
      Option.any_eq_true] at hdeactivated
    obtain ⟨⟨newest, hnewest, hstart⟩, ⟨hsource, _⟩, _⟩ := hdeactivated
    obtain ⟨⟨x, hx, hxsource, hseen⟩, _⟩ := maxLastSeen_eq_some.mp hnewest
    refine ⟨x, hx, hxsource.trans hsource.symm, ?_⟩
    by_contra hlate
    exact hgap source hraises
      ⟨newest, hnewest, hstart, hseen ▸ not_le.mp hlate, o, ho, hsource, hactive⟩

/-- A safety window within the stale window leaves no gap. -/
theorem no_gap_of_windows {settings : FreshnessSettings} {now now' : Time} {source : String}
    (hclock : now ≤ now') (h : settings.jobStaleSafetyHours ≤ settings.jobStaleAfterHours) :
    ¬NewestInGap c source (settings.staleThreshold now) (settings.safetyWindowStart now') := by
  rintro ⟨newest, _, hstart, hgap, _⟩
  have hhours : hours settings.jobStaleSafetyHours ≤ hours settings.jobStaleAfterHours := by
    unfold hours
    gcongr
  have hwindows : settings.staleThreshold now ≤ settings.safetyWindowStart now' :=
    tsub_le_tsub hclock hhours
  exact absurd (hwindows.trans hstart) (not_le.mpr hgap)

/-- Every deactivation of a run rests on an observation of the same source that has been seen
since the stale threshold, exactly when no source that the run handles has its newest
observation in the gap between the safety window and the stale threshold. -/
theorem fresh_evidence_iff (settings : FreshnessSettings) (now now' : Time)
    (raises : JobSource → Bool) (c : Database) :
    ((∀ o, Deactivated c (deactivateStaleJobsCron settings now now' raises c).1 o →
      ∃ x ∈ c.observations, x.source = o.source ∧ settings.staleThreshold now ≤ x.lastSeenAt) ↔
    ∀ source, raises source = false →
      ¬NewestInGap c source.value (settings.staleThreshold now)
        (settings.safetyWindowStart now')) ∧
    (now ≤ now' → settings.jobStaleSafetyHours ≤ settings.jobStaleAfterHours →
      ∀ source, ¬NewestInGap c source (settings.staleThreshold now)
        (settings.safetyWindowStart now')) :=
  ⟨deactivated_iff (settings.staleThreshold now) (settings.safetyWindowStart now') raises c,
    fun hclock h _ => no_gap_of_windows hclock h⟩

end

/-- A source whose only observation was last seen two hours ago. -/
def quietSource (now : Time) : Database where
  companies := []
  jobs :=
    [{ id := 1
       companyId := none
       title := "Backend Engineer"
       normalizedTitle := "backend engineer"
       description := none
       location := none
       normalizedLocation := none
       employmentType := none
       remoteType := none
       skills := []
       experienceMinYears := none
       experienceMaxYears := none
       experienceText := none
       roleFamily := "backend"
       salaryMin := none
       salaryMax := none
       salaryCurrency := none
       salaryText := none
       salaryPeriod := none
       postedAt := none
       sourceUpdatedAt := none
       firstSeenAt := now - hours 2
       lastSeenAt := now - hours 2
       isActive := true
       canonicalHash := "8cbb21ad" }]
  observations :=
    [{ id := 2
       jobId := 1
       source := "dice"
       sourceJobId := "a1"
       sourceUrl := none
       sourcePostedAt := none
       sourceUpdatedAt := none
       firstSeenAt := now - hours 2
       lastSeenAt := now - hours 2
       scrapedAt := now - hours 2
       contentHash := "e3b0c442"
       isActive := true
       rawData := [] }]

/-- With a stale window of one hour and a safety window of a week, an outage of two hours
deactivates every listing of the source. -/
theorem outage_deactivates :
    ¬∀ o, Deactivated (quietSource (hours 1000))
        (deactivateStaleJobsCron ⟨1, 168, by decide, by decide⟩ (hours 1000) (hours 1000)
          (fun _ => false) (quietSource (hours 1000))).1 o →
      ∃ x ∈ (quietSource (hours 1000)).observations, x.source = o.source ∧
        hours 1000 - hours 1 ≤ x.lastSeenAt := by
  intro h
  have hinactive : ∀ x ∈ (deactivateStaleJobsCron ⟨1, 168, by decide, by decide⟩ (hours 1000)
      (hours 1000) (fun _ => false) (quietSource (hours 1000))).1.observations,
      x.isActive = false := by decide
  have hgone : ∃ o, Deactivated (quietSource (hours 1000))
      (deactivateStaleJobsCron ⟨1, 168, by decide, by decide⟩ (hours 1000) (hours 1000)
        (fun _ => false) (quietSource (hours 1000))).1 o :=
    ⟨_, List.mem_singleton.mpr rfl, rfl, fun hmem => absurd (hinactive _ hmem) (by decide)⟩
  obtain ⟨o, ho⟩ := hgone
  obtain ⟨x, hx, _, hfresh⟩ := h o ho
  rw [List.mem_singleton.mp hx] at hfresh
  exact absurd hfresh (by decide)

end Catalogue
end HireAndTech
