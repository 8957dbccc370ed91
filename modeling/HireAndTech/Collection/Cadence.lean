import HireAndTech.Collection.Rotation
import HireAndTech.Leasing.Keys

/-!
# The cadence of collections

A scheduler visits its sources one after the other and claims the key of each in Redis for the
interval of the source.  The visits of several schedulers may come in any order.

The job of a target has an id with the target and the window in which the scheduler has read its
clock.  The queue drops a job whose id it knows.

Main results:

- Definition {lit}`visit`: the visit of one source.
- Theorem {lit}`scheduleDueCollections_withKeys`: a call makes such visits.
- Theorem {lit}`collection_cadence`: when a visit claims its source.
- Theorem {lit}`punctual_job_ids`: the jobs of visits that claim within the minute of their clock
  have different ids.
-/

namespace HireAndTech
namespace Collection

open Catalogue Leasing Base Relational

/-! ## Visits -/

/-- A scheduler comes to a source of its call. -/
structure Visit where
  ctx : SchedulerContext
  source : JobSource
  targets : List CollectionTarget

/-- The visits of schedulers, and the time in milliseconds that passes between them. -/
inductive CadenceEvent
  | visit (v : Visit)
  | wait (elapsed : ℕ)

/-- A visit that has claimed its source. -/
structure Handing where
  visit : Visit
  claimedAt : ℕ

section

variable (rt : Runtime) (settings : CollectionSettings)

/-- `due_key`. -/
def dueKey (source : JobSource) : String :=
  settings.jobCollectionRedisNamespace ++ ":scheduler:" ++ source.value

/-- The time to live of the key. -/
def dueMilliseconds (source : JobSource) : ℕ :=
  1000 * intervalSeconds settings source

/-- Redis answers from its keys. -/
def withKeys (ctx : SchedulerContext) (s : Keys String) : SchedulerContext :=
  { ctx with claim := fun key seconds => (s.claim key (1000 * seconds)).2 }

/-- The visit claims its source. -/
def claims (s : Keys String) (v : Visit) : Bool :=
  v.ctx.isRegistered v.source && isDue settings (withKeys v.ctx s) v.source

/-- The jobs of a visit that claims its source. -/
def visitJobs (v : Visit) : List EnqueueCall :=
  (activeTargets settings v.ctx v.source v.targets).map (enqueueCall rt settings v.ctx v.source)

/-- The visit of a source. -/
def visit (s : Keys String) (v : Visit) : Keys String × List Handing :=
  if claims settings s v then
    (s.set (dueKey settings v.source) (dueMilliseconds settings v.source), [⟨v, s.now⟩])
  else (s, [])

/-- One event, after the visits so far that have claimed their source. -/
def cadenceStep (state : Keys String × List Handing) : CadenceEvent → Keys String × List Handing
  | .visit v => ((visit settings state.1 v).1, state.2 ++ (visit settings state.1 v).2)
  | .wait elapsed => (state.1.wait elapsed, state.2)

/-- Events in a row, from a Redis without keys. -/
def cadence (events : List CadenceEvent) : Keys String × List Handing :=
  events.foldl (cadenceStep settings) (Keys.initial, [])

end

/-! ## Keys -/

section

variable {rt : Runtime} {settings : CollectionSettings} {ctx : SchedulerContext} {s : Keys String}
  {v : Visit} {source source' : JobSource}

theorem dueKey_inj (h : dueKey settings source = dueKey settings source') : source = source' := by
  have hvalue : source.value = source'.value := by
    rw [dueKey, dueKey] at h
    exact (String.append_right_inj _).mp h
  revert hvalue
  cases source <;> cases source' <;> decide

theorem isDue_withKeys :
    isDue settings (withKeys ctx s) source = s.isFree (dueKey settings source) :=
  claim_snd

theorem claims_eq :
    claims settings s v = (v.ctx.isRegistered v.source && s.isFree (dueKey settings v.source)) := by
  rw [claims, isDue_withKeys]

/-- The body of the loop over the sources is a visit. -/
theorem scheduleSource_withKeys (state : ScheduleReport × List EnqueueCall) :
    (scheduleSource rt settings (withKeys v.ctx s) state (v.source, v.targets)).2 =
      state.2 ++ if claims settings s v then visitJobs rt settings v else [] := by
  have hregistered : (withKeys v.ctx s).isRegistered v.source = v.ctx.isRegistered v.source := rfl
  unfold scheduleSource
  dsimp only
  rw [claims, hregistered]
  cases v.ctx.isRegistered v.source with
  | false => simp
  | true =>
      cases isDue settings (withKeys v.ctx s) v.source with
      | false => simp
      | true => rfl

/-- The visits of a call. -/
def visitsOf (ctx : SchedulerContext) (groups : List (JobSource × List CollectionTarget)) :
    List CadenceEvent :=
  groups.map fun group => .visit ⟨ctx, group.1, group.2⟩

/-- The jobs of the visits that have claimed their source. -/
def handedJobs (rt : Runtime) (settings : CollectionSettings) (handings : List Handing) :
    List EnqueueCall :=
  handings.flatMap fun handing => visitJobs rt settings handing.visit

/-- The visit of another source leaves a key as it is. -/
theorem isFree_visit (hne : source ≠ v.source) :
    (visit settings s v).1.isFree (dueKey settings source) = s.isFree (dueKey settings source) := by
  unfold visit
  split
  · rw [Keys.isFree, expiresAt_set_of_ne fun heq => hne (dueKey_inj heq)]
    rfl
  · rfl

/-- A call during which no time passes hands on the jobs of its visits. -/
theorem foldl_scheduleSource_withKeys (groups : List (JobSource × List CollectionTarget))
    (hsources : (groups.map (·.1)).Nodup) (state : ScheduleReport × List EnqueueCall)
    (handings : List Handing) (s' : Keys String)
    (hkeys : ∀ group ∈ groups,
      s'.isFree (dueKey settings group.1) = s.isFree (dueKey settings group.1))
    (hstate : state.2 = handedJobs rt settings handings) :
    (groups.foldl (scheduleSource rt settings (withKeys ctx s)) state).2 =
      handedJobs rt settings
        ((visitsOf ctx groups).foldl (cadenceStep settings) (s', handings)).2 := by
  induction groups generalizing state handings s' with
  | nil => exact hstate
  | cons group groups ih =>
      obtain ⟨hnew, hsources⟩ := List.nodup_cons.mp hsources
      obtain ⟨hkey, hkeys⟩ := List.forall_mem_cons.mp hkeys
      rw [List.foldl_cons, visitsOf, List.map_cons, List.foldl_cons]
      refine ih hsources _ _ _ (fun other hother => ?_) ?_
      · have hne : other.1 ≠ group.1 := fun heq => hnew (List.mem_map.mpr ⟨other, hother, heq⟩)
        exact (isFree_visit hne).trans (hkeys other hother)
      · have hbody := @scheduleSource_withKeys rt settings s ⟨ctx, group.1, group.2⟩ state
        have hclaims : claims settings s' ⟨ctx, group.1, group.2⟩ =
            claims settings s ⟨ctx, group.1, group.2⟩ := by
          rw [claims_eq, claims_eq, hkey]
        rw [hbody, hstate, handedJobs, handedJobs, List.flatMap_append]
        congr 1
        rw [visit, hclaims]
        cases claims settings s ⟨ctx, group.1, group.2⟩ <;> simp

end

/-! ## Groups -/

section

variable {rt : Runtime} {settings : CollectionSettings}
  {groups : List (JobSource × List CollectionTarget)} {target : CollectionTarget}
  {targets : List CollectionTarget}

/-- The groups have different sources, and targets of their source with different identities, that
have been added. -/
structure Grouping (rt : Runtime) (groups : List (JobSource × List CollectionTarget))
    (added : List CollectionTarget) : Prop where
  sources : (groups.map (·.1)).Nodup
  targets : ∀ group ∈ groups, ∀ target ∈ group.2, target.source = group.1 ∧ target ∈ added
  identities : ∀ group ∈ groups, (group.2.map (·.identity rt)).Nodup

theorem mem_addToGroup {group : JobSource × List CollectionTarget}
    (h : group ∈ addToGroup groups target) :
    group ∈ groups ∨ group = (target.source, [target]) ∨
      ∃ old ∈ groups, old.1 = target.source ∧ group = (old.1, old.2 ++ [target]) := by
  induction groups with
  | nil => exact Or.inr (Or.inl (List.mem_singleton.mp h))
  | cons first groups ih =>
      obtain ⟨source, targets⟩ := first
      rw [addToGroup] at h
      split at h
      · rename_i hsource
        rcases List.mem_cons.mp h with rfl | h
        · by_cases hlength : targets.length < 100
          · rw [if_pos hlength]
            exact Or.inr (Or.inr ⟨_, List.mem_cons_self, hsource, rfl⟩)
          · rw [if_neg hlength]
            exact Or.inl List.mem_cons_self
        · exact Or.inl (List.mem_cons_of_mem _ h)
      · rcases List.mem_cons.mp h with rfl | h
        · exact Or.inl List.mem_cons_self
        · rcases ih h with hold | hnew | ⟨old, hold, hsource, hgroup⟩
          · exact Or.inl (List.mem_cons_of_mem _ hold)
          · exact Or.inr (Or.inl hnew)
          · exact Or.inr (Or.inr ⟨old, List.mem_cons_of_mem _ hold, hsource, hgroup⟩)

theorem sources_addToGroup (h : (groups.map (·.1)).Nodup) :
    ((addToGroup groups target).map (·.1)).Nodup := by
  induction groups with
  | nil => exact List.nodup_singleton _
  | cons first groups ih =>
      obtain ⟨source, targets⟩ := first
      obtain ⟨hnew, hrest⟩ := List.nodup_cons.mp h
      rw [addToGroup]
      split
      · exact List.nodup_cons.mpr ⟨hnew, hrest⟩
      · rename_i hsource
        refine List.nodup_cons.mpr ⟨fun hmem => ?_, ih hrest⟩
        obtain ⟨group, hgroup, heq⟩ := List.mem_map.mp hmem
        rcases mem_addToGroup hgroup with hold | rfl | ⟨old, hold, -, rfl⟩
        · exact hnew (List.mem_map.mpr ⟨group, hold, heq⟩)
        · exact hsource heq.symm
        · exact hnew (List.mem_map.mpr ⟨old, hold, heq⟩)

theorem Grouping.addToGroup {added : List CollectionTarget} (h : Grouping rt groups added)
    (hnew : target.identity rt ∉ added.map (·.identity rt)) :
    Grouping rt (Collection.addToGroup groups target) (added ++ [target]) where
  sources := sources_addToGroup h.sources
  targets := by
    intro group hgroup other hother
    rcases mem_addToGroup hgroup with hold | rfl | ⟨old, hold, hsource, rfl⟩
    · obtain ⟨hsource, hadded⟩ := h.targets group hold other hother
      exact ⟨hsource, List.mem_append_left _ hadded⟩
    · rw [List.mem_singleton.mp hother]
      exact ⟨rfl, List.mem_append_right _ (List.mem_singleton_self _)⟩
    · rcases List.mem_append.mp hother with hother | hother
      · obtain ⟨hsource, hadded⟩ := h.targets old hold other hother
        exact ⟨hsource, List.mem_append_left _ hadded⟩
      · rw [List.mem_singleton.mp hother]
        exact ⟨hsource.symm, List.mem_append_right _ (List.mem_singleton_self _)⟩
  identities := by
    intro group hgroup
    rcases mem_addToGroup hgroup with hold | rfl | ⟨old, hold, hsource, rfl⟩
    · exact h.identities group hold
    · exact List.nodup_singleton _
    · rw [List.map_append, List.map_singleton, List.nodup_append]
      refine ⟨h.identities old hold, List.nodup_singleton _,
        fun identity hidentity other hother => ?_⟩
      obtain ⟨earlier, hearlier, rfl⟩ := List.mem_map.mp hidentity
      rw [List.mem_singleton.mp hother]
      exact fun heq => hnew (heq ▸ List.mem_map_of_mem (h.targets old hold earlier hearlier).2)

/-- The groups of targets with different identities. -/
theorem grouping_grouped (h : (targets.map (·.identity rt)).Nodup) :
    Grouping rt (grouped targets) targets := by
  have hfold (added : List CollectionTarget) (groups : List (JobSource × List CollectionTarget))
      (hgroups : Grouping rt groups added)
      (hall : ((added ++ targets).map (·.identity rt)).Nodup) :
      Grouping rt (targets.foldl addToGroup groups) (added ++ targets) := by
    clear h
    induction targets generalizing added groups with
    | nil => simpa using hgroups
    | cons target targets ih =>
        have hnew : target.identity rt ∉ added.map (·.identity rt) := by
          intro hmem
          rw [List.map_append, List.nodup_append] at hall
          exact hall.2.2 _ hmem _ (List.mem_map_of_mem List.mem_cons_self) rfl
        have hstep := ih (added ++ [target]) (Collection.addToGroup groups target)
          (hgroups.addToGroup hnew) (by rwa [List.append_assoc])
        rwa [List.append_assoc] at hstep
  exact hfold [] [] ⟨List.nodup_nil, by simp, by simp⟩ h

/-- Targets that are added under their identities. -/
theorem nodup_foldl_setDefault {added : List CollectionTarget}
    (h : (added.map (·.identity rt)).Nodup) :
    ((targets.foldl (setDefault rt) added).map (·.identity rt)).Nodup := by
  induction targets generalizing added with
  | nil => exact h
  | cons target targets ih =>
      refine ih ?_
      unfold setDefault
      split
      · exact h
      · rename_i hnew
        rw [List.map_append, List.map_singleton, List.nodup_append]
        refine ⟨h, List.nodup_singleton _, fun identity hidentity other hother => ?_⟩
        obtain ⟨earlier, hearlier, rfl⟩ := List.mem_map.mp hidentity
        rw [List.mem_singleton.mp hother]
        intro heq
        exact hnew (List.any_eq_true.mpr ⟨earlier, hearlier, decide_eq_true heq⟩)

/-- The targets of a call have different identities. -/
theorem nodup_uniqueTargets {dynamic : List CollectionTarget}
    (h : uniqueTargets rt settings dynamic = .ok targets) :
    (targets.map (·.identity rt)).Nodup := by
  unfold uniqueTargets at h
  dsimp only at h
  split at h
  · cases h
    exact nodup_foldl_setDefault List.nodup_nil
  · split at h
    · cases h
      exact nodup_foldl_setDefault List.nodup_nil
    · obtain ⟨last, hlast⟩ := softwareEngineer_isOk
      rw [hlast] at h
      cases h
      exact nodup_foldl_setDefault List.nodup_nil

end

/-! ## Whole calls -/

/-- A call during which no time passes visits its sources, each with different targets. -/
theorem scheduleDueCollections_withKeys {rt : Runtime} {settings : CollectionSettings}
    {ctx : SchedulerContext} {s : Keys String} {database : Option Resumes.Database}
    {report : ScheduleReport} {calls : List EnqueueCall}
    (h : scheduleDueCollections rt settings (withKeys ctx s) database = .ok (report, calls)) :
    ∃ groups added, Grouping rt groups added ∧
      calls = handedJobs rt settings
        ((visitsOf ctx groups).foldl (cadenceStep settings) (s, [])).2 := by
  unfold scheduleDueCollections at h
  split at h
  · cases h
    exact ⟨[], [], ⟨List.nodup_nil, by simp, by simp⟩, rfl⟩
  · cases hdynamic : dynamicTargets rt settings database with
    | error e =>
        rw [hdynamic] at h
        cases h
    | ok dynamic =>
        obtain ⟨unique, hunique⟩ := uniqueTargets_isOk rt settings dynamic
        have hgrouping := grouping_grouped (nodup_uniqueTargets hunique)
        refine ⟨grouped unique, unique, hgrouping, ?_⟩
        rw [hdynamic] at h
        simp only [bind, Except.bind, hunique, pure, Except.pure, Except.ok.injEq] at h
        rw [← foldl_scheduleSource_withKeys (grouped unique) hgrouping.sources
          (⟨"completed", 0, 0, 0⟩, []) [] s (fun _ _ => rfl) rfl, h]

/-! ## Runs -/

section

variable {rt : Runtime} {settings : CollectionSettings} {state : Keys String × List Handing}
  {v : Visit}

/-- Redis remembers the visits that have claimed their source, of which two to one source lie more
than its interval apart. -/
structure Spaced (settings : CollectionSettings) (state : Keys String × List Handing) : Prop where
  kept : Kept state.1 (state.2.map fun handing => (dueKey settings handing.visit.source,
    handing.claimedAt + dueMilliseconds settings handing.visit.source))
  apart : state.2.Pairwise fun earlier later => earlier.visit.source = later.visit.source →
    earlier.claimedAt + dueMilliseconds settings earlier.visit.source < later.claimedAt

/-- A source can be claimed once its interval is over. -/
theorem Spaced.claims_iff (h : Spaced settings state) :
    claims settings state.1 v = true ↔ v.ctx.isRegistered v.source = true ∧
      ∀ handing ∈ state.2, handing.visit.source = v.source →
        handing.claimedAt + dueMilliseconds settings v.source < state.1.now := by
  rw [claims_eq, Bool.and_eq_true, h.kept.free_iff, List.forall_mem_map]
  refine and_congr_right fun _ => forall₂_congr fun handing _ => ?_
  constructor
  · intro hfree hsource
    have hexpired := hfree (by rw [hsource])
    rwa [hsource] at hexpired
  · intro hover hkey
    have hsource := dueKey_inj hkey
    have hexpired := hover hsource
    rwa [← hsource] at hexpired

theorem Spaced.step (h : Spaced settings state) (event : CadenceEvent) :
    Spaced settings (cadenceStep settings state event) := by
  cases event with
  | wait elapsed => exact ⟨h.kept.wait, h.apart⟩
  | visit v =>
      rw [cadenceStep, visit]
      cases hclaims : claims settings state.1 v with
      | false => simpa using h
      | true =>
          obtain ⟨-, hover⟩ := h.claims_iff.mp hclaims
          rw [claims_eq, Bool.and_eq_true] at hclaims
          refine ⟨?_, ?_⟩
          · have hkept : Kept (state.1.set (dueKey settings v.source)
                (dueMilliseconds settings v.source)) _ := h.kept.set hclaims.2
            simpa using hkept
          · refine List.pairwise_append.mpr ⟨h.apart, List.pairwise_singleton _ _, ?_⟩
            intro earlier hearlier later hlater hsource
            rw [List.mem_singleton.mp hlater] at hsource ⊢
            have hsource : earlier.visit.source = v.source := hsource
            rw [hsource]
            exact hover earlier hearlier hsource

theorem spaced_cadence (settings : CollectionSettings) (events : List CadenceEvent) :
    Spaced settings (cadence settings events) := by
  have hfold (state : Keys String × List Handing) (h : Spaced settings state) :
      Spaced settings (events.foldl (cadenceStep settings) state) := by
    induction events generalizing state with
    | nil => exact h
    | cons event events ih => exact ih _ (h.step event)
  exact hfold _ ⟨kept_initial, List.Pairwise.nil⟩

/-- In whatever order schedulers visit the sources, two claims of a source lie more than its
interval apart, and a visit to a registered source claims it exactly when every claim of it is that
old. -/
theorem collection_cadence (settings : CollectionSettings) (events : List CadenceEvent)
    (v : Visit) :
    let state := cadence settings events
    (state.2.Pairwise fun earlier later => earlier.visit.source = later.visit.source →
      earlier.claimedAt + dueMilliseconds settings earlier.visit.source < later.claimedAt) ∧
    (claims settings state.1 v = true ↔ v.ctx.isRegistered v.source = true ∧
      ∀ handing ∈ state.2, handing.visit.source = v.source →
        handing.claimedAt + dueMilliseconds settings v.source < state.1.now) :=
  ⟨(spaced_cadence settings events).apart, (spaced_cadence settings events).claims_iff⟩

end

/-! ## Job ids -/

section

variable {rt : Runtime} {settings : CollectionSettings} {ctx : SchedulerContext} {v w : Visit}
  {source : JobSource} {targets : List CollectionTarget}

/-- The parts before and after the last separator. -/
theorem append_cons_inj {α : Type} {c : α} {xs xs' ys ys' : List α} (hys : c ∉ ys) (hys' : c ∉ ys')
    (h : xs ++ c :: ys = xs' ++ c :: ys') : xs = xs' ∧ ys = ys' := by
  induction xs generalizing xs' with
  | nil =>
      cases xs' with
      | nil => exact ⟨rfl, (List.cons.inj h).2⟩
      | cons x xs' =>
          rw [(List.cons.inj h).2] at hys
          simp at hys
  | cons x xs ih =>
      cases xs' with
      | nil =>
          rw [← (List.cons.inj h).2] at hys'
          simp at hys'
      | cons x' xs' =>
          obtain ⟨rfl, htail⟩ := List.cons.inj h
          obtain ⟨rfl, rfl⟩ := ih htail
          exact ⟨rfl, rfl⟩

/-- The id of a job has the identity of its target and its window. -/
theorem jobId_inj {identity identity' : String} {window window' : ℕ}
    (h : "collection:" ++ identity ++ ":" ++ toString window =
      "collection:" ++ identity' ++ ":" ++ toString window') :
    identity = identity' ∧ window = window' := by
  have hcolon (n : ℕ) : ':' ∉ (toString n).toList := by
    intro hmem
    have hdigit := Nat.isDigit_of_mem_toDigits (b := 10) (by decide) (by decide)
      (by simpa using hmem : ':' ∈ Nat.toDigits 10 n)
    exact absurd hdigit (by decide)
  have hlist := congrArg String.toList h
  simp only [String.toList_append, List.append_assoc] at hlist
  obtain ⟨hidentity, hwindow⟩ := append_cons_inj (hcolon window) (hcolon window')
    (List.append_cancel_left hlist)
  refine ⟨String.toList_inj.mp hidentity, ?_⟩
  have hdigits : Nat.toDigits 10 window = Nat.toDigits 10 window' := by simpa using hwindow
  rw [← Nat.ofDigitChars_ten_toDigits (n := window), hdigits, Nat.ofDigitChars_ten_toDigits]

/-- The targets of a window are different targets of the group. -/
theorem nodup_targetsAt {batchSize start : ℕ} (h : (targets.map (·.identity rt)).Nodup)
    (hbatch : batchSize < targets.length) :
    ((targetsAt targets (window targets.length batchSize start)).map (·.identity rt)).Nodup ∧
      ∀ target ∈ targetsAt targets (window targets.length batchSize start), target ∈ targets := by
  have hwindow : ∀ position ∈ window targets.length batchSize start,
      position < targets.length := by
    intro position hposition
    obtain ⟨i, _, rfl⟩ := mem_window_iff.mp hposition
    exact Nat.mod_lt _ (by omega)
  rw [targetsAt_eq hwindow]
  constructor
  · have hinjective : Function.Injective fun i : Fin targets.length =>
        (targets.get i).identity rt := by
      intro i j hij
      have hget := List.nodup_iff_injective_get.mp h
      have heq := @hget (i.cast (by simp)) (j.cast (by simp)) (by simpa using hij)
      simpa [Fin.ext_iff] using heq
    rw [List.map_map]
    exact ((nodup_window hbatch.le).pmap fun _ _ _ _ heq => Fin.mk.inj heq).map hinjective
  · intro target htarget
    obtain ⟨i, _, rfl⟩ := List.mem_map.mp htarget
    exact List.get_mem targets i

/-- The active targets are different targets of the group. -/
theorem nodup_activeTargets (h : (targets.map (·.identity rt)).Nodup) :
    ((activeTargets settings ctx source targets).map (·.identity rt)).Nodup ∧
      ∀ target ∈ activeTargets settings ctx source targets, target ∈ targets := by
  unfold activeTargets
  split
  · unfold rotateQueries
    split
    · exact ⟨h, fun _ htarget => htarget⟩
    · rename_i hbatch
      have hwindow (start : ℕ) : ((List.range settings.glassdoorCollectionBatchSize).filterMap
          fun i => targets[(start + i) % targets.length]?) = targetsAt targets
            (window targets.length settings.glassdoorCollectionBatchSize start) := by
        rw [targetsAt, window, List.filterMap_map]
        rfl
      dsimp only
      rw [hwindow]
      exact nodup_targetsAt h (by omega)
  · exact ⟨h, fun _ htarget => htarget⟩

/-- The targets of a visit are different targets of its source. -/
structure Visit.Grouped (rt : Runtime) (v : Visit) : Prop where
  source : ∀ target ∈ v.targets, target.source = v.source
  identities : (v.targets.map (·.identity rt)).Nodup

/-- The scheduler has read its clock in the minute in which it has claimed the source. -/
def Punctual (handing : Handing) : Prop :=
  handing.visit.ctx.now / 60000000 = handing.claimedAt / 60000

instance : DecidablePred Punctual := fun _ =>
  inferInstanceAs (Decidable (_ = _))

/-- The identity of a target tells its source. -/
def Visit.Separated (rt : Runtime) (v w : Visit) : Prop :=
  ∀ target ∈ v.targets, ∀ other ∈ w.targets, target.identity rt = other.identity rt →
    target.source = other.source

theorem Grouping.grouped {groups : List (JobSource × List CollectionTarget)}
    {added : List CollectionTarget} (h : Grouping rt groups added) :
    ∀ group ∈ groups, Visit.Grouped rt ⟨ctx, group.1, group.2⟩ := fun group hgroup =>
  ⟨fun target htarget => (h.targets group hgroup target htarget).1, h.identities group hgroup⟩

theorem nodup_visitJobs (h : v.Grouped rt) :
    ((visitJobs rt settings v).map (·.jobId)).Nodup := by
  have hactive : ((activeTargets settings v.ctx v.source v.targets).map
      (·.identity rt)).Nodup := (nodup_activeTargets h.identities).1
  have hids : (visitJobs rt settings v).map (·.jobId) =
      ((activeTargets settings v.ctx v.source v.targets).map (·.identity rt)).map fun identity =>
        "collection:" ++ identity ++ ":" ++
          toString (v.ctx.now / 1000000 / intervalSeconds settings v.source) := by
    rw [visitJobs, List.map_map, List.map_map]
    rfl
  rw [hids]
  exact hactive.map fun _ _ heq => (jobId_inj heq).1

theorem one_le_sourceIntervalMinutes (settings : CollectionSettings) (source : JobSource) :
    1 ≤ sourceIntervalMinutes settings source := by
  cases source <;> exact (settings.intervalBounds _ (by simp [sourceIntervalMinutes])).1

/-- The window of a reading has the minute of the reading. -/
theorem window_eq (now : Time) (settings : CollectionSettings) (source : JobSource) :
    now / 1000000 / intervalSeconds settings source =
      now / 60000000 / sourceIntervalMinutes settings source := by
  rw [intervalSeconds, Nat.div_div_eq_div_mul, Nat.div_div_eq_div_mul]
  congr 1
  omega

/-- Punctual claims that lie more than the interval apart have different windows. -/
theorem window_lt {earlier later : Handing} (hearlier : Punctual earlier) (hlater : Punctual later)
    (h : earlier.claimedAt + dueMilliseconds settings source < later.claimedAt) :
    earlier.visit.ctx.now / 1000000 / intervalSeconds settings source <
      later.visit.ctx.now / 1000000 / intervalSeconds settings source := by
  have hpos := one_le_sourceIntervalMinutes settings source
  rw [window_eq, window_eq, hearlier, hlater]
  have hminutes : earlier.claimedAt / 60000 + sourceIntervalMinutes settings source ≤
      later.claimedAt / 60000 := by
    rw [dueMilliseconds, intervalSeconds] at h
    omega
  calc
    earlier.claimedAt / 60000 / sourceIntervalMinutes settings source <
        (earlier.claimedAt / 60000 + sourceIntervalMinutes settings source) /
          sourceIntervalMinutes settings source := by
      rw [Nat.add_div_right _ hpos]
      exact Nat.lt_succ_self _
    _ ≤ later.claimedAt / 60000 / sourceIntervalMinutes settings source :=
      Nat.div_le_div_right hminutes

/-- A job id that two visits hand on has one target identity and one window. -/
theorem exists_of_jobId {id : String} (hv : id ∈ (visitJobs rt settings v).map (·.jobId))
    (hw : id ∈ (visitJobs rt settings w).map (·.jobId)) (hgrouped : v.Grouped rt)
    (hgrouped' : w.Grouped rt) :
    (∃ target ∈ v.targets, ∃ other ∈ w.targets, target.identity rt = other.identity rt) ∧
      v.ctx.now / 1000000 / intervalSeconds settings v.source =
        w.ctx.now / 1000000 / intervalSeconds settings w.source := by
  rw [visitJobs, List.map_map, List.mem_map] at hv hw
  obtain ⟨target, htarget, hid⟩ := hv
  obtain ⟨other, hother, hid'⟩ := hw
  obtain ⟨hidentity, hwindow⟩ := jobId_inj (hid.trans hid'.symm)
  exact ⟨⟨target, (nodup_activeTargets hgrouped.identities).2 target htarget, other,
    (nodup_activeTargets hgrouped'.identities).2 other hother, hidentity⟩, hwindow⟩

end

/-- Schedulers that claim a source in the minute of their clock never hand on a job id twice, in
whatever order they visit the sources. -/
theorem punctual_job_ids (rt : Runtime) (settings : CollectionSettings)
    (events : List CadenceEvent)
    (hpunctual : ∀ handing ∈ (cadence settings events).2, Punctual handing)
    (hgrouped : ∀ handing ∈ (cadence settings events).2, handing.visit.Grouped rt)
    (hseparated : ∀ earlier ∈ (cadence settings events).2, ∀ later ∈ (cadence settings events).2,
      earlier.visit.Separated rt later.visit) :
    ((handedJobs rt settings (cadence settings events).2).map (·.jobId)).Nodup := by
  rw [handedJobs, List.map_flatMap, List.nodup_flatMap]
  refine ⟨fun handing hhanding => nodup_visitJobs (hgrouped handing hhanding), ?_⟩
  refine (spaced_cadence settings events).apart.imp_of_mem ?_
  intro earlier later hearlier hlater hspaced id hid hid'
  have hgroupedEarlier := hgrouped earlier hearlier
  have hgroupedLater := hgrouped later hlater
  obtain ⟨⟨target, htarget, other, hother, hidentity⟩, hwindow⟩ :=
    exists_of_jobId hid hid' hgroupedEarlier hgroupedLater
  have hsource : earlier.visit.source = later.visit.source := by
    rw [← hgroupedEarlier.source target htarget, ← hgroupedLater.source other hother]
    exact hseparated earlier hearlier later hlater target htarget other hother hidentity
  have hlt := window_lt (hpunctual earlier hearlier) (hpunctual later hlater) (hspaced hsource)
  rw [hsource] at hlt hwindow
  exact absurd hwindow (Nat.ne_of_lt hlt)

theorem python_nonblank : "python" ≠ "" := by
  decide

/-- The visit of a scheduler to Dice. -/
def diceVisit (now : Time) : Visit where
  ctx := { openContext with now := now }
  source := .dice
  targets := [⟨.dice, "python", none, true, 100, python_nonblank, no_location_nonblank,
    default_maxJobs_bounds⟩]

/-- Two visits half an hour apart. -/
def twoVisits (first second : Time) : List CadenceEvent :=
  [.wait 60100, .visit (diceVisit first), .wait 1800100, .visit (diceVisit second)]

theorem cadenceStep_wait {settings : CollectionSettings} {state : Keys String × List Handing}
    {elapsed : ℕ} :
    cadenceStep settings state (.wait elapsed) = (state.1.wait elapsed, state.2) :=
  rfl

theorem cadenceStep_of_free {settings : CollectionSettings} {state : Keys String × List Handing}
    {v : Visit} (hregistered : v.ctx.isRegistered v.source = true)
    (hfree : state.1.isFree (dueKey settings v.source) = true) :
    cadenceStep settings state (.visit v) =
      (state.1.set (dueKey settings v.source) (dueMilliseconds settings v.source),
        state.2 ++ [⟨v, state.1.now⟩]) := by
  rw [cadenceStep, visit, claims_eq, hregistered, hfree]
  rfl

theorem handings_twoVisits {first second : Time} :
    (cadence enabledSettings (twoVisits first second)).2 =
      [⟨diceVisit first, 0 + 60100⟩, ⟨diceVisit second, 0 + 60100 + 1800100⟩] := by
  have hlate : dueMilliseconds enabledSettings .dice < 1800100 := by
    simp [dueMilliseconds, intervalSeconds, sourceIntervalMinutes, enabledSettings]
  have hinitial : (Keys.initial.wait 60100).isFree (dueKey enabledSettings .dice) = true := rfl
  have hfree : (((Keys.initial.wait 60100).set (dueKey enabledSettings .dice)
      (dueMilliseconds enabledSettings .dice)).wait 1800100).isFree
        (dueKey enabledSettings .dice) = true := by
    rw [isFree_wait_set, decide_eq_true_eq]
    exact hlate
  rw [cadence, twoVisits, List.foldl_cons, List.foldl_cons, List.foldl_cons, List.foldl_cons,
    List.foldl_nil, cadenceStep_wait, cadenceStep_of_free (v := diceVisit first) rfl hinitial,
    cadenceStep_wait, cadenceStep_of_free (v := diceVisit second) rfl hfree]
  rfl

/-- Schedulers that read their clocks in the minutes in which they claim. -/
theorem punctual_job_ids_two :
    ((handedJobs undatedRuntime enabledSettings
      (cadence enabledSettings (twoVisits 60000000 1860000000)).2).map (·.jobId)).Nodup :=
  punctual_job_ids undatedRuntime enabledSettings (twoVisits 60000000 1860000000)
    (by rw [handings_twoVisits]; decide)
    (by
      rw [handings_twoVisits]
      intro handing hhanding
      rcases List.mem_pair.mp hhanding with rfl | rfl <;> exact ⟨by decide, by decide⟩)
    (by
      rw [handings_twoVisits]
      intro earlier hearlier later hlater
      rcases List.mem_pair.mp hearlier with rfl | rfl <;>
        rcases List.mem_pair.mp hlater with rfl | rfl <;> unfold Visit.Separated <;> decide)

/-- A clock that has been read before the minute of the claim repeats an id. -/
example : ¬((handedJobs undatedRuntime enabledSettings
    (cadence enabledSettings (twoVisits 60000000 1799000000)).2).map (·.jobId)).Nodup := by
  decide

end Collection
end HireAndTech
