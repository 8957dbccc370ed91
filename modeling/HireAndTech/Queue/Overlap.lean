import HireAndTech.Collection.Scheduler
import HireAndTech.Queue.Scrape

/-!
# Overlap of collection tasks

A run inside its collector has a lease whose release it has not attempted, so the script of that
lease has not run.  The lease lives longer than the run as long as the run ends within the task
timeout, and a key has at most one such lease.

Main results:

- Theorem {lit}`taskMachine_sound`: the contract of a task.
- Theorem {lit}`timely_deadlines`: no run outlives the task timeout.
- Theorem {lit}`collection_leases_exclude_overlap`: what the locks guarantee.
-/

namespace HireAndTech
namespace Queue

open Interleaving Prog Leasing
open Catalogue (JobSource Runtime)
open Collection (CollectionSettings CollectionTarget CoordinatorResult enabledSettings)

/-! ## The contract -/

/-- Run {lit}`i` started at {lit}`t` and has a lease of the key that lives at least {lit}`ttl`
longer, and whose release has not been attempted. -/
structure Owns (ttl : Time) (i : CallId) (t : Time) (lease : RedisCollectionLease) (w : World) :
    Prop where
  started : (i, t) ∈ w.started
  held : w.held i = some lease
  lives : t + ttl ≤ lease.expiresAt
  pending : lease.token ∉ w.attempts

/-- Run {lit}`i` is not inside a collector. -/
def Outside (i : CallId) (w : World) : Prop :=
  ∀ target, (i, target) ∉ w.inside

variable (manager : RedisCollectionLockManager) (rt : Runtime)

/-- The key of a target. -/
def keyOf (target : CollectionTarget) : String :=
  manager.redisKey (target.identity rt)

/-- The leases are sane, a script is sent by an attempt to release, and every run inside a
collector owns a lease of its target. -/
structure Inv (w : World) : Prop where
  sane : Sane w.redis
  sent : ∀ lease ∈ w.redis.sent, lease.token ∈ w.attempts
  ran : ∀ token ∈ w.redis.ran, token ∈ w.attempts
  attempts : ∀ token ∈ w.attempts, token ∈ w.redis.leases.map (·.token)
  started : ∀ i t, (i, t) ∈ w.started → t ≤ w.redis.now
  held : ∀ i lease, w.held i = some lease → lease ∈ w.redis.leases
  unique : ∀ i j lease, w.held i = some lease → w.held j = some lease → i = j
  inside : ∀ i target, (i, target) ∈ w.inside →
    ∃ t lease, Owns manager.ttl i t lease w ∧ lease.key = keyOf manager rt target

/-- A step of run {lit}`i` leaves the other runs alone. -/
structure Guar (i : CallId) (w w' : World) : Prop where
  held : ∀ j, j ≠ i → w'.held j = w.held j
  started : ∀ j t, j ≠ i → ((j, t) ∈ w'.started ↔ (j, t) ∈ w.started)
  inside : ∀ j target, j ≠ i → ((j, target) ∈ w'.inside ↔ (j, target) ∈ w.inside)
  kept : ∀ token ∈ w.attempts, token ∈ w'.attempts
  own : ∀ j lease, j ≠ i → w.held j = some lease → lease.token ∈ w'.attempts →
    lease.token ∈ w.attempts

/-- The circumstances in which run {lit}`i` issues a command. -/
def Issues (i : CallId) (w : World) {β : Type} : Cmd β → Prop
  | .acquire _ => w.held i = none
  | .startCollector target =>
      ∃ t lease, Owns manager.ttl i t lease w ∧ lease.key = keyOf manager rt target
  | .release lease => w.held i = some lease ∧ Outside i w
  | _ => True

/-- The contract of a task. -/
def contract : Contract World Cmd Request where
  Inv := Inv manager rt
  Issues i _ w cmd := Issues manager rt i w cmd
  Guar i _ := Guar i

variable {manager rt} {i j : CallId} {w w' w'' : World} {t : Time}
  {lease : RedisCollectionLease}

theorem Guar.refl (i : CallId) (w : World) : Guar i w w :=
  ⟨fun _ _ => rfl, fun _ _ _ => Iff.rfl, fun _ _ _ => Iff.rfl, fun _ h => h, fun _ _ _ _ h => h⟩

theorem Guar.trans (h : Guar i w w') (h' : Guar i w' w'') : Guar i w w'' where
  held j hj := (h'.held j hj).trans (h.held j hj)
  started j t hj := (h'.started j t hj).trans (h.started j t hj)
  inside j target hj := (h'.inside j target hj).trans (h.inside j target hj)
  kept token htoken := h'.kept token (h.kept token htoken)
  own j lease hj hheld hattempted :=
    h.own j lease hj hheld (h'.own j lease hj ((h.held j hj).trans hheld) hattempted)

theorem Owns.stable (ttl : Time) (i : CallId) (t : Time) (lease : RedisCollectionLease) :
    (contract manager rt).Stable i (Owns ttl i t lease) := by
  intro j r hj w w' _ _ hguar h
  have hi : i ≠ j := hj.symm
  exact ⟨(hguar.started i t hi).mpr h.started, (hguar.held i hi).trans h.held, h.lives,
    fun hattempted => h.pending (hguar.own i lease hi h.held hattempted)⟩

theorem Outside.stable (i : CallId) : (contract manager rt).Stable i (Outside i) := by
  intro j r hj w w' _ _ hguar h target hinside
  exact h target ((hguar.inside i target hj.symm).mp hinside)

/-- A run without a lease is outside. -/
theorem Inv.outside (h : Inv manager rt w) (hheld : w.held i = none) : Outside i w := by
  intro target hinside
  obtain ⟨t, lease, howns, _⟩ := h.inside i target hinside
  exact absurd (howns.held.symm.trans hheld) (Option.some_ne_none lease)

/-! ## One command -/

/-- A change of the locks alone. -/
theorem Inv.withRedis (h : Inv manager rt w) {redis : Redis} (hsane : Sane redis)
    (hsent : ∀ lease ∈ redis.sent, lease.token ∈ w.attempts)
    (hran : ∀ token ∈ redis.ran, token ∈ w.attempts)
    (hleases : ∀ lease ∈ w.redis.leases, lease ∈ redis.leases) (hnow : w.redis.now ≤ redis.now) :
    Inv manager rt { w with redis := redis } where
  sane := hsane
  sent := hsent
  ran := hran
  attempts token htoken := by
    obtain ⟨lease, hlease, heq⟩ := List.mem_map.mp (h.attempts token htoken)
    exact List.mem_map.mpr ⟨lease, hleases lease hlease, heq⟩
  started i t hstarted := (h.started i t hstarted).trans hnow
  held i lease hheld := hleases lease (h.held i lease hheld)
  unique := h.unique
  inside i target hinside := by
    obtain ⟨t, lease, howns, hkey⟩ := h.inside i target hinside
    exact ⟨t, lease, ⟨howns.started, howns.held, howns.lives, howns.pending⟩, hkey⟩

theorem Guar.withRedis (i : CallId) (w : World) (redis : Redis) :
    Guar i w { w with redis := redis } :=
  ⟨fun _ _ => rfl, fun _ _ _ => Iff.rfl, fun _ _ _ => Iff.rfl, fun _ h => h, fun _ _ _ _ h => h⟩

/-- A script that runs late. -/
theorem Inv.deliver (h : Inv manager rt w) (lease : RedisCollectionLease) :
    Inv manager rt (w.deliver lease) ∧ Guar i w (w.deliver lease) := by
  unfold World.deliver
  split
  · rename_i hsent
    refine ⟨h.withRedis (h.sane.runScript lease) ?_ ?_ ?_ ?_, Guar.withRedis i w _⟩
    · intro other hother
      rw [runScript_sent] at hother
      exact h.sent other (List.mem_of_mem_erase hother)
    · intro token htoken
      rw [runScript_ran] at htoken
      rcases List.mem_cons.mp htoken with rfl | htoken
      · exact h.sent lease hsent
      · exact h.ran token htoken
    · intro other hother
      rwa [runScript_leases]
    · rw [runScript_now]
  · exact ⟨h, Guar.refl i w⟩

/-- What holds after time has passed and stays true when a script runs. -/
theorem pass_induction {P : World → Prop} {elapsed : Time} {late : List RedisCollectionLease}
    (hwait : P { w with redis := w.redis.wait elapsed })
    (hdeliver : ∀ w lease, P w → P (World.deliver w lease)) : P (w.pass elapsed late) := by
  unfold World.pass
  generalize { w with redis := w.redis.wait elapsed } = w₁ at hwait
  induction late generalizing w₁ with
  | nil => exact hwait
  | cons lease late ih => exact ih _ (hdeliver w₁ lease hwait)

/-- Time passes, and scripts run late. -/
theorem Inv.pass (h : Inv manager rt w) (i : CallId) (elapsed : Time)
    (late : List RedisCollectionLease) :
    Inv manager rt (w.pass elapsed late) ∧ Guar i w (w.pass elapsed late) := by
  refine pass_induction (P := fun w' => Inv manager rt w' ∧ Guar i w w') ⟨?_, ?_⟩ ?_
  · exact h.withRedis (h.sane.wait elapsed) h.sent h.ran (fun _ hlease => hlease)
      (Nat.le_add_right _ _)
  · exact Guar.withRedis i w _
  · rintro w' lease ⟨hw', hguar⟩
    have hdeliver := hw'.deliver (i := i) lease
    exact ⟨hdeliver.1, hguar.trans hdeliver.2⟩

/-- What the runs know of themselves stays the same while time passes. -/
structure Passed (elapsed : Time) (w w' : World) : Prop where
  now : w'.redis.now = w.redis.now + elapsed
  started : w'.started = w.started
  held : w'.held = w.held
  inside : w'.inside = w.inside
  attempts : w'.attempts = w.attempts

theorem passed (w : World) (elapsed : Time) (late : List RedisCollectionLease) :
    Passed elapsed w (w.pass elapsed late) := by
  apply pass_induction
  · exact ⟨rfl, rfl, rfl, rfl, rfl⟩
  · intro w' lease h
    unfold World.deliver
    split
    · exact ⟨runScript_now.trans h.now, h.started, h.held, h.inside, h.attempts⟩
    · exact h

theorem Passed.owns {elapsed : Time} (h : Passed elapsed w w') {ttl : Time}
    (howns : Owns ttl i t lease w) : Owns ttl i t lease w' :=
  ⟨h.started ▸ howns.started, h.held ▸ howns.held, howns.lives, h.attempts ▸ howns.pending⟩

theorem Passed.outside {elapsed : Time} (h : Passed elapsed w w') (houtside : Outside i w) :
    Outside i w' := by
  intro target
  rw [h.inside]
  exact houtside target

/-- A run starts. -/
theorem Inv.start (h : Inv manager rt w) (i : CallId) :
    Inv manager rt (w.start i) ∧ Guar i w (w.start i) := by
  have hother : ∀ j t, j ≠ i → ((j, t) ∈ (w.start i).started ↔ (j, t) ∈ w.started) := by
    intro j t hj
    simp [World.start, hj]
  refine ⟨⟨h.sane, h.sent, h.ran, h.attempts, ?_, h.held, h.unique, ?_⟩,
    fun _ _ => rfl, hother, fun _ _ _ => Iff.rfl, fun _ h => h, fun _ _ _ _ h => h⟩
  · intro j t hstarted
    rcases List.mem_cons.mp hstarted with heq | hstarted
    · cases heq
      exact le_refl w.redis.now
    · exact h.started j t hstarted
  · intro j target hinside
    obtain ⟨t, lease, howns, hkey⟩ := h.inside j target hinside
    exact ⟨t, lease, ⟨List.mem_cons_of_mem _ howns.started, howns.held, howns.lives,
      howns.pending⟩, hkey⟩

/-- An acquisition whose answer is lost. -/
theorem Inv.acquireLost (h : Inv manager rt w) {key token : String} {redis : Redis}
    {answer : Option RedisCollectionLease}
    (hacquire : manager.acquire key token w.redis = some (redis, answer)) :
    Inv manager rt { w with redis := redis } := by
  have hsane : Sane redis := h.sane.acquire hacquire
  obtain ⟨_, ⟨rfl, _⟩ | ⟨_, _, rfl⟩⟩ := acquire_cases hacquire
  · exact h
  · exact h.withRedis hsane h.sent h.ran (fun _ hlease => List.mem_cons_of_mem _ hlease) le_rfl

/-- The lease that an acquisition gives is new, and lives for the time to live. -/
theorem hold_held {key token : String} {redis : Redis}
    {answer : Option RedisCollectionLease}
    (hacquire : manager.acquire key token w.redis = some (redis, answer)) :
    (w.hold i redis answer).held i = answer ∧ ∀ lease, answer = some lease →
      lease.key = manager.redisKey key ∧ lease.expiresAt = w.redis.now + manager.ttl ∧
        lease ∈ redis.leases ∧ lease.token ∉ w.redis.leases.map (·.token) := by
  refine ⟨Function.update_self _ _ _, fun lease heq => ?_⟩
  obtain ⟨hfresh, ⟨_, rfl⟩ | ⟨_, rfl, rfl⟩⟩ := acquire_cases hacquire
  · contradiction
  · cases heq
    exact ⟨rfl, rfl, List.mem_cons_self, hfresh⟩

/-- An acquisition by a run that has no lease. -/
theorem Inv.hold (h : Inv manager rt w) {key token : String} {redis : Redis}
    {answer : Option RedisCollectionLease} (hheld : w.held i = none)
    (hacquire : manager.acquire key token w.redis = some (redis, answer)) :
    Inv manager rt (w.hold i redis answer) ∧ Guar i w (w.hold i redis answer) := by
  have hlost := h.acquireLost hacquire
  obtain ⟨hanswer, hnew⟩ := hold_held (i := i) hacquire
  have hother : ∀ j, j ≠ i → (w.hold i redis answer).held j = w.held j := by
    intro j hj
    exact Function.update_of_ne hj _ _
  have hdistinct : ∀ j lease, j ≠ i → w.held j = some lease → answer ≠ some lease := by
    intro j lease _ hj heq
    exact (hnew lease heq).2.2.2 (List.mem_map_of_mem (h.held j lease hj))
  refine ⟨⟨hlost.sane, hlost.sent, hlost.ran, hlost.attempts, hlost.started, ?_, ?_, ?_⟩,
    hother, fun _ _ _ => Iff.rfl, fun _ _ _ => Iff.rfl, fun _ h => h, fun _ _ _ _ h => h⟩
  · intro j lease hj
    by_cases hji : j = i
    · subst hji
      exact (hnew lease (hanswer.symm.trans hj)).2.2.1
    · exact hlost.held j lease ((hother j hji).symm.trans hj)
  · intro j k lease hj hk
    by_cases hji : j = i
    · by_cases hki : k = i
      · rw [hji, hki]
      · rw [hji, hanswer] at hj
        rw [hother k hki] at hk
        exact absurd hj (hdistinct k lease hki hk)
    · rw [hother j hji] at hj
      by_cases hki : k = i
      · rw [hki, hanswer] at hk
        exact absurd hk (hdistinct j lease hji hj)
      · rw [hother k hki] at hk
        exact h.unique j k lease hj hk
  · intro j target hinside
    obtain ⟨t, lease, howns, hkey⟩ := h.inside j target hinside
    have hji : j ≠ i := by
      rintro rfl
      exact h.outside hheld target hinside
    exact ⟨t, lease, ⟨howns.started, (hother j hji).trans howns.held, howns.lives, howns.pending⟩,
      hkey⟩

/-- A run enters its collector with a lease of its target. -/
theorem Inv.enter (h : Inv manager rt w) {target : CollectionTarget}
    (howns : ∃ t lease, Owns manager.ttl i t lease w ∧ lease.key = keyOf manager rt target) :
    Inv manager rt (w.enter i target) ∧ Guar i w (w.enter i target) := by
  have hother : ∀ j target', j ≠ i →
      ((j, target') ∈ (w.enter i target).inside ↔ (j, target') ∈ w.inside) := by
    intro j target' hj
    simp [World.enter, hj]
  have hkeep : ∀ j target', (∃ t lease, Owns manager.ttl j t lease w ∧
      lease.key = keyOf manager rt target') → ∃ t lease,
        Owns manager.ttl j t lease (w.enter i target) ∧ lease.key = keyOf manager rt target' := by
    rintro j target' ⟨t, lease, howns, hkey⟩
    exact ⟨t, lease, ⟨howns.started, howns.held, howns.lives, howns.pending⟩, hkey⟩
  refine ⟨⟨h.sane, h.sent, h.ran, h.attempts, h.started, h.held, h.unique, ?_⟩,
    fun _ _ => rfl, fun _ _ _ => Iff.rfl, hother, fun _ h => h, fun _ _ _ _ h => h⟩
  intro j target' hinside
  rcases List.mem_cons.mp hinside with heq | hinside
  · cases heq
    exact hkeep i target howns
  · exact hkeep j target' (h.inside j target' hinside)

theorem mem_leave {target : CollectionTarget} :
    (j, target) ∈ (w.leave i).inside ↔ (j, target) ∈ w.inside ∧ j ≠ i := by
  simp [World.leave]

/-- A run leaves its collector. -/
theorem Inv.leave (h : Inv manager rt w) (i : CallId) :
    Inv manager rt (w.leave i) ∧ Guar i w (w.leave i) := by
  refine ⟨⟨h.sane, h.sent, h.ran, h.attempts, h.started, h.held, h.unique, ?_⟩,
    fun _ _ => rfl, fun _ _ _ => Iff.rfl, fun _ _ hj => mem_leave.trans (and_iff_left hj),
    fun _ h => h, fun _ _ _ _ h => h⟩
  intro j target hinside
  obtain ⟨t, lease, howns, hkey⟩ := h.inside j target (mem_leave.mp hinside).1
  exact ⟨t, lease, ⟨howns.started, howns.held, howns.lives, howns.pending⟩, hkey⟩

/-- What a release leaves of the scripts. -/
theorem release_scripts (lease : RedisCollectionLease) (delivery : Delivery) (redis : Redis) :
    (∀ other ∈ (release lease delivery redis).1.sent, other = lease ∨ other ∈ redis.sent) ∧
    (∀ token ∈ (release lease delivery redis).1.ran, token = lease.token ∨ token ∈ redis.ran) ∧
    (release lease delivery redis).1.leases = redis.leases ∧
    (release lease delivery redis).1.now = redis.now := by
  unfold release
  split
  · exact ⟨fun _ => Or.inr, fun _ => Or.inr, rfl, rfl⟩
  · cases delivery with
    | answered =>
        refine ⟨fun other hother => ?_, fun token htoken => ?_, ?_, ?_⟩
        · have hmem : other ∈ ((redis.send lease).runScript lease).1.sent := hother
          rw [runScript_sent] at hmem
          exact List.mem_cons.mp (List.mem_of_mem_erase hmem)
        · have hmem : token ∈ ((redis.send lease).runScript lease).1.ran := htoken
          rw [runScript_ran] at hmem
          exact List.mem_cons.mp hmem
        · exact runScript_leases (s := redis.send lease)
        · exact runScript_now (s := redis.send lease)
    | unanswered => exact ⟨fun _ => List.mem_cons.mp, fun _ => Or.inr, rfl, rfl⟩
    | unsent => exact ⟨fun _ => Or.inr, fun _ => Or.inr, rfl, rfl⟩

/-- A run that is outside attempts the release of its lease. -/
theorem Inv.release (h : Inv manager rt w) (hheld : w.held i = some lease)
    (houtside : Outside i w) (delivery : Delivery) :
    Inv manager rt (w.release lease delivery) ∧ Guar i w (w.release lease delivery) := by
  obtain ⟨hsent, hran, hleases, hnow⟩ := release_scripts lease delivery w.redis
  have hlease : lease ∈ w.redis.leases := h.held i lease hheld
  have hown : ∀ j other, j ≠ i → w.held j = some other →
      other.token ∈ (w.release lease delivery).attempts → other.token ∈ w.attempts := by
    intro j other hj hother hattempted
    rcases List.mem_cons.mp hattempted with heq | hattempted
    · have hsame : other = lease := h.sane.eq_of_token (h.held j other hother) hlease heq
      exact absurd (h.unique j i lease (hsame ▸ hother) hheld) hj
    · exact hattempted
  refine ⟨⟨LockOp.sane_release h.sane hlease delivery, ?_, ?_, ?_, ?_, ?_, h.unique, ?_⟩,
    fun _ _ => rfl, fun _ _ _ => Iff.rfl, fun _ _ _ => Iff.rfl,
    fun _ htoken => List.mem_cons_of_mem _ htoken, hown⟩
  · intro other hother
    rcases hsent other hother with rfl | hother
    · exact List.mem_cons_self
    · exact List.mem_cons_of_mem _ (h.sent other hother)
  · intro token htoken
    rcases hran token htoken with rfl | htoken
    · exact List.mem_cons_self
    · exact List.mem_cons_of_mem _ (h.ran token htoken)
  · intro token htoken
    have hleases' : (w.release lease delivery).redis.leases = w.redis.leases := hleases
    rw [hleases']
    rcases List.mem_cons.mp htoken with rfl | htoken
    · exact List.mem_map_of_mem hlease
    · exact h.attempts token htoken
  · intro j t hstarted
    exact (h.started j t hstarted).trans hnow.ge
  · intro j other hother
    exact hleases.symm ▸ h.held j other hother
  · intro j target hinside
    obtain ⟨t, other, howns, hkey⟩ := h.inside j target hinside
    have hji : j ≠ i := by
      rintro rfl
      exact houtside target hinside
    exact ⟨t, other, ⟨howns.started, howns.held, howns.lives,
      fun hattempted => howns.pending (hown j other hji howns.held hattempted)⟩, hkey⟩

theorem mem_close {entry : CallId × Time} :
    entry ∈ (World.close i w).started ↔ entry ∈ w.started ∧ entry.1 ≠ i := by
  simp [World.close]

/-- The end of a run. -/
theorem Inv.close (h : Inv manager rt w) (i : CallId) :
    Inv manager rt (World.close i w) ∧ Guar i w (World.close i w) := by
  refine ⟨⟨h.sane, h.sent, h.ran, h.attempts, ?_, h.held, h.unique, ?_⟩,
    fun _ _ => rfl, fun _ _ hj => mem_close.trans (and_iff_left hj),
    fun _ _ hj => mem_leave.trans (and_iff_left hj), fun _ h => h, fun _ _ _ _ h => h⟩
  · intro j t hstarted
    exact h.started j t (mem_close.mp hstarted).1
  · intro j target hinside
    have hmem : (j, target) ∈ w.inside ∧ j ≠ i := mem_leave.mp hinside
    obtain ⟨t, lease, howns, hkey⟩ := h.inside j target hmem.1
    exact ⟨t, lease, ⟨mem_close.mpr ⟨howns.started, hmem.2⟩, howns.held, howns.lives,
      howns.pending⟩, hkey⟩

theorem Passed.issues {elapsed : Time} (h : Passed elapsed w w') {β : Type} {cmd : Cmd β}
    (hissues : Issues manager rt i w cmd) : Issues manager rt i w' cmd := by
  cases cmd with
  | acquire key => exact (congrFun h.held i).trans hissues
  | startCollector target =>
      obtain ⟨t, lease, howns, hkey⟩ := hissues
      exact ⟨t, lease, h.owns howns, hkey⟩
  | release lease => exact ⟨(congrFun h.held i).trans hissues.1, h.outside hissues.2⟩
  | _ => trivial

/-- Every command keeps the contract. -/
theorem Inv.exec (h : Inv manager rt w) {β : Type} {cmd : Cmd β} {choice : Choice} {b : β}
    (hissues : Issues manager rt i w cmd) (hexec : exec manager i cmd choice w = some (b, w')) :
    Inv manager rt w' ∧ Guar i w w' := by
  obtain ⟨hpass, hguar⟩ := h.pass i choice.elapsed choice.late
  have hissues := (passed w choice.elapsed choice.late).issues hissues
  suffices hw' : Inv manager rt w' ∧ Guar i (w.pass choice.elapsed choice.late) w' from
    ⟨hw'.1, hguar.trans hw'.2⟩
  cases cmd with
  | start =>
      obtain ⟨_, rfl⟩ := exec_start hexec
      exact hpass.start i
  | acquire key =>
      obtain ⟨e, _, rfl⟩ | ⟨token, redis, lease, hacquire, ⟨e, _, rfl⟩ | ⟨_, rfl⟩⟩ :=
        exec_acquire hexec
      · exact ⟨hpass, Guar.refl i _⟩
      · exact ⟨hpass.acquireLost hacquire, Guar.withRedis i _ redis⟩
      · exact hpass.hold hissues hacquire
  | startCollector target =>
      rw [exec_startCollector hexec]
      exact hpass.enter hissues
  | finishCollector =>
      rw [exec_finishCollector hexec]
      exact hpass.leave i
  | release lease =>
      obtain ⟨delivery, rfl⟩ := exec_release hexec
      exact hpass.release hissues.1 hissues.2 delivery
  | _ =>
      rw [exec_quiet rfl hexec]
      exact ⟨hpass, Guar.refl i _⟩

/-! ## The task -/

variable {registry : List JobSource} {request : Request}

/-- The program of one task keeps the contract. -/
abbrev TaskValid (manager : RedisCollectionLockManager) (rt : Runtime) (registry : List JobSource)
    (i : CallId) (request : Request) {α : Type} (program : Action α) (P : World → Prop)
    (Q : α → World → Prop) (E : World → Prop) : Prop :=
  Valid (taskMachine manager rt registry) .any (contract manager rt) i request program.run P
    (Ends Q fun _ => E)

/-- Run {lit}`i` has a lease of the key, and is outside. -/
def Locked (manager : RedisCollectionLockManager) (i : CallId) (lease : RedisCollectionLease)
    (w : World) : Prop :=
  (∃ t, Owns manager.ttl i t lease w) ∧ Outside i w

theorem Locked.stable (i : CallId) (lease : RedisCollectionLease) :
    (contract manager rt).Stable i (Locked manager i lease) := by
  intro j r hj w w' hw hw' hguar h
  obtain ⟨⟨t, howns⟩, houtside⟩ := h
  exact ⟨⟨t, Owns.stable _ i t lease j r hj w w' hw hw' hguar howns⟩,
    Outside.stable i j r hj w w' hw hw' hguar houtside⟩

/-- A quiet command keeps what a run knows of itself. -/
theorem valid_quiet {β : Type} {cmd : Cmd β} {P : World → Prop} (hquiet : cmd.isQuiet = true)
    (hst : (contract manager rt).Stable i P)
    (hpassed : ∀ w w' elapsed, Passed elapsed w w' → P w → P w') :
    Valid (taskMachine manager rt registry) .any (contract manager rt) i request (perform cmd) P
      fun _ => P := by
  refine Valid.cmd hst (fun w _ _ => ?_) fun b w w' choice _ _ _ hP _ hexec => ?_
  · cases cmd <;> trivial
  · exact hpassed w w' _ (exec_quiet hquiet hexec ▸ passed w _ _) hP

theorem Passed.locked {elapsed : Time} (h : Passed elapsed w w')
    (hlocked : Locked manager i lease w) :
    Locked manager i lease w' := by
  obtain ⟨⟨t, howns⟩, houtside⟩ := hlocked
  exact ⟨⟨t, h.owns howns⟩, h.outside houtside⟩

/-- Quiet commands, while the run has its lease. -/
theorem attempt_locked {α : Type} {cmd : Cmd (Except Raised α)} (hquiet : cmd.isQuiet = true) :
    TaskValid manager rt registry i request (attempt cmd) (Locked manager i lease)
      (fun _ => Locked manager i lease) (Locked manager i lease) := by
  refine (valid_quiet hquiet (Locked.stable i lease) fun _ _ _ h => h.locked).post ?_
  rintro (e | a) w _ h
  · exact h
  · exact h

theorem clock_locked :
    TaskValid manager rt registry i request clock (Locked manager i lease)
      (fun _ => Locked manager i lease) (Locked manager i lease) :=
  Valid.except_lift (valid_quiet rfl (Locked.stable i lease) fun _ _ _ h => h.locked)

/-- The collector of a target whose key is the key of the lease. -/
theorem collect_valid {target : CollectionTarget} (hkey : lease.key = keyOf manager rt target) :
    TaskValid manager rt registry i request (collect target) (Locked manager i lease)
      (fun _ => Locked manager i lease) (Locked manager i lease) := by
  refine Valid.except_bind (attempt_locked rfl) fun _ => ?_
  refine Valid.except_bind (Q := fun _ w => ∃ t, Owns manager.ttl i t lease w) ?_ fun _ => ?_
  · refine Valid.except_lift (Valid.cmd (Locked.stable i lease) ?_ ?_)
    · rintro w _ ⟨⟨t, howns⟩, _⟩
      exact ⟨t, lease, howns, hkey⟩
    · rintro b w w' choice _ _ _ ⟨⟨t, howns⟩, _⟩ _ hexec
      have hpassed := (passed w choice.elapsed choice.late).owns howns
      rw [exec_startCollector hexec]
      exact ⟨t, hpassed.started, hpassed.held, hpassed.lives, hpassed.pending⟩
  refine Valid.except_bind (Q := fun _ => Locked manager i lease) ?_ fun outcome => ?_
  · refine Valid.except_tryCatch (E := fun _ => Locked manager i lease) ?_ fun e => ?_
    · refine Valid.cmd ?_ ?_ ?_
      · rintro j r hj w w' hw hw' hguar ⟨t, howns⟩
        exact ⟨t, Owns.stable _ i t lease j r hj w w' hw hw' hguar howns⟩
      · exact fun _ _ _ => trivial
      · rintro b w w' choice _ _ _ ⟨t, howns⟩ _ hexec
        have hpassed := (passed w choice.elapsed choice.late).owns howns
        have hlocked : Locked manager i lease w' := by
          rw [exec_finishCollector hexec]
          refine ⟨⟨t, hpassed.started, hpassed.held, hpassed.lives, hpassed.pending⟩, ?_⟩
          intro target hinside
          exact (mem_leave.mp hinside).2 rfl
        cases b with
        | ok outcome => exact hlocked
        | error e => exact hlocked
    · exact Valid.except_bind (attempt_locked rfl) fun _ => Valid.except_throw fun _ _ h => h
  · exact Valid.except_bind (attempt_locked rfl) fun _ => Valid.except_ret fun _ _ h => h

/-- The `except` clauses keep the lease. -/
theorem handle_valid {target : CollectionTarget} (e : Raised) :
    TaskValid manager rt registry i request (handle target t e) (Locked manager i lease)
      (fun _ => Locked manager i lease) (Locked manager i lease) := by
  have hresult : TaskValid manager rt registry i request (resultOf target t .failed true)
      (Locked manager i lease) (fun _ => Locked manager i lease) (Locked manager i lease) :=
    Valid.except_bind clock_locked fun _ => Valid.except_ret fun _ _ h => h
  cases e with
  | temporaryCollection seconds => exact Valid.except_throw fun _ _ h => h
  | permanentCollection => exact hresult
  | cancelled => exact Valid.except_throw fun _ _ h => h
  | retry defer => exact Valid.except_bind hresult fun _ => Valid.except_throw fun _ _ h => h
  | other => exact Valid.except_bind hresult fun _ => Valid.except_throw fun _ _ h => h

/-- The release of every lease that run {lit}`i` has acquired has been attempted. -/
def Attempted (i : CallId) (w : World) : Prop :=
  ∀ lease, w.held i = some lease → lease.token ∈ w.attempts

theorem Attempted.stable (i : CallId) : (contract manager rt).Stable i (Attempted i) := by
  intro j r hj w w' _ _ hguar h lease hheld
  exact hguar.kept _ (h lease ((hguar.held i hj.symm).symm.trans hheld))

/-- The `finally` clause attempts the release, however the block ends. -/
theorem withRelease_valid {α : Type} {body : Action α}
    (h : TaskValid manager rt registry i request body (Locked manager i lease)
      (fun _ => Locked manager i lease) (Locked manager i lease)) :
    TaskValid manager rt registry i request (withRelease lease body) (Locked manager i lease)
      (fun _ => Attempted i) (Attempted i) := by
  refine Valid.bind (Q := fun _ => Locked manager i lease) (h.post ?_) fun outcome => ?_
  · rintro (e | a) w _ hlocked
    · exact hlocked
    · exact hlocked
  · refine Valid.bind (Q := fun _ => Attempted i) (Valid.cmd (Locked.stable i lease) ?_ ?_) ?_
    · rintro w _ ⟨⟨t, howns⟩, houtside⟩
      exact ⟨howns.held, houtside⟩
    · rintro b w w' choice _ _ _ ⟨⟨t, howns⟩, _⟩ _ hexec other hother
      have hheld := ((passed w choice.elapsed choice.late).owns howns).held
      obtain ⟨delivery, rfl⟩ := exec_release hexec
      cases hheld.symm.trans hother
      exact List.mem_cons_self
    · intro released
      split
      · exact Valid.ret fun _ _ h => h
      · refine Valid.ret fun w _ h => ?_
        cases outcome with
        | ok a => exact h
        | error e => exact h

/-- Run {lit}`i` started at {lit}`t` and has no lease. -/
def Unlocked (i : CallId) (t : Time) (w : World) : Prop :=
  (i, t) ∈ w.started ∧ w.held i = none

theorem Unlocked.stable (i : CallId) (t : Time) :
    (contract manager rt).Stable i (Unlocked i t) := by
  intro j r hj w w' _ _ hguar h
  exact ⟨(hguar.started i t hj.symm).mpr h.1, (hguar.held i hj.symm).trans h.2⟩

theorem Passed.unlocked {elapsed : Time} (h : Passed elapsed w w') (hunlocked : Unlocked i t w) :
    Unlocked i t w' :=
  ⟨h.started ▸ hunlocked.1, h.held ▸ hunlocked.2⟩

theorem Unlocked.attempted (h : Unlocked i t w) : Attempted i w := by
  intro lease hheld
  rw [h.2] at hheld
  contradiction

/-- What a run without a lease knows of the answer of its acquisition. -/
def Acquired (manager : RedisCollectionLockManager) (i : CallId) (key : String) (t : Time) :
    Option RedisCollectionLease → World → Prop
  | none, w => Unlocked i t w
  | some lease, w => lease.key = manager.redisKey key ∧ Locked manager i lease w

/-- An acquisition. -/
theorem acquire_valid (key : String) :
    TaskValid manager rt registry i request (attempt (.acquire key)) (Unlocked i t)
      (Acquired manager i key t) (Attempted i) := by
  refine Valid.cmd (Unlocked.stable i t) (fun _ _ h => h.2) ?_
  intro b w w' choice hw _ _ hunlocked _ hexec
  have hpassed := passed w choice.elapsed choice.late
  have hpass := (hw.pass i choice.elapsed choice.late).1
  have hunlocked := hpassed.unlocked hunlocked
  obtain ⟨e, rfl, rfl⟩ | ⟨token, redis, answer, hacquire, ⟨e, rfl, rfl⟩ | ⟨rfl, rfl⟩⟩ :=
    exec_acquire hexec
  · exact hunlocked.attempted
  · exact Unlocked.attempted hunlocked
  obtain ⟨hanswer, hnew⟩ := hold_held (i := i) hacquire
  cases answer with
  | none => exact ⟨hunlocked.1, hanswer⟩
  | some lease =>
      obtain ⟨hkey, hexpires, _, hfresh⟩ := hnew lease rfl
      refine ⟨hkey, ⟨t, hunlocked.1, hanswer, ?_, fun hattempted => ?_⟩, ?_⟩
      · rw [hexpires]
        exact Nat.add_le_add_right (hpass.started i t hunlocked.1) _
      · exact hfresh (hpass.attempts _ hattempted)
      · exact hpass.outside hunlocked.2

/-- A result without a lease. -/
theorem result_unlocked {target : CollectionTarget} {startedAt : Time} {status : CollectionStatus} :
    TaskValid manager rt registry i request (resultOf target startedAt status false) (Unlocked i t)
      (fun _ => Attempted i) (Attempted i) := by
  refine Valid.except_bind (Q := fun _ => Unlocked i t) ?_ fun _ =>
    Valid.except_ret fun _ _ h => h.attempted
  exact Valid.except_lift (valid_quiet rfl (Unlocked.stable i t) fun _ _ _ h => h.unlocked)

theorem collectTarget_valid {target : CollectionTarget} :
    TaskValid manager rt registry i request (collectTarget rt registry target t) (Unlocked i t)
      (fun _ => Attempted i) (Attempted i) := by
  unfold collectTarget
  split
  · exact result_unlocked
  · refine Valid.except_bind (acquire_valid _) fun answer => ?_
    cases answer with
    | none => exact result_unlocked
    | some lease =>
        refine Valid.assume fun hkey => withRelease_valid (Valid.except_tryCatch ?_ handle_valid)
        exact Valid.except_bind (collect_valid hkey) fun _ => Valid.except_ret fun _ _ h => h

/-- A task keeps the contract, and has attempted every release when it ends. -/
theorem runJobCollection_valid (request : Request) :
    TaskValid manager rt registry i request (runJobCollection rt registry request)
      (fun w => w.held i = none) (fun _ => Attempted i) (Attempted i) := by
  refine Valid.except_bind (Q := fun t => Unlocked i t) ?_ fun t => ?_
  · refine Valid.except_lift (Valid.cmd ?_ (fun _ _ _ => trivial) ?_)
    · intro j r hj w w' _ _ hguar h
      exact (hguar.held i hj.symm).trans h
    · intro b w w' choice _ _ _ hheld _ hexec
      obtain ⟨rfl, rfl⟩ := exec_start hexec
      exact ⟨List.mem_cons_self, (congrFun (passed w _ _).held i).trans hheld⟩
  · split
    · exact collectTarget_valid
    · refine Valid.except_bind (Q := fun _ => Unlocked i t) ?_ fun _ =>
        Valid.except_ret fun _ _ h => h.attempted
      exact Valid.except_lift (valid_quiet rfl (Unlocked.stable i t) fun _ _ _ h => h.unlocked)

theorem inv_initial : Inv manager rt .initial where
  sane := sane_initial
  sent := by simp [World.initial, State.initial]
  ran := by simp [World.initial, State.initial]
  attempts := by simp [World.initial]
  started := by simp [World.initial]
  held := by simp [World.initial]
  unique := by simp [World.initial]
  inside := by simp [World.initial]

/-- The contract of the task. -/
theorem taskMachine_sound (manager : RedisCollectionLockManager) (rt : Runtime)
    (registry : List JobSource) :
    Sound (taskMachine manager rt registry) .any (contract manager rt) .initial
      (fun i w => w.held i = none) (fun i _ _ => Attempted i) where
  init := inv_initial
  pre_init _ := rfl
  pre_stable i j r hj w w' _ _ hguar h := (hguar.held i hj.symm).trans h
  post_stable i _ _ := Attempted.stable i
  exec i r _ cmd ch b w w' _ hw hissues _ hexec := hw.exec hissues hexec
  close i r w _ hw := hw.close i
  refl i r w _ _ := Guar.refl i w
  valid i request _ := by
    refine Valid.post (runJobCollection_valid request) ?_
    rintro (e | result) w _ h
    · exact h
    · exact h

/-! ## Deadlines -/

/-- A time in seconds, in microseconds. -/
def seconds (n : Nat) : Time :=
  n * 1000 * 1000

/-- The lock manager of a worker. -/
def managerOf (settings : CollectionSettings) : RedisCollectionLockManager :=
  .new settings.jobCollectionLockTtlSeconds settings.jobCollectionRedisNamespace

/-- The runs that end within the task timeout. -/
def timely (settings : CollectionSettings) : Regime World Cmd Choice Request where
  starts _ _ := true
  allows w _ _ choice := w.started.all fun entry =>
    w.redis.now + choice.elapsed ≤
      entry.2 + seconds settings.jobCollectionTaskTimeoutSeconds

/-- No run has lasted longer than the timeout. -/
def InTime (settings : CollectionSettings) (w : World) : Prop :=
  ∀ i t, (i, t) ∈ w.started → w.redis.now ≤ t + seconds settings.jobCollectionTaskTimeoutSeconds

/-- The clock and the list of runs after a command. -/
theorem exec_started {β : Type} {cmd : Cmd β} {choice : Choice} {b : β}
    (hexec : exec manager i cmd choice w = some (b, w')) :
    w'.redis.now = w.redis.now + choice.elapsed ∧
      (w'.started = w.started ∨ w'.started = (i, w'.redis.now) :: w.started) := by
  have hnow : (w.pass choice.elapsed choice.late).redis.now = w.redis.now + choice.elapsed :=
    (passed w _ _).now
  have hstarted : (w.pass choice.elapsed choice.late).started = w.started := (passed w _ _).started
  cases cmd with
  | start =>
      obtain ⟨_, rfl⟩ := exec_start hexec
      exact ⟨hnow, Or.inr (congrArg (_ :: ·) hstarted)⟩
  | acquire key =>
      obtain ⟨e, _, rfl⟩ | ⟨token, redis, lease, hacquire, hw'⟩ := exec_acquire hexec
      · exact ⟨hnow, Or.inl hstarted⟩
      have hredis : redis.now = (w.pass choice.elapsed choice.late).redis.now := by
        obtain ⟨_, ⟨rfl, _⟩ | ⟨_, _, rfl⟩⟩ := acquire_cases hacquire <;> rfl
      obtain ⟨e, _, rfl⟩ | ⟨_, rfl⟩ := hw'
      · exact ⟨hredis.trans hnow, Or.inl hstarted⟩
      · exact ⟨hredis.trans hnow, Or.inl hstarted⟩
  | startCollector target =>
      rw [exec_startCollector hexec]
      exact ⟨hnow, Or.inl hstarted⟩
  | finishCollector =>
      rw [exec_finishCollector hexec]
      exact ⟨hnow, Or.inl hstarted⟩
  | release lease =>
      obtain ⟨delivery, rfl⟩ := exec_release hexec
      obtain ⟨_, _, _, hrelease⟩ :=
        release_scripts lease delivery (w.pass choice.elapsed choice.late).redis
      exact ⟨hrelease.trans hnow, Or.inl hstarted⟩
  | _ =>
      rw [exec_quiet rfl hexec]
      exact ⟨hnow, Or.inl hstarted⟩

/-- In a timely history no run outlives the task timeout. -/
theorem timely_deadlines {settings : CollectionSettings}
    {c : Config World Cmd Request (Except Raised TaskResult)}
    (h : (taskMachine manager rt registry).Reachable (timely settings) .initial c) :
    InTime settings c.world := by
  refine (taskMachine_sound manager rt registry).invariant (J := InTime settings) ?_ ?_ ?_ h
  · simp [InTime, World.initial]
  · intro i r β cmd choice b w w' _ _ _ _ _ hallows hexec hintime j t hmem
    obtain ⟨hnow, hstarted⟩ := exec_started hexec
    have hdeadline : ∀ entry ∈ w.started, w.redis.now + choice.elapsed ≤
        entry.2 + seconds settings.jobCollectionTaskTimeoutSeconds := by
      simpa [timely] using hallows
    rcases hstarted with hstarted | hstarted
    · rw [hstarted] at hmem
      rw [hnow]
      exact hdeadline (j, t) hmem
    · rw [hstarted] at hmem
      rcases List.mem_cons.mp hmem with heq | hmem
      · cases heq
        exact Nat.le_add_right _ _
      · rw [hnow]
        exact hdeadline (j, t) hmem
  · intro i w _ hintime j t hmem
    exact hintime j t (mem_close.mp hmem).1

/-- The lock outlives the task. -/
theorem timeout_lt_ttl (settings : CollectionSettings) :
    seconds settings.jobCollectionTaskTimeoutSeconds < (managerOf settings).ttl := by
  have h := settings.lockExceedsTask
  have hms := Nat.mul_lt_mul_of_pos_right h (by decide : 0 < 1000)
  exact Nat.mul_lt_mul_of_pos_right hms (by decide : 0 < 1000)

/-- A run inside a collector in time holds the key of its target. -/
theorem Owns.holds {settings : CollectionSettings} (hw : Inv (managerOf settings) rt w)
    (hintime : InTime settings w) (h : Owns (managerOf settings).ttl i t lease w) :
    w.redis.Holds lease where
  acquired := hw.held i lease h.held
  pending hran := h.pending (hw.ran _ hran)
  live := by
    calc
      w.redis.now ≤ t + seconds settings.jobCollectionTaskTimeoutSeconds := hintime i t h.started
      _ ≤ t + (managerOf settings).ttl := Nat.add_le_add_left (timeout_lt_ttl settings).le t
      _ ≤ lease.expiresAt := h.lives

/-- Two runs that are inside the collector of one identity at once are one run. -/
theorem inside_unique {settings : CollectionSettings} (hw : Inv (managerOf settings) rt w)
    (hintime : InTime settings w) {target target' : CollectionTarget}
    (hi : (i, target) ∈ w.inside) (hj : (j, target') ∈ w.inside)
    (hidentity : target.identity rt = target'.identity rt) : i = j := by
  obtain ⟨t, lease, howns, hkey⟩ := hw.inside i target hi
  obtain ⟨t', lease', howns', hkey'⟩ := hw.inside j target' hj
  have hkeys : lease.key = lease'.key := by rw [hkey, hkey', keyOf, keyOf, hidentity]
  have hlease : lease = lease' :=
    hw.sane.exclusive hkeys (howns.holds hw hintime) (howns'.holds hw hintime)
  exact hw.unique i j lease howns.held (hlease ▸ howns'.held)

/-- A script deletes a key only while the key has the token of its lease, and a key has at most
one holder, in every interleaving of the operations on locks; runs that end within the task
timeout are not inside the collector of one identity at once; and a run that has ended has
attempted the release of the lease that it has acquired. -/
theorem collection_leases_exclude_overlap (settings : CollectionSettings) (rt : Runtime)
    (registry : List JobSource) :
    (∀ ops redis, LockOp.applyAll .initial ops = some redis →
      (∀ op redis' lease key, op.script = some lease → LockOp.apply redis op = some redis' →
        redis'.get key ≠ redis.get key →
          key = lease.key ∧ redis.get key = some lease.token ∧ redis'.get key = none) ∧
      ∀ lease lease', lease.key = lease'.key → redis.Holds lease → redis.Holds lease' →
        lease = lease') ∧
    (∀ c, (taskMachine (managerOf settings) rt registry).Reachable (timely settings) .initial c →
      ∀ i j target target', (i, target) ∈ c.world.inside → (j, target') ∈ c.world.inside →
        target.identity rt = target'.identity rt → i = j) ∧
    ∀ c, (taskMachine (managerOf settings) rt registry).Reachable .any .initial c →
      ∀ i request result, c.calls i = .running request (.pure result) →
        ∀ lease, c.world.held i = some lease → lease.token ∈ c.world.attempts := by
  have hsound := taskMachine_sound (managerOf settings) rt registry
  refine ⟨?_, ?_, ?_⟩
  · intro ops redis hops
    have hsane : Sane redis := LockOp.sane ops sane_initial hops
    refine ⟨fun op redis' lease key hscript hop hne => LockOp.script_own hscript hop hne, ?_⟩
    intro lease lease' hkey hholds hholds'
    exact hsane.exclusive hkey hholds hholds'
  · intro c hc i j target target' hi hj hidentity
    have hany : (taskMachine (managerOf settings) rt registry).Reachable .any .initial c :=
      hc.mono (fun _ _ _ => rfl) fun _ _ _ _ _ _ _ => rfl
    exact inside_unique (hsound.reachable hany).1 (timely_deadlines hc) hi hj hidentity
  · intro c hc i request result hi lease hheld
    exact hsound.returned hc hi lease hheld

/-! ## A run -/

/-- Two workers take up one search.  The first is inside the collector, and the second skips. -/
def twoWorkers : List (Label Choice Request) :=
  let request : Request := ⟨"dice", "Data Engineer", some "Berlin", 100⟩
  [.start 0 request, .start 1 request, .step 0 {}, .step 1 { elapsed := 5 },
    .step 0 { elapsed := 5, outcome := .token "first" }, .step 0 {}, .step 0 {},
    .step 1 { elapsed := 5, outcome := .token "second" }, .step 1 {}]

/-- The first of the two leaves the collector, commits and releases its lease. -/
def twoWorkersReturned : List (Label Choice Request) :=
  twoWorkers ++
    [.step 0 { elapsed := 5, outcome := .collected ⟨0, 5, 1, 1, 1, 0, 0, 0, 0, 1, 0⟩ }, .step 0 {},
      .step 0 { outcome := .delivery .answered .other }]

theorem collection_leases_exclude_overlap_two :
    (∃ c, (taskMachine (managerOf enabledSettings) Catalogue.undatedRuntime [.dice]).play
        (timely enabledSettings) twoWorkers (.initial .initial) = some c ∧
      c.world.inside.map (·.1) = [0] ∧
      (c.calls 1).returned.map (·.2.toOption.map (·.status)) = some (some .skippedLocked) ∧
      ∀ i target j target', (i, target) ∈ c.world.inside → (j, target') ∈ c.world.inside →
        target.identity Catalogue.undatedRuntime = target'.identity Catalogue.undatedRuntime →
          i = j) ∧
    ∃ c lease, (taskMachine (managerOf enabledSettings) Catalogue.undatedRuntime [.dice]).play
        .any twoWorkersReturned (.initial .initial) = some c ∧
      (c.calls 0).returned.map (·.2.toOption.map (·.status)) = some (some .success) ∧
      c.world.held 0 = some lease ∧ lease.token = "first" ∧ lease.token ∈ c.world.attempts := by
  obtain ⟨_, hinside, hreturned⟩ :=
    collection_leases_exclude_overlap enabledSettings Catalogue.undatedRuntime [.dice]
  constructor
  · have hrun : ((taskMachine (managerOf enabledSettings) Catalogue.undatedRuntime [.dice]).play
        (timely enabledSettings) twoWorkers (.initial .initial)).map (fun c =>
          (c.world.inside.map (·.1), (c.calls 1).returned.map (·.2.toOption.map (·.status)))) =
            some ([0], some (some .skippedLocked)) := by decide
    obtain ⟨c, hc, hends⟩ := Option.map_eq_some_iff.mp hrun
    obtain ⟨hfirst, hsecond⟩ := Prod.mk.inj hends
    refine ⟨c, hc, hfirst, hsecond, fun i target j target' => ?_⟩
    exact hinside c (Machine.reachable_of_play hc) i j target target'
  · have hrun : ((taskMachine (managerOf enabledSettings) Catalogue.undatedRuntime [.dice]).play
        .any twoWorkersReturned (.initial .initial)).map (fun c =>
          ((c.calls 0).returned.map (·.2.toOption.map (·.status)),
            (c.world.held 0).map (·.token))) =
            some (some (some .success), some "first") := by decide
    obtain ⟨c, hc, hends⟩ := Option.map_eq_some_iff.mp hrun
    obtain ⟨hstatus, hheld⟩ := Prod.mk.inj hends
    obtain ⟨lease, hlease, htoken⟩ := Option.map_eq_some_iff.mp hheld
    obtain ⟨⟨request, result⟩, hcall, _⟩ := Option.map_eq_some_iff.mp hstatus
    exact ⟨c, lease, hc, hstatus, hlease, htoken,
      hreturned c (Machine.reachable_of_play hc) 0 request result
        (CallState.returned_eq_some hcall) lease hlease⟩

end Queue
end HireAndTech
