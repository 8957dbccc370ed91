import HireAndTech.Base.Uuid
import HireAndTech.Leasing.Lease

/-!
# Collection locks

`RedisCollectionLockManager` sets a key with a time to live if the key is not set, and
`RedisCollectionLease.release` runs a script that deletes the key if it has the token of the
lease.

A call of {lit}`release` may fail before its script is sent, or after: the script then runs at
some later time, or never.

Main results:

- Definitions {lit}`RedisCollectionLockManager.acquire` and {lit}`release`: the operations.
- Theorem {lit}`LockOp.script_own`: a release deletes only the key that it has.
- Theorem {lit}`LockOp.sane`: every interleaving keeps the leases sane.
-/

namespace HireAndTech
namespace Queue

open Leasing

/-- The keys of collection locks in Redis, with the microseconds of its clock. -/
abbrev Redis := Leasing.State String String

/-- `RedisCollectionLease`; that it is released is part of the state. -/
abbrev RedisCollectionLease := Leasing.Lease String String

instance lawfulBEq_lease : LawfulBEq RedisCollectionLease :=
  inferInstance

/-- `RedisCollectionLockManager`. -/
structure RedisCollectionLockManager where
  ttlMs : Nat
  lockNamespace : String
deriving DecidableEq, Repr

namespace RedisCollectionLockManager

/-- `__init__`. -/
def new (ttlSeconds : Nat) (lockNamespace : String) : RedisCollectionLockManager where
  ttlMs := ttlSeconds * 1000
  lockNamespace := lockNamespace

/-- `redis_key`. -/
def redisKey (manager : RedisCollectionLockManager) (key : String) : String :=
  manager.lockNamespace ++ ":collection-lock:" ++ key

/-- The time to live of a lease, in microseconds. -/
def ttl (manager : RedisCollectionLockManager) : Time :=
  manager.ttlMs * 1000

/-- `acquire`, with the token that it generates; {lean}`none` when the token is in use. -/
def acquire (manager : RedisCollectionLockManager) (key token : String) (redis : Redis) :
    Option (Redis × Option RedisCollectionLease) :=
  redis.acquire manager.ttl (manager.redisKey key) token

end RedisCollectionLockManager

/-- What happens to the script of a call of {lit}`release`. -/
inductive Delivery
  | answered
  | unanswered
  | unsent
deriving DecidableEq, Repr

/-- `RedisCollectionLease.release`; {lean}`none` when it raises. -/
def release (lease : RedisCollectionLease) (delivery : Delivery) (redis : Redis) :
    Redis × Option Bool :=
  if lease.token ∈ redis.released then (redis, some false)
  else match delivery with
    | .answered =>
        let (redis, deleted) := (redis.send lease).runScript lease
        (redis.answer lease.token, some deleted)
    | .unanswered => (redis.send lease, none)
    | .unsent => (redis, none)

/-- A release deletes its key only while the key has the token of the lease. -/
theorem release_own {lease : RedisCollectionLease} {delivery : Delivery} {redis : Redis}
    {key : String} (hne : (release lease delivery redis).1.get key ≠ redis.get key) :
    key = lease.key ∧ redis.get key = some lease.token ∧
      (release lease delivery redis).1.get key = none := by
  unfold release at hne ⊢
  split at hne
  · exact absurd rfl hne
  · rename_i hreleased
    rw [if_neg hreleased]
    cases delivery with
    | answered => exact run_own (s := redis.send lease) hne
    | unanswered => exact absurd rfl hne
    | unsent => exact absurd rfl hne

/-! ## Interleavings -/

/-- What workers, the network and time do to the locks. -/
inductive LockOp
  | acquire (manager : RedisCollectionLockManager) (key token : String)
  | release (lease : RedisCollectionLease) (delivery : Delivery)
  | deliver (lease : RedisCollectionLease) (answered : Bool)
  | wait (elapsed : Time)

namespace LockOp

/-- One operation; {lean}`none` when it cannot happen. -/
def apply (redis : Redis) : LockOp → Option Redis
  | .acquire manager key token => (manager.acquire key token redis).map (·.1)
  | .release lease delivery =>
      if lease ∈ redis.leases then some (Queue.release lease delivery redis).1 else none
  | .deliver lease answered => Leasing.step redis (.run lease answered)
  | .wait elapsed => some (redis.wait elapsed)

/-- The lease whose script an operation sends or runs. -/
def script : LockOp → Option RedisCollectionLease
  | .release lease _ | .deliver lease _ => some lease
  | .acquire _ _ _ | .wait _ => none

/-- Several operations. -/
def applyAll (redis : Redis) (ops : List LockOp) : Option Redis :=
  ops.foldlM apply redis

variable {redis redis' : Redis}

theorem sane_release (h : Sane redis) {lease : RedisCollectionLease} (hlease : lease ∈ redis.leases)
    (delivery : Delivery) : Sane (Queue.release lease delivery redis).1 := by
  unfold Queue.release
  split
  · exact h
  · cases delivery with
    | answered => exact ((h.send hlease).runScript lease).answer lease.token
    | unanswered => exact h.send hlease
    | unsent => exact h

theorem sane_apply (h : Sane redis) {op : LockOp} (hop : apply redis op = some redis') :
    Sane redis' := by
  cases op with
  | acquire manager key token =>
      obtain ⟨⟨_, answer⟩, hacquire, rfl⟩ := Option.map_eq_some_iff.mp hop
      exact h.acquire hacquire
  | release lease delivery =>
      rw [apply] at hop
      split at hop
      · rename_i hlease
        cases hop
        exact sane_release h hlease delivery
      · contradiction
  | deliver lease answered =>
      have hrun : Leasing.step redis (.run lease answered) = some redis' := hop
      exact h.step hrun
  | wait elapsed =>
      cases hop
      exact h.wait elapsed

/-- Every interleaving of the operations keeps the leases sane. -/
theorem sane (ops : List LockOp) (h : Sane redis) (hops : applyAll redis ops = some redis') :
    Sane redis' := by
  induction ops generalizing redis with
  | nil =>
      cases hops
      exact h
  | cons op ops ih =>
      rw [applyAll, List.foldlM_cons] at hops
      obtain ⟨redis₁, hop, hrest⟩ := Option.bind_eq_some_iff.mp hops
      exact ih (sane_apply h hop) hrest

/-- An operation of a lease changes a key only while the key has the token of the lease. -/
theorem script_own {op : LockOp} {lease : RedisCollectionLease} (hscript : op.script = some lease)
    (hop : apply redis op = some redis') {key : String} (hne : redis'.get key ≠ redis.get key) :
    key = lease.key ∧ redis.get key = some lease.token ∧ redis'.get key = none := by
  cases op with
  | acquire manager key token => contradiction
  | wait elapsed => contradiction
  | release other delivery =>
      cases hscript
      rw [apply] at hop
      split at hop
      · cases hop
        exact release_own hne
      · contradiction
  | deliver other answered =>
      cases hscript
      rw [apply, Leasing.step] at hop
      split at hop
      · cases hop
        cases answered with
        | true => exact run_own hne
        | false => exact run_own hne
      · contradiction

end LockOp

end Queue
end HireAndTech
