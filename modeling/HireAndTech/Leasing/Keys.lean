import Mathlib

/-!
# Keys that are claimed for a while

A store keeps a key up to a time.  A claim sets a key that the store does not have any more, and is
refused otherwise; nobody gives a key back.

Main results:

- Definition {lit}`Keys.claim`: a claim.
- Theorem {lit}`Kept.claim`: a claim keeps the record of the claims.
- Theorem {lit}`Kept.free_iff`: a key is free once its claims have expired.
-/

namespace Leasing

/-- The clock of a store, and the times up to which it has its keys. -/
structure Keys (κ : Type) where
  now : ℕ
  expiresAt : κ → Option ℕ

variable {κ : Type}

namespace Keys

/-- No key has been claimed. -/
def initial : Keys κ :=
  ⟨0, fun _ => none⟩

/-- The store has no such key, or not any more. -/
def isFree (s : Keys κ) (key : κ) : Bool :=
  (s.expiresAt key).all (· < s.now)

/-- The passing of time. -/
def wait (s : Keys κ) (elapsed : ℕ) : Keys κ :=
  { s with now := s.now + elapsed }

/-- The store after the claim of a free key. -/
def set [DecidableEq κ] (s : Keys κ) (key : κ) (ttl : ℕ) : Keys κ :=
  { s with expiresAt := Function.update s.expiresAt key (some (s.now + ttl)) }

/-- Claim a key, if it is free. -/
def claim [DecidableEq κ] (s : Keys κ) (key : κ) (ttl : ℕ) : Keys κ × Bool :=
  if s.isFree key then (s.set key ttl, true) else (s, false)

end Keys

/-- The claims, each with the time up to which it lives, are those that the store remembers: a key
is known up to the latest of them. -/
def Kept (s : Keys κ) (claims : List (κ × ℕ)) : Prop :=
  ∀ key later, s.now ≤ later →
    ((s.expiresAt key).all (· < later) = true ↔ ∀ claim ∈ claims, claim.1 = key → claim.2 < later)

section

variable {s : Keys κ} {claims : List (κ × ℕ)} {key : κ} {ttl elapsed : ℕ}

theorem kept_initial : Kept (Keys.initial : Keys κ) [] := by
  intro key later _
  simp [Keys.initial]

/-- A key is free once its claims have expired. -/
theorem Kept.free_iff (h : Kept s claims) :
    s.isFree key = true ↔ ∀ claim ∈ claims, claim.1 = key → claim.2 < s.now :=
  h key s.now le_rfl

theorem Kept.wait (h : Kept s claims) : Kept (s.wait elapsed) claims := by
  intro key later hlater
  exact h key later (le_trans (Nat.le_add_right s.now elapsed) hlater)

variable [DecidableEq κ]

theorem expiresAt_set_self : (s.set key ttl).expiresAt key = some (s.now + ttl) :=
  Function.update_self _ _ _

theorem expiresAt_set_of_ne {other : κ} (h : other ≠ key) :
    (s.set key ttl).expiresAt other = s.expiresAt other :=
  Function.update_of_ne h _ _

/-- A claimed key is free after its time to live. -/
theorem isFree_wait_set : ((s.set key ttl).wait elapsed).isFree key = decide (ttl < elapsed) := by
  have hexpires : ((s.set key ttl).wait elapsed).expiresAt key = some (s.now + ttl) :=
    expiresAt_set_self
  have hnow : ((s.set key ttl).wait elapsed).now = s.now + elapsed := rfl
  rw [Keys.isFree, hexpires, hnow, Option.all_some]
  exact decide_eq_decide.mpr (Nat.add_lt_add_iff_left)

/-- The claim of a free key outlives the earlier ones. -/
theorem Kept.set (h : Kept s claims) (hfree : s.isFree key = true) :
    Kept (s.set key ttl) (claims ++ [(key, s.now + ttl)]) := by
  intro other later hlater
  have hlater : s.now ≤ later := hlater
  by_cases hother : other = key
  · subst hother
    have hearlier := h.free_iff.mp hfree
    rw [expiresAt_set_self, Option.all_some, decide_eq_true_eq]
    constructor
    · intro hexpired claim hclaim hkey
      rcases List.mem_append.mp hclaim with hold | hnew
      · exact lt_of_lt_of_le (hearlier claim hold hkey) hlater
      · rw [List.mem_singleton.mp hnew]
        exact hexpired
    · intro hall
      exact hall _ (List.mem_append_right _ (List.mem_singleton_self _)) rfl
  · rw [expiresAt_set_of_ne hother, h other later hlater, List.forall_mem_append]
    simp [Ne.symm hother]

theorem claim_snd : (s.claim key ttl).2 = s.isFree key := by
  unfold Keys.claim
  cases s.isFree key <;> rfl

/-- A claim keeps the record of the claims. -/
theorem Kept.claim (h : Kept s claims) :
    Kept (s.claim key ttl).1 (claims ++ if s.isFree key then [(key, s.now + ttl)] else []) := by
  unfold Keys.claim
  by_cases hfree : s.isFree key = true
  · rw [if_pos hfree, if_pos hfree]
    exact h.set hfree
  · rw [if_neg hfree, if_neg hfree, List.append_nil]
    exact h

end

end Leasing
