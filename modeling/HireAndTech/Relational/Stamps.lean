import HireAndTech.Relational.Versions

/-!
# Stamps of row versions

Every row carries a stamp.  A transaction takes a reading before it writes, and gives a row
that it writes either its reading or the stamp that the row has already.  A log relates
every key to the readings of the transactions that have committed a write of its row.

Main results:

- Theorems {lit}`Recorded.write` and {lit}`Recorded.commit`: the log has every committed
  stamp.
- Theorem {lit}`Ahead.update`: a write that no logged reading exceeds does not lower a stamp.
- Theorem {lit}`Ahead.le_commit`: then a commit does not lower one either.
-/

namespace Relational
namespace Versioned

variable {α κ ι τ : Type} [DecidableEq κ] {key : α → κ} {stamp : α → τ}
  {readings readings' : ι → Option τ} {log log' : κ → Set τ} {t : Versioned key ι} {i : ι} {k : κ}
  {x y : α}

/-- Committed stamps are in the log, and a version has the reading of its transaction or the
committed stamp of its row. -/
structure Recorded (stamp : α → τ) (readings : ι → Option τ) (log : κ → Set τ)
    (t : Versioned key ι) : Prop where
  committed : ∀ k x, lookup key k t.committed = some x → stamp x ∈ log k
  version : ∀ k i x, t.version k = some (i, x) →
    readings i = some (stamp x) ∨ ∃ y, lookup key k t.committed = some y ∧ stamp y = stamp x

/-- No version has a lower stamp than the committed row. -/
def Ahead [LE τ] (stamp : α → τ) (t : Versioned key ι) : Prop :=
  ∀ k i x y, t.version k = some (i, x) → lookup key k t.committed = some y → stamp y ≤ stamp x

/-- A transaction without versions of its own stamp may take a reading. -/
theorem Recorded.read (h : Recorded stamp readings log t) (hi : readings i = none)
    (hsame : ∀ j, j ≠ i → readings' j = readings j) : Recorded stamp readings' log t where
  committed := h.committed
  version k j x hx := by
    rcases h.version k j x hx with hread | hkept
    · have hj : j ≠ i := by
        intro hj
        rw [hj, hi] at hread
        contradiction
      exact Or.inl ((hsame j hj).trans hread)
    · exact Or.inr hkept

variable [DecidableEq ι]

theorem Recorded.write (h : Recorded stamp readings log t)
    (hx : readings i = some (stamp x) ∨
      ∃ y, lookup key (key x) (t.visible i) = some y ∧ stamp y = stamp x) :
    Recorded stamp readings log (t.write i x) where
  committed := h.committed
  version k j z hz := by
    rw [version_write] at hz
    split at hz
    · rename_i hkey
      cases hz
      rcases hx with hread | ⟨y, hy, hsame⟩
      · exact Or.inl hread
      · rw [hkey] at hy
        rcases visible_cases hy with hown | hcommitted
        · have hversion := h.version k i y hown
          rwa [hsame] at hversion
        · exact Or.inr ⟨y, hcommitted, hsame⟩
    · exact h.version k j z hz

theorem Recorded.discard (h : Recorded stamp readings log t) :
    Recorded stamp readings log (t.discard i) where
  committed := h.committed
  version k j x hx := by
    rw [version_discard] at hx
    exact h.version k j x (version_of_filter hx).1

/-- A commit whose writes are logged with the reading of the transaction. -/
theorem Recorded.commit (h : Recorded stamp readings log t) (hlog : ∀ k, log k ⊆ log' k)
    (hown : ∀ x ∈ t.own i, ∀ s, readings i = some s → s ∈ log' (key x)) :
    Recorded stamp readings log' (t.commit i) where
  committed k x hx := by
    rcases visible_cases hx with hversion | hcommitted
    · have hkey : key x = k := version_key hversion
      rcases h.version k i x hversion with hread | ⟨y, hy, hsame⟩
      · have hmem : x ∈ t.own i := mem_own.mpr (hkey ▸ hversion)
        exact hkey ▸ hown x hmem _ hread
      · exact hlog k (hsame ▸ h.committed k y hy)
    · exact hlog k (h.committed k x hcommitted)
  version k j x hx := by
    rw [version_commit] at hx
    obtain ⟨hversion, hj⟩ := version_of_filter hx
    rw [lookup_commit_of_foreign hversion hj]
    exact h.version k j x hversion

variable [Preorder τ]

omit [DecidableEq ι] in
theorem Ahead.write (h : Ahead stamp t)
    (hx : ∀ y, lookup key (key x) t.committed = some y → stamp y ≤ stamp x) :
    Ahead stamp (t.write i x) := by
  intro k j z y hz hy
  rw [version_write] at hz
  split at hz
  · rename_i hkey
    cases hz
    exact hx y (hkey ▸ hy)
  · exact h k j z y hz hy

/-- A write that keeps the stamp that it sees, or one that no logged reading exceeds. -/
theorem Ahead.update (h : Ahead stamp t) (hr : Recorded stamp readings log t)
    (hy : lookup key (key x) (t.visible i) = some y)
    (hx : stamp x = stamp y ∨ ∀ s ∈ log (key x), s ≤ stamp x) : Ahead stamp (t.write i x) := by
  apply h.write
  intro z hz
  rcases hx with hkept | hlog
  · rw [hkept]
    rcases visible_cases hy with hown | hcommitted
    · exact h _ i y z hown hz
    · rw [hz] at hcommitted
      cases hcommitted
      exact le_refl _
  · exact hlog _ (hr.committed _ z hz)

theorem Ahead.discard (h : Ahead stamp t) : Ahead stamp (t.discard i) := by
  intro k j x y hx hy
  rw [version_discard] at hx
  exact h k j x y (version_of_filter hx).1 hy

theorem Ahead.commit (h : Ahead stamp t) : Ahead stamp (t.commit i) := by
  intro k j x y hx hy
  rw [version_commit] at hx
  obtain ⟨hversion, hj⟩ := version_of_filter hx
  rw [lookup_commit_of_foreign hversion hj] at hy
  exact h k j x y hversion hy

/-- A commit does not lower the stamp of a row. -/
theorem Ahead.le_commit (h : Ahead stamp t) (hx : lookup key k t.committed = some x) :
    ∃ y, lookup key k (t.commit i).committed = some y ∧ stamp x ≤ stamp y := by
  cases hy : lookup key k (t.visible i) with
  | none =>
      rw [lookup_visible, hx] at hy
      simp at hy
  | some y =>
      refine ⟨y, hy, ?_⟩
      rcases visible_cases hy with hversion | hcommitted
      · exact h k i y x hversion hx
      · rw [hx] at hcommitted
        cases hcommitted
        exact le_refl _

end Versioned
end Relational
