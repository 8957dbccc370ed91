import Mathlib

/-!
# Windows on a circle

Positions modulo a number, taken a fixed number at a time.  The next window begins where the last
one has ended.

Main results:

- Definition {lit}`window`: the positions from a start on.
- Theorem {lit}`nodup_window`: a window that is no longer than the circle has no position twice.
- Theorem {lit}`exists_mem_window`: enough windows in a row have every position.
-/

namespace Base

variable {n b start p k : ℕ}

/-- {lit}`b` positions modulo {lit}`n` from a start on. -/
def window (n b start : ℕ) : List ℕ :=
  (List.range b).map fun i => (start + i) % n

theorem mem_window_iff : p ∈ window n b start ↔ ∃ i < b, (start + i) % n = p := by
  simp [window]

@[simp]
theorem length_window : (window n b start).length = b := by
  simp [window]

theorem nodup_window (hb : b ≤ n) : (window n b start).Nodup := by
  rw [window, List.nodup_map_iff_inj_on List.nodup_range]
  intro i hi j hj hij
  rw [List.mem_range] at hi hj
  have hmod : i ≡ j [MOD n] := Nat.ModEq.add_left_cancel' start hij
  rwa [Nat.ModEq, Nat.mod_eq_of_lt (by omega), Nat.mod_eq_of_lt (by omega)] at hmod

/-- Windows that have the length of the circle together have every position. -/
theorem exists_mem_window (hp : p < n) (hb : 0 < b) (hk : n ≤ k * b) :
    ∃ j < k, p ∈ window n b ((start + j * b) % n) := by
  -- the distance of the position from the start
  obtain ⟨d, hd, hdistance⟩ : ∃ d < n, (start + d) % n = p := by
    refine ⟨(p + (n - start % n)) % n, Nat.mod_lt _ (by omega), ?_⟩
    have hstart : start % n < n := Nat.mod_lt _ (by omega)
    calc
      (start + (p + (n - start % n)) % n) % n = (start % n + (p + (n - start % n))) % n := by
        rw [Nat.add_mod_mod, Nat.mod_add_mod]
      _ = (p + n) % n := by
        congr 1
        omega
      _ = p := by rw [Nat.add_mod_right, Nat.mod_eq_of_lt hp]
  refine ⟨d / b, Nat.div_lt_of_lt_mul (by rw [Nat.mul_comm]; omega), ?_⟩
  refine mem_window_iff.mpr ⟨d % b, Nat.mod_lt _ hb, ?_⟩
  rw [Nat.mod_add_mod, Nat.add_assoc, Nat.div_add_mod', hdistance]

end Base
