import Mathlib

/-!
# Computations that may raise

A computation that calls another one does not raise if the other one does not, and the rest does
not raise on its result.

A loop over a list does not raise if no step of it raises.  A loop that stops at the first result
is decided by one item: the first one that gives a result or raises.

Main results:

- Definition {lit}`firstResult`: the loop.
- Theorem {lit}`isOk_firstResult_iff`: when the loop does not raise.
-/

namespace Runs

variable {ε ε' α β : Type}

@[simp]
theorem isOk_ok (a : α) : (Except.ok a : Except ε α).isOk = true :=
  rfl

@[simp]
theorem isOk_error (e : ε) : (Except.error e : Except ε α).isOk = false :=
  rfl

theorem isOk_iff {x : Except ε α} : x.isOk = true ↔ ∃ a, x = .ok a := by
  cases x <;> simp

@[simp]
theorem ok_bind (a : α) (f : α → Except ε β) : (Except.ok a >>= f) = f a :=
  rfl

@[simp]
theorem error_bind (e : ε) (f : α → Except ε β) : (Except.error e >>= f) = .error e :=
  rfl

theorem bind_eq_ok_iff {x : Except ε α} {f : α → Except ε β} {b : β} :
    (x >>= f) = .ok b ↔ ∃ a, x = .ok a ∧ f a = .ok b := by
  cases x <;> simp

theorem map_eq_ok_iff {x : Except ε α} {f : α → β} {b : β} :
    x.map f = .ok b ↔ ∃ a, x = .ok a ∧ f a = b := by
  cases x <;> simp [Except.map]

theorem mapError_eq_ok_iff {x : Except ε α} {f : ε → ε'} {a : α} :
    x.mapError f = .ok a ↔ x = .ok a := by
  cases x <;> simp [Except.mapError]

theorem isOk_bind_iff {x : Except ε α} {f : α → Except ε β} :
    (x >>= f).isOk = true ↔ ∃ a, x = .ok a ∧ (f a).isOk = true := by
  cases x <;> simp

@[simp]
theorem isOk_bind_return {x : Except ε α} (f : α → β) :
    (x >>= fun a => (return f a)).isOk = x.isOk := by
  cases x <;> rfl

@[simp]
theorem isOk_map {x : Except ε α} (f : α → β) : (x.map f).isOk = x.isOk := by
  cases x <;> rfl

@[simp]
theorem isOk_mapError {x : Except ε α} (f : ε → ε') : (x.mapError f).isOk = x.isOk := by
  cases x <;> rfl

theorem toOption_eq_some_iff {x : Except ε α} {a : α} : x.toOption = some a ↔ x = .ok a := by
  cases x <;> simp [Except.toOption]

/-! ## Loops -/

/-- A list of fallible steps succeeds when each of them does. -/
theorem mapM_isOk_iff {f : α → Except ε β} {xs : List α} :
    (∃ ys, xs.mapM f = .ok ys) ↔ ∀ x ∈ xs, ∃ y, f x = .ok y := by
  induction xs with
  | nil => exact ⟨fun _ x hx => absurd hx List.not_mem_nil, fun _ => ⟨[], rfl⟩⟩
  | cons x xs ih =>
      rw [List.mapM_cons, List.forall_mem_cons, ← ih]
      cases hx : f x with
      | error e => simp [bind, Except.bind]
      | ok y =>
          cases hxs : xs.mapM f with
          | error e => simp [bind, Except.bind]
          | ok ys => simp [bind, Except.bind, pure, Except.pure]

/-- The results of a list of fallible steps, one by one. -/
theorem mapM_eq_ok_iff {f : α → Except ε β} {xs : List α} {ys : List β} :
    xs.mapM f = .ok ys ↔ List.Forall₂ (fun x y => f x = .ok y) xs ys := by
  induction xs generalizing ys with
  | nil => simp [pure, Except.pure, eq_comm]
  | cons x xs ih =>
      rw [List.mapM_cons, bind_eq_ok_iff, List.forall₂_cons_left_iff]
      constructor
      · rintro ⟨y, hy, hrest⟩
        obtain ⟨ys', hys', hcons⟩ := bind_eq_ok_iff.mp hrest
        cases hcons
        exact ⟨y, ys', hy, ih.mp hys', rfl⟩
      · rintro ⟨y, ys', hy, hys', rfl⟩
        exact ⟨y, hy, bind_eq_ok_iff.mpr ⟨ys', ih.mpr hys', rfl⟩⟩

/-- What holds of all results holds when something else holds of all items. -/
theorem forall_mem_iff_of_forall₂ {R : α → β → Prop} {P : α → Prop} {Q : β → Prop} {xs : List α}
    {ys : List β} (h : List.Forall₂ R xs ys) (hiff : ∀ x ∈ xs, ∀ y, R x y → (Q y ↔ P x)) :
    (∀ y ∈ ys, Q y) ↔ ∀ x ∈ xs, P x := by
  induction h with
  | nil => simp
  | @cons x y xs ys hxy _ ih =>
      rw [List.forall_mem_cons, List.forall_mem_cons, hiff x List.mem_cons_self y hxy,
        ih fun x' hx' => hiff x' (List.mem_cons_of_mem x hx')]

/-- The result of the first item that gives one. -/
def firstResult (f : α → Except ε (Option β)) : List α → Except ε (Option β)
  | [] => .ok none
  | x :: xs => do
      match ← f x with
      | some y => return some y
      | none => firstResult f xs

section

variable {f : α → Except ε (Option β)} {decisive : α → Bool} {xs : List α}

/-- The loop is decided by the first item that does not pass. -/
theorem firstResult_eq (hpass : ∀ x ∈ xs, decisive x = false → f x = .ok none)
    (hdecide : ∀ x ∈ xs, decisive x = true → f x ≠ .ok none) :
    firstResult f xs = ((xs.find? decisive).map f).getD (.ok none) := by
  induction xs with
  | nil => rfl
  | cons x xs ih =>
      rw [firstResult, List.find?_cons]
      cases hx : decisive x with
      | false =>
          rw [hpass x List.mem_cons_self hx, ok_bind]
          exact ih (fun y hy => hpass y (List.mem_cons_of_mem x hy))
            fun y hy => hdecide y (List.mem_cons_of_mem x hy)
      | true =>
          have hfirst := hdecide x List.mem_cons_self hx
          cases hfx : f x with
          | error e => simp [hfx]
          | ok y =>
              cases y with
              | none => exact absurd hfx hfirst
              | some y =>
                  rw [ok_bind, Option.map_some, Option.getD_some, hfx]
                  rfl

theorem isOk_firstResult_iff (hpass : ∀ x ∈ xs, decisive x = false → f x = .ok none)
    (hdecide : ∀ x ∈ xs, decisive x = true → f x ≠ .ok none) :
    (firstResult f xs).isOk = true ↔ ∀ x ∈ xs.find? decisive, (f x).isOk = true := by
  rw [firstResult_eq hpass hdecide]
  cases xs.find? decisive <;> simp

end

end Runs
