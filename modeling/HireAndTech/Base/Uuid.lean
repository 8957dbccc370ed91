import Mathlib

/-!
# UUIDs, their canonical text, and timestamps

A UUID is a 128-bit number.  Its text is the usual 36-character form: 32
lowercase hexadecimal digits in groups of 8, 4, 4, 4 and 12.  A timestamp is a
number of microseconds.

Main results:

- Theorem {lit}`UUID.toList_str_length`: the text has 36 characters.
- Theorem {lit}`UUID.str_injective`: different UUIDs have different texts.
-/

namespace HireAndTech

/-- A UUID, ordered as PostgreSQL orders its `uuid` type. -/
abbrev UUID := Fin (2 ^ 128)

instance UUID.neZero : NeZero (2 ^ 128) :=
  ⟨by norm_num⟩

instance UUID.lawfulBEq : LawfulBEq UUID :=
  inferInstance

/-- A timestamp in microseconds. -/
abbrev Time := Nat

/-- The {lit}`width` low hexadecimal digits of a number, most significant first. -/
def hexDigits : Nat → Nat → List Char
  | 0, _ => []
  | width + 1, n => hexDigits width (n / 16) ++ [Nat.digitChar (n % 16)]

/-- The four hyphens of the canonical form. -/
def hyphenate (digits : List Char) : List Char :=
  digits.take 8 ++ '-' :: ((digits.drop 8).take 4 ++ '-' :: ((digits.drop 12).take 4 ++
    '-' :: ((digits.drop 16).take 4 ++ '-' :: digits.drop 20)))

/-- `str(uuid)`. -/
def UUID.str (u : UUID) : String :=
  String.ofList (hyphenate (hexDigits 32 u.val))

@[simp]
theorem hexDigits_length (width n : Nat) : (hexDigits width n).length = width := by
  induction width generalizing n with
  | zero => rfl
  | succ width ih => simp [hexDigits, ih]

theorem digitChar_inj {m n : Nat} (hm : m < 16) (hn : n < 16)
    (h : Nat.digitChar m = Nat.digitChar n) : m = n := by
  have hall : ∀ a < 16, ∀ b < 16, Nat.digitChar a = Nat.digitChar b → a = b := by decide
  exact hall m hm n hn h

theorem hexDigits_inj {width m n : Nat} (hm : m < 16 ^ width) (hn : n < 16 ^ width)
    (h : hexDigits width m = hexDigits width n) : m = n := by
  induction width generalizing m n with
  | zero =>
      simp only [pow_zero] at hm hn
      omega
  | succ width ih =>
      simp only [hexDigits] at h
      obtain ⟨hhigh, hlow⟩ := List.append_inj' h rfl
      have hdiv : m / 16 = n / 16 := by
        rw [pow_succ] at hm hn
        exact ih (by omega) (by omega) hhigh
      have hmod : m % 16 = n % 16 :=
        digitChar_inj (by omega) (by omega) (by simpa using hlow)
      omega

theorem hyphenate_length {digits : List Char} (h : digits.length = 32) :
    (hyphenate digits).length = 36 := by
  simp [hyphenate, h]

/-- The groups between the hyphens give the digits back. -/
theorem hyphenate_inj {xs ys : List Char} (hx : xs.length = 32) (hy : ys.length = 32)
    (h : hyphenate xs = hyphenate ys) : xs = ys := by
  have split4 : ∀ l : List Char, l = l.take 8 ++ ((l.drop 8).take 4 ++ ((l.drop 12).take 4 ++
      ((l.drop 16).take 4 ++ l.drop 20))) := by
    intro l
    have step : ∀ a b : Nat, (l.drop a).take b ++ l.drop (a + b) = l.drop a := by
      intro a b
      rw [← List.drop_drop, List.take_append_drop]
    rw [step 16 4, step 12 4, step 8 4, List.take_append_drop]
  unfold hyphenate at h
  obtain ⟨h₁, h⟩ := List.append_inj h (by simp [hx, hy])
  obtain ⟨h₂, h⟩ := List.append_inj (List.tail_eq_of_cons_eq h) (by simp [hx, hy])
  obtain ⟨h₃, h⟩ := List.append_inj (List.tail_eq_of_cons_eq h) (by simp [hx, hy])
  obtain ⟨h₄, h⟩ := List.append_inj (List.tail_eq_of_cons_eq h) (by simp [hx, hy])
  have h₅ := List.tail_eq_of_cons_eq h
  rw [split4 xs, split4 ys, h₁, h₂, h₃, h₄, h₅]

theorem UUID.toList_str_length (u : UUID) : u.str.toList.length = 36 := by
  simp [UUID.str, hyphenate_length]

/-- Different UUIDs have different texts. -/
theorem UUID.str_injective : Function.Injective UUID.str := by
  intro u v h
  have htext : hyphenate (hexDigits 32 u.val) = hyphenate (hexDigits 32 v.val) := by
    simpa [UUID.str] using congrArg String.toList h
  have hdigits := hyphenate_inj (hexDigits_length 32 _) (hexDigits_length 32 _) htext
  exact Fin.ext (hexDigits_inj (by have := u.isLt; norm_num at this ⊢; omega)
    (by have := v.isLt; norm_num at this ⊢; omega) hdigits)

end HireAndTech
