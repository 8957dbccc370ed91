import HireAndTech.Text.Replace

/-!
# Unescaping of Glassdoor pages

The script of a Glassdoor page pushes its data as JSON string literals.  The collector undoes
the escapes of a literal by global replacements, one after the other.

Texts are lists of code points, surrogates included.

Main results:

- Definitions {lit}`literal` and {lit}`unescape`: the literal of a text, and the replacements.
- Theorem {lit}`unescape_literal_iff`: which texts the replacements give back.
-/

namespace HireAndTech
namespace Sources
namespace Glassdoor

open Replace

/-- The code points of a text. -/
def codes (text : String) : List Nat :=
  text.toList.map Char.toNat

/-! ## String literals -/

/-- A letter or a digit of ASCII. -/
def isAlnum (c : Nat) : Bool :=
  (48 ≤ c && c ≤ 57) || (65 ≤ c && c ≤ 90) || (97 ≤ c && c ≤ 122)

/-- A writer of JSON: the characters beyond the control characters that it writes as unicode
escapes, none of which is a letter or a digit of ASCII. -/
structure Writer where
  escapes : Nat → Bool
  alnum : ∀ c, isAlnum c = true → escapes c = false

/-- A hexadecimal digit. -/
def hexDigit (d : Nat) : Nat :=
  if d < 10 then 48 + d else 87 + d

/-- A unicode escape of a code unit. -/
def unicodeEscape (v : Nat) : List Nat :=
  [92, 117, hexDigit (v / 4096 % 16), hexDigit (v / 256 % 16), hexDigit (v / 16 % 16),
    hexDigit (v % 16)]

/-- The letter of a short escape. -/
def shortEscape (c : Nat) : Option Nat :=
  if c = 34 then some 34
  else if c = 92 then some 92
  else if c = 8 then some 98
  else if c = 12 then some 102
  else if c = 10 then some 110
  else if c = 13 then some 114
  else if c = 9 then some 116
  else none

variable (w : Writer)

/-- A character of a literal.  A character beyond the basic plane is escaped as two code
units. -/
def escape (c : Nat) : List Nat :=
  match shortEscape c with
  | some letter => [92, letter]
  | none =>
      if c < 32 ∨ w.escapes c then
        if c < 0x10000 then unicodeEscape c
        else
          let n := c - 0x10000
          unicodeEscape (0xD800 + n / 1024 % 1024) ++ unicodeEscape (0xDC00 + n % 1024)
      else [c]

/-- The body of the literal of a text. -/
def literal (s : List Nat) : List Nat :=
  s.flatMap (escape w)

/-! ## The replacements -/

/-- The value of a hexadecimal digit. -/
def hexValue (c : Nat) : Option Nat :=
  if 48 ≤ c ∧ c ≤ 57 then some (c - 48)
  else if 97 ≤ c ∧ c ≤ 102 then some (c - 87)
  else if 65 ≤ c ∧ c ≤ 70 then some (c - 55)
  else none

/-- The value of four hexadecimal digits. -/
def hexQuad (a b c d : Nat) : Option Nat := do
  let a ← hexValue a
  let b ← hexValue b
  let c ← hexValue c
  let d ← hexValue d
  return ((a * 16 + b) * 16 + c) * 16 + d

/-- The substitution of unicode escapes. -/
def replaceUnicode : List Nat → List Nat
  | 92 :: 117 :: a :: b :: c :: d :: rest =>
      match hexQuad a b c d with
      | some v => v :: replaceUnicode rest
      | none => 92 :: replaceUnicode (117 :: a :: b :: c :: d :: rest)
  | x :: rest => x :: replaceUnicode rest
  | [] => []

/-- The replacements of quotes, backslashes, newlines and tabs. -/
def replaceShort (text : List Nat) : List Nat :=
  replacePair 92 116 [9] (replacePair 92 110 [10] (replacePair 92 92 [92]
    (replacePair 92 34 [34] text)))

/-- The replacements of {lit}`_parse_search_response`. -/
def unescape (raw : List Nat) : List Nat :=
  replaceShort (replaceUnicode raw)

/-- What the replacements make of the literal of a text. -/
def decoded (s : List Nat) : List Nat :=
  unescape (literal w s)

/-! ## Unicode escapes -/

section

variable {w} {c x v : Nat} {s rest text : List Nat}

theorem hexValue_hexDigit {d : Nat} (h : d < 16) : hexValue (hexDigit d) = some d := by
  unfold hexValue hexDigit
  split
  · rw [if_pos (by omega)]
    simp
  · rw [if_neg (by omega), if_pos (by omega)]
    simp

theorem isAlnum_of_hexValue (h : (hexValue c).isSome = true) : isAlnum c = true := by
  unfold hexValue at h
  simp only [isAlnum, Bool.or_eq_true, Bool.and_eq_true, decide_eq_true_eq]
  split at h
  · omega
  · split at h
    · omega
    · split at h
      · omega
      · contradiction

theorem isSome_of_hexQuad {a b c d : Nat} (h : hexQuad a b c d = some v) :
    (hexValue a).isSome = true ∧ (hexValue b).isSome = true ∧ (hexValue c).isSome = true ∧
      (hexValue d).isSome = true := by
  simp only [hexQuad, Option.bind_eq_bind, Option.bind_eq_some_iff] at h
  obtain ⟨_, ha, _, hb, _, hc, _, hd, _⟩ := h
  simp [ha, hb, hc, hd]

theorem replaceUnicode_cons_of_ne (h : x ≠ 92) :
    replaceUnicode (x :: rest) = x :: replaceUnicode rest := by
  rw [replaceUnicode]
  intro a b c d rest' hx
  exact absurd hx h

/-- A unicode escape at the beginning of a text. -/
def readEscape : List Nat → Option (Nat × List Nat)
  | 117 :: a :: b :: c :: d :: rest => (hexQuad a b c d).map (·, rest)
  | _ => none

theorem readEscape_eq_some {rest' : List Nat} (h : readEscape rest = some (v, rest')) :
    ∃ a b c d, rest = 117 :: a :: b :: c :: d :: rest' ∧ hexQuad a b c d = some v := by
  unfold readEscape at h
  split at h
  · rename_i a b c d rest''
    obtain ⟨v', hquad, heq⟩ := Option.map_eq_some_iff.mp h
    cases heq
    exact ⟨a, b, c, d, rfl, hquad⟩
  · contradiction

theorem replaceUnicode_of_none (h : readEscape rest = none) :
    replaceUnicode (x :: rest) = x :: replaceUnicode rest := by
  conv_lhs => unfold replaceUnicode
  split
  · rename_i a b c d rest' heq
    cases heq
    have hquad : hexQuad a b c d = none := by simpa [readEscape] using h
    simp only [hquad]
  · rename_i heq
    cases heq
    rfl
  · contradiction

theorem replaceUnicode_of_some {rest' : List Nat} (h : readEscape rest = some (v, rest')) :
    replaceUnicode (92 :: rest) = v :: replaceUnicode rest' := by
  obtain ⟨a, b, c, d, rfl, hquad⟩ := readEscape_eq_some h
  rw [replaceUnicode, hquad]

theorem replaceUnicode_unicodeEscape (h : v < 0x10000) :
    replaceUnicode (unicodeEscape v ++ rest) = v :: replaceUnicode rest := by
  apply replaceUnicode_of_some
  have hquad : hexQuad (hexDigit (v / 4096 % 16)) (hexDigit (v / 256 % 16))
      (hexDigit (v / 16 % 16)) (hexDigit (v % 16)) = some v := by
    have hdigit : ∀ n, hexValue (hexDigit (n % 16)) = some (n % 16) := fun n =>
      hexValue_hexDigit (Nat.mod_lt n (by omega))
    simp only [hexQuad, hdigit, Option.bind_eq_bind, Option.bind_some, Option.pure_def,
      Option.some.injEq]
    omega
  simp [readEscape, hquad]

end

/-! ## Short escapes -/

section

variable {x y : Nat} {text : List Nat}

@[simp]
theorem replaceShort_nil : replaceShort [] = [] :=
  rfl

theorem replaceShort_cons_of_ne (h : x ≠ 92) :
    replaceShort (x :: text) = x :: replaceShort text := by
  simp only [replaceShort, replacePair_cons_of_ne h]

theorem replaceShort_quote : replaceShort (92 :: 34 :: text) = 34 :: replaceShort text := by
  simp [replaceShort, replacePair_pair, replacePair_cons_of_ne]

theorem replaceShort_newline : replaceShort (92 :: 110 :: text) = 10 :: replaceShort text := by
  simp [replaceShort, replacePair_pair, replacePair_cons_of_ne, replacePair_cons_cons_of_ne]

theorem replaceShort_tab : replaceShort (92 :: 116 :: text) = 9 :: replaceShort text := by
  simp [replaceShort, replacePair_pair, replacePair_cons_of_ne, replacePair_cons_cons_of_ne]

/-- A backslash before any other character is kept. -/
theorem replaceShort_other (h : y ≠ 34 ∧ y ≠ 92 ∧ y ≠ 110 ∧ y ≠ 116) :
    replaceShort (92 :: y :: text) = 92 :: y :: replaceShort text := by
  simp [replaceShort, replacePair_cons_of_ne, replacePair_cons_cons_of_ne, h]

/-- Two backslashes become one, which is kept when no letter of an escape follows. -/
theorem replaceShort_backslash (hquote : text.head? ≠ some 34) (hn : text.head? ≠ some 110)
    (ht : text.head? ≠ some 116) :
    replaceShort (92 :: 92 :: text) = 92 :: replaceShort text := by
  have hquotes : (replacePair 92 34 [34] (92 :: 92 :: text)) =
      92 :: 92 :: replacePair 92 34 [34] text := by
    rw [replacePair_cons_of_head (by simp), replacePair_cons_of_head hquote]
  have hn' : (replacePair 92 92 [92] (replacePair 92 34 [34] text)).head? ≠ some 110 := by
    apply head_replacePair_ne _ (by simp) (by simp)
    exact head_replacePair_ne hn (by simp) (by simp)
  have ht' : (replacePair 92 110 [10] (replacePair 92 92 [92]
      (replacePair 92 34 [34] text))).head? ≠ some 116 := by
    apply head_replacePair_ne _ (by simp) (by simp)
    apply head_replacePair_ne _ (by simp) (by simp)
    exact head_replacePair_ne ht (by simp) (by simp)
  rw [replaceShort, hquotes, replacePair_pair, List.singleton_append,
    replacePair_cons_of_head hn', replacePair_cons_of_head ht']
  rfl

theorem replaceShort_backslash_newline :
    replaceShort (92 :: 92 :: 110 :: text) = 10 :: replaceShort text := by
  simp [replaceShort, replacePair_pair, replacePair_cons_of_ne, replacePair_cons_cons_of_ne]

theorem replaceShort_backslash_tab :
    replaceShort (92 :: 92 :: 116 :: text) = 9 :: replaceShort text := by
  simp [replaceShort, replacePair_pair, replacePair_cons_of_ne, replacePair_cons_cons_of_ne]

end

/-! ## Literals -/

section

variable {w : Writer} {c x v : Nat} {s rest : List Nat}

theorem literal_cons : literal w (c :: s) = escape w c ++ literal w s :=
  List.flatMap_cons

theorem escape_alnum (h : isAlnum c = true) : escape w c = [c] := by
  have hescapes := w.alnum c h
  simp only [isAlnum, Bool.or_eq_true, Bool.and_eq_true, decide_eq_true_eq] at h
  have hother : c ≠ 34 ∧ c ≠ 92 ∧ c ≠ 8 ∧ c ≠ 12 ∧ c ≠ 10 ∧ c ≠ 13 ∧ c ≠ 9 := by omega
  have hshort : shortEscape c = none := by simp [shortEscape, hother]
  rw [escape, hshort]
  dsimp only
  rw [if_neg (by rw [hescapes]; simp; omega)]

/-- The escape of another character begins with a backslash or with the character itself. -/
theorem head_escape (c : Nat) :
    (∃ tail, escape w c = 92 :: tail) ∨ (escape w c = [c] ∧ c ≠ 34 ∧ c ≠ 92) := by
  unfold escape
  cases hshort : shortEscape c with
  | some letter => exact Or.inl ⟨_, rfl⟩
  | none =>
      dsimp only
      split
      · split
        · exact Or.inl ⟨_, rfl⟩
        · exact Or.inl ⟨_, rfl⟩
      · refine Or.inr ⟨rfl, ?_, ?_⟩
        · rintro rfl
          contradiction
        · rintro rfl
          contradiction

/-- A letter or digit in the literal stands for itself. -/
theorem literal_alnum (hx : isAlnum x = true) (h : literal w s = x :: rest) :
    ∃ s', s = x :: s' ∧ rest = literal w s' := by
  have hne : x ≠ 92 := by
    rintro rfl
    contradiction
  cases s with
  | nil => contradiction
  | cons c s =>
      rw [literal_cons] at h
      cases head_escape (w := w) c with
      | inl htail =>
          obtain ⟨tail, htail⟩ := htail
          rw [htail] at h
          exact absurd (List.cons.inj h).1.symm hne
      | inr hself =>
          rw [hself.1] at h
          obtain ⟨rfl, hrest⟩ := List.cons.inj h
          exact ⟨s, rfl, hrest.symm⟩

/-- Only the characters of an escape are read as one. -/
theorem readEscape_literal (h : readEscape (literal w s) = some (v, rest)) :
    ∃ s', readEscape s = some (v, s') ∧ rest = literal w s' := by
  obtain ⟨a, b, c, d, hliteral, hquad⟩ := readEscape_eq_some h
  obtain ⟨ha, hb, hc, hd⟩ := isSome_of_hexQuad hquad
  obtain ⟨s₁, rfl, h₁⟩ := literal_alnum rfl hliteral
  obtain ⟨s₂, rfl, h₂⟩ := literal_alnum (isAlnum_of_hexValue ha) h₁.symm
  obtain ⟨s₃, rfl, h₃⟩ := literal_alnum (isAlnum_of_hexValue hb) h₂.symm
  obtain ⟨s₄, rfl, h₄⟩ := literal_alnum (isAlnum_of_hexValue hc) h₃.symm
  obtain ⟨s₅, rfl, h₅⟩ := literal_alnum (isAlnum_of_hexValue hd) h₄.symm
  exact ⟨s₅, by simp [readEscape, hquad], h₅⟩

theorem literal_readEscape {s' : List Nat} (h : readEscape s = some (v, s')) :
    readEscape (literal w s) = some (v, literal w s') := by
  obtain ⟨a, b, c, d, rfl, hquad⟩ := readEscape_eq_some h
  obtain ⟨ha, hb, hc, hd⟩ := isSome_of_hexQuad hquad
  simp only [literal_cons, escape_alnum (isAlnum_of_hexValue ha),
    escape_alnum (isAlnum_of_hexValue hb), escape_alnum (isAlnum_of_hexValue hc),
    escape_alnum (isAlnum_of_hexValue hd), escape_alnum (rfl : isAlnum 117 = true),
    List.singleton_append]
  simp [readEscape, hquad]

/-- The substitution leaves short escapes alone. -/
theorem replaceUnicode_short {letter : Nat} (hbackslash : letter ≠ 92) (hu : letter ≠ 117) :
    replaceUnicode (92 :: letter :: rest) = 92 :: letter :: replaceUnicode rest := by
  have hnone : readEscape (letter :: rest) = none := by
    cases hread : readEscape (letter :: rest) with
    | none => rfl
    | some found =>
        obtain ⟨v, rest'⟩ := found
        obtain ⟨_, _, _, _, heq, _⟩ := readEscape_eq_some hread
        exact absurd (List.cons.inj heq).1 hu
  rw [replaceUnicode_of_none hnone, replaceUnicode_cons_of_ne hbackslash]

theorem shortEscape_letter {letter : Nat} (h : shortEscape c = some letter) (hc : c ≠ 92) :
    letter ≠ 92 ∧ letter ≠ 117 := by
  unfold shortEscape at h
  split_ifs at h <;> simp_all <;> omega

/-- The literal of a text after the first substitution. -/
def substituted (w : Writer) (s : List Nat) : List Nat :=
  replaceUnicode (literal w s)

theorem substituted_short {letter : Nat} (h : shortEscape c = some letter) (hc : c ≠ 92) :
    substituted w (c :: s) = 92 :: letter :: substituted w s := by
  obtain ⟨hbackslash, hu⟩ := shortEscape_letter h hc
  rw [substituted, literal_cons, escape, h]
  exact replaceUnicode_short hbackslash hu

/-- A character without a short escape is restored. -/
theorem substituted_plain (h : shortEscape c = none) (hpair : w.escapes c = true → c < 0x10000) :
    substituted w (c :: s) = c :: substituted w s := by
  have hc : c ≠ 92 := by
    rintro rfl
    contradiction
  rw [substituted, literal_cons, escape, h]
  dsimp only
  by_cases hescaped : c < 32 ∨ w.escapes c = true
  · have hbasic : c < 0x10000 := by
      cases hescaped with
      | inl hcontrol => omega
      | inr hescapes => exact hpair hescapes
    rw [if_pos hescaped, if_pos hbasic, replaceUnicode_unicodeEscape hbasic]
    rfl
  · rw [if_neg hescaped]
    exact replaceUnicode_cons_of_ne hc

/-- A character that is written as a pair becomes two characters. -/
theorem substituted_pair (hescapes : w.escapes c = true) (hpair : ¬c < 0x10000) :
    ∃ high low, substituted w (c :: s) = high :: low :: substituted w s ∧
      0xD800 ≤ high ∧ high < 0xDC00 ∧ 0xDC00 ≤ low := by
  have hother : c ≠ 34 ∧ c ≠ 92 ∧ c ≠ 8 ∧ c ≠ 12 ∧ c ≠ 10 ∧ c ≠ 13 ∧ c ≠ 9 := by omega
  have hshort : shortEscape c = none := by simp [shortEscape, hother]
  refine ⟨0xD800 + (c - 0x10000) / 1024 % 1024, 0xDC00 + (c - 0x10000) % 1024, ?_, by omega,
    by omega, by omega⟩
  rw [substituted, literal_cons, escape, hshort]
  dsimp only
  rw [if_pos (Or.inr hescapes), if_neg hpair, List.append_assoc,
    replaceUnicode_unicodeEscape (by omega), replaceUnicode_unicodeEscape (by omega)]
  rfl

theorem substituted_backslash (h : readEscape s = none) :
    substituted w (92 :: s) = 92 :: 92 :: substituted w s := by
  have hliteral : readEscape (literal w s) = none := by
    cases hread : readEscape (literal w s) with
    | none => rfl
    | some found =>
        obtain ⟨s', hs', _⟩ := readEscape_literal hread
        rw [hs'] at h
        contradiction
  have hfirst : readEscape (92 :: literal w s) = none := rfl
  rw [substituted, literal_cons]
  change replaceUnicode (92 :: 92 :: literal w s) = _
  rw [replaceUnicode_of_none hfirst, replaceUnicode_of_none hliteral]
  rfl

/-- A backslash before what looks like an escape takes it for one. -/
theorem substituted_escape {s' : List Nat} (h : readEscape s = some (v, s')) :
    substituted w (92 :: s) = 92 :: v :: substituted w s' := by
  have hfirst : readEscape (92 :: literal w s) = none := rfl
  rw [substituted, literal_cons]
  change replaceUnicode (92 :: 92 :: literal w s) = _
  rw [replaceUnicode_of_none hfirst, replaceUnicode_of_some (literal_readEscape h)]
  rfl

/-- After the first substitution a letter at the beginning comes from the text. -/
theorem head_substituted (hx : x = 34 ∨ isAlnum x = true) (h : (substituted w s).head? = some x) :
    x ≠ 34 ∧ ∃ s', s = x :: s' := by
  have hne : x ≠ 92 := by
    rintro rfl
    exact hx.elim (by decide) (by decide)
  cases s with
  | nil => contradiction
  | cons c s =>
      by_cases hc : c = 92
      · exfalso
        rw [hc] at h
        cases hread : readEscape s with
        | none =>
            rw [substituted_backslash hread] at h
            exact hne (Option.some.inj h).symm
        | some found =>
            rw [substituted_escape hread] at h
            exact hne (Option.some.inj h).symm
      · cases hshort : shortEscape c with
        | some letter =>
            rw [substituted_short hshort hc] at h
            exact absurd (Option.some.inj h).symm hne
        | none =>
            by_cases hpair : w.escapes c = true → c < 0x10000
            · rw [substituted_plain hshort hpair] at h
              have hcx : c = x := Option.some.inj h
              refine ⟨?_, s, by rw [hcx]⟩
              rintro rfl
              rw [hcx] at hshort
              contradiction
            · exfalso
              obtain ⟨hescapes, hlarge⟩ := Classical.not_imp.mp hpair
              obtain ⟨high, low, hsub, hlow, hhigh, _⟩ :=
                substituted_pair (s := s) hescapes hlarge
              rw [hsub] at h
              have hxhigh : high = x := Option.some.inj h
              simp only [isAlnum, Bool.or_eq_true, Bool.and_eq_true, decide_eq_true_eq] at hx
              omega

/-! ## Decoding step by step -/

theorem decoded_eq (w : Writer) (s : List Nat) : decoded w s = replaceShort (substituted w s) :=
  rfl

/-- A character with a short escape that no replacement undoes. -/
def isLost (c : Nat) : Bool :=
  c = 8 || c = 12 || c = 13

/-- A character other than the backslash is restored, unless its short escape is lost. -/
theorem decoded_kept (hc : c ≠ 92) (hlost : isLost c = false)
    (hpair : w.escapes c = true → c < 0x10000) : decoded w (c :: s) = c :: decoded w s := by
  rw [decoded_eq, decoded_eq]
  simp only [isLost, Bool.or_eq_false_iff, decide_eq_false_iff_not] at hlost
  by_cases hquote : c = 34
  · rw [hquote, substituted_short rfl (by decide), replaceShort_quote]
  by_cases hnewline : c = 10
  · rw [hnewline, substituted_short rfl (by decide), replaceShort_newline]
  by_cases htab : c = 9
  · rw [htab, substituted_short rfl (by decide), replaceShort_tab]
  have hshort : shortEscape c = none := by
    simp [shortEscape, hquote, hc, hlost, hnewline, htab]
  rw [substituted_plain hshort hpair, replaceShort_cons_of_ne hc]

/-- The escape of a lost character stays. -/
theorem decoded_lost (hlost : isLost c = true) :
    ∃ letter, decoded w (c :: s) = 92 :: letter :: decoded w s := by
  simp only [isLost, Bool.or_eq_true, decide_eq_true_eq] at hlost
  rw [decoded_eq, decoded_eq]
  obtain (rfl | rfl) | rfl := hlost
  · exact ⟨98, by rw [substituted_short rfl (by decide), replaceShort_other (by decide)]⟩
  · exact ⟨102, by rw [substituted_short rfl (by decide), replaceShort_other (by decide)]⟩
  · exact ⟨114, by rw [substituted_short rfl (by decide), replaceShort_other (by decide)]⟩

/-- A character that is written as a pair becomes two surrogates. -/
theorem decoded_pair (hescapes : w.escapes c = true) (hpair : ¬c < 0x10000) :
    ∃ high low, decoded w (c :: s) = high :: low :: decoded w s ∧
      0xD800 ≤ high ∧ high < 0xDC00 := by
  obtain ⟨high, low, hsub, hhigh, hhigh', hlow⟩ := substituted_pair (s := s) hescapes hpair
  refine ⟨high, low, ?_, hhigh, hhigh'⟩
  rw [decoded_eq, hsub, replaceShort_cons_of_ne (by omega), replaceShort_cons_of_ne (by omega)]
  rfl

/-- Two backslashes of the first substitution begin with a newline, a tab or a backslash. -/
theorem replaceShort_substituted (s : List Nat) :
    (∃ s', s = 110 :: s' ∧ replaceShort (92 :: 92 :: substituted w s) = 10 :: decoded w s') ∨
      (∃ s', s = 116 :: s' ∧ replaceShort (92 :: 92 :: substituted w s) = 9 :: decoded w s') ∨
      (s.head? ≠ some 110 ∧ s.head? ≠ some 116 ∧
        replaceShort (92 :: 92 :: substituted w s) = 92 :: decoded w s) := by
  by_cases hn : s.head? = some 110
  · obtain ⟨s', rfl⟩ : ∃ s', s = 110 :: s' := by
      cases s with
      | nil => contradiction
      | cons c s => exact ⟨s, by rw [Option.some.inj hn]⟩
    refine Or.inl ⟨s', rfl, ?_⟩
    rw [substituted_plain rfl (by intro h; omega), replaceShort_backslash_newline]
    rfl
  by_cases ht : s.head? = some 116
  · obtain ⟨s', rfl⟩ : ∃ s', s = 116 :: s' := by
      cases s with
      | nil => contradiction
      | cons c s => exact ⟨s, by rw [Option.some.inj ht]⟩
    refine Or.inr (Or.inl ⟨s', rfl, ?_⟩)
    rw [substituted_plain rfl (by intro h; omega), replaceShort_backslash_tab]
    rfl
  refine Or.inr (Or.inr ⟨hn, ht, ?_⟩)
  have hhead : ∀ x, x = 34 ∨ isAlnum x = true → s.head? ≠ some x ∨ x = 34 →
      (substituted w s).head? ≠ some x := by
    intro x hx hs h
    obtain ⟨hquote, s', rfl⟩ := head_substituted hx h
    exact hs.elim (fun hs => hs rfl) hquote
  exact replaceShort_backslash (hhead 34 (Or.inl rfl) (Or.inr rfl))
    (hhead 110 (Or.inr rfl) (Or.inl hn)) (hhead 116 (Or.inr rfl) (Or.inl ht))

/-- The text after a backslash makes an escape with it. -/
def EscapeFollows (s : List Nat) : Prop :=
  s.head? = some 110 ∨ s.head? = some 116 ∨ (readEscape s).isSome = true

/-- What the replacements make of a backslash. -/
inductive Backslash (w : Writer) (s : List Nat) : Prop
  | kept (hfollows : ¬EscapeFollows s) (h : decoded w (92 :: s) = 92 :: decoded w s)
  | replaced (y : Nat) (tail : List Nat) (hfollows : EscapeFollows s)
      (hy : y = 9 ∨ y = 10 ∨ y = 34) (h : decoded w (92 :: s) = y :: tail)
  | joined (s' : List Nat) (hread : readEscape s = some (92, s'))
      (h : decoded w (92 :: s) = 92 :: decoded w s')
  | substituted (v : Nat) (s' : List Nat) (hread : readEscape s = some (v, s'))
      (h : decoded w (92 :: s) = 92 :: v :: decoded w s')

theorem backslash_cases (w : Writer) (s : List Nat) : Backslash w s := by
  have heq := decoded_eq w (92 :: s)
  cases hread : readEscape s with
  | none =>
      rw [substituted_backslash hread] at heq
      rcases replaceShort_substituted (w := w) s with ⟨s', rfl, hs⟩ | ⟨s', rfl, hs⟩ | ⟨hn, ht, hs⟩
      · exact .replaced 10 _ (Or.inl rfl) (by simp) (heq.trans hs)
      · exact .replaced 9 _ (Or.inr (Or.inl rfl)) (by simp) (heq.trans hs)
      · exact .kept (by simp [EscapeFollows, hn, ht, hread]) (heq.trans hs)
  | some found =>
      obtain ⟨v, s'⟩ := found
      have hfollows : EscapeFollows s := by simp [EscapeFollows, hread]
      rw [substituted_escape hread] at heq
      by_cases hquote : v = 34
      · rw [hquote, replaceShort_quote] at heq
        exact .replaced 34 _ hfollows (by simp) heq
      by_cases hn : v = 110
      · rw [hn, replaceShort_newline] at heq
        exact .replaced 10 _ hfollows (by simp) heq
      by_cases ht : v = 116
      · rw [ht, replaceShort_tab] at heq
        exact .replaced 9 _ hfollows (by simp) heq
      by_cases hbackslash : v = 92
      · subst hbackslash
        rcases replaceShort_substituted (w := w) s' with ⟨_, _, hs⟩ | ⟨_, _, hs⟩ | ⟨_, _, hs⟩
        · exact .replaced 10 _ hfollows (by simp) (heq.trans hs)
        · exact .replaced 9 _ hfollows (by simp) (heq.trans hs)
        · exact .joined s' hread (heq.trans hs)
      · rw [replaceShort_other ⟨hquote, hbackslash, hn, ht⟩] at heq
        exact .substituted v s' hread heq

/-- A letter or digit at the beginning comes from the text. -/
theorem decoded_head (hx : isAlnum x = true) (h : (decoded w s).head? = some x) :
    ∃ s', s = x :: s' ∧ decoded w s = x :: decoded w s' := by
  simp only [isAlnum, Bool.or_eq_true, Bool.and_eq_true, decide_eq_true_eq] at hx
  have hhead : ∀ {y : Nat} {tail : List Nat}, decoded w s = y :: tail → y = x := by
    intro y tail heq
    rw [heq] at h
    exact Option.some.inj h
  cases s with
  | nil => contradiction
  | cons c s =>
      by_cases hc : c = 92
      · exfalso
        subst hc
        cases backslash_cases w s with
        | kept _ heq => have := hhead heq; omega
        | replaced y tail _ hy heq => have := hhead heq; omega
        | joined s' _ heq => have := hhead heq; omega
        | substituted v s' _ heq => have := hhead heq; omega
      by_cases hlost : isLost c = true
      · obtain ⟨letter, heq⟩ := decoded_lost (w := w) (s := s) hlost
        have := hhead heq
        omega
      by_cases hpair : w.escapes c = true → c < 0x10000
      · have heq := decoded_kept (s := s) hc (by simpa using hlost) hpair
        have hcx := hhead heq
        exact ⟨s, by rw [hcx], by rw [heq, hcx]⟩
      · obtain ⟨hescapes, hlarge⟩ := Classical.not_imp.mp hpair
        obtain ⟨high, low, heq, hlow, hhigh⟩ := decoded_pair (s := s) hescapes hlarge
        have := hhead heq
        omega

/-- The replacements never put letters or digits before a text. -/
theorem decoded_ne_append (s front : List Nat) (hnonempty : front ≠ [])
    (hfront : ∀ x ∈ front, isAlnum x = true) : decoded w s ≠ front ++ s := by
  induction s generalizing front with
  | nil =>
      intro h
      rw [List.append_nil] at h
      exact hnonempty h.symm
  | cons c s ih =>
      intro h
      cases front with
      | nil => exact hnonempty rfl
      | cons x front =>
          have hx : isAlnum x = true := hfront x List.mem_cons_self
          have hhead : (decoded w (c :: s)).head? = some x := by rw [h]; rfl
          obtain ⟨s', hs', hdecoded⟩ := decoded_head hx hhead
          obtain ⟨rfl, rfl⟩ := List.cons.inj hs'
          rw [hdecoded, List.cons_append] at h
          -- the letter moves to the end of the front
          apply ih (front ++ [c]) (by simp)
          · intro y hy
            cases List.mem_append.mp hy with
            | inl hmem => exact hfront y (List.mem_cons_of_mem _ hmem)
            | inr hlast => exact List.mem_singleton.mp hlast ▸ hx
          · rw [List.append_assoc]
            exact (List.cons.inj h).2

/-! ## Texts that are given back -/

/-- A backslash is given back exactly when no escape follows. -/
theorem decoded_backslash_iff :
    decoded w (92 :: s) = 92 :: s ↔ ¬EscapeFollows s ∧ decoded w s = s := by
  cases backslash_cases w s with
  | kept hfollows h => rw [h, List.cons.injEq]; simp [hfollows]
  | replaced y tail hfollows hy h =>
      rw [h, List.cons.injEq]
      constructor
      · rintro ⟨rfl, _⟩
        omega
      · rintro ⟨hnot, _⟩
        exact absurd hfollows hnot
  | joined s' hread h =>
      obtain ⟨a, b, c, d, rfl, hquad⟩ := readEscape_eq_some hread
      obtain ⟨ha, hb, hc, hd⟩ := isSome_of_hexQuad hquad
      apply iff_of_false
      · rw [h, List.cons.injEq, not_and]
        intro _
        exact decoded_ne_append s' [117, a, b, c, d] (by simp)
          (by simp [isAlnum_of_hexValue, ha, hb, hc, hd]; decide)
      · simp [EscapeFollows, hread]
  | substituted v s' hread h =>
      obtain ⟨a, b, c, d, rfl, hquad⟩ := readEscape_eq_some hread
      obtain ⟨ha, hb, hc, hd⟩ := isSome_of_hexQuad hquad
      apply iff_of_false
      · rw [h, List.cons.injEq, List.cons.injEq]
        rintro ⟨_, _, hrest⟩
        exact decoded_ne_append s' [a, b, c, d] (by simp)
          (by simp [isAlnum_of_hexValue, ha, hb, hc, hd]) hrest
      · simp [EscapeFollows, hread]

/-- Any other character is given back unless it is lost or written as a pair. -/
theorem decoded_cons_iff (hc : c ≠ 92) :
    decoded w (c :: s) = c :: s ↔
      (isLost c = false ∧ (w.escapes c = true → c < 0x10000)) ∧ decoded w s = s := by
  by_cases hlost : isLost c = true
  · obtain ⟨letter, h⟩ := decoded_lost (w := w) (s := s) hlost
    apply iff_of_false
    · rw [h, List.cons.injEq]
      rintro ⟨heq, _⟩
      exact hc heq.symm
    · simp [hlost]
  by_cases hpair : w.escapes c = true → c < 0x10000
  · rw [decoded_kept hc (by simpa using hlost) hpair, List.cons.injEq]
    constructor
    · intro h
      exact ⟨⟨by simpa using hlost, hpair⟩, h.2⟩
    · intro h
      exact ⟨rfl, h.2⟩
  · obtain ⟨hescapes, hlarge⟩ := Classical.not_imp.mp hpair
    obtain ⟨high, low, h, hlow, hhigh⟩ := decoded_pair (s := s) hescapes hlarge
    apply iff_of_false
    · rw [h, List.cons.injEq]
      rintro ⟨heq, _⟩
      omega
    · rintro ⟨⟨_, hsmall⟩, _⟩
      exact hpair hsmall

end

/-- The text has no backspace, form feed or carriage return and no character that is written
as a pair of escapes, and none of its backslashes is followed by the letters n or t, or by
the letter u and four hexadecimal digits. -/
structure Kept (w : Writer) (s : List Nat) : Prop where
  controls : ∀ c ∈ s, c ≠ 8 ∧ c ≠ 12 ∧ c ≠ 13
  pairs : ∀ c ∈ s, w.escapes c = true → c < 0x10000
  newline : ¬[92, 110] <:+: s
  tab : ¬[92, 116] <:+: s
  unicode : ∀ a b c d, (hexQuad a b c d).isSome = true → ¬[92, 117, a, b, c, d] <:+: s

section

variable {w : Writer} {c : Nat} {s : List Nat}

theorem isLost_eq_false : isLost c = false ↔ c ≠ 8 ∧ c ≠ 12 ∧ c ≠ 13 := by
  simp [isLost, and_assoc]

theorem kept_cons (hc : c ≠ 92) :
    Kept w (c :: s) ↔ (isLost c = false ∧ (w.escapes c = true → c < 0x10000)) ∧ Kept w s := by
  have hwithin : ∀ {tail : List Nat}, 92 :: tail <:+: c :: s ↔ 92 :: tail <:+: s := by
    intro tail
    rw [List.infix_cons_iff, List.cons_prefix_cons]
    constructor
    · rintro (⟨heq, _⟩ | h)
      · exact absurd heq.symm hc
      · exact h
    · exact Or.inr
  rw [isLost_eq_false]
  constructor
  · intro h
    exact ⟨⟨h.controls c List.mem_cons_self, h.pairs c List.mem_cons_self⟩,
      fun x hx => h.controls x (List.mem_cons_of_mem _ hx),
      fun x hx => h.pairs x (List.mem_cons_of_mem _ hx),
      fun hs => h.newline (hwithin.mpr hs), fun hs => h.tab (hwithin.mpr hs),
      fun a b d e hquad hs => h.unicode a b d e hquad (hwithin.mpr hs)⟩
  · rintro ⟨⟨hlost, hpair⟩, h⟩
    exact ⟨List.forall_mem_cons.mpr ⟨hlost, h.controls⟩,
      List.forall_mem_cons.mpr ⟨hpair, h.pairs⟩,
      fun hs => h.newline (hwithin.mp hs), fun hs => h.tab (hwithin.mp hs),
      fun a b d e hquad hs => h.unicode a b d e hquad (hwithin.mp hs)⟩

theorem head_eq_iff {x : Nat} : s.head? = some x ↔ [x] <+: s := by
  cases s with
  | nil => simp
  | cons c s => simp [eq_comm]

theorem readEscape_isSome :
    (readEscape s).isSome = true ↔
      ∃ a b c d, (hexQuad a b c d).isSome = true ∧ [117, a, b, c, d] <+: s := by
  constructor
  · intro h
    obtain ⟨⟨v, s'⟩, hread⟩ := Option.isSome_iff_exists.mp h
    obtain ⟨a, b, c, d, rfl, hquad⟩ := readEscape_eq_some hread
    exact ⟨a, b, c, d, by rw [hquad]; rfl, s', rfl⟩
  · rintro ⟨a, b, c, d, hquad, s', rfl⟩
    obtain ⟨v, hv⟩ := Option.isSome_iff_exists.mp hquad
    simp [readEscape, hv]

theorem kept_backslash : Kept w (92 :: s) ↔ ¬EscapeFollows s ∧ Kept w s := by
  have hwithin : ∀ {tail : List Nat}, 92 :: tail <:+: 92 :: s ↔ tail <+: s ∨ 92 :: tail <:+: s := by
    intro tail
    rw [List.infix_cons_iff, List.cons_prefix_cons]
    simp
  have hfollows : EscapeFollows s ↔ [110] <+: s ∨ [116] <+: s ∨
      ∃ a b c d, (hexQuad a b c d).isSome = true ∧ [117, a, b, c, d] <+: s := by
    rw [EscapeFollows, head_eq_iff, head_eq_iff, readEscape_isSome]
  rw [hfollows]
  constructor
  · intro h
    refine ⟨?_, fun x hx => h.controls x (List.mem_cons_of_mem _ hx),
      fun x hx => h.pairs x (List.mem_cons_of_mem _ hx),
      fun hs => h.newline (hwithin.mpr (Or.inr hs)), fun hs => h.tab (hwithin.mpr (Or.inr hs)),
      fun a b d e hquad hs => h.unicode a b d e hquad (hwithin.mpr (Or.inr hs))⟩
    rintro (hn | ht | ⟨a, b, c, d, hquad, hu⟩)
    · exact h.newline (hwithin.mpr (Or.inl hn))
    · exact h.tab (hwithin.mpr (Or.inl ht))
    · exact h.unicode a b c d hquad (hwithin.mpr (Or.inl hu))
  · rintro ⟨hnot, h⟩
    refine ⟨List.forall_mem_cons.mpr ⟨by decide, h.controls⟩,
      List.forall_mem_cons.mpr ⟨fun _ => by decide, h.pairs⟩, fun hs => ?_, fun hs => ?_,
      fun a b c d hquad hs => ?_⟩
    · exact (hwithin.mp hs).elim (fun hn => hnot (Or.inl hn)) h.newline
    · exact (hwithin.mp hs).elim (fun ht => hnot (Or.inr (Or.inl ht))) h.tab
    · exact (hwithin.mp hs).elim
        (fun hu => hnot (Or.inr (Or.inr ⟨a, b, c, d, hquad, hu⟩))) (h.unicode a b c d hquad)

end

/-- The replacements give a text back from the body of its literal exactly when it has no
control character whose short escape they do not know, no character written as a pair, and
no backslash that makes an escape with what follows. -/
theorem unescape_literal_iff (w : Writer) (s : List Nat) :
    unescape (literal w s) = s ↔ Kept w s := by
  change decoded w s = s ↔ Kept w s
  induction s with
  | nil =>
      apply iff_of_true rfl
      constructor <;> simp
  | cons c s ih =>
      by_cases hc : c = 92
      · rw [hc, decoded_backslash_iff, kept_backslash, ih]
      · rw [decoded_cons_iff hc, kept_cons hc, ih]

/-- A writer that escapes nothing but what it has to. -/
def plainWriter : Writer where
  escapes _ := false
  alnum _ _ := rfl

/-- The path of a folder whose name begins with the letter n. -/
theorem unescape_loses_path :
    unescape (literal plainWriter (codes "C:\\new")) ≠ codes "C:\\new" := by
  decide

end Glassdoor
end Sources
end HireAndTech
