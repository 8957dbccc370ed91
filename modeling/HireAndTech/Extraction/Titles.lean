import HireAndTech.Extraction.Skills
import HireAndTech.Text.Words

/-!
# Title case

What is known of {lit}`str.title`.  It maps a text character by character, so that spaces stay where
they are and no other character becomes one.

Main results:

- Definition {lit}`Titles`: a function on texts that agrees with {lit}`str.title` on ASCII, and maps
  the other characters one by one.
- Theorem {lit}`titles_titleAscii`: there is one.
- Theorem {lit}`Titled.joinWords`: the title case of words with single spaces has them too.
-/

namespace HireAndTech
namespace Extraction

open Text Catalogue

/-! ## The function -/

/-- `str.title` on ASCII: a letter after a letter becomes small, and another one becomes a
capital. -/
def titleFrom : Bool → List Char → List Char
  | _, [] => []
  | cased, c :: cs => (if cased then c.toLower else c.toUpper) :: titleFrom c.isAlpha cs

def titleAscii : List Char → List Char :=
  titleFrom false

/-- A character and the text that stands for it in title case. -/
structure TitledAs (c : Char) (piece : List Char) : Prop where
  ne_nil : piece ≠ []
  blank : c = ' ' → piece = [' ']
  space : ∀ d ∈ piece, isSpace d = isSpace c
  bundling : isBundling c = false → ∀ d ∈ piece, isBundling d = false
  letter : c.isAlpha = true → ∃ d ∈ piece, d.isAlpha = true

/-- A text and its title case. -/
inductive Titled : List Char → List Char → Prop
  | nil : Titled [] []
  | cons {c : Char} {cs piece out : List Char} :
      TitledAs c piece → Titled cs out → Titled (c :: cs) (piece ++ out)

/-- What is known of `str.title`. -/
structure Titles (title : List Char → List Char) : Prop where
  ascii : ∀ cs : List Char, (∀ c ∈ cs, c.toNat < 128) → title cs = titleAscii cs
  titled : ∀ cs, Titled cs (title cs)

/-! ## Texts -/

namespace Titled

variable {cs ds out : List Char}

theorem append_left (h : Titled (cs ++ ds) out) :
    ∃ first second, Titled cs first ∧ Titled ds second ∧ out = first ++ second := by
  induction cs generalizing out with
  | nil => exact ⟨[], out, .nil, h, rfl⟩
  | cons c cs ih =>
      cases h with
      | cons hpiece hrest =>
          obtain ⟨first, second, hfirst, hsecond, rfl⟩ := ih hrest
          exact ⟨_, second, .cons hpiece hfirst, hsecond, (List.append_assoc _ _ _).symm⟩

theorem length_le (h : Titled cs out) : cs.length ≤ out.length := by
  induction h with
  | nil => exact Nat.le_refl 0
  | cons hpiece _ ih =>
      have hpos := List.length_pos_of_ne_nil hpiece.ne_nil
      rw [List.length_cons, List.length_append]
      omega

theorem isBundling_eq_false (h : Titled cs out) (hcs : ∀ c ∈ cs, isBundling c = false) :
    ∀ d ∈ out, isBundling d = false := by
  induction h with
  | nil => exact hcs
  | cons hpiece _ ih =>
      obtain ⟨hc, hrest⟩ := List.forall_mem_cons.mp hcs
      intro d hd
      exact (List.mem_append.mp hd).elim (hpiece.bundling hc d) (ih hrest d)

theorem any_isAlpha (h : Titled cs out) (hcs : cs.any Char.isAlpha = true) :
    out.any Char.isAlpha = true := by
  induction h with
  | nil => exact hcs
  | cons hpiece _ ih =>
      rw [List.any_append, Bool.or_eq_true]
      rw [List.any_cons, Bool.or_eq_true] at hcs
      exact hcs.imp (fun hc => List.any_eq_true.mpr (hpiece.letter hc)) ih

/-- The title case of a word is a word. -/
theorem word (h : Titled cs out) (hne : cs ≠ []) (hcs : ∀ c ∈ cs, isSpace c = false) :
    out ≠ [] ∧ ∀ d ∈ out, isSpace d = false := by
  constructor
  · have hlength := h.length_le
    have hpos := List.length_pos_of_ne_nil hne
    exact List.ne_nil_of_length_pos (by omega)
  · clear hne
    induction h with
    | nil => exact hcs
    | cons hpiece _ ih =>
        obtain ⟨hc, hrest⟩ := List.forall_mem_cons.mp hcs
        intro d hd
        rcases List.mem_append.mp hd with hd | hd
        · rw [hpiece.space d hd, hc]
        · exact ih hrest d hd

theorem exists_words {parts : List (List Char)} (h : Titled ([' '].intercalate parts) out)
    (hparts : ∀ part ∈ parts, part ≠ [] ∧ ∀ d ∈ part, isSpace d = false) :
    ∃ parts', out = [' '].intercalate parts' ∧ parts'.length = parts.length ∧
      ∀ part ∈ parts', part ≠ [] ∧ ∀ d ∈ part, isSpace d = false := by
  induction parts generalizing out with
  | nil =>
      cases h
      exact ⟨[], rfl, rfl, fun _ hmem => absurd hmem List.not_mem_nil⟩
  | cons part parts ih =>
      obtain ⟨⟨hne, hpart⟩, hrest⟩ := List.forall_mem_cons.mp hparts
      cases parts with
      | nil =>
          rw [List.intercalate_singleton] at h
          refine ⟨[out], List.intercalate_singleton.symm, rfl, ?_⟩
          exact List.forall_mem_singleton.mpr (h.word hne hpart)
      | cons other parts =>
          rw [List.intercalate_cons_cons, List.append_assoc] at h
          obtain ⟨first, second, hfirst, hsecond, rfl⟩ := h.append_left
          cases hsecond with
          | cons hblank hmore =>
              obtain ⟨parts', rfl, hlength, hparts'⟩ := ih hmore hrest
              refine ⟨first :: parts', ?_, congrArg (· + 1) hlength,
                List.forall_mem_cons.mpr ⟨hfirst.word hne hpart, hparts'⟩⟩
              have hpos : 0 < parts'.length := by
                rw [hlength]
                exact Nat.succ_pos parts.length
              obtain ⟨part', parts', rfl⟩ := List.exists_cons_of_length_pos hpos
              rw [hblank.blank rfl, List.intercalate_cons_cons, List.append_assoc]

/-- Words with single spaces between them have them in title case. -/
theorem joinWords (h : Titled (joinWords isSpace cs) out) : Text.joinWords isSpace out = out := by
  have hparts : ∀ part ∈ words isSpace cs, part ≠ [] ∧ ∀ d ∈ part, isSpace d = false :=
    fun part hpart => ⟨ne_nil_of_mem_words hpart, fun _ => space_of_mem_words hpart⟩
  obtain ⟨parts, rfl, _, hwords⟩ := exists_words h hparts
  rw [Text.joinWords, words_intercalate rfl hwords]

end Titled

/-! ## The function on ASCII -/

theorem titledAs_self {c : Char} (h : 128 ≤ c.toNat) : TitledAs c [c] where
  ne_nil := List.cons_ne_nil c []
  blank := by
    rintro rfl
    contradiction
  space d hd := by rw [List.mem_singleton.mp hd]
  bundling hc d hd := by rwa [List.mem_singleton.mp hd]
  letter hc := ⟨c, List.mem_singleton_self c, hc⟩

/-- What changes case in ASCII is a letter before and after. -/
def KeepsClass (c d : Char) : Prop :=
  (c = ' ' → d = ' ') ∧ isSpace d = isSpace c ∧ (isBundling c = false → isBundling d = false) ∧
    (c.isAlpha = true → d.isAlpha = true)

instance (c d : Char) : Decidable (KeepsClass c d) :=
  inferInstanceAs (Decidable (_ ∧ _ ∧ _ ∧ _))

theorem KeepsClass.titledAs {c d : Char} (h : KeepsClass c d) : TitledAs c [d] where
  ne_nil := List.cons_ne_nil d []
  blank hc := congrArg (fun d => [d]) (h.1 hc)
  space := List.forall_mem_singleton.mpr h.2.1
  bundling hc := List.forall_mem_singleton.mpr (h.2.2.1 hc)
  letter hc := ⟨d, List.mem_singleton_self d, h.2.2.2 hc⟩

theorem titledAs_toLower (c : Char) : TitledAs c [c.toLower] := by
  by_cases hc : c.toNat < 128
  · exact (of_ascii (P := fun c => KeepsClass c c.toLower) (by decide) hc).titledAs
  · rw [toLower_of_not_ascii (not_lt.mp hc)]
    exact titledAs_self (not_lt.mp hc)

theorem titledAs_toUpper (c : Char) : TitledAs c [c.toUpper] := by
  by_cases hc : c.toNat < 128
  · exact (of_ascii (P := fun c => KeepsClass c c.toUpper) (by decide) hc).titledAs
  · rw [toUpper_of_not_ascii (not_lt.mp hc)]
    exact titledAs_self (not_lt.mp hc)

theorem titled_titleFrom (cased : Bool) (cs : List Char) : Titled cs (titleFrom cased cs) := by
  induction cs generalizing cased with
  | nil => exact .nil
  | cons c cs ih =>
      cases cased with
      | false => exact .cons (titledAs_toUpper c) (ih c.isAlpha)
      | true => exact .cons (titledAs_toLower c) (ih c.isAlpha)

/-- What a character and its other case have in common. -/
def SameLetter (c d : Char) : Prop :=
  d.isAlpha = c.isAlpha ∧ d.toLower = c.toLower ∧ d.toUpper = c.toUpper ∧
    (c.toNat < 128 → d.toNat < 128)

instance (c d : Char) : Decidable (SameLetter c d) :=
  inferInstanceAs (Decidable (_ ∧ _ ∧ _ ∧ _))

theorem sameLetter_refl (c : Char) : SameLetter c c :=
  ⟨rfl, rfl, rfl, id⟩

theorem sameLetter_toLower (c : Char) : SameLetter c c.toLower := by
  by_cases hc : c.toNat < 128
  · exact of_ascii (P := fun c => SameLetter c c.toLower) (by decide) hc
  · rw [toLower_of_not_ascii (not_lt.mp hc)]
    exact sameLetter_refl c

theorem sameLetter_toUpper (c : Char) : SameLetter c c.toUpper := by
  by_cases hc : c.toNat < 128
  · exact of_ascii (P := fun c => SameLetter c c.toUpper) (by decide) hc
  · rw [toUpper_of_not_ascii (not_lt.mp hc)]
    exact sameLetter_refl c

theorem sameLetter_titled (cased : Bool) (c : Char) :
    SameLetter c (if cased then c.toLower else c.toUpper) := by
  cases cased with
  | false => exact sameLetter_toUpper c
  | true => exact sameLetter_toLower c

@[simp]
theorem length_titleFrom (cased : Bool) (cs : List Char) :
    (titleFrom cased cs).length = cs.length := by
  induction cs generalizing cased with
  | nil => rfl
  | cons c cs ih => rw [titleFrom, List.length_cons, List.length_cons, ih]

/-- A text in title case has no other one. -/
theorem titleFrom_titleFrom (cased : Bool) (cs : List Char) :
    titleFrom cased (titleFrom cased cs) = titleFrom cased cs := by
  induction cs generalizing cased with
  | nil => rfl
  | cons c cs ih =>
      have hsame := sameLetter_titled cased c
      rw [titleFrom, titleFrom, hsame.1, ih, hsame.2.1, hsame.2.2.1]

/-- Title case is forgotten in lower case. -/
theorem map_toLower_titleFrom (cased : Bool) (cs : List Char) :
    (titleFrom cased cs).map Char.toLower = cs.map Char.toLower := by
  induction cs generalizing cased with
  | nil => rfl
  | cons c cs ih =>
      rw [titleFrom, List.map_cons, List.map_cons, ih, (sameLetter_titled cased c).2.1]

theorem ascii_titleFrom (cased : Bool) {cs : List Char} (h : ∀ c ∈ cs, c.toNat < 128) :
    ∀ c ∈ titleFrom cased cs, c.toNat < 128 := by
  induction cs generalizing cased with
  | nil => exact h
  | cons c cs ih =>
      obtain ⟨hc, hrest⟩ := List.forall_mem_cons.mp h
      exact List.forall_mem_cons.mpr ⟨(sameLetter_titled cased c).2.2.2 hc, ih c.isAlpha hrest⟩

/-- The title case of ASCII is one that leaves the other characters alone. -/
theorem titles_titleAscii : Titles titleAscii where
  ascii _ _ := rfl
  titled := titled_titleFrom false

end Extraction
end HireAndTech
