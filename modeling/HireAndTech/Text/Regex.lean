import Mathlib

/-!
# Text processing on lists of characters

The string operations of a scripting language: stripping and splitting at spaces, and
a backtracking matcher for regular expressions.  A match remembers the character before
it, so that a word boundary can be tested, and every expression lists the places where a
match may end in the order in which backtracking tries them.

The classes of characters are parameters.

Main results:

- Definitions {lit}`strip`, {lit}`words` and {lit}`collapse`.
- Definition {lit}`Regex.search`: some part of the text matches.
- Theorem {lit}`joinWords_eq_nil_iff`: which texts have no words.
-/

namespace Text

/-- The tables and foldings of the Unicode standard that programs call. -/
structure Unicode where
  casefold : List Char → List Char
  nfkc : List Char → List Char
  isAlnum : Char → Bool
  isPrintable : Char → Bool

/-- The tables and foldings on ASCII. -/
def Unicode.ascii : Unicode where
  casefold := List.map Char.toLower
  nfkc := id
  isAlnum := Char.isAlphanum
  isPrintable := fun c => 32 ≤ c.toNat && c.toNat < 127

/-- The class `\w` of regular expressions. -/
def Unicode.isWord (u : Unicode) (c : Char) : Bool :=
  u.isAlnum c || c = '_'

/-! ## Spaces -/

/-- The text without the characters of a class at its two ends. -/
def strip (space : Char → Bool) (cs : List Char) : List Char :=
  ((cs.dropWhile space).reverse.dropWhile space).reverse

/-- The maximal runs of characters outside a class. -/
def words (space : Char → Bool) (cs : List Char) : List (List Char) :=
  (cs.splitOnP space).filter (· ≠ [])

/-- The words of a text with one space between two of them. -/
def joinWords (space : Char → Bool) (cs : List Char) : List Char :=
  [' '].intercalate (words space cs)

section

variable {space : Char → Bool} {cs : List Char}

theorem mem_dropWhile {c : Char} (h : c ∈ cs) (hc : space c = false) : c ∈ cs.dropWhile space := by
  induction cs with
  | nil => exact h
  | cons d cs ih =>
      by_cases hd : space d = true
      · rw [List.dropWhile_cons_of_pos hd]
        rcases List.mem_cons.mp h with rfl | h
        · rw [hd] at hc
          contradiction
        · exact ih h
      · rwa [List.dropWhile_cons_of_neg hd]

/-- Stripping keeps every character outside the class. -/
theorem mem_strip {c : Char} (h : c ∈ cs) (hc : space c = false) : c ∈ strip space cs := by
  rw [strip, List.mem_reverse]
  exact mem_dropWhile (List.mem_reverse.mpr (mem_dropWhile h hc)) hc

/-- A stripped text that is not empty has a character outside the class. -/
theorem exists_of_strip_ne_nil (h : strip space cs ≠ []) :
    ∃ c ∈ strip space cs, space c = false := by
  by_contra hall
  push Not at hall
  apply h
  have hspace : ∀ c ∈ (cs.dropWhile space).reverse.dropWhile space, space c = true := by
    intro c hc
    have hne := hall c (List.mem_reverse.mpr hc)
    simpa using hne
  rw [← List.dropWhile_eq_nil_iff, List.dropWhile_idempotent] at hspace
  rw [strip, hspace]
  rfl

/-- A text without characters of the class has nothing to strip. -/
theorem strip_eq_self (h : ∀ c ∈ cs, space c = false) : strip space cs = cs := by
  have hdrop (ds : List Char) (hds : ∀ c ∈ ds, space c = false) : ds.dropWhile space = ds := by
    cases ds with
    | nil => rfl
    | cons c ds => exact List.dropWhile_cons_of_neg (by simp [hds c List.mem_cons_self])
  rw [strip, hdrop cs h, hdrop cs.reverse fun c hc => h c (List.mem_reverse.mp hc),
    List.reverse_reverse]

theorem strip_replicate {space : Char → Bool} {n : Nat} {c : Char} (hc : space c = false) :
    strip space (List.replicate n c) = List.replicate n c :=
  strip_eq_self fun d hd => by rwa [List.eq_of_mem_replicate hd]

theorem words_cons_space {c : Char} (hc : space c = true) :
    words space (c :: cs) = words space cs := by
  rw [words, List.splitOnP_cons_eq_if_modifyHead, if_pos hc, List.filter_cons_of_neg (by simp)]
  rfl

/-- A text with a character outside the class has a word. -/
theorem words_ne_nil (h : ∃ c ∈ cs, space c = false) : words space cs ≠ [] := by
  induction cs with
  | nil => simp at h
  | cons c cs ih =>
      by_cases hc : space c = true
      · rw [words_cons_space hc]
        obtain ⟨d, hd, hdspace⟩ := h
        rcases List.mem_cons.mp hd with rfl | hd
        · rw [hc] at hdspace
          contradiction
        · exact ih ⟨d, hd, hdspace⟩
      · cases hsplit : cs.splitOnP space with
        | nil => exact absurd hsplit (List.splitOnP_ne_nil space cs)
        | cons piece pieces =>
            rw [words, List.splitOnP_cons_eq_if_modifyHead, if_neg hc, hsplit]
            simp

/-- A text of the class has no words. -/
theorem words_eq_nil (h : ∀ c ∈ cs, space c = true) : words space cs = [] := by
  induction cs with
  | nil => simp [words]
  | cons c cs ih =>
      rw [words_cons_space (h c List.mem_cons_self)]
      exact ih fun d hd => h d (List.mem_cons_of_mem c hd)

/-- The words of a text leave nothing exactly when the text is of the class. -/
theorem joinWords_eq_nil_iff : joinWords space cs = [] ↔ ∀ c ∈ cs, space c = true := by
  constructor
  · intro hjoin
    by_contra hsome
    push Not at hsome
    have hwords : words space cs ≠ [] := words_ne_nil (by simpa using hsome)
    cases hcases : words space cs with
    | nil => exact hwords hcases
    | cons word rest =>
        have hword : word ≠ [] := by
          have hmem : word ∈ words space cs := hcases ▸ List.mem_cons_self
          simpa using (List.mem_filter.mp hmem).2
        rw [joinWords, hcases] at hjoin
        cases rest <;> simp [List.intercalate, hword] at hjoin
  · intro hall
    rw [joinWords, words_eq_nil hall]
    rfl

end

/-- Every maximal run of a class becomes one space. -/
def collapse (space : Char → Bool) : List Char → List Char
  | [] => []
  | c :: cs =>
      if space c then
        if cs.head?.any space then collapse space cs else ' ' :: collapse space cs
      else c :: collapse space cs

/-! ## Regular expressions -/

/-- A place in a text: the character before it and the rest of the text. -/
structure Place where
  before : Option Char
  rest : List Char
deriving DecidableEq, Repr

/-- Regular expressions with word boundaries. -/
inductive Regex
  | empty
  | satisfy (p : Char → Bool)
  | seq (r s : Regex)
  | alt (r s : Regex)
  | star (r : Regex)
  | boundary (word : Char → Bool)

namespace Regex

/-- The places that a greedy repetition reaches; every round consumes a character. -/
def repeated (step : Place → List Place) : Nat → Place → List Place
  | 0, at_ => [at_]
  | fuel + 1, at_ =>
      ((step at_).filter fun next => next.rest.length < at_.rest.length).flatMap
        (repeated step fuel) ++ [at_]

/-- The places where a match that begins at a place may end. -/
def ends : Regex → Place → List Place
  | .empty, at_ => [at_]
  | .satisfy p, at_ =>
      match at_.rest with
      | [] => []
      | c :: rest => if p c then [⟨some c, rest⟩] else []
  | .seq r s, at_ => (r.ends at_).flatMap s.ends
  | .alt r s, at_ => r.ends at_ ++ s.ends at_
  | .star r, at_ => repeated r.ends at_.rest.length at_
  | .boundary word, at_ =>
      if at_.before.any word != at_.rest.head?.any word then [at_] else []

/-- A match begins at some place of the text. -/
def searchFrom (r : Regex) (before : Option Char) : List Char → Bool
  | [] => !(r.ends ⟨before, []⟩).isEmpty
  | c :: rest => !(r.ends ⟨before, c :: rest⟩).isEmpty || r.searchFrom (some c) rest

/-- `re.search`, as a truth value. -/
def search (r : Regex) (text : List Char) : Bool :=
  r.searchFrom none text

/-- A literal text. -/
def text (s : String) : Regex :=
  s.toList.foldr (fun c r => .seq (.satisfy (· = c)) r) .empty

/-- An expression that may be left out. -/
def optional (r : Regex) : Regex :=
  .alt r .empty

/-- At least one repetition. -/
def plus (r : Regex) : Regex :=
  .seq r (.star r)

/-- Expressions one after the other. -/
def sequence (rs : List Regex) : Regex :=
  rs.foldr .seq .empty

/-- The first of several expressions that leads to a match. -/
def anyOf : List Regex → Regex
  | [] => .satisfy fun _ => false
  | [r] => r
  | r :: rs => .alt r (anyOf rs)

end Regex

end Text
