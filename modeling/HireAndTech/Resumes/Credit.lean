import HireAndTech.Extraction.Stability
import HireAndTech.Resumes.Parser
import HireAndTech.Text.Spans

/-!
# Credit for skills

The resume parser credits a skill when a keyword occurs anywhere in a text.  The scanner for job
descriptions wants an alias to stand by itself, so that a part of a longer word earns credit that
the scanner would refuse.

Main results:

- Definition {lit}`Stands`: an alias stands by itself in a text.
- Theorem {lit}`mem_extractSkillsFromText_iff`: the scanner lists the skills whose aliases do.
- Theorem {lit}`credit_iff`: the resumes without undue credit.
-/

namespace HireAndTech
namespace Resumes
namespace Credit

open Text Text.Regex Catalogue Collection Salaries Extraction PdfParser

/-! ## Aliases that stand by themselves -/

/-- No word goes on over this character. -/
def isBorder (u : Unicode) (c : Char) : Bool :=
  isSpace c || !u.isWord c

/-- An alias stands by itself in a text that has been case folded. -/
def StandsPlain (u : Unicode) (word : List Char) (text : List Char) : Prop :=
  ∃ front rest, text = front ++ (word ++ rest) ∧ front.getLast?.all (isBorder u) = true ∧
    rest.head?.all (isBorder u) = true

/-- A special skill stands by itself in some case, between delimiters. -/
def StandsSpecial (word : List Char) (text : List Char) : Prop :=
  ∃ front piece rest, text = front ++ (piece ++ rest) ∧ piece.map ignoreCase = word ∧
    front.getLast?.all opensSkill = true ∧ rest.head?.all closesSkill = true

/-- An alias stands by itself in a text. -/
def Stands (u : Unicode) (word : String) (text : List Char) : Prop :=
  if word ∈ specialSkills.map (·.1) then StandsSpecial word.toList text
  else StandsPlain u word.toList (u.casefold text)

section

variable {u : Unicode} {word : String} {text : List Char} {before : Option Char}

/-- `(?:\b|\s)`. -/
def borderPattern (u : Unicode) : Regex :=
  .alt (.boundary u.isWord) (.satisfy isSpace)

/-- Before a word the pattern takes a space, or nothing after a character of no word. -/
theorem span_border_left_iff {piece rest : List Char} {c : Char} (hc : u.isWord c = true)
    (hrest : rest.head? = some c) : (borderPattern u).Span before piece rest ↔
      (piece = [] ∧ before.any u.isWord = false) ∨ ∃ d, isSpace d = true ∧ piece = [d] := by
  rw [borderPattern, span_alt_iff, span_boundary_iff, span_satisfy_iff, hrest, Option.any_some, hc]
  simp

theorem span_border_right_iff {piece rest : List Char} {c : Char} (hc : u.isWord c = true) :
    (borderPattern u).Span (some c) piece rest ↔
      (piece = [] ∧ rest.head?.any u.isWord = false) ∨ ∃ d, isSpace d = true ∧ piece = [d] := by
  rw [borderPattern, span_alt_iff, span_boundary_iff, span_satisfy_iff, Option.any_some, hc]
  simp

theorem border_left_iff {text : List Char} : text.getLast?.all (isBorder u) = true ↔
    ∃ front piece, text = front ++ piece ∧
      ((piece = [] ∧ front.getLast?.any u.isWord = false) ∨
        ∃ d, isSpace d = true ∧ piece = [d]) := by
  constructor
  · intro h
    rcases List.eq_nil_or_concat text with rfl | ⟨front, c, rfl⟩
    · exact ⟨[], [], rfl, Or.inl ⟨rfl, rfl⟩⟩
    · rw [List.concat_eq_append] at h ⊢
      rw [List.getLast?_concat, Option.all_some, isBorder, Bool.or_eq_true] at h
      rcases h with hspace | hword
      · exact ⟨front, [c], rfl, Or.inr ⟨c, hspace, rfl⟩⟩
      · exact ⟨front ++ [c], [], (List.append_nil _).symm, Or.inl ⟨rfl, by simpa using hword⟩⟩
  · rintro ⟨front, _, rfl, ⟨rfl, hword⟩ | ⟨d, hspace, rfl⟩⟩
    · rw [List.append_nil]
      cases hlast : front.getLast? with
      | none => rfl
      | some c =>
          rw [hlast, Option.any_some] at hword
          simp [isBorder, hword]
    · simp [isBorder, hspace]

theorem border_right_iff {text : List Char} : text.head?.all (isBorder u) = true ↔
    ∃ piece rest, text = piece ++ rest ∧
      ((piece = [] ∧ rest.head?.any u.isWord = false) ∨
        ∃ d, isSpace d = true ∧ piece = [d]) := by
  constructor
  · intro h
    cases text with
    | nil => exact ⟨[], [], rfl, Or.inl ⟨rfl, rfl⟩⟩
    | cons c rest =>
        rw [List.head?_cons, Option.all_some, isBorder, Bool.or_eq_true] at h
        rcases h with hspace | hword
        · exact ⟨[c], rest, rfl, Or.inr ⟨c, hspace, rfl⟩⟩
        · exact ⟨[], c :: rest, rfl, Or.inl ⟨rfl, by simpa using hword⟩⟩
  · rintro ⟨_, rest, rfl, ⟨rfl, hword⟩ | ⟨d, hspace, rfl⟩⟩
    · cases rest with
      | nil => rfl
      | cons c rest =>
          rw [List.head?_cons, Option.any_some] at hword
          simp [isBorder, hword]
    · simp [isBorder, hspace]

/-- An alias begins and ends with a word character. -/
structure Bounded (u : Unicode) (word : List Char) : Prop where
  first : ∃ c ∈ word.head?, u.isWord c = true
  last : ∃ c ∈ word.getLast?, u.isWord c = true

/-- The pattern of an alias finds it where it stands by itself. -/
theorem search_aliasPattern_iff (hword : Bounded u word.toList) :
    (aliasPattern u word).search text = true ↔ StandsPlain u word.toList text := by
  obtain ⟨first, hfirst, hfirstWord⟩ := hword.first
  obtain ⟨last, hlast, hlastWord⟩ := hword.last
  have hne : word.toList ≠ [] := by
    intro hempty
    rw [hempty] at hfirst
    contradiction
  have hbefore {before : Option Char} : word.toList.getLast?.or before = some last := by
    rw [Option.mem_def.mp hlast, Option.some_or]
  have hhead {rest : List Char} : (word.toList ++ rest).head? = some first := by
    rw [List.head?_append_of_ne_nil _ hne]
    exact hfirst
  have hspan {before : Option Char} {left right rest : List Char} :
      (borderPattern u).Span before left (word.toList ++ right ++ rest) ∧
        (borderPattern u).Span (some last) right rest ↔
      ((left = [] ∧ before.any u.isWord = false) ∨ ∃ d, isSpace d = true ∧ left = [d]) ∧
        ((right = [] ∧ rest.head?.any u.isWord = false) ∨
          ∃ d, isSpace d = true ∧ right = [d]) := by
    rw [List.append_assoc, span_border_left_iff hfirstWord hhead, span_border_right_iff hlastWord]
  have halias : aliasPattern u word =
      .seq (borderPattern u) (.seq (.text word) (borderPattern u)) := rfl
  rw [search_iff, halias, StandsPlain]
  simp only [border_left_iff, border_right_iff, span_seq_iff, span_text_iff]
  constructor
  · rintro ⟨front, _, rest, rfl, left, _, rfl, hleft, _, right, rfl, rfl, hright⟩
    rw [hbefore] at hright
    obtain ⟨hleft, hright⟩ := hspan.mp ⟨hleft, hright⟩
    exact ⟨front ++ left, right ++ rest, by simp, ⟨front, left, rfl, hleft⟩,
      ⟨right, rest, rfl, hright⟩⟩
  · rintro ⟨_, _, rfl, ⟨front, left, rfl, hleft⟩, ⟨right, rest, rfl, hright⟩⟩
    obtain ⟨hleft, hright⟩ := hspan.mpr ⟨hleft, hright⟩
    exact ⟨front, left ++ (word.toList ++ right), rest, by simp, left, word.toList ++ right, rfl,
      hleft, word.toList, right, rfl, rfl, hbefore ▸ hright⟩

/-- The spaces around the text make no difference. -/
theorem standsPlain_padded_iff (hword : Bounded u word.toList) (hspace : u.isWord ' ' = false) :
    StandsPlain u word.toList (' ' :: (text ++ [' '])) ↔ StandsPlain u word.toList text := by
  obtain ⟨first, hfirst, hfirstWord⟩ := hword.first
  obtain ⟨last, hlast, hlastWord⟩ := hword.last
  have hne : word.toList ≠ [] := by
    intro hempty
    rw [hempty] at hfirst
    contradiction
  constructor
  · rintro ⟨front, rest, htext, hfront, hrest⟩
    -- neither space belongs to the word
    cases front with
    | nil =>
        have hhead := congrArg List.head? htext
        rw [List.nil_append, List.head?_append_of_ne_nil _ hne, Option.mem_def.mp hfirst,
          List.head?_cons, Option.some_inj] at hhead
        rw [← hhead, hspace] at hfirstWord
        contradiction
    | cons d front =>
        obtain ⟨rfl, htail⟩ := List.cons_eq_cons.mp htext
        change text ++ [' '] = front ++ (word.toList ++ rest) at htail
        rcases List.eq_nil_or_concat rest with rfl | ⟨rest, e, rfl⟩
        · have hend := congrArg List.getLast? htail
          rw [List.append_nil, List.getLast?_append_of_ne_nil _ hne, Option.mem_def.mp hlast,
            List.getLast?_concat, Option.some_inj] at hend
          rw [← hend, hspace] at hlastWord
          contradiction
        · rw [List.concat_eq_append] at htail hrest
          rw [← List.append_assoc, ← List.append_assoc] at htail
          obtain ⟨rfl, _⟩ := List.append_inj' htail rfl
          refine ⟨front, rest, List.append_assoc _ _ _, ?_, ?_⟩
          · cases hl : front.getLast? with
            | none => rfl
            | some c => rwa [List.getLast?_cons, hl] at hfront
          · cases rest with
            | nil => rfl
            | cons c rest => exact hrest
  · rintro ⟨front, rest, rfl, hfront, hrest⟩
    refine ⟨' ' :: front, rest ++ [' '], by simp, ?_, ?_⟩
    · rw [List.getLast?_cons]
      cases hl : front.getLast? with
      | none => rfl
      | some c => rwa [hl] at hfront
    · cases rest with
      | nil => rfl
      | cons c rest => exact hrest

/-- A text is matched in any case. -/
theorem span_folded_iff {piece rest : List Char} :
    (folded word).Span before piece rest ↔ piece.map ignoreCase = word.toList := by
  rw [folded]
  induction word.toList generalizing before piece with
  | nil => rw [List.map_nil, span_sequence_nil_iff, List.map_eq_nil_iff]
  | cons c cs ih =>
      rw [List.map_cons, span_sequence_cons_iff]
      simp only [span_satisfy_iff, ih, decide_eq_true_eq]
      constructor
      · rintro ⟨_, second, rfl, ⟨d, hd, rfl⟩, hsecond⟩
        rw [List.singleton_append, List.map_cons, hd, hsecond]
      · intro h
        obtain ⟨d, second, rfl, hd, hsecond⟩ := List.map_eq_cons_iff.mp h
        exact ⟨[d], second, rfl, ⟨d, hd, rfl⟩, hsecond⟩

/-- The pattern of a special skill finds it where it stands by itself. -/
theorem standsAlone_iff (hne : word.toList ≠ []) : standsAlone word before text = true ↔
    ∃ front piece rest, text = front ++ (piece ++ rest) ∧ piece.map ignoreCase = word.toList ∧
      (front.getLast?.or before).all opensSkill = true ∧ rest.head?.all closesSkill = true := by
  induction text generalizing before with
  | nil =>
      refine iff_of_false Bool.false_ne_true ?_
      rintro ⟨front, piece, rest, htext, hpiece, _⟩
      simp only [List.nil_eq, List.append_eq_nil_iff] at htext
      rw [htext.2.1] at hpiece
      exact hne hpiece.symm
  | cons c text ih =>
      have hhere : ((folded word).ends ⟨before, c :: text⟩).any
          (fun stop => stop.rest.head?.all closesSkill) = true ↔
          ∃ piece rest, c :: text = piece ++ rest ∧ piece.map ignoreCase = word.toList ∧
            rest.head?.all closesSkill = true := by
        rw [List.any_eq_true]
        constructor
        · rintro ⟨stop, hstop, hcloses⟩
          obtain ⟨piece, hpiece, hbefore⟩ := passes_of_mem_ends hstop
          dsimp only at hpiece hbefore
          refine ⟨piece, stop.rest, hpiece, ?_, hcloses⟩
          rw [← @span_folded_iff word before piece stop.rest, Span, ← hpiece, ← hbefore]
          exact hstop
        · rintro ⟨piece, rest, hsplit, hpiece, hcloses⟩
          have hspan := (@span_folded_iff word before piece rest).mpr hpiece
          rw [Span, ← hsplit] at hspan
          exact ⟨_, hspan, hcloses⟩
      rw [standsAlone, Bool.or_eq_true, Bool.and_eq_true, hhere, ih]
      constructor
      · rintro (⟨hopens, piece, rest, hsplit, hpiece, hcloses⟩ |
          ⟨front, piece, rest, rfl, hpiece, hopens, hcloses⟩)
        · exact ⟨[], piece, rest, hsplit, hpiece, hopens, hcloses⟩
        · refine ⟨c :: front, piece, rest, rfl, hpiece, ?_, hcloses⟩
          cases hl : front.getLast? <;> simpa [List.getLast?_cons, hl] using hopens
      · rintro ⟨front, piece, rest, hsplit, hpiece, hopens, hcloses⟩
        cases front with
        | nil => exact Or.inl ⟨hopens, piece, rest, hsplit, hpiece, hcloses⟩
        | cons d front =>
            obtain ⟨rfl, htail⟩ := List.cons_eq_cons.mp hsplit
            refine Or.inr ⟨front, piece, rest, htail, hpiece, ?_, hcloses⟩
            cases hl : front.getLast? <;> simpa [List.getLast?_cons, hl] using hopens

end

/-! ## The scanner -/

/-- The first and the last character are letters or digits of ASCII. -/
def isAlphanumBounded (cs : List Char) : Bool :=
  cs.head?.any Char.isAlphanum && cs.getLast?.any Char.isAlphanum

/-- An alias and its name, as lists of characters. -/
def charsOf (entry : String × String) : List Char × List Char :=
  (entry.1.toList, entry.2.toList)

/-- An alias is special, or is bounded by letters or digits. -/
def isSpecialOrBounded : List Char × List Char → Bool := fun entry =>
  (specialSkills.map charsOf).contains entry ||
    !((specialSkills.map charsOf).map (·.1)).contains entry.1 && isAlphanumBounded entry.1

theorem special_or_bounded {entry : String × String} (h : entry ∈ canonicalSkills) :
    entry ∈ specialSkills ∨
      entry.1 ∉ specialSkills.map (·.1) ∧ isAlphanumBounded entry.1.toList = true := by
  have hall : (canonicalSkills.map charsOf).all isSpecialOrBounded = true := by
    unfold isSpecialOrBounded canonicalSkills specialSkills charsOf
    simp only [List.map_cons, List.map_nil, String.reduceToList]
    decide
  have hentry := List.all_eq_true.mp hall (charsOf entry) (List.mem_map_of_mem h)
  simp only [isSpecialOrBounded, Bool.or_eq_true, Bool.and_eq_true, List.contains_iff_mem,
    Bool.not_eq_true', List.mem_map] at hentry
  rcases hentry with ⟨other, hother, heq⟩ | ⟨hnot, hbounded⟩
  · left
    have hsame : other = entry :=
      Prod.ext (String.toList_inj.mp (congrArg Prod.fst heq))
        (String.toList_inj.mp (congrArg Prod.snd heq))
    exact hsame ▸ hother
  · refine Or.inr ⟨fun hmem => ?_, hbounded⟩
    obtain ⟨other, hother, heq⟩ := List.mem_map.mp hmem
    rw [← Bool.not_eq_true, List.contains_iff_mem] at hnot
    exact hnot (List.mem_map.mpr
      ⟨charsOf other, List.mem_map_of_mem hother, congrArg String.toList heq⟩)

theorem special_ne_nil : ∀ entry ∈ specialSkills, entry.1.toList ≠ [] := by
  simp [specialSkills]

section

variable {u : Unicode}

theorem isWord_of_isAlphanum (halnum : ∀ c : Char, c.toNat < 128 → u.isAlnum c = c.isAlphanum)
    {c : Char} (hc : c.isAlphanum = true) : u.isWord c = true := by
  have hascii : c.toNat < 128 := by
    simp only [Char.isAlphanum, Char.isAlpha, Char.isUpper, Char.isLower, Char.isDigit,
      Bool.or_eq_true, Bool.and_eq_true, decide_eq_true_eq] at hc
    rcases hc with (⟨_, hc⟩ | ⟨_, hc⟩) | ⟨_, hc⟩
    all_goals exact lt_of_le_of_lt hc (by decide)
  rw [Unicode.isWord, halnum c hascii, hc, Bool.true_or]

theorem bounded_of_isAlphanumBounded
    (halnum : ∀ c : Char, c.toNat < 128 → u.isAlnum c = c.isAlphanum) {cs : List Char}
    (h : isAlphanumBounded cs = true) : Bounded u cs := by
  rw [isAlphanumBounded, Bool.and_eq_true, Option.any_eq_true, Option.any_eq_true] at h
  obtain ⟨⟨first, hfirst, hfirstWord⟩, last, hlast, hlastWord⟩ := h
  exact ⟨⟨first, hfirst, isWord_of_isAlphanum halnum hfirstWord⟩,
    ⟨last, hlast, isWord_of_isAlphanum halnum hlastWord⟩⟩

/-- The scanner lists the skills of the aliases that stand by themselves. -/
theorem mem_extractSkillsFromText_iff
    (halnum : ∀ c : Char, c.toNat < 128 → u.isAlnum c = c.isAlphanum) {text : List Char}
    (hne : text ≠ []) {name : String}
    (hname : ∀ entry ∈ canonicalSkills, fold u entry.2 = fold u name → entry.2 = name) :
    name ∈ extractSkillsFromText u (some (String.ofList text)) ↔
      ∃ entry ∈ canonicalSkills, entry.2 = name ∧ Stands u entry.1 text := by
  have hspace : u.isWord ' ' = false := by
    rw [Unicode.isWord, halnum ' ' (by decide)]
    decide
  have hplain {entry : String × String} (hnot : entry.1 ∉ specialSkills.map (·.1))
      (hbounded : isAlphanumBounded entry.1.toList = true) :
      (aliasPattern u entry.1).search (' ' :: (u.casefold text ++ [' '])) = true ↔
        Stands u entry.1 text := by
    have hword := bounded_of_isAlphanumBounded halnum hbounded
    rw [search_aliasPattern_iff hword, standsPlain_padded_iff hword hspace, Stands, if_neg hnot]
  have hspecial {entry : String × String} (hentry : entry ∈ specialSkills) :
      standsAlone entry.1 none text = true ↔ Stands u entry.1 text := by
    rw [standsAlone_iff (special_ne_nil entry hentry), Stands,
      if_pos (List.mem_map_of_mem hentry), StandsSpecial]
    simp only [Option.or_none]
  simp only [extractSkillsFromText, Option.getD_some, String.toList_ofList, if_neg hne,
    foldl_addSkill]
  constructor
  · intro h
    rcases List.mem_append.mp (Base.firstSeen_sublist.subset h) with h | h
    · obtain ⟨entry, hentry, rfl⟩ := List.mem_map.mp h
      obtain ⟨hmem, hstands⟩ := List.mem_filter.mp hentry
      exact ⟨entry, specialSkills_subset hmem, rfl, (hspecial hmem).mp hstands⟩
    · obtain ⟨entry, hentry, rfl⟩ := List.mem_map.mp h
      obtain ⟨hmem, hfound⟩ := List.mem_filter.mp hentry
      rw [Bool.and_eq_true, decide_eq_true_eq] at hfound
      rcases special_or_bounded hmem with hin | ⟨hnot, hbounded⟩
      · exact absurd (List.mem_map_of_mem hin) hfound.1
      · exact ⟨entry, hmem, rfl, (hplain hnot hbounded).mp hfound.2⟩
  · rintro ⟨entry, hentry, rfl, hstands⟩
    apply Base.mem_firstSeen_of_mem
    · rw [List.mem_append]
      rcases special_or_bounded hentry with hin | ⟨hnot, hbounded⟩
      · left
        exact List.mem_map_of_mem (List.mem_filter.mpr ⟨hin, (hspecial hin).mpr hstands⟩)
      · right
        refine List.mem_map_of_mem (List.mem_filter.mpr ⟨hentry, ?_⟩)
        rw [Bool.and_eq_true, decide_eq_true_eq]
        exact ⟨hnot, (hplain hnot hbounded).mpr hstands⟩
    · intro other hother heq
      rcases List.mem_append.mp hother with h | h
      · obtain ⟨known, hknown, rfl⟩ := List.mem_map.mp h
        exact hname known (specialSkills_subset (List.mem_of_mem_filter hknown)) heq
      · obtain ⟨known, hknown, rfl⟩ := List.mem_map.mp h
        exact hname known (List.mem_of_mem_filter hknown) heq

end

/-! ## Credited skills -/

/-- The names of the table that have the lower case of a keyword's skill. -/
theorem keyword_name {keyword entry : String × String} (hkeyword : keyword ∈ skillKeywords)
    (hentry : entry ∈ canonicalSkills ∨ entry ∈ skillKeywords)
    (h : entry.2.toList.map Char.toLower = keyword.2.toList.map Char.toLower) :
    entry.2 = keyword.2 := by
  have hall : (skillKeywords.map fun keyword => keyword.2.toList).all (fun name =>
      ((canonicalSkills ++ skillKeywords).map fun entry => entry.2.toList).all fun other =>
        other.map Char.toLower ≠ name.map Char.toLower || other = name) = true := by
    unfold skillKeywords canonicalSkills
    simp only [List.cons_append, List.nil_append, List.map_cons, List.map_nil,
      String.reduceToList]
    decide
  have hname := List.all_eq_true.mp hall _ (List.mem_map_of_mem hkeyword)
  have hother := List.all_eq_true.mp hname _
    (List.mem_map_of_mem (List.mem_append.mpr hentry))
  rw [Bool.or_eq_true, decide_eq_true_eq, decide_eq_true_eq] at hother
  exact String.toList_inj.mp (hother.resolve_left fun hne => hne h)

theorem ascii_keyword {keyword : String × String} (h : keyword ∈ skillKeywords) :
    ∀ c ∈ keyword.2.toList, c.toNat < 128 := by
  have hall : (skillKeywords.map fun keyword => keyword.2.toList).all (fun name =>
      name.all fun c => c.toNat < 128) = true := by
    unfold skillKeywords
    simp only [List.map_cons, List.map_nil, String.reduceToList]
    decide
  intro c hc
  have hname := List.all_eq_true.mp hall _ (List.mem_map_of_mem h)
  exact of_decide_eq_true (List.all_eq_true.mp hname c hc)

section

variable {u : Unicode} {lower : List Char → List Char} {keyword entry : String × String}
  {values : List String} {text : List Char}

/-- A keyword's skill differs from the other names in every case. -/
theorem fold_keyword (hu : AsciiLower u.casefold) (hkeyword : keyword ∈ skillKeywords)
    (hentry : entry ∈ canonicalSkills ∨ entry ∈ skillKeywords)
    (h : fold u entry.2 = fold u keyword.2) : entry.2 = keyword.2 := by
  have hascii : ∀ c ∈ entry.2.toList, c.toNat < 128 := by
    rcases hentry with hentry | hentry
    · have hfacts := entryFacts_chars hentry
      simp only [entryFacts, Bool.and_eq_true] at hfacts
      exact ascii_of_isPlain hfacts.1.1
    · exact ascii_keyword hentry
  rw [fold, fold, hu _ hascii, hu _ (ascii_keyword hkeyword)] at h
  exact keyword_name hkeyword hentry h

/-- The loop of the schema leaves out repetitions, where there is nothing to strip. -/
theorem normalizeStrings_eq {seen : List (List Char)}
    (h : ∀ value ∈ values, isTrimmed value.toList = true) :
    normalizeStrings u seen values = Base.firstSeen (fold u) seen values := by
  induction values generalizing seen with
  | nil => rfl
  | cons value values ih =>
      obtain ⟨hvalue, hrest⟩ := List.forall_mem_cons.mp h
      have hne : value.toList ≠ [] := by
        intro hempty
        rw [hempty] at hvalue
        contradiction
      simp only [normalizeStrings, (strip_of_isTrimmed hvalue).1, if_neg hne,
        String.ofList_toList, List.contains_iff_mem]
      change (if fold u value ∈ seen then _ else _) = _
      by_cases hmem : fold u value ∈ seen
      · rw [if_pos hmem, ih hrest, Base.firstSeen_of_mem hmem]
      · rw [if_neg hmem, ih hrest, Base.firstSeen_of_not_mem hmem]
        rfl

/-- The schema keeps the skill of every keyword. -/
theorem mem_normalizeStringList_resumeSkills_iff (hu : AsciiLower u.casefold) {name : String} :
    name ∈ normalizeStringList u (resumeSkills text) ↔ name ∈ resumeSkills text := by
  refine ⟨fun h => normalizeStringList_resumeSkills.subset h, fun h => ?_⟩
  have htrimmed : ∀ skill ∈ resumeSkills text, isTrimmed skill.toList = true := by
    intro skill hskill
    obtain ⟨keyword, hkeyword, rfl⟩ := exists_of_mem_resumeSkills hskill
    exact isTrimmed_skill keyword hkeyword
  rw [normalizeStringList, normalizeStrings_eq htrimmed]
  refine Base.mem_firstSeen_of_mem h fun other hother heq => ?_
  obtain ⟨keyword, hkeyword, rfl⟩ := exists_of_mem_resumeSkills h
  obtain ⟨entry, hentry, rfl⟩ := exists_of_mem_resumeSkills hother
  exact fold_keyword hu hkeyword (Or.inr hentry) heq

/-- A resume has no undue credit exactly when the skill of each of its first ten keywords, where the
scanner knows it, has an alias that stands by itself. -/
theorem credit_iff (hu : AsciiLower u.casefold)
    (halnum : ∀ c : Char, c.toNat < 128 → u.isAlnum c = c.isAlphanum)
    {parser : DeterministicPdfResumeParser} {document : Document} {parsed : ParsedResume}
    (hparse : parse u lower parser document = .ok parsed) :
    (∀ name ∈ skillKeywords.map (·.2), name ∈ canonicalSkills.map (·.2) →
      name ∈ parsed.skills → name ∈ extractSkillsFromText u (some parsed.extractedText)) ↔
    ∀ keyword ∈ (foundKeywords (lower parsed.extractedText.toList)).take 10,
      keyword.2 ∈ canonicalSkills.map (·.2) →
        ∃ entry ∈ canonicalSkills, entry.2 = keyword.2 ∧
          Stands u entry.1 parsed.extractedText.toList := by
  obtain ⟨pageCount, text, hstrip, hprofile⟩ := exists_profileOf_of_parse hparse
  obtain ⟨hne, htext, hskills⟩ := profileOf_eq_ok hstrip hprofile
  rw [htext, hskills, String.toList_ofList]
  have hfound {keyword : String × String}
      (h : keyword ∈ (foundKeywords (lower text)).take 10) : keyword ∈ skillKeywords :=
    List.mem_of_mem_filter (List.mem_of_mem_take h)
  have hextract {keyword : String × String} (hkeyword : keyword ∈ skillKeywords) :
      keyword.2 ∈ extractSkillsFromText u (some (String.ofList text)) ↔
        ∃ entry ∈ canonicalSkills, entry.2 = keyword.2 ∧ Stands u entry.1 text :=
    mem_extractSkillsFromText_iff halnum hne fun entry hentry =>
      fold_keyword hu hkeyword (Or.inl hentry)
  constructor
  · intro h keyword hkeyword hknown
    have hmem : keyword.2 ∈ resumeSkills (lower text) := by
      rw [resumeSkills, ← List.map_take]
      exact List.mem_map_of_mem hkeyword
    rw [← hextract (hfound hkeyword)]
    exact h keyword.2 (List.mem_map_of_mem (hfound hkeyword)) hknown
      ((mem_normalizeStringList_resumeSkills_iff hu).mpr hmem)
  · intro h name _ hknown hname
    have hmem := (mem_normalizeStringList_resumeSkills_iff hu).mp hname
    rw [resumeSkills, ← List.map_take] at hmem
    obtain ⟨keyword, hkeyword, rfl⟩ := List.mem_map.mp hmem
    exact (hextract (hfound hkeyword)).mpr (h keyword hkeyword hknown)

end

/-- A document of one page. -/
def onePage (text : List Char) : Document :=
  .ok (readable [some text])

/-- A page without spaces at its ends is accepted as it is. -/
theorem parse_onePage {text : List Char} (htext : isTrimmed text = true) : ∃ parsed,
    parse .ascii (List.map Char.toLower) (init 25 200000) (onePage text) = .ok parsed ∧
      parsed.extractedText = String.ofList text ∧
      parsed.skills =
        normalizeStringList .ascii (resumeSkills (text.map Char.toLower)) := by
  have hstrip := (strip_of_isTrimmed htext).1
  simp only [isTrimmed, Bool.and_eq_true, decide_eq_true_eq] at htext
  have hne : text ≠ [] := List.ne_nil_of_length_pos htext.1.2
  have hjoined : joinedText [some text] = text := by
    have hkept : keptParts [some text] = [text] := by simp [keptParts, pageText, hstrip, hne]
    rw [joinedText, hkept]
    exact List.intercalate_singleton
  have hlimit : text.length ≤ maxExtractedTextCharacters := htext.2.trans (by decide)
  obtain ⟨parsed, hparsed⟩ := @exists_profileOf .ascii (List.map Char.toLower) [some text] 1
    (by rwa [hjoined]) (by rwa [hjoined])
  obtain ⟨_, hfields⟩ := profileOf_eq_ok strip_joinedText hparsed
  rw [hjoined] at hfields
  refine ⟨parsed, ?_, hfields⟩
  refine (parse_eq_ok_iff (List.cons_ne_nil _ _) (by simp)).mpr ⟨?_, hparsed⟩
  rwa [hjoined]

theorem credit_iff_python : ∃ parsed,
    parse .ascii (List.map Char.toLower) (init 25 200000) (onePage "python".toList) =
      .ok parsed ∧
    ((∀ name ∈ skillKeywords.map (·.2), name ∈ canonicalSkills.map (·.2) →
      name ∈ parsed.skills → name ∈ extractSkillsFromText .ascii (some parsed.extractedText)) ↔
    ∀ keyword ∈ (foundKeywords (parsed.extractedText.toList.map Char.toLower)).take 10,
      keyword.2 ∈ canonicalSkills.map (·.2) →
        ∃ entry ∈ canonicalSkills, entry.2 = keyword.2 ∧
          Stands .ascii entry.1 parsed.extractedText.toList) := by
  obtain ⟨parsed, hparsed, _⟩ := @parse_onePage "python".toList (by decide)
  exact ⟨parsed, hparsed, credit_iff asciiLower_toLower (fun _ _ => rfl) hparsed⟩

/-- The name of an employer earns credit for a language. -/
theorem google_earns_go : ∃ parsed,
    parse .ascii (List.map Char.toLower) (init 25 200000) (onePage "google".toList) = .ok parsed ∧
    "Go" ∈ skillKeywords.map (·.2) ∧ "Go" ∈ canonicalSkills.map (·.2) ∧ "Go" ∈ parsed.skills ∧
    "Go" ∉ extractSkillsFromText .ascii (some parsed.extractedText) := by
  obtain ⟨parsed, hparsed, htext, hskills⟩ := @parse_onePage "google".toList (by decide)
  refine ⟨parsed, hparsed, by decide, by decide, ?_, ?_⟩
  · rw [hskills]
    decide
  · rw [htext]
    decide

end Credit
end Resumes
end HireAndTech
