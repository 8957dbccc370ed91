import Mathlib

/-!
# LIKE patterns

The pattern language of `LIKE`: an underscore stands for one character, a percent sign for any
text, and a backslash takes the character after it literally.

Main results:

- Definitions {lit}`parse`, {lit}`accepts` and {lit}`like`: patterns and what they match.
- Theorem {lit}`like_containing`: a text between percent signs is searched for.
- Theorem {lit}`like_sample`: what a text with special characters finds besides itself.
-/

namespace Like

/-! ## Patterns -/

/-- One part of a pattern. -/
inductive Symbol
  | one
  | many
  | literal (c : Char)
deriving DecidableEq, Repr

/-- The parts of a pattern; {lean}`none` when it ends in the escape character. -/
def parse : List Char → Option (List Symbol)
  | [] => some []
  | '\\' :: [] => none
  | '\\' :: c :: rest => (parse rest).map (.literal c :: ·)
  | '%' :: rest => (parse rest).map (.many :: ·)
  | '_' :: rest => (parse rest).map (.one :: ·)
  | c :: rest => (parse rest).map (.literal c :: ·)

/-- The parts match the whole text. -/
def accepts : List Symbol → List Char → Bool
  | [], text => text.isEmpty
  | .one :: pattern, text =>
      match text with
      | [] => false
      | _ :: rest => accepts pattern rest
  | .many :: pattern, text => text.tails.any (accepts pattern)
  | .literal c :: pattern, text =>
      match text with
      | [] => false
      | x :: rest => x = c && accepts pattern rest

/-- `text LIKE pattern`; a pattern that cannot be parsed matches nothing. -/
def like (text pattern : List Char) : Bool :=
  (parse pattern).any (accepts · text)

/-- The characters that patterns give a meaning to. -/
def isSpecial (c : Char) : Bool :=
  c = '%' || c = '_' || c = '\\'

/-- The pattern for texts that contain the given one. -/
def containing (text : List Char) : List Char :=
  '%' :: (text ++ ['%'])

section

variable {text query : List Char} {pattern : List Symbol} {c : Char}

attribute [local simp] accepts parse

theorem accepts_many :
    accepts (.many :: pattern) text = true ↔
      ∃ rest, rest <:+ text ∧ accepts pattern rest = true := by
  simp [accepts, List.any_eq_true, List.mem_tails]

theorem accepts_many_of (h : accepts pattern text = true) :
    accepts (.many :: pattern) text = true :=
  accepts_many.mpr ⟨text, List.suffix_rfl, h⟩

theorem accepts_many_nil (text : List Char) : accepts [.many] text = true :=
  accepts_many.mpr ⟨[], List.nil_suffix, rfl⟩

/-- Literal parts match the text that they spell. -/
theorem accepts_literals :
    accepts (query.map .literal ++ pattern) text = true ↔
      ∃ rest, text = query ++ rest ∧ accepts pattern rest = true := by
  induction query generalizing text with
  | nil => simp
  | cons c query ih =>
      cases text with
      | nil => simp [accepts]
      | cons x text =>
          simp only [List.map_cons, List.cons_append, accepts, Bool.and_eq_true, decide_eq_true_eq,
            ih, List.cons.injEq]
          constructor
          · rintro ⟨rfl, rest, rfl, hrest⟩
            exact ⟨rest, ⟨rfl, rfl⟩, hrest⟩
          · rintro ⟨rest, ⟨rfl, rfl⟩, hrest⟩
            exact ⟨rfl, rest, rfl, hrest⟩

/-! ## Texts without special characters -/

theorem parse_cons (h : isSpecial c = false) (rest : List Char) :
    parse (c :: rest) = (parse rest).map (.literal c :: ·) := by
  simp only [isSpecial, Bool.or_eq_false_iff, decide_eq_false_iff_not] at h
  obtain ⟨⟨hpercent, hunderscore⟩, hbackslash⟩ := h
  rw [parse] <;> simp_all

theorem parse_append (h : ∀ c ∈ query, isSpecial c = false) (rest : List Char) :
    parse (query ++ rest) = (parse rest).map (query.map .literal ++ ·) := by
  induction query with
  | nil => simp
  | cons c query ih =>
      rw [List.cons_append, parse_cons (h c List.mem_cons_self),
        ih fun x hx => h x (List.mem_cons_of_mem _ hx), Option.map_map]
      rfl

/-- A text without special characters is searched for as it stands. -/
theorem like_containing (h : ∀ c ∈ query, isSpecial c = false) :
    like text (containing query) = true ↔ query <:+: text := by
  have hparse : parse (containing query) = some (.many :: (query.map .literal ++ [.many])) := by
    rw [containing, parse, parse_append h]
    rfl
  rw [like, hparse, Option.any_some, accepts_many]
  constructor
  · rintro ⟨rest, hsuffix, haccepts⟩
    obtain ⟨after, rfl, _⟩ := accepts_literals.mp haccepts
    obtain ⟨before, hbefore⟩ := hsuffix
    exact ⟨before, after, by rw [← hbefore, List.append_assoc]⟩
  · rintro ⟨before, after, rfl⟩
    refine ⟨query ++ after, ⟨before, (List.append_assoc _ _ _).symm⟩, ?_⟩
    exact accepts_literals.mpr ⟨after, rfl, accepts_many_nil after⟩

/-! ## Texts with special characters -/

/-- A text that is found by the pattern for texts that contain the given one: percent signs
are left out, underscores are filled in, and escaped characters stand for themselves. -/
def sample (filler : Char) : List Char → List Char
  | [] => []
  | '\\' :: [] => ['%']
  | '\\' :: c :: rest => c :: sample filler rest
  | '%' :: rest => sample filler rest
  | '_' :: rest => filler :: sample filler rest
  | c :: rest => c :: sample filler rest

attribute [local simp] sample

theorem sample_cons (filler : Char) (h : isSpecial c = false) (rest : List Char) :
    sample filler (c :: rest) = c :: sample filler rest := by
  simp only [isSpecial, Bool.or_eq_false_iff, decide_eq_false_iff_not] at h
  obtain ⟨⟨hpercent, hunderscore⟩, hbackslash⟩ := h
  rw [sample] <;> simp_all

theorem sample_eq_self (filler : Char) (h : ∀ c ∈ query, isSpecial c = false) :
    sample filler query = query := by
  induction query with
  | nil => rfl
  | cons c query ih =>
      rw [sample_cons filler (h c List.mem_cons_self),
        ih fun x hx => h x (List.mem_cons_of_mem _ hx)]

/-- The sample is found. -/
theorem like_sample (filler : Char) (query : List Char) :
    like (sample filler query) (containing query) = true := by
  have hparse : ∃ pattern, parse (query ++ ['%']) = some pattern ∧
      accepts pattern (sample filler query) = true := by
    induction query using sample.induct with
    | case1 => exact ⟨[.many], rfl, accepts_many_nil _⟩
    | case2 => exact ⟨[.literal '%'], rfl, rfl⟩
    | case3 c rest ih =>
        obtain ⟨pattern, hpattern, haccepts⟩ := ih
        refine ⟨.literal c :: pattern, ?_, ?_⟩
        · simp [parse, hpattern]
        · simp [sample, accepts, haccepts]
    | case4 rest ih =>
        obtain ⟨pattern, hpattern, haccepts⟩ := ih
        refine ⟨.many :: pattern, ?_, ?_⟩
        · simp [parse, hpattern]
        · rw [sample]
          exact accepts_many_of haccepts
    | case5 rest ih =>
        obtain ⟨pattern, hpattern, haccepts⟩ := ih
        refine ⟨.one :: pattern, ?_, ?_⟩
        · simp [parse, hpattern]
        · simp [sample, accepts, haccepts]
    | case6 c rest hlast hescape hpercent hunderscore ih =>
        obtain ⟨pattern, hpattern, haccepts⟩ := ih
        have hspecial : isSpecial c = false := by
          cases rest <;> simp_all [isSpecial]
        refine ⟨.literal c :: pattern, ?_, ?_⟩
        · rw [List.cons_append, parse_cons hspecial, hpattern]
          rfl
        · rw [sample_cons filler hspecial]
          simp [accepts, haccepts]
  obtain ⟨pattern, hpattern, haccepts⟩ := hparse
  rw [like, containing, parse, hpattern]
  exact accepts_many_of haccepts

theorem length_sample (filler : Char) (query : List Char) :
    (sample filler query).length ≤ query.length := by
  induction query using sample.induct with
  | case1 => exact le_rfl
  | case2 => exact le_rfl
  | case3 c rest ih => simp only [sample, List.length_cons]; omega
  | case4 rest ih => simp only [sample, List.length_cons]; omega
  | case5 rest ih => simp only [sample, List.length_cons]; omega
  | case6 c rest hlast hescape hpercent hunderscore ih =>
      rw [sample_cons filler (by cases rest <;> simp_all [isSpecial])]
      simp only [List.length_cons]
      omega

/-- The sample is another text when the given one has a special character. -/
theorem sample_eq_self_iff {filler : Char} (hfiller : filler ≠ '_') (query : List Char) :
    sample filler query = query ↔ ∀ c ∈ query, isSpecial c = false := by
  refine ⟨?_, sample_eq_self filler⟩
  intro h
  induction query using sample.induct with
  | case1 => simp
  | case2 => simp [sample] at h
  | case3 c rest ih =>
      have hlength := congrArg List.length h
      have hshort := length_sample filler rest
      simp only [sample, List.length_cons] at hlength
      omega
  | case4 rest ih =>
      have hlength := congrArg List.length h
      have hshort := length_sample filler rest
      simp only [sample, List.length_cons] at hlength
      omega
  | case5 rest ih =>
      simp only [sample, List.cons.injEq] at h
      exact absurd h.1 hfiller
  | case6 c rest hlast hescape hpercent hunderscore ih =>
      have hspecial : isSpecial c = false := by
        cases rest <;> simp_all [isSpecial]
      rw [sample_cons filler hspecial, List.cons.injEq] at h
      exact List.forall_mem_cons.mpr ⟨hspecial, ih h.2⟩

/-- The sample does not contain a text with a special character. -/
theorem infix_sample_iff {filler : Char} (hfiller : filler ≠ '_') (query : List Char) :
    query <:+: sample filler query ↔ ∀ c ∈ query, isSpecial c = false := by
  rw [← sample_eq_self_iff hfiller]
  constructor
  · intro h
    exact (h.eq_of_length_le (length_sample filler query)).symm
  · intro h
    rw [h]

end

end Like
