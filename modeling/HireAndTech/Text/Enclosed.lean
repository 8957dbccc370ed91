import HireAndTech.Text.Captures

/-!
# Enclosed texts

Patterns with an opening, a group of any characters that is as short as possible, and a closing.
The group ends where the closing matches first.

What an expression consumes belongs to a language, which says where it cannot match.

Main results:

- Definition {lit}`Enclosed.finditer`: the matches of such a pattern.
- Theorem {lit}`closeFrom_append`: the group that the closing leaves.
- Theorem {lit}`Enclosed.finditerFrom_gap`: a text in which no match begins is passed over.
-/

namespace Text

namespace Regex

/-! ## Languages -/

/-- What every match consumes belongs to a language. -/
def Consumes (r : Regex) (lang : Language Char) : Prop :=
  ∀ start, ∀ stop ∈ r.ends start, ∃ piece ∈ lang, start.rest = piece ++ stop.rest

section

variable {r s : Regex} {p : Char → Bool} {lang lang' : Language Char} {start stop : Place}

theorem Consumes.mono (h : r.Consumes lang) (hsub : ∀ piece ∈ lang, piece ∈ lang') :
    r.Consumes lang' := by
  intro start stop hstop
  obtain ⟨piece, hpiece, hrest⟩ := h start stop hstop
  exact ⟨piece, hsub piece hpiece, hrest⟩

theorem consumes_empty : empty.Consumes 1 := by
  intro start stop hstop
  rw [ends, List.mem_singleton] at hstop
  exact ⟨[], Language.nil_mem_one, by rw [hstop]; rfl⟩

/-- The texts of one character of a class. -/
def oneChar (p : Char → Bool) : Language Char :=
  {piece | ∃ c, p c = true ∧ piece = [c]}

theorem consumes_satisfy : (satisfy p).Consumes (oneChar p) := by
  intro start stop hstop
  cases hrest : start.rest with
  | nil => simp [ends, hrest] at hstop
  | cons c rest =>
      simp only [ends, hrest] at hstop
      split at hstop
      next hc =>
        rw [List.mem_singleton.mp hstop]
        exact ⟨[c], ⟨c, hc, rfl⟩, rfl⟩
      next => cases hstop

theorem Consumes.seq (h : r.Consumes lang) (h' : s.Consumes lang') :
    (Regex.seq r s).Consumes (lang * lang') := by
  intro start stop hstop
  rw [ends, List.mem_flatMap] at hstop
  obtain ⟨middle, hmiddle, hstop⟩ := hstop
  obtain ⟨piece, hpiece, hrest⟩ := h start middle hmiddle
  obtain ⟨piece', hpiece', hrest'⟩ := h' middle stop hstop
  refine ⟨piece ++ piece', Language.append_mem_mul hpiece hpiece', ?_⟩
  rw [hrest, hrest', List.append_assoc]

theorem Consumes.alt (h : r.Consumes lang) (h' : s.Consumes lang) :
    (Regex.alt r s).Consumes lang := by
  intro start stop hstop
  rw [ends, List.mem_append] at hstop
  rcases hstop with hstop | hstop
  · exact h start stop hstop
  · exact h' start stop hstop

/-- The texts of characters of a class. -/
def charsIn (p : Char → Bool) : Language Char :=
  {piece | ∀ c ∈ piece, p c = true}

theorem mem_charsIn_append {piece piece' : List Char} (h : piece ∈ charsIn p)
    (h' : piece' ∈ charsIn p) : piece ++ piece' ∈ charsIn p := by
  intro c hc
  rcases List.mem_append.mp hc with hc | hc
  · exact h c hc
  · exact h' c hc

/-- A repetition stays in a class that is kept by every round. -/
theorem Consumes.star (h : r.Consumes (charsIn p)) : (Regex.star r).Consumes (charsIn p) := by
  suffices hrepeated : ∀ fuel, ∀ start, ∀ stop ∈ repeated r.ends fuel start,
      ∃ piece ∈ charsIn p, start.rest = piece ++ stop.rest from
    fun start stop hstop => hrepeated start.rest.length start stop hstop
  intro fuel
  induction fuel with
  | zero =>
      intro start stop hstop
      rw [repeated, List.mem_singleton] at hstop
      exact ⟨[], fun c hc => absurd hc List.not_mem_nil, by rw [hstop]; rfl⟩
  | succ fuel ih =>
      intro start stop hstop
      rw [repeated, List.mem_append, List.mem_singleton, List.mem_flatMap] at hstop
      rcases hstop with ⟨next, hnext, hstop⟩ | hstop
      · obtain ⟨piece, hpiece, hrest⟩ := h start next (List.mem_of_mem_filter hnext)
        obtain ⟨piece', hpiece', hrest'⟩ := ih next stop hstop
        refine ⟨piece ++ piece', mem_charsIn_append hpiece hpiece', ?_⟩
        rw [hrest, hrest', List.append_assoc]
      · exact ⟨[], fun c hc => absurd hc List.not_mem_nil, by rw [hstop]; rfl⟩

theorem consumes_satisfy_charsIn : (satisfy p).Consumes (charsIn p) := by
  apply consumes_satisfy.mono
  rintro piece ⟨c, hc, rfl⟩ d hd
  rwa [List.mem_singleton.mp hd]

theorem consumes_optional (h : r.Consumes (charsIn p)) : (optional r).Consumes (charsIn p) := by
  apply h.alt
  apply consumes_empty.mono
  intro piece hpiece c hc
  rw [(Language.mem_one piece).mp hpiece] at hc
  exact absurd hc List.not_mem_nil

/-! ## Literal texts -/

/-- A literal text is matched where it stands. -/
theorem ends_text_append (word : String) (before : Option Char) (rest : List Char) :
    (text word).ends ⟨before, word.toList ++ rest⟩ =
      [⟨word.toList.getLast?.or before, rest⟩] := by
  unfold text
  induction word.toList generalizing before with
  | nil => rfl
  | cons c cs ih =>
      have hstep : (satisfy (· = c)).ends ⟨before, c :: (cs ++ rest)⟩ = [⟨some c, cs ++ rest⟩] := by
        simp [ends]
      rw [List.foldr_cons, List.cons_append, ends, hstep, List.flatMap_singleton, ih (some c)]
      cases cs with
      | nil => rfl
      | cons d cs => simp [List.getLast?_cons]

theorem consumes_text (word : String) : (text word).Consumes {word.toList} := by
  unfold text
  induction word.toList with
  | nil => exact consumes_empty
  | cons c cs ih =>
      apply (consumes_satisfy.seq ih).mono
      intro piece hpiece
      obtain ⟨_, ⟨d, hd, rfl⟩, piece', hpiece', rfl⟩ := Language.mem_mul.mp hpiece
      rw [decide_eq_true_eq] at hd
      rw [hd, Set.mem_singleton_iff.mp hpiece']
      rfl

theorem ends_text_of_not_prefix {word : String} (h : ¬word.toList <+: start.rest) :
    (text word).ends start = [] := by
  rw [List.eq_nil_iff_forall_not_mem]
  intro stop hstop
  obtain ⟨piece, hpiece, hrest⟩ := consumes_text word start stop hstop
  exact h ⟨stop.rest, by rw [hrest, Set.mem_singleton_iff.mp hpiece]⟩

end

end Regex

/-! ## Words in texts -/

/-- No part of a word is both its beginning and its end. -/
def Unbordered (word : List Char) : Prop :=
  ∀ n < word.length, 0 < n → word.drop n ≠ word.take (word.length - n)

instance (word : List Char) : Decidable (Unbordered word) :=
  inferInstanceAs (Decidable (∀ n < word.length, 0 < n → word.drop n ≠ word.take (word.length - n)))

/-- A word without borders does not overlap an occurrence that begins later. -/
theorem Unbordered.isPrefix {word text rest : List Char} (h : Unbordered word) (htext : text ≠ [])
    (hword : word <+: text ++ (word ++ rest)) : word <+: text := by
  by_cases hlength : word.length ≤ text.length
  · exact List.prefix_of_prefix_length_le hword (List.prefix_append _ _) hlength
  · exfalso
    obtain ⟨more, hmore⟩ := hword
    have hdrop := congrArg (List.drop text.length) hmore
    rw [List.drop_append_of_le_length (by omega), List.drop_left] at hdrop
    have htake := congrArg (List.take (word.length - text.length)) hdrop
    rw [List.take_append_of_le_length (by simp), List.take_append_of_le_length (by omega),
      List.take_of_length_le (by simp)] at htake
    exact h text.length (by omega) (List.length_pos_iff.mpr htext) htake

/-! ## Closings -/

/-- The shortest text that the closing follows, and the place after the closing. -/
def closeFrom (closing : Regex) (before : Option Char) : List Char → Option (List Char × Place)
  | [] => (closing.ends ⟨before, []⟩).head?.map fun stop => ([], stop)
  | c :: rest =>
      match (closing.ends ⟨before, c :: rest⟩).head? with
      | some stop => some ([], stop)
      | none => (closeFrom closing (some c) rest).map fun closed => (c :: closed.1, closed.2)

/-- The closing does not match before its place. -/
theorem closeFrom_append {closing : Regex} {inner rest : List Char} {stop : Place}
    (hinner : ∀ part, part <:+ inner → part ≠ [] → ∀ before,
      closing.ends ⟨before, part ++ rest⟩ = [])
    (hclose : ∀ before, (closing.ends ⟨before, rest⟩).head? = some stop) (before : Option Char) :
    closeFrom closing before (inner ++ rest) = some (inner, stop) := by
  induction inner generalizing before with
  | nil =>
      cases rest with
      | nil => simp [closeFrom, hclose before]
      | cons c rest => simp [closeFrom, hclose before]
  | cons c inner ih =>
      have hnone := hinner (c :: inner) (List.suffix_refl _) (List.cons_ne_nil c inner) before
      rw [List.cons_append] at hnone ⊢
      rw [closeFrom, hnone, List.head?_nil]
      simp only
      rw [ih fun part hpart => hinner part (hpart.trans (List.suffix_cons c inner))]
      rfl

/-! ## Patterns -/

/-- A pattern {lit}`opening(.*?)closing`. -/
structure Enclosed (γ : Type) where
  opening : Pattern γ
  closing : Regex

/-- A match: the groups of the opening, the enclosed text and the place after the closing. -/
structure Enclosure (γ : Type) where
  groups : List (γ × List Char)
  inner : List Char
  stop : Place
deriving DecidableEq, Repr

variable {γ : Type}

/-- `match.group(name)`. -/
def Enclosure.group [DecidableEq γ] (found : Enclosure γ) (name : γ) : Option (List Char) :=
  found.groups.lookup name

namespace Enclosed

/-- `pattern.match` at a place. -/
def matchAt (e : Enclosed γ) (start : Place) : Option (Enclosure γ) :=
  (e.opening.ends ⟨start, []⟩).findSome? fun opened =>
    (closeFrom e.closing opened.place.before opened.place.rest).map fun closed =>
      ⟨opened.groups, closed.1, closed.2⟩

/-- The matches of a pattern from a place on. -/
def finditerFrom (e : Enclosed γ) : ℕ → Place → List (Enclosure γ)
  | 0, _ => []
  | fuel + 1, start =>
      match e.matchAt start with
      | some found => found :: finditerFrom e fuel found.stop
      | none =>
          match start.rest with
          | [] => []
          | c :: rest => finditerFrom e fuel ⟨some c, rest⟩

/-- `pattern.finditer`; every match and every step consumes a character. -/
def finditer (e : Enclosed γ) (text : List Char) : List (Enclosure γ) :=
  e.finditerFrom (text.length + 1) ⟨none, text⟩

section

variable {e : Enclosed γ} {gap rest : List Char}

/-- A text in which no match begins is passed over. -/
theorem finditerFrom_gap
    (hgap : ∀ part, part <:+ gap → part ≠ [] → ∀ before, e.matchAt ⟨before, part ++ rest⟩ = none)
    (fuel : ℕ) (before : Option Char) :
    ∃ before', e.finditerFrom (gap.length + fuel) ⟨before, gap ++ rest⟩ =
      e.finditerFrom fuel ⟨before', rest⟩ := by
  induction gap generalizing before with
  | nil => exact ⟨before, by simp⟩
  | cons c gap ih =>
      obtain ⟨before', hrest⟩ :=
        ih (fun part hpart => hgap part (hpart.trans (List.suffix_cons c gap))) (some c)
      refine ⟨before', ?_⟩
      have hnone := hgap (c :: gap) (List.suffix_refl _) (List.cons_ne_nil c gap) before
      rw [List.length_cons, Nat.add_right_comm, finditerFrom, hnone]
      exact hrest

/-- Where a match begins it is the next one. -/
theorem finditerFrom_match {start : Place} {found : Enclosure γ}
    (h : e.matchAt start = some found) (fuel : ℕ) :
    e.finditerFrom (fuel + 1) start = found :: e.finditerFrom fuel found.stop := by
  rw [finditerFrom, h]

/-- After an opening that is a literal text comes the text that the closing leaves. -/
theorem matchAt_text {word : String} {closing : Regex} {inner rest : List Char} {stop : Place}
    (h : ∀ before, closeFrom closing before rest = some (inner, stop)) (before : Option Char) :
    (Enclosed.mk (γ := γ) (.plain (.text word)) closing).matchAt ⟨before, word.toList ++ rest⟩ =
      some ⟨[], inner, stop⟩ := by
  simp [matchAt, Pattern.ends, Regex.ends_text_append, h]

theorem matchAt_text_eq_none {word : String} {closing : Regex} {start : Place}
    (h : ¬word.toList <+: start.rest) :
    (Enclosed.mk (γ := γ) (.plain (.text word)) closing).matchAt start = none := by
  simp [matchAt, Pattern.ends, Regex.ends_text_of_not_prefix h]

end

end Enclosed

end Text
