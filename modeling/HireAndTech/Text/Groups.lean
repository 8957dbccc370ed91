import HireAndTech.Text.Spans

/-!
# Groups of a match

What a match of a pattern captures.  A group of a sequence is captured once, and the patterns after
it leave it alone when they have no group of its name.

Main results:

- Theorem {lit}`Pattern.exists_captured`: a match has the text that a group of a sequence captures.
- Theorem {lit}`Pattern.exists_of_mem_finditer`: where the matches of a text stand.
- Theorem {lit}`Pattern.firstMatch_of_head?`: the first match of a text stands before the others.
-/

namespace Text

theorem Place.upto_eq {start stop : Place} {piece : List Char}
    (h : start.rest = piece ++ stop.rest) : start.upto stop = piece := by
  simp [Place.upto, h]

namespace Pattern

variable {γ : Type}

/-- The names of the groups of a pattern. -/
def names : Pattern γ → List γ
  | .plain _ => []
  | .group name _ => [name]
  | .seq p q => p.names ++ q.names
  | .alt p q => p.names ++ q.names

section

variable {p q : Pattern γ} {ps : List (Pattern γ)} {start stop : Capture γ}

theorem passes_of_mem_ends (h : stop ∈ p.ends start) : Regex.Passes start.place stop.place := by
  induction p generalizing start stop with
  | plain r =>
      obtain ⟨place, hplace, rfl⟩ := List.mem_map.mp h
      exact Regex.passes_of_mem_ends hplace
  | group name r =>
      obtain ⟨place, hplace, rfl⟩ := List.mem_map.mp h
      exact Regex.passes_of_mem_ends hplace
  | seq p q ihp ihq =>
      obtain ⟨middle, hmiddle, hstop⟩ := List.mem_flatMap.mp h
      exact (ihp hmiddle).trans (ihq hstop)
  | alt p q ihp ihq => exact (List.mem_append.mp h).elim ihp ihq

theorem names_sequence : (sequence ps).names = ps.flatMap names := by
  induction ps with
  | nil => rfl
  | cons p ps ih => exact congrArg (p.names ++ ·) ih

/-- The ends of a sequence are reached over the ends of its beginning. -/
theorem mem_ends_sequence_append {before after : List (Pattern γ)}
    (h : stop ∈ (sequence (before ++ after)).ends start) :
    ∃ middle, Regex.Passes start.place middle.place ∧ stop ∈ (sequence after).ends middle := by
  induction before generalizing start with
  | nil => exact ⟨start, Regex.Passes.refl, h⟩
  | cons p before ih =>
      obtain ⟨next, hnext, hstop⟩ := List.mem_flatMap.mp h
      obtain ⟨middle, hmiddle, hstop⟩ := ih hstop
      exact ⟨middle, (passes_of_mem_ends hnext).trans hmiddle, hstop⟩

/-! ## Matches of a text -/

theorem exists_of_mem_finditerFrom {fuel : ℕ} {place : Place} {found : Found γ}
    (h : found ∈ p.finditerFrom fuel place) :
    ∃ start, Regex.Passes place start ∧ p.matchAt start = some found := by
  induction fuel generalizing place with
  | zero => contradiction
  | succ fuel ih =>
      unfold finditerFrom at h
      split at h
      · rename_i first hfirst
        rcases List.mem_cons.mp h with rfl | h
        · exact ⟨place, Regex.Passes.refl, hfirst⟩
        · obtain ⟨start, hstart, hfound⟩ := ih h
          obtain ⟨stop, hstop, rfl⟩ := Option.map_eq_some_iff.mp hfirst
          have hpasses := passes_of_mem_ends (List.mem_of_mem_head? hstop)
          exact ⟨start, hpasses.trans hstart, hfound⟩
      · split at h
        · contradiction
        · rename_i c rest hrest
          obtain ⟨start, hstart, hfound⟩ := ih h
          have hstep : Regex.Passes place ⟨some c, rest⟩ := ⟨[c], hrest, rfl⟩
          exact ⟨start, hstep.trans hstart, hfound⟩

/-- The matches of a text are matches at some of its places. -/
theorem exists_of_mem_finditer {text : List Char} {found : Found γ}
    (h : found ∈ p.finditer text) :
    ∃ front rest, text = front ++ rest ∧ p.matchAt ⟨front.getLast?, rest⟩ = some found := by
  obtain ⟨⟨before, rest⟩, ⟨front, hfront, hbefore⟩, hfound⟩ := exists_of_mem_finditerFrom h
  dsimp only at hfront hbefore
  rw [Option.or_none] at hbefore
  exact ⟨front, rest, hfront, hbefore ▸ hfound⟩

/-- The place after the first {lit}`offset` characters of a text. -/
def placeAt (text : List Char) (offset : ℕ) : Place :=
  ⟨(text.take offset).getLast?, text.drop offset⟩

/-- A match of a text that begins after {lit}`offset` characters. -/
def MatchesAt (p : Pattern γ) (text : List Char) (offset : ℕ) (found : Found γ) : Prop :=
  offset ≤ text.length ∧ p.matchAt (placeAt text offset) = some found

theorem placeAt_succ {text rest : List Char} {offset : ℕ} {c : Char}
    (h : (placeAt text offset).rest = c :: rest) :
    offset < text.length ∧ placeAt text (offset + 1) = ⟨some c, rest⟩ := by
  have hdrop : text.drop offset = c :: rest := h
  have hlt : offset < text.length := by
    have hlength := congrArg List.length hdrop
    rw [List.length_drop, List.length_cons] at hlength
    omega
  obtain ⟨hc, hrest⟩ := List.cons_eq_cons.mp ((List.drop_eq_getElem_cons hlt).symm.trans hdrop)
  refine ⟨hlt, ?_⟩
  rw [placeAt, List.take_succ_eq_append_getElem hlt, List.getLast?_append, hc, hrest]
  rfl

/-- Where no match is left a pattern matches nowhere. -/
theorem matchAt_of_finditerFrom_nil {text : List Char} {fuel offset n : ℕ}
    (hfuel : text.length < fuel + offset) (h : p.finditerFrom fuel (placeAt text offset) = [])
    (hoffset : offset ≤ n) (hn : n ≤ text.length) : p.matchAt (placeAt text n) = none := by
  induction fuel generalizing offset with
  | zero => omega
  | succ fuel ih =>
      unfold finditerFrom at h
      split at h
      · contradiction
      · rename_i hnone
        rcases hoffset.eq_or_lt with rfl | hlt
        · exact hnone
        · split at h
          · rename_i hrest
            have hend : text.drop offset = [] := hrest
            rw [List.drop_eq_nil_iff] at hend
            omega
          · rename_i c rest hrest
            rw [← (placeAt_succ hrest).2] at h
            exact ih (by omega) h hlt

/-- The first match that is left stands before the others. -/
theorem firstMatch_of_head?_finditerFrom {text : List Char} {fuel offset : ℕ} {found : Found γ}
    (h : (p.finditerFrom fuel (placeAt text offset)).head? = some found)
    (hoffset : offset ≤ text.length) :
    ∃ n, p.MatchesAt text n found ∧
      ∀ earlier, offset ≤ earlier → earlier < n → p.matchAt (placeAt text earlier) = none := by
  induction fuel generalizing offset with
  | zero => contradiction
  | succ fuel ih =>
      unfold finditerFrom at h
      split at h
      · rename_i first hfirst
        cases h
        exact ⟨offset, ⟨hoffset, hfirst⟩, fun earlier hle hlt => absurd hle (by omega)⟩
      · rename_i hnone
        split at h
        · contradiction
        · rename_i c rest hrest
          obtain ⟨hlt, hplace⟩ := placeAt_succ hrest
          rw [← hplace] at h
          obtain ⟨n, hfound, hbefore⟩ := ih h hlt
          refine ⟨n, hfound, fun earlier hle hearlier => ?_⟩
          rcases hle.eq_or_lt with rfl | hle
          · exact hnone
          · exact hbefore earlier hle hearlier

/-- The first match of a text stands before the others. -/
theorem firstMatch_of_head? {text : List Char} {found : Found γ}
    (h : (p.finditer text).head? = some found) :
    ∃ n, p.MatchesAt text n found ∧
      ∀ earlier < n, ∀ other, ¬ p.MatchesAt text earlier other := by
  obtain ⟨n, hfound, hbefore⟩ := @firstMatch_of_head?_finditerFrom _ p text _ 0 _ h (Nat.zero_le _)
  refine ⟨n, hfound, fun earlier hlt other hother => ?_⟩
  have hnone := hbefore earlier (Nat.zero_le _) hlt
  rw [hother.2] at hnone
  contradiction

theorem head?_ne_none_of_matchesAt {text : List Char} {found : Found γ} {n : ℕ}
    (h : p.MatchesAt text n found) : (p.finditer text).head? ≠ none := by
  intro hnil
  have hnone := @matchAt_of_finditerFrom_nil _ p text _ 0 n (Nat.lt_succ_self _)
    (List.head?_eq_none_iff.mp hnil) (Nat.zero_le n) h.1
  rw [h.2] at hnone
  contradiction

/-- The text of a match is a part of the text that it begins in. -/
theorem text_infix_of_matchAt {place : Place} {found : Found γ}
    (h : p.matchAt place = some found) : found.text <:+: place.rest := by
  obtain ⟨stop, _, rfl⟩ := Option.map_eq_some_iff.mp h
  exact (List.take_prefix _ _).isInfix

/-! ## Captured texts -/

variable [DecidableEq γ] {name : γ}

/-- A pattern without a group of some name leaves that group alone. -/
theorem lookup_of_mem_ends (hname : name ∉ p.names) (h : stop ∈ p.ends start) :
    stop.groups.lookup name = start.groups.lookup name := by
  induction p generalizing start stop with
  | plain r =>
      obtain ⟨place, hplace, rfl⟩ := List.mem_map.mp h
      rfl
  | group other r =>
      obtain ⟨place, hplace, rfl⟩ := List.mem_map.mp h
      have hne : (name == other) = false :=
        beq_eq_false_iff_ne.mpr fun heq => hname (heq ▸ List.mem_singleton_self other)
      rw [List.lookup_cons, hne]
  | seq p q ihp ihq =>
      obtain ⟨middle, hmiddle, hstop⟩ := List.mem_flatMap.mp h
      rw [names, List.mem_append, not_or] at hname
      rw [ihq hname.2 hstop, ihp hname.1 hmiddle]
  | alt p q ihp ihq =>
      rw [names, List.mem_append, not_or] at hname
      exact (List.mem_append.mp h).elim (ihp hname.1) (ihq hname.2)

/-- A match has the text that a group of a sequence captures. -/
theorem exists_captured {i : ℕ} {r : Regex} {lang : Language Char} {place : Place}
    {found : Found γ} (hgroup : ps[i]? = some (.group name r))
    (hnames : name ∉ (ps.drop (i + 1)).flatMap names) (hr : r.Consumes lang)
    (h : (sequence ps).matchAt place = some found) :
    ∃ piece ∈ lang, found.group name = some piece ∧ piece <:+: found.text := by
  have hsplit : ps = ps.take i ++ .group name r :: ps.drop (i + 1) := by
    obtain ⟨hi, hget⟩ := List.getElem?_eq_some_iff.mp hgroup
    rw [← hget, List.getElem_cons_drop, List.take_append_drop]
  rw [hsplit] at h
  generalize ps.drop (i + 1) = after at hnames h
  obtain ⟨stop, hstop, rfl⟩ := Option.map_eq_some_iff.mp h
  obtain ⟨middle, hmiddle, hrest⟩ := mem_ends_sequence_append (List.mem_of_mem_head? hstop)
  obtain ⟨next, hnext, hafter⟩ := List.mem_flatMap.mp hrest
  obtain ⟨reached, hreached, rfl⟩ := List.mem_map.mp hnext
  obtain ⟨piece, hpiece, hconsumed⟩ := hr middle.place reached hreached
  obtain ⟨front, hfront, _⟩ := hmiddle
  obtain ⟨tail, htail, _⟩ := passes_of_mem_ends hafter
  dsimp only at hfront htail
  have hkept : name ∉ (sequence after).names := by rwa [names_sequence]
  refine ⟨piece, hpiece, ?_, front, tail, ?_⟩
  · rw [Found.group, lookup_of_mem_ends hkept hafter, List.lookup_cons_self,
      Place.upto_eq hconsumed]
  · exact (Place.upto_eq (by rw [hfront, hconsumed, htail]; simp)).symm

end

end Pattern

end Text
