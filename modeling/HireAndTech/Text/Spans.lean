import HireAndTech.Text.Enclosed

/-!
# Spans

The pieces of a text that an expression can match, apart from the order in which backtracking tries
them.  A piece is seen with the character before it and the text after it, since a word boundary
depends on both.

Main results:

- Definition {lit}`Regex.Span`: a piece that an expression can match.
- Theorems {lit}`Regex.span_seq_iff`, {lit}`Regex.span_alt_iff` and their like: one for each
  constructor.
- Theorem {lit}`Regex.search_iff`: a search finds a piece that can be matched.
-/

namespace Text

namespace Regex

/-- The expression can match the piece, after {lit}`before` and with {lit}`rest` behind it. -/
def Span (r : Regex) (before : Option Char) (piece rest : List Char) : Prop :=
  ⟨piece.getLast?.or before, rest⟩ ∈ r.ends ⟨before, piece ++ rest⟩

section

variable {r s : Regex} {p word : Char → Bool} {before : Option Char} {piece rest : List Char}
  {start stop : Place}

theorem getLast?_append_or {piece' : List Char} :
    (piece ++ piece').getLast?.or before = piece'.getLast?.or (piece.getLast?.or before) := by
  rw [List.getLast?_append, Option.or_assoc]

/-- A match leads from its start to the end of a piece. -/
def Passes (start stop : Place) : Prop :=
  ∃ piece, start.rest = piece ++ stop.rest ∧ stop.before = piece.getLast?.or start.before

theorem Passes.refl : Passes start start :=
  ⟨[], rfl, rfl⟩

theorem Passes.trans {middle : Place} (h : Passes start middle) (h' : Passes middle stop) :
    Passes start stop := by
  obtain ⟨piece, hrest, hbefore⟩ := h
  obtain ⟨piece', hrest', hbefore'⟩ := h'
  refine ⟨piece ++ piece', by rw [hrest, hrest', List.append_assoc], ?_⟩
  rw [getLast?_append_or, hbefore', hbefore]

theorem passes_repeated {step : Place → List Place}
    (hstep : ∀ start, ∀ stop ∈ step start, Passes start stop) (fuel : ℕ)
    (h : stop ∈ repeated step fuel start) : Passes start stop := by
  induction fuel generalizing start with
  | zero =>
      rw [repeated, List.mem_singleton] at h
      exact h ▸ Passes.refl
  | succ fuel ih =>
      rw [repeated, List.mem_append, List.mem_singleton, List.mem_flatMap] at h
      rcases h with ⟨next, hnext, hstop⟩ | rfl
      · exact (hstep start next (List.mem_of_mem_filter hnext)).trans (ih hstop)
      · exact Passes.refl

theorem passes_of_mem_ends (h : stop ∈ r.ends start) : Passes start stop := by
  induction r generalizing start stop with
  | empty =>
      rw [ends, List.mem_singleton] at h
      exact h ▸ Passes.refl
  | satisfy p =>
      unfold ends at h
      split at h
      · contradiction
      · rename_i c rest hrest
        split at h
        · rw [List.mem_singleton.mp h]
          exact ⟨[c], hrest, rfl⟩
        · contradiction
  | seq r s ihr ihs =>
      rw [ends, List.mem_flatMap] at h
      obtain ⟨middle, hmiddle, hstop⟩ := h
      exact (ihr hmiddle).trans (ihs hstop)
  | alt r s ihr ihs =>
      rw [ends, List.mem_append] at h
      exact h.elim ihr ihs
  | star r ih => exact passes_repeated (fun _ _ => ih) _ h
  | boundary word =>
      unfold ends at h
      split at h
      · rw [List.mem_singleton.mp h]
        exact Passes.refl
      · contradiction

/-! ## The constructors -/

@[simp]
theorem span_empty_iff : empty.Span before piece rest ↔ piece = [] := by
  rw [Span, ends, List.mem_singleton, Place.mk.injEq]
  constructor
  · intro ⟨_, hrest⟩
    exact List.append_left_eq_self.mp hrest.symm
  · rintro rfl
    exact ⟨rfl, rfl⟩

@[simp]
theorem span_satisfy_iff : (satisfy p).Span before piece rest ↔ ∃ c, p c = true ∧ piece = [c] := by
  constructor
  · intro h
    obtain ⟨consumed, ⟨c, hc, rfl⟩, hrest⟩ := consumes_satisfy _ _ h
    exact ⟨c, hc, List.append_cancel_right hrest⟩
  · rintro ⟨c, hc, rfl⟩
    simp [Span, ends, hc]

theorem span_seq_iff : (seq r s).Span before piece rest ↔
    ∃ first second, piece = first ++ second ∧ r.Span before first (second ++ rest) ∧
      s.Span (first.getLast?.or before) second rest := by
  rw [Span, ends, List.mem_flatMap]
  constructor
  · rintro ⟨middle, hmiddle, hstop⟩
    obtain ⟨first, hfirst, hbefore⟩ := passes_of_mem_ends hmiddle
    obtain ⟨second, hsecond, _⟩ := passes_of_mem_ends hstop
    dsimp only at hfirst hbefore hsecond
    have hpiece : piece = first ++ second := by
      apply List.append_cancel_right
      rw [hfirst, hsecond, List.append_assoc]
    have hplace : middle = ⟨first.getLast?.or before, second ++ rest⟩ := by
      rw [← hbefore, ← hsecond]
    rw [hplace] at hmiddle hstop
    refine ⟨first, second, hpiece, ?_, ?_⟩
    · rwa [Span, ← List.append_assoc, ← hpiece]
    · rwa [Span, ← getLast?_append_or, ← hpiece]
  · rintro ⟨first, second, rfl, hfirst, hsecond⟩
    refine ⟨⟨first.getLast?.or before, second ++ rest⟩, ?_, ?_⟩
    · rw [List.append_assoc]
      exact hfirst
    · rw [getLast?_append_or]
      exact hsecond

@[simp]
theorem span_alt_iff :
    (alt r s).Span before piece rest ↔ r.Span before piece rest ∨ s.Span before piece rest := by
  rw [Span, ends, List.mem_append]
  rfl

@[simp]
theorem span_boundary_iff : (boundary word).Span before piece rest ↔
    piece = [] ∧ before.any word ≠ rest.head?.any word := by
  constructor
  · intro h
    have hends := h
    rw [Span, ends] at hends
    split at hends
    · rename_i hne
      rw [List.mem_singleton, Place.mk.injEq] at hends
      have hpiece : piece = [] := List.append_left_eq_self.mp hends.2.symm
      refine ⟨hpiece, ?_⟩
      simpa [hpiece] using hne
    · contradiction
  · rintro ⟨rfl, hne⟩
    rw [Span, ends, if_pos (by simpa using hne)]
    exact List.mem_singleton_self _

/-- A repeated class matches the pieces of its characters. -/
theorem span_star_satisfy_iff :
    (star (satisfy p)).Span before piece rest ↔ ∀ c ∈ piece, p c = true := by
  constructor
  · intro h
    obtain ⟨consumed, hconsumed, hrest⟩ := consumes_satisfy_charsIn.star _ _ h
    exact List.append_cancel_right hrest ▸ hconsumed
  · intro h
    induction piece generalizing before with
    | nil =>
        have hlast (fuel : ℕ) (place : Place) :
            place ∈ repeated (satisfy p).ends fuel place := by
          cases fuel <;> simp [repeated]
        exact hlast _ _
    | cons c piece ih =>
        have hc := h c List.mem_cons_self
        have hpiece := @ih (some c) fun d hd => h d (List.mem_cons_of_mem c hd)
        have hstep : (star (satisfy p)).ends ⟨before, c :: (piece ++ rest)⟩ =
            (star (satisfy p)).ends ⟨some c, piece ++ rest⟩ ++
              [⟨before, c :: (piece ++ rest)⟩] := by
          simp [ends, repeated, hc]
        rw [Span, List.cons_append, hstep, List.mem_append]
        left
        rw [Span] at hpiece
        simpa [List.getLast?_cons] using hpiece

/-- A class that is repeated at least once. -/
theorem span_plus_satisfy_iff :
    (plus (satisfy p)).Span before piece rest ↔ piece ≠ [] ∧ ∀ c ∈ piece, p c = true := by
  rw [plus, span_seq_iff]
  simp only [span_satisfy_iff, span_star_satisfy_iff]
  constructor
  · rintro ⟨_, second, rfl, ⟨c, hc, rfl⟩, hsecond⟩
    exact ⟨List.cons_ne_nil c second, List.forall_mem_cons.mpr ⟨hc, hsecond⟩⟩
  · rintro ⟨hne, hall⟩
    cases piece with
    | nil => contradiction
    | cons c piece =>
        obtain ⟨hc, hpiece⟩ := List.forall_mem_cons.mp hall
        exact ⟨[c], piece, rfl, ⟨c, hc, rfl⟩, hpiece⟩

@[simp]
theorem span_text_iff {literal : String} :
    (text literal).Span before piece rest ↔ piece = literal.toList := by
  constructor
  · intro h
    obtain ⟨consumed, hconsumed, hrest⟩ := consumes_text literal _ _ h
    rw [Set.mem_singleton_iff.mp hconsumed] at hrest
    exact List.append_cancel_right hrest
  · rintro rfl
    rw [Span, ends_text_append]
    exact List.mem_singleton_self _

@[simp]
theorem span_sequence_nil_iff : (sequence []).Span before piece rest ↔ piece = [] :=
  span_empty_iff

theorem span_sequence_cons_iff {rs : List Regex} : (sequence (r :: rs)).Span before piece rest ↔
    ∃ first second, piece = first ++ second ∧ r.Span before first (second ++ rest) ∧
      (sequence rs).Span (first.getLast?.or before) second rest :=
  span_seq_iff

/-! ## Searches -/

/-- Some piece matches after {lit}`before`. -/
theorem isEmpty_ends_iff {text : List Char} : (!(r.ends ⟨before, text⟩).isEmpty) = true ↔
    ∃ piece rest, text = piece ++ rest ∧ r.Span before piece rest := by
  rw [Bool.not_eq_true', List.isEmpty_eq_false_iff]
  constructor
  · intro h
    obtain ⟨stop, hstop⟩ := List.exists_mem_of_ne_nil _ h
    obtain ⟨piece, hpiece, hbefore⟩ := passes_of_mem_ends hstop
    dsimp only at hpiece hbefore
    refine ⟨piece, stop.rest, hpiece, ?_⟩
    rw [Span, ← hpiece, ← hbefore]
    exact hstop
  · rintro ⟨piece, rest, rfl, hspan⟩
    exact List.ne_nil_of_mem hspan

theorem searchFrom_iff {text : List Char} : r.searchFrom before text = true ↔
    ∃ front piece rest, text = front ++ (piece ++ rest) ∧
      r.Span (front.getLast?.or before) piece rest := by
  induction text generalizing before with
  | nil =>
      rw [searchFrom, isEmpty_ends_iff]
      constructor
      · rintro ⟨piece, rest, htext, hspan⟩
        exact ⟨[], piece, rest, htext, hspan⟩
      · rintro ⟨front, piece, rest, htext, hspan⟩
        obtain ⟨rfl, hrest⟩ := List.append_eq_nil_iff.mp htext.symm
        exact ⟨piece, rest, hrest.symm, hspan⟩
  | cons c text ih =>
      rw [searchFrom, Bool.or_eq_true, isEmpty_ends_iff, ih]
      constructor
      · rintro (⟨piece, rest, htext, hspan⟩ | ⟨front, piece, rest, htext, hspan⟩)
        · exact ⟨[], piece, rest, htext, hspan⟩
        · refine ⟨c :: front, piece, rest, congrArg (c :: ·) htext, ?_⟩
          simpa [List.getLast?_cons] using hspan
      · rintro ⟨front, piece, rest, htext, hspan⟩
        cases front with
        | nil => exact Or.inl ⟨piece, rest, htext, hspan⟩
        | cons d front =>
            obtain ⟨rfl, hrest⟩ := List.cons_eq_cons.mp htext
            refine Or.inr ⟨front, piece, rest, hrest, ?_⟩
            simpa [List.getLast?_cons] using hspan

/-- A search finds a piece that can be matched. -/
theorem search_iff {text : List Char} : r.search text = true ↔
    ∃ front piece rest, text = front ++ (piece ++ rest) ∧ r.Span front.getLast? piece rest := by
  rw [search, searchFrom_iff]
  simp only [Option.or_none]

end

end Regex

end Text
