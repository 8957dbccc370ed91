import HireAndTech.Text.Regex

/-!
# Regular expressions with named groups

A pattern captures the texts that its groups have matched.  As before, it lists the places where
a match may end in the order in which backtracking tries them.

Two judgements say what a match does on a text without running it.  An expression ends in a set
of texts if every place where it may end is followed by one of them, and it reaches a text if this
is the first one that it does not skip.

Main results:

- Definition {lit}`Pattern.finditer`: the matches of a pattern from left to right.
- Theorem {lit}`Pattern.Reaches.seq`: what is skipped may be what the next pattern refuses.
- Theorem {lit}`Pattern.finditer_of_reaches`: the first match of a pattern that reaches a text.
-/

namespace Text

namespace Regex

/-! ## Repetitions -/

/-- Up to a number of repetitions, as many as possible. -/
def upTo (r : Regex) : ℕ → Regex
  | 0 => .empty
  | n + 1 => optional (.seq r (upTo r n))

/-- A number of repetitions. -/
def times (r : Regex) (n : ℕ) : Regex :=
  sequence (List.replicate n r)

/-! ## Judgements -/

/-- Every place where a match may end is followed by a text of the set. -/
def EndsIn (r : Regex) (set : Set (List Char)) (text : List Char) : Prop :=
  ∀ before, ∀ place ∈ r.ends ⟨before, text⟩, place.rest ∈ set

/-- The first place where a match may end, other than those that are skipped, is followed
by {lit}`rest`. -/
def Reaches (r : Regex) (skips : Set (List Char)) (text rest : List Char) : Prop :=
  ∀ before, ∃ skipped before' others,
    r.ends ⟨before, text⟩ = skipped ++ ⟨before', rest⟩ :: others ∧
      ∀ place ∈ skipped, place.rest ∈ skips

section

variable {r s : Regex} {p : Char → Bool} {set set' skips skips' : Set (List Char)}
  {text rest piece : List Char} {c : Char}

attribute [local simp] ends

theorem EndsIn.mono (h : r.EndsIn set text) (hsub : set ⊆ set') : r.EndsIn set' text :=
  fun before place hplace => hsub (h before place hplace)

/-- An expression that ends nowhere does not match. -/
theorem EndsIn.eq_nil (h : r.EndsIn ∅ text) (before : Option Char) : r.ends ⟨before, text⟩ = [] :=
  List.eq_nil_iff_forall_not_mem.mpr fun place hplace => h before place hplace

theorem endsIn_empty (h : text ∈ set) : empty.EndsIn set text := by
  intro before place hplace
  rw [ends, List.mem_singleton] at hplace
  rwa [hplace]

theorem endsIn_satisfy_cons (h : text ∈ set) : (satisfy p).EndsIn set (c :: text) := by
  intro before place hplace
  simp only [ends] at hplace
  split at hplace
  · rwa [List.mem_singleton.mp hplace]
  · cases hplace

/-- A character that does not begin the text is not matched. -/
theorem endsIn_satisfy_of_head (h : ∀ c ∈ text.head?, p c = false) :
    (satisfy p).EndsIn set text := by
  intro before place hplace
  cases text with
  | nil => cases hplace
  | cons c text =>
      have hc : p c = false := h c rfl
      simp [ends, hc] at hplace

theorem EndsIn.seq (h : r.EndsIn set text) (h' : ∀ text ∈ set, s.EndsIn set' text) :
    (seq r s).EndsIn set' text := by
  intro before place hplace
  rw [ends, List.mem_flatMap] at hplace
  obtain ⟨middle, hmiddle, hplace⟩ := hplace
  exact h' middle.rest (h before middle hmiddle) middle.before place hplace

/-- A sequence does not match where its first part does not. -/
theorem EndsIn.seq_of_empty (h : r.EndsIn ∅ text) : (Regex.seq r s).EndsIn set text :=
  h.seq fun _ htext => absurd htext (Set.notMem_empty _)

theorem EndsIn.alt (h : r.EndsIn set text) (h' : s.EndsIn set text) :
    (alt r s).EndsIn set text := by
  intro before place hplace
  rw [ends, List.mem_append] at hplace
  rcases hplace with hplace | hplace
  · exact h before place hplace
  · exact h' before place hplace

/-- An expression that does not match is not repeated. -/
theorem ends_star_of_endsIn (h : r.EndsIn ∅ text) (before : Option Char) :
    (star r).ends ⟨before, text⟩ = [⟨before, text⟩] := by
  cases text with
  | nil => rfl
  | cons c text =>
      rw [ends, List.length_cons, repeated, h.eq_nil before, List.filter_nil, List.flatMap_nil,
        List.nil_append]

theorem EndsIn.star (h : r.EndsIn ∅ text) (hset : text ∈ set) : (star r).EndsIn set text := by
  intro before place hplace
  rw [ends_star_of_endsIn h, List.mem_singleton] at hplace
  rwa [hplace]

theorem EndsIn.optional (h : r.EndsIn set text) (hset : text ∈ set) :
    (optional r).EndsIn set text :=
  h.alt (endsIn_empty hset)

theorem reaches_empty : empty.Reaches skips text text :=
  fun before => ⟨[], before, [], rfl, fun _ hplace => absurd hplace List.not_mem_nil⟩

theorem reaches_satisfy (hc : p c = true) : (satisfy p).Reaches skips (c :: rest) rest := by
  intro before
  refine ⟨[], some c, [], ?_, fun _ hplace => absurd hplace List.not_mem_nil⟩
  simp [ends, hc]

/-- The places that the first expression skips are refused by the second one. -/
theorem Reaches.seq {middle : List Char} (h : r.Reaches skips text middle)
    (hskips : ∀ text ∈ skips, s.EndsIn ∅ text) (h' : s.Reaches skips' middle rest) :
    (seq r s).Reaches skips' text rest := by
  intro before
  obtain ⟨skipped, before', others, hends, hskipped⟩ := h before
  obtain ⟨skipped', before'', others', hends', hskipped'⟩ := h' before'
  have hnone : skipped.flatMap s.ends = [] := by
    rw [List.flatMap_eq_nil_iff]
    intro place hplace
    exact (hskips place.rest (hskipped place hplace)).eq_nil place.before
  refine ⟨skipped', before'', others' ++ others.flatMap s.ends, ?_, hskipped'⟩
  rw [ends, hends, List.flatMap_append, hnone, List.nil_append, List.flatMap_cons, hends',
    List.append_assoc, List.cons_append]

theorem Reaches.next {middle : List Char} (h : r.Reaches ∅ text middle)
    (h' : s.Reaches skips middle rest) : (Regex.seq r s).Reaches skips text rest :=
  h.seq (fun _ htext => absurd htext (Set.notMem_empty _)) h'

theorem Reaches.left (h : r.Reaches skips text rest) : (alt r s).Reaches skips text rest := by
  intro before
  obtain ⟨skipped, before', others, hends, hskipped⟩ := h before
  refine ⟨skipped, before', others ++ s.ends ⟨before, text⟩, ?_, hskipped⟩
  rw [ends, hends, List.append_assoc, List.cons_append]

/-- The places of the first alternative are skipped. -/
theorem Reaches.right (h : r.EndsIn skips text) (h' : s.Reaches skips text rest) :
    (alt r s).Reaches skips text rest := by
  intro before
  obtain ⟨skipped, before', others, hends, hskipped⟩ := h' before
  refine ⟨r.ends ⟨before, text⟩ ++ skipped, before', others, ?_, ?_⟩
  · rw [ends, hends, List.append_assoc]
  · intro place hplace
    rcases List.mem_append.mp hplace with hplace | hplace
    · exact h before place hplace
    · exact hskipped place hplace

theorem endsIn_anyOf {rs : List Regex} (h : ∀ r ∈ rs, r.EndsIn set text) :
    (anyOf rs).EndsIn set text := by
  induction rs with
  | nil => exact endsIn_satisfy_of_head fun _ _ => rfl
  | cons r rs ih =>
      have hr := h r List.mem_cons_self
      cases rs with
      | nil => exact hr
      | cons r' rs => exact hr.alt (ih fun s hs => h s (List.mem_cons_of_mem r hs))

/-- The first of several expressions that does not only skip. -/
theorem reaches_anyOf {rs rs' : List Regex} (hskips : ∀ s ∈ rs, s.EndsIn skips text)
    (h : r.Reaches skips text rest) : (anyOf (rs ++ r :: rs')).Reaches skips text rest := by
  induction rs with
  | nil =>
      cases rs' with
      | nil => exact h
      | cons s rs' => exact h.left
  | cons s rs ih =>
      have hmore := ih fun s' hs' => hskips s' (List.mem_cons_of_mem s hs')
      cases rs with
      | nil => exact Reaches.right (hskips s List.mem_cons_self) hmore
      | cons s' rs => exact Reaches.right (hskips s List.mem_cons_self) hmore

theorem reaches_star_of_endsIn (h : r.EndsIn ∅ text) : (star r).Reaches skips text text := by
  intro before
  exact ⟨[], before, [], ends_star_of_endsIn h before,
    fun _ hplace => absurd hplace List.not_mem_nil⟩

/-- A class of characters is repeated as long as it can be. -/
theorem reaches_star_satisfy (hpiece : ∀ c ∈ piece, p c = true)
    (hrest : ∀ c ∈ rest.head?, p c = false) :
    (star (satisfy p)).Reaches skips (piece ++ rest) rest := by
  induction piece with
  | nil => exact reaches_star_of_endsIn (endsIn_satisfy_of_head hrest)
  | cons c piece ih =>
      intro before
      obtain ⟨skipped, before', others, hends, hskipped⟩ :=
        ih (fun d hd => hpiece d (List.mem_cons_of_mem c hd)) (some c)
      refine ⟨skipped, before', others ++ [⟨before, c :: (piece ++ rest)⟩], ?_, hskipped⟩
      have hstep : (star (satisfy p)).ends ⟨before, c :: (piece ++ rest)⟩ =
          (star (satisfy p)).ends ⟨some c, piece ++ rest⟩ ++ [⟨before, c :: (piece ++ rest)⟩] := by
        simp [ends, repeated, hpiece c List.mem_cons_self]
      rw [List.cons_append, hstep, hends, List.append_assoc, List.cons_append]

/-- A bounded repetition stops at its bound or at the first character outside the class. -/
theorem reaches_upTo_satisfy {n : ℕ} (hpiece : ∀ c ∈ piece, p c = true)
    (hn : piece.length ≤ n) (hrest : piece.length < n → ∀ c ∈ rest.head?, p c = false) :
    (upTo (satisfy p) n).Reaches skips (piece ++ rest) rest := by
  induction n generalizing piece with
  | zero =>
      rw [List.length_eq_zero_iff.mp (Nat.le_zero.mp hn)]
      exact reaches_empty
  | succ n ih =>
      cases piece with
      | nil =>
          have hhead : (satisfy p).EndsIn ∅ rest :=
            endsIn_satisfy_of_head (hrest (Nat.succ_pos n))
          exact Reaches.right hhead.seq_of_empty reaches_empty
      | cons c piece =>
          rw [List.length_cons] at hn hrest
          have hpieces := ih (fun d hd => hpiece d (List.mem_cons_of_mem c hd)) (by omega)
            (fun hlt => hrest (by omega))
          exact ((reaches_satisfy (hpiece c List.mem_cons_self)).next hpieces).left

end

end Regex

/-! ## Groups -/

/-- A place of a match, and the texts that groups have captured, the last one first. -/
structure Capture (γ : Type) where
  place : Place
  groups : List (γ × List Char)
deriving DecidableEq, Repr

/-- The text between two places. -/
def Place.upto (start stop : Place) : List Char :=
  start.rest.take (start.rest.length - stop.rest.length)

/-- Regular expressions with named groups. -/
inductive Pattern (γ : Type)
  | plain (r : Regex)
  | group (name : γ) (r : Regex)
  | seq (p q : Pattern γ)
  | alt (p q : Pattern γ)

/-- A match: its text, its groups and the place where it ends. -/
structure Found (γ : Type) where
  text : List Char
  groups : List (γ × List Char)
  stop : Place
deriving DecidableEq, Repr

variable {γ : Type}

/-- `match.group(name)`. -/
def Found.group [DecidableEq γ] (found : Found γ) (name : γ) : Option (List Char) :=
  found.groups.lookup name

namespace Pattern

/-- The places where a match may end, with the captured texts. -/
def ends : Pattern γ → Capture γ → List (Capture γ)
  | .plain r, start => (r.ends start.place).map fun stop => ⟨stop, start.groups⟩
  | .group name r, start =>
      (r.ends start.place).map fun stop =>
        ⟨stop, (name, start.place.upto stop) :: start.groups⟩
  | .seq p q, start => (p.ends start).flatMap q.ends
  | .alt p q, start => p.ends start ++ q.ends start

/-- A pattern that may be left out. -/
def optional (p : Pattern γ) : Pattern γ :=
  .alt p (.plain .empty)

/-- Patterns one after the other. -/
def sequence (ps : List (Pattern γ)) : Pattern γ :=
  ps.foldr .seq (.plain .empty)

/-- `pattern.match` at a place. -/
def matchAt (p : Pattern γ) (start : Place) : Option (Found γ) :=
  (p.ends ⟨start, []⟩).head?.map fun stop => ⟨start.upto stop.place, stop.groups, stop.place⟩

/-- The matches of a pattern that does not match the empty text, from a place on. -/
def finditerFrom (p : Pattern γ) : ℕ → Place → List (Found γ)
  | 0, _ => []
  | fuel + 1, start =>
      match p.matchAt start with
      | some found => found :: finditerFrom p fuel found.stop
      | none =>
          match start.rest with
          | [] => []
          | c :: rest => finditerFrom p fuel ⟨some c, rest⟩

/-- `pattern.finditer`; every match and every step consumes a character. -/
def finditer (p : Pattern γ) (text : List Char) : List (Found γ) :=
  p.finditerFrom (text.length + 1) ⟨none, text⟩

/-- The text from a place on with another text in place of every match. -/
def subFrom (p : Pattern γ) (replacement : List Char) : ℕ → Place → List Char
  | 0, start => start.rest
  | fuel + 1, start =>
      match p.matchAt start with
      | some found => replacement ++ subFrom p replacement fuel found.stop
      | none =>
          match start.rest with
          | [] => []
          | c :: rest => c :: subFrom p replacement fuel ⟨some c, rest⟩

/-- `pattern.sub`, of a pattern that does not match the empty text. -/
def sub (p : Pattern γ) (replacement text : List Char) : List Char :=
  p.subFrom replacement (text.length + 1) ⟨none, text⟩

/-- Every place where a match may end is followed by a text of the set. -/
def EndsIn (p : Pattern γ) (set : Set (List Char)) (text : List Char) : Prop :=
  ∀ before groups, ∀ stop ∈ p.ends ⟨⟨before, text⟩, groups⟩, stop.place.rest ∈ set

/-- The first place where a match may end, other than those that are skipped, is followed
by {lit}`rest`, and the groups have captured texts there. -/
def Reaches (p : Pattern γ) (skips : Set (List Char)) (text rest : List Char)
    (captured : List (γ × List Char)) : Prop :=
  ∀ before groups, ∃ skipped before' others,
    p.ends ⟨⟨before, text⟩, groups⟩ =
        skipped ++ ⟨⟨before', rest⟩, captured ++ groups⟩ :: others ∧
      ∀ stop ∈ skipped, stop.place.rest ∈ skips

section

variable {p q : Pattern γ} {r : Regex} {set set' skips skips' : Set (List Char)}
  {text rest piece : List Char} {captured captured' : List (γ × List Char)} {name : γ}

attribute [local simp] ends

theorem EndsIn.eq_nil (h : p.EndsIn ∅ text) (before : Option Char)
    (groups : List (γ × List Char)) : p.ends ⟨⟨before, text⟩, groups⟩ = [] :=
  List.eq_nil_iff_forall_not_mem.mpr fun stop hstop => h before groups stop hstop

theorem endsIn_plain (h : r.EndsIn set text) : (plain r : Pattern γ).EndsIn set text := by
  intro before groups stop hstop
  rw [ends, List.mem_map] at hstop
  obtain ⟨place, hplace, rfl⟩ := hstop
  exact h before place hplace

theorem endsIn_group (h : r.EndsIn set text) : (group name r).EndsIn set text := by
  intro before groups stop hstop
  rw [ends, List.mem_map] at hstop
  obtain ⟨place, hplace, rfl⟩ := hstop
  exact h before place hplace

theorem EndsIn.seq (h : p.EndsIn set text) (h' : ∀ text ∈ set, q.EndsIn set' text) :
    (seq p q).EndsIn set' text := by
  intro before groups stop hstop
  rw [ends, List.mem_flatMap] at hstop
  obtain ⟨middle, hmiddle, hstop⟩ := hstop
  exact h' middle.place.rest (h before groups middle hmiddle) middle.place.before middle.groups
    stop hstop

theorem EndsIn.seq_of_empty (h : p.EndsIn ∅ text) : (Pattern.seq p q).EndsIn set text :=
  h.seq fun _ htext => absurd htext (Set.notMem_empty _)

theorem EndsIn.alt (h : p.EndsIn set text) (h' : q.EndsIn set text) :
    (alt p q).EndsIn set text := by
  intro before groups stop hstop
  rw [ends, List.mem_append] at hstop
  rcases hstop with hstop | hstop
  · exact h before groups stop hstop
  · exact h' before groups stop hstop

theorem EndsIn.optional (h : p.EndsIn set text) (hset : text ∈ set) :
    (optional p).EndsIn set text :=
  h.alt (endsIn_plain (Regex.endsIn_empty hset))

theorem reaches_plain (h : r.Reaches skips text rest) :
    (plain r : Pattern γ).Reaches skips text rest [] := by
  intro before groups
  obtain ⟨skipped, before', others, hends, hskipped⟩ := h before
  refine ⟨skipped.map fun stop => ⟨stop, groups⟩, before',
    others.map fun stop => ⟨stop, groups⟩, ?_, ?_⟩
  · rw [ends, hends, List.map_append, List.map_cons, List.nil_append]
  · intro stop hstop
    obtain ⟨place, hplace, rfl⟩ := List.mem_map.mp hstop
    exact hskipped place hplace

/-- A group captures the text between its ends. -/
theorem reaches_group (h : r.Reaches skips (piece ++ rest) rest) :
    (group name r).Reaches skips (piece ++ rest) rest [(name, piece)] := by
  intro before groups
  obtain ⟨skipped, before', others, hends, hskipped⟩ := h before
  have hpiece : Place.upto ⟨before, piece ++ rest⟩ ⟨before', rest⟩ = piece := by
    simp [Place.upto]
  refine ⟨skipped.map fun stop => ⟨stop, (name, Place.upto ⟨before, piece ++ rest⟩ stop) :: groups⟩,
    before', others.map fun stop =>
      ⟨stop, (name, Place.upto ⟨before, piece ++ rest⟩ stop) :: groups⟩, ?_, ?_⟩
  · rw [ends, hends, List.map_append, List.map_cons, hpiece]
    rfl
  · intro stop hstop
    obtain ⟨place, hplace, rfl⟩ := List.mem_map.mp hstop
    exact hskipped place hplace

/-- The places that the first pattern skips are refused by the second one. -/
theorem Reaches.seq {middle : List Char} (h : p.Reaches skips text middle captured)
    (hskips : ∀ text ∈ skips, q.EndsIn ∅ text) (h' : q.Reaches skips' middle rest captured') :
    (seq p q).Reaches skips' text rest (captured' ++ captured) := by
  intro before groups
  obtain ⟨skipped, before', others, hends, hskipped⟩ := h before groups
  obtain ⟨skipped', before'', others', hends', hskipped'⟩ := h' before' (captured ++ groups)
  have hnone : skipped.flatMap q.ends = [] := by
    rw [List.flatMap_eq_nil_iff]
    intro stop hstop
    exact (hskips stop.place.rest (hskipped stop hstop)).eq_nil stop.place.before stop.groups
  refine ⟨skipped', before'', others' ++ others.flatMap q.ends, ?_, hskipped'⟩
  rw [ends, hends, List.flatMap_append, hnone, List.nil_append, List.flatMap_cons, hends',
    List.append_assoc, List.cons_append, List.append_assoc]

theorem Reaches.next {middle : List Char} (h : p.Reaches ∅ text middle captured)
    (h' : q.Reaches skips middle rest captured') :
    (Pattern.seq p q).Reaches skips text rest (captured' ++ captured) :=
  h.seq (fun _ htext => absurd htext (Set.notMem_empty _)) h'

theorem Reaches.left (h : p.Reaches skips text rest captured) :
    (alt p q).Reaches skips text rest captured := by
  intro before groups
  obtain ⟨skipped, before', others, hends, hskipped⟩ := h before groups
  refine ⟨skipped, before', others ++ q.ends ⟨⟨before, text⟩, groups⟩, ?_, hskipped⟩
  rw [ends, hends, List.append_assoc, List.cons_append]

/-- A pattern that does not match is left out. -/
theorem reaches_optional_of_endsIn (h : p.EndsIn ∅ text) :
    (optional p).Reaches skips text text [] := by
  intro before groups
  refine ⟨[], before, [], ?_, fun _ hstop => absurd hstop List.not_mem_nil⟩
  rw [optional, ends, h.eq_nil before groups]
  rfl

/-- The first match of a pattern that reaches a text and skips nothing. -/
theorem finditer_of_reaches (h : p.Reaches ∅ (piece ++ rest) rest captured) :
    ∃ before more, p.finditer (piece ++ rest) = ⟨piece, captured, ⟨before, rest⟩⟩ :: more := by
  obtain ⟨skipped, before', others, hends, hskipped⟩ := h none []
  have hnone : skipped = [] :=
    List.eq_nil_iff_forall_not_mem.mpr fun stop hstop => hskipped stop hstop
  have hpiece : Place.upto ⟨none, piece ++ rest⟩ ⟨before', rest⟩ = piece := by
    simp [Place.upto]
  rw [hnone, List.nil_append, List.append_nil] at hends
  have hmatch : p.matchAt ⟨none, piece ++ rest⟩ =
      some ⟨piece, captured, ⟨before', rest⟩⟩ := by
    rw [matchAt, hends, List.head?_cons, Option.map_some, hpiece]
  refine ⟨before', p.finditerFrom (piece ++ rest).length ⟨before', rest⟩, ?_⟩
  rw [finditer, finditerFrom, hmatch]

end

end Pattern

end Text
