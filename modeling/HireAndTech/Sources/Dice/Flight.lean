import HireAndTech.Catalogue.Tables
import HireAndTech.Text.Enclosed
import HireAndTech.Text.JsonDecoder

/-!
# Flight payloads of Dice

A search page of Dice streams its data in scripts, each of which pushes a piece of the payload.
The collector looks for the list of jobs in every piece by itself.

Main results:

- Definitions {lit}`iterFlightChunks` and {lit}`parseFlightJoblist`.
- Theorem {lit}`iterFlightChunks_page`: the pieces that a page pushes are the chunks.
- Theorem {lit}`flight_chunks_iff`: the list is found exactly when no cut falls into it.
-/

namespace HireAndTech
namespace Sources
namespace Dice

open Text Catalogue

/-! ## Chunks -/

/-- The call that pushes a piece, up to the bracket of its array. -/
def pushCall : String :=
  "self.__next_f.push(["

def scriptEnd : String :=
  "</script>"

/-- `\s*`. -/
def spaces : Regex :=
  .star (.satisfy isSpace)

/-- `\]\)\s*;?\s*</script>`. -/
def flightClosing : Regex :=
  .seq (.text "])") (.seq spaces (.seq (.optional (.satisfy (· = ';')))
    (.seq spaces (.text scriptEnd))))

/-- `_FLIGHT_PUSH_RE`, whose group is what it encloses with the brackets. -/
def flightPushRe : Enclosed Unit :=
  ⟨.plain (.text pushCall), flightClosing⟩

variable (readFloat : List Char → Double)

/-- The second item of an array, if it is a string. -/
def pushedText : Except DecodeError JsonValue → Option (List Char)
  | .ok (.arr (_ :: .str chunk :: _)) => some chunk.toList
  | _ => none

/-- `_iter_flight_chunks`. -/
def iterFlightChunks (html : List Char) : List (List Char) :=
  (flightPushRe.finditer html).filterMap fun found =>
    pushedText (loads readFloat ('[' :: found.inner ++ [']']))

/-! ## The list of jobs -/

/-- The text after the first occurrence of a word. -/
def textAfter (word : List Char) : List Char → Option (List Char)
  | [] => if word = [] then some [] else none
  | c :: cs =>
      if word <+: c :: cs then some ((c :: cs).drop word.length) else textAfter word cs

def listName : List Char :=
  "\"jobList\"".toList

/-- `"jobList":`. -/
def listKey : List Char :=
  listName ++ [':']

/-- The fields of an object whose data are a list. -/
def jobListOf : Except DecodeError (JsonValue × List Char) → Option (List (String × JsonValue))
  | .ok (.obj fields, _) =>
      match fields.lookup "data" with
      | some (.arr _) => some fields
      | _ => none
  | _ => none

/-- The list of jobs in one chunk. -/
def chunkJoblist (chunk : List Char) : Option (List (String × JsonValue)) :=
  (textAfter listKey chunk).bind fun rest => jobListOf (rawDecode readFloat rest)

/-- `_parse_flight_joblist`. -/
def parseFlightJoblist (html : List Char) : Option (List (String × JsonValue)) :=
  (iterFlightChunks readFloat html).findSome? (chunkJoblist readFloat)

/-! ## Pages -/

/-- A script of a page: what stands before the call, and the array of the call without its
brackets. -/
structure Push where
  gap : List Char
  inner : List Char
deriving DecidableEq, Repr

/-- The text up to the end of the script. -/
def Push.text (push : Push) : List Char :=
  push.gap ++ (pushCall.toList ++ (push.inner ++ ("])".toList ++ scriptEnd.toList)))

/-- A page with scripts that push pieces. -/
def page (pushes : List Push) (after : List Char) : List Char :=
  pushes.flatMap Push.text ++ after

/-- The call is the only one of its script, which ends after it. -/
structure Push.Single (push : Push) : Prop where
  gap : ¬pushCall.toList <:+: push.gap
  inner : ¬scriptEnd.toList <:+: push.inner

/-- A script pushes a piece of the payload. -/
def Push.Carries (push : Push) (piece : List Char) : Prop :=
  pushedText (loads readFloat ('[' :: push.inner ++ [']'])) = some piece

section

variable {part rest piece : List Char} {push : Push} {pushes : List Push} {after : List Char}

/-- The characters that may stand between the call and the end of the script. -/
def isBlank (c : Char) : Bool :=
  isSpace c || c = ';'

theorem consumes_flightClosing : flightClosing.Consumes
    {piece | ∃ blanks ∈ Regex.charsIn isBlank,
      piece = "])".toList ++ (blanks ++ scriptEnd.toList)} := by
  have hspace : (Regex.satisfy isSpace).Consumes (Regex.charsIn isBlank) := by
    apply Regex.consumes_satisfy.mono
    rintro piece ⟨c, hc, rfl⟩ d hd
    rw [List.mem_singleton.mp hd, isBlank, hc, Bool.true_or]
  have hsemicolon : (Regex.satisfy (· = ';')).Consumes (Regex.charsIn isBlank) := by
    apply Regex.consumes_satisfy.mono
    rintro piece ⟨c, hc, rfl⟩ d hd
    rw [List.mem_singleton.mp hd, isBlank, Bool.or_eq_true]
    exact Or.inr hc
  have hend := Regex.consumes_text scriptEnd
  apply ((Regex.consumes_text "])").seq (hspace.star.seq ((Regex.consumes_optional
    hsemicolon).seq (hspace.star.seq hend)))).mono
  intro piece hpiece
  obtain ⟨bracket, hbracket, _, hafter, rfl⟩ := Language.mem_mul.mp hpiece
  obtain ⟨first, hfirst, _, hmore, rfl⟩ := Language.mem_mul.mp hafter
  obtain ⟨second, hsecond, _, hend, rfl⟩ := Language.mem_mul.mp hmore
  obtain ⟨third, hthird, last, hlast, rfl⟩ := Language.mem_mul.mp hend
  refine ⟨first ++ (second ++ third),
    Regex.mem_charsIn_append hfirst (Regex.mem_charsIn_append hsecond hthird), ?_⟩
  rw [Set.mem_singleton_iff.mp hbracket, Set.mem_singleton_iff.mp hlast]
  simp only [List.append_assoc]

theorem ends_spaces {before : Option Char} (h : ∀ c ∈ rest.head?, isSpace c = false) :
    spaces.ends ⟨before, rest⟩ = [⟨before, rest⟩] :=
  Regex.ends_star_of_endsIn (Regex.endsIn_satisfy_of_head h) before

/-- The closing matches right after the array. -/
theorem head_flightClosing (rest : List Char) (before : Option Char) :
    (flightClosing.ends ⟨before, "])".toList ++ (scriptEnd.toList ++ rest)⟩).head? =
      some ⟨some '>', rest⟩ := by
  have hhead : ∀ c ∈ (scriptEnd.toList ++ rest).head?, isSpace c = false := by
    intro c hc
    cases hc
    rfl
  have hsemicolon : (Regex.optional (.satisfy (· = ';'))).ends
      ⟨some ')', scriptEnd.toList ++ rest⟩ = [⟨some ')', scriptEnd.toList ++ rest⟩] := rfl
  have hbracket : "])".toList.getLast?.or before = some ')' := rfl
  simp only [flightClosing, Regex.ends, Regex.ends_text_append, hbracket, List.flatMap_singleton,
    ends_spaces hhead, hsemicolon]
  rfl

/-- The closing does not match inside the array. -/
theorem ends_flightClosing_eq_nil (hpart : part ≠ []) (hend : ¬scriptEnd.toList <:+: part)
    (before : Option Char) :
    flightClosing.ends ⟨before, part ++ ("])".toList ++ (scriptEnd.toList ++ rest))⟩ = [] := by
  rw [List.eq_nil_iff_forall_not_mem]
  intro stop hstop
  obtain ⟨_, ⟨blanks, hblanks, rfl⟩, heq⟩ := consumes_flightClosing _ stop hstop
  have hopen : '<' ∉ "])".toList ++ blanks := by
    intro hmem
    rcases List.mem_append.mp hmem with hmem | hmem
    · exact absurd hmem (by decide)
    · exact absurd (hblanks '<' hmem) (by decide)
  -- both sides are compared up to their first angle bracket
  have hsplit := congrArg (partition '<') heq
  have hright : partition '<' ("])".toList ++ (blanks ++ scriptEnd.toList) ++ stop.rest) =
      ("])".toList ++ blanks, "/script>".toList ++ stop.rest) := by
    rw [← partition_append hopen]
    simp [scriptEnd]
  rw [hright] at hsplit
  by_cases hmem : '<' ∈ part
  · obtain ⟨first, last, rfl, hfirst⟩ := List.eq_append_cons_of_mem hmem
    have hleft :
        partition '<' (first ++ '<' :: last ++ ("])".toList ++ (scriptEnd.toList ++ rest))) =
          (first, last ++ ("])".toList ++ (scriptEnd.toList ++ rest))) := by
      rw [← partition_append hfirst]
      simp
    rw [hleft, Prod.mk.injEq] at hsplit
    have hinside : ¬"/script>".toList <+: last := by
      rintro ⟨more, rfl⟩
      exact hend ⟨first, more, by simp [scriptEnd]⟩
    rcases List.append_eq_append_iff.mp hsplit.2 with ⟨cut, hcut, hrest⟩ | ⟨more, rfl, _⟩
    · cases cut with
      | nil => exact hinside ⟨[], by simpa using hcut⟩
      | cons c cut =>
          have hc : c = ']' := by
            simpa using (congrArg List.head? hrest).symm
          have hmem : ']' ∈ "/script>".toList := by
            rw [hcut, hc]
            simp
          exact absurd hmem (by decide)
    · exact hinside ⟨more, rfl⟩
  · have hopen' : '<' ∉ part ++ "])".toList := by
      rw [List.mem_append, not_or]
      exact ⟨hmem, by decide⟩
    have hleft : partition '<' (part ++ ("])".toList ++ (scriptEnd.toList ++ rest))) =
        (part ++ "])".toList, "/script>".toList ++ rest) := by
      rw [← partition_append hopen']
      simp [scriptEnd]
    rw [hleft, Prod.mk.injEq] at hsplit
    cases hblank : blanks with
    | nil =>
        have hlength := congrArg List.length hsplit.1
        rw [hblank] at hlength
        exact hpart (List.length_eq_zero_iff.mp (by simpa using hlength))
    | cons c cs =>
        have hlast := congrArg List.getLast? hsplit.1
        rw [hblank] at hlast
        have hmem : ')' ∈ blanks := by
          rw [hblank]
          apply List.mem_of_getLast?
          simpa using hlast.symm
        exact absurd (hblanks ')' hmem) (by decide)

theorem unbordered_pushCall : Unbordered pushCall.toList := by
  decide

/-- The call does not begin before its place in the script. -/
theorem matchAt_gap (hpush : push.Single) (hpart : part <:+ push.gap) (hne : part ≠ [])
    (before : Option Char) :
    flightPushRe.matchAt ⟨before, part ++ (pushCall.toList ++ rest)⟩ = none := by
  apply Enclosed.matchAt_text_eq_none
  intro hcall
  have hword := unbordered_pushCall.isPrefix hne hcall
  exact hpush.gap (hword.isInfix.trans hpart.isInfix)

theorem matchAt_push (hpush : push.Single) (before : Option Char) :
    flightPushRe.matchAt ⟨before, pushCall.toList ++ (push.inner ++
      ("])".toList ++ (scriptEnd.toList ++ rest)))⟩ =
      some ⟨[], push.inner, ⟨some '>', rest⟩⟩ := by
  apply Enclosed.matchAt_text
  apply closeFrom_append
  · intro part hpart hne before
    apply ends_flightClosing_eq_nil hne
    exact fun hend => hpush.inner (hend.trans hpart.isInfix)
  · exact head_flightClosing rest

theorem finditerFrom_page (hpushes : ∀ push ∈ pushes, push.Single)
    (hafter : ¬pushCall.toList <:+: after) (fuel : ℕ) (hfuel : (page pushes after).length < fuel)
    (before : Option Char) :
    (flightPushRe.finditerFrom fuel ⟨before, page pushes after⟩).map (·.inner) =
      pushes.map (·.inner) := by
  induction pushes generalizing fuel before with
  | nil =>
      obtain ⟨more, rfl⟩ := Nat.exists_eq_add_of_lt hfuel
      have hpage : page [] after = after ++ [] := by simp [page]
      have hnone : ∀ part, part <:+ after → part ≠ [] → ∀ before,
          flightPushRe.matchAt ⟨before, part ++ []⟩ = none := by
        intro part hpart hne before
        apply Enclosed.matchAt_text_eq_none
        rw [List.append_nil]
        exact fun hcall => hafter (hcall.isInfix.trans hpart.isInfix)
      obtain ⟨before', hgap⟩ := Enclosed.finditerFrom_gap hnone (more + 1) before
      have hend : flightPushRe.matchAt ⟨before', []⟩ = none :=
        Enclosed.matchAt_text_eq_none fun hcall => absurd (List.prefix_nil.mp hcall) (by decide)
      rw [hpage, List.append_nil, Nat.add_assoc]
      rw [List.append_nil] at hgap
      rw [hgap, Enclosed.finditerFrom, hend]
      rfl
  | cons push pushes ih =>
      have hpush := hpushes push List.mem_cons_self
      have hpage : page (push :: pushes) after = push.gap ++ (pushCall.toList ++ (push.inner ++
          ("])".toList ++ (scriptEnd.toList ++ page pushes after)))) := by
        simp only [page, List.flatMap_cons, Push.text, List.append_assoc]
      rw [hpage, List.length_append, List.length_append] at hfuel
      obtain ⟨more, rfl⟩ : ∃ more, fuel = push.gap.length + (more + 1) :=
        ⟨fuel - push.gap.length - 1, by omega⟩
      obtain ⟨before', hgap⟩ := Enclosed.finditerFrom_gap
        (fun part hpart hne before => matchAt_gap hpush hpart hne before) (more + 1) before
      rw [hpage, hgap, Enclosed.finditerFrom_match (matchAt_push hpush before'), List.map_cons,
        List.map_cons]
      congr 1
      apply ih fun push' hpush' => hpushes push' (List.mem_cons_of_mem push hpush')
      simp only [List.length_append] at hfuel
      have hcall : pushCall.toList.length = 20 := rfl
      omega

end

/-! ## Payloads -/

/-- How often a word occurs in a text. -/
def occurrences (word text : List Char) : ℕ :=
  (text.tails.filter (word.isPrefixOf ·)).length

/-- A payload with a member {lit}`jobList`: the texts around it, the spaces before and after its
colon, and the text and the fields of its object. -/
structure Payload where
  before : List Char
  beforeColon : List Char
  afterColon : List Char
  object : List Char
  fields : List (String × JsonValue)
  after : List Char

namespace Payload

/-- The member from its name to the end of its object. -/
def member (p : Payload) : List Char :=
  listName ++ (p.beforeColon ++ ':' :: (p.afterColon ++ p.object))

def text (p : Payload) : List Char :=
  p.before ++ (p.member ++ p.after)

/-- The payload has one member of the name, whose object is well formed. -/
structure Holds (readFloat : List Char → Double) (p : Payload) : Prop where
  once : occurrences listName p.text = 1
  beforeColon : ∀ c ∈ p.beforeColon, isJsonSpace c = true
  afterColon : ∀ c ∈ p.afterColon, isJsonSpace c = true
  object : rawDecode readFloat p.object = .ok (.obj p.fields, [])
  data : ∃ items, p.fields.lookup "data" = some (.arr items)

/-- One of the pieces holds the whole member. -/
def Uncut (p : Payload) (pieces : List (List Char)) : Prop :=
  ∃ done piece more, pieces = done ++ piece :: more ∧
    done.flatten.length ≤ p.before.length ∧
    p.before.length + p.member.length ≤ done.flatten.length + piece.length

end Payload

section

variable {readFloat : List Char → Double} {pushes : List Push} {pieces : List (List Char)}
  {after word text chunk rest : List Char} {fields : List (String × JsonValue)}

/-- The pieces that a page pushes are the chunks. -/
theorem iterFlightChunks_page (hpushes : ∀ push ∈ pushes, push.Single)
    (hafter : ¬pushCall.toList <:+: after)
    (hcarries : List.Forall₂ (Push.Carries readFloat) pushes pieces) :
    iterFlightChunks readFloat (page pushes after) = pieces := by
  have hinner := finditerFrom_page hpushes hafter _ (Nat.lt_succ_self _) none
  have hchunks : iterFlightChunks readFloat (page pushes after) =
      (pushes.map (·.inner)).filterMap fun inner =>
        pushedText (loads readFloat ('[' :: inner ++ [']'])) := by
    rw [← hinner, List.filterMap_map]
    rfl
  rw [hchunks]
  clear hinner hchunks hpushes
  induction hcarries with
  | nil => rfl
  | @cons push piece pushes pieces hcarry _ ih =>
      have hpiece : pushedText (loads readFloat ('[' :: push.inner ++ [']'])) = some piece := hcarry
      rw [List.map_cons, List.filterMap_cons, hpiece, ih]

/-! ## Occurrences -/

theorem eq_of_occurrences {x y x' y' : List Char} (h : occurrences word text = 1)
    (htext : text = x ++ (word ++ y)) (htext' : text = x' ++ (word ++ y')) : x = x' ∧ y = y' := by
  obtain ⟨tail, htail⟩ := List.length_eq_one_iff.mp h
  have hmem : ∀ x y, text = x ++ (word ++ y) → word ++ y = tail := by
    intro x y htext
    rw [← List.mem_singleton, ← htail, List.mem_filter, List.mem_tails]
    exact ⟨⟨x, htext.symm⟩, List.isPrefixOf_iff_prefix.mpr (List.prefix_append word y)⟩
  have hy : y = y' := List.append_cancel_left ((hmem x y htext).trans (hmem x' y' htext').symm)
  refine ⟨?_, hy⟩
  rw [htext, hy] at htext'
  exact List.append_cancel_right htext'

theorem textAfter_eq_some (h : textAfter word text = some rest) :
    ∃ x, text = x ++ (word ++ rest) := by
  induction text with
  | nil =>
      simp only [textAfter] at h
      split at h
      · rename_i hword
        cases h
        exact ⟨[], by rw [hword]; rfl⟩
      · contradiction
  | cons c cs ih =>
      simp only [textAfter] at h
      split at h
      · rename_i hprefix
        cases h
        obtain ⟨more, hmore⟩ := hprefix
        exact ⟨[], by rw [← hmore, List.drop_left]; rfl⟩
      · obtain ⟨x, hx⟩ := ih h
        exact ⟨c :: x, by rw [hx]; rfl⟩

theorem isSome_textAfter (x y : List Char) : (textAfter word (x ++ (word ++ y))).isSome = true := by
  induction x with
  | nil =>
      cases htext : word ++ y with
      | nil => simp_all [textAfter]
      | cons c cs =>
          have hprefix : word <+: c :: cs := htext ▸ List.prefix_append word y
          simp [textAfter, hprefix]
  | cons c x ih =>
      simp only [List.cons_append, textAfter]
      split
      · rfl
      · exact ih

/-! ## Cuts -/

theorem jobListOf_eq_some {result : Except DecodeError (JsonValue × List Char)}
    (h : jobListOf result = some fields) : ∃ rest, result = .ok (.obj fields, rest) := by
  unfold jobListOf at h
  split at h
  · rename_i fields' rest
    split at h
    · cases h
      exact ⟨rest, rfl⟩
    · contradiction
  · contradiction

/-- Where a piece holds the key, the member begins, without a space before its colon. -/
theorem Payload.Holds.of_key {p : Payload} (hp : p.Holds readFloat) {done more : List (List Char)}
    {piece x y : List Char} (hpieces : (done ++ piece :: more).flatten = p.text)
    (hpiece : piece = x ++ (listKey ++ y)) :
    done.flatten ++ x = p.before ∧ p.beforeColon = [] ∧
      y ++ more.flatten = p.afterColon ++ (p.object ++ p.after) := by
  have hkey : p.text = (done.flatten ++ x) ++ (listName ++ (':' :: (y ++ more.flatten))) := by
    rw [← hpieces, hpiece, listKey]
    simp only [List.flatten_append, List.flatten_cons, List.append_assoc, List.cons_append,
      List.nil_append]
  have hmember : p.text = p.before ++ (listName ++ (p.beforeColon ++ ':' :: (p.afterColon ++
      (p.object ++ p.after)))) := by
    simp only [Payload.text, Payload.member, List.append_assoc, List.cons_append]
  obtain ⟨hbefore, hrest⟩ := eq_of_occurrences hp.once hkey hmember
  refine ⟨hbefore, ?_⟩
  cases hspaces : p.beforeColon with
  | nil =>
      rw [hspaces, List.nil_append, List.cons.injEq] at hrest
      exact ⟨rfl, hrest.2⟩
  | cons c cs =>
      rw [hspaces, List.cons_append, List.cons.injEq] at hrest
      have hspace := hp.beforeColon c (hspaces ▸ List.mem_cons_self)
      rw [← hrest.1] at hspace
      contradiction

/-- A space in front of a value is not skipped. -/
theorem jobListOf_space {c : Char} (hc : isJsonSpace c = true) :
    jobListOf (rawDecode readFloat (c :: rest)) = none := by
  have hstep : Mode.start.step readFloat [] c = .fail .malformed := by
    simp only [isJsonSpace, List.mem_cons, List.not_mem_nil, or_false, decide_eq_true_eq] at hc
    rcases hc with rfl | rfl | rfl | rfl <;> rfl
  rw [rawDecode, Mode.run, hstep]
  rfl

/-- What the piece that gives the list holds. -/
theorem Payload.Holds.uncut {p : Payload} (hp : p.Holds readFloat) {done more : List (List Char)}
    {piece : List Char} (hpieces : (done ++ piece :: more).flatten = p.text)
    (h : chunkJoblist readFloat piece = some fields) :
    p.beforeColon = [] ∧ p.afterColon = [] ∧ p.Uncut (done ++ piece :: more) := by
  obtain ⟨y, hafter, hlist⟩ := Option.bind_eq_some_iff.mp h
  obtain ⟨x, hpiece⟩ := textAfter_eq_some hafter
  obtain ⟨hbefore, hcolon, hrest⟩ := hp.of_key hpieces hpiece
  obtain ⟨rest, hdecode⟩ := jobListOf_eq_some hlist
  have hspace : p.afterColon = [] := by
    cases hspaces : p.afterColon with
    | nil => rfl
    | cons c cs =>
        exfalso
        cases y with
        | nil => contradiction
        | cons d y =>
            rw [hspaces, List.cons_append, List.cons_append, List.cons.injEq] at hrest
            have hc := hp.afterColon c (hspaces ▸ List.mem_cons_self)
            rw [hrest.1, jobListOf_space hc] at hlist
            contradiction
  rw [hspace, List.nil_append] at hrest
  have hlength : p.object.length ≤ y.length := by
    -- otherwise the piece ends inside the object
    rcases List.append_eq_append_iff.mp hrest with ⟨cut, hcut, _⟩ | ⟨more', hmore, _⟩
    · cases cut with
      | nil => simp [hcut]
      | cons c cut =>
          have hobject := hp.object
          rw [hcut] at hobject
          have hnot := rawDecode_cut hobject hdecode
          contradiction
    · simp [hmore]
  refine ⟨hcolon, hspace, done, piece, more, rfl, ?_, ?_⟩
  · rw [← hbefore, List.length_append]
    omega
  · have hname : listKey.length = listName.length + 1 := rfl
    rw [← hbefore, hpiece]
    simp only [Payload.member, hcolon, hspace, List.length_append, List.length_cons,
      List.length_nil, hname]
    omega

/-- A piece that ends before the member does not hold the key. -/
theorem Payload.Holds.chunkJoblist_eq_none {p : Payload} (hp : p.Holds readFloat)
    {done more : List (List Char)} {piece : List Char}
    (hpieces : (done ++ piece :: more).flatten = p.text)
    (hlength : (done ++ [piece]).flatten.length ≤ p.before.length) :
    chunkJoblist readFloat piece = none := by
  cases hafter : textAfter listKey piece with
  | none => simp [chunkJoblist, hafter]
  | some y =>
      exfalso
      obtain ⟨x, hpiece⟩ := textAfter_eq_some hafter
      obtain ⟨hbefore, _, _⟩ := hp.of_key hpieces hpiece
      have hkey : listKey.length = 10 := rfl
      have hsum := congrArg List.length hbefore
      rw [List.flatten_append, List.flatten_singleton, List.length_append, hpiece] at hlength
      simp only [List.length_append] at hsum hlength
      omega

/-- A piece that holds the member gives the list. -/
theorem Payload.Holds.chunkJoblist_eq_some {p : Payload} (hp : p.Holds readFloat)
    {done more : List (List Char)} {piece : List Char}
    (hpieces : (done ++ piece :: more).flatten = p.text) (hcolon : p.beforeColon = [])
    (hspace : p.afterColon = []) (hstart : done.flatten.length ≤ p.before.length)
    (hstop : p.before.length + p.member.length ≤ done.flatten.length + piece.length) :
    chunkJoblist readFloat piece = some p.fields := by
  have hmember : p.member = listKey ++ p.object := by
    rw [Payload.member, hcolon, hspace, listKey]
    simp only [List.nil_append, List.append_assoc, List.cons_append]
  have htext : done.flatten ++ (piece ++ more.flatten) =
      p.before ++ (listKey ++ (p.object ++ p.after)) := by
    rw [← List.flatten_cons, ← List.flatten_append, hpieces, Payload.text, hmember,
      List.append_assoc]
  obtain ⟨x, hx⟩ : done.flatten <+: p.before :=
    List.prefix_of_prefix_length_le ⟨_, htext⟩ (List.prefix_append _ _) hstart
  rw [← hx, List.append_assoc, List.append_cancel_left_eq] at htext
  have hmemberPrefix : x ++ (listKey ++ p.object) <+: piece ++ more.flatten :=
    ⟨p.after, by rw [htext]; simp only [List.append_assoc]⟩
  have hlength : (x ++ (listKey ++ p.object)).length ≤ piece.length := by
    have hsum := congrArg List.length hx
    rw [hmember] at hstop
    simp only [List.length_append] at hsum hstop ⊢
    omega
  obtain ⟨z, hz⟩ : x ++ (listKey ++ p.object) <+: piece :=
    List.prefix_of_prefix_length_le hmemberPrefix (List.prefix_append _ _) hlength
  have hpiece : piece = x ++ (listKey ++ (p.object ++ z)) := by
    rw [← hz]
    simp only [List.append_assoc]
  obtain ⟨y, hy⟩ := Option.isSome_iff_exists.mp (isSome_textAfter x (p.object ++ z))
  rw [← hpiece] at hy
  obtain ⟨x', hpiece'⟩ := textAfter_eq_some hy
  -- the first key of the piece is the only one of the payload
  obtain ⟨hbefore, _, _⟩ := hp.of_key hpieces hpiece
  obtain ⟨hbefore', _, _⟩ := hp.of_key hpieces hpiece'
  have hxx : x = x' := List.append_cancel_left (hbefore.trans hbefore'.symm)
  have hyz : y = p.object ++ z := by
    rw [hpiece, hxx, List.append_cancel_left_eq, List.append_cancel_left_eq] at hpiece'
    exact hpiece'.symm
  have hdecode : rawDecode readFloat (p.object ++ z) = .ok (.obj p.fields, z) :=
    rawDecode_append hp.object rfl
  obtain ⟨items, hdata⟩ := hp.data
  rw [chunkJoblist, hy, Option.bind_some, hyz, hdecode, jobListOf, hdata]

/-- Of a page that pushes the pieces of a payload the collector finds the list of jobs exactly
when no space stands beside the colon of the list and no cut falls into it. -/
theorem flight_chunks_iff (readFloat : List Char → Double) (p : Payload) (hp : p.Holds readFloat)
    (pieces : List (List Char)) (hpieces : pieces.flatten = p.text) (pushes : List Push)
    (after : List Char) (hpushes : ∀ push ∈ pushes, push.Single)
    (hafter : ¬pushCall.toList <:+: after)
    (hcarries : List.Forall₂ (Push.Carries readFloat) pushes pieces) :
    parseFlightJoblist readFloat (page pushes after) = some p.fields ↔
      p.beforeColon = [] ∧ p.afterColon = [] ∧ p.Uncut pieces := by
  rw [parseFlightJoblist, iterFlightChunks_page hpushes hafter hcarries]
  constructor
  · intro hfound
    obtain ⟨done, piece, more, rfl, hpiece, _⟩ := List.findSome?_eq_some_iff.mp hfound
    exact hp.uncut hpieces hpiece
  · rintro ⟨hcolon, hspace, done, piece, more, rfl, hstart, hstop⟩
    rw [List.findSome?_eq_some_iff]
    refine ⟨done, piece, more, rfl,
      hp.chunkJoblist_eq_some hpieces hcolon hspace hstart hstop, ?_⟩
    intro earlier hearlier
    obtain ⟨front, back, rfl⟩ := List.append_of_mem hearlier
    have hsplit : (front ++ earlier :: (back ++ piece :: more)).flatten = p.text := by
      rw [← hpieces, List.append_assoc, List.cons_append]
    apply hp.chunkJoblist_eq_none hsplit
    rw [List.flatten_append, List.flatten_cons, List.length_append, List.length_append] at hstart
    rw [List.flatten_append, List.flatten_singleton, List.length_append]
    omega

end

/-! ## An empty list -/

/-- A payload with an empty list of jobs. -/
def emptyPayload : Payload where
  before := "1:\x7b".toList
  beforeColon := []
  afterColon := []
  object := "\x7b\"data\":[]\x7d".toList
  fields := [("data", .arr [])]
  after := "\x7d".toList

theorem emptyPayload_holds : emptyPayload.Holds literalDouble where
  once := by decide
  beforeColon := fun _ hc => absurd hc List.not_mem_nil
  afterColon := fun _ hc => absurd hc List.not_mem_nil
  object := rfl
  data := ⟨[], rfl⟩

/-- The payload in two pieces, of which the second one holds the list. -/
def wholePieces : List (List Char) :=
  ["1:".toList, "\x7b\"jobList\":\x7b\"data\":[]\x7d\x7d".toList]

def wholePushes : List Push :=
  [⟨"<script>".toList, "1,\"1:\"".toList⟩,
    ⟨"<script>".toList, "1,\"\x7b\\\"jobList\\\":\x7b\\\"data\\\":[]\x7d\x7d\"".toList⟩]

/-- The payload is cut inside the list. -/
def cutPieces : List (List Char) :=
  ["1:\x7b\"jobList\":\x7b\"da".toList, "ta\":[]\x7d\x7d".toList]

def cutPushes : List Push :=
  [⟨"<script>".toList, "1,\"1:\x7b\\\"jobList\\\":\x7b\\\"da\"".toList⟩,
    ⟨"<script>".toList, "1,\"ta\\\":[]\x7d\x7d\"".toList⟩]

/-- The list is found in the second piece. -/
theorem flight_chunks_iff_whole :
    parseFlightJoblist literalDouble (page wholePushes []) = some emptyPayload.fields :=
  (flight_chunks_iff literalDouble emptyPayload emptyPayload_holds wholePieces rfl wholePushes []
    (List.forall_mem_cons.mpr ⟨⟨by decide, by decide⟩,
      List.forall_mem_cons.mpr ⟨⟨by decide, by decide⟩, fun _ h => absurd h List.not_mem_nil⟩⟩)
    (by decide) (.cons rfl (.cons rfl .nil))).mpr
    ⟨rfl, rfl, ["1:".toList], "\x7b\"jobList\":\x7b\"data\":[]\x7d\x7d".toList, [], rfl,
      by decide, by decide⟩

/-- A list that is cut is not found. -/
theorem cut_list_not_found :
    emptyPayload.Holds literalDouble ∧ cutPieces.flatten = emptyPayload.text ∧
      List.Forall₂ (Push.Carries literalDouble) cutPushes cutPieces ∧
      page cutPushes [] =
        ("<script>self.__next_f.push([1,\"1:\x7b\\\"jobList\\\":\x7b\\\"da\"])</script>" ++
          "<script>self.__next_f.push([1,\"ta\\\":[]\x7d\x7d\"])</script>").toList ∧
      parseFlightJoblist literalDouble (page cutPushes []) = none := by
  refine ⟨emptyPayload_holds, rfl, .cons rfl (.cons rfl .nil), by decide, ?_⟩
  have hsingle : ∀ push ∈ cutPushes, push.Single :=
    List.forall_mem_cons.mpr ⟨⟨by decide, by decide⟩,
      List.forall_mem_cons.mpr ⟨⟨by decide, by decide⟩, fun _ h => absurd h List.not_mem_nil⟩⟩
  have hchunks : iterFlightChunks literalDouble (page cutPushes []) = cutPieces :=
    iterFlightChunks_page hsingle (by decide) (.cons rfl (.cons rfl .nil))
  rw [parseFlightJoblist, hchunks]
  rfl

end Dice
end Sources
end HireAndTech
