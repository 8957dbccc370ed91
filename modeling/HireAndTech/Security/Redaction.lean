import HireAndTech.Security.Rules
import HireAndTech.Text.Spans
import HireAndTech.Text.Words

/-!
# Redaction of audit events

`add_audit_event` redacts texts with a sensitive term or a token.  A text is cut after it has been
searched, and a token that a word character follows is not found before the cut and is bare after
it.  A user agent is sanitized by `audit_context` before, so that its token is found the second
time; the texts of metadata are sanitized once.

Main results:

- Theorem {lit}`jwt_search_iff`: what `_JWT_PATTERN` finds.
- Definition {lit}`CutsToken`: the cut of a text ends a token.
- Theorem {lit}`audit_event_safe_iff`: an event stores a clean user agent, and no secret exactly if
  no cut of a text of its metadata ends a token.
-/

namespace HireAndTech
namespace Security

open Network Text Base
open Catalogue (isSpace)

/-! ## Tokens -/

/-- `[A-Za-z0-9_-]`. -/
def isTokenChar (c : Char) : Bool :=
  c.isAlphanum || c = '_' || c = '-'

/-- A segment of a token. -/
def Segment (text : List Char) : Prop :=
  text ≠ [] ∧ ∀ c ∈ text, isTokenChar c = true

/-- A token of three segments. -/
def tokenText (header payload signature : List Char) : List Char :=
  'e' :: 'y' :: 'J' :: (header ++ '.' :: (payload ++ '.' :: signature))

/-- The tables of the Unicode standard agree with ASCII, and texts are folded character by
character. -/
structure Faithful (u : Unicode) : Prop where
  isAlnum_ascii : ∀ c : Char, c.toNat < 128 → u.isAlnum c = c.isAlphanum
  casefold_append : ∀ cs ds, u.casefold (cs ++ ds) = u.casefold cs ++ u.casefold ds

section

variable {u : Unicode} {text : List Char}

theorem Faithful.isWord_of_isAlphanum (h : Faithful u) {c : Char} (hc : c.isAlphanum = true) :
    u.isWord c = true := by
  have hascii : c.toNat < 128 := by
    simp only [Char.isAlphanum, Char.isAlpha, Char.isUpper, Char.isLower, Char.isDigit,
      Bool.or_eq_true, Bool.and_eq_true, decide_eq_true_eq] at hc
    rcases hc with (⟨_, hc⟩ | ⟨_, hc⟩) | ⟨_, hc⟩
    all_goals exact lt_of_le_of_lt hc (by decide)
  rw [Unicode.isWord, h.isAlnum_ascii c hascii, hc, Bool.true_or]

theorem Faithful.isWord_dash (h : Faithful u) : u.isWord '-' = false := by
  rw [Unicode.isWord, h.isAlnum_ascii '-' (by decide)]
  decide

/-- The characters of a token apart from the dash are word characters. -/
theorem Faithful.isWord_of_isTokenChar (h : Faithful u) {c : Char} (hc : isTokenChar c = true)
    (hdash : c ≠ '-') : u.isWord c = true := by
  simp only [isTokenChar, Bool.or_eq_true, decide_eq_true_eq] at hc
  rcases hc with (hc | rfl) | rfl
  · exact h.isWord_of_isAlphanum hc
  · simp [Unicode.isWord]
  · contradiction

/-- A search finds a token between two borders of words. -/
theorem jwt_search_iff (h : Faithful u) : (jwtPattern u).search text = true ↔
    ∃ front header payload signature rest,
      text = front ++ (tokenText header payload signature ++ rest) ∧
        Segment header ∧ Segment payload ∧ Segment signature ∧
        front.getLast?.any u.isWord = false ∧
        signature.getLast?.any u.isWord ≠ rest.head?.any u.isWord := by
  have hword : u.isWord 'e' = true := h.isWord_of_isAlphanum (by decide)
  have hsegment : ∀ {before piece rest}, (Regex.plus (.satisfy fun c =>
      c.isAlphanum || c = '_' || c = '-')).Span before piece rest ↔ Segment piece :=
    Regex.span_plus_satisfy_iff
  have hstart : "eyJ".toList = ['e', 'y', 'J'] := rfl
  have hdot : ".".toList = ['.'] := rfl
  rw [Regex.search_iff]
  simp only [jwtPattern, Regex.span_sequence_cons_iff, Regex.span_sequence_nil_iff,
    Regex.span_boundary_iff, Regex.span_text_iff, hsegment, hstart, hdot]
  constructor
  · rintro ⟨front, _, rest, rfl, _, _, rfl, ⟨rfl, hfront⟩, _, _, rfl, rfl, header, _, rfl, hheader,
      _, _, rfl, rfl, payload, _, rfl, hpayload, _, _, rfl, rfl, signature, _, rfl, hsignature,
      _, _, rfl, ⟨rfl, hend⟩, rfl⟩
    refine ⟨front, header, payload, signature, rest, by simp [tokenText], hheader, hpayload,
      hsignature, ?_, ?_⟩
    · simpa [hword] using hfront
    · obtain ⟨last, hlast⟩ := Option.isSome_iff_exists.mp (List.getLast?_isSome.mpr hsignature.1)
      simpa [hlast] using hend
  · rintro ⟨front, header, payload, signature, rest, rfl, hheader, hpayload, hsignature, hfront,
      hend⟩
    refine ⟨front, tokenText header payload signature, rest, rfl, [], _, rfl, ⟨rfl, ?_⟩,
      _, _, rfl, rfl, header, _, rfl, hheader, ['.'], _, rfl, rfl, payload, _, rfl, hpayload,
      ['.'], _, rfl, rfl, signature, [], by simp, hsignature, [], [], rfl, ⟨rfl, ?_⟩, rfl⟩
    · simpa [tokenText, hword] using hfront
    · obtain ⟨last, hlast⟩ := Option.isSome_iff_exists.mp (List.getLast?_isSome.mpr hsignature.1)
      simpa [hlast] using hend

end

/-! ## Cuts -/

/-- `[A-Za-z0-9_]`. -/
def isAsciiWord (c : Char) : Bool :=
  c.isAlphanum || c = '_'

/-- The first {lit}`n` characters of a text end with a token.  ASCII word characters may follow
them, and then another word character, which cannot belong to a token. -/
def CutsToken (u : Unicode) (n : ℕ) (text : List Char) : Prop :=
  ∃ front header payload signature more last rest,
    text = front ++ (tokenText header payload signature ++ (more ++ last :: rest)) ∧
      (front ++ tokenText header payload signature).length = n ∧
      Segment header ∧ Segment payload ∧ signature ≠ [] ∧
      (∀ c ∈ signature ++ more, isAsciiWord c = true) ∧
      front.getLast?.any u.isWord = false ∧ u.isWord last = true ∧ isTokenChar last = false

section

variable {u : Unicode} {text signature rest : List Char} {n : ℕ}

theorem isTokenChar_of_isAsciiWord {c : Char} (hc : isAsciiWord c = true) :
    isTokenChar c = true := by
  simp only [isAsciiWord, isTokenChar, Bool.or_eq_true] at hc ⊢
  exact Or.inl hc

theorem isAsciiWord_of_ne {c : Char} (hc : isTokenChar c = true) (hdash : c ≠ '-') :
    isAsciiWord c = true := by
  simpa [isAsciiWord, isTokenChar, hdash] using hc

/-- A segment of ASCII word characters ends with a word character. -/
theorem Faithful.any_getLast? (h : Faithful u) (hne : signature ≠ [])
    (hall : ∀ c ∈ signature, isAsciiWord c = true) :
    signature.getLast?.any u.isWord = true := by
  rw [List.getLast?_eq_some_getLast hne, Option.any_some]
  have hlast := hall _ (List.getLast_mem hne)
  exact h.isWord_of_isTokenChar (isTokenChar_of_isAsciiWord hlast)
    fun hdash => by simp [hdash, isAsciiWord] at hlast

/-- The last dash of a text that ends otherwise. -/
theorem exists_split_at_dash (hdash : '-' ∈ text) (hlast : text.getLast? ≠ some '-') :
    ∃ front d tail, text = front ++ '-' :: d :: tail ∧ d ≠ '-' := by
  induction text with
  | nil => contradiction
  | cons c text ih =>
      cases text with
      | nil =>
          rw [List.mem_singleton] at hdash
          exact absurd (congrArg some hdash.symm) hlast
      | cons d text =>
          by_cases hrest : '-' ∈ d :: text
          · rw [List.getLast?_cons_cons] at hlast
            obtain ⟨front, d', tail, htext, hne⟩ := ih hrest hlast
            exact ⟨c :: front, d', tail, congrArg (c :: ·) htext, hne⟩
          · obtain rfl := (List.mem_cons.mp hdash).resolve_right hrest
            exact ⟨[], d, text, rfl, fun heq => hrest (heq ▸ List.mem_cons_self)⟩

/-- A dash in the last segment of a token leaves a shorter one, with a border behind the dash. -/
theorem exists_border_of_dash (h : Faithful u) (hsignature : Segment signature)
    (hlast : signature.getLast?.any u.isWord = true) (hdash : '-' ∈ signature)
    (rest : List Char) :
    ∃ shorter tail, signature = shorter ++ tail ∧ Segment shorter ∧
      shorter.getLast?.any u.isWord ≠ (tail ++ rest).head?.any u.isWord := by
  have hne : signature.getLast? ≠ some '-' := by
    intro heq
    rw [heq, Option.any_some, h.isWord_dash] at hlast
    contradiction
  obtain ⟨front, d, tail, rfl, hd⟩ := exists_split_at_dash hdash hne
  have hword : u.isWord d = true := h.isWord_of_isTokenChar (hsignature.2 d (by simp)) hd
  refine ⟨front ++ ['-'], d :: tail, by simp, ⟨by simp, fun c hc => ?_⟩, ?_⟩
  · apply hsignature.2 c
    simp only [List.mem_append, List.mem_singleton] at hc
    simp only [List.mem_append, List.mem_cons]
    tauto
  · simp [h.isWord_dash, hword]

/-- The cut of a text that is not cut ends no token. -/
theorem not_cutsToken_of_length_le (hlength : text.length ≤ n) : ¬CutsToken u n text := by
  rintro ⟨front, header, payload, signature, more, last, rest, rfl, rfl, _⟩
  simp only [List.length_append, List.length_cons] at hlength
  omega

/-- No last segment, be it shorter or longer, that begins at a place has a border behind it. -/
def Borderless (u : Unicode) (text : List Char) : Prop :=
  ∀ signature rest, Segment signature → text = signature ++ rest →
    signature.getLast?.any u.isWord = rest.head?.any u.isWord

/-- In a text without tokens no last segment of a token has a border behind it. -/
theorem borderless_of_search_eq_false (h : Faithful u) (hnone : (jwtPattern u).search text = false)
    {front header payload after : List Char}
    (htext : text = front ++ (tokenText header payload signature ++ after))
    (hheader : Segment header) (hpayload : Segment payload)
    (hfront : front.getLast?.any u.isWord = false) : Borderless u (signature ++ after) := by
  intro signature' rest' hsegment hafter
  by_contra hborder
  have hsplit : text = front ++ (tokenText header payload signature' ++ rest') := by
    rw [htext]
    simp only [tokenText, List.append_assoc, List.cons_append, hafter]
  have hfound := (jwt_search_iff h).mpr ⟨front, header, payload, signature', rest', hsplit,
    hheader, hpayload, hsegment, hfront, hborder⟩
  rw [hnone] at hfound
  contradiction

/-- A last segment without borders has no dash. -/
theorem Borderless.ascii (h : Faithful u) {after : List Char}
    (hborders : Borderless u (signature ++ after)) (hsignature : Segment signature)
    (hlast : signature.getLast?.any u.isWord = true) : ∀ c ∈ signature, isAsciiWord c = true := by
  intro c hc
  apply isAsciiWord_of_ne (hsignature.2 c hc)
  rintro rfl
  obtain ⟨shorter, tail, hsplit, hshorter, hborder⟩ :=
    exists_border_of_dash h hsignature hlast hc after
  refine hborder (hborders shorter _ hshorter ?_)
  rw [hsplit, List.append_assoc]

/-- A last segment without borders goes on as far as ASCII word characters do, up to another word
character. -/
theorem Borderless.exists_last (h : Faithful u) {after : List Char}
    (hborders : Borderless u (signature ++ after)) (hsignature : Segment signature)
    (hlast : signature.getLast?.any u.isWord = true) :
    ∃ more last rest, after = more ++ last :: rest ∧
      (∀ c ∈ signature ++ more, isAsciiWord c = true) ∧ u.isWord last = true ∧
      isTokenChar last = false := by
  have hmore : ∀ c ∈ signature ++ after.takeWhile isAsciiWord, isAsciiWord c = true := by
    intro c hc
    rcases List.mem_append.mp hc with hc | hc
    · exact hborders.ascii h hsignature hlast c hc
    · exact List.mem_takeWhile_imp hc
  have hne : signature ++ after.takeWhile isAsciiWord ≠ [] := by simp [hsignature.1]
  have hafter : (after.dropWhile isAsciiWord).head?.any u.isWord = true := by
    rw [← hborders (signature ++ after.takeWhile isAsciiWord) _
      ⟨hne, fun c hc => isTokenChar_of_isAsciiWord (hmore c hc)⟩
      (by rw [List.append_assoc, List.takeWhile_append_dropWhile]), h.any_getLast? hne hmore]
  cases hdrop : after.dropWhile isAsciiWord with
  | nil => simp [hdrop] at hafter
  | cons last rest =>
      rw [hdrop, List.head?_cons, Option.any_some] at hafter
      have hstop : isAsciiWord last = false :=
        space_head?_dropWhile (Option.mem_def.mpr (hdrop ▸ List.head?_cons))
      refine ⟨after.takeWhile isAsciiWord, last, rest, ?_, hmore, hafter, ?_⟩
      · rw [← hdrop, List.takeWhile_append_dropWhile]
      · rw [Bool.eq_false_iff]
        intro htoken
        by_cases hdash : last = '-'
        · rw [hdash, h.isWord_dash] at hafter
          contradiction
        · rw [isAsciiWord_of_ne htoken hdash] at hstop
          contradiction

theorem search_take_of_cutsToken (h : Faithful u) (hcuts : CutsToken u n text) :
    (jwtPattern u).search (text.take n) = true := by
  obtain ⟨front, header, payload, signature, more, last, rest, rfl, rfl, hheader, hpayload, hne,
    hall, hfront, _, _⟩ := hcuts
  have hascii := fun c hc => hall c (List.mem_append_left more hc)
  rw [← List.append_assoc, List.take_left]
  refine (jwt_search_iff h).mpr ⟨front, header, payload, signature, [], by simp, hheader,
    hpayload, ⟨hne, fun c hc => isTokenChar_of_isAsciiWord (hascii c hc)⟩, hfront, ?_⟩
  rw [h.any_getLast? hne hascii]
  exact Bool.noConfusion

/-- When a text has no token, its first characters have one exactly when the cut ends it. -/
theorem search_take_iff (h : Faithful u) (hnone : (jwtPattern u).search text = false) :
    (jwtPattern u).search (text.take n) = true ↔ CutsToken u n text := by
  refine ⟨fun hsearch => ?_, search_take_of_cutsToken h⟩
  obtain ⟨front, header, payload, signature, rest, htake, hheader, hpayload, hsignature, hfront,
    hend⟩ := (jwt_search_iff h).mp hsearch
  have htext : text = front ++ (tokenText header payload signature ++ (rest ++ text.drop n)) := by
    rw [← List.append_assoc _ rest, ← List.append_assoc front, ← htake, List.take_append_drop]
  have hborders := borderless_of_search_eq_false h hnone htext hheader hpayload hfront
  -- a token that ends before the cut would be one of the whole text
  have hrest : rest = [] := by
    cases rest with
    | nil => rfl
    | cons c rest => exact absurd (hborders signature _ hsignature rfl) hend
  subst hrest
  have hlast : signature.getLast?.any u.isWord = true := by simpa using hend
  obtain ⟨more, last, rest, hafter, hall, hword, hstop⟩ := hborders.exists_last h hsignature hlast
  rw [List.nil_append] at hafter htext
  refine ⟨front, header, payload, signature, more, last, rest, hafter ▸ htext, ?_, hheader,
    hpayload, hsignature.1, hall, hfront, hword, hstop⟩
  have hlength := congrArg List.length htake
  have hpos := congrArg List.length hafter
  simp only [List.length_take, List.length_drop, List.length_append, List.length_cons,
    List.length_nil] at hlength hpos ⊢
  omega

end

/-! ## Stored texts -/

/-- A stored text shows no secret. -/
def Clean (u : Unicode) (stored : Option (List Char)) : Prop :=
  stored = none ∨ stored = some "[redacted]".toList ∨
    ∃ text, stored = some text ∧ text.length ≤ 512 ∧ (∀ c ∈ text, u.isPrintable c = true) ∧
      hasSensitiveTerm u text = false ∧ (jwtPattern u).search text = false

/-- A stored text is redacted, or bounded, printable and without sensitive terms. -/
def Bounded (u : Unicode) (stored : Option (List Char)) : Prop :=
  stored = none ∨ stored = some "[redacted]".toList ∨
    ∃ text, stored = some text ∧ text.length ≤ 512 ∧ (∀ c ∈ text, u.isPrintable c = true) ∧
      hasSensitiveTerm u text = false

/-- The text that `sanitize_user_agent` searches and cuts. -/
def printableText (u : Unicode) (value : List Char) : List Char :=
  strip isSpace (value.filter u.isPrintable)

/-- The text is redacted, or its cut ends no token. -/
def Harmless (u : Unicode) (value : List Char) : Prop :=
  hasSensitiveTerm u (printableText u value) = true ∨
    (jwtPattern u).search (printableText u value) = true ∨
    ¬CutsToken u 512 (printableText u value)

section

variable {u : Unicode} {value text : List Char} {n : ℕ}

theorem isPrintable_of_mem {c : Char} (hc : c ∈ printableText u value) :
    u.isPrintable c = true :=
  List.of_mem_filter (isInfix_strip.subset hc)

/-- A cut text has only the sensitive terms of the whole text. -/
theorem hasSensitiveTerm_take (h : Faithful u) (hnone : hasSensitiveTerm u text = false) :
    hasSensitiveTerm u (text.take n) = false := by
  rw [hasSensitiveTerm, List.any_eq_false] at hnone ⊢
  intro term hterm
  have hwhole := hnone term hterm
  rw [decide_eq_true_eq] at hwhole ⊢
  intro hinfix
  apply hwhole
  rw [← List.take_append_drop n text, h.casefold_append]
  exact hinfix.trans (List.prefix_append _ _).isInfix

theorem search_redacted (h : Faithful u) :
    (jwtPattern u).search "[redacted]".toList = false := by
  rw [Bool.eq_false_iff]
  intro hsearch
  obtain ⟨front, header, payload, signature, rest, htext, _⟩ := (jwt_search_iff h).mp hsearch
  have hmem : 'J' ∈ "[redacted]".toList := by
    rw [htext]
    simp [tokenText]
  exact absurd hmem (by decide)

/-- What is stored of a text is clean exactly when the text is harmless. -/
theorem sanitizeUserAgent_clean_iff (h : Faithful u) {value : Option (List Char)} :
    Clean u (sanitizeUserAgent u value) ↔ ∀ text ∈ value, Harmless u text := by
  cases value with
  | none => exact iff_of_true (Or.inl rfl) fun text htext => absurd htext (Option.not_mem_none text)
  | some value =>
      have hsome : (∀ text ∈ some value, Harmless u text) ↔ Harmless u value := by simp
      rw [hsome]
      have hstored : sanitizeUserAgent u (some value) =
          if hasSensitiveTerm u (printableText u value) ||
              (jwtPattern u).search (printableText u value) then some "[redacted]".toList
          else if (printableText u value).take 512 = [] then none
          else some ((printableText u value).take 512) := rfl
      rw [hstored]
      by_cases hterm : hasSensitiveTerm u (printableText u value) = true
      · rw [if_pos (by simp [hterm])]
        exact iff_of_true (Or.inr (Or.inl rfl)) (Or.inl hterm)
      by_cases hjwt : (jwtPattern u).search (printableText u value) = true
      · rw [if_pos (by simp [hjwt])]
        exact iff_of_true (Or.inr (Or.inl rfl)) (Or.inr (Or.inl hjwt))
      rw [if_neg (by simp [hterm, hjwt])]
      have hcut := @search_take_iff _ _ 512 h (Bool.eq_false_of_not_eq_true hjwt)
      have hharmless : Harmless u value ↔
          (jwtPattern u).search ((printableText u value).take 512) = false := by
        rw [← Bool.not_eq_true, hcut, Harmless]
        tauto
      rw [hharmless]
      split
      · rename_i hnil
        rw [hnil]
        refine iff_of_true (Or.inl rfl) ?_
        rw [Bool.eq_false_iff]
        intro hsearch
        obtain ⟨front, header, payload, signature, rest, htext, _⟩ :=
          (jwt_search_iff h).mp hsearch
        simp [tokenText] at htext
      · constructor
        · rintro (hnone | hredacted | ⟨text, hsome, _, _, _, hsearch⟩)
          · contradiction
          · rw [Option.some.inj hredacted]
            exact search_redacted h
          · rw [Option.some.inj hsome]
            exact hsearch
        · intro hsearch
          refine Or.inr (Or.inr ⟨_, rfl, List.length_take_le 512 _, fun c hc => ?_, ?_, hsearch⟩)
          · exact isPrintable_of_mem (List.mem_of_mem_take hc)
          · exact hasSensitiveTerm_take h (Bool.eq_false_of_not_eq_true hterm)

theorem length_printableText_le : (printableText u value).length ≤ value.length :=
  isInfix_strip.length_le.trans (List.length_filter_le _ _)

/-- What is stored of a text has at most 512 characters. -/
theorem length_sanitizeUserAgent_le {value : Option (List Char)}
    (htext : text ∈ sanitizeUserAgent u value) : text.length ≤ 512 := by
  obtain ⟨given, _, hgiven⟩ := Option.bind_eq_some_iff.mp htext
  dsimp only at hgiven
  split_ifs at hgiven <;> cases hgiven
  · decide
  · exact List.length_take_le 512 _

theorem bounded_sanitizeUserAgent (h : Faithful u) (value : Option (List Char)) :
    Bounded u (sanitizeUserAgent u value) := by
  cases value with
  | none => exact Or.inl rfl
  | some value =>
      have hstored : sanitizeUserAgent u (some value) =
          if hasSensitiveTerm u (printableText u value) ||
              (jwtPattern u).search (printableText u value) then some "[redacted]".toList
          else if (printableText u value).take 512 = [] then none
          else some ((printableText u value).take 512) := rfl
      rw [hstored]
      split_ifs with hredacted hnil
      · exact Or.inr (Or.inl rfl)
      · exact Or.inl rfl
      · rw [Bool.or_eq_true, not_or] at hredacted
        refine Or.inr (Or.inr ⟨_, rfl, List.length_take_le 512 _, fun c hc => ?_, ?_⟩)
        · exact isPrintable_of_mem (List.mem_of_mem_take hc)
        · exact hasSensitiveTerm_take h (Bool.eq_false_of_not_eq_true hredacted.1)

/-- A text of ASCII is harmless: what follows the cut of a token belongs to the token. -/
theorem harmless_of_ascii (h : Faithful u) (hascii : ∀ c ∈ value, c.toNat < 128) :
    Harmless u value := by
  refine Or.inr (Or.inr ?_)
  rintro ⟨front, header, payload, signature, more, last, rest, htext, _, _, _, _, _, _, hword,
    hstop⟩
  have hlast : last ∈ printableText u value := by
    rw [htext]
    simp
  have hlast : last ∈ value := List.mem_of_mem_filter (isInfix_strip.subset hlast)
  rw [Unicode.isWord, h.isAlnum_ascii last (hascii last hlast)] at hword
  simp only [isTokenChar, Bool.or_eq_false_iff] at hstop
  simp [hstop.1.1, hstop.1.2] at hword

end

/-! ## Events -/

/-- An event stores no secret. -/
structure StoresNoSecret (u : Unicode) (event : SecurityAuditEvent) : Prop where
  userAgent : Clean u event.userAgent
  texts : ∀ item ∈ event.eventMetadata, ∀ value, item.2 = .text value → Clean u value
  length_le : event.eventMetadata.length ≤ 16
  keys : ∀ item ∈ event.eventMetadata, item.1.length ≤ 64 ∧ hasSensitiveTerm u item.1 = false
  flat : ∀ item ∈ event.eventMetadata, item.2 ≠ .nested

/-- The metadata has the text in an item that is stored: it is one of the first sixteen, its key is
not sensitive, and no later item replaces it. -/
def Stores (u : Unicode) (metadata : List (List Char × MetadataValue)) (text : List Char) : Prop :=
  ∃ before key after, metadata.take 16 = before ++ (key, .text (some text)) :: after ∧
    hasSensitiveTerm u (key.take 64) = false ∧
    ∀ later ∈ after, later.1.take 64 = key.take 64 → later.2 = .nested

section

variable {u : Unicode} {metadata : List (List Char × MetadataValue)}
  {item source : List Char × MetadataValue}

/-- What an item keeps: its cut key, which is not sensitive, and a value that is not nested. -/
theorem safeItem_eq_some (h : safeItem u source = some item) :
    item.1 = source.1.take 64 ∧ hasSensitiveTerm u item.1 = false ∧ item.2 ≠ .nested ∧
      ∀ value, item.2 = .text value →
        ∃ text, source.2 = .text text ∧ value = sanitizeUserAgent u text := by
  unfold safeItem at h
  dsimp only at h
  split at h
  · contradiction
  · rename_i hterm
    have hclean := Bool.eq_false_of_not_eq_true hterm
    split at h
    · rename_i text htext
      cases h
      exact ⟨rfl, hclean, nofun, fun value hvalue =>
        ⟨text, htext, (MetadataValue.text.inj hvalue).symm⟩⟩
    · contradiction
    · rename_i hvalue hnested
      cases h
      exact ⟨rfl, hclean, hnested, fun value heq => absurd heq (hvalue value)⟩

theorem safeItem_isNone_iff (hterm : hasSensitiveTerm u (source.1.take 64) = false) :
    safeItem u source = none ↔ source.2 = .nested := by
  unfold safeItem
  dsimp only
  rw [if_neg (by simp [hterm])]
  split <;> simp_all

theorem mem_safeMetadata_iff : item ∈ safeMetadata u metadata ↔
    ∃ before source after, metadata.take 16 = before ++ source :: after ∧
      safeItem u source = some item ∧
      ∀ later ∈ after, later.1.take 64 = item.1 → later.2 = .nested := by
  rw [safeMetadata, mem_assignAll_filterMap_iff]
  refine exists_congr fun before => exists_congr fun source => exists_congr fun after =>
    and_congr_right fun _ => and_congr_right fun hitem => forall₂_congr fun later _ => ?_
  obtain ⟨_, hterm, _⟩ := safeItem_eq_some hitem
  constructor
  · intro h hkey
    rw [← safeItem_isNone_iff (hkey ▸ hterm)]
    cases hlater : safeItem u later with
    | none => rfl
    | some kept =>
        exact absurd ((safeItem_eq_some hlater).1.trans hkey) (h kept hlater)
  · intro h kept hkept hkey
    obtain ⟨hcut, hclean, hflat, _⟩ := safeItem_eq_some hkept
    rw [hkey] at hcut hclean
    rw [(safeItem_isNone_iff (hcut ▸ hclean)).mpr (h hcut.symm)] at hkept
    contradiction

theorem length_safeMetadata_le : (safeMetadata u metadata).length ≤ 16 :=
  length_assignAll_le.trans ((List.length_filterMap_le _ _).trans (List.length_take_le 16 _))

end

/-! ## Contexts -/

/-- `audit_context`, for the id of a profile. -/
def auditContext (u : Unicode) (profile : Option UUID) (clientIp : Option IpAddress)
    (userAgent : Option (List Char)) : AuditContext where
  actorUserId := profile
  requestIp := clientIp.map fun ip => (normalizeIpAddress ip).text
  userAgent := sanitizeUserAgent u userAgent

/-- What an event stores whatever it is given: at most sixteen items with short keys that are not
sensitive, no nested value, and texts that are bounded, printable and without sensitive terms. -/
structure StoresBounded (u : Unicode) (event : SecurityAuditEvent) : Prop where
  texts : ∀ item ∈ event.eventMetadata, ∀ value, item.2 = .text value → Bounded u value
  length_le : event.eventMetadata.length ≤ 16
  keys : ∀ item ∈ event.eventMetadata, item.1.length ≤ 64 ∧ hasSensitiveTerm u item.1 = false
  flat : ∀ item ∈ event.eventMetadata, item.2 ≠ .nested

section

variable {u : Unicode} {metadata : List (List Char × MetadataValue)} {store : Store}
  {eventType : SecurityAuditEventType} {context : AuditContext} {resourceType : Option (List Char)}
  {resourceId : Option UUID}

/-- A text that has been sanitized is sanitized once more without a cut. -/
theorem clean_sanitized_twice (h : Faithful u) (value : Option (List Char)) :
    Clean u (sanitizeUserAgent u (sanitizeUserAgent u value)) := by
  refine (sanitizeUserAgent_clean_iff h).mpr fun text htext => ?_
  refine Or.inr (Or.inr (not_cutsToken_of_length_le ?_))
  exact length_printableText_le.trans (length_sanitizeUserAgent_le htext)

/-- An event whose user agent is clean stores no secret exactly when no cut of a text of its
metadata ends a token. -/
theorem storesNoSecret_iff (h : Faithful u) {event : SecurityAuditEvent}
    (hagent : Clean u event.userAgent) (hmetadata : event.eventMetadata = safeMetadata u metadata) :
    StoresBounded u event ∧
      (StoresNoSecret u event ↔ ∀ text, Stores u metadata text → Harmless u text) := by
  have hitems : ∀ item ∈ event.eventMetadata, item.1.length ≤ 64 ∧
      hasSensitiveTerm u item.1 = false ∧ item.2 ≠ .nested ∧
      ∀ value, item.2 = .text value → ∃ text, value = sanitizeUserAgent u text ∧
        ∀ given ∈ text, Stores u metadata given := by
    intro item hitem
    rw [hmetadata] at hitem
    obtain ⟨before, source, after, htake, hsource, hafter⟩ := mem_safeMetadata_iff.mp hitem
    obtain ⟨hkey, hterm, hflat, htext⟩ := safeItem_eq_some hsource
    refine ⟨hkey ▸ List.length_take_le 64 _, hterm, hflat, fun value hvalue => ?_⟩
    obtain ⟨text, hsource', rfl⟩ := htext value hvalue
    refine ⟨text, rfl, fun given hgiven => ?_⟩
    rw [Option.mem_def.mp hgiven] at hsource'
    refine ⟨before, source.1, after, ?_, hkey ▸ hterm, fun later hlater heq => ?_⟩
    · rw [htake, ← hsource']
    · exact hafter later hlater (heq.trans hkey.symm)
  have hlength : event.eventMetadata.length ≤ 16 := hmetadata ▸ length_safeMetadata_le
  refine ⟨⟨fun item hitem value hvalue => ?_, hlength, fun item hitem => ?_, fun item hitem =>
    (hitems item hitem).2.2.1⟩, ?_⟩
  · obtain ⟨text, rfl, _⟩ := (hitems item hitem).2.2.2 value hvalue
    exact bounded_sanitizeUserAgent h text
  · exact ⟨(hitems item hitem).1, (hitems item hitem).2.1⟩
  · constructor
    · rintro hsafe text ⟨before, key, after, htake, hterm, hafter⟩
      have hitem : safeItem u (key, .text (some text)) =
          some (key.take 64, .text (sanitizeUserAgent u (some text))) := by
        simp [safeItem, hterm]
      have hmem := mem_safeMetadata_iff.mpr ⟨before, _, after, htake, hitem, hafter⟩
      rw [← hmetadata] at hmem
      exact (sanitizeUserAgent_clean_iff h).mp (hsafe.texts _ hmem _ rfl) text rfl
    · intro htexts
      refine ⟨hagent, fun item hitem value hvalue => ?_, hlength, fun item hitem => ?_,
        fun item hitem => (hitems item hitem).2.2.1⟩
      · obtain ⟨text, rfl, hstores⟩ := (hitems item hitem).2.2.2 value hvalue
        exact (sanitizeUserAgent_clean_iff h).mpr fun given hgiven =>
          htexts given (hstores given hgiven)
      · exact ⟨(hitems item hitem).1, (hitems item hitem).2.1⟩

end

/-- The event that {lit}`add_audit_event` makes with a context of {lit}`audit_context` stores a
clean user agent, whatever the header, and bounded metadata.  It stores no secret exactly when no
cut of a text of its metadata ends a token, and so when these texts are ASCII. -/
theorem audit_event_safe_iff (u : Unicode) (h : Faithful u) (store : Store)
    (eventType : SecurityAuditEventType) (profile : Option UUID) (clientIp : Option IpAddress)
    (userAgent resourceType : Option (List Char)) (resourceId : Option UUID)
    (metadata : List (List Char × MetadataValue)) :
    ∃ event, (addAuditEvent u store eventType (auditContext u profile clientIp userAgent)
          resourceType resourceId metadata).events = store.events ++ [event] ∧
      Clean u event.userAgent ∧ StoresBounded u event ∧
      (StoresNoSecret u event ↔ ∀ text, Stores u metadata text → Harmless u text) ∧
      ((∀ text, Stores u metadata text → ∀ c ∈ text, c.toNat < 128) → StoresNoSecret u event) := by
  have hagent := clean_sanitized_twice h userAgent
  refine ⟨_, rfl, hagent, (storesNoSecret_iff h hagent rfl).1, (storesNoSecret_iff h hagent rfl).2,
    fun hascii => (storesNoSecret_iff h hagent rfl).2.mpr fun text htext => ?_⟩
  exact harmless_of_ascii h (hascii text htext)

/-- ASCII with one more letter. -/
def latin : Unicode :=
  { Unicode.ascii with
    isAlnum := fun c => c.isAlphanum || c = 'é'
    isPrintable := fun c => Unicode.ascii.isPrintable c || c = 'é' }

theorem faithful_latin : Faithful latin where
  isAlnum_ascii c hc := by
    have hne : c ≠ 'é' := by
      rintro rfl
      exact absurd hc (by decide)
    simp [latin, hne]
  casefold_append _ _ := List.map_append

/-- A text whose first 512 characters end with a token. -/
def longText : List Char :=
  List.replicate 503 'x' ++ " eyJa.b.cé".toList

/-- The deletion of a rule with such a user agent. -/
theorem audit_event_safe_cidr :
    ∃ event, (addAuditEvent latin ⟨[], []⟩ .ipRuleDeleted
        (auditContext latin (some 7) none (some longText)) (some "ip_access_rule".toList) (some 3)
        [("cidr".toList, .text (some "10.0.0.0/8".toList))]).events = [event] ∧
      StoresNoSecret latin event := by
  obtain ⟨event, hevent, _, _, _, hascii⟩ := audit_event_safe_iff latin faithful_latin ⟨[], []⟩
    .ipRuleDeleted (some 7) none (some longText) (some "ip_access_rule".toList) (some 3)
    [("cidr".toList, .text (some "10.0.0.0/8".toList))]
  refine ⟨event, hevent, hascii fun text htext => ?_⟩
  obtain ⟨before, key, after, htake, _⟩ := htext
  have hmem : (key, MetadataValue.text (some text)) ∈
      [("cidr".toList, MetadataValue.text (some "10.0.0.0/8".toList))].take 16 := by
    rw [htake]
    exact List.mem_append_right _ List.mem_cons_self
  rw [List.take_of_length_le (by decide), List.mem_singleton, Prod.mk.injEq,
    MetadataValue.text.injEq, Option.some.injEq] at hmem
  rw [hmem.2]
  simp

/-- Metadata with such a text store the token. -/
theorem metadata_stores_token :
    ∃ event, (addAuditEvent latin ⟨[], []⟩ .ipAccessDenied (auditContext latin none none none) none
        none [("note".toList, .text (some longText))]).events = [event] ∧
      ¬StoresNoSecret latin event := by
  refine ⟨_, rfl, fun hsafe => ?_⟩
  have hstored : sanitizeUserAgent latin (some longText) = some (longText.take 512) := by
    decide +kernel
  have hsearch : (jwtPattern latin).search (longText.take 512) = true := by decide +kernel
  have hmem : ("note".toList, MetadataValue.text (sanitizeUserAgent latin (some longText))) ∈
      safeMetadata latin [("note".toList, .text (some longText))] :=
    mem_safeMetadata_iff.mpr ⟨[], ("note".toList, .text (some longText)), [], rfl, rfl, by simp⟩
  rcases hsafe.texts _ hmem _ rfl with hnone | hredacted | ⟨text, htext, _, _, _, hclean⟩
  · rw [hstored] at hnone
    exact Option.some_ne_none _ hnone
  · rw [hstored] at hredacted
    exact absurd hredacted (by decide)
  · rw [hstored, Option.some.injEq] at htext
    rw [← htext] at hclean
    exact Bool.false_ne_true (hclean.symm.trans hsearch)

end Security
end HireAndTech
