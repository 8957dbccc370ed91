import HireAndTech.Text.Regex

/-!
# Stripped texts and words

What stripping leaves of a text, and the words of a text that has been put together from words.

Main results:

- Theorem {lit}`strip_eq_self_iff`: a text is stripped when neither of its ends is a space.
- Theorem {lit}`words_intercalate`: the words of words with a space between two of them.
- Theorem {lit}`joinWords_idem`: joining the words of a text twice is joining them once.
- Theorems {lit}`strip_joinWords` and {lit}`collapse_joinWords`: joined words have no space too
  many.
- Theorem {lit}`words_flatMap`: a function on characters that keeps the spaces maps word by word.
-/

namespace Text

section

variable {space : Char → Bool} {cs : List Char} {c : Char}

/-! ## Stripping -/

/-- Stripping leaves a part of the text. -/
theorem isInfix_strip : strip space cs <:+: cs := by
  have hfront : ((cs.dropWhile space).reverse.dropWhile space).reverse <+: cs.dropWhile space := by
    rw [← List.reverse_suffix, List.reverse_reverse]
    exact List.dropWhile_suffix space
  exact hfront.isInfix.trans (List.dropWhile_suffix space).isInfix

theorem space_head?_dropWhile (h : c ∈ (cs.dropWhile space).head?) : space c = false := by
  have hhead := List.head?_dropWhile_not space cs
  rw [Option.mem_def.mp h] at hhead
  exact hhead

theorem space_getLast?_strip (h : c ∈ (strip space cs).getLast?) : space c = false := by
  rw [strip, List.getLast?_reverse] at h
  exact space_head?_dropWhile h

theorem space_head?_strip (h : c ∈ (strip space cs).head?) : space c = false := by
  rw [strip, List.head?_reverse] at h
  obtain ⟨front, hfront⟩ := List.dropWhile_suffix (l := (cs.dropWhile space).reverse) space
  have hlast : (cs.dropWhile space).reverse.getLast? = some c := by
    rw [← hfront, List.getLast?_append, Option.mem_def.mp h, Option.some_or]
  rw [List.getLast?_reverse] at hlast
  exact space_head?_dropWhile hlast

theorem dropWhile_eq_self (h : ∀ c ∈ cs.head?, space c = false) : cs.dropWhile space = cs := by
  cases cs with
  | nil => rfl
  | cons c cs => exact List.dropWhile_cons_of_neg (by simp [h c rfl])

/-- A text is stripped when neither of its ends is a space. -/
theorem strip_eq_self_iff : strip space cs = cs ↔
    (∀ c ∈ cs.head?, space c = false) ∧ ∀ c ∈ cs.getLast?, space c = false := by
  constructor
  · intro h
    rw [← h]
    exact ⟨fun _ => space_head?_strip, fun _ => space_getLast?_strip⟩
  · rintro ⟨hhead, hlast⟩
    rw [strip, dropWhile_eq_self hhead, dropWhile_eq_self (by rwa [List.head?_reverse]),
      List.reverse_reverse]

theorem strip_idem : strip space (strip space cs) = strip space cs :=
  strip_eq_self_iff.mpr ⟨fun _ => space_head?_strip, fun _ => space_getLast?_strip⟩

/-- Spaces around a text are stripped with those of the text. -/
theorem strip_append_left {front : List Char} (h : ∀ c ∈ front, space c = true) :
    strip space (front ++ cs) = strip space cs := by
  rw [strip, strip, List.dropWhile_append_of_pos h]

theorem strip_append_right {back : List Char} (h : ∀ c ∈ back, space c = true) :
    strip space (cs ++ back) = strip space cs := by
  have hback : ∀ c ∈ back.reverse, space c = true := fun c hc => h c (List.mem_reverse.mp hc)
  rw [strip, strip, List.dropWhile_append]
  split
  · rename_i hempty
    rw [List.isEmpty_iff.mp hempty, List.dropWhile_eq_nil_iff.mpr h]
  · rw [List.reverse_append, List.dropWhile_append_of_pos hback]

theorem exists_strip (space : Char → Bool) (cs : List Char) :
    ∃ front back, cs = front ++ strip space cs ++ back ∧
      (∀ c ∈ front, space c = true) ∧ ∀ c ∈ back, space c = true := by
  refine ⟨cs.takeWhile space, ((cs.dropWhile space).reverse.takeWhile space).reverse, ?_, ?_, ?_⟩
  · rw [strip, List.append_assoc, ← List.reverse_append, List.takeWhile_append_dropWhile,
      List.reverse_reverse, List.takeWhile_append_dropWhile]
  · exact fun c hc => List.mem_takeWhile_imp hc
  · exact fun c hc => List.mem_takeWhile_imp (List.mem_reverse.mp hc)

/-- The end of a text up to a character that is no space, with the spaces around it stripped. -/
theorem strip_rtakeWhile_strip {kept : Char → Bool} (hkept : ∀ c, space c = true → kept c = true) :
    strip space ((strip space cs).rtakeWhile kept) = strip space (cs.rtakeWhile kept) := by
  obtain ⟨front, back, hcs, hfront, hback⟩ := exists_strip space cs
  generalize strip space cs = middle at hcs
  have hright : cs.rtakeWhile kept = (front ++ middle).rtakeWhile kept ++ back := by
    have hpos : ∀ c ∈ back.reverse, kept c = true :=
      fun c hc => hkept c (hback c (List.mem_reverse.mp hc))
    rw [hcs, List.rtakeWhile, List.reverse_append, List.takeWhile_append_of_pos hpos,
      List.reverse_append, List.reverse_reverse, ← List.rtakeWhile]
  have hleft : (front ++ middle).rtakeWhile kept = middle.rtakeWhile kept ∨
      (front ++ middle).rtakeWhile kept = front ++ middle.rtakeWhile kept := by
    have hpos : ∀ c ∈ front.reverse, kept c = true :=
      fun c hc => hkept c (hfront c (List.mem_reverse.mp hc))
    rw [List.rtakeWhile, List.rtakeWhile, List.reverse_append, List.takeWhile_append]
    split
    · rename_i hlength
      right
      rw [List.takeWhile_eq_self_iff.mpr hpos, List.reverse_append, List.reverse_reverse,
        List.reverse_reverse,
        (List.takeWhile_prefix kept).eq_of_length hlength, List.reverse_reverse]
    · exact Or.inl rfl
  rw [hright, strip_append_right hback]
  rcases hleft with hleft | hleft
  · rw [hleft]
  · rw [hleft, strip_append_left hfront]

/-! ## Words -/

theorem ne_nil_of_mem_words {word : List Char} (h : word ∈ words space cs) : word ≠ [] := by
  simpa using (List.mem_filter.mp h).2

theorem space_of_mem_words {word : List Char} (h : word ∈ words space cs) (hc : c ∈ word) :
    space c = false := by
  have hword := (List.mem_filter.mp h).1
  clear h
  induction cs generalizing word with
  | nil =>
      rw [List.splitOnP_nil, List.mem_singleton] at hword
      rw [hword] at hc
      contradiction
  | cons d cs ih =>
      rw [List.splitOnP_cons_eq_if_modifyHead] at hword
      split at hword
      · rcases List.mem_cons.mp hword with rfl | hword
        · contradiction
        · exact ih hc hword
      · rename_i hd
        cases hsplit : cs.splitOnP space with
        | nil => exact absurd hsplit (List.splitOnP_ne_nil space cs)
        | cons piece pieces =>
            rw [hsplit, List.modifyHead_cons] at hword
            rcases List.mem_cons.mp hword with rfl | hword
            · rcases List.mem_cons.mp hc with rfl | hc
              · simpa using hd
              · exact ih hc (hsplit ▸ List.mem_cons_self)
            · exact ih hc (hsplit ▸ List.mem_cons_of_mem piece hword)

/-- The words of a text are made of its characters. -/
theorem mem_of_mem_words {word : List Char} (h : word ∈ words space cs) (hc : c ∈ word) :
    c ∈ cs := by
  have hword := (List.mem_filter.mp h).1
  clear h
  induction cs generalizing word with
  | nil =>
      rw [List.splitOnP_nil, List.mem_singleton] at hword
      rwa [hword] at hc
  | cons d cs ih =>
      rw [List.splitOnP_cons_eq_if_modifyHead] at hword
      split at hword
      · rcases List.mem_cons.mp hword with rfl | hword
        · contradiction
        · exact List.mem_cons_of_mem d (ih hc hword)
      · cases hsplit : cs.splitOnP space with
        | nil => exact absurd hsplit (List.splitOnP_ne_nil space cs)
        | cons piece pieces =>
            rw [hsplit, List.modifyHead_cons] at hword
            rcases List.mem_cons.mp hword with rfl | hword
            · rcases List.mem_cons.mp hc with rfl | hc
              · exact List.mem_cons_self
              · exact List.mem_cons_of_mem d (ih hc (hsplit ▸ List.mem_cons_self))
            · exact List.mem_cons_of_mem d (ih hc (hsplit ▸ List.mem_cons_of_mem piece hword))

/-- What is joined is made of the parts and of separators. -/
theorem mem_intercalate {α : Type} {separator c : α} {parts : List (List α)}
    (h : c ∈ [separator].intercalate parts) : c = separator ∨ ∃ part ∈ parts, c ∈ part := by
  induction parts with
  | nil => simp at h
  | cons part parts ih =>
      cases parts with
      | nil =>
          rw [List.intercalate_singleton] at h
          exact Or.inr ⟨part, List.mem_cons_self, h⟩
      | cons next parts =>
          rw [List.intercalate_cons_cons, List.mem_append, List.mem_append, List.mem_singleton] at h
          rcases h with (h | h) | h
          · exact Or.inr ⟨part, List.mem_cons_self, h⟩
          · exact Or.inl h
          · rcases ih h with h | ⟨p, hp, hc⟩
            · exact Or.inl h
            · exact Or.inr ⟨p, List.mem_cons_of_mem _ hp, hc⟩

/-- Joining the words adds no characters but spaces. -/
theorem mem_of_mem_joinWords (h : c ∈ joinWords space cs) : c = ' ' ∨ c ∈ cs :=
  (mem_intercalate h).imp_right fun ⟨_, hword, hc⟩ => mem_of_mem_words hword hc

/-- A word and the words after the space that ends it. -/
theorem words_append_cons {word : List Char} (hne : word ≠ []) (hword : ∀ c ∈ word, space c = false)
    (hc : space c = true) : words space (word ++ c :: cs) = word :: words space cs := by
  rw [words, List.splitOnP_append_cons_of_forall_mem hword c hc, List.filter_cons_of_pos (by simpa)]
  rfl

theorem words_eq_singleton {word : List Char} (hne : word ≠ [])
    (hword : ∀ c ∈ word, space c = false) : words space word = [word] := by
  rw [words, List.splitOnP_eq_singleton hword, List.filter_cons_of_pos (by simpa)]
  rfl

/-- The words of words with a space between two of them. -/
theorem words_intercalate {parts : List (List Char)} (hc : space c = true)
    (hparts : ∀ part ∈ parts, part ≠ [] ∧ ∀ d ∈ part, space d = false) :
    words space ([c].intercalate parts) = parts := by
  induction parts with
  | nil => simp [words, List.intercalate]
  | cons part parts ih =>
      obtain ⟨hne, hpart⟩ := hparts part List.mem_cons_self
      have hrest := ih fun other hother => hparts other (List.mem_cons_of_mem part hother)
      cases parts with
      | nil => simpa [List.intercalate] using words_eq_singleton hne hpart
      | cons other parts =>
          rw [List.intercalate_cons_cons, List.append_assoc, List.singleton_append,
            words_append_cons hne hpart hc, hrest]

/-- Joining the words of a text twice is joining them once. -/
theorem joinWords_idem (hspace : space ' ' = true) :
    joinWords space (joinWords space cs) = joinWords space cs := by
  rw [joinWords, joinWords, words_intercalate hspace fun word hword =>
    ⟨ne_nil_of_mem_words hword, fun _ => space_of_mem_words hword⟩]

end

section

variable {space blank : Char → Bool} {f : Char → Char} {cs ds : List Char} {c : Char}
  {parts : List (List Char)}

/-- Texts are joined alike exactly if they have the same words. -/
theorem joinWords_eq_joinWords_iff (hspace : space ' ' = true) :
    joinWords space cs = joinWords space ds ↔ words space cs = words space ds := by
  have hwords (cs : List Char) : words space (joinWords space cs) = words space cs :=
    words_intercalate hspace fun word hword =>
      ⟨ne_nil_of_mem_words hword, fun _ => space_of_mem_words hword⟩
  constructor
  · intro h
    rw [← hwords cs, h, hwords]
  · intro h
    rw [joinWords, h, joinWords]

theorem splitOnP_append_of_forall {word : List Char} (hword : ∀ c ∈ word, space c = false) :
    (word ++ cs).splitOnP space = (cs.splitOnP space).modifyHead (word ++ ·) := by
  induction word with
  | nil =>
      rw [List.nil_append]
      cases cs.splitOnP space <;> rfl
  | cons c word ih =>
      rw [List.cons_append, List.splitOnP_cons_eq_if_modifyHead, hword c List.mem_cons_self,
        if_neg Bool.false_ne_true, ih fun d hd => hword d (List.mem_cons_of_mem c hd),
        List.modifyHead_modifyHead]
      rfl

/-- A function from characters to texts that keeps the spaces maps a text word by word. -/
theorem words_flatMap {f : Char → List Char}
    (hspace : ∀ c, space c = true → ∃ d, f c = [d] ∧ space d = true)
    (hword : ∀ c, space c = false → f c ≠ [] ∧ ∀ d ∈ f c, space d = false) :
    words space (cs.flatMap f) = (words space cs).map (List.flatMap f) := by
  have hsplit (cs : List Char) :
      (cs.flatMap f).splitOnP space = (cs.splitOnP space).map (List.flatMap f) := by
    induction cs with
    | nil => simp
    | cons c cs ih =>
        rw [List.flatMap_cons, List.splitOnP_cons_eq_if_modifyHead]
        by_cases hc : space c = true
        · obtain ⟨d, hd, hds⟩ := hspace c hc
          rw [if_pos hc, hd, List.singleton_append, List.splitOnP_cons_eq_if_modifyHead, if_pos hds,
            ih]
          rfl
        · rw [if_neg hc, splitOnP_append_of_forall (hword c (Bool.eq_false_iff.mpr hc)).2, ih]
          cases cs.splitOnP space <;> rfl
  rw [words, hsplit, List.filter_map, words]
  congr 1
  have hne (c : Char) : f c ≠ [] := by
    cases hc : space c with
    | false => exact (hword c hc).1
    | true =>
        obtain ⟨d, hd, -⟩ := hspace c hc
        exact hd ▸ List.cons_ne_nil d []
  refine List.filter_congr fun word _ => ?_
  cases word with
  | nil => rfl
  | cons c word => simp [hne c]

/-- A function on characters that keeps the spaces maps a text word by word. -/
theorem words_map (hf : ∀ c, space (f c) = space c) :
    words space (cs.map f) = (words space cs).map (List.map f) := by
  have hflat (cs : List Char) : cs.map f = cs.flatMap fun c => [f c] := List.map_eq_flatMap
  rw [hflat, words_flatMap (fun c hc => ⟨f c, rfl, (hf c).trans hc⟩) fun c hc =>
    ⟨List.cons_ne_nil _ _, fun d hd => List.mem_singleton.mp hd ▸ (hf c).trans hc⟩]
  exact List.map_congr_left fun word _ => (hflat word).symm

theorem joinWords_map (hf : ∀ c, space (f c) = space c) (hblank : f ' ' = ' ') :
    joinWords space (cs.map f) = (joinWords space cs).map f := by
  rw [joinWords, words_map hf, joinWords]
  generalize words space cs = parts
  induction parts with
  | nil => rfl
  | cons part parts ih =>
      cases parts with
      | nil => simp
      | cons other parts =>
          rw [List.map_cons, List.map_cons, List.intercalate_cons_cons, ← List.map_cons, ih,
            List.intercalate_cons_cons]
          simp [hblank]

/-! ## Words with single spaces -/

/-- The characters at the ends of joined words belong to words. -/
theorem mem_ends_intercalate (hne : ∀ part ∈ parts, part ≠ [])
    (h : c ∈ ([' '].intercalate parts).head? ∨ c ∈ ([' '].intercalate parts).getLast?) :
    ∃ part ∈ parts, c ∈ part := by
  induction parts with
  | nil => simp at h
  | cons part parts ih =>
      have hpart := hne part List.mem_cons_self
      cases parts with
      | nil =>
          rw [List.intercalate_singleton] at h
          exact ⟨part, List.mem_cons_self, h.elim List.mem_of_head? List.mem_of_getLast?⟩
      | cons other parts =>
          have hrest : [' '].intercalate (other :: parts) ≠ [] := by
            intro hnil
            have hother := hne other (by simp)
            cases parts <;> simp_all [List.intercalate_cons_cons]
          rw [List.intercalate_cons_cons, List.append_assoc, List.singleton_append,
            List.head?_append_of_ne_nil _ hpart,
            List.getLast?_append_of_ne_nil _ (List.cons_ne_nil _ _),
            List.getLast?_cons_of_ne_nil hrest] at h
          rcases h with h | h
          · exact ⟨part, List.mem_cons_self, List.mem_of_head? h⟩
          · obtain ⟨word, hword, hc⟩ :=
              ih (fun p hp => hne p (List.mem_cons_of_mem part hp)) (Or.inr h)
            exact ⟨word, List.mem_cons_of_mem part hword, hc⟩

/-- Neither end of joined words is a space. -/
theorem strip_joinWords (hblank : ∀ c, blank c = true → space c = true) :
    strip blank (joinWords space cs) = joinWords space cs := by
  have hends (c : Char)
      (h : c ∈ (joinWords space cs).head? ∨ c ∈ (joinWords space cs).getLast?) :
      blank c = false := by
    obtain ⟨word, hword, hc⟩ := mem_ends_intercalate (fun _ => ne_nil_of_mem_words) h
    rw [Bool.eq_false_iff]
    exact fun hb => Bool.false_ne_true ((space_of_mem_words hword hc).symm.trans (hblank c hb))
  exact strip_eq_self_iff.mpr ⟨fun c hc => hends c (Or.inl hc), fun c hc => hends c (Or.inr hc)⟩

theorem collapse_append {word : List Char} (hword : ∀ c ∈ word, blank c = false) :
    collapse blank (word ++ cs) = word ++ collapse blank cs := by
  induction word with
  | nil => rfl
  | cons c word ih =>
      rw [List.cons_append, collapse, hword c List.mem_cons_self,
        ih fun d hd => hword d (List.mem_cons_of_mem c hd)]
      rfl

theorem collapse_intercalate (hblank : blank ' ' = true)
    (hparts : ∀ part ∈ parts, part ≠ [] ∧ ∀ c ∈ part, blank c = false) :
    collapse blank ([' '].intercalate parts) = [' '].intercalate parts := by
  induction parts with
  | nil => rfl
  | cons part parts ih =>
      obtain ⟨-, hpart⟩ := hparts part List.mem_cons_self
      have htail : ∀ p ∈ parts, p ≠ [] ∧ ∀ c ∈ p, blank c = false :=
        fun p hp => hparts p (List.mem_cons_of_mem part hp)
      cases parts with
      | nil =>
          have happend : collapse blank (part ++ []) = part ++ [] := collapse_append hpart
          rw [List.append_nil] at happend
          rw [List.intercalate_singleton, happend]
      | cons other parts =>
          have hhead : ¬ ([' '].intercalate (other :: parts)).head?.any blank = true := by
            rw [Option.any_eq_true]
            rintro ⟨c, hc, hb⟩
            obtain ⟨word, hword, hmem⟩ :=
              mem_ends_intercalate (fun p hp => (htail p hp).1) (Or.inl hc)
            rw [(htail word hword).2 c hmem] at hb
            contradiction
          rw [List.intercalate_cons_cons, List.append_assoc, collapse_append hpart,
            List.singleton_append, collapse, if_pos hblank, if_neg hhead, ih htail]

/-- Joined words have no runs of spaces to collapse. -/
theorem collapse_joinWords (hspace : blank ' ' = true)
    (hblank : ∀ c, blank c = true → space c = true) :
    collapse blank (joinWords space cs) = joinWords space cs := by
  refine collapse_intercalate hspace fun word hword => ⟨ne_nil_of_mem_words hword, fun c hc => ?_⟩
  rw [Bool.eq_false_iff]
  exact fun hb => Bool.false_ne_true ((space_of_mem_words hword hc).symm.trans (hblank c hb))

end

/-! ## ASCII -/

/-- What holds of the characters of ASCII. -/
theorem of_ascii {P : Char → Prop} (h : ∀ n < 128, P (Char.ofNat n)) {c : Char}
    (hc : c.toNat < 128) : P c :=
  Char.ofNat_toNat c ▸ h c.toNat hc

theorem toLower_of_not_ascii {c : Char} (h : 128 ≤ c.toNat) : c.toLower = c := by
  refine dif_neg fun hcapital => ?_
  have hhigh : c.toNat ≤ 90 := hcapital.2
  omega

theorem toUpper_of_not_ascii {c : Char} (h : 128 ≤ c.toNat) : c.toUpper = c := by
  refine dif_neg fun hsmall => ?_
  have hhigh : c.toNat ≤ 122 := hsmall.2
  omega

end Text
