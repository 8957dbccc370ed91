import HireAndTech.Text.Urls
import HireAndTech.Text.Words

/-!
# Query strings that are read back

A query string is read as the pairs that it has been written from: no character of a name or a
value is lost or changed on the way through UTF-8 and percent-encoding.  A URL whose path and query
have no marks of their own is split where it has been put together.

Main results:

- Theorem {lit}`decodeUtf8_encode`: a text is decoded from its UTF-8 form.
- Theorem {lit}`unquotePlus_quotePlus`: a text is read from its encoded form.
- Theorem {lit}`parseQsl_urlencode`: a query string is read as it has been written.
- Theorem {lit}`urlsplit_https`: the parts of a URL.
-/

namespace Text

/-! ## UTF-8 -/

section

variable {n : ℕ} {b low high : UInt8} {bs rest : List UInt8} {ranges : List (UInt8 × UInt8)}
  {c : Char}

theorem toNat_ofNat_of_lt (hn : n < 256) : (UInt8.ofNat n).toNat = n := by
  rw [UInt8.toNat_ofNat', Nat.mod_eq_of_lt hn]

theorem ofNat_lt_iff {m : ℕ} (hn : n < 256) (hm : m < 256) :
    UInt8.ofNat n < UInt8.ofNat m ↔ n < m := by
  rw [UInt8.lt_iff_toNat_lt, toNat_ofNat_of_lt hn, toNat_ofNat_of_lt hm]

theorem ofNat_inj {m : ℕ} (hn : n < 256) (hm : m < 256) :
    UInt8.ofNat n = UInt8.ofNat m ↔ n = m := by
  rw [← UInt8.toNat_inj, toNat_ofNat_of_lt hn, toNat_ofNat_of_lt hm]

/-- A first byte of a character of one byte. -/
theorem furtherRanges_one (h : n < 0x80) : furtherRanges (UInt8.ofNat n) = some (n, []) := by
  have hlt : UInt8.ofNat n < 0x80 := (@ofNat_lt_iff n 0x80 (by omega) (by omega)).mpr h
  rw [furtherRanges, if_pos hlt, toNat_ofNat_of_lt (by omega)]

/-- A first byte of a character of two bytes. -/
theorem furtherRanges_two (h : 0xC2 ≤ n) (h' : n < 0xE0) :
    furtherRanges (UInt8.ofNat n) = some (n % 32, [(0x80, 0xBF)]) := by
  have hlt (m : ℕ) (hm : m < 256) := @ofNat_lt_iff n m (by omega) hm
  have h80 : ¬UInt8.ofNat n < 0x80 := mt (hlt 0x80 (by omega)).mp (by omega)
  have hC2 : ¬UInt8.ofNat n < 0xC2 := mt (hlt 0xC2 (by omega)).mp (by omega)
  have hE0 : UInt8.ofNat n < 0xE0 := (hlt 0xE0 (by omega)).mpr h'
  rw [furtherRanges, if_neg h80, if_neg hC2, if_pos hE0, toNat_ofNat_of_lt (by omega)]

/-- A first byte of a character of three bytes. -/
theorem furtherRanges_three (h : 0xE0 ≤ n) (h' : n < 0xF0) :
    furtherRanges (UInt8.ofNat n) =
      some (n % 16, [(if n = 0xE0 then 0xA0 else 0x80, if n = 0xED then 0x9F else 0xBF),
        (0x80, 0xBF)]) := by
  have hlt (m : ℕ) (hm : m < 256) := @ofNat_lt_iff n m (by omega) hm
  have heq (m : ℕ) (hm : m < 256) := @ofNat_inj n m (by omega) hm
  have h80 : ¬UInt8.ofNat n < 0x80 := mt (hlt 0x80 (by omega)).mp (by omega)
  have hC2 : ¬UInt8.ofNat n < 0xC2 := mt (hlt 0xC2 (by omega)).mp (by omega)
  have hE0 : ¬UInt8.ofNat n < 0xE0 := mt (hlt 0xE0 (by omega)).mp (by omega)
  have hF0 : UInt8.ofNat n < 0xF0 := (hlt 0xF0 (by omega)).mpr h'
  have hlow : UInt8.ofNat n = 0xE0 ↔ n = 0xE0 := heq 0xE0 (by omega)
  have hhigh : UInt8.ofNat n = 0xED ↔ n = 0xED := heq 0xED (by omega)
  rw [furtherRanges, if_neg h80, if_neg hC2, if_neg hE0, if_pos hF0, toNat_ofNat_of_lt (by omega)]
  simp only [hlow, hhigh]

/-- A first byte of a character of four bytes. -/
theorem furtherRanges_four (h : 0xF0 ≤ n) (h' : n < 0xF5) :
    furtherRanges (UInt8.ofNat n) =
      some (n % 8, [(if n = 0xF0 then 0x90 else 0x80, if n = 0xF4 then 0x8F else 0xBF),
        (0x80, 0xBF), (0x80, 0xBF)]) := by
  have hlt (m : ℕ) (hm : m < 256) := @ofNat_lt_iff n m (by omega) hm
  have heq (m : ℕ) (hm : m < 256) := @ofNat_inj n m (by omega) hm
  have h80 : ¬UInt8.ofNat n < 0x80 := mt (hlt 0x80 (by omega)).mp (by omega)
  have hC2 : ¬UInt8.ofNat n < 0xC2 := mt (hlt 0xC2 (by omega)).mp (by omega)
  have hE0 : ¬UInt8.ofNat n < 0xE0 := mt (hlt 0xE0 (by omega)).mp (by omega)
  have hF0 : ¬UInt8.ofNat n < 0xF0 := mt (hlt 0xF0 (by omega)).mp (by omega)
  have hF5 : UInt8.ofNat n < 0xF5 := (hlt 0xF5 (by omega)).mpr h'
  have hlow : UInt8.ofNat n = 0xF0 ↔ n = 0xF0 := heq 0xF0 (by omega)
  have hhigh : UInt8.ofNat n = 0xF4 ↔ n = 0xF4 := heq 0xF4 (by omega)
  rw [furtherRanges, if_neg h80, if_neg hC2, if_neg hE0, if_neg hF0, if_pos hF5,
    toNat_ofNat_of_lt (by omega)]
  simp only [hlow, hhigh]

/-- A byte in the next range is taken. -/
theorem takeRanges_cons (hlow : low ≤ b) (hhigh : b ≤ high) :
    takeRanges ((low, high) :: ranges) (b :: bs) = b :: takeRanges ranges bs := by
  rw [takeRanges, if_pos ⟨hlow, hhigh⟩]

theorem takeRanges_nil : takeRanges [] bs = [] := by
  rw [takeRanges]
  simp

/-- The character of the bytes that are taken. -/
theorem decodeNext_eq {lead : ℕ} (hranges : furtherRanges b = some (lead, ranges))
    (htake : takeRanges ranges (bs ++ rest) = bs) (hlength : bs.length = ranges.length) :
    decodeNext b (bs ++ rest) = (charOf lead bs, bs.length) := by
  rw [decodeNext, hranges]
  dsimp only
  rw [htake, if_pos hlength]

/-- A further byte of six bits. -/
theorem further_le (m : ℕ) :
    (0x80 : UInt8) ≤ UInt8.ofNat (m % 64 + 128) ∧ UInt8.ofNat (m % 64 + 128) ≤ 0xBF := by
  rw [UInt8.le_iff_toNat_le, UInt8.le_iff_toNat_le, toNat_ofNat_of_lt (by omega)]
  constructor
  · exact Nat.le_add_left _ _
  · show m % 64 + 128 ≤ 191
    omega

theorem further_mod (m : ℕ) : (UInt8.ofNat (m % 64 + 128)).toNat % 64 = m % 64 := by
  rw [toNat_ofNat_of_lt (by omega)]
  omega

/-- The bytes of a character are read as the character. -/
theorem decodeNext_encode (c : Char) (rest : List UInt8) :
    ∃ b more, String.utf8EncodeChar c = b :: more ∧
      decodeNext b (more ++ rest) = (c, more.length) := by
  have hvalid : c.val.toNat < 0xD800 ∨ (0xDFFF < c.val.toNat ∧ c.val.toNat < 0x110000) := c.valid
  have hchar : Char.ofNat c.val.toNat = c := Char.ofNat_toNat c
  rw [String.utf8EncodeChar]
  generalize c.val.toNat = v at hvalid hchar
  split_ifs with hone htwo hthree
  · refine ⟨_, [], rfl, ?_⟩
    rw [decodeNext_eq (furtherRanges_one (by omega)) takeRanges_nil rfl, charOf, List.foldl_nil,
      hchar]
  · refine ⟨_, [UInt8.ofNat (v % 64 + 128)], rfl, ?_⟩
    obtain ⟨hlow, hhigh⟩ := further_le v
    have htake : takeRanges [(0x80, 0xBF)] ([UInt8.ofNat (v % 64 + 128)] ++ rest) =
        [UInt8.ofNat (v % 64 + 128)] := by
      rw [List.singleton_append, takeRanges_cons hlow hhigh, takeRanges_nil]
    have hranges := @furtherRanges_two (v / 64 % 32 + 192) (by omega) (by omega)
    rw [decodeNext_eq hranges htake rfl, charOf]
    simp only [List.foldl_cons, List.foldl_nil, further_mod]
    rw [show (v / 64 % 32 + 192) % 32 * 64 + v % 64 = v by omega, hchar]
  · refine ⟨_, [UInt8.ofNat (v / 64 % 64 + 128), UInt8.ofNat (v % 64 + 128)], rfl, ?_⟩
    obtain ⟨hlow, hhigh⟩ := further_le v
    obtain ⟨hlow', hhigh'⟩ := further_le (v / 64)
    have hfirst : (if v / 4096 % 16 + 224 = 0xE0 then 0xA0 else 0x80) ≤
        UInt8.ofNat (v / 64 % 64 + 128) := by
      split_ifs
      · rw [UInt8.le_iff_toNat_le, toNat_ofNat_of_lt (by omega)]
        show 160 ≤ v / 64 % 64 + 128
        omega
      · exact hlow'
    have hsecond : UInt8.ofNat (v / 64 % 64 + 128) ≤
        (if v / 4096 % 16 + 224 = 0xED then 0x9F else 0xBF) := by
      split_ifs
      · rw [UInt8.le_iff_toNat_le, toNat_ofNat_of_lt (by omega)]
        show v / 64 % 64 + 128 ≤ 159
        omega
      · exact hhigh'
    have hranges := @furtherRanges_three (v / 4096 % 16 + 224) (by omega) (by omega)
    rw [decodeNext_eq hranges ?_ rfl, charOf]
    · simp only [List.foldl_cons, List.foldl_nil, further_mod]
      rw [show ((v / 4096 % 16 + 224) % 16 * 64 + v / 64 % 64) * 64 + v % 64 = v by omega, hchar]
    · rw [List.cons_append, takeRanges_cons hfirst hsecond, List.singleton_append,
        takeRanges_cons hlow hhigh, takeRanges_nil]
  · refine ⟨_, [UInt8.ofNat (v / 4096 % 64 + 128), UInt8.ofNat (v / 64 % 64 + 128),
      UInt8.ofNat (v % 64 + 128)], rfl, ?_⟩
    obtain ⟨hlow, hhigh⟩ := further_le v
    obtain ⟨hlow', hhigh'⟩ := further_le (v / 64)
    obtain ⟨hlow'', hhigh''⟩ := further_le (v / 4096)
    have hfirst : (if v / 262144 % 8 + 240 = 0xF0 then 0x90 else 0x80) ≤
        UInt8.ofNat (v / 4096 % 64 + 128) := by
      split_ifs
      · rw [UInt8.le_iff_toNat_le, toNat_ofNat_of_lt (by omega)]
        show 144 ≤ v / 4096 % 64 + 128
        omega
      · exact hlow''
    have hsecond : UInt8.ofNat (v / 4096 % 64 + 128) ≤
        (if v / 262144 % 8 + 240 = 0xF4 then 0x8F else 0xBF) := by
      split_ifs
      · rw [UInt8.le_iff_toNat_le, toNat_ofNat_of_lt (by omega)]
        show v / 4096 % 64 + 128 ≤ 143
        omega
      · exact hhigh''
    have hranges := @furtherRanges_four (v / 262144 % 8 + 240) (by omega) (by omega)
    rw [decodeNext_eq hranges ?_ rfl, charOf]
    · simp only [List.foldl_cons, List.foldl_nil, further_mod]
      rw [show (((v / 262144 % 8 + 240) % 8 * 64 + v / 4096 % 64) * 64 + v / 64 % 64) * 64 +
        v % 64 = v by omega, hchar]
    · rw [List.cons_append, takeRanges_cons hfirst hsecond, List.cons_append,
        takeRanges_cons hlow' hhigh', List.singleton_append, takeRanges_cons hlow hhigh,
        takeRanges_nil]

theorem decodeFrom_length (skipped rest : List UInt8) :
    decodeFrom skipped.length (skipped ++ rest) = decodeFrom 0 rest := by
  induction skipped with
  | nil => rfl
  | cons b skipped ih =>
      rw [List.length_cons, List.cons_append, decodeFrom]
      exact ih

/-- A text is decoded from its UTF-8 form. -/
theorem decodeUtf8_encode (cs : List Char) :
    decodeUtf8 (cs.flatMap String.utf8EncodeChar) = cs := by
  rw [decodeUtf8]
  induction cs with
  | nil => rfl
  | cons c cs ih =>
      obtain ⟨b, more, hencode, hdecode⟩ :=
        decodeNext_encode c (cs.flatMap String.utf8EncodeChar)
      rw [List.flatMap_cons, hencode, List.cons_append, decodeFrom, hdecode, decodeFrom_length, ih]

end

/-! ## Percent-encoding -/

section

variable {c : Char} {cs rest : List Char} {b : UInt8}

theorem unquoteToBytes_cons (hc : c ≠ '%') :
    unquoteToBytes (c :: rest) = UInt8.ofNat c.toNat :: unquoteToBytes rest := by
  rw [unquoteToBytes]
  intro _ _ _ hpercent
  exact absurd hpercent hc

/-- A space that has been written as a plus sign. -/
def plusToSpace (c : Char) : Char :=
  if c = '+' then ' ' else c

/-- A byte is read from its code. -/
theorem unquoteToBytes_quoteByte (b : UInt8) (rest : List Char) :
    unquoteToBytes ((quoteByte b).map plusToSpace ++ rest) = b :: unquoteToBytes rest := by
  have hlt : b.toNat < 256 := b.toNat_lt
  have hnat : (Char.ofNat b.toNat).toNat = b.toNat := by
    rw [Char.toNat_ofNat, if_pos (Or.inl (by omega))]
  unfold quoteByte
  by_cases hsafe : isAlwaysSafe (Char.ofNat b.toNat) = true
  · have hpercent : Char.ofNat b.toNat ≠ '%' := by
      intro h
      rw [h] at hsafe
      exact absurd hsafe (by decide)
    have hplus : Char.ofNat b.toNat ≠ '+' := by
      intro h
      rw [h] at hsafe
      exact absurd hsafe (by decide)
    rw [if_pos hsafe, List.map_singleton, plusToSpace, if_neg hplus, List.singleton_append,
      unquoteToBytes_cons hpercent, hnat, UInt8.ofNat_toNat]
  · by_cases hspace : Char.ofNat b.toNat = ' '
    · have hb : b = 32 := by
        apply UInt8.toNat_inj.mp
        rw [← hnat, hspace]
        rfl
      subst hb
      exact unquoteToBytes_cons (by decide)
    · have hhigh : b.toNat / 16 < 16 := by omega
      have hlow : b.toNat % 16 < 16 := by omega
      have hplus {n : ℕ} (hn : n < 16) : plusToSpace (hexChar n) = hexChar n := by
        interval_cases n <;> decide
      have hpercent : plusToSpace '%' = '%' := rfl
      rw [if_neg hsafe, if_neg hspace, List.map_cons, List.map_cons, List.map_singleton,
        hpercent, hplus hhigh, hplus hlow]
      simp only [List.cons_append, List.nil_append, unquoteToBytes, hexValue_hexChar hhigh,
        hexValue_hexChar hlow, Nat.div_add_mod, UInt8.ofNat_toNat]

theorem unquoteToBytes_quote (bs : List UInt8) :
    unquoteToBytes ((bs.flatMap quoteByte).map plusToSpace) = bs := by
  induction bs with
  | nil => rfl
  | cons b bs ih => rw [List.flatMap_cons, List.map_append, unquoteToBytes_quoteByte, ih]

/-- The characters of ASCII are read at once. -/
theorem unquoteParts_of_ascii (h : ∀ c ∈ cs, c.toNat < 128) (ascii : List Char) :
    unquoteParts ascii cs = decodeUtf8 (unquoteToBytes (ascii.reverse ++ cs)) := by
  induction cs generalizing ascii with
  | nil => rw [unquoteParts, List.append_nil]
  | cons c cs ih =>
      rw [unquoteParts, if_pos (h c List.mem_cons_self),
        ih fun d hd => h d (List.mem_cons_of_mem c hd), List.reverse_cons, List.append_assoc,
        List.singleton_append]

theorem unquoteToBytes_of_ascii (h : ∀ c ∈ cs, c.toNat < 128) (hpercent : '%' ∉ cs) :
    unquoteToBytes cs = cs.flatMap String.utf8EncodeChar := by
  induction cs with
  | nil => rfl
  | cons c cs ih =>
      rw [List.mem_cons, not_or] at hpercent
      have hcode : String.utf8EncodeChar c = [UInt8.ofNat c.toNat] :=
        if_pos (Nat.le_of_lt_succ (h c List.mem_cons_self))
      rw [unquoteToBytes_cons (Ne.symm hpercent.1), List.flatMap_cons, hcode,
        ih (fun d hd => h d (List.mem_cons_of_mem c hd)) hpercent.2]
      rfl

/-- A text of ASCII is read as the bytes that it stands for. -/
theorem unquote_of_ascii (h : ∀ c ∈ cs, c.toNat < 128) :
    unquote cs = decodeUtf8 (unquoteToBytes cs) := by
  unfold unquote
  split_ifs with hpercent
  · exact unquoteParts_of_ascii h []
  · rw [unquoteToBytes_of_ascii h hpercent, decodeUtf8_encode]

theorem ascii_of_isQuoted (h : isQuoted c = true) : c.toNat < 128 := by
  simp only [isQuoted, isAlwaysSafe, Bool.or_eq_true, Bool.and_eq_true, decide_eq_true_eq,
    List.mem_cons, List.not_mem_nil, or_false, Char.le_def, UInt32.le_iff_toNat_le] at h
  change c.val.toNat < 128
  rcases h with ((((h | h) | h) | h) | h) | h
  · exact lt_of_le_of_lt h.2 (by decide)
  · exact lt_of_le_of_lt h.2 (by decide)
  · exact lt_of_le_of_lt h.2 (by decide)
  · rcases h with rfl | rfl | rfl | rfl <;> decide
  · rw [h]
    decide
  · rw [h]
    decide

/-- A text is read from its encoded form. -/
theorem unquotePlus_quotePlus (cs : List Char) : unquotePlus (quotePlus cs) = cs := by
  have hascii : ∀ c ∈ (quotePlus cs).map plusToSpace, c.toNat < 128 := by
    intro c hc
    obtain ⟨d, hd, rfl⟩ := List.mem_map.mp hc
    unfold plusToSpace
    split_ifs
    · decide
    · exact ascii_of_isQuoted (isQuoted_of_mem_quotePlus hd)
  have hread : unquotePlus (quotePlus cs) = unquote ((quotePlus cs).map plusToSpace) := rfl
  rw [hread, unquote_of_ascii hascii, quotePlus, unquoteToBytes_quote, decodeUtf8_encode]

/-! ## Query strings -/

theorem quotePlus_eq_nil_iff : quotePlus cs = [] ↔ cs = [] := by
  have hnil : quotePlus [] = [] := rfl
  constructor
  · exact fun h => quotePlus_injective (h.trans hnil.symm)
  · rintro rfl
    exact hnil

/-- A pair is read from its form, unless its value is blank and blank values are left out. -/
theorem parsePair_quotePair (keepBlankValues : Bool) (pair : List Char × List Char) :
    parsePair keepBlankValues (quotePair pair) =
      if keepBlankValues || pair.2 ≠ [] then some pair else none := by
  have hpartition : partition '=' (quotePair pair) = (quotePlus pair.1, quotePlus pair.2) :=
    partition_append (not_mem_quotePlus rfl) _
  have hne : quotePair pair ≠ [] := by simp [quotePair]
  simp only [parsePair, hpartition, hne, false_or, quotePlus_eq_nil_iff, unquotePlus_quotePlus]
  cases keepBlankValues <;> simp

/-- A query string is read as it has been written; blank values are left out unless they are
kept. -/
theorem parseQsl_urlencode (keepBlankValues : Bool) (query : List (List Char × List Char)) :
    parseQsl keepBlankValues (urlencode query) =
      query.filter fun pair => keepBlankValues || pair.2 ≠ [] := by
  by_cases hnil : query = []
  · subst hnil
    simp [urlencode, List.intercalate, parseQsl, parsePair]
  · have hpair : parsePair keepBlankValues ∘ quotePair =
        Option.guard fun pair => keepBlankValues || pair.2 ≠ [] := by
      funext pair
      rw [Function.comp_apply, parsePair_quotePair]
      rfl
    rw [parseQsl, splitOn_urlencode hnil, List.filterMap_map, hpair, List.filterMap_eq_filter]

theorem mem_urlencode {query : List (List Char × List Char)} (h : c ∈ urlencode query) :
    isQuoted c = true ∨ c = '=' ∨ c = '&' := by
  rcases mem_intercalate h with rfl | ⟨part, hpart, hc⟩
  · exact Or.inr (Or.inr rfl)
  · obtain ⟨pair, _, rfl⟩ := List.mem_map.mp hpart
    exact (mem_quotePair hc).imp_right Or.inl

/-! ## URLs -/

/-- A URL with a network location and a path is split behind them. -/
theorem urlsplit_https {u : Unicode} {host tail : List Char}
    (hhost : ∀ c ∈ host, isNetlocChar c = true ∧ isUnsafe c = false ∧ c.toNat < 128)
    (hbrackets : checkBrackets host = true) (hroot : tail.head?.all (fun c => !isNetlocChar c))
    (htail : ∀ c ∈ tail, isUnsafe c = false ∧ c ≠ '#') :
    urlsplit u ("https://".toList ++ host ++ tail) =
      some ⟨"https".toList, host, (partition '?' tail).1, (partition '?' tail).2, []⟩ := by
  have hprefix : "https://".toList.all (!isUnsafe ·) = true := by decide
  have hsafe : ("https://".toList ++ host ++ tail).filter (!isUnsafe ·) =
      "https://".toList ++ host ++ tail := by
    rw [List.filter_eq_self]
    intro c hc
    rw [List.append_assoc, List.mem_append, List.mem_append] at hc
    rcases hc with hc | hc | hc
    · exact List.all_eq_true.mp hprefix c hc
    · rw [(hhost c hc).2.1]
      rfl
    · rw [(htail c hc).1]
      rfl
  have hdrop : ("https://".toList ++ host ++ tail).dropWhile isC0ControlOrSpace =
      "https://".toList ++ host ++ tail := rfl
  have hscheme : splitScheme ("https://".toList ++ host ++ tail) =
      ("https".toList, "//".toList ++ host ++ tail) := by
    have hpartition : partition ':' ("https".toList ++ ':' :: ("//".toList ++ host ++ tail)) =
        ("https".toList, "//".toList ++ host ++ tail) := partition_append (by decide) _
    have hurl : "https://".toList ++ host ++ tail =
        "https".toList ++ ':' :: ("//".toList ++ host ++ tail) := rfl
    rw [splitScheme, hurl, hpartition]
    dsimp only
    rw [if_pos ⟨by simp, by decide, by decide⟩]
    rfl
  have hnetloc : splitNetloc ("//".toList ++ host ++ tail) = (host, tail) := by
    have hall : ∀ c ∈ host, isNetlocChar c = true := fun c hc => (hhost c hc).1
    have hurl : "//".toList ++ host ++ tail = '/' :: '/' :: (host ++ tail) := rfl
    have htake : tail.takeWhile isNetlocChar = [] ∧ tail.dropWhile isNetlocChar = tail := by
      cases tail with
      | nil => exact ⟨rfl, rfl⟩
      | cons c tail =>
          have hc : isNetlocChar c = false := by simpa using hroot
          simp [hc]
    rw [hurl, splitNetloc, List.takeWhile_append_of_pos hall, List.dropWhile_append_of_pos hall,
      htake.1, htake.2, List.append_nil]
  have hfragment : partition '#' tail = (tail, []) :=
    partition_of_notMem fun hmem => (htail '#' hmem).2 rfl
  have hascii : checkNetloc u host = true := by
    have hall : host.all (·.toNat < 128) = true :=
      List.all_eq_true.mpr fun c hc => decide_eq_true (hhost c hc).2.2
    rw [checkNetloc, hall, Bool.true_or, Bool.true_or]
  rw [urlsplit, hdrop, hsafe]
  dsimp only
  rw [hscheme]
  dsimp only
  rw [hnetloc]
  dsimp only
  rw [hfragment]
  dsimp only
  rw [hbrackets, hascii]
  rfl

end

end Text
