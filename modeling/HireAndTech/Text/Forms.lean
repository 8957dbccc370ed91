import Mathlib

/-!
# Query strings

Percent-encoding of texts and the form of query strings, as {lit}`urllib.parse` reads and writes
them.  A text is encoded as the bytes of its UTF-8 form, each of which is a character of its own
or a percent sign with two digits.  Bytes that are not UTF-8 are read as replacement characters.

Main results:

- Definitions {lit}`quotePlus` and {lit}`urlencode`: writing.
- Definitions {lit}`unquote` and {lit}`parseQsl`: reading.
- Theorems {lit}`quotePlus_injective` and {lit}`urlencode_injective`: what is written can be told
  apart.
- Theorem {lit}`parseQsl_nonblank`: what is read without blank values.
-/

namespace Text

/-! ## Writing -/

/-- `_ALWAYS_SAFE`. -/
def isAlwaysSafe (c : Char) : Bool :=
  ('A' ≤ c && c ≤ 'Z') || ('a' ≤ c && c ≤ 'z') || ('0' ≤ c && c ≤ '9') ||
    c ∈ ['_', '.', '-', '~']

/-- An upper case hexadecimal digit. -/
def hexChar (n : ℕ) : Char :=
  Char.ofNat (if n < 10 then 48 + n else 55 + n)

/-- One byte of `quote_plus`. -/
def quoteByte (b : UInt8) : List Char :=
  let c := Char.ofNat b.toNat
  if isAlwaysSafe c then [c]
  else if c = ' ' then ['+']
  else ['%', hexChar (b.toNat / 16), hexChar (b.toNat % 16)]

/-- `quote_plus`. -/
def quotePlus (cs : List Char) : List Char :=
  (cs.flatMap String.utf8EncodeChar).flatMap quoteByte

/-- A pair of `urlencode`. -/
def quotePair (pair : List Char × List Char) : List Char :=
  quotePlus pair.1 ++ '=' :: quotePlus pair.2

/-- `urlencode`. -/
def urlencode (query : List (List Char × List Char)) : List Char :=
  ['&'].intercalate (query.map quotePair)

/-! ## Reading -/

/-- The value of a hexadecimal digit. -/
def hexValue (c : Char) : Option ℕ :=
  if '0' ≤ c ∧ c ≤ '9' then some (c.toNat - 48)
  else if 'A' ≤ c ∧ c ≤ 'F' then some (c.toNat - 55)
  else if 'a' ≤ c ∧ c ≤ 'f' then some (c.toNat - 87)
  else none

/-- `unquote_to_bytes` of an ASCII text. -/
def unquoteToBytes : List Char → List UInt8
  | '%' :: h :: l :: cs =>
      match hexValue h, hexValue l with
      | some high, some low => UInt8.ofNat (16 * high + low) :: unquoteToBytes cs
      | _, _ => UInt8.ofNat '%'.toNat :: unquoteToBytes (h :: l :: cs)
  | c :: cs => UInt8.ofNat c.toNat :: unquoteToBytes cs
  | [] => []

/-- The replacement character. -/
def replacement : Char := '\uFFFD'

/-- The character of a value of six bits for each further byte. -/
def charOf (lead : ℕ) (further : List UInt8) : Char :=
  Char.ofNat (further.foldl (fun n b => n * 64 + b.toNat % 64) lead)

/-- The bytes that may follow the first byte of a character, in their order. -/
def furtherRanges (b : UInt8) : Option (ℕ × List (UInt8 × UInt8)) :=
  if b < 0x80 then some (b.toNat, [])
  else if b < 0xC2 then none
  else if b < 0xE0 then some (b.toNat % 32, [(0x80, 0xBF)])
  else if b < 0xF0 then
    some (b.toNat % 16, [(if b = 0xE0 then 0xA0 else 0x80, if b = 0xED then 0x9F else 0xBF),
      (0x80, 0xBF)])
  else if b < 0xF5 then
    some (b.toNat % 8, [(if b = 0xF0 then 0x90 else 0x80, if b = 0xF4 then 0x8F else 0xBF),
      (0x80, 0xBF), (0x80, 0xBF)])
  else none

/-- The longest sequence of bytes in the given ranges. -/
def takeRanges : List (UInt8 × UInt8) → List UInt8 → List UInt8
  | (low, high) :: ranges, b :: bs =>
      if low ≤ b ∧ b ≤ high then b :: takeRanges ranges bs else []
  | _, _ => []

/-- The character that begins with a byte, or a replacement, and the number of further bytes that
belong to it. -/
def decodeNext (b : UInt8) (bs : List UInt8) : Char × ℕ :=
  match furtherRanges b with
  | none => (replacement, 0)
  | some (lead, ranges) =>
      let further := takeRanges ranges bs
      if further.length = ranges.length then (charOf lead further, further.length)
      else (replacement, further.length)

/-- The characters of bytes, of which the first few are skipped. -/
def decodeFrom : ℕ → List UInt8 → List Char
  | _, [] => []
  | skip + 1, _ :: bs => decodeFrom skip bs
  | 0, b :: bs => (decodeNext b bs).1 :: decodeFrom (decodeNext b bs).2 bs

/-- `bytes.decode("utf-8", "replace")`. -/
def decodeUtf8 (bs : List UInt8) : List Char :=
  decodeFrom 0 bs

/-- `_generate_unquoted_parts`, after some ASCII characters in reverse order. -/
def unquoteParts (ascii : List Char) : List Char → List Char
  | [] => decodeUtf8 (unquoteToBytes ascii.reverse)
  | c :: cs =>
      if c.toNat < 128 then unquoteParts (c :: ascii) cs
      else decodeUtf8 (unquoteToBytes ascii.reverse) ++ c :: unquoteParts [] cs

/-- `unquote`. -/
def unquote (cs : List Char) : List Char :=
  if '%' ∈ cs then unquoteParts [] cs else cs

/-- A name or a value of `parse_qsl`. -/
def unquotePlus (cs : List Char) : List Char :=
  unquote (cs.map fun c => if c = '+' then ' ' else c)

/-- The text before the first separator and the text after it. -/
def partition (separator : Char) (cs : List Char) : List Char × List Char :=
  (cs.takeWhile (· ≠ separator), (cs.dropWhile (· ≠ separator)).tail)

/-- The body of the loop of `parse_qsl`; a name without an equals sign has a blank value. -/
def parsePair (keepBlankValues : Bool) (nameValue : List Char) :
    Option (List Char × List Char) :=
  let (name, value) := partition '=' nameValue
  if nameValue = [] ∨ (value = [] ∧ keepBlankValues = false) then none
  else some (unquotePlus name, unquotePlus value)

/-- `parse_qsl`. -/
def parseQsl (keepBlankValues : Bool) (qs : List Char) : List (List Char × List Char) :=
  (qs.splitOn '&').filterMap (parsePair keepBlankValues)

example : parseQsl true "a=%E2%82%AC+1&b&=&a=%zz%FF".toList =
    [("a".toList, "€ 1".toList), ("b".toList, []), ([], []), ("a".toList, "%zz\uFFFD".toList)] := by
  decide

/-! ## What is written can be told apart -/

/-- A code whose words can be read off the front of a text. -/
theorem flatMap_injective {β γ : Type} {code : β → List γ} {read : List γ → Option (β × List γ)}
    (hread : ∀ b rest, read (code b ++ rest) = some (b, rest)) (hnil : read [] = none) :
    Function.Injective (List.flatMap code) := by
  intro bs
  induction bs with
  | nil =>
      intro bs' h
      cases bs' with
      | nil => rfl
      | cons b' bs' =>
          have hb' := hread b' (bs'.flatMap code)
          rw [← List.flatMap_cons, ← h, List.flatMap_nil, hnil] at hb'
          contradiction
  | cons b bs ih =>
      intro bs' h
      have hb := hread b (bs.flatMap code)
      rw [← List.flatMap_cons, h] at hb
      cases bs' with
      | nil =>
          rw [List.flatMap_nil, hnil] at hb
          contradiction
      | cons b' bs' =>
          rw [List.flatMap_cons, hread, Option.some.injEq, Prod.mk.injEq] at hb
          obtain ⟨rfl, hrest⟩ := hb
          rw [ih hrest.symm]

/-- The byte at the front of an encoded text. -/
def readByte : List Char → Option (UInt8 × List Char)
  | [] => none
  | c :: cs =>
      if c = '%' then
        match cs with
        | h :: l :: cs => (hexValue h).bind fun high => (hexValue l).map fun low =>
            (UInt8.ofNat (16 * high + low), cs)
        | _ => none
      else if c = '+' then some (32, cs)
      else some (UInt8.ofNat c.toNat, cs)

theorem hexValue_hexChar {n : ℕ} (hn : n < 16) : hexValue (hexChar n) = some n := by
  interval_cases n <;> decide

/-- A character of the code of a byte: a digit, a letter, or one of a few marks. -/
def isQuoted (c : Char) : Bool :=
  isAlwaysSafe c || c = '%' || c = '+'

theorem isAlwaysSafe_hexChar {n : ℕ} (hn : n < 16) : isAlwaysSafe (hexChar n) = true := by
  interval_cases n <;> decide

/-- The code of a byte can be read off the front of a text. -/
theorem readByte_quoteByte (b : UInt8) (rest : List Char) :
    readByte (quoteByte b ++ rest) = some (b, rest) := by
  have hlt : b.toNat < 256 := b.toNat_lt
  have hnat : (Char.ofNat b.toNat).toNat = b.toNat := by
    rw [Char.toNat_ofNat, if_pos (Or.inl (by omega))]
  unfold quoteByte
  by_cases hsafe : isAlwaysSafe (Char.ofNat b.toNat) = true
  · have hpercent : Char.ofNat b.toNat ≠ '%' := by
      intro h
      rw [h] at hsafe
      exact absurd hsafe (by decide)
    have hplus : Char.ofNat b.toNat ≠ '+' := by
      intro h
      rw [h] at hsafe
      exact absurd hsafe (by decide)
    simp [hsafe, readByte, hpercent, hplus, hnat]
  · by_cases hspace : Char.ofNat b.toNat = ' '
    · have hb : b = 32 := by
        apply UInt8.toNat_inj.mp
        rw [← hnat, hspace]
        rfl
      subst hb
      rfl
    · have hhigh : b.toNat / 16 < 16 := by omega
      have hlow : b.toNat % 16 < 16 := by omega
      rw [if_neg hsafe, if_neg hspace]
      simp only [readByte, List.cons_append, List.nil_append, if_true, hexValue_hexChar hhigh,
        hexValue_hexChar hlow, Option.bind_some, Option.map_some, Nat.div_add_mod,
        UInt8.ofNat_toNat]

theorem isQuoted_of_mem_quoteByte {b : UInt8} {c : Char} (h : c ∈ quoteByte b) :
    isQuoted c = true := by
  have hlt : b.toNat < 256 := b.toNat_lt
  unfold quoteByte at h
  by_cases hsafe : isAlwaysSafe (Char.ofNat b.toNat) = true
  · rw [if_pos hsafe, List.mem_singleton] at h
    simp [isQuoted, h, hsafe]
  · by_cases hspace : Char.ofNat b.toNat = ' '
    · rw [if_neg hsafe, if_pos hspace, List.mem_singleton] at h
      simp [isQuoted, h]
    · rw [if_neg hsafe, if_neg hspace] at h
      rcases List.mem_cons.mp h with rfl | h
      · rfl
      · rcases List.mem_cons.mp h with rfl | h
        · simp [isQuoted, isAlwaysSafe_hexChar (show b.toNat / 16 < 16 by omega)]
        · rw [List.mem_singleton.mp h]
          simp [isQuoted, isAlwaysSafe_hexChar (show b.toNat % 16 < 16 by omega)]

/-- UTF-8 texts that agree are forms of one text. -/
theorem flatMap_utf8EncodeChar_injective :
    Function.Injective (List.flatMap String.utf8EncodeChar) := by
  intro cs cs' h
  have hbytes : cs.utf8Encode = cs'.utf8Encode := by
    simp only [List.utf8Encode, h]
  have hdecode := congrArg ByteArray.utf8Decode? hbytes
  rw [List.utf8Decode?_utf8Encode, List.utf8Decode?_utf8Encode, Option.some.injEq] at hdecode
  simpa using hdecode

theorem quotePlus_injective : Function.Injective quotePlus :=
  (flatMap_injective readByte_quoteByte rfl).comp flatMap_utf8EncodeChar_injective

theorem isQuoted_of_mem_quotePlus {cs : List Char} {c : Char} (h : c ∈ quotePlus cs) :
    isQuoted c = true := by
  obtain ⟨b, -, hb⟩ := List.mem_flatMap.mp h
  exact isQuoted_of_mem_quoteByte hb

/-- A mark that no code uses does not occur in an encoded text. -/
theorem not_mem_quotePlus {cs : List Char} {c : Char} (hc : isQuoted c = false) :
    c ∉ quotePlus cs := by
  intro h
  rw [isQuoted_of_mem_quotePlus h] at hc
  contradiction

theorem all_ne_of_notMem {separator : Char} {cs : List Char} (h : separator ∉ cs) :
    ∀ c ∈ cs, decide (c ≠ separator) = true := by
  intro c hc
  rw [decide_eq_true_eq]
  rintro rfl
  exact h hc

/-- A text without the separator is before it. -/
theorem partition_of_notMem {separator : Char} {cs : List Char} (h : separator ∉ cs) :
    partition separator cs = (cs, []) := by
  rw [partition, List.takeWhile_eq_self_iff.mpr (all_ne_of_notMem h),
    List.dropWhile_eq_nil_iff.mpr (all_ne_of_notMem h)]
  rfl

/-- Texts before the first separator and after it. -/
theorem partition_append {separator : Char} {cs : List Char} (h : separator ∉ cs)
    (rest : List Char) : partition separator (cs ++ separator :: rest) = (cs, rest) := by
  rw [partition, List.takeWhile_append_of_pos (all_ne_of_notMem h),
    List.dropWhile_append_of_pos (all_ne_of_notMem h)]
  simp

theorem quotePair_injective : Function.Injective quotePair := by
  rintro ⟨name, value⟩ ⟨name', value'⟩ h
  have hparts := congrArg (partition '=') h
  simp only [quotePair] at hparts
  rw [partition_append (not_mem_quotePlus rfl), partition_append (not_mem_quotePlus rfl),
    Prod.mk.injEq] at hparts
  rw [quotePlus_injective hparts.1, quotePlus_injective hparts.2]

theorem mem_quotePair {pair : List Char × List Char} {c : Char} (h : c ∈ quotePair pair) :
    isQuoted c = true ∨ c = '=' := by
  rcases List.mem_append.mp h with h | h
  · exact Or.inl (isQuoted_of_mem_quotePlus h)
  · rcases List.mem_cons.mp h with rfl | h
    · exact Or.inr rfl
    · exact Or.inl (isQuoted_of_mem_quotePlus h)

theorem splitOn_urlencode {query : List (List Char × List Char)} (h : query ≠ []) :
    (urlencode query).splitOn '&' = query.map quotePair := by
  apply List.splitOn_intercalate
  · intro l hl hmem
    obtain ⟨pair, -, rfl⟩ := List.mem_map.mp hl
    rcases mem_quotePair hmem with hquoted | heq
    · exact absurd hquoted (by decide)
    · exact absurd heq (by decide)
  · rwa [ne_eq, List.map_eq_nil_iff]

theorem urlencode_ne_nil {query : List (List Char × List Char)} (h : query ≠ []) :
    urlencode query ≠ [] := by
  intro hnil
  have hsplit := splitOn_urlencode h
  rw [hnil, List.splitOn_nil] at hsplit
  cases query with
  | nil => exact h rfl
  | cons pair query =>
      rw [List.map_cons, List.cons.injEq] at hsplit
      have hmem : '=' ∈ quotePair pair := by simp [quotePair]
      rw [← hsplit.1] at hmem
      exact List.not_mem_nil hmem

/-- Different lists of pairs are written differently. -/
theorem urlencode_injective : Function.Injective urlencode := by
  intro query query' h
  by_cases hnil : query = []
  · by_cases hnil' : query' = []
    · rw [hnil, hnil']
    · have hne := urlencode_ne_nil hnil'
      rw [← h, hnil] at hne
      exact absurd rfl hne
  · have hnil' : query' ≠ [] := by
      rintro rfl
      exact urlencode_ne_nil hnil h
    have hpairs := congrArg (List.splitOn '&') h
    rw [splitOn_urlencode hnil, splitOn_urlencode hnil'] at hpairs
    exact quotePair_injective.list_map hpairs

/-! ## Reading without blank values -/

theorem decodeFrom_ne_nil {b : UInt8} {bs : List UInt8} : decodeFrom 0 (b :: bs) ≠ [] := by
  simp [decodeFrom]

theorem unquoteToBytes_ne_nil {cs : List Char} (h : cs ≠ []) : unquoteToBytes cs ≠ [] := by
  fun_cases unquoteToBytes cs <;> simp_all

theorem decodeUtf8_ne_nil {bs : List UInt8} (h : bs ≠ []) : decodeUtf8 bs ≠ [] := by
  cases bs with
  | nil => exact absurd rfl h
  | cons b bs => exact decodeFrom_ne_nil

theorem unquoteParts_ne_nil {ascii cs : List Char} (h : ascii ≠ [] ∨ cs ≠ []) :
    unquoteParts ascii cs ≠ [] := by
  induction cs generalizing ascii with
  | nil =>
      have hascii : ascii ≠ [] := h.resolve_right (by simp)
      rw [unquoteParts]
      exact decodeUtf8_ne_nil (unquoteToBytes_ne_nil (by simpa using hascii))
  | cons c cs ih =>
      rw [unquoteParts]
      split
      · exact ih (Or.inl (List.cons_ne_nil _ _))
      · simp

theorem unquotePlus_eq_nil {cs : List Char} : unquotePlus cs = [] ↔ cs = [] := by
  constructor
  · intro h
    by_contra hne
    unfold unquotePlus unquote at h
    split at h
    · exact unquoteParts_ne_nil (Or.inr (by simpa using hne)) h
    · exact hne (by simpa using h)
  · rintro rfl
    rfl

/-- A reader that drops blank values is one that keeps them, less the pairs whose value is
blank. -/
theorem parseQsl_nonblank (qs : List Char) :
    parseQsl false qs = (parseQsl true qs).filter fun pair => pair.2 ≠ [] := by
  unfold parseQsl
  rw [List.filter_filterMap]
  apply List.filterMap_congr
  intro nameValue _
  by_cases hblank : (partition '=' nameValue).2 = []
  · by_cases hnil : nameValue = []
    · simp [parsePair, hnil]
    · have hvalue : unquotePlus [] = [] := unquotePlus_eq_nil.mpr rfl
      simp [parsePair, hblank, hnil, hvalue, Option.filter_some]
  · by_cases hnil : nameValue = []
    · simp [parsePair, hnil]
    · have hvalue : unquotePlus (partition '=' nameValue).2 ≠ [] :=
        fun h => hblank (unquotePlus_eq_nil.mp h)
      simp [parsePair, hblank, hnil, hvalue, Option.filter_some]

/-! ## Decimal digits -/

theorem toNat_of_isDigit {c : Char} (hc : c.isDigit = true) : 48 ≤ c.toNat ∧ c.toNat ≤ 57 := by
  simp only [Char.isDigit, Bool.and_eq_true, decide_eq_true_eq] at hc
  exact ⟨UInt32.le_iff_toNat_le.mp hc.1, UInt32.le_iff_toNat_le.mp hc.2⟩

/-- So many digits do not stand for more. -/
theorem ofDigitChars_lt {cs : List Char} (hdigits : ∀ c ∈ cs, c.isDigit = true) :
    Nat.ofDigitChars 10 cs 0 < 10 ^ cs.length := by
  induction cs using List.reverseRecOn with
  | nil => exact Nat.one_pos
  | append_singleton cs c ih =>
      have hlt := ih fun d hd => hdigits d (List.mem_append_left [c] hd)
      have hplace := toNat_of_isDigit (hdigits c (List.mem_append_right cs List.mem_cons_self))
      have hzero : '0'.toNat = 48 := rfl
      rw [Nat.ofDigitChars_append, Nat.ofDigitChars_cons, Nat.ofDigitChars_nil, List.length_append,
        List.length_singleton, pow_succ]
      omega

end Text
