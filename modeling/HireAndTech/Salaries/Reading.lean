import HireAndTech.Salaries.Parser

/-!
# Reading salary ranges

What the range pattern captures of a text with a currency code, two amounts and a period.

The first amount is followed by a dash, so that it is read as a whole.  Everything that follows the
second amount may be left out, so that its first three digits are taken, and the period is
found only if there are no further digits.

Main results:

- Theorem {lit}`reaches_amount`: an amount is read as a whole if digits are refused after it.
- Theorem {lit}`reaches_amount_short`: otherwise three digits of it are read.
- Theorem {lit}`reaches_salaryRangeRe`: what the range pattern captures.
-/

namespace HireAndTech
namespace Salaries

open Text Catalogue

/-! ## Amounts -/

/-- The texts that begin with a digit. -/
def digitTexts : Set (List Char) :=
  {text | ∃ c ∈ text.head?, c.isDigit = true}

/-- A text that does not continue an amount. -/
def EndsAmount (rest : List Char) : Prop :=
  ∀ c ∈ rest.head?, isDecimal c = false ∧ c ≠ ',' ∧ c ≠ '.'

section

variable {digits rest : List Char} {skips : Set (List Char)}

theorem isDecimal_of_isDigit {c : Char} (hc : c.isDigit = true) : isDecimal c = true := by
  rw [isDecimal, digitValue_of_isDigit hc]
  rfl

theorem ne_of_isDigit {c : Char} (hc : c.isDigit = true) : c ≠ ',' ∧ c ≠ '.' := by
  constructor
  · rintro rfl
    exact absurd hc (by decide)
  · rintro rfl
    exact absurd hc (by decide)

/-- An amount is not continued by what does not begin with a comma or a point. -/
theorem reaches_fraction (h : ∀ c ∈ rest.head?, c ≠ '.') : fraction.Reaches skips rest rest := by
  have hpoint : (Regex.satisfy (· = '.')).EndsIn ∅ rest :=
    Regex.endsIn_satisfy_of_head fun c hc => by simpa using h c hc
  exact Regex.Reaches.right hpoint.seq_of_empty Regex.reaches_empty

theorem endsIn_groups (h : ∀ c ∈ rest.head?, c ≠ ',') :
    (Regex.seq (.satisfy (· = ',')) (.times digit 3)).EndsIn ∅ rest := by
  have hcomma : (Regex.satisfy (· = ',')).EndsIn ∅ rest :=
    Regex.endsIn_satisfy_of_head fun c hc => by simpa using h c hc
  exact hcomma.seq_of_empty

/-- Three digits of an amount are read first. -/
theorem reaches_amount_short (hne : digits ≠ []) (hdigits : ∀ c ∈ digits, c.isDigit = true)
    (hrest : EndsAmount rest) :
    amount.Reaches skips (digits ++ rest) (digits.drop 3 ++ rest) := by
  obtain ⟨c, digits, rfl⟩ := List.exists_cons_of_ne_nil hne
  have hmore : ∀ d ∈ digits, isDecimal d = true :=
    fun d hd => isDecimal_of_isDigit (hdigits d (List.mem_cons_of_mem c hd))
  have hhead : ∀ d ∈ (digits.drop 2 ++ rest).head?, d ≠ ',' ∧ d ≠ '.' := by
    intro d hd
    cases hdrop : digits.drop 2 with
    | nil =>
        rw [hdrop, List.nil_append] at hd
        exact (hrest d hd).2
    | cons e more =>
        rw [hdrop, List.cons_append, List.head?_cons, Option.mem_some_iff] at hd
        have hmem : e ∈ digits := List.mem_of_mem_drop (hdrop ▸ List.mem_cons_self)
        exact ne_of_isDigit (hd ▸ hdigits e (List.mem_cons_of_mem c hmem))
  have hthree : (Regex.seq digit (.upTo digit 2)).Reaches ∅ (c :: digits ++ rest)
      (digits.drop 2 ++ rest) := by
    have htwo : (Regex.upTo digit 2).Reaches ∅ (digits.take 2 ++ (digits.drop 2 ++ rest))
        (digits.drop 2 ++ rest) := by
      apply Regex.reaches_upTo_satisfy
      · exact fun d hd => hmore d (List.mem_of_mem_take hd)
      · exact List.length_take_le 2 digits
      · intro hlt d hd
        have hdrop : digits.drop 2 = [] := by
          rw [List.drop_eq_nil_iff]
          rw [List.length_take] at hlt
          omega
        rw [hdrop, List.nil_append] at hd
        exact (hrest d hd).1
    rw [← List.append_assoc, List.take_append_drop] at htwo
    exact (Regex.reaches_satisfy (isDecimal_of_isDigit (hdigits c List.mem_cons_self))).next htwo
  have hgroups : (Regex.star (.seq (.satisfy (· = ',')) (.times digit 3))).Reaches ∅
      (digits.drop 2 ++ rest) (digits.drop 2 ++ rest) :=
    Regex.reaches_star_of_endsIn (endsIn_groups fun d hd => (hhead d hd).1)
  exact (hthree.next (hgroups.next (reaches_fraction fun d hd => (hhead d hd).2))).left

/-- A bounded repetition of digits ends before a digit if there are too many. -/
theorem endsIn_upTo_digit {n : ℕ} (hn : n < digits.length)
    (hdigits : ∀ c ∈ digits, c.isDigit = true) :
    (Regex.upTo digit n).EndsIn digitTexts (digits ++ rest) := by
  induction n generalizing digits with
  | zero =>
      obtain ⟨c, digits, rfl⟩ := List.exists_cons_of_length_pos hn
      exact Regex.endsIn_empty ⟨c, rfl, hdigits c List.mem_cons_self⟩
  | succ n ih =>
      obtain ⟨c, digits, rfl⟩ := List.exists_cons_of_length_pos (Nat.zero_lt_of_lt hn)
      have hmore : (Regex.upTo digit n).EndsIn digitTexts (digits ++ rest) :=
        ih (Nat.lt_of_succ_lt_succ hn) fun d hd => hdigits d (List.mem_cons_of_mem c hd)
      have hfirst : digit.EndsIn {digits ++ rest} (c :: digits ++ rest) :=
        Regex.endsIn_satisfy_cons rfl
      apply Regex.EndsIn.optional
      · exact hfirst.seq fun text htext => htext ▸ hmore
      · exact ⟨c, rfl, hdigits c List.mem_cons_self⟩

/-- An amount is read as a whole if what follows it refuses digits. -/
theorem reaches_amount (hne : digits ≠ []) (hdigits : ∀ c ∈ digits, c.isDigit = true)
    (hrest : EndsAmount rest) : amount.Reaches digitTexts (digits ++ rest) rest := by
  by_cases hshort : digits.length ≤ 3
  · have hreaches : amount.Reaches digitTexts (digits ++ rest) (digits.drop 3 ++ rest) :=
      reaches_amount_short hne hdigits hrest
    rwa [List.drop_eq_nil_of_le hshort, List.nil_append] at hreaches
  · obtain ⟨c, digits, rfl⟩ := List.exists_cons_of_ne_nil hne
    rw [List.length_cons] at hshort
    have hfirst : isDecimal c = true := isDecimal_of_isDigit (hdigits c List.mem_cons_self)
    have hmore : ∀ d ∈ digits, d.isDigit = true :=
      fun d hd => hdigits d (List.mem_cons_of_mem c hd)
    have hone : digit.EndsIn {digits ++ rest} (c :: digits ++ rest) :=
      Regex.endsIn_satisfy_cons rfl
    have hthree : (Regex.seq digit (.upTo digit 2)).EndsIn digitTexts (c :: digits ++ rest) :=
      hone.seq fun text htext => htext ▸ endsIn_upTo_digit (by omega) hmore
    have hstay : ∀ text ∈ digitTexts,
        (Regex.seq (.star (.seq (.satisfy (· = ',')) (.times digit 3))) fraction).EndsIn digitTexts
          text := by
      intro text htext
      obtain ⟨d, hd, hdigit⟩ := htext
      have hhead : ∀ e ∈ text.head?, e ≠ ',' ∧ e ≠ '.' := by
        intro e he
        rw [Option.mem_unique he hd]
        exact ne_of_isDigit hdigit
      have hpoint : (Regex.satisfy (· = '.')).EndsIn ∅ text :=
        Regex.endsIn_satisfy_of_head fun e he => by simpa using (hhead e he).2
      have hgroups : (Regex.star (.seq (.satisfy (· = ',')) (.times digit 3))).EndsIn {text} text :=
        (endsIn_groups fun e he => (hhead e he).1).star rfl
      refine hgroups.seq fun text' htext' => ?_
      rw [htext']
      exact hpoint.seq_of_empty.optional ⟨d, hd, hdigit⟩
    have hall : (Regex.star digit).Reaches ∅ (digits ++ rest) rest :=
      Regex.reaches_star_satisfy (fun d hd => isDecimal_of_isDigit (hmore d hd))
        fun e he => (hrest e he).1
    have hplus : (Regex.plus digit).Reaches ∅ (c :: digits ++ rest) rest :=
      (Regex.reaches_satisfy hfirst).next hall
    exact Regex.Reaches.right (hthree.seq hstay)
      (hplus.next (reaches_fraction fun e he => (hrest e he).2.2))

end

/-! ## Words and spaces -/

/-- The text does not begin with the first letter of a word. -/
def beginsOtherwise (word : String) (text : List Char) : Bool :=
  match word.toList, text.head? with
  | [], _ => false
  | _ :: _, none => true
  | letter :: _, some c => ignoreCase c ≠ letter

section

variable {s : String} {names : List String} {word text rest : List Char}
  {skips : Set (List Char)} {c : Char}

theorem reaches_spaces_none (h : ∀ c ∈ text.head?, isSpace c = false) :
    spaces.Reaches skips text text :=
  Regex.reaches_star_of_endsIn (Regex.endsIn_satisfy_of_head h)

theorem endsIn_spaces_none (h : ∀ c ∈ text.head?, isSpace c = false) :
    spaces.EndsIn {text} text :=
  (Regex.endsIn_satisfy_of_head h).star rfl

theorem reaches_spaces_one (h : ∀ c ∈ rest.head?, isSpace c = false) :
    spaces.Reaches skips (' ' :: rest) rest := by
  have hspace : ∀ c ∈ [' '], isSpace c = true := by
    intro c hc
    rw [List.mem_singleton.mp hc]
    rfl
  exact Regex.reaches_star_satisfy hspace h

/-- A word is matched in any case. -/
theorem reaches_folded (h : word.map ignoreCase = s.toList) :
    (folded s).Reaches skips (word ++ rest) rest := by
  rw [folded, ← h]
  clear h
  induction word with
  | nil => exact Regex.reaches_empty
  | cons c word ih => exact (Regex.reaches_satisfy (decide_eq_true rfl)).next ih

theorem endsIn_folded (h : beginsOtherwise s text = true) : (folded s).EndsIn ∅ text := by
  unfold beginsOtherwise at h
  cases hs : s.toList with
  | nil => simp [hs] at h
  | cons letter letters =>
      have hhead : (Regex.satisfy fun d => ignoreCase d = letter).EndsIn ∅ text := by
        apply Regex.endsIn_satisfy_of_head
        intro c hc
        rw [Option.mem_def] at hc
        rw [hs, hc] at h
        simpa using h
      rw [folded, hs]
      exact hhead.seq_of_empty

/-- Words with other first letters are not matched. -/
theorem endsIn_oneOf (h : names.all (beginsOtherwise · text) = true) :
    (oneOf names).EndsIn ∅ text := by
  apply Regex.endsIn_anyOf
  intro r hr
  obtain ⟨name, hname, rfl⟩ := List.mem_map.mp hr
  exact endsIn_folded (List.all_eq_true.mp h name hname)

/-- One of several words is matched if the words before it have other first letters. -/
theorem reaches_oneOf (names names' : List String)
    (h : names.all (beginsOtherwise · (word ++ rest)) = true)
    (hword : word.map ignoreCase = s.toList) :
    (oneOf (names ++ s :: names')).Reaches skips (word ++ rest) rest := by
  rw [oneOf, List.map_append, List.map_cons]
  apply Regex.reaches_anyOf
  · intro r hr
    obtain ⟨name, hname, rfl⟩ := List.mem_map.mp hr
    exact (endsIn_folded (List.all_eq_true.mp h name hname)).mono (Set.empty_subset skips)
  · exact reaches_folded hword

theorem ignoreCase_of_isDigit (hc : c.isDigit = true) : ignoreCase c = c := by
  have hall : asciiDigits.all (fun d => ignoreCase d = d) = true := by decide
  exact of_decide_eq_true (List.all_eq_true.mp hall c (mem_asciiDigits hc))

/-- A word that begins with a letter does not begin with a digit. -/
theorem beginsOtherwise_of_isDigit (htext : text ∈ digitTexts)
    (hs : ∃ letter letters, s.toList = letter :: letters ∧ letter.isDigit = false) :
    beginsOtherwise s text = true := by
  obtain ⟨c, hc, hdigit⟩ := htext
  obtain ⟨letter, letters, hs, hletter⟩ := hs
  rw [Option.mem_def] at hc
  rw [beginsOtherwise, hs, hc]
  dsimp only
  rw [decide_eq_true_eq, ignoreCase_of_isDigit hdigit]
  rintro rfl
  rw [hdigit] at hletter
  contradiction

/-- A class without digits does not match a digit. -/
theorem endsIn_satisfy_of_isDigit {p : Char → Bool} (htext : text ∈ digitTexts)
    (hp : asciiDigits.all (fun d => !p d) = true) {set : Set (List Char)} :
    (Regex.satisfy p).EndsIn set text := by
  apply Regex.endsIn_satisfy_of_head
  intro c hc
  obtain ⟨d, hd, hdigit⟩ := htext
  rw [Option.mem_unique hc hd]
  simpa using List.all_eq_true.mp hp d (mem_asciiDigits hdigit)

theorem head_of_digitTexts (htext : text ∈ digitTexts) : ∀ c ∈ text.head?, isSpace c = false := by
  intro c hc
  obtain ⟨d, hd, hdigit⟩ := htext
  rw [Option.mem_unique hc hd]
  exact isSpace_of_isDigit hdigit

end

/-! ## Ranges -/

/-- The currency codes that postings state and the pattern knows. -/
def currencies : List String :=
  ["USD", "CAD", "GBP", "EUR"]

/-- The periods of amounts. -/
def units : List String :=
  ["year", "hour", "month", "day", "week"]

section

variable (u : Unicode) {text rest digits : List Char} {code unit : String}
  {skips : Set (List Char)} {name : Group}

theorem endsIn_currencyCode (htext : text ∈ digitTexts) : currencyCode.EndsIn ∅ text := by
  apply endsIn_oneOf
  rw [List.all_eq_true]
  intro word hword
  apply beginsOtherwise_of_isDigit htext
  fin_cases hword <;> exact ⟨_, _, rfl, rfl⟩

theorem reaches_currencyCode (hcode : code ∈ currencies) :
    currencyCode.Reaches skips (code.toList ++ rest) rest := by
  fin_cases hcode
  · exact reaches_oneOf [] (currencyCodes.drop 1) rfl rfl
  · exact reaches_oneOf (currencyCodes.take 1) (currencyCodes.drop 2) rfl rfl
  · exact reaches_oneOf (currencyCodes.take 2) (currencyCodes.drop 3) rfl rfl
  · exact reaches_oneOf (currencyCodes.take 3) [] rfl rfl

theorem reaches_currency (hcode : code ∈ currencies) :
    currency.Reaches skips (code.toList ++ rest) rest := by
  have hsymbol : (Regex.satisfy fun c => ['$', '£', '€'].contains c).EndsIn skips
      (code.toList ++ rest) := by
    apply Regex.endsIn_satisfy_of_head
    fin_cases hcode <;> simp
  exact Regex.Reaches.right hsymbol (reaches_currencyCode hcode)

theorem reaches_periodName (hunit : unit ∈ units) :
    periodName.Reaches skips (unit.toList ++ rest) rest := by
  fin_cases hunit
  · exact reaches_oneOf [] (periodNames.drop 1) rfl rfl
  · exact reaches_oneOf (periodNames.take 4) (periodNames.drop 5) rfl rfl
  · exact reaches_oneOf (periodNames.take 7) (periodNames.drop 8) rfl rfl
  · exact reaches_oneOf (periodNames.take 10) (periodNames.drop 11) rfl rfl
  · exact reaches_oneOf (periodNames.take 11) [] rfl rfl

/-- What follows the second amount. -/
def afterMax : Pattern Group :=
  .sequence
    [.plain spaces, .optional (.group .maxK thousand), .plain spaces, trailingCode u .curr3,
      .optional (.seq (.plain spaces) perPeriod)]

theorem endsIn_thousand {set : Set (List Char)} (htext : text ∈ digitTexts) :
    thousand.EndsIn set text :=
  endsIn_satisfy_of_isDigit htext (by decide)

theorem endsIn_per (htext : text ∈ digitTexts) : per.EndsIn ∅ text := by
  apply Regex.endsIn_anyOf
  intro r hr
  fin_cases hr
  · exact endsIn_folded (beginsOtherwise_of_isDigit htext ⟨_, _, rfl, rfl⟩)
  · exact endsIn_satisfy_of_isDigit htext (by decide)
  · exact endsIn_folded (beginsOtherwise_of_isDigit htext ⟨_, _, rfl, rfl⟩)

theorem endsIn_dash (htext : text ∈ digitTexts) : dash.EndsIn ∅ text := by
  apply Regex.endsIn_anyOf
  intro r hr
  fin_cases hr
  · exact endsIn_satisfy_of_isDigit htext (by decide)
  · exact endsIn_satisfy_of_isDigit htext (by decide)
  · exact endsIn_satisfy_of_isDigit htext (by decide)
  · exact endsIn_folded (beginsOtherwise_of_isDigit htext ⟨_, _, rfl, rfl⟩)

/-- A currency code after the second amount is left out where there is none. -/
theorem reaches_trailingCode (h : currencyCode.EndsIn ∅ text) :
    (trailingCode u name).Reaches skips text text [] :=
  Pattern.reaches_optional_of_endsIn (Pattern.endsIn_group h).seq_of_empty

/-- Further digits of the second amount are not read. -/
theorem reaches_afterMax_digits (htext : text ∈ digitTexts) :
    (afterMax u).Reaches ∅ text text [] := by
  have hhead := head_of_digitTexts htext
  have hspaces : (Pattern.plain spaces : Pattern Group).Reaches ∅ text text [] :=
    Pattern.reaches_plain (reaches_spaces_none hhead)
  have hthousand : (Pattern.optional (.group Group.maxK thousand)).Reaches ∅ text text [] :=
    Pattern.reaches_optional_of_endsIn (Pattern.endsIn_group (endsIn_thousand htext))
  have hcode : (trailingCode u .curr3).Reaches ∅ text text [] :=
    reaches_trailingCode u (endsIn_currencyCode htext)
  have hper : perPeriod.EndsIn ∅ text :=
    (Pattern.endsIn_plain (endsIn_per htext).seq_of_empty).seq_of_empty
  have hperiod : (Pattern.optional (.seq (.plain spaces) perPeriod)).Reaches ∅ text text [] :=
    Pattern.reaches_optional_of_endsIn ((Pattern.endsIn_plain (endsIn_spaces_none hhead)).seq
      fun text' htext' => htext' ▸ hper)
  exact hspaces.next (hthousand.next (hspaces.next (hcode.next (hperiod.next
    (Pattern.reaches_plain Regex.reaches_empty)))))

/-- Without further digits the period is read. -/
theorem reaches_afterMax_period (hunit : unit ∈ units) :
    (afterMax u).Reaches ∅ (" per ".toList ++ unit.toList) [] [(.period, unit.toList)] := by
  have hspace : (Pattern.plain spaces : Pattern Group).Reaches ∅ (" per ".toList ++ unit.toList)
      ("per ".toList ++ unit.toList) [] :=
    Pattern.reaches_plain (reaches_spaces_one fun c hc => by cases hc; rfl)
  have hthousand : (Pattern.optional (.group Group.maxK thousand)).Reaches ∅
      ("per ".toList ++ unit.toList) ("per ".toList ++ unit.toList) [] :=
    Pattern.reaches_optional_of_endsIn (Pattern.endsIn_group
      (Regex.endsIn_satisfy_of_head fun c hc => by cases hc; rfl))
  have hspaces : (Pattern.plain spaces : Pattern Group).Reaches ∅ ("per ".toList ++ unit.toList)
      ("per ".toList ++ unit.toList) [] :=
    Pattern.reaches_plain (reaches_spaces_none fun c hc => by cases hc; rfl)
  have hcode : (trailingCode u .curr3).Reaches ∅ ("per ".toList ++ unit.toList)
      ("per ".toList ++ unit.toList) [] :=
    reaches_trailingCode u (endsIn_oneOf rfl)
  have hunitHead : ∀ c ∈ unit.toList.head?, isSpace c = false := by
    fin_cases hunit <;> (intro c hc; cases hc; rfl)
  have hword : per.Reaches ∅ ("per".toList ++ ' ' :: unit.toList) (' ' :: unit.toList) :=
    (reaches_folded rfl).left
  have hper : (Pattern.plain (.seq per spaces) : Pattern Group).Reaches ∅
      ("per ".toList ++ unit.toList) unit.toList [] :=
    Pattern.reaches_plain (hword.next (reaches_spaces_one hunitHead))
  have hname : (Pattern.group Group.period periodName).Reaches ∅ (unit.toList ++ []) []
      [(.period, unit.toList)] :=
    Pattern.reaches_group (reaches_periodName hunit)
  rw [List.append_nil] at hname
  have hperiod : (Pattern.optional (.seq (.plain spaces) perPeriod)).Reaches ∅
      ("per ".toList ++ unit.toList) [] [(.period, unit.toList)] :=
    (hspaces.next (hper.next hname)).left
  exact hspace.next (hthousand.next (hspaces.next (hcode.next (hperiod.next
    (Pattern.reaches_plain Regex.reaches_empty)))))

/-- What follows the first amount. -/
def afterMin : Pattern Group :=
  [.plain spaces, .optional (.group .minK thousand), .plain spaces, .plain dash, .plain spaces,
    .optional (.group .curr2 currency), .plain spaces, .group .max amount].foldr .seq (afterMax u)

theorem mem_digitTexts (hne : digits ≠ []) (hdigits : ∀ c ∈ digits, c.isDigit = true) :
    digits ++ rest ∈ digitTexts := by
  obtain ⟨c, digits, rfl⟩ := List.exists_cons_of_ne_nil hne
  exact ⟨c, rfl, hdigits c List.mem_cons_self⟩

theorem endsIn_currency (htext : text ∈ digitTexts) : currency.EndsIn ∅ text :=
  (endsIn_satisfy_of_isDigit htext (by decide)).alt (endsIn_currencyCode htext)

/-- The first amount is not followed by digits. -/
theorem endsIn_afterMin (htext : text ∈ digitTexts) : (afterMin u).EndsIn ∅ text := by
  have hspaces : (Pattern.plain spaces : Pattern Group).EndsIn {text} text :=
    Pattern.endsIn_plain (endsIn_spaces_none (head_of_digitTexts htext))
  have hthousand : (Pattern.optional (.group Group.minK thousand)).EndsIn {text} text :=
    Pattern.EndsIn.optional (Pattern.endsIn_group (endsIn_thousand htext)) rfl
  have hdash : (Pattern.plain dash : Pattern Group).EndsIn ∅ text :=
    Pattern.endsIn_plain (endsIn_dash htext)
  refine hspaces.seq fun text₁ htext₁ => ?_
  rw [htext₁]
  refine hthousand.seq fun text₂ htext₂ => ?_
  rw [htext₂]
  refine hspaces.seq fun text₃ htext₃ => ?_
  rw [htext₃]
  exact hdash.seq_of_empty

/-- At most three digits of the second amount are captured. -/
theorem reaches_afterMin {rest' : List Char} {captured : List (Group × List Char)}
    (hne : digits ≠ []) (hdigits : ∀ c ∈ digits, c.isDigit = true) (hrest : EndsAmount rest)
    (hafter : (afterMax u).Reaches ∅ (digits.drop 3 ++ rest) rest' captured) :
    (afterMin u).Reaches ∅ (" - ".toList ++ (digits ++ rest)) rest'
      (captured ++ [(.max, digits.take 3)]) := by
  have htext : digits ++ rest ∈ digitTexts := mem_digitTexts hne hdigits
  have hspace : (Pattern.plain spaces : Pattern Group).Reaches ∅
      (" - ".toList ++ (digits ++ rest)) ("- ".toList ++ (digits ++ rest)) [] :=
    Pattern.reaches_plain (reaches_spaces_one fun c hc => by cases hc; rfl)
  have hthousand : (Pattern.optional (.group Group.minK thousand)).Reaches ∅
      ("- ".toList ++ (digits ++ rest)) ("- ".toList ++ (digits ++ rest)) [] :=
    Pattern.reaches_optional_of_endsIn (Pattern.endsIn_group
      (Regex.endsIn_satisfy_of_head fun c hc => by cases hc; rfl))
  have hspaces : (Pattern.plain spaces : Pattern Group).Reaches ∅
      ("- ".toList ++ (digits ++ rest)) ("- ".toList ++ (digits ++ rest)) [] :=
    Pattern.reaches_plain (reaches_spaces_none fun c hc => by cases hc; rfl)
  have hdash : (Pattern.plain dash : Pattern Group).Reaches ∅
      ("- ".toList ++ (digits ++ rest)) (' ' :: (digits ++ rest)) [] :=
    Pattern.reaches_plain (Regex.reaches_satisfy rfl).left
  have hspace' : (Pattern.plain spaces : Pattern Group).Reaches ∅
      (' ' :: (digits ++ rest)) (digits ++ rest) [] :=
    Pattern.reaches_plain (reaches_spaces_one (head_of_digitTexts htext))
  have hcurr : (Pattern.optional (.group Group.curr2 currency)).Reaches ∅
      (digits ++ rest) (digits ++ rest) [] :=
    Pattern.reaches_optional_of_endsIn (Pattern.endsIn_group (endsIn_currency htext))
  have hspaces' : (Pattern.plain spaces : Pattern Group).Reaches ∅
      (digits ++ rest) (digits ++ rest) [] :=
    Pattern.reaches_plain (reaches_spaces_none (head_of_digitTexts htext))
  have hamount : amount.Reaches ∅ (digits.take 3 ++ (digits.drop 3 ++ rest))
      (digits.drop 3 ++ rest) := by
    rw [← List.append_assoc, List.take_append_drop]
    exact reaches_amount_short hne hdigits hrest
  have hmax : (Pattern.group Group.max amount).Reaches ∅ (digits ++ rest)
      (digits.drop 3 ++ rest) [(.max, digits.take 3)] := by
    have hgroup : (Pattern.group Group.max amount).Reaches ∅
        (digits.take 3 ++ (digits.drop 3 ++ rest)) (digits.drop 3 ++ rest)
        [(.max, digits.take 3)] :=
      Pattern.reaches_group hamount
    rwa [← List.append_assoc, List.take_append_drop] at hgroup
  have hall := hspace.next (hthousand.next (hspaces.next (hdash.next (hspace'.next
    (hcurr.next (hspaces'.next (hmax.next hafter)))))))
  simp only [List.append_nil] at hall
  exact hall

/-- What the range pattern captures of a code, two amounts and what follows them. -/
theorem reaches_salaryRangeRe {digits' rest' : List Char} {captured : List (Group × List Char)}
    (hcode : code ∈ currencies) (hne : digits ≠ [])
    (hdigits : ∀ c ∈ digits, c.isDigit = true) (hne' : digits' ≠ [])
    (hdigits' : ∀ c ∈ digits', c.isDigit = true) (hrest : EndsAmount rest)
    (hafter : (afterMax u).Reaches ∅ (digits'.drop 3 ++ rest) rest' captured) :
    (salaryRangeRe u).Reaches ∅
      (code.toList ++ ' ' :: (digits ++ (" - ".toList ++ (digits' ++ rest)))) rest'
      (captured ++ [(.max, digits'.take 3), (.min, digits), (.curr, code.toList)]) := by
  have htext : digits ++ (" - ".toList ++ (digits' ++ rest)) ∈ digitTexts :=
    mem_digitTexts hne hdigits
  have hcurr : (Pattern.optional (.group Group.curr currency)).Reaches ∅
      (code.toList ++ ' ' :: (digits ++ (" - ".toList ++ (digits' ++ rest))))
      (' ' :: (digits ++ (" - ".toList ++ (digits' ++ rest)))) [(.curr, code.toList)] :=
    (Pattern.reaches_group (reaches_currency hcode)).left
  have hspace : (Pattern.plain spaces : Pattern Group).Reaches ∅
      (' ' :: (digits ++ (" - ".toList ++ (digits' ++ rest))))
      (digits ++ (" - ".toList ++ (digits' ++ rest))) [] :=
    Pattern.reaches_plain (reaches_spaces_one (head_of_digitTexts htext))
  have hends : EndsAmount (" - ".toList ++ (digits' ++ rest)) := by
    intro c hc
    cases hc
    exact ⟨rfl, by decide, by decide⟩
  have hmin : (Pattern.group Group.min amount).Reaches digitTexts
      (digits ++ (" - ".toList ++ (digits' ++ rest))) (" - ".toList ++ (digits' ++ rest))
      [(.min, digits)] :=
    Pattern.reaches_group (reaches_amount hne hdigits hends)
  have hall := hcurr.next (hspace.next (hmin.seq (fun _ => endsIn_afterMin u)
    (reaches_afterMin u hne' hdigits' hrest hafter)))
  simp only [List.append_nil, List.append_assoc, List.singleton_append] at hall
  exact hall

end

end Salaries
end HireAndTech
