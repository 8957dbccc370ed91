import Mathlib
import HireAndTech.Text.Forms

/-!
# Decoding of JSON texts

{lit}`JSONDecoder.raw_decode` and {lit}`json.loads`, as an automaton that reads a text character by
character.  Its state is what it expects next, with the stack of the arrays and objects that are
open.

A text that is no JSON is one error, and an integer with more digits than {lit}`int` converts is
another one.  A surrogate that stands alone is read as the replacement character.

Main results:

- Definitions {lit}`rawDecode` and {lit}`loads`.
- Theorem {lit}`rawDecode_append`: an object is read in the same way whatever follows it.
- Theorem {lit}`rawDecode_cut`: the beginning of an object is not read as an object.
- Theorem {lit}`loads_short`: the integers of a decoded value have few digits.
-/

namespace Text

/-! ## Values -/

/-- A floating-point number: its text, the decimal number that the text stands for if it is finite,
and the integer that it equals, if there is one. -/
structure Double where
  text : String
  decimal : Option ℚ
  whole : Option ℤ
  bounded : ∀ n ∈ whole, n.natAbs < 2 ^ 1024

/-- Floating-point numbers by their literals. -/
def literalDouble (literal : List Char) : Double :=
  ⟨String.ofList literal, none, none, by simp⟩

/-- A decoded value; the fields of an object stand in their order. -/
inductive JsonValue
  | null
  | bool (b : Bool)
  | int (n : ℤ)
  | float (x : Double)
  | str (s : String)
  | arr (items : List JsonValue)
  | obj (fields : List (String × JsonValue))

/-- `JSONDecodeError`, and the plain `ValueError` of `int`. -/
inductive DecodeError
  | malformed
  | digits
deriving DecidableEq, Repr

/-- `dict.__setitem__`. -/
def setField {α : Type} (key : String) (v : α) : List (String × α) → List (String × α)
  | [] => [(key, v)]
  | field :: fields =>
      if field.1 = key then (key, v) :: fields else field :: setField key v fields

/-! ## Numbers -/

/-- A part of a literal at the beginning of a text, and the rest. -/
abbrev Taken := List Char × List Char

def takeSign : List Char → Taken
  | '-' :: cs => (['-'], cs)
  | cs => ([], cs)

/-- `0|[1-9]\d*`. -/
def takeWhole : List Char → Taken
  | '0' :: cs => (['0'], cs)
  | cs => (cs.takeWhile Char.isDigit, cs.dropWhile Char.isDigit)

/-- `(\.\d+)?`. -/
def takeFraction : List Char → Taken
  | '.' :: cs =>
      if cs.takeWhile Char.isDigit = [] then ([], '.' :: cs)
      else ('.' :: cs.takeWhile Char.isDigit, cs.dropWhile Char.isDigit)
  | cs => ([], cs)

/-- `[+-]?`. -/
def takeExponentSign : List Char → Taken
  | '+' :: cs => (['+'], cs)
  | '-' :: cs => (['-'], cs)
  | cs => ([], cs)

/-- `([eE][+-]?\d+)?`. -/
def takeExponent : List Char → Taken
  | [] => ([], [])
  | e :: cs =>
      let (sign, digits) := takeExponentSign cs
      if (e = 'e' ∨ e = 'E') ∧ digits.takeWhile Char.isDigit ≠ [] then
        (e :: (sign ++ digits.takeWhile Char.isDigit), digits.dropWhile Char.isDigit)
      else ([], e :: cs)

/-- The characters of number literals. -/
def isNumberChar (c : Char) : Bool :=
  c.isDigit || c ∈ ['+', '-', '.', 'e', 'E']

variable (readFloat : List Char → Double)

/-- The number whose literal a text begins with, and the rest of the text. -/
def readNumber (token : List Char) : Except DecodeError (JsonValue × List Char) :=
  let (sign, cs) := takeSign token
  let (whole, cs) := takeWhole cs
  let (fraction, cs) := takeFraction cs
  let (exponent, cs) := takeExponent cs
  if whole = [] then .error .malformed
  else if fraction = [] ∧ exponent = [] then
    if 4300 < whole.length then .error .digits
    else
      let n : ℤ := Nat.ofDigitChars 10 whole 0
      .ok (.int (if sign = [] then n else -n), cs)
  else .ok (.float (readFloat (sign ++ whole ++ fraction ++ exponent)), cs)

/-! ## Strings -/

/-- The character of a code unit.  A lone surrogate is no character, and the replacement character
stands for it, also in the key of an object. -/
def charOfUnit (n : ℕ) : Char :=
  if 0xD800 ≤ n ∧ n < 0xE000 then replacement else Char.ofNat n

/-- The characters of code units, pairs of surrogates being joined. -/
def joinUnits : List ℕ → List Char
  | high :: low :: units =>
      if (0xD800 ≤ high ∧ high < 0xDC00) ∧ 0xDC00 ≤ low ∧ low < 0xE000 then
        Char.ofNat (0x10000 + (high - 0xD800) * 0x400 + (low - 0xDC00)) :: joinUnits units
      else charOfUnit high :: joinUnits (low :: units)
  | [n] => [charOfUnit n]
  | [] => []

/-- The character of a short escape. -/
def shortEscape (c : Char) : Option ℕ :=
  [('"', 0x22), ('\\', 0x5C), ('/', 0x2F), ('b', 0x08), ('f', 0x0C), ('n', 0x0A), ('r', 0x0D),
    ('t', 0x09)].lookup c

/-! ## The automaton -/

/-- An array or object that is open. -/
inductive Frame
  | arr (items : List JsonValue)
  | obj (fields : List (String × JsonValue)) (key : String)

/-- What is expected next, with what has been read of it.  Code units and the characters of a
number stand in reverse order. -/
inductive Mode
  | start
  | value
  | firstItem
  | firstKey
  | key
  | colon
  | after
  | text (units : List ℕ) (asKey : Bool)
  | escape (units : List ℕ) (asKey : Bool)
  | unicode (left n : ℕ) (units : List ℕ) (asKey : Bool)
  | number (token : List Char)
  | word (rest : List Char) (v : JsonValue)

/-- What one character leads to: another state, or a value with the characters that do not belong
to it, or an error. -/
inductive Outcome
  | more (mode : Mode) (stack : List Frame)
  | done (v : JsonValue) (leftover : List Char)
  | fail (e : DecodeError)

/-- `[ \t\n\r]`. -/
def isJsonSpace (c : Char) : Bool :=
  c ∈ [' ', '\t', '\n', '\r']

/-- A value that is complete, in the innermost array or object. -/
def Frame.add (v : JsonValue) : Frame → Frame
  | .arr items => .arr (items ++ [v])
  | .obj fields key => .obj (setField key v fields) key

/-- A value is complete. -/
def emit (v : JsonValue) : List Frame → Outcome
  | [] => .done v []
  | frame :: stack => .more .after (frame.add v :: stack)

/-- A string is complete. -/
def emitText (s : String) : Bool → List Frame → Outcome
  | true, .obj fields _ :: stack => .more .colon (.obj fields s :: stack)
  | _, stack => emit (.str s) stack

/-- The first character of a value. -/
def beginValue (c : Char) (stack : List Frame) : Outcome :=
  if c = '"' then .more (.text [] false) stack
  else if c = '\x7b' then .more .firstKey (.obj [] "" :: stack)
  else if c = '[' then .more .firstItem (.arr [] :: stack)
  else if c = 'n' then .more (.word "ull".toList .null) stack
  else if c = 't' then .more (.word "rue".toList (.bool true)) stack
  else if c = 'f' then .more (.word "alse".toList (.bool false)) stack
  else if c = 'N' then .more (.word "aN".toList (.float (readFloat "NaN".toList))) stack
  else if c = 'I' then .more (.word "nfinity".toList (.float (readFloat "Infinity".toList))) stack
  else if c = '-' ∨ c.isDigit then .more (.number [c]) stack
  else .fail .malformed

/-- The first character of a key. -/
def beginKey (c : Char) (stack : List Frame) : Outcome :=
  if c = '"' then .more (.text [] true) stack else .fail .malformed

/-- A character after a value of an array or object. -/
def afterValue (c : Char) : List Frame → Outcome
  | [] => .fail .malformed
  | .arr items :: stack =>
      if isJsonSpace c then .more .after (.arr items :: stack)
      else if c = ',' then .more .value (.arr items :: stack)
      else if c = ']' then emit (.arr items) stack
      else .fail .malformed
  | .obj fields key :: stack =>
      if isJsonSpace c then .more .after (.obj fields key :: stack)
      else if c = ',' then .more .key (.obj fields key :: stack)
      else if c = '\x7d' then emit (.obj fields) stack
      else .fail .malformed

/-- A character that does not belong to the number before it. -/
def endNumber (token : List Char) (stack : List Frame) (c : Char) : Outcome :=
  match readNumber readFloat token.reverse, stack with
  | .error e, _ => .fail e
  | .ok (v, leftover), [] => .done v (leftover ++ [c])
  | .ok (v, []), frame :: stack => afterValue c (frame.add v :: stack)
  | .ok (_, _ :: _), _ :: _ => .fail .malformed

/-- One character. -/
def Mode.step (mode : Mode) (stack : List Frame) (c : Char) : Outcome :=
  match mode with
  | .start => beginValue readFloat c stack
  | .value => if isJsonSpace c then .more .value stack else beginValue readFloat c stack
  | .firstItem =>
      if isJsonSpace c then .more .firstItem stack
      else if c = ']' then afterValue c stack
      else beginValue readFloat c stack
  | .firstKey =>
      if isJsonSpace c then .more .firstKey stack
      else if c = '\x7d' then afterValue c stack
      else beginKey c stack
  | .key => if isJsonSpace c then .more .key stack else beginKey c stack
  | .colon =>
      if isJsonSpace c then .more .colon stack
      else if c = ':' then .more .value stack
      else .fail .malformed
  | .after => afterValue c stack
  | .text units asKey =>
      if c = '"' then emitText (String.ofList (joinUnits units.reverse)) asKey stack
      else if c = '\\' then .more (.escape units asKey) stack
      else if c.toNat < 32 then .fail .malformed
      else .more (.text (c.toNat :: units) asKey) stack
  | .escape units asKey =>
      if c = 'u' then .more (.unicode 3 0 units asKey) stack
      else match shortEscape c with
        | some n => .more (.text (n :: units) asKey) stack
        | none => .fail .malformed
  | .unicode left n units asKey =>
      match left, hexValue c with
      | _, none => .fail .malformed
      | 0, some digit => .more (.text ((16 * n + digit) :: units) asKey) stack
      | left + 1, some digit => .more (.unicode left (16 * n + digit) units asKey) stack
  | .number token =>
      if isNumberChar c then .more (.number (c :: token)) stack
      else if c = 'I' ∧ token = ['-'] then
        .more (.word "nfinity".toList (.float (readFloat "-Infinity".toList))) stack
      else endNumber readFloat token stack c
  | .word rest v =>
      match rest with
      | [] => .fail .malformed
      | d :: ds =>
          if c ≠ d then .fail .malformed
          else if ds = [] then emit v stack
          else .more (.word ds v) stack

/-- The end of the text, which only ends numbers. -/
def Mode.finish (mode : Mode) (stack : List Frame) :
    Except DecodeError (JsonValue × List Char) :=
  match mode with
  | .number token =>
      match readNumber readFloat token.reverse with
      | .error e => .error e
      | .ok result => if stack.isEmpty then .ok result else .error .malformed
  | _ => .error .malformed

/-- The value that is read from a state on, and the text after it. -/
def Mode.run (mode : Mode) (stack : List Frame) :
    List Char → Except DecodeError (JsonValue × List Char)
  | [] => mode.finish readFloat stack
  | c :: cs =>
      match mode.step readFloat stack c with
      | .more mode' stack' => mode'.run stack' cs
      | .done v leftover => .ok (v, leftover ++ cs)
      | .fail e => .error e

/-- `JSONDecoder().raw_decode`, from the beginning of a text. -/
def rawDecode (text : List Char) : Except DecodeError (JsonValue × List Char) :=
  Mode.start.run readFloat [] text

/-- `json.loads`. -/
def loads (text : List Char) : Except DecodeError JsonValue :=
  match rawDecode readFloat (text.dropWhile isJsonSpace) with
  | .error e => .error e
  | .ok (v, rest) => if rest.all isJsonSpace then .ok v else .error .malformed

/-! ## Cut texts -/

def JsonValue.isObject : JsonValue → Bool
  | .obj _ => true
  | _ => false

section

variable {readFloat : List Char → Double} {mode : Mode} {stack : List Frame} {v w : JsonValue}
  {text rest cs : List Char} {c : Char}

theorem isObject_of_readNumber (h : readNumber readFloat text = .ok (v, rest)) :
    v.isObject = false := by
  simp only [readNumber] at h
  split_ifs at h <;> cases h <;> rfl

/-- The end of a text does not end an object. -/
theorem isObject_of_finish (h : mode.finish readFloat stack = .ok (v, rest)) :
    v.isObject = false := by
  cases mode with
  | number token =>
      simp only [Mode.finish] at h
      split at h
      · contradiction
      · rename_i result hresult
        split at h
        · cases h
          exact isObject_of_readNumber hresult
        · contradiction
  | _ => contradiction

/-- An object is read in the same way whatever follows it. -/
theorem Mode.run_append (h : mode.run readFloat stack text = .ok (v, []))
    (hv : v.isObject = true) : mode.run readFloat stack (text ++ rest) = .ok (v, rest) := by
  induction text generalizing mode stack with
  | nil =>
      have hfinish := isObject_of_finish h
      rw [hv] at hfinish
      contradiction
  | cons c text ih =>
      rw [List.cons_append, Mode.run]
      rw [Mode.run] at h
      cases hstep : mode.step readFloat stack c with
      | more mode' stack' =>
          rw [hstep] at h
          exact ih h
      | done w leftover =>
          rw [hstep] at h
          simp only [Except.ok.injEq, Prod.mk.injEq, List.append_eq_nil_iff] at h
          obtain ⟨rfl, rfl, rfl⟩ := h
          simp
      | fail e =>
          rw [hstep] at h
          contradiction

/-- The beginning of an object is not read as an object. -/
theorem Mode.run_cut (h : mode.run readFloat stack (text ++ c :: cs) = .ok (v, []))
    (hcut : mode.run readFloat stack text = .ok (w, rest)) : w.isObject = false := by
  induction text generalizing mode stack with
  | nil => exact isObject_of_finish hcut
  | cons d text ih =>
      rw [List.cons_append, Mode.run] at h
      rw [Mode.run] at hcut
      cases hstep : mode.step readFloat stack d with
      | more mode' stack' =>
          rw [hstep] at h hcut
          exact ih h hcut
      | done w' leftover =>
          rw [hstep] at h
          simp at h
      | fail e =>
          rw [hstep] at h
          contradiction

theorem rawDecode_append (h : rawDecode readFloat text = .ok (v, [])) (hv : v.isObject = true) :
    rawDecode readFloat (text ++ rest) = .ok (v, rest) :=
  Mode.run_append h hv

theorem rawDecode_cut (h : rawDecode readFloat (text ++ c :: cs) = .ok (v, []))
    (hcut : rawDecode readFloat text = .ok (w, rest)) : w.isObject = false :=
  Mode.run_cut h hcut

end

/-! ## Integers -/

/-- The integers of a value have at most 4300 digits. -/
inductive JsonValue.Short : JsonValue → Prop
  | null : Short .null
  | bool (b : Bool) : Short (.bool b)
  | int (n : ℤ) (h : n.natAbs < 10 ^ 4300) : Short (.int n)
  | float (x : Double) : Short (.float x)
  | str (s : String) : Short (.str s)
  | arr (items : List JsonValue) (h : ∀ v ∈ items, v.Short) : Short (.arr items)
  | obj (fields : List (String × JsonValue)) (h : ∀ field ∈ fields, field.2.Short) :
      Short (.obj fields)

/-- The values of an array or object that is open are short. -/
def Frame.Short : Frame → Prop
  | .arr items => ∀ v ∈ items, v.Short
  | .obj fields _ => ∀ field ∈ fields, field.2.Short

/-- The value of a word is short. -/
def Mode.Short : Mode → Prop
  | .word _ v => v.Short
  | _ => True

/-- A state keeps to short values. -/
def Outcome.Short : Outcome → Prop
  | .more mode stack => mode.Short ∧ ∀ frame ∈ stack, frame.Short
  | .done v _ => v.Short
  | .fail _ => True

section

variable {readFloat : List Char → Double} {mode : Mode} {stack : List Frame} {frame : Frame}
  {v : JsonValue} {text rest : List Char} {c : Char}

theorem mem_setField {α : Type} {key : String} {v : α} {fields : List (String × α)}
    {field : String × α} (h : field ∈ setField key v fields) :
    field = (key, v) ∨ field ∈ fields := by
  induction fields with
  | nil => exact Or.inl (List.mem_singleton.mp h)
  | cons first fields ih =>
      unfold setField at h
      split at h
      · rcases List.mem_cons.mp h with h | h
        · exact Or.inl h
        · exact Or.inr (List.mem_cons_of_mem first h)
      · rcases List.mem_cons.mp h with h | h
        · exact Or.inr (h ▸ List.mem_cons_self)
        · exact (ih h).imp id (List.mem_cons_of_mem first)

theorem isDigit_of_mem_takeWhole (h : c ∈ (takeWhole text).1) : c.isDigit = true := by
  unfold takeWhole at h
  split at h
  · rw [List.mem_singleton.mp h]
    rfl
  · exact List.mem_takeWhile_imp h

theorem short_of_readNumber (h : readNumber readFloat text = .ok (v, rest)) : v.Short := by
  simp only [readNumber] at h
  split_ifs at h with hwhole hint hdigits hsign <;> cases h
  all_goals try exact JsonValue.Short.float _
  all_goals
    have hdigit : ∀ c ∈ (takeWhole (takeSign text).2).1, c.isDigit = true :=
      fun c hc => isDigit_of_mem_takeWhole hc
    have hlt := ofDigitChars_lt hdigit
    apply JsonValue.Short.int
    simp only [Int.natAbs_neg, Int.natAbs_natCast]
    exact hlt.trans_le (Nat.pow_le_pow_right (by omega) (by omega))

theorem Frame.Short.add (hframe : frame.Short) (hv : v.Short) : (frame.add v).Short := by
  cases frame with
  | arr items =>
      intro w hw
      rcases List.mem_append.mp hw with hw | hw
      · exact hframe w hw
      · rwa [List.mem_singleton.mp hw]
  | obj fields key =>
      intro field hfield
      rcases mem_setField hfield with rfl | hfield
      · exact hv
      · exact hframe field hfield

theorem short_emit (hv : v.Short) (hstack : ∀ frame ∈ stack, frame.Short) :
    (emit v stack).Short := by
  cases stack with
  | nil => exact hv
  | cons frame stack =>
      refine ⟨trivial, List.forall_mem_cons.mpr ⟨?_, (List.forall_mem_cons.mp hstack).2⟩⟩
      exact (hstack frame List.mem_cons_self).add hv

theorem short_emitText (s : String) (asKey : Bool) (hstack : ∀ frame ∈ stack, frame.Short) :
    (emitText s asKey stack).Short := by
  unfold emitText
  split
  · rw [List.forall_mem_cons] at hstack
    exact ⟨trivial, List.forall_mem_cons.mpr ⟨hstack.1, hstack.2⟩⟩
  · exact short_emit (.str s) hstack

theorem short_beginValue (hstack : ∀ frame ∈ stack, frame.Short) :
    (beginValue readFloat c stack).Short := by
  have hobj : (Frame.obj [] "").Short := fun field h => absurd h List.not_mem_nil
  have harr : (Frame.arr []).Short := fun v h => absurd h List.not_mem_nil
  unfold beginValue
  split_ifs
  · exact ⟨trivial, hstack⟩
  · exact ⟨trivial, List.forall_mem_cons.mpr ⟨hobj, hstack⟩⟩
  · exact ⟨trivial, List.forall_mem_cons.mpr ⟨harr, hstack⟩⟩
  · exact ⟨.null, hstack⟩
  · exact ⟨.bool true, hstack⟩
  · exact ⟨.bool false, hstack⟩
  · exact ⟨.float _, hstack⟩
  · exact ⟨.float _, hstack⟩
  · exact ⟨trivial, hstack⟩
  · trivial

theorem short_beginKey (hstack : ∀ frame ∈ stack, frame.Short) : (beginKey c stack).Short := by
  unfold beginKey
  split_ifs
  · exact ⟨trivial, hstack⟩
  · trivial

theorem short_afterValue (hstack : ∀ frame ∈ stack, frame.Short) :
    (afterValue c stack).Short := by
  cases stack with
  | nil => trivial
  | cons frame stack =>
      obtain ⟨hframe, hmore⟩ := List.forall_mem_cons.mp hstack
      cases frame with
      | arr items =>
          simp only [afterValue]
          split_ifs
          · exact ⟨trivial, hstack⟩
          · exact ⟨trivial, hstack⟩
          · exact short_emit (.arr items hframe) hmore
          · trivial
      | obj fields key =>
          simp only [afterValue]
          split_ifs
          · exact ⟨trivial, hstack⟩
          · exact ⟨trivial, hstack⟩
          · exact short_emit (.obj fields hframe) hmore
          · trivial

theorem short_endNumber {token : List Char} (hstack : ∀ frame ∈ stack, frame.Short) :
    (endNumber readFloat token stack c).Short := by
  unfold endNumber
  split
  · trivial
  · rename_i hread
    exact short_of_readNumber hread
  · rename_i frame stack hread
    obtain ⟨hframe, hmore⟩ := List.forall_mem_cons.mp hstack
    apply short_afterValue
    exact List.forall_mem_cons.mpr ⟨hframe.add (short_of_readNumber hread), hmore⟩
  · trivial

theorem short_step (hmode : mode.Short) (hstack : ∀ frame ∈ stack, frame.Short) :
    (mode.step readFloat stack c).Short := by
  have hmore (mode' : Mode) (hmode' : mode'.Short) : (Outcome.more mode' stack).Short :=
    ⟨hmode', hstack⟩
  cases mode with
  | start => exact short_beginValue hstack
  | value =>
      simp only [Mode.step]
      split_ifs
      · exact hmore _ trivial
      · exact short_beginValue hstack
  | firstItem =>
      simp only [Mode.step]
      split_ifs
      · exact hmore _ trivial
      · exact short_afterValue hstack
      · exact short_beginValue hstack
  | firstKey =>
      simp only [Mode.step]
      split_ifs
      · exact hmore _ trivial
      · exact short_afterValue hstack
      · exact short_beginKey hstack
  | key =>
      simp only [Mode.step]
      split_ifs
      · exact hmore _ trivial
      · exact short_beginKey hstack
  | colon =>
      simp only [Mode.step]
      split_ifs
      · exact hmore _ trivial
      · exact hmore _ trivial
      · trivial
  | after => exact short_afterValue hstack
  | text units asKey =>
      simp only [Mode.step]
      split_ifs
      · exact short_emitText _ asKey hstack
      · exact hmore _ trivial
      · trivial
      · exact hmore _ trivial
  | escape units asKey =>
      simp only [Mode.step]
      split_ifs
      · exact hmore _ trivial
      · split
        · exact hmore _ trivial
        · trivial
  | unicode left n units asKey =>
      simp only [Mode.step]
      split
      · trivial
      · exact hmore _ trivial
      · exact hmore _ trivial
  | number token =>
      simp only [Mode.step]
      split_ifs
      · exact hmore _ trivial
      · exact hmore _ (.float _)
      · exact short_endNumber hstack
  | word rest w =>
      simp only [Mode.step]
      split
      · trivial
      · split_ifs
        · trivial
        · exact short_emit hmode hstack
        · exact hmore _ hmode

theorem short_run (hmode : mode.Short) (hstack : ∀ frame ∈ stack, frame.Short)
    (h : mode.run readFloat stack text = .ok (v, rest)) : v.Short := by
  induction text generalizing mode stack with
  | nil =>
      cases mode with
      | number token =>
          simp only [Mode.run, Mode.finish] at h
          split at h
          · contradiction
          · rename_i result hresult
            split at h
            · cases h
              exact short_of_readNumber hresult
            · contradiction
      | _ => contradiction
  | cons c text ih =>
      have hstep : (mode.step readFloat stack c).Short := short_step hmode hstack
      rw [Mode.run] at h
      cases houtcome : mode.step readFloat stack c with
      | more mode' stack' =>
          rw [houtcome] at h hstep
          exact ih hstep.1 hstep.2 h
      | done w leftover =>
          rw [houtcome] at h hstep
          cases h
          exact hstep
      | fail e =>
          rw [houtcome] at h
          contradiction

/-- The integers of a decoded value have few digits. -/
theorem loads_short (h : loads readFloat text = .ok v) : v.Short := by
  unfold loads at h
  split at h
  · contradiction
  · rename_i w rest hdecode
    split at h
    · cases h
      have hstart : Mode.start.Short := trivial
      exact short_run hstart (fun frame hframe => absurd hframe List.not_mem_nil) hdecode
    · contradiction

end

end Text
