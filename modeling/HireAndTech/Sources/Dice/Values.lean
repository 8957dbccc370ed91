import HireAndTech.Salaries.Dice
import HireAndTech.Text.JsonDecoder

/-!
# Values of Dice postings

What the collector does with any value of a posting: whether it is taken to be true, the text that
{lit}`str` makes of it, and the mappings that are found in it.

The functions on salaries read a mapping without its lists and nulls.

Main results:

- Definitions {lit}`truthyValue`, {lit}`strValue` and {lit}`walkJson`.
- Definition {lit}`viewFields`: a mapping as the functions on salaries read it.
- Theorem {lit}`firstText_short`: the texts of decoded values can be written.
-/

namespace HireAndTech
namespace Sources
namespace Dice

open Text Catalogue Salaries

/-- What the collector calls of the runtime. -/
structure Platform where
  unicode : Unicode
  lower : List Char → List Char
  upper : List Char → List Char
  title : List Char → List Char
  readFloat : List Char → Double

/-- The members of an object. -/
abbrev Fields := List (String × JsonValue)

/-! ## Texts -/

/-- `bool(value)`. -/
def truthyValue : JsonValue → Bool
  | .null => false
  | .bool b => b
  | .int n => n ≠ 0
  | .float x => x.whole ≠ some 0
  | .str s => s ≠ ""
  | .arr items => !items.isEmpty
  | .obj fields => !fields.isEmpty

/-- The first of some values that is taken to be true. -/
def firstTruthy (values : List (Option JsonValue)) : Option JsonValue :=
  values.findSome? fun value => value.filter truthyValue

variable (u : Unicode)

/-- A character of `repr` of a string. -/
def reprChar (quote c : Char) : List Char :=
  if c = quote ∨ c = '\\' then ['\\', c]
  else if c = '\n' then ['\\', 'n']
  else if c = '\r' then ['\\', 'r']
  else if c = '\t' then ['\\', 't']
  else if 32 ≤ c.toNat ∧ c.toNat < 127 ∨ 127 < c.toNat ∧ u.isPrintable c then [c]
  else if c.toNat < 0x100 then '\\' :: 'x' :: hexDigits 2 c.toNat
  else if c.toNat < 0x10000 then '\\' :: 'u' :: hexDigits 4 c.toNat
  else '\\' :: 'U' :: hexDigits 8 c.toNat

/-- `repr` of a string. -/
def reprStr (s : String) : List Char :=
  let quote := if '\'' ∈ s.toList ∧ '"' ∉ s.toList then '"' else '\''
  quote :: (s.toList.flatMap (reprChar u quote) ++ [quote])

mutual

/-- `repr`. -/
def reprValue : JsonValue → List Char
  | .null => "None".toList
  | .bool true => "True".toList
  | .bool false => "False".toList
  | .int n => (toString n).toList
  | .float x => x.text.toList
  | .str s => reprStr u s
  | .arr items => '[' :: ((", ".toList).intercalate (reprItems items) ++ [']'])
  | .obj fields => '\x7b' :: ((", ".toList).intercalate (reprFields fields) ++ ['\x7d'])

def reprItems : List JsonValue → List (List Char)
  | [] => []
  | item :: items => reprValue item :: reprItems items

def reprFields : List (String × JsonValue) → List (List Char)
  | [] => []
  | (key, value) :: fields =>
      (reprStr u key ++ (": ".toList ++ reprValue value)) :: reprFields fields

end

/-- `str`. -/
def strValue : JsonValue → String
  | .str s => s
  | value => String.ofList (reprValue u value)

/-- `.strip()`. -/
def stripText (s : String) : String :=
  String.ofList (strip isSpace s.toList)

/-! ## Mappings -/

mutual

/-- `_walk_json`. -/
def walkJson : JsonValue → List Fields
  | .obj fields => fields :: walkFields fields
  | .arr items => walkItems items
  | _ => []

def walkItems : List JsonValue → List Fields
  | [] => []
  | item :: items => walkJson item ++ walkItems items

def walkFields : List (String × JsonValue) → List Fields
  | [] => []
  | (_, value) :: fields => walkJson value ++ walkFields fields

end

mutual

/-- A value as the functions on salaries read it. -/
def viewValue : JsonValue → Value
  | .null => .other
  | .bool b => .number (.bool b)
  | .int n => .number (.int n)
  | .float x => .number (.float x.whole x.text)
  | .str s => .str s
  | .arr _ => .other
  | .obj fields => .mapping (viewFields fields)

def viewFields : List (String × JsonValue) → Mapping
  | [] => []
  | (key, value) :: fields => (key, viewValue value) :: viewFields fields

end

/-- `isinstance(value.get(key), Mapping)`. -/
def mappingAt (fields : Fields) (key : String) : Option Fields :=
  match fields.lookup key with
  | some (.obj found) => some found
  | _ => none

/-- `isinstance(value.get(key), str)`. -/
def textAt (fields : Fields) (key : String) : Option String :=
  match fields.lookup key with
  | some (.str s) => some s
  | _ => none

section

variable {fields : Fields} {key : String}

theorem lookup_viewFields (fields : Fields) (key : String) :
    (viewFields fields).lookup key = (fields.lookup key).map viewValue := by
  induction fields with
  | nil => rfl
  | cons field fields ih =>
      obtain ⟨key', value⟩ := field
      rw [viewFields, List.lookup_cons, List.lookup_cons, ih]
      cases key == key' <;> rfl

/-- The integers of the members have at most 4300 digits. -/
def ShortFields (fields : Fields) : Prop :=
  ∀ field ∈ fields, field.2.Short

theorem mem_of_lookup {value : JsonValue} (h : fields.lookup key = some value) :
    (key, value) ∈ fields := by
  obtain ⟨before, after, rfl, _⟩ := List.lookup_eq_some_iff.mp h
  simp

theorem ShortFields.lookup (h : ShortFields fields) {value : JsonValue}
    (hvalue : fields.lookup key = some value) : value.Short :=
  h _ (mem_of_lookup hvalue)

theorem ShortFields.mappingAt (h : ShortFields fields) {found : Fields}
    (hfound : mappingAt fields key = some found) : ShortFields found := by
  unfold Dice.mappingAt at hfound
  split at hfound
  · rename_i heq
    cases hfound
    cases h.lookup heq with
    | obj _ hshort => exact hshort
  · contradiction

theorem strInt_of_lt {n : ℤ} (h : n.natAbs < 10 ^ 4300) : strInt n = .ok (toString n) := by
  have hlength : (Nat.toDigits 10 n.natAbs).length ≤ 4300 :=
    (Nat.length_toDigits_le_iff (by omega) (by omega)).mpr h
  rw [strInt, if_neg (by omega)]

/-- A number of a mapping can be written. -/
theorem str_short {value : JsonValue} (h : value.Short) {x : Number}
    (hx : viewValue value = .number x) : ∃ text, x.str = .ok text := by
  cases h with
  | int n hn =>
      cases hx
      exact ⟨_, strInt_of_lt hn⟩
  | bool b =>
      cases hx
      cases b <;> exact ⟨_, rfl⟩
  | float x' =>
      cases hx
      exact ⟨_, rfl⟩
  | _ => contradiction

theorem formatNumber_short {value : JsonValue} (h : value.Short) {x : Number}
    (hx : viewValue value = .number x) : ∃ text, formatNumber x = .ok text := by
  cases h with
  | int n hn =>
      cases hx
      exact ⟨_, strInt_of_lt hn⟩
  | bool b =>
      cases hx
      cases b <;> exact ⟨_, rfl⟩
  | float x' =>
      cases hx
      cases hwhole : x'.whole with
      | none => exact ⟨_, rfl⟩
      | some n =>
          have hlt := x'.bounded n hwhole
          have hle : 2 ^ 1024 ≤ 10 ^ 4300 :=
            (Nat.pow_le_pow_left (by omega) 1024).trans (Nat.pow_le_pow_right (by omega) (by omega))
          exact ⟨_, strInt_of_lt (hlt.trans_le hle)⟩
  | _ => contradiction

/-- The texts of decoded values can be written. -/
theorem firstText_short (h : ShortFields fields) (keys : List String) :
    ∃ text, firstText (viewFields fields) keys = .ok text := by
  induction keys with
  | nil => exact ⟨none, rfl⟩
  | cons key keys ih =>
      obtain ⟨more, hmore⟩ := ih
      rw [firstText, lookup_viewFields]
      cases hvalue : fields.lookup key with
      | none => exact ⟨more, hmore⟩
      | some value =>
          rw [Option.map_some]
          cases hview : viewValue value with
          | number x =>
              obtain ⟨text, htext⟩ := str_short (h.lookup hvalue) hview
              exact ⟨some text, by simp [htext, Except.map]⟩
          | str s =>
              by_cases hs : joinSplit s ≠ ""
              · exact ⟨some (joinSplit s), by simp only [if_pos hs]⟩
              · exact ⟨more, by simpa only [if_neg hs] using hmore⟩
          | mapping _ => exact ⟨more, hmore⟩
          | other => exact ⟨more, hmore⟩

/-- Where the amounts of a base salary stand. -/
def sourceOf (baseSalary : Fields) : Fields :=
  (mappingAt baseSalary "value").getD baseSalary

theorem salarySource_viewFields (baseSalary : Fields) :
    salarySource (viewFields baseSalary) = viewFields (sourceOf baseSalary) := by
  rw [salarySource, lookup_viewFields, sourceOf, mappingAt]
  cases baseSalary.lookup "value" with
  | none => rfl
  | some value => cases value <;> rfl

theorem ShortFields.sourceOf (h : ShortFields fields) : ShortFields (sourceOf fields) := by
  unfold Dice.sourceOf
  cases hfound : Dice.mappingAt fields "value" with
  | none => exact h
  | some found => exact h.mappingAt hfound

/-- A number of a mapping can be formatted. -/
theorem formatNumber_numberOf (h : ShortFields fields) {x : Number}
    (hx : numberOf ((viewFields fields).lookup key) = some x) :
    ∃ text, formatNumber x = .ok text := by
  rw [lookup_viewFields] at hx
  cases hvalue : fields.lookup key with
  | none =>
      rw [hvalue] at hx
      contradiction
  | some value =>
      rw [hvalue, Option.map_some] at hx
      unfold numberOf at hx
      split at hx
      · rename_i heq
        cases hx
        exact formatNumber_short (h.lookup hvalue) (Option.some.inj heq)
      · contradiction

/-- The salaries of decoded values can be written. -/
theorem extractSalary_short (h : ShortFields fields) (lower : List Char → List Char) :
    ∃ text, extractSalary lower (viewFields fields) = .ok text := by
  obtain ⟨direct, hdirect⟩ := firstText_short h ["salary", "salaryText"]
  have hamount : ∀ baseSalary, mappingAt fields "baseSalary" = some baseSalary →
      ∃ amount, amountText (viewFields (sourceOf baseSalary)) = .ok amount := by
    intro baseSalary hbase
    have hshort := (h.mappingAt hbase).sourceOf
    unfold amountText
    split
    · rename_i low high _ hlow hhigh
      obtain ⟨lowText, hlowText⟩ := formatNumber_numberOf hshort hlow
      obtain ⟨highText, hhighText⟩ := formatNumber_numberOf hshort hhigh
      exact ⟨_, by rw [hlowText, hhighText]; rfl⟩
    · rename_i low _ hlow _
      obtain ⟨lowText, hlowText⟩ := formatNumber_numberOf hshort hlow
      exact ⟨_, by rw [hlowText]; rfl⟩
    · rename_i high _ _ hhigh
      obtain ⟨highText, hhighText⟩ := formatNumber_numberOf hshort hhigh
      exact ⟨_, by rw [hhighText]; rfl⟩
    · rename_i exact _ _ hexact
      obtain ⟨text, htext⟩ := formatNumber_numberOf hshort hexact
      exact ⟨_, by rw [htext]; rfl⟩
    · exact ⟨none, rfl⟩
  have hbind {α β : Type} (a : α) (f : α → Except Salaries.ValueError β) :
      (Except.ok a >>= f) = f a := rfl
  rw [extractSalary, hdirect, lookup_viewFields, hbind]
  by_cases htruthy : truthy direct = true
  · exact ⟨direct, by rw [if_pos htruthy]; rfl⟩
  · rw [if_neg htruthy]
    cases hbase : fields.lookup "baseSalary" with
    | none => exact ⟨none, rfl⟩
    | some value =>
        cases value with
        | obj baseSalary =>
            obtain ⟨amount, hamount⟩ := hamount baseSalary (by rw [mappingAt, hbase])
            rw [← salarySource_viewFields] at hamount
            simp only [Option.map_some, viewValue, hamount, hbind]
            cases amount with
            | none => exact ⟨none, rfl⟩
            | some amount => exact ⟨_, rfl⟩
        | _ => exact ⟨none, rfl⟩

end

end Dice
end Sources
end HireAndTech
