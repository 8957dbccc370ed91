import HireAndTech.Text.Forms

/-!
# JSON texts

The compact texts of {lit}`json.dumps` for values without numbers.  Characters outside ASCII stand
for themselves, and control characters, quotes and backslashes are escaped.

No text is the beginning of another one, so that a value can be read off the front of a text.

Main results:

- Definition {lit}`dumps`: the text of a value.
- Theorem {lit}`dumps_append`: what a text begins with determines the value and the rest.
- Theorem {lit}`dumps_injective`: values with one text are equal.
-/

namespace Text

/-! ## Strings -/

/-- The characters that stand for a character of a string. -/
def escape (c : Char) : List Char :=
  if c = '\\' then ['\\', '\\']
  else if c = '"' then ['\\', '"']
  else if c = '\n' then ['\\', 'n']
  else if c = '\r' then ['\\', 'r']
  else if c = '\t' then ['\\', 't']
  else if c = '\x0c' then ['\\', 'f']
  else if c = '\x08' then ['\\', 'b']
  else if c.toNat < 32 then
    ['\\', 'u', '0', '0', (c.toNat / 16).digitChar, (c.toNat % 16).digitChar]
  else [c]

/-- The character at the front of an escaped string. -/
def readEscaped : List Char → Option (Char × List Char)
  | '\\' :: 'n' :: rest => some ('\n', rest)
  | '\\' :: 'r' :: rest => some ('\r', rest)
  | '\\' :: 't' :: rest => some ('\t', rest)
  | '\\' :: 'f' :: rest => some ('\x0c', rest)
  | '\\' :: 'b' :: rest => some ('\x08', rest)
  | '\\' :: 'u' :: _ :: _ :: high :: low :: rest =>
      match hexValue high, hexValue low with
      | some m, some n => some (Char.ofNat (16 * m + n), rest)
      | _, _ => none
  | '\\' :: c :: rest => some (c, rest)
  | c :: rest => some (c, rest)
  | [] => none

theorem hexValue_digitChar {n : ℕ} (hn : n < 16) : hexValue n.digitChar = some n := by
  interval_cases n <;> rfl

theorem readEscaped_escape (c : Char) (rest : List Char) :
    readEscaped (escape c ++ rest) = some (c, rest) := by
  unfold escape
  split_ifs with hbackslash hquote hn hr ht hf hb hcontrol
  · rw [hbackslash]
    rfl
  · rw [hquote]
    rfl
  · rw [hn]
    rfl
  · rw [hr]
    rfl
  · rw [ht]
    rfl
  · rw [hf]
    rfl
  · rw [hb]
    rfl
  · have hhigh : c.toNat / 16 < 16 := by omega
    have hlow : c.toNat % 16 < 16 := by omega
    have hvalue : 16 * (c.toNat / 16) + c.toNat % 16 = c.toNat := Nat.div_add_mod _ _
    simp only [List.cons_append, List.nil_append, readEscaped, hexValue_digitChar hhigh,
      hexValue_digitChar hlow, hvalue, Char.ofNat_toNat]
  · rw [List.singleton_append]
    unfold readEscaped
    split <;> simp_all

/-- An escaped character does not begin with a quote. -/
theorem escape_append_ne (c : Char) (rest rest' : List Char) :
    escape c ++ rest ≠ '"' :: rest' := by
  unfold escape
  split_ifs with hbackslash hquote <;> simp_all

/-- The text of a string. -/
def dumpsStr (s : List Char) : List Char :=
  '"' :: (s.flatMap escape ++ ['"'])

/-- The closing quote of a string can be told apart. -/
theorem flatMap_escape_append {s t r r' : List Char}
    (h : s.flatMap escape ++ '"' :: r = t.flatMap escape ++ '"' :: r') : s = t ∧ r = r' := by
  induction s generalizing t with
  | nil =>
      cases t with
      | nil =>
          rw [List.flatMap_nil, List.nil_append, List.nil_append, List.cons.injEq] at h
          exact ⟨rfl, h.2⟩
      | cons d t =>
          rw [List.flatMap_nil, List.nil_append, List.flatMap_cons, List.append_assoc] at h
          exact absurd h.symm (escape_append_ne d _ _)
  | cons c s ih =>
      cases t with
      | nil =>
          rw [List.flatMap_nil, List.nil_append, List.flatMap_cons, List.append_assoc] at h
          exact absurd h (escape_append_ne c _ _)
      | cons d t =>
          rw [List.flatMap_cons, List.flatMap_cons, List.append_assoc, List.append_assoc] at h
          have hread := congrArg readEscaped h
          rw [readEscaped_escape, readEscaped_escape, Option.some_inj, Prod.mk.injEq] at hread
          obtain ⟨hs, hr⟩ := ih hread.2
          rw [hread.1, hs]
          exact ⟨rfl, hr⟩

theorem dumpsStr_append {s t r r' : List Char} (h : dumpsStr s ++ r = dumpsStr t ++ r') :
    s = t ∧ r = r' := by
  apply flatMap_escape_append
  simpa [dumpsStr] using h

/-! ## Values -/

/-- A JSON value without numbers; the fields of an object stand in their order. -/
inductive Json
  | null
  | bool (b : Bool)
  | str (s : List Char)
  | arr (items : List Json)
  | obj (fields : List (List Char × Json))

mutual

/-- `json.dumps` with the separators `,` and `:`. -/
def dumps : Json → List Char
  | .null => ['n', 'u', 'l', 'l']
  | .bool true => ['t', 'r', 'u', 'e']
  | .bool false => ['f', 'a', 'l', 's', 'e']
  | .str s => dumpsStr s
  | .arr [] => ['[', ']']
  | .arr (item :: items) => '[' :: (dumps item ++ dumpsItems items)
  | .obj [] => ['\x7b', '\x7d']
  | .obj ((key, value) :: fields) =>
      '\x7b' :: (dumpsStr key ++ ':' :: (dumps value ++ dumpsFields fields))

/-- The further items of an array. -/
def dumpsItems : List Json → List Char
  | [] => [']']
  | item :: items => ',' :: (dumps item ++ dumpsItems items)

/-- The further fields of an object. -/
def dumpsFields : List (List Char × Json) → List Char
  | [] => ['\x7d']
  | (key, value) :: fields => ',' :: (dumpsStr key ++ ':' :: (dumps value ++ dumpsFields fields))

end

/-- No text of a value begins with a closing bracket. -/
theorem dumps_head (v : Json) (r : List Char) :
    (dumps v ++ r).head? ≠ some ']' := by
  cases v with
  | null => simp [dumps]
  | bool b => cases b <;> simp [dumps]
  | str s => simp [dumps, dumpsStr]
  | arr items => cases items <;> simp [dumps]
  | obj fields => cases fields <;> simp [dumps]

mutual

/-- What a text begins with determines the value and the rest. -/
theorem dumps_append : ∀ {v w : Json} {r r' : List Char},
    dumps v ++ r = dumps w ++ r' → v = w ∧ r = r'
  | .null, w, r, r', h => by
      cases w with
      | null => simpa [dumps] using h
      | bool b => cases b <;> simp [dumps] at h
      | str s => simp [dumps, dumpsStr] at h
      | arr items => cases items <;> simp [dumps] at h
      | obj fields => cases fields <;> simp [dumps] at h
  | .bool b, w, r, r', h => by
      cases w with
      | null => cases b <;> simp [dumps] at h
      | bool b' => cases b <;> cases b' <;> simp_all [dumps]
      | str s => cases b <;> simp [dumps, dumpsStr] at h
      | arr items => cases b <;> cases items <;> simp [dumps] at h
      | obj fields => cases b <;> cases fields <;> simp [dumps] at h
  | .str s, w, r, r', h => by
      cases w with
      | null => simp [dumps, dumpsStr] at h
      | bool b => cases b <;> simp [dumps, dumpsStr] at h
      | str t =>
          obtain ⟨hs, hr⟩ := dumpsStr_append h
          rw [hs]
          exact ⟨rfl, hr⟩
      | arr items => cases items <;> simp [dumps, dumpsStr] at h
      | obj fields => cases fields <;> simp [dumps, dumpsStr] at h
  | .arr items, w, r, r', h => by
      cases w with
      | null => cases items <;> simp [dumps] at h
      | bool b => cases b <;> cases items <;> simp [dumps] at h
      | str s => cases items <;> simp [dumps, dumpsStr] at h
      | arr items' =>
          cases items with
          | nil =>
              cases items' with
              | nil => simpa [dumps] using h
              | cons item' items' =>
                  simp only [dumps, List.cons_append, List.cons.injEq, true_and,
                    List.nil_append, List.append_assoc] at h
                  exact absurd (congrArg List.head? h.symm) (dumps_head item' _)
          | cons item items =>
              cases items' with
              | nil =>
                  simp only [dumps, List.cons_append, List.cons.injEq, true_and,
                    List.nil_append, List.append_assoc] at h
                  exact absurd (congrArg List.head? h) (dumps_head item _)
              | cons item' items' =>
                  simp only [dumps, List.cons_append, List.cons.injEq, true_and,
                    List.append_assoc] at h
                  obtain ⟨hitem, hrest⟩ := dumps_append h
                  obtain ⟨hitems, hr⟩ := dumpsItems_append hrest
                  rw [hitem, hitems]
                  exact ⟨rfl, hr⟩
      | obj fields => cases items <;> cases fields <;> simp [dumps] at h
  | .obj fields, w, r, r', h => by
      cases w with
      | null => cases fields <;> simp [dumps] at h
      | bool b => cases b <;> cases fields <;> simp [dumps] at h
      | str s => cases fields <;> simp [dumps, dumpsStr] at h
      | arr items => cases items <;> cases fields <;> simp [dumps] at h
      | obj fields' =>
          cases fields with
          | nil =>
              cases fields' with
              | nil => simpa [dumps] using h
              | cons field' fields' => simp [dumps, dumpsStr] at h
          | cons field fields =>
              cases fields' with
              | nil => simp [dumps, dumpsStr] at h
              | cons field' fields' =>
                  obtain ⟨key, value⟩ := field
                  obtain ⟨key', value'⟩ := field'
                  simp only [dumps, List.cons_append, List.cons.injEq, true_and,
                    List.append_assoc] at h
                  obtain ⟨hkey, hvalue⟩ := dumpsStr_append h
                  rw [List.cons.injEq] at hvalue
                  obtain ⟨hvalue, hrest⟩ := dumps_append hvalue.2
                  obtain ⟨hfields, hr⟩ := dumpsFields_append hrest
                  rw [hkey, hvalue, hfields]
                  exact ⟨rfl, hr⟩

theorem dumpsItems_append : ∀ {items items' : List Json} {r r' : List Char},
    dumpsItems items ++ r = dumpsItems items' ++ r' → items = items' ∧ r = r'
  | [], [], r, r', h => by simpa [dumpsItems] using h
  | [], item' :: items', r, r', h => by simp [dumpsItems] at h
  | item :: items, [], r, r', h => by simp [dumpsItems] at h
  | item :: items, item' :: items', r, r', h => by
      simp only [dumpsItems, List.cons_append, List.cons.injEq, true_and, List.append_assoc] at h
      obtain ⟨hitem, hrest⟩ := dumps_append h
      obtain ⟨hitems, hr⟩ := dumpsItems_append hrest
      rw [hitem, hitems]
      exact ⟨rfl, hr⟩

theorem dumpsFields_append : ∀ {fields fields' : List (List Char × Json)} {r r' : List Char},
    dumpsFields fields ++ r = dumpsFields fields' ++ r' → fields = fields' ∧ r = r'
  | [], [], r, r', h => by simpa [dumpsFields] using h
  | [], field' :: fields', r, r', h => by simp [dumpsFields] at h
  | field :: fields, [], r, r', h => by simp [dumpsFields] at h
  | (key, value) :: fields, (key', value') :: fields', r, r', h => by
      simp only [dumpsFields, List.cons_append, List.cons.injEq, true_and,
        List.append_assoc] at h
      obtain ⟨hkey, hvalue⟩ := dumpsStr_append h
      rw [List.cons.injEq] at hvalue
      obtain ⟨hvalue, hrest⟩ := dumps_append hvalue.2
      obtain ⟨hfields, hr⟩ := dumpsFields_append hrest
      rw [hkey, hvalue, hfields]
      exact ⟨rfl, hr⟩

end

/-- Values with one text are equal. -/
theorem dumps_injective : Function.Injective dumps := by
  intro v w h
  have happend : dumps v ++ [] = dumps w ++ [] := congrArg (· ++ []) h
  exact (dumps_append happend).1

end Text
