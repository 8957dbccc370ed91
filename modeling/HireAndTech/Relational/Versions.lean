import HireAndTech.Relational.Table

/-!
# Row versions at READ COMMITTED

A table that several transactions work on: the committed rows, and the versions that
open transactions have written, each with the transaction that owns it.  A row has at
most one uncommitted version, whose owner holds the row lock.  A statement sees the
committed rows under the versions of its own transaction.

Main results:

- Theorem {lit}`lookup_overlay`: looking a row up under newer versions.
- Theorems {lit}`Versioned.lookup_visible`, {lit}`Versioned.version_write` and
  {lit}`Versioned.version_discard`: the table as two functions of the key.
- Theorems {lit}`Versioned.visible_cases` and {lit}`Versioned.lookup_commit_of_foreign`: what
  a statement sees, and what a commit leaves alone.
- Theorem {lit}`find?_overlay`: a search that newer versions answer like the rows they
  replace.
-/

namespace Relational

variable {α κ ι : Type} [DecidableEq κ]

/-! ## Lookup and overlay -/

/-- The value that an `UPDATE` leaves in one column: the assigned value when it differs
from the loaded one, and otherwise what the row has. -/
def flushed {β : Type} [DecidableEq β] (loaded assigned stored : β) : β :=
  if assigned = loaded then stored else assigned

/-- The row with a key. -/
def lookup (key : α → κ) (k : κ) (rows : List α) : Option α :=
  rows.find? fun x => key x = k

/-- Rows with newer versions of some of them, and with new rows at the end. -/
def overlay (key : α → κ) (versions rows : List α) : List α :=
  rows.map (fun x => (lookup key (key x) versions).getD x) ++
    versions.filter fun v => rows.all fun x => key x ≠ key v

section

variable {key : α → κ} {k : κ} {versions rows : List α} {x y : α}

theorem lookup_key (h : lookup key k rows = some x) : key x = k := by
  simpa using List.find?_some h

theorem mem_of_lookup (h : lookup key k rows = some x) : x ∈ rows :=
  List.mem_of_find?_eq_some h

theorem lookup_eq_none : lookup key k rows = none ↔ ∀ x ∈ rows, key x ≠ k := by
  simp [lookup]

/-- With a unique key the lookup finds every row. -/
theorem lookup_of_mem (h : Unique key rows) (hx : x ∈ rows) : lookup key (key x) rows = some x := by
  cases hfound : lookup key (key x) rows with
  | none => exact absurd rfl (lookup_eq_none.mp hfound x hx)
  | some y => rw [h.eq (mem_of_lookup hfound) hx (lookup_key hfound)]

/-- A version has the key of the row that it replaces. -/
theorem key_newest : key ((lookup key (key x) versions).getD x) = key x := by
  cases h : lookup key (key x) versions with
  | none => rfl
  | some v => exact lookup_key h

@[simp]
theorem overlay_nil : overlay key [] rows = rows := by
  simp [overlay, lookup]

/-- A search that a version answers like the row it replaces finds the newest version of
the row that it found before. -/
theorem find?_overlay {p : α → Bool} (hx : rows.find? p = some x)
    (hsame : ∀ y ∈ rows, ∀ v ∈ versions, key v = key y → p v = p y) :
    (overlay key versions rows).find? p = some ((lookup key (key x) versions).getD x) := by
  have hp : ∀ y ∈ rows, p ((lookup key (key y) versions).getD y) = p y := by
    intro y hy
    cases h : lookup key (key y) versions with
    | none => rfl
    | some v => exact hsame y hy v (mem_of_lookup h) (lookup_key h)
  have hfind : rows.find? (p ∘ fun y => (lookup key (key y) versions).getD y) = rows.find? p :=
    List.find?_congr fun y hy => hp y hy
  rw [overlay, List.find?_append, List.find?_map, hfind, hx]
  rfl

/-- Newer versions hide the rows that they replace. -/
theorem lookup_overlay :
    lookup key k (overlay key versions rows) = (lookup key k versions <|> lookup key k rows) := by
  cases hrows : lookup key k rows with
  | some x =>
      have hkey : key x = k := lookup_key hrows
      have hfound : (overlay key versions rows).find? (fun x => decide (key x = k)) =
          some ((lookup key (key x) versions).getD x) :=
        find?_overlay hrows fun y _ v _ hv => by simp [hv]
      rw [hkey] at hfound
      rw [lookup, hfound]
      cases lookup key k versions <;> rfl
  | none =>
      have hnone := lookup_eq_none.mp hrows
      have hnew : ∀ v : α, (decide (key v = k) && rows.all fun x => decide (key x ≠ key v)) =
          decide (key v = k) := by
        intro v
        by_cases hv : key v = k
        · subst hv
          simpa using hnone
        · simp [hv]
      have hold : (rows.map fun x => (lookup key (key x) versions).getD x).find?
          (fun x => decide (key x = k)) = none := by
        rw [List.find?_map, Option.map_eq_none_iff, List.find?_eq_none]
        intro x hx
        simp only [Function.comp_apply, key_newest, decide_eq_true_eq]
        exact hnone x hx
      rw [lookup, overlay, List.find?_append, hold, List.find?_filter]
      simp only [Bool.decide_and, Bool.decide_eq_true, Bool.and_comm, hnew]
      rw [Option.none_or, ← lookup]
      cases lookup key k versions <;> rfl

/-- Keys stay unique under newer versions. -/
theorem Unique.overlay (hrows : Unique key rows) (hversions : Unique key versions) :
    Unique key (overlay key versions rows) := by
  have hsame : (rows.map fun x => (lookup key (key x) versions).getD x).map key =
      rows.map key := by
    rw [List.map_map]
    exact List.map_congr_left fun x _ => key_newest
  rw [Unique, Relational.overlay, List.map_append, hsame, List.nodup_append]
  refine ⟨hrows, (List.Nodup.sublist (List.Sublist.map key List.filter_sublist) hversions), ?_⟩
  intro k hk k' hk' heq
  obtain ⟨x, hx, rfl⟩ := List.mem_map.mp hk
  obtain ⟨v, hv, rfl⟩ := List.mem_map.mp hk'
  have hall := (List.mem_filter.mp hv).2
  rw [List.all_eq_true] at hall
  exact of_decide_eq_true (hall x hx) heq

end

/-! ## Versioned tables -/

/-- A table with the uncommitted versions of its rows and their owners. -/
structure Versioned (key : α → κ) (ι : Type) where
  committed : List α
  uncommitted : List (ι × α)
  keys : Unique key committed
  exclusive : Unique (fun entry => key entry.2) uncommitted

namespace Versioned

variable {key : α → κ}

/-- The table without open transactions. -/
def initial (rows : List α) (keys : Unique key rows) : Versioned key ι where
  committed := rows
  uncommitted := []
  keys := keys
  exclusive := unique_nil

/-- The uncommitted version of a row, with its owner. -/
def version (t : Versioned key ι) (k : κ) : Option (ι × α) :=
  lookup (fun entry => key entry.2) k t.uncommitted

omit [DecidableEq κ] in
theorem exclusive_filter (t : Versioned key ι) (p : ι × α → Bool) :
    Unique (fun entry => key entry.2) (t.uncommitted.filter p) :=
  List.Nodup.sublist (List.Sublist.map _ List.filter_sublist) t.exclusive

/-- The newest version of a row. -/
def latest (t : Versioned key ι) (k : κ) : Option α :=
  (t.version k).map (·.2) <|> lookup key k t.committed

/-- Transaction {lit}`i` writes a row, which puts the row lock into its hands. -/
def write (t : Versioned key ι) (i : ι) (x : α) : Versioned key ι where
  committed := t.committed
  uncommitted := t.uncommitted.filter (fun entry => key entry.2 ≠ key x) ++ [(i, x)]
  keys := t.keys
  exclusive := (t.exclusive_filter _).insert fun _ hentry =>
    of_decide_eq_true (List.mem_filter.mp hentry).2

section

variable {t : Versioned key ι} {i j : ι} {k : κ} {x : α}

theorem version_key (h : t.version k = some (j, x)) : key x = k :=
  @lookup_key (ι × α) κ _ (fun entry => key entry.2) _ _ _ h

/-- Of the versions that pass a test, the one of a row. -/
theorem lookup_filter (p : ι × α → Bool) :
    lookup (fun entry => key entry.2) k (t.uncommitted.filter p) = (t.version k).filter p := by
  cases h : t.version k with
  | none =>
      rw [Option.filter_none, lookup_eq_none]
      intro entry hentry
      exact lookup_eq_none.mp h entry (List.mem_filter.mp hentry).1
  | some entry =>
      have hmem : entry ∈ t.uncommitted := mem_of_lookup h
      have hkey : key entry.2 = k := version_key h
      cases hp : p entry with
      | true =>
          rw [Option.filter_some_pos hp, ← hkey]
          exact lookup_of_mem (t.exclusive_filter p) (List.mem_filter.mpr ⟨hmem, hp⟩)
      | false =>
          rw [Option.filter_some_neg (by simp [hp]), lookup_eq_none]
          intro other hother hsame
          obtain ⟨hmem', hp'⟩ := List.mem_filter.mp hother
          rw [t.exclusive.eq hmem' hmem (hsame.trans hkey.symm), hp] at hp'
          contradiction

@[simp]
theorem version_initial {rows : List α} (keys : Unique key rows) :
    (initial rows keys : Versioned key ι).version k = none :=
  rfl

@[simp]
theorem committed_write : (t.write i x).committed = t.committed :=
  rfl

theorem version_write :
    (t.write i x).version k = if key x = k then some (i, x) else t.version k := by
  rw [version, write, lookup, List.find?_append, ← lookup, lookup_filter]
  by_cases hx : key x = k
  · subst hx
    have hnone : (t.version (key x)).filter (fun entry => decide (key entry.2 ≠ key x)) = none := by
      rw [Option.filter_eq_none_iff]
      intro entry hentry
      have hkey : key entry.2 = key x := version_key hentry
      simp [hkey]
    rw [hnone]
    simp
  · have hsame : (t.version k).filter (fun entry => decide (key entry.2 ≠ key x)) =
        t.version k := by
      cases h : t.version k with
      | none => rfl
      | some entry =>
          have hkey : key entry.2 = k := version_key h
          exact Option.filter_some_pos (decide_eq_true (hkey ▸ Ne.symm hx))
    rw [hsame]
    simp [hx]

end

/-! ## Transactions -/

variable [DecidableEq ι]

/-- The versions of one transaction. -/
def own (t : Versioned key ι) (i : ι) : List α :=
  (t.uncommitted.filter fun entry => entry.1 = i).map (·.2)

/-- The rows that a statement of transaction {lit}`i` sees. -/
def visible (t : Versioned key ι) (i : ι) : List α :=
  overlay key (t.own i) t.committed

/-- Another transaction holds the row lock. -/
def locked (t : Versioned key ι) (i : ι) (k : κ) : Bool :=
  (t.version k).any (·.1 ≠ i)

omit [DecidableEq κ] in
theorem own_keys (t : Versioned key ι) (i : ι) : Unique key (t.own i) := by
  rw [Unique, own, List.map_map]
  exact t.exclusive_filter _

/-- The versions of transaction {lit}`i` are dropped. -/
def discard (t : Versioned key ι) (i : ι) : Versioned key ι where
  committed := t.committed
  uncommitted := t.uncommitted.filter fun entry => entry.1 ≠ i
  keys := t.keys
  exclusive := t.exclusive_filter _

/-- The versions of transaction {lit}`i` become the committed ones. -/
def commit (t : Versioned key ι) (i : ι) : Versioned key ι where
  committed := t.visible i
  uncommitted := t.uncommitted.filter fun entry => entry.1 ≠ i
  keys := t.keys.overlay (t.own_keys i)
  exclusive := t.exclusive_filter _

section

variable {t : Versioned key ι} {i j : ι} {k : κ} {x : α}

theorem lookup_own : lookup key k (t.own i) = ((t.version k).filter (·.1 = i)).map (·.2) := by
  rw [← lookup_filter, lookup, own, List.find?_map]
  rfl

/-- What a statement of transaction {lit}`i` sees of one row. -/
theorem lookup_visible :
    lookup key k (t.visible i) =
      (((t.version k).filter (·.1 = i)).map (·.2) <|> lookup key k t.committed) := by
  rw [visible, lookup_overlay, lookup_own]

theorem mem_own : x ∈ t.own i ↔ t.version (key x) = some (i, x) := by
  constructor
  · intro hx
    obtain ⟨entry, hentry, rfl⟩ := List.mem_map.mp hx
    obtain ⟨hmem, howner⟩ := List.mem_filter.mp hentry
    have hfound : t.version (key entry.2) = some entry := lookup_of_mem t.exclusive hmem
    rw [hfound, ← of_decide_eq_true howner]
  · intro h
    exact List.mem_map.mpr ⟨(i, x), List.mem_filter.mpr ⟨mem_of_lookup h, decide_eq_true rfl⟩, rfl⟩

@[simp]
theorem committed_commit : (t.commit i).committed = t.visible i :=
  rfl

theorem version_discard : (t.discard i).version k = (t.version k).filter (·.1 ≠ i) :=
  lookup_filter _

theorem version_commit : (t.commit i).version k = (t.version k).filter (·.1 ≠ i) :=
  lookup_filter _

/-- What a statement sees of a row is its own version or the committed one. -/
theorem visible_cases (h : lookup key k (t.visible i) = some x) :
    t.version k = some (i, x) ∨ lookup key k t.committed = some x := by
  rw [lookup_visible] at h
  cases hversion : t.version k with
  | none =>
      rw [hversion] at h
      exact Or.inr h
  | some entry =>
      obtain ⟨j, y⟩ := entry
      rw [hversion] at h
      by_cases hj : j = i
      · subst hj
        simp only [Option.filter, decide_true, if_true, Option.map_some] at h
        exact Or.inl (by rw [← Option.some.inj h])
      · simp only [Option.filter, hj, decide_false, Bool.false_eq_true, if_false,
          Option.map_none] at h
        exact Or.inr h

/-- A row of which the transaction has no version is seen as it is committed. -/
theorem lookup_visible_of_foreign (h : ∀ x, t.version k ≠ some (i, x)) :
    lookup key k (t.visible i) = lookup key k t.committed := by
  rw [lookup_visible]
  cases hversion : t.version k with
  | none => rfl
  | some entry =>
      have hentry : entry.1 ≠ i := by
        intro hi
        apply h entry.2
        rw [hversion, ← hi]
      simp [Option.filter, hentry]

/-- The versions that the end of a transaction leaves. -/
theorem version_of_filter (h : (t.version k).filter (·.1 ≠ i) = some (j, x)) :
    t.version k = some (j, x) ∧ j ≠ i := by
  obtain ⟨hversion, hj⟩ := Option.filter_eq_some_iff.mp h
  exact ⟨hversion, of_decide_eq_true hj⟩

/-- A commit leaves the rows alone that others have written. -/
theorem lookup_commit_of_foreign (h : t.version k = some (j, x)) (hj : j ≠ i) :
    lookup key k (t.commit i).committed = lookup key k t.committed := by
  apply lookup_visible_of_foreign
  intro y hy
  rw [h] at hy
  cases hy
  exact hj rfl

/-- A row that no other transaction has locked is seen in its newest version. -/
theorem lookup_visible_of_unlocked (h : t.locked i k = false) :
    lookup key k (t.visible i) = t.latest k := by
  rw [lookup_visible, latest]
  cases hversion : t.version k with
  | none => rfl
  | some entry =>
      have hentry : entry.1 = i := by
        simpa [locked, hversion] using h
      simp [Option.filter, hentry]

/-- A transaction without versions sees the committed rows. -/
theorem visible_of_unwritten (h : ∀ k x, t.version k ≠ some (i, x)) :
    t.visible i = t.committed := by
  have hown : t.own i = [] := by
    rw [List.eq_nil_iff_forall_not_mem]
    intro x hx
    exact h _ x (mem_own.mp hx)
  rw [visible, hown, overlay_nil]

/-- What a transaction sees of a row depends on its version and on the committed row. -/
theorem lookup_visible_congr {t' : Versioned key ι}
    (hversion : ∀ x, t'.version k = some (i, x) ↔ t.version k = some (i, x))
    (hcommitted : lookup key k t'.committed = lookup key k t.committed) :
    lookup key k (t'.visible i) = lookup key k (t.visible i) := by
  by_cases hown : ∃ x, t.version k = some (i, x)
  · obtain ⟨x, hx⟩ := hown
    rw [lookup_visible, lookup_visible, hx, (hversion x).mpr hx]
    simp [Option.filter]
  · have hforeign : ∀ x, t.version k ≠ some (i, x) := fun x hx => hown ⟨x, hx⟩
    have hforeign' : ∀ x, t'.version k ≠ some (i, x) := fun x hx => hforeign x ((hversion x).mp hx)
    rw [lookup_visible_of_foreign hforeign, lookup_visible_of_foreign hforeign', hcommitted]

end

end Versioned

end Relational
