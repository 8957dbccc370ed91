import HireAndTech.Catalogue.Tables
import HireAndTech.Text.Urls

/-!
# URLs of listings

`normalize_url` folds the scheme and the network location of a URL, trims its path, and drops its
fragment and its tracking parameters.  The query is read without blank values, so a parameter whose
value is blank is dropped as well.

Main results:

- Definition {lit}`normalizeUrl`.
- Theorem {lit}`eq_iff_blankPlaces`: a list of parameters is known from those with a value and the
  places of the others.
- Theorem {lit}`normalized_urls_same_listing_iff`: when two URLs with one normal form are those of
  one listing.
-/

namespace HireAndTech
namespace Catalogue

open Text

variable (u : Unicode)

/-! ## Normalization -/

/-- The names of tracking parameters. -/
def isTracking (key : List Char) : Bool :=
  ["utm_", "trk", "ref"].any fun start => start.toList.isPrefixOf (u.casefold key)

/-- The parts of a URL without the spaces around it. -/
def splitUrl (url : String) : Option SplitResult :=
  urlsplit u (strip isSpace url.toList)

/-- The parts of a normalized URL. -/
def normalizeParts (parts : SplitResult) : SplitResult where
  scheme := u.casefold parts.scheme
  netloc := u.casefold parts.netloc
  path := parts.path.rdropWhile (· = '/')
  query := urlencode ((parseQsl false parts.query).filter fun pair => !isTracking u pair.1)
  fragment := []

/-- `normalize_url`; a `ValueError` is `none`. -/
def normalizeUrl (url : Option String) : Option (Option String) :=
  match url with
  | none => some none
  | some url =>
      if url = "" then some none
      else (splitUrl u url).map fun parts =>
        some (String.ofList (urlunsplit (normalizeParts u parts)))

/-! ## Listings -/

/-- The query parameters of a URL that are not there for tracking. -/
def listedParameters (parts : SplitResult) : List (List Char × List Char) :=
  (parseQsl true parts.query).filter fun pair => !isTracking u pair.1

/-- Two URLs of one listing.  Names and values are compared as `parse_qsl` decodes them. -/
structure SameListing (p q : SplitResult) : Prop where
  scheme : u.casefold p.scheme = u.casefold q.scheme
  netloc : u.casefold p.netloc = u.casefold q.netloc
  path : p.path.rdropWhile (· = '/') = q.path.rdropWhile (· = '/')
  parameters : listedParameters u p = listedParameters u q

/-- The parameters with a blank value, each with the number of parameters before it that have a
value. -/
def blankPlaces : ℕ → List (List Char × List Char) → List (ℕ × List Char)
  | _, [] => []
  | n, (name, value) :: pairs =>
      if value = [] then (n, name) :: blankPlaces n pairs else blankPlaces (n + 1) pairs

theorem le_of_mem_blankPlaces {n : ℕ} {pairs : List (List Char × List Char)} {place : ℕ × List Char}
    (h : place ∈ blankPlaces n pairs) : n ≤ place.1 := by
  induction pairs generalizing n with
  | nil => contradiction
  | cons pair pairs ih =>
      obtain ⟨name, value⟩ := pair
      unfold blankPlaces at h
      split at h
      · rcases List.mem_cons.mp h with rfl | h
        · exact le_rfl
        · exact ih h
      · have hlt := ih h
        omega

/-- A parameter with a value does not stand where a blank one does. -/
theorem cons_blankPlaces_ne {n : ℕ} {name : List Char} {places : List (ℕ × List Char)}
    {pairs : List (List Char × List Char)} : (n, name) :: places ≠ blankPlaces (n + 1) pairs := by
  intro h
  have hmem : (n, name) ∈ blankPlaces (n + 1) pairs := h ▸ List.mem_cons_self
  have hle := le_of_mem_blankPlaces hmem
  omega

/-- The parameters with a value and the places of the others determine a list of parameters. -/
theorem eq_iff_blankPlaces (n : ℕ) (ps qs : List (List Char × List Char)) :
    ps = qs ↔ (ps.filter fun pair => pair.2 ≠ []) = (qs.filter fun pair => pair.2 ≠ []) ∧
      blankPlaces n ps = blankPlaces n qs := by
  constructor
  · rintro rfl
    exact ⟨rfl, rfl⟩
  · rintro ⟨hvalues, hblank⟩
    induction ps generalizing n qs with
    | nil =>
        cases qs with
        | nil => rfl
        | cons q qs =>
            obtain ⟨name, value⟩ := q
            by_cases hvalue : value = []
            · simp [blankPlaces, hvalue] at hblank
            · simp [hvalue] at hvalues
    | cons p ps ih =>
        obtain ⟨name, value⟩ := p
        cases qs with
        | nil =>
            by_cases hvalue : value = []
            · simp [blankPlaces, hvalue] at hblank
            · simp [hvalue] at hvalues
        | cons q qs =>
            obtain ⟨name', value'⟩ := q
            by_cases hvalue : value = [] <;> by_cases hvalue' : value' = []
            · subst hvalue hvalue'
              simp only [blankPlaces, if_true, List.cons.injEq, Prod.mk.injEq, true_and] at hblank
              simp only [ne_eq, decide_not, List.filter_cons, decide_true, Bool.not_true,
                Bool.false_eq_true, if_false] at hvalues
              rw [hblank.1, ih n qs (by simpa using hvalues) hblank.2]
            · rw [blankPlaces, blankPlaces, if_pos hvalue, if_neg hvalue'] at hblank
              exact absurd hblank cons_blankPlaces_ne
            · rw [blankPlaces, blankPlaces, if_neg hvalue, if_pos hvalue'] at hblank
              exact absurd hblank.symm cons_blankPlaces_ne
            · rw [blankPlaces, blankPlaces, if_neg hvalue, if_neg hvalue'] at hblank
              rw [List.filter_cons_of_pos (by simpa using hvalue),
                List.filter_cons_of_pos (by simpa using hvalue'), List.cons.injEq] at hvalues
              rw [hvalues.1, ih (n + 1) qs hvalues.2 hblank]

/-! ## One normal form -/

/-- What the Unicode standard says of the case folding of texts that URLs consist of. -/
structure Folds : Prop where
  ascii : ∀ cs : List Char, (∀ c ∈ cs, c.toNat < 128) → u.casefold cs = cs.map Char.toLower
  delimiter : ∀ cs : List Char, ∀ c ∈ [':', '/', '?', '#'], c ∈ u.casefold cs → c ∈ cs

/-- The schemes of web pages. -/
def isHttp (parts : SplitResult) : Bool :=
  parts.scheme = "http".toList || parts.scheme = "https".toList

variable {u}

theorem Folds.scheme (hu : Folds u) {parts : SplitResult} (h : isHttp parts = true) :
    u.casefold parts.scheme = parts.scheme := by
  rw [isHttp, Bool.or_eq_true, decide_eq_true_eq, decide_eq_true_eq] at h
  rcases h with h | h
  · rw [h, hu.ascii "http".toList (by simp)]
    rfl
  · rw [h, hu.ascii "https".toList (by simp)]
    rfl

theorem isHttp_usesNetloc {parts : SplitResult} (h : isHttp parts = true) :
    parts.scheme ≠ [] ∧ parts.scheme ∈ usesNetloc := by
  rw [isHttp, Bool.or_eq_true, decide_eq_true_eq, decide_eq_true_eq] at h
  rcases h with h | h <;> rw [h] <;> decide

/-- Normalizing keeps the parts separated. -/
theorem Folds.separated (hu : Folds u) {parts : SplitResult} (h : parts.Separated) :
    (normalizeParts u parts).Separated where
  scheme := fun hmem => h.scheme (hu.delimiter _ _ (by simp) hmem)
  netloc := by
    intro c hc
    by_contra hdelimiter
    have hcases : c ∈ ['/', '?', '#'] := by
      simpa [isNetlocChar, or_iff_not_imp_left] using hdelimiter
    have hmem := hu.delimiter parts.netloc c (List.mem_cons_of_mem _ hcases) hc
    exact hdelimiter (h.netloc c hmem)
  path := fun hmem => h.path ((List.rdropWhile_prefix _ _).subset hmem)
  rooted := by
    intro hne
    have hnetloc : parts.netloc ≠ [] := by
      intro hnil
      apply hne
      simp [normalizeParts, hnil, hu.ascii]
    rcases h.rooted hnetloc with hpath | hpath
    · left
      simp [normalizeParts, hpath]
    · obtain ⟨rest, hrest⟩ := List.rdropWhile_prefix (· = '/') parts.path
      cases hcons : (normalizeParts u parts).path with
      | nil => exact Or.inl rfl
      | cons c path =>
          right
          simp only [normalizeParts] at hcons
          rw [hcons] at hrest
          rw [← hrest] at hpath
          exact hpath

theorem isHttp_normalizeParts (hu : Folds u) {parts : SplitResult} (h : isHttp parts = true) :
    isHttp (normalizeParts u parts) = true := by
  simp only [isHttp, normalizeParts, hu.scheme h]
  exact h

/-- URLs with one normal form have the same normalized parts. -/
theorem normalizeParts_eq (hu : Folds u) {a b : String} {p q : SplitResult}
    (ha : splitUrl u a = some p) (hb : splitUrl u b = some q) (hp : isHttp p = true)
    (hq : isHttp q = true) (h : normalizeUrl u (some a) = normalizeUrl u (some b)) :
    normalizeParts u p = normalizeParts u q := by
  have hne {c : String} {r : SplitResult} (hc : splitUrl u c = some r) (hr : isHttp r = true) :
      c ≠ "" := by
    rintro rfl
    have hscheme : r.scheme = [] := by
      unfold splitUrl urlsplit at hc
      simp only at hc
      split at hc
      next =>
        rw [Option.some.injEq] at hc
        rw [← hc]
        rfl
      next => cases hc
    exact (isHttp_usesNetloc hr).1 hscheme
  simp only [normalizeUrl, hne ha hp, hne hb hq, ha, hb, if_false, Option.map_some,
    Option.some.injEq] at h
  exact urlunsplit_injective (hu.separated (urlsplit_separated ha))
    (hu.separated (urlsplit_separated hb)) (isHttp_usesNetloc (isHttp_normalizeParts hu hp))
    (isHttp_usesNetloc (isHttp_normalizeParts hu hq)) rfl rfl (String.ofList_injective h)

/-- The parameters with a value are those that the normal form lists. -/
theorem filter_listedParameters (parts : SplitResult) :
    ((listedParameters u parts).filter fun pair => pair.2 ≠ []) =
      (parseQsl false parts.query).filter fun pair => !isTracking u pair.1 := by
  rw [listedParameters, parseQsl_nonblank, List.filter_comm]

/-- Two URLs with one normal form are those of one listing exactly when they have the same blank
parameters at the same places. -/
theorem normalized_urls_same_listing_iff (hu : Folds u) {a b : String} {p q : SplitResult}
    (ha : splitUrl u a = some p) (hb : splitUrl u b = some q) (hp : isHttp p = true)
    (hq : isHttp q = true) (h : normalizeUrl u (some a) = normalizeUrl u (some b)) :
    SameListing u p q ↔
      blankPlaces 0 (listedParameters u p) = blankPlaces 0 (listedParameters u q) := by
  have hparts := normalizeParts_eq hu ha hb hp hq h
  constructor
  · intro hsame
    rw [hsame.parameters]
  · intro hblank
    have hvalues : ((listedParameters u p).filter fun pair => pair.2 ≠ []) =
        (listedParameters u q).filter fun pair => pair.2 ≠ [] := by
      rw [filter_listedParameters, filter_listedParameters]
      exact urlencode_injective (congrArg SplitResult.query hparts)
    exact
      { scheme := congrArg SplitResult.scheme hparts
        netloc := congrArg SplitResult.netloc hparts
        path := congrArg SplitResult.path hparts
        parameters := (eq_iff_blankPlaces 0 _ _).mpr ⟨hvalues, hblank⟩ }

theorem folds_ascii : Folds Unicode.ascii where
  ascii := fun _ _ => rfl
  delimiter := by
    intro cs d hd hmem
    obtain ⟨c, hc, hlower⟩ := List.mem_map.mp hmem
    have hlt : d.toNat < 97 := by
      have hall : ∀ d ∈ [':', '/', '?', '#'], d.toNat < 97 := by simp
      exact hall d hd
    by_contra hne
    refine toLower_ne hlt ?_ hlower
    rintro rfl
    exact hne hc

/-- A listing with a tracking parameter, a fragment and a slash at its end. -/
theorem normalized_urls_same_listing_iff_tracked :
    ∃ p q : SplitResult,
      splitUrl Unicode.ascii "https://X.io/j?id=1" = some p ∧
        splitUrl Unicode.ascii " https://x.io/j/?trk=a&id=1#b" = some q ∧
        (SameListing Unicode.ascii p q ↔ blankPlaces 0 (listedParameters Unicode.ascii p) =
          blankPlaces 0 (listedParameters Unicode.ascii q)) := by
  refine ⟨⟨"https".toList, "X.io".toList, "/j".toList, "id=1".toList, []⟩,
    ⟨"https".toList, "x.io".toList, "/j/".toList, "trk=a&id=1".toList, "b".toList⟩,
    by decide, by decide, ?_⟩
  exact normalized_urls_same_listing_iff folds_ascii
    (a := "https://X.io/j?id=1")
    (b := " https://x.io/j/?trk=a&id=1#b") (by decide)
    (by decide) (by decide) (by decide) (by decide)

/-- Two listings that differ in a blank parameter have one normal form. -/
theorem blank_parameter_dropped :
    ∃ p q : SplitResult,
      splitUrl Unicode.ascii "https://jobs.example/view?id=" = some p ∧
        splitUrl Unicode.ascii "https://jobs.example/view" = some q ∧
        isHttp p = true ∧ isHttp q = true ∧
        normalizeUrl Unicode.ascii (some "https://jobs.example/view?id=") =
          normalizeUrl Unicode.ascii (some "https://jobs.example/view") ∧
        ¬SameListing Unicode.ascii p q := by
  refine ⟨⟨"https".toList, "jobs.example".toList, "/view".toList, "id=".toList, []⟩,
    ⟨"https".toList, "jobs.example".toList, "/view".toList, [], []⟩, by decide,
    by decide, by decide, by decide, by decide, ?_⟩
  intro hsame
  have hparameters := hsame.parameters
  revert hparameters
  decide

end Catalogue
end HireAndTech
