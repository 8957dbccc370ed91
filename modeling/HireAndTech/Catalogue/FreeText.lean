import HireAndTech.Catalogue.Query
import HireAndTech.Text.Like

/-!
# Free-text filters

A search puts the query and the location of its user between percent signs and hands them to
`ILIKE`, which gives the percent sign, the underscore and the backslash a meaning of their own.

Main results:

- Definition {lit}`ilike`: the pattern match without regard to case.
- Theorem {lit}`ilike_containing_iff`: a text without special characters is searched for.
- Theorem {lit}`free_text_iff`: when the filters mean that a text contains another.
-/

namespace HireAndTech
namespace Catalogue

open Like

/-! ## Matching without regard to case -/

/-- A conversion of characters to lower case, which leaves special characters apart. -/
structure CaseFold where
  lower : Char → Char
  special : ∀ c x, isSpecial c = true → (lower x = c ↔ x = c)

variable (fold : CaseFold)

/-- The characters of a text in lower case. -/
def CaseFold.chars (text : String) : List Char :=
  text.toList.map fold.lower

/-- `value ILIKE pattern`. -/
def ilike (value pattern : String) : Bool :=
  like (fold.chars value) (fold.chars pattern)

/-- The value contains the text without regard to case. -/
def ContainsText (value text : String) : Prop :=
  fold.chars text <:+: fold.chars value

instance (value text : String) : Decidable (ContainsText fold value text) := by
  unfold ContainsText
  infer_instance

/-- None of the characters has a meaning in patterns. -/
def IsPlain (text : String) : Prop :=
  ∀ c ∈ text.toList, isSpecial c = false

instance (text : String) : Decidable (IsPlain text) :=
  List.decidableBAll (fun c => isSpecial c = false) text.toList

section

variable {fold}

theorem isSpecial_lower (c : Char) : isSpecial (fold.lower c) = isSpecial c := by
  simp only [isSpecial, fold.special '%' c rfl, fold.special '_' c rfl, fold.special '\\' c rfl]

/-- The pattern that a search makes of a text. -/
theorem chars_containing (text : String) :
    fold.chars ("%" ++ text ++ "%") = containing (fold.chars text) := by
  have hpercent : fold.lower '%' = '%' := (fold.special '%' '%' rfl).mpr rfl
  simp [CaseFold.chars, containing, hpercent]

theorem isPlain_chars {text : String} :
    (∀ c ∈ fold.chars text, isSpecial c = false) ↔ IsPlain text := by
  simp [CaseFold.chars, IsPlain, isSpecial_lower]

/-- A text without special characters is searched for as it stands. -/
theorem ilike_containing_iff {value text : String} (h : IsPlain text) :
    ilike fold value ("%" ++ text ++ "%") = true ↔ ContainsText fold value text := by
  rw [ilike, chars_containing]
  exact like_containing (isPlain_chars.mpr h)

/-- A value that a text finds. -/
def found (text : String) : String :=
  String.ofList (sample 'x' text.toList)

theorem sample_map (query : List Char) :
    (sample 'x' query).map fold.lower = sample (fold.lower 'x') (query.map fold.lower) := by
  have hspecial : ∀ c, isSpecial c = true → fold.lower c = c := fun c hc =>
    (fold.special c c hc).mpr rfl
  induction query using sample.induct with
  | case1 => rfl
  | case2 => simp [sample, hspecial '\\' rfl, hspecial '%' rfl]
  | case3 c rest ih => simp [sample, hspecial '\\' rfl, ih]
  | case4 rest ih => simp [sample, hspecial '%' rfl, ih]
  | case5 rest ih => simp [sample, hspecial '_' rfl, ih]
  | case6 c rest hlast hescape hpercent hunderscore ih =>
      have hplain : isSpecial c = false := by
        cases rest <;> simp_all [isSpecial]
      rw [sample_cons _ hplain, List.map_cons, List.map_cons,
        sample_cons _ ((isSpecial_lower c).trans hplain), ih]

theorem chars_found (text : String) :
    fold.chars (found text) = sample (fold.lower 'x') (fold.chars text) := by
  rw [CaseFold.chars, found, String.toList_ofList]
  exact sample_map text.toList

theorem ilike_found (text : String) :
    ilike fold (found text) ("%" ++ text ++ "%") = true := by
  rw [ilike, chars_containing, chars_found]
  exact like_sample _ _

/-- A text finds more than what contains it when it has a special character. -/
theorem containsText_found_iff (fold : CaseFold) (text : String) :
    ContainsText fold (found text) text ↔ IsPlain text := by
  have hfiller : fold.lower 'x' ≠ '_' := by
    rw [ne_eq, fold.special '_' 'x' rfl]
    decide
  rw [ContainsText, chars_found, infix_sample_iff hfiller]
  exact isPlain_chars

end

/-! ## The filters of a search -/

/-- A value is present and contains the text. -/
def SomeContains (value : Option String) (text : String) : Prop :=
  ∃ v ∈ value, ContainsText fold v text

instance (value : Option String) (text : String) : Decidable (SomeContains fold value text) := by
  unfold SomeContains
  infer_instance

/-- An active job with an active observation, whose title, company or description contains the
query, and whose location contains the location. -/
def Mentions (db : Database) (query location : String) (j : CanonicalJob) : Prop :=
  j.isActive = true ∧ hasMatchingSource db.observations none j = true ∧
    (ContainsText fold j.title query ∨
      SomeContains fold ((companyOf db j).map (·.name)) query ∨
      SomeContains fold j.description query) ∧
    SomeContains fold j.location location

instance (db : Database) (query location : String) (j : CanonicalJob) :
    Decidable (Mentions fold db query location j) := by
  unfold Mentions
  infer_instance

/-- In every state of the catalogue all pages of the search together list exactly the jobs
that mention the texts. -/
def FindsMentions (sql : Sql) (query location : String) : Prop :=
  ∀ (db : KeyedDatabase) (pageSize : Nat), 1 ≤ pageSize →
    ((allPages sql db.toDatabase { query := some query, location := some location }
        pageSize).map (·.id)).Perm
      ((db.jobs.filter fun j => Mentions fold db.toDatabase query location j).map (·.id))

section

variable {fold} {sql : Sql} {db : Database} {query location : String}

theorem matchesPattern_iff (hilike : sql.ilike = ilike fold) {text : String} (h : IsPlain text)
    (value : Option String) :
    sql.matchesPattern value ("%" ++ text ++ "%") = true ↔ SomeContains fold value text := by
  cases value with
  | none => simp [Sql.matchesPattern, SomeContains]
  | some v => simp [Sql.matchesPattern, SomeContains, hilike, ilike_containing_iff h]

/-- For texts without special characters a match is a mention. -/
theorem isMatch_iff (hilike : sql.ilike = ilike fold) (hquery : query ≠ "")
    (hlocation : location ≠ "") (hplain : IsPlain query) (hplain' : IsPlain location)
    (j : CanonicalJob) :
    isMatch sql db { query := some query, location := some location } j = true ↔
      Mentions fold db query location j := by
  have htitle : sql.ilike j.title ("%" ++ query ++ "%") = true ↔
      ContainsText fold j.title query := by
    rw [hilike]
    exact ilike_containing_iff hplain
  simp only [isMatch, searchPredicate, whenText, truthy, Bool.and_eq_true, Bool.or_eq_true,
    Option.all_some, htitle, matchesPattern_iff hilike hplain, matchesPattern_iff hilike hplain',
    Mentions]
  simp [hquery, hlocation, or_assoc, and_assoc]

/-- An opening that the filters find. -/
def foundOpening (query location : String) : CanonicalJob :=
  { opening 1 (found query) "" "" 5 with location := some (found location) }

/-- The catalogue with that opening alone. -/
def foundCatalogue (query location : String) : KeyedDatabase where
  companies := []
  jobs := [foundOpening query location]
  observations := [createdSource 2 (.bare "dice" "a1" "" "" "") (foundOpening query location) 5]
  jobIds := List.nodup_singleton _
  companyIds := List.nodup_nil

theorem isMatch_found (hilike : sql.ilike = ilike fold) (hquery : query ≠ "")
    (hlocation : location ≠ "") :
    isMatch sql (foundCatalogue query location).toDatabase
      { query := some query, location := some location } (foundOpening query location) = true := by
  have htitle : sql.ilike (found query) ("%" ++ query ++ "%") = true := by
    rw [hilike]
    exact ilike_found query
  have hplace : sql.ilike (found location) ("%" ++ location ++ "%") = true := by
    rw [hilike]
    exact ilike_found location
  simp [isMatch, searchPredicate, whenText, truthy, foundOpening, opening, createdJob,
    NormalizedJob.bare, hasMatchingSource, foundCatalogue, createdSource, Sql.matchesPattern,
    htitle, hplace, hquery, hlocation]

end

/-- The free-text filters find exactly the mentions of their texts when none of the characters
has a meaning in patterns, and only then. -/
theorem free_text_iff (sql : Sql) (hilike : sql.ilike = ilike fold) (query location : String)
    (hquery : query ≠ "") (hlocation : location ≠ "") :
    FindsMentions fold sql query location ↔ IsPlain query ∧ IsPlain location := by
  constructor
  · intro h
    have hpages := h (foundCatalogue query location) 1 le_rfl
    have hmatches := (search_paginates sql (foundCatalogue query location)
      { query := some query, location := some location } 1 le_rfl)
    rw [hmatches.1] at hpages
    have hperm := hmatches.2.2.1.symm.trans hpages
    have hmatching : matchingJobs sql (foundCatalogue query location).toDatabase
        { query := some query, location := some location } = [foundOpening query location] :=
      List.filter_cons_of_pos (isMatch_found hilike hquery hlocation)
    rw [hmatching] at hperm
    have hmentions : Mentions fold (foundCatalogue query location).toDatabase query location
        (foundOpening query location) := by
      have hmem := hperm.mem_iff.mp (List.mem_singleton.mpr rfl)
      obtain ⟨j, hj, _⟩ := List.mem_map.mp hmem
      obtain ⟨hjobs, hmentions⟩ := List.mem_filter.mp hj
      rw [List.mem_singleton.mp hjobs] at hmentions
      exact of_decide_eq_true hmentions
    obtain ⟨_, _, htitle, hplace⟩ := hmentions
    constructor
    · rw [← containsText_found_iff fold]
      simpa [SomeContains, companyOf, foundCatalogue, foundOpening, opening, createdJob,
        NormalizedJob.bare] using htitle
    · rw [← containsText_found_iff fold]
      simpa [SomeContains, foundOpening] using hplace
  · rintro ⟨hplain, hplain'⟩ db pageSize hsize
    have hmatches := search_paginates sql db { query := some query, location := some location }
      pageSize hsize
    rw [hmatches.1]
    apply hmatches.2.2.1.trans
    apply List.Perm.of_eq
    congr 1
    apply List.filter_congr
    intro j _
    rw [Bool.eq_iff_iff, isMatch_iff hilike hquery hlocation hplain hplain', decide_eq_true_eq]

/-- The small letters are no special characters. -/
theorem toNat_toLower {x : Char} (h : x.val ≥ 'A'.val ∧ x.val ≤ 'Z'.val) :
    97 ≤ x.toLower.toNat := by
  have hlow : 65 ≤ x.val.toNat := h.1
  have hhigh : x.val.toNat ≤ 90 := h.2
  have hval : x.toLower.toNat = x.val.toNat + 32 := by
    rw [Char.toLower, dif_pos h]
    change (x.val + 32).toNat = _
    rw [UInt32.toNat_add]
    apply Nat.mod_eq_of_lt
    change x.val.toNat + 32 < 2 ^ 32
    omega
  omega

/-- The capital letters of ASCII fold. -/
def asciiFold : CaseFold where
  lower := Char.toLower
  special c x hc := by
    simp only [isSpecial, Bool.or_eq_true, decide_eq_true_eq] at hc
    constructor
    · intro h
      by_cases hcapital : x.val ≥ 'A'.val ∧ x.val ≤ 'Z'.val
      · have hrange := toNat_toLower hcapital
        rw [h] at hrange
        rcases hc with (rfl | rfl) | rfl <;> exact absurd hrange (by decide)
      · rwa [Char.toLower, dif_neg hcapital] at h
    · rintro rfl
      rcases hc with (rfl | rfl) | rfl <;> rfl

/-- Texts match without regard to the case of ASCII letters. -/
def asciiSql : Sql :=
  { plainSql with ilike := ilike asciiFold }

/-- A query and a location without special characters. -/
theorem free_text_iff_words : FindsMentions asciiFold asciiSql "engineer" "Austin" :=
  (free_text_iff asciiFold asciiSql rfl "engineer" "Austin" (by decide) (by decide)).mpr
    (by decide)

/-- One opening whose title has a number. -/
def numberedOpening : KeyedDatabase where
  companies := []
  jobs := [{ opening 1 "Engineer 1000" "engineer 1000" "backend" 5 with location := some "Austin" }]
  observations :=
    [createdSource 2 (.bare "dice" "a1" "" "" "")
      (opening 1 "Engineer 1000" "engineer 1000" "backend" 5) 5]
  jobIds := by decide
  companyIds := List.nodup_nil

/-- A query for a percentage finds a number. -/
theorem free_text_finds_more : ¬FindsMentions asciiFold asciiSql "100%" "Austin" := by
  intro h
  have hlength := (h numberedOpening 1 le_rfl).length_eq
  exact absurd hlength (by decide)

end Catalogue
end HireAndTech
