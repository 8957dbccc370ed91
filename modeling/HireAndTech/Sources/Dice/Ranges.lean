import HireAndTech.Catalogue.Merging
import HireAndTech.Sources.Dice.Details

/-!
# Ranges of Dice postings

The experience of a posting and the salary that its texts state are put in order when they are
read.  The two ends of a structured salary are taken as they are.

Main results:

- Definition {lit}`StatedInOrder`: the structured salary of a mapping is in order.
- Theorem {lit}`dice_ranges_iff`: when the ranges of a normalized posting are in order.
-/

namespace HireAndTech
namespace Sources
namespace Dice

open Text Catalogue Salaries Extraction Runs

/-! ## Stated amounts -/

/-- The number at a key. -/
def numberAt (source : Fields) (key : String) : Option ℚ :=
  match source.lookup key with
  | some (.int n) => some n
  | some (.float x) => x.decimal
  | _ => none

/-- The amount at a key is no boolean, and finite if it is a number. -/
def NumericAt (source : Fields) (key : String) : Prop :=
  match source.lookup key with
  | some (.bool _) => False
  | some (.float x) => x.decimal.isSome = true
  | _ => True

/-- The amounts of a base salary are numeric. -/
def NumericSalary (fields : Fields) : Prop :=
  ∀ baseSalary, mappingAt fields "baseSalary" = some baseSalary →
    ∀ key ∈ ["minValue", "maxValue", "value"], NumericAt (sourceOf baseSalary) key

/-- An end of a base salary, for which the exact amount may stand in. -/
def statedEnd (source : Fields) (key : String) : Option ℚ :=
  (numberAt source key).or (numberAt source "value")

/-- The two ends of the base salary are in order. -/
def StatedInOrder (fields : Fields) : Prop :=
  ∀ baseSalary, mappingAt fields "baseSalary" = some baseSalary →
    InOrder (statedEnd (sourceOf baseSalary) "minValue")
      (statedEnd (sourceOf baseSalary) "maxValue")

/-- The parsing package, with the given rendering of URLs and of the digested content. -/
def readingParsing (pf : Platform) (normalizeUrl : Option String → Option String)
    (digest : Content → String) : Parsing where
  extractExperience := extractExperience pf.unicode
  parseSalary := parseSalary pf.unicode
  extractSkillsFromText := extractSkillsFromText pf.unicode
  mergeSkills := mergeSkills pf.unicode pf.title
  normalizeEmploymentType := normalizeEmploymentType pf.unicode
  normalizeRemoteType := normalizeRemoteType pf.unicode
  normalizeUrl := normalizeUrl
  digest := digest

section

variable {pf : Platform} {fields source : Fields} {key : String} {low high : Option Amount}

theorem inOrder_none : InOrder none none := by
  simp [InOrder]

theorem inOrder_iff_ordered {low high : Option ℚ} :
    InOrder low high ↔ ordered low high = true := by
  cases low <;> cases high <;> simp [InOrder, ordered]

/-- What is read at a key is its number. -/
theorem amountAt_of_numericAt (h : NumericAt source key) :
    amountAt source key = .ok ((numberAt source key).map .finite) := by
  unfold NumericAt at h
  unfold amountAt numberAt
  cases hvalue : source.lookup key with
  | none => rfl
  | some value =>
      cases value with
      | bool b => simp [hvalue] at h
      | float x =>
          simp only [hvalue] at h
          obtain ⟨value, hdecimal⟩ := Option.isSome_iff_exists.mp h
          simp [hdecimal]
      | _ => rfl

theorem orExact_of_numericAt (h : NumericAt source "value") (end' : Option ℚ) :
    orExact source (end'.map .finite) =
      .ok ((end'.or (numberAt source "value")).map .finite) := by
  cases end' with
  | some amount => rfl
  | none => rw [Option.map_none, orExact, amountAt_of_numericAt h, Option.none_or]

/-- The ends that are read are the stated ones. -/
theorem salaryEnds_of_numeric
    (h : ∀ key ∈ ["minValue", "maxValue", "value"], NumericAt source key) :
    salaryEnds source =
      .ok ((statedEnd source "minValue").map .finite,
        (statedEnd source "maxValue").map .finite) := by
  have hmin : NumericAt source "minValue" := h _ (by simp)
  have hmax : NumericAt source "maxValue" := h _ (by simp)
  have hvalue : NumericAt source "value" := h _ (by simp)
  rw [salaryEnds, amountAt_of_numericAt hmin, ok_bind, amountAt_of_numericAt hmax, ok_bind,
    orExact_of_numericAt hvalue, ok_bind, orExact_of_numericAt hvalue, ok_bind]
  rfl

/-! ## Details -/

/-- The finite amounts of a salary are in order. -/
def SalaryDetails.Ordered (salary : SalaryDetails) : Prop :=
  InOrder (salary.min.bind Amount.value) (salary.max.bind Amount.value)

theorem value_map_finite (x : Option ℚ) : (x.map Amount.finite).bind Amount.value = x := by
  cases x <;> rfl

theorem detailsOf_ordered {salary : Salary} (h : InOrder salary.min salary.max) :
    (detailsOf salary).Ordered := by
  simpa only [SalaryDetails.Ordered, detailsOf, value_map_finite] using h

theorem readSalary_ordered {text : String} {salary : Salary}
    (h : readSalary pf text = .ok salary) : InOrder salary.min salary.max := by
  rw [readSalary, parseSalaryChecked_eq] at h
  split_ifs at h
  · contradiction
  · cases h
    exact parseSalary_inOrder pf.unicode text

/-- A salary that is read of the texts of a posting is in order. -/
theorem salaryFromTexts_ordered {description : Option String} {salary : SalaryDetails}
    (h : salaryFromTexts pf fields description = .ok salary) : salary.Ordered := by
  obtain ⟨direct, _, hrest⟩ := bind_eq_ok_iff.mp h
  cases direct with
  | some direct =>
      obtain ⟨parsed, hparsed, hrest⟩ := bind_eq_ok_iff.mp hrest
      split at hrest
      · cases hrest
        exact detailsOf_ordered (readSalary_ordered hparsed)
      · cases hrest
        exact inOrder_none
  | none =>
      cases description with
      | some description =>
          obtain ⟨parsed, hparsed, hrest⟩ := bind_eq_ok_iff.mp hrest
          cases hrest
          exact detailsOf_ordered (readSalary_ordered hparsed)
      | none =>
          cases hrest
          exact inOrder_none

/-- The salary of a posting is in order exactly when its base salary states it so. -/
theorem extractSalaryDetails_ordered_iff (hnumeric : NumericSalary fields)
    {description : Option String} {salary : SalaryDetails}
    (h : extractSalaryDetails pf fields description = .ok salary) :
    salary.Ordered ↔ StatedInOrder fields := by
  unfold extractSalaryDetails at h
  unfold StatedInOrder
  cases hbase : mappingAt fields "baseSalary" with
  | none =>
      rw [hbase] at h
      simp [salaryFromTexts_ordered h]
  | some baseSalary =>
      simp only [hbase, salaryEnds_of_numeric (hnumeric baseSalary hbase), ok_bind] at h
      obtain ⟨text, _, hrest⟩ := bind_eq_ok_iff.mp h
      simp only [Option.some.injEq, forall_eq']
      split_ifs at hrest with hends
      · cases hrest
        simp only [SalaryDetails.Ordered, value_map_finite]
      · obtain ⟨hlow, hhigh⟩ : statedEnd (sourceOf baseSalary) "minValue" = none ∧
            statedEnd (sourceOf baseSalary) "maxValue" = none := by
          simpa using hends
        rw [hlow, hhigh]
        exact iff_of_true (salaryFromTexts_ordered hrest) inOrder_none

/-! ## Normalized postings -/

variable {parsing : Parsing} {normalizeUrl : Option String → Option String}
  {digest : Content → String} {raw : RawSourceJob} {job : DetailedJob}
  {listing : NormalizedJob}

/-- The ranges of a normalized payload. -/
theorem ranges_of_normalizeJob (h : normalizeJob pf.unicode parsing raw = .ok listing) :
    listing.salaryMin = (salaryOf parsing raw).min ∧
      listing.salaryMax = (salaryOf parsing raw).max ∧
      listing.experienceMinYears = (experienceOf parsing raw).1 ∧
      listing.experienceMaxYears = (experienceOf parsing raw).2.1 := by
  unfold normalizeJob at h
  dsimp only at h
  split at h
  · contradiction
  · cases h
    exact ⟨rfl, rfl, rfl, rfl⟩

/-- The salary of a payload without amounts is read of its texts, which puts it in order. -/
theorem salaryOf_inOrder_iff :
    InOrder (salaryOf (readingParsing pf normalizeUrl digest) raw).min
        (salaryOf (readingParsing pf normalizeUrl digest) raw).max ↔
      InOrder raw.salaryMin raw.salaryMax := by
  have hparsed := parseSalary_inOrder pf.unicode
    (raw.salaryText.getD "" ++ "\n" ++ raw.description.getD "")
  unfold salaryOf
  by_cases hnone : (raw.salaryMin.isNone && raw.salaryMax.isNone) = true
  · obtain ⟨hmin, hmax⟩ : raw.salaryMin = none ∧ raw.salaryMax = none := by simpa using hnone
    rw [if_pos hnone, hmin, hmax]
    apply iff_of_true _ inOrder_none
    dsimp only [readingParsing]
    split
    · exact hparsed
    · exact inOrder_none
  · rw [if_neg hnone]

theorem experienceOf_ordered (h : Ordered raw.experienceMinYears raw.experienceMaxYears) :
    Ordered (experienceOf (readingParsing pf normalizeUrl digest) raw).1
      (experienceOf (readingParsing pf normalizeUrl digest) raw).2.1 := by
  unfold experienceOf
  split_ifs
  · exact extractExperience_ordered pf.unicode (raw.title ++ "\n" ++ raw.description.getD "")
  · exact h

/-- The experience of a posting is in order. -/
theorem Converted.experience_ordered (h : Converted pf fields job) :
    Ordered job.raw.experienceMinYears job.raw.experienceMaxYears := by
  have hexperience := h.experience
  rw [Prod.mk.injEq, Prod.mk.injEq] at hexperience
  obtain ⟨hmin, hmax, _⟩ := hexperience
  rw [hmin, hmax]
  exact extractExperience_ordered pf.unicode _

end

/-- The ranges of the listing that a decoded posting is normalized to are in order, and its row
passes the CHECK constraints, exactly when the ends of the base salary are stated in order. -/
theorem dice_ranges_iff (pf : Platform) (normalizeUrl : Option String → Option String)
    (digest : Content → String) (rt : Runtime) (text : List Char)
    (payload : JsonValue) (fields : Fields) (job : DetailedJob) (listing : NormalizedJob)
    (hpayload : loads pf.readFloat text = .ok payload) (hfields : fields ∈ walkJson payload)
    (hnumeric : NumericSalary fields) (hjob : jobFromMapping pf fields = .ok (some job))
    (hlisting :
      normalizeJob pf.unicode (readingParsing pf normalizeUrl digest) job.raw = .ok listing) :
    (listing.Ranges ↔ StatedInOrder fields) ∧
      ∀ id company observedAt,
        (createdJob rt id listing company observedAt).checks = true ↔ StatedInOrder fields := by
  have hshort : ShortFields fields := short_of_mem_walkJson (loads_short hpayload) fields hfields
  have hisJob : isJob fields = true := by
    by_contra hnot
    rw [jobFromMapping_of_not_isJob hshort (by simpa using hnot)] at hjob
    simp at hjob
  obtain ⟨job', hjob', hconverted⟩ := converted_of_jobFromMapping hshort hisJob hjob
  cases hjob'
  obtain ⟨hmin, hmax, hlow, hhigh⟩ := ranges_of_normalizeJob hlisting
  have hexperience : Ordered listing.experienceMinYears listing.experienceMaxYears := by
    rw [hlow, hhigh]
    exact experienceOf_ordered hconverted.experience_ordered
  have hsalary : ordered listing.salaryMin listing.salaryMax = true ↔ StatedInOrder fields := by
    rw [← inOrder_iff_ordered, hmin, hmax, salaryOf_inOrder_iff, hconverted.salaryMin,
      hconverted.salaryMax]
    exact extractSalaryDetails_ordered_iff hnumeric hconverted.salary
  have hyears : ordered listing.experienceMinYears listing.experienceMaxYears = true := by
    cases hl : listing.experienceMinYears with
    | none => rfl
    | some low =>
        cases hh : listing.experienceMaxYears with
        | none => rfl
        | some high => exact decide_eq_true (hexperience.low_le_high low hl high hh)
  constructor
  · rw [NormalizedJob.Ranges, hsalary, hyears]
    exact and_iff_right rfl
  · intro id company observedAt
    have hnonneg : listing.experienceMinYears.all (0 ≤ ·) = true ∧
        listing.experienceMaxYears.all (0 ≤ ·) = true := by
      simpa [Option.all_eq_true] using ⟨hexperience.low_nonneg, hexperience.high_nonneg⟩
    simp only [CanonicalJob.checks, createdJob, hnonneg, hyears, Bool.true_and, hsalary]

/-! ## Ends out of order -/

/-- A posting with a base salary. -/
def rangeText (low high : String) : List Char :=
  ("\x7b\"id\":\"a1\",\"title\":\"Backend Engineer\",\"baseSalary\":\x7b\"minValue\":" ++
    low ++ ",\"maxValue\":" ++ high ++ "\x7d\x7d").toList

/-- Its mapping. -/
def rangeFields (low high : ℤ) : Fields :=
  [("id", .str "a1"), ("title", .str "Backend Engineer"),
    ("baseSalary", .obj [("minValue", .int low), ("maxValue", .int high)])]

/-- The digests of the two postings below. -/
def rangeDigest (content : Content) : String :=
  if content.salaryText = some "100000 - 120000" then
    "83a65a49f3606310883175583f3531b94bee1f0b6e2b6675f13d7366fb971c3a"
  else "922c5f67e1956d33dcdf8772dc311c243ba4831cdce44fe491f1710d7406cbea"

/-- The listing of such a posting. -/
def rangeListing (low high : ℤ) : Option NormalizedJob := do
  let job ← (jobFromMapping .ascii (rangeFields low high)).toOption.join
  (normalizeJob .ascii (readingParsing .ascii (fun _ => none) rangeDigest) job.raw).toOption

/-- A salary whose ends are stated in order. -/
theorem dice_ranges_iff_stated :
    ∃ listing, rangeListing 100000 120000 = some listing ∧ listing.Ranges := by
  obtain ⟨listing, hlisting⟩ := Option.isSome_iff_exists.mp
    (by decide : (rangeListing 100000 120000).isSome = true)
  have hrun := hlisting
  rw [rangeListing, Option.bind_eq_bind, Option.bind_eq_some_iff] at hrun
  obtain ⟨job, hjob, hnormalize⟩ := hrun
  rw [Option.join_eq_some_iff, Runs.toOption_eq_some_iff] at hjob
  rw [Runs.toOption_eq_some_iff] at hnormalize
  have hnumeric : NumericSalary (rangeFields 100000 120000) := by
    intro baseSalary hbase
    cases hbase
    exact List.forall_mem_cons.mpr ⟨trivial, List.forall_mem_cons.mpr ⟨trivial,
      List.forall_mem_singleton.mpr trivial⟩⟩
  have hstated : StatedInOrder (rangeFields 100000 120000) := by
    intro baseSalary hbase
    cases hbase
    intro low hlow high hhigh
    obtain rfl : ((100000 : ℤ) : ℚ) = low := Option.some.inj hlow
    obtain rfl : ((120000 : ℤ) : ℚ) = high := Option.some.inj hhigh
    norm_num
  exact ⟨listing, hlisting,
    (dice_ranges_iff .ascii (fun _ => none) rangeDigest undatedRuntime
      (rangeText "100000" "120000") (.obj (rangeFields 100000 120000)) (rangeFields 100000 120000)
      job listing rfl List.mem_cons_self hnumeric hjob hnormalize).1.mpr hstated⟩

/-- A salary whose ends are stated out of order. -/
theorem swapped_ends_not_ordered :
    loads literalDouble (rangeText "120000" "100000") = .ok (.obj (rangeFields 120000 100000)) ∧
      (rangeListing 120000 100000).map (fun listing => (listing.salaryMin, listing.salaryMax)) =
        some (some 120000, some 100000) ∧
      (rangeListing 120000 100000).map
        (fun listing => (createdJob undatedRuntime 1 listing none 0).checks) = some false := by
  refine ⟨rfl, ?_, ?_⟩
  · decide
  · decide

end Dice
end Sources
end HireAndTech
