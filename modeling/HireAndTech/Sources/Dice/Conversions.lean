import HireAndTech.Runs.Attempts
import HireAndTech.Sources.Dice.Postings

/-!
# Conversions of Dice postings

Which mappings can be converted: every function on a field of a decoded mapping is described by
what it returns, or by when it raises.

Main results:

- Definition {lit}`Convertible`: the mappings whose fields can be converted.
- Theorem {lit}`jobFromMapping_of_not_isJob`: a mapping without a title or an identifier.
- Theorem {lit}`isOk_jobFromMapping_iff`: which other mappings are converted.
-/

namespace HireAndTech
namespace Sources
namespace Dice

open Text Catalogue Salaries Extraction Runs

variable (pf : Platform) (fields : Fields)

/-! ## Texts of decoded mappings -/

/-- The first text of some keys. -/
def textOf (keys : List String) : Option String :=
  match firstText (viewFields fields) keys with
  | .ok text => text
  | .error _ => none

def titleText : Option String :=
  textOf fields ["title", "jobTitle", "name"]

def urlText : Option String :=
  textOf fields ["url", "jobUrl", "jobDetailUrl", "detailsPageUrl"]

def descriptionText : Option String :=
  textOf fields ["description", "jobDescription"]

def directText : Option String :=
  textOf fields ["salary", "salaryText"]

def postedText : Option String :=
  textOf fields ["datePosted", "postedDate", "posted_at", "date"]

def modifiedText : Option String :=
  textOf fields ["dateModified", "modifiedDate", "updated_at"]

/-- The identifier of a mapping, or else the one in its URL. -/
def idText : Option String :=
  (textOf fields ["guid", "id", "jobId", "jobID", "externalId", "external_job_id"] <|>
    (mappingAt fields "identifier").bind fun identifier =>
      (textAt identifier "value").bind fun value =>
        if stripText value = "" then none else some (stripText value)) <|>
    (urlText fields).bind extractJobId

/-- The mapping has a title and an identifier. -/
def isJob : Bool :=
  (titleText fields).isSome && (idText fields).isSome

/-! ## Conditions -/

/-- The value of a key is a boolean. -/
def isBoolAt (source : Fields) (key : String) : Bool :=
  match source.lookup key with
  | some (.bool _) => true
  | _ => false

/-- The value of a key is a number. -/
def isNumberAt (source : Fields) (key : String) : Bool :=
  match source.lookup key with
  | some (.bool _) => true
  | some (.int _) => true
  | some (.float _) => true
  | _ => false

/-- No amount that is read is a boolean; the exact amount is read if an end is missing. -/
def NoBoolAmount (source : Fields) : Prop :=
  isBoolAt source "minValue" = false ∧ isBoolAt source "maxValue" = false ∧
    (isNumberAt source "minValue" = true ∧ isNumberAt source "maxValue" = true ∨
      isBoolAt source "value" = false)

/-- The source of a salary has an amount. -/
def hasAmount (source : Fields) : Bool :=
  isNumberAt source "minValue" || isNumberAt source "maxValue" || isNumberAt source "value"

/-- The mapping has a base salary with an amount. -/
def statesAmount : Bool :=
  (mappingAt fields "baseSalary").any fun baseSalary => hasAmount (sourceOf baseSalary)

/-- A time with an offset stays in the years from 1 to 9999 when it is shifted to UTC. -/
def InCalendar (value : Option String) : Prop :=
  ∀ text ∈ value, ∀ time ∈ localTimeOf text, ∀ offset ∈ time.offset,
    0 ≤ time.wall - offset ∧ time.wall - offset < calendarEnd

/-- The fields of a mapping can be converted. -/
structure Convertible : Prop where
  amounts : ∀ baseSalary, mappingAt fields "baseSalary" = some baseSalary →
    NoBoolAmount (sourceOf baseSalary)
  salaryText : statesAmount fields = false →
    ∀ text ∈ (directText fields).or (descriptionText fields),
      salaryOverflows pf.unicode text = false
  posted : InCalendar (postedText fields)
  modified : InCalendar (modifiedText fields)
  url : ∀ url ∈ urlText fields, (urlsplit pf.unicode url.toList).isSome = true

/-! ## The functions on the fields -/

section

variable {pf} {fields : Fields}

theorem firstTextOf_eq (h : ShortFields fields) (keys : List String) :
    firstTextOf fields keys = .ok (textOf fields keys) := by
  obtain ⟨text, htext⟩ := firstText_short h keys
  rw [firstTextOf, textOf, htext]
  rfl

theorem externalIdOf_eq (h : ShortFields fields) :
    externalIdOf fields (urlText fields) = .ok (idText fields) := by
  rw [externalIdOf, firstTextOf_eq h]
  rfl

theorem isOk_extractCompany (h : ShortFields fields) : (extractCompany fields).isOk = true := by
  unfold extractCompany
  split
  · rfl
  · rw [firstTextOf_eq h]
    rfl

theorem isOk_extractLocation (h : ShortFields fields) : (extractLocation fields).isOk = true := by
  rw [extractLocation, firstTextOf_eq h]
  rfl

theorem isOk_readSalary_iff {text : String} :
    (readSalary pf text).isOk = true ↔ salaryOverflows pf.unicode text = false := by
  rw [readSalary, isOk_mapError, parseSalaryChecked_eq]
  cases salaryOverflows pf.unicode text <;> simp

theorem isOk_salaryFromTexts_iff (h : ShortFields fields) (description : Option String) :
    (salaryFromTexts pf fields description).isOk = true ↔
      ∀ text ∈ (directText fields).or description, salaryOverflows pf.unicode text = false := by
  unfold salaryFromTexts
  rw [firstTextOf_eq h, ok_bind, ← directText]
  cases directText fields with
  | some direct =>
      simp only [Option.some_or, Option.mem_some_iff, forall_eq', isOk_bind_iff]
      rw [← isOk_readSalary_iff, isOk_iff]
      constructor
      · rintro ⟨salary, hsalary, _⟩
        exact ⟨salary, hsalary⟩
      · rintro ⟨salary, hsalary⟩
        refine ⟨salary, hsalary, ?_⟩
        split <;> rfl
  | none =>
      cases description with
      | none => simp [isOk_iff]; exact ⟨_, rfl⟩
      | some description =>
          simp only [Option.none_or, Option.mem_some_iff, forall_eq', isOk_bind_iff]
          rw [← isOk_readSalary_iff, isOk_iff]
          constructor
          · rintro ⟨salary, hsalary, _⟩
            exact ⟨salary, hsalary⟩
          · rintro ⟨salary, hsalary⟩
            exact ⟨salary, hsalary, rfl⟩

/-- What is read at a key that is no boolean. -/
theorem amountAt_of_not_isBoolAt {source : Fields} {key : String}
    (h : isBoolAt source key = false) :
    ∃ amount, amountAt source key = .ok amount ∧ amount.isSome = isNumberAt source key := by
  unfold isBoolAt at h
  unfold amountAt isNumberAt
  cases hvalue : source.lookup key with
  | none => exact ⟨none, rfl, rfl⟩
  | some value =>
      cases value with
      | bool b => simp [hvalue] at h
      | int n => exact ⟨_, rfl, rfl⟩
      | float x => exact ⟨_, rfl, rfl⟩
      | _ => exact ⟨none, rfl, rfl⟩

theorem isOk_amountAt_iff {source : Fields} {key : String} :
    (amountAt source key).isOk = true ↔ isBoolAt source key = false := by
  constructor
  · intro hok
    unfold amountAt at hok
    unfold isBoolAt
    split at hok
    · contradiction
    all_goals simp_all
  · intro hbool
    obtain ⟨amount, hamount, _⟩ := amountAt_of_not_isBoolAt hbool
    rw [hamount]
    rfl

theorem isOk_parseDatetime_iff {value : Option String} :
    (parseDatetime value).isOk = true ↔ InCalendar value := by
  unfold parseDatetime InCalendar
  cases value with
  | none => simp
  | some text =>
      simp only [Option.bind_some, Option.mem_some_iff, forall_eq']
      cases localTimeOf text with
      | none => simp
      | some time =>
          obtain ⟨wall, offset⟩ := time
          cases offset with
          | none => simp
          | some offset =>
              simp only [Option.mem_some_iff, forall_eq']
              split_ifs with hrange
              · exact ⟨fun _ => hrange, fun _ => rfl⟩
              · exact ⟨fun hok => absurd hok (by simp), fun hin => absurd hin hrange⟩

theorem urlsplit_diceUrl (u : Unicode) : (urlsplit u diceUrl).isSome = true :=
  rfl

theorem urlsplit_nil (u : Unicode) : (urlsplit u []).isSome = true :=
  rfl

theorem isOk_absoluteUrl_iff {url : Option String} :
    (absoluteUrl pf url).isOk = true ↔
      ∀ text ∈ url, (urlsplit pf.unicode text.toList).isSome = true := by
  cases url with
  | none => simp [absoluteUrl]
  | some text =>
      simp only [Option.mem_some_iff, forall_eq', absoluteUrl]
      by_cases htext : text = ""
      · simp [htext, Option.filter, urlsplit_nil]
      · have hnil : text.toList ≠ [] := by simpa using htext
        have hjoin : (urljoin pf.unicode diceUrl text.toList).isSome = true ↔
            text.toList = [] ∨ (urlsplit pf.unicode text.toList).isSome = true :=
          urljoin_isSome_iff (by decide) (urlsplit_diceUrl pf.unicode)
        rw [Option.filter_some, if_pos (by simpa using htext)]
        cases hresult : urljoin pf.unicode diceUrl text.toList with
        | none => simpa [hresult, hnil] using hjoin
        | some joined => simpa [hresult, hnil] using hjoin

/-! ## Salaries -/

theorem salaryEnds_of_noBoolAmount {source : Fields} (h : NoBoolAmount source) :
    ∃ low high, salaryEnds source = .ok (low, high) ∧
      (low.isSome || high.isSome) = hasAmount source := by
  obtain ⟨hmin, hmax, hvalue⟩ := h
  obtain ⟨low, hlow, hlowNumber⟩ := amountAt_of_not_isBoolAt hmin
  obtain ⟨high, hhigh, hhighNumber⟩ := amountAt_of_not_isBoolAt hmax
  rw [← hlowNumber, ← hhighNumber] at hvalue
  rw [salaryEnds, hlow, ok_bind, hhigh, ok_bind, hasAmount, ← hlowNumber, ← hhighNumber]
  cases low with
  | some low =>
      cases high with
      | some high => exact ⟨some low, some high, rfl, rfl⟩
      | none =>
          obtain ⟨exact, hexact, _⟩ := amountAt_of_not_isBoolAt (hvalue.resolve_left (by simp))
          exact ⟨some low, exact, by simp only [orExact, hexact, ok_bind]; rfl, rfl⟩
  | none =>
      obtain ⟨exact, hexact, hexactNumber⟩ :=
        amountAt_of_not_isBoolAt (hvalue.resolve_left (by simp))
      cases high with
      | some high =>
          exact ⟨exact, some high, by simp only [orExact, hexact, ok_bind]; rfl, by simp⟩
      | none =>
          exact ⟨exact, exact, by simp only [orExact, hexact, ok_bind]; rfl,
            by simp [← hexactNumber]⟩

theorem isOk_salaryEnds_iff {source : Fields} :
    (salaryEnds source).isOk = true ↔ NoBoolAmount source := by
  constructor
  · intro hok
    simp only [salaryEnds, isOk_bind_iff] at hok
    obtain ⟨low, hlow, high, hhigh, low', hlow', high', hhigh', _⟩ := hok
    have hmin := isOk_amountAt_iff.mp (isOk_iff.mpr ⟨low, hlow⟩)
    have hmax := isOk_amountAt_iff.mp (isOk_iff.mpr ⟨high, hhigh⟩)
    refine ⟨hmin, hmax, ?_⟩
    obtain ⟨low₁, hlow₁, hlowNumber⟩ := amountAt_of_not_isBoolAt hmin
    obtain ⟨high₁, hhigh₁, hhighNumber⟩ := amountAt_of_not_isBoolAt hmax
    rw [hlow, Except.ok.injEq] at hlow₁
    rw [hhigh, Except.ok.injEq] at hhigh₁
    subst hlow₁ hhigh₁
    rw [← hlowNumber, ← hhighNumber]
    cases low with
    | none => exact Or.inr (isOk_amountAt_iff.mp (isOk_iff.mpr ⟨low', hlow'⟩))
    | some low =>
        cases high with
        | none => exact Or.inr (isOk_amountAt_iff.mp (isOk_iff.mpr ⟨high', hhigh'⟩))
        | some high => exact Or.inl ⟨rfl, rfl⟩
  · intro h
    obtain ⟨low, high, hends, _⟩ := salaryEnds_of_noBoolAmount h
    exact isOk_iff.mpr ⟨_, hends⟩

theorem isOk_extractSalaryDetails_iff (h : ShortFields fields) (description : Option String) :
    (extractSalaryDetails pf fields description).isOk = true ↔
      (∀ baseSalary, mappingAt fields "baseSalary" = some baseSalary →
        NoBoolAmount (sourceOf baseSalary)) ∧
      (statesAmount fields = false → ∀ text ∈ (directText fields).or description,
        salaryOverflows pf.unicode text = false) := by
  unfold extractSalaryDetails statesAmount
  cases hbase : mappingAt fields "baseSalary" with
  | none => simp [isOk_salaryFromTexts_iff h]
  | some baseSalary =>
      obtain ⟨text, htext⟩ := extractSalary_short h pf.lower
      simp only [Option.some.injEq, forall_eq', Option.any_some, htext]
      by_cases hbool : NoBoolAmount (sourceOf baseSalary)
      · obtain ⟨low, high, hends, hsome⟩ := salaryEnds_of_noBoolAmount hbool
        rw [hends, ok_bind]
        simp only [hbool, true_and, Except.mapError, ok_bind, hsome]
        cases hasAmount (sourceOf baseSalary) with
        | true => simp; rfl
        | false => simp [isOk_salaryFromTexts_iff h]
      · have herror : (salaryEnds (sourceOf baseSalary)).isOk = false := by
          simpa using isOk_salaryEnds_iff.not.mpr hbool
        cases hends : salaryEnds (sourceOf baseSalary) with
        | ok ends =>
            rw [hends] at herror
            contradiction
        | error e => simp [hbool]

/-! ## Jobs -/

/-- A mapping without a title or an identifier is no job. -/
theorem jobFromMapping_of_not_isJob (h : ShortFields fields) (hjob : isJob fields = false) :
    jobFromMapping pf fields = .ok none := by
  have hurl : textOf fields ["url", "jobUrl", "jobDetailUrl", "detailsPageUrl"] = urlText fields :=
    rfl
  have htitle : textOf fields ["title", "jobTitle", "name"] = titleText fields := rfl
  simp only [jobFromMapping, firstTextOf_eq h, ok_bind, hurl, htitle, externalIdOf_eq h]
  unfold isJob at hjob
  split
  · simp_all
  · rfl

/-- What the conversion of a job does. -/
theorem isOk_jobFromMapping_iff (h : ShortFields fields) (hjob : isJob fields = true) :
    (jobFromMapping pf fields).isOk = true ↔ Convertible pf fields := by
  have hurl : textOf fields ["url", "jobUrl", "jobDetailUrl", "detailsPageUrl"] = urlText fields :=
    rfl
  have htitle : textOf fields ["title", "jobTitle", "name"] = titleText fields := rfl
  unfold isJob at hjob
  rw [Bool.and_eq_true, Option.isSome_iff_exists, Option.isSome_iff_exists] at hjob
  obtain ⟨⟨title, htitleText⟩, externalId, hidText⟩ := hjob
  obtain ⟨company, hcompany⟩ := isOk_iff.mp (isOk_extractCompany h)
  obtain ⟨location, hlocation⟩ := isOk_iff.mp (isOk_extractLocation h)
  simp only [jobFromMapping, firstTextOf_eq h, ok_bind, hurl, htitle, externalIdOf_eq h,
    htitleText, hidText, hcompany, hlocation]
  constructor
  · intro hok
    obtain ⟨salary, hsalary, hok⟩ := isOk_bind_iff.mp hok
    obtain ⟨posted, hposted, hok⟩ := isOk_bind_iff.mp hok
    obtain ⟨modified, hmodified, hok⟩ := isOk_bind_iff.mp hok
    obtain ⟨absolute, habsolute, _⟩ := isOk_bind_iff.mp hok
    obtain ⟨hamounts, htexts⟩ :=
      (isOk_extractSalaryDetails_iff h _).mp (isOk_iff.mpr ⟨salary, hsalary⟩)
    exact
      { amounts := hamounts
        salaryText := htexts
        posted := isOk_parseDatetime_iff.mp (isOk_iff.mpr ⟨posted, hposted⟩)
        modified := isOk_parseDatetime_iff.mp (isOk_iff.mpr ⟨modified, hmodified⟩)
        url := isOk_absoluteUrl_iff.mp (isOk_iff.mpr ⟨absolute, habsolute⟩) }
  · intro hconvertible
    have hdetails : (extractSalaryDetails pf fields (descriptionText fields)).isOk = true :=
      (isOk_extractSalaryDetails_iff h _).mpr ⟨hconvertible.amounts, hconvertible.salaryText⟩
    obtain ⟨salary, hsalary⟩ := isOk_iff.mp hdetails
    obtain ⟨posted, hposted⟩ := isOk_iff.mp (isOk_parseDatetime_iff.mpr hconvertible.posted)
    obtain ⟨modified, hmodified⟩ := isOk_iff.mp (isOk_parseDatetime_iff.mpr hconvertible.modified)
    obtain ⟨absolute, habsolute⟩ := isOk_iff.mp (isOk_absoluteUrl_iff.mpr hconvertible.url)
    rw [descriptionText] at hsalary
    rw [postedText] at hposted
    rw [modifiedText] at hmodified
    rw [hsalary, ok_bind, hposted, ok_bind, hmodified, ok_bind, habsolute]
    rfl

/-- The salary and the experience of a converted job. -/
structure Converted (pf : Platform) (fields : Fields) (job : DetailedJob) : Prop where
  salary : extractSalaryDetails pf fields (descriptionText fields) = .ok job.salary
  salaryMin : job.raw.salaryMin = job.salary.min.bind Amount.value
  salaryMax : job.raw.salaryMax = job.salary.max.bind Amount.value
  experience : (job.raw.experienceMinYears, job.raw.experienceMaxYears, job.raw.experienceText) =
    extractExperienceDetails pf fields (descriptionText fields)

/-- What is returned for a mapping with a title and an identifier. -/
theorem converted_of_jobFromMapping (h : ShortFields fields) (hjob : isJob fields = true)
    {result : Option DetailedJob} (hok : jobFromMapping pf fields = .ok result) :
    ∃ job, result = some job ∧ Converted pf fields job := by
  have hurl : textOf fields ["url", "jobUrl", "jobDetailUrl", "detailsPageUrl"] = urlText fields :=
    rfl
  have htitle : textOf fields ["title", "jobTitle", "name"] = titleText fields := rfl
  unfold isJob at hjob
  rw [Bool.and_eq_true, Option.isSome_iff_exists, Option.isSome_iff_exists] at hjob
  obtain ⟨⟨title, htitleText⟩, externalId, hidText⟩ := hjob
  obtain ⟨company, hcompany⟩ := isOk_iff.mp (isOk_extractCompany h)
  obtain ⟨location, hlocation⟩ := isOk_iff.mp (isOk_extractLocation h)
  simp only [jobFromMapping, firstTextOf_eq h, ok_bind, hurl, htitle, externalIdOf_eq h,
    htitleText, hidText, hcompany, hlocation] at hok
  obtain ⟨salary, hsalary, hok⟩ := bind_eq_ok_iff.mp hok
  obtain ⟨posted, _, hok⟩ := bind_eq_ok_iff.mp hok
  obtain ⟨modified, _, hok⟩ := bind_eq_ok_iff.mp hok
  obtain ⟨absolute, _, hok⟩ := bind_eq_ok_iff.mp hok
  cases hok
  exact ⟨_, rfl, ⟨hsalary, rfl, rfl, rfl⟩⟩

end

end Dice
end Sources
end HireAndTech
