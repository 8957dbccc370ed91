import HireAndTech.Catalogue.DualWrite
import HireAndTech.Catalogue.Normalization
import HireAndTech.Text.IsoFormat

/-!
# Content hashes

The digest that `normalize_job` takes of a listing covers some of its fields.  The amounts,
currency and period of the salary, the experience and the workplace type are not among them,
and they are determined by the digested fields only as far as two payloads state the same.

A listing with the digest of the one before it is reported as unchanged, and is merged into the
stored rows all the same.  The rows keep their content as long as they have what it supplies: the
rows that it has written itself do, and those that another listing has written may not.

Main results:

- Definition {lit}`contentDigest`: the digest of the JSON text of the content.
- Theorem {lit}`contentDigest_injective`: the digest determines the content.
- Theorem {lit}`sameContent_refreshed_iff`: when a listing that is seen again changes nothing.
- Theorem {lit}`content_hash_covers_iff`: when listings with one digest are one listing.
-/

namespace HireAndTech
namespace Catalogue

open Relational Text

/-! ## The digest -/

/-- A text, or null. -/
def jsonText (text : Option String) : Json :=
  match text with
  | none => .null
  | some text => .str text.toList

/-- A truth value, or null. -/
def jsonBool (value : Option Bool) : Json :=
  match value with
  | none => .null
  | some b => .bool b

/-- The digested object; its keys are in order. -/
def contentJson (content : Content) : Json :=
  .obj
    [("company".toList, jsonText content.company),
      ("description".toList, jsonText content.description),
      ("employment_type".toList, jsonText content.employmentType),
      ("job_url".toList, jsonText content.jobUrl),
      ("location".toList, jsonText content.location),
      ("posted_at".toList, jsonText (content.postedAt.map isoformat)),
      ("remote".toList, jsonBool content.remote),
      ("salary_text".toList, jsonText content.salaryText),
      ("skills".toList, .arr (content.skills.map .str)),
      ("source_updated_at".toList, jsonText (content.sourceUpdatedAt.map isoformat)),
      ("title".toList, .str content.title.toList)]

/-- `sha256(json.dumps(content, …).encode()).hexdigest()`. -/
def contentDigest (sha256 : List UInt8 → String) (content : Content) : String :=
  sha256 ((dumps (contentJson content)).flatMap String.utf8EncodeChar)

theorem jsonText_injective : Function.Injective jsonText := by
  intro a b h
  cases a <;> cases b <;> simp_all [jsonText, String.toList_inj]

theorem jsonBool_injective : Function.Injective jsonBool := by
  intro a b h
  cases a <;> cases b <;> simp_all [jsonBool]

theorem contentJson_injective : Function.Injective contentJson := by
  intro a b h
  have hstr : Function.Injective Json.str := fun s t hst => Json.str.inj hst
  have htime : Function.Injective (Option.map isoformat) :=
    Option.map_injective isoformat_injective
  simp only [contentJson, Json.obj.injEq, List.cons.injEq, Prod.mk.injEq, true_and, and_true,
    Json.arr.injEq, Json.str.injEq, String.toList_inj] at h
  obtain ⟨hcompany, hdescription, hemployment, hurl, hlocation, hposted, hremote, hsalary, hskills,
    hupdated, htitle⟩ := h
  cases a
  cases b
  simp only [Content.mk.injEq]
  exact ⟨jsonText_injective hcompany, jsonText_injective hdescription,
    jsonText_injective hemployment, jsonText_injective hurl, jsonText_injective hlocation,
    htime (jsonText_injective hposted), jsonBool_injective hremote, jsonText_injective hsalary,
    (List.map_injective_iff.mpr hstr) hskills, htime (jsonText_injective hupdated), htitle⟩

/-- With an injective hash the digest determines the content. -/
theorem contentDigest_injective {sha256 : List UInt8 → String}
    (hsha : Function.Injective sha256) : Function.Injective (contentDigest sha256) :=
  hsha.comp (flatMap_utf8EncodeChar_injective.comp (dumps_injective.comp contentJson_injective))

/-! ## Listings -/

variable (u : Unicode)

/-- The skills of a listing up to case. -/
def NormalizedJob.casefoldedSkills (job : NormalizedJob) : List (List Char) :=
  job.skills.map fun skill => u.casefold skill.toList

/-- The content of a normalized listing. -/
def NormalizedJob.content (job : NormalizedJob) : Content where
  company := job.company
  description := job.description
  employmentType := job.employmentType
  jobUrl := job.jobUrl
  location := job.location
  postedAt := job.postedAt
  remote := job.remote
  salaryText := job.salaryText
  skills := job.casefoldedSkills u
  sourceUpdatedAt := job.sourceUpdatedAt
  title := job.jobTitle

/-- Two listings that agree in all fields that change, skills up to case. -/
structure ListingsAgree (job job' : NormalizedJob) : Prop where
  title : job.jobTitle = job'.jobTitle
  company : job.company = job'.company
  location : job.location = job'.location
  jobUrl : job.jobUrl = job'.jobUrl
  description : job.description = job'.description
  salaryText : job.salaryText = job'.salaryText
  salaryMin : job.salaryMin = job'.salaryMin
  salaryMax : job.salaryMax = job'.salaryMax
  salaryCurrency : job.salaryCurrency = job'.salaryCurrency
  salaryPeriod : job.salaryPeriod = job'.salaryPeriod
  employmentType : job.employmentType = job'.employmentType
  remote : job.remote = job'.remote
  remoteType : job.remoteType = job'.remoteType
  skills : job.casefoldedSkills u = job'.casefoldedSkills u
  postedAt : job.postedAt = job'.postedAt
  sourceUpdatedAt : job.sourceUpdatedAt = job'.sourceUpdatedAt
  experienceMinYears : job.experienceMinYears = job'.experienceMinYears
  experienceMaxYears : job.experienceMaxYears = job'.experienceMaxYears
  experienceText : job.experienceText = job'.experienceText

/-! ## What payloads state -/

/-- An experience: its two ends and its text. -/
abbrev Experience := Option Int × Option Int × Option String

/-- The amounts, currency and period of a salary. -/
abbrev Amounts := Option ℚ × Option ℚ × Option String × Option String

/-- The experience that a payload states. -/
def RawSourceJob.statedExperience (raw : RawSourceJob) : Option Experience :=
  if raw.experienceMinYears.isNone && raw.experienceMaxYears.isNone &&
      !truthy raw.experienceText then none
  else some (raw.experienceMinYears, raw.experienceMaxYears, raw.experienceText)

/-- The salary that a payload states. -/
def RawSourceJob.statedAmounts (raw : RawSourceJob) : Option Amounts :=
  if raw.salaryMin.isNone && raw.salaryMax.isNone then none
  else some (raw.salaryMin, raw.salaryMax, raw.salaryCurrency, raw.salaryPeriod)

variable (parsing : Parsing)

/-- The experience in the title and the description of a payload. -/
def RawSourceJob.readExperience (raw : RawSourceJob) : Experience :=
  parsing.extractExperience (raw.title ++ "\n" ++ raw.description.getD "")

/-- The salary in the texts of a payload. -/
def RawSourceJob.readAmounts (raw : RawSourceJob) : Amounts :=
  let parsed := parsing.parseSalary (raw.salaryText.getD "" ++ "\n" ++ raw.description.getD "")
  if parsed.min.isSome || parsed.max.isSome then
    (parsed.min, parsed.max, parsed.currency, parsed.period)
  else (none, none, raw.salaryCurrency, raw.salaryPeriod)

/-- The workplace type in the texts of a payload. -/
def RawSourceJob.readRemoteType (raw : RawSourceJob) : Option RemoteType :=
  parsing.normalizeRemoteType (raw.location.getD "" ++ "\n" ++ raw.description.getD "") raw.remote

/-- Two payloads give one value: both state it, one states what is read from the texts of the other,
or neither states it and the same is read from their texts. -/
def GivenAlike {α : Type} (stated stated' : Option α) (read read' : α) : Prop :=
  match stated, stated' with
  | some x, some x' => x = x'
  | some x, none => x = read'
  | none, some x' => read = x'
  | none, none => read = read'

/-- Two payloads that give one experience, one salary and one workplace type. -/
structure StatedAlike (raw raw' : RawSourceJob) : Prop where
  experience : GivenAlike raw.statedExperience raw'.statedExperience (raw.readExperience parsing)
    (raw'.readExperience parsing)
  amounts : GivenAlike raw.statedAmounts raw'.statedAmounts (raw.readAmounts parsing)
    (raw'.readAmounts parsing)
  remoteType : GivenAlike (raw.remoteType.map some) (raw'.remoteType.map some)
    (raw.readRemoteType parsing) (raw'.readRemoteType parsing)

section

variable {u parsing} {raw raw' : RawSourceJob} {job job' : NormalizedJob}

theorem givenAlike_iff {α : Type} {stated stated' : Option α} {read read' : α} :
    GivenAlike stated stated' read read' ↔ stated.getD read = stated'.getD read' := by
  cases stated <;> cases stated' <;> rfl

/-- The workplace type that a payload states, or else the one in its texts. -/
theorem orElse_eq_getD {α : Type} (stated read : Option α) :
    (stated <|> read) = (stated.map some).getD read := by
  cases stated <;> rfl

theorem experienceOf_eq (raw : RawSourceJob) :
    experienceOf parsing raw = raw.statedExperience.getD (raw.readExperience parsing) := by
  unfold experienceOf RawSourceJob.statedExperience
  split <;> rfl

theorem salaryOf_eq (raw : RawSourceJob) :
    ((salaryOf parsing raw).min, (salaryOf parsing raw).max, (salaryOf parsing raw).currency,
      (salaryOf parsing raw).period) = raw.statedAmounts.getD (raw.readAmounts parsing) := by
  unfold salaryOf RawSourceJob.statedAmounts RawSourceJob.readAmounts
  by_cases hstated : (raw.salaryMin.isNone && raw.salaryMax.isNone) = true
  · simp only [hstated, if_true, Option.getD_none]
    rw [Bool.and_eq_true, Option.isNone_iff_eq_none, Option.isNone_iff_eq_none] at hstated
    split
    · rfl
    · rw [hstated.1, hstated.2]
  · simp only [hstated]
    rfl

/-- The skills of a listing are in the order of their folded texts. -/
theorem casefolded_skillsOf (raw : RawSourceJob) :
    ((skillsOf u parsing raw).map fun skill => u.casefold skill.toList).insertionSort (· ≤ ·) =
      (skillsOf u parsing raw).map fun skill => u.casefold skill.toList := by
  apply List.Pairwise.insertionSort_eq
  rw [List.pairwise_map]
  have htotal : Std.Total fun a b : String => u.casefold a.toList ≤ u.casefold b.toList :=
    ⟨fun a b => le_total _ _⟩
  have htrans : IsTrans String fun a b => u.casefold a.toList ≤ u.casefold b.toList :=
    ⟨fun _ _ _ => le_trans⟩
  exact List.pairwise_insertionSort _ _

/-- The hash of a normalized listing is the digest of its content. -/
theorem contentHash_eq (h : normalizeJob u parsing raw = .ok job) :
    job.contentHash = parsing.digest (job.content u) := by
  unfold normalizeJob at h
  dsimp only at h
  split at h
  · contradiction
  · cases h
    rw [casefolded_skillsOf]
    rfl

/-- The fields of a listing that are not digested. -/
theorem undigested_eq (h : normalizeJob u parsing raw = .ok job) :
    (job.experienceMinYears, job.experienceMaxYears, job.experienceText) =
        experienceOf parsing raw ∧
      (job.salaryMin, job.salaryMax, job.salaryCurrency, job.salaryPeriod) =
        ((salaryOf parsing raw).min, (salaryOf parsing raw).max, (salaryOf parsing raw).currency,
          (salaryOf parsing raw).period) ∧
      job.remoteType = (raw.remoteType <|> raw.readRemoteType parsing) := by
  unfold normalizeJob at h
  dsimp only at h
  split at h
  · contradiction
  · cases h
    exact ⟨rfl, rfl, rfl⟩

/-- The fields of a listing that are derived from other fields. -/
theorem derived_eq (h : normalizeJob u parsing raw = .ok job) :
    job.normalizedTitle = normalizeTitle u job.jobTitle ∧
      job.roleFamily = normalizeRole u job.jobTitle ∧
      job.normalizedCompany =
        (if truthy job.company then job.company.map (normalizeCompanyName u) else none) ∧
      job.normalizedLocation =
        if truthy job.location then job.location.map (normalizeLocation u) else none := by
  unfold normalizeJob at h
  dsimp only at h
  split at h
  · contradiction
  · cases h
    dsimp only
    exact ⟨rfl, rfl, rfl, rfl⟩

/-- Listings of one content are one listing exactly if their payloads state the rest alike. -/
theorem listingsAgree_iff (h : normalizeJob u parsing raw = .ok job)
    (h' : normalizeJob u parsing raw' = .ok job') (hcontent : job.content u = job'.content u) :
    ListingsAgree u job job' ↔ StatedAlike parsing raw raw' := by
  obtain ⟨hexperience, hamounts, hremote⟩ := undigested_eq h
  obtain ⟨hexperience', hamounts', hremote'⟩ := undigested_eq h'
  rw [experienceOf_eq] at hexperience hexperience'
  rw [salaryOf_eq] at hamounts hamounts'
  rw [orElse_eq_getD] at hremote hremote'
  simp only [NormalizedJob.content, Content.mk.injEq] at hcontent
  obtain ⟨hcompany, hdescription, hemployment, hurl, hlocation, hposted, hremoteFlag, hsalaryText,
    hskills, hupdated, htitle⟩ := hcontent
  constructor
  · intro hsame
    constructor
    · rw [givenAlike_iff, ← hexperience, ← hexperience', hsame.experienceMinYears,
        hsame.experienceMaxYears, hsame.experienceText]
    · rw [givenAlike_iff, ← hamounts, ← hamounts', hsame.salaryMin, hsame.salaryMax,
        hsame.salaryCurrency, hsame.salaryPeriod]
    · rw [givenAlike_iff, ← hremote, ← hremote', hsame.remoteType]
  · intro halike
    rw [givenAlike_iff.mp halike.experience, ← hexperience'] at hexperience
    rw [givenAlike_iff.mp halike.amounts, ← hamounts'] at hamounts
    rw [givenAlike_iff.mp halike.remoteType, ← hremote'] at hremote
    simp only [Prod.mk.injEq] at hexperience hamounts
    obtain ⟨hminYears, hmaxYears, htext⟩ := hexperience
    obtain ⟨hmin, hmax, hcurrency, hperiod⟩ := hamounts
    constructor <;> assumption

end

/-! ## Rows that are refreshed -/

/-- The rows that an ingestion of a listing writes for its employer, with the freshness that
they have since then. -/
inductive WrittenBy (rt : Runtime) (job : NormalizedJob) (company : Option Company)
    (j : CanonicalJob) : Prop
  | created (id : UUID) (observedAt : Time)
      (hfresh : Freshened (createdJob rt id job company observedAt) j)
  | refreshed (j₀ : CanonicalJob) (observedAt : Time)
      (hfresh : Freshened (refreshedJob rt j₀ job company observedAt) j)

/-- The legacy rows that a write of a listing leaves. -/
inductive LegacyWrittenBy (job : NormalizedJob) (g : GlobalJob) : Prop
  | inserted (id : UUID) (now : Time) (hrow : g = incomingValues id job now)
  | merged (g₀ : GlobalJob) (id : UUID) (now : Time)
      (hrow : g = mergeValues g₀ (incomingValues id job now))

/-- The opening has every value that the listing supplies for its employer, skills up to case. -/
structure Supplied (u : Unicode) (job : NormalizedJob) (company : Option Company)
    (j : CanonicalJob) : Prop where
  companyId : ∀ id, company.map (·.id) = some id → j.companyId = some id
  title : job.hasRealTitle = true → job.jobTitle = j.title
  normalizedTitle : job.hasRealTitle = true → job.normalizedTitle = j.normalizedTitle
  description : hasText job.description = true → job.description = j.description
  location : hasText job.location = true → job.location = j.location
  normalizedLocation : hasText job.location = true → job.normalizedLocation = j.normalizedLocation
  employmentType : hasText job.employmentType = true → job.employmentType = j.employmentType
  remoteType : ∀ remoteType, (job.remoteType <|> remoteTypeOf job.remote) = some remoteType →
    j.remoteType = some remoteType
  skills : job.skills ≠ [] →
    job.casefoldedSkills u = j.skills.map fun skill => u.casefold skill.toList
  experienceMinYears : ∀ years, job.experienceMinYears = some years →
    j.experienceMinYears = some years
  experienceMaxYears : ∀ years, job.experienceMaxYears = some years →
    j.experienceMaxYears = some years
  experienceText : hasText job.experienceText = true → job.experienceText = j.experienceText
  roleFamily : job.roleFamily = j.roleFamily
  salaryMin : ∀ amount, job.salaryMin = some amount → j.salaryMin = some amount
  salaryMax : ∀ amount, job.salaryMax = some amount → j.salaryMax = some amount
  salaryCurrency : truthy job.salaryCurrency = true → job.salaryCurrency = j.salaryCurrency
  salaryText : hasText job.salaryText = true → job.salaryText = j.salaryText
  salaryPeriod : truthy job.salaryPeriod = true → job.salaryPeriod = j.salaryPeriod
  postedAt : ∀ time, job.postedAt = some time → j.postedAt = some time
  sourceUpdatedAt : ∀ time, job.sourceUpdatedAt = some time → j.sourceUpdatedAt = some time

/-- The legacy row has every value that the listing supplies, skills up to case. -/
structure LegacySupplied (u : Unicode) (job : NormalizedJob) (g : GlobalJob) : Prop where
  jobTitle : job.jobTitle = g.jobTitle
  normalizedTitle : job.normalizedTitle = g.normalizedTitle
  roleFamily : job.roleFamily = g.roleFamily
  company : hasText job.company = true → job.company = g.company
  location : hasText job.location = true → job.location = g.location
  jobUrl : hasText job.jobUrl = true → job.jobUrl = g.jobUrl
  description : hasText job.description = true → job.description = g.description
  salaryText : hasText job.salaryText = true → job.salaryText = g.salaryText
  employmentType : hasText job.employmentType = true → job.employmentType = g.employmentType
  remote : ∀ remote, job.remote = some remote → g.remote = some remote
  skills : job.skills ≠ [] →
    job.casefoldedSkills u = g.skills.map fun skill => u.casefold skill.toList
  postedAt : ∀ time, job.postedAt = some time → g.postedAt = some time
  experienceMinYears : ∀ years, job.experienceMinYears = some years →
    g.experienceMinYears = some years
  experienceMaxYears : ∀ years, job.experienceMaxYears = some years →
    g.experienceMaxYears = some years
  experienceText : hasText job.experienceText = true → job.experienceText = g.experienceText

/-- Two canonical jobs with the same content, skills up to case. -/
structure SameContent (u : Unicode) (j j' : CanonicalJob) : Prop where
  companyId : j'.companyId = j.companyId
  title : j'.title = j.title
  normalizedTitle : j'.normalizedTitle = j.normalizedTitle
  description : j'.description = j.description
  location : j'.location = j.location
  normalizedLocation : j'.normalizedLocation = j.normalizedLocation
  employmentType : j'.employmentType = j.employmentType
  remoteType : j'.remoteType = j.remoteType
  skills : (j'.skills.map fun skill => u.casefold skill.toList) =
    j.skills.map fun skill => u.casefold skill.toList
  experienceMinYears : j'.experienceMinYears = j.experienceMinYears
  experienceMaxYears : j'.experienceMaxYears = j.experienceMaxYears
  experienceText : j'.experienceText = j.experienceText
  roleFamily : j'.roleFamily = j.roleFamily
  salaryMin : j'.salaryMin = j.salaryMin
  salaryMax : j'.salaryMax = j.salaryMax
  salaryCurrency : j'.salaryCurrency = j.salaryCurrency
  salaryText : j'.salaryText = j.salaryText
  salaryPeriod : j'.salaryPeriod = j.salaryPeriod
  postedAt : j'.postedAt = j.postedAt
  sourceUpdatedAt : j'.sourceUpdatedAt = j.sourceUpdatedAt

/-- Two legacy rows with the same content, skills up to case. -/
structure SameLegacyContent (u : Unicode) (g g' : GlobalJob) : Prop where
  jobTitle : g'.jobTitle = g.jobTitle
  normalizedTitle : g'.normalizedTitle = g.normalizedTitle
  roleFamily : g'.roleFamily = g.roleFamily
  company : g'.company = g.company
  location : g'.location = g.location
  jobUrl : g'.jobUrl = g.jobUrl
  description : g'.description = g.description
  salaryText : g'.salaryText = g.salaryText
  employmentType : g'.employmentType = g.employmentType
  remote : g'.remote = g.remote
  skills : (g'.skills.map fun skill => u.casefold skill.toList) =
    g.skills.map fun skill => u.casefold skill.toList
  postedAt : g'.postedAt = g.postedAt
  experienceMinYears : g'.experienceMinYears = g.experienceMinYears
  experienceMaxYears : g'.experienceMaxYears = g.experienceMaxYears
  experienceText : g'.experienceText = g.experienceText

section

variable {u : Unicode} {rt : Runtime} {job job' : NormalizedJob} {company : Option Company}
  {j : CanonicalJob} {observedAt : Time}

@[simp]
theorem preferText_self (text : Option String) : preferText text text = text :=
  ite_self text

@[simp]
theorem preferText_twice (incoming existing : Option String) :
    preferText incoming (preferText incoming existing) = preferText incoming existing := by
  unfold preferText
  split <;> rfl

@[simp]
theorem or_twice {β : Type} (incoming existing : Option β) :
    incoming.or (incoming.or existing) = incoming.or existing := by
  cases incoming <;> rfl

@[simp]
theorem ite_twice {β : Type} (c : Prop) [Decidable c] (incoming existing : β) :
    (if c then incoming else if c then incoming else existing) =
      if c then incoming else existing := by
  split <;> rfl

/-- Skills that agree up to case replace each other. -/
theorem map_preferList {β γ : Type} {f : β → γ} {incoming incoming' existing : List β}
    (h : incoming.map f = incoming'.map f) :
    (preferList incoming' (preferList incoming existing)).map f =
      (preferList incoming existing).map f := by
  cases incoming with
  | nil =>
      rw [List.map_nil, eq_comm, List.map_eq_nil_iff] at h
      rw [h]
      rfl
  | cons x xs =>
      cases incoming' with
      | nil => cases h
      | cons y ys => exact h.symm

theorem map_preferList_self {β γ : Type} {f : β → γ} {incoming incoming' : List β}
    (h : incoming.map f = incoming'.map f) :
    (preferList incoming' incoming).map f = incoming.map f := by
  cases incoming' with
  | nil => rfl
  | cons y ys => exact h.symm

theorem preferText_eq_right_iff {incoming existing : Option String} :
    preferText incoming existing = existing ↔ (hasText incoming = true → incoming = existing) :=
  ite_eq_right_iff

theorem orElse_eq_right_iff {β : Type} {incoming existing : Option β} :
    (incoming <|> existing) = existing ↔ ∀ x, incoming = some x → existing = some x := by
  cases incoming <;> simp [eq_comm]

theorem map_preferList_eq_right_iff {β γ : Type} {f : β → γ} {incoming existing : List β} :
    (preferList incoming existing).map f = existing.map f ↔
      (incoming ≠ [] → incoming.map f = existing.map f) := by
  cases incoming <;> simp [preferList]

/-- A listing that refreshes an opening changes nothing exactly if the opening has what it
supplies. -/
theorem sameContent_refreshed_iff :
    SameContent u j (refreshedJob rt j job company observedAt) ↔ Supplied u job company j := by
  constructor
  · intro h
    exact
      { companyId := orElse_eq_right_iff.mp h.companyId
        title := ite_eq_right_iff.mp h.title
        normalizedTitle := ite_eq_right_iff.mp h.normalizedTitle
        description := preferText_eq_right_iff.mp h.description
        location := ite_eq_right_iff.mp h.location
        normalizedLocation := ite_eq_right_iff.mp h.normalizedLocation
        employmentType := preferText_eq_right_iff.mp h.employmentType
        remoteType := orElse_eq_right_iff.mp h.remoteType
        skills := map_preferList_eq_right_iff.mp h.skills
        experienceMinYears := orElse_eq_right_iff.mp h.experienceMinYears
        experienceMaxYears := orElse_eq_right_iff.mp h.experienceMaxYears
        experienceText := preferText_eq_right_iff.mp h.experienceText
        roleFamily := h.roleFamily
        salaryMin := orElse_eq_right_iff.mp h.salaryMin
        salaryMax := orElse_eq_right_iff.mp h.salaryMax
        salaryCurrency := ite_eq_right_iff.mp h.salaryCurrency
        salaryText := preferText_eq_right_iff.mp h.salaryText
        salaryPeriod := ite_eq_right_iff.mp h.salaryPeriod
        postedAt := orElse_eq_right_iff.mp h.postedAt
        sourceUpdatedAt := orElse_eq_right_iff.mp h.sourceUpdatedAt }
  · intro h
    exact
      { companyId := orElse_eq_right_iff.mpr h.companyId
        title := ite_eq_right_iff.mpr h.title
        normalizedTitle := ite_eq_right_iff.mpr h.normalizedTitle
        description := preferText_eq_right_iff.mpr h.description
        location := ite_eq_right_iff.mpr h.location
        normalizedLocation := ite_eq_right_iff.mpr h.normalizedLocation
        employmentType := preferText_eq_right_iff.mpr h.employmentType
        remoteType := orElse_eq_right_iff.mpr h.remoteType
        skills := map_preferList_eq_right_iff.mpr h.skills
        experienceMinYears := orElse_eq_right_iff.mpr h.experienceMinYears
        experienceMaxYears := orElse_eq_right_iff.mpr h.experienceMaxYears
        experienceText := preferText_eq_right_iff.mpr h.experienceText
        roleFamily := h.roleFamily
        salaryMin := orElse_eq_right_iff.mpr h.salaryMin
        salaryMax := orElse_eq_right_iff.mpr h.salaryMax
        salaryCurrency := ite_eq_right_iff.mpr h.salaryCurrency
        salaryText := preferText_eq_right_iff.mpr h.salaryText
        salaryPeriod := ite_eq_right_iff.mpr h.salaryPeriod
        postedAt := orElse_eq_right_iff.mpr h.postedAt
        sourceUpdatedAt := orElse_eq_right_iff.mpr h.sourceUpdatedAt }

/-- The same for a listing that is merged into a legacy row. -/
theorem sameLegacyContent_merged_iff {g : GlobalJob} {id : UUID} {now : Time} :
    SameLegacyContent u g (mergeValues g (incomingValues id job now)) ↔ LegacySupplied u job g := by
  constructor
  · intro h
    exact
      { jobTitle := h.jobTitle
        normalizedTitle := h.normalizedTitle
        roleFamily := h.roleFamily
        company := preferText_eq_right_iff.mp h.company
        location := preferText_eq_right_iff.mp h.location
        jobUrl := preferText_eq_right_iff.mp h.jobUrl
        description := preferText_eq_right_iff.mp h.description
        salaryText := preferText_eq_right_iff.mp h.salaryText
        employmentType := preferText_eq_right_iff.mp h.employmentType
        remote := orElse_eq_right_iff.mp h.remote
        skills := map_preferList_eq_right_iff.mp h.skills
        postedAt := orElse_eq_right_iff.mp h.postedAt
        experienceMinYears := orElse_eq_right_iff.mp h.experienceMinYears
        experienceMaxYears := orElse_eq_right_iff.mp h.experienceMaxYears
        experienceText := preferText_eq_right_iff.mp h.experienceText }
  · intro h
    exact
      { jobTitle := h.jobTitle
        normalizedTitle := h.normalizedTitle
        roleFamily := h.roleFamily
        company := preferText_eq_right_iff.mpr h.company
        location := preferText_eq_right_iff.mpr h.location
        jobUrl := preferText_eq_right_iff.mpr h.jobUrl
        description := preferText_eq_right_iff.mpr h.description
        salaryText := preferText_eq_right_iff.mpr h.salaryText
        employmentType := preferText_eq_right_iff.mpr h.employmentType
        remote := orElse_eq_right_iff.mpr h.remote
        skills := map_preferList_eq_right_iff.mpr h.skills
        postedAt := orElse_eq_right_iff.mpr h.postedAt
        experienceMinYears := orElse_eq_right_iff.mpr h.experienceMinYears
        experienceMaxYears := orElse_eq_right_iff.mpr h.experienceMaxYears
        experienceText := preferText_eq_right_iff.mpr h.experienceText }

/-- A row that a listing has written keeps its content when the same listing refreshes it. -/
theorem sameContent_refreshed (hsame : ListingsAgree u job job')
    (hderived : job.normalizedTitle = job'.normalizedTitle ∧ job.roleFamily = job'.roleFamily ∧
      job.normalizedLocation = job'.normalizedLocation) (hwritten : WrittenBy rt job company j) :
    SameContent u j (refreshedJob rt j job' company observedAt) := by
  have hskills := hsame.skills
  have hreal : job'.hasRealTitle = job.hasRealTitle := by
    rw [NormalizedJob.hasRealTitle, NormalizedJob.hasRealTitle, hsame.title]
  cases hwritten with
  | created id observedAt' hfresh =>
      obtain ⟨seen, active, rfl⟩ := hfresh
      constructor <;>
        simp [refreshedJob, createdJob, ← hsame.title, ← hsame.location, ← hsame.description,
          ← hsame.salaryText, ← hsame.salaryMin, ← hsame.salaryMax, ← hsame.salaryCurrency,
          ← hsame.salaryPeriod, ← hsame.employmentType, ← hsame.remote, ← hsame.remoteType,
          ← hsame.postedAt, ← hsame.sourceUpdatedAt, ← hsame.experienceMinYears,
          ← hsame.experienceMaxYears, ← hsame.experienceText, ← hderived.1, ← hderived.2.1,
          ← hderived.2.2, map_preferList_self hskills]
  | refreshed j₀ observedAt' hfresh =>
      obtain ⟨seen, active, rfl⟩ := hfresh
      constructor <;>
        simp [refreshedJob, hreal, ← hsame.title, ← hsame.location, ← hsame.description,
          ← hsame.salaryText, ← hsame.salaryMin, ← hsame.salaryMax, ← hsame.salaryCurrency,
          ← hsame.salaryPeriod, ← hsame.employmentType, ← hsame.remote, ← hsame.remoteType,
          ← hsame.postedAt, ← hsame.sourceUpdatedAt, ← hsame.experienceMinYears,
          ← hsame.experienceMaxYears, ← hsame.experienceText, ← hderived.1, ← hderived.2.1,
          ← hderived.2.2, map_preferList hskills]

/-- A legacy row that a listing has written keeps its content when the same listing is merged
into it. -/
theorem sameLegacyContent_merged {g : GlobalJob} {id : UUID} {now : Time}
    (hsame : ListingsAgree u job job')
    (hderived : job.normalizedTitle = job'.normalizedTitle ∧ job.roleFamily = job'.roleFamily)
    (hwritten : LegacyWrittenBy job g) :
    SameLegacyContent u g (mergeValues g (incomingValues id job' now)) := by
  have hskills := hsame.skills
  cases hwritten with
  | inserted id' now' hrow =>
      subst hrow
      constructor <;>
        simp [mergeValues, incomingValues, ← hsame.title, ← hsame.company, ← hsame.location,
          ← hsame.jobUrl, ← hsame.description, ← hsame.salaryText, ← hsame.employmentType,
          ← hsame.remote, ← hsame.postedAt, ← hsame.experienceMinYears,
          ← hsame.experienceMaxYears, ← hsame.experienceText, ← hderived.1, ← hderived.2,
          map_preferList_self hskills]
  | merged g₀ id' now' hrow =>
      subst hrow
      constructor <;>
        simp [mergeValues, incomingValues, ← hsame.title, ← hsame.company, ← hsame.location,
          ← hsame.jobUrl, ← hsame.description, ← hsame.salaryText, ← hsame.employmentType,
          ← hsame.remote, ← hsame.postedAt, ← hsame.experienceMinYears,
          ← hsame.experienceMaxYears, ← hsame.experienceText, ← hderived.1, ← hderived.2,
          map_preferList hskills]

end

section

variable {u : Unicode} {parsing : Parsing} {rt : Runtime} {raw raw' : RawSourceJob}
  {job job' : NormalizedJob} {c c' c₁ : Database} {company : Option Company}
  {o : JobSourceObservation} {j : CanonicalJob} {observedAt : Time} {choice : IngestChoice}
  {result : IngestionResult}

/-- What an ingestion of a listing with the stored hash reports and writes. -/
theorem reobserved_of_ingest (hgraph : Graph c)
    (hsource : c.getSource job.source job.externalJobId = some o)
    (hhash : o.contentHash = job.contentHash) (hjob : c.getJob o.jobId = some j)
    (hcompany : c.resolveCompany job choice.companyId = some (c₁, company))
    (h : ingest rt c job observedAt choice = some (c', result)) :
    result.action = .reobserved ∧ ∀ j', j' ∈ c'.jobs ∧ j'.id = j.id ↔
      j' = refreshedJob rt j job company observedAt := by
  constructor
  · rw [ingest, hsource] at h
    simp only [reobserve, Option.bind_eq_bind, Option.bind_eq_some_iff, Option.pure_def,
      Option.some.injEq, Prod.mk.injEq] at h
    obtain ⟨_, _, _, _, _, _, _, rfl⟩ := h
    simp [hhash]
  · intro j'
    cases ingested_of_ingest h with
    | reobserved c₂ seen canonical company' hsource' hcompany' hjob' _ hjobs _ =>
        rw [hsource] at hsource'
        cases hsource'
        rw [hjob] at hjob'
        cases hjob'
        rw [hcompany] at hcompany'
        cases hcompany'
        have hkey : j.id = (refreshedJob rt j job company observedAt).id := rfl
        have hmem := (getJob_eq_some hjob).1
        rw [hjobs, mem_put hgraph.jobIds hmem hkey]
        constructor
        · rintro ⟨hj' | ⟨hj', hne⟩, hid⟩
          · exact hj'
          · exact absurd (hgraph.jobIds.eq hj' hmem hid) hne
        · rintro rfl
          exact ⟨Or.inl rfl, rfl⟩
    | created _ _ hsource' => rw [hsource] at hsource'; contradiction
    | merged _ _ _ hsource' => rw [hsource] at hsource'; contradiction

/-- What a legacy write of a listing with the stored hash reports and writes. -/
theorem skipped_of_upsert {t t' : LegacyTable} {g row : GlobalJob} {status : JobUpsertStatus}
    {now : Time} {newId : UUID} (hget : t.get job.source job.externalJobId = some g)
    (hhash : g.contentHash = job.contentHash)
    (h : t.upsertWithOutcome job now newId = some (t', row, status)) :
    status = .skipped ∧ row = mergeValues g (incomingValues newId job now) := by
  rw [LegacyTable.upsertWithOutcome, hget] at h
  obtain ⟨_, _, heq⟩ := Option.map_eq_some_iff.mp h
  simp only [Prod.mk.injEq] at heq
  obtain ⟨_, rfl, rfl⟩ := heq
  exact ⟨if_pos hhash, rfl⟩

end

/-! ## Listings with one hash -/

/-- A listing that comes after another one with its hash is reported as seen before, and the
canonical job keeps its content exactly if it has what the listing supplies. -/
def ReobservedIffSupplied (u : Unicode) (job job' : NormalizedJob) : Prop :=
  ∀ (rt : Runtime) (c c₁ c' : Database) (company : Option Company) (o : JobSourceObservation)
    (j : CanonicalJob) (observedAt : Time) (choice : IngestChoice) (result : IngestionResult),
    Graph c → c.getSource job.source job.externalJobId = some o →
      o.contentHash = job.contentHash → c.getJob o.jobId = some j →
      c.resolveCompany job' choice.companyId = some (c₁, company) →
      ingest rt c job' observedAt choice = some (c', result) →
      result.action = .reobserved ∧
        ((∀ j' ∈ c'.jobs, j'.id = j.id → SameContent u j j') ↔ Supplied u job' company j)

/-- The same for the legacy row. -/
def SkippedIffSupplied (u : Unicode) (job job' : NormalizedJob) : Prop :=
  ∀ (t t' : LegacyTable) (g row : GlobalJob) (status : JobUpsertStatus) (now : Time)
    (newId : UUID), t.get job.source job.externalJobId = some g →
      g.contentHash = job.contentHash →
      t.upsertWithOutcome job' now newId = some (t', row, status) →
      status = .skipped ∧ (SameLegacyContent u g row ↔ LegacySupplied u job' g)

/-- The rows that a listing was the last one to write have what another listing supplies. -/
structure WriterSupplies (u : Unicode) (job job' : NormalizedJob) : Prop where
  canonical : ∀ (rt : Runtime) (company : Option Company) (j : CanonicalJob),
    WrittenBy rt job company j → Supplied u job' company j
  legacy : ∀ g : GlobalJob, LegacyWrittenBy job g → LegacySupplied u job' g

/-- Two normalized listings of one identity with one content hash agree in every field that
changes, skills up to case, exactly if their payloads give the same experience, salary and
workplace type, as stated or else as read from the texts.  The second one is then reported as
unchanged, and changes nothing exactly if the rows have what it supplies, as they do if the first
one was the last to write them. -/
theorem content_hash_covers_iff (u : Unicode) (parsing : Parsing) (sha256 : List UInt8 → String)
    (hsha : Function.Injective sha256) (raw raw' : RawSourceJob) (job job' : NormalizedJob)
    (h : normalizeJob u { parsing with digest := contentDigest sha256 } raw = .ok job)
    (h' : normalizeJob u { parsing with digest := contentDigest sha256 } raw' = .ok job')
    (hsource : job.source = job'.source) (hid : job.externalJobId = job'.externalJobId)
    (hhash : job.contentHash = job'.contentHash) :
    (ListingsAgree u job job' ↔ StatedAlike parsing raw raw') ∧
      ReobservedIffSupplied u job job' ∧ SkippedIffSupplied u job job' ∧
      (StatedAlike parsing raw raw' → WriterSupplies u job job') := by
  have hcontent : job.content u = job'.content u := by
    rw [contentHash_eq h, contentHash_eq h'] at hhash
    exact contentDigest_injective hsha hhash
  have hiff : ListingsAgree u job job' ↔ StatedAlike parsing raw raw' := by
    rw [listingsAgree_iff h h' hcontent]
    exact ⟨fun halike => ⟨halike.experience, halike.amounts, halike.remoteType⟩,
      fun halike => ⟨halike.experience, halike.amounts, halike.remoteType⟩⟩
  refine ⟨hiff, ?_, ?_, fun halike => ?_⟩
  · intro rt c c₁ c' company o j observedAt choice result hgraph ho hohash hj hresolve hingest
    rw [hsource, hid] at ho
    obtain ⟨haction, hrows⟩ := reobserved_of_ingest hgraph ho (hohash.trans hhash) hj hresolve
      hingest
    refine ⟨haction, ?_⟩
    simp only [← and_imp, hrows, forall_eq]
    exact sameContent_refreshed_iff
  · intro t t' g row status now newId hg hghash hupsert
    rw [hsource, hid] at hg
    obtain ⟨hstatus, hrow⟩ := skipped_of_upsert hg (hghash.trans hhash) hupsert
    refine ⟨hstatus, ?_⟩
    rw [hrow]
    exact sameLegacyContent_merged_iff
  have hsame := hiff.mpr halike
  obtain ⟨htitle, hrole, -, hlocation⟩ := derived_eq h
  obtain ⟨htitle', hrole', -, hlocation'⟩ := derived_eq h'
  have htitles : job.normalizedTitle = job'.normalizedTitle := by
    rw [htitle, htitle', hsame.title]
  have hroles : job.roleFamily = job'.roleFamily := by
    rw [hrole, hrole', hsame.title]
  have hlocations : job.normalizedLocation = job'.normalizedLocation := by
    rw [hlocation, hlocation', hsame.location]
  constructor
  · intro rt company j hwritten
    have hkept : SameContent u j (refreshedJob rt j job' company 0) :=
      sameContent_refreshed hsame ⟨htitles, hroles, hlocations⟩ hwritten
    exact sameContent_refreshed_iff.mp hkept
  · intro g hwritten
    have hkept : SameLegacyContent u g (mergeValues g (incomingValues 0 job' 0)) :=
      sameLegacyContent_merged hsame ⟨htitles, hroles⟩ hwritten
    exact sameLegacyContent_merged_iff.mp hkept

/-- An injective function in place of the hash. -/
def plainSha256 (bytes : List UInt8) : String :=
  String.ofList (bytes.map fun b => Char.ofNat b.toNat)

theorem plainSha256_injective : Function.Injective plainSha256 := by
  have hbyte : Function.Injective fun b : UInt8 => Char.ofNat b.toNat := by
    have hvalid : ∀ b : UInt8, b.toNat.isValidChar := by
      intro b
      have hlt := b.toNat_lt
      exact Or.inl (by omega)
    intro a b hab
    have hnat := congrArg Char.toNat hab
    rw [Char.toNat_ofNat, Char.toNat_ofNat, if_pos (hvalid a), if_pos (hvalid b)] at hnat
    exact UInt8.toNat_inj.mp hnat
  intro a b hab
  exact List.map_injective_iff.mpr hbyte (String.ofList_injective hab)

/-- The parsing of nothing, with digests of the content. -/
def digestParsing : Parsing :=
  { titleParsing with digest := contentDigest plainSha256 }

/-- A payload with a minimum salary. -/
def paidListing (salaryMin : ℚ) (rawData : RawData) : RawSourceJob where
  source := "dice"
  externalJobId := "a1"
  title := "Backend Engineer"
  salaryMin := some salaryMin
  rawData := rawData

/-- Payloads that differ in the raw data alone. -/
theorem content_hash_covers_iff_same : ∃ job job',
    normalizeJob .ascii digestParsing (paidListing 100000 []) = .ok job ∧
      normalizeJob .ascii digestParsing (paidListing 100000 [("page", "2")]) = .ok job' ∧
      ListingsAgree .ascii job job' :=
  ⟨_, _, rfl, rfl,
    (content_hash_covers_iff .ascii titleParsing plainSha256 plainSha256_injective
      (paidListing 100000 []) (paidListing 100000 [("page", "2")]) _ _ rfl rfl rfl rfl
      rfl).1.mpr ⟨rfl, rfl, rfl⟩⟩

/-- The same with URLs. -/
def linkParsing : Parsing :=
  { digestParsing with normalizeUrl := id }

/-- A payload with a description, all of them with one URL. -/
def linkedListing (externalJobId description : String) : RawSourceJob where
  source := "dice"
  externalJobId := externalJobId
  title := "Backend Engineer"
  url := some "https://www.dice.com/job-detail/a1"
  description := some description

/-- Payloads with one hash that state different salaries; the second one replaces the salary of
the first.  A listing that shares its opening with another one replaces the description of the
opening when it comes again. -/
theorem amounts_not_covered :
    (Function.Injective plainSha256 ∧ ∃ job job',
      normalizeJob .ascii digestParsing (paidListing 100000 []) = .ok job ∧
        normalizeJob .ascii digestParsing (paidListing 90000 []) = .ok job' ∧
        job.source = job'.source ∧ job.externalJobId = job'.externalJobId ∧
        job.contentHash = job'.contentHash ∧ ¬ListingsAgree .ascii job job' ∧
        (createdJob sampleRuntime 2 job none 5).salaryMin = some 100000 ∧
        (refreshedJob sampleRuntime (createdJob sampleRuntime 2 job none 5) job' none
          6).salaryMin = some 90000) ∧
      ∃ first second,
        normalizeJob .ascii linkParsing (linkedListing "a1" "Build services.") = .ok first ∧
        normalizeJob .ascii linkParsing (linkedListing "a2" "Run services.") = .ok second ∧
        let c := run sampleRuntime empty
          [.ingest first 10 ⟨1, 2, 3, 0⟩, .ingest second 20 ⟨4, 5, 6, 0⟩]
        (c.getJob 2).map (·.description) = some (some "Build services.") ∧
        (ingest sampleRuntime c second 30 ⟨7, 8, 9, 0⟩).map (fun seen =>
          (seen.2.action, (seen.1.getJob 2).map (·.description))) =
            some (.reobserved, some (some "Run services.")) := by
  constructor
  · refine ⟨plainSha256_injective, _, _, rfl, rfl, rfl, rfl, rfl, ?_, rfl, rfl⟩
    intro hsame
    exact absurd hsame.salaryMin (by decide)
  · refine ⟨_, _, rfl, rfl, by decide, by decide +kernel⟩

end Catalogue
end HireAndTech
