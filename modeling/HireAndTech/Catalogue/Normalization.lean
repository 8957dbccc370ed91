import HireAndTech.Catalogue.Rows
import HireAndTech.Runs.Partial
import HireAndTech.Text.Regex

/-!
# Normalization of source jobs

`normalize_job` turns the payload of a collector into a listing.  The extraction of
experience, salary, skills and employment from free text, and the rendering of URLs and of
the digested content, are parameters.

A refresh keeps the title of a row when the listing has a placeholder title, and takes the
role of the listing in any case.

Main results:

- Definitions {lit}`normalizeTitle`, {lit}`normalizeRole` and {lit}`normalizeJob`.
- Theorem {lit}`titleCoherent_step`: when an ingestion keeps titles and roles together.
- Theorem {lit}`title_role_coherent_iff`: the same for runs.
-/

namespace HireAndTech
namespace Catalogue

open Relational Text

/-! ## Titles, names and places -/

variable (u : Unicode)

/-- A character that `normalize_title` keeps. -/
def isTitleChar (c : Char) : Bool :=
  u.isWord c || c ∈ ['+', '/', '#', '&', '.', '-']

/-- `normalize_title`. -/
def normalizeTitle (title : String) : String :=
  let kept := (u.casefold title.toList).map fun c => if isTitleChar u c then c else ' '
  String.ofList (strip isSpace (collapse isSpace kept))

/-- `" ".join(unicode_normalize("NFKC", …).casefold().split())`. -/
def normalizeName (name : String) : String :=
  String.ofList (joinWords isSpace (u.casefold (u.nfkc name.toList)))

/-- `normalize_company_name`. -/
def normalizeCompanyName (company : String) : String :=
  normalizeName u company

/-- `normalize_location`. -/
def normalizeLocation (location : String) : String :=
  normalizeName u location

/-- `" ".join(….split())`. -/
def joinSplit (text : String) : String :=
  String.ofList (joinWords isSpace text.toList)

/-! ## Roles -/

/-- One of several expressions between word boundaries. -/
def wholeWords (rs : List Regex) : Regex :=
  .sequence [.boundary u.isWord, .anyOf rs, .boundary u.isWord]

/-- Two literals with an optional blank or hyphen between them. -/
def hyphenated (first second : String) : Regex :=
  .sequence [.text first, .optional (.satisfy fun c => c = ' ' || c = '-'), .text second]

/-- The patterns of `normalize_role` in their order, each with its role. -/
def rolePatterns : List (Regex × String) :=
  [(wholeWords u [.text "site reliability", .text "sre"], "sre"),
    (wholeWords u [.text "devops", .text "dev ops"], "devops"),
    (wholeWords u [.text "platform", .text "infrastructure"], "platform"),
    (wholeWords u [.text "cloud"], "cloud"),
    (wholeWords u [hyphenated "full" "stack"], "fullstack"),
    (wholeWords u [hyphenated "front" "end", .text "react", .text "angular", .text "vue"],
      "frontend"),
    (wholeWords u [hyphenated "back" "end", .text "api engineer"], "backend"),
    (wholeWords u [.text "machine learning", .text "ml engineer"], "machine_learning"),
    (wholeWords u [.text "data scientist", .text "data science"], "data_science"),
    (wholeWords u [.text "data engineer", .text "analytics engineer"], "data_engineering"),
    (wholeWords u [.text "qa", .text "quality assurance", .text "test automation"], "qa"),
    (wholeWords u [.text "security", .text "cyber"], "security"),
    (wholeWords u [.text "ios", .text "android", .text "mobile"], "mobile"),
    (wholeWords u [.text "accountant", .text "accounting"], "accounting"),
    (wholeWords u [.text "product manager", .text "product management"], "product_management"),
    (wholeWords u [.text "marketing"], "marketing"),
    (wholeWords u [.text "software engineer", .text "software developer"],
      "software_engineering")]

/-- `normalize_role`. -/
def normalizeRole (title : String) : String :=
  let value := (normalizeTitle u title).toList
  (((rolePatterns u).find? fun pattern => pattern.1.search value).map (·.2)).getD "other"

/-- `ROLE_COMPATIBILITY`. -/
def roleCompatibility : List (String × List String) :=
  [("devops", ["devops", "sre", "platform", "cloud"]),
    ("sre", ["devops", "sre", "platform", "cloud"]),
    ("platform", ["devops", "sre", "platform", "cloud"]),
    ("cloud", ["devops", "sre", "platform", "cloud"]),
    ("backend", ["backend", "software_engineering", "fullstack"]),
    ("frontend", ["frontend", "fullstack"]),
    ("fullstack", ["fullstack", "backend", "frontend", "software_engineering"]),
    ("software_engineering", ["software_engineering", "backend", "frontend", "fullstack"]),
    ("data_engineering", ["data_engineering"]),
    ("data_science", ["data_science", "machine_learning"]),
    ("machine_learning", ["machine_learning", "data_science"]),
    ("qa", ["qa"]),
    ("security", ["security"]),
    ("mobile", ["mobile"])]

/-- `roles_compatible`. -/
def rolesCompatible (candidateRole jobRole : String) : Bool :=
  let role := normalizeRole u candidateRole
  jobRole ∈ (roleCompatibility.lookup role).getD [role]

/-! ## Jobs -/

/-- A `datetime`: a reading of a wall clock, and the offset of the clock when it is known. -/
structure DateTime where
  wall : Time
  utcOffset : Option Int
deriving DecidableEq, Repr

/-- `_as_utc`. -/
def asUtc (value : Option DateTime) : Option Time :=
  value.map fun d => (d.wall - d.utcOffset.getD 0 : Int).toNat

/-- Source-neutral job payload emitted by every collector adapter. -/
structure RawSourceJob where
  source : String
  externalJobId : String
  title : String
  company : Option String := none
  location : Option String := none
  url : Option String := none
  description : Option String := none
  salaryText : Option String := none
  salaryMin : Option ℚ := none
  salaryMax : Option ℚ := none
  salaryCurrency : Option String := none
  salaryPeriod : Option String := none
  employmentType : Option String := none
  remote : Option Bool := none
  remoteType : Option RemoteType := none
  postedAt : Option DateTime := none
  sourceUpdatedAt : Option DateTime := none
  skills : List String := []
  experienceMinYears : Option Int := none
  experienceMaxYears : Option Int := none
  experienceText : Option String := none
  rawData : RawData := []
deriving DecidableEq, Repr

/-- The content of a listing that its digest covers. -/
structure Content where
  company : Option String
  description : Option String
  employmentType : Option String
  jobUrl : Option String
  location : Option String
  postedAt : Option Time
  remote : Option Bool
  salaryText : Option String
  skills : List (List Char)
  sourceUpdatedAt : Option Time
  title : String
deriving DecidableEq, Repr

/-- The amounts, currency, period and text of a salary. -/
structure Salary where
  min : Option ℚ
  max : Option ℚ
  currency : Option String
  period : Option String
  text : Option String
deriving DecidableEq, Repr

/-- What `normalize_job` calls of the parsing package and of the runtime. -/
structure Parsing where
  extractExperience : String → Option Int × Option Int × Option String
  parseSalary : String → Salary
  extractSkillsFromText : Option String → List String
  mergeSkills : List String → List String → List String
  normalizeEmploymentType : String → Option String
  normalizeRemoteType : String → Option Bool → Option RemoteType
  normalizeUrl : Option String → Option String
  digest : Content → String

variable (parsing : Parsing)

/-- The experience of a payload, or else the one that its text states. -/
def experienceOf (raw : RawSourceJob) : Option Int × Option Int × Option String :=
  if raw.experienceMinYears.isNone && raw.experienceMaxYears.isNone &&
      !truthy raw.experienceText then
    parsing.extractExperience (raw.title ++ "\n" ++ raw.description.getD "")
  else (raw.experienceMinYears, raw.experienceMaxYears, raw.experienceText)

/-- The salary of a payload, or else the one that its text states. -/
def salaryOf (raw : RawSourceJob) : Salary :=
  let given : Salary :=
    ⟨raw.salaryMin, raw.salaryMax, raw.salaryCurrency, raw.salaryPeriod, raw.salaryText⟩
  if raw.salaryMin.isNone && raw.salaryMax.isNone then
    let parsed := parsing.parseSalary (raw.salaryText.getD "" ++ "\n" ++ raw.description.getD "")
    if parsed.min.isSome || parsed.max.isSome then
      { parsed with text := if truthy raw.salaryText then raw.salaryText else parsed.text }
    else given
  else given

/-- The skills of a payload and of its description, sorted by their folded text. -/
def skillsOf (raw : RawSourceJob) : List String :=
  (parsing.mergeSkills raw.skills (parsing.extractSkillsFromText raw.description)).insertionSort
    fun a b => u.casefold a.toList ≤ u.casefold b.toList

/-- `normalize_job`. -/
def normalizeJob (raw : RawSourceJob) : Except String NormalizedJob :=
  let source := String.ofList (u.casefold (strip isSpace raw.source.toList))
  let externalJobId := String.ofList (strip isSpace raw.externalJobId.toList)
  let jobTitle := joinSplit raw.title
  if source = "" || externalJobId = "" || jobTitle = "" then
    .error "source, external job ID, and title must not be blank"
  else
    let (minimum, maximum, experienceText) := experienceOf parsing raw
    let salary := salaryOf parsing raw
    let skills := skillsOf u parsing raw
    let employmentType :=
      if truthy raw.employmentType then raw.employmentType
      else parsing.normalizeEmploymentType (raw.title ++ "\n" ++ raw.description.getD "")
    let remoteType := raw.remoteType <|> parsing.normalizeRemoteType
      (raw.location.getD "" ++ "\n" ++ raw.description.getD "") raw.remote
    let remote :=
      if raw.remote.isNone && remoteType = some .remote then some true else raw.remote
    let url := parsing.normalizeUrl raw.url
    let company := if truthy raw.company then raw.company.map joinSplit else none
    let location := if truthy raw.location then raw.location.map joinSplit else none
    let postedAt := asUtc raw.postedAt
    let sourceUpdatedAt := asUtc raw.sourceUpdatedAt
    let content : Content :=
      { company, description := raw.description, employmentType, jobUrl := url, location, postedAt
        remote, salaryText := salary.text
        skills := (skills.map fun skill => u.casefold skill.toList).insertionSort (· ≤ ·)
        sourceUpdatedAt, title := jobTitle }
    .ok
      { source, externalJobId, jobTitle
        normalizedTitle := normalizeTitle u jobTitle
        roleFamily := normalizeRole u jobTitle
        company
        normalizedCompany := if truthy company then company.map (normalizeCompanyName u) else none
        location
        normalizedLocation := if truthy location then location.map (normalizeLocation u) else none
        jobUrl := url
        description := raw.description
        salaryText := salary.text
        employmentType, remote, skills, postedAt, sourceUpdatedAt
        experienceMinYears := minimum
        experienceMaxYears := maximum
        experienceText
        contentHash := parsing.digest content
        rawData := raw.rawData
        salaryMin := salary.min
        salaryMax := salary.max
        salaryCurrency := salary.currency
        salaryPeriod := salary.period
        remoteType }

section

variable {u parsing} {raw : RawSourceJob} {job : NormalizedJob}

/-- The title of a normalized listing, and what is derived from it. -/
theorem normalizeJob_title (h : normalizeJob u parsing raw = .ok job) :
    job.jobTitle = joinSplit raw.title ∧ job.normalizedTitle = normalizeTitle u job.jobTitle ∧
      job.roleFamily = normalizeRole u job.jobTitle := by
  unfold normalizeJob at h
  dsimp only at h
  split at h
  · contradiction
  · cases h
    dsimp only
    exact ⟨rfl, rfl, rfl⟩

end

/-! ## Coherence of titles and roles -/

/-- Every row has the normalized form and the role of its title. -/
def TitleCoherent (c : Database) : Prop :=
  ∀ j ∈ c.jobs,
    j.normalizedTitle = normalizeTitle u j.title ∧ j.roleFamily = normalizeRole u j.title

/-- A payload that a collector hands over, with what the ingestion of it reads. -/
structure Collected where
  raw : RawSourceJob
  observedAt : Time
  choice : IngestChoice
deriving DecidableEq, Repr

/-- The normalization of a payload followed by its ingestion. -/
def collect (rt : Runtime) (c : Database) (call : Collected) : Option Database :=
  match normalizeJob u parsing call.raw with
  | .error _ => none
  | .ok job => step rt c (.ingest job call.observedAt call.choice)

/-- A listing that comes back with a placeholder title has the role of the title that is
kept. -/
def PlaceholderKept (c : Database) (call : Collected) : Prop :=
  match normalizeJob u parsing call.raw with
  | .error _ => True
  | .ok job =>
      job.hasRealTitle = false →
        ∀ o ∈ c.getSource job.source job.externalJobId, ∀ j ∈ c.getJob o.jobId,
          normalizeRole u job.jobTitle = normalizeRole u j.title

section

variable {u parsing} {rt : Runtime} {c c' : Database} {raw : RawSourceJob} {job : NormalizedJob}
  {observedAt : Time} {choice : IngestChoice}

/-- The refreshed row of a listing that has been seen before is in the table afterwards. -/
theorem refreshedJob_mem {o : JobSourceObservation} {j : CanonicalJob}
    (hsource : c.getSource job.source job.externalJobId = some o) (hjob : c.getJob o.jobId = some j)
    (hstep : step rt c (.ingest job observedAt choice) = some c') :
    ∃ company, refreshedJob rt j job company observedAt ∈ c'.jobs := by
  obtain ⟨⟨_, result⟩, hingest, rfl⟩ := Option.map_eq_some_iff.mp hstep
  cases ingested_of_ingest hingest with
  | reobserved c₁ o' j' company hsource' _ hjob' _ hjobs _ =>
      rw [hsource] at hsource'
      cases hsource'
      rw [hjob] at hjob'
      cases hjob'
      obtain ⟨hmem, _⟩ := getJob_eq_some hjob
      refine ⟨company, ?_⟩
      rw [hjobs, put, mem_updateWhere]
      exact ⟨j, hmem, if_pos (decide_eq_true rfl)⟩
  | created _ _ hsource' => rw [hsource] at hsource'; contradiction
  | merged _ _ _ hsource' => rw [hsource] at hsource'; contradiction

/-- The titles and the role of a row after a refresh. -/
theorem refreshedJob_title (j : CanonicalJob) (company : Option Company)
    (h : normalizeJob u parsing raw = .ok job)
    (hj : j.normalizedTitle = normalizeTitle u j.title ∧ j.roleFamily = normalizeRole u j.title) :
    ((refreshedJob rt j job company observedAt).normalizedTitle =
        normalizeTitle u (refreshedJob rt j job company observedAt).title ∧
      (refreshedJob rt j job company observedAt).roleFamily =
        normalizeRole u (refreshedJob rt j job company observedAt).title) ↔
    (job.hasRealTitle = false → normalizeRole u job.jobTitle = normalizeRole u j.title) := by
  obtain ⟨_, htitle, hrole⟩ := normalizeJob_title h
  cases hreal : job.hasRealTitle with
  | true => simp [refreshedJob, hreal, htitle, hrole]
  | false => simp [refreshedJob, hreal, hj.1, hrole]

/-- The ingestion of a normalized listing keeps titles and roles together exactly when it
meets the condition. -/
theorem titleCoherent_step (call : Collected) (hgraph : Graph c) (hcoherent : TitleCoherent u c)
    (hstep : collect u parsing rt c call = some c') :
    TitleCoherent u c' ↔ PlaceholderKept u parsing c call := by
  unfold collect at hstep
  unfold PlaceholderKept
  cases hnormalize : normalizeJob u parsing call.raw with
  | error message =>
      rw [hnormalize] at hstep
      contradiction
  | ok job =>
      simp only [hnormalize] at hstep
      constructor
      · intro hafter hplaceholder o hsource j hjob
        obtain ⟨company, hmem⟩ := refreshedJob_mem hsource hjob hstep
        have hj := hcoherent j (getJob_eq_some hjob).1
        exact (refreshedJob_title j company hnormalize hj).mp (hafter _ hmem) hplaceholder
      · intro hkept j hj
        cases rowAfter_of_step hgraph hstep hj with
        | kept y _ hy hfresh =>
            obtain ⟨_, _, rfl⟩ := hfresh
            exact hcoherent y hy
        | refreshed _ _ _ c₁ o canonical company hsource _ hjob _ =>
            have hcanonical := hcoherent canonical (getJob_eq_some hjob).1
            apply (refreshedJob_title canonical company hnormalize hcanonical).mpr
            intro hplaceholder
            exact hkept hplaceholder o hsource canonical hjob
        | created => exact (normalizeJob_title hnormalize).2

end

/-- Over a run of ingestions from the empty catalogue, the rows have the normalized form and
the role of their titles in every state exactly when every ingestion meets the condition. -/
theorem title_role_coherent_iff (rt : Runtime) (calls : List Collected) :
    Runs.Throughout (collect u parsing rt) (TitleCoherent u) empty calls ↔
      Runs.Each (collect u parsing rt) (PlaceholderKept u parsing) empty calls := by
  apply Runs.throughout_iff_each (J := Graph)
  · intro c call c' hgraph hstep
    unfold collect at hstep
    split at hstep
    · contradiction
    · exact (hgraph.step hstep).1
  · intro c call c' hgraph hcoherent hstep
    exact titleCoherent_step call hgraph hcoherent hstep
  · exact graph_empty
  · simp [TitleCoherent, empty]

/-- What the parsing package finds in a title alone, with the digests of two listings. -/
def titleParsing : Parsing where
  extractExperience _ := (none, none, none)
  parseSalary _ := ⟨none, none, none, none, none⟩
  extractSkillsFromText _ := []
  mergeSkills explicit _ := explicit
  normalizeEmploymentType _ := none
  normalizeRemoteType _ _ := none
  normalizeUrl _ := none
  digest content :=
    if content.title = "Backend Engineer" then
      "1fd25a0a0dfea6a80e3dfedf0721cee9ee86b0591bf92b9d9fe136114293df15"
    else "29c937280e7e0697a61c65dd9c4dc1895f4c36c81fed16707c1f3b0b11430984"

/-- A collector that finds no title the second time replaces the role of the first. -/
theorem placeholder_replaces_role :
    ¬Runs.Throughout
      (collect .ascii titleParsing undatedRuntime) (TitleCoherent .ascii) empty
      [⟨{ source := "hiringcafe", externalJobId := "h1", title := "Backend Engineer" }, 1,
          ⟨1, 2, 3, 0⟩⟩,
        ⟨{ source := "hiringcafe", externalJobId := "h1", title := "Unknown Title" }, 2,
          ⟨4, 5, 6, 0⟩⟩] := by
  intro h
  have hcoherent := h.final
  revert hcoherent
  unfold TitleCoherent
  decide

end Catalogue
end HireAndTech
