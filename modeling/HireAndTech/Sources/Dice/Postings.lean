import HireAndTech.Extraction.EmploymentType
import HireAndTech.Extraction.Experience
import HireAndTech.Extraction.Skills
import HireAndTech.Salaries.Bounds
import HireAndTech.Sources.Dice.Values
import HireAndTech.Text.FromIsoFormat
import HireAndTech.Text.UrlJoin

/-!
# Postings of Dice

{lit}`DiceCollector._job_from_mapping` converts a mapping into a job.  A mapping without a title or
an identifier is no job.  Of any other one every field is converted, and four conversions can
raise: a boolean is no decimal number, an amount in thousands may overflow, a date may leave the
calendar when it is shifted to UTC, and a reference may not be a URL.

Main results:

- Definition {lit}`extractSalaryDetails`: the salary of a posting.
- Definition {lit}`parseDatetime`: the times of a posting.
- Definition {lit}`jobFromMapping`.
-/

namespace HireAndTech
namespace Sources
namespace Dice

open Text Catalogue Salaries Extraction

/-- The exceptions of the conversions. -/
inductive Raised
  | digits
  | invalidOperation
  | decimalOverflow
  | dateOverflow
  | invalidUrl
deriving DecidableEq, Repr

variable (pf : Platform) (fields : Fields)

/-! ## Texts -/

/-- `_first_text`. -/
def firstTextOf (keys : List String) : Except Raised (Option String) :=
  (firstText (viewFields fields) keys).mapError fun _ => .digits

/-- The text after its spaces have been collapsed, unless nothing is left. -/
def collapsed (s : String) : Option String :=
  if joinSplit s = "" then none else some (joinSplit s)

/-- `_JOB_ID_PATTERN`. -/
def jobIdPattern : Pattern Unit :=
  .seq (.plain (folded "/job-detail/"))
    (.group () (.plus (.satisfy fun c => c.isAlphanum || c = '_' || c = '-' ||
      ignoreCase c ∈ ['i', 's', 'k'])))

/-- `_extract_job_id`. -/
def extractJobId (url : String) : Option String :=
  ((jobIdPattern.finditer url.toList).head?.bind (·.group ())).map String.ofList

/-- The identifier of a mapping. -/
def externalIdOf (url : Option String) : Except Raised (Option String) := do
  let externalId ← firstTextOf fields
    ["guid", "id", "jobId", "jobID", "externalId", "external_job_id"]
  let identifier := (mappingAt fields "identifier").bind fun identifier =>
    (textAt identifier "value").bind fun value =>
      if stripText value = "" then none else some (stripText value)
  return (externalId <|> identifier) <|> url.bind extractJobId

/-- The name of a mapping. -/
def nameAt (key : String) : Option String :=
  (mappingAt fields key).bind fun company => (textAt company "name").bind collapsed

/-- `_extract_company`. -/
def extractCompany : Except Raised (Option String) :=
  match nameAt fields "hiringOrganization" <|> nameAt fields "company" with
  | some name => .ok (some name)
  | none => firstTextOf fields ["companyName", "company", "employerName"]

/-- `_location_from_mapping`. -/
def locationFromMapping (location : Fields) : Option String :=
  (mappingAt location "address").bind fun address =>
    let parts := ["addressLocality", "addressRegion", "addressCountry"].filterMap fun key =>
      (textAt address key).bind fun part =>
        if stripText part = "" then none else some (stripText part)
    if parts = [] then none else some (", ".intercalate parts)

/-- `_extract_location`. -/
def extractLocation : Except Raised (Option String) := do
  let direct ← firstTextOf fields ["location", "formattedLocation"]
  return direct <|>
    match fields.lookup "jobLocation" with
    | some (.arr items) =>
        let locations := items.filterMap fun
          | .obj location => locationFromMapping location
          | _ => none
        if locations = [] then none else some (" | ".intercalate locations)
    | some (.obj location) => locationFromMapping location
    | _ => none

/-! ## Salaries -/

/-- A decimal number. -/
inductive Amount
  | finite (x : ℚ)
  | nonFinite (text : String)
deriving DecidableEq, Repr

def Amount.value : Amount → Option ℚ
  | .finite x => some x
  | .nonFinite _ => none

/-- The details of a salary. -/
structure SalaryDetails where
  min : Option Amount
  max : Option Amount
  currency : Option String
  period : Option String
  text : Option String
deriving DecidableEq, Repr

/-- A salary that has been read of a text. -/
def detailsOf (salary : Salary) : SalaryDetails :=
  ⟨salary.min.map .finite, salary.max.map .finite, salary.currency, salary.period, salary.text⟩

/-- `Decimal(str(value))` of a number. -/
def amountAt (source : Fields) (key : String) : Except Raised (Option Amount) :=
  match source.lookup key with
  | some (.bool _) => .error .invalidOperation
  | some (.int n) => .ok (some (.finite n))
  | some (.float x) =>
      .ok (some (match x.decimal with
        | some value => .finite value
        | none => .nonFinite x.text))
  | _ => .ok none

/-- An end of a salary; the exact amount stands in for a missing one. -/
def orExact (source : Fields) : Option Amount → Except Raised (Option Amount)
  | some amount => .ok (some amount)
  | none => amountAt source "value"

/-- The two ends of a salary. -/
def salaryEnds (source : Fields) : Except Raised (Option Amount × Option Amount) := do
  let low ← amountAt source "minValue"
  let high ← amountAt source "maxValue"
  let low ← orExact source low
  let high ← orExact source high
  return (low, high)

/-- The names of a period. -/
def periodOf (unitText : String) : String :=
  if unitText ∈ ["year", "annual", "annually", "yr"] then "year"
  else if unitText ∈ ["hour", "hourly", "hr"] then "hour"
  else if unitText ∈ ["month", "monthly", "mo"] then "month"
  else unitText

/-- `parse_salary`. -/
def readSalary (text : String) : Except Raised Salary :=
  (parseSalaryChecked pf.unicode text).mapError fun _ => .decimalOverflow

/-- The details that the texts of a posting state. -/
def salaryFromTexts (description : Option String) : Except Raised SalaryDetails := do
  match ← firstTextOf fields ["salary", "salaryText"] with
  | some direct =>
      let salary ← readSalary pf direct
      if salary.min.isSome || salary.max.isSome then
        return { detailsOf salary with text := some direct }
      else return ⟨none, none, none, none, some direct⟩
  | none =>
      match description with
      | some description => return detailsOf (← readSalary pf description)
      | none => return ⟨none, none, none, none, none⟩

/-- `_extract_salary_details`. -/
def extractSalaryDetails (description : Option String) : Except Raised SalaryDetails := do
  match mappingAt fields "baseSalary" with
  | none => salaryFromTexts pf fields description
  | some baseSalary =>
      let source := sourceOf baseSalary
      let (low, high) ← salaryEnds source
      let currency := match (baseSalary.lookup "currency").filter truthyValue with
        | some currency =>
            String.ofList (pf.upper (strip isSpace (strValue pf.unicode currency).toList))
        | none => "USD"
      let period := (textAt source "unitText").map fun text =>
        periodOf (String.ofList (pf.lower (strip isSpace text.toList)))
      let text ← (extractSalary pf.lower (viewFields fields)).mapError fun _ => .digits
      if low.isSome || high.isSome then
        return ⟨low, high, some currency, period, text⟩
      else salaryFromTexts pf fields description

/-! ## Other fields -/

/-- `_extract_experience_details`. -/
def extractExperienceDetails (description : Option String) : Extraction.Experience :=
  let stated := match fields.lookup "experienceRequirements" with
    | some (.str s) => s
    | some (.obj requirements) =>
        match firstTruthy
            [requirements.lookup "monthsOfExperience", requirements.lookup "name"] with
        | some value => strValue pf.unicode value
        | none => ""
    | _ => ""
  extractExperience pf.unicode (stated ++ "\n" ++ description.getD "")

/-- The texts of a list without those that are blank. -/
def itemTexts (items : List JsonValue) : List String :=
  (items.map fun item => stripText (strValue pf.unicode item)).filter (· ≠ "")

/-- `_extract_employment_type`. -/
def extractEmploymentType : Option String :=
  match fields.lookup "employmentType" with
  | some (.str s) => collapsed s
  | some (.arr items) =>
      if itemTexts pf items = [] then none else some (", ".intercalate (itemTexts pf items))
  | _ => none

/-- `[,|;]`. -/
def isSkillSeparator (c : Char) : Bool :=
  c ∈ [',', '|', ';']

/-- `_extract_skills`. -/
def extractSkills : List String :=
  match fields.lookup "skills" with
  | some (.str s) =>
      ((s.toList.splitOnP isSkillSeparator).map fun skill => stripText (String.ofList skill)).filter
        (· ≠ "")
  | some (.arr items) => itemTexts pf items
  | _ => []

/-- `_extract_remote`. -/
def extractRemote (location : Option String) : Option Bool :=
  let flag := ["remote", "isRemote"].findSome? fun key =>
    match fields.lookup key with
    | some (.bool b) => some b
    | _ => none
  let workplace := (textAt fields "jobLocationType").any fun workplace =>
    hasWord ["telecommute", "remote"] (pf.unicode.casefold workplace.toList)
  let place := location.any fun location =>
    hasWord ["remote"] (pf.unicode.casefold location.toList)
  flag <|> if workplace || place then some true else none

/-- The microseconds of the years from 1 to 9999. -/
def calendarEnd : ℤ :=
  3652059 * 86400000000

/-- `candidate.replace("Z", "+00:00")`. -/
def replaceZulu (candidate : List Char) : List Char :=
  candidate.flatMap fun c => if c = 'Z' then "+00:00".toList else [c]

/-- The time that a text stands for, if it does. -/
def localTimeOf (value : String) : Option LocalTime :=
  fromisoformat (replaceZulu (strip isSpace value.toList))

/-- `_parse_datetime`: the microseconds from the beginning of year 1 in UTC. -/
def parseDatetime (value : Option String) : Except Raised (Option ℤ) :=
  match value.bind localTimeOf with
  | none => .ok none
  | some ⟨wall, none⟩ => .ok (some wall)
  | some ⟨wall, some offset⟩ =>
      if 0 ≤ wall - offset ∧ wall - offset < calendarEnd then .ok (some (wall - offset))
      else .error .dateOverflow

def diceUrl : List Char :=
  "https://www.dice.com".toList

/-- `_absolute_url`. -/
def absoluteUrl (url : Option String) : Except Raised (Option String) :=
  match url.filter (· ≠ "") with
  | none => .ok none
  | some url =>
      match urljoin pf.unicode diceUrl url.toList with
      | some joined => .ok (some (String.ofList joined))
      | none => .error .invalidUrl

/-! ## Jobs -/

/-- A time in UTC, as the catalogue keeps it: from 1970 on. -/
def datetimeOf (instant : ℤ) : DateTime :=
  ⟨(instant - epochDay * 86400000000).toNat, some 0⟩

/-- A job with the details of its salary and its times; the payload has the amounts that are
finite. -/
structure DetailedJob where
  raw : RawSourceJob
  salary : SalaryDetails
  postedAt : Option ℤ
  sourceUpdatedAt : Option ℤ

/-- `_job_from_mapping`. -/
def jobFromMapping : Except Raised (Option DetailedJob) := do
  let title ← firstTextOf fields ["title", "jobTitle", "name"]
  let url ← firstTextOf fields ["url", "jobUrl", "jobDetailUrl", "detailsPageUrl"]
  let externalId ← externalIdOf fields url
  match title, externalId with
  | some title, some externalId =>
      let company ← extractCompany fields
      let location ← extractLocation fields
      let description ← firstTextOf fields ["description", "jobDescription"]
      let salary ← extractSalaryDetails pf fields description
      let employmentType := extractEmploymentType pf fields <|>
        description.bind (normalizeEmploymentType pf.unicode)
      let posted ← firstTextOf fields ["datePosted", "postedDate", "posted_at", "date"]
      let postedAt ← parseDatetime posted
      let modified ← firstTextOf fields ["dateModified", "modifiedDate", "updated_at"]
      let sourceUpdatedAt ← parseDatetime modified
      let skills := mergeSkills pf.unicode pf.title (extractSkills pf fields)
        (extractSkillsFromText pf.unicode description)
      let flag := extractRemote pf fields location
      let remoteType := normalizeRemoteType pf.unicode
        (location.getD "" ++ "\n" ++ description.getD "") flag
      let remote := if flag.isNone && remoteType = some .remote then some true else flag
      let (experienceMin, experienceMax, experienceText) :=
        extractExperienceDetails pf fields description
      let absolute ← absoluteUrl pf url
      return some
        { raw :=
            { source := "dice", externalJobId := externalId, title, company, location
              url := absolute
              description
              salaryText := salary.text
              salaryMin := salary.min.bind Amount.value
              salaryMax := salary.max.bind Amount.value
              salaryCurrency := salary.currency
              salaryPeriod := salary.period
              employmentType, remote, remoteType
              postedAt := postedAt.map datetimeOf
              sourceUpdatedAt := sourceUpdatedAt.map datetimeOf
              skills
              experienceMinYears := experienceMin
              experienceMaxYears := experienceMax
              experienceText
              rawData := fields.map fun field =>
                (field.1, String.ofList (reprValue pf.unicode field.2)) }
          salary, postedAt, sourceUpdatedAt }
  | _, _ => return none

end Dice
end Sources
end HireAndTech
