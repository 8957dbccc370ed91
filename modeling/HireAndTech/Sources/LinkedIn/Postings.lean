import HireAndTech.Base.Assignments
import HireAndTech.Extraction.WellFormed
import HireAndTech.Sources.LinkedIn.Cards

/-!
# Detail pages of LinkedIn

{lit}`LinkedInCollector._parse_job_detail` reads a job from the marked elements of its page.  A page
without a title is no job.  Everything else may be missing; only an amount of a salary that
overflows raises.

Main results:

- Definition {lit}`parseJobDetail`.
- Theorem {lit}`isOk_parseJobDetail_iff`: which pages can be parsed.
- Theorem {lit}`posting_of_parseJobDetail`: what the job of a page has.
-/

namespace HireAndTech
namespace Sources
namespace LinkedIn

open Text Catalogue Salaries Extraction Runs
open Dice (Platform notClosing tagPattern reprValue)

/-! ## Elements -/

/-- `[^"]`. -/
def notDouble : Regex :=
  .satisfy (· ≠ '"')

/-- `<tag[^>]*class="[^"]*name[^"]*"[^>]*>(.*?)</tag>`. -/
def classPattern (tag name : String) : Enclosed Unit :=
  ⟨.plain (.sequence [folded ("<" ++ tag), .star notClosing, folded "class=\"", .star notDouble,
    folded name, .star notDouble, .satisfy (· = '"'), .star notClosing, .satisfy (· = '>')]),
    folded ("</" ++ tag ++ ">")⟩

/-- The text of the first element of a class. -/
def elementText (tag name : String) (body : List Char) : Option (List Char) :=
  (searchEnclosed (classPattern tag name) body).map (·.inner)

/-- `match.group(1).strip()`, or the empty text. -/
def strippedOr (found : Option (List Char)) : String :=
  String.ofList ((found.map (strip isSpace)).getD [])

/-- The title of a page. -/
def detailTitle (body : List Char) : Option String :=
  (elementText "h2" "top-card-layout__title" body).map fun title =>
    String.ofList (strip isSpace title)

/-- The company of a page. -/
def detailCompany (body : List Char) : String :=
  strippedOr (elementText "a" "topcard__org-name-link" body <|>
    elementText "span" "topcard__flavor" body)

/-- The location of a page. -/
def detailLocation (body : List Char) : String :=
  strippedOr (elementText "span" "topcard__flavor topcard__flavor--bullet" body)

/-- The description of a page. -/
def detailDescription (body : List Char) : String :=
  ((elementText "div" "show-more-less-html__markup" body <|>
    elementText "div" "description__text" body).map plainText).getD ""

variable (pf : Platform)

/-- The header and the text of a criterion. -/
def readCriterion (inner : List Char) : Option (String × String) := do
  let header ← searchEnclosed (markedPattern "h3" "description__job-criteria-subheader") inner
  let value ← searchEnclosed (markedPattern "span" "description__job-criteria-text") inner
  return (String.ofList (pf.lower (plainText header.inner).toList), plainText value.inner)

/-- `criteria`. -/
def criteria (body : List Char) : List (String × String) :=
  Base.assignAll <|
    ((classPattern "li" "description__job-criteria-item").finditer body).filterMap fun item =>
      readCriterion pf item.inner

/-- The employment type of a page. -/
def employmentTypeOf (body : List Char) (description : String) : Option String :=
  let raw := strippedOr (((criteria pf body).lookup "employment type").map String.toList)
  if raw = "" then normalizeEmploymentType pf.unicode description else some raw

/-- Whether a job of a kind of workplace is remote. -/
def remoteOf : Option RemoteType → Option Bool
  | some .remote => some true
  | some .hybrid | some .onSite => some false
  | none => none

/-- The payload of a page. -/
def payload (body : List Char) : RawData :=
  [("criteria", String.ofList (reprValue pf.unicode
    (.obj ((criteria pf body).map fun item => (item.1, .str item.2)))))]

/-- The job of a page with a title, and the salary that its description states. -/
def readPosting (body : List Char) (title : String) (salary : Salary)
    (expectedExternalJobId : String) (jobUrl : Option String) : RawSourceJob :=
  let location := detailLocation body
  let description := detailDescription body
  let experience := extractExperience pf.unicode (title ++ "\n" ++ description)
  let remoteType := normalizeRemoteType pf.unicode
    (location ++ "\n" ++ title ++ "\n" ++ description) none
  { source := JobSource.linkedin.value
    externalJobId := expectedExternalJobId
    title
    company := some (detailCompany body)
    location := some location
    url := jobUrl
    description := some description
    salaryText := salary.text
    salaryMin := salary.min
    salaryMax := salary.max
    salaryCurrency := salary.currency
    salaryPeriod := salary.period
    employmentType := employmentTypeOf pf body description
    remote := remoteOf remoteType
    remoteType
    postedAt := none
    sourceUpdatedAt := none
    skills := extractSkillsFromText pf.unicode (some (title ++ "\n" ++ description))
    experienceMinYears := experience.1
    experienceMaxYears := experience.2.1
    experienceText := experience.2.2
    rawData := payload pf body }

/-- `_parse_job_detail`. -/
def parseJobDetail (body : List Char) (expectedExternalJobId : String) (jobUrl : Option String) :
    Except Overflow (Option RawSourceJob) :=
  match detailTitle body with
  | none => .ok none
  | some title => do
      let salary ← parseSalaryChecked pf.unicode (detailDescription body)
      return some (readPosting pf body title salary expectedExternalJobId jobUrl)

/-! ## Pages -/

section

variable {pf} {body : List Char} {externalJobId : String} {jobUrl : Option String}
  {raw : RawSourceJob} {job : Option RawSourceJob}

/-- A page can be parsed unless it has a title and an amount of its description overflows. -/
theorem isOk_parseJobDetail_iff :
    (parseJobDetail pf body externalJobId jobUrl).isOk = true ↔
      (detailTitle body).isSome = true →
        salaryOverflows pf.unicode (detailDescription body) = false := by
  unfold parseJobDetail
  cases detailTitle body with
  | none => simp
  | some title =>
      rw [isOk_bind_return, parseSalaryChecked_eq]
      cases salaryOverflows pf.unicode (detailDescription body) <;> simp

/-- A page that can be parsed is a job exactly if it has a title. -/
theorem isSome_parseJobDetail_iff (h : parseJobDetail pf body externalJobId jobUrl = .ok job) :
    job.isSome = true ↔ (detailTitle body).isSome = true := by
  unfold parseJobDetail at h
  split at h
  · rename_i hnone
    cases h
    simp [hnone]
  · rename_i title htitle
    obtain ⟨salary, _, hjob⟩ := bind_eq_ok_iff.mp h
    cases hjob
    simp [htitle]

/-- The job of a candidate: it keeps the identifier and the URL of the candidate, its amounts and
its years are in order, and its payload is neither empty nor a stub. -/
structure Posting (externalJobId : String) (jobUrl : Option String) (raw : RawSourceJob) :
    Prop where
  source : raw.source = JobSource.linkedin.value
  externalJobId : raw.externalJobId = externalJobId
  url : raw.url = jobUrl
  amounts : InOrder raw.salaryMin raw.salaryMax
  years : Ordered raw.experienceMinYears raw.experienceMaxYears
  remote : raw.remote = remoteOf raw.remoteType
  payload : raw.rawData.map (·.1) = ["criteria"]

theorem posting_of_parseJobDetail
    (h : parseJobDetail pf body externalJobId jobUrl = .ok (some raw)) :
    Posting externalJobId jobUrl raw := by
  unfold parseJobDetail at h
  split at h
  · cases h
  · rename_i title htitle
    obtain ⟨salary, hsalary, hjob⟩ := bind_eq_ok_iff.mp h
    cases hjob
    rw [parseSalaryChecked_eq] at hsalary
    split_ifs at hsalary
    rw [Except.ok.injEq] at hsalary
    have hamounts : InOrder salary.min salary.max :=
      hsalary ▸ parseSalary_inOrder pf.unicode (detailDescription body)
    exact
      { source := rfl
        externalJobId := rfl
        url := rfl
        amounts := hamounts
        years := by
          dsimp only [readPosting]
          exact extractExperience_ordered pf.unicode _
        remote := by dsimp only [readPosting]
        payload := rfl }

end

end LinkedIn
end Sources
end HireAndTech
