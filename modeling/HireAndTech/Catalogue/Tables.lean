import HireAndTech.Base.Uuid
import HireAndTech.Relational.Table

/-!
# Catalogue tables

Rows of {lit}`companies`, {lit}`jobs` and {lit}`job_sources`, the normalized listings that
collectors hand over, and the rows that ingestion builds from a listing.

The text fields of a row are kept where some function of the catalogue reads or
writes them.

Main results:

- Definitions {lit}`createdJob` and {lit}`createdSource`: the rows of a new listing.
- Definitions {lit}`refreshedJob` and {lit}`refreshedSource`: the rows after a listing
  has been seen again.
-/

namespace HireAndTech
namespace Catalogue

/-! ## Rows -/

/-- Supported workplace arrangements. -/
inductive RemoteType
  | remote
  | hybrid
  | onSite
deriving DecidableEq, Repr

/-- The top-level members of a JSON object, each with the text of its value. -/
abbrev RawData := List (String × String)

/-- A listing as normalization hands it to ingestion. -/
structure NormalizedJob where
  source : String
  externalJobId : String
  jobTitle : String
  normalizedTitle : String
  roleFamily : String
  company : Option String
  normalizedCompany : Option String
  location : Option String
  normalizedLocation : Option String
  jobUrl : Option String
  description : Option String
  salaryText : Option String
  employmentType : Option String
  remote : Option Bool
  skills : List String
  postedAt : Option Time
  sourceUpdatedAt : Option Time
  experienceMinYears : Option Int
  experienceMaxYears : Option Int
  experienceText : Option String
  contentHash : String
  rawData : RawData
  salaryMin : Option ℚ := none
  salaryMax : Option ℚ := none
  salaryCurrency : Option String := none
  salaryPeriod : Option String := none
  remoteType : Option RemoteType := none
deriving DecidableEq, Repr

/-- A listing with nothing but what every listing carries. -/
def NormalizedJob.bare (source externalJobId jobTitle normalizedTitle roleFamily : String) :
    NormalizedJob where
  source := source
  externalJobId := externalJobId
  jobTitle := jobTitle
  normalizedTitle := normalizedTitle
  roleFamily := roleFamily
  company := none
  normalizedCompany := none
  location := none
  normalizedLocation := none
  jobUrl := none
  description := none
  salaryText := none
  employmentType := none
  remote := none
  skills := []
  postedAt := none
  sourceUpdatedAt := none
  experienceMinYears := none
  experienceMaxYears := none
  experienceText := none
  contentHash := ""
  rawData := []

/-- Conservatively resolved employer shared by canonical openings. -/
structure Company where
  id : UUID
  name : String
  normalizedName : String
deriving DecidableEq, Repr

/-- One real-world opening independent of any source listing. -/
structure CanonicalJob where
  id : UUID
  companyId : Option UUID
  title : String
  normalizedTitle : String
  description : Option String
  location : Option String
  normalizedLocation : Option String
  employmentType : Option String
  remoteType : Option RemoteType
  skills : List String
  experienceMinYears : Option Int
  experienceMaxYears : Option Int
  experienceText : Option String
  roleFamily : String
  salaryMin : Option ℚ
  salaryMax : Option ℚ
  salaryCurrency : Option String
  salaryText : Option String
  salaryPeriod : Option String
  postedAt : Option Time
  sourceUpdatedAt : Option Time
  firstSeenAt : Time
  lastSeenAt : Time
  isActive : Bool
  canonicalHash : String
deriving DecidableEq, Repr

/-- A provider listing pointing to one canonical job. -/
structure JobSourceObservation where
  id : UUID
  jobId : UUID
  source : String
  sourceJobId : String
  sourceUrl : Option String
  sourcePostedAt : Option Time
  sourceUpdatedAt : Option Time
  firstSeenAt : Time
  lastSeenAt : Time
  scrapedAt : Time
  contentHash : String
  isActive : Bool
  rawData : RawData
deriving DecidableEq, Repr

/-- The identity of a listing: its provider and the provider's id for it. -/
def JobSourceObservation.identity (o : JobSourceObservation) : String × String :=
  (o.source, o.sourceJobId)

/-- The catalogue tables, in committed state. -/
structure Database where
  companies : List Company
  jobs : List CanonicalJob
  observations : List JobSourceObservation
deriving DecidableEq, Repr

/-- The two ends of a range are in order. -/
def ordered {α : Type} [LE α] [DecidableLE α] : Option α → Option α → Bool
  | some low, some high => low ≤ high
  | _, _ => true

/-- The CHECK constraints of {lit}`jobs`.  The amounts are those of the row before its columns round
them to cents; amounts in order are in order when they are rounded. -/
def CanonicalJob.checks (j : CanonicalJob) : Bool :=
  j.experienceMinYears.all (0 ≤ ·) && j.experienceMaxYears.all (0 ≤ ·) &&
    ordered j.experienceMinYears j.experienceMaxYears && ordered j.salaryMin j.salaryMax

/-! ## The Python runtime -/

/-- What ingestion calls of the Python runtime and does not look into. -/
structure Runtime where
  casefold : String → String
  sha256 : String → String
  isoDate : Time → String

/-- `str.isspace` of one character. -/
def isSpace (c : Char) : Bool :=
  let n := c.val.toNat
  (9 ≤ n && n ≤ 13) || (28 ≤ n && n ≤ 32) || n = 0x85 || n = 0xA0 || n = 0x1680 ||
    (0x2000 ≤ n && n ≤ 0x200A) || n = 0x2028 || n = 0x2029 || n = 0x202F || n = 0x205F ||
    n = 0x3000

/-- A text that Python takes to be true. -/
def truthy (text : Option String) : Bool :=
  text.any (· ≠ "")

/-- `_has_text`. -/
def hasText (value : Option String) : Bool :=
  value.any fun text => text.toList.any fun c => !isSpace c

/-- `_prefer_text`. -/
def preferText (incoming existing : Option String) : Option String :=
  if hasText incoming then incoming else existing

/-- Python's `or` on lists. -/
def preferList {α : Type} (incoming existing : List α) : List α :=
  if incoming.isEmpty then existing else incoming

/-- `_remote_type`. -/
def remoteTypeOf (remote : Option Bool) : Option RemoteType :=
  remote.map fun r => if r then .remote else .onSite

/-- `build_canonical_hash`. -/
def buildCanonicalHash (rt : Runtime) (job : NormalizedJob) : String :=
  let postedDate := (job.postedAt.map rt.isoDate).getD ""
  rt.sha256 (String.intercalate "\x00"
    [job.normalizedCompany.getD "", job.normalizedTitle, job.normalizedLocation.getD "",
      postedDate])

/-! ## Rows that ingestion builds -/

/-- The row of `create_job`. -/
def createdJob (rt : Runtime) (id : UUID) (job : NormalizedJob) (company : Option Company)
    (observedAt : Time) : CanonicalJob where
  id := id
  companyId := company.map (·.id)
  title := job.jobTitle
  normalizedTitle := job.normalizedTitle
  description := job.description
  location := job.location
  normalizedLocation := job.normalizedLocation
  employmentType := job.employmentType
  remoteType := job.remoteType <|> remoteTypeOf job.remote
  skills := job.skills
  experienceMinYears := job.experienceMinYears
  experienceMaxYears := job.experienceMaxYears
  experienceText := job.experienceText
  roleFamily := job.roleFamily
  salaryMin := job.salaryMin
  salaryMax := job.salaryMax
  salaryCurrency := job.salaryCurrency
  salaryText := job.salaryText
  salaryPeriod := job.salaryPeriod
  postedAt := job.postedAt
  sourceUpdatedAt := job.sourceUpdatedAt
  firstSeenAt := observedAt
  lastSeenAt := observedAt
  isActive := true
  canonicalHash := buildCanonicalHash rt job

/-- The row of `create_source`. -/
def createdSource (id : UUID) (job : NormalizedJob) (canonicalJob : CanonicalJob)
    (observedAt : Time) : JobSourceObservation where
  id := id
  jobId := canonicalJob.id
  source := job.source
  sourceJobId := job.externalJobId
  sourceUrl := job.jobUrl
  sourcePostedAt := job.postedAt
  sourceUpdatedAt := job.sourceUpdatedAt
  firstSeenAt := observedAt
  lastSeenAt := observedAt
  scrapedAt := observedAt
  contentHash := job.contentHash
  isActive := true
  rawData := job.rawData

/-- `mark_canonical_seen`. -/
def markCanonicalSeen (job : CanonicalJob) (observedAt : Time) : CanonicalJob :=
  { job with
    lastSeenAt := observedAt
    isActive := true }

/-- The observation after `refresh_source`. -/
def refreshedSource (source : JobSourceObservation) (job : NormalizedJob) (observedAt : Time)
    (contentChanged : Bool) : JobSourceObservation :=
  { source with
    lastSeenAt := observedAt
    scrapedAt := observedAt
    isActive := true
    sourceUrl := preferText job.jobUrl source.sourceUrl
    sourcePostedAt := job.postedAt <|> source.sourcePostedAt
    sourceUpdatedAt := job.sourceUpdatedAt <|> source.sourceUpdatedAt
    rawData := preferList job.rawData source.rawData
    contentHash := if contentChanged then job.contentHash else source.contentHash }

/-- `job.job_title and not job.job_title.startswith("Unknown ")`. -/
def NormalizedJob.hasRealTitle (job : NormalizedJob) : Bool :=
  job.jobTitle ≠ "" && !"Unknown ".toList.isPrefixOf job.jobTitle.toList

/-- The canonical job after `refresh_source`. -/
def refreshedJob (rt : Runtime) (canonical : CanonicalJob) (job : NormalizedJob)
    (company : Option Company) (observedAt : Time) : CanonicalJob :=
  { canonical with
    lastSeenAt := observedAt
    isActive := true
    companyId := company.map (·.id) <|> canonical.companyId
    title := if job.hasRealTitle then job.jobTitle else canonical.title
    normalizedTitle := if job.hasRealTitle then job.normalizedTitle else canonical.normalizedTitle
    description := preferText job.description canonical.description
    location := if hasText job.location then job.location else canonical.location
    normalizedLocation :=
      if hasText job.location then job.normalizedLocation else canonical.normalizedLocation
    employmentType := preferText job.employmentType canonical.employmentType
    remoteType := (job.remoteType <|> remoteTypeOf job.remote) <|> canonical.remoteType
    skills := preferList job.skills canonical.skills
    experienceMinYears := job.experienceMinYears <|> canonical.experienceMinYears
    experienceMaxYears := job.experienceMaxYears <|> canonical.experienceMaxYears
    experienceText := preferText job.experienceText canonical.experienceText
    roleFamily := job.roleFamily
    salaryText := preferText job.salaryText canonical.salaryText
    salaryMin := job.salaryMin <|> canonical.salaryMin
    salaryMax := job.salaryMax <|> canonical.salaryMax
    salaryCurrency :=
      if truthy job.salaryCurrency then job.salaryCurrency else canonical.salaryCurrency
    salaryPeriod := if truthy job.salaryPeriod then job.salaryPeriod else canonical.salaryPeriod
    postedAt := job.postedAt <|> canonical.postedAt
    sourceUpdatedAt := job.sourceUpdatedAt <|> canonical.sourceUpdatedAt
    canonicalHash :=
      if truthy job.normalizedCompany && truthy job.normalizedLocation && job.postedAt.isSome then
        buildCanonicalHash rt job
      else canonical.canonicalHash }

end Catalogue
end HireAndTech
