import HireAndTech.Catalogue.Ingestion
import HireAndTech.Relational.Query

/-!
# Catalogue search

`CanonicalJobRepository.search` over a state of the catalogue tables: the query for one
page, the query for the total, and the lookup of the observation that presents a job.  The
pattern match, the order of texts and the plan of the ordered query belong to the database
and are parameters.

Main results:

- Definition {lit}`search`: the items of a page and the total.
- Theorem {lit}`presentationSource_isSome`: a job with an active observation is presented.
- Theorem {lit}`search_paginates`: the pages make up one list of the matching jobs.
-/

namespace HireAndTech
namespace Catalogue

open Relational

/-! ## Reads -/

/-- API-facing representation of one canonical job. -/
structure CanonicalJobRead where
  id : UUID
  source : String
  externalJobId : String
  jobTitle : String
  roleFamily : String
  company : Option String
  location : Option String
  jobUrl : Option String
  description : Option String
  salaryText : Option String
  employmentType : Option String
  remote : Option Bool
  skills : List String
  postedAt : Option Time
  sourceUpdatedAt : Option Time
  firstSeenAt : Time
  scrapedAt : Time
  experienceMinYears : Option Int
  experienceMaxYears : Option Int
  experienceText : Option String
  lastSeenAt : Time
  isActive : Bool
  salaryMin : Option ℚ
  salaryMax : Option ℚ
  salaryCurrency : Option String
  salaryPeriod : Option String
  remoteType : Option RemoteType
deriving DecidableEq, Repr

/-- `_remote_bool`. -/
def remoteBool : Option RemoteType → Option Bool
  | some .remote => some true
  | some .onSite => some false
  | some .hybrid => none
  | none => none

/-- Catalogue tables with unique primary keys. -/
structure KeyedDatabase extends Database where
  jobIds : Unique (·.id) jobs
  companyIds : Unique (·.id) companies

/-- The filters of a search. -/
structure SearchFilter where
  query : Option String := none
  role : Option String := none
  location : Option String := none
  remote : Option Bool := none
  employmentType : Option String := none
  source : Option String := none
  roleFamilies : List String := []
deriving DecidableEq, Repr

/-! ## Queries -/

/-- A row of the outer join. -/
abbrev SearchRow := CanonicalJob × Option Company

/-- `posted_at DESC NULLS LAST, last_seen_at DESC, id`. -/
def listingKey (row : SearchRow) : (WithBot Time)ᵒᵈ ×ₗ Timeᵒᵈ ×ₗ UUID :=
  toLex (OrderDual.toDual (row.1.postedAt : WithBot Time),
    toLex (OrderDual.toDual row.1.lastSeenAt, row.1.id))

/-- What the database decides: `ILIKE`, the sort keys of texts, and the plan of the
search. -/
structure Sql where
  ilike : String → String → Bool
  collate : String → List Char
  plan : SortPlan listingKey

variable (sql : Sql)

/-- The EXISTS predicate over the observations of a job. -/
def hasMatchingSource (observations : List JobSourceObservation) (source : Option String)
    (j : CanonicalJob) : Bool :=
  observations.any fun o =>
    o.jobId = j.id && o.isActive && (!truthy source || some o.source = source)

/-- A value that matches a pattern; NULL matches none. -/
def Sql.matchesPattern (value : Option String) (pattern : String) : Bool :=
  value.any (sql.ilike · pattern)

/-- A filter that is applied when it has a text. -/
def whenText (filter : Option String) (p : String → Bool) : Bool :=
  !truthy filter || filter.all p

/-- The WHERE clause of both queries. -/
def searchPredicate (db : Database) (f : SearchFilter) (row : SearchRow) : Bool :=
  let (job, company) := row
  job.isActive && hasMatchingSource db.observations f.source job &&
    whenText f.query (fun query =>
      let pattern := "%" ++ query ++ "%"
      sql.ilike job.title pattern || sql.matchesPattern (company.map (·.name)) pattern ||
        sql.matchesPattern job.description pattern) &&
    whenText f.role (job.roleFamily = ·) &&
    (f.roleFamilies.isEmpty || job.roleFamily ∈ f.roleFamilies) &&
    whenText f.location (fun location =>
      sql.matchesPattern job.location ("%" ++ location ++ "%")) &&
    f.remote.all (fun remote =>
      job.remoteType = some (if remote then RemoteType.remote else RemoteType.onSite)) &&
    whenText f.employmentType (sql.matchesPattern job.employmentType ·)

/-- Jobs with their companies. -/
def searchRows (db : Database) : List SearchRow :=
  leftJoin (fun (job : CanonicalJob) (company : Company) => some company.id = job.companyId)
    db.jobs db.companies

/-- `last_seen_at DESC, first_seen_at, source, source_job_id`. -/
def presentationKey (o : JobSourceObservation) :
    Timeᵒᵈ ×ₗ Time ×ₗ List Char ×ₗ List Char :=
  toLex (OrderDual.toDual o.lastSeenAt,
    toLex (o.firstSeenAt, toLex (sql.collate o.source, sql.collate o.sourceJobId)))

/-- `_presentation_source`. -/
def presentationSource (db : Database) (jobId : UUID) : Option JobSourceObservation :=
  (sortedBy (presentationKey sql)
    (db.observations.filter fun o => o.jobId = jobId && o.isActive)).head?

/-- The read of a row and the observation that presents it. -/
def readOf (row : SearchRow) (observation : JobSourceObservation) : CanonicalJobRead :=
  let (canonical, company) := row
  { id := canonical.id
    source := observation.source
    externalJobId := observation.sourceJobId
    jobTitle := canonical.title
    roleFamily := canonical.roleFamily
    company := company.map (·.name)
    location := canonical.location
    jobUrl := observation.sourceUrl
    description := canonical.description
    salaryText := canonical.salaryText
    employmentType := canonical.employmentType
    remote := remoteBool canonical.remoteType
    skills := canonical.skills
    postedAt := canonical.postedAt
    sourceUpdatedAt := observation.sourceUpdatedAt
    firstSeenAt := observation.firstSeenAt
    scrapedAt := observation.scrapedAt
    experienceMinYears := canonical.experienceMinYears
    experienceMaxYears := canonical.experienceMaxYears
    experienceText := canonical.experienceText
    lastSeenAt := observation.lastSeenAt
    isActive := canonical.isActive
    salaryMin := canonical.salaryMin
    salaryMax := canonical.salaryMax
    salaryCurrency := canonical.salaryCurrency
    salaryPeriod := canonical.salaryPeriod
    remoteType := canonical.remoteType }

/-- The read of a row; {lean}`none` when no active observation presents it. -/
def present (db : Database) (row : SearchRow) : Option CanonicalJobRead :=
  (presentationSource sql db row.1.id).map (readOf row)

/-- `CanonicalJobRepository.search`: the items of a page and the total. -/
def search (db : Database) (f : SearchFilter) (page pageSize : Nat) :
    List CanonicalJobRead × Nat :=
  let matching := (searchRows db).filter (searchPredicate sql db f)
  let offset := (page - 1) * pageSize
  let canonicalRows := Relational.page offset pageSize (sql.plan.rows offset pageSize matching)
  let total := ((searchRows db).filter (searchPredicate sql db f)).length
  (canonicalRows.filterMap (present sql db), total)

/-- An item of a page is the read of a canonical job that satisfies the filters. -/
theorem mem_search {sql : Sql} {db : Database} {f : SearchFilter} {page pageSize : Nat}
    {read : CanonicalJobRead} (h : read ∈ (search sql db f page pageSize).1) :
    ∃ row observation, row.1 ∈ db.jobs ∧ searchPredicate sql db f row = true ∧
      read = readOf row observation := by
  obtain ⟨row, hrow, hread⟩ := List.mem_filterMap.mp h
  obtain ⟨observation, _, rfl⟩ := Option.map_eq_some_iff.mp hread
  have hmem := List.mem_of_mem_drop (List.mem_of_mem_take hrow)
  rw [(sql.plan.perm _ _ _).mem_iff, List.mem_filter] at hmem
  exact ⟨row, observation, mem_leftJoin hmem.1, hmem.2, rfl⟩

/-! ## What a search lists -/

/-- The company that a job refers to. -/
def companyOf (db : Database) (j : CanonicalJob) : Option Company :=
  (db.companies.filter fun company => some company.id = j.companyId).head?

/-- The job matches the filters. -/
def isMatch (db : Database) (f : SearchFilter) (j : CanonicalJob) : Bool :=
  searchPredicate sql db f (j, companyOf db j)

/-- The canonical jobs that match the filters. -/
def matchingJobs (db : Database) (f : SearchFilter) : List CanonicalJob :=
  db.jobs.filter (isMatch sql db f)

/-- The reads of the matching jobs in the order of the search. -/
def matchingReads (db : Database) (f : SearchFilter) : List CanonicalJobRead :=
  (sortedBy listingKey ((matchingJobs sql db f).map fun j => (j, companyOf db j))).filterMap
    (present sql db)

/-- The items of all pages, one page after the other. -/
def allPages (db : Database) (f : SearchFilter) (pageSize : Nat) : List CanonicalJobRead :=
  (List.range (pageCount (search sql db f 1 pageSize).2 pageSize)).flatMap fun k =>
    (search sql db f (k + 1) pageSize).1

section

variable {sql} {db : KeyedDatabase} {f : SearchFilter} {row : SearchRow}

/-- A job has at most one company. -/
theorem companies_of_job (j : CanonicalJob) :
    (db.companies.filter fun company => some company.id = j.companyId).length ≤ 1 := by
  have hids : Relational.Unique (fun company : Company => some company.id) db.companies := by
    have hsome : (db.companies.map fun company => some company.id) =
        (db.companies.map (·.id)).map some := by
      rw [List.map_map]
      rfl
    rw [Relational.Unique, hsome]
    exact List.Nodup.map (Option.some_injective UUID) db.companyIds
  exact hids.length_filter_le j.companyId

/-- The matching rows are the matching jobs with their companies. -/
theorem matchingRows_eq :
    (searchRows db.toDatabase).filter (searchPredicate sql db.toDatabase f) =
      (matchingJobs sql db.toDatabase f).map fun j => (j, companyOf db.toDatabase j) := by
  rw [searchRows, leftJoin_eq_map fun j _ => companies_of_job j, List.filter_map]
  rfl

theorem listingKey_nodup :
    (((matchingJobs sql db.toDatabase f).map fun j => (j, companyOf db.toDatabase j)).map
      listingKey).Nodup := by
  have hids : ((matchingJobs sql db.toDatabase f).map (·.id)).Nodup :=
    db.jobIds.sublist (List.filter_sublist.map _)
  rw [List.map_map]
  apply List.Nodup.of_map fun key => (ofLex (ofLex key).2).2
  rw [List.map_map]
  exact hids

/-- A job with an active observation is presented. -/
theorem presentationSource_isSome {c : Database} {j : CanonicalJob} {source : Option String}
    (h : hasMatchingSource c.observations source j = true) :
    (presentationSource sql c j.id).isSome = true := by
  obtain ⟨o, ho, hmatches⟩ := List.any_eq_true.mp h
  simp only [Bool.and_eq_true, decide_eq_true_eq] at hmatches
  have hmem : o ∈ sortedBy (presentationKey sql)
      (c.observations.filter fun o => o.jobId = j.id && o.isActive) := by
    rw [(sortedBy_perm _ _).mem_iff, List.mem_filter]
    exact ⟨ho, by simp [hmatches.1.1, hmatches.1.2]⟩
  rw [presentationSource]
  cases hsorted : sortedBy (presentationKey sql)
      (c.observations.filter fun o => o.jobId = j.id && o.isActive) with
  | nil =>
      rw [hsorted] at hmem
      contradiction
  | cons x rest => rfl

/-- The items of a page are a page of all reads, in so far as rows are presented. -/
theorem search_items (page pageSize : Nat) :
    (search sql db.toDatabase f page pageSize).1 =
      (Relational.page ((page - 1) * pageSize) pageSize
        (sortedBy listingKey ((matchingJobs sql db.toDatabase f).map fun j =>
          (j, companyOf db.toDatabase j)))).filterMap (present sql db.toDatabase) := by
  rw [search]
  dsimp only
  rw [matchingRows_eq, sql.plan.rows_eq listingKey_nodup]

theorem search_total (page pageSize : Nat) :
    (search sql db.toDatabase f page pageSize).2 = (matchingJobs sql db.toDatabase f).length := by
  rw [search]
  dsimp only
  rw [matchingRows_eq, List.length_map]

/-- A filter that loses no element keeps what each element carries. -/
theorem map_filterMap_of_some {α β γ : Type} {g : α → Option β} {h : β → γ} {k : α → γ}
    {xs : List α} (hg : ∀ x ∈ xs, ∃ y, g x = some y ∧ h y = k x) :
    (xs.filterMap g).map h = xs.map k := by
  induction xs with
  | nil => rfl
  | cons x xs ih =>
      obtain ⟨y, hy, hk⟩ := hg x List.mem_cons_self
      rw [List.filterMap_cons_some hy, List.map_cons, List.map_cons, hk,
        ih fun x hx => hg x (List.mem_cons_of_mem _ hx)]

/-- Every matching job is read once. -/
theorem matchingReads_ids :
    ((matchingReads sql db.toDatabase f).map (·.id)).Perm
      ((matchingJobs sql db.toDatabase f).map (·.id)) := by
  have hread : ∀ row ∈ sortedBy listingKey ((matchingJobs sql db.toDatabase f).map fun j =>
      (j, companyOf db.toDatabase j)),
      ∃ y, present sql db.toDatabase row = some y ∧ y.id = row.1.id := by
    intro row hrow
    rw [(sortedBy_perm _ _).mem_iff, List.mem_map] at hrow
    obtain ⟨j, hj, rfl⟩ := hrow
    have hmatch := (List.mem_filter.mp hj).2
    simp only [isMatch, searchPredicate, Bool.and_eq_true] at hmatch
    have hsome : (presentationSource sql db.toDatabase j.id).isSome = true :=
      presentationSource_isSome hmatch.1.1.1.1.1.1.2
    obtain ⟨o, ho⟩ := Option.isSome_iff_exists.mp hsome
    exact ⟨_, by rw [present, ho, Option.map_some], rfl⟩
  rw [matchingReads, map_filterMap_of_some hread]
  apply ((sortedBy_perm _ _).map _).trans
  rw [List.map_map]
  exact List.Perm.refl _

end

/-- For every page size the pages make up one list, which does not depend on the page size
and reads every matching job once, and the total is the number of matching jobs. -/
theorem search_paginates (sql : Sql) (db : KeyedDatabase) (f : SearchFilter) (pageSize : Nat)
    (hsize : 1 ≤ pageSize) :
    allPages sql db.toDatabase f pageSize = matchingReads sql db.toDatabase f ∧
      ((matchingReads sql db.toDatabase f).map (·.id)).Nodup ∧
      ((matchingReads sql db.toDatabase f).map (·.id)).Perm
        ((matchingJobs sql db.toDatabase f).map (·.id)) ∧
      ∀ page, (search sql db.toDatabase f page pageSize).2 =
        (matchingJobs sql db.toDatabase f).length := by
  refine ⟨?_, ?_, matchingReads_ids, fun page => search_total page pageSize⟩
  · simp only [allPages, search_items, search_total, Nat.add_sub_cancel]
    have hlength : (matchingJobs sql db.toDatabase f).length =
        (sortedBy listingKey ((matchingJobs sql db.toDatabase f).map fun j =>
          (j, companyOf db.toDatabase j))).length := by
      rw [(sortedBy_perm _ _).length_eq, List.length_map]
    rw [← List.filterMap_flatMap, hlength, pages_eq hsize]
    rfl
  · rw [matchingReads_ids.nodup_iff]
    exact db.jobIds.sublist (List.filter_sublist.map _)

/-- Texts compare by their characters, and a pattern without inner wildcards is looked up
without regard to case. -/
def plainSql : Sql where
  ilike value pattern :=
    (pattern.toList.filter (· ≠ '%')).map Char.toLower <:+: value.toList.map Char.toLower
  collate := String.toList
  plan := .stable listingKey

/-- An opening of the catalogue as its first listing creates it. -/
def opening (jobId : UUID) (title normalizedTitle roleFamily : String) (observedAt : Time) :
    CanonicalJob :=
  createdJob ⟨id, id, fun _ => ""⟩ jobId (.bare "dice" "" title normalizedTitle roleFamily) none
    observedAt

/-- Two openings, of which two providers list the first. -/
def twoOpenings : KeyedDatabase where
  companies := []
  jobs :=
    [opening 1 "Backend Engineer" "backend engineer" "backend" 5,
      opening 2 "Data Engineer" "data engineer" "data_engineering" 6]
  observations :=
    [createdSource 3 (.bare "dice" "a1" "" "" "")
        (opening 1 "Backend Engineer" "backend engineer" "backend" 5) 5,
      createdSource 4 (.bare "linkedin" "b1" "" "" "")
        (opening 1 "Backend Engineer" "backend engineer" "backend" 5) 5,
      createdSource 5 (.bare "dice" "a2" "" "" "")
        (opening 2 "Data Engineer" "data engineer" "data_engineering" 6) 6]
  jobIds := by decide
  companyIds := by decide

/-- Pages of one item. -/
theorem search_paginates_one :
    allPages plainSql twoOpenings.toDatabase { query := some "engineer" } 1 =
        matchingReads plainSql twoOpenings.toDatabase { query := some "engineer" } ∧
      (allPages plainSql twoOpenings.toDatabase { query := some "engineer" } 1).map (·.id) =
        [2, 1] :=
  ⟨(search_paginates plainSql twoOpenings { query := some "engineer" } 1 le_rfl).1, by decide⟩

end Catalogue
end HireAndTech
