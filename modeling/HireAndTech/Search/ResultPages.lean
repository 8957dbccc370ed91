import HireAndTech.Catalogue.Presentation
import HireAndTech.Runs.Partial
import HireAndTech.Search.Requests

/-!
# Pages of saved results

`SearchService.get_search_results` over the saved results of a completed search and a later
state of the catalogue.  The total counts the saved results, and a result whose job has no
active observation is left out of its page.

The results are loaded with their jobs, and the company of a job is loaded when it is read;
whether an asynchronous session can do so is a parameter.

Main results:

- Definitions {lit}`getResults` and {lit}`getSearchResults`: the repository and the service.
- Theorem {lit}`servesAll_iff`: when the pages of one state serve all saved results.
- Theorem {lit}`result_pages_iff`: when they do so in every state of a run.
-/

namespace HireAndTech
namespace Search

open Catalogue Text
open Relational (SortPlan page pageCount pages_eq sorted_unique)
open Resumes (CandidateProfile)
open Runs (Each Throughout each_cons each_nil throughout_and throughout_congr throughout_cons
  throughout_iff_each throughout_nil)

/-! ## The service -/

/-- A matched job resulting from a search. -/
structure SearchResultItem where
  id : UUID
  source : String
  externalJobId : String
  jobTitle : String
  roleFamily : String
  company : Option String
  location : Option String
  jobUrl : Option String
  description : Option String
  salaryText : Option String
  employmentType : Option String
  remote : Option Bool
  skills : List String
  postedAt : Option Time
  sourceUpdatedAt : Option Time
  firstSeenAt : Time
  lastSeenAt : Time
  scrapedAt : Time
  experienceMinYears : Option Int
  experienceMaxYears : Option Int
  experienceText : Option String
  salaryMin : Option ℚ
  salaryMax : Option ℚ
  salaryCurrency : Option String
  salaryPeriod : Option String
  remoteType : Option RemoteType
  rank : Nat
  matchScore : ℚ
  skillsScore : ℚ
  experienceScore : ℚ
  locationScore : ℚ
  freshnessScore : ℚ
deriving DecidableEq, Repr

/-- Exceptions that leave {lit}`get_search_results`. -/
inductive ResultsError
  | notFound (code message : String)
  | conflict (code message : String)
  | raised
deriving DecidableEq, Repr

/-- What the service rests on: the database, the order of results by rank, the conversion of
amounts, and what reading `job.company` gives; {lean}`none` when the session cannot load it. -/
structure ResultEnv where
  sql : Sql
  plan : SortPlan (·.rank : JobSearchResult → Nat)
  float : ℚ → ℚ
  company : Database → CanonicalJob → Option (Option Company)

variable (env : ResultEnv)

/-- `SearchRepository.get_results`. -/
def getResults (table : List JobSearchResult) (searchId : UUID) (page pageSize : Nat) :
    List JobSearchResult × Nat :=
  let saved := table.filter (·.searchId = searchId)
  let total := saved.length
  if total = 0 then ([], 0)
  else
    let offset := (page - 1) * pageSize
    (Relational.page offset pageSize (env.plan.rows offset pageSize saved), total)

/-- `SearchResultItem(…)`. -/
def itemOf (r : JobSearchResult) (job : CanonicalJob) (company : Option Company)
    (observation : JobSourceObservation) : SearchResultItem where
  id := r.jobId
  source := observation.source
  externalJobId := observation.sourceJobId
  jobTitle := job.title
  roleFamily := job.roleFamily
  company := company.map (·.name)
  location := job.location
  jobUrl := observation.sourceUrl
  description := job.description
  salaryText := job.salaryText
  employmentType := job.employmentType
  remote := remoteBool job.remoteType
  skills := job.skills
  postedAt := job.postedAt
  sourceUpdatedAt := observation.sourceUpdatedAt
  firstSeenAt := observation.firstSeenAt
  lastSeenAt := observation.lastSeenAt
  scrapedAt := observation.scrapedAt
  experienceMinYears := job.experienceMinYears
  experienceMaxYears := job.experienceMaxYears
  experienceText := job.experienceText
  salaryMin := (job.salaryMin.filter (· ≠ 0)).map env.float
  salaryMax := (job.salaryMax.filter (· ≠ 0)).map env.float
  salaryCurrency := job.salaryCurrency
  salaryPeriod := job.salaryPeriod
  remoteType := job.remoteType
  rank := r.rank
  matchScore := r.matchScore
  skillsScore := r.skillsScore
  experienceScore := r.experienceScore
  locationScore := r.locationScore
  freshnessScore := r.freshnessScore

/-- The body of the loop: the item of a saved result, or none without an observation. -/
def resultItem (db : Database) (r : JobSearchResult) :
    Except ResultsError (Option SearchResultItem) :=
  match presentationSource env.sql db r.jobId with
  | none => .ok none
  | some observation =>
      match db.getJob r.jobId with
      | none => .error .raised
      | some job =>
          match env.company db job with
          | none => .error .raised
          | some company => .ok (some (itemOf env r job company observation))

/-- The loop over the results of a page. -/
def resultItems (db : Database) : List JobSearchResult → Except ResultsError (List SearchResultItem)
  | [] => .ok []
  | r :: results => do
      let item ← resultItem env db r
      let items ← resultItems db results
      return item.toList ++ items

/-- `SearchService.get_search_results`, for the search that the repository finds. -/
def getSearchResults (db : Database) (table : List JobSearchResult) (found : Option JobSearch)
    (page pageSize : Nat) : Except ResultsError (JobSearch × List SearchResultItem × Nat) :=
  match found with
  | none => .error (.notFound "SEARCH_NOT_FOUND" "The requested search does not exist.")
  | some search =>
      if search.status ≠ .completed then
        if search.status = .failed then
          .error (.conflict "SEARCH_FAILED" "The search failed and has no results.")
        else .error (.conflict "SEARCH_NOT_COMPLETED" "The search is not yet completed.")
      else do
        let (results, total) := getResults env table search.id page pageSize
        let items ← resultItems env db results
        return (search, items, total)

/-! ## Items of a page -/

/-- The saved result that an item shows. -/
def SearchResultItem.saved (searchId : UUID) (item : SearchResultItem) : JobSearchResult where
  searchId := searchId
  jobId := item.id
  rank := item.rank
  matchScore := item.matchScore
  skillsScore := item.skillsScore
  experienceScore := item.experienceScore
  locationScore := item.locationScore
  freshnessScore := item.freshnessScore

/-- Reading the company of the job does not raise. -/
def CompanyReadable (db : Database) (jobId : UUID) : Prop :=
  ∀ job, db.getJob jobId = some job → (env.company db job).isSome = true

/-- What SQLAlchemy documents for a relationship that has not been loaded: without a foreign key it
is `None`, and otherwise it is loaded when it is read, which an `AsyncSession` answers with
`MissingGreenlet`. -/
structure LazyCompanies : Prop where
  absent : ∀ db job, job.companyId = none → env.company db job = some none
  raises : ∀ db job, job.companyId ≠ none → env.company db job = none

/-- The job has no company. -/
def WithoutCompany (db : Database) (jobId : UUID) : Prop :=
  ∀ job, db.getJob jobId = some job → job.companyId = none

section

variable {env} {db : Database} {r : JobSearchResult} {results : List JobSearchResult}
  {item : SearchResultItem} {items : List SearchResultItem}

/-- Only the company of a job without one can be read. -/
theorem companyReadable_iff (h : LazyCompanies env) {jobId : UUID} :
    CompanyReadable env db jobId ↔ WithoutCompany db jobId := by
  refine forall₂_congr fun job _ => ?_
  by_cases hcompany : job.companyId = none
  · exact iff_of_true (by rw [h.absent db job hcompany]; rfl) hcompany
  · refine iff_of_false ?_ hcompany
    rw [h.raises db job hcompany]
    exact Bool.false_ne_true

/-- A result has an item exactly when its job is presented and its company can be read. -/
theorem resultItem_iff (hgraph : Graph db) (r : JobSearchResult) :
    (∃ item, resultItem env db r = .ok (some item) ∧ item.saved r.searchId = r) ↔
      IsPresented db r.jobId ∧ CompanyReadable env db r.jobId := by
  rw [← presented_iff env.sql]
  constructor
  · rintro ⟨item, hitem, _⟩
    unfold resultItem at hitem
    split at hitem
    · cases hitem
    · rename_i observation hobservation
      refine ⟨⟨observation, hobservation⟩, fun job hjob => ?_⟩
      simp only [hjob] at hitem
      split at hitem
      · cases hitem
      · rename_i hcompany
        rw [hcompany]
        rfl
  · rintro ⟨⟨observation, hobservation⟩, hreadable⟩
    obtain ⟨hsource, _⟩ := presentationSource_spec hobservation
    obtain ⟨j, hj, hid⟩ := hgraph.canonical observation hsource.1
    have hfound : (db.getJob r.jobId).isSome = true :=
      List.find?_isSome.mpr ⟨j, hj, by simp [hid, hsource.2.1]⟩
    obtain ⟨job, hjob⟩ := Option.isSome_iff_exists.mp hfound
    obtain ⟨company, hcompany⟩ := Option.isSome_iff_exists.mp (hreadable job hjob)
    refine ⟨itemOf env r job company observation, ?_, rfl⟩
    simp only [resultItem, hobservation, hjob, hcompany]

/-- An item shows its result. -/
theorem saved_resultItem (h : resultItem env db r = .ok (some item)) :
    item.saved r.searchId = r := by
  unfold resultItem at h
  split at h
  · cases h
  · split at h
    · cases h
    · split at h
      · cases h
      · cases h
        rfl

theorem resultItems_cons (h : resultItems env db (r :: results) = .ok items) :
    ∃ first rest, resultItem env db r = .ok first ∧ resultItems env db results = .ok rest ∧
      items = first.toList ++ rest := by
  rw [resultItems] at h
  cases hfirst : resultItem env db r with
  | error e =>
      rw [hfirst] at h
      cases h
  | ok first =>
      rw [hfirst] at h
      cases hrest : resultItems env db results with
      | error e =>
          rw [hrest] at h
          cases h
      | ok rest =>
          rw [hrest] at h
          cases h
          exact ⟨first, rest, rfl, rfl, rfl⟩

/-- Every item of a page is the item of a result of the page. -/
theorem mem_resultItems (h : resultItems env db results = .ok items) (hitem : item ∈ items) :
    ∃ r ∈ results, resultItem env db r = .ok (some item) := by
  induction results generalizing items with
  | nil =>
      cases h
      simp at hitem
  | cons r results ih =>
      obtain ⟨first, rest, hfirst, hrest, rfl⟩ := resultItems_cons h
      cases List.mem_append.mp hitem with
      | inl hmem => exact ⟨r, List.mem_cons_self, by rw [hfirst, Option.mem_toList.mp hmem]⟩
      | inr hmem =>
          obtain ⟨s, hs, hshow⟩ := ih hrest hmem
          exact ⟨s, List.mem_cons_of_mem _ hs, hshow⟩

/-- A page of results that all have items. -/
theorem resultItems_of_all {searchId : UUID}
    (h : ∀ r ∈ results, ∃ item, resultItem env db r = .ok (some item) ∧ item.saved searchId = r) :
    ∃ items, resultItems env db results = .ok items ∧ items.map (·.saved searchId) = results := by
  induction results with
  | nil => exact ⟨[], rfl, rfl⟩
  | cons r results ih =>
      obtain ⟨item, hitem, hsaved⟩ := h r List.mem_cons_self
      obtain ⟨items, hitems, hrest⟩ := ih fun s hs => h s (List.mem_cons_of_mem _ hs)
      refine ⟨item :: items, ?_, ?_⟩
      · rw [resultItems, hitem, hitems]
        rfl
      · rw [List.map_cons, hsaved, hrest]

end

/-! ## All pages -/

/-- The pages up to the total serve the given results, and report their number. -/
def ServesAll (db : Database) (table : List JobSearchResult) (search : JobSearch)
    (pageSize : Nat) (results : List JobSearchResult) : Prop :=
  ∃ items : Nat → List SearchResultItem,
    (∀ k < pageCount results.length pageSize,
      getSearchResults env db table (some search) (k + 1) pageSize =
        .ok (search, items k, results.length)) ∧
    ((List.range (pageCount results.length pageSize)).flatMap items).map (·.saved search.id) =
      results

/-- The saved results of a completed search, in the order of their ranks. -/
structure Saved (table : List JobSearchResult) (search : JobSearch)
    (results : List JobSearchResult) : Prop where
  completed : search.status = .completed
  rows : (table.filter (·.searchId = search.id)).Perm results
  ranks : results.map (·.rank) = (List.range results.length).map (· + 1)

section

variable {env} {db : Database} {table results : List JobSearchResult} {search : JobSearch}
  {pageSize : Nat}

/-- The query returns a page of the results in the order of their ranks. -/
theorem getResults_eq (h : Saved table search results) (k : Nat) :
    getResults env table search.id (k + 1) pageSize =
      (page (k * pageSize) pageSize results, results.length) := by
  have hlength := h.rows.length_eq
  have hranks : (results.map (·.rank)).Nodup := by
    rw [h.ranks]
    exact List.nodup_range.map (add_left_injective 1)
  have hsorted : results.Pairwise fun a b => a.rank ≤ b.rank := by
    rw [← List.pairwise_map (f := fun r : JobSearchResult => r.rank), h.ranks, List.pairwise_map]
    exact List.pairwise_lt_range.imp fun hlt => Nat.succ_le_succ hlt.le
  have hplan : ∀ offset limit,
      env.plan.rows offset limit (table.filter (·.searchId = search.id)) = results := by
    intro offset limit
    have hperm := (env.plan.perm offset limit _).trans h.rows
    exact sorted_unique ((hperm.map _).nodup_iff.mpr hranks) hperm
      (env.plan.sorted offset limit _) hsorted
  unfold getResults
  dsimp only
  rw [hplan, hlength, Nat.add_sub_cancel]
  by_cases hnone : results.length = 0
  · rw [if_pos hnone, List.eq_nil_of_length_eq_zero hnone]
    simp [page]
  · rw [if_neg hnone]

theorem getSearchResults_eq (h : Saved table search results) (k : Nat) :
    getSearchResults env db table (some search) (k + 1) pageSize =
      (resultItems env db (page (k * pageSize) pageSize results)).map
        fun items => (search, items, results.length) := by
  simp only [getSearchResults, h.completed, ne_eq, not_true_eq_false, if_false, getResults_eq h]
  cases resultItems env db (page (k * pageSize) pageSize results) <;> rfl

theorem searchId_of_saved (h : Saved table search results) {r : JobSearchResult}
    (hr : r ∈ results) : r.searchId = search.id := by
  have hmem := h.rows.mem_iff.mpr hr
  simpa using (List.mem_filter.mp hmem).2

/-- The pages serve all saved results exactly when the job of each is presented and its
company can be read. -/
theorem servesAll_iff (hgraph : Graph db) (h : Saved table search results)
    (hsize : 1 ≤ pageSize) :
    ServesAll env db table search pageSize results ↔
      (∀ r ∈ results, CompanyReadable env db r.jobId) ∧
        ∀ r ∈ results, IsPresented db r.jobId := by
  constructor
  · rintro ⟨items, hpages, hall⟩
    have hitem : ∀ r ∈ results, IsPresented db r.jobId ∧ CompanyReadable env db r.jobId := by
      intro r hr
      rw [← hall] at hr
      obtain ⟨item, hitem, rfl⟩ := List.mem_map.mp hr
      obtain ⟨k, hk, hmem⟩ := List.mem_flatMap.mp hitem
      have hpage := hpages k (List.mem_range.mp hk)
      rw [getSearchResults_eq h] at hpage
      cases hitems : resultItems env db (page (k * pageSize) pageSize results) with
      | error e =>
          rw [hitems] at hpage
          cases hpage
      | ok served =>
          rw [hitems] at hpage
          cases hpage
          obtain ⟨s, hs, hshow⟩ := mem_resultItems hitems hmem
          have hsaved : item.saved s.searchId = s := saved_resultItem hshow
          have hid : s.jobId = item.id := congrArg (·.jobId) hsaved.symm
          have hboth := (resultItem_iff hgraph s).mp ⟨item, hshow, hsaved⟩
          rw [hid] at hboth
          exact hboth
    exact ⟨fun r hr => (hitem r hr).2, fun r hr => (hitem r hr).1⟩
  · rintro ⟨hreadable, hpresented⟩
    have hpage : ∀ k, ∃ items,
        resultItems env db (page (k * pageSize) pageSize results) = .ok items ∧
          items.map (·.saved search.id) = page (k * pageSize) pageSize results := by
      intro k
      apply resultItems_of_all
      intro r hr
      have hmem := List.mem_of_mem_drop (List.mem_of_mem_take hr)
      rw [← searchId_of_saved h hmem]
      exact (resultItem_iff hgraph r).mpr ⟨hpresented r hmem, hreadable r hmem⟩
    choose items hitems hsaved using hpage
    refine ⟨items, fun k _ => ?_, ?_⟩
    · rw [getSearchResults_eq h, hitems]
      rfl
    · rw [List.map_flatMap]
      simp only [hsaved]
      exact pages_eq hsize results

end

/-! ## Runs -/

section

variable {sql : Sql} {u : Unicode} {round : ℚ → ℚ} {searchCandidateLimit : Nat} {db : Database}
  {search : JobSearch} {profile : CandidateProfile} {startedAt : Time}

/-- The ranks of the saved results count from one. -/
theorem savedResults_ranks :
    (savedResults sql u round searchCandidateLimit db search profile startedAt).map (·.rank) =
      (List.range (savedResults sql u round searchCandidateLimit db search profile
        startedAt).length).map (· + 1) := by
  unfold savedResults
  have hranks := @rankedResults_ranks
  specialize @hranks _ (matchingEnv u round searchCandidateLimit) search
    (candidateOf search profile) startedAt
    (retrieve sql db (jobFilterOf (matchingEnv u round searchCandidateLimit) search))
  have hlength := congrArg List.length hranks
  rw [List.length_map, List.length_map, List.length_range] at hlength
  rw [hlength, hranks]

/-- The jobs of the saved results are presented when they are retrieved. -/
theorem presented_of_saved {r : JobSearchResult}
    (h : r ∈ savedResults sql u round searchCandidateLimit db search profile startedAt) :
    IsPresented db r.jobId := by
  obtain ⟨read, hread, _, hid⟩ := mem_savedResults h
  rw [hid]
  exact presented_of_mem_search hread

end

/-- Over a run of the catalogue after a search was completed, the pages serve all saved
results in every state exactly when every call spares an active observation of each job, and
the company of each job can be read in every state; with lazy loading, when none of the jobs has a
company. -/
theorem result_pages_iff (rt : Runtime) (u : Unicode) (round : ℚ → ℚ)
    (searchCandidateLimit : Nat) (before ops : List Op) (table : List JobSearchResult)
    (search : JobSearch) (profile : CandidateProfile) (startedAt : Time) (pageSize : Nat)
    (hcompleted : search.status = .completed) (hsize : 1 ≤ pageSize)
    (hrows : (table.filter (·.searchId = search.id)).Perm
      (savedResults env.sql u round searchCandidateLimit (run rt empty before) search profile
        startedAt)) :
    let results := savedResults env.sql u round searchCandidateLimit (run rt empty before) search
      profile startedAt
    (Throughout (step rt) (fun db => ServesAll env db table search pageSize results)
        (run rt empty before) ops ↔
      Throughout (step rt) (fun db => ∀ r ∈ results, CompanyReadable env db r.jobId)
          (run rt empty before) ops ∧
        Each (step rt) (fun c op => ∀ r ∈ results, Spares c r.jobId op) (run rt empty before)
          ops) ∧
    (LazyCompanies env →
      (Throughout (step rt) (fun db => ServesAll env db table search pageSize results)
          (run rt empty before) ops ↔
        Throughout (step rt) (fun db => ∀ r ∈ results, WithoutCompany db r.jobId)
            (run rt empty before) ops ∧
          Each (step rt) (fun c op => ∀ r ∈ results, Spares c r.jobId op) (run rt empty before)
            ops)) := by
  intro results
  have hsaved : Saved table search results := ⟨hcompleted, hrows, savedResults_ranks⟩
  have hgraph : Graph (run rt empty before) := (graph_empty.run before).1
  have hgraphStep : ∀ c op c', Graph c → step rt c op = some c' → Graph c' :=
    fun c op c' hc hstep => (hc.step hstep).1
  have hserved : Throughout (step rt) (fun db => ServesAll env db table search pageSize results)
        (run rt empty before) ops ↔
      Throughout (step rt) (fun db => ∀ r ∈ results, CompanyReadable env db r.jobId)
          (run rt empty before) ops ∧
        Each (step rt) (fun c op => ∀ r ∈ results, Spares c r.jobId op) (run rt empty before)
          ops := by
    rw [throughout_congr hgraphStep hgraph fun db hdb => servesAll_iff hdb hsaved hsize,
      throughout_and]
    apply and_congr_right
    intro _
    apply throughout_iff_each hgraphStep _ hgraph fun r hr => presented_of_saved hr
    intro c op c' hc hpresented hstep
    apply forall₂_congr
    intro r hr
    exact presented_step_iff hc (hpresented r hr) hstep
  refine ⟨hserved, fun hlazy => ?_⟩
  rw [hserved]
  simp only [companyReadable_iff hlazy]

/-- Results are read where no company has been loaded: a job without a company has none, and
the company of any other job cannot be loaded. -/
def plainEnv : ResultEnv where
  sql := plainSql
  plan := .stable _
  float := id
  company _ job := if job.companyId = none then some none else none

/-- Two listings of one provider, the second seen later. -/
def twoListings : List Op :=
  [.ingest (.bare "dice" "a1" "Backend Engineer" "backend engineer" "backend") 10 ⟨1, 2, 3, 0⟩,
    .ingest (.bare "dice" "a2" "Backend Developer" "backend developer" "backend") 90
      ⟨4, 5, 6, 0⟩]

/-- A completed search without filters. -/
def completedSearch : JobSearch :=
  { newSearch 7 ⟨none, none, none, none, none, none, 10⟩ with status := .completed }

/-- The results that it saved when the two listings had been ingested. -/
def twoResults : List JobSearchResult :=
  savedResults plainSql .ascii id 200 (run sampleRuntime empty twoListings) completedSearch
    seniorProfile 100

theorem lazyCompanies_plainEnv : LazyCompanies plainEnv where
  absent _ _ h := if_pos h
  raises _ _ h := if_neg h

/-- A search result that names one of the listings leaves both of them active. -/
theorem result_pages_touched :
    Throughout (step sampleRuntime)
      (fun db => ServesAll plainEnv db twoResults completedSearch 1 twoResults)
      (run sampleRuntime empty twoListings) [.touchSeen "dice" ["a1"] 120] := by
  have hwithout : ∀ {db : Database}, (∀ job ∈ db.jobs, job.companyId = none) →
      ∀ r ∈ twoResults, WithoutCompany db r.jobId :=
    fun hjobs _ _ job hjob => hjobs job (getJob_eq_some hjob).1
  apply ((result_pages_iff plainEnv sampleRuntime .ascii id 200 twoListings
    [.touchSeen "dice" ["a1"] 120] twoResults completedSearch seniorProfile 100 1 rfl le_rfl
    (by decide +kernel)).2 lazyCompanies_plainEnv).mpr
  constructor
  · rw [throughout_cons, throughout_nil]
    exact ⟨hwithout (by decide), hwithout (by decide)⟩
  · rw [each_cons]
    exact ⟨fun _ _ _ => trivial, each_nil⟩

/-- A deactivation takes a result from its page and leaves the total. -/
theorem result_pages_deactivated :
    ¬ServesAll plainEnv
      (run sampleRuntime empty (twoListings ++ [.deactivateStaleSources "dice" 50 80])) twoResults
      completedSearch 20 twoResults := by
  rintro ⟨items, hpages, hall⟩
  have hserved : (getSearchResults plainEnv
      (run sampleRuntime empty (twoListings ++ [.deactivateStaleSources "dice" 50 80])) twoResults
      (some completedSearch) 1 20).toOption.map (fun r => (r.2.1.length, r.2.2)) = some (1, 2) := by
    decide +kernel
  have hcount : pageCount twoResults.length 20 = 1 := by decide +kernel
  have hlength : twoResults.length = 2 := by decide +kernel
  rw [hpages 0 (by rw [hcount]; exact Nat.zero_lt_one)] at hserved
  have hone : (items 0).length = 1 := by
    simpa [Except.toOption, hlength] using hserved
  have htwo := congrArg List.length hall
  rw [hcount, hlength] at htwo
  simp [hone] at htwo

end Search
end HireAndTech
