import HireAndTech.Base.Paging
import HireAndTech.Collection.Targets
import HireAndTech.Sources.LinkedIn.Postings
import HireAndTech.Text.Queries

/-!
# The collector of LinkedIn

{lit}`LinkedInCollector.discover` requests at most five search pages, and
{lit}`LinkedInCollector.fetch_details` one detail page for every candidate that the coordinator has
selected.  A request is a URL that the collector hands to its client; the client follows redirects
by itself, and the reply is what it comes back with.  This may depend on all that came before, so
that a reply is given for the number of the request and its URL.

Main results:

- Definitions {lit}`discover`, {lit}`fetchDetails` and {lit}`collectSelected`.
- Theorem {lit}`requests_contained`: every URL that the client is handed leads to one of the two
  endpoints.
- Theorem {lit}`discover_listing`: which pages of a listing are requested, and what is discovered.
- Theorem {lit}`collected_iff`: which jobs are collected from the candidates.
-/

namespace HireAndTech
namespace Sources
namespace LinkedIn

open Text Catalogue Collection Runs Base
open Salaries (isDecimal numerals)
open Dice (reprStr)

/-! ## Requests -/

/-- `_LINKEDIN_SEARCH_URL`. -/
def searchUrl : String :=
  "https://www.linkedin.com/jobs-guest/jobs/api/seeMoreJobPostings/search"

/-- `_LINKEDIN_JOB_DETAIL_URL`. -/
def jobDetailUrl : String :=
  "https://www.linkedin.com/jobs-guest/jobs/api/jobPosting"

/-- `_DEFAULT_PAGE_SIZE`. -/
def defaultPageSize : ℕ :=
  25

/-- `_MAX_PAGES`. -/
def maxPages : ℕ :=
  5

/-- The parameters of a search. -/
def searchParams (target : CollectionTarget) (start : ℕ) : List (List Char × List Char) :=
  [("keywords".toList, target.query.toList), ("start".toList, (toString start).toList),
    ("position".toList, "1".toList), ("pageNum".toList, "0".toList)] ++
  (target.location.filter (· ≠ "")).toList.map fun location =>
    ("location".toList, location.toList)

/-- The URL of a search page. -/
def searchRequest (target : CollectionTarget) (page : ℕ) : List Char :=
  searchUrl.toList ++ '?' :: urlencode (searchParams target (page * defaultPageSize))

/-- The URL of a detail page. -/
def detailRequest (externalJobId : String) : List Char :=
  jobDetailUrl.toList ++ '/' :: externalJobId.toList

/-! ## Replies -/

/-- What becomes of a request: the network fails, the client raises otherwise, or there is a
response, at the end of the redirects that the client has followed. -/
inductive Reply
  | unreachable
  | failed
  | response (statusCode : ℕ) (text : List Char)
deriving DecidableEq, Repr

/-- The status codes that `raise_for_status` of the client lets pass: none of an error. -/
structure Client where
  accepts : ℕ → Bool
  refuses : ∀ statusCode, 400 ≤ statusCode → statusCode < 600 → accepts statusCode = false

/-- The exceptions of the collector. -/
inductive Raised
  | foreignSource (message : String)
  | temporary (message : String) (retryAfterSeconds : ℕ)
  | rateLimited (message : String) (retryAfterSeconds : ℕ)
  | blocked (message : String) (retryAfterSeconds : ℕ)
  | status (statusCode : ℕ)
  | client
  | invalidUrl
  | overflow
deriving DecidableEq, Repr

/-- A choice among the candidates of a search, which keeps their order. -/
structure Selection where
  select : List DiscoveredSourceJob → List DiscoveredSourceJob
  sublist : ∀ candidates, (select candidates).Sublist candidates

/-- All candidates. -/
def Selection.all : Selection :=
  ⟨id, List.Sublist.refl⟩

section

variable (client : Client) (pf : Dice.Platform)

/-- `_raise_for_status`. -/
def raiseForStatus (requestDescription : String) (statusCode : ℕ) : Except Raised Unit :=
  if statusCode = 429 then
    .error (.rateLimited ("LinkedIn rate limited the " ++ requestDescription) 60)
  else if statusCode = 403 ∨ statusCode = 999 then
    .error (.blocked ("LinkedIn blocked the " ++ requestDescription ++ " (code " ++
      toString statusCode ++ ")") 300)
  else if statusCode ∈ [408, 425, 502, 503, 504] then
    .error (.temporary ("LinkedIn temporarily failed the " ++ requestDescription ++
      " with HTTP " ++ toString statusCode) 30)
  else if client.accepts statusCode then .ok ()
  else .error (.status statusCode)

/-- The text of a reply, when its status raises nothing. -/
def readReply (failure requestDescription : String) : Reply → Except Raised (List Char)
  | .unreachable => .error (.temporary failure 30)
  | .failed => .error .client
  | .response statusCode text => do
      raiseForStatus client requestDescription statusCode
      return text

/-- `_fetch_search_page`. -/
def fetchSearchPage (target : CollectionTarget) (reply : Reply) : Except Raised (List Char) :=
  readReply client ("LinkedIn request failed for query " ++
    String.ofList (reprStr pf.unicode target.query)) "collection request" reply

/-- `_fetch_job_detail`. -/
def fetchJobDetail (externalJobId : String) (reply : Reply) : Except Raised (List Char) :=
  readReply client ("LinkedIn detail request failed for job " ++
    String.ofList (reprStr pf.unicode externalJobId)) "job-detail request" reply

/-! ## The two loops -/

/-- The cards of a search page. -/
def readSearchPage (target : CollectionTarget) (reply : Reply) :
    Except Raised (List DiscoveredSourceJob) := do
  let text ← fetchSearchPage client pf target reply
  (parseSearchResponse pf.unicode text).mapError fun _ => .invalidUrl

/-- The job of a candidate; a page that is gone has none. -/
def readDetail (candidate : DiscoveredSourceJob) (reply : Reply) :
    Except Raised (Option RawSourceJob) :=
  match fetchJobDetail client pf candidate.externalJobId reply with
  | .error (.status statusCode) =>
      if statusCode ∈ [404, 410] then .ok none else .error (.status statusCode)
  | .error e => .error e
  | .ok text =>
      (parseJobDetail pf text candidate.externalJobId candidate.url).mapError fun _ => .overflow

/-- The exception for a target of another source. -/
def foreignSource (source : JobSource) : Raised :=
  .foreignSource ("LinkedInCollector cannot collect source '" ++ source.value ++ "'")

variable (site : ℕ → List Char → Reply) (target : CollectionTarget)

/-- The cards that the site serves on a page. -/
def servedPage (page : ℕ) : Except Raised (List DiscoveredSourceJob) :=
  readSearchPage client pf target (site page (searchRequest target page))

/-- `discover`. -/
def discover : Search Raised DiscoveredSourceJob :=
  if target.source ≠ .linkedin then ⟨.error (foreignSource target.source), 0⟩
  else
    searchPages (·.externalJobId) target.maxJobs defaultPageSize (servedPage client pf site target)
      [] (List.range maxPages)

/-- The job that the site serves for a candidate. -/
def servedDetail (request : ℕ) (candidate : DiscoveredSourceJob) :
    Except Raised (Option RawSourceJob) :=
  readDetail client pf candidate (site request (detailRequest candidate.externalJobId))

/-- `fetch_details`, after so many requests. -/
def fetchDetails (before : ℕ) (candidates : List DiscoveredSourceJob) :
    Search Raised RawSourceJob :=
  if target.source ≠ .linkedin then ⟨.error (foreignSource target.source), 0⟩
  else fetchEach (servedDetail client pf site) before [] candidates

/-- What a run of the collector comes to, and the URLs that it has handed to its client. -/
structure Run where
  outcome : Except Raised (List RawSourceJob)
  requests : List (List Char)

/-- The search, and the details of the candidates that are selected. -/
def collectSelected (selection : Selection) : Run :=
  let search := discover client pf site target
  let searches := (List.range search.requests).map (searchRequest target)
  match search.outcome with
  | .error e => ⟨.error e, searches⟩
  | .ok candidates =>
      let selected := selection.select candidates
      let details := fetchDetails client pf site target search.requests selected
      ⟨details.outcome, searches ++
        (selected.take details.requests).map fun candidate => detailRequest candidate.externalJobId⟩

/-- `collect`. -/
def collect : Run :=
  collectSelected client pf site target .all

end

/-! ## Containment -/

/-- The network location of the two endpoints. -/
def host : String :=
  "www.linkedin.com"

/-- The path of the search. -/
def searchPath : String :=
  "/jobs-guest/jobs/api/seeMoreJobPostings/search"

/-- The path before the number of a detail page. -/
def detailPath : String :=
  "/jobs-guest/jobs/api/jobPosting/"

/-- The URL of a search page of the target: its query is read as the parameters of the search. -/
def SearchesFor (target : CollectionTarget) (parts : SplitResult) : Prop :=
  ∃ page < maxPages, parts.path = searchPath.toList ∧
    parseQsl true parts.query = searchParams target (page * defaultPageSize)

/-- The URL of the detail page of a number. -/
def AsksForDetail (parts : SplitResult) : Prop :=
  ∃ number ∈ numerals, parts.path = detailPath.toList ++ number ∧ parts.query = []

/-- The URL leads to one of the two endpoints. -/
structure Contained (u : Unicode) (target : CollectionTarget) (url : List Char) : Prop where
  exists_parts : ∃ parts, urlsplit u url = some parts ∧ parts.scheme = "https".toList ∧
    parts.netloc = host.toList ∧ parts.fragment = [] ∧
    (SearchesFor target parts ∨ AsksForDetail parts)

section

variable {u : Unicode} {target : CollectionTarget} {page : ℕ} {tail : List Char}
  {externalJobId : String}

/-- A URL on the host of the endpoints is split behind it. -/
theorem urlsplit_host (hroot : tail.head? = some '/')
    (htail : ∀ c ∈ tail, isUnsafe c = false ∧ c ≠ '#') :
    urlsplit u ("https://".toList ++ host.toList ++ tail) =
      some ⟨"https".toList, host.toList, (partition '?' tail).1, (partition '?' tail).2, []⟩ := by
  have hhost : host.toList.all
      (fun c => isNetlocChar c && !isUnsafe c && c.toNat < 128) = true := by
    decide
  refine urlsplit_https (fun c hc => ?_) (by decide) ?_ htail
  · simpa [and_assoc] using List.all_eq_true.mp hhost c hc
  · rw [hroot]
    decide

/-- The characters of a class without the marks that a URL is cleared of or cut at. -/
theorem clean_of_class {p : Char → Bool} {c : Char}
    (hp : ['\t', '\r', '\n', '#', '?'].all (!p ·) = true) (hc : p c = true) :
    isUnsafe c = false ∧ c ≠ '#' ∧ c ≠ '?' := by
  have hne : ∀ d ∈ ['\t', '\r', '\n', '#', '?'], c ≠ d := by
    rintro d hd rfl
    have hfalse := List.all_eq_true.mp hp c hd
    rw [hc] at hfalse
    contradiction
  simp only [List.forall_mem_cons, List.not_mem_nil, false_imp_iff, implies_true, and_true] at hne
  obtain ⟨htab, hreturn, hnewline, hhash, hquestion⟩ := hne
  refine ⟨?_, hhash, hquestion⟩
  simp [isUnsafe, htab, hreturn, hnewline]

/-- The characters of a query string. -/
def isQueryChar (c : Char) : Bool :=
  isQuoted c || c = '=' || c = '&'

/-- The characters of the two paths. -/
def isPathChar (c : Char) : Bool :=
  c.isAlphanum || c = '/' || c = '-'

theorem isPathChar_of_mem {c : Char} (h : c ∈ searchPath.toList ∨ c ∈ detailPath.toList) :
    isPathChar c = true := by
  have hall : (searchPath.toList ++ detailPath.toList).all isPathChar = true := by decide
  exact List.all_eq_true.mp hall c (List.mem_append.mpr h)

theorem contained_searchRequest (hpage : page < maxPages) :
    Contained u target (searchRequest target page) := by
  generalize hparams : searchParams target (page * defaultPageSize) = params
  have hurl : searchRequest target page =
      "https://".toList ++ host.toList ++ (searchPath.toList ++ '?' :: urlencode params) := by
    rw [← hparams]
    rfl
  have hclean : ∀ c ∈ searchPath.toList ++ '?' :: urlencode params,
      isUnsafe c = false ∧ c ≠ '#' := by
    intro c hc
    rw [List.mem_append, List.mem_cons] at hc
    rcases hc with hc | rfl | hc
    · obtain ⟨hsafe, hhash, _⟩ := clean_of_class (by decide) (isPathChar_of_mem (Or.inl hc))
      exact ⟨hsafe, hhash⟩
    · decide
    · have hquery : isQueryChar c = true := by
        rcases mem_urlencode hc with hc | rfl | rfl
        · rw [isQueryChar, hc]
          rfl
        · decide
        · decide
      obtain ⟨hsafe, hhash, _⟩ := clean_of_class (by decide) hquery
      exact ⟨hsafe, hhash⟩
  have hmark : '?' ∉ searchPath.toList := by decide
  have hsplit := @urlsplit_host u _ rfl hclean
  rw [partition_append hmark] at hsplit
  refine ⟨_, hurl ▸ hsplit, rfl, rfl, rfl, Or.inl ⟨page, hpage, rfl, ?_⟩⟩
  rw [parseQsl_urlencode, hparams]
  simp

theorem contained_detailRequest (h : externalJobId.toList ∈ numerals) :
    Contained u target (detailRequest externalJobId) := by
  have hurl : detailRequest externalJobId =
      "https://".toList ++ host.toList ++ (detailPath.toList ++ externalJobId.toList) := rfl
  have hclean : ∀ c ∈ detailPath.toList ++ externalJobId.toList,
      isUnsafe c = false ∧ c ≠ '#' ∧ c ≠ '?' := by
    intro c hc
    rcases List.mem_append.mp hc with hc | hc
    · exact clean_of_class (by decide) (isPathChar_of_mem (Or.inr hc))
    · exact clean_of_class (by decide) (h.2 c hc)
  have hmark : '?' ∉ detailPath.toList ++ externalJobId.toList :=
    fun hmem => (hclean '?' hmem).2.2 rfl
  have hsplit := @urlsplit_host u _ rfl fun c hc => ⟨(hclean c hc).1, (hclean c hc).2.1⟩
  rw [partition_of_notMem hmark] at hsplit
  exact ⟨_, hurl ▸ hsplit, rfl, rfl, rfl, Or.inr ⟨_, h, rfl, rfl⟩⟩

end

/-! ## Discovery -/

section

variable {client : Client} {pf : Dice.Platform} {site : ℕ → List Char → Reply}
  {target : CollectionTarget} {candidates : List DiscoveredSourceJob} {job : DiscoveredSourceJob}
  {n : ℕ}

theorem discover_of_linkedin (h : target.source = .linkedin) :
    discover client pf site target =
      searchPages (·.externalJobId) target.maxJobs defaultPageSize
        (servedPage client pf site target) [] (List.range maxPages) :=
  if_neg (not_not.mpr h)

/-- Every card that a page serves has been read of it. -/
theorem card_of_mem_pageItems (h : job ∈ pageItems (servedPage client pf site target) n) :
    Card job := by
  unfold pageItems at h
  cases hserved : servedPage client pf site target n with
  | error e =>
      rw [hserved] at h
      contradiction
  | ok jobs =>
      rw [hserved] at h
      obtain ⟨text, _, hparse⟩ := bind_eq_ok_iff.mp hserved
      exact card_of_mem (mapError_eq_ok_iff.mp hparse) h

/-- What a search has discovered: cards with different numbers, as many as are wanted at most. -/
structure Discovered (maxJobs : ℕ) (candidates : List DiscoveredSourceJob) : Prop where
  cards : ∀ job ∈ candidates, Card job
  distinct : (candidates.map (·.externalJobId)).Nodup
  bounded : candidates.length ≤ maxJobs

theorem requests_discover_le :
    (discover client pf site target).requests ≤ maxPages := by
  by_cases h : target.source = .linkedin
  · rw [discover_of_linkedin h]
    by_contra hlt
    exact lt_irrefl _ ((requests_searchPages target.maxJobsBounds.1 maxPages).mp
      (not_le.mp hlt)).1
  · rw [discover, if_pos h]
    exact Nat.zero_le _

theorem discovered_of_discover (h : (discover client pf site target).outcome = .ok candidates) :
    Discovered target.maxJobs candidates := by
  unfold discover at h
  split_ifs at h with hsource
  rw [outcome_searchPages target.maxJobsBounds.1] at h
  obtain ⟨pages, _, rfl⟩ := map_eq_ok_iff.mp h
  refine ⟨fun job hjob => ?_, ?_, List.length_take_le _ _⟩
  · have hlisted := firstSeen_sublist.subset (List.take_subset _ _ hjob)
    obtain ⟨n, _, hn⟩ := List.mem_flatMap.mp hlisted
    exact card_of_mem_pageItems hn
  · rw [List.map_take]
    exact nodup_map_firstSeen.sublist (List.take_sublist _ _)

/-! ## Requests of a run -/

theorem searchRequest_injective (target : CollectionTarget) :
    Function.Injective (searchRequest target) := by
  intro page page' h
  have hquery := urlencode_injective (List.cons_inj_right _ |>.mp (List.append_cancel_left h))
  have hstart : (toString (page * defaultPageSize)).toList =
      (toString (page' * defaultPageSize)).toList := by
    simp only [searchParams, List.cons_append, List.cons.injEq, Prod.mk.injEq, true_and] at hquery
    exact hquery.1
  have hdigits : Nat.toDigits 10 (page * defaultPageSize) =
      Nat.toDigits 10 (page' * defaultPageSize) := by
    rw [← Nat.toList_repr, ← Nat.toList_repr]
    exact hstart
  have hnumber := congrArg (Nat.ofDigitChars 10 · 0) hdigits
  rw [Nat.ofDigitChars_ten_toDigits, Nat.ofDigitChars_ten_toDigits] at hnumber
  exact Nat.eq_of_mul_eq_mul_right (by decide) hnumber

theorem detailRequest_injective : Function.Injective detailRequest := by
  intro id id' h
  exact String.toList_inj.mp (List.cons_inj_right _ |>.mp (List.append_cancel_left h))

/-- No detail page is a search page. -/
theorem searchRequest_ne_detailRequest {id : String} :
    searchRequest target n ≠ detailRequest id := by
  intro h
  have htake := congrArg (List.take 50) h
  rw [searchRequest, detailRequest, List.take_append_of_le_length (by decide),
    List.take_append_of_le_length (by decide)] at htake
  revert htake
  decide

/-- The URLs that a run requests: those of some search pages, and those of some of the candidates
that are selected. -/
theorem requests_collectSelected (client : Client) (pf : Dice.Platform)
    (site : ℕ → List Char → Reply) (target : CollectionTarget) (selection : Selection) :
    ∃ details : List DiscoveredSourceJob, Discovered target.maxJobs details ∧
      (collectSelected client pf site target selection).requests =
        (List.range (discover client pf site target).requests).map (searchRequest target) ++
          details.map fun candidate => detailRequest candidate.externalJobId := by
  unfold collectSelected
  dsimp only
  cases houtcome : (discover client pf site target).outcome with
  | error e => exact ⟨[], ⟨by simp, List.nodup_nil, Nat.zero_le _⟩, by simp⟩
  | ok candidates =>
      obtain ⟨hcards, hdistinct, hbounded⟩ := discovered_of_discover houtcome
      have hsublist := (List.take_sublist
        (fetchDetails client pf site target (discover client pf site target).requests
          (selection.select candidates)).requests (selection.select candidates)).trans
            (selection.sublist candidates)
      exact ⟨_, ⟨fun job hjob => hcards job (hsublist.subset hjob),
        hdistinct.sublist (hsublist.map _), hsublist.length_le.trans hbounded⟩, rfl⟩

/-- Whatever the site replies, every URL that a run hands to its client leads to one of the two
endpoints: to the search, whose query is read as the target's own, or to the detail page of a
number.  No URL is handed to the client twice, and there are no more of them than pages and jobs
that are wanted. -/
theorem requests_contained (client : Client) (pf : Dice.Platform) (site : ℕ → List Char → Reply)
    (target : CollectionTarget) (selection : Selection) :
    let run := collectSelected client pf site target selection
    (∀ url ∈ run.requests, Contained pf.unicode target url) ∧ run.requests.Nodup ∧
      run.requests.length ≤ maxPages + target.maxJobs := by
  dsimp only
  obtain ⟨details, ⟨hcards, hdistinct, hbounded⟩, hrequests⟩ :=
    requests_collectSelected client pf site target selection
  have hpages : (discover client pf site target).requests ≤ maxPages := requests_discover_le
  rw [hrequests]
  refine ⟨fun url hurl => ?_, ?_, ?_⟩
  · rcases List.mem_append.mp hurl with hurl | hurl
    · obtain ⟨page, hpage, rfl⟩ := List.mem_map.mp hurl
      exact contained_searchRequest ((List.mem_range.mp hpage).trans_le hpages)
    · obtain ⟨job, hjob, rfl⟩ := List.mem_map.mp hurl
      exact contained_detailRequest (hcards job hjob).numeral
  · refine List.Nodup.append (List.nodup_range.map (searchRequest_injective target)) ?_ ?_
    · have hmapped := hdistinct.map detailRequest_injective
      rwa [List.map_map] at hmapped
    · intro url hsearch hdetail
      obtain ⟨page, _, rfl⟩ := List.mem_map.mp hsearch
      obtain ⟨job, _, heq⟩ := List.mem_map.mp hdetail
      exact searchRequest_ne_detailRequest heq.symm
  · rw [List.length_append, List.length_map, List.length_map, List.length_range]
    exact Nat.add_le_add hpages hbounded

end

/-! ## Listings -/

/-- A site that pages a listing of different jobs by twenty-five: the first jobs are discovered, as
many as are wanted or as five pages have, and no page is requested after one that is not full. -/
theorem discover_listing (client : Client) (pf : Dice.Platform) (site : ℕ → List Char → Reply)
    (target : CollectionTarget) (listing : List DiscoveredSourceJob)
    (hsource : target.source = .linkedin) (hdistinct : (listing.map (·.externalJobId)).Nodup)
    (hserved : ∀ page < maxPages, servedPage client pf site target page =
      .ok ((listing.drop (defaultPageSize * page)).take defaultPageSize)) :
    let search := discover client pf site target
    search.outcome = .ok (listing.take (min target.maxJobs (defaultPageSize * maxPages))) ∧
      ∀ page, page < search.requests ↔ page < maxPages ∧
        defaultPageSize * page ≤ listing.length ∧ defaultPageSize * page < target.maxJobs := by
  dsimp only
  rw [discover_of_linkedin hsource]
  exact searchPages_chunks target.maxJobsBounds.1 (by decide) hdistinct hserved

theorem refuses_errors (statusCode : ℕ) (herror : 400 ≤ statusCode) (_ : statusCode < 600) :
    decide (200 ≤ statusCode ∧ statusCode < 300) = false := by
  rw [decide_eq_false_iff_not]
  omega

/-- The client lets the status codes of a success pass. -/
def successClient : Client where
  accepts := fun statusCode => decide (200 ≤ statusCode ∧ statusCode < 300)
  refuses := refuses_errors

theorem engineer_nonblank : "engineer" ≠ "" := by
  decide

/-- A search for engineers. -/
def engineerTarget : CollectionTarget where
  source := .linkedin
  query := "engineer"
  location := none
  enabled := true
  maxJobs := 100
  queryNonblank := engineer_nonblank
  locationNonblank := no_location_nonblank
  maxJobsBounds := default_maxJobs_bounds

/-- The numbers of fifty-two jobs. -/
def engineerIds : List (List Char) :=
  (List.range 52).map fun k => ['1', Char.ofNat (48 + k / 10), Char.ofNat (48 + k % 10)]

/-- The card of a job. -/
def engineerCard (id : List Char) : List Char :=
  "<li><a href=\"/jobs/view/".toList ++ (id ++ "\">Go</a>".toList)

/-- A site that pages the jobs by twenty-five. -/
def engineerSite (request : ℕ) (_ : List Char) : Reply :=
  .response 200
    (((engineerIds.drop (defaultPageSize * request)).take defaultPageSize).flatMap engineerCard)

/-- The jobs of the site. -/
def engineerListing : List DiscoveredSourceJob :=
  engineerIds.map fun id =>
    { source := "linkedin", externalJobId := String.ofList id, title := "Go",
      url := some (String.ofList ("https://www.linkedin.com/jobs/view/".toList ++ id)) }

theorem servedPage_engineerSite : ∀ page < maxPages,
    servedPage successClient .ascii engineerSite engineerTarget page =
      .ok ((engineerListing.drop (defaultPageSize * page)).take defaultPageSize) := by
  decide +kernel

/-- Two full search pages and one of two jobs, after which no other is requested. -/
theorem discover_listing_engineer :
    (discover successClient .ascii engineerSite engineerTarget).outcome = .ok engineerListing ∧
      ∀ page, page < (discover successClient .ascii engineerSite engineerTarget).requests ↔
        page < maxPages ∧ defaultPageSize * page ≤ 52 ∧ defaultPageSize * page < 100 :=
  discover_listing successClient .ascii engineerSite engineerTarget engineerListing rfl (by decide)
    servedPage_engineerSite

/-! ## Details -/

/-- The status code raises nothing. -/
def Passes (client : Client) (statusCode : ℕ) : Prop :=
  statusCode ∉ [429, 403, 999, 408, 425, 502, 503, 504] ∧ client.accepts statusCode = true

/-- The job is gone. -/
def Gone (reply : Reply) : Prop :=
  ∃ text, reply = .response 404 text ∨ reply = .response 410 text

/-- The reply is a page that passes, with a title or without. -/
def ServesPage (client : Client) (titled : Bool) (reply : Reply) : Prop :=
  ∃ statusCode text, reply = .response statusCode text ∧ Passes client statusCode ∧
    (detailTitle text).isSome = titled

/-- The job is gone, or the page passes and no amount of a page with a title overflows. -/
def Readable (client : Client) (pf : Dice.Platform) (reply : Reply) : Prop :=
  Gone reply ∨ ∃ statusCode text, reply = .response statusCode text ∧ Passes client statusCode ∧
    ((detailTitle text).isSome = true →
      Salaries.salaryOverflows pf.unicode (detailDescription text) = false)

section

variable {client : Client} {pf : Dice.Platform} {site : ℕ → List Char → Reply}
  {target : CollectionTarget} {candidate : DiscoveredSourceJob} {reply : Reply} {text : List Char}
  {failure requestDescription : String} {statusCode : ℕ} {detail : Option RawSourceJob}

theorem raiseForStatus_eq_ok_iff :
    raiseForStatus client requestDescription statusCode = .ok () ↔ Passes client statusCode := by
  unfold raiseForStatus Passes
  split_ifs with hlimited hblocked htemporary haccepts
  · simp [hlimited]
  · rcases hblocked with rfl | rfl <;> simp
  · refine iff_of_false (by simp) fun h => h.1 ?_
    exact List.mem_cons_of_mem _ (List.mem_cons_of_mem _ (List.mem_cons_of_mem _ htemporary))
  · rw [not_or] at hblocked
    simp only [List.mem_cons, not_or] at htemporary
    simp [hlimited, hblocked, haccepts, htemporary]
  · simp [haccepts]

theorem readReply_eq_ok_iff :
    readReply client failure requestDescription reply = .ok text ↔
      ∃ statusCode, reply = .response statusCode text ∧ Passes client statusCode := by
  cases reply with
  | unreachable => simp [readReply]
  | failed => simp [readReply]
  | response statusCode found =>
      rw [readReply, bind_eq_ok_iff]
      simp only [Reply.response.injEq]
      constructor
      · rintro ⟨_, hpasses, htext⟩
        cases htext
        exact ⟨statusCode, ⟨rfl, rfl⟩, raiseForStatus_eq_ok_iff.mp hpasses⟩
      · rintro ⟨_, ⟨rfl, rfl⟩, hpasses⟩
        exact ⟨(), raiseForStatus_eq_ok_iff.mpr hpasses, rfl⟩

theorem eq_of_raiseForStatus {raised : ℕ}
    (h : raiseForStatus client requestDescription statusCode = .error (.status raised)) :
    raised = statusCode := by
  unfold raiseForStatus at h
  split_ifs at h <;> cases h
  rfl

/-- The status codes of jobs that are gone do not pass. -/
theorem raiseForStatus_of_gone (h : statusCode ∈ [404, 410]) :
    raiseForStatus client requestDescription statusCode = .error (.status statusCode) := by
  have hbounds : 400 ≤ statusCode ∧ statusCode < 600 := by
    simp only [List.mem_cons, List.not_mem_nil, or_false] at h
    omega
  have hrefused := client.refuses statusCode hbounds.1 hbounds.2
  simp only [List.mem_cons, List.not_mem_nil, or_false] at h
  rcases h with rfl | rfl <;> simp [raiseForStatus, hrefused]

theorem gone_response_iff : Gone (.response statusCode text) ↔ statusCode ∈ [404, 410] := by
  simp [Gone, exists_or]

/-- What the detail page of a candidate comes to. -/
theorem readDetail_eq_ok_iff :
    readDetail client pf candidate reply = .ok detail ↔
      (Gone reply ∧ detail = none) ∨
        ∃ statusCode text, reply = .response statusCode text ∧ Passes client statusCode ∧
          parseJobDetail pf text candidate.externalJobId candidate.url = .ok detail := by
  unfold readDetail
  split
  · rename_i raised hraised
    cases reply with
    | unreachable => cases hraised
    | failed => cases hraised
    | response statusCode text =>
        have hstatus : raiseForStatus client "job-detail request" statusCode =
            .error (.status raised) := by
          cases hraise : raiseForStatus client "job-detail request" statusCode with
          | error e =>
              rw [fetchJobDetail, readReply, hraise, error_bind] at hraised
              cases hraised
              rfl
          | ok value =>
              rw [fetchJobDetail, readReply, hraise, ok_bind] at hraised
              cases hraised
        have hraised' := eq_of_raiseForStatus hstatus
        have hfails : ¬Passes client statusCode := by
          intro hpasses
          rw [raiseForStatus_eq_ok_iff.mpr hpasses] at hstatus
          cases hstatus
        rw [gone_response_iff, hraised']
        split_ifs with hgone
        · simp [hgone, hfails, eq_comm]
        · simp [hgone, hfails]
  · rename_i e hother hraised
    refine iff_of_false (by simp) ?_
    rintro (⟨⟨text, rfl | rfl⟩, _⟩ | ⟨statusCode, text, rfl, hpasses, _⟩)
    · rw [fetchJobDetail, readReply, raiseForStatus_of_gone (by decide), error_bind] at hraised
      cases hraised
      exact hother _ rfl
    · rw [fetchJobDetail, readReply, raiseForStatus_of_gone (by decide), error_bind] at hraised
      cases hraised
      exact hother _ rfl
    · rw [fetchJobDetail, readReply_eq_ok_iff.mpr ⟨statusCode, rfl, hpasses⟩] at hraised
      cases hraised
  · rename_i text hread
    obtain ⟨statusCode, rfl, hpasses⟩ := readReply_eq_ok_iff.mp hread
    have hpresent : ¬Gone (.response statusCode text) := by
      rw [gone_response_iff]
      intro hgone
      rw [fetchJobDetail, readReply, raiseForStatus_of_gone hgone, error_bind] at hread
      cases hread
    rw [mapError_eq_ok_iff]
    constructor
    · exact fun hparse => Or.inr ⟨statusCode, text, rfl, hpasses, hparse⟩
    · rintro (⟨hgone, _⟩ | ⟨_, _, heq, _, hparse⟩)
      · exact absurd hgone hpresent
      · cases heq
        exact hparse

theorem isOk_readDetail_iff :
    (readDetail client pf candidate reply).isOk = true ↔ Readable client pf reply := by
  rw [isOk_iff]
  simp only [readDetail_eq_ok_iff, Readable]
  constructor
  · rintro ⟨detail, ⟨hgone, _⟩ | ⟨statusCode, text, hreply, hpasses, hparse⟩⟩
    · exact Or.inl hgone
    · exact Or.inr ⟨statusCode, text, hreply, hpasses,
        isOk_parseJobDetail_iff.mp (isOk_iff.mpr ⟨detail, hparse⟩)⟩
  · rintro (hgone | ⟨statusCode, text, hreply, hpasses, hsalary⟩)
    · exact ⟨none, Or.inl ⟨hgone, rfl⟩⟩
    · obtain ⟨detail, hparse⟩ := isOk_iff.mp (isOk_parseJobDetail_iff.mpr hsalary)
      exact ⟨detail, Or.inr ⟨statusCode, text, hreply, hpasses, hparse⟩⟩

theorem posting_of_readDetail {raw : RawSourceJob}
    (h : readDetail client pf candidate reply = .ok (some raw)) :
    Posting candidate.externalJobId candidate.url raw := by
  rcases readDetail_eq_ok_iff.mp h with ⟨_, hnone⟩ | ⟨_, _, _, _, hparse⟩
  · cases hnone
  · exact posting_of_parseJobDetail hparse

theorem gone_not_passes (hgone : Gone (.response statusCode text)) :
    ¬Passes client statusCode := by
  rw [gone_response_iff] at hgone
  intro hpasses
  have hraised : raiseForStatus client "" statusCode = .error (.status statusCode) :=
    raiseForStatus_of_gone hgone
  rw [raiseForStatus_eq_ok_iff.mpr hpasses] at hraised
  cases hraised

/-- A page that can be read has a job when it is titled, and none when it is gone or not titled. -/
theorem isSome_detail_iff (h : readDetail client pf candidate reply = .ok detail) :
    (detail.isSome = true ↔ ServesPage client true reply) ∧
      (detail.isSome = false ↔ Gone reply ∨ ServesPage client false reply) := by
  rcases readDetail_eq_ok_iff.mp h with ⟨hgone, rfl⟩ | ⟨statusCode, text, rfl, hpasses, hparse⟩
  · refine ⟨iff_of_false (by simp) ?_, iff_of_true rfl (Or.inl hgone)⟩
    rintro ⟨statusCode, text, rfl, hpasses, _⟩
    exact gone_not_passes hgone hpasses
  · have htitle := isSome_parseJobDetail_iff hparse
    have hserves : ∀ titled, ServesPage client titled (.response statusCode text) ↔
        (detailTitle text).isSome = titled := by
      intro titled
      constructor
      · rintro ⟨_, _, heq, _, htitled⟩
        cases heq
        exact htitled
      · exact fun htitled => ⟨statusCode, text, rfl, hpasses, htitled⟩
    have hpresent : ¬Gone (.response statusCode text) := fun hgone => gone_not_passes hgone hpasses
    rw [hserves, hserves, or_iff_right hpresent, Bool.eq_false_iff, Bool.eq_false_iff, ne_eq, ne_eq,
      htitle]
    exact ⟨Iff.rfl, Iff.rfl⟩

theorem fetchDetails_of_linkedin (h : target.source = .linkedin) (before : ℕ)
    (candidates : List DiscoveredSourceJob) :
    fetchDetails client pf site target before candidates =
      fetchEach (servedDetail client pf site) before [] candidates :=
  if_neg (not_not.mpr h)

theorem source_of_discover {candidates : List DiscoveredSourceJob}
    (h : (discover client pf site target).outcome = .ok candidates) :
    target.source = .linkedin := by
  by_contra hsource
  rw [discover, if_pos hsource] at h
  cases h

theorem collectSelected_of_ok {candidates : List DiscoveredSourceJob} {selection : Selection}
    (h : (discover client pf site target).outcome = .ok candidates) :
    (collectSelected client pf site target selection).outcome =
      (fetchEach (fun request candidate => readDetail client pf candidate
        (site request (detailRequest candidate.externalJobId)))
        (discover client pf site target).requests [] (selection.select candidates)).outcome := by
  unfold collectSelected
  dsimp only
  rw [h]
  dsimp only
  rw [fetchDetails_of_linkedin (source_of_discover h)]
  rfl

/-- A run succeeds when its search does and the page of every selected candidate can be read. -/
theorem isOk_collectSelected_iff {selection : Selection} :
    (collectSelected client pf site target selection).outcome.isOk = true ↔
      ∃ candidates, (discover client pf site target).outcome = .ok candidates ∧
        ∀ item ∈ (selection.select candidates).zipIdx (discover client pf site target).requests,
          Readable client pf (site item.2 (detailRequest item.1.externalJobId)) := by
  cases houtcome : (discover client pf site target).outcome with
  | error e =>
      have herror : (collectSelected client pf site target selection).outcome = .error e := by
        unfold collectSelected
        dsimp only
        rw [houtcome]
      simp [herror]
  | ok candidates =>
      rw [collectSelected_of_ok houtcome, isOk_fetchEach_iff]
      simp only [isOk_readDetail_iff, Except.ok.injEq, exists_eq_left']

/-- The jobs of different candidates that have been fetched, each with its own request. -/
theorem fetched_of_ok {requests : ℕ} {selected : List DiscoveredSourceJob}
    {jobs : List RawSourceJob}
    (h : (fetchEach (fun request candidate => readDetail client pf candidate
      (site request (detailRequest candidate.externalJobId))) requests [] selected).outcome =
        .ok jobs)
    (hdistinct : (selected.map (·.externalJobId)).Nodup) :
    (jobs.map (·.externalJobId)).Sublist (selected.map (·.externalJobId)) ∧
      (∀ raw ∈ jobs, ∃ candidate ∈ selected,
        Posting candidate.externalJobId candidate.url raw) ∧
      ∀ item ∈ selected.zipIdx requests,
        (item.1.externalJobId ∈ jobs.map (·.externalJobId) ↔
          ServesPage client true (site item.2 (detailRequest item.1.externalJobId))) ∧
        (item.1.externalJobId ∉ jobs.map (·.externalJobId) ↔
          Gone (site item.2 (detailRequest item.1.externalJobId)) ∨
            ServesPage client false (site item.2 (detailRequest item.1.externalJobId))) := by
  have hread := isOk_fetchEach_iff.mp (isOk_iff.mpr ⟨jobs, h⟩)
  obtain ⟨found, hfound, rfl⟩ := outcome_fetchEach_eq_ok_iff.mp h
  have hkey : ∀ item ∈ selected.zipIdx requests, ∀ raw, readDetail client pf item.1
      (site item.2 (detailRequest item.1.externalJobId)) = .ok (some raw) →
        raw.externalJobId = item.1.externalJobId :=
    fun item _ raw hraw => (posting_of_readDetail hraw).externalJobId
  have hids : (selected.zipIdx requests).map (fun item => item.1.externalJobId) =
      selected.map (·.externalJobId) := by
    have hfst := congrArg (List.map (·.externalJobId)) (List.zipIdx_map_fst requests selected)
    rwa [List.map_map] at hfst
  refine ⟨hids ▸ map_reduceOption_sublist hfound hkey, fun raw hraw => ?_, fun item hitem => ?_⟩
  · obtain ⟨item, hitem, hdetail⟩ := exists_item_of_mem hfound hraw
    exact ⟨item.1, List.fst_mem_of_mem_zipIdx hitem, posting_of_readDetail hdetail⟩
  · obtain ⟨detail, hdetail⟩ := isOk_iff.mp (hread item hitem)
    have hmem := key_mem_iff hfound hkey (hids ▸ hdistinct) hitem hdetail
    have hnot := (not_congr hmem).trans (Bool.not_eq_true _).to_iff
    obtain ⟨hsome, hnone⟩ := isSome_detail_iff hdetail
    exact ⟨hmem.trans hsome, hnot.trans hnone⟩

end

/-- A run succeeds when its search does and every selected candidate is gone or served on a page
that can be read.  The jobs of a run keep the numbers, the URLs and the order of the candidates, and
a selected candidate is missing exactly if it is gone or its page has no title. -/
theorem collected_iff (client : Client) (pf : Dice.Platform) (site : ℕ → List Char → Reply)
    (target : CollectionTarget) (selection : Selection) :
    let search := discover client pf site target
    let run := collectSelected client pf site target selection
    let reply := fun item : DiscoveredSourceJob × ℕ =>
      site item.2 (detailRequest item.1.externalJobId)
    (run.outcome.isOk = true ↔ ∃ candidates, search.outcome = .ok candidates ∧
      ∀ item ∈ (selection.select candidates).zipIdx search.requests,
        Readable client pf (reply item)) ∧
    ∀ candidates jobs, search.outcome = .ok candidates → run.outcome = .ok jobs →
      (jobs.map (·.externalJobId)).Sublist
        ((selection.select candidates).map (·.externalJobId)) ∧
      (∀ raw ∈ jobs, ∃ candidate ∈ selection.select candidates,
        Posting candidate.externalJobId candidate.url raw) ∧
      ∀ item ∈ (selection.select candidates).zipIdx search.requests,
        (item.1.externalJobId ∈ jobs.map (·.externalJobId) ↔
          ServesPage client true (reply item)) ∧
        (item.1.externalJobId ∉ jobs.map (·.externalJobId) ↔
          Gone (reply item) ∨ ServesPage client false (reply item)) := by
  refine ⟨isOk_collectSelected_iff, fun candidates jobs hcandidates hjobs => ?_⟩
  rw [collectSelected_of_ok hcandidates] at hjobs
  exact fetched_of_ok hjobs ((discovered_of_discover hcandidates).distinct.sublist
    ((selection.sublist candidates).map (·.externalJobId)))

end LinkedIn
end Sources
end HireAndTech
