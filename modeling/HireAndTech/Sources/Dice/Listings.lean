import HireAndTech.Base.FirstSeen
import HireAndTech.Collection.Skipping
import HireAndTech.Sources.Dice.Details
import HireAndTech.Sources.Dice.Flight

/-!
# Listings of Dice search pages

{lit}`DiceCollector._parse_search_response` tries four readings of a search page: the list of jobs
of its flight payload, the postings of its JSON scripts, the identifiers in its links, and the
links themselves.  The first one that finds a job is taken, and repeated identifiers are left out.

Main results:

- Definition {lit}`parseSearchResponse`.
- Definition {lit}`served`: the listings of a page as they are served.
- Theorem {lit}`parseSearchResponse_eq`: repetitions are left out of the served listings.
- Theorem {lit}`isOk_served_iff`: which pages can be parsed.
-/

namespace HireAndTech
namespace Sources
namespace Dice

open Text Catalogue Salaries Collection Runs

/-- `_deduplicate`. -/
def deduplicate (jobs : List DiscoveredSourceJob) : List DiscoveredSourceJob :=
  Base.firstSeen (·.externalJobId) [] jobs

/-- `_DICE_JOB_DETAIL_URL`. -/
def jobDetailUrl : String :=
  "https://www.dice.com/job-detail"

variable (pf : Platform)

/-! ## Flight payloads -/

/-- `str(value or default)` of the first value that is taken to be true. -/
def textOr (values : List (Option JsonValue)) (default : String) : String :=
  ((firstTruthy values).map (strValue pf.unicode)).getD default

/-- An item of the list of jobs. -/
def flightListing : JsonValue → Option DiscoveredSourceJob
  | .obj item =>
      let guid := stripText (textOr pf [item.lookup "guid", item.lookup "id"] "")
      if guid = "" then none
      else
        some
          { source := "dice", externalJobId := guid
            title := stripText (textOr pf [item.lookup "title"] "Dice Tech Job")
            url := some (stripText
              (textOr pf [item.lookup "detailsPageUrl"] (jobDetailUrl ++ "/" ++ guid))) }
  | _ => none

/-- The items of the list of jobs that are listings. -/
def flightListings (body : List Char) : List DiscoveredSourceJob :=
  match (parseFlightJoblist pf.readFloat body).bind (·.lookup "data") with
  | some (.arr items) => items.filterMap (flightListing pf)
  | _ => []

/-- `_parse_flight_chunks`. -/
def parseFlightChunks (body : List Char) : List DiscoveredSourceJob :=
  deduplicate (flightListings pf body)

/-! ## Scripts -/

/-- `application/(?:ld\+json|json)`. -/
def jsonScript : Regex :=
  .seq (folded "application/") (.alt (folded "ld+json") (folded "json"))

/-- The listing of a job. -/
def DetailedJob.listing (job : DetailedJob) : DiscoveredSourceJob :=
  ⟨job.raw.source, job.raw.externalJobId, job.raw.title, job.raw.url⟩

/-- The listings of the mappings of a script. -/
def scriptListings (rawJson : List Char) : Except Raised (List DiscoveredSourceJob) := do
  match ← scriptValue pf rawJson with
  | some payload =>
      let jobs ← (walkJson payload).mapM (jobFromMapping pf)
      return (jobs.filterMap id).map DetailedJob.listing
  | none => return []

/-- The listings of the scripts of a page. -/
def jsonListings (body : List Char) : Except Raised (List DiscoveredSourceJob) := do
  let found ← (scriptTexts jsonScript body).mapM (scriptListings pf)
  return found.flatten

/-- `_parse_json_scripts`. -/
def parseJsonScripts (body : List Char) : Except Raised (List DiscoveredSourceJob) :=
  (jsonListings pf body).map deduplicate

/-! ## Identifiers -/

/-- `[0-9a-f]`. -/
def hexDigit : Regex :=
  .satisfy fun c => c.isDigit || (97 ≤ (ignoreCase c).toNat && (ignoreCase c).toNat ≤ 102)

/-- `_GUID_RE`. -/
def guidRe : Pattern Unit :=
  .seq (.plain (folded "/job-detail/"))
    (.group () (.sequence [.times hexDigit 8, .text "-", .times hexDigit 4, .text "-",
      .times hexDigit 4, .text "-", .times hexDigit 4, .text "-", .times hexDigit 12]))

/-- The listing of an identifier. -/
def guidListing (guid : List Char) : Option DiscoveredSourceJob :=
  let cleanGuid := String.ofList (strip isSpace guid)
  if cleanGuid = "" then none
  else
    some
      { source := "dice", externalJobId := cleanGuid, title := "Dice Tech Job"
        url := some (jobDetailUrl ++ "/" ++ cleanGuid) }

/-- The listings of the identifiers of a page. -/
def guidListings (body : List Char) : List DiscoveredSourceJob :=
  (guidRe.finditer body).filterMap fun found => (found.group ()).bind guidListing

/-- `_parse_guid_fallback`. -/
def parseGuidFallback (body : List Char) : List DiscoveredSourceJob :=
  deduplicate (guidListings body)

/-! ## Links -/

/-- `[^"']`. -/
def notQuote : Regex :=
  .satisfy fun c => c ≠ '"' && c ≠ '\''

/-- The pattern of the links to jobs, whose group is the URL. -/
def linkPattern : Enclosed Unit :=
  ⟨.sequence [.plain (folded "<a"), .plain (.plus notClosing), .plain (folded "href="),
      .plain quoteMark,
      .group () (.sequence [.star notQuote, folded "/job-detail/", .plus notQuote]),
      .plain quoteMark, .plain (.star notClosing), .plain (.satisfy (· = '>'))],
    folded "</a>"⟩

/-- `<[^>]+>`. -/
def tagPattern : Pattern Unit :=
  .plain (.sequence [.satisfy (· = '<'), .plus notClosing, .satisfy (· = '>')])

/-- The URL, the identifier and the title of a link to a job. -/
def linkParts (found : Enclosure Unit) : Option (String × String × String) :=
  (found.group ()).bind fun url =>
    (extractJobId (String.ofList url)).bind fun externalId =>
      let title := joinSplit (String.ofList (tagPattern.sub [' '] found.inner))
      if title = "" then none else some (String.ofList url, externalId, title)

/-- The links to jobs of a page. -/
def jobLinks (body : List Char) : List (String × String × String) :=
  (linkPattern.finditer body).filterMap linkParts

/-- The listing of a link. -/
def linkListing (link : String × String × String) : Except Raised DiscoveredSourceJob :=
  (absoluteUrl pf (some link.1)).map fun url => ⟨"dice", link.2.1, link.2.2, url⟩

/-- The listings of the links of a page. -/
def linkListings (body : List Char) : Except Raised (List DiscoveredSourceJob) :=
  (jobLinks body).mapM (linkListing pf)

/-- `_parse_job_links`. -/
def parseJobLinks (body : List Char) : Except Raised (List DiscoveredSourceJob) :=
  (linkListings pf body).map deduplicate

/-! ## Pages -/

/-- The jobs of a reading, or those of the next one if it finds none. -/
def orNext (reading next : Except Raised (List DiscoveredSourceJob)) :
    Except Raised (List DiscoveredSourceJob) := do
  let jobs ← reading
  if jobs = [] then next else return jobs

/-- `_parse_search_response`. -/
def parseSearchResponse (body : List Char) : Except Raised (List DiscoveredSourceJob) :=
  orNext (.ok (parseFlightChunks pf body)) (orNext (parseJsonScripts pf body)
    (orNext (.ok (parseGuidFallback body)) (parseJobLinks pf body)))

/-- The listings of a page as they are served, with their repetitions. -/
def served (body : List Char) : Except Raised (List DiscoveredSourceJob) :=
  orNext (.ok (flightListings pf body)) (orNext (jsonListings pf body)
    (orNext (.ok (guidListings body)) (linkListings pf body)))

/-! ## Pages that can be parsed -/

/-- The mappings of a script with a title and an identifier can be converted. -/
def SoundScript (rawJson : List Char) : Prop :=
  ∃ value, scriptValue pf rawJson = .ok value ∧
    ∀ payload ∈ value, ∀ fields ∈ walkJson payload, isJob fields = true → Convertible pf fields

/-- A script has a mapping with a title and an identifier. -/
def scriptStatesJob (rawJson : List Char) : Bool :=
  match scriptValue pf rawJson with
  | .ok (some payload) => (walkJson payload).any isJob
  | _ => false

/-- A page whose jobs are in its flight payload, or whose other readings do not raise up to the one
that is taken. -/
def SoundSearch (body : List Char) : Prop :=
  flightListings pf body = [] →
    (∀ rawJson ∈ scriptTexts jsonScript body, SoundScript pf rawJson) ∧
      ((∀ rawJson ∈ scriptTexts jsonScript body, scriptStatesJob pf rawJson = false) →
        guidListings body = [] →
          ∀ link ∈ jobLinks body, (urlsplit pf.unicode link.1.toList).isSome = true)

section

variable {pf} {body : List Char} {jobs : List DiscoveredSourceJob}
  {reading next : Except Raised (List DiscoveredSourceJob)}

theorem deduplicate_eq_nil_iff : deduplicate jobs = [] ↔ jobs = [] := by
  rw [deduplicate, Base.firstSeen_eq_nil_iff, List.eq_nil_iff_forall_not_mem]
  exact forall₂_congr fun _ _ => iff_of_false List.not_mem_nil id

theorem orNext_map_deduplicate :
    orNext (reading.map deduplicate) (next.map deduplicate) =
      (orNext reading next).map deduplicate := by
  cases reading with
  | error e => rfl
  | ok jobs =>
      simp only [orNext, Except.map, ok_bind, deduplicate_eq_nil_iff]
      split_ifs <;> rfl

/-- Of the served listings the repetitions are left out. -/
theorem parseSearchResponse_eq :
    parseSearchResponse pf body = (served pf body).map deduplicate := by
  rw [served, ← orNext_map_deduplicate, ← orNext_map_deduplicate, ← orNext_map_deduplicate]
  rfl

/-- The listings of a page whose jobs are in its flight payload. -/
theorem served_of_flight (h : flightListings pf body ≠ []) :
    served pf body = .ok (flightListings pf body) := by
  rw [served, orNext, ok_bind, if_neg h]
  rfl

theorem isOk_orNext_iff :
    (orNext reading next).isOk = true ↔
      ∃ jobs, reading = .ok jobs ∧ (jobs = [] → next.isOk = true) := by
  rw [orNext, isOk_bind_iff]
  apply exists_congr
  intro jobs
  apply and_congr_right
  intro _
  split_ifs with hjobs
  · simp [hjobs]
  · exact iff_of_true rfl fun hnil => absurd hnil hjobs

theorem isOk_jobFromMapping_iff_imp {fields : Fields} (h : ShortFields fields) :
    (jobFromMapping pf fields).isOk = true ↔ (isJob fields = true → Convertible pf fields) := by
  cases hjob : isJob fields with
  | true => simpa using isOk_jobFromMapping_iff h hjob
  | false => simp [jobFromMapping_of_not_isJob h hjob]

/-- A mapping that is converted gives a job when it has a title and an identifier. -/
theorem eq_none_iff_of_jobFromMapping {fields : Fields} {job : Option DetailedJob}
    (h : ShortFields fields) (hok : jobFromMapping pf fields = .ok job) :
    job = none ↔ isJob fields = false := by
  cases hjob : isJob fields with
  | true =>
      obtain ⟨found, rfl, _⟩ := converted_of_jobFromMapping h hjob hok
      simp
  | false =>
      rw [jobFromMapping_of_not_isJob h hjob] at hok
      cases hok
      simp

variable {rawJson : List Char}

theorem isOk_scriptListings_iff :
    (scriptListings pf rawJson).isOk = true ↔ SoundScript pf rawJson := by
  rw [scriptListings, isOk_bind_iff]
  apply exists_congr
  intro value
  apply and_congr_right
  intro hvalue
  cases value with
  | none => simp [pure, Except.pure]
  | some payload =>
      have hshort := short_of_mem_walkJson (short_of_scriptValue hvalue)
      have hjobs : ((walkJson payload).mapM (jobFromMapping pf)).isOk = true ↔
          ∀ fields ∈ walkJson payload, isJob fields = true → Convertible pf fields := by
        rw [isOk_iff, mapM_isOk_iff]
        exact forall₂_congr fun fields hfields =>
          isOk_iff.symm.trans (isOk_jobFromMapping_iff_imp (hshort fields hfields))
      simp only [Option.mem_some_iff, forall_eq', ← hjobs, isOk_bind_return]

/-- The listings of a script are none when no mapping has a title and an identifier. -/
theorem eq_nil_iff_of_scriptListings (h : scriptListings pf rawJson = .ok jobs) :
    jobs = [] ↔ scriptStatesJob pf rawJson = false := by
  obtain ⟨value, hvalue, hrest⟩ := bind_eq_ok_iff.mp h
  rw [scriptStatesJob, hvalue]
  cases value with
  | none =>
      cases hrest
      simp
  | some payload =>
      obtain ⟨found, hfound, hrest⟩ := bind_eq_ok_iff.mp hrest
      cases hrest
      have hshort := short_of_mem_walkJson (short_of_scriptValue hvalue)
      rw [List.map_eq_nil_iff, List.filterMap_eq_nil_iff, List.any_eq_false]
      apply forall_mem_iff_of_forall₂ (mapM_eq_ok_iff.mp hfound)
      intro fields hfields job hjob
      simpa using eq_none_iff_of_jobFromMapping (hshort fields hfields) hjob

theorem isOk_jsonListings_iff :
    (jsonListings pf body).isOk = true ↔
      ∀ rawJson ∈ scriptTexts jsonScript body, SoundScript pf rawJson := by
  rw [jsonListings, isOk_bind_return, isOk_iff, mapM_isOk_iff]
  exact forall₂_congr fun _ _ => isOk_iff.symm.trans isOk_scriptListings_iff

theorem eq_nil_iff_of_jsonListings (h : jsonListings pf body = .ok jobs) :
    jobs = [] ↔ ∀ rawJson ∈ scriptTexts jsonScript body, scriptStatesJob pf rawJson = false := by
  obtain ⟨found, hfound, hrest⟩ := bind_eq_ok_iff.mp h
  cases hrest
  rw [List.flatten_eq_nil_iff]
  exact forall_mem_iff_of_forall₂ (mapM_eq_ok_iff.mp hfound)
    fun _ _ _ hscript => eq_nil_iff_of_scriptListings hscript

theorem isOk_linkListings_iff :
    (linkListings pf body).isOk = true ↔
      ∀ link ∈ jobLinks body, (urlsplit pf.unicode link.1.toList).isSome = true := by
  rw [linkListings, isOk_iff, mapM_isOk_iff]
  apply forall₂_congr
  intro link _
  rw [← isOk_iff, linkListing, isOk_map, isOk_absoluteUrl_iff]
  simp

/-- Which pages can be parsed. -/
theorem isOk_served_iff : (served pf body).isOk = true ↔ SoundSearch pf body := by
  rw [served, isOk_orNext_iff, SoundSearch]
  simp only [Except.ok.injEq, exists_eq_left']
  apply imp_congr_right
  intro _
  rw [← isOk_jsonListings_iff, ← isOk_linkListings_iff]
  constructor
  · intro hok
    obtain ⟨jobs, hjobs, hnext⟩ := isOk_orNext_iff.mp hok
    refine ⟨isOk_iff.mpr ⟨jobs, hjobs⟩, fun hnone hguids => ?_⟩
    obtain ⟨guids, hread, hlinks⟩ :=
      isOk_orNext_iff.mp (hnext ((eq_nil_iff_of_jsonListings hjobs).mpr hnone))
    cases hread
    exact hlinks hguids
  · rintro ⟨hok, hnext⟩
    obtain ⟨jobs, hjobs⟩ := isOk_iff.mp hok
    apply isOk_orNext_iff.mpr
    refine ⟨jobs, hjobs, fun hnil => isOk_orNext_iff.mpr ⟨_, rfl, fun hguids => ?_⟩⟩
    exact hnext ((eq_nil_iff_of_jsonListings hjobs).mp hnil) hguids

end

end Dice
end Sources
end HireAndTech
