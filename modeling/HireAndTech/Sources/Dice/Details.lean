import HireAndTech.Sources.Dice.Conversions
import HireAndTech.Text.Enclosed

/-!
# Detail pages of Dice

{lit}`DiceCollector._parse_job_detail` looks for a posting in the scripts of a page, and
{lit}`fetch_details` collects the postings of a batch of pages.  A page whose posting cannot be
converted raises, and the batch is lost.

Main results:

- Definitions {lit}`parseJobDetail` and {lit}`fetchDetails`.
- Theorem {lit}`detail_total_iff`: which pages, and which batches of pages, do not raise.
-/

namespace HireAndTech
namespace Sources
namespace Dice

open Text Catalogue Salaries Runs

/-! ## Scripts -/

/-- `[^>]`. -/
def notClosing : Regex :=
  .satisfy (· ≠ '>')

/-- `["']`. -/
def quoteMark : Regex :=
  .satisfy fun c => c = '"' || c = '\''

/-- The pattern of scripts of a type. -/
def scriptPattern (type : Regex) : Enclosed Unit :=
  ⟨.plain (.sequence [folded "<script", .plus notClosing, folded "type=", quoteMark, type,
    quoteMark, .star notClosing, .satisfy (· = '>')]), folded "</script>"⟩

/-- The texts of the scripts of a type. -/
def scriptTexts (type : Regex) (body : List Char) : List (List Char) :=
  ((scriptPattern type).finditer body).map fun found => strip isSpace found.inner

/-- `application/ld\+json`. -/
def linkedData : Regex :=
  folded "application/ld+json"

variable (pf : Platform)

/-- The value of a script, if it has one. -/
def scriptValue (rawJson : List Char) : Except Raised (Option JsonValue) :=
  if rawJson = [] then .ok none
  else
    match loads pf.readFloat rawJson with
    | .ok payload => .ok (some payload)
    | .error .malformed => .ok none
    | .error .digits => .error .digits

/-! ## Pages -/

/-- `_is_job_posting_type`. -/
def isJobPostingType : Option JsonValue → Bool
  | some (.str s) => s = "JobPosting"
  | some (.arr items) =>
      items.any fun
        | .str s => s = "JobPosting"
        | _ => false
  | _ => false

/-- A job under the identifier of its page. -/
def alignJob (expected : String) (job : DetailedJob) : DetailedJob :=
  if job.raw.externalJobId = expected then job
  else
    { job with raw := { job.raw with
        externalJobId := expected
        url := some ((job.raw.url.filter (· ≠ "")).getD
          ("https://www.dice.com/job-detail/" ++ expected)) } }

/-- A mapping of a script. -/
def parsePosting (expected : String) (fields : Fields) : Except Raised (Option DetailedJob) :=
  if isJobPostingType (fields.lookup "@type") then
    (jobFromMapping pf fields).map fun job => job.map (alignJob expected)
  else .ok none

/-- A script of a page. -/
def parseScript (expected : String) (rawJson : List Char) :
    Except Raised (Option DetailedJob) := do
  match ← scriptValue pf rawJson with
  | some payload => firstResult (parsePosting pf expected) (walkJson payload)
  | none => return none

/-- `_parse_job_detail`. -/
def parseJobDetail (body : List Char) (expected : String) : Except Raised (Option DetailedJob) :=
  firstResult (parseScript pf expected) (scriptTexts linkedData body)

/-! ## Batches -/

/-- The response to the request of a detail page that is not an error of its own. -/
inductive DetailResponse
  | page (body : List Char)
  | unavailable
deriving DecidableEq, Repr

/-- A candidate of a batch, and the response to its request. -/
structure FetchedDetail where
  externalJobId : String
  response : DetailResponse
deriving DecidableEq, Repr

/-- The job of a response. -/
def FetchedDetail.job (fetched : FetchedDetail) : Except Raised (Option DetailedJob) :=
  match fetched.response with
  | .page body => parseJobDetail pf body fetched.externalJobId
  | .unavailable => .ok none

/-- `fetch_details`. -/
def fetchDetails (batch : List FetchedDetail) : Except Raised (List DetailedJob) :=
  (batch.mapM (FetchedDetail.job pf)).map fun jobs => jobs.filterMap id

/-! ## Pages that do not raise -/

/-- The mapping is a posting with a title and an identifier. -/
def isPosting (fields : Fields) : Bool :=
  isJobPostingType (fields.lookup "@type") && isJob fields

/-- The first posting of a script. -/
def firstPosting (payload : JsonValue) : Option Fields :=
  (walkJson payload).find? isPosting

/-- A script that has a posting, or an integer with too many digits. -/
def isDecisive (rawJson : List Char) : Bool :=
  match scriptValue pf rawJson with
  | .ok (some payload) => (firstPosting payload).isSome
  | .ok none => false
  | .error _ => true

/-- The first decisive script of a page has a posting, which can be converted. -/
def SoundPage (body : List Char) : Prop :=
  ∀ rawJson ∈ (scriptTexts linkedData body).find? (isDecisive pf),
    ∃ payload, scriptValue pf rawJson = .ok (some payload) ∧
      ∀ fields ∈ firstPosting payload, Convertible pf fields

/-- The pages of a batch are sound. -/
def SoundBatch (batch : List FetchedDetail) : Prop :=
  ∀ fetched ∈ batch, ∀ body, fetched.response = .page body → SoundPage pf body

section

variable {pf} {expected : String} {fields : Fields} {rawJson body : List Char}

mutual

/-- The mappings of a decoded value are decoded. -/
theorem short_of_mem_walkJson : ∀ {value : JsonValue}, value.Short →
    ∀ fields ∈ walkJson value, ShortFields fields
  | .obj members, h, fields, hfields => by
      cases h with
      | obj _ hmembers =>
          rw [walkJson, List.mem_cons] at hfields
          rcases hfields with rfl | hfields
          · exact hmembers
          · exact short_of_mem_walkFields hmembers fields hfields
  | .arr items, h, fields, hfields => by
      cases h with
      | arr _ hitems => exact short_of_mem_walkItems hitems fields hfields
  | .null, _, _, hfields => absurd hfields List.not_mem_nil
  | .bool _, _, _, hfields => absurd hfields List.not_mem_nil
  | .int _, _, _, hfields => absurd hfields List.not_mem_nil
  | .float _, _, _, hfields => absurd hfields List.not_mem_nil
  | .str _, _, _, hfields => absurd hfields List.not_mem_nil

theorem short_of_mem_walkItems : ∀ {items : List JsonValue}, (∀ item ∈ items, item.Short) →
    ∀ fields ∈ walkItems items, ShortFields fields
  | [], _, _, hfields => absurd hfields List.not_mem_nil
  | item :: items, h, fields, hfields => by
      rw [walkItems, List.mem_append] at hfields
      rcases hfields with hfields | hfields
      · exact short_of_mem_walkJson (h item List.mem_cons_self) fields hfields
      · exact short_of_mem_walkItems
          (fun item' hitem' => h item' (List.mem_cons_of_mem item hitem')) fields hfields

theorem short_of_mem_walkFields : ∀ {members : Fields}, ShortFields members →
    ∀ fields ∈ walkFields members, ShortFields fields
  | [], _, _, hfields => absurd hfields List.not_mem_nil
  | (key, value) :: members, h, fields, hfields => by
      rw [walkFields, List.mem_append] at hfields
      rcases hfields with hfields | hfields
      · exact short_of_mem_walkJson (h (key, value) List.mem_cons_self) fields hfields
      · exact short_of_mem_walkFields
          (fun member hmember => h member (List.mem_cons_of_mem _ hmember)) fields hfields

end

theorem short_of_scriptValue {payload : JsonValue}
    (h : scriptValue pf rawJson = .ok (some payload)) : payload.Short := by
  unfold scriptValue at h
  split_ifs at h
  · simp at h
  · split at h
    · rename_i hloads
      cases h
      exact loads_short hloads
    · simp at h
    · simp at h

theorem parsePosting_of_not_isPosting (h : ShortFields fields)
    (hposting : isPosting fields = false) :
    parsePosting pf expected fields = .ok none := by
  unfold parsePosting
  split_ifs with htype
  · rw [isPosting, htype, Bool.true_and] at hposting
    rw [jobFromMapping_of_not_isJob h hposting]
    rfl
  · rfl

theorem parsePosting_ne_none (h : ShortFields fields) (hposting : isPosting fields = true) :
    parsePosting pf expected fields ≠ .ok none := by
  obtain ⟨htype, hjob⟩ := Bool.and_eq_true_iff.mp hposting
  intro hnone
  rw [parsePosting, if_pos htype] at hnone
  cases hresult : jobFromMapping pf fields with
  | error e => simp [hresult, Except.map] at hnone
  | ok result =>
      obtain ⟨job, rfl, _⟩ := converted_of_jobFromMapping h hjob hresult
      simp [hresult, Except.map] at hnone

theorem isOk_parsePosting_iff (h : ShortFields fields) (hposting : isPosting fields = true) :
    (parsePosting pf expected fields).isOk = true ↔ Convertible pf fields := by
  obtain ⟨htype, hjob⟩ := Bool.and_eq_true_iff.mp hposting
  rw [parsePosting, if_pos htype, isOk_map, isOk_jobFromMapping_iff h hjob]

/-- The postings of a script are decided by the first one. -/
theorem firstResult_walkJson {payload : JsonValue} (h : payload.Short) :
    firstResult (parsePosting pf expected) (walkJson payload) =
      ((firstPosting payload).map (parsePosting pf expected)).getD (.ok none) :=
  firstResult_eq
    (fun fields hfields => parsePosting_of_not_isPosting (short_of_mem_walkJson h fields hfields))
    fun fields hfields => parsePosting_ne_none (short_of_mem_walkJson h fields hfields)

theorem parseScript_of_not_isDecisive (h : isDecisive pf rawJson = false) :
    parseScript pf expected rawJson = .ok none := by
  unfold isDecisive at h
  unfold parseScript
  cases hvalue : scriptValue pf rawJson with
  | error e =>
      rw [hvalue] at h
      contradiction
  | ok value =>
      rw [hvalue] at h
      cases value with
      | none => rfl
      | some payload =>
          rw [Option.isSome_eq_false_iff, Option.isNone_iff_eq_none] at h
          simp only [ok_bind]
          rw [firstResult_walkJson (short_of_scriptValue hvalue), h]
          rfl

theorem parseScript_ne_none (h : isDecisive pf rawJson = true) :
    parseScript pf expected rawJson ≠ .ok none := by
  unfold isDecisive at h
  unfold parseScript
  cases hvalue : scriptValue pf rawJson with
  | error e => simp
  | ok value =>
      rw [hvalue] at h
      cases value with
      | none => contradiction
      | some payload =>
          obtain ⟨fields, hfields⟩ := Option.isSome_iff_exists.mp h
          have hshort := short_of_scriptValue hvalue
          simp only [ok_bind]
          rw [firstResult_walkJson hshort, hfields]
          exact parsePosting_ne_none
            (short_of_mem_walkJson hshort fields (List.mem_of_find?_eq_some hfields))
            (List.find?_some hfields)

theorem isOk_parseScript_iff (h : isDecisive pf rawJson = true) :
    (parseScript pf expected rawJson).isOk = true ↔
      ∃ payload, scriptValue pf rawJson = .ok (some payload) ∧
        ∀ fields ∈ firstPosting payload, Convertible pf fields := by
  unfold isDecisive at h
  unfold parseScript
  cases hvalue : scriptValue pf rawJson with
  | error e => simp
  | ok value =>
      rw [hvalue] at h
      cases value with
      | none => contradiction
      | some payload =>
          obtain ⟨fields, hfields⟩ := Option.isSome_iff_exists.mp h
          have hshort := short_of_scriptValue hvalue
          have hposting : (parsePosting pf expected fields).isOk = true ↔ Convertible pf fields :=
            isOk_parsePosting_iff
              (short_of_mem_walkJson hshort fields (List.mem_of_find?_eq_some hfields))
              (List.find?_some hfields)
          simp only [ok_bind]
          rw [firstResult_walkJson hshort, hfields]
          simpa [hfields] using hposting

theorem isOk_parseJobDetail_iff :
    (parseJobDetail pf body expected).isOk = true ↔ SoundPage pf body := by
  have hfirst : (parseJobDetail pf body expected).isOk = true ↔
      ∀ rawJson ∈ (scriptTexts linkedData body).find? (isDecisive pf),
        (parseScript pf expected rawJson).isOk = true :=
    isOk_firstResult_iff (fun rawJson _ => parseScript_of_not_isDecisive)
      fun rawJson _ => parseScript_ne_none
  rw [hfirst]
  constructor
  · intro h rawJson hrawJson
    exact (isOk_parseScript_iff (List.find?_some hrawJson)).mp (h rawJson hrawJson)
  · intro h rawJson hrawJson
    exact (isOk_parseScript_iff (List.find?_some hrawJson)).mpr (h rawJson hrawJson)

theorem isOk_job_iff {fetched : FetchedDetail} :
    (fetched.job pf).isOk = true ↔
      ∀ body, fetched.response = .page body → SoundPage pf body := by
  unfold FetchedDetail.job
  cases fetched.response with
  | page body => simpa using isOk_parseJobDetail_iff
  | unavailable => simp

theorem isOk_fetchDetails_iff {batch : List FetchedDetail} :
    (fetchDetails pf batch).isOk = true ↔ SoundBatch pf batch := by
  rw [fetchDetails, isOk_map, isOk_iff, mapM_isOk_iff]
  constructor
  · intro h fetched hfetched
    exact isOk_job_iff.mp (isOk_iff.mpr (h fetched hfetched))
  · intro h fetched hfetched
    exact isOk_iff.mp (isOk_job_iff.mpr (h fetched hfetched))

end

/-- The parser of a detail page returns exactly on the sound pages, and a batch gives its jobs
exactly when every page of it is sound. -/
theorem detail_total_iff (pf : Platform) :
    (∀ body expected, (parseJobDetail pf body expected).isOk = true ↔ SoundPage pf body) ∧
      ∀ batch, (fetchDetails pf batch).isOk = true ↔ SoundBatch pf batch :=
  ⟨fun _ _ => isOk_parseJobDetail_iff, fun _ => isOk_fetchDetails_iff⟩

/-! ## A boolean amount -/

/-- The functions of the runtime on ASCII. -/
def Platform.ascii : Platform where
  unicode := .ascii
  lower := List.map Char.toLower
  upper := List.map Char.toUpper
  title := id
  readFloat := literalDouble

/-- A page with one posting. -/
def postingPage (posting : String) : List Char :=
  ("<script type=\"application/ld+json\">" ++ posting ++ "</script>").toList

/-- A page that is parsed. -/
def plainPage : List Char :=
  postingPage "\x7b\"@type\":\"JobPosting\",\"id\":\"a\",\"title\":\"Nurse\"\x7d"

/-- A page whose smallest salary is a boolean. -/
def booleanPage : List Char :=
  postingPage ("\x7b\"@type\":\"JobPosting\",\"id\":\"b\",\"title\":\"Nurse\"," ++
    "\"baseSalary\":\x7b\"minValue\":true\x7d\x7d")

/-- The boolean raises, and the page before it is lost with it. -/
theorem boolean_amount_raises :
    (parseJobDetail .ascii plainPage "a").map (·.map (·.raw.title)) = .ok (some "Nurse") ∧
      (parseJobDetail .ascii booleanPage "b").isOk = false ∧
      (fetchDetails .ascii [⟨"a", .page plainPage⟩, ⟨"b", .page booleanPage⟩]).isOk = false := by
  decide +kernel

end Dice
end Sources
end HireAndTech
