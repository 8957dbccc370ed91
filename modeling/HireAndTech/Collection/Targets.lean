import HireAndTech.Catalogue.Freshness
import HireAndTech.Catalogue.Normalization

/-!
# Collection targets

A target is one search of one source.  Its validation measures the texts before it joins
their words, and rejects a text without words.

Main results:

- Definition {lit}`CollectionTarget.validate`: the validation, with its errors.
- Theorem {lit}`validate_isOk_iff`: which texts it accepts.
-/

namespace HireAndTech
namespace Collection

open Catalogue Text

/-- The errors of a validation: the field and the message of each. -/
abbrev ValidationError := List (String × String)

/-- One source query scheduled for the shared global job pool. -/
structure CollectionTarget where
  source : JobSource
  query : String
  location : Option String
  enabled : Bool
  maxJobs : Nat
  queryNonblank : query ≠ ""
  locationNonblank : location ≠ some ""
  maxJobsBounds : 1 ≤ maxJobs ∧ maxJobs ≤ 1000
deriving DecidableEq, Repr

/-- A target may leave out its location. -/
theorem no_location_nonblank : (none : Option String) ≠ some "" := by
  decide

/-- A target asks for a hundred jobs unless it says otherwise. -/
theorem default_maxJobs_bounds : 1 ≤ 100 ∧ 100 ≤ 1000 := by
  decide

/-- The errors of a text field with a bound on its length. -/
def textErrors (field : String) (minLength : Nat) (value : String) : ValidationError :=
  if value.length < minLength then [(field, "String should have at least 1 character")]
  else if 200 < value.length then [(field, "String should have at most 200 characters")]
  else if joinSplit value = "" then
    [(field, "Value error, collection target text must not be blank")]
  else []

/-- The errors of {lit}`query`. -/
def queryErrors (query : String) : ValidationError :=
  textErrors "query" 1 query

/-- The errors of {lit}`location`. -/
def locationErrors (location : Option String) : ValidationError :=
  (location.map (textErrors "location" 0)).getD []

/-- The errors of {lit}`max_jobs`. -/
def maxJobsErrors (maxJobs : Int) : ValidationError :=
  if maxJobs < 1 then [("max_jobs", "Input should be greater than or equal to 1")]
  else if 1000 < maxJobs then [("max_jobs", "Input should be less than or equal to 1000")]
  else []

section

variable {query : String} {location : Option String} {maxJobs : Int}

theorem joinSplit_eq_iff (value : String) :
    joinSplit value = "" ↔ hasText (some value) = false := by
  have hempty : ("" : String) = String.ofList [] := rfl
  rw [joinSplit, hempty, String.ofList_inj, joinWords_eq_nil_iff, hasText, Option.any_some,
    List.any_eq_false]
  simp

/-- A text field without errors. -/
theorem textErrors_eq_nil_iff {field : String} {minLength : Nat} {value : String} :
    textErrors field minLength value = [] ↔
      minLength ≤ value.length ∧ value.length ≤ 200 ∧ joinSplit value ≠ "" := by
  unfold textErrors
  split
  · simp; omega
  · split
    · simp; omega
    · split
      · simp [*]
      · simp [*]; omega

theorem queryErrors_eq_nil (h : queryErrors query = []) : joinSplit query ≠ "" :=
  (textErrors_eq_nil_iff.mp h).2.2

theorem locationErrors_eq_nil (h : locationErrors location = []) :
    location.map joinSplit ≠ some "" := by
  cases location with
  | none => simp
  | some value =>
      have hnil : textErrors "location" 0 value = [] := h
      have hvalue : joinSplit value ≠ "" := (textErrors_eq_nil_iff.mp hnil).2.2
      simpa using hvalue

theorem maxJobsErrors_eq_nil (h : maxJobsErrors maxJobs = []) :
    1 ≤ maxJobs.toNat ∧ maxJobs.toNat ≤ 1000 := by
  unfold maxJobsErrors at h
  split at h
  · contradiction
  · split at h
    · contradiction
    · omega

end

namespace CollectionTarget

/-- `CollectionTarget(…)`. -/
def validate (source : JobSource) (query : String) (location : Option String) (enabled : Bool)
    (maxJobs : Int) : Except ValidationError CollectionTarget :=
  if hquery : queryErrors query = [] then
    if hlocation : locationErrors location = [] then
      if hmaxJobs : maxJobsErrors maxJobs = [] then
        .ok
          { source, enabled
            query := joinSplit query
            location := location.map joinSplit
            maxJobs := maxJobs.toNat
            queryNonblank := queryErrors_eq_nil hquery
            locationNonblank := locationErrors_eq_nil hlocation
            maxJobsBounds := maxJobsErrors_eq_nil hmaxJobs }
      else .error (maxJobsErrors maxJobs)
    else .error (locationErrors location ++ maxJobsErrors maxJobs)
  else .error (queryErrors query ++ locationErrors location ++ maxJobsErrors maxJobs)

/-- `identity`. -/
def identity (rt : Runtime) (target : CollectionTarget) : String :=
  let value := target.source.value ++ "\x00" ++ rt.casefold target.query ++ "\x00" ++
    rt.casefold (target.location.getD "")
  String.ofList ((rt.sha256 value).toList.take 24)

/-- A text that a target accepts. -/
def Accepts (text : String) : Prop :=
  text.length ≤ 200 ∧ hasText (some text) = true

variable {source : JobSource} {query : String} {location : Option String} {enabled : Bool}

theorem textErrors_iff_accepts {field : String} {minLength : Nat} (hmin : minLength ≤ 1) :
    textErrors field minLength query = [] ↔ Accepts query := by
  rw [textErrors_eq_nil_iff, Accepts, Ne, joinSplit_eq_iff, Bool.not_eq_false]
  constructor
  · rintro ⟨_, hlength, htext⟩
    exact ⟨hlength, htext⟩
  · rintro ⟨hlength, htext⟩
    refine ⟨?_, hlength, htext⟩
    have hnonempty : query.length ≠ 0 := by
      intro hzero
      rw [String.length_eq_zero_iff.mp hzero] at htext
      contradiction
    omega

/-- The validation of a search with the default limit accepts it exactly when it accepts its
texts. -/
theorem validate_isOk_iff :
    (∃ target, validate source query location enabled 100 = .ok target) ↔
      Accepts query ∧ ∀ text, location = some text → Accepts text := by
  have hmaxJobs : maxJobsErrors 100 = [] := rfl
  have hlocation : locationErrors location = [] ↔ ∀ text, location = some text → Accepts text := by
    cases location with
    | none => simp [locationErrors]
    | some text =>
        rw [locationErrors, Option.map_some, Option.getD_some,
          textErrors_iff_accepts (Nat.zero_le 1)]
        simp
  rw [← hlocation, ← textErrors_iff_accepts (le_refl 1), ← queryErrors]
  by_cases hquery : queryErrors query = []
  · by_cases hlocation : locationErrors location = []
    · simp [validate, hquery, hlocation, hmaxJobs]
    · simp [validate, hquery, hlocation]
  · simp [validate, hquery]

end CollectionTarget

/-! ## Settings -/

/-- The settings of collection, within the bounds that the validators accept. -/
structure CollectionSettings where
  jobCollectionEnabled : Bool := false
  diceCollectionIntervalMinutes : Nat := 30
  linkedinCollectionIntervalMinutes : Nat := 60
  glassdoorCollectionIntervalMinutes : Nat := 120
  hiringcafeCollectionIntervalMinutes : Nat := 30
  glassdoorCollectionBatchSize : Nat := 6
  jobCollectionMaxJobsPerTarget : Nat := 100
  jobCollectionLockTtlSeconds : Nat := 900
  jobCollectionTaskTimeoutSeconds : Nat := 600
  jobCollectionQueueName : String := "hireandtech:jobs"
  jobCollectionRedisNamespace : String := "hireandtech"
  jobCollectionTargets : List CollectionTarget
  intervalBounds : ∀ n ∈ [diceCollectionIntervalMinutes, linkedinCollectionIntervalMinutes,
    glassdoorCollectionIntervalMinutes, hiringcafeCollectionIntervalMinutes],
      1 ≤ n ∧ n ≤ 1440 := by decide
  batchSizeBounds : 1 ≤ glassdoorCollectionBatchSize ∧ glassdoorCollectionBatchSize ≤ 50 := by
    decide
  maxJobsBounds : 1 ≤ jobCollectionMaxJobsPerTarget ∧ jobCollectionMaxJobsPerTarget ≤ 1000 := by
    decide
  lockTtlBounds : 60 ≤ jobCollectionLockTtlSeconds ∧ jobCollectionLockTtlSeconds ≤ 7200 := by
    decide
  taskTimeoutBounds :
    30 ≤ jobCollectionTaskTimeoutSeconds ∧ jobCollectionTaskTimeoutSeconds ≤ 3600 := by decide
  lockExceedsTask : jobCollectionTaskTimeoutSeconds < jobCollectionLockTtlSeconds := by decide

/-- Collection is enabled, without configured targets. -/
def enabledSettings : CollectionSettings where
  jobCollectionEnabled := true
  jobCollectionTargets := []

end Collection
end HireAndTech
