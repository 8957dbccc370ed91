import HireAndTech.Collection.Targets
import HireAndTech.Sources.Dice.Listings

/-!
# Discovery on Dice

{lit}`DiceCollector.discover` requests at most five search pages.  It stops when enough jobs have
been collected, and after a page without jobs, without new jobs, or with fewer than twenty jobs,
counted when repetitions have been left out.

Main results:

- Definition {lit}`discover`.
- Theorem {lit}`discoverPages_of_isOk`: what is collected, and why the loop has stopped.
- Theorem {lit}`discovery_stops_iff`: when the loop stops for a good reason only.
-/

namespace HireAndTech
namespace Sources
namespace Dice

open Text Catalogue Collection Runs

/-! ## The loop -/

/-- `_DEFAULT_PAGE_SIZE`. -/
def defaultPageSize : ℕ :=
  20

/-- `_MAX_PAGES`. -/
def maxPages : ℕ :=
  5

/-- The jobs that have been collected, and the number of page requests. -/
structure Search where
  collected : List DiscoveredSourceJob
  requests : ℕ
deriving DecidableEq, Repr

/-- The exceptions of a discovery. -/
inductive DiscoveryError
  | foreignSource (source : JobSource)
  | raised (e : Raised)
deriving DecidableEq, Repr

/-- The loop over the jobs of a page; the identifiers that have been seen are those of the
collected jobs. -/
def collectPage (maxJobs : ℕ) (collected : List DiscoveredSourceJob) :
    List DiscoveredSourceJob → List DiscoveredSourceJob
  | [] => collected
  | job :: jobs =>
      if job.externalJobId ∈ collected.map (·.externalJobId) then collectPage maxJobs collected jobs
      else if maxJobs ≤ (collected ++ [job]).length then collected ++ [job]
      else collectPage maxJobs (collected ++ [job]) jobs

variable (pf : Platform) (maxJobs : ℕ)

/-- The loop over the pages. -/
def discoverPages (collected : List DiscoveredSourceJob) :
    List (List Char) → Except Raised Search
  | [] => .ok ⟨collected, 0⟩
  | body :: bodies =>
      if maxJobs ≤ collected.length then .ok ⟨collected, 0⟩
      else do
        let pageJobs ← parseSearchResponse pf body
        let after := collectPage maxJobs collected pageJobs
        if pageJobs = [] then return ⟨collected, 1⟩
        else if after.length - collected.length = 0 then return ⟨after, 1⟩
        else if pageJobs.length < defaultPageSize then return ⟨after, 1⟩
        else
          let search ← discoverPages after bodies
          return { search with requests := search.requests + 1 }

/-- `discover`, where the source serves the given pages. -/
def discover (target : CollectionTarget) (pages : ℕ → List Char) :
    Except DiscoveryError Search :=
  if target.source ≠ .dice then .error (.foreignSource target.source)
  else
    (discoverPages pf target.maxJobs [] ((List.range maxPages).map pages)).mapError .raised

/-! ## Served pages -/

section

variable (pages : ℕ → List Char)

/-- The listings of a page as they are served. -/
def listings (n : ℕ) : List DiscoveredSourceJob :=
  (served pf (pages n)).toOption.getD []

/-- The listings of the pages up to a number. -/
def listed (n : ℕ) : List DiscoveredSourceJob :=
  (List.range n).flatMap (listings pf pages)

/-- A listing of the page has an identifier that no earlier page has. -/
def HasNew (n : ℕ) : Prop :=
  ∃ job ∈ listings pf pages n, job.externalJobId ∉ (listed pf pages n).map (·.externalJobId)

/-- The page carries twenty listings, one of them new. -/
def Full (n : ℕ) : Prop :=
  (listings pf pages n).length = defaultPageSize ∧ HasNew pf pages n

/-- The page has at least twenty identifiers, one of them new. -/
def Renews (n : ℕ) : Prop :=
  defaultPageSize ≤ (deduplicate (listings pf pages n)).length ∧ HasNew pf pages n

/-- The number of identifiers on the pages up to a number. -/
def distinctCount (n : ℕ) : ℕ :=
  (deduplicate (listed pf pages n)).length

/-- The loop goes on after the page: it has at least twenty identifiers, one of them new, and not
enough jobs have been served. -/
def Continues (n : ℕ) : Prop :=
  Renews pf pages n ∧ distinctCount pf pages (n + 1) < maxJobs

/-- Every page that is requested can be parsed. -/
def PagesParsed : Prop :=
  ∀ n < maxPages, (∀ k < n, Continues pf maxJobs pages k) → SoundSearch pf (pages n)

/-- No page before the last one has an identifier twice, if it and the pages before it carry twenty
listings, one of them new, and not enough jobs have been served. -/
def NoRepetition : Prop :=
  ∀ n, n + 1 < maxPages → (∀ k ≤ n, Full pf pages k) → distinctCount pf pages (n + 1) < maxJobs →
    ((listings pf pages n).map (·.externalJobId)).Nodup

/-- The jobs are distinct, as many as wanted at most, and in the order of their first listing, and
the requests have ended for a good reason. -/
structure Discovered (search : Search) : Prop where
  distinct : (search.collected.map (·.externalJobId)).Nodup
  bounded : search.collected.length ≤ maxJobs
  firstSeen : search.collected = (deduplicate (listed pf pages search.requests)).take maxJobs
  requests : search.requests ≤ maxPages
  goodReason : (∀ n < search.requests, Full pf pages n) →
    search.collected.length = maxJobs ∨ search.requests = maxPages

end

/-! ## One page -/

section

variable {pf maxJobs} {pages : ℕ → List Char} {n : ℕ} {collected jobs : List DiscoveredSourceJob}

/-- The jobs of a page that have not been collected are appended, up to the number of jobs that is
wanted. -/
theorem collectPage_eq (h : collected.length < maxJobs) :
    collectPage maxJobs collected jobs =
      (collected ++ Base.firstSeen (·.externalJobId) (collected.map (·.externalJobId)) jobs).take
        maxJobs := by
  induction jobs generalizing collected with
  | nil => simp [collectPage, Base.firstSeen, List.take_of_length_le h.le]
  | cons job jobs ih =>
      rw [collectPage]
      split_ifs with hseen hfull
      · rw [ih h, Base.firstSeen_of_mem hseen]
      · have hlength : (collected ++ [job]).length = maxJobs := by
          rw [List.length_append, List.length_singleton] at hfull ⊢
          omega
        rw [Base.firstSeen_of_not_mem hseen,
          List.append_cons collected job (Base.firstSeen _ _ _), List.take_left' hlength]
      · rw [ih (not_le.mp hfull), Base.firstSeen_of_not_mem hseen,
          List.append_cons collected job (Base.firstSeen _ _ _)]
        congr 2
        apply Base.firstSeen_congr
        intro id
        simp [or_comm]

theorem listed_succ : listed pf pages (n + 1) = listed pf pages n ++ listings pf pages n := by
  rw [listed, List.range_succ, List.flatMap_append, List.flatMap_singleton]
  rfl

/-- The jobs of a page that no earlier page has. -/
theorem deduplicate_listed_succ :
    deduplicate (listed pf pages (n + 1)) =
      deduplicate (listed pf pages n) ++
        Base.firstSeen (·.externalJobId) ((listed pf pages n).map (·.externalJobId))
          (listings pf pages n) := by
  rw [deduplicate, listed_succ, Base.firstSeen_append, List.append_nil]
  rfl

theorem distinctCount_mono : Monotone (distinctCount pf pages) := by
  apply monotone_nat_of_le_succ
  intro n
  rw [distinctCount, distinctCount, deduplicate_listed_succ, List.length_append]
  exact Nat.le_add_right _ _

/-- A page has a new identifier when there are more identifiers after it. -/
theorem hasNew_iff :
    HasNew pf pages n ↔ distinctCount pf pages n < distinctCount pf pages (n + 1) := by
  have hnil : Base.firstSeen (·.externalJobId) ((listed pf pages n).map (·.externalJobId))
      (listings pf pages n) = [] ↔ ¬HasNew pf pages n := by
    rw [Base.firstSeen_eq_nil_iff, HasNew]
    push Not
    rfl
  rw [distinctCount, distinctCount, deduplicate_listed_succ, List.length_append,
    Nat.lt_add_right_iff_pos, List.length_pos_iff, ne_eq, hnil, not_not]

/-- The loop over the jobs of a page collects the first jobs of the pages up to it. -/
theorem collectPage_deduplicate (h : distinctCount pf pages n < maxJobs) :
    collectPage maxJobs (deduplicate (listed pf pages n)) (deduplicate (listings pf pages n)) =
      (deduplicate (listed pf pages (n + 1))).take maxJobs := by
  rw [collectPage_eq h, deduplicate_listed_succ]
  congr 2
  rw [deduplicate, deduplicate, Base.firstSeen_absorb fun _ hid => absurd hid List.not_mem_nil]
  apply Base.firstSeen_congr
  intro id
  rw [Base.mem_map_firstSeen_iff]
  exact and_iff_left List.not_mem_nil

theorem listings_of_flight (h : flightListings pf (pages n) ≠ []) :
    listings pf pages n = flightListings pf (pages n) := by
  rw [listings, served_of_flight h]
  rfl

theorem parseSearchResponse_of_served (h : served pf (pages n) = .ok jobs) :
    parseSearchResponse pf (pages n) = .ok (deduplicate (listings pf pages n)) := by
  rw [parseSearchResponse_eq, listings, h]
  rfl

variable {bodies : List (List Char)}

/-- The loop stops when enough jobs have been collected. -/
theorem discoverPages_of_le (h : maxJobs ≤ distinctCount pf pages n) :
    discoverPages pf maxJobs ((deduplicate (listed pf pages n)).take maxJobs) bodies =
      .ok ⟨(deduplicate (listed pf pages n)).take maxJobs, 0⟩ := by
  cases bodies with
  | nil => rfl
  | cons body bodies =>
      have hlength : maxJobs ≤ ((deduplicate (listed pf pages n)).take maxJobs).length := by
        rw [List.length_take]
        exact le_min le_rfl h
      rw [discoverPages, if_pos hlength]

/-- A page without new identifiers adds no job. -/
theorem newOnPage_eq_zero_iff (h : distinctCount pf pages n < maxJobs) :
    ((deduplicate (listed pf pages (n + 1))).take maxJobs).length -
        (deduplicate (listed pf pages n)).length = 0 ↔ ¬HasNew pf pages n := by
  rw [hasNew_iff, List.length_take]
  unfold distinctCount at *
  omega

/-- What the loop does with a page. -/
theorem discoverPages_cons (h : distinctCount pf pages n < maxJobs)
    (hserved : served pf (pages n) = .ok jobs) :
    discoverPages pf maxJobs ((deduplicate (listed pf pages n)).take maxJobs)
        (pages n :: bodies) =
      let after := (deduplicate (listed pf pages (n + 1))).take maxJobs
      let pageJobs := deduplicate (listings pf pages n)
      if pageJobs = [] then .ok ⟨deduplicate (listed pf pages n), 1⟩
      else if after.length - (deduplicate (listed pf pages n)).length = 0 then .ok ⟨after, 1⟩
      else if pageJobs.length < defaultPageSize then .ok ⟨after, 1⟩
      else (discoverPages pf maxJobs after bodies).map fun search =>
        { search with requests := search.requests + 1 } := by
  have htake : (deduplicate (listed pf pages n)).take maxJobs = deduplicate (listed pf pages n) :=
    List.take_of_length_le h.le
  have hlength : ¬maxJobs ≤ (deduplicate (listed pf pages n)).length := not_le.mpr h
  rw [htake, discoverPages, if_neg hlength, parseSearchResponse_of_served hserved, ok_bind,
    collectPage_deduplicate h]
  rfl

/-- A page that cannot be parsed ends the discovery. -/
theorem discoverPages_of_raised {e : Raised} (h : distinctCount pf pages n < maxJobs)
    (hserved : served pf (pages n) = .error e) :
    discoverPages pf maxJobs ((deduplicate (listed pf pages n)).take maxJobs)
        (pages n :: bodies) = .error e := by
  have hlength : ¬maxJobs ≤ ((deduplicate (listed pf pages n)).take maxJobs).length := by
    rw [List.take_of_length_le h.le]
    exact not_le.mpr h
  rw [discoverPages, if_neg hlength, parseSearchResponse_eq, hserved]
  rfl

/-- The loop goes on after a page that renews the jobs. -/
theorem discoverPages_of_renews (h : distinctCount pf pages n < maxJobs)
    (hserved : served pf (pages n) = .ok jobs) (hrenews : Renews pf pages n) :
    discoverPages pf maxJobs ((deduplicate (listed pf pages n)).take maxJobs)
        (pages n :: bodies) =
      (discoverPages pf maxJobs ((deduplicate (listed pf pages (n + 1))).take maxJobs) bodies).map
        fun search => { search with requests := search.requests + 1 } := by
  obtain ⟨hsize, hnew⟩ := hrenews
  have hjobs : deduplicate (listings pf pages n) ≠ [] := by
    rw [← List.length_pos_iff]
    exact lt_of_lt_of_le (by decide) hsize
  rw [discoverPages_cons h hserved]
  dsimp only
  rw [if_neg hjobs, if_neg (mt (newOnPage_eq_zero_iff h).mp (not_not.mpr hnew)),
    if_neg (not_lt.mpr hsize)]

/-- The loop stops after any other page. -/
theorem discoverPages_of_not_renews (h : distinctCount pf pages n < maxJobs)
    (hserved : served pf (pages n) = .ok jobs) (hrenews : ¬Renews pf pages n) :
    discoverPages pf maxJobs ((deduplicate (listed pf pages n)).take maxJobs)
        (pages n :: bodies) =
      .ok ⟨(deduplicate (listed pf pages (n + 1))).take maxJobs, 1⟩ := by
  rw [discoverPages_cons h hserved]
  dsimp only
  split_ifs with hjobs hnew hsize
  · have hlistings : listings pf pages n = [] := deduplicate_eq_nil_iff.mp hjobs
    rw [listed_succ, hlistings, List.append_nil, List.take_of_length_le h.le]
  · rfl
  · rfl
  · exact absurd ⟨not_lt.mp hsize, not_not.mp (mt (newOnPage_eq_zero_iff h).mpr hnew)⟩ hrenews

/-! ## Runs of the loop -/

/-- What has been collected when the loop over some pages has stopped, and why it has. -/
structure Stopped (pf : Platform) (maxJobs : ℕ) (pages : ℕ → List Char) (n count : ℕ)
    (search : Search) : Prop where
  collected :
    search.collected = (deduplicate (listed pf pages (n + search.requests))).take maxJobs
  requests : search.requests ≤ count
  renews : ∀ k, n ≤ k → k + 1 < n + search.requests → Renews pf pages k
  reason : search.requests = count ∨ maxJobs ≤ distinctCount pf pages (n + search.requests) ∨
    ∃ k, n + search.requests = k + 1 ∧ ¬Renews pf pages k

theorem Stopped.cons {search : Search} {count : ℕ} (hrenews : Renews pf pages n)
    (h : Stopped pf maxJobs pages (n + 1) count search) :
    Stopped pf maxJobs pages n (count + 1)
      { search with requests := search.requests + 1 } where
  collected := by
    rw [h.collected, Nat.add_right_comm]
    rfl
  requests := Nat.succ_le_succ h.requests
  renews := by
    intro k hnk hk
    rcases Nat.eq_or_lt_of_le hnk with rfl | hlt
    · exact hrenews
    · exact h.renews k hlt (by dsimp only at hk; omega)
  reason := by
    rw [show n + (search.requests + 1) = n + 1 + search.requests by omega]
    exact h.reason.imp_left fun hcount => by rw [hcount]

/-- What a run of the loop collects, and why it stops. -/
theorem discoverPages_of_isOk {count : ℕ} {search : Search}
    (h : discoverPages pf maxJobs ((deduplicate (listed pf pages n)).take maxJobs)
      ((List.range' n count).map pages) = .ok search) :
    Stopped pf maxJobs pages n count search := by
  induction count generalizing n search with
  | zero =>
      cases h
      exact ⟨rfl, le_rfl, fun k hnk hk => by dsimp only at hk; omega, Or.inl rfl⟩
  | succ count ih =>
      by_cases hlt : distinctCount pf pages n < maxJobs
      · rw [List.range'_succ, List.map_cons] at h
        cases hserved : served pf (pages n) with
        | error e =>
            rw [discoverPages_of_raised hlt hserved] at h
            contradiction
        | ok jobs =>
            by_cases hrenews : Renews pf pages n
            · rw [discoverPages_of_renews hlt hserved hrenews] at h
              obtain ⟨rest, hrest, rfl⟩ := map_eq_ok_iff.mp h
              exact (ih hrest).cons hrenews
            · rw [discoverPages_of_not_renews hlt hserved hrenews] at h
              cases h
              exact ⟨rfl, Nat.succ_le_succ (Nat.zero_le count),
                fun k hnk hk => by dsimp only at hk; omega, Or.inr (Or.inr ⟨n, rfl, hrenews⟩)⟩
      · rw [discoverPages_of_le (not_lt.mp hlt)] at h
        cases h
        exact ⟨rfl, Nat.zero_le _, fun k hnk hk => by dsimp only at hk; omega,
          Or.inr (Or.inl (not_lt.mp hlt))⟩

/-- The loop returns when every page that it requests can be parsed. -/
theorem isOk_discoverPages_iff {count : ℕ} :
    (discoverPages pf maxJobs ((deduplicate (listed pf pages n)).take maxJobs)
        ((List.range' n count).map pages)).isOk = true ↔
      (distinctCount pf pages n < maxJobs → ∀ k, n ≤ k → k < n + count →
        (∀ j, n ≤ j → j < k → Continues pf maxJobs pages j) → SoundSearch pf (pages k)) := by
  induction count generalizing n with
  | zero => exact iff_of_true rfl fun _ k hnk hk => by omega
  | succ count ih =>
      by_cases hlt : distinctCount pf pages n < maxJobs
      · rw [List.range'_succ, List.map_cons]
        cases hserved : served pf (pages n) with
        | error e =>
            rw [discoverPages_of_raised hlt hserved]
            apply iff_of_false Bool.false_ne_true
            intro hsound
            have hok := isOk_served_iff.mpr (hsound hlt n le_rfl (by omega) fun j _ _ => by omega)
            rw [hserved] at hok
            contradiction
        | ok jobs =>
            have hsound : SoundSearch pf (pages n) := isOk_served_iff.mp (by rw [hserved]; rfl)
            by_cases hrenews : Renews pf pages n
            · rw [discoverPages_of_renews hlt hserved hrenews, isOk_map, ih]
              constructor
              · intro hrest _ k hnk hk hcontinues
                rcases Nat.eq_or_lt_of_le hnk with rfl | hnext
                · exact hsound
                · exact hrest (hcontinues n le_rfl hnext).2 k hnext (by omega)
                    fun j hj => hcontinues j (by omega)
              · intro hall hcount k hnk hk hcontinues
                refine hall hlt k (by omega) (by omega) fun j hnj hj => ?_
                rcases Nat.eq_or_lt_of_le hnj with rfl | hnext
                · exact ⟨hrenews, hcount⟩
                · exact hcontinues j hnext hj
            · rw [discoverPages_of_not_renews hlt hserved hrenews]
              apply iff_of_true rfl
              intro _ k hnk hk hcontinues
              rcases Nat.eq_or_lt_of_le hnk with rfl | hnext
              · exact hsound
              · exact absurd (hcontinues n le_rfl hnext).1 hrenews
      · rw [discoverPages_of_le (not_lt.mp hlt)]
        exact iff_of_true rfl fun hcount => absurd hcount hlt

/-- A page of twenty listings renews the jobs when no identifier stands twice on it. -/
theorem Full.renews_iff (h : Full pf pages n) :
    Renews pf pages n ↔ ((listings pf pages n).map (·.externalJobId)).Nodup := by
  obtain ⟨hsize, hnew⟩ := h
  rw [← Base.length_firstSeen_eq_iff, hsize]
  constructor
  · intro hrenews
    exact le_antisymm (hsize ▸ Base.firstSeen_sublist.length_le) hrenews.1
  · intro hlength
    exact ⟨hlength.ge, hnew⟩

/-- A discovery on Dice runs the loop over its pages. -/
theorem discover_eq {target : CollectionTarget} (htarget : target.source = .dice) :
    discover pf target pages =
      (discoverPages pf target.maxJobs ((deduplicate (listed pf pages 0)).take target.maxJobs)
        ((List.range' 0 maxPages).map pages)).mapError .raised := by
  have hnil : (deduplicate (listed pf pages 0)).take target.maxJobs = [] := List.take_nil
  rw [discover, if_neg (not_not.mpr htarget), List.range_eq_range', hnil]

/-- A discovery whose first page does not renew the jobs ends with it. -/
theorem discover_of_not_renews {target : CollectionTarget} (htarget : target.source = .dice)
    (hserved : served pf (pages 0) = .ok jobs) (hrenews : ¬Renews pf pages 0) :
    discover pf target pages =
      .ok ⟨(deduplicate (listed pf pages 1)).take target.maxJobs, 1⟩ := by
  have hpositive : distinctCount pf pages 0 < target.maxJobs := target.maxJobsBounds.1
  rw [discover_eq htarget, maxPages, List.range'_succ, List.map_cons,
    discoverPages_of_not_renews hpositive hserved hrenews]
  rfl

/-- A run that is stopped by a page has collected as many jobs as are wanted, or all. -/
theorem Stopped.length_collected {search : Search} (h : Stopped pf maxJobs pages 0 n search) :
    search.collected.length = min maxJobs (distinctCount pf pages search.requests) := by
  rw [h.collected, List.length_take, Nat.zero_add, distinctCount]

/-- A run that stops for a good reason has not met a repetition. -/
theorem Stopped.noRepetition {search : Search} (h : Stopped pf maxJobs pages 0 maxPages search)
    (hdiscovered : Discovered pf maxJobs pages search) : NoRepetition pf maxJobs pages := by
  intro n hn hfull hcount
  apply (hfull n le_rfl).renews_iff.mp
  by_cases hrequested : n + 1 < search.requests
  · exact h.renews n (Nat.zero_le n) (by omega)
  · have hgood := hdiscovered.goodReason fun k hk => hfull k (by omega)
    have hlength := h.length_collected
    have hmono : distinctCount pf pages search.requests ≤ distinctCount pf pages (n + 1) :=
      distinctCount_mono (not_lt.mp hrequested)
    omega

/-- A run without repetitions stops for a good reason. -/
theorem Stopped.discovered {search : Search} (h : Stopped pf maxJobs pages 0 maxPages search)
    (hdistinct : NoRepetition pf maxJobs pages) : Discovered pf maxJobs pages search where
  distinct := by
    rw [h.collected]
    exact Base.nodup_map_firstSeen.sublist ((List.take_sublist _ _).map _)
  bounded := by
    rw [h.collected]
    exact List.length_take_le _ _
  firstSeen := by
    rw [h.collected, Nat.zero_add]
  requests := h.requests
  goodReason := by
    intro hfull
    have hlength := h.length_collected
    have hreason := h.reason
    rw [Nat.zero_add] at hreason
    rcases hreason with hpages | hwanted | ⟨k, hk, hrenews⟩
    · exact Or.inr hpages
    · exact Or.inl (by omega)
    · by_cases hwanted : maxJobs ≤ distinctCount pf pages search.requests
      · exact Or.inl (by omega)
      · by_cases hlast : k + 1 < maxPages
        · have hnodup := hdistinct k hlast (fun j hj => hfull j (by omega)) (by rw [← hk]; omega)
          exact absurd ((hfull k (by omega)).renews_iff.mpr hnodup) hrenews
        · exact Or.inr (le_antisymm h.requests (by omega))

end

/-- The loop stops for a good reason only, exactly when the pages that it requests can be parsed and
no page of twenty listings before the last one has an identifier twice while jobs are wanted. -/
theorem discovery_stops_iff (pf : Platform) (target : CollectionTarget)
    (htarget : target.source = .dice) (pages : ℕ → List Char) :
    (∃ search, discover pf target pages = .ok search ∧
        Discovered pf target.maxJobs pages search) ↔
      PagesParsed pf target.maxJobs pages ∧ NoRepetition pf target.maxJobs pages := by
  have hpositive : distinctCount pf pages 0 < target.maxJobs := target.maxJobsBounds.1
  have hparsed : (discover pf target pages).isOk = true ↔
      PagesParsed pf target.maxJobs pages := by
    rw [discover_eq htarget, isOk_mapError, isOk_discoverPages_iff]
    constructor
    · intro hall n hn hcontinues
      exact hall hpositive n (Nat.zero_le n) (by omega) fun j _ hj => hcontinues j hj
    · intro hall _ k _ hk hcontinues
      exact hall k (by omega) fun j hj => hcontinues j (Nat.zero_le j) hj
  have hstopped {search : Search} (h : discover pf target pages = .ok search) :
      Stopped pf target.maxJobs pages 0 maxPages search := by
    rw [discover_eq htarget, mapError_eq_ok_iff] at h
    exact discoverPages_of_isOk h
  constructor
  · rintro ⟨search, hsearch, hdiscovered⟩
    exact ⟨hparsed.mp (isOk_iff.mpr ⟨search, hsearch⟩),
      (hstopped hsearch).noRepetition hdiscovered⟩
  · rintro ⟨hpages, hdistinct⟩
    obtain ⟨search, hsearch⟩ := isOk_iff.mp (hparsed.mpr hpages)
    exact ⟨search, hsearch, (hstopped hsearch).discovered hdistinct⟩

/-! ## Repeated identifiers -/

/-- The identifiers of a page: twenty, the first of which is repeated so many times. -/
def servedIds (repeated n : ℕ) : List (List Char) :=
  (List.range 20).map fun k => [Char.ofNat (97 + n), Char.ofNat (97 + (k - repeated))]

/-- The list of jobs of a page. -/
def servedList (quote : List Char) (repeated n : ℕ) : List Char :=
  let key (name : String) : List Char := quote ++ (name.toList ++ (quote ++ [':']))
  let item (id : List Char) : List Char :=
    '\x7b' :: (key "guid" ++ (quote ++ (id ++ (quote ++ ['\x7d']))))
  key "jobList" ++ ('\x7b' :: (key "data" ++
    ('[' :: (",".toList.intercalate ((servedIds repeated n).map item) ++ [']', '\x7d']))))

/-- What the script of a page pushes. -/
def servedInner (repeated n : ℕ) : List Char :=
  ['1', ',', '"'] ++ (servedList ['\\', '"'] repeated n ++ ['"'])

/-- Pages of twenty listings. -/
def servedPages (repeated n : ℕ) : List Char :=
  "<script>self.__next_f.push([".toList ++ (servedInner repeated n ++ "])</script>".toList)

/-- Pages of twenty listings, the first two of which have one identifier. -/
def repeatingPages : ℕ → List Char :=
  servedPages 1

/-- The items of a page. -/
def servedItems (repeated n : ℕ) : List JsonValue :=
  (servedIds repeated n).map fun id => .obj [("guid", .str (String.ofList id))]

/-- A search for at most as many jobs. -/
def nurseTarget (maxJobs : ℕ) (h : 1 ≤ maxJobs ∧ maxJobs ≤ 1000) : CollectionTarget where
  source := .dice
  query := "nurse"
  location := none
  enabled := true
  maxJobs := maxJobs
  queryNonblank := by decide
  locationNonblank := no_location_nonblank
  maxJobsBounds := h

section

variable {repeated n : ℕ}

theorem inner_servedPages : ∀ repeated < 2, ∀ n < maxPages,
    (flightPushRe.finditer (servedPages repeated n)).map (·.inner) = [servedInner repeated n] := by
  decide +kernel

set_option maxRecDepth 4000 in
theorem loads_servedInner : ∀ repeated < 2, ∀ n < maxPages,
    loads literalDouble ('[' :: servedInner repeated n ++ [']']) =
      .ok (.arr [.int 1, .str (String.ofList (servedList ['"'] repeated n))]) := by
  intro repeated hr n hn
  rw [maxPages] at hn
  interval_cases repeated <;> interval_cases n <;> rfl

theorem chunkJoblist_servedList : ∀ repeated < 2, ∀ n < maxPages,
    chunkJoblist literalDouble (servedList ['"'] repeated n) =
      some [("data", .arr (servedItems repeated n))] := by
  intro repeated hr n hn
  rw [maxPages] at hn
  interval_cases repeated <;> interval_cases n <;> rfl

theorem flightListings_servedPages (hr : repeated < 2) (hn : n < maxPages) :
    flightListings .ascii (servedPages repeated n) =
      (servedItems repeated n).filterMap (flightListing .ascii) := by
  have hchunks :
      iterFlightChunks literalDouble (servedPages repeated n) = [servedList ['"'] repeated n] := by
    have hread : iterFlightChunks literalDouble (servedPages repeated n) =
        ((flightPushRe.finditer (servedPages repeated n)).map (·.inner)).filterMap fun inner =>
          pushedText (loads literalDouble ('[' :: inner ++ [']'])) := by
      rw [List.filterMap_map]
      rfl
    rw [hread, inner_servedPages repeated hr n hn, List.filterMap_cons,
      loads_servedInner repeated hr n hn, pushedText, String.toList_ofList, List.filterMap_nil]
  have hlist : parseFlightJoblist literalDouble (servedPages repeated n) =
      some [("data", .arr (servedItems repeated n))] := by
    rw [parseFlightJoblist, hchunks, List.findSome?_cons, chunkJoblist_servedList repeated hr n hn]
  have hfloat : Platform.ascii.readFloat = literalDouble := rfl
  rw [flightListings, hfloat, hlist]
  rfl

theorem ids_servedItems : ∀ repeated < 2, ∀ n < maxPages,
    ((servedItems repeated n).filterMap (flightListing .ascii)).map (·.externalJobId) =
      (servedIds repeated n).map String.ofList := by
  decide

theorem length_servedIds : (servedIds repeated n).length = 20 := by
  rw [servedIds, List.length_map, List.length_range]

theorem flightListings_servedPages_ne_nil (hr : repeated < 2) (hn : n < maxPages) :
    flightListings .ascii (servedPages repeated n) ≠ [] := by
  rw [← List.length_pos_iff, ← List.length_map (f := (·.externalJobId)),
    flightListings_servedPages hr hn, ids_servedItems repeated hr n hn, List.length_map,
    length_servedIds]
  decide

/-- The identifiers that the pages serve. -/
theorem ids_servedPages (hr : repeated < 2) (hn : n < maxPages) :
    (listings .ascii (servedPages repeated) n).map (·.externalJobId) =
      (servedIds repeated n).map String.ofList := by
  rw [listings_of_flight (flightListings_servedPages_ne_nil hr hn),
    flightListings_servedPages hr hn]
  exact ids_servedItems repeated hr n hn

theorem ids_listed (hr : repeated < 2) (hn : n ≤ maxPages) :
    (listed .ascii (servedPages repeated) n).map (·.externalJobId) =
      (List.range n).flatMap fun k => (servedIds repeated k).map String.ofList := by
  rw [listed, List.map_flatMap]
  apply List.flatMap_congr
  intro k hk
  exact ids_servedPages hr (by rw [List.mem_range] at hk; omega)

/-- Every page carries twenty listings, one of them new. -/
theorem full_servedPages (hr : repeated < 2) (hn : n < maxPages) :
    Full .ascii (servedPages repeated) n := by
  have hids := ids_servedPages hr hn
  constructor
  · rw [← List.length_map (f := (·.externalJobId)), hids, List.length_map, length_servedIds]
    rfl
  · have hnew : ∀ repeated < 2, ∀ n < maxPages, ∃ id ∈ (servedIds repeated n).map String.ofList,
        id ∉ (List.range n).flatMap fun k => (servedIds repeated k).map String.ofList := by
      decide
    obtain ⟨id, hid, hearlier⟩ := hnew repeated hr n hn
    rw [← hids] at hid
    rw [← ids_listed hr hn.le] at hearlier
    obtain ⟨job, hjob, rfl⟩ := List.mem_map.mp hid
    exact ⟨job, hjob, hearlier⟩

end

/-- Pages of twenty identifiers each: a search for fifty jobs goes on until it has them. -/
theorem discovery_stops_iff_fifty :
    ∃ search, discover .ascii (nurseTarget 50 (by decide)) (servedPages 0) = .ok search ∧
      Discovered .ascii 50 (servedPages 0) search ∧ search.collected.length = 50 := by
  have hr : 0 < 2 := by decide
  have hcondition :
      PagesParsed .ascii 50 (servedPages 0) ∧ NoRepetition .ascii 50 (servedPages 0) := by
    constructor
    · exact fun n hn _ hnil => absurd hnil (flightListings_servedPages_ne_nil hr hn)
    · intro n hn _ _
      have hnodup : ∀ n < maxPages, ((servedIds 0 n).map String.ofList).Nodup := by decide
      rw [ids_servedPages hr (Nat.lt_of_succ_lt hn)]
      exact hnodup n (Nat.lt_of_succ_lt hn)
  obtain ⟨search, hsearch, hdiscovered⟩ :=
    (discovery_stops_iff .ascii (nurseTarget 50 (by decide)) rfl (servedPages 0)).mpr hcondition
  refine ⟨search, hsearch, hdiscovered, ?_⟩
  have hfull : ∀ n < search.requests, Full .ascii (servedPages 0) n :=
    fun n hn => full_servedPages hr (hn.trans_le hdiscovered.requests)
  rcases hdiscovered.goodReason hfull with hlength | hlast
  · exact hlength
  · have hcount : (deduplicate (listed .ascii (servedPages 0) maxPages)).length = 100 := by
      rw [deduplicate, ← List.length_map (f := (·.externalJobId)), Base.map_firstSeen,
        ids_listed hr le_rfl]
      decide +kernel
    rw [hdiscovered.firstSeen, hlast, List.length_take, hcount]
    rfl

/-- Every page carries twenty listings, one of them new, and a hundred jobs are wanted, but the
search ends after one page with nineteen. -/
theorem repeated_identifier_stops :
    (∀ n < maxPages, Full .ascii repeatingPages n) ∧
      ∃ search, discover .ascii (nurseTarget 100 (by decide)) repeatingPages = .ok search ∧
        search.collected.length = 19 ∧ search.requests = 1 := by
  have hr : 1 < 2 := by decide
  refine ⟨fun n hn => full_servedPages hr hn,
    ⟨(deduplicate (listed .ascii repeatingPages 1)).take 100, 1⟩, ?_, ?_, rfl⟩
  · have hserved := served_of_flight
      (flightListings_servedPages_ne_nil hr (by decide : 0 < maxPages))
    have hrenews : ¬Renews .ascii repeatingPages 0 := by
      rw [repeatingPages, (full_servedPages hr (by decide)).renews_iff,
        ids_servedPages hr (by decide)]
      decide
    exact discover_of_not_renews rfl hserved hrenews
  · have hcount : (deduplicate (listed .ascii repeatingPages 1)).length = 19 := by
      rw [repeatingPages, deduplicate, ← List.length_map (f := (·.externalJobId)),
        Base.map_firstSeen, ids_listed hr (by decide)]
      decide
    rw [List.length_take, hcount]
    rfl

end Dice
end Sources
end HireAndTech
