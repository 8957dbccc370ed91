import HireAndTech.Catalogue.DualWrite
import HireAndTech.Catalogue.Query

/-!
# The job listing of administrators

`GlobalJobRepository.search` reads a page of the legacy table and the number of all matching
rows.  The route {lit}`GET /jobs` of the administrators passes its filters on, except for the
source, by which it filters the rows of the page that it gets.

Main results:

- Definitions {lit}`searchLegacy` and {lit}`jobs`: the query and the route.
- Theorem {lit}`jobs_items`: a page of the listing.
- Theorem {lit}`listing_consistent_iff`: when the pages of the listing fit its total.
-/

namespace HireAndTech
namespace Catalogue

open Relational

/-! ## The query -/

/-- `posted_at DESC NULLS LAST, last_seen_at DESC, id`. -/
def legacyKey (g : GlobalJob) : (WithBot Time)ᵒᵈ ×ₗ Timeᵒᵈ ×ₗ UUID :=
  toLex (OrderDual.toDual (g.postedAt : WithBot Time),
    toLex (OrderDual.toDual g.lastSeenAt, g.id))

/-- What the database decides about the legacy table. -/
structure LegacySql where
  ilike : String → String → Bool
  plan : SortPlan legacyKey

/-- The filters of `GlobalJobRepository.search`. -/
structure LegacyFilter where
  query : Option String := none
  role : Option String := none
  location : Option String := none
  remote : Option Bool := none
  employmentType : Option String := none
  roleFamilies : List String := []
deriving DecidableEq, Repr

variable (sql : LegacySql)

/-- A value that matches a pattern; NULL matches none. -/
def LegacySql.matchesPattern (value : Option String) (pattern : String) : Bool :=
  value.any (sql.ilike · pattern)

/-- The WHERE clause of both queries. -/
def legacyPredicate (f : LegacyFilter) (g : GlobalJob) : Bool :=
  g.isActive &&
    whenText f.query (fun query =>
      sql.ilike g.jobTitle ("%" ++ query ++ "%") ||
        sql.matchesPattern g.company ("%" ++ query ++ "%") ||
        sql.matchesPattern g.description ("%" ++ query ++ "%")) &&
    whenText f.role (g.roleFamily = ·) &&
    (f.roleFamilies.isEmpty || g.roleFamily ∈ f.roleFamilies) &&
    whenText f.location (fun location =>
      sql.matchesPattern g.location ("%" ++ location ++ "%")) &&
    f.remote.all (fun remote => g.remote = some remote) &&
    whenText f.employmentType (sql.matchesPattern g.employmentType ·)

/-- `GlobalJobRepository.search`: the rows of a page and the total. -/
def searchLegacy (t : LegacyTable) (f : LegacyFilter) (page pageSize : Nat) :
    List GlobalJob × Nat :=
  let matching := t.rows.filter (legacyPredicate sql f)
  let offset := (page - 1) * pageSize
  (Relational.page offset pageSize (sql.plan.rows offset pageSize matching), matching.length)

/-! ## The route -/

/-- The query parameters of the route. -/
structure JobsRequest where
  pageSize : Nat := 50
  search : Option String := none
  source : Option String := none
  role : Option String := none
  location : Option String := none
deriving DecidableEq, Repr

/-- The filters that the route passes on. -/
def JobsRequest.filter (r : JobsRequest) : LegacyFilter where
  query := r.search
  role := r.role
  location := r.location

/-- The body of a response of the route. -/
structure JobsListing where
  items : List GlobalJob
  page : Nat
  pageSize : Nat
  total : Nat
deriving DecidableEq, Repr

/-- `HTTPException`. -/
structure HttpException where
  statusCode : Nat
  detail : String
deriving DecidableEq, Repr

/-- The rows of a source, when one is given. -/
def ofSource (source : Option String) (g : GlobalJob) : Bool :=
  source.all (g.source = ·)

/-- `jobs`; without a database there is no session. -/
def jobs (session : Option LegacyTable) (r : JobsRequest) (page : Nat) :
    Except HttpException JobsListing :=
  match session with
  | none => .error ⟨501, "GlobalJob administration requires a database"⟩
  | some t =>
      let (rows, total) := searchLegacy sql t r.filter page r.pageSize
      .ok { items := rows.filter (ofSource r.source), page, pageSize := r.pageSize, total }

/-! ## The pages of the listing -/

/-- A row that matches all filters of the request but the source. -/
def matchesFilters (r : JobsRequest) (g : GlobalJob) : Bool :=
  legacyPredicate sql r.filter g

/-- The rows that match all filters but the source, in the order of the query. -/
def orderedRows (t : LegacyTable) (r : JobsRequest) : List GlobalJob :=
  sortedBy legacyKey (t.rows.filter (matchesFilters sql r))

/-- The listings of the pages up to the reported total. -/
def allListings (t : LegacyTable) (r : JobsRequest) : List JobsListing :=
  let total := (searchLegacy sql t r.filter 1 r.pageSize).2
  (List.range (pageCount total r.pageSize)).filterMap fun k =>
    (jobs sql (some t) r (k + 1)).toOption

/-- The total is the number of items on all pages, every page but the last one is full, and
every matching row of the source is an item once. -/
structure Consistent (t : LegacyTable) (r : JobsRequest) : Prop where
  total : ∀ listing ∈ allListings sql t r,
    listing.total = ((allListings sql t r).flatMap (·.items)).length
  full : ∀ listing ∈ allListings sql t r,
    listing.page < (allListings sql t r).length → listing.items.length = r.pageSize
  once : ∀ g ∈ t.rows, matchesFilters sql r g = true → ofSource r.source g = true →
    (((allListings sql t r).flatMap (·.items)).map (·.id)).count g.id = 1

section

variable {sql} {t : LegacyTable} {r : JobsRequest}

theorem legacyKey_nodup (p : GlobalJob → Bool) : ((t.rows.filter p).map legacyKey).Nodup := by
  have hids : ((t.rows.filter p).map (·.id)).Nodup :=
    t.ids.sublist (List.filter_sublist.map _)
  apply List.Nodup.of_map fun key => (ofLex (ofLex key).2).2
  rw [List.map_map]
  exact hids

/-- A page of the listing is a page of the ordered rows, tested for the source. -/
theorem jobs_items (page : Nat) :
    jobs sql (some t) r page = .ok
      { items := (Relational.page ((page - 1) * r.pageSize) r.pageSize
          (orderedRows sql t r)).filter (ofSource r.source)
        page
        pageSize := r.pageSize
        total := (orderedRows sql t r).length } := by
  simp only [jobs, searchLegacy, orderedRows, sql.plan.rows_eq (legacyKey_nodup _),
    (sortedBy_perm _ _).length_eq]
  rfl

theorem searchLegacy_total (page : Nat) :
    (searchLegacy sql t r.filter page r.pageSize).2 = (orderedRows sql t r).length := by
  rw [orderedRows, (sortedBy_perm _ _).length_eq]
  rfl

theorem mem_orderedRows {g : GlobalJob} :
    g ∈ orderedRows sql t r ↔ g ∈ t.rows ∧ matchesFilters sql r g = true := by
  rw [orderedRows, (sortedBy_perm _ _).mem_iff, List.mem_filter]

/-- The listings of all pages. -/
theorem allListings_eq :
    allListings sql t r =
      (List.range (pageCount (orderedRows sql t r).length r.pageSize)).map fun k =>
        { items := (Relational.page (k * r.pageSize) r.pageSize (orderedRows sql t r)).filter
            (ofSource r.source)
          page := k + 1
          pageSize := r.pageSize
          total := (orderedRows sql t r).length } := by
  simp only [allListings, searchLegacy_total, jobs_items, Except.toOption, Nat.add_sub_cancel]
  exact congrFun List.filterMap_eq_map _

/-- The items of all pages are the rows of the source. -/
theorem allItems_eq (hsize : 1 ≤ r.pageSize) :
    (allListings sql t r).flatMap (·.items) =
      (orderedRows sql t r).filter (ofSource r.source) := by
  rw [allListings_eq, List.flatMap_map]
  exact filtered_pages_eq hsize _ _

theorem orderedRows_nodup : ((orderedRows sql t r).map (·.id)).Nodup := by
  rw [orderedRows, ((sortedBy_perm _ _).map _).nodup_iff]
  exact t.ids.sublist (List.filter_sublist.map _)

end

/-- The pages of the listing fit its total exactly when no source is asked for, or all rows
that match the other filters have that source. -/
theorem listing_consistent_iff (t : LegacyTable) (r : JobsRequest) (hsize : 1 ≤ r.pageSize) :
    Consistent sql t r ↔
      ∀ g ∈ t.rows, matchesFilters sql r g = true → ofSource r.source g = true := by
  constructor
  · intro h g hg hmatch
    have hmem : g ∈ orderedRows sql t r := mem_orderedRows.mpr ⟨hg, hmatch⟩
    have hpages : 0 < pageCount (orderedRows sql t r).length r.pageSize := by
      have hpos := List.length_pos_of_mem hmem
      rw [pageCount]
      exact Nat.div_pos (by omega) hsize
    have hfirst := h.total _ (by
      rw [allListings_eq]
      exact List.mem_map_of_mem (List.mem_range.mpr hpages))
    rw [allItems_eq hsize] at hfirst
    exact List.length_filter_eq_length_iff.mp hfirst.symm g hmem
  · intro h
    have hkept : (orderedRows sql t r).filter (ofSource r.source) = orderedRows sql t r :=
      List.filter_eq_self.mpr fun g hg =>
        h g (mem_orderedRows.mp hg).1 (mem_orderedRows.mp hg).2
    constructor
    · intro listing hlisting
      rw [allItems_eq hsize, hkept]
      rw [allListings_eq] at hlisting
      obtain ⟨k, _, rfl⟩ := List.mem_map.mp hlisting
      rfl
    · intro listing hlisting hlast
      rw [allListings_eq] at hlisting hlast
      obtain ⟨k, _, rfl⟩ := List.mem_map.mp hlisting
      rw [List.length_map, List.length_range] at hlast
      have hpage : ∀ g ∈ Relational.page (k * r.pageSize) r.pageSize (orderedRows sql t r),
          ofSource r.source g = true := by
        intro g hg
        have hmem := mem_orderedRows.mp (List.mem_of_mem_drop (List.mem_of_mem_take hg))
        exact h g hmem.1 hmem.2
      dsimp only
      rw [List.filter_eq_self.mpr hpage]
      exact length_page hlast
    · intro g hg hmatch _
      rw [allItems_eq hsize, hkept]
      apply List.count_eq_one_of_mem orderedRows_nodup
      exact List.mem_map_of_mem (mem_orderedRows.mpr ⟨hg, hmatch⟩)

/-- Patterns match the texts that they are equal to, and rows come in a stable order. -/
def plainLegacySql : LegacySql where
  ilike value pattern := value = pattern
  plan := .stable legacyKey

/-- A row as the collection of a listing writes it. -/
def collectedRow (id : UUID) (source externalJobId : String) (now : Time) : GlobalJob :=
  incomingValues id (.bare source externalJobId "Backend Engineer" "backend engineer" "backend")
    now

/-- One row of each of two providers. -/
def twoProviders : LegacyTable where
  rows := [collectedRow 1 "dice" "a1" 5, collectedRow 2 "linkedin" "b1" 6]
  ids := by decide
  identities := by decide

/-- Without a source all rows are listed. -/
theorem listing_consistent_all :
    Consistent plainLegacySql twoProviders { pageSize := 1 } :=
  (listing_consistent_iff plainLegacySql twoProviders { pageSize := 1 } le_rfl).mpr (by decide)

/-- With a source the total counts the rows of the other providers, and a page may be empty. -/
theorem listing_counts_others :
    ¬Consistent plainLegacySql twoProviders { pageSize := 1, source := some "dice" } := by
  intro h
  have htotal : ∃ listing ∈
      allListings plainLegacySql twoProviders { pageSize := 1, source := some "dice" },
      listing.total ≠ ((allListings plainLegacySql twoProviders
        { pageSize := 1, source := some "dice" }).flatMap (·.items)).length := by decide
  obtain ⟨listing, hmem, hne⟩ := htotal
  exact hne (h.total listing hmem)

end Catalogue
end HireAndTech
