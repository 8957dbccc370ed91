import HireAndTech.Base.FirstSeen
import HireAndTech.Runs.Attempts

/-!
# Searches over pages

A search requests the pages of a listing one after the other, and collects the items whose keys are
new until there are enough of them.  It also stops after a page that cannot be read, a page with too
few items, and a page without a new item.

The details of items are fetched one after the other.  An item may have none, and an item whose
details cannot be fetched ends the loop.

Main results:

- Definition {lit}`searchPages`: the loop over the pages.
- Theorem {lit}`requests_searchPages`: which pages are requested.
- Theorem {lit}`outcome_searchPages`: what is collected from them.
- Definition {lit}`fetchEach`: the loop over the items.
- Theorem {lit}`outcome_fetchEach`: what is collected from them.
-/

namespace Base

open Runs

variable {α β ε : Type} [DecidableEq β]

/-- What a search has come to, and the number of pages that it has requested. -/
structure Search (ε α : Type) where
  outcome : Except ε (List α)
  requests : ℕ

/-- A search that has requested a page before. -/
def Search.after (search : Search ε α) : Search ε α :=
  { search with requests := search.requests + 1 }

section

variable (key : α → β) (limit minimum : ℕ) (fetch : ℕ → Except ε (List α))

/-- The loop over the items of a page, which ends when enough of them are collected. -/
def collectPage (collected : List α) : List α → List α
  | [] => collected
  | x :: xs =>
      if key x ∈ collected.map key then collectPage collected xs
      else if limit ≤ (collected ++ [x]).length then collected ++ [x]
      else collectPage (collected ++ [x]) xs

/-- The loop over the pages. -/
def searchPages (collected : List α) : List ℕ → Search ε α
  | [] => ⟨.ok collected, 0⟩
  | page :: pages =>
      if limit ≤ collected.length then ⟨.ok collected, 0⟩
      else
        match fetch page with
        | .error e => ⟨.error e, 1⟩
        | .ok items =>
            let found := collectPage key limit collected items
            if items = [] then ⟨.ok collected, 1⟩
            else if found.length = collected.length then ⟨.ok found, 1⟩
            else if items.length < minimum then ⟨.ok found, 1⟩
            else (searchPages found pages).after

/-! ## Pages -/

/-- The items of a page; a page that cannot be read has none. -/
def pageItems (n : ℕ) : List α :=
  (fetch n).toOption.getD []

/-- The items of the pages before a page. -/
def listed (n : ℕ) : List α :=
  (List.range n).flatMap (pageItems fetch)

/-- The first items with their keys on the pages before a page. -/
def distinct (n : ℕ) : List α :=
  firstSeen key [] (listed fetch n)

/-- The page has an item whose key is on no earlier page. -/
def HasNew (n : ℕ) : Prop :=
  ∃ x ∈ pageItems fetch n, key x ∉ (listed fetch n).map key

/-- The page can be read, it has enough items, one of them new, and more of them are wanted. -/
structure Continues (n : ℕ) : Prop where
  isOk : (fetch n).isOk = true
  size : minimum ≤ (pageItems fetch n).length
  hasNew : HasNew key fetch n
  wanted : (distinct key fetch (n + 1)).length < limit

end

section

variable {key : α → β} {limit minimum : ℕ} {fetch : ℕ → Except ε (List α)} {n count : ℕ}
  {collected items : List α} {e : ε}

/-! ## One page -/

theorem after_outcome (search : Search ε α) : search.after.outcome = search.outcome :=
  rfl

theorem after_requests (search : Search ε α) : search.after.requests = search.requests + 1 :=
  rfl

/-- The items of a page with new keys are appended, up to the number that is wanted. -/
theorem collectPage_eq (h : collected.length < limit) :
    collectPage key limit collected items =
      (collected ++ firstSeen key (collected.map key) items).take limit := by
  induction items generalizing collected with
  | nil => simp [collectPage, firstSeen, List.take_of_length_le h.le]
  | cons x xs ih =>
      rw [collectPage]
      split_ifs with hseen hfull
      · rw [ih h, firstSeen_of_mem hseen]
      · have hlength : (collected ++ [x]).length = limit := by
          rw [List.length_append, List.length_singleton] at hfull ⊢
          omega
        rw [firstSeen_of_not_mem hseen, List.append_cons collected x (firstSeen _ _ _),
          List.take_left' hlength]
      · rw [ih (not_le.mp hfull), firstSeen_of_not_mem hseen,
          List.append_cons collected x (firstSeen _ _ _)]
        congr 2
        apply firstSeen_congr
        intro k
        simp [or_comm]

theorem listed_succ : listed fetch (n + 1) = listed fetch n ++ pageItems fetch n := by
  rw [listed, List.range_succ, List.flatMap_append, List.flatMap_singleton]
  rfl

/-- The items of a page that no earlier page has. -/
theorem distinct_succ : distinct key fetch (n + 1) =
    distinct key fetch n ++
      firstSeen key ((listed fetch n).map key) (pageItems fetch n) := by
  rw [distinct, listed_succ, firstSeen_append, List.append_nil]
  rfl

theorem length_distinct_le_succ :
    (distinct key fetch n).length ≤ (distinct key fetch (n + 1)).length := by
  rw [distinct_succ, List.length_append]
  exact Nat.le_add_right _ _

/-- A page has a new item when there are more items after it. -/
theorem hasNew_iff :
    HasNew key fetch n ↔
      (distinct key fetch n).length < (distinct key fetch (n + 1)).length := by
  have hnil : firstSeen key ((listed fetch n).map key) (pageItems fetch n) = [] ↔
      ¬HasNew key fetch n := by
    rw [firstSeen_eq_nil_iff, HasNew]
    push Not
    rfl
  rw [distinct_succ, List.length_append, Nat.lt_add_right_iff_pos, List.length_pos_iff, ne_eq,
    hnil, not_not]

theorem pageItems_of_ok (h : fetch n = .ok items) : pageItems fetch n = items := by
  rw [pageItems, h]
  rfl

/-- The loop over the items of a page collects the first items of the pages up to it. -/
theorem collectPage_distinct (h : (distinct key fetch n).length < limit) :
    collectPage key limit (distinct key fetch n) (pageItems fetch n) =
      (distinct key fetch (n + 1)).take limit := by
  rw [collectPage_eq h, distinct_succ]
  congr 2
  apply firstSeen_congr
  intro k
  rw [distinct, mem_map_firstSeen_iff, and_iff_left List.not_mem_nil]

/-! ## Steps of the loop -/

section

variable {pages : List ℕ}

/-- A search that has enough items requests no page. -/
theorem searchPages_of_le (h : limit ≤ collected.length) :
    searchPages key limit minimum fetch collected pages = ⟨.ok collected, 0⟩ := by
  cases pages with
  | nil => rfl
  | cons page pages => rw [searchPages, if_pos h]

theorem searchPages_of_error (h : collected.length < limit) (hfetch : fetch n = .error e) :
    searchPages key limit minimum fetch collected (n :: pages) = ⟨.error e, 1⟩ := by
  rw [searchPages, if_neg (not_le.mpr h), hfetch]

/-- A page without a new item adds nothing. -/
theorem length_take_distinct_eq_iff (h : (distinct key fetch n).length < limit) :
    ((distinct key fetch (n + 1)).take limit).length = (distinct key fetch n).length ↔
      ¬HasNew key fetch n := by
  have hmono := @length_distinct_le_succ _ _ _ _ key fetch n
  rw [hasNew_iff, List.length_take]
  omega

/-- The loop goes on after a page that continues the search. -/
theorem searchPages_of_continues (h : (distinct key fetch n).length < limit)
    (hcontinues : Continues key limit minimum fetch n) :
    searchPages key limit minimum fetch (distinct key fetch n) (n :: pages) =
      (searchPages key limit minimum fetch (distinct key fetch (n + 1)) pages).after := by
  obtain ⟨items, hfetch⟩ := isOk_iff.mp hcontinues.isOk
  have hitems := pageItems_of_ok hfetch
  have hne : items ≠ [] := by
    obtain ⟨x, hx, _⟩ := hcontinues.hasNew
    rw [hitems] at hx
    exact List.ne_nil_of_mem hx
  have hsize : ¬items.length < minimum := by
    rw [← hitems]
    exact not_lt.mpr hcontinues.size
  have hfound := collectPage_distinct h
  have hnew := mt (length_take_distinct_eq_iff h).mp (not_not.mpr hcontinues.hasNew)
  rw [searchPages, if_neg (not_le.mpr h), hfetch]
  dsimp only
  rw [← hitems, hfound, hitems, if_neg hne, if_neg hnew, if_neg hsize,
    List.take_of_length_le hcontinues.wanted.le]

/-- The loop stops after any other page that can be read. -/
theorem searchPages_of_ok (h : (distinct key fetch n).length < limit) (hfetch : fetch n = .ok items)
    (hcontinues : ¬Continues key limit minimum fetch n) :
    searchPages key limit minimum fetch (distinct key fetch n) (n :: pages) =
      ⟨.ok ((distinct key fetch (n + 1)).take limit), 1⟩ := by
  have hitems := pageItems_of_ok hfetch
  have hfound := collectPage_distinct h
  rw [searchPages, if_neg (not_le.mpr h), hfetch]
  dsimp only
  rw [← hitems, hfound]
  split_ifs with hnil hsame hsize
  · rw [distinct_succ, hnil, firstSeen, List.append_nil, List.take_of_length_le h.le]
  · rfl
  · rfl
  · have hfull : limit ≤ ((distinct key fetch (n + 1)).take limit).length := by
      rw [List.length_take]
      refine le_min le_rfl (not_lt.mp fun hwanted => hcontinues ?_)
      have hnew := not_not.mp (mt (length_take_distinct_eq_iff h).mpr hsame)
      exact ⟨isOk_iff.mpr ⟨items, hfetch⟩, not_lt.mp hsize, hnew, hwanted⟩
    rw [searchPages_of_le hfull]
    rfl

end

/-! ## Runs of the loop -/

/-- A page is requested when every page before it continues the search. -/
theorem lt_requests_iff (h : (distinct key fetch n).length < limit) (m : ℕ) :
    m < (searchPages key limit minimum fetch (distinct key fetch n)
        (List.range' n count)).requests ↔
      m < count ∧ ∀ k < m, Continues key limit minimum fetch (n + k) := by
  induction count generalizing n m with
  | zero => exact iff_of_false (Nat.not_lt_zero m) fun hm => Nat.not_lt_zero m hm.1
  | succ count ih =>
      rw [List.range'_succ]
      by_cases hcontinues : Continues key limit minimum fetch n
      · rw [searchPages_of_continues h hcontinues, after_requests]
        cases m with
        | zero => simp
        | succ m =>
            have hshift : ∀ k, n + 1 + k = n + (k + 1) := fun k => by omega
            rw [Nat.add_lt_add_iff_right, Nat.add_lt_add_iff_right, ih hcontinues.wanted,
              Nat.forall_lt_succ_left']
            simp only [hshift, Nat.add_zero, and_iff_right hcontinues]
      · have hone : (searchPages key limit minimum fetch (distinct key fetch n)
            (n :: List.range' (n + 1) count)).requests = 1 := by
          cases hfetch : fetch n with
          | error e => rw [searchPages_of_error h hfetch]
          | ok items => rw [searchPages_of_ok h hfetch hcontinues]
        rw [hone, Nat.lt_one_iff]
        constructor
        · rintro rfl
          exact ⟨Nat.succ_pos count, fun k hk => absurd hk (Nat.not_lt_zero k)⟩
        · intro ⟨_, hall⟩
          by_contra hm
          exact hcontinues (hall 0 (Nat.pos_of_ne_zero hm))

/-- What is collected from the pages that are requested. -/
theorem outcome_eq (h : (distinct key fetch n).length < limit) :
    let search := searchPages key limit minimum fetch (distinct key fetch n) (List.range' n count)
    search.outcome = ((List.range' n search.requests).mapM fetch).map fun _ =>
      (distinct key fetch (n + search.requests)).take limit := by
  dsimp only
  induction count generalizing n with
  | zero => simp [searchPages, Except.map, pure, Except.pure, List.take_of_length_le h.le]
  | succ count ih =>
      rw [List.range'_succ]
      cases hfetch : fetch n with
      | error e =>
          rw [searchPages_of_error h hfetch]
          simp [hfetch, Except.map, bind, Except.bind]
      | ok items =>
          by_cases hcontinues : Continues key limit minimum fetch n
          · rw [searchPages_of_continues h hcontinues, after_outcome, ih hcontinues.wanted,
              after_requests, List.range'_succ, List.mapM_cons, hfetch, ok_bind]
            generalize (searchPages key limit minimum fetch (distinct key fetch (n + 1))
              (List.range' (n + 1) count)).requests = r
            rw [show n + 1 + r = n + (r + 1) by omega]
            cases (List.range' (n + 1) r).mapM fetch <;> rfl
          · rw [searchPages_of_ok h hfetch hcontinues]
            simp [hfetch, Except.map, bind, Except.bind, pure, Except.pure]

/-- The pages that a search requests: every page before them continues the search. -/
theorem requests_searchPages (hlimit : 0 < limit) (m : ℕ) :
    m < (searchPages key limit minimum fetch [] (List.range count)).requests ↔
      m < count ∧ ∀ k < m, Continues key limit minimum fetch k := by
  have hrun := @lt_requests_iff _ _ _ _ key limit minimum fetch 0 count hlimit m
  simp only [← List.range_eq_range', Nat.zero_add] at hrun
  exact hrun

/-- What a search collects: of the requested pages the first items with their keys, as many as are
wanted at most, unless one of the pages cannot be read. -/
theorem outcome_searchPages (hlimit : 0 < limit) :
    let search := searchPages key limit minimum fetch [] (List.range count)
    search.outcome = ((List.range search.requests).mapM fetch).map fun _ =>
      (distinct key fetch search.requests).take limit := by
  have hrun := @outcome_eq _ _ _ _ key limit minimum fetch 0 count hlimit
  dsimp only at hrun ⊢
  rw [← List.range_eq_range', Nat.zero_add, ← List.range_eq_range'] at hrun
  exact hrun

/-! ## Listings that are served in pages -/

section

variable {listing : List α} {size : ℕ}

/-- The pages before a page of a listing have its first items. -/
theorem listed_chunks (hfetch : ∀ page < count, fetch page =
    .ok ((listing.drop (size * page)).take size)) (hn : n ≤ count) :
    listed fetch n = listing.take (size * n) := by
  induction n with
  | zero => simp [listed]
  | succ n ih =>
      rw [listed_succ, ih (by omega), pageItems_of_ok (hfetch n hn), Nat.mul_succ, List.take_add]

/-- A page of a listing continues the search when it is full and more items are wanted. -/
theorem continues_chunks (hsize : 0 < size) (hnodup : (listing.map key).Nodup)
    (hfetch : ∀ page < count, fetch page = .ok ((listing.drop (size * page)).take size))
    (hn : n < count) :
    Continues key limit size fetch n ↔
      size * (n + 1) ≤ listing.length ∧ size * (n + 1) < limit := by
  have hitems : pageItems fetch n = (listing.drop (size * n)).take size :=
    pageItems_of_ok (hfetch n hn)
  have hdistinct : ∀ m ≤ count, distinct key fetch m = listing.take (size * m) := by
    intro m hm
    rw [distinct, listed_chunks hfetch hm]
    refine firstSeen_eq_self ?_ fun _ _ => List.not_mem_nil
    exact hnodup.sublist ((List.take_sublist _ _).map key)
  have hwanted : (distinct key fetch (n + 1)).length = min (size * (n + 1)) listing.length := by
    rw [hdistinct (n + 1) hn, List.length_take]
  have hearlier : (distinct key fetch n).length = min (size * n) listing.length := by
    rw [hdistinct n hn.le, List.length_take]
  have hlength : (pageItems fetch n).length = min size (listing.length - size * n) := by
    rw [hitems, List.length_take, List.length_drop]
  have hsucc : size * (n + 1) = size * n + size := Nat.mul_succ size n
  constructor
  · rintro ⟨_, hmin, _, hlt⟩
    rw [hwanted] at hlt
    rw [hlength] at hmin
    omega
  · rintro ⟨hle, hlt⟩
    refine ⟨isOk_iff.mpr ⟨_, hfetch n hn⟩, by omega, ?_, by omega⟩
    rw [hasNew_iff]
    omega

/-- The first items of a listing are collected, up to the limit or the last page, and only the pages
that are needed for them are requested. -/
theorem searchPages_chunks (hlimit : 0 < limit) (hsize : 0 < size)
    (hnodup : (listing.map key).Nodup)
    (hfetch : ∀ page < count, fetch page = .ok ((listing.drop (size * page)).take size)) :
    let search := searchPages key limit size fetch [] (List.range count)
    search.outcome = .ok (listing.take (min limit (size * count))) ∧
      ∀ page, page < search.requests ↔
        page < count ∧ size * page ≤ listing.length ∧ size * page < limit := by
  dsimp only
  have hrequests : ∀ page,
      page < (searchPages key limit size fetch [] (List.range count)).requests ↔
        page < count ∧ size * page ≤ listing.length ∧ size * page < limit := by
    intro page
    rw [requests_searchPages hlimit]
    refine and_congr_right fun hpage => ?_
    constructor
    · intro hall
      cases page with
      | zero => simp [hlimit]
      | succ page =>
          exact (continues_chunks hsize hnodup hfetch (by omega)).mp (hall page (by omega))
    · rintro ⟨hle, hlt⟩ k hk
      have hmul : size * (k + 1) ≤ size * page := Nat.mul_le_mul_left size hk
      exact (continues_chunks hsize hnodup hfetch (by omega)).mpr ⟨by omega, by omega⟩
  refine ⟨?_, hrequests⟩
  have houtcome := @outcome_searchPages _ _ _ _ key limit size fetch count hlimit
  have hlast := hrequests (searchPages key limit size fetch [] (List.range count)).requests
  have hbefore := fun page => (hrequests page).mp
  dsimp only at houtcome
  rw [houtcome]
  generalize (searchPages key limit size fetch [] (List.range count)).requests = r at hlast hbefore
  have hr : r ≤ count := by
    by_contra hlt
    exact lt_irrefl _ (hbefore count (not_le.mp hlt)).1
  obtain ⟨pages, hpages⟩ : ∃ pages, (List.range r).mapM fetch = .ok pages :=
    mapM_isOk_iff.mpr fun page hpage => ⟨_, hfetch page ((List.mem_range.mp hpage).trans_le hr)⟩
  have hmul : size * r ≤ size * count := Nat.mul_le_mul_left size hr
  rw [hpages, distinct, listed_chunks hfetch hr, firstSeen_eq_self
    (hnodup.sublist ((List.take_sublist _ _).map key)) fun _ _ => List.not_mem_nil,
    List.take_take]
  refine congrArg Except.ok (List.take_eq_take_iff.mpr ?_)
  have hstop : ¬(r < count ∧ size * r ≤ listing.length ∧ size * r < limit) :=
    fun h => lt_irrefl r (hlast.mpr h)
  have hcount : r = count → size * r = size * count := fun h => by rw [h]
  omega

end

end

/-! ## Details -/

section

variable {γ : Type} (fetch : ℕ → α → Except ε (Option γ))

/-- The loop over the items; the requests are counted from a number on. -/
def fetchEach (n : ℕ) (collected : List γ) : List α → Search ε γ
  | [] => ⟨.ok collected, 0⟩
  | x :: xs =>
      match fetch n x with
      | .error e => ⟨.error e, 1⟩
      | .ok found => (fetchEach (n + 1) (collected ++ found.toList) xs).after

/-- What the requests for the items come to, if all of them are made. -/
def attempts (n : ℕ) (xs : List α) : List (Except ε (Option γ)) :=
  (xs.zipIdx n).map fun item => fetch item.2 item.1

variable {fetch} {n : ℕ} {collected : List γ} {x : α} {xs : List α}

theorem attempts_cons : attempts fetch n (x :: xs) = fetch n x :: attempts fetch (n + 1) xs :=
  rfl

/-- What is collected: the details that the items have, unless some of them cannot be fetched. -/
theorem outcome_fetchEach :
    (fetchEach fetch n collected xs).outcome =
      ((attempts fetch n xs).mapM id).map fun found => collected ++ found.reduceOption := by
  induction xs generalizing n collected with
  | nil => simp [fetchEach, attempts, Except.map, pure, Except.pure]
  | cons x xs ih =>
      rw [fetchEach, attempts_cons, List.mapM_cons]
      cases fetch n x with
      | error e => rfl
      | ok found =>
          dsimp only
          rw [after_outcome, ih, id, ok_bind]
          cases (attempts fetch (n + 1) xs).mapM id with
          | error e => rfl
          | ok more => cases found <;> simp [Except.map, pure, Except.pure, List.reduceOption]

/-- The loop returns what the details of each item come to. -/
theorem outcome_fetchEach_eq_ok_iff {results : List γ} :
    (fetchEach fetch n [] xs).outcome = .ok results ↔
      ∃ found, List.Forall₂ (fun item detail => fetch item.2 item.1 = .ok detail) (xs.zipIdx n)
        found ∧ found.reduceOption = results := by
  rw [outcome_fetchEach, map_eq_ok_iff]
  simp only [mapM_eq_ok_iff, attempts, List.forall₂_map_left_iff, id, List.nil_append]

theorem isOk_fetchEach_iff :
    (fetchEach fetch n [] xs).outcome.isOk = true ↔
      ∀ item ∈ xs.zipIdx n, (fetch item.2 item.1).isOk = true := by
  rw [outcome_fetchEach, isOk_map, isOk_iff, mapM_isOk_iff, attempts, List.forall_mem_map]
  exact forall₂_congr fun _ _ => isOk_iff.symm

end

/-! ## Keys of details -/

section

variable {ι δ γ : Type} {fetch : ι → Except ε (Option γ)} {found : List (Option γ)}
  {detail : Option γ} {items : List ι} {item : ι} {key : ι → δ} {keyOf : γ → δ}

/-- Every detail that is collected has been fetched for an item. -/
theorem exists_item_of_mem {y : γ}
    (h : List.Forall₂ (fun item detail => fetch item = .ok detail) items found)
    (hy : y ∈ found.reduceOption) : ∃ item ∈ items, fetch item = .ok (some y) := by
  rw [List.reduceOption_mem_iff] at hy
  induction h with
  | nil => contradiction
  | @cons first detail items found hfirst _ ih =>
      rcases List.mem_cons.mp hy with rfl | hy
      · exact ⟨first, List.mem_cons_self, hfirst⟩
      · obtain ⟨item, hitem, hdetail⟩ := ih hy
        exact ⟨item, List.mem_cons_of_mem first hitem, hdetail⟩

/-- The details have the keys of their items, in their order. -/
theorem map_reduceOption_sublist
    (h : List.Forall₂ (fun item detail => fetch item = .ok detail) items found)
    (hkey : ∀ item ∈ items, ∀ y, fetch item = .ok (some y) → keyOf y = key item) :
    (found.reduceOption.map keyOf).Sublist (items.map key) := by
  induction h with
  | nil => exact List.Sublist.refl []
  | @cons item detail items found hdetail _ ih =>
      have hrest := ih fun other hother => hkey other (List.mem_cons_of_mem item hother)
      cases detail with
      | none =>
          rw [List.reduceOption_cons_of_none, List.map_cons]
          exact hrest.cons _
      | some y =>
          rw [List.reduceOption_cons_of_some, List.map_cons, List.map_cons,
            hkey item List.mem_cons_self y hdetail]
          exact hrest.cons_cons _

/-- Among items with different keys, the details have the key of an item exactly if the item has
details. -/
theorem key_mem_iff (h : List.Forall₂ (fun item detail => fetch item = .ok detail) items found)
    (hkey : ∀ item ∈ items, ∀ y, fetch item = .ok (some y) → keyOf y = key item)
    (hnodup : (items.map key).Nodup) (hitem : item ∈ items) (hdetail : fetch item = .ok detail) :
    key item ∈ found.reduceOption.map keyOf ↔ detail.isSome = true := by
  induction h with
  | nil => contradiction
  | @cons first found₁ items found hfirst hrest ih =>
      rw [List.map_cons, List.nodup_cons] at hnodup
      have hkey' : ∀ item ∈ items, ∀ y, fetch item = .ok (some y) → keyOf y = key item :=
        fun other hother => hkey other (List.mem_cons_of_mem first hother)
      rcases List.mem_cons.mp hitem with rfl | hitem
      · rw [hfirst, Except.ok.injEq] at hdetail
        subst hdetail
        cases found₁ with
        | none =>
            rw [List.reduceOption_cons_of_none]
            refine iff_of_false (fun hmem => hnodup.1 ?_) (by simp)
            exact (map_reduceOption_sublist hrest hkey').subset hmem
        | some y =>
            rw [List.reduceOption_cons_of_some, List.map_cons,
              hkey item List.mem_cons_self y hfirst]
            exact iff_of_true List.mem_cons_self rfl
      · have hne : key item ≠ key first :=
          fun heq => hnodup.1 (heq ▸ List.mem_map_of_mem hitem)
        cases found₁ with
        | none =>
            rw [List.reduceOption_cons_of_none]
            exact ih hkey' hnodup.2 hitem
        | some y =>
            rw [List.reduceOption_cons_of_some, List.map_cons, List.mem_cons,
              hkey first List.mem_cons_self y hfirst, or_iff_right hne]
            exact ih hkey' hnodup.2 hitem

end

end Base
