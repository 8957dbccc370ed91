import HireAndTech.Security.RateLimit

/-!
# Waiting after a denial

A denied call is told how many seconds to wait.  The number is the time left in the window of its
key, rounded up by adding 0.999 and cutting off the fraction, so a time left that exceeds a whole
number of seconds by less than a thousandth is rounded down.

Main results:

- Theorem {lit}`le_retryAfter_iff`: when the number covers the time left.
- Theorem {lit}`lookup_after_of_untouched`: calls for other keys do not change an entry.
- Theorem {lit}`retry_after_suffices_iff`: when waiting is enough.
-/

namespace HireAndTech
namespace Security

/-! ## Rounding -/

/-- The time left is rounded up. -/
def RoundsUp (left : ℚ) : Prop :=
  left ≤ 1 ∨ Int.fract left = 0 ∨ 1 / 1000 ≤ Int.fract left

instance (left : ℚ) : Decidable (RoundsUp left) :=
  inferInstanceAs (Decidable (_ ∨ _ ∨ _))

/-- The number of seconds covers the time left when that is rounded up. -/
theorem le_retryAfter_iff (windowSeconds : ℤ) (now startedAt : ℚ)
    (hleft : 0 < windowSeconds - (now - startedAt)) :
    (windowSeconds - (now - startedAt) : ℚ) ≤
        retryAfter .exact windowSeconds now startedAt ↔
      RoundsUp (windowSeconds - (now - startedAt)) := by
  set left : ℚ := windowSeconds - (now - startedAt) with hdef
  have hretry : retryAfter .exact windowSeconds now startedAt = max 1 ⌊left + 999 / 1000⌋ := by
    have hpos : 0 ≤ left + 999 / 1000 := by linarith
    simp only [retryAfter, Rounding.exact, Rounding.elapsed, id_eq, ← hdef, truncate, if_pos hpos]
  have hsplit := Int.floor_add_fract left
  have hnonneg := Int.fract_nonneg left
  have hlt := Int.fract_lt_one left
  rw [hretry, Int.cast_max, le_max_iff, Int.cast_one]
  unfold RoundsUp
  refine or_congr Iff.rfl ?_
  by_cases hzero : Int.fract left = 0
  · have hfloor : ⌊left⌋ ≤ ⌊left + 999 / 1000⌋ := Int.floor_mono (by linarith)
    have hcast : (⌊left⌋ : ℚ) ≤ ⌊left + 999 / 1000⌋ := by exact_mod_cast hfloor
    constructor
    · intro _
      exact Or.inl hzero
    · intro _
      linarith
  · have hpos : 0 < Int.fract left := lt_of_le_of_ne hnonneg (Ne.symm hzero)
    constructor
    · intro hle
      right
      by_contra hsmall
      have hsum : ⌊left + 999 / 1000⌋ = ⌊left⌋ := by
        rw [Int.floor_eq_iff]
        constructor <;> linarith
      rw [hsum] at hle
      linarith
    · intro hfract
      have hlarge : 1 / 1000 ≤ Int.fract left := hfract.resolve_left hzero
      have hnext : ⌊left⌋ + 1 ≤ ⌊left + 999 / 1000⌋ := by
        rw [Int.le_floor]
        push_cast
        linarith
      have hcast : (⌊left⌋ + 1 : ℚ) ≤ ⌊left + 999 / 1000⌋ := by exact_mod_cast hnext
      linarith

/-! ## The entry of a key -/

section

variable {r : Rounding} {entries : Entries} {k : String} {e : Entry} {maxKeys : ℕ}

theorem Entries.lookup_of_lookup_evict (h : (Entries.evict maxKeys entries).lookup k = some e) :
    entries.lookup k = some e := by
  rw [← Option.mem_def, AList.mem_lookup_iff] at h ⊢
  exact (Entries.popitem_iterate_sublist _ entries).subset h

/-- A call for another key keeps the entry of a key or evicts it. -/
theorem BoundedMemoryRateLimitStore.lookup_of_lookup_consume {s : BoundedMemoryRateLimitStore}
    {request : Request} (hk : k ≠ request.key)
    (h : (s.consume r request).2.entries.lookup k = some e) : s.entries.lookup k = some e := by
  have hinsert := Entries.lookup_of_lookup_evict h
  rw [AList.lookup_insert_ne hk, AList.lookup_erase_ne hk, Entries.lookup_sweep,
    Option.filter_eq_some_iff] at hinsert
  exact hinsert.1

/-- Calls for other keys do not change an entry. -/
theorem lookup_after_of_untouched {s : BoundedMemoryRateLimitStore} {requests : List Request}
    (hkeys : ∀ q ∈ requests, q.key ≠ k) (h : (s.after r requests).entries.lookup k = some e) :
    s.entries.lookup k = some e := by
  induction requests generalizing s with
  | nil => exact h
  | cons request requests ih =>
      have hrest := ih (fun q hq => hkeys q (List.mem_cons_of_mem _ hq)) h
      have hne := hkeys request List.mem_cons_self
      exact BoundedMemoryRateLimitStore.lookup_of_lookup_consume (Ne.symm hne) hrest

/-- Taking the oldest entries away keeps the newest one. -/
theorem Entries.head?_popitem_iterate {n : ℕ} (hn : n < entries.entries.length) :
    (Entries.popitem^[n] entries).entries.head? = entries.entries.head? := by
  induction n with
  | zero => rfl
  | succ n ih =>
      have hlength := Entries.length_popitem_iterate n entries
      rw [Function.iterate_succ_apply', Entries.popitem, List.head?_dropLast, if_pos (by omega)]
      exact ih (by omega)

/-- The newest entry stays in a store that has room for one. -/
theorem Entries.lookup_evict_insert (hroom : 1 ≤ maxKeys) (hk : k ∉ entries) :
    (Entries.evict maxKeys (entries.insert k e)).lookup k = some e := by
  have hentries : (entries.insert k e).entries = ⟨k, e⟩ :: entries.entries :=
    AList.entries_insert_of_notMem hk
  have hfew : (entries.insert k e).entries.length - maxKeys <
      (entries.insert k e).entries.length := by
    rw [hentries, List.length_cons]
    omega
  have hhead := Entries.head?_popitem_iterate hfew
  rw [hentries, List.head?_cons, ← hentries] at hhead
  rw [← Option.mem_def, AList.mem_lookup_iff]
  exact List.mem_of_head? hhead

end

/-! ## Denials -/

namespace BoundedMemoryRateLimitStore

variable {s : BoundedMemoryRateLimitStore} {request : Request}

/-- A denied call has found an entry of its key whose window goes on. -/
theorem entry_of_denied (hlimit : 1 ≤ request.limit)
    (hdenied : (s.consume .exact request).1.allowed = false) :
    ∃ e, s.entries.lookup request.key = some e ∧ e.storedWindow = request.windowSeconds ∧
      request.now - e.startedAt < request.windowSeconds ∧ request.limit < e.count + 1 ∧
      openedEntry .exact (Entries.sweep .exact request.now s.entries) request = e := by
  simp only [consume, decide_eq_false_iff_not, not_le] at hdenied
  have hcount : (openedEntry .exact (Entries.sweep .exact request.now s.entries) request).count ≠
      0 := by
    intro hzero
    rw [hzero] at hdenied
    push_cast at hdenied
    omega
  cases hlookup : (Entries.sweep .exact request.now s.entries).lookup request.key with
  | none =>
      exfalso
      apply hcount
      rw [openedEntry, hlookup]
      dsimp only [Option.getD_none]
      split <;> rfl
  | some e =>
      rw [openedEntry, hlookup] at hcount hdenied ⊢
      dsimp only [Option.getD_some] at hcount hdenied ⊢
      split at hcount
      next => exact absurd rfl hcount
      next hfresh =>
        rw [if_neg hfresh] at hdenied ⊢
        rw [not_or, not_not, not_le] at hfresh
        rw [Entries.lookup_sweep, Option.filter_eq_some_iff] at hlookup
        refine ⟨e, hlookup.1, hfresh.1, hfresh.2, ?_, rfl⟩
        exact_mod_cast hdenied

/-- A call that finds no entry of its key is allowed. -/
theorem allowed_of_missing {r : Rounding} (hlimit : 1 ≤ request.limit)
    (hmissing : (Entries.sweep r request.now s.entries).lookup request.key = none) :
    (s.consume r request).1.allowed = true := by
  have hcount : (openedEntry r (Entries.sweep r request.now s.entries) request).count = 0 := by
    rw [openedEntry, hmissing]
    dsimp only [Option.getD_none]
    split <;> rfl
  simp only [consume, hcount, decide_eq_true_eq]
  exact_mod_cast hlimit

/-- A call that finds an entry of its key with the limit used up is denied while the window goes
on. -/
theorem denied_of_entry {r : Rounding} {e : Entry} (hlookup : s.entries.lookup request.key = some e)
    (hstored : e.storedWindow = request.windowSeconds)
    (hfresh : r.elapsed request.now e.startedAt < request.windowSeconds)
    (hcount : request.limit < e.count + 1) : (s.consume r request).1.allowed = false := by
  have hswept : (Entries.sweep r request.now s.entries).lookup request.key = some e := by
    rw [Entries.lookup_sweep, hlookup, Option.filter_eq_some_iff]
    refine ⟨rfl, ?_⟩
    simpa [Entries.isExpired, hstored] using hfresh
  have hopened : openedEntry r (Entries.sweep r request.now s.entries) request = e := by
    rw [openedEntry, hswept, Option.getD_some, if_neg]
    rw [not_or, not_not, not_le]
    exact ⟨hstored, hfresh⟩
  simp only [consume, hopened, decide_eq_false_iff_not, not_le]
  exact_mod_cast hcount

end BoundedMemoryRateLimitStore

/-! ## Waiting -/

/-- The time left in the window of the key of a request. -/
def timeLeft (s : BoundedMemoryRateLimitStore) (request : Request) : ℚ :=
  request.windowSeconds -
    (request.now - ((s.entries.lookup request.key).map (·.startedAt)).getD request.now)

/-- A call of the same key after at least the given number of seconds, with no call of that key in
between. -/
structure NextCall (request : Request) (seconds : ℤ) (between : List Request) (next : Request) :
    Prop where
  untouched : ∀ q ∈ between, q.key ≠ request.key
  key : next.key = request.key
  window : next.windowSeconds = request.windowSeconds
  limit : 1 ≤ next.limit
  clock : ((request :: between ++ [next]).map (·.now)).Pairwise (· ≤ ·)
  waited : request.now + seconds ≤ next.now

/-- In every run, the next call after the number of seconds that a denied call is told is allowed
exactly when the time left at the denied call is rounded up. -/
theorem retry_after_suffices_iff (maxKeys : ℕ) (before : List Request) (request : Request)
    (hlimit : 1 ≤ request.limit)
    (hdenied : (((BoundedMemoryRateLimitStore.new maxKeys).after .exact before).consume .exact
      request).1.allowed = false) :
    let s := (BoundedMemoryRateLimitStore.new maxKeys).after .exact before
    let denial := s.consume .exact request
    (∀ between next, NextCall request denial.1.retryAfterSeconds between next →
        ((denial.2.after .exact between).consume .exact next).1.allowed = true) ↔
      RoundsUp (timeLeft s request) := by
  intro s denial
  obtain ⟨e, hlookup, hstored, hfresh, hcount, hopened⟩ :=
    BoundedMemoryRateLimitStore.entry_of_denied hlimit hdenied
  have hleft : timeLeft s request = request.windowSeconds - (request.now - e.startedAt) := by
    rw [timeLeft, hlookup]
    rfl
  have hseconds : denial.1.retryAfterSeconds =
      retryAfter .exact request.windowSeconds request.now e.startedAt := by
    simp only [denial, s, BoundedMemoryRateLimitStore.consume, hopened]
  have hcovers := le_retryAfter_iff request.windowSeconds request.now e.startedAt
    (sub_pos.mpr hfresh)
  rw [hleft, ← hcovers, ← hseconds]
  have hentries : denial.2.entries = Entries.evict s.maxKeys
      (((Entries.sweep .exact request.now s.entries).erase request.key).insert request.key
        ⟨e.startedAt, e.count + 1, request.windowSeconds⟩) := by
    simp only [denial, s, BoundedMemoryRateLimitStore.consume, hopened]
  constructor
  · intro hall
    by_contra hshort
    rw [not_le] at hshort
    -- the next call comes as soon as the denial allows, with no other call before it
    have hnext : NextCall request denial.1.retryAfterSeconds []
        { request with now := request.now + denial.1.retryAfterSeconds } :=
      { untouched := by simp
        key := rfl
        window := rfl
        limit := hlimit
        clock := by
          have hone : 1 ≤ denial.1.retryAfterSeconds := le_max_left _ _
          have hcast : (1 : ℚ) ≤ denial.1.retryAfterSeconds := by exact_mod_cast hone
          simp only [List.cons_append, List.nil_append, List.map_cons, List.map_nil,
            List.pairwise_cons, List.mem_singleton, forall_eq, List.not_mem_nil,
            IsEmpty.forall_iff, implies_true, List.Pairwise.nil, and_true]
          linarith
        waited := le_rfl }
    have hallowed := hall [] _ hnext
    have hroom : 1 ≤ s.maxKeys := by
      have hlength : s.entries.entries.length ≤ maxKeys :=
        BoundedMemoryRateLimitStore.length_after_le before
      have hmax : s.maxKeys = maxKeys := BoundedMemoryRateLimitStore.after_maxKeys _ _
      rw [hmax]
      rw [← Option.mem_def, AList.mem_lookup_iff] at hlookup
      exact (List.length_pos_of_mem hlookup).trans_le hlength
    have hkept : denial.2.entries.lookup request.key =
        some ⟨e.startedAt, e.count + 1, request.windowSeconds⟩ := by
      rw [hentries]
      exact Entries.lookup_evict_insert hroom (by simp [AList.mem_erase])
    have hgoes : Rounding.exact.elapsed (request.now + denial.1.retryAfterSeconds) e.startedAt <
        request.windowSeconds := by
      dsimp only [Rounding.elapsed, Rounding.exact, id_eq]
      linarith
    have hfull : request.limit < (e.count + 1 : ℕ) + 1 := by
      push_cast
      omega
    have hdeniedNext : (denial.2.consume .exact
        { request with now := request.now + denial.1.retryAfterSeconds }).1.allowed = false :=
      BoundedMemoryRateLimitStore.denied_of_entry hkept rfl hgoes hfull
    rw [BoundedMemoryRateLimitStore.after, List.foldl_nil, hdeniedNext] at hallowed
    contradiction
  · intro hcovered between next hnext
    apply BoundedMemoryRateLimitStore.allowed_of_missing hnext.limit
    rw [Entries.lookup_sweep, Option.filter_eq_none_iff]
    intro e' he'
    rw [hnext.key] at he'
    have hdenial := lookup_after_of_untouched hnext.untouched he'
    rw [hentries] at hdenial
    have hinsert := Entries.lookup_of_lookup_evict hdenial
    rw [AList.lookup_insert, Option.some.injEq] at hinsert
    subst hinsert
    have hwaited := hnext.waited
    have hpassed : (request.windowSeconds : ℚ) ≤ next.now - e.startedAt := by linarith
    rw [Bool.not_eq_true, Bool.not_eq_false', Entries.isExpired, decide_eq_true_eq]
    exact hpassed

/-- A call is denied when half a millisecond of its second has passed, and the call after the
number of seconds that it is told is denied again. -/
theorem waits_too_short :
    let s := (BoundedMemoryRateLimitStore.new 10).after .exact [⟨0, "auth:203.0.113.7", 1, 60⟩]
    let request : Request := ⟨1999 / 2000, "auth:203.0.113.7", 1, 60⟩
    let denial := s.consume .exact request
    let next : Request := ⟨119999 / 2000, "auth:203.0.113.7", 1, 60⟩
    denial.1 = ⟨false, 59⟩ ∧ NextCall request denial.1.retryAfterSeconds [] next ∧
      ((denial.2.after .exact []).consume .exact next).1.allowed = false := by
  refine ⟨by decide +kernel, ⟨by simp, rfl, rfl, by decide, ?_, ?_⟩, by decide +kernel⟩
  · decide +kernel
  · decide +kernel

/-- A call that is denied after four seconds of ten, and the next one after six more. -/
theorem retry_after_suffices_iff_ten :
    (((((BoundedMemoryRateLimitStore.new 10).after .exact [⟨0, "auth:203.0.113.7", 1, 10⟩]).consume
      .exact ⟨4, "auth:203.0.113.7", 1, 10⟩).2.after .exact
        [⟨5, "auth:203.0.113.8", 1, 10⟩]).consume .exact
          ⟨10, "auth:203.0.113.7", 1, 10⟩).1.allowed = true := by
  apply (retry_after_suffices_iff 10 [⟨0, "auth:203.0.113.7", 1, 10⟩]
    ⟨4, "auth:203.0.113.7", 1, 10⟩ (by decide) (by decide +kernel)).mpr
  · decide +kernel
  · exact ⟨by simp, rfl, rfl, by decide, by decide, by decide +kernel⟩

end Security
end HireAndTech
