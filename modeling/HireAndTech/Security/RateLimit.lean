import Mathlib

/-!
# Bounded fixed-window rate limiting

The store of `BoundedMemoryRateLimitStore` is one ordered dictionary for all keys: every call
sweeps the expired entries of all keys, moves its own entry to the end and evicts the oldest
entries above the capacity.  While the keys fit into the capacity, none of this shows: every
key sees a counter of its own.

Floating-point arithmetic is exact arithmetic followed by a monotone rounding.

Main results:

- Definition {lit}`BoundedMemoryRateLimitStore.consume`: one request.
- Theorem {lit}`Refines.consume`: one request against the private counters.
- Theorem {lit}`store_refines_counters`: every decision of a run is that of a private
  counter, and no run exceeds the capacity.
-/

namespace HireAndTech
namespace Security

/-! ## Floating-point time -/

/-- Rounding to a floating-point number. -/
structure Rounding where
  round : ℚ → ℚ
  monotone : Monotone round

/-- Arithmetic without rounding. -/
def Rounding.exact : Rounding :=
  ⟨id, monotone_id⟩

/-- `now - started_at`. -/
def Rounding.elapsed (r : Rounding) (now startedAt : ℚ) : ℚ :=
  r.round (now - startedAt)

theorem Rounding.elapsed_mono (r : Rounding) {now now' : ℚ} (h : now ≤ now') (startedAt : ℚ) :
    r.elapsed now startedAt ≤ r.elapsed now' startedAt :=
  r.monotone (sub_le_sub_right h startedAt)

/-- `int(…)` of a number: the fraction is cut off. -/
def truncate (q : ℚ) : ℤ :=
  if 0 ≤ q then ⌊q⌋ else ⌈q⌉

/-- `max(1, int(window_seconds - (now - started_at) + 0.999))`. -/
def retryAfter (r : Rounding) (windowSeconds : ℤ) (now startedAt : ℚ) : ℤ :=
  max 1 (truncate (r.round (r.round (r.round windowSeconds - r.elapsed now startedAt) +
    r.round (999 / 1000))))

/-- Result of consuming one request from a fixed window. -/
structure RateLimitDecision where
  allowed : Bool
  retryAfterSeconds : ℤ
deriving DecidableEq, Repr

/-! ## A private fixed-window counter -/

/-- A window and the requests that it has seen. -/
structure FixedWindow where
  startedAt : ℚ
  count : ℕ
deriving DecidableEq, Repr

namespace FixedWindow

variable (r : Rounding) (limit windowSeconds : ℤ)

/-- The window of a request: the current one until its time has passed, and then a new one. -/
def current (window : Option FixedWindow) (now : ℚ) : FixedWindow :=
  match window with
  | none => ⟨now, 0⟩
  | some w => if windowSeconds ≤ r.elapsed now w.startedAt then ⟨now, 0⟩ else w

/-- One request of a counter: a window admits its first {lit}`limit` requests. -/
def consume (window : Option FixedWindow) (now : ℚ) : RateLimitDecision × FixedWindow :=
  let w := current r windowSeconds window now
  (⟨(w.count + 1 : ℕ) ≤ limit, retryAfter r windowSeconds now w.startedAt⟩,
    ⟨w.startedAt, w.count + 1⟩)

/-- The window after requests at the given times. -/
def after (times : List ℚ) : Option FixedWindow :=
  times.foldl (fun window now => some (consume r limit windowSeconds window now).2) none

theorem after_concat (times : List ℚ) (now : ℚ) :
    after r limit windowSeconds (times ++ [now]) =
      some (consume r limit windowSeconds (after r limit windowSeconds times) now).2 := by
  rw [after, List.foldl_concat]
  rfl

end FixedWindow

/-! ## The store -/

/-- One entry: {lit}`started_at`, {lit}`count` and {lit}`stored_window`. -/
structure Entry where
  startedAt : ℚ
  count : ℕ
  storedWindow : ℤ
deriving DecidableEq, Repr

/-- The ordered dictionary of the store, newest entry first. -/
abbrev Entries := AList fun _ : String => Entry

/-- Store fixed-window counters with strict key-capacity eviction. -/
structure BoundedMemoryRateLimitStore where
  maxKeys : ℕ
  entries : Entries

/-- One call of {lit}`consume`, with the clock reading that it gets. -/
structure Request where
  now : ℚ
  key : String
  limit : ℤ
  windowSeconds : ℤ
deriving DecidableEq, Repr

namespace Entries

variable (r : Rounding)

/-- The window of the entry has passed. -/
def isExpired (now : ℚ) (e : Entry) : Bool :=
  e.storedWindow ≤ r.elapsed now e.startedAt

/-- `expired_keys`. -/
def expiredKeys (now : ℚ) (entries : Entries) : List String :=
  (entries.entries.filter fun e => isExpired r now e.2).map (·.1)

/-- `del self._entries[expired_key]` for every expired key. -/
def sweep (now : ℚ) (entries : Entries) : Entries :=
  (expiredKeys r now entries).foldl (fun entries key => entries.erase key) entries

/-- `popitem(last=False)`. -/
def popitem (entries : Entries) : Entries :=
  ⟨entries.entries.dropLast, entries.nodupKeys.sublist (List.dropLast_sublist _)⟩

/-- `popitem` as long as there are more than {lit}`maxKeys` entries. -/
def evict (maxKeys : ℕ) (entries : Entries) : Entries :=
  popitem^[entries.entries.length - maxKeys] entries

end Entries

namespace BoundedMemoryRateLimitStore

/-- `BoundedMemoryRateLimitStore.__init__`. -/
def new (maxKeys : ℕ) : BoundedMemoryRateLimitStore :=
  ⟨maxKeys, ∅⟩

/-- The popped entry of the key, opened anew when its window has passed. -/
def openedEntry (r : Rounding) (entries : Entries) (request : Request) : Entry :=
  let popped := (entries.lookup request.key).getD ⟨request.now, 0, request.windowSeconds⟩
  if popped.storedWindow ≠ request.windowSeconds ∨
      request.windowSeconds ≤ r.elapsed request.now popped.startedAt then
    { popped with
      startedAt := request.now
      count := 0 }
  else popped

/-- `consume`. -/
def consume (r : Rounding) (s : BoundedMemoryRateLimitStore) (request : Request) :
    RateLimitDecision × BoundedMemoryRateLimitStore :=
  let entries := Entries.sweep r request.now s.entries
  let opened := openedEntry r entries request
  let entry := ⟨opened.startedAt, opened.count + 1, request.windowSeconds⟩
  (⟨(entry.count : ℤ) ≤ request.limit,
      retryAfter r request.windowSeconds request.now entry.startedAt⟩,
    { s with
      entries := Entries.evict s.maxKeys ((entries.erase request.key).insert request.key entry) })

/-- The store after a sequence of requests. -/
def after (r : Rounding) (s : BoundedMemoryRateLimitStore) (requests : List Request) :
    BoundedMemoryRateLimitStore :=
  requests.foldl (fun s request => (s.consume r request).2) s

end BoundedMemoryRateLimitStore

/-! ## Sweeping and evicting -/

section

variable {r : Rounding} {now : ℚ} {entries : Entries} {k : String} {maxKeys : ℕ}

theorem Entries.lookup_foldl_erase (keys : List String) (entries : Entries) (k : String) :
    (keys.foldl (fun entries key => entries.erase key) entries).lookup k =
      if k ∈ keys then none else entries.lookup k := by
  induction keys generalizing entries with
  | nil => simp
  | cons key keys ih =>
      rw [List.foldl_cons, ih]
      by_cases hrest : k ∈ keys
      · simp [hrest]
      · by_cases hkey : k = key
        · subst hkey
          simp [hrest]
        · simp [hrest, hkey, AList.lookup_erase_ne hkey]

theorem Entries.mem_expiredKeys :
    k ∈ Entries.expiredKeys r now entries ↔
      ∃ e, entries.lookup k = some e ∧ Entries.isExpired r now e = true := by
  simp only [Entries.expiredKeys, List.mem_map, List.mem_filter]
  constructor
  · rintro ⟨⟨k', e⟩, ⟨hmem, hexpired⟩, rfl⟩
    exact ⟨e, AList.mem_lookup_iff.mpr hmem, hexpired⟩
  · rintro ⟨e, hlookup, hexpired⟩
    exact ⟨⟨k, e⟩, ⟨AList.mem_lookup_iff.mp hlookup, hexpired⟩, rfl⟩

/-- Sweeping forgets exactly the expired entries. -/
theorem Entries.lookup_sweep :
    (Entries.sweep r now entries).lookup k =
      (entries.lookup k).filter fun e => !Entries.isExpired r now e := by
  rw [Entries.sweep, Entries.lookup_foldl_erase]
  cases hlookup : entries.lookup k with
  | none => simp
  | some e =>
      cases hexpired : Entries.isExpired r now e with
      | true =>
          rw [if_pos (Entries.mem_expiredKeys.mpr ⟨e, hlookup, hexpired⟩)]
          rw [Option.filter_some, hexpired]
          rfl
      | false =>
          have hmem : k ∉ Entries.expiredKeys r now entries := by
            intro hk
            obtain ⟨e', he', hyes⟩ := Entries.mem_expiredKeys.mp hk
            rw [hlookup] at he'
            cases he'
            rw [hexpired] at hyes
            contradiction
          rw [if_neg hmem]
          rw [Option.filter_some, hexpired]
          rfl

theorem Entries.length_popitem_iterate (n : ℕ) (entries : Entries) :
    (Entries.popitem^[n] entries).entries.length = entries.entries.length - n := by
  induction n generalizing entries with
  | zero => rfl
  | succ n ih =>
      rw [Function.iterate_succ_apply, ih, Entries.popitem, List.length_dropLast]
      omega

theorem Entries.length_evict_le : (Entries.evict maxKeys entries).entries.length ≤ maxKeys := by
  rw [Entries.evict, Entries.length_popitem_iterate]
  omega

theorem Entries.popitem_iterate_sublist (n : ℕ) (entries : Entries) :
    (Entries.popitem^[n] entries).entries.Sublist entries.entries := by
  induction n generalizing entries with
  | zero => exact List.Sublist.refl _
  | succ n ih =>
      rw [Function.iterate_succ_apply]
      exact (ih _).trans (List.dropLast_sublist _)

theorem Entries.mem_of_mem_evict (h : k ∈ Entries.evict maxKeys entries) : k ∈ entries := by
  rw [AList.mem_keys] at h ⊢
  exact ((Entries.popitem_iterate_sublist _ entries).map _).subset h

/-- Nothing is evicted while the entries fit. -/
theorem Entries.evict_of_le (h : entries.entries.length ≤ maxKeys) :
    Entries.evict maxKeys entries = entries := by
  rw [Entries.evict, Nat.sub_eq_zero_of_le h]
  rfl

end

/-! ## The refinement -/

/-- The store agrees at time {lit}`t` with the private counters: an entry is the window of its
counter, and a window without an entry has passed. -/
structure Refines (r : Rounding) (windowSeconds : String → ℤ) (t : ℚ) (entries : Entries)
    (windows : String → Option FixedWindow) : Prop where
  entry : ∀ k e, entries.lookup k = some e →
    windows k = some ⟨e.startedAt, e.count⟩ ∧ e.storedWindow = windowSeconds k
  passed : ∀ k w, entries.lookup k = none → windows k = some w →
    windowSeconds k ≤ r.elapsed t w.startedAt

namespace Refines

variable {r : Rounding} {limit windowSeconds : String → ℤ} {t now : ℚ} {entries : Entries}
  {windows : String → Option FixedWindow} {k : String}

theorem initial : Refines r windowSeconds t ∅ fun _ => none where
  entry := by simp
  passed := by simp

/-- Time that passes does not change the agreement. -/
theorem later (h : Refines r windowSeconds t entries windows) (hle : t ≤ now) :
    Refines r windowSeconds now entries windows where
  entry := h.entry
  passed k w hlookup hw := (h.passed k w hlookup hw).trans (r.elapsed_mono hle w.startedAt)

/-- A sweep does not change the agreement. -/
theorem sweep (h : Refines r windowSeconds now entries windows) :
    Refines r windowSeconds now (Entries.sweep r now entries) windows := by
  constructor
  · intro k e hlookup
    rw [Entries.lookup_sweep, Option.filter_eq_some_iff] at hlookup
    exact h.entry k e hlookup.1
  · intro k w hlookup hw
    rw [Entries.lookup_sweep] at hlookup
    cases hold : entries.lookup k with
    | none => exact h.passed k w hold hw
    | some e =>
        obtain ⟨hwindow, hstored⟩ := h.entry k e hold
        rw [hw] at hwindow
        cases hwindow
        rw [hold, Option.filter_eq_none_iff] at hlookup
        simpa [Entries.isExpired, hstored] using hlookup e rfl

/-- The entry of a key after its request. -/
theorem insert (h : Refines r windowSeconds now entries windows) (e : Entry)
    (w : FixedWindow) (hwindow : w = ⟨e.startedAt, e.count⟩)
    (hstored : e.storedWindow = windowSeconds k) :
    Refines r windowSeconds now ((entries.erase k).insert k e)
      (Function.update windows k (some w)) := by
  constructor
  · intro k' e' hlookup
    by_cases hk : k' = k
    · subst hk
      rw [AList.lookup_insert] at hlookup
      cases hlookup
      rw [Function.update_self, hwindow]
      exact ⟨rfl, hstored⟩
    · rw [AList.lookup_insert_ne hk, AList.lookup_erase_ne hk] at hlookup
      rw [Function.update_of_ne hk]
      exact h.entry k' e' hlookup
  · intro k' w' hlookup hw'
    by_cases hk : k' = k
    · subst hk
      rw [AList.lookup_insert] at hlookup
      contradiction
    · rw [AList.lookup_insert_ne hk, AList.lookup_erase_ne hk] at hlookup
      rw [Function.update_of_ne hk] at hw'
      exact h.passed k' w' hlookup hw'

/-- The window that a request finds in the store is that of the private counter. -/
theorem current_eq (h : Refines r windowSeconds now entries windows) (limit : String → ℤ) :
    let opened := BoundedMemoryRateLimitStore.openedEntry r (Entries.sweep r now entries)
      ⟨now, k, limit k, windowSeconds k⟩
    FixedWindow.current r (windowSeconds k) (windows k) now = ⟨opened.startedAt, opened.count⟩ := by
  have hswept := h.sweep
  rw [BoundedMemoryRateLimitStore.openedEntry]
  cases hlookup : (Entries.sweep r now entries).lookup k with
  | none =>
      have hnew : FixedWindow.current r (windowSeconds k) (windows k) now = ⟨now, 0⟩ := by
        cases hw : windows k with
        | none => rfl
        | some w => exact if_pos (hswept.passed k w hlookup hw)
      rw [hnew, Option.getD_none]
      split <;> rfl
  | some e =>
      obtain ⟨hwindow, hstored⟩ := hswept.entry k e hlookup
      have hfresh : ¬windowSeconds k ≤ r.elapsed now e.startedAt := by
        rw [Entries.lookup_sweep, Option.filter_eq_some_iff] at hlookup
        simpa [Entries.isExpired, hstored] using hlookup.2
      rw [hwindow, FixedWindow.current, if_neg hfresh, Option.getD_some,
        if_neg (by simp [hstored, hfresh])]

/-- A request that fits into the capacity is decided like a request of the private counter of
its key, and the store agrees with the counters afterwards. -/
theorem consume {s : BoundedMemoryRateLimitStore}
    (h : Refines r windowSeconds now s.entries windows)
    (hfits : ((Entries.sweep r now s.entries).erase k).entries.length < s.maxKeys) :
    let request : Request := ⟨now, k, limit k, windowSeconds k⟩
    let answer := FixedWindow.consume r (limit k) (windowSeconds k) (windows k) now
    (s.consume r request).1 = answer.1 ∧
      Refines r windowSeconds now (s.consume r request).2.entries
        (Function.update windows k (some answer.2)) := by
  dsimp only [FixedWindow.consume]
  rw [h.current_eq limit]
  constructor
  · rfl
  · rw [BoundedMemoryRateLimitStore.consume, Entries.evict_of_le]
    · exact h.sweep.insert _ _ rfl rfl
    · rw [AList.entries_insert_of_notMem (by simp [AList.mem_erase])]
      exact hfits

end Refines

/-! ## Runs -/

/-- A call for a key, whose limit and window are fixed. -/
structure Call where
  now : ℚ
  key : String
deriving DecidableEq, Repr

section

variable (r : Rounding) (limit windowSeconds : String → ℤ)

/-- The request of a call. -/
def Call.request (call : Call) : Request :=
  ⟨call.now, call.key, limit call.key, windowSeconds call.key⟩

/-- The private counter of a key after the calls for that key. -/
def privateWindow (calls : List Call) (k : String) : Option FixedWindow :=
  FixedWindow.after r (limit k) (windowSeconds k)
    ((calls.filter (·.key = k)).map (·.now))

/-- The store after a sequence of calls. -/
def storeAfter (maxKeys : ℕ) (calls : List Call) : BoundedMemoryRateLimitStore :=
  (BoundedMemoryRateLimitStore.new maxKeys).after r (calls.map (Call.request limit windowSeconds))

variable {r limit windowSeconds} {maxKeys : ℕ}

theorem privateWindow_concat (calls : List Call) (call : Call) :
    privateWindow r limit windowSeconds (calls ++ [call]) =
      Function.update (privateWindow r limit windowSeconds calls) call.key
        (some (FixedWindow.consume r (limit call.key) (windowSeconds call.key)
          (privateWindow r limit windowSeconds calls call.key) call.now).2) := by
  funext k
  by_cases hk : k = call.key
  · subst hk
    rw [Function.update_self, privateWindow, List.filter_append, List.map_append,
      List.filter_singleton]
    simp only [decide_true, cond_true, List.map_cons, List.map_nil]
    exact FixedWindow.after_concat r _ _ _ _
  · rw [Function.update_of_ne hk, privateWindow, List.filter_append, List.filter_singleton]
    simp [Ne.symm hk, privateWindow]

theorem storeAfter_concat (calls : List Call) (call : Call) :
    storeAfter r limit windowSeconds maxKeys (calls ++ [call]) =
      ((storeAfter r limit windowSeconds maxKeys calls).consume r
        (call.request limit windowSeconds)).2 := by
  rw [storeAfter, BoundedMemoryRateLimitStore.after, List.map_append, List.map_singleton,
    List.foldl_concat]
  rfl

theorem BoundedMemoryRateLimitStore.after_maxKeys (s : BoundedMemoryRateLimitStore)
    (requests : List Request) : (s.after r requests).maxKeys = s.maxKeys := by
  induction requests generalizing s with
  | nil => rfl
  | cons request requests ih => exact ih _

/-- No request makes the store hold more entries than its capacity. -/
theorem BoundedMemoryRateLimitStore.length_after_le (requests : List Request) :
    ((new maxKeys).after r requests).entries.entries.length ≤ maxKeys := by
  induction requests using List.reverseRecOn with
  | nil => exact Nat.zero_le _
  | append_singleton requests request _ =>
      have hmax : ((new maxKeys).after r requests).maxKeys = maxKeys := after_maxKeys _ _
      rw [after, List.foldl_concat, ← after]
      conv_rhs => rw [← hmax]
      exact Entries.length_evict_le

/-- A request adds no key but its own. -/
theorem BoundedMemoryRateLimitStore.mem_consume {s : BoundedMemoryRateLimitStore}
    {request : Request} {k : String} (h : k ∈ (s.consume r request).2.entries) :
    k = request.key ∨ k ∈ s.entries := by
  have hevict : k ∈ ((Entries.sweep r request.now s.entries).erase request.key).insert
      request.key _ := Entries.mem_of_mem_evict h
  rw [AList.mem_insert, AList.mem_erase] at hevict
  rcases hevict with hkey | ⟨_, hswept⟩
  · exact Or.inl hkey
  · rw [← AList.lookup_isSome, Entries.lookup_sweep] at hswept
    exact Or.inr (AList.lookup_isSome.mp (Option.isSome_of_isSome_filter _ _ hswept))

/-- The keys of the store are keys of calls. -/
theorem mem_storeAfter {calls : List Call} {k : String}
    (h : k ∈ (storeAfter r limit windowSeconds maxKeys calls).entries) :
    k ∈ calls.map (·.key) := by
  induction calls using List.reverseRecOn with
  | nil =>
      simp [storeAfter, BoundedMemoryRateLimitStore.after, BoundedMemoryRateLimitStore.new] at h
  | append_singleton calls call ih =>
      rw [storeAfter_concat] at h
      rw [List.map_append, List.mem_append]
      rcases BoundedMemoryRateLimitStore.mem_consume h with hkey | hold
      · exact Or.inr (by simp [hkey, Call.request])
      · exact Or.inl (ih hold)

/-- The keys of a run that are in the store next to the key of a request leave room for it. -/
theorem room_for_request {calls rest : List Call} {call : Call}
    (hkeys : ((calls ++ call :: rest).map (·.key)).dedup.length ≤ maxKeys) :
    ((Entries.sweep r call.now (storeAfter r limit windowSeconds maxKeys calls).entries).erase
      call.key).entries.length < maxKeys := by
  set entries := (Entries.sweep r call.now
    (storeAfter r limit windowSeconds maxKeys calls).entries).erase call.key
  have hnodup : (call.key :: entries.keys).Nodup := by
    refine List.nodup_cons.mpr ⟨?_, entries.keys_nodup⟩
    rw [← AList.mem_keys]
    simp [entries, AList.mem_erase]
  have hsubset : call.key :: entries.keys ⊆ ((calls ++ call :: rest).map (·.key)).dedup := by
    intro k hk
    rw [List.mem_dedup]
    rcases List.mem_cons.mp hk with rfl | hk
    · simp
    · rw [← AList.mem_keys, AList.mem_erase, ← AList.lookup_isSome, Entries.lookup_sweep] at hk
      have hold := mem_storeAfter (AList.lookup_isSome.mp (Option.isSome_of_isSome_filter _ _ hk.2))
      rw [List.map_append]
      exact List.mem_append_left _ hold
  have hlength := (List.subperm_of_subset hnodup hsubset).length_le
  have hentries : entries.keys.length = entries.entries.length := List.length_map _
  rw [List.length_cons, hentries] at hlength
  omega

/-- The store of a run agrees with the private counters. -/
theorem refines_storeAfter {calls rest : List Call} {t : ℚ}
    (hclock : ((calls.map (·.now)) ++ [t]).Pairwise (· ≤ ·))
    (hkeys : ((calls ++ rest).map (·.key)).dedup.length ≤ maxKeys) :
    Refines r windowSeconds t (storeAfter r limit windowSeconds maxKeys calls).entries
      (privateWindow r limit windowSeconds calls) := by
  induction calls using List.reverseRecOn generalizing rest t with
  | nil => exact Refines.initial
  | append_singleton calls call ih =>
      rw [List.append_assoc, List.singleton_append] at hkeys
      rw [List.map_append, List.map_singleton, List.pairwise_append] at hclock
      obtain ⟨hbefore, _, hlater⟩ := hclock
      have hle : call.now ≤ t := hlater call.now (by simp) t (by simp)
      have hmax : (storeAfter r limit windowSeconds maxKeys calls).maxKeys = maxKeys :=
        BoundedMemoryRateLimitStore.after_maxKeys _ _
      have hrefines := ih hbefore hkeys
      rw [storeAfter_concat, privateWindow_concat]
      exact (hrefines.consume (by rw [hmax]; exact room_for_request hkeys)).2.later hle

end

/-- While the calls have at most {lit}`maxKeys` keys and the clock does not go back, every call
is decided like a call of a private counter that is fed only the calls of its own key.  In
every run the store holds at most {lit}`maxKeys` entries. -/
theorem store_refines_counters (r : Rounding) (maxKeys : ℕ) :
    (∀ (limit windowSeconds : String → ℤ) (before : List Call) (call : Call) (rest : List Call),
      ((before ++ call :: rest).map (·.now)).Pairwise (· ≤ ·) →
      ((before ++ call :: rest).map (·.key)).dedup.length ≤ maxKeys →
      ((storeAfter r limit windowSeconds maxKeys before).consume r
          (call.request limit windowSeconds)).1 =
        (FixedWindow.consume r (limit call.key) (windowSeconds call.key)
          (privateWindow r limit windowSeconds before call.key) call.now).1) ∧
      ∀ requests : List Request,
        ((BoundedMemoryRateLimitStore.new maxKeys).after r requests).entries.entries.length ≤
          maxKeys := by
  refine ⟨fun limit windowSeconds before call rest hclock hkeys => ?_, fun requests =>
    BoundedMemoryRateLimitStore.length_after_le requests⟩
  have hprefix : (before.map (·.now) ++ [call.now]).Pairwise (· ≤ ·) := by
    refine hclock.sublist ?_
    rw [List.map_append, List.map_cons]
    exact List.Sublist.append_left (List.singleton_sublist.mpr List.mem_cons_self) _
  have hmax : (storeAfter r limit windowSeconds maxKeys before).maxKeys = maxKeys :=
    BoundedMemoryRateLimitStore.after_maxKeys _ _
  have hrefines : Refines r windowSeconds call.now _ (privateWindow r limit windowSeconds before) :=
    refines_storeAfter hprefix hkeys
  exact (hrefines.consume (by rw [hmax]; exact room_for_request hkeys)).1

/-- Two requests of one key in one window of length 10, and two of another key around them. -/
theorem store_refines_counters_two :
    ((storeAfter .exact (fun _ => 1) (fun _ => 10) 2
        [⟨0, "a"⟩, ⟨3, "b"⟩, ⟨4, "a"⟩]).consume .exact
          (Call.request (fun _ => 1) (fun _ => 10) ⟨11, "a"⟩)).1 = ⟨true, 10⟩ := by
  rw [(store_refines_counters .exact 2).1 (fun _ => 1) (fun _ => 10)
    [⟨0, "a"⟩, ⟨3, "b"⟩, ⟨4, "a"⟩] ⟨11, "a"⟩ [] (by decide) (by decide)]
  decide +kernel

end Security
end HireAndTech
