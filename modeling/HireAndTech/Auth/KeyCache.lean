import HireAndTech.Auth.Verifier

/-!
# The cache of signing keys

Whoever has the lock sees the state that it protects as it left it.  The cache holds the keys of
the latest document that has been fetched and parsed, and the time of the latest refresh for an
unknown key.

Main results:

- Theorem {lit}`verifierMachine_sound`: the contract of a call.
- Theorem {lit}`jwks_cache_safe`: the keys in use, and the cache, in every run.
- Theorem {lit}`jwks_fetches_bounded`: the number of fetches in a span of time.
-/

namespace HireAndTech
namespace Auth

open Interleaving Prog

variable {Key : Type} (env : Env Key)

/-! ## The protected state -/

/-- A fetch that a lookup has made, with success. -/
def Fetch.isLookup (fetch : Fetch) : Bool :=
  !fetch.unknownKid && fetch.succeeded

/-- A fetch that a lookup has made, without success. -/
def Fetch.isFailedLookup (fetch : Fetch) : Bool :=
  !fetch.unknownKid && !fetch.succeeded

/-- The clock readings of the fetches for unknown keys. -/
def Shared.refetches (s : Shared Key) : List ℚ :=
  (s.fetches.filter (·.unknownKid)).map (·.readAt)

/-- The successful fetches of lookups. -/
def Shared.lookupFetches (s : Shared Key) : List Fetch :=
  s.fetches.filter (·.isLookup)

/-- At least a span of time lies between two readings, the later of which comes first. -/
def Apart (gap later earlier : ℚ) : Prop :=
  earlier ≤ later ∧ gap ≤ later - earlier

/-- The cache holds the latest document, documents parse, refreshes for unknown keys are the
cooldown apart and make at most one fetch each, and the successful fetches of lookups are the time
to live apart. -/
structure Shared.Sane (now : ℚ) (s : Shared Key) : Prop where
  keys : s.cache.keys = (s.documents.head?.map (·.keys)).getD ∅
  fetchedAt : s.cache.fetchedAt = s.documents.head?.map (·.fetchedAt)
  last : s.cache.lastUnknownKidRefreshAt = s.refreshes.head?
  parsed : ∀ d ∈ s.documents, parseKeys env d.document = some d.keys
  past : ∀ d ∈ s.documents, d.fetchedAt ≤ now
  refreshed : ∀ r ∈ s.refreshes, r ≤ now
  refreshes : s.refreshes.Pairwise (Apart env.unknownKidRefreshCooldownSeconds)
  refetches : s.refetches.Sublist s.refreshes
  known : ∀ f ∈ s.lookupFetches, ∃ d, s.documents.head? = some d ∧ f.readAt ≤ d.fetchedAt
  lookups : s.lookupFetches.Pairwise fun f f' => env.cacheTtlSeconds ≤ f.readAt - f'.readAt

variable {env} {now now' : ℚ} {s : Shared Key} {i j : CallId} {w w' : World Key}

theorem Apart.trans {gap r₁ r₂ r₃ : ℚ} (h : Apart gap r₁ r₂) (h' : r₃ ≤ r₂) : Apart gap r₁ r₃ :=
  ⟨h'.trans h.1, by linarith [h.2]⟩

theorem Shared.Sane.wait (h : s.Sane env now) (hnow : now ≤ now') : s.Sane env now' :=
  { h with
    past := fun d hd => (h.past d hd).trans hnow
    refreshed := fun r hr => (h.refreshed r hr).trans hnow }

/-- A parsed document has keys. -/
theorem parseKeys_nonempty {document : JwksDocument} {keys : Keys Key}
    (h : parseKeys env document = some keys) : keys.entries.isEmpty = false := by
  unfold parseKeys at h
  split at h
  · simpa using (Option.filter_eq_some_iff.mp h).2
  · contradiction

/-- A refresh for an unknown key that is not on cooldown. -/
theorem Shared.Sane.beginRefresh (h : s.Sane env now) {reading : ℚ} (hreading : reading ≤ now)
    (hlast : ∀ r, s.cache.lastUnknownKidRefreshAt = some r →
      Apart env.unknownKidRefreshCooldownSeconds reading r) :
    (s.beginRefresh reading).Sane env now where
  keys := h.keys
  fetchedAt := h.fetchedAt
  last := rfl
  parsed := h.parsed
  past := h.past
  refreshed r hr := by
    rcases List.mem_cons.mp hr with rfl | hr
    · exact hreading
    · exact h.refreshed r hr
  refreshes := by
    have hhead := h.last
    have hpairs := h.refreshes
    rw [Shared.beginRefresh]
    cases hrefreshes : s.refreshes with
    | nil => exact List.pairwise_singleton _ _
    | cons r rest =>
        rw [hrefreshes] at hhead hpairs
        have hr : Apart env.unknownKidRefreshCooldownSeconds reading r := hlast r hhead
        refine List.pairwise_cons.mpr ⟨fun r' hr' => ?_, hpairs⟩
        rcases List.mem_cons.mp hr' with rfl | hr'
        · exact hr
        · exact hr.trans ((List.pairwise_cons.mp hpairs).1 r' hr').1
  refetches := h.refetches.cons _
  known := h.known
  lookups := h.lookups

/-- When a section fetches that has read the clock at {lit}`reading`: it refreshes for an unknown
key for the first time, or its lookup has found the cache stale. -/
def Shared.MayFetch (env : Env Key) (s : Shared Key) (reading : ℚ) (unknownKid : Bool) : Prop :=
  if unknownKid then s.refreshes.head? = some reading ∧ s.refetches.Sublist s.refreshes.tail
  else isStale env s.cache reading = true

/-- A fetch for an unknown key belongs to the latest refresh. -/
theorem refetches_sublist {reading : ℚ} {unknownKid succeeded : Bool} (h : s.Sane env now)
    (hmay : s.MayFetch env reading unknownKid) :
    (((⟨reading, unknownKid, succeeded⟩ :: s.fetches).filter (·.unknownKid)).map
      (·.readAt)).Sublist s.refreshes := by
  cases unknownKid with
  | false => exact h.refetches
  | true =>
      obtain ⟨hhead, htail⟩ := hmay
      have hrefreshes : s.refreshes = reading :: s.refreshes.tail :=
        List.eq_cons_of_mem_head? hhead
      rw [hrefreshes]
      exact htail.cons_cons reading

theorem Shared.Sane.failFetch {reading : ℚ} {unknownKid : Bool} (h : s.Sane env now)
    (hmay : s.MayFetch env reading unknownKid) :
    (s.failFetch (Fetch.mk reading unknownKid)).Sane env now := by
  have hlookups : (s.failFetch (Fetch.mk reading unknownKid)).lookupFetches = s.lookupFetches := by
    simp [Shared.failFetch, Shared.lookupFetches, Fetch.isLookup]
  exact
    { keys := h.keys
      fetchedAt := h.fetchedAt
      last := h.last
      parsed := h.parsed
      past := h.past
      refreshed := h.refreshed
      refreshes := h.refreshes
      refetches := refetches_sublist h hmay
      known := hlookups ▸ h.known
      lookups := hlookups ▸ h.lookups }

/-- A stale cache is a time to live older than the reading. -/
theorem Shared.Sane.stale (h : s.Sane env now) {reading : ℚ}
    (hstale : isStale env s.cache reading = true) {d : Parsed Key}
    (hd : s.documents.head? = some d) : env.cacheTtlSeconds ≤ reading - d.fetchedAt := by
  have hkeys : s.cache.keys = d.keys := by rw [h.keys, hd, Option.map_some, Option.getD_some]
  have hfetchedAt : s.cache.fetchedAt = some d.fetchedAt := by rw [h.fetchedAt, hd, Option.map_some]
  have hnonempty : d.keys.entries.isEmpty = false :=
    parseKeys_nonempty (h.parsed d (List.mem_of_mem_head? hd))
  simpa [isStale, hfetchedAt, hkeys, hnonempty] using hstale

theorem Shared.Sane.store {reading : ℚ} {unknownKid : Bool} (h : s.Sane env now)
    (hmay : s.MayFetch env reading unknownKid) (hreading : reading ≤ now) {document : JwksDocument}
    {keys : Keys Key} (hparse : parseKeys env document = some keys) :
    (s.store (Fetch.mk reading unknownKid) ⟨i, document, keys, now⟩).Sane env now where
  keys := rfl
  fetchedAt := rfl
  last := h.last
  parsed d hd := by
    rcases List.mem_cons.mp hd with rfl | hd
    · exact hparse
    · exact h.parsed d hd
  past d hd := by
    rcases List.mem_cons.mp hd with rfl | hd
    · exact le_refl now
    · exact h.past d hd
  refreshed := h.refreshed
  refreshes := h.refreshes
  refetches := refetches_sublist h hmay
  known f hf := by
    refine ⟨_, rfl, ?_⟩
    obtain ⟨hmem, hlookup⟩ := List.mem_filter.mp hf
    rcases List.mem_cons.mp hmem with rfl | hmem
    · exact hreading
    · obtain ⟨d, hd, hle⟩ := h.known f (List.mem_filter.mpr ⟨hmem, hlookup⟩)
      exact hle.trans (h.past d (List.mem_of_mem_head? hd))
  lookups := by
    cases unknownKid with
    | true => exact h.lookups
    | false =>
        refine List.pairwise_cons.mpr ⟨fun f hf => ?_, h.lookups⟩
        obtain ⟨d, hd, hle⟩ := h.known f hf
        have hstale := h.stale hmay hd
        change env.cacheTtlSeconds ≤ reading - f.readAt
        linarith

/-! ## The contract -/

/-- A key is known to a call: it is a key of a parsed document, and unless the call has gone on
to refresh, the document was fresh at the call's lookup or has been fetched by the call. -/
def Grounded (env : Env Key) (i : CallId) (key : PyJWK Key) (lookedUpAt : Option ℚ)
    (refreshing : Bool) (documents : List (Parsed Key)) : Prop :=
  ∃ d ∈ documents, (∃ keyId, d.keys.lookup keyId = some key) ∧
    (refreshing = false → ∃ reading, lookedUpAt = some reading ∧
      (reading - d.fetchedAt < env.cacheTtlSeconds ∨ d.call = i))

/-- The protected state is sane, clock readings are past, and the keys in use are known. -/
structure Inv (env : Env Key) (w : World Key) : Prop where
  sane : w.shared.Sane env w.now
  lookedUp : ∀ i t, w.lookedUpAt i = some t → t ≤ w.now
  refreshing : ∀ i t, w.refreshingAt i = some t → t ≤ w.now
  used : ∀ u ∈ w.used, Grounded env u.call u.key u.lookedUpAt u.refreshing w.shared.documents

/-- A step of call {lit}`i` leaves the readings of the other calls, documents stay, and whoever has
the lock finds the protected state as it is. -/
structure Guar (i : CallId) (w w' : World Key) : Prop where
  lookedUp : ∀ j, j ≠ i → w'.lookedUpAt j = w.lookedUpAt j
  refreshing : ∀ j, j ≠ i → w'.refreshingAt j = w.refreshingAt j
  documents : ∀ d ∈ w.shared.documents, d ∈ w'.shared.documents
  locked : ∀ j, j ≠ i → w.lock = some j → w'.lock = some j ∧ w'.shared = w.shared

/-- The circumstances in which call {lit}`i` issues a command. -/
def Issues (env : Env Key) (i : CallId) (w : World Key) {β : Type} : Cmd Key β → Prop
  | .beginRefresh now => w.lock = some i ∧ now ≤ w.now ∧
      ∀ r, w.shared.cache.lastUnknownKidRefreshAt = some r →
        Apart env.unknownKidRefreshCooldownSeconds now r
  | .fetchKeys =>
      w.lock = some i ∧ ∃ reading, (w.refreshingAt i <|> w.lookedUpAt i) = some reading ∧
      w.shared.MayFetch env reading (w.refreshingAt i).isSome
  | .decode _ key _ =>
      Grounded env i key (w.lookedUpAt i) (w.refreshingAt i).isSome w.shared.documents
  | _ => True

/-- The contract of a call. -/
def contract (env : Env Key) : Contract (World Key) (Cmd Key) String where
  Inv := Inv env
  Issues i _ w cmd := Issues env i w cmd
  Guar i _ := Guar i

theorem Guar.refl (i : CallId) (w : World Key) : Guar i w w :=
  ⟨fun _ _ => rfl, fun _ _ => rfl, fun _ h => h, fun _ _ h => ⟨h, rfl⟩⟩

/-- The passing of time. -/
theorem Inv.wait (h : Inv env w) {elapsed : ℚ} (helapsed : 0 ≤ elapsed) :
    Inv env (w.wait elapsed) := by
  have hnow : w.now ≤ (w.wait elapsed).now := le_add_of_nonneg_right helapsed
  exact ⟨h.sane.wait hnow, fun i t ht => (h.lookedUp i t ht).trans hnow,
    fun i t ht => (h.refreshing i t ht).trans hnow, h.used⟩

/-- A change of the protected state by the call that has the lock. -/
theorem Inv.update (h : Inv env w) {shared : Shared Key} (hsane : shared.Sane env w.now)
    (hdocuments : ∀ d ∈ w.shared.documents, d ∈ shared.documents) :
    Inv env { w with shared := shared } where
  sane := hsane
  lookedUp := h.lookedUp
  refreshing := h.refreshing
  used u hu := by
    obtain ⟨d, hd, hkey, hfresh⟩ := h.used u hu
    exact ⟨d, hdocuments d hd, hkey, hfresh⟩

theorem Guar.update (hlock : w.lock = some i) {shared : Shared Key}
    (hdocuments : ∀ d ∈ w.shared.documents, d ∈ shared.documents) :
    Guar i w { w with shared := shared } where
  lookedUp _ _ := rfl
  refreshing _ _ := rfl
  documents := hdocuments
  locked j hj hlocked := by
    rw [hlock] at hlocked
    exact absurd (Option.some.inj hlocked).symm hj

/-- A reading of the clock. -/
theorem Inv.read (h : Inv env w) (i : CallId) (part : Section) :
    Inv env (w.read i part) ∧ Guar i w (w.read i part) := by
  have hself : ∀ (readings : CallId → Option ℚ), (∀ j t, readings j = some t → t ≤ w.now) →
      ∀ j t, Function.update readings i (some w.now) j = some t → t ≤ w.now := by
    intro readings hreadings j t ht
    by_cases hji : j = i
    · rw [hji, Function.update_self, Option.some.injEq] at ht
      exact ht.ge
    · rw [Function.update_of_ne hji] at ht
      exact hreadings j t ht
  cases part with
  | lookup =>
      exact ⟨⟨h.sane, hself w.lookedUpAt h.lookedUp, h.refreshing, h.used⟩,
        fun j hj => Function.update_of_ne hj _ _, fun _ _ => rfl, fun _ h => h,
        fun _ _ h => ⟨h, rfl⟩⟩
  | refresh =>
      exact ⟨⟨h.sane, h.lookedUp, hself w.refreshingAt h.refreshing, h.used⟩,
        fun _ _ => rfl, fun j hj => Function.update_of_ne hj _ _, fun _ h => h,
        fun _ _ h => ⟨h, rfl⟩⟩

/-- The end of a section or of a call. -/
theorem Inv.close (h : Inv env w) (i : CallId) :
    Inv env (World.close i w) ∧ Guar i w (World.close i w) := by
  refine ⟨⟨h.sane, h.lookedUp, h.refreshing, h.used⟩,
    fun _ _ => rfl, fun _ _ => rfl, fun _ h => h, fun j hj hlock => ⟨?_, rfl⟩⟩
  simp [World.close, hlock, hj]

theorem fetchOf_eq {reading : ℚ} (h : (w.refreshingAt i <|> w.lookedUpAt i) = some reading) :
    w.fetchOf i = Fetch.mk reading (w.refreshingAt i).isSome := by
  funext succeeded
  simp [World.fetchOf, h]

/-- Every command keeps the contract. -/
theorem Inv.act (h : Inv env w) {β : Type} {cmd : Cmd Key β} {outcome : Outcome} {b : β}
    (hissues : Issues env i w cmd) (hact : act env i cmd outcome w = some (b, w')) :
    Inv env w' ∧ Guar i w w' := by
  cases cmd with
  | lock =>
      obtain ⟨_, rfl⟩ | ⟨_, hfree, rfl⟩ := act_lock hact
      · exact ⟨h, Guar.refl i _⟩
      · refine ⟨⟨h.sane, h.lookedUp, h.refreshing, h.used⟩,
          fun _ _ => rfl, fun _ _ => rfl, fun _ h => h, fun j _ hlock => ?_⟩
        rw [hfree] at hlock
        contradiction
  | unlock =>
      rw [act_unlock hact]
      exact h.close i
  | clock part =>
      obtain ⟨_, rfl⟩ := act_clock hact
      exact h.read i part
  | cache =>
      obtain ⟨_, rfl⟩ := act_cache hact
      exact ⟨h, Guar.refl i _⟩
  | beginRefresh now =>
      obtain ⟨hlock, hnow, hlast⟩ := hissues
      rw [act_beginRefresh hact]
      exact ⟨h.update (h.sane.beginRefresh hnow hlast) fun _ h => h,
        Guar.update hlock fun _ h => h⟩
  | fetchKeys =>
      obtain ⟨hlock, reading, hreading, hmay⟩ := hissues
      have hpast : reading ≤ w.now := by
        cases hrefreshing : w.refreshingAt i with
        | some t =>
            rw [hrefreshing] at hreading
            exact h.refreshing i reading (hrefreshing.trans hreading)
        | none =>
            rw [hrefreshing] at hreading
            exact h.lookedUp i reading hreading
      obtain ⟨e, _, rfl⟩ | ⟨document, keys, _, hparse, rfl⟩ := act_fetchKeys hact
      · rw [fetchOf_eq hreading]
        exact ⟨h.update (h.sane.failFetch hmay) fun _ h => h, Guar.update hlock fun _ h => h⟩
      · rw [fetchOf_eq hreading]
        exact ⟨h.update (h.sane.store hmay hpast hparse) fun _ => List.mem_cons_of_mem _,
          Guar.update hlock fun _ => List.mem_cons_of_mem _⟩
  | decode token key algorithm =>
      rw [act_decode hact]
      refine ⟨⟨h.sane, h.lookedUp, h.refreshing, fun u hu => ?_⟩,
        fun _ _ => rfl, fun _ _ => rfl, fun _ h => h, fun _ _ h => ⟨h, rfl⟩⟩
      rcases List.mem_cons.mp hu with rfl | hu
      · exact hissues
      · exact h.used u hu

theorem Issues.wait {β : Type} {cmd : Cmd Key β} (h : Issues env i w cmd) {elapsed : ℚ}
    (helapsed : 0 ≤ elapsed) : Issues env i (w.wait elapsed) cmd := by
  cases cmd with
  | beginRefresh now =>
      exact ⟨h.1, h.2.1.trans (le_add_of_nonneg_right helapsed), h.2.2⟩
  | _ => exact h

theorem Inv.exec (h : Inv env w) {β : Type} {cmd : Cmd Key β} {choice : Choice} {b : β}
    (hissues : Issues env i w cmd) (hexec : exec env i cmd choice w = some (b, w')) :
    Inv env w' ∧ Guar i w w' := by
  obtain ⟨helapsed, hact⟩ := exec_wait hexec
  obtain ⟨hw', hguar⟩ := (h.wait helapsed).act (hissues.wait helapsed) hact
  exact ⟨hw', hguar.lookedUp, hguar.refreshing, hguar.documents, hguar.locked⟩

/-! ## The operation -/

/-- Call {lit}`i` has the lock, and something holds of the protected state and its readings. -/
def Locked (i : CallId) (P : Shared Key → Option ℚ → Option ℚ → Prop) (w : World Key) : Prop :=
  w.lock = some i ∧ P w.shared (w.lookedUpAt i) (w.refreshingAt i)

theorem Locked.stable (i : CallId) (P : Shared Key → Option ℚ → Option ℚ → Prop) :
    (contract env).Stable i (Locked i P) := by
  intro j r hj w w' _ _ hguar h
  obtain ⟨hlock, hshared⟩ := hguar.locked i hj.symm h.1
  refine ⟨hlock, ?_⟩
  rw [hshared, hguar.lookedUp i hj.symm, hguar.refreshing i hj.symm]
  exact h.2

/-- What a call knows of parsed documents and its readings. -/
def Knows (i : CallId) (P : List (Parsed Key) → Option ℚ → Option ℚ → Prop) (w : World Key) :
    Prop :=
  P w.shared.documents (w.lookedUpAt i) (w.refreshingAt i)

theorem Knows.stable (i : CallId) {P : List (Parsed Key) → Option ℚ → Option ℚ → Prop}
    (hP : ∀ ds ds' l r, (∀ d ∈ ds, d ∈ ds') → P ds l r → P ds' l r) :
    (contract env).Stable i (Knows i P) := by
  intro j r hj w w' _ _ hguar h
  unfold Knows
  rw [hguar.lookedUp i hj.symm, hguar.refreshing i hj.symm]
  exact hP _ _ _ _ hguar.documents h

/-- The program of one call keeps the contract. -/
abbrev CallValid (env : Env Key) (i : CallId) (token : String) {α : Type} (program : Action Key α)
    (P : World Key → Prop) (Q : α → World Key → Prop) : Prop :=
  Valid (verifierMachine env) .any (contract env) i token program.run P (Ends Q fun _ _ => True)

variable {token : String} {α : Type}

/-- A section under the lock. -/
theorem withLock_valid {body : Action Key α} {P : Option ℚ → Option ℚ → Prop}
    {Q : α → List (Parsed Key) → Option ℚ → Option ℚ → Prop}
    (h : CallValid env i token body (Locked i fun _ => P)
      fun a => Locked i fun s => Q a s.documents) :
    CallValid env i token (withLock body) (Knows i fun _ => P) fun a => Knows i (Q a) := by
  refine Valid.except_bind (Q := fun _ => Locked i fun _ => P) (Valid.cmd ?_ ?_ ?_) fun _ => ?_
  · exact Knows.stable i fun _ _ _ _ _ h => h
  · exact fun _ _ _ => trivial
  · intro b w w' choice _ _ _ hP _ hexec
    obtain ⟨rfl, _⟩ | ⟨rfl, _, rfl⟩ := act_lock (exec_wait hexec).2
    · trivial
    · exact ⟨rfl, hP⟩
  · refine Valid.bind h fun result => ?_
    cases result with
    | error e =>
        refine Valid.bind (Q := fun _ _ => True) (Valid.cmd ?_ ?_ ?_) fun _ => Valid.ret ?_
        · exact fun _ _ _ _ _ _ _ _ _ => trivial
        · exact fun _ _ _ => trivial
        · exact fun _ _ _ _ _ _ _ _ _ _ => trivial
        · exact fun _ _ _ => trivial
    | ok a =>
        refine Valid.bind (Q := fun _ => Knows i (Q a)) (Valid.cmd ?_ ?_ ?_) fun _ =>
          Valid.ret fun _ _ h => h
        · exact Locked.stable i fun s => Q a s.documents
        · exact fun _ _ _ => trivial
        · intro b w w' choice _ _ _ hlocked _ hexec
          rw [act_unlock (exec_wait hexec).2]
          exact hlocked.2

/-- A lookup has found the keys of a document that is fresh or has been fetched by the call. -/
def Found (env : Env Key) (i : CallId) (keys : Keys Key) (documents : List (Parsed Key))
    (lookedUpAt refreshingAt : Option ℚ) : Prop :=
  refreshingAt = none ∧ ∃ d ∈ documents, d.keys = keys ∧ ∃ reading, lookedUpAt = some reading ∧
    (reading - d.fetchedAt < env.cacheTtlSeconds ∨ d.call = i)

/-- The cache is fresh, or the call has fetched it. -/
def Renewed (env : Env Key) (i : CallId) (reading : ℚ) (s : Shared Key)
    (lookedUpAt refreshingAt : Option ℚ) : Prop :=
  refreshingAt = none ∧ lookedUpAt = some reading ∧
    (isStale env s.cache reading = false ∨ ∃ d, s.documents.head? = some d ∧ d.call = i)

/-- A reading of the protected cache. -/
theorem cache_valid {P : Shared Key → Option ℚ → Option ℚ → Prop}
    {Q : Cache Key → Shared Key → Option ℚ → Option ℚ → Prop}
    (h : ∀ now s l r, s.Sane env now → P s l r → Q s.cache s l r) :
    CallValid env i token (ExceptT.lift (perform .cache)) (Locked i P) fun cache =>
      Locked i (Q cache) := by
  refine Valid.except_lift (Valid.cmd (Locked.stable i P) (fun _ _ _ => trivial) ?_)
  intro b w w' choice hw _ _ hlocked _ hexec
  obtain ⟨rfl, rfl⟩ := act_cache (exec_wait hexec).2
  exact ⟨hlocked.1, h _ _ _ _ hw.sane hlocked.2⟩

theorem fetchIfStale_valid (cache : Cache Key) (now : ℚ) :
    CallValid env i token (fetchIfStale env cache now)
      (Locked i fun s l r => (r = none ∧ l = some now) ∧ s.cache = cache)
      fun _ => Locked i (Renewed env i now) := by
  unfold fetchIfStale
  split
  · rename_i hstale
    refine Valid.cmd (Locked.stable i _) ?_ ?_
    · rintro w _ ⟨hlock, ⟨hrefreshing, hlookedUp⟩, rfl⟩
      refine ⟨hlock, now, by simp [hrefreshing, hlookedUp], ?_⟩
      simpa [hrefreshing, Shared.MayFetch] using hstale
    · rintro b w w' choice _ _ _ ⟨hlock, ⟨hrefreshing, hlookedUp⟩, _⟩ _ hexec
      obtain ⟨e, rfl, _⟩ | ⟨document, keys, rfl, _, rfl⟩ := act_fetchKeys (exec_wait hexec).2
      · trivial
      · exact ⟨hlock, hrefreshing, hlookedUp, Or.inr ⟨_, rfl, rfl⟩⟩
  · rename_i hfresh
    refine Valid.except_ret ?_
    rintro w _ ⟨hlock, ⟨hrefreshing, hlookedUp⟩, rfl⟩
    exact ⟨hlock, hrefreshing, hlookedUp, Or.inl (eq_false_of_ne_true hfresh)⟩

/-- A renewed cache has the keys of its latest document. -/
theorem Renewed.found {reading : ℚ} {l r : Option ℚ} (h : Renewed env i reading s l r)
    (hs : s.Sane env now) {fetchedAt : ℚ} (hfetchedAt : s.cache.fetchedAt = some fetchedAt) :
    Found env i s.cache.keys s.documents l r := by
  obtain ⟨hrefreshing, hlookedUp, hrenewed⟩ := h
  obtain ⟨d, hd, rfl⟩ := Option.map_eq_some_iff.mp (hs.fetchedAt.symm.trans hfetchedAt)
  have hkeys : s.cache.keys = d.keys := by rw [hs.keys, hd, Option.map_some, Option.getD_some]
  refine ⟨hrefreshing, d, List.mem_of_mem_head? hd, hkeys.symm, reading, hlookedUp, ?_⟩
  rcases hrenewed with hfresh | ⟨d', hd', hcall⟩
  · left
    simp only [isStale, hfetchedAt, Bool.or_eq_false_iff, decide_eq_false_iff_not, not_le] at hfresh
    exact hfresh.2
  · rw [hd, Option.some.injEq] at hd'
    exact Or.inr (hd' ▸ hcall)

theorem getCachedKeys_valid :
    CallValid env i token (getCachedKeys env) (Knows i fun _ _ r => r = none)
      fun result => Knows i (Found env i result.1) := by
  refine withLock_valid (Valid.except_bind
    (Q := fun now => Locked i fun _ l r => r = none ∧ l = some now) ?_ fun now => ?_)
  · refine Valid.except_lift (Valid.cmd (Locked.stable i _) (fun _ _ _ => trivial) ?_)
    intro b w w' choice _ _ _ hlocked _ hexec
    obtain ⟨rfl, rfl⟩ := act_clock (exec_wait hexec).2
    exact ⟨hlocked.1, hlocked.2, Function.update_self _ _ _⟩
  refine Valid.except_bind
    (Q := fun cache => Locked i fun s l r => (r = none ∧ l = some now) ∧ s.cache = cache)
    (cache_valid fun _ _ _ _ _ h => ⟨h, rfl⟩) fun cache => ?_
  refine Valid.except_bind (fetchIfStale_valid cache now) fun _ => ?_
  refine Valid.except_bind (Q := fun cache => Locked i fun s l r =>
    ∀ fetchedAt, cache.fetchedAt = some fetchedAt → Found env i cache.keys s.documents l r) ?_ ?_
  · exact cache_valid fun _ _ _ _ hs h _ hfetchedAt => h.found hs hfetchedAt
  · intro cache
    split
    · exact Valid.except_throw fun _ _ _ => trivial
    · rename_i fetchedAt hfetchedAt
      exact Valid.except_ret fun w _ h => ⟨h.1, h.2 fetchedAt hfetchedAt⟩

/-- A refresh has found no keys, or the keys of a document. -/
def Refreshed (keys : Keys Key) (documents : List (Parsed Key)) (_ refreshingAt : Option ℚ) :
    Prop :=
  refreshingAt.isSome = true ∧ (keys = ∅ ∨ ∃ d ∈ documents, d.keys = keys)

theorem refreshUnlessThrottled_valid (cache : Cache Key) (now observedFetchedAt : ℚ) :
    CallValid env i token (refreshUnlessThrottled env cache now observedFetchedAt)
      (Locked i fun s _ r => (r = some now ∧
        ∀ last, s.cache.lastUnknownKidRefreshAt = some last → last ≤ now) ∧ s.cache = cache)
      fun _ => Locked i fun _ _ r => r = some now := by
  unfold refreshUnlessThrottled
  dsimp only
  split
  · exact Valid.except_ret fun w _ h => ⟨h.1, h.2.1.1⟩
  rename_i hthrottle
  have hcooldown : refreshOnCooldown env cache now = false := by
    simp only [Bool.or_eq_true, not_or] at hthrottle
    exact eq_false_of_ne_true hthrottle.2
  refine Valid.except_bind (Q := fun _ => Locked i fun s _ r => r = some now ∧
    s.MayFetch env now true) (Valid.except_lift (Valid.cmd (Locked.stable i _) ?_ ?_)) fun _ => ?_
  · rintro w hw ⟨hlock, ⟨hrefreshing, hlast⟩, rfl⟩
    refine ⟨hlock, hw.refreshing i now hrefreshing, fun last hmem => ⟨hlast last hmem, ?_⟩⟩
    simpa [refreshOnCooldown, hmem] using hcooldown
  · rintro b w w' choice hw _ _ ⟨hlock, ⟨hrefreshing, _⟩, _⟩ _ hexec
    rw [act_beginRefresh (exec_wait hexec).2]
    exact ⟨hlock, hrefreshing, rfl, hw.sane.refetches⟩
  · refine Valid.cmd (Locked.stable i _) ?_ ?_
    · rintro w _ ⟨hlock, hrefreshing, hmay⟩
      exact ⟨hlock, now, by simp [hrefreshing], by simpa [hrefreshing] using hmay⟩
    · rintro b w w' choice _ _ _ ⟨hlock, hrefreshing, _⟩ _ hexec
      obtain ⟨e, rfl, _⟩ | ⟨document, keys, rfl, _, rfl⟩ := act_fetchKeys (exec_wait hexec).2
      · trivial
      · exact ⟨hlock, hrefreshing⟩

theorem refreshForUnknownKey_valid (observedFetchedAt : ℚ) :
    CallValid env i token (refreshForUnknownKey env observedFetchedAt) (Knows i fun _ _ _ => True)
      fun keys => Knows i (Refreshed keys) := by
  refine withLock_valid (Valid.except_bind (Q := fun now => Locked i fun s _ r => r = some now ∧
    ∀ last, s.cache.lastUnknownKidRefreshAt = some last → last ≤ now) ?_ fun now => ?_)
  · refine Valid.except_lift (Valid.cmd (Locked.stable i _) (fun _ _ _ => trivial) ?_)
    intro b w w' choice hw _ _ hlocked _ hexec
    obtain ⟨helapsed, hact⟩ := exec_wait hexec
    obtain ⟨rfl, rfl⟩ := act_clock hact
    refine ⟨hlocked.1, Function.update_self _ _ _, fun last hlast => ?_⟩
    have hmem : last ∈ w.shared.refreshes := List.mem_of_mem_head? (hw.sane.last.symm.trans hlast)
    exact (hw.sane.refreshed last hmem).trans (le_add_of_nonneg_right helapsed)
  refine Valid.except_bind (Q := fun cache => Locked i fun s _ r => (r = some now ∧
      ∀ last, s.cache.lastUnknownKidRefreshAt = some last → last ≤ now) ∧ s.cache = cache)
    (cache_valid fun _ _ _ _ _ h => ⟨h, rfl⟩) fun cache => ?_
  refine Valid.except_bind (refreshUnlessThrottled_valid cache now observedFetchedAt) fun _ => ?_
  refine Valid.except_bind
    (Q := fun cache => Locked i fun s => Refreshed cache.keys s.documents) ?_ fun cache =>
      Valid.except_ret fun _ _ h => h
  refine cache_valid fun _ s _ _ hs h => ⟨by simp [h], ?_⟩
  cases hdocuments : s.documents with
  | nil =>
      left
      rw [hs.keys, hdocuments]
      rfl
  | cons d rest =>
      right
      exact ⟨d, List.mem_cons_self, by rw [hs.keys, hdocuments]; rfl⟩

/-- A lookup gives a key that is known to the call. -/
theorem Found.grounded {keys : Keys Key} {ds : List (Parsed Key)} {l r : Option ℚ}
    (h : Found env i keys ds l r) {keyId : String} {key : PyJWK Key}
    (hkey : keys.lookup keyId = some key) : Grounded env i key l r.isSome ds := by
  obtain ⟨_, d, hd, rfl, hfresh⟩ := h
  exact ⟨d, hd, ⟨keyId, hkey⟩, fun _ => hfresh⟩

/-- A refresh gives a key that is known to the call. -/
theorem Refreshed.grounded {keys : Keys Key} {ds : List (Parsed Key)} {l r : Option ℚ}
    (h : Refreshed keys ds l r) {keyId : String} {key : PyJWK Key}
    (hkey : keys.lookup keyId = some key) : Grounded env i key l r.isSome ds := by
  obtain ⟨hrefreshing, rfl | ⟨d, hd, rfl⟩⟩ := h
  · rw [AList.lookup_empty] at hkey
    contradiction
  · exact ⟨d, hd, ⟨keyId, hkey⟩, fun hnot => absurd (hrefreshing.symm.trans hnot) (by simp)⟩

theorem getSigningKey_valid (keyId : String) :
    CallValid env i token (getSigningKey env keyId) (Knows i fun _ _ r => r = none)
      fun signingKey w => ∀ key, signingKey = some key →
        Knows i (fun ds l r => Grounded env i key l r.isSome ds) w := by
  refine Valid.except_bind getCachedKeys_valid fun result => ?_
  obtain ⟨keys, fetchedAt⟩ := result
  dsimp only
  split
  · rename_i signingKey hkey
    refine Valid.except_ret fun w _ h key heq => ?_
    cases heq
    exact Found.grounded h hkey
  · refine Valid.except_bind (Valid.pre (refreshForUnknownKey_valid fetchedAt) fun _ _ _ => trivial)
      fun keys => Valid.except_ret fun w _ h key hkey => ?_
    exact Refreshed.grounded h hkey

theorem checkSignature_valid (algorithm : String) (signingKey : Option (PyJWK Key)) :
    CallValid env i token (checkSignature token algorithm signingKey)
      (fun w => ∀ key, signingKey = some key →
        Knows i (fun ds l r => Grounded env i key l r.isSome ds) w) fun _ _ => True := by
  cases signingKey with
  | none => exact Valid.except_throw fun _ _ _ => trivial
  | some signingKey =>
      simp only [checkSignature]
      split
      · exact Valid.except_throw fun _ _ _ => trivial
      · refine Valid.pre (P := Knows i fun ds l r => Grounded env i signingKey l r.isSome ds) ?_
          fun _ _ h => h signingKey rfl
        refine Valid.except_bind (Q := fun _ _ => True) (Valid.except_lift (Valid.cmd ?_
          (fun _ _ h => h) fun _ _ _ _ _ _ _ _ _ _ => trivial)) ?_
        · refine Knows.stable i fun ds ds' l r hds h => ?_
          obtain ⟨d, hd, hkey, hfresh⟩ := h
          exact ⟨d, hds d hd, hkey, hfresh⟩
        · intro claims
          cases claims with
          | none => exact Valid.except_throw fun _ _ _ => trivial
          | some claims => exact Valid.except_ret fun _ _ _ => trivial

theorem verify_valid :
    CallValid env i token (verify env token) (Knows i fun _ _ r => r = none) fun _ _ => True := by
  unfold verify
  split
  · exact Valid.except_throw fun _ _ _ => trivial
  split
  · exact Valid.except_throw fun _ _ _ => trivial
  split
  · exact Valid.except_throw fun _ _ _ => trivial
  · rename_i algorithm keyId _
    exact Valid.except_bind (getSigningKey_valid keyId) (checkSignature_valid algorithm)

theorem inv_initial (now : ℚ) : Inv env (World.initial now) where
  sane :=
    { keys := rfl
      fetchedAt := rfl
      last := rfl
      parsed := by simp [World.initial]
      past := by simp [World.initial]
      refreshed := by simp [World.initial]
      refreshes := List.Pairwise.nil
      refetches := List.Sublist.slnil
      known := by simp [World.initial, Shared.lookupFetches]
      lookups := List.Pairwise.nil }
  lookedUp := by simp [World.initial]
  refreshing := by simp [World.initial]
  used := by simp [World.initial]

/-- The contract of the verifier. -/
theorem verifierMachine_sound (env : Env Key) (now : ℚ) :
    Sound (verifierMachine env) .any (contract env) (.initial now)
      (fun i => Knows i fun _ _ r => r = none) (fun _ _ _ _ => True) where
  init := inv_initial now
  pre_init _ := rfl
  pre_stable i := Knows.stable i fun _ _ _ _ _ h => h
  post_stable _ _ _ := Contract.stable_const True
  exec _ _ _ _ _ _ _ _ _ hw hissues _ hexec := hw.exec hissues hexec
  close i _ _ _ hw := hw.close i
  refl i _ w _ _ := Guar.refl i w
  valid _ _ _ := verify_valid.post fun _ _ _ _ => trivial

/-! ## Every run -/

theorem fetchKeys_failed {outcome : Except Raised JwksDocument} {e : Raised}
    (h : w.fetchKeys env i outcome = (.error e, w')) : w'.shared.cache = w.shared.cache := by
  have hact : act env i .fetchKeys (.fetched outcome) w = some (.error e, w') := congrArg some h
  obtain ⟨_, _, rfl⟩ | ⟨_, _, herror, _⟩ := act_fetchKeys hact
  · rfl
  · contradiction

/-- Every key that checks a signature is a key of a parsed document, which is fresh at the first
lookup or fetched by it when the key is found there; the cache holds the latest document that has
been parsed, and a failed fetch leaves it alone; and refreshes for unknown keys are the cooldown
apart. -/
theorem jwks_cache_safe (env : Env Key) (start : ℚ)
    (c : Config (World Key) (Cmd Key) String (Except Raised JsonObject))
    (h : (verifierMachine env).Reachable .any (.initial start) c) :
    (∀ u ∈ c.world.used, ∃ d ∈ c.world.shared.documents,
      parseKeys env d.document = some d.keys ∧ (∃ keyId, d.keys.lookup keyId = some u.key) ∧
        (u.refreshing = false → ∃ reading, u.lookedUpAt = some reading ∧
          (reading - d.fetchedAt < env.cacheTtlSeconds ∨ d.call = u.call))) ∧
    (c.world.shared.cache.keys = (c.world.shared.documents.head?.map (·.keys)).getD ∅ ∧
      c.world.shared.cache.fetchedAt = c.world.shared.documents.head?.map (·.fetchedAt)) ∧
    (∀ i outcome e w, c.world.fetchKeys env i outcome = (.error e, w) →
      w.shared.cache = c.world.shared.cache) ∧
    c.world.shared.refreshes.Pairwise fun later earlier =>
      env.unknownKidRefreshCooldownSeconds ≤ later - earlier := by
  have hinv : Inv env c.world := ((verifierMachine_sound env start).reachable h).1
  refine ⟨fun u hu => ?_, ⟨hinv.sane.keys, hinv.sane.fetchedAt⟩, ?_, ?_⟩
  · obtain ⟨d, hd, hkey, hfresh⟩ := hinv.used u hu
    exact ⟨d, hd, hinv.sane.parsed d hd, hkey, hfresh⟩
  · intro i outcome e w hfailed
    exact fetchKeys_failed hfailed
  · exact hinv.sane.refreshes.imp fun hapart => hapart.2

/-- Every token names the key `k1`, which every document contains. -/
def oneKeyEnv : Env Nat where
  issuer := some "https://project.supabase.co/auth/v1"
  audience := "authenticated"
  jwksUrl := some "https://project.supabase.co/auth/v1/.well-known/jwks.json"
  cacheTtlSeconds := 600
  unknownKidRefreshCooldownSeconds := 60
  getUnverifiedHeader _ := some [("alg", .string "ES256"), ("kid", .string "k1")]
  fromDict _ := .ok ⟨"ES256", 1⟩
  decode _ _ _ := some [("sub", .string "7")]

/-- A document with one key. -/
def oneKeyDocument : JwksDocument :=
  [("keys", .array [.object [("kid", .string "k1")]])]

/-- A call fetches the key that it uses. -/
def firstLookup : List (Label Choice String) :=
  [.start 0 "token", .step 0 {}, .step 0 {}, .step 0 {},
    .step 0 { elapsed := 2, outcome := .fetched (.ok oneKeyDocument) }, .step 0 {}, .step 0 {},
    .step 0 {}]

theorem jwks_cache_safe_first :
    ∃ c : Config (World Nat) (Cmd Nat) String (Except Raised JsonObject),
    (verifierMachine oneKeyEnv).play .any firstLookup (.initial (.initial 0)) = some c ∧
      c.world.used.map (·.refreshing) = [false] ∧
        ∀ u ∈ c.world.used, ∃ d ∈ c.world.shared.documents,
          parseKeys oneKeyEnv d.document = some d.keys := by
  have hrun : ((verifierMachine oneKeyEnv).play .any firstLookup (.initial (.initial 0))).map
      (fun c => c.world.used.map (·.refreshing)) = some [false] := by
    decide
  obtain ⟨c, hc, hused⟩ := Option.map_eq_some_iff.mp hrun
  refine ⟨c, hc, hused, fun u hu => ?_⟩
  obtain ⟨d, hd, hparse, _⟩ :=
    (jwks_cache_safe oneKeyEnv 0 c (Machine.reachable_of_play hc)).1 u hu
  exact ⟨d, hd, hparse⟩

/-! ## The number of fetches -/

/-- Readings that are more than the span apart occur once in the span. -/
theorem apart_length {gap a b : ℚ} {readings : List ℚ}
    (hapart : readings.Pairwise fun later earlier => gap ≤ later - earlier)
    (hspan : ∀ r ∈ readings, a ≤ r ∧ r ≤ b) (hgap : b - a < gap) : readings.length ≤ 1 := by
  match readings with
  | [] => exact Nat.zero_le 1
  | [_] => exact le_refl 1
  | later :: earlier :: rest =>
      have hpair := (List.pairwise_cons.mp hapart).1 earlier List.mem_cons_self
      have hlater := hspan later List.mem_cons_self
      have hearlier := hspan earlier (List.mem_cons_of_mem _ List.mem_cons_self)
      linarith [hlater.2, hearlier.1]

/-- The fetches whose section has read the clock in a span of time. -/
def Shared.fetchesWithin (s : Shared Key) (a b : ℚ) : List Fetch :=
  s.fetches.filter fun f => a ≤ f.readAt ∧ f.readAt ≤ b

/-- The three kinds of fetches. -/
theorem fetches_length (fetches : List Fetch) :
    fetches.length = (fetches.filter (·.unknownKid)).length +
      (fetches.filter (·.isLookup)).length + (fetches.filter (·.isFailedLookup)).length := by
  induction fetches with
  | nil => rfl
  | cons f fetches ih =>
      obtain ⟨readAt, unknownKid, succeeded⟩ := f
      cases unknownKid <;> cases succeeded <;>
        simp [Fetch.isLookup, Fetch.isFailedLookup, ih] <;> omega

/-- In a span shorter than the cooldown and the time to live, all but two fetches are those of
lookups that fail. -/
theorem Shared.Sane.fetchesWithin_length (h : s.Sane env now) {a b : ℚ}
    (httl : b - a < env.cacheTtlSeconds)
    (hcooldown : b - a < env.unknownKidRefreshCooldownSeconds) :
    (s.fetchesWithin a b).length ≤
      2 + ((s.fetchesWithin a b).filter (·.isFailedLookup)).length := by
  have hspan : ∀ f ∈ s.fetchesWithin a b, a ≤ f.readAt ∧ f.readAt ≤ b := by
    intro f hf
    simpa using (List.mem_filter.mp hf).2
  have hunknown : ((s.fetchesWithin a b).filter (·.unknownKid)).length ≤ 1 := by
    have hsublist : (((s.fetchesWithin a b).filter (·.unknownKid)).map (·.readAt)).Sublist
        s.refreshes :=
      (((List.filter_sublist.filter _).map _)).trans h.refetches
    have hapart := (h.refreshes.sublist hsublist).imp fun hpair => hpair.2
    rw [← List.length_map (f := (·.readAt))]
    refine apart_length hapart ?_ hcooldown
    intro r hr
    obtain ⟨f, hf, rfl⟩ := List.mem_map.mp hr
    exact hspan f (List.mem_of_mem_filter hf)
  have hlookups : ((s.fetchesWithin a b).filter (·.isLookup)).length ≤ 1 := by
    have hsublist : ((s.fetchesWithin a b).filter (·.isLookup)).Sublist s.lookupFetches :=
      List.filter_sublist.filter _
    have hapart := h.lookups.sublist hsublist
    rw [← List.length_map (f := (·.readAt))]
    refine apart_length (List.pairwise_map.mpr hapart) ?_ httl
    intro r hr
    obtain ⟨f, hf, rfl⟩ := List.mem_map.mp hr
    exact hspan f (List.mem_of_mem_filter hf)
  have hsum := fetches_length (s.fetchesWithin a b)
  omega

/-- In every run, at most two fetches are made in a span of time shorter than the time to live of
the cache and the cooldown, unless a fetch of a lookup fails in it. -/
theorem jwks_fetches_bounded (env : Env Key) (start : ℚ)
    (c : Config (World Key) (Cmd Key) String (Except Raised JsonObject))
    (h : (verifierMachine env).Reachable .any (.initial start) c) {a b : ℚ}
    (httl : b - a < env.cacheTtlSeconds) (hcooldown : b - a < env.unknownKidRefreshCooldownSeconds)
    (hsucceed : ∀ f ∈ c.world.shared.fetchesWithin a b, f.isFailedLookup = false) :
    (c.world.shared.fetchesWithin a b).length ≤ 2 := by
  have hinv : Inv env c.world := ((verifierMachine_sound env start).reachable h).1
  have hfailed : (c.world.shared.fetchesWithin a b).filter (·.isFailedLookup) = [] := by
    refine List.filter_eq_nil_iff.mpr fun f hf => ?_
    simp [hsucceed f hf]
  have hlength := hinv.sane.fetchesWithin_length httl hcooldown
  rw [hfailed] at hlength
  exact hlength

theorem jwks_fetches_bounded_first :
    ∃ c : Config (World Nat) (Cmd Nat) String (Except Raised JsonObject),
      (verifierMachine oneKeyEnv).play .any firstLookup (.initial (.initial 0)) = some c ∧
        (c.world.shared.fetchesWithin 0 30).length ≤ 2 := by
  have hrun : ((verifierMachine oneKeyEnv).play .any firstLookup (.initial (.initial 0))).map
      (fun c => c.world.shared.fetches) = some [⟨0, false, true⟩] := by
    decide +kernel
  obtain ⟨c, hc, hfetches⟩ := Option.map_eq_some_iff.mp hrun
  refine ⟨c, hc, jwks_fetches_bounded oneKeyEnv 0 c (Machine.reachable_of_play hc)
    (by decide +kernel) (by decide +kernel) fun f hf => ?_⟩
  have hmem : f ∈ c.world.shared.fetches := List.mem_of_mem_filter hf
  rw [hfetches, List.mem_singleton] at hmem
  rw [hmem]
  rfl

/-- A call whose fetch fails. -/
def failedLookup (i : CallId) : List (Label Choice String) :=
  [.start i "token", .step i {}, .step i {}, .step i {},
    .step i { outcome := .fetched (.error .other) }, .step i {}]

/-- Three calls in a row make three fetches when all of them fail. -/
theorem failing_fetches_unbounded :
    ¬∀ c : Config (World Nat) (Cmd Nat) String (Except Raised JsonObject),
      (verifierMachine oneKeyEnv).Reachable .any (.initial 0) c → ∀ a b : ℚ, b - a < 600 →
        b - a < 60 → (c.world.shared.fetchesWithin a b).length ≤ 2 := by
  intro hbound
  have hrun : ((verifierMachine oneKeyEnv).play .any
      (failedLookup 0 ++ failedLookup 1 ++ failedLookup 2) (.initial (.initial 0))).map
        (fun c => (c.world.shared.fetchesWithin 0 0).length) = some 3 := by
    decide +kernel
  obtain ⟨c, hc, hlength⟩ := Option.map_eq_some_iff.mp hrun
  have hle := hbound c (Machine.reachable_of_play hc) 0 0 (by decide +kernel) (by decide +kernel)
  omega

end Auth
end HireAndTech
