import HireAndTech.Interleaving.RelyGuarantee

/-!
# Verification of access tokens

`SupabaseJwtVerifier.verify` reads the key id of a token, looks the key up in a cache of the
project's key set, and checks the signature with it.  An empty or stale cache is fetched again.
So is a cache without the key, unless it has been fetched in the meantime or the last such
refresh is recent.  The cache is read and written under a lock.

The library that reads tokens and keys is a parameter.  Clock readings are exact numbers.  Any
amount of time may pass before a command takes effect; in particular the fetch takes that time,
while its call has the lock.

Main results:

- Definition {lit}`verify`: the operation.
- Definition {lit}`verifierMachine`: its interleavings.
- Theorem {lit}`act_fetchKeys` and its like: what the commands do.
-/

namespace HireAndTech
namespace Auth

open Interleaving Prog

/-! ## Key sets -/

/-- A JSON value; the names of an object are distinct. -/
inductive Json
  | null
  | bool (value : Bool)
  | number (value : ℚ)
  | string (value : String)
  | array (values : List Json)
  | object (fields : List (String × Json))

/-- A JSON object. -/
abbrev JsonObject := List (String × Json)

/-- A key set as it is fetched. -/
abbrev JwksDocument := JsonObject

/-- A signing key with the name of its algorithm. -/
structure PyJWK (Key : Type) where
  algorithmName : String
  key : Key
deriving DecidableEq, Repr

/-- Signing keys by their ids. -/
abbrev Keys (Key : Type) := AList fun _ : String => PyJWK Key

/-- How `PyJWK.from_dict` fails: with an exception that `_parse_keys` catches, or another. -/
inductive KeyError
  | unusable
  | unexpected
deriving DecidableEq, Repr

/-- The settings of the verifier and the library it uses. -/
structure Env (Key : Type) where
  issuer : Option String
  audience : String
  jwksUrl : Option String
  cacheTtlSeconds : ℚ
  unknownKidRefreshCooldownSeconds : ℚ
  getUnverifiedHeader : String → Option JsonObject
  fromDict : JsonObject → Except KeyError (PyJWK Key)
  decode : String → Key → String → Option JsonObject

/-- `ALLOWED_ALGORITHMS`. -/
def allowedAlgorithms : List String :=
  ["ES256", "RS256"]

variable {Key : Type} (env : Env Key)

/-- The body of the loop of `_parse_keys`. -/
def addKey (keys : Keys Key) : Json → Option (Keys Key)
  | .object fields =>
      match fields.lookup "kid" with
      | some (.string keyId) =>
          if keyId = "" then some keys
          else match env.fromDict fields with
            | .error .unusable => some keys
            | .error .unexpected => none
            | .ok key =>
                if key.algorithmName ∈ allowedAlgorithms then some (keys.insert keyId key)
                else some keys
      | _ => some keys
  | _ => some keys

/-- `_parse_keys`; {lean}`none` when it raises. -/
def parseKeys (document : JwksDocument) : Option (Keys Key) :=
  match document.lookup "keys" with
  | some (.array rawKeys) =>
      (rawKeys.foldlM (addKey env) ∅).filter fun keys => !keys.entries.isEmpty
  | _ => none

/-! ## The world -/

/-- What leaves a call as an exception. -/
inductive Raised
  | invalidAccessToken
  | jwksUnavailable
  | other
  | cancelled
deriving DecidableEq, Repr

/-- The fields of the verifier that change. -/
structure Cache (Key : Type) where
  keys : Keys Key
  fetchedAt : Option ℚ
  lastUnknownKidRefreshAt : Option ℚ

/-- A document that has been fetched and parsed, with its call. -/
structure Parsed (Key : Type) where
  call : CallId
  document : JwksDocument
  keys : Keys Key
  fetchedAt : ℚ

/-- A fetch: the clock reading of its section, whether the section refreshes for an unknown key,
and whether it succeeds. -/
structure Fetch where
  readAt : ℚ
  unknownKid : Bool
  succeeded : Bool
deriving DecidableEq, Repr

/-- A key that is used to check a signature: by which call, the clock reading of its first
lookup, and whether the call has gone on to refresh. -/
structure Use (Key : Type) where
  call : CallId
  key : PyJWK Key
  lookedUpAt : Option ℚ
  refreshing : Bool

/-- What the lock protects: the fields of the verifier, and as history the parsed documents, the
fetches and the refreshes for unknown keys; the latest entry comes first. -/
structure Shared (Key : Type) where
  cache : Cache Key
  documents : List (Parsed Key)
  fetches : List Fetch
  refreshes : List ℚ

/-- The world of all calls.  The clock readings of the calls and the keys in use are history. -/
structure World (Key : Type) where
  now : ℚ
  lock : Option CallId
  shared : Shared Key
  lookedUpAt : CallId → Option ℚ
  refreshingAt : CallId → Option ℚ
  used : List (Use Key)

/-- The section in which a call reads the clock. -/
inductive Section
  | lookup
  | refresh
deriving DecidableEq, Repr

namespace Shared

variable (s : Shared Key)

/-- A refresh for an unknown key begins. -/
def beginRefresh (now : ℚ) : Shared Key :=
  { s with
    cache := { s.cache with lastUnknownKidRefreshAt := some now }
    refreshes := now :: s.refreshes }

/-- A fetch has failed. -/
def failFetch (fetch : Bool → Fetch) : Shared Key :=
  { s with fetches := fetch false :: s.fetches }

/-- The keys of a document become the keys of the cache. -/
def store (fetch : Bool → Fetch) (parsed : Parsed Key) : Shared Key :=
  { s with
    cache := { s.cache with
      keys := parsed.keys
      fetchedAt := some parsed.fetchedAt }
    documents := parsed :: s.documents
    fetches := fetch true :: s.fetches }

end Shared

namespace World

/-- The verifier before its first call. -/
def initial (now : ℚ) : World Key :=
  ⟨now, none, ⟨⟨∅, none, none⟩, [], [], []⟩, fun _ => none, fun _ => none, []⟩

variable (w : World Key) (i : CallId)

/-- Time passes. -/
def wait (elapsed : ℚ) : World Key :=
  { w with now := w.now + elapsed }

/-- Call {lit}`i` reads the clock in a section. -/
def read : Section → World Key
  | .lookup => { w with lookedUpAt := Function.update w.lookedUpAt i (some w.now) }
  | .refresh => { w with refreshingAt := Function.update w.refreshingAt i (some w.now) }

/-- The fetch of call {lit}`i`. -/
def fetchOf (succeeded : Bool) : Fetch where
  readAt := (w.refreshingAt i <|> w.lookedUpAt i).getD w.now
  unknownKid := (w.refreshingAt i).isSome
  succeeded := succeeded

/-- `_fetch_keys`, with what the fetcher returns or raises. -/
def fetchKeys (outcome : Except Raised JwksDocument) : Except Raised Unit × World Key :=
  match outcome with
  | .ok document =>
      match parseKeys env document with
      | some keys =>
          (.ok (), { w with
            shared := w.shared.store (w.fetchOf i) ⟨i, document, keys, w.now⟩ })
      | none => (.error .jwksUnavailable, { w with shared := w.shared.failFetch (w.fetchOf i) })
  | .error .cancelled => (.error .cancelled, { w with shared := w.shared.failFetch (w.fetchOf i) })
  | .error _ => (.error .jwksUnavailable, { w with shared := w.shared.failFetch (w.fetchOf i) })

/-- Call {lit}`i` checks a signature. -/
def use (key : PyJWK Key) : World Key :=
  { w with used := ⟨i, key, w.lookedUpAt i, (w.refreshingAt i).isSome⟩ :: w.used }

/-- Call {lit}`i` is over; it gives the lock back. -/
def close (i : CallId) (w : World Key) : World Key :=
  { w with lock := w.lock.filter (· ≠ i) }

end World

/-! ## Commands -/

/-- The commands of a call. -/
inductive Cmd (Key : Type) : Type → Type
  | lock : Cmd Key (Except Raised Unit)
  | unlock : Cmd Key Unit
  | clock (part : Section) : Cmd Key ℚ
  | cache : Cmd Key (Cache Key)
  | beginRefresh (now : ℚ) : Cmd Key Unit
  | fetchKeys : Cmd Key (Except Raised Unit)
  | decode (token : String) (key : PyJWK Key) (algorithm : String) : Cmd Key (Option JsonObject)

/-- The answers that the environment chooses. -/
inductive Outcome
  | quiet
  | cancelled
  | fetched (outcome : Except Raised JwksDocument)

/-- The time that passes before a command takes effect, and how it ends. -/
structure Choice where
  elapsed : ℚ := 0
  outcome : Outcome := .quiet

/-- The effect of a command of call {lit}`i`; {lean}`none` while another call has the lock. -/
def act {β : Type} (i : CallId) (cmd : Cmd Key β) (outcome : Outcome) (w : World Key) :
    Option (β × World Key) :=
  match cmd, outcome with
  | .lock, .quiet => if w.lock.isSome then none else some (.ok (), { w with lock := some i })
  | .lock, .cancelled => some (.error .cancelled, w)
  | .unlock, .quiet => some ((), w.close i)
  | .clock part, .quiet => some (w.now, w.read i part)
  | .cache, .quiet => some (w.shared.cache, w)
  | .beginRefresh now, .quiet => some ((), { w with shared := w.shared.beginRefresh now })
  | .fetchKeys, .fetched outcome => some (w.fetchKeys env i outcome)
  | .decode token key algorithm, .quiet =>
      some (env.decode token key.key algorithm, w.use i key)
  | _, _ => none

/-- The effect of a command after some time. -/
def exec {β : Type} (i : CallId) (cmd : Cmd Key β) (choice : Choice) (w : World Key) :
    Option (β × World Key) :=
  if 0 ≤ choice.elapsed then act env i cmd choice.outcome (w.wait choice.elapsed) else none

/-! ## The operation -/

/-- What a call does. -/
abbrev Action (Key α : Type) := ExceptT Raised (Prog (Cmd Key)) α

/-- `async with self._lock`. -/
def withLock {α : Type} (body : Action Key α) : Action Key α := do
  attempt .lock
  ExceptT.mk do
    let result ← body.run
    perform .unlock
    return result

/-- A lookup has to fetch the keys first. -/
def isStale (cache : Cache Key) (now : ℚ) : Bool :=
  match cache.fetchedAt with
  | none => true
  | some fetchedAt => cache.keys.entries.isEmpty || env.cacheTtlSeconds ≤ now - fetchedAt

/-- A lookup fetches the keys when it has to. -/
def fetchIfStale (cache : Cache Key) (now : ℚ) : Action Key Unit :=
  if isStale env cache now then attempt .fetchKeys else return ()

/-- `_get_cached_keys`. -/
def getCachedKeys : Action Key (Keys Key × ℚ) :=
  withLock do
    let now ← ExceptT.lift (perform (.clock .lookup))
    let cache ← ExceptT.lift (perform .cache)
    fetchIfStale env cache now
    let cache ← ExceptT.lift (perform .cache)
    match cache.fetchedAt with
    | none => throw .jwksUnavailable
    | some fetchedAt => return (cache.keys, fetchedAt)

/-- The last refresh for an unknown key is recent. -/
def refreshOnCooldown (cache : Cache Key) (now : ℚ) : Bool :=
  cache.lastUnknownKidRefreshAt.any fun last =>
    now - last < env.unknownKidRefreshCooldownSeconds

/-- A refresh for an unknown key fetches the keys unless another call has, or it is too early. -/
def refreshUnlessThrottled (cache : Cache Key) (now observedFetchedAt : ℚ) : Action Key Unit :=
  let refreshedByAnotherRequest := decide (cache.fetchedAt ≠ some observedFetchedAt)
  if refreshedByAnotherRequest || refreshOnCooldown env cache now then return ()
  else do
    ExceptT.lift (perform (.beginRefresh now))
    attempt .fetchKeys

/-- `_refresh_for_unknown_key`. -/
def refreshForUnknownKey (observedFetchedAt : ℚ) : Action Key (Keys Key) :=
  withLock do
    let now ← ExceptT.lift (perform (.clock .refresh))
    let cache ← ExceptT.lift (perform .cache)
    refreshUnlessThrottled env cache now observedFetchedAt
    let cache ← ExceptT.lift (perform .cache)
    return cache.keys

/-- `_get_signing_key`. -/
def getSigningKey (keyId : String) : Action Key (Option (PyJWK Key)) := do
  let (keys, fetchedAt) ← getCachedKeys env
  match keys.lookup keyId with
  | some signingKey => return some signingKey
  | none =>
      let keys ← refreshForUnknownKey env fetchedAt
      return keys.lookup keyId

/-- The algorithm and the key id of a header.  An algorithm that cannot be hashed raises
`TypeError`. -/
def readHeader (header : JsonObject) : Except Raised (String × String) :=
  match header.lookup "alg" with
  | some (.array _) | some (.object _) => .error .other
  | some (.string algorithm) =>
      if algorithm ∉ allowedAlgorithms then .error .invalidAccessToken
      else match header.lookup "kid" with
        | some (.string keyId) =>
            if keyId = "" then .error .invalidAccessToken else .ok (algorithm, keyId)
        | _ => .error .invalidAccessToken
  | _ => .error .invalidAccessToken

/-- The signature check of a token by a key. -/
def checkSignature (token algorithm : String) : Option (PyJWK Key) → Action Key JsonObject
  | none => throw .invalidAccessToken
  | some signingKey =>
      if signingKey.algorithmName ≠ algorithm then throw .invalidAccessToken
      else do
        match ← ExceptT.lift (perform (.decode token signingKey algorithm)) with
        | none => throw .invalidAccessToken
        | some claims => return claims

/-- `verify`, up to the claims of the token. -/
def verify (token : String) : Action Key JsonObject :=
  if env.issuer = none ∨ env.jwksUrl = none then throw .jwksUnavailable
  else match env.getUnverifiedHeader token with
    | none => throw .invalidAccessToken
    | some header =>
        match readHeader header with
        | .error e => throw e
        | .ok (algorithm, keyId) => do
            let signingKey ← getSigningKey env keyId
            checkSignature token algorithm signingKey

/-! ## What the commands can do -/

section

variable {env} {i : CallId} {w w' : World Key} {choice : Choice}

theorem exec_wait {β : Type} {cmd : Cmd Key β} {b : β}
    (hexec : exec env i cmd choice w = some (b, w')) :
    0 ≤ choice.elapsed ∧ act env i cmd choice.outcome (w.wait choice.elapsed) = some (b, w') := by
  unfold exec at hexec
  split at hexec
  · exact ⟨‹_›, hexec⟩
  · contradiction

theorem act_lock {outcome : Outcome} {b : Except Raised Unit}
    (hact : act env i .lock outcome w = some (b, w')) :
    (b = .error .cancelled ∧ w' = w) ∨
      b = .ok () ∧ w.lock = none ∧ w' = { w with lock := some i } := by
  cases outcome with
  | quiet =>
      simp only [act] at hact
      split at hact
      · contradiction
      · rename_i hfree
        cases hact
        exact Or.inr ⟨rfl, by simpa using hfree, rfl⟩
  | cancelled =>
      cases hact
      exact Or.inl ⟨rfl, rfl⟩
  | _ => contradiction

theorem act_unlock {outcome : Outcome} {b : Unit}
    (hact : act env i .unlock outcome w = some (b, w')) : w' = w.close i := by
  cases outcome <;> cases hact
  rfl

theorem act_clock {part : Section} {outcome : Outcome} {b : ℚ}
    (hact : act env i (.clock part) outcome w = some (b, w')) : b = w.now ∧ w' = w.read i part := by
  cases outcome <;> cases hact
  exact ⟨rfl, rfl⟩

theorem act_cache {outcome : Outcome} {b : Cache Key}
    (hact : act env i .cache outcome w = some (b, w')) : b = w.shared.cache ∧ w' = w := by
  cases outcome <;> cases hact
  exact ⟨rfl, rfl⟩

theorem act_beginRefresh {now : ℚ} {outcome : Outcome} {b : Unit}
    (hact : act env i (.beginRefresh now) outcome w = some (b, w')) :
    w' = { w with shared := w.shared.beginRefresh now } := by
  cases outcome <;> cases hact
  rfl

/-- A fetch stores the keys of a document, or fails and stores nothing. -/
theorem act_fetchKeys {outcome : Outcome} {b : Except Raised Unit}
    (hact : act env i .fetchKeys outcome w = some (b, w')) :
    (∃ e, b = .error e ∧ w' = { w with shared := w.shared.failFetch (w.fetchOf i) }) ∨
      ∃ document keys, b = .ok () ∧ parseKeys env document = some keys ∧
        w' = { w with shared := w.shared.store (w.fetchOf i) ⟨i, document, keys, w.now⟩ } := by
  cases outcome with
  | fetched outcome =>
      rcases outcome with e | document
      · cases e <;> cases hact <;> exact Or.inl ⟨_, rfl, rfl⟩
      · simp only [act, World.fetchKeys] at hact
        split at hact
        · rename_i keys hparse
          cases hact
          exact Or.inr ⟨document, keys, rfl, hparse, rfl⟩
        · cases hact
          exact Or.inl ⟨_, rfl, rfl⟩
  | _ => contradiction

theorem act_decode {token algorithm : String} {key : PyJWK Key} {outcome : Outcome}
    {b : Option JsonObject}
    (hact : act env i (.decode token key algorithm) outcome w = some (b, w')) :
    w' = w.use i key := by
  cases outcome <;> cases hact
  rfl

end

/-- The interleavings of calls with any tokens. -/
def verifierMachine : Machine (World Key) (Cmd Key) Choice String (Except Raised JsonObject) where
  program token := (verify env token).run
  exec := exec env
  close := World.close

end Auth
end HireAndTech
