import HireAndTech.Security.RateLimit
import HireAndTech.Security.Rules

/-!
# Admission of requests

`IpSecurityMiddleware` in front of the application.  It resolves the address of a client, asks the
allowlist, and counts the request against the limit of its route group.  Preflight and health
requests pass both.

Main results:

- Definition {lit}`admitOne`: the answer to one request.
- Theorem {lit}`SpanBound.consume`: one request of a private counter.
- Theorem {lit}`admitted_at_most`: how many requests of an untrusted peer are admitted.
-/

namespace HireAndTech
namespace Security

open Network

/-! ## The middleware -/

/-- The settings of the middleware. -/
structure MiddlewareSettings extends Settings where
  apiV1Prefix : String := "/api/v1"
  trustedProxyCidrs : List IpNetwork
  rateLimitEnabled : Bool := true
  rateLimitFailClosed : Bool := true
  rateLimitWindowSeconds : ℕ := 60
  rateLimitAuthRequests : ℕ := 30
  rateLimitAdminSecurityRequests : ℕ := 60
  rateLimitResumeWriteRequests : ℕ := 10
  rateLimitMaxKeys : ℕ := 10000
  windowBounds : 1 ≤ rateLimitWindowSeconds ∧ rateLimitWindowSeconds ≤ 3600 := by decide
  requestBounds : ∀ n ∈ [rateLimitAuthRequests, rateLimitAdminSecurityRequests,
    rateLimitResumeWriteRequests], 1 ≤ n ∧ n ≤ 10000 := by decide
  maxKeysBounds : 100 ≤ rateLimitMaxKeys ∧ rateLimitMaxKeys ≤ 1000000 := by decide

/-- A request with the clock of its counter, and what the middleware finds: the database of the
rules, which may not be readable, and whether the counters raise. -/
structure Arrival where
  now : ℚ
  type : String
  method : String
  urlPath : String
  client : Option String
  forwardedValues : List String
  database : Option Store
  countersRaise : Bool
deriving DecidableEq

/-- An error response with its headers. -/
structure Rejection where
  error : ApplicationError
  headers : List (String × String)
deriving DecidableEq, Repr

section

variable (settings : MiddlewareSettings) (r : Rounding)

/-- `_health_paths`. -/
def healthPaths : List String :=
  [settings.apiV1Prefix ++ "/health", settings.apiV1Prefix ++ "/health/ready"]

/-- `excluded`. -/
def isExcluded (a : Arrival) : Bool :=
  a.method = "OPTIONS" || a.urlPath ∈ healthPaths settings

/-- `_resolve_request_ip`. -/
def resolveRequestIp (a : Arrival) : Option IpAddress :=
  (TrustedClientIpResolver.new settings.trustedProxyCidrs).resolve a.client none a.forwardedValues

/-- `_rate_policy`, without the limit. -/
def routeGroup (method path : String) : Option String :=
  let startsWith (start : String) : Bool := start.toList.isPrefixOf path.toList
  let resumesPath := settings.apiV1Prefix ++ "/resumes"
  if startsWith (settings.apiV1Prefix ++ "/admin/security") then some "admin-security"
  else if startsWith (settings.apiV1Prefix ++ "/auth") then some "authentication"
  else if method = "POST" && (path = resumesPath ||
      (startsWith (resumesPath ++ "/") && "/replace".toList.isSuffixOf path.toList)) then
    some "resume-write"
  else none

/-- The limit of a route group. -/
def groupLimit (group : String) : ℕ :=
  if group = "admin-security" then settings.rateLimitAdminSecurityRequests
  else if group = "authentication" then settings.rateLimitAuthRequests
  else settings.rateLimitResumeWriteRequests

/-- The key of a client in a route group. -/
def rateKey (group : String) (clientIp : Option IpAddress) : String :=
  group ++ ":" ++ ((clientIp.map fun ip => String.ofList ip.text).getD "unresolved")

/-- The error of counters that raise. -/
def rateLimitUnavailable : Rejection :=
  ⟨⟨"RATE_LIMIT_UNAVAILABLE", "The service is temporarily unavailable.", 503⟩, []⟩

/-- The error of a request above the limit. -/
def rateLimited (decision : RateLimitDecision) : Rejection :=
  ⟨⟨"RATE_LIMITED", "Too many requests.", 429⟩,
    [("Retry-After", toString decision.retryAfterSeconds)]⟩

/-- `_enforce_rate_limit`, with `RouteRateLimiter.check`. -/
def enforceRateLimit (counters : BoundedMemoryRateLimitStore) (a : Arrival) :
    Option Rejection × BoundedMemoryRateLimitStore :=
  if !settings.rateLimitEnabled || isExcluded settings a then (none, counters)
  else
    match routeGroup settings a.method a.urlPath with
    | none => (none, counters)
    | some group =>
        if a.countersRaise then
          (if settings.rateLimitFailClosed then some rateLimitUnavailable else none, counters)
        else
          let (decision, counters) := counters.consume r
            ⟨a.now, rateKey group (resolveRequestIp settings a), groupLimit settings group,
              settings.rateLimitWindowSeconds⟩
          (if decision.allowed then none else some (rateLimited decision), counters)

/-- The error of the allowlist. -/
def allowlistError (a : Arrival) : Option ApplicationError :=
  if settings.ipAllowlistEnabled && !isExcluded settings a then
    enforceAllowlist settings.toSettings a.database (resolveRequestIp settings a)
  else none

/-- `__call__`: the error that answers a request, or {lean}`none` when the application gets it. -/
def admitOne (counters : BoundedMemoryRateLimitStore) (a : Arrival) :
    Option Rejection × BoundedMemoryRateLimitStore :=
  if a.type ≠ "http" then (none, counters)
  else
    match allowlistError settings a with
    | some error => (some ⟨error, []⟩, counters)
    | none => enforceRateLimit settings r counters a

/-- One request, after the requests that the application has got. -/
def admitNext (state : BoundedMemoryRateLimitStore × List Arrival) (a : Arrival) :
    BoundedMemoryRateLimitStore × List Arrival :=
  let (rejection, counters) := admitOne settings r state.1 a
  (counters, if rejection = none then state.2 ++ [a] else state.2)

/-- Requests in a row, with the ones that the application gets. -/
def admitAll (arrivals : List Arrival) : BoundedMemoryRateLimitStore × List Arrival :=
  arrivals.foldl (admitNext settings r)
    (BoundedMemoryRateLimitStore.new settings.rateLimitMaxKeys, [])

end

/-! ## Private counters in a span of time -/

/-- What the window of a counter says about the number of requests that have been admitted from
{lit}`t` to {lit}`t'`. -/
structure SpanBound (limit : ℕ) (t t' : ℚ) (window : Option FixedWindow) (count : ℕ) : Prop where
  total : count ≤ 2 * limit
  unopened : window = none → count = 0
  before : ∀ w ∈ window, w.startedAt < t → count ≤ min w.count limit
  within : ∀ w ∈ window, t ≤ w.startedAt → w.startedAt ≤ t' → count ≤ limit + min w.count limit

section

variable {r : Rounding} {limit : ℕ} {windowSeconds : ℤ} {t t' now : ℚ}
  {window : Option FixedWindow} {count less : ℕ}

theorem SpanBound.mono (h : SpanBound limit t t' window count) (hle : less ≤ count) :
    SpanBound limit t t' window less where
  total := hle.trans h.total
  unopened hnone := Nat.le_zero.mp (h.unopened hnone ▸ hle)
  before w hw hstarted := hle.trans (h.before w hw hstarted)
  within w hw hstarted hbefore := hle.trans (h.within w hw hstarted hbefore)

theorem spanBound_initial : SpanBound limit t t' none 0 where
  total := Nat.zero_le _
  unopened _ := rfl
  before w hw := absurd hw (Option.not_mem_none w)
  within w hw := absurd hw (Option.not_mem_none w)

/-- A window that opens in the span is the second one there at most. -/
theorem SpanBound.le_of_opens (h : SpanBound limit t t' window count)
    (hspan : r.elapsed t' t < windowSeconds) (hnow : now ≤ t')
    (hover : ∀ w ∈ window, windowSeconds ≤ r.elapsed now w.startedAt) : count ≤ limit := by
  cases window with
  | none =>
      rw [h.unopened rfl]
      exact Nat.zero_le _
  | some w =>
      rcases lt_or_ge w.startedAt t with hbefore | hwithin
      · exact (h.before w rfl hbefore).trans (min_le_right _ _)
      · -- the window before would have been opened in the span, too
        have hshort : r.elapsed now w.startedAt ≤ r.elapsed t' t :=
          r.monotone (by linarith)
        have hlong := hover w rfl
        linarith

/-- A request of the current window. -/
theorem SpanBound.same {w : FixedWindow} (h : SpanBound limit t t' (some w) count)
    (hclock : w.startedAt ≤ now) :
    SpanBound limit t t' (some ⟨w.startedAt, w.count + 1⟩)
      (count + if w.count + 1 ≤ limit ∧ t ≤ now ∧ now ≤ t' then 1 else 0) := by
  have htotal := h.total
  have hbefore := h.before w rfl
  have hwithin := h.within w rfl
  refine ⟨?_, nofun, ?_, ?_⟩
  · split_ifs with hadmitted
    · rcases lt_or_ge w.startedAt t with hstarted | hstarted
      · have hcount := hbefore hstarted
        omega
      · have hcount := hwithin hstarted (hclock.trans hadmitted.2.2)
        omega
    · exact htotal
  · intro w' hw' hstarted
    cases hw'
    have hcount := hbefore hstarted
    dsimp only
    split_ifs <;> omega
  · intro w' hw' hstarted hended
    cases hw'
    have hcount := hwithin hstarted hended
    dsimp only
    split_ifs <;> omega

/-- A request that opens a window. -/
theorem SpanBound.opens (h : SpanBound limit t t' window count)
    (hspan : r.elapsed t' t < windowSeconds) (hearly : now < t → count = 0)
    (hover : ∀ w ∈ window, windowSeconds ≤ r.elapsed now w.startedAt) :
    SpanBound limit t t' (some ⟨now, 1⟩)
      (count + if 1 ≤ limit ∧ t ≤ now ∧ now ≤ t' then 1 else 0) := by
  have htotal := h.total
  have hopens (hnow : now ≤ t') : count ≤ limit := h.le_of_opens hspan hnow hover
  refine ⟨?_, nofun, ?_, ?_⟩
  · split_ifs with hadmitted
    · have hcount := hopens hadmitted.2.2
      omega
    · exact htotal
  · intro w hw hstarted
    cases hw
    have hstarted : now < t := hstarted
    rw [hearly hstarted, if_neg fun hadmitted => absurd hadmitted.2.1 (not_le.mpr hstarted)]
    exact Nat.zero_le _
  · intro w hw _ hended
    cases hw
    have hcount := hopens hended
    dsimp only
    split_ifs <;> omega

/-- One request of a private counter. -/
theorem SpanBound.consume (h : SpanBound limit t t' window count)
    (hspan : r.elapsed t' t < windowSeconds) (hclock : ∀ w ∈ window, w.startedAt ≤ now)
    (hearly : now < t → count = 0) :
    SpanBound limit t t' (some (FixedWindow.consume r limit windowSeconds window now).2)
      (count + if (FixedWindow.consume r limit windowSeconds window now).1.allowed ∧
        t ≤ now ∧ now ≤ t' then 1 else 0) := by
  have hopened (hover : ∀ w ∈ window, windowSeconds ≤ r.elapsed now w.startedAt)
      (hcurrent : FixedWindow.current r windowSeconds window now = ⟨now, 0⟩) :
      SpanBound limit t t' (some (FixedWindow.consume r limit windowSeconds window now).2)
        (count + if (FixedWindow.consume r limit windowSeconds window now).1.allowed ∧
          t ≤ now ∧ now ≤ t' then 1 else 0) := by
    simpa [FixedWindow.consume, hcurrent] using h.opens hspan hearly hover
  cases window with
  | none => exact hopened (fun w hw => absurd hw (Option.not_mem_none w)) rfl
  | some w =>
      by_cases hover : windowSeconds ≤ r.elapsed now w.startedAt
      · refine hopened (fun w' hw' => ?_) (if_pos hover)
        cases hw'
        exact hover
      · have hcurrent : FixedWindow.current r windowSeconds (some w) now = w := if_neg hover
        have hcount := h.same (hclock w rfl)
        simp only [FixedWindow.consume, hcurrent, decide_eq_true_eq]
        exact_mod_cast hcount

end

/-! ## Calls of the counters -/

section

variable (settings : MiddlewareSettings)

/-- The request is counted in its route group. -/
def isCounted (a : Arrival) : Bool :=
  a.type = "http" && (allowlistError settings a).isNone && settings.rateLimitEnabled &&
    !isExcluded settings a && !a.countersRaise

/-- The call of the counters. -/
def callOf (a : Arrival) : Option Call :=
  if isCounted settings a then
    (routeGroup settings a.method a.urlPath).map fun group =>
      ⟨a.now, rateKey group (resolveRequestIp settings a)⟩
  else none

/-- The limit of the group that a key begins with. -/
def keyLimit (key : String) : ℤ :=
  groupLimit settings (String.ofList (key.toList.takeWhile (· ≠ ':')))

/-- The counters after the calls of some requests. -/
def countersAfter (r : Rounding) (arrivals : List Arrival) : BoundedMemoryRateLimitStore :=
  storeAfter r (keyLimit settings) (fun _ => settings.rateLimitWindowSeconds)
    settings.rateLimitMaxKeys (arrivals.filterMap (callOf settings))

end

section

variable {settings : MiddlewareSettings} {r : Rounding} {a : Arrival} {group : String}
  {counters : BoundedMemoryRateLimitStore} {call : Call}

theorem routeGroup_mem {method path : String} (h : routeGroup settings method path = some group) :
    group ∈ ["admin-security", "authentication", "resume-write"] := by
  unfold routeGroup at h
  dsimp only at h
  split_ifs at h <;> cases h <;> simp

theorem keyLimit_rateKey (hgroup : group ∈ ["admin-security", "authentication", "resume-write"])
    (clientIp : Option IpAddress) :
    keyLimit settings (rateKey group clientIp) = groupLimit settings group := by
  have hparts (client : String) :
      String.ofList ((group ++ ":" ++ client).toList.takeWhile (· ≠ ':')) = group := by
    simp only [List.mem_cons, List.not_mem_nil, or_false] at hgroup
    rcases hgroup with rfl | rfl | rfl <;> simp [String.toList_append, List.takeWhile]
  rw [keyLimit, rateKey, hparts]

/-- A request that is not counted leaves the counters as they are. -/
theorem admit_of_callOf_none (h : callOf settings a = none) :
    (admitOne settings r counters a).2 = counters := by
  unfold admitOne
  by_cases htype : a.type = "http"
  · rw [if_neg (not_not.mpr htype)]
    cases hallow : allowlistError settings a with
    | some error => rfl
    | none =>
        cases hgroup : routeGroup settings a.method a.urlPath with
        | none =>
            simp only [enforceRateLimit, hgroup]
            split <;> rfl
        | some group =>
            cases hraises : a.countersRaise with
            | true =>
                simp only [enforceRateLimit, hgroup, hraises, if_true]
                split <;> rfl
            | false =>
                have hpasses : (!settings.rateLimitEnabled || isExcluded settings a) = true := by
                  simpa [callOf, isCounted, htype, hallow, hraises, hgroup,
                    Bool.or_eq_true, imp_iff_not_or] using h
                simp [enforceRateLimit, hpasses]
  · rw [if_pos htype]

/-- A request that is counted is admitted when its counter allows it. -/
theorem admit_of_callOf_some (h : callOf settings a = some call) :
    admitOne settings r counters a =
      let (decision, counters) := counters.consume r
        (call.request (keyLimit settings) fun _ => settings.rateLimitWindowSeconds)
      (if decision.allowed then none else some (rateLimited decision), counters) := by
  unfold callOf at h
  split_ifs at h with hcounted
  obtain ⟨group, hgroup, rfl⟩ := Option.map_eq_some_iff.mp h
  simp only [isCounted, Bool.and_eq_true, Bool.not_eq_true', decide_eq_true_eq,
    Option.isNone_iff_eq_none] at hcounted
  obtain ⟨⟨⟨⟨htype, hallow⟩, henabled⟩, hexcluded⟩, hraises⟩ := hcounted
  simp [admitOne, htype, hallow, enforceRateLimit, henabled, hexcluded, hgroup, hraises,
    Call.request, keyLimit_rateKey (routeGroup_mem hgroup)]

end

/-! ## Runs -/

section

variable {settings : MiddlewareSettings} {r : Rounding} {arrivals : List Arrival} {a : Arrival}

theorem admitAll_concat :
    admitAll settings r (arrivals ++ [a]) = admitNext settings r (admitAll settings r arrivals) a :=
  List.foldl_concat _ _ _ _

theorem countersAfter_concat_none (h : callOf settings a = none) :
    countersAfter settings r (arrivals ++ [a]) = countersAfter settings r arrivals := by
  simp [countersAfter, List.filterMap_append, h]

theorem countersAfter_concat_some {call : Call} (h : callOf settings a = some call) :
    countersAfter settings r (arrivals ++ [a]) =
      ((countersAfter settings r arrivals).consume r
        (call.request (keyLimit settings) fun _ => settings.rateLimitWindowSeconds)).2 := by
  rw [countersAfter, List.filterMap_append, List.filterMap_cons_some h, List.filterMap_nil,
    storeAfter_concat]
  rfl

/-- The counters of a run have had its calls. -/
theorem admitAll_fst : (admitAll settings r arrivals).1 = countersAfter settings r arrivals := by
  induction arrivals using List.reverseRecOn with
  | nil => rfl
  | append_singleton arrivals a ih =>
      rw [admitAll_concat, admitNext, ih]
      dsimp only
      cases hcall : callOf settings a with
      | none => rw [admit_of_callOf_none hcall, countersAfter_concat_none hcall]
      | some call => rw [admit_of_callOf_some hcall, countersAfter_concat_some hcall]

theorem mem_of_mem_admitAll (h : a ∈ (admitAll settings r arrivals).2) : a ∈ arrivals := by
  induction arrivals using List.reverseRecOn with
  | nil => exact absurd h List.not_mem_nil
  | append_singleton arrivals last ih =>
      rw [admitAll_concat, admitNext] at h
      dsimp only at h
      split at h
      · rcases List.mem_append.mp h with hold | hnew
        · exact List.mem_append_left _ (ih hold)
        · exact List.mem_append_right _ hnew
      · exact List.mem_append_left _ (ih h)

/-- A window opens with a call. -/
theorem startedAt_mem {limit windowSeconds : ℤ} {times : List ℚ} {w : FixedWindow}
    (h : FixedWindow.after r limit windowSeconds times = some w) : w.startedAt ∈ times := by
  induction times using List.reverseRecOn generalizing w with
  | nil => cases h
  | append_singleton times now ih =>
      rw [FixedWindow.after_concat] at h
      cases h
      unfold FixedWindow.consume FixedWindow.current
      dsimp only
      cases hafter : FixedWindow.after r limit windowSeconds times with
      | none => simp
      | some w =>
          dsimp only
          split
          · simp
          · exact List.mem_append_left _ (ih hafter)

/-- A request of the peer for a route group that the limits apply to, in a span of time. -/
def isInSpan (settings : MiddlewareSettings) (host group : String) (t t' : ℚ) (a : Arrival) :
    Bool :=
  a.client = some host && a.type = "http" && !isExcluded settings a &&
    routeGroup settings a.method a.urlPath = some group && t ≤ a.now && a.now ≤ t'

/-- An untrusted peer is the client. -/
theorem resolveRequestIp_of_untrusted {host : String} {ip : IpAddress}
    (hhost : normalizeIp host.toList = some ip)
    (huntrusted : (TrustedClientIpResolver.new settings.trustedProxyCidrs).trusts ip = false)
    (hclient : a.client = some host) : resolveRequestIp settings a = some ip := by
  rw [resolveRequestIp, hclient, resolve_eq, hhost, Option.bind_some, resolution, huntrusted]
  rfl

/-- A request that the application gets has been counted. -/
theorem callOf_of_admitted {counters : BoundedMemoryRateLimitStore} {host group : String}
    {t t' : ℚ} (henabled : settings.rateLimitEnabled = true)
    (hclosed : settings.rateLimitFailClosed = true ∨ a.countersRaise = false)
    (hspan : isInSpan settings host group t t' a = true)
    (hadmitted : (admitOne settings r counters a).1 = none) :
    callOf settings a = some ⟨a.now, rateKey group (resolveRequestIp settings a)⟩ := by
  simp only [isInSpan, Bool.and_eq_true, decide_eq_true_eq, Bool.not_eq_true'] at hspan
  obtain ⟨⟨⟨⟨⟨-, htype⟩, hexcluded⟩, hgroup⟩, -⟩, -⟩ := hspan
  cases hallow : allowlistError settings a with
  | some error => simp [admitOne, htype, hallow] at hadmitted
  | none =>
      cases hraises : a.countersRaise with
      | false => simp [callOf, isCounted, htype, hallow, henabled, hexcluded, hraises, hgroup]
      | true =>
          have hfail : settings.rateLimitFailClosed = true := by simpa [hraises] using hclosed
          simp [admitOne, htype, hallow, enforceRateLimit, henabled, hexcluded, hgroup, hraises,
            hfail] at hadmitted

theorem now_of_callOf {call : Call} (h : callOf settings a = some call) : call.now = a.now := by
  unfold callOf at h
  split_ifs at h
  obtain ⟨group, -, rfl⟩ := Option.map_eq_some_iff.mp h
  rfl

/-- The clock readings of the calls are those of their requests. -/
theorem nows_sublist : List.Sublist ((arrivals.filterMap (callOf settings)).map (·.now))
    (arrivals.map (·.now)) := by
  induction arrivals with
  | nil => exact List.Sublist.refl _
  | cons a arrivals ih =>
      cases hcall : callOf settings a with
      | none =>
          rw [List.filterMap_cons_none hcall]
          exact ih.cons _
      | some call =>
          rw [List.filterMap_cons_some hcall, List.map_cons, List.map_cons, now_of_callOf hcall]
          exact ih.cons_cons _

theorem length_admitAll_concat {p : Arrival → Bool} :
    ((admitAll settings r (arrivals ++ [a])).2.filter p).length =
      ((admitAll settings r arrivals).2.filter p).length +
        if (admitOne settings r (countersAfter settings r arrivals) a).1 = none ∧ p a = true then 1
        else 0 := by
  rw [admitAll_concat, admitNext, admitAll_fst]
  dsimp only
  split_ifs <;> simp_all

/-- Fewer calls have fewer keys. -/
theorem length_dedup_keys_le {calls more : List Call} :
    (calls.map (·.key)).dedup.length ≤ ((calls ++ more).map (·.key)).dedup.length := by
  rw [← List.card_toFinset, ← List.card_toFinset]
  refine Finset.card_le_card fun key hkey => ?_
  rw [List.mem_toFinset] at hkey ⊢
  rw [List.map_append]
  exact List.mem_append_left _ hkey

/-- A request that is counted under the key. -/
theorem spanBound_counted {host group : String} {ip : IpAddress} {t t' : ℚ} {call : Call}
    (hgroup : group ∈ ["admin-security", "authentication", "resume-write"])
    (hcall : callOf settings a = some call) (hkey : call.key = rateKey group (some ip))
    (hbefore : ∀ earlier ∈ arrivals, earlier.now ≤ a.now)
    (hclock : ((arrivals.filterMap (callOf settings) ++ [call]).map (·.now)).Pairwise (· ≤ ·))
    (hkeys : ((arrivals.filterMap (callOf settings) ++ [call]).map (·.key)).dedup.length ≤
      settings.rateLimitMaxKeys)
    (hspan : r.elapsed t' t < settings.rateLimitWindowSeconds)
    (h : SpanBound (groupLimit settings group) t t'
      (privateWindow r (keyLimit settings) (fun _ => settings.rateLimitWindowSeconds)
        (arrivals.filterMap (callOf settings)) call.key)
      ((admitAll settings r arrivals).2.filter (isInSpan settings host group t t')).length) :
    SpanBound (groupLimit settings group) t t'
      (privateWindow r (keyLimit settings) (fun _ => settings.rateLimitWindowSeconds)
        (arrivals.filterMap (callOf settings) ++ [call]) call.key)
      ((admitAll settings r (arrivals ++ [a])).2.filter
        (isInSpan settings host group t t')).length := by
  have hnow : call.now = a.now := now_of_callOf hcall
  have hdecision : ((countersAfter settings r arrivals).consume r
      (call.request (keyLimit settings) fun _ => settings.rateLimitWindowSeconds)).1 = _ :=
    (store_refines_counters r settings.rateLimitMaxKeys).1 (keyLimit settings)
      (fun _ => settings.rateLimitWindowSeconds) (arrivals.filterMap (callOf settings)) call []
      hclock hkeys
  have hlimit : keyLimit settings call.key = groupLimit settings group := by
    rw [hkey, keyLimit_rateKey hgroup]
  have hstarted : ∀ w ∈ privateWindow r (keyLimit settings)
      (fun _ => settings.rateLimitWindowSeconds) (arrivals.filterMap (callOf settings)) call.key,
      w.startedAt ≤ call.now := by
    intro w hw
    obtain ⟨earlier, hearlier, hstarted⟩ := List.mem_map.mp (startedAt_mem hw)
    obtain ⟨b, hb, hcallb⟩ := List.mem_filterMap.mp (List.mem_of_mem_filter hearlier)
    rw [← hstarted, now_of_callOf hcallb, hnow]
    exact hbefore b hb
  have hearly : call.now < t → ((admitAll settings r arrivals).2.filter
      (isInSpan settings host group t t')).length = 0 := by
    intro hlate
    rw [List.length_eq_zero_iff, List.filter_eq_nil_iff]
    intro b hb hp
    simp only [isInSpan, Bool.and_eq_true, decide_eq_true_eq] at hp
    have hle := hbefore b (mem_of_mem_admitAll hb)
    rw [hnow] at hlate
    linarith [hp.1.2]
  rw [privateWindow_concat, Function.update_self, length_admitAll_concat]
  rw [hlimit] at hdecision ⊢
  refine (h.consume hspan hstarted hearly).mono (Nat.add_le_add_left ?_ _)
  by_cases hcounted : (admitOne settings r (countersAfter settings r arrivals) a).1 = none ∧
      isInSpan settings host group t t' a = true
  · rw [if_pos hcounted, if_pos]
    obtain ⟨hadmitted, hp⟩ := hcounted
    simp only [isInSpan, Bool.and_eq_true, decide_eq_true_eq] at hp
    rw [admit_of_callOf_some hcall] at hadmitted
    rw [← hdecision, hnow]
    refine ⟨?_, hp.1.2, hp.2⟩
    by_contra hdenied
    dsimp only at hadmitted
    rw [if_neg hdenied] at hadmitted
    exact Option.some_ne_none _ hadmitted
  · rw [if_neg hcounted]
    exact Nat.zero_le _

/-- The private counter of a key bounds the requests that the application gets. -/
theorem spanBound_admitAll {host group : String} {ip : IpAddress} {t t' : ℚ}
    (hgroup : group ∈ ["admin-security", "authentication", "resume-write"])
    (hhost : normalizeIp host.toList = some ip)
    (huntrusted : (TrustedClientIpResolver.new settings.trustedProxyCidrs).trusts ip = false)
    (henabled : settings.rateLimitEnabled = true)
    (hclosed : settings.rateLimitFailClosed = true ∨ ∀ a ∈ arrivals, a.countersRaise = false)
    (hclock : (arrivals.map (·.now)).Pairwise (· ≤ ·))
    (hkeys : ((arrivals.filterMap (callOf settings)).map (·.key)).dedup.length ≤
      settings.rateLimitMaxKeys)
    (hspan : r.elapsed t' t < settings.rateLimitWindowSeconds) :
    SpanBound (groupLimit settings group) t t'
      (privateWindow r (keyLimit settings) (fun _ => settings.rateLimitWindowSeconds)
        (arrivals.filterMap (callOf settings)) (rateKey group (some ip)))
      ((admitAll settings r arrivals).2.filter (isInSpan settings host group t t')).length := by
  induction arrivals using List.reverseRecOn with
  | nil => exact spanBound_initial
  | append_singleton arrivals a ih =>
      rw [List.filterMap_append] at hkeys
      have hcalls := @nows_sublist settings (arrivals ++ [a])
      have hbefore : ∀ earlier ∈ arrivals, earlier.now ≤ a.now := by
        rw [List.map_append, List.pairwise_append] at hclock
        exact fun earlier hearlier => hclock.2.2 _ (List.mem_map_of_mem hearlier) _ (by simp)
      have hih := ih
        (hclosed.imp_right fun hnever earlier hearlier =>
          hnever earlier (List.mem_append_left _ hearlier))
        (hclock.sublist (by simp))
        (length_dedup_keys_le.trans hkeys)
      have hcallOf
          (hadmitted : (admitOne settings r (countersAfter settings r arrivals) a).1 = none)
          (hp : isInSpan settings host group t t' a = true) :
          callOf settings a = some ⟨a.now, rateKey group (some ip)⟩ := by
        have hcounted := callOf_of_admitted henabled
          (hclosed.imp_right fun hnever => hnever a (by simp)) hp hadmitted
        have hclient : a.client = some host := by
          simp only [isInSpan, Bool.and_eq_true, decide_eq_true_eq] at hp
          exact hp.1.1.1.1.1
        rwa [resolveRequestIp_of_untrusted hhost huntrusted hclient] at hcounted
      rw [List.filterMap_append]
      by_cases hkey : ∃ call, callOf settings a = some call ∧ call.key = rateKey group (some ip)
      · obtain ⟨call, hcall, hkey⟩ := hkey
        rw [List.filterMap_append] at hcalls
        rw [List.filterMap_cons_some hcall, List.filterMap_nil] at hcalls hkeys ⊢
        rw [← hkey] at hih ⊢
        exact spanBound_counted hgroup hcall hkey hbefore (hclock.sublist hcalls) hkeys hspan hih
      · have hother : ¬((admitOne settings r (countersAfter settings r arrivals) a).1 = none ∧
            isInSpan settings host group t t' a = true) :=
          fun ⟨hadmitted, hp⟩ => hkey ⟨_, hcallOf hadmitted hp, rfl⟩
        rw [length_admitAll_concat, if_neg hother, Nat.add_zero]
        cases hcall : callOf settings a with
        | none => simpa [hcall] using hih
        | some call =>
            have hne : rateKey group (some ip) ≠ call.key := fun heq => hkey ⟨call, hcall, heq.symm⟩
            rw [List.filterMap_cons_some hcall, List.filterMap_nil, privateWindow_concat,
              Function.update_of_ne hne]
            exact hih

end

/-- While the clock does not go back and the counters have room for the clients of a run, the
application gets at most twice the limit of a route group from an untrusted peer in a span that is
shorter than the window, whatever forwarding headers the peer sends. -/
theorem admitted_at_most (settings : MiddlewareSettings) (r : Rounding) (arrivals : List Arrival)
    (host group : String) (ip : IpAddress) (t t' : ℚ)
    (hgroup : group ∈ ["admin-security", "authentication", "resume-write"])
    (hhost : normalizeIp host.toList = some ip)
    (huntrusted : (TrustedClientIpResolver.new settings.trustedProxyCidrs).trusts ip = false)
    (henabled : settings.rateLimitEnabled = true)
    (hclosed : settings.rateLimitFailClosed = true ∨ ∀ a ∈ arrivals, a.countersRaise = false)
    (hclock : (arrivals.map (·.now)).Pairwise (· ≤ ·))
    (hkeys : ((arrivals.filterMap (callOf settings)).map (·.key)).dedup.length ≤
      settings.rateLimitMaxKeys)
    (hspan : r.elapsed t' t < settings.rateLimitWindowSeconds) :
    ((admitAll settings r arrivals).2.filter (isInSpan settings host group t t')).length ≤
      2 * groupLimit settings group :=
  (spanBound_admitAll hgroup hhost huntrusted henabled hclosed hclock hkeys hspan).total

/-- No proxy is trusted, and every limit is one request. -/
def strictSettings : MiddlewareSettings where
  ipAllowlistEnabled := false
  ipAllowlistFailClosed := true
  ipEmergencyBypassCidrs := []
  trustedProxyCidrs := []
  rateLimitAuthRequests := 1

/-- A request to sign in, with a forged header. -/
def signIn (now : ℚ) (forwarded : String) : Arrival where
  now := now
  type := "http"
  method := "POST"
  urlPath := "/api/v1/auth/session"
  client := some "203.0.113.9"
  forwardedValues := [forwarded]
  database := none
  countersRaise := false

/-- Three forged headers around the end of a window: two of the requests are admitted. -/
theorem admitted_at_most_forged :
    ((admitAll strictSettings .exact
      [signIn 0 "10.0.0.1", signIn 59 "10.0.0.2", signIn 60 "10.0.0.3"]).2.filter
        (isInSpan strictSettings "203.0.113.9" "authentication" 1 60)).length ≤ 2 :=
  admitted_at_most strictSettings .exact
    [signIn 0 "10.0.0.1", signIn 59 "10.0.0.2", signIn 60 "10.0.0.3"] "203.0.113.9"
    "authentication" _ 1 60 (by decide) rfl (by decide) rfl (Or.inl rfl) (by decide) (by decide)
    (by norm_num [Rounding.elapsed, Rounding.exact, strictSettings])

end Security
end HireAndTech
