import HireAndTech.Base.Assignments
import HireAndTech.Base.Uuid
import HireAndTech.Security.Resolver

/-!
# Persistent IP rules

The rule mutations of `IpSecurityService`, each one serialized by the advisory lock, with
the audit events that they append, and the enforcement of the allowlist by
`IpSecurityMiddleware`.  The column {lit}`cidr` holds a network, and the containment
operator of the database is containment of networks.

Main results:

- Definitions {lit}`createRule`, {lit}`updateRule` and {lit}`deleteRule`: the mutations.
- Definition {lit}`enforceAllowlist`: the answer to a request.
- Theorem {lit}`rules_normalized`: stored networks are in normal form.
- Theorem {lit}`lockout_guard_agrees`: an accepted change leaves its caller allowed.
-/

namespace HireAndTech
namespace Security

open Network Text
open Catalogue (isSpace)

/-! ## Rows and errors -/

/-- Administrator-owned normalized IPv4/IPv6 network authorization rule. -/
structure IpAccessRule where
  id : UUID
  cidr : IpNetwork
  label : String
  description : Option String
  enabled : Bool
  createdBy : UUID
deriving DecidableEq

/-- `SecurityAuditEventType`. -/
inductive SecurityAuditEventType
  | ipAccessDenied
  | ipRuleCreated
  | ipRuleUpdated
  | ipRuleDisabled
  | ipRuleDeleted
  | ipEmergencyBypassUsed
deriving DecidableEq

/-- Sanitized request attributes permitted in persistent security events. -/
structure AuditContext where
  actorUserId : Option UUID
  requestIp : Option (List Char)
  userAgent : Option (List Char)
deriving DecidableEq

/-- A metadata value of one of the kinds that events keep. -/
inductive MetadataValue
  | text (value : Option (List Char))
  | number (value : ℚ)
  | flag (value : Bool)
  | null
  | nested
deriving DecidableEq

/-- Immutable-by-convention record of an IP-security decision or mutation. -/
structure SecurityAuditEvent where
  actorUserId : Option UUID
  eventType : SecurityAuditEventType
  requestIp : Option (List Char)
  userAgent : Option (List Char)
  resourceType : Option (List Char)
  resourceId : Option UUID
  eventMetadata : List (List Char × MetadataValue)
deriving DecidableEq

/-- The committed rules and events. -/
structure Store where
  rules : List IpAccessRule
  events : List SecurityAuditEvent
deriving DecidableEq

/-- An error of the service, with its HTTP status. -/
structure ApplicationError where
  code : String
  message : String
  status : Nat
deriving DecidableEq, Repr

/-- What a mutation raises. -/
inductive RuleError
  | application (error : ApplicationError)
  | valueError
deriving DecidableEq, Repr

/-- The settings that the rules and the middleware read. -/
structure Settings where
  ipAllowlistEnabled : Bool
  ipAllowlistFailClosed : Bool
  ipEmergencyBypassCidrs : List IpNetwork
deriving DecidableEq

/-- `_conflict`. -/
def conflict (message : String) : RuleError :=
  .application ⟨"CONFLICT", message, 409⟩

/-- The error of `_get_rule`. -/
def notFound : RuleError :=
  .application ⟨"NOT_FOUND", "The requested resource was not found.", 404⟩

/-- `_access_denied`. -/
def accessDenied : ApplicationError :=
  ⟨"IP_ACCESS_DENIED", "Access is not permitted.", 403⟩

/-! ## Audit events -/

/-- `_SENSITIVE_TERMS`. -/
def sensitiveTerms : List String :=
  ["authorization", "bearer ", "cookie", "password", "secret", "token", "credential"]

/-- `_JWT_PATTERN`. -/
def jwtPattern (u : Unicode) : Regex :=
  let segment : Regex := .plus (.satisfy fun c => c.isAlphanum || c = '_' || c = '-')
  .sequence [.boundary u.isWord, .text "eyJ", segment, .text ".", segment, .text ".", segment,
    .boundary u.isWord]

/-- The text contains a sensitive term, up to case. -/
def hasSensitiveTerm (u : Unicode) (value : List Char) : Bool :=
  sensitiveTerms.any fun term => decide (term.toList <:+: u.casefold value)

/-- `sanitize_user_agent`. -/
def sanitizeUserAgent (u : Unicode) (value : Option (List Char)) : Option (List Char) :=
  value.bind fun value =>
    let sanitized := strip isSpace (value.filter u.isPrintable)
    if hasSensitiveTerm u sanitized || (jwtPattern u).search sanitized then
      some "[redacted]".toList
    else if sanitized.take 512 = [] then none
    else some (sanitized.take 512)

/-- The item that an event keeps of an item of its metadata. -/
def safeItem (u : Unicode) (item : List Char × MetadataValue) :
    Option (List Char × MetadataValue) :=
  let safeKey := item.1.take 64
  if hasSensitiveTerm u safeKey then none
  else match item.2 with
    | .text value => some (safeKey, .text (sanitizeUserAgent u value))
    | .nested => none
    | value => some (safeKey, value)

/-- The metadata that an event keeps. -/
def safeMetadata (u : Unicode) (metadata : List (List Char × MetadataValue)) :
    List (List Char × MetadataValue) :=
  Base.assignAll ((metadata.take 16).filterMap (safeItem u))

/-- `add_audit_event`. -/
def addAuditEvent (u : Unicode) (store : Store) (eventType : SecurityAuditEventType)
    (context : AuditContext) (resourceType : Option (List Char)) (resourceId : Option UUID)
    (metadata : List (List Char × MetadataValue)) : Store :=
  { store with
    events := store.events ++
      [{ actorUserId := context.actorUserId
         eventType := eventType
         requestIp := context.requestIp
         userAgent := sanitizeUserAgent u context.userAgent
         resourceType := resourceType.bind fun text => if text = [] then none else text.take 64
         resourceId := resourceId
         eventMetadata := safeMetadata u metadata }] }

/-! ## Mutations -/

/-- `IpRuleRepository.get`. -/
def Store.get (store : Store) (ruleId : UUID) : Option IpAccessRule :=
  store.rules.find? (·.id = ruleId)

/-- `IpRuleRepository.get_by_cidr`. -/
def Store.getByCidr (store : Store) (cidr : IpNetwork) : Option IpAccessRule :=
  store.rules.find? (·.cidr = cidr)

/-- `IpRuleRepository.list_enabled`. -/
def Store.listEnabled (store : Store) : List IpAccessRule :=
  store.rules.filter (·.enabled)

/-- The unique columns of `ip_access_rules` hold no value twice. -/
def Store.unique (store : Store) : Bool :=
  (store.rules.map (·.id)).Nodup && (store.rules.map (·.cidr)).Nodup

/-- `session.commit`, which raises `IntegrityError` on a duplicate. -/
def Store.commit (store : Store) : Except RuleError Store :=
  if store.unique then .ok store
  else .error (conflict "An IP rule for this network already exists.")

/-- `normalize_network` of a text that a caller gives. -/
def parseCidr (cidr : List Char) : Except RuleError IpNetwork :=
  match normalizeNetwork cidr with
  | some network => .ok network
  | none => .error .valueError

/-- `create_rule`; {lit}`newId` is the id that the database gives the row. -/
def createRule (u : Unicode) (store : Store) (newId actor : UUID) (context : AuditContext)
    (cidr : List Char) (label : String) (description : Option String) (enabled : Bool) :
    Except RuleError Store := do
  let normalized ← parseCidr cidr
  if (store.getByCidr normalized).isSome then
    throw (conflict "An IP rule for this network already exists.")
  let rule : IpAccessRule :=
    { id := newId, cidr := normalizeIpNetwork normalized, label, description, enabled,
      createdBy := actor }
  let store := { store with rules := store.rules ++ [rule] }
  (addAuditEvent u store .ipRuleCreated context (some "ip_access_rule".toList) (some rule.id)
    []).commit

/-- The enabled networks after a change: those of the other rules, and the target when it
is enabled. -/
def remainingNetworks (store : Store) (ruleId : UUID) (targetCidr : IpNetwork)
    (targetEnabled : Bool) : List IpNetwork :=
  (store.listEnabled.filter (·.id ≠ ruleId)).map (normalizeIpNetwork ·.cidr) ++
    if targetEnabled then [normalizeIpNetwork targetCidr] else []

/-- `_guard_lockout`. -/
def guardLockout (settings : Settings) (store : Store) (ruleId : UUID)
    (currentIp : Option IpAddress) (targetCidr : IpNetwork) (targetEnabled : Bool) :
    Except RuleError Unit :=
  if !settings.ipAllowlistEnabled then .ok ()
  else if currentIp.any fun ip => addressInNetworks ip settings.ipEmergencyBypassCidrs then .ok ()
  else match currentIp with
    | none => .error (conflict "The change could lock out the current administrator.")
    | some ip =>
        if addressInNetworks ip (remainingNetworks store ruleId targetCidr targetEnabled) then
          .ok ()
        else .error (conflict "The change could lock out the current administrator.")

/-- What a caller of {lit}`updateRule` supplies. -/
structure RuleChange where
  cidr : Option (List Char)
  label : Option String
  description : Option String
  descriptionSet : Bool
  enabled : Option Bool
deriving DecidableEq

/-- The network of a rule after a change. -/
def nextCidr (rule : IpAccessRule) (change : RuleChange) : Except RuleError IpNetwork :=
  match change.cidr with
  | some cidr => parseCidr cidr
  | none => .ok rule.cidr

/-- The rule after a change. -/
def changedRule (rule : IpAccessRule) (change : RuleChange) (next : IpNetwork) : IpAccessRule :=
  { rule with
    cidr := normalizeIpNetwork next
    label := change.label.getD rule.label
    description := if change.descriptionSet then change.description else rule.description
    enabled := change.enabled.getD rule.enabled }

/-- `update_rule`. -/
def updateRule (u : Unicode) (settings : Settings) (store : Store) (context : AuditContext)
    (ruleId : UUID) (change : RuleChange) (currentIp : Option IpAddress) :
    Except RuleError Store := do
  let some rule := store.get ruleId | throw notFound
  let next ← nextCidr rule change
  if next ≠ rule.cidr && (store.getByCidr next).any (·.id ≠ rule.id) then
    throw (conflict "An IP rule for this network already exists.")
  let nextEnabled := change.enabled.getD rule.enabled
  guardLockout settings store rule.id currentIp next nextEnabled
  let eventType := if rule.enabled && !nextEnabled then .ipRuleDisabled else .ipRuleUpdated
  let store :=
    { store with rules := Relational.put (·.id) (changedRule rule change next) store.rules }
  (addAuditEvent u store eventType context (some "ip_access_rule".toList) (some rule.id)
    []).commit

/-- `delete_rule`. -/
def deleteRule (u : Unicode) (settings : Settings) (store : Store) (context : AuditContext)
    (ruleId : UUID) (currentIp : Option IpAddress) : Except RuleError Store := do
  let some rule := store.get ruleId | throw notFound
  guardLockout settings store rule.id currentIp rule.cidr false
  let store := addAuditEvent u store .ipRuleDeleted context (some "ip_access_rule".toList)
    (some rule.id) [("cidr".toList, .text (some rule.cidr.text))]
  Store.commit { store with rules := store.rules.filter (·.id ≠ rule.id) }

/-! ## Enforcement -/

/-- `IpRuleRepository.matches`. -/
def Store.matches (store : Store) (clientIp : IpAddress) : Bool :=
  store.rules.any fun rule => rule.enabled && rule.cidr.contains clientIp

/-- `_enforce_allowlist`: the error that answers the request, or {lean}`none` when it may
pass; the store is {lean}`none` when the database cannot be read. -/
def enforceAllowlist (settings : Settings) (store : Option Store) (clientIp : Option IpAddress) :
    Option ApplicationError :=
  if clientIp.any fun ip => addressInNetworks ip settings.ipEmergencyBypassCidrs then none
  else match store with
    | none => if settings.ipAllowlistFailClosed then some accessDenied else none
    | some store => if clientIp.any store.matches then none else some accessDenied

/-! ## Runs of mutations -/

/-- One call of the service. -/
inductive RuleOp
  | createRule (newId actor : UUID) (context : AuditContext) (cidr : List Char) (label : String)
      (description : Option String) (enabled : Bool)
  | updateRule (context : AuditContext) (ruleId : UUID) (change : RuleChange)
      (currentIp : Option IpAddress)
  | deleteRule (context : AuditContext) (ruleId : UUID) (currentIp : Option IpAddress)
deriving DecidableEq

/-- What a call commits, or the error that it raises. -/
def applyOp (u : Unicode) (settings : Settings) (store : Store) : RuleOp → Except RuleError Store
  | .createRule newId actor context cidr label description enabled =>
      createRule u store newId actor context cidr label description enabled
  | .updateRule context ruleId change currentIp =>
      updateRule u settings store context ruleId change currentIp
  | .deleteRule context ruleId currentIp => deleteRule u settings store context ruleId currentIp

/-- The store after a sequence of calls, of which those that raise change nothing. -/
def runOps (u : Unicode) (settings : Settings) (store : Store) (ops : List RuleOp) : Store :=
  ops.foldl (fun store op => (applyOp u settings store op).toOption.getD store) store

/-- The address that the lockout guard of a call is given. -/
def RuleOp.guardedIp : RuleOp → Option (Option IpAddress)
  | .createRule .. => none
  | .updateRule _ _ _ currentIp => some currentIp
  | .deleteRule _ _ currentIp => some currentIp

/-! ## What accepted mutations do -/

section

variable {u : Unicode} {settings : Settings} {store store' : Store} {context : AuditContext}

@[simp]
theorem normalizeIpNetwork_idem (network : IpNetwork) :
    normalizeIpNetwork (normalizeIpNetwork network) = normalizeIpNetwork network := by
  cases network with
  | v4 network => rfl
  | v6 network =>
      cases h : ipv4Mapped network.networkAddress with
      | none => simp [normalizeIpNetwork, h]
      | some mapped => simp [normalizeIpNetwork, h]

@[simp]
theorem addAuditEvent_rules (eventType : SecurityAuditEventType)
    (resourceType : Option (List Char)) (resourceId : Option UUID)
    (metadata : List (List Char × MetadataValue)) :
    (addAuditEvent u store eventType context resourceType resourceId metadata).rules =
      store.rules :=
  rfl

theorem bind_eq_ok {α β ε : Type} {x : Except ε α} {f : α → Except ε β} {b : β} :
    x >>= f = .ok b ↔ ∃ a, x = .ok a ∧ f a = .ok b := by
  cases x with
  | error e => simp [bind, Except.bind]
  | ok a => simp [bind, Except.bind]

theorem commit_eq_ok (h : store.commit = .ok store') : store' = store := by
  unfold Store.commit at h
  split at h
  · cases h
    rfl
  · contradiction

theorem get_eq_some {ruleId : UUID} {rule : IpAccessRule} (h : store.get ruleId = some rule) :
    rule ∈ store.rules ∧ rule.id = ruleId :=
  ⟨List.mem_of_find?_eq_some h, by simpa using List.find?_some h⟩

/-- A created rule is appended in normal form. -/
theorem createRule_eq_ok {newId actor : UUID} {cidr : List Char} {label : String}
    {description : Option String} {enabled : Bool}
    (h : createRule u store newId actor context cidr label description enabled = .ok store') :
    ∃ rule : IpAccessRule, store'.rules = store.rules ++ [rule] ∧
      normalizeIpNetwork rule.cidr = rule.cidr := by
  simp only [createRule, bind_eq_ok] at h
  obtain ⟨normalized, _, h⟩ := h
  split at h
  · contradiction
  · rw [commit_eq_ok h]
    exact ⟨_, rfl, normalizeIpNetwork_idem normalized⟩

/-- An accepted change has passed the lockout guard. -/
theorem updateRule_eq_ok {ruleId : UUID} {change : RuleChange} {currentIp : Option IpAddress}
    (h : updateRule u settings store context ruleId change currentIp = .ok store') :
    ∃ rule next, rule ∈ store.rules ∧
      guardLockout settings store rule.id currentIp next (change.enabled.getD rule.enabled) =
        .ok () ∧
      store'.rules = Relational.put (·.id) (changedRule rule change next) store.rules := by
  unfold updateRule at h
  split at h
  · rename_i rule hrule
    simp only [bind_eq_ok] at h
    obtain ⟨next, _, h⟩ := h
    split at h
    · contradiction
    · simp only [bind_eq_ok] at h
      obtain ⟨_, hguard, h⟩ := h
      rw [commit_eq_ok h]
      exact ⟨rule, next, (get_eq_some hrule).1, hguard, rfl⟩
  · contradiction

/-- An accepted deletion has passed the lockout guard. -/
theorem deleteRule_eq_ok {ruleId : UUID} {currentIp : Option IpAddress}
    (h : deleteRule u settings store context ruleId currentIp = .ok store') :
    ∃ rule, rule ∈ store.rules ∧
      guardLockout settings store rule.id currentIp rule.cidr false = .ok () ∧
      store'.rules = store.rules.filter (·.id ≠ rule.id) := by
  unfold deleteRule at h
  split at h
  · rename_i rule hrule
    simp only [bind_eq_ok] at h
    obtain ⟨_, hguard, h⟩ := h
    rw [commit_eq_ok h]
    exact ⟨rule, (get_eq_some hrule).1, hguard, rfl⟩
  · contradiction

/-- What the lockout guard has seen: a bypass, another enabled rule, or the target. -/
theorem guardLockout_eq_ok {ruleId : UUID} {currentIp : Option IpAddress} {target : IpNetwork}
    {targetEnabled : Bool} (henabled : settings.ipAllowlistEnabled = true)
    (h : guardLockout settings store ruleId currentIp target targetEnabled = .ok ()) :
    ∃ ip, currentIp = some ip ∧
      (addressInNetworks ip settings.ipEmergencyBypassCidrs = true ∨
        (∃ rule ∈ store.rules, rule.enabled = true ∧ rule.id ≠ ruleId ∧
          (normalizeIpNetwork rule.cidr).contains ip = true) ∨
        (targetEnabled = true ∧ (normalizeIpNetwork target).contains ip = true)) := by
  cases currentIp with
  | none => simp [guardLockout, henabled] at h
  | some ip =>
      refine ⟨ip, rfl, ?_⟩
      by_cases hbypass : addressInNetworks ip settings.ipEmergencyBypassCidrs = true
      · exact Or.inl hbypass
      · right
        simp only [guardLockout, henabled, Bool.not_true, Bool.false_eq_true, if_false,
          Option.any_some, hbypass] at h
        split at h
        · rename_i hmember
          obtain ⟨network, hnetwork, hcontains⟩ := List.any_eq_true.mp hmember
          rw [remainingNetworks, List.mem_append] at hnetwork
          rcases hnetwork with hother | htarget
          · obtain ⟨rule, hrule, rfl⟩ := List.mem_map.mp hother
            simp only [Store.listEnabled, List.mem_filter, decide_eq_true_eq] at hrule
            exact Or.inl ⟨rule, hrule.1.1, hrule.1.2, hrule.2, hcontains⟩
          · split at htarget
            · rename_i hon
              rw [List.mem_singleton] at htarget
              exact Or.inr ⟨hon, htarget ▸ hcontains⟩
            · contradiction
        · contradiction

/-! ## Reachable stores -/

/-- Every stored network is in normal form. -/
def Normalized (store : Store) : Prop :=
  ∀ rule ∈ store.rules, normalizeIpNetwork rule.cidr = rule.cidr

theorem Normalized.applyOp (h : Normalized store) {op : RuleOp}
    (hop : applyOp u settings store op = .ok store') : Normalized store' := by
  intro x hx
  cases op with
  | createRule newId actor context cidr label description enabled =>
      obtain ⟨rule, hrules, hnormal⟩ := createRule_eq_ok hop
      rw [hrules, List.mem_append, List.mem_singleton] at hx
      rcases hx with hx | rfl
      · exact h x hx
      · exact hnormal
  | updateRule context ruleId change currentIp =>
      obtain ⟨rule, next, _, _, hrules⟩ := updateRule_eq_ok hop
      rw [hrules] at hx
      obtain ⟨y, hy, rfl⟩ := Relational.mem_updateWhere.mp hx
      split
      · exact normalizeIpNetwork_idem next
      · exact h y hy
  | deleteRule context ruleId currentIp =>
      obtain ⟨rule, _, _, hrules⟩ := deleteRule_eq_ok hop
      rw [hrules] at hx
      exact h x (List.mem_of_mem_filter hx)

/-- Stored networks are in normal form after every sequence of calls. -/
theorem rules_normalized (ops : List RuleOp) (h : Normalized store) :
    Normalized (runOps u settings store ops) := by
  induction ops generalizing store with
  | nil => exact h
  | cons op ops ih =>
      apply ih
      cases hop : Security.applyOp u settings store op with
      | error e => simpa [hop, Except.toOption] using h
      | ok store' => simpa [hop, Except.toOption] using h.applyOp hop

/-- An address in an enabled rule of normal form may pass. -/
theorem enforceAllowlist_of_rule {ip : IpAddress} {rule : IpAccessRule} (hrule : rule ∈ store.rules)
    (henabled : rule.enabled = true) (hcontains : rule.cidr.contains ip = true) :
    enforceAllowlist settings (some store) (some ip) = none := by
  have hmatch : store.matches ip = true :=
    List.any_eq_true.mpr ⟨rule, hrule, by simp [henabled, hcontains]⟩
  unfold enforceAllowlist
  split
  · rfl
  · simp [hmatch]

end

/-- With the allowlist enabled, after every sequence of calls the change or deletion of a
rule that is accepted for an address leaves that address allowed. -/
theorem lockout_guard_agrees (u : Unicode) (settings : Settings) (ops : List RuleOp) (op : RuleOp)
    (currentIp : Option IpAddress) (store' : Store) (henabled : settings.ipAllowlistEnabled = true)
    (hguarded : op.guardedIp = some currentIp)
    (haccepted : applyOp u settings (runOps u settings ⟨[], []⟩ ops) op = .ok store') :
    enforceAllowlist settings (some store') currentIp = none := by
  have hnormal : Normalized (runOps u settings ⟨[], []⟩ ops) :=
    rules_normalized ops fun _ h => absurd h List.not_mem_nil
  generalize runOps u settings ⟨[], []⟩ ops = store at hnormal haccepted
  cases op with
  | createRule => contradiction
  | updateRule context ruleId change ip =>
      cases hguarded
      obtain ⟨rule, next, hrule, hguard, hrules⟩ := updateRule_eq_ok haccepted
      obtain ⟨ip, rfl, hbypass | ⟨x, hx, hon, hne, hcontains⟩ | ⟨hon, hcontains⟩⟩ :=
        guardLockout_eq_ok henabled hguard
      · simp [enforceAllowlist, hbypass]
      · have hstays : x ∈ store'.rules := by
          rw [hrules]
          exact Relational.mem_updateWhere.mpr ⟨x, hx, if_neg (by simp [changedRule, hne])⟩
        exact enforceAllowlist_of_rule hstays hon (hnormal x hx ▸ hcontains)
      · have hchanged : changedRule rule change next ∈ store'.rules := by
          rw [hrules]
          exact Relational.mem_updateWhere.mpr ⟨rule, hrule, if_pos (by simp [changedRule])⟩
        exact enforceAllowlist_of_rule hchanged hon hcontains
  | deleteRule context ruleId ip =>
      cases hguarded
      obtain ⟨rule, _, hguard, hrules⟩ := deleteRule_eq_ok haccepted
      obtain ⟨ip, rfl, hbypass | ⟨x, hx, hon, hne, hcontains⟩ | ⟨hon, _⟩⟩ :=
        guardLockout_eq_ok henabled hguard
      · simp [enforceAllowlist, hbypass]
      · have hstays : x ∈ store'.rules := by
          rw [hrules, List.mem_filter]
          exact ⟨hx, by simpa using hne⟩
        exact enforceAllowlist_of_rule hstays hon (hnormal x hx ▸ hcontains)
      · contradiction

/-- Two rules are stored, and an administrator inside the first deletes the second. -/
theorem lockout_guard_agrees_deletion :
    let settings : Settings := ⟨true, true, []⟩
    let context : AuditContext := ⟨none, none, none⟩
    let ops : List RuleOp :=
      [.createRule 1 7 context "10.0.0.0/8".toList "office" none true,
        .createRule 2 7 context "::ffff:192.0.2.0/120".toList "mapped" none true]
    ∃ store', applyOp .ascii settings (runOps .ascii settings ⟨[], []⟩ ops)
        (.deleteRule context 2 (some (.v4 0x0A010203))) = .ok store' ∧
      enforceAllowlist settings (some store') (some (.v4 0x0A010203)) = none :=
  ⟨_, rfl, lockout_guard_agrees .ascii ⟨true, true, []⟩
    [.createRule 1 7 ⟨none, none, none⟩ "10.0.0.0/8".toList "office" none true,
      .createRule 2 7 ⟨none, none, none⟩ "::ffff:192.0.2.0/120".toList "mapped" none true]
    (.deleteRule ⟨none, none, none⟩ 2 (some (.v4 0x0A010203))) (some (.v4 0x0A010203)) _ rfl rfl
    rfl⟩

end Security
end HireAndTech
