import HireAndTech.Base.Transaction
import HireAndTech.Security.Rules

/-!
# Rule mutations as transactions

The calls of `IpSecurityService` statement by statement, each one in a session of its own.  Every
statement may fail, as the environment decides, and what a call has not committed is lost with its
session.  The refresh that follows a commit is left out.

Main results:

- Definitions {lit}`Service.createRule`, {lit}`Service.updateRule` and {lit}`Service.deleteRule`:
  the calls.
- Theorem {lit}`Service.serve_refines`: a call that returns commits what the mutation of
  {lit}`HireAndTech.Security` commits.
- Theorem {lit}`Service.mutation_atomic`: a call commits its change and one event that names the
  rule, or it raises and commits nothing.
-/

namespace HireAndTech
namespace Security
namespace Service

open Base Base.Transaction Network Text

/-! ## Statements -/

/-- The statements of a call, each of which is sent at most once. -/
inductive Statement
  | lockMutations
  | get
  | getByCidr
  | listEnabled
  | flush
  | commit
  | rollback
deriving DecidableEq, Repr

/-- What the database raises. -/
inductive DatabaseError
  | integrityError
  | other
deriving DecidableEq, Repr

/-- The statements of a call that fail. -/
abbrev Environment :=
  Statement → Option DatabaseError

/-- What a call raises. -/
inductive ServiceError
  | rule (error : RuleError)
  | database (error : DatabaseError)
deriving DecidableEq, Repr

abbrev Action (α : Type) :=
  Transaction Store ServiceError α

variable (u : Unicode) (settings : Settings) (env : Environment)

def send (statement : Statement) : Action Unit :=
  match env statement with
  | none => pure ()
  | some error => throw (.database error)

/-- An outcome without a statement. -/
def check {α : Type} (result : Except RuleError α) : Action α :=
  lift (result.mapError .rule)

/-- The refusal of a network that another rule has. -/
def refuseIf (duplicate : Bool) : Action Unit :=
  if duplicate then throw (.rule (conflict "An IP rule for this network already exists."))
  else pure ()

/-- `session.flush`, which sends the pending rows. -/
def flush (statement : Statement) : Action Unit := do
  send env statement
  let store ← read
  if store.unique then return () else throw (.database .integrityError)

/-- `session.commit`, which flushes first. -/
def commit : Action Unit := do
  flush env .commit
  Transaction.commit

/-- The handler of the mutations. -/
def onError {α : Type} : ServiceError → Action α
  | .database .integrityError => do
      send env .rollback
      rollback
      throw (.rule (conflict "An IP rule for this network already exists."))
  | error => throw error

/-! ## Calls -/

/-- `create_rule`. -/
def createRule (newId actor : UUID) (context : AuditContext) (cidr : List Char) (label : String)
    (description : Option String) (enabled : Bool) : Action (Option IpAccessRule) := do
  send env .lockMutations
  let normalized ← check (parseCidr cidr)
  send env .getByCidr
  let store ← read
  refuseIf (store.getByCidr normalized).isSome
  let rule : IpAccessRule :=
    { id := newId, cidr := normalizeIpNetwork normalized, label, description, enabled,
      createdBy := actor }
  change fun store => { store with rules := store.rules ++ [rule] }
  tryCatch (do
    flush env .flush
    change fun store => addAuditEvent u store .ipRuleCreated context
      (some "ip_access_rule".toList) (some rule.id) []
    commit env) (onError env)
  return some rule

/-- `_get_rule`. -/
def getRule (ruleId : UUID) : Action IpAccessRule := do
  send env .get
  let store ← read
  match store.get ruleId with
  | some rule => return rule
  | none => throw (.rule notFound)

/-- The rules are read where the outcome of the guard is still open. -/
def sendListEnabled (currentIp : Option IpAddress) : Action Unit :=
  if settings.ipAllowlistEnabled &&
      currentIp.any fun ip => !addressInNetworks ip settings.ipEmergencyBypassCidrs then
    send env .listEnabled
  else pure ()

/-- `_guard_lockout`. -/
def guard (ruleId : UUID) (currentIp : Option IpAddress) (targetCidr : IpNetwork)
    (targetEnabled : Bool) : Action Unit := do
  sendListEnabled settings env currentIp
  let store ← read
  check (guardLockout settings store ruleId currentIp targetCidr targetEnabled)

/-- The check of `update_rule` for another rule with the same network. -/
def refuseDuplicate (rule : IpAccessRule) (next : IpNetwork) : Action Unit :=
  if next ≠ rule.cidr then do
    send env .getByCidr
    let store ← read
    refuseIf ((store.getByCidr next).any (·.id ≠ rule.id))
  else pure ()

/-- `update_rule`. -/
def updateRule (context : AuditContext) (ruleId : UUID) (change : RuleChange)
    (currentIp : Option IpAddress) : Action (Option IpAccessRule) := do
  send env .lockMutations
  let rule ← getRule env ruleId
  let next ← check (nextCidr rule change)
  refuseDuplicate env rule next
  let nextEnabled := change.enabled.getD rule.enabled
  guard settings env rule.id currentIp next nextEnabled
  let changed := changedRule rule change next
  Transaction.change fun store =>
    { store with rules := Relational.put (·.id) changed store.rules }
  let eventType := if rule.enabled && !nextEnabled then .ipRuleDisabled else .ipRuleUpdated
  Transaction.change fun store => addAuditEvent u store eventType context
    (some "ip_access_rule".toList) (some rule.id) []
  tryCatch (commit env) (onError env)
  return some changed

/-- `delete_rule`. -/
def deleteRule (context : AuditContext) (ruleId : UUID) (currentIp : Option IpAddress) :
    Action (Option IpAccessRule) := do
  send env .lockMutations
  let rule ← getRule env ruleId
  guard settings env rule.id currentIp rule.cidr false
  change fun store => addAuditEvent u store .ipRuleDeleted context
    (some "ip_access_rule".toList) (some rule.id) [("cidr".toList, .text (some rule.cidr.text))]
  change fun store => { store with rules := store.rules.filter (·.id ≠ rule.id) }
  commit env
  return none

/-- A call of the service. -/
def serve : RuleOp → Action (Option IpAccessRule)
  | .createRule newId actor context cidr label description enabled =>
      createRule u env newId actor context cidr label description enabled
  | .updateRule context ruleId change currentIp =>
      updateRule u settings env context ruleId change currentIp
  | .deleteRule context ruleId currentIp => deleteRule u settings env context ruleId currentIp

/-! ## What a call commits -/

section

variable {u settings env}
variable {α : Type} {s s' : Session Store} {store : Store} {statement : Statement}

theorem quiet_send : (send env statement).Quiet := by
  unfold send
  split
  · exact quiet_pure
  · exact quiet_throw

theorem returns_send {done : Unit} (h : (send env statement).Returns s done s') : s' = s := by
  unfold send at h
  split at h
  · exact (returns_pure_iff.mp h).2.symm
  · exact absurd h not_returns_throw

theorem quiet_flush : (flush env statement).Quiet := by
  refine quiet_send.bind fun _ => quiet_read.bind fun store => ?_
  split
  · exact quiet_pure
  · exact quiet_throw

/-- A flush returns only when the unique columns hold no value twice. -/
theorem returns_flush {done : Unit} (h : (flush env statement).Returns s done s') :
    s' = s ∧ s.working.unique = true := by
  simp only [flush, returns_bind_iff, returns_read_iff] at h
  obtain ⟨_, _, hsend, shown, _, ⟨rfl, rfl⟩, h⟩ := h
  cases returns_send hsend
  split at h
  · exact ⟨(returns_pure_iff.mp h).2.symm, ‹_›⟩
  · exact absurd h not_returns_throw

theorem atomic_commit : (commit env).Atomic :=
  quiet_flush.bind_atomic fun _ => Transaction.atomic_commit

theorem returns_commit {done : Unit} (h : (commit env).Returns s done s') :
    s'.committed = s.working ∧ s.working.unique = true := by
  simp only [commit, returns_bind_iff, returns_commit_iff] at h
  obtain ⟨_, _, hflush, rfl⟩ := h
  obtain ⟨rfl, hunique⟩ := returns_flush hflush
  exact ⟨rfl, hunique⟩

theorem quiet_onError {error : ServiceError} : (onError env error : Action α).Quiet := by
  unfold onError
  split
  · exact quiet_send.bind fun _ => quiet_rollback.bind fun _ => quiet_throw
  · exact quiet_throw

theorem not_returns_onError {error : ServiceError} {a : α} :
    ¬(onError env error : Action α).Returns s a s' := by
  intro h
  unfold onError at h
  split at h
  · simp [returns_bind_iff] at h
  · exact not_returns_throw h

theorem quiet_getRule {ruleId : UUID} : (getRule env ruleId).Quiet := by
  refine quiet_send.bind fun _ => quiet_read.bind fun store => ?_
  split
  · exact quiet_pure
  · exact quiet_throw

theorem returns_getRule {ruleId : UUID} {rule : IpAccessRule}
    (h : (getRule env ruleId).Returns s rule s') :
    s' = s ∧ s.working.get ruleId = some rule := by
  simp only [getRule, returns_bind_iff, returns_read_iff] at h
  obtain ⟨_, _, hsend, shown, _, ⟨rfl, rfl⟩, h⟩ := h
  cases returns_send hsend
  split at h
  · obtain ⟨rfl, rfl⟩ := returns_pure_iff.mp h
    exact ⟨rfl, ‹_›⟩
  · exact absurd h not_returns_throw

theorem quiet_sendListEnabled {currentIp : Option IpAddress} :
    (sendListEnabled settings env currentIp).Quiet := by
  unfold sendListEnabled
  split
  · exact quiet_send
  · exact quiet_pure

theorem quiet_guard {ruleId : UUID} {currentIp : Option IpAddress} {target : IpNetwork}
    {targetEnabled : Bool} : (guard settings env ruleId currentIp target targetEnabled).Quiet :=
  quiet_sendListEnabled.bind fun _ => quiet_read.bind fun _ => quiet_lift

theorem returns_check {result : Except RuleError α} {a : α}
    (h : (check result).Returns s a s') : s' = s ∧ result = .ok a := by
  rw [check, returns_lift_iff] at h
  cases result with
  | error e => simp [Except.mapError] at h
  | ok b => exact ⟨h.2.symm, by simpa [Except.mapError] using h.1⟩

/-- A guard that returns has accepted the change. -/
theorem returns_guard {ruleId : UUID} {currentIp : Option IpAddress} {target : IpNetwork}
    {targetEnabled : Bool} {done : Unit}
    (h : (guard settings env ruleId currentIp target targetEnabled).Returns s done s') :
    s' = s ∧ guardLockout settings s.working ruleId currentIp target targetEnabled = .ok () := by
  simp only [guard, returns_bind_iff, returns_read_iff] at h
  obtain ⟨_, middle, hsend, shown, _, ⟨rfl, rfl⟩, h⟩ := h
  have hmiddle : middle = s := by
    unfold sendListEnabled at hsend
    split at hsend
    · exact returns_send hsend
    · exact (returns_pure_iff.mp hsend).2.symm
  obtain ⟨rfl, hguard⟩ := returns_check h
  exact ⟨hmiddle, hmiddle ▸ hguard⟩

theorem quiet_refuseIf {duplicate : Bool} : (refuseIf duplicate).Quiet := by
  unfold refuseIf
  split
  · exact quiet_throw
  · exact quiet_pure

theorem returns_refuseIf {duplicate : Bool} {done : Unit}
    (h : (refuseIf duplicate).Returns s done s') : s' = s ∧ duplicate = false := by
  unfold refuseIf at h
  split at h
  · exact absurd h not_returns_throw
  · rename_i hnot
    exact ⟨(returns_pure_iff.mp h).2.symm, Bool.eq_false_of_not_eq_true hnot⟩

theorem quiet_refuseDuplicate {rule : IpAccessRule} {next : IpNetwork} :
    (refuseDuplicate env rule next).Quiet := by
  unfold refuseDuplicate
  split
  · exact quiet_send.bind fun _ => quiet_read.bind fun _ => quiet_refuseIf
  · exact quiet_pure

theorem returns_refuseDuplicate {rule : IpAccessRule} {next : IpNetwork} {done : Unit}
    (h : (refuseDuplicate env rule next).Returns s done s') :
    s' = s ∧ (next ≠ rule.cidr && (s.working.getByCidr next).any (·.id ≠ rule.id)) = false := by
  unfold refuseDuplicate at h
  split at h
  · rename_i hne
    simp only [returns_bind_iff, returns_read_iff] at h
    obtain ⟨_, _, hsend, shown, _, ⟨rfl, rfl⟩, h⟩ := h
    cases returns_send hsend
    obtain ⟨rfl, hnone⟩ := returns_refuseIf h
    exact ⟨rfl, by rw [hnone, Bool.and_false]⟩
  · rename_i hsame
    exact ⟨(returns_pure_iff.mp h).2.symm, by simp [not_not.mp hsame]⟩

/-! ## Calls that raise -/

theorem atomic_createRule {newId actor : UUID} {context : AuditContext} {cidr : List Char}
    {label : String} {description : Option String} {enabled : Bool} :
    (createRule u env newId actor context cidr label description enabled).Atomic := by
  refine quiet_send.bind_atomic fun _ => quiet_lift.bind_atomic fun normalized =>
    quiet_send.bind_atomic fun _ => quiet_read.bind_atomic fun store =>
    quiet_refuseIf.bind_atomic fun _ => quiet_change.bind_atomic fun _ => ?_
  refine Atomic.bind_pure (Atomic.tryCatch ?_ fun _ => quiet_onError)
  exact quiet_flush.bind_atomic fun _ => quiet_change.bind_atomic fun _ => atomic_commit

theorem atomic_updateRule {context : AuditContext} {ruleId : UUID} {change : RuleChange}
    {currentIp : Option IpAddress} :
    (updateRule u settings env context ruleId change currentIp).Atomic := by
  refine quiet_send.bind_atomic fun _ => quiet_getRule.bind_atomic fun rule =>
    quiet_lift.bind_atomic fun next => quiet_refuseDuplicate.bind_atomic fun _ =>
    quiet_guard.bind_atomic fun _ => quiet_change.bind_atomic fun _ =>
    quiet_change.bind_atomic fun _ => ?_
  exact (atomic_commit.tryCatch fun _ => quiet_onError).bind_pure

theorem atomic_deleteRule {context : AuditContext} {ruleId : UUID}
    {currentIp : Option IpAddress} :
    (deleteRule u settings env context ruleId currentIp).Atomic := by
  refine quiet_send.bind_atomic fun _ => quiet_getRule.bind_atomic fun rule =>
    quiet_guard.bind_atomic fun _ => quiet_change.bind_atomic fun _ =>
    quiet_change.bind_atomic fun _ => ?_
  exact atomic_commit.bind_pure

/-- A call that raises commits nothing. -/
theorem atomic_serve (op : RuleOp) : (serve u settings env op).Atomic := by
  cases op with
  | createRule => exact atomic_createRule
  | updateRule => exact atomic_updateRule
  | deleteRule => exact atomic_deleteRule

/-! ## Calls that return -/

variable {result : Option IpAccessRule}

theorem createRule_refines {newId actor : UUID} {context : AuditContext} {cidr : List Char}
    {label : String} {description : Option String} {enabled : Bool}
    (h : (createRule u env newId actor context cidr label description enabled).Returns
      ⟨store, store⟩ result s') :
    Security.createRule u store newId actor context cidr label description enabled =
      .ok s'.committed := by
  simp only [createRule, returns_bind_iff, returns_read_iff, returns_change_iff, returns_pure_iff,
    returns_tryCatch_iff fun _ _ _ => not_returns_onError] at h
  obtain ⟨_, _, hlock, normalized, _, hparse, _, _, hsend, shown, _, ⟨rfl, rfl⟩, _, _, hrefuse,
    _, _, rfl, _, _, ⟨_, _, hflush, _, _, rfl, hcommit⟩, _, rfl⟩ := h
  cases returns_send hlock
  obtain ⟨rfl, hnormalized⟩ := returns_check hparse
  cases returns_send hsend
  obtain ⟨rfl, hnew⟩ := returns_refuseIf hrefuse
  obtain ⟨rfl, _⟩ := returns_flush hflush
  obtain ⟨hcommitted, hunique⟩ := returns_commit hcommit
  rw [Security.createRule, hnormalized, hcommitted]
  simp only [bind, Except.bind, hnew, Bool.false_eq_true, if_false]
  exact if_pos hunique

theorem updateRule_refines {context : AuditContext} {ruleId : UUID} {change : RuleChange}
    {currentIp : Option IpAddress}
    (h : (updateRule u settings env context ruleId change currentIp).Returns ⟨store, store⟩ result
      s') :
    Security.updateRule u settings store context ruleId change currentIp = .ok s'.committed := by
  simp only [updateRule, returns_bind_iff, returns_change_iff, returns_pure_iff,
    returns_tryCatch_iff fun _ _ _ => not_returns_onError] at h
  obtain ⟨_, _, hlock, rule, _, hget, next, _, hnext, _, _, hrefuse, _, _, hguard, _, _, rfl,
    _, _, rfl, _, _, hcommit, _, rfl⟩ := h
  cases returns_send hlock
  obtain ⟨rfl, hrule⟩ := returns_getRule hget
  obtain ⟨rfl, hcidr⟩ := returns_check hnext
  obtain ⟨rfl, hnew⟩ := returns_refuseDuplicate hrefuse
  obtain ⟨rfl, haccepted⟩ := returns_guard hguard
  obtain ⟨hcommitted, hunique⟩ := returns_commit hcommit
  dsimp only at hrule hnew haccepted
  rw [Security.updateRule, hrule, hcommitted]
  simp only [bind, Except.bind, hcidr, hnew, haccepted, Bool.false_eq_true, if_false]
  exact if_pos hunique

theorem deleteRule_refines {context : AuditContext} {ruleId : UUID} {currentIp : Option IpAddress}
    (h : (deleteRule u settings env context ruleId currentIp).Returns ⟨store, store⟩ result s') :
    Security.deleteRule u settings store context ruleId currentIp = .ok s'.committed := by
  simp only [deleteRule, returns_bind_iff, returns_change_iff, returns_pure_iff] at h
  obtain ⟨_, _, hlock, rule, _, hget, _, _, hguard, _, _, rfl, _, _, rfl, _, _, hcommit, _, rfl⟩ :=
    h
  cases returns_send hlock
  obtain ⟨rfl, hrule⟩ := returns_getRule hget
  obtain ⟨rfl, haccepted⟩ := returns_guard hguard
  obtain ⟨hcommitted, hunique⟩ := returns_commit hcommit
  dsimp only at hrule haccepted
  rw [Security.deleteRule, hrule, hcommitted]
  simp only [bind, Except.bind, haccepted]
  exact if_pos hunique

/-- A call that returns commits what the mutation commits. -/
theorem serve_refines {op : RuleOp}
    (h : (serve u settings env op).Returns ⟨store, store⟩ result s') :
    applyOp u settings store op = .ok s'.committed := by
  cases op with
  | createRule => exact createRule_refines h
  | updateRule => exact updateRule_refines h
  | deleteRule => exact deleteRule_refines h

end

/-! ## What was asked for -/

/-- The rules that a call asks for, the rule that it is about, and the type of its event. -/
inductive Requested (store : Store) :
    RuleOp → List IpAccessRule → IpAccessRule → SecurityAuditEventType → Prop
  | created {newId actor : UUID} {context : AuditContext} {cidr : List Char} {label : String}
      {description : Option String} {enabled : Bool} {network : IpNetwork}
      (hnetwork : normalizeNetwork cidr = some network) :
      Requested store (.createRule newId actor context cidr label description enabled)
        (store.rules ++ [⟨newId, network, label, description, enabled, actor⟩])
        ⟨newId, network, label, description, enabled, actor⟩ .ipRuleCreated
  | updated {context : AuditContext} {ruleId : UUID} {change : RuleChange}
      {currentIp : Option IpAddress} {rule rule' : IpAccessRule} (hrule : rule ∈ store.rules)
      (hid : rule.id = ruleId ∧ rule'.id = ruleId)
      (hcidr : change.cidr.elim (some rule.cidr) normalizeNetwork = some rule'.cidr)
      (hlabel : rule'.label = change.label.getD rule.label)
      (hdescription : rule'.description =
        if change.descriptionSet then change.description else rule.description)
      (henabled : rule'.enabled = change.enabled.getD rule.enabled)
      (hcreator : rule'.createdBy = rule.createdBy) :
      Requested store (.updateRule context ruleId change currentIp)
        (store.rules.map fun other => if other.id = ruleId then rule' else other) rule'
        (if rule.enabled && !rule'.enabled then .ipRuleDisabled else .ipRuleUpdated)
  | deleted {context : AuditContext} {ruleId : UUID} {currentIp : Option IpAddress}
      {rule : IpAccessRule} (hrule : rule ∈ store.rules) (hid : rule.id = ruleId) :
      Requested store (.deleteRule context ruleId currentIp)
        (store.rules.filter fun other => other.id ≠ ruleId) rule .ipRuleDeleted

/-- One event has been added, and it names the rule. -/
def Records (before after : List SecurityAuditEvent) (rule : IpAccessRule)
    (eventType : SecurityAuditEventType) : Prop :=
  ∃ event, after = before ++ [event] ∧ event.eventType = eventType ∧
    event.resourceType = some "ip_access_rule".toList ∧ event.resourceId = some rule.id

section

variable {u settings}
variable {store store' : Store} {context : AuditContext}

theorem unique_of_commit (h : store.commit = .ok store') : store'.unique = true := by
  rw [commit_eq_ok h]
  unfold Store.commit at h
  split at h
  · assumption
  · contradiction

theorem records_addAuditEvent {eventType : SecurityAuditEventType} {rules : List IpAccessRule}
    {rule : IpAccessRule} {ruleId : UUID} {metadata : List (List Char × MetadataValue)}
    (hid : ruleId = rule.id) :
    Records store.events
      (addAuditEvent u ⟨rules, store.events⟩ eventType context (some "ip_access_rule".toList)
        (some ruleId) metadata).events rule eventType :=
  ⟨_, rfl, rfl, rfl, congrArg some hid⟩

theorem parseCidr_eq_ok {cidr : List Char} {network : IpNetwork}
    (h : parseCidr cidr = .ok network) : normalizeNetwork cidr = some network := by
  unfold parseCidr at h
  split at h
  · cases h
    assumption
  · contradiction

/-- What callers give is brought into normal form. -/
theorem normalizeIpNetwork_of_normalizeNetwork {cidr : List Char} {network : IpNetwork}
    (h : normalizeNetwork cidr = some network) : normalizeIpNetwork network = network := by
  obtain ⟨parsed, _, rfl⟩ := Option.map_eq_some_iff.mp h
  exact normalizeIpNetwork_idem parsed

theorem createRule_requested {newId actor : UUID} {cidr : List Char} {label : String}
    {description : Option String} {enabled : Bool}
    (h : Security.createRule u store newId actor context cidr label description enabled =
      .ok store') :
    ∃ rule eventType, Requested store
        (.createRule newId actor context cidr label description enabled) store'.rules rule
        eventType ∧
      Records store.events store'.events rule eventType ∧ store'.unique = true := by
  simp only [Security.createRule, bind_eq_ok] at h
  obtain ⟨network, hparse, h⟩ := h
  split at h
  · contradiction
  · have hnetwork := parseCidr_eq_ok hparse
    have hunique := unique_of_commit h
    rw [normalizeIpNetwork_of_normalizeNetwork hnetwork] at h
    rw [commit_eq_ok h] at hunique ⊢
    exact ⟨_, _, .created hnetwork, records_addAuditEvent rfl, hunique⟩

theorem updateRule_requested (hnormal : Normalized store) {ruleId : UUID} {change : RuleChange}
    {currentIp : Option IpAddress}
    (h : Security.updateRule u settings store context ruleId change currentIp = .ok store') :
    ∃ rule eventType, Requested store (.updateRule context ruleId change currentIp) store'.rules
        rule eventType ∧
      Records store.events store'.events rule eventType ∧ store'.unique = true := by
  unfold Security.updateRule at h
  split at h
  · rename_i rule hget
    obtain ⟨hrule, rfl⟩ := get_eq_some hget
    simp only [bind_eq_ok] at h
    obtain ⟨next, hnext, h⟩ := h
    split at h
    · contradiction
    · simp only [bind_eq_ok] at h
      obtain ⟨_, _, h⟩ := h
      have hunique := unique_of_commit h
      rw [commit_eq_ok h] at hunique ⊢
      have hcidr : change.cidr.elim (some rule.cidr) normalizeNetwork =
          some (changedRule rule change next).cidr := by
        unfold nextCidr at hnext
        cases hgiven : change.cidr with
        | none =>
            rw [hgiven] at hnext
            cases hnext
            exact congrArg some (hnormal rule hrule).symm
        | some cidr =>
            rw [hgiven] at hnext
            have hnetwork := parseCidr_eq_ok hnext
            exact hnetwork.trans
              (congrArg some (normalizeIpNetwork_of_normalizeNetwork hnetwork).symm)
      refine ⟨changedRule rule change next, _, ?_, records_addAuditEvent rfl, hunique⟩
      have hrules : Relational.put (·.id) (changedRule rule change next) store.rules =
          store.rules.map fun other =>
            if other.id = rule.id then changedRule rule change next else other := by
        refine List.map_congr_left fun other _ => ?_
        by_cases hother : other.id = rule.id <;> simp [changedRule, hother]
      rw [addAuditEvent_rules, hrules]
      exact .updated hrule ⟨rfl, rfl⟩ hcidr rfl rfl rfl rfl
  · contradiction

theorem deleteRule_requested {ruleId : UUID} {currentIp : Option IpAddress}
    (h : Security.deleteRule u settings store context ruleId currentIp = .ok store') :
    ∃ rule eventType, Requested store (.deleteRule context ruleId currentIp) store'.rules rule
        eventType ∧
      Records store.events store'.events rule eventType ∧ store'.unique = true := by
  unfold Security.deleteRule at h
  split at h
  · rename_i rule hget
    obtain ⟨hrule, rfl⟩ := get_eq_some hget
    simp only [bind_eq_ok] at h
    obtain ⟨_, _, h⟩ := h
    have hunique := unique_of_commit h
    rw [commit_eq_ok h] at hunique ⊢
    exact ⟨rule, _, .deleted hrule rfl, records_addAuditEvent rfl, hunique⟩
  · contradiction

/-- An accepted mutation does what was asked for, and records it. -/
theorem applyOp_requested (hnormal : Normalized store) {op : RuleOp}
    (h : applyOp u settings store op = .ok store') :
    ∃ rule eventType, Requested store op store'.rules rule eventType ∧
      Records store.events store'.events rule eventType ∧ store'.unique = true := by
  cases op with
  | createRule => exact createRule_requested h
  | updateRule => exact updateRule_requested hnormal h
  | deleteRule => exact deleteRule_requested h

end

/-! ## Reachable stores -/

/-- A call of the service, or an event that the middleware records. -/
inductive Step
  | call (env : Environment) (op : RuleOp)
  | audit (eventType : SecurityAuditEventType) (context : AuditContext)
      (metadata : List (List Char × MetadataValue))

/-- The store after a step; the session of a call is closed with it. -/
def Step.apply (store : Store) : Step → Store
  | .call env op => (serve u settings env op ⟨store, store⟩).2.committed
  | .audit eventType context metadata =>
      addAuditEvent u store eventType context none none metadata

/-- The store after several steps. -/
def history (steps : List Step) : Store :=
  steps.foldl (Step.apply u settings) ⟨[], []⟩

/-- Stored networks are in normal form and pairwise distinct. -/
structure Sound (store : Store) : Prop where
  normalized : Normalized store
  distinct : (store.rules.map (·.cidr)).Nodup

section

variable {u settings}
variable {store : Store}

theorem Sound.apply (h : Sound store) (step : Step) : Sound (step.apply u settings store) := by
  cases step with
  | audit => exact ⟨h.normalized, h.distinct⟩
  | call env op =>
      rcases hrun : serve u settings env op ⟨store, store⟩ with ⟨error | result, s'⟩
      · have hsame := atomic_serve op _ _ _ hrun
        simp only [Step.apply, hrun, hsame]
        exact h
      · have hop : applyOp u settings store op = .ok s'.committed := serve_refines hrun
        obtain ⟨_, _, _, _, hunique⟩ := applyOp_requested h.normalized hop
        simp only [Step.apply, hrun]
        refine ⟨h.normalized.applyOp hop, ?_⟩
        simp only [Store.unique, Bool.and_eq_true, decide_eq_true_eq] at hunique
        exact hunique.2

/-- Every reachable store is sound. -/
theorem sound_history (steps : List Step) : Sound (history u settings steps) := by
  suffices hall : ∀ store, Sound store → Sound (steps.foldl (Step.apply u settings) store) from
    hall _ ⟨fun _ h => absurd h List.not_mem_nil, List.nodup_nil⟩
  induction steps with
  | nil => exact fun _ h => h
  | cons step steps ih => exact fun store h => ih _ (h.apply step)

end

/-- In every reachable store the networks are in normal form and pairwise distinct.  A call
commits what was asked for with one event that names the rule, or it raises and commits nothing. -/
theorem mutation_atomic (u : Unicode) (settings : Settings) (steps : List Step)
    (env : Environment) (op : RuleOp) :
    let store := history u settings steps
    (∀ rule ∈ store.rules, normalizeIpNetwork rule.cidr = rule.cidr) ∧
      (store.rules.map (·.cidr)).Nodup ∧
      match serve u settings env op ⟨store, store⟩ with
      | (.ok _, s) => ∃ rule eventType, Requested store op s.committed.rules rule eventType ∧
          Records store.events s.committed.events rule eventType
      | (.error _, s) => s.committed = store := by
  intro store
  have hsound : Sound store := sound_history steps
  refine ⟨hsound.normalized, hsound.distinct, ?_⟩
  split
  · rename_i s hrun
    obtain ⟨rule, eventType, hrequested, hrecords, _⟩ :=
      applyOp_requested hsound.normalized (serve_refines hrun)
    exact ⟨rule, eventType, hrequested, hrecords⟩
  · rename_i s hrun
    exact atomic_serve op _ _ _ hrun

end Service
end Security
end HireAndTech
