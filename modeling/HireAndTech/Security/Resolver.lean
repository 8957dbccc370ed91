import HireAndTech.Catalogue.Tables
import HireAndTech.Network.IpAddress
import HireAndTech.Text.Regex

/-!
# Client addresses behind trusted proxies

The direct socket peer is authoritative unless it belongs to a configured trusted proxy
network.  In that case only the forwarding header is considered, and trusted hops are
peeled from right to left.

Main results:

- Definitions {lit}`normalizeIp` and {lit}`normalizeNetwork`: IPv4-mapped forms collapse
  to IPv4.
- Definition {lit}`TrustedClientIpResolver.resolve`: the resolution of a caller.
- Theorem {lit}`peel_eq`: the loop finds the rightmost untrusted hop.
- Theorem {lit}`resolve_resists_spoofing`: what resolution returns, and that elements on
  the left and the division into header values do not matter.
-/

namespace HireAndTech
namespace Security

open Network
open Catalogue (isSpace)

/-! ## Canonical addresses and networks -/

/-- `normalize_ip` of a parsed address. -/
def normalizeIpAddress : IpAddress → IpAddress
  | .v4 ip => .v4 ip
  | .v6 ip scopeId =>
      match ipv4Mapped ip with
      | some mapped => .v4 mapped
      | none => .v6 ip scopeId

/-- `normalize_ip` of a text. -/
def normalizeIp (value : List Char) : Option IpAddress :=
  (ipAddress value).map normalizeIpAddress

/-- `normalize_network` of a parsed network. -/
def normalizeIpNetwork : IpNetwork → IpNetwork
  | .v4 network => .v4 network
  | .v6 network =>
      match ipv4Mapped network.networkAddress with
      | some mapped => .v4 (.ofHost mapped ⟨network.prefixlen.val - 96, prefixlen_sub_lt network⟩)
      | none => .v6 network

/-- `normalize_network` of a text. -/
def normalizeNetwork (value : List Char) : Option IpNetwork :=
  (ipNetwork value).map normalizeIpNetwork

/-- `address_in_networks`. -/
def addressInNetworks (address : IpAddress) (networks : List IpNetwork) : Bool :=
  networks.any (·.contains address)

/-! ## The resolver -/

/-- Resolve a caller IP without granting authority to untrusted forwarding headers. -/
structure TrustedClientIpResolver where
  trustedProxies : List IpNetwork
deriving DecidableEq

namespace TrustedClientIpResolver

/-- `TrustedClientIpResolver.__init__`. -/
def new (trustedProxyCidrs : List IpNetwork) : TrustedClientIpResolver :=
  ⟨trustedProxyCidrs.map normalizeIpNetwork⟩

/-- The hop belongs to a trusted proxy network. -/
def trusts (r : TrustedClientIpResolver) (address : IpAddress) : Bool :=
  addressInNetworks address r.trustedProxies

/-- The loop of {lit}`resolve`: step to the next hop while the current one is trusted. -/
def peel (r : TrustedClientIpResolver) (current : IpAddress) : List IpAddress → IpAddress
  | [] => current
  | candidate :: rest => if r.trusts current then r.peel candidate rest else current

end TrustedClientIpResolver

/-- The elements of the header values. -/
def forwardedParts (values : List String) : List (List Char) :=
  values.flatMap fun value => (value.toList.splitOn ',').map (Text.strip isSpace)

/-- The header values that are used: those given, or else those of the header mapping. -/
def forwardedOf (headers : Option (String → Option String)) (forwardedValues : List String) :
    List String :=
  if forwardedValues = [] then
    match headers with
    | none => []
    | some get =>
        (((get "x-forwarded-for").filter (· ≠ "")) <|> get "X-Forwarded-For").toList
  else forwardedValues

/-- `TrustedClientIpResolver.resolve`. -/
def TrustedClientIpResolver.resolve (r : TrustedClientIpResolver) (peerHost : Option String)
    (headers : Option (String → Option String)) (forwardedValues : List String) :
    Option IpAddress := do
  let host ← peerHost
  let peer ← normalizeIp host.toList
  if !r.trusts peer then return peer
  let values := forwardedOf headers forwardedValues
  if values = [] then none
  let parts := forwardedParts values
  if parts = [] ∨ [] ∈ parts then none
  let chain ← parts.mapM normalizeIp
  return r.peel peer chain.reverse

/-! ## What the loop finds -/

section

variable {r : TrustedClientIpResolver}

theorem peel_of_untrusted {current : IpAddress} (h : r.trusts current = false)
    (hops : List IpAddress) : r.peel current hops = current := by
  cases hops with
  | nil => rfl
  | cons candidate rest => simp [TrustedClientIpResolver.peel, h]

/-- From a trusted peer the loop finds the first untrusted hop, or else the last hop. -/
theorem peel_eq {current : IpAddress} (h : r.trusts current = true) (hops : List IpAddress) :
    r.peel current hops = (hops.find? (!r.trusts ·)).getD (hops.getLast?.getD current) := by
  induction hops generalizing current with
  | nil => rfl
  | cons candidate rest ih =>
      rw [TrustedClientIpResolver.peel, if_pos h]
      cases hcandidate : r.trusts candidate with
      | false => simp [peel_of_untrusted hcandidate, hcandidate]
      | true =>
          rw [ih hcandidate]
          cases rest with
          | nil => simp [hcandidate]
          | cons next rest => simp [List.find?_cons, hcandidate, List.getLast?_cons]

theorem peel_append (current : IpAddress) (near far : List IpAddress) :
    r.peel current (near ++ far) = r.peel (r.peel current near) far := by
  induction near generalizing current with
  | nil => rfl
  | cons candidate rest ih =>
      cases h : r.trusts current with
      | true => simp [TrustedClientIpResolver.peel, h, ih]
      | false =>
          rw [peel_of_untrusted h, peel_of_untrusted h, peel_of_untrusted h]

/-! ## Resolution -/

/-- The hops that the header elements name; {lean}`none` when an element is empty or not
an address. -/
def chainOf (parts : List (List Char)) : Option (List IpAddress) :=
  parts.mapM normalizeIp

/-- The address that resolution settles on for a trusted peer: the rightmost hop that is
not trusted, or else the leftmost one. -/
def settledHop (r : TrustedClientIpResolver) (peer : IpAddress) (chain : List IpAddress) :
    IpAddress :=
  (chain.reverse.find? (!r.trusts ·)).getD (chain.head?.getD peer)

/-- What resolution returns, in terms of the elements of the header values. -/
def resolution (r : TrustedClientIpResolver) (peer : IpAddress) (parts : List (List Char)) :
    Option IpAddress :=
  if r.trusts peer then
    if parts = [] then none else (chainOf parts).map (settledHop r peer)
  else some peer

theorem normalizeIp_nil : normalizeIp [] = none := by
  decide

theorem forwardedParts_eq_nil {values : List String} :
    forwardedParts values = [] ↔ values = [] := by
  constructor
  · intro h
    cases values with
    | nil => rfl
    | cons value rest =>
        simp only [forwardedParts, List.flatMap_cons, List.append_eq_nil_iff,
          List.map_eq_nil_iff] at h
        exact absurd h.1 (List.splitOn_ne_nil _ _)
  · rintro rfl
    rfl

theorem chainOf_eq_none_of_mem {parts : List (List Char)} (h : [] ∈ parts) :
    chainOf parts = none := by
  induction parts with
  | nil => contradiction
  | cons part rest ih =>
      rw [chainOf, List.mapM_cons]
      rcases List.mem_cons.mp h with rfl | h
      · rw [normalizeIp_nil]
        rfl
      · have hrest : rest.mapM normalizeIp = none := ih h
        rw [hrest]
        cases normalizeIp part <;> rfl

/-- Resolution by header values alone. -/
theorem resolve_eq (host : String) (values : List String) :
    r.resolve (some host) none values =
      (normalizeIp host.toList).bind fun peer => resolution r peer (forwardedParts values) := by
  have hvalues : forwardedOf none values = values := by
    unfold forwardedOf
    split
    · simp_all
    · rfl
  cases hpeer : normalizeIp host.toList with
  | none => simp [TrustedClientIpResolver.resolve, hpeer]
  | some peer =>
      simp only [TrustedClientIpResolver.resolve, hpeer, hvalues, Option.bind_eq_bind,
        Option.bind_some, Option.pure_def, resolution]
      cases htrusted : r.trusts peer with
      | false => simp
      | true =>
          by_cases hnil : values = []
          · simp [hnil, forwardedParts]
          by_cases hempty : [] ∈ forwardedParts values
          · simp [hnil, hempty, chainOf_eq_none_of_mem hempty]
          · have hparts : forwardedParts values ≠ [] := fun h => hnil (forwardedParts_eq_nil.mp h)
            simp only [Bool.not_true, Bool.false_eq_true, if_false, hnil, hparts, hempty, or_self,
              if_true]
            rw [← chainOf]
            cases chainOf (forwardedParts values) with
            | none => rfl
            | some chain =>
                simp [settledHop, peel_eq htrusted, List.getLast?_reverse]

theorem chainOf_append (left right : List (List Char)) :
    chainOf (left ++ right) =
      (chainOf left).bind fun front => (chainOf right).map fun chain => front ++ chain := by
  simp only [chainOf, List.mapM_append, Option.bind_eq_bind, Option.pure_def]
  cases left.mapM normalizeIp with
  | none => rfl
  | some front =>
      simp only [Option.bind_some]
      cases right.mapM normalizeIp <;> rfl

theorem chainOf_isSome {parts : List (List Char)}
    (h : ∀ part ∈ parts, (normalizeIp part).isSome = true) :
    ∃ chain, chainOf parts = some chain := by
  induction parts with
  | nil => exact ⟨[], rfl⟩
  | cons part rest ih =>
      obtain ⟨ip, hip⟩ := Option.isSome_iff_exists.mp (h part List.mem_cons_self)
      obtain ⟨chain, hchain⟩ := ih fun p hp => h p (List.mem_cons_of_mem part hp)
      rw [chainOf] at hchain
      exact ⟨ip :: chain, by rw [chainOf, List.mapM_cons, hip, hchain]; rfl⟩

theorem chainOf_eq_none {parts : List (List Char)} {part : List Char} (hpart : part ∈ parts)
    (h : normalizeIp part = none) : chainOf parts = none := by
  induction parts with
  | nil => contradiction
  | cons first rest ih =>
      rw [chainOf, List.mapM_cons]
      rcases List.mem_cons.mp hpart with rfl | hpart
      · rw [h]
        rfl
      · have hrest : rest.mapM normalizeIp = none := ih hpart
        rw [hrest]
        cases normalizeIp first <;> rfl

/-- An untrusted hop that resolution settles on stays the result when hops are put on the
left. -/
theorem settledHop_prepend {peer : IpAddress} (hpeer : r.trusts peer = true)
    (front chain : List IpAddress) (h : r.trusts (settledHop r peer chain) = false) :
    settledHop r peer (front ++ chain) = settledHop r peer chain := by
  have hpeel : ∀ hops, settledHop r peer hops = r.peel peer hops.reverse := by
    intro hops
    rw [peel_eq hpeer, List.getLast?_reverse, settledHop]
  rw [hpeel] at h
  rw [hpeel, hpeel, List.reverse_append, peel_append, peel_of_untrusted h]

end

/-- Resolution returns the normalized peer when it is not trusted; otherwise nothing when
there is no header value or an element is empty or not an address; otherwise the rightmost
element that is not trusted, or the leftmost when all are.  Addresses put on the left do not
change an untrusted result, and the division of the elements into header values does not
change any result. -/
theorem resolve_resists_spoofing (trustedProxyCidrs : List IpNetwork) (host : String)
    (values values' : List String) :
    let r := TrustedClientIpResolver.new trustedProxyCidrs
    let resolved := r.resolve (some host) none values
    let resolved' := r.resolve (some host) none values'
    (normalizeIp host.toList = none → resolved = none) ∧
    (∀ peer, normalizeIp host.toList = some peer → r.trusts peer = false →
      resolved = some peer) ∧
    (∀ peer, normalizeIp host.toList = some peer → r.trusts peer = true →
      (values = [] ∨ ∃ part ∈ forwardedParts values, part = [] ∨ normalizeIp part = none) →
      resolved = none) ∧
    (∀ peer chain, normalizeIp host.toList = some peer → r.trusts peer = true → values ≠ [] →
      (forwardedParts values).mapM normalizeIp = some chain →
      resolved = (chain.reverse.find? (!r.trusts ·) <|> chain.head?)) ∧
    (∀ front, (∀ part ∈ front, (normalizeIp part).isSome = true) →
      forwardedParts values' = front ++ forwardedParts values →
      ∀ ip, resolved = some ip → r.trusts ip = false → resolved' = some ip) ∧
    (forwardedParts values' = forwardedParts values → resolved' = resolved) := by
  intro r resolved resolved'
  have heq : resolved = (normalizeIp host.toList).bind fun peer =>
      resolution r peer (forwardedParts values) := resolve_eq host values
  have heq' : resolved' = (normalizeIp host.toList).bind fun peer =>
      resolution r peer (forwardedParts values') := resolve_eq host values'
  refine ⟨?_, ?_, ?_, ?_, ?_, ?_⟩
  · intro hnone
    rw [heq, hnone]
    rfl
  · intro peer hpeer huntrusted
    rw [heq, hpeer, Option.bind_some, resolution, huntrusted]
    rfl
  · intro peer hpeer htrusted hbad
    rw [heq, hpeer, Option.bind_some, resolution, if_pos htrusted]
    rcases hbad with rfl | ⟨part, hpart, hbad⟩
    · rfl
    · have hnone : normalizeIp part = none := by
        rcases hbad with rfl | hbad
        · exact normalizeIp_nil
        · exact hbad
      rw [chainOf_eq_none hpart hnone]
      split <;> rfl
  · intro peer chain hpeer htrusted hvalues hchain
    have hparts : forwardedParts values ≠ [] := fun h => hvalues (forwardedParts_eq_nil.mp h)
    rw [heq, hpeer, Option.bind_some, resolution, if_pos htrusted, if_neg hparts, chainOf, hchain]
    have hne : chain ≠ [] := by
      rintro rfl
      apply hparts
      cases hcases : forwardedParts values with
      | nil => rfl
      | cons part rest =>
          rw [hcases, List.mapM_cons] at hchain
          cases h : normalizeIp part <;> cases h' : rest.mapM normalizeIp <;> simp [h, h'] at hchain
    obtain ⟨first, rest, rfl⟩ := List.exists_cons_of_ne_nil hne
    simp only [Option.map_some, settledHop, List.head?_cons, Option.getD_some]
    cases ((first :: rest).reverse.find? (!r.trusts ·)) <;> rfl
  · intro front hfront hparts ip hresolved huntrusted
    obtain ⟨hops, hhops⟩ := chainOf_isSome hfront
    cases hpeer : normalizeIp host.toList with
    | none => simp [heq, hpeer] at hresolved
    | some peer =>
        rw [heq, hpeer, Option.bind_some] at hresolved
        rw [heq', hpeer, Option.bind_some]
        cases htrusted : r.trusts peer with
        | false => simpa [resolution, htrusted] using hresolved
        | true =>
            rw [resolution, if_pos htrusted] at hresolved ⊢
            by_cases hnil : forwardedParts values = []
            · simp [hnil] at hresolved
            · rw [if_neg hnil] at hresolved
              obtain ⟨chain, hchain, rfl⟩ := Option.map_eq_some_iff.mp hresolved
              rw [hparts, if_neg (by simp [hnil]), chainOf_append, hhops, hchain]
              simp only [Option.bind_some, Option.map_some, Option.some.injEq]
              exact settledHop_prepend htrusted hops chain huntrusted
  · intro hparts
    rw [heq, heq', hparts]

/-- A forged element in front of the chain does not change the client. -/
theorem resolve_resists_spoofing_forged :
    (TrustedClientIpResolver.new [.v4 (.ofHost 0x0A000000 8)]).resolve (some "10.0.0.4") none
      ["6.6.6.6", "203.0.113.8, 10.0.0.3"] = some (.v4 0xCB007108) :=
  (resolve_resists_spoofing [.v4 (.ofHost 0x0A000000 8)] "10.0.0.4" ["203.0.113.8, 10.0.0.3"]
    ["6.6.6.6", "203.0.113.8, 10.0.0.3"]).2.2.2.2.1 ["6.6.6.6".toList] (by decide) (by decide) _
    (by decide) (by decide)

end Security
end HireAndTech
