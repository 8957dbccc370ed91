import HireAndTech.Network.Mapped
import HireAndTech.Security.Rules

/-!
# IPv4-mapped networks in the settings

The settings keep the networks of their texts as they are.  The resolver collapses IPv4-mapped
networks when it is built; the emergency bypass is compared with client addresses, which are
collapsed, without that.

Main results:

- Definition {lit}`normalizeIpNetworks`: the validator of the settings.
- Theorem {lit}`mapped_entries_agree_iff`: when an IPv4-mapped entry means the same.
-/

namespace HireAndTech
namespace Security

open Network

/-! ## Settings -/

/-- `Settings.normalize_ip_networks` of texts; {lean}`none` when it rejects one of them. -/
def normalizeIpNetworks (value : List (List Char)) : Option (List IpNetwork) :=
  value.mapM ipNetwork

theorem normalizeIpNetworks_around (before after : List (List Char)) (entry : List Char)
    {network : IpNetwork} (h : ipNetwork entry = some network) :
    normalizeIpNetworks (before ++ entry :: after) =
      (normalizeIpNetworks before).bind fun left =>
        (normalizeIpNetworks after).map fun right => left ++ network :: right := by
  unfold normalizeIpNetworks
  rw [List.mapM_append, List.mapM_cons, h]
  cases before.mapM ipNetwork with
  | none => rfl
  | some left =>
      cases after.mapM ipNetwork with
      | none => rfl
      | some right => rfl

/-! ## The consumers -/

/-- A client address, which {lit}`normalize_ip` has collapsed. -/
def IsClient (address : IpAddress) : Prop :=
  normalizeIpAddress address = address

theorem isClient_normalizeIpAddress (address : IpAddress) :
    IsClient (normalizeIpAddress address) := by
  unfold IsClient
  cases address with
  | v4 ip => rfl
  | v6 ip scopeId =>
      cases hip : ipv4Mapped ip with
      | none => simp [normalizeIpAddress, hip]
      | some mapped => simp [normalizeIpAddress, hip]

/-- The mapped form of a network collapses to the network. -/
theorem normalizeIpNetwork_mapped (network : Prefix 32) :
    normalizeIpNetwork (.v6 network.mapped) = .v4 network := by
  have hhost := Prefix.ofHost_self network
  obtain ⟨address, p, haligned⟩ := network
  simp only [normalizeIpNetwork, Prefix.networkAddress_mapped, ipv4Mapped_mappedAddress]
  rw [← hhost]
  congr 2
  apply Fin.ext
  simp [Prefix.mapped, Prefix.ofHost]

/-- No client address belongs to the mapped form of a network. -/
theorem contains_mapped_eq_false {network : Prefix 32} {address : IpAddress}
    (h : IsClient address) : (IpNetwork.v6 network.mapped).contains address = false := by
  cases address with
  | v4 ip => rfl
  | v6 ip scopeId =>
      rw [← Bool.not_eq_true]
      intro hcontains
      have hmapped := Prefix.ipv4Mapped_of_contains_mapped hcontains
      cases hip : ipv4Mapped ip with
      | none => exact hmapped hip
      | some mapped => simp [IsClient, normalizeIpAddress, hip] at h

/-- The networks agree on a client address for the resolver, and for the emergency bypass of the
middleware and of the lockout guard. -/
structure AgreeOn (cidrs cidrs' : List IpNetwork) (address : IpAddress) : Prop where
  trusted : (TrustedClientIpResolver.new cidrs).trusts address =
    (TrustedClientIpResolver.new cidrs').trusts address
  bypass : addressInNetworks address cidrs = addressInNetworks address cidrs'

/-- An IPv4 entry and its IPv4-mapped form agree on an address exactly when the address is outside
the network or inside another entry. -/
theorem agreeOn_mapped_iff (left right : List IpNetwork) (network : Prefix 32)
    {address : IpAddress} (h : IsClient address) :
    AgreeOn (left ++ .v4 network :: right) (left ++ .v6 network.mapped :: right) address ↔
      ((IpNetwork.v4 network).contains address = true →
        addressInNetworks address (left ++ right) = true) := by
  have htrusted : (TrustedClientIpResolver.new (left ++ .v4 network :: right)).trusts address =
      (TrustedClientIpResolver.new (left ++ .v6 network.mapped :: right)).trusts address := by
    simp only [TrustedClientIpResolver.new, List.map_append, List.map_cons,
      normalizeIpNetwork_mapped]
    rfl
  have hbypass : addressInNetworks address (left ++ .v6 network.mapped :: right) =
      addressInNetworks address (left ++ right) := by
    simp only [addressInNetworks, List.any_append, List.any_cons, contains_mapped_eq_false h,
      Bool.false_or]
  have hv4 : addressInNetworks address (left ++ .v4 network :: right) =
      ((IpNetwork.v4 network).contains address || addressInNetworks address (left ++ right)) := by
    simp only [addressInNetworks, List.any_append, List.any_cons]
    rw [Bool.or_left_comm]
  constructor
  · rintro ⟨_, hagree⟩ hcontains
    rw [hbypass, hv4, hcontains, Bool.true_or] at hagree
    exact hagree.symm
  · intro hother
    refine ⟨htrusted, ?_⟩
    rw [hbypass, hv4]
    cases hcontains : (IpNetwork.v4 network).contains address with
    | false => rfl
    | true =>
        rw [hother hcontains]
        rfl

/-- In a list of texts that the settings accept, an IPv4 entry and its IPv4-mapped form mean the
same for a client address exactly when the address is outside the network or inside another
entry. -/
theorem mapped_entries_agree_iff (before after : List (List Char)) (entry : List Char) (p : Fin 33)
    {ip : Fin (2 ^ 32)} {cidrs : List IpNetwork} (hentry : parseIPv4 entry = some ip)
    (haccepted : normalizeIpNetworks (before ++ withPrefix entry p.val :: after) = some cidrs)
    (client : IpAddress) :
    ∃ cidrs' others,
      normalizeIpNetworks
          (before ++ withPrefix (mappedText entry) (96 + p.val) :: after) = some cidrs' ∧
        normalizeIpNetworks (before ++ after) = some others ∧
        (AgreeOn cidrs cidrs' (normalizeIpAddress client) ↔
          ((IpNetwork.v4 (.ofHost ip p)).contains (normalizeIpAddress client) = true →
            addressInNetworks (normalizeIpAddress client) others = true)) := by
  rw [normalizeIpNetworks_around before after _ (ipNetwork_withPrefix hentry p)] at haccepted
  obtain ⟨left, hleft, haccepted⟩ := Option.bind_eq_some_iff.mp haccepted
  obtain ⟨right, hright, rfl⟩ := Option.map_eq_some_iff.mp haccepted
  refine ⟨left ++ .v6 (Prefix.ofHost ip p).mapped :: right, left ++ right, ?_, ?_, ?_⟩
  · rw [normalizeIpNetworks_around before after _ (ipNetwork_mapped hentry p), hleft, hright]
    rfl
  · unfold normalizeIpNetworks at hleft hright ⊢
    rw [List.mapM_append, hleft, hright]
    rfl
  · exact agreeOn_mapped_iff left right _ (isClient_normalizeIpAddress client)

/-- An address outside the network, in the settings of an office. -/
theorem mapped_entries_agree_iff_outside :
    ∃ cidrs' others,
      normalizeIpNetworks ([] ++ withPrefix (mappedText "10.0.0.0".toList) 104 :: []) =
          some cidrs' ∧
        normalizeIpNetworks ([] ++ []) = some others ∧
        (AgreeOn [.v4 (.ofHost 0x0A000000 8)] cidrs' (normalizeIpAddress (.v4 0xC0000201)) ↔
          ((IpNetwork.v4 (.ofHost 0x0A000000 8)).contains
              (normalizeIpAddress (.v4 0xC0000201)) = true →
            addressInNetworks (normalizeIpAddress (.v4 0xC0000201)) others = true)) :=
  mapped_entries_agree_iff [] [] "10.0.0.0".toList 8 (by decide) (by decide)
    (.v4 0xC0000201)

/-- A client inside a network is inside the emergency bypass with one form and outside with the
other. -/
theorem mapped_bypass_ignored :
    ∃ cidrs cidrs',
      normalizeIpNetworks [withPrefix "10.0.0.0".toList 8] = some cidrs ∧
        normalizeIpNetworks [withPrefix (mappedText "10.0.0.0".toList) 104] = some cidrs' ∧
        addressInNetworks (normalizeIpAddress (.v4 0x0A010203)) cidrs = true ∧
        addressInNetworks (normalizeIpAddress (.v4 0x0A010203)) cidrs' = false :=
  ⟨[.v4 (.ofHost 0x0A000000 8)], [.v6 (.ofHost 0xFFFF0A000000 104)], by decide,
    by decide, by decide, by decide⟩

end Security
end HireAndTech
