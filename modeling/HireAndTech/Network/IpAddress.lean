import Mathlib

/-!
# IP addresses and networks

Addresses and networks of both families as numbers, with the text forms that the
{lit}`ipaddress` module of the Python standard library accepts.  A network carries the
fact that its host bits are zero.

The zone of a scoped IPv6 address is kept with the address and ignored by networks.

Main results:

- Definitions {lit}`ipAddress` and {lit}`ipNetwork`: the text forms.
- Theorem {lit}`Prefix.ofHost_self`: a network is the one of its own address.
-/

namespace Network

/-! ## Networks of one family -/

/-- A network of {lit}`w`-bit addresses. -/
structure Prefix (w : Nat) where
  networkAddress : Fin (2 ^ w)
  prefixlen : Fin (w + 1)
  aligned : networkAddress.val % 2 ^ (w - prefixlen.val) = 0
deriving DecidableEq

namespace Prefix

variable {w : Nat}

/-- The network of an address: its host bits are cleared. -/
def ofHost (address : Fin (2 ^ w)) (prefixlen : Fin (w + 1)) : Prefix w where
  networkAddress :=
    ⟨address.val / 2 ^ (w - prefixlen.val) * 2 ^ (w - prefixlen.val),
      lt_of_le_of_lt (Nat.div_mul_le_self _ _) address.isLt⟩
  prefixlen := prefixlen
  aligned := Nat.mul_mod_left _ _

/-- `address in network`. -/
def contains (network : Prefix w) (address : Fin (2 ^ w)) : Bool :=
  address.val / 2 ^ (w - network.prefixlen.val) =
    network.networkAddress.val / 2 ^ (w - network.prefixlen.val)

/-- Clearing the host bits of a network changes nothing. -/
@[simp]
theorem ofHost_self (network : Prefix w) :
    ofHost network.networkAddress network.prefixlen = network := by
  obtain ⟨address, prefixlen, haligned⟩ := network
  simp only [ofHost, mk.injEq, and_true]
  apply Fin.ext
  exact Nat.div_mul_cancel (Nat.dvd_of_mod_eq_zero haligned)

end Prefix

/-! ## Both families -/

/-- `IPv4Address` and `IPv6Address`. -/
inductive IpAddress
  | v4 (ip : Fin (2 ^ 32))
  | v6 (ip : Fin (2 ^ 128)) (scopeId : Option (List Char))
deriving DecidableEq

/-- `IPv4Network` and `IPv6Network`. -/
inductive IpNetwork
  | v4 (network : Prefix 32)
  | v6 (network : Prefix 128)
deriving DecidableEq

/-- `IPv6Address.ipv4_mapped`. -/
def ipv4Mapped (ip : Fin (2 ^ 128)) : Option (Fin (2 ^ 32)) :=
  if ip.val / 2 ^ 32 = 0xFFFF then some ⟨ip.val % 2 ^ 32, Nat.mod_lt _ (by norm_num)⟩ else none

/-- The first 96 bits of an IPv6 network aside, its prefix length is one of an IPv4
network. -/
theorem prefixlen_sub_lt (network : Prefix 128) : network.prefixlen.val - 96 < 33 := by
  omega

/-- `address.version == network.version and address in network`. -/
def IpNetwork.contains : IpNetwork → IpAddress → Bool
  | .v4 network, .v4 ip => network.contains ip
  | .v6 network, .v6 ip _ => network.contains ip
  | _, _ => false

/-! ## Text forms -/

/-- A character among the ASCII decimal digits. -/
def isDecimal (c : Char) : Bool :=
  '0' ≤ c && c ≤ '9'

/-- The value of a hexadecimal digit. -/
def hexDigit (c : Char) : Option Nat :=
  if '0' ≤ c ∧ c ≤ '9' then some (c.toNat - '0'.toNat)
  else if 'a' ≤ c ∧ c ≤ 'f' then some (c.toNat - 'a'.toNat + 10)
  else if 'A' ≤ c ∧ c ≤ 'F' then some (c.toNat - 'A'.toNat + 10)
  else none

/-- The number that digits denote. -/
def ofDigits (base : Nat) (digits : List Nat) : Nat :=
  digits.foldl (fun n d => n * base + d) 0

/-- The number that ASCII decimal digits denote. -/
def decimal (cs : List Char) : Option Nat :=
  if cs ≠ [] ∧ cs.all isDecimal then some (ofDigits 10 (cs.map fun c => c.toNat - '0'.toNat))
  else none

/-- A number as an address; a greater one wraps around. -/
def ofInt (w n : Nat) : Fin (2 ^ w) :=
  ⟨n % 2 ^ w, Nat.mod_lt _ (Nat.two_pow_pos w)⟩

/-- `_parse_octet`: at most three digits, no leading zero, at most 255. -/
def parseOctet (cs : List Char) : Option Nat :=
  if 3 < cs.length ∨ (cs.head? = some '0' ∧ cs ≠ ['0']) then none
  else (decimal cs).filter (· ≤ 255)

/-- `IPv4Address` of a text. -/
def parseIPv4 (cs : List Char) : Option (Fin (2 ^ 32)) := do
  let octets ← (cs.splitOn '.').mapM parseOctet
  if octets.length = 4 then some (ofInt 32 (ofDigits 256 octets)) else none

/-- `_parse_hextet`. -/
def parseHextet (cs : List Char) : Option Nat :=
  if cs = [] ∨ 4 < cs.length then none
  else (cs.mapM hexDigit).map (ofDigits 16)

/-- The two hexadecimal groups of an address that ends in the IPv4 form. -/
def hextetsOfIPv4 (ip : Fin (2 ^ 32)) : List (List Char) :=
  [Nat.toDigits 16 (ip.val / 2 ^ 16), Nat.toDigits 16 (ip.val % 2 ^ 16)]

/-- The parts of an IPv6 text with an IPv4 suffix rewritten. -/
def rewriteSuffix (parts : List (List Char)) : Option (List (List Char)) :=
  match parts.getLast? with
  | some last =>
      if '.' ∈ last then
        (parseIPv4 last).map fun ip => parts.dropLast ++ hextetsOfIPv4 ip
      else some parts
  | none => some parts

/-- The positions of the empty parts, the first and the last part aside. -/
def skipIndices (parts : List (List Char)) : List Nat :=
  (List.range parts.length).filter fun i =>
    0 < i && i + 1 < parts.length && parts[i]? = some []

/-- The eight groups of an IPv6 text. -/
def hextets (parts : List (List Char)) : Option (List Nat) :=
  match skipIndices parts with
  | [] => if parts.length = 8 then parts.mapM parseHextet else none
  | [skip] =>
      let high := parts.take skip
      let low := parts.drop (skip + 1)
      if (high.head? = some [] ∧ skip ≠ 1) ∨ (low.getLast? = some [] ∧ low.length ≠ 1) then none
      else do
        let high ← (high.filter (· ≠ [])).mapM parseHextet
        let low ← (low.filter (· ≠ [])).mapM parseHextet
        if high.length + low.length < 8 then
          some (high ++ List.replicate (8 - (high.length + low.length)) 0 ++ low)
        else none
  | _ => none

/-- `IPv6Address._ip_int_from_string`. -/
def parseIPv6Int (cs : List Char) : Option (Fin (2 ^ 128)) := do
  let parts := cs.splitOn ':'
  if parts.length < 3 then none
  let parts ← rewriteSuffix parts
  if 9 < parts.length then none
  let groups ← hextets parts
  some (ofInt 128 (ofDigits 65536 groups))

/-- `IPv6Address` of a text: the part after a percent sign is the zone. -/
def parseIPv6 (cs : List Char) : Option IpAddress :=
  if '/' ∈ cs then none
  else match cs.splitOn '%' with
    | [address] => (parseIPv6Int address).map (.v6 · none)
    | [address, scopeId] =>
        if scopeId = [] then none else (parseIPv6Int address).map (.v6 · (some scopeId))
    | _ => none

/-- `ip_address`. -/
def ipAddress (cs : List Char) : Option IpAddress :=
  (parseIPv4 cs).map .v4 <|> parseIPv6 cs

/-- `_prefix_from_prefix_string`. -/
def prefixFromPrefixString (w : Nat) (cs : List Char) : Option (Fin (w + 1)) :=
  (decimal cs).bind fun n => if h : n < w + 1 then some ⟨n, h⟩ else none

/-- The prefix length of an IPv4 network mask or host mask. -/
def prefixFromIpString (cs : List Char) : Option (Fin 33) :=
  (parseIPv4 cs).bind fun mask =>
    (List.finRange 33).find? (fun p => mask.val = 2 ^ 32 - 2 ^ (32 - p.val)) <|>
      (List.finRange 33).find? fun p => mask.val = 2 ^ (32 - p.val) - 1

/-- `ip_network(…, strict=False)`. -/
def ipNetwork (cs : List Char) : Option IpNetwork :=
  let network (address : List Char) (mask4 : Option (Fin 33)) (mask6 : Option (Fin 129)) :
      Option IpNetwork :=
    (do
      let ip ← parseIPv4 address
      let prefixlen ← mask4
      return .v4 (.ofHost ip prefixlen)) <|>
    (do
      let .v6 ip _ ← parseIPv6 address | none
      let prefixlen ← mask6
      return .v6 (.ofHost ip prefixlen))
  match cs.splitOn '/' with
  | [address] => network address (some 32) (some 128)
  | [address, mask] =>
      network address (prefixFromPrefixString 32 mask <|> prefixFromIpString mask)
        (prefixFromPrefixString 128 mask)
  | _ => none

/-! ## Rendering -/

/-- The longest run of zero groups, with its first position; the first of several. -/
def longestZeroRun (groups : List Nat) : Nat × Nat :=
  (List.range groups.length).foldl
    (fun best start =>
      let length := ((groups.drop start).takeWhile (· = 0)).length
      if best.2 < length then (start, length) else best)
    (0, 0)

/-- Groups in hexadecimal with colons between them. -/
def joinGroups (groups : List Nat) : List Char :=
  [':'].intercalate (groups.map (Nat.toDigits 16))

/-- `IPv6Address._string_from_ip_int`: the longest run of at least two zero groups is left
out. -/
def ipv6Text (ip : Fin (2 ^ 128)) : List Char :=
  let groups := (List.range 8).map fun i => ip.val / 65536 ^ (7 - i) % 65536
  let (start, length) := longestZeroRun groups
  if 1 < length then
    joinGroups (groups.take start) ++ [':', ':'] ++ joinGroups (groups.drop (start + length))
  else joinGroups groups

/-- `IPv4Address._string_from_ip_int`. -/
def ipv4Text (ip : Fin (2 ^ 32)) : List Char :=
  ['.'].intercalate ((List.range 4).map fun i => Nat.toDigits 10 (ip.val / 256 ^ (3 - i) % 256))

/-- `str(address)`. -/
def IpAddress.text : IpAddress → List Char
  | .v4 ip => ipv4Text ip
  | .v6 ip none => ipv6Text ip
  | .v6 ip (some scopeId) => ipv6Text ip ++ '%' :: scopeId

/-- `str(network)`. -/
def IpNetwork.text : IpNetwork → List Char
  | .v4 network =>
      ipv4Text network.networkAddress ++ '/' :: Nat.toDigits 10 network.prefixlen.val
  | .v6 network =>
      ipv6Text network.networkAddress ++ '/' :: Nat.toDigits 10 network.prefixlen.val

end Network
