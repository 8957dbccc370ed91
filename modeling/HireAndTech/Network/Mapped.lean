import HireAndTech.Network.IpAddress
import HireAndTech.Text.Words

/-!
# IPv4-mapped networks

An IPv4 network has a form among the IPv6 networks: its addresses behind the prefix
{lit}`::ffff:0:0/96`.  The text of that form is the text of the IPv4 network behind
{lit}`::ffff:`, with 96 added to the prefix length.

Main results:

- Definition {lit}`Prefix.mapped`: the IPv4-mapped form of a network.
- Theorem {lit}`ipNetwork_mapped`: the text of the form denotes it.
- Theorem {lit}`Prefix.ipv4Mapped_of_contains_mapped`: it contains mapped addresses only.
-/

namespace Network

/-! ## Digits -/

theorem hexDigit_digitChar {n : Nat} (hn : n < 16) : hexDigit n.digitChar = some n := by
  interval_cases n <;> decide

theorem ofDigits_concat (base : Nat) (digits : List Nat) (d : Nat) :
    ofDigits base (digits ++ [d]) = ofDigits base digits * base + d := by
  rw [ofDigits, List.foldl_concat]
  rfl

/-- Hexadecimal digits of a number denote it. -/
theorem mapM_hexDigit_toDigits (n : Nat) :
    ∃ digits, (Nat.toDigits 16 n).mapM hexDigit = some digits ∧ ofDigits 16 digits = n := by
  induction n using Nat.strongRecOn with
  | ind n ih =>
      by_cases hn : n < 16
      · refine ⟨[n], ?_, ?_⟩
        · rw [Nat.toDigits_of_lt_base hn, List.mapM_cons, hexDigit_digitChar hn]
          rfl
        · simp [ofDigits]
      · obtain ⟨digits, hdigits, hvalue⟩ := ih (n / 16) (by omega)
        refine ⟨digits ++ [n % 16], ?_, ?_⟩
        · rw [Nat.toDigits_of_base_le (by decide) (by omega), List.mapM_append, hdigits]
          simp [hexDigit_digitChar (show n % 16 < 16 by omega)]
        · rw [ofDigits_concat, hvalue]
          omega

/-- A group in hexadecimal is read back. -/
theorem parseHextet_toDigits {n : Nat} (hn : n < 65536) :
    parseHextet (Nat.toDigits 16 n) = some n := by
  obtain ⟨digits, hdigits, hvalue⟩ := mapM_hexDigit_toDigits n
  have hlength : (Nat.toDigits 16 n).length ≤ 4 :=
    (Nat.length_toDigits_le_iff (by decide) (by decide)).mpr hn
  rw [parseHextet, if_neg, hdigits, Option.map_some, hvalue]
  rw [not_or, not_lt]
  exact ⟨Nat.toDigits_ne_nil, hlength⟩

/-! ## The mapped form of an address -/

/-- The IPv4-mapped form of an address. -/
def mappedAddress (ip : Fin (2 ^ 32)) : Fin (2 ^ 128) :=
  ⟨0xFFFF * 2 ^ 32 + ip.val, by omega⟩

@[simp]
theorem ipv4Mapped_mappedAddress (ip : Fin (2 ^ 32)) : ipv4Mapped (mappedAddress ip) = some ip := by
  have hlt := ip.isLt
  have hhigh : (0xFFFF * 2 ^ 32 + ip.val) / 2 ^ 32 = 0xFFFF := by omega
  have hlow : (0xFFFF * 2 ^ 32 + ip.val) % 2 ^ 32 = ip.val := by omega
  simp only [ipv4Mapped, mappedAddress, hhigh, hlow, if_true]

/-! ## Texts -/

/-- What a traversal that succeeds has seen, and how much of it. -/
theorem forall_of_mapM {α β : Type} {f : α → Option β} {xs : List α} {ys : List β}
    (h : xs.mapM f = some ys) : ys.length = xs.length ∧ ∀ x ∈ xs, (f x).isSome := by
  induction xs generalizing ys with
  | nil =>
      rw [List.mapM_nil] at h
      cases h
      simp
  | cons x xs ih =>
      rw [List.mapM_cons] at h
      obtain ⟨y, hy, h⟩ := Option.bind_eq_some_iff.mp h
      obtain ⟨ys', hys, h⟩ := Option.bind_eq_some_iff.mp h
      cases h
      obtain ⟨hlength, hall⟩ := ih hys
      refine ⟨by simp [hlength], ?_⟩
      intro x' hx'
      rcases List.mem_cons.mp hx' with rfl | hx'
      · rw [hy]
        rfl
      · exact hall x' hx'

theorem isDecimal_of_parseOctet {cs : List Char} (h : (parseOctet cs).isSome) :
    ∀ c ∈ cs, isDecimal c = true := by
  unfold parseOctet decimal at h
  split at h
  next => contradiction
  next =>
    split at h
    next hdecimal => exact List.all_eq_true.mp hdecimal.2
    next => contradiction

/-- An IPv4 text consists of digits and dots. -/
theorem mem_of_parseIPv4 {cs : List Char} {ip : Fin (2 ^ 32)} (h : parseIPv4 cs = some ip) :
    (∀ c ∈ cs, isDecimal c = true ∨ c = '.') ∧ '.' ∈ cs := by
  obtain ⟨octets, hoctets, hlength⟩ := Option.bind_eq_some_iff.mp h
  obtain ⟨hcount, hall⟩ := forall_of_mapM hoctets
  constructor
  · intro c hc
    have hjoin : ['.'].intercalate (cs.splitOn '.') = cs := List.intercalate_splitOn '.'
    rw [← hjoin] at hc
    rcases Text.mem_intercalate hc with hdot | ⟨part, hpart, hmem⟩
    · exact Or.inr hdot
    · exact Or.inl (isDecimal_of_parseOctet (hall part hpart) c hmem)
  · by_contra hdot
    rw [List.splitOn_eq_singleton hdot, List.length_singleton] at hcount
    rw [if_neg (by omega)] at hlength
    contradiction

theorem not_mem_of_parseIPv4 {cs : List Char} {ip : Fin (2 ^ 32)} (h : parseIPv4 cs = some ip)
    {c : Char} (hc : isDecimal c = false) (hdot : c ≠ '.') : c ∉ cs := by
  intro hmem
  rcases (mem_of_parseIPv4 h).1 c hmem with hdecimal | rfl
  · rw [hdecimal] at hc
    contradiction
  · exact hdot rfl

/-- The text of the IPv4-mapped form of an address. -/
def mappedText (address : List Char) : List Char :=
  [':', ':', 'f', 'f', 'f', 'f', ':'] ++ address

theorem splitOn_mappedText {address : List Char} (h : ':' ∉ address) :
    (mappedText address).splitOn ':' = [[], [], ['f', 'f', 'f', 'f'], address] := by
  have hparts : mappedText address =
      [':'].intercalate [[], [], ['f', 'f', 'f', 'f'], address] := by
    simp [mappedText, List.intercalate]
  rw [hparts, List.splitOn_intercalate]
  · simp [h]
  · exact List.cons_ne_nil _ _

/-- The groups of the text with an IPv4 suffix rewritten. -/
theorem hextets_mapped {high low : Nat} (hhigh : high < 65536) (hlow : low < 65536) :
    hextets [[], [], ['f', 'f', 'f', 'f'], Nat.toDigits 16 high, Nat.toDigits 16 low] =
      some [0, 0, 0, 0, 0, 65535, high, low] := by
  have hskip : skipIndices [[], [], ['f', 'f', 'f', 'f'], Nat.toDigits 16 high,
      Nat.toDigits 16 low] = [1] := by
    simp [skipIndices, List.range_succ, Nat.toDigits_ne_nil]
  have hffff : parseHextet ['f', 'f', 'f', 'f'] = some 65535 := by decide
  simp [hextets, hskip, Nat.toDigits_ne_nil, parseHextet_toDigits hhigh,
    parseHextet_toDigits hlow, hffff, List.replicate_succ]

/-- The text of the IPv4-mapped form denotes it. -/
theorem parseIPv6_mappedText {address : List Char} {ip : Fin (2 ^ 32)}
    (h : parseIPv4 address = some ip) :
    parseIPv6 (mappedText address) = some (.v6 (mappedAddress ip) none) := by
  have hhigh : ip.val / 65536 < 65536 := by omega
  have hlow : ip.val % 65536 < 65536 := by omega
  have hslash : '/' ∉ mappedText address := by
    simp [mappedText, not_mem_of_parseIPv4 h (c := '/') rfl]
  have hpercent : '%' ∉ mappedText address := by
    simp [mappedText, not_mem_of_parseIPv4 h (c := '%') rfl]
  have hsplit := splitOn_mappedText (not_mem_of_parseIPv4 h (c := ':') rfl (by decide))
  have hsuffix : rewriteSuffix [[], [], ['f', 'f', 'f', 'f'], address] =
      some [[], [], ['f', 'f', 'f', 'f'], Nat.toDigits 16 (ip.val / 65536),
        Nat.toDigits 16 (ip.val % 65536)] := by
    simp [rewriteSuffix, (mem_of_parseIPv4 h).2, h, hextetsOfIPv4]
  have hint : parseIPv6Int (mappedText address) = some (mappedAddress ip) := by
    have hvalue : ofInt 128 (ofDigits 65536
        [0, 0, 0, 0, 0, 65535, ip.val / 65536, ip.val % 65536]) = mappedAddress ip := by
      apply Fin.ext
      simp only [ofInt, ofDigits, List.foldl_cons, List.foldl_nil, mappedAddress]
      omega
    unfold parseIPv6Int
    rw [hsplit]
    simp only [List.length_cons, List.length_nil]
    rw [if_neg (by decide), hsuffix]
    simp [hextets_mapped hhigh hlow, hvalue]
  rw [parseIPv6, if_neg hslash, List.splitOn_eq_singleton hpercent]
  simp only [hint, Option.map_some]

/-! ## The mapped form of a network -/

namespace Prefix

/-- The IPv4-mapped form of a network. -/
def mapped (network : Prefix 32) : Prefix 128 :=
  .ofHost (mappedAddress network.networkAddress)
    ⟨96 + network.prefixlen.val, by have := network.prefixlen.isLt; omega⟩

theorem networkAddress_mapped (network : Prefix 32) :
    network.mapped.networkAddress = mappedAddress network.networkAddress := by
  obtain ⟨address, ⟨p, hp⟩, haligned⟩ := network
  apply Fin.ext
  simp only [mapped, ofHost, mappedAddress] at haligned ⊢
  have hshift : 128 - (96 + p) = 32 - p := by omega
  have hdvd : 2 ^ (32 - p) ∣ 0xFFFF * 2 ^ 32 + address.val := by
    apply dvd_add
    · exact dvd_mul_of_dvd_right (pow_dvd_pow 2 (Nat.sub_le 32 p)) _
    · exact Nat.dvd_of_mod_eq_zero haligned
  rw [hshift, Nat.div_mul_cancel hdvd]

/-- The form of a network of an address is the network of the form of the address. -/
theorem mapped_ofHost (ip : Fin (2 ^ 32)) (p : Fin 33) (hp : 96 + p.val < 129) :
    (ofHost ip p).mapped = ofHost (mappedAddress ip) ⟨96 + p.val, hp⟩ := by
  obtain ⟨p, hlt⟩ := p
  simp only [mapped, ofHost, mappedAddress, mk.injEq, and_true]
  apply Fin.ext
  have hshift : 128 - (96 + p) = 32 - p := by omega
  have hdvd : 2 ^ (32 - p) ∣ 0xFFFF * 2 ^ 32 :=
    dvd_mul_of_dvd_right (pow_dvd_pow 2 (Nat.sub_le 32 p)) _
  obtain ⟨k, hk⟩ := hdvd
  have hpos : 0 < 2 ^ (32 - p) := Nat.two_pow_pos _
  simp only [hshift, hk]
  rw [Nat.mul_add_div hpos, Nat.mul_add_div hpos, Nat.mul_div_cancel _ hpos]

/-- The form of a network contains mapped addresses only. -/
theorem ipv4Mapped_of_contains_mapped {network : Prefix 32} {ip : Fin (2 ^ 128)}
    (h : network.mapped.contains ip = true) : ipv4Mapped ip ≠ none := by
  have hp := network.prefixlen.isLt
  have hlength : 128 - network.mapped.prefixlen.val = 32 - network.prefixlen.val := by
    simp only [mapped, ofHost]
    omega
  have hsame := of_decide_eq_true h
  rw [hlength, networkAddress_mapped] at hsame
  -- both quotients by the host bits go on to the quotient by the last 32 bits
  have hthrough (n : ℕ) : n / 2 ^ (32 - network.prefixlen.val) / 2 ^ network.prefixlen.val =
      n / 2 ^ 32 := by
    rw [Nat.div_div_eq_div_mul, ← pow_add]
    congr 2
    omega
  have hhigh : ip.val / 2 ^ 32 = 0xFFFF := by
    rw [← hthrough, hsame, hthrough]
    have hlt := network.networkAddress.isLt
    simp only [mappedAddress]
    omega
  rw [ipv4Mapped, if_pos hhigh]
  exact Option.some_ne_none _

end Prefix

/-! ## Texts of networks -/

/-- An address with a prefix length. -/
def withPrefix (address : List Char) (prefixlen : ℕ) : List Char :=
  address ++ '/' :: Nat.toDigits 10 prefixlen

theorem prefixFromPrefixString_toDigits (p : Fin 33) :
    prefixFromPrefixString 32 (Nat.toDigits 10 p.val) = some p ∧
      prefixFromPrefixString 128 (Nat.toDigits 10 (96 + p.val)) =
        some ⟨96 + p.val, by have := p.isLt; omega⟩ := by
  revert p
  decide

theorem splitOn_withPrefix {address : List Char} (h : '/' ∉ address) (p : ℕ) :
    (withPrefix address p).splitOn '/' = [address, Nat.toDigits 10 p] := by
  have hdigits : '/' ∉ Nat.toDigits 10 p := by
    intro hmem
    exact absurd (Nat.isDigit_of_mem_toDigits (by decide) (by decide) hmem) (by decide)
  rw [withPrefix, List.splitOn_append_cons_self_of_not_mem h, List.splitOn_eq_singleton hdigits]

theorem ipNetwork_withPrefix {address : List Char} {ip : Fin (2 ^ 32)}
    (h : parseIPv4 address = some ip) (p : Fin 33) :
    ipNetwork (withPrefix address p.val) = some (.v4 (.ofHost ip p)) := by
  have hslash : '/' ∉ address := not_mem_of_parseIPv4 h rfl (by decide)
  simp [ipNetwork, splitOn_withPrefix hslash, h, (prefixFromPrefixString_toDigits p).1]

/-- The text of the IPv4-mapped form of a network denotes it. -/
theorem ipNetwork_mapped {address : List Char} {ip : Fin (2 ^ 32)}
    (h : parseIPv4 address = some ip) (p : Fin 33) :
    ipNetwork (withPrefix (mappedText address) (96 + p.val)) =
      some (.v6 (Prefix.ofHost ip p).mapped) := by
  have hslash : '/' ∉ mappedText address := by
    simp [mappedText, not_mem_of_parseIPv4 h (c := '/') rfl]
  have hcolon : parseIPv4 (mappedText address) = none := by
    rw [Option.eq_none_iff_forall_ne_some]
    intro other hother
    exact not_mem_of_parseIPv4 hother (c := ':') rfl (by decide) (by simp [mappedText])
  have hlength : 96 + p.val < 129 := by
    have hp := p.isLt
    omega
  rw [Prefix.mapped_ofHost ip p hlength]
  simp [ipNetwork, splitOn_withPrefix hslash, hcolon, parseIPv6_mappedText h,
    (prefixFromPrefixString_toDigits p).2]

end Network
