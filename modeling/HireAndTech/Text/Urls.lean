import Mathlib
import HireAndTech.Network.IpAddress
import HireAndTech.Text.Forms
import HireAndTech.Text.Regex

/-!
# Uniform resource locators

URLs as {lit}`urllib.parse` splits and joins them.  Splitting fails on a network location with
unbalanced or wrongly placed brackets, and on one that a compatibility normalization would split
elsewhere.

Parts are separated when none of them holds a delimiter that ends it, so that parts which came from
a URL can be told apart after they have been joined.

Main results:

- Definitions {lit}`urlsplit` and {lit}`urlunsplit`.
- Theorem {lit}`urlsplit_separated`: splitting separates the parts.
- Theorem {lit}`urlunsplit_injective`: joining keeps separated parts apart.
-/

namespace Text

/-! ## Splitting -/

/-- `SplitResult`. -/
@[ext]
structure SplitResult where
  scheme : List Char
  netloc : List Char
  path : List Char
  query : List Char
  fragment : List Char
deriving DecidableEq, Repr

/-- `_WHATWG_C0_CONTROL_OR_SPACE`. -/
def isC0ControlOrSpace (c : Char) : Bool :=
  c.toNat ≤ 0x20

/-- `_UNSAFE_URL_BYTES_TO_REMOVE`. -/
def isUnsafe (c : Char) : Bool :=
  c ∈ ['\t', '\r', '\n']

/-- `scheme_chars`. -/
def isSchemeChar (c : Char) : Bool :=
  c.isAlphanum || c ∈ ['+', '-', '.']

/-- A character that does not end a network location. -/
def isNetlocChar (c : Char) : Bool :=
  c ∉ ['/', '?', '#']

/-- The scheme of a URL, empty when it has none, and the text after it. -/
def splitScheme (url : List Char) : List Char × List Char :=
  let (scheme, rest) := partition ':' url
  if ':' ∈ url ∧ scheme.head?.any Char.isAlpha ∧ scheme.all isSchemeChar then
    (scheme.map Char.toLower, rest)
  else ([], url)

/-- `_splitnetloc` after two slashes. -/
def splitNetloc : List Char → List Char × List Char
  | '/' :: '/' :: url => (url.takeWhile isNetlocChar, url.dropWhile isNetlocChar)
  | url => ([], url)

/-- `\Av[a-fA-F0-9]+\..+\Z`. -/
def isIPvFuture : List Char → Bool
  | 'v' :: hostname =>
      hostname.takeWhile (fun c => (hexValue c).isSome) ≠ [] &&
        match hostname.dropWhile (fun c => (hexValue c).isSome) with
        | '.' :: _ :: _ => true
        | _ => false
  | _ => false

/-- `_check_bracketed_host`. -/
def checkBracketedHost (hostname : List Char) : Bool :=
  if hostname.head? = some 'v' then isIPvFuture hostname
  else match Network.ipAddress hostname with
    | some (.v6 _ _) => true
    | _ => false

/-- `_check_bracketed_netloc`. -/
def checkBracketedNetloc (netloc : List Char) : Bool :=
  let hostnameAndPort := netloc.rtakeWhile (· ≠ '@')
  let (beforeBracket, bracketed) := partition '[' hostnameAndPort
  if '[' ∈ hostnameAndPort then
    let (hostname, port) := partition ']' bracketed
    beforeBracket = [] && (port = [] || port.head? = some ':') && checkBracketedHost hostname
  else checkBracketedHost (partition ':' hostnameAndPort).1

/-- The brackets of a network location. -/
def checkBrackets (netloc : List Char) : Bool :=
  ('[' ∈ netloc ↔ ']' ∈ netloc) && ('[' ∉ netloc || checkBracketedNetloc netloc)

/-- `_checknetloc`. -/
def checkNetloc (u : Unicode) (netloc : List Char) : Bool :=
  let n := netloc.filter (· ∉ ['@', ':', '#', '?'])
  netloc.all (·.toNat < 128) || u.nfkc n = n ||
    (u.nfkc n).all (· ∉ ['/', '?', '#', '@', ':'])

/-- `urlsplit`; a `ValueError` is `none`. -/
def urlsplit (u : Unicode) (url : List Char) : Option SplitResult :=
  let url := (url.dropWhile isC0ControlOrSpace).filter (!isUnsafe ·)
  let (scheme, url) := splitScheme url
  let (netloc, url) := splitNetloc url
  let (url, fragment) := partition '#' url
  let (path, query) := partition '?' url
  if checkBrackets netloc && checkNetloc u netloc then
    some ⟨scheme, netloc, path, query, fragment⟩
  else none

/-! ## Joining -/

/-- `uses_netloc`. -/
def usesNetloc : List (List Char) :=
  ["", "ftp", "http", "gopher", "nntp", "telnet", "imap", "wais", "file", "mms", "https", "shttp",
    "snews", "prospero", "rtsp", "rtsps", "rtspu", "rsync", "svn", "svn+ssh", "sftp", "nfs", "git",
    "git+ssh", "ws", "wss", "itms-services"].map String.toList

/-- The part of a joined URL after the scheme and before the query. -/
def hierarchicalPart (parts : SplitResult) : List Char :=
  if parts.netloc ≠ [] then
    '/' :: '/' :: parts.netloc ++
      if parts.path ≠ [] ∧ parts.path.head? ≠ some '/' then '/' :: parts.path else parts.path
  else if parts.path.take 2 = ['/', '/'] then '/' :: '/' :: parts.path
  else if parts.scheme ≠ [] ∧ usesNetloc.contains parts.scheme ∧
      (parts.path = [] ∨ parts.path.head? = some '/') then
    '/' :: '/' :: parts.path
  else parts.path

/-- `urlunsplit`. -/
def urlunsplit (parts : SplitResult) : List Char :=
  let url := hierarchicalPart parts
  let url := if parts.scheme ≠ [] then parts.scheme ++ ':' :: url else url
  let url := if parts.query ≠ [] then url ++ '?' :: parts.query else url
  if parts.fragment ≠ [] then url ++ '#' :: parts.fragment else url

/-! ## Separated parts -/

/-- No part holds a delimiter that ends it. -/
structure SplitResult.Separated (parts : SplitResult) : Prop where
  scheme : ':' ∉ parts.scheme
  netloc : ∀ c ∈ parts.netloc, isNetlocChar c = true
  path : '?' ∉ parts.path
  rooted : parts.netloc ≠ [] → parts.path = [] ∨ parts.path.head? = some '/'

/-- Only letters become letters in lower case. -/
theorem toLower_ne {c d : Char} (hd : d.toNat < 97) (h : c ≠ d) : c.toLower ≠ d := by
  intro hlower
  unfold Char.toLower at hlower
  split at hlower
  next hupper =>
    have hval := congrArg Char.toNat hlower
    have hlow := UInt32.le_iff_toNat_le.mp hupper.1
    have hhigh := UInt32.le_iff_toNat_le.mp hupper.2
    simp only [Char.toNat, UInt32.toNat_add] at hval
    simp at hlow hhigh hval
    omega
  next => exact h hlower

theorem splitScheme_not_mem (url : List Char) : ':' ∉ (splitScheme url).1 := by
  unfold splitScheme
  simp only
  split
  next h =>
    intro hmem
    obtain ⟨c, hc, hlower⟩ := List.mem_map.mp hmem
    have hscheme := List.all_eq_true.mp h.2.2 c hc
    refine toLower_ne (by decide) ?_ hlower
    rintro rfl
    exact absurd hscheme (by decide)
  next => simp

/-- No separator precedes the first one. -/
theorem not_mem_partition (separator : Char) (cs : List Char) :
    separator ∉ (partition separator cs).1 := by
  intro hmem
  have hne := List.mem_takeWhile_imp hmem
  simp at hne

/-- What precedes a separator begins like the text, unless it is empty. -/
theorem partition_head? (separator : Char) (cs : List Char) :
    (partition separator cs).1 = [] ∨ (partition separator cs).1.head? = cs.head? := by
  cases cs with
  | nil => exact Or.inl rfl
  | cons c cs =>
      by_cases hc : c = separator
      · left
        simp [partition, hc]
      · right
        simp [partition, hc]

theorem splitNetloc_netloc (url : List Char) :
    ∀ c ∈ (splitNetloc url).1, isNetlocChar c = true := by
  unfold splitNetloc
  split
  · intro c hc
    exact List.mem_takeWhile_imp hc
  · intro c hc
    contradiction

/-- After a network location comes a delimiter, if anything does. -/
theorem splitNetloc_rest {url : List Char} (h : (splitNetloc url).1 ≠ []) {c : Char}
    (hc : (splitNetloc url).2.head? = some c) : isNetlocChar c = false := by
  unfold splitNetloc at h hc
  split at h
  next url =>
    have hdelimiter := List.head?_dropWhile_not isNetlocChar url
    simp only at hc
    rwa [hc] at hdelimiter
  next => exact absurd rfl h

/-- A path is empty or begins with the delimiter after the network location. -/
theorem path_rooted {url : List Char} (h : ∀ c, url.head? = some c → isNetlocChar c = false) :
    (partition '?' (partition '#' url).1).1 = [] ∨
      (partition '?' (partition '#' url).1).1.head? = some '/' := by
  rcases partition_head? '?' (partition '#' url).1 with hpath | hpath
  · exact Or.inl hpath
  · rcases partition_head? '#' url with hurl | hurl
    · left
      rw [hurl]
      rfl
    · cases hhead : url.head? with
      | none =>
          left
          rwa [hurl, hhead, List.head?_eq_none_iff] at hpath
      | some c =>
          have hc := h c hhead
          rw [hurl, hhead] at hpath
          have hmem := List.mem_of_head? hpath
          by_cases hslash : c = '/'
          · right
            rwa [hslash] at hpath
          · have hcases : c = '?' ∨ c = '#' := by
              simpa [isNetlocChar, hslash, or_iff_not_imp_left] using hc
            rcases hcases with rfl | rfl
            · exact absurd hmem (not_mem_partition _ _)
            · exact absurd (List.takeWhile_subset _ hmem) (not_mem_partition _ _)

/-- Splitting separates the parts. -/
theorem urlsplit_separated {u : Unicode} {url : List Char} {parts : SplitResult}
    (h : urlsplit u url = some parts) : parts.Separated := by
  unfold urlsplit at h
  simp only at h
  split at h
  next =>
    rw [Option.some.injEq] at h
    subst h
    exact
      { scheme := splitScheme_not_mem _
        netloc := splitNetloc_netloc _
        path := not_mem_partition _ _
        rooted := fun hnetloc => path_rooted fun _ hc => splitNetloc_rest hnetloc hc }
  next => contradiction

/-! ## Joined parts can be told apart -/

namespace SplitResult.Separated

variable {parts : SplitResult}

/-- Two slashes and the network location stand before a path that is empty or begins with a
slash. -/
theorem hierarchicalPart_eq (h : parts.Separated) (hscheme : parts.scheme ≠ [])
    (huses : parts.scheme ∈ usesNetloc) :
    hierarchicalPart parts =
      if parts.path = [] ∨ parts.path.head? = some '/' then '/' :: '/' :: parts.netloc ++ parts.path
      else parts.path := by
  unfold hierarchicalPart
  by_cases hnetloc : parts.netloc = []
  · by_cases hslashes : parts.path.take 2 = ['/', '/']
    · have hhead : parts.path.head? = some '/' := by
        cases hpath : parts.path with
        | nil => simp [hpath] at hslashes
        | cons c path => simp_all
      simp [hnetloc, hslashes, hhead]
    · simp [hnetloc, hslashes, hscheme, huses]
  · have hrooted := h.rooted hnetloc
    have hplain : ¬(parts.path ≠ [] ∧ parts.path.head? ≠ some '/') := by
      rintro ⟨hne, hhead⟩
      exact hrooted.elim hne hhead
    rw [if_pos hnetloc, if_neg hplain, if_pos hrooted]

theorem not_mem_hierarchicalPart (h : parts.Separated) (hscheme : parts.scheme ≠ [])
    (huses : parts.scheme ∈ usesNetloc) : '?' ∉ hierarchicalPart parts := by
  rw [h.hierarchicalPart_eq hscheme huses]
  have hnetloc : '?' ∉ parts.netloc := by
    intro hmem
    exact absurd (h.netloc _ hmem) (by decide)
  split
  · simp [hnetloc, h.path]
  · exact h.path

/-- The network location and the path of a joined URL can be read again. -/
theorem splitNetloc_hierarchicalPart (h : parts.Separated) (hscheme : parts.scheme ≠ [])
    (huses : parts.scheme ∈ usesNetloc) :
    splitNetloc (hierarchicalPart parts) = (parts.netloc, parts.path) := by
  rw [h.hierarchicalPart_eq hscheme huses]
  by_cases hrooted : parts.path = [] ∨ parts.path.head? = some '/'
  · rw [if_pos hrooted, List.cons_append, List.cons_append, splitNetloc,
      List.takeWhile_append_of_pos h.netloc, List.dropWhile_append_of_pos h.netloc]
    rcases hrooted with hpath | hpath
    · simp [hpath]
    · obtain ⟨path, hcons⟩ := List.head?_eq_some_iff.mp hpath
      simp [hcons, isNetlocChar]
  · rw [if_neg hrooted]
    have hnetloc : parts.netloc = [] := by
      by_contra hne
      exact hrooted (h.rooted hne)
    unfold splitNetloc
    split
    next url => simp_all
    next => rw [hnetloc]

/-- A URL without a fragment, read in three steps. -/
theorem partition_urlunsplit (h : parts.Separated) (hscheme : parts.scheme ≠ [])
    (huses : parts.scheme ∈ usesNetloc) (hfragment : parts.fragment = []) :
    ∃ rest, partition ':' (urlunsplit parts) = (parts.scheme, rest) ∧
      partition '?' rest = (hierarchicalPart parts, parts.query) := by
  have hpart := h.not_mem_hierarchicalPart hscheme huses
  by_cases hquery : parts.query = []
  · refine ⟨hierarchicalPart parts, ?_, ?_⟩
    · simp [urlunsplit, hscheme, hfragment, hquery, partition_append h.scheme]
    · rw [hquery, partition]
      rw [List.takeWhile_eq_self_iff.mpr, List.dropWhile_eq_nil_iff.mpr]
      · rfl
      · intro c hc
        rw [decide_eq_true_eq]
        rintro rfl
        exact hpart hc
      · intro c hc
        rw [decide_eq_true_eq]
        rintro rfl
        exact hpart hc
  · refine ⟨hierarchicalPart parts ++ '?' :: parts.query, ?_, partition_append hpart _⟩
    simp [urlunsplit, hscheme, hfragment, hquery, partition_append h.scheme]

end SplitResult.Separated

/-- Separated parts without a fragment that are joined to one URL are the same. -/
theorem urlunsplit_injective {p q : SplitResult} (hp : p.Separated) (hq : q.Separated)
    (hpscheme : p.scheme ≠ [] ∧ p.scheme ∈ usesNetloc)
    (hqscheme : q.scheme ≠ [] ∧ q.scheme ∈ usesNetloc)
    (hpfragment : p.fragment = []) (hqfragment : q.fragment = [])
    (h : urlunsplit p = urlunsplit q) : p = q := by
  obtain ⟨prest, hpurl, hpquery⟩ := hp.partition_urlunsplit hpscheme.1 hpscheme.2 hpfragment
  obtain ⟨qrest, hqurl, hqquery⟩ := hq.partition_urlunsplit hqscheme.1 hqscheme.2 hqfragment
  rw [h, hqurl, Prod.mk.injEq] at hpurl
  obtain ⟨hscheme, rfl⟩ := hpurl
  rw [hqquery, Prod.mk.injEq] at hpquery
  have hparts := congrArg splitNetloc hpquery.1
  rw [hp.splitNetloc_hierarchicalPart hpscheme.1 hpscheme.2,
    hq.splitNetloc_hierarchicalPart hqscheme.1 hqscheme.2, Prod.mk.injEq] at hparts
  exact SplitResult.ext hscheme.symm hparts.1.symm hparts.2.symm hpquery.2.symm
    (hpfragment.trans hqfragment.symm)

end Text
