import HireAndTech.Salaries.Digits
import HireAndTech.Sources.Dice.Listings

/-!
# Search pages of LinkedIn

{lit}`LinkedInCollector._parse_search_response` cuts a search page at its list items and reads a
card from every piece with a link to a job.  The identifier of a card is that of its entity, or the
number at the end of the path of its link.  A link that is no URL raises, and the page is lost.

Main results:

- Definition {lit}`parseSearchResponse`.
- Theorem {lit}`card_of_mem`: what every card of a page has.
-/

namespace HireAndTech
namespace Sources
namespace LinkedIn

open Text Catalogue Salaries Collection Runs
open Dice (notClosing quoteMark notQuote tagPattern)

/-! ## Pieces -/

section

variable {γ : Type}

/-- The pieces of a text between the matches of a pattern, from a place on and after the beginning
of a piece. -/
def splitFrom (p : Pattern γ) : ℕ → List Char → Place → List (List Char)
  | 0, piece, start => [piece ++ start.rest]
  | fuel + 1, piece, start =>
      match p.matchAt start with
      | some found => piece :: splitFrom p fuel [] found.stop
      | none =>
          match start.rest with
          | [] => [piece]
          | c :: rest => splitFrom p fuel (piece ++ [c]) ⟨some c, rest⟩

/-- `re.split` with a pattern that has no groups and does not match the empty text. -/
def split (p : Pattern γ) (text : List Char) : List (List Char) :=
  splitFrom p (text.length + 1) [] ⟨none, text⟩

/-- `re.search`. -/
def searchPattern (p : Pattern γ) (text : List Char) : Option (Found γ) :=
  (p.finditer text).head?

/-- `re.search` of a pattern with an enclosed text. -/
def searchEnclosed (e : Enclosed γ) (text : List Char) : Option (Enclosure γ) :=
  (e.finditer text).head?

end

/-! ## Cards -/

/-- `<li[^>]*>`, in any case. -/
def itemTag : Pattern Unit :=
  .plain (.sequence [folded "<li", .star notClosing, .satisfy (· = '>')])

/-- `/jobs/view/`. -/
def viewPath : String :=
  "/jobs/view/"

/-- The pattern of the link to a job, whose group is the URL. -/
def linkPattern : Pattern Unit :=
  .sequence [.plain (folded "<a"), .plain (.plus notClosing), .plain (folded "href="),
    .plain quoteMark,
    .group () (.sequence [.star notQuote, folded "/jobs/view/", .star notQuote]),
    .plain quoteMark]

/-- The pattern of the entity of a card, whose group is the identifier. -/
def entityPattern : Pattern Unit :=
  .sequence [.plain (folded "data-entity-urn="), .plain quoteMark,
    .plain (folded "urn:li:jobposting:"), .group () (.plus digit), .plain quoteMark]

/-- `<tag[^>]*word[^>]*>(.*?)</tag>`. -/
def markedPattern (tag word : String) : Enclosed Unit :=
  ⟨.plain (.sequence [folded ("<" ++ tag), .star notClosing, folded word, .star notClosing,
    .satisfy (· = '>')]), folded ("</" ++ tag ++ ">")⟩

/-- The pattern of the title of a card. -/
def titlePattern : Enclosed Unit :=
  markedPattern "h3" "base-search-card__title"

/-- `<a[^>]+href=["'][^"']*["'][^>]*>(.*?)</a>`. -/
def anchorPattern : Enclosed Unit :=
  ⟨.plain (.sequence [folded "<a", .plus notClosing, folded "href=", quoteMark, .star notQuote,
    quoteMark, .star notClosing, .satisfy (· = '>')]), folded "</a>"⟩

/-- A match of `(?:-|/)(\d+)/?$` at the beginning of a text. -/
def numberAtEnd : List Char → Option (List Char)
  | [] => none
  | c :: rest =>
      let digits := rest.takeWhile isDecimal
      let after := rest.dropWhile isDecimal
      if (c = '-' ∨ c = '/') ∧ digits ≠ [] ∧
          (after = [] ∨ after = ['/'] ∨ after = ['\n'] ∨ after = ['/', '\n']) then some digits
      else none

/-- The number at the end of a path. -/
def trailingNumber (path : List Char) : Option (List Char) :=
  path.tails.findSome? numberAtEnd

/-- `https://www.linkedin.com`. -/
def siteUrl : String :=
  "https://www.linkedin.com"

/-- `_absolute_url`. -/
def absoluteUrl (url : List Char) : List Char :=
  if ['/'] <+: url then siteUrl.toList ++ url
  else if "http".toList <+: url then url
  else siteUrl.toList ++ '/' :: url

/-- `" ".join(tag_pattern.sub(" ", text).split())`. -/
def plainText (text : List Char) : String :=
  joinSplit (String.ofList (tagPattern.sub [' '] text))

/-- The title of a card. -/
def cardTitle (chunk : List Char) : String :=
  plainText <|
    match searchEnclosed titlePattern chunk with
    | some found => found.inner
    | none => ((searchEnclosed anchorPattern chunk).map (·.inner)).getD "LinkedIn Job".toList

/-- The identifier of a card whose link has the path. -/
def cardId (chunk path : List Char) : Option (List Char) :=
  match searchPattern entityPattern chunk with
  | some found => found.group ()
  | none => trailingNumber path

/-- The URL of the link of a piece, unless it has no link to a job. -/
def cardLink (chunk : List Char) : Option (List Char) :=
  if viewPath.toList <:+: chunk then
    (searchPattern linkPattern chunk).bind (·.group ())
  else none

/-- `ValueError` of `urlparse`. -/
inductive InvalidUrl
  | url
deriving DecidableEq, Repr

variable (u : Unicode)

/-- The card of a piece of a page. -/
def readCard (chunk : List Char) : Except InvalidUrl (Option DiscoveredSourceJob) :=
  match cardLink chunk with
  | none => .ok none
  | some rawUrl =>
      match urlparse u rawUrl [] with
      | none => .error .url
      | some parsed =>
          .ok ((cardId chunk parsed.path).map fun externalId =>
            { source := JobSource.linkedin.value
              externalJobId := String.ofList externalId
              title := cardTitle chunk
              url := some (String.ofList (absoluteUrl parsed.path)) })

/-- `_parse_search_response`. -/
def parseSearchResponse (body : List Char) : Except InvalidUrl (List DiscoveredSourceJob) := do
  let cards ← (split itemTag body).mapM (readCard u)
  return Base.firstSeen (·.externalJobId) [] (cards.filterMap id)

/-! ## What a card has -/

section

variable {u} {path chunk body digits : List Char} {jobs : List DiscoveredSourceJob}
  {job : DiscoveredSourceJob}

theorem plus_digit_consumes : (Regex.plus digit).Consumes numerals := by
  apply (digit_consumes.seq (Regex.Consumes.star Regex.consumes_satisfy_charsIn)).mono
  rintro _ ⟨first, hfirst, second, hsecond, rfl⟩
  exact append_mem_numerals hfirst hsecond

theorem mem_numerals_of_entity {found : Found Unit}
    (h : searchPattern entityPattern chunk = some found) :
    ∃ digits ∈ numerals, found.group () = some digits := by
  obtain ⟨front, rest, _, hmatch⟩ :=
    Pattern.exists_of_mem_finditer (List.mem_of_mem_head? (Option.mem_def.mpr h))
  obtain ⟨digits, hdigits, hgroup, _⟩ :=
    Pattern.exists_captured (i := 3) rfl (by simp [Pattern.names]) plus_digit_consumes hmatch
  exact ⟨digits, hdigits, hgroup⟩

theorem mem_numerals_of_trailingNumber (h : trailingNumber path = some digits) :
    digits ∈ numerals := by
  obtain ⟨tail, _, htail⟩ := List.exists_of_findSome?_eq_some h
  cases tail with
  | nil => contradiction
  | cons c rest =>
      rw [numberAtEnd] at htail
      split_ifs at htail with hend
      cases htail
      exact ⟨hend.2.1, fun d hd => List.mem_takeWhile_imp hd⟩

/-- The identifier of a card is a number. -/
theorem mem_numerals_of_cardId (h : cardId chunk path = some digits) : digits ∈ numerals := by
  unfold cardId at h
  split at h
  · rename_i found hfound
    obtain ⟨digits', hdigits, hgroup⟩ := mem_numerals_of_entity hfound
    rw [hgroup] at h
    cases h
    exact hdigits
  · exact mem_numerals_of_trailingNumber h

/-- A URL on the site, or one that the path of a link spells out. -/
def Rooted (url : List Char) : Prop :=
  (siteUrl ++ "/").toList <+: url ∨ "http".toList <+: url

/-- What every card has. -/
structure Card (job : DiscoveredSourceJob) : Prop where
  source : job.source = JobSource.linkedin.value
  numeral : job.externalJobId.toList ∈ numerals
  title : joinSplit job.title = job.title
  rooted : ∃ url, job.url = some url ∧ Rooted url.toList

theorem rooted_absoluteUrl (path : List Char) : Rooted (absoluteUrl path) := by
  unfold absoluteUrl
  split_ifs with hslash hhttp
  · obtain ⟨rest, rfl⟩ := hslash
    exact Or.inl ⟨rest, by simp⟩
  · exact Or.inr hhttp
  · exact Or.inl ⟨path, by simp⟩

theorem joinSplit_idem (text : String) : joinSplit (joinSplit text) = joinSplit text := by
  rw [joinSplit, joinSplit, String.toList_ofList, joinWords_idem (by decide)]

theorem card_of_readCard (h : readCard u chunk = .ok (some job)) : Card job := by
  unfold readCard at h
  split at h
  · cases h
  · rename_i rawUrl hlink
    split at h
    · contradiction
    · rename_i parsed hparsed
      rw [Except.ok.injEq, Option.map_eq_some_iff] at h
      obtain ⟨digits, hdigits, rfl⟩ := h
      exact
        { source := rfl
          numeral := by
            rw [String.toList_ofList]
            exact mem_numerals_of_cardId hdigits
          title := joinSplit_idem _
          rooted := ⟨_, rfl, by
            rw [String.toList_ofList]
            exact rooted_absoluteUrl parsed.path⟩ }

/-- Every card of a page has a number, a title with single spaces and a rooted URL. -/
theorem card_of_mem (h : parseSearchResponse u body = .ok jobs) (hjob : job ∈ jobs) :
    Card job := by
  obtain ⟨cards, hcards, hjobs⟩ := bind_eq_ok_iff.mp h
  cases hjobs
  have hmem : some job ∈ cards := by
    simpa using Base.firstSeen_sublist.subset hjob
  have hall := forall_mem_iff_of_forall₂ (P := fun _ => True)
    (Q := fun card => ∀ job, card = some job → Card job) (mapM_eq_ok_iff.mp hcards)
    fun chunk _ card hcard => iff_of_true (fun job heq => card_of_readCard (heq ▸ hcard)) trivial
  exact hall.mpr (fun _ _ => trivial) _ hmem job rfl

end

end LinkedIn
end Sources
end HireAndTech
