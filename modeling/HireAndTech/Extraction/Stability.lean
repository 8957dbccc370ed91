import HireAndTech.Base.Assignments
import HireAndTech.Base.FirstSeen
import HireAndTech.Extraction.Titles
import HireAndTech.Salaries.Dice

/-!
# Repeated normalization

A normalized skill need not be normalized as itself.  The table has names that are none of its
aliases, and these are put in title case when they are met again; a title case may be too long, or
have another one.

Main results:

- Definition {lit}`Settled`: the texts whose skill is normalized as itself.
- Theorem {lit}`stable_iff`: these are the settled texts.
- Theorem {lit}`settled_iff_of_ascii`: the settled texts among those of ASCII.
- Theorem {lit}`skills_settle_iff`: the same for lists that are merged again.
-/

namespace HireAndTech
namespace Extraction

open Text Catalogue Salaries

/-! ## The table on characters -/

/-- `CANONICAL_SKILLS`, as lists of characters. -/
def skillChars : List (List Char × List Char) :=
  canonicalSkills.map fun skill => (skill.1.toList, skill.2.toList)

theorem lookup_ofList (table : List (String × String)) (cs : List Char) :
    table.lookup (String.ofList cs) =
      ((table.map fun skill => (skill.1.toList, skill.2.toList)).lookup cs).map String.ofList := by
  induction table with
  | nil => rfl
  | cons skill table ih =>
      have hkey : (String.ofList cs == skill.1) = (cs == skill.1.toList) := by
        rw [Bool.eq_iff_iff, beq_iff_eq, beq_iff_eq, ← String.toList_inj, String.toList_ofList]
      rw [List.map_cons, List.lookup_cons, List.lookup_cons, hkey, ih]
      cases cs == skill.1.toList with
      | true => simp
      | false => rfl

/-- The skill that a text without superfluous spaces names. -/
def nameOf (casefold title : List Char → List Char) (cleaned : List Char) : Option (List Char) :=
  match skillChars.lookup (casefold cleaned) with
  | some name => some name
  | none =>
      if 2 ≤ cleaned.length ∧ cleaned.length ≤ 40 ∧ cleaned.any Char.isAlpha then
        some (title cleaned)
      else none

section

variable {u : Unicode} {title : List Char → List Char} {cs name : List Char}

theorem normalizeSkill_eq (hne : cs ≠ []) (hclean : joinWords isSpace cs = cs) :
    normalizeSkill u title (String.ofList cs) =
      (nameOf u.casefold title cs).map String.ofList := by
  have hempty : String.ofList cs ≠ "" := fun h => hne (by
    rwa [← String.toList_inj, String.toList_ofList] at h)
  have hsame : joinSplit (String.ofList cs) = String.ofList cs := by
    rw [joinSplit, String.toList_ofList, hclean]
  simp only [normalizeSkill, hsame, if_neg hempty, fold, String.toList_ofList, String.length_ofList,
    lookup_ofList, nameOf, skillChars]
  cases (canonicalSkills.map fun skill => (skill.1.toList, skill.2.toList)).lookup
      (u.casefold cs) with
  | some name => rfl
  | none =>
      dsimp only [Option.map_none]
      split_ifs <;> rfl

end

/-! ## The names of the table -/

/-- The aliases whose names are no aliases and have another title case. -/
def unsettledAliases : List String :=
  ["rest", "restful", "sqs"]

/-- A text of ASCII without superfluous spaces or separators. -/
def isPlain (cs : List Char) : Bool :=
  cs ≠ [] && joinWords isSpace cs = cs && cs.all fun c => c.toNat < 128 && !isBundling c

/-- What is true of every alias and its name. -/
def entryFacts : List Char × List Char → Bool := fun skill =>
  isPlain skill.2 &&
    decide (nameOf (List.map Char.toLower) titleAscii skill.2 = some skill.2 ↔
      ∀ word ∈ unsettledAliases, skill.1 ≠ word.toList) &&
    (nameOf (List.map Char.toLower) titleAscii skill.2).any fun name =>
      isPlain name && nameOf (List.map Char.toLower) titleAscii name = some name

theorem entryFacts_of_mem : ∀ skill ∈ skillChars, entryFacts skill = true := by
  rw [← List.all_eq_true]
  unfold entryFacts nameOf skillChars unsettledAliases canonicalSkills
  simp only [List.map_cons, List.map_nil, List.forall_mem_cons, String.reduceToList]
  decide +kernel

section

variable {u : Unicode} {title : List Char → List Char} {cs name : List Char}

theorem ascii_of_isPlain (h : isPlain cs = true) : ∀ c ∈ cs, c.toNat < 128 := by
  intro c hc
  simp only [isPlain, Bool.and_eq_true, List.all_eq_true, decide_eq_true_eq] at h
  exact (h.2 c hc).1

/-- On plain texts only ASCII matters. -/
theorem nameOf_of_isPlain (hu : AsciiLower u.casefold) (ht : Titles title)
    (h : isPlain cs = true) :
    nameOf u.casefold title cs = nameOf (List.map Char.toLower) titleAscii cs := by
  have hascii := ascii_of_isPlain h
  rw [nameOf, nameOf, hu cs hascii, ht.ascii cs hascii]

theorem normalizeSkill_of_isPlain (hu : AsciiLower u.casefold) (ht : Titles title)
    (h : isPlain cs = true) : normalizeSkill u title (String.ofList cs) =
      (nameOf (List.map Char.toLower) titleAscii cs).map String.ofList := by
  simp only [← nameOf_of_isPlain hu ht h]
  simp only [isPlain, Bool.and_eq_true, decide_eq_true_eq] at h
  exact normalizeSkill_eq h.1.1 h.1.2

variable {skill : String × String}

theorem entryFacts_chars (h : skill ∈ canonicalSkills) :
    entryFacts (skill.1.toList, skill.2.toList) = true :=
  entryFacts_of_mem _ (List.mem_map_of_mem h)

/-- A name is normalized as itself unless it is one of a few. -/
theorem normalizeSkill_name_iff (hu : AsciiLower u.casefold) (ht : Titles title)
    (h : skill ∈ canonicalSkills) :
    normalizeSkill u title skill.2 = some skill.2 ↔ skill.1 ∉ unsettledAliases := by
  have hfacts := entryFacts_chars h
  simp only [entryFacts, Bool.and_eq_true] at hfacts
  have hname := normalizeSkill_of_isPlain hu ht hfacts.1.1
  rw [String.ofList_toList] at hname
  rw [hname]
  have hnot : skill.1 ∉ unsettledAliases ↔
      ∀ word ∈ unsettledAliases, skill.1.toList ≠ word.toList := by
    constructor
    · rintro hmem word hword heq
      exact hmem (String.toList_inj.mp heq ▸ hword)
    · exact fun hall hmem => hall skill.1 hmem rfl
  rw [hnot, ← of_decide_eq_true hfacts.1.2]
  rw [Option.map_eq_some_iff]
  constructor
  · rintro ⟨name, hsome, hname⟩
    rw [hsome, ← hname, String.toList_ofList]
  · exact fun hsome => ⟨skill.2.toList, hsome, String.ofList_toList⟩

/-- What a name is normalized as is normalized as itself. -/
theorem normalizeSkill_settles (hu : AsciiLower u.casefold) (ht : Titles title)
    (h : skill ∈ canonicalSkills) : ∃ name, normalizeSkill u title skill.2 = some name ∧
      normalizeSkill u title name = some name := by
  have hfacts := entryFacts_chars h
  simp only [entryFacts, Bool.and_eq_true] at hfacts
  have hname := normalizeSkill_of_isPlain hu ht hfacts.1.1
  rw [String.ofList_toList] at hname
  obtain ⟨name, hsome, hplain⟩ := (Option.any_eq_true _ _).mp hfacts.2
  rw [Bool.and_eq_true, decide_eq_true_eq] at hplain
  refine ⟨String.ofList name, by rw [hname, hsome]; rfl, ?_⟩
  rw [normalizeSkill_of_isPlain hu ht hplain.1, hplain.2]
  rfl

end

/-! ## Settled texts -/

section

variable (u : Unicode) (title : List Char → List Char)

/-- A title case is normalized as itself: it names itself, or it is no alias, is short enough and
has no other title case. -/
def TitleSettled (titled : List Char) : Prop :=
  match canonicalSkills.lookup (String.ofList (u.casefold titled)) with
  | some name => name = String.ofList titled
  | none => titled.length ≤ 40 ∧ title titled = titled

/-- The alias of a settled text has a name that is an alias, or its own title case; without an
alias the title case of the text is settled. -/
def Settled (skill : String) : Prop :=
  let cleaned := joinWords isSpace skill.toList
  match canonicalSkills.lookup (String.ofList (u.casefold cleaned)) with
  | some _ => String.ofList (u.casefold cleaned) ∉ unsettledAliases
  | none =>
      2 ≤ cleaned.length ∧ cleaned.length ≤ 40 ∧ cleaned.any Char.isAlpha = true →
        TitleSettled u title (title cleaned)

end

section

variable {u : Unicode} {title : List Char → List Char}

theorem titleSettled_iff (ht : Titles title) {cleaned : List Char}
    (hclean : joinWords isSpace cleaned = cleaned) (hlength : 2 ≤ cleaned.length)
    (hletter : cleaned.any Char.isAlpha = true) :
    normalizeSkill u title (String.ofList (title cleaned)) = some (String.ofList (title cleaned)) ↔
      TitleSettled u title (title cleaned) := by
  have htitled := ht.titled cleaned
  have hlonger := htitled.length_le
  have hne : title cleaned ≠ [] := List.ne_nil_of_length_pos (by omega)
  have hjoin : joinWords isSpace (title cleaned) = title cleaned := by
    rw [← hclean] at htitled ⊢
    exact htitled.joinWords
  have htitle : (title cleaned).any Char.isAlpha = true := htitled.any_isAlpha hletter
  rw [normalizeSkill_eq hne hjoin, TitleSettled, lookup_ofList, ← skillChars, nameOf]
  cases skillChars.lookup (u.casefold (title cleaned)) with
  | some name => simp
  | none =>
      dsimp only [Option.map_none]
      constructor
      · intro h
        split_ifs at h with hbounds
        · refine ⟨hbounds.2.1, ?_⟩
          rw [Option.map_some, Option.some_inj, String.ofList_inj] at h
          exact h
        · contradiction
      · rintro ⟨hshort, hself⟩
        rw [if_pos ⟨by omega, hshort, htitle⟩, hself]
        rfl

/-- A text whose skill is normalized as itself. -/
def Stable (u : Unicode) (title : List Char → List Char) (skill : String) : Prop :=
  ∀ name, normalizeSkill u title skill = some name → normalizeSkill u title name = some name

/-- The skills that are normalized as themselves are those of the settled texts. -/
theorem stable_iff (hu : AsciiLower u.casefold) (ht : Titles title) (skill : String) :
    Stable u title skill ↔ Settled u title skill := by
  have hcleaned : joinWords isSpace (joinWords isSpace skill.toList) =
      joinWords isSpace skill.toList := joinWords_idem rfl
  rw [Stable, Settled]
  by_cases hne : joinWords isSpace skill.toList = []
  · have hfold : u.casefold [] = [] := hu [] fun _ hc => absurd hc List.not_mem_nil
    have hlookup : canonicalSkills.lookup (String.ofList (u.casefold [])) = none := by
      rw [hfold]
      decide
    rw [hne, hlookup]
    refine iff_of_true (fun name hname => ?_) fun h => absurd h.1 (by simp)
    rw [normalizeSkill, joinSplit, hne] at hname
    contradiction
  · have hskill : normalizeSkill u title skill =
        normalizeSkill u title (String.ofList (joinWords isSpace skill.toList)) := by
      simp only [normalizeSkill, joinSplit, String.toList_ofList, hcleaned]
    rw [hskill, normalizeSkill_eq hne hcleaned]
    generalize joinWords isSpace skill.toList = cleaned at hcleaned hne
    rw [nameOf, lookup_ofList, ← skillChars]
    cases hlookup : skillChars.lookup (u.casefold cleaned) with
    | some name =>
        have hmem : (String.ofList (u.casefold cleaned), String.ofList name) ∈ canonicalSkills := by
          apply Base.mem_of_lookup
          rw [lookup_ofList, ← skillChars, hlookup]
          rfl
        simpa using normalizeSkill_name_iff hu ht hmem
    | none =>
        dsimp only [Option.map_none]
        by_cases hbounds : 2 ≤ cleaned.length ∧ cleaned.length ≤ 40 ∧
            cleaned.any Char.isAlpha = true
        · rw [if_pos hbounds, ← titleSettled_iff ht hcleaned hbounds.1 hbounds.2.2]
          simp [hbounds]
        · rw [if_neg hbounds]
          exact iff_of_true (fun name hname => absurd hname (by simp)) fun h => absurd h hbounds

/-- The title case of ASCII that is no alias is settled. -/
theorem titleSettled_of_ascii (hu : AsciiLower u.casefold) (ht : Titles title) {cleaned : List Char}
    (hascii : ∀ c ∈ cleaned, c.toNat < 128) (hshort : cleaned.length ≤ 40)
    (hlookup : canonicalSkills.lookup (String.ofList (u.casefold cleaned)) = none) :
    TitleSettled u title (title cleaned) := by
  have htitled : ∀ c ∈ titleAscii cleaned, c.toNat < 128 := ascii_titleFrom false hascii
  have hfold : u.casefold (titleAscii cleaned) = u.casefold cleaned := by
    rw [hu _ htitled, hu _ hascii]
    exact map_toLower_titleFrom false cleaned
  rw [ht.ascii cleaned hascii, TitleSettled, hfold, hlookup, ht.ascii _ htitled]
  exact ⟨(length_titleFrom false cleaned).trans_le hshort, titleFrom_titleFrom false cleaned⟩

/-- A text of ASCII is settled unless it is one of a few aliases. -/
theorem settled_iff_of_ascii (hu : AsciiLower u.casefold) (ht : Titles title) {skill : String}
    (hascii : ∀ c ∈ skill.toList, c.toNat < 128) :
    Settled u title skill ↔
      String.ofList (u.casefold (joinWords isSpace skill.toList)) ∉ unsettledAliases := by
  have hcleaned : ∀ c ∈ joinWords isSpace skill.toList, c.toNat < 128 := by
    intro c hc
    rcases mem_intercalate hc with rfl | ⟨word, hword, hc⟩
    · decide
    · exact hascii c (mem_of_mem_words hword hc)
  have haliases : ∀ word ∈ unsettledAliases, canonicalSkills.lookup word ≠ none := by decide
  rw [Settled]
  cases hlookup : canonicalSkills.lookup
      (String.ofList (u.casefold (joinWords isSpace skill.toList))) with
  | some name => exact Iff.rfl
  | none =>
      refine iff_of_true (fun hbounds => ?_) fun hmem => haliases _ hmem hlookup
      exact titleSettled_of_ascii hu ht hcleaned hbounds.2.1 hlookup

end

/-! ## Merged lists -/

/-- `re.split(r"[,;|/]", …)` of every skill of a list. -/
def partsOf (rawSkills : List String) : List String :=
  rawSkills.flatMap fun raw =>
    if raw = "" then [] else (raw.toList.splitOnP isBundling).map String.ofList

/-- A text that is no list of several skills. -/
def Unbundled (skill : String) : Prop :=
  skill ≠ "" ∧ ∀ c ∈ skill.toList, isBundling c = false

section

variable {u : Unicode} {title : List Char → List Char} {explicit text : List String}
  {skill : String}

theorem foldl_addSkill (skills : List String) :
    skills.foldl (addSkill u) [] = Base.firstSeen (fold u) [] skills := by
  have hfold := @Base.foldl_eq_append_firstSeen _ _ _ (fold u) skills (addSkill u)
    (fun acc x => by simp [addSkill]) []
  rwa [List.map_nil, List.nil_append] at hfold

theorem extractSkillsFromList_eq (rawSkills : List String) :
    extractSkillsFromList u title rawSkills =
      Base.firstSeen (fold u) [] ((partsOf rawSkills).filterMap (normalizeSkill u title)) :=
  foldl_addSkill _

theorem mergeSkills_eq : mergeSkills u title explicit text =
    Base.firstSeen (fold u) [] ((partsOf explicit).filterMap (normalizeSkill u title) ++
      text.map fun skill => (normalizeSkill u title skill).getD skill) := by
  rw [mergeSkills, foldl_addSkill, extractSkillsFromList_eq, Base.firstSeen_firstSeen_append]

theorem partsOf_of_unbundled (h : ∀ skill ∈ explicit, Unbundled skill) :
    partsOf explicit = explicit := by
  induction explicit with
  | nil => rfl
  | cons skill explicit ih =>
      obtain ⟨⟨hne, hskill⟩, hrest⟩ := List.forall_mem_cons.mp h
      rw [partsOf, List.flatMap_cons, if_neg hne, List.splitOnP_eq_singleton hskill,
        List.map_singleton, String.ofList_toList, ← partsOf, ih hrest]
      rfl

theorem isBundling_of_mem_partsOf (h : skill ∈ partsOf explicit) :
    ∀ c ∈ skill.toList, isBundling c = false := by
  obtain ⟨raw, _, hpart⟩ := List.mem_flatMap.mp h
  split at hpart
  · contradiction
  · obtain ⟨piece, hpiece, rfl⟩ := List.mem_map.mp hpart
    intro c hc
    rw [String.toList_ofList] at hc
    refine space_of_mem_words (List.mem_filter.mpr ⟨hpiece, ?_⟩) hc
    simpa using List.ne_nil_of_mem hc

theorem unbundled_of_isPlain {cs : List Char} (h : isPlain cs = true) :
    Unbundled (String.ofList cs) := by
  simp only [isPlain, Bool.and_eq_true, List.all_eq_true, decide_eq_true_eq] at h
  refine ⟨fun hempty => h.1.1 ?_, fun c hc => ?_⟩
  · rwa [← String.toList_inj, String.toList_ofList] at hempty
  · rw [String.toList_ofList] at hc
    simpa using (h.2 c hc).2

/-- What a skill without separators is normalized as has none. -/
theorem unbundled_of_normalizeSkill (ht : Titles title) {name : String}
    (hskill : ∀ c ∈ skill.toList, isBundling c = false)
    (h : normalizeSkill u title skill = some name) : Unbundled name := by
  have hcleaned : ∀ c ∈ joinWords isSpace skill.toList, isBundling c = false := by
    intro c hc
    rcases mem_of_mem_joinWords hc with rfl | hc
    · rfl
    · exact hskill c hc
  simp only [normalizeSkill, joinSplit, String.toList_ofList, String.length_ofList] at h
  split at h
  · contradiction
  · split at h
    · rename_i hlookup
      cases h
      have hfacts := entryFacts_chars (Base.mem_of_lookup hlookup)
      simp only [entryFacts, Bool.and_eq_true] at hfacts
      have hname := unbundled_of_isPlain hfacts.1.1
      rwa [String.ofList_toList] at hname
    · split at h
      · rename_i hbounds
        cases h
        have htitled := ht.titled (joinWords isSpace skill.toList)
        have hlength := htitled.length_le
        refine ⟨fun hempty => ?_, fun c hc => ?_⟩
        · rw [← String.toList_inj, String.toList_ofList] at hempty
          rw [hempty] at hlength
          have hshort : (joinWords isSpace skill.toList).length ≤ 0 := hlength
          omega
        · rw [String.toList_ofList] at hc
          exact htitled.isBundling_eq_false hcleaned c hc
      · contradiction

/-- The special skills are in the table. -/
theorem specialSkills_subset : specialSkills ⊆ canonicalSkills := by
  simp [specialSkills, canonicalSkills]

/-- The skills of a text are names of the table. -/
theorem exists_of_mem_extractSkillsFromText {description : Option String}
    (h : skill ∈ extractSkillsFromText u description) :
    ∃ entry ∈ canonicalSkills, entry.2 = skill := by
  simp only [extractSkillsFromText] at h
  split_ifs at h
  · contradiction
  · rw [foldl_addSkill] at h
    rcases List.mem_append.mp (Base.firstSeen_sublist.subset h) with h | h
    · obtain ⟨entry, hentry, rfl⟩ := List.mem_map.mp h
      exact ⟨entry, specialSkills_subset (List.mem_of_mem_filter hentry), rfl⟩
    · obtain ⟨entry, hentry, rfl⟩ := List.mem_map.mp h
      exact ⟨entry, List.mem_of_mem_filter hentry, rfl⟩

/-- What is added to a list for a text is normalized as itself. -/
theorem stable_of_mem_text (hu : AsciiLower u.casefold) (ht : Titles title)
    {description : Option String}
    (h : skill ∈ (extractSkillsFromText u description).map fun skill =>
      (normalizeSkill u title skill).getD skill) :
    normalizeSkill u title skill = some skill ∧ Unbundled skill := by
  obtain ⟨name, hname, rfl⟩ := List.mem_map.mp h
  obtain ⟨entry, hentry, rfl⟩ := exists_of_mem_extractSkillsFromText hname
  obtain ⟨settled, hsettled, hagain⟩ := normalizeSkill_settles hu ht hentry
  have hfacts := entryFacts_chars hentry
  simp only [entryFacts, Bool.and_eq_true] at hfacts
  have hplain := unbundled_of_isPlain hfacts.1.1
  rw [String.ofList_toList] at hplain
  rw [hsettled, Option.getD_some]
  exact ⟨hagain, unbundled_of_normalizeSkill ht hplain.2 hsettled⟩

theorem unbundled_of_mem_mergeSkills (hu : AsciiLower u.casefold) (ht : Titles title)
    {description : Option String}
    (h : skill ∈ mergeSkills u title explicit (extractSkillsFromText u description)) :
    Unbundled skill := by
  rw [mergeSkills_eq] at h
  rcases List.mem_append.mp (Base.firstSeen_sublist.subset h) with h | h
  · obtain ⟨part, hpart, hname⟩ := List.mem_filterMap.mp h
    exact unbundled_of_normalizeSkill ht (isBundling_of_mem_partsOf hpart) hname
  · exact (stable_of_mem_text hu ht h).2

/-- A part of the list whose skill no earlier part names in any case. -/
def Kept (u : Unicode) (title : List Char → List Char) (explicit : List String) (part : String) :
    Prop :=
  ∃ before after, partsOf explicit = before ++ part :: after ∧
    ∀ earlier ∈ before, ∀ other ∈ normalizeSkill u title earlier,
      ∀ name ∈ normalizeSkill u title part, fold u other ≠ fold u name

/-- Merging again changes nothing exactly when the parts that are kept are settled. -/
theorem mergeSkills_again_iff (hu : AsciiLower u.casefold) (ht : Titles title)
    (explicit : List String) (description : Option String) :
    mergeSkills u title (mergeSkills u title explicit (extractSkillsFromText u description))
        (extractSkillsFromText u description) =
      mergeSkills u title explicit (extractSkillsFromText u description) ↔
    ∀ part, Kept u title explicit part → Settled u title part := by
  have hstable : ∀ skill ∈ (extractSkillsFromText u description).map fun skill =>
      (normalizeSkill u title skill).getD skill, normalizeSkill u title skill = some skill :=
    fun skill hskill => (stable_of_mem_text hu ht hskill).1
  have hparts : partsOf (mergeSkills u title explicit (extractSkillsFromText u description)) =
      mergeSkills u title explicit (extractSkillsFromText u description) :=
    partsOf_of_unbundled fun _ => unbundled_of_mem_mergeSkills hu ht
  rw [mergeSkills_eq, hparts, Base.firstSeen_renew_iff mergeSkills_eq hstable, mergeSkills_eq,
    Base.firstSeen_append]
  constructor
  · rintro hall part ⟨before, after, hsplit, hbefore⟩
    rw [← stable_iff hu ht]
    intro name hname
    refine hall name (List.mem_append_left _ ?_)
    rw [Base.mem_firstSeen_filterMap_iff]
    exact ⟨before, part, after, hsplit, hname,
      fun earlier hearlier other hother => hbefore earlier hearlier other hother name hname⟩
  · intro hkept name hname
    rcases List.mem_append.mp hname with hname | hname
    · obtain ⟨before, part, after, hsplit, hpart, hbefore⟩ :=
        Base.mem_firstSeen_filterMap_iff.mp hname
      refine (stable_iff hu ht part).mpr (hkept part ⟨before, after, hsplit, ?_⟩) name hpart
      intro earlier hearlier other hother name' hname'
      rw [hpart, Option.mem_some_iff] at hname'
      exact hname' ▸ hbefore earlier hearlier other hother
    · exact hstable name (Base.firstSeen_sublist.subset hname)

/-- Which texts are normalized once and for all, which lists can be merged again, that no merged
list has a skill twice, and which texts of ASCII are settled. -/
theorem skills_settle_iff (hu : AsciiLower u.casefold) (ht : Titles title) :
    (∀ skill, (∀ name, normalizeSkill u title skill = some name →
        normalizeSkill u title name = some name) ↔ Settled u title skill) ∧
    (∀ explicit description,
      mergeSkills u title (mergeSkills u title explicit (extractSkillsFromText u description))
          (extractSkillsFromText u description) =
        mergeSkills u title explicit (extractSkillsFromText u description) ↔
      ∀ part, Kept u title explicit part → Settled u title part) ∧
    (∀ explicit text, ((mergeSkills u title explicit text).map (fold u)).Nodup) ∧
    ∀ skill : String, (∀ c ∈ skill.toList, c.toNat < 128) →
      (Settled u title skill ↔
        String.ofList (u.casefold (joinWords isSpace skill.toList)) ∉ unsettledAliases) := by
  refine ⟨stable_iff hu ht, mergeSkills_again_iff hu ht, fun explicit text => ?_,
    fun skill => settled_iff_of_ascii hu ht⟩
  rw [mergeSkills_eq]
  exact Base.nodup_map_firstSeen

theorem skills_settle_iff_ascii :
    (∀ skill, (∀ name, normalizeSkill Unicode.ascii titleAscii skill = some name →
        normalizeSkill Unicode.ascii titleAscii name = some name) ↔
      Settled Unicode.ascii titleAscii skill) ∧
    (∀ explicit description,
      mergeSkills Unicode.ascii titleAscii
          (mergeSkills Unicode.ascii titleAscii explicit
            (extractSkillsFromText Unicode.ascii description))
          (extractSkillsFromText Unicode.ascii description) =
        mergeSkills Unicode.ascii titleAscii explicit
          (extractSkillsFromText Unicode.ascii description) ↔
      ∀ part, Kept Unicode.ascii titleAscii explicit part →
        Settled Unicode.ascii titleAscii part) ∧
    (∀ explicit text,
      ((mergeSkills Unicode.ascii titleAscii explicit text).map (fold Unicode.ascii)).Nodup) ∧
    ∀ skill : String, (∀ c ∈ skill.toList, c.toNat < 128) →
      (Settled Unicode.ascii titleAscii skill ↔
        String.ofList (Unicode.ascii.casefold (joinWords isSpace skill.toList)) ∉
          unsettledAliases) :=
  skills_settle_iff asciiLower_toLower titles_titleAscii

/-- The name of an alias is changed when it is met again. -/
theorem rest_unsettled :
    normalizeSkill Unicode.ascii titleAscii "rest" = some "REST API" ∧
    normalizeSkill Unicode.ascii titleAscii "REST API" = some "Rest Api" ∧
    mergeSkills Unicode.ascii titleAscii ["rest"] [] = ["REST API"] ∧
    mergeSkills Unicode.ascii titleAscii ["REST API"] [] = ["Rest Api"] := by
  decide

end

end Extraction
end HireAndTech
