import HireAndTech.Collection.Scheduler
import HireAndTech.Resumes.Machine
import HireAndTech.Text.Words

/-!
# The resume parser

`DeterministicPdfResumeParser.parse` joins the texts of the pages of a document up to a limit, and
reads a profile from keywords in the joined text.  The library that reads the document is what it
returns: pages with their texts, or an exception.

Main results:

- Definition {lit}`parse`: the profile of a document, or the error.
- Theorem {lit}`extractPages_eq_ok_iff`: the running length is the length of the joined text.
- Theorem {lit}`extracted_text_limit`: which texts are accepted.
-/

namespace HireAndTech
namespace Resumes
namespace PdfParser

open Text Catalogue Collection

/-! ## Errors -/

/-- `PdfReadError`, `OSError` or `ValueError` of the library. -/
inductive Broken
  | document
deriving DecidableEq, Repr

/-- What the parser raises. -/
inductive ParseError
  | application (error : ApplicationError)
  | validation
deriving DecidableEq, Repr

/-- `_invalid_pdf`. -/
def invalidPdf : ParseError :=
  .application ⟨"RESUME_PDF_INVALID", "The resume PDF could not be parsed.", 422⟩

def pdfEmpty : ParseError :=
  .application ⟨"RESUME_PDF_EMPTY", "The resume PDF contains no pages.", 422⟩

def pageLimitExceeded : ParseError :=
  .application
    ⟨"RESUME_PAGE_LIMIT_EXCEEDED", "The resume PDF exceeds the allowed page count.", 422⟩

def textLimitExceeded : ParseError :=
  .application
    ⟨"RESUME_TEXT_LIMIT_EXCEEDED", "The extracted resume text exceeds the allowed size.", 422⟩

def textNotFound : ParseError :=
  .application
    ⟨"RESUME_TEXT_NOT_FOUND", "No readable text could be extracted from the resume PDF.", 422⟩

/-! ## Pages -/

/-- `page.extract_text()`. -/
abbrev Page := Except Broken (Option (List Char))

/-- `PdfReader(…).pages`. -/
abbrev Document := Except Broken (List Page)

/-- `MAX_EXTRACTED_TEXT_CHARACTERS`. -/
def maxExtractedTextCharacters : ℕ := 200000

structure DeterministicPdfResumeParser where
  maxPages : ℕ
  maxExtractedCharacters : ℕ
deriving DecidableEq, Repr

/-- `__init__`. -/
def init (resumeMaxPages resumeMaxExtractedCharacters : ℕ) : DeterministicPdfResumeParser where
  maxPages := resumeMaxPages
  maxExtractedCharacters := min resumeMaxExtractedCharacters maxExtractedTextCharacters

/-- `extracted_parts` and `extracted_length`. -/
structure Extracted where
  parts : List (List Char)
  length : ℕ
deriving DecidableEq, Repr

/-- The text of a page, without the spaces around it. -/
def pageText (text : Option (List Char)) : List Char :=
  strip isSpace (text.getD [])

/-- The body of the loop over the pages. -/
def addPage (limit : ℕ) (extracted : Extracted) : Page → Except ParseError Extracted
  | .error _ => .error invalidPdf
  | .ok text =>
      if pageText text = [] then .ok extracted
      else
        let separatorLength := if extracted.parts = [] then 0 else 1
        let projectedLength := extracted.length + separatorLength + (pageText text).length
        if limit < projectedLength then .error textLimitExceeded
        else .ok ⟨extracted.parts ++ [pageText text], projectedLength⟩

def extractPages (limit : ℕ) (pages : List Page) : Except ParseError Extracted :=
  pages.foldlM (addPage limit) ⟨[], 0⟩

/-- `"\n".join(…)`. -/
def joinLines (parts : List (List Char)) : List Char :=
  ['\n'].intercalate parts

/-! ## Profiles -/

/-- `skill_keywords`. -/
def skillKeywords : List (String × String) :=
  [("python", "Python"), ("react", "React"), ("devops", "DevOps"), ("sql", "SQL"), ("aws", "AWS"),
    ("azure", "Azure"), ("gcp", "GCP"), ("docker", "Docker"), ("kubernetes", "Kubernetes"),
    ("javascript", "JavaScript"), ("typescript", "TypeScript"), ("java", "Java"), ("c++", "C++"),
    ("c#", "C#"), ("ruby", "Ruby"), ("go", "Go"), ("rust", "Rust"), ("php", "PHP"),
    ("html", "HTML"), ("css", "CSS"), ("node", "Node.js"), ("django", "Django"),
    ("flask", "Flask"), ("spring", "Spring"), ("linux", "Linux"), ("sre", "SRE"),
    ("cloud", "Cloud Computing")]

section

variable (textLower : List Char)

/-- `word in text_lower`. -/
def occurs (word : String) : Bool :=
  word.toList <:+: textLower

/-- `word in text_lower.split()`. -/
def isWordOf (word : String) : Bool :=
  (words isSpace textLower).contains word.toList

/-- The keywords of the text, with their skills. -/
def foundKeywords : List (String × String) :=
  skillKeywords.filter fun keyword => occurs textLower keyword.1

/-- `skills[:10]`. -/
def resumeSkills : List String :=
  ((foundKeywords textLower).map (·.2)).take 10

def locationOf : String :=
  if occurs textLower "new york" || isWordOf textLower "ny" then "New York, NY"
  else if occurs textLower "california" || isWordOf textLower "ca" then "California"
  else if occurs textLower "texas" || isWordOf textLower "tx" then "Texas"
  else if occurs textLower "london" then "London, UK"
  else if occurs textLower "san francisco" then "San Francisco, CA"
  else if occurs textLower "seattle" then "Seattle, WA"
  else if occurs textLower "austin" then "Austin, TX"
  else "Remote"

def currentTitleOf : String :=
  if occurs textLower "devops" || occurs textLower "site reliability" then "DevOps Engineer"
  else if occurs textLower "frontend" || occurs textLower "front end" then "Frontend Engineer"
  else if occurs textLower "backend" || occurs textLower "back end" then "Backend Engineer"
  else if occurs textLower "fullstack" || occurs textLower "full stack" then
    "Full Stack Engineer"
  else if occurs textLower "data scientist" then "Data Scientist"
  else if occurs textLower "product manager" then "Product Manager"
  else "Software Engineer"

def yearsOf : ℚ :=
  if occurs textLower "senior" || occurs textLower "staff" || occurs textLower "principal" then 6
  else if occurs textLower "lead" || occurs textLower "manager" || occurs textLower "director" then
    10
  else 2

end

/-- `ParsedResume(…)`, of the fields that the parser sets. -/
def validateParsed (u : Unicode) (currentTitle location : String) (skills : List String)
    (yearsOfExperience : ℚ) (extractedText : List Char) (rawParserOutput : String) :
    Option ParsedResume := do
  let (currentTitle, location, skills) ← validateProfileText u currentTitle location skills
  let text := strip isWhiteSpace extractedText
  if 0 ≤ yearsOfExperience ∧ yearsOfExperience ≤ 80 ∧ 1 ≤ text.length ∧
      text.length ≤ maxExtractedTextCharacters then
    return {
      fullName := none
      email := none
      phone := none
      location := location
      currentTitle := currentTitle
      professionalSummary := none
      yearsOfExperience := some yearsOfExperience
      extractedText := String.ofList text
      skills := skills
      employmentHistory := []
      education := []
      certifications := []
      languages := []
      rawParserOutput := rawParserOutput }
  else none

/-- `raw_parser_output`, as its JSON text. -/
def pageCountOutput (pageCount : ℕ) : String :=
  "\x7b\"page_count\": " ++ toString pageCount ++ "\x7d"

variable (u : Unicode) (lower : List Char → List Char)

/-- The profile of a text, after the loop over the pages. -/
def profileOf (pageCount : ℕ) (extractedText : List Char) : Except ParseError ParsedResume :=
  if extractedText = [] then .error textNotFound
  else
    let textLower := lower extractedText
    match validateParsed u (currentTitleOf textLower) (locationOf textLower)
        (resumeSkills textLower) (yearsOf textLower) extractedText (pageCountOutput pageCount) with
    | some parsed => .ok parsed
    | none => .error .validation

/-- `DeterministicPdfResumeParser.parse`, for a given `str.lower`. -/
def parse (parser : DeterministicPdfResumeParser) (document : Document) :
    Except ParseError ParsedResume := do
  let pages ← document.mapError fun _ => invalidPdf
  if pages.length = 0 then .error pdfEmpty
  else if parser.maxPages < pages.length then .error pageLimitExceeded
  else
    let extracted ← extractPages parser.maxExtractedCharacters pages
    profileOf u lower pages.length (strip isSpace (joinLines extracted.parts))

/-! ## The joined text -/

/-- The texts of the pages that are not blank. -/
def keptParts (texts : List (Option (List Char))) : List (List Char) :=
  (texts.map pageText).filter (· ≠ [])

/-- Pages whose texts can all be extracted. -/
def readable (texts : List (Option (List Char))) : List Page :=
  texts.map .ok

section

variable {limit : ℕ} {parts more : List (List Char)} {texts : List (Option (List Char))}
  {extracted extracted' : Extracted}

/-- A text with one more line. -/
theorem joinLines_concat (line : List Char) : joinLines (parts ++ [line]) =
    joinLines parts ++ ((if parts = [] then [] else ['\n']) ++ line) := by
  induction parts with
  | nil => simp [joinLines]
  | cons part parts ih =>
      cases parts with
      | nil => simp [joinLines, List.intercalate_cons_cons]
      | cons other parts =>
          rw [if_neg (List.cons_ne_nil _ _)] at ih ⊢
          rw [joinLines, List.cons_append, List.cons_append, List.intercalate_cons_cons,
            ← List.cons_append, ← joinLines, ih, joinLines, joinLines,
            List.intercalate_cons_cons, List.append_assoc, List.append_assoc, List.append_assoc]

theorem length_joinLines_concat (line : List Char) :
    (joinLines (parts ++ [line])).length =
      (joinLines parts).length + (if parts = [] then 0 else 1) + line.length := by
  rw [joinLines_concat]
  split <;> simp
  omega

theorem length_joinLines_le : (joinLines parts).length ≤ (joinLines (parts ++ more)).length := by
  induction more using List.reverseRecOn with
  | nil => rw [List.append_nil]
  | append_singleton more line ih =>
      rw [← List.append_assoc, length_joinLines_concat]
      omega

/-- The state of the loop belongs to the parts that it has kept. -/
def Extracted.Tracks (extracted : Extracted) : Prop :=
  extracted.length = (joinLines extracted.parts).length

/-- The step of a page that is not blank, where the running length is right. -/
theorem addPage_of_ne_nil {text : Option (List Char)} (htracks : extracted.Tracks)
    (hne : pageText text ≠ []) : addPage limit extracted (.ok text) =
      if limit < (joinLines (extracted.parts ++ [pageText text])).length then
        .error textLimitExceeded
      else
        .ok ⟨extracted.parts ++ [pageText text],
          (joinLines (extracted.parts ++ [pageText text])).length⟩ := by
  rw [length_joinLines_concat, ← htracks, addPage, if_neg hne]

/-- The loop goes on exactly while the joined text is within the limit. -/
theorem foldlM_addPage_eq_ok_iff (htracks : extracted.Tracks) (hlimit : extracted.length ≤ limit) :
    (readable texts).foldlM (addPage limit) extracted = .ok extracted' ↔
      extracted' = ⟨extracted.parts ++ keptParts texts,
          (joinLines (extracted.parts ++ keptParts texts)).length⟩ ∧
        (joinLines (extracted.parts ++ keptParts texts)).length ≤ limit := by
  induction texts generalizing extracted with
  | nil =>
      have hnil : keptParts [] = [] := rfl
      rw [hnil, List.append_nil, ← htracks, and_iff_left hlimit]
      exact ⟨fun h => (Except.ok.inj h).symm, fun h => congrArg Except.ok h.symm⟩
  | cons text texts ih =>
      rw [readable, List.map_cons, List.foldlM_cons, ← readable]
      by_cases hblank : pageText text = []
      · have hkept : keptParts (text :: texts) = keptParts texts :=
          List.filter_cons_of_neg (by simpa using hblank)
        rw [hkept, addPage, if_pos hblank]
        exact ih htracks hlimit
      · have hkept : keptParts (text :: texts) = [pageText text] ++ keptParts texts :=
          List.filter_cons_of_pos (by simpa using hblank)
        rw [hkept, ← List.append_assoc, addPage_of_ne_nil htracks hblank]
        by_cases hover : limit < (joinLines (extracted.parts ++ [pageText text])).length
        · rw [if_pos hover]
          refine iff_of_false nofun fun h => ?_
          exact absurd (length_joinLines_le.trans h.2) (not_le.mpr hover)
        · rw [if_neg hover]
          exact ih rfl (not_lt.mp hover)

/-- The running length is the length of the joined text, and within the limit. -/
theorem extractPages_eq_ok_iff :
    extractPages limit (readable texts) = .ok extracted ↔
      extracted = ⟨keptParts texts, (joinLines (keptParts texts)).length⟩ ∧
        (joinLines (keptParts texts)).length ≤ limit :=
  foldlM_addPage_eq_ok_iff rfl (Nat.zero_le limit)

/-- The text between the first and the last line is not stripped. -/
theorem strip_joinLines (h : ∀ part ∈ parts, part ≠ [] ∧ strip isSpace part = part) :
    strip isSpace (joinLines parts) = joinLines parts := by
  rw [strip_eq_self_iff]
  constructor
  · cases parts with
    | nil => exact fun c hc => absurd hc (by simp [joinLines])
    | cons part parts =>
        obtain ⟨hne, hpart⟩ := h part List.mem_cons_self
        have hhead : (joinLines (part :: parts)).head? = part.head? := by
          cases parts with
          | nil => simp [joinLines]
          | cons other parts =>
              rw [joinLines, List.intercalate_cons_cons, List.append_assoc,
                List.head?_append_of_ne_nil _ hne]
        rw [hhead]
        exact (strip_eq_self_iff.mp hpart).1
  · rcases List.eq_nil_or_concat parts with rfl | ⟨front, last, rfl⟩
    · exact fun c hc => absurd hc (by simp [joinLines])
    · rw [List.concat_eq_append] at h ⊢
      obtain ⟨hne, hlast⟩ := h last (by simp)
      rw [joinLines_concat, List.getLast?_append_of_ne_nil _ (by simp [hne]),
        List.getLast?_append_of_ne_nil _ hne]
      exact (strip_eq_self_iff.mp hlast).2

/-- The parts that are kept are stripped and not empty. -/
theorem of_mem_keptParts {part : List Char} (h : part ∈ keptParts texts) :
    part ≠ [] ∧ strip isSpace part = part := by
  obtain ⟨hmem, hne⟩ := List.mem_filter.mp h
  obtain ⟨text, _, rfl⟩ := List.mem_map.mp hmem
  exact ⟨of_decide_eq_true hne, strip_idem⟩

end

/-! ## The schema -/

section

variable {u : Unicode} {textLower text : List Char} {values : List String}

theorem mapM_eq_self {f : String → Option String} (h : ∀ value ∈ values, f value = some value) :
    values.mapM f = some values := by
  induction values with
  | nil => rfl
  | cons value values ih =>
      obtain ⟨hvalue, hrest⟩ := List.forall_mem_cons.mp h
      rw [List.mapM_cons, hvalue, ih hrest]
      rfl

theorem normalizeStrings_sublist {seen : List (List Char)}
    (h : ∀ value ∈ values, strip isSpace value.toList = value.toList) :
    (normalizeStrings u seen values).Sublist values := by
  induction values generalizing seen with
  | nil => exact List.Sublist.refl []
  | cons value values ih =>
      obtain ⟨hvalue, hrest⟩ := List.forall_mem_cons.mp h
      simp only [normalizeStrings, hvalue, String.ofList_toList]
      split
      · exact (ih hrest).cons value
      · split
        · exact (ih hrest).cons value
        · exact (ih hrest).cons_cons value

/-- A short text with no space at its ends. -/
def isTrimmed (cs : List Char) : Bool :=
  cs.head?.all (fun c => !isSpace c) && cs.getLast?.all (fun c => !isSpace c) &&
    1 ≤ cs.length && cs.length ≤ 200

theorem strip_of_isTrimmed (h : isTrimmed text = true) :
    strip isSpace text = text ∧ strip isWhiteSpace text = text := by
  simp only [isTrimmed, Bool.and_eq_true, Option.all_eq_true, Bool.not_eq_true'] at h
  have hwhite {c : Char} (hc : isSpace c = false) : isWhiteSpace c = false := by
    rw [isWhiteSpace, hc, Bool.false_and]
  exact ⟨strip_eq_self_iff.mpr ⟨h.1.1.1, h.1.1.2⟩,
    strip_eq_self_iff.mpr ⟨fun c hc => hwhite (h.1.1.1 c hc), fun c hc => hwhite (h.1.1.2 c hc)⟩⟩

theorem shortText_of_isTrimmed {value : String} (h : isTrimmed value.toList = true) :
    shortText value = some value := by
  have hbounds := h
  simp only [isTrimmed, Bool.and_eq_true, decide_eq_true_eq] at hbounds
  rw [shortText, (strip_of_isTrimmed h).2, String.ofList_toList]
  exact if_pos ⟨hbounds.1.2, hbounds.2⟩

theorem isTrimmed_skill : ∀ keyword ∈ skillKeywords, isTrimmed keyword.2.toList = true := by
  simp only [skillKeywords, List.forall_mem_cons, String.reduceToList]
  decide

theorem shortText_currentTitleOf :
    shortText (currentTitleOf textLower) = some (currentTitleOf textLower) := by
  apply shortText_of_isTrimmed
  unfold currentTitleOf
  split_ifs <;> simp only [String.reduceToList] <;> decide

theorem shortText_locationOf :
    shortText (locationOf textLower) = some (locationOf textLower) := by
  apply shortText_of_isTrimmed
  unfold locationOf
  split_ifs <;> simp only [String.reduceToList] <;> decide

theorem yearsOf_bounds : 0 ≤ yearsOf textLower ∧ yearsOf textLower ≤ 80 := by
  unfold yearsOf
  split_ifs <;> norm_num

theorem exists_of_mem_resumeSkills {skill : String} (h : skill ∈ resumeSkills textLower) :
    ∃ keyword ∈ skillKeywords, keyword.2 = skill := by
  obtain ⟨keyword, hkeyword, rfl⟩ := List.mem_map.mp (List.mem_of_mem_take h)
  exact ⟨keyword, List.mem_of_mem_filter hkeyword, rfl⟩

/-- The schema keeps the skills of the keywords, but for repetitions. -/
theorem normalizeStringList_resumeSkills :
    (normalizeStringList u (resumeSkills textLower)).Sublist (resumeSkills textLower) := by
  apply normalizeStrings_sublist
  intro skill hskill
  obtain ⟨keyword, hkeyword, rfl⟩ := exists_of_mem_resumeSkills hskill
  exact (strip_of_isTrimmed (isTrimmed_skill keyword hkeyword)).1

theorem validateProfileText_eq : validateProfileText u (some (currentTitleOf textLower))
    (some (locationOf textLower)) (resumeSkills textLower) =
      some (some (currentTitleOf textLower), some (locationOf textLower),
        normalizeStringList u (resumeSkills textLower)) := by
  have hshort : ∀ skill ∈ normalizeStringList u (resumeSkills textLower),
      shortText skill = some skill := by
    intro skill hskill
    obtain ⟨keyword, hkeyword, rfl⟩ :=
      exists_of_mem_resumeSkills (normalizeStringList_resumeSkills.subset hskill)
    exact shortText_of_isTrimmed (isTrimmed_skill keyword hkeyword)
  have hlength : (normalizeStringList u (resumeSkills textLower)).length ≤ 500 := by
    have hle := (@normalizeStringList_resumeSkills u textLower).length_le
    have hten : (resumeSkills textLower).length ≤ 10 := List.length_take_le 10 _
    omega
  simp [validateProfileText, shortText_currentTitleOf, shortText_locationOf, mapM_eq_self hshort,
    hlength]

theorem strip_isWhiteSpace (hstrip : strip isSpace text = text) :
    strip isWhiteSpace text = text := by
  obtain ⟨hhead, hlast⟩ := strip_eq_self_iff.mp hstrip
  refine strip_eq_self_iff.mpr ⟨fun c hc => ?_, fun c hc => ?_⟩
  · rw [isWhiteSpace, hhead c hc, Bool.false_and]
  · rw [isWhiteSpace, hlast c hc, Bool.false_and]

/-- The schema admits what the parser makes of a text within its bounds. -/
theorem exists_validateParsed {pageCount : ℕ} (hstrip : strip isSpace text = text)
    (hne : text ≠ []) (hlength : text.length ≤ maxExtractedTextCharacters) :
    ∃ parsed, validateParsed u (currentTitleOf textLower) (locationOf textLower)
      (resumeSkills textLower) (yearsOf textLower) text (pageCountOutput pageCount) =
        some parsed := by
  have hpos := List.length_pos_of_ne_nil hne
  obtain ⟨hlow, hhigh⟩ := @yearsOf_bounds textLower
  rw [validateParsed, validateProfileText_eq, strip_isWhiteSpace hstrip]
  simp only [Option.bind_eq_bind, Option.bind_some]
  rw [if_pos ⟨hlow, hhigh, hpos, hlength⟩]
  exact ⟨_, rfl⟩

/-- The text of a profile is the one it is read from, and its skills are those of the keywords. -/
theorem profileOf_eq_ok {lower : List Char → List Char} {pageCount : ℕ} {parsed : ParsedResume}
    (hstrip : strip isSpace text = text) (h : profileOf u lower pageCount text = .ok parsed) :
    text ≠ [] ∧ parsed.extractedText = String.ofList text ∧
      parsed.skills = normalizeStringList u (resumeSkills (lower text)) := by
  rw [profileOf] at h
  split at h
  · contradiction
  · rename_i hne
    dsimp only at h
    cases hparsed : validateParsed u (currentTitleOf (lower text)) (locationOf (lower text))
        (resumeSkills (lower text)) (yearsOf (lower text)) text (pageCountOutput pageCount) with
    | none =>
        simp only [hparsed, reduceCtorEq] at h
    | some found =>
        simp only [hparsed, Except.ok.injEq] at h
        rw [validateParsed, validateProfileText_eq, strip_isWhiteSpace hstrip] at hparsed
        simp only [Option.bind_eq_bind, Option.bind_some] at hparsed
        split at hparsed
        · cases hparsed
          exact ⟨hne, h ▸ rfl, h ▸ rfl⟩
        · contradiction

end

/-! ## Accepted documents -/

section

variable {u : Unicode} {lower : List Char → List Char} {maxPages maxCharacters : ℕ}
  {texts : List (Option (List Char))}

/-- The joined text of the pages. -/
def joinedText (texts : List (Option (List Char))) : List Char :=
  joinLines (keptParts texts)

theorem strip_joinedText : strip isSpace (joinedText texts) = joinedText texts :=
  strip_joinLines fun _ => of_mem_keptParts

theorem parse_ok (parser : DeterministicPdfResumeParser) (pages : List Page) :
    parse u lower parser (.ok pages) =
      if pages.length = 0 then .error pdfEmpty
      else if parser.maxPages < pages.length then .error pageLimitExceeded
      else
        (extractPages parser.maxExtractedCharacters pages).bind fun extracted =>
          profileOf u lower pages.length (strip isSpace (joinLines extracted.parts)) :=
  rfl

/-- Readable pages within the limits are read for a profile. -/
theorem parse_readable (hne : texts ≠ []) (hpages : texts.length ≤ maxPages) :
    parse u lower (init maxPages maxCharacters) (.ok (readable texts)) =
      (extractPages (min maxCharacters maxExtractedTextCharacters) (readable texts)).bind
        fun extracted =>
          profileOf u lower texts.length (strip isSpace (joinLines extracted.parts)) := by
  have hlength : (readable texts).length = texts.length := List.length_map _
  have hcount : ¬ texts.length = 0 := by simpa using hne
  rw [parse_ok, hlength, if_neg hcount, init, if_neg (not_lt.mpr hpages)]

theorem exists_profileOf {pageCount : ℕ} (hne : joinedText texts ≠ [])
    (hlength : (joinedText texts).length ≤ maxExtractedTextCharacters) :
    ∃ parsed, profileOf u lower pageCount (joinedText texts) = .ok parsed := by
  obtain ⟨parsed, hparsed⟩ :=
    @exists_validateParsed u (lower (joinedText texts)) _ pageCount strip_joinedText hne hlength
  refine ⟨parsed, ?_⟩
  rw [profileOf, if_neg hne]
  simp only [hparsed]

/-- What is accepted is the profile of a stripped text. -/
theorem exists_profileOf_of_parse {parser : DeterministicPdfResumeParser} {document : Document}
    {parsed : ParsedResume} (h : parse u lower parser document = .ok parsed) :
    ∃ pageCount text, strip isSpace text = text ∧
      profileOf u lower pageCount text = .ok parsed := by
  cases document with
  | error e => contradiction
  | ok pages =>
      rw [parse_ok] at h
      by_cases hzero : pages.length = 0
      · rw [if_pos hzero] at h
        contradiction
      by_cases hmany : parser.maxPages < pages.length
      · rw [if_neg hzero, if_pos hmany] at h
        contradiction
      rw [if_neg hzero, if_neg hmany] at h
      cases hextract : extractPages parser.maxExtractedCharacters pages with
      | error e =>
          rw [hextract, Except.bind] at h
          contradiction
      | ok extracted =>
          rw [hextract, Except.bind] at h
          exact ⟨pages.length, strip isSpace (joinLines extracted.parts), strip_idem, h⟩

/-- The parser succeeds exactly within the limit, with the joined text. -/
theorem parse_eq_ok_iff {parsed : ParsedResume} (hne : texts ≠ [])
    (hpages : texts.length ≤ maxPages) :
    parse u lower (init maxPages maxCharacters) (.ok (readable texts)) = .ok parsed ↔
      (joinedText texts).length ≤ min maxCharacters maxExtractedTextCharacters ∧
        profileOf u lower texts.length (joinedText texts) = .ok parsed := by
  have hjoined : strip isSpace (joinLines (keptParts texts)) = joinedText texts :=
    strip_joinedText
  rw [parse_readable hne hpages]
  constructor
  · intro h
    cases hextract : extractPages (min maxCharacters maxExtractedTextCharacters)
        (readable texts) with
    | error e =>
        rw [hextract, Except.bind] at h
        contradiction
    | ok extracted =>
        obtain ⟨rfl, hlimit⟩ := extractPages_eq_ok_iff.mp hextract
        rw [hextract, Except.bind, hjoined] at h
        exact ⟨hlimit, h⟩
  · rintro ⟨hlimit, hprofile⟩
    rw [extractPages_eq_ok_iff.mpr ⟨rfl, hlimit⟩, Except.bind, hjoined]
    exact hprofile

/-- A document with a number of pages within the limit is accepted exactly when the joined text is
not empty and within the limit.  The running length is always the length of the joined text, which
is the text that is accepted. -/
theorem extracted_text_limit (u : Unicode) (lower : List Char → List Char)
    (maxPages maxCharacters : ℕ) (texts : List (Option (List Char))) (hne : texts ≠ [])
    (hpages : texts.length ≤ maxPages) :
    ((∃ parsed, parse u lower (init maxPages maxCharacters) (.ok (readable texts)) = .ok parsed) ↔
      1 ≤ (joinedText texts).length ∧
        (joinedText texts).length ≤ min maxCharacters maxExtractedTextCharacters) ∧
    (∀ parsed, parse u lower (init maxPages maxCharacters) (.ok (readable texts)) = .ok parsed →
      parsed.extractedText = String.ofList (joinedText texts)) ∧
    ∀ before after extracted, texts = before ++ after →
      extractPages (min maxCharacters maxExtractedTextCharacters) (readable before) =
        .ok extracted →
      extracted.parts = keptParts before ∧
        extracted.length = (joinLines extracted.parts).length := by
  have hread {parsed : ParsedResume}
      (h : parse u lower (init maxPages maxCharacters) (.ok (readable texts)) = .ok parsed) :
      joinedText texts ≠ [] ∧
        (joinedText texts).length ≤ min maxCharacters maxExtractedTextCharacters ∧
        parsed.extractedText = String.ofList (joinedText texts) := by
    obtain ⟨hlimit, hprofile⟩ := (parse_eq_ok_iff hne hpages).mp h
    obtain ⟨hsome, htext, _⟩ := profileOf_eq_ok strip_joinedText hprofile
    exact ⟨hsome, hlimit, htext⟩
  refine ⟨⟨?_, ?_⟩, fun parsed hparsed => (hread hparsed).2.2, ?_⟩
  · rintro ⟨parsed, hparsed⟩
    obtain ⟨hsome, hlimit, _⟩ := hread hparsed
    exact ⟨List.length_pos_of_ne_nil hsome, hlimit⟩
  · rintro ⟨hpos, hlimit⟩
    obtain ⟨parsed, hparsed⟩ := @exists_profileOf u lower texts texts.length
      (List.ne_nil_of_length_pos hpos) (hlimit.trans (min_le_right _ _))
    exact ⟨parsed, (parse_eq_ok_iff hne hpages).mpr ⟨hlimit, hparsed⟩⟩
  · rintro before after extracted - hextract
    obtain ⟨rfl, _⟩ := extractPages_eq_ok_iff.mp hextract
    exact ⟨rfl, rfl⟩

/-- Two pages with text and one without. -/
def threePages : List (Option (List Char)) :=
  [some "  First page  ".toList, none, some "Second page".toList]

theorem extracted_text_limit_three :
    ∃ parsed, parse .ascii (List.map Char.toLower) (init 25 200000) (.ok (readable threePages)) =
        .ok parsed ∧ parsed.extractedText = "First page\nSecond page" := by
  have hlimit := extracted_text_limit .ascii (List.map Char.toLower) 25 200000 threePages
    (by simp [threePages]) (by simp [threePages])
  obtain ⟨parsed, hparsed⟩ := hlimit.1.mpr ⟨by decide, by decide⟩
  exact ⟨parsed, hparsed, (hlimit.2.1 parsed hparsed).trans (by decide)⟩

end

end PdfParser
end Resumes
end HireAndTech
