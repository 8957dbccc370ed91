import HireAndTech.Resumes.Machine
import HireAndTech.Salaries.Dice
import HireAndTech.Text.Suffixes
import HireAndTech.Text.Words

/-!
# Names of uploaded resumes

{lit}`_normalize_filename` accepts the last segment of the path that a client names, and refuses
names without the suffix {lit}`.pdf` or with a dangerous suffix before it.  The categories of
characters are a parameter.

Main results:

- Definition {lit}`normalizeFilename`: the name, or the error.
- Theorem {lit}`normalizeFilename_self`: an accepted name is accepted as it is.
- Theorem {lit}`safe_iff`: which accepted names have no dangerous component.
-/

namespace HireAndTech
namespace Resumes
namespace Validation

open Text Catalogue Salaries

/-! ## Errors -/

/-- `_invalid_filename`. -/
def invalidFilename : ApplicationError :=
  ⟨"RESUME_FILENAME_INVALID", "The resume filename is invalid.", 422⟩

def extensionUnsupported : ApplicationError :=
  ⟨"RESUME_EXTENSION_UNSUPPORTED", "The resume filename must use the .pdf extension.", 415⟩

def filenameUnsafe : ApplicationError :=
  ⟨"RESUME_FILENAME_UNSAFE", "The resume filename is not permitted.", 422⟩

/-! ## File names -/

/-- `_DANGEROUS_INNER_SUFFIXES`. -/
def dangerousInnerSuffixes : List String :=
  [".bat", ".cmd", ".com", ".exe", ".html", ".htm", ".js", ".msi", ".ps1", ".scr", ".svg"]

section

variable (u : Unicode) (isControl : Char → Bool)

/-- `suffix.casefold()`, as one of the dangerous suffixes. -/
def isDangerous (suffix : List Char) : Bool :=
  dangerousInnerSuffixes.contains (String.ofList (u.casefold suffix))

/-- `normalize("NFKC", filename).strip()`. -/
def normalized (filename : List Char) : List Char :=
  strip isSpace (u.nfkc filename)

/-- A character with the separator of Windows as that of POSIX. -/
def posix (c : Char) : Char :=
  if c = '\\' then '/' else c

/-- The text after the last separator. -/
def basename (filename : List Char) : List Char :=
  strip isSpace (((normalized u filename).map posix).rtakeWhile (· ≠ '/'))

/-- `_normalize_filename`. -/
def normalizeFilename (filename : Option (List Char)) : Except ApplicationError (List Char) :=
  match filename with
  | none => .error invalidFilename
  | some filename =>
      if normalized u filename = [] then .error invalidFilename
      else if (normalized u filename).any isControl then .error invalidFilename
      else if basename u filename = [] ∨ 255 < (basename u filename).length then
        .error invalidFilename
      else
        let path := pathName (basename u filename)
        if u.casefold (suffix path) ≠ ".pdf".toList then .error extensionUnsupported
        else if (suffixes path).dropLast.any (isDangerous u) then .error filenameUnsafe
        else .ok (basename u filename)

end

section

variable {u : Unicode} {isControl : Char → Bool} {filename : Option (List Char)}
  {text name : List Char}

/-- What is asked of the name that is accepted. -/
theorem normalizeFilename_eq_ok_iff :
    normalizeFilename u isControl filename = .ok name ↔
      ∃ text ∈ filename, basename u text = name ∧
        (∀ c ∈ normalized u text, isControl c = false) ∧ name ≠ [] ∧ name.length ≤ 255 ∧
        u.casefold (suffix (pathName name)) = ".pdf".toList ∧
        ∀ inner ∈ (suffixes (pathName name)).dropLast, isDangerous u inner = false := by
  cases filename with
  | none => simp [normalizeFilename]
  | some text =>
      have hnil (h : normalized u text = []) : basename u text = [] := by
        rw [basename, h]
        rfl
      simp only [normalizeFilename, Option.mem_some_iff, exists_eq_left']
      constructor
      · intro h
        split_ifs at h with hempty hcontrol hlength hpdf hinner
        obtain rfl := Except.ok.inj h
        rw [not_or, not_lt] at hlength
        exact ⟨rfl, by simpa using hcontrol, hlength.1, hlength.2, of_not_not hpdf,
          by simpa using hinner⟩
      · rintro ⟨rfl, hcontrol, hne, hlength, hpdf, hinner⟩
        rw [if_neg (fun h => hne (hnil h)), if_neg (by simpa using hcontrol),
          if_neg (by simp [hne, hlength]), if_neg (not_not.mpr hpdf),
          if_neg (by simpa using hinner)]

/-! ## The name -/

/-- The last segment of the NFKC form, between separators of either kind. -/
def lastSegment (u : Unicode) (text : List Char) : List Char :=
  strip isSpace ((u.nfkc text).rtakeWhile fun c => c ≠ '/' && c ≠ '\\')

theorem posix_eq_slash {c : Char} : posix c = '/' ↔ c = '/' ∨ c = '\\' := by
  unfold posix
  split <;> simp_all

/-- Separators of one kind are searched after the others have been replaced. -/
theorem rtakeWhile_map_posix (cs : List Char) :
    (cs.map posix).rtakeWhile (· ≠ '/') = cs.rtakeWhile fun c => c ≠ '/' && c ≠ '\\' := by
  have hkept : ((· ≠ '/' : Char → Bool) ∘ posix) = fun c => c ≠ '/' && c ≠ '\\' := by
    funext c
    simp [posix_eq_slash]
  rw [List.rtakeWhile, ← List.map_reverse, List.takeWhile_map, hkept, ← List.map_reverse,
    ← List.rtakeWhile]
  have hself : ∀ c ∈ cs.rtakeWhile fun c => c ≠ '/' && c ≠ '\\', posix c = id c := by
    intro c hc
    have hsegment := List.mem_rtakeWhile_imp hc
    simp only [ne_eq, Bool.and_eq_true, decide_eq_true_eq] at hsegment
    rw [posix, if_neg hsegment.2, id]
  rw [List.map_congr_left hself, List.map_id]

theorem basename_eq_lastSegment (text : List Char) : basename u text = lastSegment u text := by
  rw [basename, rtakeWhile_map_posix, normalized, lastSegment]
  refine strip_rtakeWhile_strip fun c hc => ?_
  simp only [ne_eq, Bool.and_eq_true, decide_eq_true_eq]
  constructor <;> rintro rfl <;> exact absurd hc (by decide)

theorem isInfix_basename (text : List Char) : basename u text <:+: normalized u text := by
  rw [basename, rtakeWhile_map_posix]
  exact isInfix_strip.trans (List.rtakeWhile_suffix _ _).isInfix

theorem separators_of_mem_basename {c : Char} (h : c ∈ basename u text) : c ≠ '/' ∧ c ≠ '\\' := by
  rw [basename, rtakeWhile_map_posix] at h
  simpa using List.mem_rtakeWhile_imp (isInfix_strip.mem h)

/-- The NFKC form of a text and the parts of this form are in NFKC. -/
structure Composes (nfkc : List Char → List Char) : Prop where
  idem : ∀ cs, nfkc (nfkc cs) = nfkc cs
  infix_closed : ∀ cs part, nfkc cs = cs → part <:+: cs → nfkc part = part

theorem nfkc_basename (hn : Composes u.nfkc) (text : List Char) :
    u.nfkc (basename u text) = basename u text :=
  hn.infix_closed (u.nfkc text) _ (hn.idem text) ((isInfix_basename text).trans isInfix_strip)

theorem normalized_basename (hn : Composes u.nfkc) (text : List Char) :
    normalized u (basename u text) = basename u text := by
  rw [normalized, nfkc_basename hn]
  exact strip_idem

theorem basename_idem (hn : Composes u.nfkc) (text : List Char) :
    basename u (basename u text) = basename u text := by
  have hkept : ∀ c ∈ basename u text, (c ≠ '/' && c ≠ '\\') = true := by
    intro c hc
    simpa using separators_of_mem_basename hc
  rw [basename, normalized_basename hn, rtakeWhile_map_posix, List.rtakeWhile_eq_self_iff.mpr hkept]
  exact strip_idem

/-- An accepted name is accepted as it is. -/
theorem normalizeFilename_self (hn : Composes u.nfkc)
    (h : normalizeFilename u isControl filename = .ok name) :
    normalizeFilename u isControl (some name) = .ok name := by
  obtain ⟨text, -, rfl, hcontrol, hrest⟩ := normalizeFilename_eq_ok_iff.mp h
  refine normalizeFilename_eq_ok_iff.mpr ⟨_, rfl, basename_idem hn text, ?_, hrest⟩
  rw [normalized_basename hn]
  exact fun c hc => hcontrol c ((isInfix_basename text).mem hc)

/-! ## Components -/

/-- A component that is a dangerous extension, but for spaces around it and for case. -/
def IsDangerousComponent (u : Unicode) (part : List Char) : Prop :=
  isDangerous u ('.' :: strip isSpace part) = true

instance (u : Unicode) (part : List Char) : Decidable (IsDangerousComponent u part) :=
  inferInstanceAs (Decidable (_ = true))

/-- What is expected of a name that has been accepted. -/
structure SafeFilename (u : Unicode) (isControl : Char → Bool) (name : List Char) : Prop where
  ne_nil : name ≠ []
  length_le : name.length ≤ 255
  separators : ∀ c ∈ name, c ≠ '/' ∧ c ≠ '\\'
  visible : ∀ c ∈ name, isControl c = false
  extension : ∃ front last, name = front ++ '.' :: last ∧ '.' ∉ last ∧
    u.casefold ('.' :: last) = ".pdf".toList
  inner : ∀ part ∈ innerComponents name, ¬ IsDangerousComponent u part
  accepted : normalizeFilename u isControl (some name) = .ok name

/-- A name in which dots at its front or spaces in it hide a dangerous extension. -/
def Hides (u : Unicode) (name : List Char) : Prop :=
  (∃ part ∈ hiddenComponent name, IsDangerousComponent u part) ∨
    ∃ part ∈ suffixComponents name, strip isSpace part ≠ part ∧ IsDangerousComponent u part

theorem exists_last (hu : AsciiLower u.casefold)
    (h : u.casefold (suffix (pathName name)) = ".pdf".toList) :
    ∃ front last, name = front ++ '.' :: last ∧ '.' ∉ last ∧ last ≠ [] ∧ pathName name = name ∧
      u.casefold ('.' :: last) = ".pdf".toList := by
  have hne : suffix (pathName name) ≠ [] := by
    intro hnil
    rw [hnil, hu [] (by simp)] at h
    exact absurd h (by decide)
  obtain ⟨front, last, hname, hdot, hfront, hlast⟩ := exists_of_suffix_ne_nil hne
  have hpath : pathName name = name := by
    unfold pathName at hname ⊢
    split
    · rename_i hself
      rw [if_pos hself] at hname
      exact absurd hname.symm (by simp)
    · rfl
  rw [hname, suffix_append hdot hfront hlast] at h
  exact ⟨front, last, hpath ▸ hname, hdot, hlast, hpath, h⟩

theorem not_isDangerousComponent_nil (hu : AsciiLower u.casefold) :
    ¬ IsDangerousComponent u [] := by
  have hfold : u.casefold ['.'] = ['.'] := hu ['.'] (by simp)
  rw [IsDangerousComponent, show strip isSpace [] = [] from rfl, isDangerous, hfold]
  decide

/-- Only the components of inner suffixes, as they are written, are checked. -/
theorem inner_iff (hu : AsciiLower u.casefold)
    (hinner : ∀ part ∈ suffixComponents name, isDangerous u ('.' :: part) = false) :
    (∀ part ∈ innerComponents name, ¬ IsDangerousComponent u part) ↔ ¬ Hides u name := by
  constructor
  · rintro hsafe (⟨part, hpart, hdanger⟩ | ⟨part, hpart, -, hdanger⟩)
    · have hne : part ≠ [] := fun h => not_isDangerousComponent_nil hu (h ▸ hdanger)
      exact hsafe part ((mem_innerComponents_iff hne).mpr (Or.inr hpart)) hdanger
    · have hne : part ≠ [] := fun h => not_isDangerousComponent_nil hu (h ▸ hdanger)
      exact hsafe part ((mem_innerComponents_iff hne).mpr (Or.inl hpart)) hdanger
  · intro hhides part hpart hdanger
    have hne : part ≠ [] := fun h => not_isDangerousComponent_nil hu (h ▸ hdanger)
    rcases (mem_innerComponents_iff hne).mp hpart with hpart | hpart
    · refine hhides (Or.inr ⟨part, hpart, fun hstrip => ?_, hdanger⟩)
      rw [IsDangerousComponent, hstrip, hinner part hpart] at hdanger
      contradiction
    · exact hhides (Or.inl ⟨part, hpart, hdanger⟩)

/-- An accepted name is safe unless the last segment of the text hides a dangerous extension. -/
theorem safe_iff (hu : AsciiLower u.casefold) (hn : Composes u.nfkc)
    (h : normalizeFilename u isControl filename = .ok name) :
    SafeFilename u isControl name ↔ ∀ text ∈ filename, ¬ Hides u (lastSegment u text) := by
  obtain ⟨text, htext, hname, hcontrol, hne, hlength, hpdf, hinner⟩ :=
    normalizeFilename_eq_ok_iff.mp h
  obtain ⟨front, last, hsplit, hdot, hlast, hpath, hextension⟩ := exists_last hu hpdf
  have hend : name.getLast? ≠ some '.' := hsplit ▸ getLast?_ne_dot hdot hlast
  rw [hpath, dropLast_suffixes hend, List.forall_mem_map] at hinner
  have hcomponents := inner_iff hu hinner
  rw [Option.mem_def.mp htext]
  simp only [Option.mem_some_iff, forall_eq', ← basename_eq_lastSegment, hname]
  constructor
  · exact fun hsafe => hcomponents.mp hsafe.inner
  · intro hhides
    exact {
      ne_nil := hne
      length_le := hlength
      separators := fun c hc => separators_of_mem_basename (hname ▸ hc)
      visible := fun c hc => hcontrol c ((isInfix_basename text).mem (hname ▸ hc))
      extension := ⟨front, last, hsplit, hdot, hextension⟩
      inner := hcomponents.mpr hhides
      accepted := normalizeFilename_self hn h }

/-- The control characters of ASCII. -/
def isControlAscii (c : Char) : Bool :=
  c.toNat < 32 || c.toNat = 127

/-- The name in the path that a browser sends. -/
theorem safe_resume :
    SafeFilename Unicode.ascii isControlAscii "resume.pdf".toList ↔
      ∀ text ∈ some "C:\\fakepath\\resume.pdf".toList,
        ¬ Hides Unicode.ascii (lastSegment Unicode.ascii text) :=
  safe_iff asciiLower_toLower ⟨fun _ => rfl, fun _ _ _ _ => rfl⟩ (by decide)

/-- A dot at the front of a name and a space after an extension hide the extension. -/
theorem hidden_extensions :
    (normalizeFilename Unicode.ascii isControlAscii (some ".exe.pdf".toList) =
          .ok ".exe.pdf".toList ∧
        ¬ SafeFilename Unicode.ascii isControlAscii ".exe.pdf".toList) ∧
      normalizeFilename Unicode.ascii isControlAscii (some "resume.exe .pdf".toList) =
          .ok "resume.exe .pdf".toList ∧
        ¬ SafeFilename Unicode.ascii isControlAscii "resume.exe .pdf".toList := by
  refine ⟨⟨by decide, fun hsafe => ?_⟩, by decide, fun hsafe => ?_⟩
  · exact hsafe.inner "exe".toList (by decide) (by decide)
  · exact hsafe.inner "exe ".toList (by decide) (by decide)

end

end Validation
end Resumes
end HireAndTech
