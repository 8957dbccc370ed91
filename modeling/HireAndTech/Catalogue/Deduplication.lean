import HireAndTech.Catalogue.Rows

/-!
# Deduplication across sources

The decision about a candidate adds up signals, of which the descriptions give one.  Descriptions
that have nothing in common add nothing, and take nothing away.

Main results:

- Theorem {lit}`shouldMerge_iff`: what a merge takes.
- Theorem {lit}`shouldMerge_iff_of_different`: what it takes when the descriptions differ.
- Theorem {lit}`description_veto_iff`: when different descriptions prevent a merge.
-/

namespace HireAndTech
namespace Catalogue

/-! ## What a merge takes -/

/-- Two texts are present and equal. -/
def SameText (a b : Option String) : Prop :=
  truthy a = true ∧ a = b

/-- Two texts are present and differ. -/
def Conflict (a b : Option String) : Prop :=
  truthy a = true ∧ truthy b = true ∧ a ≠ b

/-- The posted dates are known and at most three days apart. -/
def ClosePosted (candidate : CanonicalJob) (incoming : NormalizedJob) : Prop :=
  ∃ t ∈ candidate.postedAt, ∃ t' ∈ incoming.postedAt, t - t' ≤ closePeriod ∧ t' - t ≤ closePeriod

/-- Both descriptions are present, and their folded texts are equal, or one of two long ones is part
of the other. -/
def AlikeDescriptions (rt : Runtime) (candidate : CanonicalJob) (incoming : NormalizedJob) : Prop :=
  ∃ d ∈ candidate.description, ∃ d' ∈ incoming.description, d ≠ "" ∧ d' ≠ "" ∧
    ((rt.casefold d).toList = (rt.casefold d').toList ∨
      100 < (rt.casefold d).toList.length ∧ 100 < (rt.casefold d').toList.length ∧
        ((rt.casefold d).toList <:+: (rt.casefold d').toList ∨
          (rt.casefold d').toList <:+: (rt.casefold d).toList))

/-- An active candidate of the same title that nothing speaks against: the descriptions are alike,
or the place is the same and so is the kind of employment or, nearly, the date. -/
structure Mergeable (rt : Runtime) (candidate : CanonicalJob) (incoming : NormalizedJob) :
    Prop where
  active : candidate.isActive = true
  company : candidate.companyId.isSome → truthy incoming.normalizedCompany = true
  title : candidate.normalizedTitle = incoming.normalizedTitle
  location : ¬Conflict candidate.normalizedLocation incoming.normalizedLocation
  employment : ¬Conflict candidate.employmentType incoming.employmentType
  evidence : AlikeDescriptions rt candidate incoming ∨
    SameText candidate.normalizedLocation incoming.normalizedLocation ∧
      (SameText candidate.employmentType incoming.employmentType ∨ ClosePosted candidate incoming)

variable {rt : Runtime} {candidate : CanonicalJob} {incoming : NormalizedJob}

theorem locationSignal_eq_none :
    locationSignal candidate incoming = none ↔
      Conflict candidate.normalizedLocation incoming.normalizedLocation := by
  unfold locationSignal Conflict
  cases truthy candidate.normalizedLocation <;> cases truthy incoming.normalizedLocation <;> simp

theorem employmentSignal_eq_none :
    employmentSignal candidate incoming = none ↔
      Conflict candidate.employmentType incoming.employmentType := by
  unfold employmentSignal Conflict
  cases truthy candidate.employmentType <;> cases truthy incoming.employmentType <;> simp

/-- The bonus of a location, which is given when both sides have it. -/
theorem locationSignal_bonus {location : Signal}
    (h : locationSignal candidate incoming = some location) :
    (location.1 = 2 ∧ SameText candidate.normalizedLocation incoming.normalizedLocation) ∨
      (location.1 = 0 ∧ ¬SameText candidate.normalizedLocation incoming.normalizedLocation) := by
  unfold locationSignal at h
  split at h
  next htruthy =>
    rw [Bool.and_eq_true] at htruthy
    split at h
    next heq =>
      cases h
      exact Or.inl ⟨rfl, htruthy.1, heq⟩
    next => contradiction
  next hmissing =>
    have hnot : ¬SameText candidate.normalizedLocation incoming.normalizedLocation := by
      rintro ⟨htruthy, heq⟩
      rw [← heq, htruthy] at hmissing
      exact hmissing rfl
    split at h <;> cases h <;> exact Or.inr ⟨rfl, hnot⟩

/-- The bonus of an employment type, which is given when both sides have it. -/
theorem employmentSignal_bonus {employment : Signal}
    (h : employmentSignal candidate incoming = some employment) :
    (employment.1 = 1 ∧ SameText candidate.employmentType incoming.employmentType) ∨
      (employment.1 = 0 ∧ ¬SameText candidate.employmentType incoming.employmentType) := by
  unfold employmentSignal at h
  split at h
  next htruthy =>
    rw [Bool.and_eq_true] at htruthy
    split at h
    next heq =>
      cases h
      exact Or.inl ⟨rfl, htruthy.1, heq⟩
    next => contradiction
  next hmissing =>
    cases h
    refine Or.inr ⟨rfl, ?_⟩
    rintro ⟨htruthy, heq⟩
    rw [← heq, htruthy] at hmissing
    exact hmissing rfl

theorem postedSignal_bonus (candidate : CanonicalJob) (incoming : NormalizedJob) :
    ((postedSignal candidate incoming).1 = 1 ∧ ClosePosted candidate incoming) ∨
      ((postedSignal candidate incoming).1 = 0 ∧ ¬ClosePosted candidate incoming) := by
  unfold postedSignal ClosePosted
  cases candidate.postedAt with
  | none => simp
  | some t =>
      cases incoming.postedAt with
      | none => simp
      | some t' =>
          by_cases hclose : t - t' ≤ closePeriod ∧ t' - t ≤ closePeriod
          · dsimp only
            rw [if_pos hclose]
            exact Or.inl ⟨rfl, t, rfl, t', rfl, hclose⟩
          · dsimp only
            rw [if_neg hclose]
            refine Or.inr ⟨rfl, ?_⟩
            rintro ⟨_, ht, _, ht', hboth⟩
            cases ht
            cases ht'
            exact hclose hboth

/-- The bonus of descriptions, which is given when they are alike. -/
theorem descriptionSignal_bonus (rt : Runtime) (candidate : CanonicalJob)
    (incoming : NormalizedJob) :
    (3 ≤ (descriptionSignal rt candidate incoming).1 ∧ AlikeDescriptions rt candidate incoming) ∨
      ((descriptionSignal rt candidate incoming).1 = 0 ∧
        ¬AlikeDescriptions rt candidate incoming) := by
  unfold descriptionSignal AlikeDescriptions
  cases hd : candidate.description with
  | none => simp [truthy]
  | some d =>
      cases hd' : incoming.description with
      | none => simp [truthy]
      | some d' =>
          by_cases hempty : d = "" ∨ d' = ""
          · rcases hempty with rfl | rfl <;> simp [truthy]
          · rw [not_or] at hempty
            simp only [truthy, Option.any_some, hempty, ne_eq, not_false_eq_true, decide_true,
              Bool.and_self, if_true, Option.getD_some, Option.mem_def, Option.some.injEq,
              exists_eq_left', true_and]
            by_cases hsame : (rt.casefold d).toList = (rt.casefold d').toList
            · simp [hsame]
            · rw [if_neg hsame]
              by_cases hlong : 100 < (rt.casefold d).toList.length ∧
                  100 < (rt.casefold d').toList.length
              · have hboth : (decide (100 < (rt.casefold d).toList.length) &&
                    decide (100 < (rt.casefold d').toList.length)) = true := by
                  simpa using hlong
                rw [if_pos hboth]
                split
                next hpart => exact Or.inl ⟨le_rfl, Or.inr ⟨hlong.1, hlong.2, hpart⟩⟩
                next hpart => exact Or.inr ⟨rfl, fun h => h.elim hsame fun h => hpart h.2.2⟩
              · have hshort : ¬(decide (100 < (rt.casefold d).toList.length) &&
                    decide (100 < (rt.casefold d').toList.length)) = true := by
                  simpa using hlong
                rw [if_neg hshort]
                exact Or.inr ⟨rfl, fun h => h.elim hsame fun h => hlong ⟨h.1, h.2.1⟩⟩

/-- Both normalized titles agree or the title adds nothing. -/
theorem titleSignal_bonus (candidate : CanonicalJob) (incoming : NormalizedJob) :
    (titleSignal candidate incoming = (4, ["exact_normalized_title"]) ∧
        candidate.normalizedTitle = incoming.normalizedTitle) ∨
      (titleSignal candidate incoming = (0, []) ∧
        candidate.normalizedTitle ≠ incoming.normalizedTitle) := by
  unfold titleSignal
  split
  next h => exact Or.inl ⟨rfl, h⟩
  next h => exact Or.inr ⟨rfl, h⟩

/-- Only the title gives the evidence of a title. -/
theorem exact_title_not_mem (rt : Runtime) {location employment : Signal}
    (hlocation : locationSignal candidate incoming = some location)
    (hemployment : employmentSignal candidate incoming = some employment) :
    "exact_normalized_title" ∉ location.2 ++ employment.2 ++
      (descriptionSignal rt candidate incoming).2 ++ (postedSignal candidate incoming).2 := by
  have hl : "exact_normalized_title" ∉ location.2 := by
    unfold locationSignal at hlocation
    split at hlocation
    · split at hlocation
      · cases hlocation
        decide
      · contradiction
    · split at hlocation <;> cases hlocation <;> decide
  have he : "exact_normalized_title" ∉ employment.2 := by
    unfold employmentSignal at hemployment
    split at hemployment
    · split at hemployment
      · cases hemployment
        decide
      · contradiction
    · cases hemployment
      decide
  have hd : "exact_normalized_title" ∉ (descriptionSignal rt candidate incoming).2 := by
    unfold descriptionSignal
    dsimp only
    split_ifs <;> decide
  have hp : "exact_normalized_title" ∉ (postedSignal candidate incoming).2 := by
    unfold postedSignal
    split
    · split <;> decide
    · decide
  simp only [List.mem_append, not_or]
  exact ⟨⟨⟨hl, he⟩, hd⟩, hp⟩

/-- The sum over compatible signals reaches the threshold. -/
theorem confidence_iff (rt : Runtime) {location employment : Signal}
    (hlocation : locationSignal candidate incoming = some location)
    (hemployment : employmentSignal candidate incoming = some employment) :
    (7 ≤ ((compatibleSignals rt candidate incoming location employment).map (·.1)).sum ∧
        "exact_normalized_title" ∈
          (compatibleSignals rt candidate incoming location employment).flatMap (·.2)) ↔
      candidate.normalizedTitle = incoming.normalizedTitle ∧
        (AlikeDescriptions rt candidate incoming ∨
          SameText candidate.normalizedLocation incoming.normalizedLocation ∧
            (SameText candidate.employmentType incoming.employmentType ∨
              ClosePosted candidate incoming)) := by
  have hl := locationSignal_bonus hlocation
  have he := employmentSignal_bonus hemployment
  have hd := descriptionSignal_bonus rt candidate incoming
  have hp := postedSignal_bonus candidate incoming
  have hlmax : location.1 ≤ 2 := by
    rcases hl with ⟨h, -⟩ | ⟨h, -⟩ <;> omega
  have hemax : employment.1 ≤ 1 := by
    rcases he with ⟨h, -⟩ | ⟨h, -⟩ <;> omega
  have hpmax : (postedSignal candidate incoming).1 ≤ 1 := by
    rcases hp with ⟨h, -⟩ | ⟨h, -⟩ <;> omega
  rcases titleSignal_bonus candidate incoming with ⟨htitle, hsame⟩ | ⟨htitle, hsame⟩
  · simp only [compatibleSignals, htitle, List.map_cons, List.map_nil, List.sum_cons,
      List.sum_nil, List.flatMap_cons, List.mem_append, List.mem_singleton, hsame, true_or,
      and_true, true_and]
    constructor
    · intro hsum
      by_contra hnot
      rw [not_or, not_and_or, not_or] at hnot
      have hzero := (hd.resolve_left fun h => hnot.1 h.2).1
      rcases hnot.2 with hplace | hfurther
      · have hnone := (hl.resolve_left fun h => hplace h.2).1
        omega
      · have hnone := (he.resolve_left fun h => hfurther.1 h.2).1
        have hlate := (hp.resolve_left fun h => hfurther.2 h.2).1
        omega
    · rintro (halike | ⟨hplace, hfurther⟩)
      · have hthree := (hd.resolve_right fun h => h.2 halike).1
        omega
      · have htwo := (hl.resolve_right fun h => h.2 hplace).1
        rcases hfurther with hemp | hclose
        · have hone := (he.resolve_right fun h => h.2 hemp).1
          omega
        · have hone := (hp.resolve_right fun h => h.2 hclose).1
          omega
  · constructor
    · rintro ⟨-, hevidence⟩
      have hnone := exact_title_not_mem rt hlocation hemployment
      simp only [compatibleSignals, htitle, List.flatMap_cons, List.flatMap_nil, List.nil_append,
        List.append_nil] at hevidence
      simp only [List.append_assoc] at hnone
      exact absurd hevidence hnone
    · intro h
      exact absurd h.1 hsame

/-- What it takes to merge with a candidate. -/
theorem shouldMerge_iff (rt : Runtime) (candidate : CanonicalJob) (incoming : NormalizedJob) :
    (evaluateCrossSourceCandidate rt candidate incoming).shouldMerge = true ↔
      Mergeable rt candidate incoming := by
  unfold evaluateCrossSourceCandidate
  dsimp only
  split
  next hinactive =>
    refine iff_of_false Bool.false_ne_true fun h => ?_
    rw [h.active] at hinactive
    contradiction
  next hactive =>
    rw [Bool.not_eq_true, Bool.not_eq_false'] at hactive
    split
    next hcompany =>
      rw [Bool.and_eq_true, Bool.not_eq_true'] at hcompany
      refine iff_of_false Bool.false_ne_true fun h => ?_
      rw [h.company hcompany.1] at hcompany
      exact absurd hcompany.2 (by decide)
    next hcompany =>
      have hnamed : candidate.companyId.isSome → truthy incoming.normalizedCompany = true := by
        intro hsome
        simpa [hsome] using hcompany
      cases hlocation : locationSignal candidate incoming with
      | none =>
          exact iff_of_false Bool.false_ne_true fun h =>
            h.location (locationSignal_eq_none.mp hlocation)
      | some location =>
          have hplace : ¬Conflict candidate.normalizedLocation incoming.normalizedLocation := by
            intro hconflict
            rw [locationSignal_eq_none.mpr hconflict] at hlocation
            contradiction
          cases hemployment : employmentSignal candidate incoming with
          | none =>
              exact iff_of_false Bool.false_ne_true fun h =>
                h.employment (employmentSignal_eq_none.mp hemployment)
          | some employment =>
              have hcompatible : ¬Conflict candidate.employmentType incoming.employmentType := by
                intro hconflict
                rw [employmentSignal_eq_none.mpr hconflict] at hemployment
                contradiction
              have hiff := confidence_iff rt hlocation hemployment
              dsimp only
              split
              next hreached =>
                rw [Bool.and_eq_true, decide_eq_true_eq, decide_eq_true_eq] at hreached
                obtain ⟨htitle, hevidence⟩ := hiff.mp hreached
                exact iff_of_true rfl ⟨hactive, hnamed, htitle, hplace, hcompatible, hevidence⟩
              next hmissed =>
                rw [Bool.and_eq_true, decide_eq_true_eq, decide_eq_true_eq] at hmissed
                exact iff_of_false Bool.false_ne_true fun h =>
                  hmissed (hiff.mpr ⟨h.title, h.evidence⟩)

/-! ## Different descriptions -/

/-- Both descriptions are present, and neither folded text is part of the other. -/
def DifferentDescriptions (rt : Runtime) (candidate : CanonicalJob) (incoming : NormalizedJob) :
    Prop :=
  ∃ d ∈ candidate.description, ∃ d' ∈ incoming.description, d ≠ "" ∧ d' ≠ "" ∧
    ¬(rt.casefold d).toList <:+: (rt.casefold d').toList ∧
    ¬(rt.casefold d').toList <:+: (rt.casefold d).toList

theorem DifferentDescriptions.not_alike (h : DifferentDescriptions rt candidate incoming) :
    ¬AlikeDescriptions rt candidate incoming := by
  obtain ⟨d, hd, d', hd', -, -, hinfix, hinfix'⟩ := h
  rintro ⟨e, he, e', he', -, -, halike⟩
  cases hd.symm.trans he
  cases hd'.symm.trans he'
  rcases halike with heq | ⟨-, -, hpart | hpart⟩
  · exact hinfix (heq ▸ List.infix_rfl)
  · exact hinfix hpart
  · exact hinfix' hpart

/-- The employer, the title, the place, the kind of employment and the date speak for one opening
strongly enough, whatever the descriptions say. -/
structure OtherwiseAlike (candidate : CanonicalJob) (incoming : NormalizedJob) : Prop where
  company : candidate.companyId.isSome → truthy incoming.normalizedCompany = true
  title : candidate.normalizedTitle = incoming.normalizedTitle
  location : SameText candidate.normalizedLocation incoming.normalizedLocation
  employment : ¬Conflict candidate.employmentType incoming.employmentType
  further : SameText candidate.employmentType incoming.employmentType ∨
    ClosePosted candidate incoming

/-- What it takes to merge with a candidate whose description is another one. -/
theorem shouldMerge_iff_of_different (hactive : candidate.isActive = true)
    (hdifferent : DifferentDescriptions rt candidate incoming) :
    (evaluateCrossSourceCandidate rt candidate incoming).shouldMerge = true ↔
      OtherwiseAlike candidate incoming := by
  rw [shouldMerge_iff]
  constructor
  · intro h
    obtain ⟨hplace, hfurther⟩ := h.evidence.resolve_left hdifferent.not_alike
    exact ⟨h.company, h.title, hplace, h.employment, hfurther⟩
  · intro h
    have hplace : ¬Conflict candidate.normalizedLocation incoming.normalizedLocation :=
      fun hconflict => hconflict.2.2 h.location.2
    exact ⟨hactive, h.company, h.title, hplace, h.employment, Or.inr ⟨h.location, h.further⟩⟩

/-- Different descriptions prevent a merge exactly when the two are not alike otherwise. -/
theorem description_veto_iff (rt : Runtime) (candidate : CanonicalJob) (incoming : NormalizedJob)
    (hactive : candidate.isActive = true)
    (hdifferent : DifferentDescriptions rt candidate incoming) :
    (evaluateCrossSourceCandidate rt candidate incoming).shouldMerge = false ↔
      ¬OtherwiseAlike candidate incoming := by
  rw [← shouldMerge_iff_of_different hactive hdifferent, Bool.not_eq_true]

/-- The listing of an opening with the given description and kind of employment. -/
def describedListing (description : String) (employmentType : Option String) : NormalizedJob :=
  { austinListing with description := some description, employmentType := employmentType }

/-- The canonical job of such a listing. -/
def describedJob (description : String) (employmentType : Option String) : CanonicalJob :=
  createdJob sampleRuntime 2 (describedListing description employmentType)
    (some ⟨1, "Acme", "acme"⟩) 1788220800000000

/-- Two openings of which nothing is known but the employer, the title, the place and a date long
ago. -/
theorem description_veto_iff_undated :
    (evaluateCrossSourceCandidate sampleRuntime (describedJob "build payment services" none)
        { describedListing "design mobile screens" none with postedAt := none }).shouldMerge =
      false := by
  apply (description_veto_iff sampleRuntime _ _ rfl
    ⟨_, rfl, _, rfl, by decide, by decide, by decide, by decide⟩).mpr
  intro halike
  rcases halike.further with hemployment | ⟨_, _, _, hposted, _⟩
  · exact absurd hemployment.1 (by decide)
  · contradiction

/-- Two openings with different descriptions that agree in everything else are merged. -/
theorem different_descriptions_merge :
    (describedJob "build payment services" (some "FULL_TIME")).isActive = true ∧
      DifferentDescriptions sampleRuntime
        (describedJob "build payment services" (some "FULL_TIME"))
        (describedListing "design mobile screens" (some "FULL_TIME")) ∧
      (evaluateCrossSourceCandidate sampleRuntime
        (describedJob "build payment services" (some "FULL_TIME"))
        (describedListing "design mobile screens" (some "FULL_TIME"))).shouldMerge = true :=
  ⟨rfl, ⟨_, rfl, _, rfl, by decide, by decide, by decide, by decide⟩, by decide⟩

end Catalogue
end HireAndTech
