import HireAndTech.Resumes.Tables

/-!
# Table constraints and committed writes

The constraints that the resume tables satisfy in every committed state, and the
rows that a committed unit of work keeps, changes, adds and removes.

Main results:

- Theorem {lit}`Constraints.flush`: a successful flush keeps the constraints.
- Theorems {lit}`mem_write_resumes`, {lit}`mem_write_profiles` and
  {lit}`mem_write_cleanups`: the rows after a unit of work.
-/

namespace HireAndTech
namespace Resumes

/-! ## Rows after a unit of work -/

section

variable {current row : Resume} {t : Time} {ids : List UUID} {c : ResumeStorageCleanup}

@[simp]
theorem retireRow_id : (retireRow current t row).id = row.id := by
  unfold retireRow
  split <;> rfl

@[simp]
theorem retireRow_ownerProfileId :
    (retireRow current t row).ownerProfileId = row.ownerProfileId := by
  unfold retireRow
  split <;> rfl

@[simp]
theorem retireRow_storageObjectKey :
    (retireRow current t row).storageObjectKey = row.storageObjectKey := by
  unfold retireRow
  split <;> rfl

theorem retireRow_of_matches (h : matchesVersion current row = true) :
    (retireRow current t row).status = .deleted ∧
      (retireRow current t row).version = row.version + 1 := by
  simp [retireRow, h]

theorem retireRow_of_not_matches (h : matchesVersion current row = false) :
    retireRow current t row = row := by
  simp [retireRow, h]

theorem matchesVersion_iff :
    matchesVersion current row = true ↔ row.id = current.id ∧ row.version = current.version := by
  simp [matchesVersion]

@[simp]
theorem failRow_id : (failRow ids c).id = c.id := by
  unfold failRow
  split <;> rfl

@[simp]
theorem failRow_storageObjectKey : (failRow ids c).storageObjectKey = c.storageObjectKey := by
  unfold failRow
  split <;> rfl

@[simp]
theorem failRow_ownerProfileId : (failRow ids c).ownerProfileId = c.ownerProfileId := by
  unfold failRow
  split <;> rfl

theorem failRow_of_not_mem (h : c.id ∉ ids) : failRow ids c = c := by
  simp [failRow, h]

end

variable {db db' : Database} {u : UnitOfWork} {now : Time} {rowId : UUID}

/-- A resume after a unit of work is an old one, retired when the unit of work
retires it, or the inserted one. -/
theorem mem_write_resumes {r' : Resume} :
    r' ∈ (db.write u now rowId).resumes ↔
      (∃ r ∈ db.resumes, (∃ current t, u.retire = some (current, t) ∧ r' = retireRow current t r) ∨
        (u.retire = none ∧ r' = r)) ∨
      ∃ r, u.insertResume = some r ∧ r' = { r with version := 1, createdAt := now } := by
  simp only [Database.write, List.mem_append, Option.mem_toList, Option.map_eq_some_iff]
  refine or_congr ?_ (by simp only [eq_comm])
  cases hu : u.retire with
  | none => simp
  | some ct =>
      obtain ⟨current, t⟩ := ct
      simp [eq_comm]

theorem mem_write_profiles {p' : CandidateProfile} :
    p' ∈ (db.write u now rowId).profiles ↔
      p' ∈ db.profiles ∨ ∃ p, u.insertProfile = some p ∧ p' = { p with updatedAt := now } := by
  simp only [Database.write, List.mem_append, Option.mem_toList, Option.map_eq_some_iff]
  exact or_congr Iff.rfl (by simp only [eq_comm])

theorem mem_write_cleanups {c' : ResumeStorageCleanup} :
    c' ∈ (db.write u now rowId).cleanups ↔
      (∃ c ∈ db.cleanups, c.id ∉ u.deleteCleanups ∧ c' = failRow u.failCleanups c) ∨
      ∃ d, u.insertCleanup = some d ∧ c' = { d with id := rowId } := by
  simp only [Database.write, List.mem_append, Option.mem_toList, Option.map_eq_some_iff,
    List.mem_map, List.mem_filter, decide_eq_true_eq, and_assoc]
  exact or_congr (by simp only [eq_comm]) (by simp only [eq_comm])

/-- A unit of work that does not mention a cleanup row keeps it as it is. -/
theorem mem_write_cleanups_of_untouched {c : ResumeStorageCleanup} (hc : c ∈ db.cleanups)
    (hd : c.id ∉ u.deleteCleanups) (hf : c.id ∉ u.failCleanups) :
    c ∈ (db.write u now rowId).cleanups :=
  mem_write_cleanups.mpr (Or.inl ⟨c, hc, hd, (failRow_of_not_mem hf).symm⟩)

/-! ## Constraints -/

/-- The primary keys, unique columns and the foreign key of the resume tables. -/
structure Database.Constraints (db : Database) : Prop where
  resume_ids : (db.resumes.map (·.id)).Nodup
  resume_keys : (db.resumes.map (·.storageObjectKey)).Nodup
  profile_resumes : (db.profiles.map (·.resumeId)).Nodup
  profile_owned : ∀ p ∈ db.profiles, ∃ r ∈ db.resumes,
    r.id = p.resumeId ∧ r.ownerProfileId = p.ownerProfileId
  cleanup_ids : (db.cleanups.map (·.id)).Nodup
  cleanup_keys : (db.cleanups.map (·.storageObjectKey)).Nodup

namespace Database.Constraints

/-- A resume id names one row. -/
theorem resume_eq (h : db.Constraints) {r s : Resume} (hr : r ∈ db.resumes)
    (hs : s ∈ db.resumes) (heq : r.id = s.id) : r = s :=
  List.inj_on_of_nodup_map h.resume_ids hr hs heq

/-- An object key names one resume row. -/
theorem resume_eq_of_key (h : db.Constraints) {r s : Resume} (hr : r ∈ db.resumes)
    (hs : s ∈ db.resumes) (heq : r.storageObjectKey = s.storageObjectKey) : r = s :=
  List.inj_on_of_nodup_map h.resume_keys hr hs heq

/-- A resume has one candidate profile. -/
theorem profile_eq (h : db.Constraints) {p q : CandidateProfile} (hp : p ∈ db.profiles)
    (hq : q ∈ db.profiles) (heq : p.resumeId = q.resumeId) : p = q :=
  List.inj_on_of_nodup_map h.profile_resumes hp hq heq

/-- A cleanup id names one row. -/
theorem cleanup_eq (h : db.Constraints) {c d : ResumeStorageCleanup} (hc : c ∈ db.cleanups)
    (hd : d ∈ db.cleanups) (heq : c.id = d.id) : c = d :=
  List.inj_on_of_nodup_map h.cleanup_ids hc hd heq

/-- An object key names one cleanup row. -/
theorem cleanup_eq_of_key (h : db.Constraints) {c d : ResumeStorageCleanup}
    (hc : c ∈ db.cleanups) (hd : d ∈ db.cleanups)
    (heq : c.storageObjectKey = d.storageObjectKey) : c = d :=
  List.inj_on_of_nodup_map h.cleanup_keys hc hd heq

end Database.Constraints

/-- A list without repetitions stays one when a new value is appended. -/
theorem nodup_append_option {α β : Type} {l : List α} (h : l.Nodup) (o : Option β) (f : β → α)
    (hnew : ∀ b, o = some b → f b ∉ l) : (l ++ (o.map f).toList).Nodup := by
  cases o with
  | none => simpa using h
  | some b =>
      rw [List.nodup_append]
      refine ⟨h, by simp, ?_⟩
      intro a ha b' hb' heq
      simp only [Option.map_some, Option.toList_some, List.mem_singleton] at hb'
      exact hnew b rfl (hb' ▸ heq ▸ ha)

/-- Retirement changes neither ids nor object keys. -/
theorem write_resumes_map {α : Type} (f : Resume → α)
    (hf : ∀ current t r, f (retireRow current t r) = f r)
    (hnew : ∀ r : Resume, f { r with version := 1, createdAt := now } = f r) :
    (db.write u now rowId).resumes.map f =
      db.resumes.map f ++ (u.insertResume.map f).toList := by
  simp only [Database.write, List.map_append]
  congr 1
  · cases u.retire with
    | none => rfl
    | some ct => simp [hf, Function.comp_def]
  · cases u.insertResume with
    | none => rfl
    | some r => simp [hnew]

/-- A recorded failure changes neither ids nor object keys. -/
theorem write_cleanups_map {α : Type} (f : ResumeStorageCleanup → α)
    (hf : ∀ ids c, f (failRow ids c) = f c) :
    (db.write u now rowId).cleanups.map f =
      (db.cleanups.filter fun c => c.id ∉ u.deleteCleanups).map f ++
        (u.insertCleanup.map fun d => f { d with id := rowId }).toList := by
  simp only [Database.write, List.map_append, List.map_map]
  congr 1
  · simp [hf, Function.comp_def]
  · cases u.insertCleanup <;> rfl

/-- A row keeps its place in the table, with its id, owner and object key. -/
theorem exists_write_resume {r : Resume} (hr : r ∈ db.resumes) :
    ∃ r' ∈ (db.write u now rowId).resumes, r'.id = r.id ∧
      r'.ownerProfileId = r.ownerProfileId ∧ r'.storageObjectKey = r.storageObjectKey ∧
      (r' = r ∨ (r'.status = .deleted ∧ r'.version = r.version + 1)) := by
  cases hu : u.retire with
  | none =>
      exact ⟨r, mem_write_resumes.mpr (Or.inl ⟨r, hr, Or.inr ⟨hu, rfl⟩⟩), rfl, rfl, rfl,
        Or.inl rfl⟩
  | some ct =>
      obtain ⟨current, t⟩ := ct
      refine ⟨retireRow current t r,
        mem_write_resumes.mpr (Or.inl ⟨r, hr, Or.inl ⟨current, t, hu, rfl⟩⟩), by simp, by simp,
        by simp, ?_⟩
      by_cases hm : matchesVersion current r = true
      · exact Or.inr (retireRow_of_matches hm)
      · exact Or.inl (retireRow_of_not_matches (by simpa using hm))

/-- A successful flush keeps the constraints, when the id that the database gives to
an inserted cleanup row is new. -/
theorem Database.Constraints.flush (h : db.Constraints)
    (hflush : db.flush u now rowId = .ok db') (hid : ∀ c ∈ db.cleanups, c.id ≠ rowId) :
    db'.Constraints := by
  obtain ⟨_, hunique, _, rfl⟩ := flush_eq_ok hflush
  simp only [Database.insertsUnique, Bool.and_eq_true] at hunique
  obtain ⟨⟨hresume, hprofile⟩, hcleanup⟩ := hunique
  refine ⟨?_, ?_, ?_, ?_, ?_, ?_⟩
  · rw [write_resumes_map (·.id) (by simp) (by simp)]
    refine nodup_append_option h.resume_ids _ _ fun r hr hmem => ?_
    obtain ⟨s, hs, hsid⟩ := List.mem_map.mp hmem
    simp only [hr, List.all_eq_true, Bool.and_eq_true, decide_eq_true_eq] at hresume
    exact (hresume s hs).1 hsid
  · rw [write_resumes_map (·.storageObjectKey) (by simp) (by simp)]
    refine nodup_append_option h.resume_keys _ _ fun r hr hmem => ?_
    obtain ⟨s, hs, hskey⟩ := List.mem_map.mp hmem
    simp only [hr, List.all_eq_true, Bool.and_eq_true, decide_eq_true_eq] at hresume
    exact (hresume s hs).2 hskey
  · have hmap : (db.write u now rowId).profiles.map (·.resumeId) =
        db.profiles.map (·.resumeId) ++ (u.insertProfile.map (·.resumeId)).toList := by
      cases hp : u.insertProfile <;> simp [Database.write, hp]
    rw [hmap]
    refine nodup_append_option h.profile_resumes _ _ fun p hp hmem => ?_
    obtain ⟨q, hq, hqid⟩ := List.mem_map.mp hmem
    simp only [hp, Bool.and_eq_true, List.all_eq_true, decide_eq_true_eq] at hprofile
    exact hprofile.1 q hq hqid
  · -- the foreign key: old rows keep their resume, the new row was checked
    intro p hp
    rcases mem_write_profiles.mp hp with hold | ⟨q, hq, rfl⟩
    · obtain ⟨r, hr, hrid, hro⟩ := h.profile_owned p hold
      obtain ⟨r', hr', hid', ho', _⟩ := exists_write_resume hr
      exact ⟨r', hr', hid'.trans hrid, ho'.trans hro⟩
    · simp only [hq, Bool.and_eq_true, List.any_eq_true, List.mem_append,
        decide_eq_true_eq] at hprofile
      obtain ⟨_, r, hr | hr, hrid, hro⟩ := hprofile
      · obtain ⟨r', hr', hid', ho', _⟩ := exists_write_resume hr
        exact ⟨r', hr', hid'.trans hrid, ho'.trans hro⟩
      · exact ⟨{ r with version := 1, createdAt := now },
          mem_write_resumes.mpr (Or.inr ⟨r, by simpa using hr, rfl⟩), hrid, hro⟩
  · rw [write_cleanups_map (·.id) (by simp)]
    refine nodup_append_option (h.cleanup_ids.sublist (List.filter_sublist.map _)) _ _
      fun d _ hmem => ?_
    obtain ⟨c, hc, hcid⟩ := List.mem_map.mp hmem
    exact hid c (List.mem_of_mem_filter hc) hcid
  · rw [write_cleanups_map (·.storageObjectKey) (by simp)]
    refine nodup_append_option (h.cleanup_keys.sublist (List.filter_sublist.map _)) _ _
      fun d hd hmem => ?_
    obtain ⟨c, hc, hckey⟩ := List.mem_map.mp hmem
    simp only [hd, List.all_eq_true, decide_eq_true_eq] at hcleanup
    exact hcleanup c (List.mem_of_mem_filter hc) hckey

end Resumes
end HireAndTech
