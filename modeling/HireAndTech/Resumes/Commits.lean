import HireAndTech.Resumes.Calls

/-!
# What a commit does to the rows of a key

Facts about every unit of work that a call commits, for the invariants of whole
runs.

Main results:

- Theorem {lit}`Commits.deletes`: why a cleanup row may be deleted.
- Theorems {lit}`Commits.inserts_resume` and {lit}`Commits.inserts_cleanup`: which
  resumes and cleanup rows may be inserted.
- Theorem {lit}`Commits.keeps_resume`: which resumes stay as they are.
-/

namespace HireAndTech
namespace Resumes

open Interleaving

section

variable {env : Env} {i : CallId} {r : Request} {w w' : World} {u : UnitOfWork}
variable {β : Type} {cmd : Cmd β} {b : β} {ch : Choice}

/-- The entry of a command is new, or was there before. -/
theorem mem_log_cases (h : exec env i cmd ch w = some (b, w')) {j : CallId} {e : Event}
    (hmem : (j, e) ∈ w'.log) : (j, e) ∈ w.log ∨ (j = i ∧ e ∈ cmd.events b) := by
  rw [exec_log h, List.mem_append] at hmem
  refine hmem.imp_right fun hnew => ?_
  obtain ⟨e', he', heq⟩ := List.mem_map.mp hnew
  cases heq
  exact ⟨rfl, he'⟩

/-- A cleanup row is deleted only when its object is known to be gone, or together
with the commit of the resume that it was reserved for. -/
theorem Commits.deletes (hw : Coherent w) (h : Commits env i w r u) {c : ResumeStorageCleanup}
    (hc : c ∈ w.db.cleanups) (hdel : c.id ∈ u.deleteCleanups) :
    (.uploaded c.storageObjectKey false ∈ w.events i ∨
      .removed c.storageObjectKey true ∈ w.events i) ∨
    ∃ x, u.insertResume = some x ∧ x.storageObjectKey = c.storageObjectKey ∧
      x.status ≠ .deleted := by
  cases h with
  | clear hr hnames hmade hgone =>
      obtain ⟨hkey, _⟩ := hnames.row c hc (by simpa using hdel)
      exact Or.inl (hkey ▸ hgone)
  | persist hstored hshape =>
      obtain ⟨hkey, _⟩ := hstored.names.row c hc (by simpa using hdel)
      refine Or.inr ⟨_, rfl, hkey.symm, ?_⟩
      rcases hshape with ⟨hstatus, _⟩ | ⟨hstatus, _⟩ <;> simp [newResume, hstatus]
  | replace hstored hloaded hactive howner =>
      obtain ⟨hkey, _⟩ := hstored.names.row c hc (by simpa using hdel)
      exact Or.inr ⟨_, rfl, hkey.symm, by simp [newResume]⟩
  | reconcile hremoved hfailed =>
      obtain ⟨d, hd, hid⟩ := List.mem_map.mp hdel
      obtain ⟨⟨hdmem, _⟩, hgone⟩ := hremoved d hd
      rw [hw.constraints.cleanup_eq hc hdmem hid.symm]
      exact Or.inl (Or.inr hgone)
  | reserve hr hphase => simp at hdel
  | delete hloaded hactive howner => simp at hdel
  | deleteAgain hretired => simp at hdel

/-- A retirement records the retired object key. -/
theorem Commits.retires (h : Commits env i w r u) {current : Resume} {t : Time}
    (hu : u.retire = some (current, t)) : Loaded w current ∧ current.status ≠ .deleted ∧
      ∃ d, u.insertCleanup = some d ∧ d.storageObjectKey = current.storageObjectKey := by
  cases h with
  | replace hstored hloaded hactive howner =>
      cases hu
      exact ⟨hloaded, hactive, _, rfl, rfl⟩
  | delete hloaded hactive howner =>
      cases hu
      exact ⟨hloaded, hactive, _, rfl, rfl⟩
  | _ => contradiction

/-- A resume row whose key is not recorded for cleanup by a commit stays as it is. -/
theorem Commits.keeps_resume (hw : Coherent w) (h : Commits env i w r u) (now : Time)
    (rowId : UUID) {x : Resume} (hx : x ∈ w.db.resumes) :
    x ∈ (w.db.write u now rowId).resumes ∨
      ∃ d, u.insertCleanup = some d ∧ d.storageObjectKey = x.storageObjectKey := by
  cases hu : u.retire with
  | none => exact Or.inl (mem_write_resumes.mpr (Or.inl ⟨x, hx, Or.inr ⟨hu, rfl⟩⟩))
  | some ct =>
      obtain ⟨current, t⟩ := ct
      cases hm : matchesVersion current x with
      | false =>
          exact Or.inl (mem_write_resumes.mpr (Or.inl ⟨x, hx,
            Or.inl ⟨current, t, hu, (retireRow_of_not_matches hm).symm⟩⟩))
      | true =>
          obtain ⟨⟨y, hy, hid, _, hkey, _⟩, _, d, hd, hdkey⟩ := h.retires hu
          have hxy : x = y :=
            hw.constraints.resume_eq hx hy ((matchesVersion_iff.mp hm).1.trans hid.symm)
          exact Or.inr ⟨d, hd, by rw [hdkey, hxy, hkey]⟩

/-- An inserted resume has been stored by the call, and its reservation is deleted with
the same commit. -/
theorem Commits.inserts_resume (h : Commits env i w r u) {x : Resume}
    (hx : u.insertResume = some x) : ∃ owner id cid, Stored i w owner id cid ∧
      x.storageObjectKey = buildResumeObjectKey owner id ∧ cid ∈ u.deleteCleanups := by
  cases h with
  | persist hstored hshape =>
      cases hx
      exact ⟨_, _, _, hstored, rfl, by simp⟩
  | replace hstored hloaded hactive howner =>
      cases hx
      exact ⟨_, _, _, hstored, rfl, by simp⟩
  | _ => contradiction

/-- An inserted cleanup row reserves a key that the call has drawn, or belongs to a
resume that is deleted after the commit. -/
theorem Commits.inserts_cleanup (hw : Coherent w) (hf : Frame i w w')
    (h : Commits env i w r u) {f : Flushed}
    (hflush : w.db.flush u f.now f.rowId = .ok w'.db) {d : CleanupDraft}
    (hd : u.insertCleanup = some d) :
    w.phases d.storageObjectKey = .reserved i ∨
      ∃ owner, Retired w' owner d.storageObjectKey := by
  cases h with
  | reserve hr hphase =>
      cases hd
      exact Or.inl hphase
  | replace hstored hloaded hactive howner =>
      cases hd
      exact Or.inr ⟨_, retired_of_flush rfl hw hloaded hflush⟩
  | delete hloaded hactive howner =>
      cases hd
      exact Or.inr ⟨_, retired_of_flush rfl hw hloaded hflush⟩
  | deleteAgain hretired =>
      cases hd
      exact Or.inr ⟨_, hretired.frame hf⟩
  | _ => contradiction

end

end Resumes
end HireAndTech
