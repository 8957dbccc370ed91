import HireAndTech.Resumes.Commits

/-!
# Owner isolation

Every query of an owner's request names the owner, except the look-up of a cleanup
row by its object key, and an object key begins with its owner.  So a call changes no
rows of another owner, and what it returns depends on no rows of another owner.

Main results:

- Theorem {lit}`owner_isolation`: the rows of an owner are changed only by the owner's
  own calls, and two databases that agree on the rows of an owner give the same
  answers to every call of the owner.
-/

namespace HireAndTech
namespace Resumes

open Interleaving

/-! ## Rows of one owner -/

/-- The rows of one owner. -/
def Database.rowsOf (db : Database) (owner : UUID) : Database where
  resumes := db.resumes.filter (·.ownerProfileId = owner)
  profiles := db.profiles.filter (·.ownerProfileId = owner)
  cleanups := db.cleanups.filter (·.ownerProfileId = owner)

/-- Two databases hold the same rows of an owner. -/
structure SameRows (owner : UUID) (db₁ db₂ : Database) : Prop where
  resumes : ∀ x : Resume, x.ownerProfileId = owner → (x ∈ db₁.resumes ↔ x ∈ db₂.resumes)
  profiles : ∀ x : CandidateProfile, x.ownerProfileId = owner →
    (x ∈ db₁.profiles ↔ x ∈ db₂.profiles)
  cleanups : ∀ x : ResumeStorageCleanup, x.ownerProfileId = owner →
    (x ∈ db₁.cleanups ↔ x ∈ db₂.cleanups)

theorem SameRows.symm {owner : UUID} {db₁ db₂ : Database} (h : SameRows owner db₁ db₂) :
    SameRows owner db₂ db₁ :=
  ⟨fun x hx => (h.resumes x hx).symm, fun x hx => (h.profiles x hx).symm,
    fun x hx => (h.cleanups x hx).symm⟩

/-! ## What a call commits belongs to its owner -/

/-- A unit of work that touches only rows of {lit}`owner`. -/
structure OwnWork (w : World) (owner : UUID) (u : UnitOfWork) : Prop where
  retire : ∀ current t, u.retire = some (current, t) →
    current.ownerProfileId = owner ∧ Loaded w current
  insertResume : ∀ x, u.insertResume = some x → x.ownerProfileId = owner ∧
    ∀ row ∈ w.db.resumes, row.id ≠ x.id ∧ row.storageObjectKey ≠ x.storageObjectKey
  insertProfile : ∀ p, u.insertProfile = some p → p.ownerProfileId = owner ∧
    ∃ x, u.insertResume = some x ∧ x.id = p.resumeId
  insertCleanup : ∀ d, u.insertCleanup = some d → d.ownerProfileId = owner ∧
    ∃ id, d.storageObjectKey = buildResumeObjectKey owner id
  deleteCleanups : ∀ c ∈ w.db.cleanups, c.id ∈ u.deleteCleanups → c.ownerProfileId = owner
  failCleanups : u.failCleanups = []

section

variable {env : Env} {i : CallId} {r : Request} {owner : UUID} {w w' : World} {u : UnitOfWork}

/-- A new resume has an id and a key that no row has. -/
theorem Stored.is_new {id cid : UUID} (hw : Coherent w) (h : Stored i w owner id cid) :
    ∀ row ∈ w.db.resumes, row.id ≠ id ∧ row.storageObjectKey ≠ buildResumeObjectKey owner id := by
  intro row hrow
  have hsettled := hw.resume_settled row hrow
  have hkey : row.storageObjectKey ≠ buildResumeObjectKey owner id := by
    intro heq
    rw [heq, h.phase] at hsettled
    contradiction
  refine ⟨?_, hkey⟩
  -- an id is drawn for one owner only
  rintro rfl
  have hrowkey := hw.resume_key row hrow
  have howner : row.ownerProfileId = owner := hw.drawn.owner _ _ row.id
    (by rw [← hrowkey, hsettled]; simp) (by rw [h.phase]; simp)
  exact hkey (howner ▸ hrowkey)

/-- The units of work of a call are those of its owner. -/
theorem Commits.ownWork (hw : Coherent w) (hr : r.owner = some owner)
    (h : Commits env i w r u) : OwnWork w owner u := by
  have hform : ∀ {current : Resume}, Loaded w current → current.ownerProfileId = owner →
      ∃ id, current.storageObjectKey = buildResumeObjectKey owner id := by
    rintro current ⟨x, hx, _, howner', hkey', _⟩ rfl
    exact ⟨x.id, by rw [← hkey', hw.resume_key x hx, howner']⟩
  cases h with
  | reserve hr' hphase =>
      cases hr.symm.trans hr'
      refine ⟨by simp, by simp, by simp, ?_, by simp, rfl⟩
      rintro d ⟨⟩
      exact ⟨rfl, _, rfl⟩
  | clear hr' hnames hmade hgone =>
      cases hr.symm.trans hr'
      refine ⟨by simp, by simp, by simp, by simp, fun c hc hdel => ?_, rfl⟩
      exact (hnames.row c hc (by simpa using hdel)).2
  | persist hstored hshape =>
      cases hr
      refine ⟨by simp, ?_, ?_, by simp, fun c hc hdel => ?_, rfl⟩
      · rintro x ⟨⟩
        exact ⟨rfl, hstored.is_new hw⟩
      · intro p hp
        rcases hshape with ⟨_, parsed, rfl⟩ | ⟨_, rfl⟩
        · cases hp
          exact ⟨rfl, _, rfl, rfl⟩
        · contradiction
      · exact (hstored.names.row c hc (by simpa using hdel)).2
  | replace hstored hloaded hactive howner =>
      cases hr
      refine ⟨?_, ?_, ?_, ?_, fun c hc hdel => ?_, rfl⟩
      · rintro current t ⟨⟩
        exact ⟨howner, hloaded⟩
      · rintro x ⟨⟩
        exact ⟨rfl, hstored.is_new hw⟩
      · rintro p ⟨⟩
        exact ⟨rfl, _, rfl, rfl⟩
      · rintro d ⟨⟩
        exact ⟨rfl, hform hloaded howner⟩
      · exact (hstored.names.row c hc (by simpa using hdel)).2
  | delete hloaded hactive howner =>
      cases hr
      refine ⟨?_, by simp, by simp, ?_, by simp, rfl⟩
      · rintro current t ⟨⟩
        exact ⟨howner, hloaded⟩
      · rintro d ⟨⟩
        exact ⟨rfl, hform hloaded howner⟩
  | deleteAgain hretired =>
      cases hr
      refine ⟨by simp, by simp, by simp, ?_, by simp, rfl⟩
      rintro d ⟨⟩
      obtain ⟨x, hx, howner, rfl, _⟩ := hretired
      exact ⟨rfl, x.id, howner ▸ hw.resume_key x hx⟩
  | reconcile hremoved hfailed => simp [Request.owner] at hr

/-- A row that the unit of work retires belongs to the owner. -/
theorem OwnWork.matches_owner (hw : Coherent w) (h : OwnWork w owner u) {current x : Resume}
    {t : Time} (hu : u.retire = some (current, t)) (hx : x ∈ w.db.resumes)
    (hm : matchesVersion current x = true) : x.ownerProfileId = owner := by
  obtain ⟨howner, y, hy, hid, hyowner, _⟩ := h.retire current t hu
  rw [hw.constraints.resume_eq hx hy ((matchesVersion_iff.mp hm).1.trans hid.symm), hyowner,
    howner]

end

/-! ## Rows of other owners stay as they are -/

theorem filter_map_of_fixed {α : Type} {f : α → α} {p : α → Bool} {l : List α}
    (hp : ∀ x ∈ l, p (f x) = p x) (hf : ∀ x ∈ l, p x = true → f x = x) :
    (l.map f).filter p = l.filter p := by
  induction l with
  | nil => rfl
  | cons x l ih =>
      have ih := ih (fun y hy => hp y (by simp [hy])) fun y hy => hf y (by simp [hy])
      rw [List.map_cons, List.filter_cons, List.filter_cons, ih, hp x (by simp)]
      split
      · rw [hf x (by simp) ‹_›]
      · rfl

/-- The unit of work of one owner leaves the rows of every other owner as they are. -/
theorem OwnWork.rowsOf {w : World} {owner other : UUID} {u : UnitOfWork} {now : Time}
    {rowId : UUID} (hw : Coherent w) (h : OwnWork w owner u) (hne : owner ≠ other) :
    (w.db.write u now rowId).rowsOf other = w.db.rowsOf other := by
  have hinsert : ∀ {α β : Type} (o : Option α) (f : α → β) (p : β → Bool),
      (∀ a, o = some a → p (f a) = false) → (o.map f).toList.filter p = [] := by
    intro α β o f p hp
    cases o with
    | none => rfl
    | some a => simp [hp a rfl]
  unfold Database.rowsOf
  congr 1
  · rw [Database.write, List.filter_append, hinsert _ _ _ fun x hx => by
      simpa using fun heq => hne ((h.insertResume x hx).1.symm.trans heq), List.append_nil]
    cases hu : u.retire with
    | none => rfl
    | some ct =>
        obtain ⟨current, t⟩ := ct
        refine filter_map_of_fixed (by simp) fun x hx howner => retireRow_of_not_matches ?_
        by_contra hm
        have := h.matches_owner hw hu hx (by simpa using hm)
        simp only [decide_eq_true_eq] at howner
        exact hne (this.symm.trans howner)
  · rw [Database.write, List.filter_append, hinsert _ _ _ fun p hp => by
      simpa using fun heq => hne ((h.insertProfile p hp).1.symm.trans heq), List.append_nil]
  · rw [Database.write, List.filter_append, hinsert _ _ _ fun d hd => by
      simpa using fun heq => hne ((h.insertCleanup d hd).1.symm.trans heq), List.append_nil,
      filter_map_of_fixed (by simp) fun c _ _ => failRow_of_not_mem (by simp [h.failCleanups]),
      List.filter_filter]
    refine List.filter_congr fun c hc => ?_
    by_cases hdel : c.id ∈ u.deleteCleanups
    · have howner := h.deleteCleanups c hc hdel
      simp [howner, hne]
    · simp [hdel]

/-- The requests that name their owner. -/
def ownerCalls : Regime World Cmd Choice Request where
  starts _ r := r.owner.isSome
  allows _ _ _ _ := true

/-- A step of a run changes the rows of an owner only if it is a step of a call of this
owner. -/
theorem rowsOf_step (env : Env) {w₀ : World} (h : Initial w₀)
    {c c' : Config World Cmd Request (Except ServiceError Reply)}
    (hc : (resumeMachine env).Reachable ownerCalls w₀ c) {l : Label Choice Request}
    (hl : (resumeMachine env).next l c = some c') (owner : UUID) :
    c'.world.db.rowsOf owner = c.world.db.rowsOf owner ∨
      ∃ i ch r p, l = .step i ch ∧ c.calls i = .running r p ∧ r.owner = some owner := by
  have hany : (resumeMachine env).Reachable .any w₀ c :=
    hc.mono (fun _ _ _ => rfl) fun _ _ _ _ _ _ _ => rfl
  rcases Machine.next_cases hl with ⟨i, r, rfl, hi, rfl⟩ |
    ⟨i, ch, r, β, cmd, k, b, w, rfl, hi, he, rfl⟩ | ⟨i, r, res, _, rfl⟩
  · exact Or.inl rfl
  · obtain ⟨own, hown⟩ := Option.isSome_iff_exists.mp (hc.starts hi)
    by_cases hsame : own = owner
    · exact Or.inr ⟨i, ch, r, _, rfl, hi, hsame ▸ hown⟩
    refine Or.inl ?_
    have hw := ((resumeSound env h).reachable hany).1
    have hissues := (resumeSound env h).issues hany hi
    cases cmd with
    | flushCommit u =>
        rcases exec_flushCommit he with ⟨_, _, hdb, _⟩ | ⟨f, _, _, _, _, hflush, _⟩
        · exact congrArg (·.rowsOf owner) hdb
        · obtain ⟨_, _, _, hdb⟩ := flush_eq_ok hflush
          rw [Config.put_world, hdb]
          exact (Commits.ownWork hw hown hissues).rowsOf hw hsame
    | uuid4 _ => exact congrArg (·.rowsOf owner) (exec_uuid4 he).2.1
    | storageUpload _ =>
        obtain ⟨_, _, hdb, _⟩ := exec_storageUpload he
        exact congrArg (·.rowsOf owner) hdb
    | storageDelete _ =>
        obtain ⟨_, _, hdb, _⟩ := exec_storageDelete he
        exact congrArg (·.rowsOf owner) hdb
    | _ => exact congrArg (·.rowsOf owner) (exec_quiet rfl he).1
  · exact Or.inl rfl

/-! ## Queries of an owner -/

/-- A search with at most one hit finds it in every list that has the same hits. -/
theorem find?_eq_of_hits {α : Type} {p : α → Bool} {l₁ l₂ : List α}
    (hhits : ∀ x, p x = true → (x ∈ l₁ ↔ x ∈ l₂))
    (hone : ∀ x ∈ l₁, ∀ y ∈ l₁, p x = true → p y = true → x = y) :
    l₁.find? p = l₂.find? p := by
  cases h₁ : l₁.find? p with
  | none =>
      refine (List.find?_eq_none.mpr fun x hx hp => ?_).symm
      exact List.find?_eq_none.mp h₁ x ((hhits x hp).mpr hx) hp
  | some x =>
      have hx := List.mem_of_find?_eq_some h₁
      have hpx := List.find?_some h₁
      cases h₂ : l₂.find? p with
      | none => exact absurd hpx (List.find?_eq_none.mp h₂ x ((hhits x hpx).mp hx))
      | some y =>
          have hpy := List.find?_some h₂
          have hy := (hhits y hpy).mpr (List.mem_of_find?_eq_some h₂)
          rw [hone x hx y hy hpx hpy]

instance : Std.Total newestFirst where
  total a b := by
    unfold newestFirst
    rcases Nat.lt_trichotomy a.createdAt b.createdAt with h | h | h
    · exact Or.inr (Or.inl h)
    · rcases le_total a.id b.id with hid | hid
      · exact Or.inr (Or.inr ⟨h.symm, hid⟩)
      · exact Or.inl (Or.inr ⟨h, hid⟩)
    · exact Or.inl (Or.inl h)

instance : IsTrans Resume newestFirst where
  trans a b c := by
    unfold newestFirst
    rintro (hab | ⟨hab, hid⟩) (hbc | ⟨hbc, hid'⟩)
    · exact Or.inl (hbc.trans hab)
    · exact Or.inl (hbc ▸ hab)
    · exact Or.inl (hab ▸ hbc)
    · exact Or.inr ⟨hab.trans hbc, hid'.trans hid⟩

section

variable {owner : UUID} {db₁ db₂ : Database}

theorem SameRows.getOwned (h : SameRows owner db₁ db₂) (h₁ : db₁.Constraints) (resumeId : UUID)
    (includeDeleted : Bool) :
    db₁.getOwned resumeId owner includeDeleted = db₂.getOwned resumeId owner includeDeleted := by
  refine find?_eq_of_hits (fun x hx => ?_) fun x hx y hy hpx hpy => ?_
  · simp only [Bool.and_eq_true, decide_eq_true_eq] at hx
    exact h.resumes x hx.1.2
  · simp only [Bool.and_eq_true, decide_eq_true_eq] at hpx hpy
    exact h₁.resume_eq hx hy (hpx.1.1.trans hpy.1.1.symm)

theorem SameRows.getOwnedByResumeId (h : SameRows owner db₁ db₂) (h₁ : db₁.Constraints)
    (resumeId : UUID) :
    db₁.getOwnedByResumeId resumeId owner = db₂.getOwnedByResumeId resumeId owner := by
  refine find?_eq_of_hits (fun x hx => ?_) fun x hx y hy hpx hpy => ?_
  · simp only [Bool.and_eq_true, decide_eq_true_eq] at hx
    exact h.profiles x hx.2
  · simp only [Bool.and_eq_true, decide_eq_true_eq] at hpx hpy
    exact h₁.profile_eq hx hy (hpx.1.trans hpy.1.symm)

theorem SameRows.activeOwned (h : SameRows owner db₁ db₂) (h₁ : db₁.Constraints)
    (h₂ : db₂.Constraints) : (db₁.activeOwned owner).Perm (db₂.activeOwned owner) := by
  refine (List.perm_ext_iff_of_nodup (h₁.resume_ids.of_map.filter _)
    (h₂.resume_ids.of_map.filter _)).mpr fun x => ?_
  simp only [List.mem_filter, Bool.and_eq_true, decide_eq_true_eq]
  exact and_congr_left fun hx => h.resumes x hx.1

theorem SameRows.countOwned (h : SameRows owner db₁ db₂) (h₁ : db₁.Constraints)
    (h₂ : db₂.Constraints) : db₁.countOwned owner = db₂.countOwned owner :=
  (h.activeOwned h₁ h₂).length_eq

/-- A page is determined by its rows, since creation times and ids order them. -/
theorem SameRows.listOwnedPage (h : SameRows owner db₁ db₂) (h₁ : db₁.Constraints)
    (h₂ : db₂.Constraints) (offset limit : Nat) :
    db₁.listOwnedPage owner offset limit = db₂.listOwnedPage owner offset limit := by
  unfold Database.listOwnedPage
  congr 2
  have hperm := h.activeOwned h₁ h₂
  refine List.Perm.eq_of_pairwise ?_ (List.pairwise_insertionSort newestFirst _)
    (List.pairwise_insertionSort newestFirst _)
    (((List.perm_insertionSort _ _).trans hperm).trans (List.perm_insertionSort _ _).symm)
  intro a b ha hb hab hba
  have ha' : a ∈ db₁.resumes := List.mem_of_mem_filter ((List.mem_insertionSort _).mp ha)
  have hb' : b ∈ db₁.resumes :=
    List.mem_of_mem_filter (hperm.mem_iff.mpr ((List.mem_insertionSort _).mp hb))
  refine h₁.resume_eq ha' hb' ?_
  rcases hab with hlt | ⟨heq, hid⟩
  · rcases hba with hlt' | ⟨heq', _⟩
    · exact absurd hlt (Nat.lt_asymm hlt')
    · exact absurd heq' (Nat.ne_of_lt hlt)
  · rcases hba with hlt' | ⟨_, hid'⟩
    · exact absurd heq (Nat.ne_of_lt hlt')
    · exact le_antisymm hid' hid

/-- The look-up by object key names no owner, but the key does. -/
theorem SameRows.getByObjectKey {w₁ w₂ : World} (h : SameRows owner w₁.db w₂.db)
    (h₁ : Coherent w₁) (h₂ : Coherent w₂) {id : UUID} :
    w₁.db.getByObjectKey (buildResumeObjectKey owner id) =
      w₂.db.getByObjectKey (buildResumeObjectKey owner id) := by
  have howner : ∀ {w : World}, Coherent w → ∀ c ∈ w.db.cleanups,
      c.storageObjectKey = buildResumeObjectKey owner id → c.ownerProfileId = owner := by
    intro w hw c hc hkey
    obtain ⟨id', hid'⟩ := hw.cleanup_key c hc
    exact (buildResumeObjectKey_injective (hid'.symm.trans hkey)).1
  refine find?_eq_of_hits (fun c hc => ?_) fun c hc d hd hpc hpd => ?_
  · simp only [decide_eq_true_eq] at hc
    constructor
    · exact fun hmem => (h.cleanups c (howner h₁ c hmem hc)).mp hmem
    · exact fun hmem => (h.cleanups c (howner h₂ c hmem hc)).mpr hmem
  · simp only [decide_eq_true_eq] at hpc hpd
    exact h₁.constraints.cleanup_eq_of_key hc hd (hpc.trans hpd.symm)

end

/-! ## Flushes of an owner -/

section

variable {owner : UUID} {w₁ w₂ : World} {u : UnitOfWork}

theorem SameRows.retirementFresh (h : SameRows owner w₁.db w₂.db) (h₁ : Coherent w₁)
    (hu₁ : OwnWork w₁ owner u) (hfresh : w₁.db.retirementFresh u = true) :
    w₂.db.retirementFresh u = true := by
  unfold Database.retirementFresh at hfresh ⊢
  cases hretire : u.retire with
  | none => rfl
  | some ct =>
      obtain ⟨current, t⟩ := ct
      rw [hretire] at hfresh
      obtain ⟨x, hx, hm⟩ := List.any_eq_true.mp hfresh
      exact List.any_eq_true.mpr
        ⟨x, (h.resumes x (hu₁.matches_owner h₁ hretire hx hm)).mp hx, hm⟩

theorem SameRows.insertsUnique (h : SameRows owner w₁.db w₂.db) (h₂ : Coherent w₂)
    (hu₂ : OwnWork w₂ owner u) (hunique : w₁.db.insertsUnique u = true) :
    w₂.db.insertsUnique u = true := by
  simp only [Database.insertsUnique, Bool.and_eq_true] at hunique ⊢
  refine ⟨⟨?_, ?_⟩, ?_⟩
  · cases hx : u.insertResume with
    | none => rfl
    | some x =>
        simp only [List.all_eq_true, Bool.and_eq_true, decide_eq_true_eq]
        exact (hu₂.insertResume x hx).2
  · cases hp : u.insertProfile with
    | none => rfl
    | some p =>
        obtain ⟨howner, x, hx, hid⟩ := hu₂.insertProfile p hp
        obtain ⟨hxowner, hnew⟩ := hu₂.insertResume x hx
        simp only [Bool.and_eq_true, List.all_eq_true, List.any_eq_true, decide_eq_true_eq]
        refine ⟨fun q hq heq => ?_, x, by simp [hx], hid, hxowner.trans howner.symm⟩
        obtain ⟨row, hrow, hrowid, _⟩ := h₂.constraints.profile_owned q hq
        exact (hnew row hrow).1 (hrowid.trans (heq.trans hid.symm))
  · cases hd : u.insertCleanup with
    | none => rfl
    | some d =>
        have hunique := hunique.2
        simp only [hd, List.all_eq_true, decide_eq_true_eq] at hunique ⊢
        intro c hc heq
        obtain ⟨_, id, hkey⟩ := hu₂.insertCleanup d hd
        obtain ⟨id', hid'⟩ := h₂.cleanup_key c hc
        have howner : c.ownerProfileId = owner :=
          (buildResumeObjectKey_injective (hid'.symm.trans (heq.trans hkey))).1
        exact hunique c ((h.cleanups c howner).mpr hc) heq

theorem SameRows.checksPass (h : SameRows owner w₁.db w₂.db) (h₂ : Coherent w₂)
    (hu₂ : OwnWork w₂ owner u) (hchecks : w₁.db.checksPass u = true) :
    w₂.db.checksPass u = true := by
  simp only [Database.checksPass, Bool.and_eq_true] at hchecks ⊢
  refine ⟨⟨?_, hchecks.1.2⟩, hchecks.2⟩
  cases hretire : u.retire with
  | none => rfl
  | some ct =>
      obtain ⟨current, t⟩ := ct
      have hrow := hchecks.1.1
      simp only [hretire, List.all_eq_true, List.mem_filter, and_imp] at hrow ⊢
      intro x hx hm
      exact hrow x ((h.resumes x (hu₂.matches_owner h₂ hretire hx hm)).mpr hx) hm

/-- A flush of an owner ends the same way in both databases. -/
theorem SameRows.flush (h : SameRows owner w₁.db w₂.db) (h₁ : Coherent w₁) (h₂ : Coherent w₂)
    (hu₁ : OwnWork w₁ owner u) (hu₂ : OwnWork w₂ owner u) (now : Time) (rowId : UUID) :
    (∃ e, w₁.db.flush u now rowId = .error e ∧ w₂.db.flush u now rowId = .error e) ∨
      (w₁.db.flush u now rowId = .ok (w₁.db.write u now rowId) ∧
        w₂.db.flush u now rowId = .ok (w₂.db.write u now rowId)) := by
  have hfresh : w₁.db.retirementFresh u = w₂.db.retirementFresh u :=
    Bool.eq_iff_iff.mpr ⟨h.retirementFresh h₁ hu₁, h.symm.retirementFresh h₂ hu₂⟩
  have hunique : w₁.db.insertsUnique u = w₂.db.insertsUnique u :=
    Bool.eq_iff_iff.mpr ⟨h.insertsUnique h₂ hu₂, h.symm.insertsUnique h₁ hu₁⟩
  have hchecks : w₁.db.checksPass u = w₂.db.checksPass u :=
    Bool.eq_iff_iff.mpr ⟨h.checksPass h₂ hu₂, h.symm.checksPass h₁ hu₁⟩
  unfold Database.flush
  rw [hfresh, hunique, hchecks, hu₁.failCleanups]
  simp only [List.all_nil, Bool.not_true, Bool.or_false]
  split
  · exact Or.inl ⟨_, rfl, rfl⟩
  · split
    · exact Or.inl ⟨_, rfl, rfl⟩
    · exact Or.inr ⟨rfl, rfl⟩

/-- A unit of work leaves the same rows of the owner in both databases. -/
theorem SameRows.write (h : SameRows owner w₁.db w₂.db) (now : Time) (rowId : UUID) :
    SameRows owner (w₁.db.write u now rowId) (w₂.db.write u now rowId) := by
  refine ⟨fun x hx => ?_, fun p hp => ?_, fun c hc => ?_⟩
  · rw [mem_write_resumes, mem_write_resumes]
    refine or_congr (exists_congr fun y => and_congr_left fun hy => h.resumes y ?_) Iff.rfl
    rcases hy with ⟨current, t, _, rfl⟩ | ⟨_, rfl⟩
    · simpa using hx
    · exact hx
  · rw [mem_write_profiles, mem_write_profiles]
    exact or_congr (h.profiles p hp) Iff.rfl
  · rw [mem_write_cleanups, mem_write_cleanups]
    refine or_congr (exists_congr fun d => and_congr_left fun hd => h.cleanups d ?_) Iff.rfl
    obtain ⟨_, rfl⟩ := hd
    simpa using hc

end

/-! ## Two runs of one call -/

/-- The part of the world that the answers to call {lit}`i` depend on, but for the rows. -/
def World.visible (w : World) (i : CallId) : Time × Session × (UUID → Option CallId) :=
  (w.now, w.sessions i, w.locks)

/-- The id that a choice of the environment hands out. -/
def Choice.freshId (ch : Choice) : Option UUID :=
  match ch.outcome with
  | .fresh id => some id
  | _ => none

/-- Two worlds that call {lit}`i` of {lit}`owner` cannot tell apart: they agree on the
owner's rows, on the clock and the session, and hold no locks.  The ids that are drawn,
{lit}`drawn`, are as new in the second as in the first. -/
structure Alike (drawn : List UUID) (i : CallId) (owner : UUID) (w₁ w₂ : World) : Prop where
  rows : SameRows owner w₁.db w₂.db
  visible : w₁.visible i = w₂.visible i
  unlocked : w₁.locks = fun _ => none
  issued : ∀ id ∈ drawn, id ∈ w₂.issued → id ∈ w₁.issued

section

variable {env : Env} {i : CallId} {r : Request} {owner : UUID} {w₁ w₂ w₁' : World}
variable {β : Type} {cmd : Cmd β} {b : β} {ch : Choice} {drawn : List UUID}

theorem Alike.now (h : Alike drawn i owner w₁ w₂) : w₂.now = w₁.now :=
  (congrArg (·.1) h.visible).symm

theorem Alike.session (h : Alike drawn i owner w₁ w₂) : w₂.sessions i = w₁.sessions i :=
  (congrArg (·.2.1) h.visible).symm

theorem Alike.locks (h : Alike drawn i owner w₁ w₂) : w₂.locks = w₁.locks :=
  (congrArg (·.2.2) h.visible).symm

/-- Changes that leave the tables and the locks alone and look alike. -/
theorem Alike.of_visible {w₂' : World} (h : Alike drawn i owner w₁ w₂) (hdb₁ : w₁'.db = w₁.db)
    (hdb₂ : w₂'.db = w₂.db) (hvisible : w₁'.visible i = w₂'.visible i)
    (hlocks : w₁'.locks = w₁.locks)
    (hissued : ∀ id ∈ drawn, id ∈ w₂'.issued → id ∈ w₁'.issued) :
    Alike drawn i owner w₁' w₂' where
  rows := by rw [hdb₁, hdb₂]; exact h.rows
  visible := hvisible
  unlocked := hlocks.trans h.unlocked
  issued := hissued

theorem Alike.wait (h : Alike drawn i owner w₁ w₂) (t : Time) :
    Alike drawn i owner (w₁.wait t) (w₂.wait t) :=
  h.of_visible rfl rfl (by simp [World.visible, World.wait, h.now, h.session, h.locks]) rfl
    h.issued

theorem Alike.onSession (h : Alike drawn i owner w₁ w₂) (f : Session → Session) :
    Alike drawn i owner (w₁.onSession i f) (w₂.onSession i f) :=
  h.of_visible rfl rfl
    (by simp [World.visible, World.onSession, h.now, h.session, h.locks]) rfl h.issued

theorem Alike.record (h : Alike drawn i owner w₁ w₂) (e : Event) :
    Alike drawn i owner (w₁.record i e) (w₂.record i e) :=
  h.of_visible rfl rfl h.visible rfl h.issued

theorem Alike.unlock (h : Alike drawn i owner w₁ w₂) :
    Alike drawn i owner (w₁.unlock i) (w₂.unlock i) := by
  refine h.of_visible rfl rfl ?_ ?_ h.issued
  · simp [World.visible, World.unlock, h.now, h.session, h.locks]
  · simp [World.unlock, h.unlocked]

/-- An id handed out in both worlds is as new in one as in the other. -/
theorem issued_cons {id : UUID} (h : ∀ x ∈ drawn, x ∈ w₂.issued → x ∈ w₁.issued) :
    ∀ x ∈ drawn, x ∈ id :: w₂.issued → x ∈ id :: w₁.issued := by
  intro x hx hmem
  rcases List.mem_cons.mp hmem with rfl | hmem
  · exact List.mem_cons_self
  · exact List.mem_cons_of_mem _ (h x hx hmem)

/-- A statement that reads rows and answers both worlds alike. -/
theorem Alike.read {cmd : Cmd β} {t : Time} {f : β → Session → Session} {q : Database → β}
    (hcmd : ∀ w, exec env i cmd ⟨t, .quiet⟩ w =
      some (q w.db, (w.wait t).onSession i (f (q w.db))))
    (h : Alike drawn i owner w₁ w₂) (hq : q w₁.db = q w₂.db)
    (he : exec env i cmd ⟨t, .quiet⟩ w₁ = some (b, w₁')) :
    ∃ w₂', exec env i cmd ⟨t, .quiet⟩ w₂ = some (b, w₂') ∧ Alike drawn i owner w₁' w₂' := by
  rw [hcmd] at he
  cases he
  exact ⟨_, by rw [hcmd, ← hq], (h.wait t).onSession _⟩

/-- A flush of the owner answers both worlds alike. -/
theorem Alike.flushCommit {u : UnitOfWork} {b : Except DbError Flushed}
    (h : Alike drawn i owner w₁ w₂) (h₁ : Coherent w₁) (h₂ : Coherent w₂)
    (hu₁ : OwnWork w₁ owner u) (hu₂ : OwnWork w₂ owner u)
    (hch : ∀ id ∈ ch.freshId, id ∈ drawn)
    (he : exec env i (.flushCommit u) ch w₁ = some (b, w₁')) :
    ∃ w₂', exec env i (.flushCommit u) ch w₂ = some (b, w₂') ∧ Alike drawn i owner w₁' w₂' := by
  obtain ⟨t, o⟩ := ch
  have hwait := h.wait t
  cases o <;> simp only [exec, reduceCtorEq] at he
  case fails e =>
    cases he
    exact ⟨_, rfl, (hwait.record _).onSession _⟩
  case fresh id =>
    split at he
    · contradiction
    · rename_i hfree
      simp only [Bool.or_eq_true, decide_eq_true_eq, not_or, Bool.not_eq_true] at hfree
      have hfree₂ : ¬ ((w₂.wait t).blocked i u || decide (id ∈ (w₂.wait t).issued)) = true := by
        have hissued : id ∉ w₂.issued := fun hid => hfree.2 (h.issued id (hch id rfl) hid)
        have hlocks : w₂.locks = fun _ => none := h.locks.trans h.unlocked
        simp [World.blocked, World.wait, hlocks, hissued]
      simp only [exec, if_neg hfree₂]
      have hnow : (w₂.wait t).now = (w₁.wait t).now := hwait.now
      unfold World.flushCommit at he ⊢
      rcases h.rows.flush h₁ h₂ hu₁ hu₂ (w₁.wait t).now id with ⟨e, hf₁, hf₂⟩ | ⟨hf₁, hf₂⟩
      · rw [show (w₁.wait t).db = w₁.db from rfl, hf₁] at he
        rw [hnow, show (w₂.wait t).db = w₂.db from rfl, hf₂]
        cases he
        exact ⟨_, rfl, (hwait.record _).onSession _⟩
      · rw [show (w₁.wait t).db = w₁.db from rfl, hf₁] at he
        rw [hnow, show (w₂.wait t).db = w₂.db from rfl, hf₂]
        cases he
        refine ⟨_, rfl, Alike.onSession (Alike.unlock (Alike.record ?_ _)) _⟩
        refine ⟨h.rows.write _ _, ?_, h.unlocked, issued_cons h.issued⟩
        simp only [World.visible, Prod.mk.injEq, true_and]
        exact ⟨hwait.session.symm, hwait.locks.symm⟩

/-- A storage request answers both worlds alike. -/
theorem Alike.storageUpload {key : ObjectKey} {b : Bool} (h : Alike drawn i owner w₁ w₂)
    (habsent₁ : key ∉ w₁.objects) (habsent₂ : key ∉ w₂.objects)
    (he : exec env i (.storageUpload key) ch w₁ = some (b, w₁')) :
    ∃ w₂', exec env i (.storageUpload key) ch w₂ = some (b, w₂') ∧ Alike drawn i owner w₁' w₂' := by
  obtain ⟨t, o⟩ := ch
  cases o <;> simp only [exec, reduceCtorEq] at he
  case storage o =>
    have hanswer : ((w₂.wait t).upload i key o).1 = ((w₁.wait t).upload i key o).1 := by
      simp [World.upload, World.wait, habsent₁, habsent₂]
    cases he
    refine ⟨((w₂.wait t).upload i key o).2, congrArg some (Prod.ext hanswer rfl), ?_⟩
    have hwait := h.wait t
    unfold World.upload
    split <;> split
    all_goals exact hwait.of_visible rfl rfl hwait.visible rfl hwait.issued

theorem Alike.storageDelete {key : ObjectKey} {b : Bool} (h : Alike drawn i owner w₁ w₂)
    (he : exec env i (.storageDelete key) ch w₁ = some (b, w₁')) :
    ∃ w₂', exec env i (.storageDelete key) ch w₂ = some (b, w₂') ∧ Alike drawn i owner w₁' w₂' := by
  obtain ⟨t, o⟩ := ch
  cases o <;> simp only [exec, reduceCtorEq] at he
  case storage o =>
    cases he
    refine ⟨_, rfl, ?_⟩
    have hwait := h.wait t
    split <;> exact hwait.of_visible rfl rfl hwait.visible rfl hwait.issued

/-- One command of a call of the owner answers both worlds alike. -/
theorem Alike.exec (h : Alike drawn i owner w₁ w₂) (h₁ : Coherent w₁) (h₂ : Coherent w₂)
    (hr : r.owner = some owner) (hissues₁ : Issues env i r w₁ cmd)
    (hissues₂ : Issues env i r w₂ cmd) (hch : ∀ id ∈ ch.freshId, id ∈ drawn)
    (he : exec env i cmd ch w₁ = some (b, w₁')) :
    ∃ w₂', exec env i cmd ch w₂ = some (b, w₂') ∧ Alike drawn i owner w₁' w₂' := by
  have hown : ∀ {own : UUID}, r.owner = some own → own = owner :=
    fun hown => Option.some.inj (hown.symm.trans hr)
  cases cmd with
  | flushCommit u =>
      exact h.flushCommit h₁ h₂ (Commits.ownWork h₁ hr hissues₁) (Commits.ownWork h₂ hr hissues₂)
        hch he
  | storageUpload key =>
      have habsent : ∀ {w : World}, Coherent w → w.phases key = .reserved i → key ∉ w.objects := by
        intro w hw hreserved hmem
        have hmade := hw.object_made key hmem
        simp [hreserved, KeyPhase.isMade] at hmade
      exact h.storageUpload (habsent h₁ hissues₁.1) (habsent h₂ hissues₂.1) he
  | storageDelete key => exact h.storageDelete he
  | listDueForUpdate now limit => exact absurd (hr.symm.trans hissues₁) (by simp)
  | getOwned resumeId own includeDeleted =>
      obtain rfl := hown hissues₁
      obtain ⟨t, o⟩ := ch
      cases o <;> simp only [reduceCtorEq, Resumes.exec] at he
      exact h.read (q := fun db => db.getOwned resumeId own includeDeleted)
        (f := fun row => (Session.select · (row.toList.map (·.id)))) (fun _ => rfl)
        (h.rows.getOwned h₁.constraints resumeId includeDeleted) he
  | listOwnedPage own offset limit =>
      obtain rfl := hown hissues₁
      obtain ⟨t, o⟩ := ch
      cases o <;> simp only [reduceCtorEq, Resumes.exec] at he
      exact h.read (q := fun db => db.listOwnedPage own offset limit)
        (f := fun rows => (Session.select · (rows.map (·.id)))) (fun _ => rfl)
        (h.rows.listOwnedPage h₁.constraints h₂.constraints offset limit) he
  | countOwned own =>
      obtain rfl := hown hissues₁
      obtain ⟨t, o⟩ := ch
      cases o <;> simp only [reduceCtorEq, Resumes.exec] at he
      exact h.read (q := fun db => db.countOwned own) (f := fun _ => (Session.select · []))
        (fun _ => rfl) (h.rows.countOwned h₁.constraints h₂.constraints) he
  | getOwnedByResumeId resumeId own =>
      obtain rfl := hown hissues₁
      obtain ⟨t, o⟩ := ch
      cases o <;> simp only [reduceCtorEq, Resumes.exec] at he
      exact h.read (q := fun db => db.getOwnedByResumeId resumeId own)
        (f := fun _ => (Session.select · [])) (fun _ => rfl)
        (h.rows.getOwnedByResumeId h₁.constraints resumeId) he
  | getByObjectKey key =>
      obtain ⟨own, hown', x, hx, rfl, rfl, _⟩ := hissues₁
      have howner := hown hown'
      obtain ⟨t, o⟩ := ch
      cases o <;> simp only [reduceCtorEq, Resumes.exec] at he
      have hq : w₁.db.getByObjectKey x.storageObjectKey =
          w₂.db.getByObjectKey x.storageObjectKey := by
        rw [h₁.resume_key x hx, howner]
        exact h.rows.getByObjectKey h₁ h₂
      exact h.read (q := fun db => db.getByObjectKey x.storageObjectKey)
        (f := fun row => (Session.select · (row.toList.map (·.id)))) (fun _ => rfl) hq he
  | uuid4 own =>
      obtain ⟨t, o⟩ := ch
      cases o <;> simp only [reduceCtorEq, Resumes.exec] at he
      split at he
      · contradiction
      · rename_i hid
        cases he
        have hid₂ : b ∉ (w₂.wait t).issued := fun hmem => hid (h.issued b (hch b rfl) hmem)
        refine ⟨_, if_neg hid₂, h.of_visible rfl rfl ?_ rfl (issued_cons h.issued)⟩
        simp [World.visible, World.draw, World.wait, h.now, h.session, h.locks]
  | now =>
      obtain ⟨t, o⟩ := ch
      cases o <;> simp only [reduceCtorEq, Resumes.exec] at he
      cases he
      exact ⟨_, by simp only [Resumes.exec, (h.wait t).now], h.wait t⟩
  | sessionAdd =>
      obtain ⟨t, o⟩ := ch
      cases o <;> simp only [reduceCtorEq, Resumes.exec] at he
      cases he
      exact ⟨_, rfl, (h.wait t).onSession _⟩
  | rollback =>
      obtain ⟨t, o⟩ := ch
      cases o <;> simp only [reduceCtorEq, Resumes.exec] at he
      cases he
      exact ⟨_, rfl, (h.wait t).unlock.onSession _⟩
  | readObjectKey cleanup =>
      obtain ⟨t, o⟩ := ch
      cases o <;> simp only [reduceCtorEq, Resumes.exec] at he
      cases he
      exact ⟨_, by simp only [Resumes.exec, (h.wait t).session], h.wait t⟩
  | parse content =>
      obtain ⟨t, o⟩ := ch
      cases o <;> simp only [reduceCtorEq, Resumes.exec] at he
      cases he
      exact ⟨_, rfl, (h.wait t).record _⟩

end

/-- The steps of one call that serves a request. -/
def serve (i : CallId) (r : Request) (choices : List Choice) : List (Label Choice Request) :=
  .start i r :: choices.map (.step i)

/-- The steps of a call of the owner lead from two worlds that it cannot tell apart to the
same state of the call. -/
theorem play_alike {env : Env} {w₁ w₂ : World} (h₁ : Initial w₁) (h₂ : Initial w₂)
    {i : CallId} {r : Request} {owner : UUID} (hr : r.owner = some owner) {drawn : List UUID}
    (choices : List Choice) (hdrawn : choices.filterMap Choice.freshId ⊆ drawn)
    {c₁ c₂ d₁ : Config World Cmd Request (Except ServiceError Reply)}
    (hc₁ : (resumeMachine env).Reachable .any w₁ c₁)
    (hc₂ : (resumeMachine env).Reachable .any w₂ c₂)
    (halike : Alike drawn i owner c₁.world c₂.world)
    {p : Prog Cmd (Except ServiceError Reply)} (hp₁ : c₁.calls i = .running r p)
    (hp₂ : c₂.calls i = .running r p)
    (hplay : (resumeMachine env).play .any (choices.map (.step i)) c₁ = some d₁) :
    ∃ d₂, (resumeMachine env).play .any (choices.map (.step i)) c₂ = some d₂ ∧
      d₂.calls i = d₁.calls i := by
  induction choices generalizing c₁ c₂ p with
  | nil =>
      cases hplay
      exact ⟨c₂, rfl, hp₂.trans hp₁.symm⟩
  | cons ch choices ih =>
      simp only [List.map_cons, Machine.play, Regime.permits_any, if_true] at hplay ⊢
      obtain ⟨e₁, hnext, hrest⟩ := Option.bind_eq_some_iff.mp hplay
      cases p with
      | pure a => simp [Machine.next, hp₁] at hnext
      | step cmd k =>
          have hnext' := hnext
          simp only [Machine.next, hp₁, Option.map_eq_some_iff] at hnext'
          obtain ⟨⟨b, w₁'⟩, he₁, rfl⟩ := hnext'
          obtain ⟨w₂', he₂, halike'⟩ := halike.exec ((resumeSound env h₁).reachable hc₁).1
            ((resumeSound env h₂).reachable hc₂).1 hr ((resumeSound env h₁).issues hc₁ hp₁)
            ((resumeSound env h₂).issues hc₂ hp₂)
            (fun id hid => hdrawn (List.mem_filterMap.mpr ⟨ch, by simp, hid⟩)) he₁
          have hnext₂ : (resumeMachine env).next (.step i ch) c₂ =
              some (c₂.put w₂' i (.running r (k b))) := by
            simp only [Machine.next, hp₂, Option.map_eq_some_iff]
            exact ⟨(b, w₂'), he₂, rfl⟩
          rw [hnext₂, Option.bind_some]
          exact ih (fun id hid => hdrawn (List.filterMap_subset _ (by simp) hid))
            (hc₁.next (Regime.permits_any _ _) hnext)
            (hc₂.next (Regime.permits_any _ _) hnext₂) halike' (p := k b) (by simp) (by simp) hrest

/-! ## Main result -/

/-- In every run of owner requests the rows of an owner are changed only by the owner's
own calls.  And from two worlds that agree on the rows of an owner and on the clock, every
call of the owner that is answered in the same way by its environment returns the same. -/
theorem owner_isolation (env : Env) (owner : UUID) :
    (∀ {w₀ : World}, Initial w₀ → ∀ {c c' : Config World Cmd Request (Except ServiceError Reply)}
      {l : Label Choice Request}, (resumeMachine env).Reachable ownerCalls w₀ c →
      (resumeMachine env).next l c = some c' →
      c'.world.db.rowsOf owner ≠ c.world.db.rowsOf owner →
      ∃ i ch r p, l = .step i ch ∧ c.calls i = .running r p ∧ r.owner = some owner) ∧
    ∀ {w₁ w₂ : World}, Initial w₁ → Initial w₂ → ∀ (i : CallId) (r : Request),
      r.owner = some owner → ∀ (choices : List Choice),
      Alike (choices.filterMap Choice.freshId) i owner w₁ w₂ →
      ∀ {d₁ : Config World Cmd Request (Except ServiceError Reply)},
      (resumeMachine env).play .any (serve i r choices) (.initial w₁) = some d₁ →
      ∃ d₂, (resumeMachine env).play .any (serve i r choices) (.initial w₂) = some d₂ ∧
        (d₂.calls i).returned = (d₁.calls i).returned := by
  refine ⟨fun h c c' l hc hl hne => (rowsOf_step env h hc hl owner).resolve_left hne, ?_⟩
  intro w₁ w₂ h₁ h₂ i r hr choices halike d₁ hplay
  have hstart : ∀ w, (resumeMachine env).next (.start i r) (.initial w) =
      some ((Config.initial w).put w i (.running r (program env r))) := fun _ => rfl
  have hreach : ∀ w, (resumeMachine env).Reachable .any w
      ((Config.initial w).put w i (.running r (program env r))) :=
    fun w => Machine.Reachable.initial.next rfl (hstart w)
  simp only [serve, Machine.play, Regime.permits_any, if_true, hstart, Option.bind_some]
    at hplay ⊢
  obtain ⟨d₂, hd₂, hcalls⟩ := play_alike h₁ h₂ hr choices (List.Subset.refl _) (hreach w₁)
    (hreach w₂) (by simpa using halike) (p := program env r) (by simp) (by simp) hplay
  exact ⟨d₂, hd₂, by rw [hcalls]⟩

/-- A deletion up to the flush that retires the resume. -/
def deletion : List (Label Choice Request) :=
  [.start 0 (.delete 1 7), .step 0 ⟨0, .quiet⟩, .step 0 ⟨0, .quiet⟩, .step 0 ⟨0, .quiet⟩]

theorem initial_later : Initial (World.empty.wait 100) where
  coherent := by
    constructor <;> simp [World.empty, World.wait]
    · exact ⟨by simp, by simp, by simp, by simp, by simp, by simp⟩
    · exact ⟨by simp, by simp⟩
  log := rfl
  sessions _ := rfl

/-- The owner's deletion changes the owner's rows.  To another owner the resume is as good
as missing. -/
theorem owner_isolation_oneResume :
    (∃ c c', (resumeMachine defaultEnv).play ownerCalls deletion (.initial oneResume) = some c ∧
      (resumeMachine defaultEnv).next (.step 0 ⟨0, .fresh 4⟩) c = some c' ∧
      c'.world.db.rowsOf 7 ≠ c.world.db.rowsOf 7 ∧
      ∃ i ch r p, (Label.step 0 ⟨0, .fresh 4⟩ : Label Choice Request) = .step i ch ∧
        c.calls i = .running r p ∧ r.owner = some 7) ∧
    ∃ d₁ d₂, (resumeMachine defaultEnv).play .any (serve 0 (.delete 1 8) [⟨0, .quiet⟩])
        (.initial (World.empty.wait 100)) = some d₁ ∧
      (resumeMachine defaultEnv).play .any (serve 0 (.delete 1 8) [⟨0, .quiet⟩])
        (.initial oneResume) = some d₂ ∧
      (d₁.calls 0).returned = some (.delete 1 8, .error notFound) ∧
      (d₂.calls 0).returned = (d₁.calls 0).returned := by
  constructor
  · have hrun : ((resumeMachine defaultEnv).play ownerCalls deletion (.initial oneResume)).bind
        (fun c => ((resumeMachine defaultEnv).next (.step 0 ⟨0, .fresh 4⟩) c).map
          fun c' => decide (c'.world.db.rowsOf 7 = c.world.db.rowsOf 7)) = some false := by decide
    obtain ⟨c, hc, hnext⟩ := Option.bind_eq_some_iff.mp hrun
    obtain ⟨c', hc', hne⟩ := Option.map_eq_some_iff.mp hnext
    have hne := of_decide_eq_false hne
    exact ⟨c, c', hc, hc', hne, (owner_isolation defaultEnv 7).1 initial_oneResume
      (Machine.reachable_of_play hc) hc' hne⟩
  · have hrun : ((resumeMachine defaultEnv).play .any (serve 0 (.delete 1 8) [⟨0, .quiet⟩])
        (.initial (World.empty.wait 100))).map (fun d => (d.calls 0).returned) =
          some (some (.delete 1 8, .error notFound)) := rfl
    obtain ⟨d₁, hd₁, hreturned⟩ := Option.map_eq_some_iff.mp hrun
    have halike : Alike [] 0 8 (World.empty.wait 100) oneResume := by
      refine ⟨⟨fun x hx => ?_, fun p hp => ?_, fun c _ => Iff.rfl⟩, rfl, rfl, by simp⟩
      · refine ⟨fun h => absurd h List.not_mem_nil, fun h => ?_⟩
        rw [List.mem_singleton.mp h] at hx
        exact absurd hx (by decide)
      · refine ⟨fun h => absurd h List.not_mem_nil, fun h => ?_⟩
        rw [List.mem_singleton.mp h] at hp
        exact absurd hp (by decide)
    obtain ⟨d₂, hd₂, hsame⟩ := (owner_isolation defaultEnv 8).2 initial_later initial_oneResume
      0 (.delete 1 8) rfl [⟨0, .quiet⟩] halike hd₁
    exact ⟨d₁, d₂, hd₁, hd₂, hreturned, hsame⟩

end Resumes
end HireAndTech
