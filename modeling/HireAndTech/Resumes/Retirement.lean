import HireAndTech.Resumes.Orphans

/-!
# Optimistic retirement

Any number of replacements and deletions of one resume run at the same time.  Each
loads the resume, and its flush retires the row only in the version that it has
loaded.  The first commit counts the version up, so every later flush is stale.

Main results:

- Theorem {lit}`single_retirement`: at most one call commits the retirement, the
  resumes and profiles are as that commit left them, and no other call leaves an
  object behind that no cleanup row names.
-/

namespace HireAndTech
namespace Resumes

open Interleaving

/-! ## The property -/

/-- The runs of replacements and deletions of one resume, with definite storage
outcomes. -/
def contenders (resumeId : UUID) : Regime World Cmd Choice Request where
  starts
    | _, .replace id _ _ => id = resumeId
    | _, .delete id _ => id = resumeId
    | _, _ => false
  allows _ _ _ ch := ch.outcome ≠ .storage .failedAfter

/-- The unit of work that an entry commits, when it retires the resume. -/
def retirementOf (resumeId : UUID) (e : CallId × Event) : Option (CallId × UnitOfWork) :=
  match e.2 with
  | .committed u => if u.retire.any (·.1.id = resumeId) then some (e.1, u) else none
  | _ => none

/-- The committed retirements of the resume. -/
def retirements (resumeId : UUID) (w : World) : List (CallId × UnitOfWork) :=
  w.log.filterMap (retirementOf resumeId)

/-- The resumes and profiles are those of {lit}`w₀`, after the retirement if there was
one, at the time of its commit. -/
def TablesAfter (w₀ w : World) : List (CallId × UnitOfWork) → Prop
  | [] => w.db.resumes = w₀.db.resumes ∧ w.db.profiles = w₀.db.profiles
  | [(_, u)] => ∃ now, w₀.now ≤ now ∧ now ≤ w.now ∧
      ∀ rowId, w.db.resumes = (w₀.db.write u now rowId).resumes ∧
        w.db.profiles = (w₀.db.write u now rowId).profiles
  | _ => False

/-- The object of every call that has not retired the resume is gone, or a cleanup row
names it. -/
def LosersClean (resumeId : UUID) (w : World) : Prop :=
  ∀ j key b, (j, Event.uploaded key b) ∈ w.log → (∀ u, (j, u) ∉ retirements resumeId w) →
    key ∉ w.objects ∨ ∃ c ∈ w.db.cleanups, c.storageObjectKey = key

/-! ## The invariant -/

/-- The invariant behind {lit}`single_retirement`. -/
structure Raced (resumeId : UUID) (w₀ w : World) : Prop where
  tables : TablesAfter w₀ w (retirements resumeId w)
  retired : ∀ e ∈ retirements resumeId w, ∀ x ∈ w.db.resumes, x.id = resumeId →
    x.status = .deleted
  stored : ∀ j u x, (j, u) ∈ retirements resumeId w → u.insertResume = some x →
    (j, Event.uploaded x.storageObjectKey true) ∈ w.log
  made : ∀ key, (w₀.phases key).isMade = true → (w.phases key).isMade = true
  fresh : ∀ j key b, (j, Event.uploaded key b) ∈ w.log → (w₀.phases key).isMade = false
  own : ∀ j j' key b b', (j, Event.uploaded key b) ∈ w.log → (j', Event.uploaded key b') ∈ w.log →
    j = j'
  clock : w₀.now ≤ w.now

section

variable {env : Env} {i : CallId} {r : Request} {w₀ w w' : World} {resumeId : UUID}
variable {β : Type} {cmd : Cmd β} {b : β} {ch : Choice}

theorem retirements_append {es : List Event} (h : w'.log = w.log ++ es.map (i, ·)) :
    retirements resumeId w' =
      retirements resumeId w ++ es.filterMap fun e => retirementOf resumeId (i, e) := by
  simp [retirements, h, List.filterMap_map]

/-- The tables after a retirement stay so while they do not change. -/
theorem TablesAfter.mono {l : List (CallId × UnitOfWork)} (hresumes : w'.db.resumes = w.db.resumes)
    (hprofiles : w'.db.profiles = w.db.profiles) (hclock : w.now ≤ w'.now)
    (h : TablesAfter w₀ w l) : TablesAfter w₀ w' l := by
  rcases l with _ | ⟨⟨j, u⟩, _ | ⟨_, _⟩⟩
  · exact ⟨hresumes.trans h.1, hprofiles.trans h.2⟩
  · obtain ⟨now, hfrom, hto, hrows⟩ := h
    exact ⟨now, hfrom, hto.trans hclock, fun rowId =>
      ⟨hresumes.trans (hrows rowId).1, hprofiles.trans (hrows rowId).2⟩⟩
  · exact h.elim

/-- A step that retires nothing and leaves resumes and profiles alone. -/
theorem Raced.quiet (hf : Frame i w w') (hclock : w.now ≤ w'.now)
    (hresumes : w'.db.resumes = w.db.resumes)
    (hprofiles : w'.db.profiles = w.db.profiles)
    (hretirements : retirements resumeId w' = retirements resumeId w)
    (huploaded : ∀ j key s, (j, Event.uploaded key s) ∈ w'.log →
      (j, Event.uploaded key s) ∈ w.log)
    (h : Raced resumeId w₀ w) : Raced resumeId w₀ w' := by
  refine ⟨?_, ?_, ?_, ?_, ?_, ?_, h.clock.trans hclock⟩
  · rw [hretirements]
    exact h.tables.mono hresumes hprofiles hclock
  · rw [hretirements, hresumes]
    exact h.retired
  · intro j u x hmem hx
    rw [hretirements] at hmem
    obtain ⟨es, hlog⟩ := hf.log
    rw [hlog]
    exact List.mem_append_left _ (h.stored j u x hmem hx)
  · exact fun key hmade => (hf.phases key).isMade (h.made key hmade)
  · exact fun j key s hmem => h.fresh j key s (huploaded j key s hmem)
  · exact fun j j' key s s' hmem hmem' =>
      h.own j j' key s s' (huploaded j key s hmem) (huploaded j' key s' hmem')

/-- A storage upload: the key is not one of the first world, nor of another upload. -/
theorem Raced.storageUpload {key : ObjectKey} {b : Bool} (hw : Coherent w) (hf : Frame i w w')
    (hreserved : w.phases key = .reserved i)
    (he : exec env i (.storageUpload key) ch w = some (b, w')) (h : Raced resumeId w₀ w) :
    Raced resumeId w₀ w' := by
  obtain ⟨_, _, hdb, _⟩ := exec_storageUpload he
  have hnew : ∀ {j k s}, (j, Event.uploaded k s) ∈ w'.log → k = key → j = i := by
    rintro j k s hmem rfl
    rcases mem_log_cases he hmem with hmem | ⟨rfl, _⟩
    · have hmade := hw.uploaded_made j k s hmem
      simp [hreserved, KeyPhase.isMade] at hmade
    · rfl
  have hold : ∀ {j k s}, (j, Event.uploaded k s) ∈ w'.log → k ≠ key →
      (j, Event.uploaded k s) ∈ w.log := by
    intro j k s hmem hk
    rcases mem_log_cases he hmem with hmem | ⟨_, hmem⟩
    · exact hmem
    · simp only [Cmd.events, List.mem_singleton, Event.uploaded.injEq] at hmem
      exact absurd hmem.1 hk
  have hretirements : retirements resumeId w' = retirements resumeId w := by
    rw [retirements_append (exec_log he)]
    simp [Cmd.events, retirementOf]
  have hclock : w.now ≤ w'.now := exec_now he ▸ Nat.le_add_right _ _
  refine ⟨?_, ?_, ?_, ?_, ?_, ?_, h.clock.trans hclock⟩
  · rw [hretirements]
    exact h.tables.mono (by rw [hdb]) (by rw [hdb]) hclock
  · rw [hretirements, hdb]
    exact h.retired
  · intro j u x hmem hx
    rw [hretirements] at hmem
    rw [exec_log he]
    exact List.mem_append_left _ (h.stored j u x hmem hx)
  · exact fun k hmade => (hf.phases k).isMade (h.made k hmade)
  · intro j k s hmem
    by_cases hk : k = key
    · subst hk
      by_contra hmade
      have := h.made k (by simpa using hmade)
      simp [hreserved, KeyPhase.isMade] at this
    · exact h.fresh j k s (hold hmem hk)
  · intro j j' k s s' hmem hmem'
    by_cases hk : k = key
    · rw [hnew hmem hk, hnew hmem' hk]
    · exact h.own j j' k s s' (hold hmem hk) (hold hmem' hk)

/-- A commit retires the resume only if no commit has retired it before. -/
theorem Raced.flushCommit {u : UnitOfWork} {b : Except DbError Flushed} (hw : Coherent w)
    (hw' : Coherent w') (hf : Frame i w w') (hstarts : (contenders resumeId).starts i r = true)
    (hu : Commits env i w r u) (he : exec env i (.flushCommit u) ch w = some (b, w'))
    (h : Raced resumeId w₀ w) : Raced resumeId w₀ w' := by
  have hlog := exec_log he
  have huploaded : ∀ j key s, (j, Event.uploaded key s) ∈ w'.log →
      (j, Event.uploaded key s) ∈ w.log :=
    fun j key s hmem => uploaded_mem_log rfl he hmem
  have hclock : w.now ≤ w'.now := exec_now he ▸ Nat.le_add_right _ _
  rcases exec_flushCommit he with ⟨e, rfl, hdb, _⟩ | ⟨f, rfl, _, _, hnow, hflush, _⟩
  · refine h.quiet hf hclock (by rw [hdb]) (by rw [hdb]) ?_ huploaded
    rw [retirements_append hlog]
    simp [Cmd.events, retirementOf]
  obtain ⟨hfresh, _, _, hdb⟩ := flush_eq_ok hflush
  have hnew : retirements resumeId w' = retirements resumeId w ++
      if u.retire.any (·.1.id = resumeId) then [(i, u)] else [] := by
    rw [retirements_append hlog]
    simp only [Cmd.events, List.filterMap_cons, List.filterMap_nil, retirementOf]
    split <;> simp_all
  cases hretire : u.retire with
  | none =>
      -- reservations and cleanups touch neither resumes nor profiles
      have hinsert : u.insertResume = none ∧ u.insertProfile = none := by
        cases hu with
        | persist _ _ => simp [contenders] at hstarts
        | replace _ _ _ _ => contradiction
        | _ => exact ⟨rfl, rfl⟩
      refine h.quiet hf hclock ?_ ?_ (by simp [hnew, hretire]) huploaded
      · rw [hdb]
        simp [Database.write, hretire, hinsert.1]
      · rw [hdb]
        simp [Database.write, hinsert.2]
  | some ct =>
      obtain ⟨current, t⟩ := ct
      have hid : current.id = resumeId := by
        cases hu with
        | replace _ _ _ _ =>
            cases hretire
            simpa [contenders] using hstarts
        | delete _ _ _ =>
            cases hretire
            simpa [contenders] using hstarts
        | _ => contradiction
      obtain ⟨⟨y, hy, hyid, _, _, hyrow⟩, hactive, _⟩ := hu.retires hretire
      simp only [Database.retirementFresh, hretire, List.any_eq_true] at hfresh
      obtain ⟨x, hx, hmatch⟩ := hfresh
      have hmatch' := matchesVersion_iff.mp hmatch
      have hxy : x = y := hw.constraints.resume_eq hx hy (hmatch'.1.trans hyid.symm)
      subst hxy
      -- the row that the call loaded is active and of this version, so nothing was retired
      have hfirst : retirements resumeId w = [] := by
        rw [List.eq_nil_iff_forall_not_mem]
        intro e he'
        have hdeleted := h.retired e he' x hx (hmatch'.1.trans hid)
        rcases hyrow with rfl | ⟨_, hversion⟩
        · exact hactive hdeleted
        · omega
      have htables := h.tables
      rw [hfirst] at htables
      have hone : retirements resumeId w' = [(i, u)] := by
        rw [hnew, hfirst, hretire]
        simp [hid]
      refine ⟨?_, ?_, ?_, ?_, ?_, ?_, h.clock.trans hclock⟩
      · rw [hone]
        have hcommit : f.now = w'.now := hnow.trans (exec_now he).symm
        refine ⟨f.now, hcommit ▸ h.clock.trans hclock, hcommit.le, fun rowId => ⟨?_, ?_⟩⟩
        · rw [hdb]
          simp only [Database.write, htables.1]
        · rw [hdb]
          simp only [Database.write, htables.2]
      · intro e _ x' hx' hx'id
        have hretired : retireRow current t x ∈ w'.db.resumes := by
          rw [hdb]
          exact mem_write_resumes.mpr (Or.inl ⟨x, hx, Or.inl ⟨current, t, hretire, rfl⟩⟩)
        rw [hw'.constraints.resume_eq hx' hretired (by simp [hx'id, hmatch'.1, hid])]
        exact (retireRow_of_matches hmatch).1
      · intro j u' x' hmem hx'
        rw [hone, List.mem_singleton] at hmem
        cases hmem
        obtain ⟨owner, id, cid, hstored, hkey, _⟩ := hu.inserts_resume hx'
        rw [hlog, hkey]
        exact List.mem_append_left _ (mem_events.mp hstored.uploaded)
      · exact fun key hmade => (hf.phases key).isMade (h.made key hmade)
      · exact fun j key s hmem => h.fresh j key s (huploaded j key s hmem)
      · exact fun j j' key s s' hmem hmem' =>
          h.own j j' key s s' (huploaded j key s hmem) (huploaded j' key s' hmem')

/-- One command keeps the invariant of the race. -/
theorem Raced.exec (hw : Coherent w) (hw' : Coherent w') (hf : Frame i w w')
    (hstarts : (contenders resumeId).starts i r = true) (hissues : Issues env i r w cmd)
    (he : exec env i cmd ch w = some (b, w')) (h : Raced resumeId w₀ w) :
    Raced resumeId w₀ w' := by
  have hclock : w.now ≤ w'.now := exec_now he ▸ Nat.le_add_right _ _
  cases cmd with
  | storageUpload key => exact h.storageUpload hw hf hissues.1 he
  | flushCommit u => exact h.flushCommit hw hw' hf hstarts hissues he
  | storageDelete key =>
      obtain ⟨_, _, hdb, _⟩ := exec_storageDelete he
      refine h.quiet hf hclock (by rw [hdb]) (by rw [hdb]) ?_
        fun j key s => uploaded_mem_log rfl he
      rw [retirements_append (exec_log he)]
      simp [Cmd.events, retirementOf]
  | uuid4 owner =>
      obtain ⟨_, hdb, _⟩ := exec_uuid4 he
      refine h.quiet hf hclock (by rw [hdb]) (by rw [hdb]) ?_
        fun j key s => uploaded_mem_log rfl he
      rw [retirements_append (exec_log he)]
      simp [Cmd.events]
  | _ =>
      obtain ⟨hdb, _⟩ := exec_quiet rfl he
      refine h.quiet hf hclock (by rw [hdb]) (by rw [hdb]) ?_
        fun j key s => uploaded_mem_log rfl he
      rw [retirements_append (exec_log he)]
      simp [Cmd.events, retirementOf]

theorem raced_initial (h : Initial w₀) : Raced resumeId w₀ w₀ where
  tables := by simp [retirements, h.log, TablesAfter]
  retired := by simp [retirements, h.log]
  stored := by simp [retirements, h.log]
  made _ h := h
  fresh := by simp [h.log]
  own := by simp [h.log]
  clock := le_rfl

end

/-! ## Main result -/

theorem TablesAfter.length_le_one {w₀ w : World} {l : List (CallId × UnitOfWork)}
    (h : TablesAfter w₀ w l) : l.length ≤ 1 := by
  rcases l with _ | ⟨_, _ | ⟨_, _⟩⟩
  · simp
  · simp
  · exact h.elim

/-- The key of a resume row is that of a row of the first world or of the replacement. -/
theorem TablesAfter.resume_key {w₀ w : World} {l : List (CallId × UnitOfWork)}
    (h : TablesAfter w₀ w l) {x : Resume} (hx : x ∈ w.db.resumes) :
    (∃ y ∈ w₀.db.resumes, y.storageObjectKey = x.storageObjectKey) ∨
      ∃ j u y, (j, u) ∈ l ∧ u.insertResume = some y ∧
        y.storageObjectKey = x.storageObjectKey := by
  rcases l with _ | ⟨⟨j, u⟩, _ | ⟨_, _⟩⟩
  · exact Or.inl ⟨x, h.1 ▸ hx, rfl⟩
  · obtain ⟨now, _, _, hrows⟩ := h
    rw [(hrows 0).1] at hx
    rcases mem_write_resumes.mp hx with ⟨y, hy, ⟨c, t, _, rfl⟩ | ⟨_, rfl⟩⟩ | ⟨y, hy, rfl⟩
    · exact Or.inl ⟨y, hy, by simp⟩
    · exact Or.inl ⟨x, hy, rfl⟩
    · exact Or.inr ⟨j, u, y, by simp, hy, rfl⟩
  · exact h.elim

/-- Objects of calls that have not retired the resume are gone or named for cleanup. -/
theorem Raced.losersClean {resumeId : UUID} {w₀ w : World} (hw₀ : Coherent w₀)
    (h : Raced resumeId w₀ w) (hJ : Journaled w₀.objects w) : LosersClean resumeId w := by
  intro j key b hmem hloser
  have hnotmade := h.fresh j key b hmem
  rw [or_iff_not_imp_left, not_not]
  intro hobject
  rcases hJ.accounted key hobject with hexempt | ⟨x, hx, hkey, _⟩ | hrow
  · rw [hw₀.object_made key hexempt] at hnotmade
    contradiction
  · rcases h.tables.resume_key hx with ⟨y, hy, hykey⟩ | ⟨j', u, y, hwinner, hy, hykey⟩
    · rw [← hkey, ← hykey, hw₀.resume_settled y hy] at hnotmade
      contradiction
    · have hstored := h.stored j' u y hwinner hy
      rw [hykey, hkey] at hstored
      have hjj := h.own j j' key b true hmem hstored
      exact absurd (hjj ▸ hwinner) (hloser u)
  · exact hrow

/-- Among any number of replacements and deletions of one resume, at most one commits
its retirement, the resumes and profiles are as that commit left them, and the objects
of all other calls are gone or named for cleanup. -/
theorem single_retirement (env : Env) {w₀ : World} (h : Initial w₀) (resumeId : UUID)
    {c : Config World Cmd Request (Except ServiceError Reply)}
    (hc : (resumeMachine env).Reachable (contenders resumeId) w₀ c) :
    (retirements resumeId c.world).length ≤ 1 ∧
      TablesAfter w₀ c.world (retirements resumeId c.world) ∧ LosersClean resumeId c.world := by
  have hraced : Raced resumeId w₀ c.world := (resumeSound env h).invariant (raced_initial h)
    (fun _ _ _ _ _ _ _ _ hstarts hw hw' hf hissues _ he hJ =>
      hJ.exec hw hw' hf hstarts hissues he)
    (fun i w hw hJ => hJ.quiet (close_coherent (i := i) hw).2 le_rfl rfl rfl rfl fun _ _ _ => id) hc
  have hdefinite : (resumeMachine env).Reachable definiteUploads w₀ c := by
    refine hc.mono (fun _ _ _ => rfl) ?_
    intro β w i r cmd ch hstarts hallow
    simp only [contenders, decide_eq_true_eq, ne_eq] at hallow
    cases r <;> simp only [contenders, Bool.false_eq_true] at hstarts <;>
      · unfold definiteUploads
        dsimp only
        split <;> simp_all
  exact ⟨hraced.tables.length_le_one, hraced.tables,
    hraced.losersClean h.coherent (journaled_reachable h (fun _ hkey => Or.inl hkey) hdefinite)⟩

/-- A deletion overtakes a replacement of the same resume. -/
def race : List (Label Choice Request) :=
  [.start 0 (.replace 1 7 sampleFile), .step 0 ⟨0, .quiet⟩, .step 0 ⟨0, .fresh 2⟩,
    .step 0 ⟨0, .quiet⟩, .step 0 ⟨0, .fresh 3⟩, .step 0 ⟨0, .storage .done⟩,
    .step 0 ⟨0, .parse (.parsed sampleParsed)⟩, .start 1 (.delete 1 7), .step 1 ⟨0, .quiet⟩,
    .step 1 ⟨0, .quiet⟩, .step 1 ⟨0, .quiet⟩, .step 1 ⟨0, .fresh 4⟩, .step 0 ⟨0, .quiet⟩,
    .step 0 ⟨0, .quiet⟩, .step 0 ⟨0, .fresh 5⟩, .step 0 ⟨0, .quiet⟩]

theorem single_retirement_race : ∃ c,
    (resumeMachine defaultEnv).play (contenders 1) race (.initial oneResume) = some c ∧
      (retirements 1 c.world).map Prod.fst = [1] ∧
      TablesAfter oneResume c.world (retirements 1 c.world) ∧ LosersClean 1 c.world := by
  have hrun : ((resumeMachine defaultEnv).play (contenders 1) race (.initial oneResume)).map
      (fun c => (retirements 1 c.world).map Prod.fst) = some [1] := by decide
  obtain ⟨c, hc, hwinner⟩ := Option.map_eq_some_iff.mp hrun
  have hmain := single_retirement defaultEnv initial_oneResume 1 (Machine.reachable_of_play hc)
  exact ⟨c, hc, hwinner, hmain.2.1, hmain.2.2⟩

end Resumes
end HireAndTech
