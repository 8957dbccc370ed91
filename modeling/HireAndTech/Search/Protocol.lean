import HireAndTech.Interleaving.RelyGuarantee
import HireAndTech.Search.Execution

/-!
# The protocol of the search services

The contract between the calls that create and execute searches: the invariant of
the shared world, the circumstances under which a call issues its commands, and
what the steps of one call leave alone for all others.

Main results:

- Theorem {lit}`exec_coherent`: every command keeps the contract.
- Theorem {lit}`close_coherent`: so does the end of a call.
-/

namespace HireAndTech
namespace Search

open Interleaving

variable {Job : Type}

/-! ## The invariant -/

/-- The status of an uncommitted version is what its call has in its session, or it is
the committed one. -/
def FromSession (w : World) (s : JobSearch) (id : UUID) (v : Version) : Prop :=
  v.search.status = s.status ∨ ∃ v₀, w.committed id = some v₀ ∧ v.search.status = v₀.search.status

/-- The invariant of the shared world. -/
structure Coherent (w : World) : Prop where
  committed_id : ∀ id v, w.committed id = some v → v.search.id = id
  pending_id : ∀ id j v, w.pending id = some (j, v) → v.search.id = id
  owner : ∀ id j v, w.pending id = some (j, v) →
    ∃ s, (w.sessions j).search = some s ∧ s.id = id ∧ FromSession w s id v
  unissued : ∀ id, id ∉ w.issued → w.committed id = none ∧ w.pending id = none

/-- What the steps of call {lit}`i` leave alone. -/
structure Frame (i : CallId) (w w' : World) : Prop where
  search : ∀ j ≠ i, (w'.sessions j).search = (w.sessions j).search
  pending : ∀ j ≠ i, ∀ id v, w'.pending id = some (j, v) ↔ w.pending id = some (j, v)
  committed : ∀ id, (∀ v, w.pending id ≠ some (i, v)) → w'.committed id = w.committed id
  failing : ∀ j ≠ i, ∀ id, (j, id) ∈ w'.failing ↔ (j, id) ∈ w.failing

section

variable {i : CallId} {w w' : World} {id : UUID} {v : Version} {s : JobSearch}

theorem Unchanged.coherent (h : Unchanged w w') (hw : Coherent w) : Coherent w' where
  committed_id := by rw [h.committed]; exact hw.committed_id
  pending_id := by rw [h.pending]; exact hw.pending_id
  owner id j v hp := by
    unfold FromSession
    rw [h.search, h.committed]
    exact hw.owner id j v (h.pending ▸ hp)
  unissued := by rw [h.issued, h.committed, h.pending]; exact hw.unissued

theorem Unchanged.frame (h : Unchanged w w') : Frame i w w' where
  search j _ := h.search j
  pending j _ id v := by rw [h.pending]
  committed id _ := by rw [h.committed]
  failing j _ id := by rw [h.failing]

theorem Frame.trans_unchanged {w'' : World} (h : Frame i w w') (h' : Unchanged w' w'') :
    Frame i w w'' where
  search j hj := (h'.search j).trans (h.search j hj)
  pending j hj id v := by rw [h'.pending]; exact h.pending j hj id v
  committed id hid := by rw [h'.committed]; exact h.committed id hid
  failing j hj id := by rw [h'.failing]; exact h.failing j hj id

theorem Unchanged.trans_frame {w'' : World} (h : Unchanged w w') (h' : Frame i w' w'') :
    Frame i w w'' where
  search j hj := (h'.search j hj).trans (h.search j)
  pending j hj id v := by rw [h'.pending j hj, h.pending]
  committed id hid := by rw [h'.committed id (by rwa [h.pending]), h.committed]
  failing j hj id := by rw [h'.failing j hj, h.failing]

/-! ## Updates of the world -/

/-- What an unlocked call sees, and what it may therefore overwrite. -/
theorem visible_cases (hlocked : w.locked i id = false) (hv : w.visible i id = some v) :
    w.pending id = some (i, v) ∨ (w.pending id = none ∧ w.committed id = some v) := by
  unfold World.visible at hv
  cases hp : w.pending id with
  | none =>
      rw [hp] at hv
      exact Or.inr ⟨rfl, hv⟩
  | some jv =>
      obtain ⟨j, v'⟩ := jv
      have hj : j = i := by simpa [World.locked, hp] using hlocked
      simp only [hp, hj, if_true, Option.some.injEq] at hv
      rw [hj, hv]
      exact Or.inl rfl

theorem visible_id (hw : Coherent w) (hv : w.visible i id = some v) : v.search.id = id := by
  unfold World.visible at hv
  split at hv
  · split at hv
    · cases hv
      exact hw.pending_id _ _ _ ‹_›
    · exact hw.committed_id _ _ hv
  · exact hw.committed_id _ _ hv

theorem pending_write_self (v : Version) : (w.write i id v).pending id = some (i, v) := by
  simp [World.write]

theorem pending_write_of_ne {id' : UUID} (h : id' ≠ id) (v : Version) :
    (w.write i id v).pending id' = w.pending id' := by
  simp [World.write, h]

/-- A write to an unlocked search is invisible to the other calls. -/
theorem frame_write (hfree : ∀ j ≠ i, ∀ v', w.pending id ≠ some (j, v')) (v : Version) :
    Frame i w (w.write i id v) where
  search _ _ := rfl
  pending j hj id' v' := by
    by_cases hid : id' = id
    · subst hid
      rw [pending_write_self]
      constructor
      · rintro ⟨⟩
        exact absurd rfl hj
      · exact fun h => absurd h (hfree j hj v')
    · rw [pending_write_of_ne hid]
  committed _ _ := rfl
  failing _ _ _ := Iff.rfl

theorem not_pending_of_unlocked (hlocked : w.locked i id = false) :
    ∀ j ≠ i, ∀ v', w.pending id ≠ some (j, v') := by
  intro j hj v' hp
  have hji : j = i := by simpa [World.locked, hp] using hlocked
  exact hj hji

theorem frame_hold (s : JobSearch) : Frame i w (w.onSession i (Session.hold · s)) where
  search j hj := by simp [World.onSession, hj]
  pending _ _ _ _ := Iff.rfl
  committed _ _ := rfl
  failing _ _ _ := Iff.rfl

theorem search_hold (s : JobSearch) :
    ((w.onSession i (Session.hold · s)).sessions i).search = some s := by
  simp [World.onSession, Session.hold]

/-- A write of call {lit}`i`, after which its session holds {lit}`s`. -/
theorem Coherent.write (hw : Coherent w) (hv : v.search.id = id) (hs : s.id = id)
    (horigin : FromSession w s id v) (hissued : id ∈ w.issued)
    (hfree : ∀ j ≠ i, ∀ v', w.pending id ≠ some (j, v'))
    (hown : ∀ id' v', w.pending id' = some (i, v') → id' = id) :
    Coherent ((w.write i id v).onSession i (Session.hold · s)) where
  committed_id := hw.committed_id
  pending_id := by
    intro id' j v' hp
    by_cases hid : id' = id
    · subst hid
      cases (pending_write_self v).symm.trans hp
      exact hv
    · exact hw.pending_id id' j v' ((pending_write_of_ne hid v).symm.trans hp)
  owner := by
    intro id' j v' hp
    by_cases hid : id' = id
    · subst hid
      cases (pending_write_self v).symm.trans hp
      exact ⟨s, search_hold s, hs, horigin⟩
    · have hp' : w.pending id' = some (j, v') := (pending_write_of_ne hid v).symm.trans hp
      have hj : j ≠ i := by
        rintro rfl
        exact hid (hown id' v' hp')
      obtain ⟨s', hs', hrest⟩ := hw.owner id' j v' hp'
      exact ⟨s', ((frame_hold s).search j hj).trans hs', hrest⟩
  unissued := by
    intro id' hid'
    have hne : id' ≠ id := fun h => hid' (h ▸ hissued)
    refine ⟨(hw.unissued id' hid').1, ?_⟩
    exact (pending_write_of_ne hne v).trans (hw.unissued id' hid').2

/-- A call that writes a search holds no other one. -/
theorem Coherent.own_pending (hw : Coherent w) (hs : (w.sessions i).search = some s) :
    ∀ id' v', w.pending id' = some (i, v') → id' = s.id := by
  intro id' v' hp
  obtain ⟨s', hs', hid, _⟩ := hw.owner id' i v' hp
  rw [hs] at hs'
  cases hs'
  exact hid.symm

theorem Coherent.issued (hw : Coherent w) (hv : w.visible i id = some v) : id ∈ w.issued := by
  by_contra hid
  obtain ⟨hc, hp⟩ := hw.unissued id hid
  simp [World.visible, hp, hc] at hv

theorem pending_discard {j : CallId} :
    (w.discard i).pending id = some (j, v) ↔ w.pending id = some (j, v) ∧ j ≠ i := by
  simp only [World.discard, Option.filter_eq_some_iff, decide_eq_true_eq]

theorem frame_discard : Frame i w (w.discard i) where
  search _ _ := rfl
  pending j hj id v := by simp [pending_discard, hj]
  committed _ _ := rfl
  failing _ _ _ := Iff.rfl

theorem Coherent.discard (hw : Coherent w) : Coherent (w.discard i) where
  committed_id := hw.committed_id
  pending_id id j v hp := hw.pending_id id j v (pending_discard.mp hp).1
  owner id j v hp := hw.owner id j v (pending_discard.mp hp).1
  unissued := by
    intro id hid
    refine ⟨(hw.unissued id hid).1, ?_⟩
    simp [World.discard, (hw.unissued id hid).2]

/-- What a commit of call {lit}`i` does. -/
theorem commit_cases (w : World) (i : CallId) (id : UUID) :
    (∃ v, w.pending id = some (i, v) ∧ w.commit i id = w.persist i id v) ∨
      ((∀ v, w.pending id ≠ some (i, v)) ∧ w.commit i id = w.recover i) := by
  unfold World.commit
  split
  · rename_i j v hp
    split
    · rename_i hj
      subst hj
      exact Or.inl ⟨v, hp, rfl⟩
    · rename_i hj
      refine Or.inr ⟨fun v' hp' => ?_, rfl⟩
      cases hp.symm.trans hp'
      exact hj rfl
  · rename_i hp
    exact Or.inr ⟨by simp [hp], rfl⟩

theorem mem_recover {j : CallId} :
    (j, id) ∈ (w.recover i).failing ↔ (j, id) ∈ w.failing ∧ j ≠ i := by
  simp [World.recover]

theorem frame_recover : Frame i w (w.recover i) where
  search _ _ := rfl
  pending _ _ _ _ := Iff.rfl
  committed _ _ := rfl
  failing j hj id := by simp [mem_recover, hj]

theorem Coherent.recover (hw : Coherent w) : Coherent (w.recover i) :=
  ⟨hw.committed_id, hw.pending_id, hw.owner, hw.unissued⟩

theorem committed_persist_of_ne {id' : UUID} (h : id' ≠ id) :
    (w.persist i id v).committed id' = w.committed id' :=
  Function.update_of_ne h _ _

theorem frame_persist (hp : w.pending id = some (i, v)) : Frame i w (w.persist i id v) where
  search _ _ := rfl
  pending j hj := frame_discard.pending j hj
  committed id' hid' := by
    refine committed_persist_of_ne ?_
    rintro rfl
    exact hid' v hp
  failing j hj id' := frame_recover.failing j hj id'

theorem Coherent.persist (hw : Coherent w) (hp : w.pending id = some (i, v)) :
    Coherent (w.persist i id v) where
  committed_id id' v' hc := by
    by_cases hid : id' = id
    · subst hid
      cases (Function.update_self _ _ _).symm.trans hc
      exact hw.pending_id _ _ _ hp
    · exact hw.committed_id id' v' ((committed_persist_of_ne hid).symm.trans hc)
  pending_id id' j v' hp' := hw.discard.pending_id id' j v' hp'
  owner id' j v' hp' := by
    obtain ⟨hpending, hj⟩ := pending_discard.mp hp'
    have hid : id' ≠ id := by
      rintro rfl
      cases hp.symm.trans hpending
      exact hj rfl
    obtain ⟨s, hs, hsid, horigin⟩ := hw.owner id' j v' hpending
    refine ⟨s, hs, hsid, ?_⟩
    unfold FromSession
    rwa [committed_persist_of_ne hid]
  unissued id' hid' := by
    have hid : id' ≠ id := by
      rintro rfl
      rw [(hw.unissued id' hid').2] at hp
      contradiction
    exact ⟨(committed_persist_of_ne hid).trans (hw.unissued id' hid').1,
      (hw.discard.unissued id' hid').2⟩

theorem frame_commit : Frame i w (w.commit i id) := by
  rcases commit_cases w i id with ⟨v, hp, heq⟩ | ⟨_, heq⟩ <;> rw [heq]
  · exact frame_persist hp
  · exact frame_recover

theorem Coherent.commit (hw : Coherent w) : Coherent (w.commit i id) := by
  rcases commit_cases w i id with ⟨v, hp, heq⟩ | ⟨_, heq⟩ <;> rw [heq]
  · exact hw.persist hp
  · exact hw.recover

theorem frame_fail : Frame i w (w.fail i id) where
  search _ _ := rfl
  pending _ _ _ _ := Iff.rfl
  committed _ _ := rfl
  failing j hj id' := by simp [World.fail, hj]

theorem Coherent.fail (hw : Coherent w) : Coherent (w.fail i id) :=
  ⟨hw.committed_id, hw.pending_id, hw.owner, hw.unissued⟩

end

/-! ## The contract -/

/-- A commit of call {lit}`i` completes the search, ends the handling of a failure, or
creates the search. -/
def Commits (i : CallId) (w : World) (search : JobSearch) : Prop :=
  search.status = .completed ∨ (i, search.id) ∈ w.failing ∨ w.committed search.id = none

/-- The circumstances of every command. -/
def Issues (i : CallId) (w : World) {β : Type} : Cmd Job β → Prop
  | .createSearch _ | .getSearchForWorker _ => ∀ id v, w.pending id ≠ some (i, v)
  | .flush search => ∃ s, (w.sessions i).search = some s ∧ s.id = search.id
  | .clearResults id | .saveResults id _ => ∃ s, (w.sessions i).search = some s ∧ s.id = id
  | .commit search => (w.sessions i).search = some search ∧ Commits i w search
  | _ => True

/-- The contract of the search services. -/
def searchContract (Job : Type) : Contract World (Cmd Job) Request where
  Inv := Coherent
  Issues i _ w cmd := Issues i w cmd
  Guar i _ := Frame i

section

variable {i : CallId} {w w' : World} {β : Type} {cmd : Cmd Job β} {b : β} {ch : Choice Job}

theorem results_coherent {id : UUID} (hcmd : cmd.resultsOf = some id) (hw : Coherent w)
    (hissues : ∃ s, (w.sessions i).search = some s ∧ s.id = id)
    (he : exec i cmd ch w = some (b, w')) : Coherent w' ∧ Frame i w w' := by
  obtain ⟨s, hs, rfl⟩ := hissues
  obtain ⟨w₁, hu₁, hrest⟩ := exec_results hcmd he
  have hw₁ := hu₁.coherent hw
  replace hs := (hu₁.search i).trans hs
  rcases hrest with hu | ⟨v, rs, hlocked, hv, hu⟩
  · exact ⟨hu.coherent hw₁, hu₁.frame.trans_unchanged hu⟩
  · have hfree := not_pending_of_unlocked hlocked
    have hvid : v.search.id = s.id := visible_id hw₁ hv
    have horigin : FromSession w₁ s s.id { v with results := rs } := by
      rcases visible_cases hlocked hv with hp | ⟨_, hc⟩
      · obtain ⟨s', hs', _, horigin⟩ := hw₁.owner _ _ _ hp
        cases hs.symm.trans hs'
        exact horigin
      · exact Or.inr ⟨v, hc, rfl⟩
    have hwrite := hw₁.write (v := { v with results := rs }) hvid rfl horigin
      (hw₁.issued hv) hfree (hw₁.own_pending hs)
    -- the session holds the instance already
    have hsame : ∀ w₂ : World, w₂.sessions = w₁.sessions →
        Unchanged (w₂.onSession i (Session.hold · s)) w₂ := by
      intro w₂ hsessions
      refine ⟨rfl, rfl, fun j => ?_, rfl, rfl, rfl⟩
      by_cases hj : j = i
      · subst hj
        rw [search_hold, hsessions, hs]
      · exact ((frame_hold s).search j hj).symm
    exact ⟨hu.coherent ((hsame (w₁.write i s.id { v with results := rs }) rfl).coherent hwrite),
      hu₁.trans_frame ((frame_write hfree _).trans_unchanged hu)⟩

theorem flush_coherent {assigned : JobSearch} {b : Attempt Unit} (hw : Coherent w)
    (hissues : ∃ s, (w.sessions i).search = some s ∧ s.id = assigned.id)
    (he : exec i (.flush assigned : Cmd Job _) ch w = some (b, w')) :
    Coherent w' ∧ Frame i w w' := by
  rcases exec_flush he with ⟨_, hu⟩ | ⟨_, hu, _⟩ | ⟨s, v, w₁, _, hs, hlocked, hv, hu, rfl⟩
  · exact ⟨hu.coherent hw, hu.frame⟩
  · exact ⟨hu.coherent hw, hu.frame⟩
  · obtain ⟨s', hs', hid⟩ := hissues
    cases hs.symm.trans hs'
    have hw₁ := hu.coherent hw
    have hfree := not_pending_of_unlocked hlocked
    rw [← hu.pending] at hfree
    have hvid : v.search.id = s.id := visible_id hw hv
    have horigin : FromSession w₁ assigned s.id
        { v with search := s.flush assigned v.search } := by
      unfold FromSession JobSearch.flush Relational.flushed
      simp only
      split
      · rename_i hsame
        rw [hsame, hu.committed]
        rcases visible_cases hlocked hv with hp | ⟨_, hc⟩
        · obtain ⟨s', hs', _, horigin⟩ := hw.owner _ _ _ hp
          cases hs.symm.trans hs'
          exact horigin
        · exact Or.inr ⟨v, hc, rfl⟩
      · exact Or.inl rfl
    refine ⟨hw₁.write hvid hid.symm horigin (hu.issued ▸ hw.issued hv) hfree
      (hw₁.own_pending ((hu.search i).trans hs)), ?_⟩
    exact hu.trans_frame ⟨(frame_hold assigned).search,
      (frame_write hfree _).pending, fun _ _ => rfl, fun _ _ _ => Iff.rfl⟩

theorem createSearch_coherent {search : JobSearch} {b : Attempt JobSearch} (hw : Coherent w)
    (hissues : ∀ id v, w.pending id ≠ some (i, v))
    (he : exec i (.createSearch search : Cmd Job _) ch w = some (b, w')) :
    Coherent w' ∧ Frame i w w' := by
  rcases exec_createSearch he with ⟨_, hu⟩ | ⟨id, w₁, hid, _, hu, rfl⟩
  · exact ⟨hu.coherent hw, hu.frame⟩
  · have hw₁ := hu.coherent hw
    have hnone : w₁.pending id = none := hu.pending ▸ (hw.unissued id hid).2
    have hfree : ∀ j ≠ i, ∀ v', w₁.pending id ≠ some (j, v') := by simp [hnone]
    have hw₂ : Coherent { w₁ with issued := id :: w₁.issued } :=
      ⟨hw₁.committed_id, hw₁.pending_id, hw₁.owner, fun id' hid' =>
        hw₁.unissued id' fun h => hid' (List.mem_cons_of_mem _ h)⟩
    refine ⟨hw₂.write rfl rfl (Or.inl rfl) List.mem_cons_self hfree fun id' v' hp =>
      absurd (hu.pending ▸ hp) (hissues id' v'), ?_⟩
    exact hu.trans_frame ⟨(frame_hold _).search, (frame_write hfree _).pending, fun _ _ => rfl,
      fun _ _ _ => Iff.rfl⟩

theorem getSearchForWorker_coherent {id : UUID} {b : Attempt (Option JobSearch)}
    (hw : Coherent w) (hissues : ∀ id v, w.pending id ≠ some (i, v))
    (he : exec i (.getSearchForWorker id : Cmd Job _) ch w = some (b, w')) :
    Coherent w' ∧ Frame i w w' := by
  rcases exec_getSearchForWorker he with ⟨_, hu⟩ | ⟨_, hu⟩ | ⟨v, w₁, _, _, hu, rfl⟩
  · exact ⟨hu.coherent hw, hu.frame⟩
  · exact ⟨hu.coherent hw, hu.frame⟩
  · have hw₁ := hu.coherent hw
    refine ⟨⟨hw₁.committed_id, hw₁.pending_id, fun id j v hp => ?_, hw₁.unissued⟩,
      hu.trans_frame (frame_hold _)⟩
    have hj : j ≠ i := by
      rintro rfl
      exact hissues id v (hu.pending ▸ hp)
    obtain ⟨s, hs, hrest⟩ := hw₁.owner id j v hp
    exact ⟨s, ((frame_hold _).search j hj).trans hs, hrest⟩

/-- Every command keeps the contract. -/
theorem exec_coherent (hw : Coherent w) (hissues : Issues i w cmd)
    (he : exec i cmd ch w = some (b, w')) : Coherent w' ∧ Frame i w w' := by
  cases cmd with
  | createSearch search => exact createSearch_coherent hw hissues he
  | getSearchForWorker id => exact getSearchForWorker_coherent hw hissues he
  | flush search => exact flush_coherent hw hissues he
  | commit search =>
      rcases exec_commit he with ⟨_, hu⟩ | ⟨w₁, _, hu, hu'⟩
      · exact ⟨hu.coherent hw, hu.frame⟩
      · exact ⟨hu'.coherent (hu.coherent hw).commit,
          (hu.trans_frame frame_commit).trans_unchanged hu'⟩
  | rollback =>
      rcases exec_rollback he with ⟨_, hu⟩ | ⟨w₁, hu, hu'⟩
      · exact ⟨hu.coherent hw, hu.frame⟩
      · exact ⟨hu'.coherent (hu.coherent hw).discard,
          (hu.trans_frame frame_discard).trans_unchanged hu'⟩
  | logException event id =>
      rcases exec_logException he with ⟨_, hu⟩ | ⟨w₁, _, _, hu, hu'⟩
      · exact ⟨hu.coherent hw, hu.frame⟩
      · exact ⟨hu'.coherent (hu.coherent hw).fail, (hu.trans_frame frame_fail).trans_unchanged hu'⟩
  | getLatestOwned id owner =>
      rcases exec_getLatestOwned he with ⟨_, hu⟩ | ⟨w₁, _, _, hu, hu'⟩
      · exact ⟨hu.coherent hw, hu.frame⟩
      · exact ⟨hu'.coherent (hu.coherent hw).fail, (hu.trans_frame frame_fail).trans_unchanged hu'⟩
  | clearResults id => exact results_coherent rfl hw hissues he
  | saveResults id results => exact results_coherent rfl hw hissues he
  | _ =>
      have hu := exec_quiet rfl he
      exact ⟨hu.coherent hw, hu.frame⟩

/-- The end of a call keeps the contract. -/
theorem close_coherent (hw : Coherent w) : Coherent (w.close i) ∧ Frame i w (w.close i) := by
  have hclosed : ∀ j ≠ i, (w.close i).sessions j = w.sessions j := fun j hj => by
    simp [World.close, World.recover, World.discard, hj]
  have hd := hw.discard (i := i)
  refine ⟨⟨hd.committed_id, hd.pending_id, fun id j v hp => ?_, hd.unissued⟩, ?_⟩
  · obtain ⟨s, hs, hrest⟩ := hd.owner id j v hp
    exact ⟨s, (congrArg _ (hclosed j (pending_discard.mp hp).2)).trans hs, hrest⟩
  · exact ⟨fun j hj => congrArg _ (hclosed j hj), frame_discard.pending, fun _ _ => rfl,
      frame_recover.failing⟩

end

end Search
end HireAndTech
