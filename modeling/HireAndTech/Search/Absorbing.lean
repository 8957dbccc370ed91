import HireAndTech.Search.Protocol

/-!
# The completed status of a search

An execution that finds its search in a terminal status skips it.  What it does
after that is not guarded again: the failure handler of an execution, its branch
for a user without a profile and the failure branch of `start_search` set the
status to {lit}`FAILED` whatever has been committed in the meantime.

Main results:

- Theorem {lit}`completed_absorbing`: as long as no failure is handled while the
  search is completed, no commit takes a search out of {lit}`COMPLETED`.
- Theorem {lit}`completed_overwritten`: a failure that is handled late does.
-/

namespace HireAndTech
namespace Search

open Interleaving Prog
open Resumes (CandidateProfile)

variable {Job : Type} {env : Env Job} {i : CallId} {r : Request}

/-! ## Assertions of a call -/

/-- Call {lit}`i` has written no search since its last commit or rollback. -/
def NoPending (i : CallId) (w : World) : Prop :=
  ∀ id v, w.pending id ≠ some (i, v)

/-- Call {lit}`i` handles a failure of the search, or is about to create it. -/
def Allowed (i : CallId) (id : UUID) (w : World) : Prop :=
  (i, id) ∈ w.failing ∨ ((∃ v, w.pending id = some (i, v)) ∧ w.committed id = none)

/-- The session of call {lit}`i` holds {lit}`s`, and if {lit}`φ` then the call is
allowed to commit it with any status. -/
def At (i : CallId) (s : JobSearch) (φ : Prop) (w : World) : Prop :=
  (w.sessions i).search = some s ∧ (φ → Allowed i s.id w)

theorem NoPending.stable : (searchContract Job).Stable i (NoPending i) :=
  fun _ _ hj _ _ _ _ hf h id v hp => h id v ((hf.pending i hj.symm id v).mp hp)

theorem NoPending.unchanged {w w' : World} (hu : Unchanged w w') (h : NoPending i w) :
    NoPending i w' := by
  unfold NoPending
  rw [hu.pending]
  exact h

theorem Allowed.stable {id : UUID} : (searchContract Job).Stable i (Allowed i id) := by
  rintro j r hj w w' _ _ hf (hfailing | ⟨⟨v, hp⟩, hc⟩)
  · exact Or.inl ((hf.failing i hj.symm id).mpr hfailing)
  · refine Or.inr ⟨⟨v, (hf.pending i hj.symm id v).mpr hp⟩, ?_⟩
    rw [hf.committed id, hc]
    intro v' hp'
    rw [hp] at hp'
    exact hj (Prod.mk.inj (Option.some.inj hp')).1.symm

theorem Allowed.unchanged {w w' : World} {id : UUID} (hu : Unchanged w w')
    (h : Allowed i id w) : Allowed i id w' := by
  unfold Allowed
  rw [hu.failing, hu.pending, hu.committed]
  exact h

theorem At.stable {s : JobSearch} {φ : Prop} : (searchContract Job).Stable i (At i s φ) :=
  fun j r hj w w' hw hw' hf h =>
    ⟨(hf.search i hj.symm).trans h.1, fun hφ => Allowed.stable j r hj w w' hw hw' hf (h.2 hφ)⟩

theorem At.unchanged {w w' : World} {s : JobSearch} {φ : Prop} (hu : Unchanged w w')
    (h : At i s φ w) : At i s φ w' :=
  ⟨(hu.search i).trans h.1, fun hφ => (h.2 hφ).unchanged hu⟩

theorem At.weaken {w : World} {s : JobSearch} {φ : Prop} (h : At i s φ w) : At i s False w :=
  ⟨h.1, False.elim⟩

theorem true_stable : (searchContract Job).Stable i fun _ => True :=
  (searchContract Job).stable_const True

/-! ## Commands -/

/-- The obligation of a block of call {lit}`i`: what holds when it ends, and when an
exception leaves it. -/
abbrev Walk (env : Env Job) (i : CallId) (r : Request) {α : Type} (p : Action Job α)
    (P : World → Prop) (Q : α → World → Prop) (E : World → Prop := fun _ => True) : Prop :=
  Valid (searchMachine env) .any (searchContract Job) i r p.run P (Ends Q fun _ => E)

/-- A block that runs from its precondition, whatever holds at its end. -/
theorem Walk.end {α : Type} {p : Action Job α} {P E : World → Prop} {Q : α → World → Prop}
    (h : Walk env i r p P Q E) : Walk env i r p P fun _ _ => True :=
  h.post fun
    | .ok _ => fun _ _ _ => trivial
    | .error _ => fun _ _ _ => trivial

/-- A block of which nothing is asked when an exception leaves it. -/
theorem Walk.noRaise {α : Type} {p : Action Job α} {P E : World → Prop} {Q : α → World → Prop}
    (h : Walk env i r p P Q E) : Walk env i r p P Q :=
  h.post fun
    | .ok _ => fun _ _ => id
    | .error _ => fun _ _ _ => trivial

theorem issues_of_isQuiet {β : Type} {cmd : Cmd Job β} (hq : cmd.isQuiet = true) (w : World) :
    Issues i w cmd := by
  cases cmd <;> trivial

theorem issues_of_resultsOf {β : Type} {cmd : Cmd Job β} {s : JobSearch} {w : World}
    (hcmd : cmd.resultsOf = some s.id) (hs : (w.sessions i).search = some s) :
    Issues i w cmd := by
  cases cmd <;> cases hcmd <;> exact ⟨s, hs, rfl⟩

/-- A quiet command keeps every stable assertion about searches. -/
theorem valid_quiet {β : Type} {cmd : Cmd Job β} {P : World → Prop} (hq : cmd.isQuiet = true)
    (hst : (searchContract Job).Stable i P) (hP : ∀ w w', Unchanged w w' → P w → P w') :
    Valid (searchMachine env) .any (searchContract Job) i r (perform cmd) P fun _ => P :=
  .cmd hst (fun w _ _ => issues_of_isQuiet hq w) fun _ _ _ _ _ _ _ h _ he =>
    hP _ _ (exec_quiet hq he) h

theorem walk_clock {s : JobSearch} {φ : Prop} :
    Walk env i r (ExceptT.lift (perform .clock)) (At i s φ) fun _ => At i s φ :=
  (valid_quiet rfl At.stable fun _ _ => At.unchanged).except_lift

theorem walk_quiet {s : JobSearch} {φ : Prop} {α : Type} {cmd : Cmd Job (Attempt α)}
    (hq : cmd.isQuiet = true) :
    Walk env i r (attempt cmd) (At i s φ) (fun _ => At i s φ) (At i s φ) :=
  (valid_quiet hq At.stable fun _ _ => At.unchanged).post fun
    | .ok _ => fun _ _ => id
    | .error _ => fun _ _ => id

/-- A flush of call {lit}`i` leaves it allowed to do what it was allowed to do. -/
theorem walk_flush {s assigned : JobSearch} {φ : Prop} (hid : assigned.id = s.id) :
    Walk env i r (attempt (.flush assigned)) (At i s φ) fun _ => At i assigned φ := by
  refine .cmd At.stable (fun w _ h => ⟨s, h.1, hid.symm⟩) fun b w w' ch _ _ _ h _ he => ?_
  rcases exec_flush he with ⟨rfl, _⟩ | ⟨rfl, hu, hs⟩ | ⟨loaded, v, w₁, rfl, hs, _, _, hu, rfl⟩
  · trivial
  · cases h.1.symm.trans hs
    exact h.unchanged hu
  · cases h.1.symm.trans hs
    refine ⟨search_hold assigned, fun hφ => ?_⟩
    rw [hid]
    rcases (h.2 hφ).unchanged hu with hfailing | ⟨_, hc⟩
    · exact Or.inl hfailing
    · exact Or.inr ⟨⟨_, pending_write_self _⟩, hc⟩

/-- A commit is in order when it completes the search or is allowed. -/
theorem walk_commit {s search : JobSearch} {φ : Prop} (hid : search.id = s.id)
    (h : search.status = .completed ∨ φ) :
    Walk env i r (commit search) (At i s φ) fun _ => At i search False := by
  refine .except_bind (walk_flush hid) fun _ => ?_
  refine .cmd At.stable (fun w _ hat => ⟨hat.1, ?_⟩) fun b w w' ch _ _ hf hat _ he => ?_
  · rcases h with hstatus | hφ
    · exact Or.inl hstatus
    · exact Or.inr ((hat.2 hφ).imp_right And.right)
  · rcases exec_commit he with ⟨rfl, _⟩ | ⟨w₁, _, hu, hu'⟩
    · trivial
    · have hsearch : (w'.sessions i).search = some search := by
        rw [hu'.search]
        rcases commit_cases w₁ i search.id with ⟨v, _, heq⟩ | ⟨_, heq⟩ <;> rw [heq] <;>
          exact (hu.search i).trans hat.1
      cases b with
      | ok _ => exact ⟨hsearch, False.elim⟩
      | error _ => trivial

theorem walk_lastCommit {s search : JobSearch} {φ : Prop} (hid : search.id = s.id)
    (h : search.status = .completed ∨ φ) :
    Walk env i r (commit search) (At i s φ) fun _ _ => True :=
  (walk_commit hid h).end

theorem walk_results {s : JobSearch} {cmd : Cmd Job (Attempt Unit)}
    (hcmd : cmd.resultsOf = some s.id) :
    Walk env i r (attempt cmd) (At i s False) fun _ => At i s False := by
  refine .cmd At.stable (fun w _ h => issues_of_resultsOf hcmd h.1)
    fun b w w' ch _ _ _ h _ he => ?_
  obtain ⟨w₁, hu₁, hrest⟩ := exec_results hcmd he
  have hat : At i s False w' := by
    rcases hrest with hu | ⟨v, rs, _, _, hu⟩ <;>
      exact ⟨(hu.search i).trans ((hu₁.search i).trans h.1), False.elim⟩
  cases b with
  | ok _ => exact hat
  | error _ => trivial

/-- A handler that has logged the exception is allowed to fail the search. -/
theorem walk_logException {s : JobSearch} {event : String} :
    Walk env i r (attempt (.logException event s.id)) (At i s False) fun _ => At i s True := by
  refine .cmd At.stable (fun _ _ _ => trivial) fun b w w' ch _ _ _ h _ he => ?_
  rcases exec_logException he with ⟨rfl, _⟩ | ⟨w₁, rfl, _, hu, hu'⟩
  · trivial
  · have hfailing : Allowed i s.id (w₁.fail i s.id) := Or.inl (by simp [World.fail])
    exact ⟨(hu'.search i).trans ((hu.search i).trans h.1), fun _ => hfailing.unchanged hu'⟩

/-- A call that finds no profile is allowed to fail the search. -/
theorem walk_getLatestOwned {s : JobSearch} {owner : UUID} :
    Walk env i r (attempt (.getLatestOwned s.id owner)) (At i s False)
      fun profile => At i s (profile = none) := by
  refine .cmd At.stable (fun _ _ _ => trivial) fun b w w' ch _ _ _ h _ he => ?_
  rcases exec_getLatestOwned he with ⟨hb, hu⟩ | ⟨w₁, rfl, _, hu, hu'⟩
  · cases b with
    | ok profile => exact ⟨(hu.search i).trans h.1, fun hnone => absurd (congrArg _ hnone) hb⟩
    | error _ => trivial
  · have hfailing : Allowed i s.id (w₁.fail i s.id) := Or.inl (by simp [World.fail])
    exact ⟨(hu'.search i).trans ((hu.search i).trans h.1), fun _ => hfailing.unchanged hu'⟩

/-- A query finds the search that it asks for. -/
theorem walk_getSearchForWorker {id : UUID} :
    Walk env i r (attempt (.getSearchForWorker id)) (NoPending i)
      fun found w => ∀ s, found = some s → s.id = id ∧ At i s False w := by
  refine .cmd NoPending.stable (fun _ _ h => h) fun b w w' ch hw _ _ h _ he => ?_
  rcases exec_getSearchForWorker he with ⟨rfl, _⟩ | ⟨rfl, _⟩ | ⟨v, w₁, hv, rfl, _, rfl⟩
  · trivial
  · exact fun _ hnone => nomatch hnone
  · rintro s ⟨⟩
    refine ⟨?_, search_hold _, False.elim⟩
    have hid := visible_id hw hv
    unfold Session.load
    split
    · split
      · exact hid
      · rename_i hsame
        simp only [Bool.or_eq_true, decide_eq_true_eq, not_or, ne_eq, not_not] at hsame
        exact hsame.2.trans hid
    · exact hid

theorem walk_createSearch {search : JobSearch} :
    Walk env i r (attempt (.createSearch search)) (NoPending i) fun s => At i s True := by
  refine .cmd NoPending.stable (fun _ _ h => h) fun b w w' ch hw _ _ h _ he => ?_
  rcases exec_createSearch he with ⟨rfl, _⟩ | ⟨id, w₁, hid, rfl, hu, rfl⟩
  · trivial
  · refine ⟨search_hold _, fun _ => Or.inr ⟨⟨_, pending_write_self _⟩, ?_⟩⟩
    exact (congrFun hu.committed id).trans (hw.unissued id hid).1

theorem walk_rollback : Walk env i r (attempt .rollback) (fun _ => True) fun _ => NoPending i := by
  refine .cmd true_stable (fun _ _ _ => trivial) fun b w w' ch _ _ _ _ _ he => ?_
  rcases exec_rollback he with ⟨rfl, _⟩ | ⟨w₁, _, hu⟩
  · trivial
  · have hnone : NoPending i (w₁.discard i) := fun id v hp => (pending_discard.mp hp).2 rfl
    cases b with
    | ok _ => exact hnone.unchanged hu
    | error _ => trivial

/-! ## Programs -/

theorem walk_failWithoutProfile {s : JobSearch} :
    Walk env i r (failWithoutProfile s) (At i s True) fun _ _ => True :=
  .except_bind walk_clock fun _ => walk_lastCommit rfl (Or.inr trivial)

theorem walk_saveResults {s : JobSearch} {results : List JobSearchResult} :
    Walk env i r (saveResults s.id results) (At i s False) fun _ => At i s False := by
  unfold saveResults
  split
  · exact .except_ret fun _ _ => id
  · exact walk_results rfl

theorem walk_rankAndSave {s : JobSearch} {profile : CandidateProfile} {startedAt : Time} :
    Walk env i r (rankAndSave env s profile startedAt) (At i s False) fun _ _ => True := by
  refine .except_bind (walk_flush rfl) fun _ => ?_
  refine .except_bind (walk_quiet rfl).noRaise fun jobs => ?_
  refine .except_bind (walk_flush rfl) fun _ => ?_
  refine .except_bind (walk_flush rfl) fun _ => ?_
  refine .except_bind (walk_flush rfl) fun _ => ?_
  refine .except_bind (walk_flush rfl) fun _ => ?_
  refine .except_bind (walk_results rfl) fun _ => ?_
  refine .except_bind walk_saveResults fun _ => ?_
  refine .except_bind walk_clock fun _ => ?_
  refine .except_bind (walk_commit rfl (Or.inl rfl)) fun _ => ?_
  exact (walk_quiet rfl).end

theorem walk_tryExecute {s : JobSearch} {startedAt : Time} :
    Walk env i r (tryExecute env s startedAt) (At i s False) fun _ _ => True := by
  refine .except_bind walk_getLatestOwned fun profile => ?_
  cases profile with
  | none => exact walk_failWithoutProfile.pre fun _ _ h => ⟨h.1, fun _ => h.2 rfl⟩
  | some profile => exact walk_rankAndSave.pre fun _ _ => At.weaken

theorem walk_handleFailure {searchId : UUID} :
    Walk env i r (handleFailure searchId) (fun _ => True) fun _ _ => True := by
  refine .except_bind walk_rollback fun _ => ?_
  refine .except_bind walk_getSearchForWorker fun found => ?_
  cases found with
  | none => exact .except_ret fun _ _ _ => trivial
  | some s =>
      refine (Valid.assume fun hid => ?_).pre fun _ _ h => h s rfl
      subst hid
      refine .except_bind walk_logException fun _ => ?_
      exact .except_bind walk_clock fun _ => walk_lastCommit rfl (Or.inr trivial)

theorem walk_execute {searchId : UUID} :
    Walk env i r (execute env searchId) (NoPending i) fun _ _ => True := by
  refine .except_bind walk_getSearchForWorker fun found => ?_
  cases found with
  | none => exact .except_ret fun _ _ _ => trivial
  | some s =>
      refine (Valid.assume fun _ => ?_).pre fun _ _ h => h s rfl
      by_cases hterminal : s.status = .completed ∨ s.status = .failed
      · simp only [if_pos hterminal]
        exact .except_ret fun _ _ _ => trivial
      · simp only [if_neg hterminal]
        refine .except_bind walk_clock fun _ => ?_
        refine .except_bind (walk_flush rfl) fun _ => ?_
        exact .except_tryCatch walk_tryExecute fun _ => walk_handleFailure

theorem walk_failQueue {s : JobSearch} :
    Walk env i r (failQueue s) (At i s False) fun _ _ => True := by
  refine .except_bind walk_logException fun _ => ?_
  refine .except_bind (walk_commit rfl (Or.inr trivial)) fun _ => ?_
  exact .except_throw fun _ _ _ => trivial

theorem walk_startSearch {userId : UUID} {request : AsyncSearchRequest} :
    Walk env i r (startSearch userId request) (NoPending i) fun _ _ => True := by
  refine .except_bind walk_createSearch fun s => ?_
  refine .except_bind (walk_commit rfl (Or.inr trivial)) fun _ => ?_
  refine .except_bind (Q := fun _ _ => True) (.except_tryCatch ?_ fun _ => walk_failQueue)
    fun _ => .except_ret fun _ _ _ => trivial
  have henqueue : Walk env i r (enqueue s.id) (At i s False) (fun _ => At i s False)
      (At i s False) := .except_bind (walk_quiet rfl) fun _ => walk_quiet rfl
  exact henqueue.post fun
    | .ok _ => fun _ _ _ => trivial
    | .error _ => fun _ _ => id

theorem walk_serve : Walk env i r (serve env r) (NoPending i) fun _ _ => True := by
  cases r with
  | startSearch userId request =>
      exact .except_bind walk_startSearch fun _ => .except_ret fun _ _ => id
  | runJobSearch searchId =>
      refine .except_bind (.except_bind (Valid.except_lift (valid_quiet rfl NoPending.stable
        fun _ _ => NoPending.unchanged)) fun _ => walk_execute) fun _ => ?_
      exact .except_ret fun _ _ => id

/-- A world in which no search exists yet. -/
structure Initial (w : World) : Prop where
  committed : ∀ id, w.committed id = none
  pending : ∀ id, w.pending id = none
  failing : w.failing = []
  log : w.log = []

/-- The contract of the search services is sound for all runs. -/
theorem searchSound (env : Env Job) {w₀ : World} (h : Initial w₀) :
    Sound (searchMachine env) .any (searchContract Job) w₀ NoPending fun _ _ _ _ => True where
  init := ⟨by simp [h.committed], by simp [h.pending], by simp [h.pending],
    fun id _ => ⟨h.committed id, h.pending id⟩⟩
  pre_init _ _ _ := by simp [h.pending]
  pre_stable _ := NoPending.stable
  post_stable _ _ _ := true_stable
  exec _ _ _ _ _ _ _ _ _ hw hissues _ he := exec_coherent hw hissues he
  close _ _ _ _ hw := close_coherent hw
  refl _ _ _ _ _ := ⟨fun _ _ => rfl, fun _ _ _ _ => Iff.rfl, fun _ _ => rfl, fun _ _ _ => Iff.rfl⟩
  valid i r _ := walk_serve.post fun
    | .ok _ => fun _ _ _ => trivial
    | .error _ => fun _ _ _ => trivial

/-! ## The property and its condition -/

/-- Once a search has been committed as completed, every later commit leaves it so. -/
def Absorbing (w : World) : Prop :=
  ∀ id, (w.statuses id).Pairwise fun a b => a = .completed → b = .completed

/-- A failure is handled while the search is completed, or the search is completed while
a failure is being handled.  The failures that are handled are an exception in the
`try` block of {lit}`execute`, a user without a profile, and an exception when
the task is enqueued. -/
def handledLate {β : Type} (w : World) (cmd : Cmd Job β) (ch : Choice Job) : Bool :=
  match cmd with
  | .logException _ id =>
      match ch.outcome with
      | .quiet => w.isCompleted id
      | _ => false
  | .getLatestOwned id _ =>
      match ch.outcome with
      | .profile none => w.isCompleted id
      | _ => false
  | .commit search =>
      match ch.outcome with
      | .raises => false
      | _ => search.status = .completed && w.failing.any (·.2 = search.id)
  | _ => false

/-- The runs in which no failure is handled late. -/
def timelyFailures : Regime World (Cmd Job) (Choice Job) Request where
  starts _ _ := true
  allows w _ cmd ch := !handledLate w cmd ch

/-! ## The invariant -/

/-- The invariant behind {lit}`completed_absorbing`. -/
structure Settled (w : World) : Prop where
  absorbing : Absorbing w
  last : ∀ id, .completed ∈ w.statuses id → w.isCompleted id = true
  clear : ∀ j id, (j, id) ∈ w.failing → w.isCompleted id = false

section

variable {w w' : World} {id : UUID} {v : Version} {β : Type} {cmd : Cmd Job β} {b : β}
  {ch : Choice Job}

theorem statuses_persist_self :
    (w.persist i id v).statuses id = w.statuses id ++ [v.search.status] := by
  simp [World.statuses, World.persist]

theorem statuses_persist_of_ne {id' : UUID} (h : id' ≠ id) :
    (w.persist i id v).statuses id' = w.statuses id' := by
  simp [World.statuses, World.persist, h.symm]

theorem isCompleted_persist_self :
    (w.persist i id v).isCompleted id = decide (v.search.status = .completed) := by
  simp [World.isCompleted, World.persist]

theorem isCompleted_persist_of_ne {id' : UUID} (h : id' ≠ id) :
    (w.persist i id v).isCompleted id' = w.isCompleted id' := by
  unfold World.isCompleted
  rw [committed_persist_of_ne h]

theorem Settled.unchanged (hu : Unchanged w w') (h : Settled w) : Settled w' := by
  have hstatuses : ∀ id, w'.statuses id = w.statuses id := fun id => by
    rw [World.statuses, hu.log, World.statuses]
  have hcompleted : ∀ id, w'.isCompleted id = w.isCompleted id := fun id => by
    rw [World.isCompleted, hu.committed, World.isCompleted]
  refine ⟨fun id => ?_, fun id hmem => ?_, fun j id hmem => ?_⟩
  · rw [hstatuses]
    exact h.absorbing id
  · rw [hcompleted]
    exact h.last id (hstatuses id ▸ hmem)
  · rw [hcompleted]
    exact h.clear j id (hu.failing ▸ hmem)

theorem Settled.recover (h : Settled w) : Settled (w.recover i) :=
  ⟨h.absorbing, h.last, fun j id hmem => h.clear j id (mem_recover.mp hmem).1⟩

/-- A failure that is handled in time. -/
theorem Settled.fail (hid : w.isCompleted id = false) (h : Settled w) :
    Settled (w.fail i id) := by
  refine ⟨h.absorbing, h.last, fun j id' hmem => ?_⟩
  rcases List.mem_cons.mp hmem with heq | hmem
  · cases heq
    exact hid
  · exact h.clear j id' hmem

/-- A committed version is completed, or the search was not completed before; and a
version that completes the search is committed while no failure of it is handled. -/
theorem Settled.persist (hkeeps : w.isCompleted id = true → v.search.status = .completed)
    (hclear : v.search.status = .completed → ∀ j, (j, id) ∉ w.failing) (h : Settled w) :
    Settled (w.persist i id v) := by
  refine ⟨fun id' => ?_, fun id' hmem => ?_, fun j id' hmem => ?_⟩
  · by_cases hid : id' = id
    · subst hid
      rw [statuses_persist_self, List.pairwise_append]
      refine ⟨h.absorbing id', List.pairwise_singleton _ _, fun a ha b hb hcompleted => ?_⟩
      rw [List.mem_singleton.mp hb]
      exact hkeeps (h.last id' (hcompleted ▸ ha))
    · rw [statuses_persist_of_ne hid]
      exact h.absorbing id'
  · by_cases hid : id' = id
    · subst hid
      rw [isCompleted_persist_self, decide_eq_true_eq]
      rw [statuses_persist_self, List.mem_append, List.mem_singleton] at hmem
      rcases hmem with hmem | hmem
      · exact hkeeps (h.last id' hmem)
      · exact hmem.symm
    · rw [isCompleted_persist_of_ne hid]
      exact h.last id' (statuses_persist_of_ne hid ▸ hmem)
  · have hold := (mem_recover.mp hmem).1
    by_cases hid : id' = id
    · subst hid
      rw [isCompleted_persist_self, decide_eq_false_iff_not]
      exact fun hcompleted => hclear hcompleted j hold
    · rw [isCompleted_persist_of_ne hid]
      exact h.clear j id' hold

/-- A commit in order keeps completed searches completed. -/
theorem Settled.commit {search : JobSearch} (hw : Coherent w)
    (hsession : (w.sessions i).search = some search) (hcommits : Commits i w search)
    (hallow : search.status = .completed → ∀ j, (j, search.id) ∉ w.failing) (h : Settled w) :
    Settled (w.commit i search.id) := by
  rcases commit_cases w i search.id with ⟨v, hp, heq⟩ | ⟨_, heq⟩ <;> rw [heq]
  · obtain ⟨s, hs, _, horigin⟩ := hw.owner _ _ _ hp
    cases hsession.symm.trans hs
    have hbefore : ∀ v₀, w.committed search.id = some v₀ → v₀.search.status = .completed →
        w.isCompleted search.id = true := fun v₀ hv₀ hstatus => by
      simp [World.isCompleted, hv₀, hstatus]
    refine h.persist (fun hcompleted => ?_) fun hcompleted j hmem => ?_
    · rcases horigin with hstatus | ⟨v₀, hv₀, hstatus⟩
      · rcases hcommits with hdone | hfailing | hnone
        · exact hstatus.trans hdone
        · simp [h.clear i _ hfailing] at hcompleted
        · simp [World.isCompleted, hnone] at hcompleted
      · rw [hstatus]
        simpa [World.isCompleted, hv₀] using hcompleted
    · rcases horigin with hstatus | ⟨v₀, hv₀, hstatus⟩
      · exact hallow (hstatus.symm.trans hcompleted) j hmem
      · have hcompleted := hbefore v₀ hv₀ (hstatus.symm.trans hcompleted)
        simp [h.clear j _ hmem] at hcompleted
  · exact h.recover

theorem Settled.results (hcmd : cmd.resultsOf = some id)
    (he : Search.exec i cmd ch w = some (b, w')) (h : Settled w) : Settled w' := by
  obtain ⟨w₁, hu, hrest⟩ := exec_results hcmd he
  have h₁ := h.unchanged hu
  rcases hrest with hu' | ⟨v, rs, _, _, hu'⟩
  · exact h₁.unchanged hu'
  · exact Settled.unchanged hu' ⟨h₁.absorbing, h₁.last, h₁.clear⟩

/-- One command of a run without late failures keeps completed searches completed. -/
theorem Settled.exec (hw : Coherent w) (hissues : Issues i w cmd)
    (hallow : handledLate w cmd ch = false) (he : Search.exec i cmd ch w = some (b, w'))
    (h : Settled w) : Settled w' := by
  cases cmd with
  | commit search =>
      rcases exec_commit he with ⟨_, hu⟩ | ⟨w₁, hne, hu, hu'⟩
      · exact h.unchanged hu
      · have hlate : search.status = .completed → ∀ j, (j, search.id) ∉ w₁.failing := by
          intro hstatus j hmem
          have hany : w.failing.any (·.2 = search.id) = true :=
            List.any_eq_true.mpr ⟨_, hu.failing ▸ hmem, by simp⟩
          simp [handledLate, hstatus, hany] at hallow
        refine ((h.unchanged hu).commit (hu.coherent hw) ((hu.search i).trans hissues.1) ?_
          hlate).unchanged hu'
        exact hissues.2.imp_right (Or.imp (hu.failing.symm ▸ ·) (hu.committed.symm ▸ ·))
  | rollback =>
      rcases exec_rollback he with ⟨_, hu⟩ | ⟨w₁, hu, hu'⟩
      · exact h.unchanged hu
      · have h₁ := h.unchanged hu
        exact Settled.unchanged hu' ⟨h₁.absorbing, h₁.last, h₁.clear⟩
  | logException event id =>
      rcases exec_logException he with ⟨_, hu⟩ | ⟨w₁, _, ho, hu, hu'⟩
      · exact h.unchanged hu
      · have hid : w.isCompleted id = false := by simpa [handledLate, ho] using hallow
        refine ((h.unchanged hu).fail ?_).unchanged hu'
        rwa [World.isCompleted, hu.committed]
  | getLatestOwned id owner =>
      rcases exec_getLatestOwned he with ⟨_, hu⟩ | ⟨w₁, _, ho, hu, hu'⟩
      · exact h.unchanged hu
      · have hid : w.isCompleted id = false := by simpa [handledLate, ho] using hallow
        refine ((h.unchanged hu).fail ?_).unchanged hu'
        rwa [World.isCompleted, hu.committed]
  | createSearch search =>
      rcases exec_createSearch he with ⟨_, hu⟩ | ⟨id, w₁, _, _, hu, rfl⟩
      · exact h.unchanged hu
      · exact ⟨(h.unchanged hu).absorbing, (h.unchanged hu).last, (h.unchanged hu).clear⟩
  | getSearchForWorker id =>
      rcases exec_getSearchForWorker he with ⟨_, hu⟩ | ⟨_, hu⟩ | ⟨v, w₁, _, _, hu, rfl⟩
      · exact h.unchanged hu
      · exact h.unchanged hu
      · exact ⟨(h.unchanged hu).absorbing, (h.unchanged hu).last, (h.unchanged hu).clear⟩
  | flush search =>
      rcases exec_flush he with ⟨_, hu⟩ | ⟨_, hu, _⟩ | ⟨loaded, v, w₁, _, _, _, _, hu, rfl⟩
      · exact h.unchanged hu
      · exact h.unchanged hu
      · exact ⟨(h.unchanged hu).absorbing, (h.unchanged hu).last, (h.unchanged hu).clear⟩
  | clearResults id => exact h.results rfl he
  | saveResults id results => exact h.results rfl he
  | _ => exact h.unchanged (exec_quiet rfl he)

end

/-! ## Main result -/

/-- In every run in which no failure is handled late, a search that has been completed
stays completed. -/
theorem completed_absorbing (env : Env Job) {w₀ : World} (h : Initial w₀)
    {c : Config World (Cmd Job) Request (Attempt Reply)}
    (hc : (searchMachine env).Reachable timelyFailures w₀ c) : Absorbing c.world := by
  have hsettled : Settled c.world := (searchSound env h).invariant
    (⟨by simp [Absorbing, World.statuses, h.log], by simp [World.statuses, h.log],
      by simp [h.failing]⟩ : Settled w₀)
    (fun _ _ _ _ _ _ _ _ _ hw _ _ hissues hallow he hJ =>
      hJ.exec hw hissues (by simpa [timelyFailures] using hallow) he)
    (fun i w _ hJ => ⟨hJ.absorbing, hJ.last, fun j id hmem =>
      hJ.clear j id (mem_recover.mp hmem).1⟩) hc
  exact hsettled.absorbing

/-- A matching domain in which every job scores the same. -/
def simpleEnv : Env UUID where
  jobId job := job
  isEligible _ _ := true
  scoreJob _ _ _ := ⟨50, 30, 0, 0, 10, 10⟩
  searchCandidateLimit := 500

def World.empty : World where
  now := 0
  committed _ := none
  pending _ := none
  sessions _ := {}
  queue := []
  issued := []
  failing := []
  log := []

/-- A request without filters. -/
def openRequest : AsyncSearchRequest where
  query := none
  location := none
  remoteType := none
  jobType := none
  experienceMin := none
  experienceMax := none
  limit := 10

/-- The profile of an engineer. -/
def engineer : CandidateProfile where
  fullName := none
  email := none
  phone := none
  location := none
  currentTitle := some "Engineer"
  professionalSummary := none
  yearsOfExperience := none
  extractedText := "Engineer"
  skills := []
  employmentHistory := []
  education := []
  certifications := []
  languages := []
  rawParserOutput := "\x7b\x7d"
  resumeId := 1
  ownerProfileId := 7
  updatedAt := 0

/-- {lit}`n` steps of call {lit}`i` in which nothing goes wrong. -/
def quietSteps (i : CallId) (n : Nat) : List (Label (Choice UUID) Request) :=
  List.replicate n (.step i {})

/-- The search with id 1 is created; the task is enqueued with this outcome. -/
def creation (enqueued : Outcome UUID) : List (Label (Choice UUID) Request) :=
  [.start 0 (.startSearch 7 openRequest), .step 0 ⟨0, .fresh 1⟩] ++ quietSteps 0 2 ++
    [.step 0 ⟨0, enqueued⟩]

/-- An execution of the search as call {lit}`i`, up to its end. -/
def execution (i : CallId) : List (Label (Choice UUID) Request) :=
  [.start i (.runJobSearch 1)] ++ quietSteps i 4 ++ [.step i ⟨0, .profile (some engineer)⟩] ++
    quietSteps i 1 ++ [.step i ⟨0, .jobs [5, 6]⟩] ++ quietSteps i 10 ++ [.finish i]

/-- The task is delivered twice, and the second execution finds the search completed. -/
def deliveredTwice : List (Label (Choice UUID) Request) :=
  creation .quiet ++ quietSteps 0 1 ++ [.finish 0] ++ execution 1 ++
    [.start 2 (.runJobSearch 1)] ++ quietSteps 2 2 ++ [.finish 2]

theorem completed_absorbing_deliveredTwice : ∃ c,
    (searchMachine simpleEnv).play timelyFailures deliveredTwice (.initial .empty) = some c ∧
      c.world.statuses 1 = [.queued, .completed] ∧ Absorbing c.world := by
  have hrun : ((searchMachine simpleEnv).play timelyFailures deliveredTwice
      (.initial .empty)).map (·.world.statuses 1) = some [.queued, .completed] := by decide
  obtain ⟨c, hc, hstatuses⟩ := Option.map_eq_some_iff.mp hrun
  exact ⟨c, hc, hstatuses, completed_absorbing simpleEnv
    ⟨fun _ => rfl, fun _ => rfl, rfl, rfl⟩ (Machine.reachable_of_play hc)⟩

/-- Enqueuing the task raises after the queue has taken it.  The search is executed and
completed, and then the failure branch of the call that created it goes on. -/
def lateQueueFailure : List (Label (Choice UUID) Request) :=
  creation .raisesAfter ++ execution 1 ++ quietSteps 0 3 ++ [.finish 0]

theorem completed_overwritten : ∃ c,
    (searchMachine simpleEnv).play .any lateQueueFailure (.initial .empty) = some c ∧
      ¬ Absorbing c.world := by
  have hrun : ((searchMachine simpleEnv).play .any lateQueueFailure (.initial .empty)).map
      (·.world.statuses 1) = some [.queued, .completed, .failed] := by decide
  obtain ⟨c, hc, hstatuses⟩ := Option.map_eq_some_iff.mp hrun
  refine ⟨c, hc, fun h => ?_⟩
  have hpairs := h 1
  rw [hstatuses] at hpairs
  simp at hpairs

end Search
end HireAndTech
