import HireAndTech.Interleaving.RelyGuarantee
import HireAndTech.Resumes.Tables
import HireAndTech.Semaphores.Semaphore

/-!
# Bounded execution of the resume parser

`BoundedThreadResumeParseExecutor.parse` acquires a slot, runs the parser in a thread and waits
for the thread up to a timeout.  It releases the slot itself when the thread has ended, and
leaves the release to a callback of the worker when it stops waiting earlier.

The event loop and the threads take steps of their own: a thread starts and finishes at any time,
with any result of the parser, a worker takes the result of its thread, a callback runs once its
worker is done, and a call that waits for a slot is cancelled.

Main results:

- Definition {lit}`parse`: the call.
- Definition {lit}`executorMachine`: its interleavings.
- Theorem {lit}`executorMachine_sound`: the contract of a call.
- Theorem {lit}`parse_slots_conserved`: the slots of every run.
-/

namespace HireAndTech
namespace Resumes
namespace Execution

open Interleaving Prog Semaphores

/-! ## The world -/

/-- What a parser or a call raises. -/
inductive Raised
  | application
  | timeout
  | cancelled
  | parserExecution
  | exception
  | baseException
deriving DecidableEq, Repr

/-- What a parser returns or raises. -/
abbrev Parsed := Except Raised ParsedResume

/-- The task around the thread of a parser. -/
inductive Worker
  | absent
  | scheduled
  | running
  | finished (outcome : Parsed)
  | done (outcome : Parsed)

/-- The thread has finished. -/
def Worker.isOver : Worker → Bool
  | .finished _ | .done _ => true
  | _ => false

/-- The thread runs. -/
def Worker.isRunning : Worker → Bool
  | .running => true
  | _ => false

/-- The executor, and of each call its worker.  The callbacks are those that have been added and
have not run; which calls have acquired and released a slot is history. -/
structure World where
  semaphore : Semaphore CallId
  workers : CallId → Worker
  callbacks : List CallId
  acquired : List CallId
  released : List CallId

namespace World

/-- `__init__`. -/
def initial (maxConcurrency : Nat) : World :=
  ⟨.initial maxConcurrency, fun _ => .absent, [], [], []⟩

/-- The worker of call {lit}`i` changes. -/
def setWorker (w : World) (i : CallId) (worker : Worker) : World :=
  { w with workers := Function.update w.workers i worker }

/-- The semaphore changes, and call {lit}`i` may have acquired a slot. -/
def acquire (w : World) (i : CallId) (semaphore : Semaphore CallId) (acquired : Bool) : World :=
  { w with
    semaphore := semaphore
    acquired := if acquired then i :: w.acquired else w.acquired }

/-- The slot of call {lit}`i` is released. -/
def release (w : World) (i : CallId) : World :=
  { w with
    semaphore := w.semaphore.release
    released := i :: w.released }

/-- `_release_worker_slot` is added to the callbacks of the worker. -/
def addDoneCallback (w : World) (i : CallId) : World :=
  { w with callbacks := i :: w.callbacks }

/-- `_release_worker_slot` runs. -/
def runCallback (w : World) (i : CallId) : World :=
  { w with callbacks := w.callbacks.erase i }.release i

/-- The slots that have been granted to a call and have not been released. -/
def held (w : World) : List CallId :=
  w.acquired.filter (· ∉ w.released) ++ w.semaphore.granted

end World

/-- The steps of the event loop and of the threads. -/
inductive Event
  | startThread (i : CallId)
  | finishThread (i : CallId) (outcome : Parsed)
  | settle (i : CallId)
  | runCallback (i : CallId)
  | cancelWaiter (i : CallId)

/-- The effect of a step; {lean}`none` when it cannot be taken. -/
def World.event (w : World) : Event → Option World
  | .startThread i =>
      match w.workers i with
      | .scheduled => some (w.setWorker i .running)
      | _ => none
  | .finishThread i outcome =>
      match w.workers i with
      | .running => some (w.setWorker i (.finished outcome))
      | _ => none
  | .settle i =>
      match w.workers i with
      | .finished outcome => some (w.setWorker i (.done outcome))
      | _ => none
  | .runCallback i =>
      match w.workers i with
      | .done _ => if i ∈ w.callbacks then some (w.runCallback i) else none
      | _ => none
  | .cancelWaiter i => some { w with semaphore := w.semaphore.cancel i }

/-! ## Commands -/

/-- The commands of a call, and the steps that it does not take itself. -/
inductive Cmd : Type → Type
  | acquire : Cmd Bool
  | resume : Cmd (Except Raised Unit)
  | createTask : Cmd Unit
  | awaitWorker : Cmd Parsed
  | addDoneCallback : Cmd Unit
  | release : Cmd Unit
  | event (event : Event) : Cmd Unit

/-- How the wait of a call ends. -/
inductive Choice
  | quiet
  | timeout
  | cancelled
deriving DecidableEq, Repr

/-- The effect of a command of call {lit}`i`; {lean}`none` while the call has to wait. -/
def exec {β : Type} (i : CallId) (cmd : Cmd β) (choice : Choice) (w : World) :
    Option (β × World) :=
  match cmd, choice with
  | .acquire, .quiet =>
      let (semaphore, acquired) := w.semaphore.acquire i
      some (acquired, w.acquire i semaphore acquired)
  | .resume, choice =>
      (w.semaphore.resume i (choice = .cancelled)).map fun (semaphore, acquired) =>
        (if acquired then .ok () else .error .cancelled, w.acquire i semaphore acquired)
  | .createTask, .quiet => some ((), w.setWorker i .scheduled)
  | .awaitWorker, .quiet =>
      match w.workers i with
      | .done outcome => some (outcome, w)
      | _ => none
  | .awaitWorker, .timeout => some (.error .timeout, w)
  | .awaitWorker, .cancelled => some (.error .cancelled, w)
  | .addDoneCallback, .quiet => some ((), w.addDoneCallback i)
  | .release, .quiet => some ((), w.release i)
  | .event event, .quiet => (w.event event).map fun w => ((), w)
  | _, _ => none

/-! ## The call -/

/-- What a call does. -/
abbrev Action (α : Type) := ExceptT Raised (Prog Cmd) α

/-- `Semaphore.acquire`. -/
def acquire : Action Unit := do
  if ← ExceptT.lift (perform .acquire) then return ()
  else attempt .resume

/-- The `except` clauses: what leaves the block, and whether the release is deferred. -/
def caught : Raised → Raised × Bool
  | .application => (.application, false)
  | .timeout => (.parserExecution, true)
  | .cancelled => (.cancelled, true)
  | .parserExecution | .exception => (.parserExecution, false)
  | .baseException => (.baseException, false)

/-- The `try` block with its clauses. -/
def awaitWorker : Action ParsedResume :=
  ExceptT.mk do
    match ← perform .awaitWorker with
    | .ok result =>
        perform .release
        return .ok result
    | .error e =>
        let (raised, releaseDeferred) := caught e
        perform (if releaseDeferred then .addDoneCallback else .release)
        return .error raised

/-- `BoundedThreadResumeParseExecutor.parse`. -/
def parse : Action ParsedResume := do
  acquire
  ExceptT.lift (perform .createTask)
  awaitWorker

/-- A call of {lit}`parse`, or a step that no call takes. -/
inductive Request
  | parse
  | event (event : Event)

/-- The program of a request; a step has no result. -/
def program : Request → Prog Cmd (Option Parsed)
  | .parse => do
      let result ← parse.run
      return some result
  | .event event => do
      perform (.event event)
      return none

/-- The interleavings of calls, threads and the event loop. -/
def executorMachine : Machine World Cmd Choice Request (Option Parsed) where
  program := program
  exec := exec
  close _ w := w

/-! ## The contract -/

/-- The permits of the semaphore and the slots of the calls add up, and a slot is released once,
after its thread. -/
structure Inv (maxConcurrency : Nat) (w : World) : Prop where
  permits : w.semaphore.permits + w.acquired.length = maxConcurrency + w.released.length
  acquired : w.acquired.Nodup
  released : w.released.Nodup
  callbacks : w.callbacks.Nodup
  queue : w.semaphore.queue.Nodup
  queued : ∀ i ∈ w.semaphore.queue, i ∉ w.acquired
  ended : ∀ i ∈ w.released, i ∈ w.acquired ∧ (w.workers i).isOver = true
  deferred : ∀ i ∈ w.callbacks, i ∈ w.acquired ∧ i ∉ w.released
  worker : ∀ i, w.workers i ≠ .absent → i ∈ w.acquired

/-- A worker only goes on. -/
structure Worker.Progress (a b : Worker) : Prop where
  absent : b = .absent ↔ a = .absent
  ended : a.isOver = true → b.isOver = true

/-- A step of call {lit}`i` gives other calls no slot and takes none from them, but may run their
callbacks. -/
structure Guar (i : CallId) (w w' : World) : Prop where
  acquired : ∀ j, j ≠ i → (j ∈ w'.acquired ↔ j ∈ w.acquired)
  queue : ∀ j, j ≠ i → (j ∈ w'.semaphore.queue ↔ j ∈ w.semaphore.queue)
  workers : ∀ j, j ≠ i → (w.workers j).Progress (w'.workers j)
  pending : ∀ j, j ≠ i → j ∉ w.callbacks →
    j ∉ w'.callbacks ∧ (j ∈ w'.released ↔ j ∈ w.released)
  kept : ∀ j, j ∈ w.released ∨ j ∈ w.callbacks → j ∈ w'.released ∨ j ∈ w'.callbacks

/-- Call {lit}`i` has a slot, whose release has not been deferred. -/
structure Holds (i : CallId) (w : World) : Prop where
  acquired : i ∈ w.acquired
  released : i ∉ w.released
  callbacks : i ∉ w.callbacks

/-- The circumstances in which call {lit}`i` issues a command. -/
def Issues (i : CallId) (w : World) {β : Type} : Cmd β → Prop
  | .acquire => i ∉ w.acquired ∧ i ∉ w.semaphore.queue
  | .resume => True
  | .createTask => i ∈ w.acquired ∧ w.workers i = .absent
  | .awaitWorker => True
  | .addDoneCallback => Holds i w
  | .release => Holds i w ∧ (w.workers i).isOver = true
  | .event _ => True

/-- The contract of a call. -/
def contract (maxConcurrency : Nat) : Contract World Cmd Request where
  Inv := Inv maxConcurrency
  Issues i _ w cmd := Issues i w cmd
  Guar i _ := Guar i

variable {maxConcurrency : Nat} {i j : CallId} {w w' : World}

theorem Worker.Progress.refl (a : Worker) : a.Progress a :=
  ⟨Iff.rfl, fun h => h⟩

theorem Guar.refl (i : CallId) (w : World) : Guar i w w :=
  ⟨fun _ _ => Iff.rfl, fun _ _ => Iff.rfl, fun _ _ => .refl _, fun _ _ h => ⟨h, Iff.rfl⟩,
    fun _ h => h⟩

/-! ## The parts of a step -/

/-- A slot that is released was held, by a call whose thread has finished. -/
theorem Inv.release (h : Inv maxConcurrency w) (hholds : Holds i w)
    (hover : (w.workers i).isOver = true) : Inv maxConcurrency (w.release i) where
  permits := by
    have hpermits := h.permits
    simp only [World.release, permits_release, List.length_cons]
    omega
  acquired := h.acquired
  released := List.nodup_cons.mpr ⟨hholds.released, h.released⟩
  callbacks := h.callbacks
  queue := by
    rw [World.release, queue_release]
    exact h.queue
  queued := by
    rw [World.release, queue_release]
    exact h.queued
  ended j hj := by
    rcases List.mem_cons.mp hj with rfl | hj
    · exact ⟨hholds.acquired, hover⟩
    · exact h.ended j hj
  deferred j hj := by
    refine ⟨(h.deferred j hj).1, fun hmem => ?_⟩
    rcases List.mem_cons.mp hmem with rfl | hmem
    · exact hholds.callbacks hj
    · exact (h.deferred j hj).2 hmem
  worker := h.worker

theorem Guar.release (i : CallId) (w : World) : Guar i w (w.release i) where
  acquired _ _ := Iff.rfl
  queue _ _ := by rw [World.release, queue_release]
  workers _ _ := .refl _
  pending j hj hcallbacks := ⟨hcallbacks, by simp [World.release, hj]⟩
  kept j hj := hj.imp_left (List.mem_cons_of_mem _)

/-- A worker goes on, or is created by a call that has a slot. -/
theorem Inv.setWorker (h : Inv maxConcurrency w) {worker : Worker} (hacquired : i ∈ w.acquired)
    (hover : (w.workers i).isOver = true → worker.isOver = true) :
    Inv maxConcurrency (w.setWorker i worker) where
  permits := h.permits
  acquired := h.acquired
  released := h.released
  callbacks := h.callbacks
  queue := h.queue
  queued := h.queued
  ended j hj := by
    refine ⟨(h.ended j hj).1, ?_⟩
    by_cases hji : j = i
    · subst hji
      simpa [World.setWorker] using hover (h.ended j hj).2
    · simpa [World.setWorker, hji] using (h.ended j hj).2
  deferred := h.deferred
  worker j hj := by
    by_cases hji : j = i
    · exact hji ▸ hacquired
    · exact h.worker j (by simpa [World.setWorker, hji] using hj)

theorem Guar.setWorker {k : CallId} {worker : Worker}
    (hprogress : k = i ∨ (w.workers k).Progress worker) : Guar i w (w.setWorker k worker) where
  acquired _ _ := Iff.rfl
  queue _ _ := Iff.rfl
  workers j hj := by
    by_cases hjk : j = k
    · subst hjk
      simpa [World.setWorker] using hprogress.resolve_left hj
    · simpa [World.setWorker, hjk] using Worker.Progress.refl (w.workers j)
  pending _ _ h := ⟨h, Iff.rfl⟩
  kept _ h := h

/-- A change of the semaphore by the acquisition of call {lit}`i`. -/
theorem Inv.acquire (h : Inv maxConcurrency w) {semaphore : Semaphore CallId} {acquired : Bool}
    (hfresh : i ∉ w.acquired)
    (hpermits : semaphore.permits + (if acquired then 1 else 0) = w.semaphore.permits)
    (hnodup : semaphore.queue.Nodup)
    (hqueue : ∀ j ∈ semaphore.queue, j = i ∧ acquired = false ∨ j ≠ i ∧ j ∈ w.semaphore.queue) :
    Inv maxConcurrency (w.acquire i semaphore acquired) := by
  have hmem : ∀ j ∈ w.acquired, j ∈ (w.acquire i semaphore acquired).acquired := by
    intro j hj
    cases acquired with
    | false => exact hj
    | true => exact List.mem_cons_of_mem _ hj
  refine ⟨?_, ?_, h.released, h.callbacks, hnodup, ?_, ?_, ?_, ?_⟩
  · have hsum := h.permits
    cases acquired with
    | false =>
        simp only [World.acquire, Bool.false_eq_true, if_false] at hpermits ⊢
        omega
    | true =>
        simp only [World.acquire, if_true, List.length_cons] at hpermits ⊢
        omega
  · cases acquired with
    | false => exact h.acquired
    | true => exact List.nodup_cons.mpr ⟨hfresh, h.acquired⟩
  · intro j hj hacquired
    rcases hqueue j hj with ⟨rfl, rfl⟩ | ⟨hji, hwaits⟩
    · exact hfresh hacquired
    · cases acquired with
      | false => exact h.queued j hwaits hacquired
      | true => exact h.queued j hwaits ((List.mem_cons.mp hacquired).resolve_left hji)
  · intro j hj
    exact ⟨hmem j (h.ended j hj).1, (h.ended j hj).2⟩
  · intro j hj
    exact ⟨hmem j (h.deferred j hj).1, (h.deferred j hj).2⟩
  · intro j hj
    exact hmem j (h.worker j hj)

theorem Guar.acquire {semaphore : Semaphore CallId} {acquired : Bool}
    (hqueue : ∀ j, j ≠ i → (j ∈ semaphore.queue ↔ j ∈ w.semaphore.queue)) :
    Guar i w (w.acquire i semaphore acquired) where
  acquired j hj := by
    cases acquired with
    | false => exact Iff.rfl
    | true => simp [World.acquire, hj]
  queue := hqueue
  workers _ _ := .refl _
  pending _ _ h := ⟨h, Iff.rfl⟩
  kept _ h := h

/-- A callback runs. -/
theorem Inv.runCallback (h : Inv maxConcurrency w) (hcallback : i ∈ w.callbacks)
    (hover : (w.workers i).isOver = true) : Inv maxConcurrency (w.runCallback i) := by
  have herased : Inv maxConcurrency { w with callbacks := w.callbacks.erase i } :=
    ⟨h.permits, h.acquired, h.released, h.callbacks.erase i, h.queue, h.queued, h.ended,
      fun j hj => h.deferred j (List.mem_of_mem_erase hj), h.worker⟩
  obtain ⟨hacquired, hreleased⟩ := h.deferred i hcallback
  exact herased.release ⟨hacquired, hreleased, fun hmem => h.callbacks.not_mem_erase hmem⟩ hover

theorem Guar.runCallback {k : CallId} (hcallback : k ∈ w.callbacks) :
    Guar i w (w.runCallback k) where
  acquired _ _ := Iff.rfl
  queue _ _ := by rw [World.runCallback, World.release, queue_release]
  workers _ _ := .refl _
  pending j _ hj := by
    have hjk : j ≠ k := by
      rintro rfl
      exact hj hcallback
    exact ⟨fun hmem => hj (List.mem_of_mem_erase hmem),
      by simp [World.runCallback, World.release, hjk]⟩
  kept j hj := by
    by_cases hjk : j = k
    · exact Or.inl (hjk ▸ List.mem_cons_self)
    · exact hj.imp (List.mem_cons_of_mem _) (List.mem_erase_of_ne hjk).mpr

/-- The release of a slot is deferred. -/
theorem Inv.addDoneCallback (h : Inv maxConcurrency w) (hholds : Holds i w) :
    Inv maxConcurrency (w.addDoneCallback i) := by
  refine ⟨h.permits, h.acquired, h.released, List.nodup_cons.mpr ⟨hholds.callbacks, h.callbacks⟩,
    h.queue, h.queued, h.ended, fun j hj => ?_, h.worker⟩
  rcases List.mem_cons.mp hj with rfl | hj
  · exact ⟨hholds.acquired, hholds.released⟩
  · exact h.deferred j hj

theorem Guar.addDoneCallback (i : CallId) (w : World) : Guar i w (w.addDoneCallback i) where
  acquired _ _ := Iff.rfl
  queue _ _ := Iff.rfl
  workers _ _ := .refl _
  pending j hj hcallbacks := ⟨by simp [World.addDoneCallback, hj, hcallbacks], Iff.rfl⟩
  kept j hj := hj.imp_right (List.mem_cons_of_mem _)

/-! ## One step -/

/-- The steps of the event loop and of the threads keep the contract. -/
theorem Inv.event (h : Inv maxConcurrency w) {event : Event} (hevent : w.event event = some w') :
    Inv maxConcurrency w' ∧ Guar i w w' := by
  cases event with
  | startThread k =>
      simp only [World.event] at hevent
      split at hevent
      · rename_i hworker
        cases hevent
        refine ⟨h.setWorker (h.worker k (by simp [hworker])) (by simp [hworker, Worker.isOver]),
          Guar.setWorker (Or.inr ⟨by simp [hworker], by simp [hworker, Worker.isOver]⟩)⟩
      · contradiction
  | finishThread k outcome =>
      simp only [World.event] at hevent
      split at hevent
      · rename_i hworker
        cases hevent
        refine ⟨h.setWorker (h.worker k (by simp [hworker])) (by simp [Worker.isOver]),
          Guar.setWorker (Or.inr ⟨by simp [hworker], by simp [Worker.isOver]⟩)⟩
      · contradiction
  | settle k =>
      simp only [World.event] at hevent
      split at hevent
      · rename_i outcome hworker
        cases hevent
        refine ⟨h.setWorker (h.worker k (by simp [hworker])) (by simp [Worker.isOver]),
          Guar.setWorker (Or.inr ⟨by simp [hworker], by simp [Worker.isOver]⟩)⟩
      · contradiction
  | runCallback k =>
      simp only [World.event] at hevent
      split at hevent
      · rename_i outcome hworker
        split at hevent
        · rename_i hcallback
          cases hevent
          exact ⟨h.runCallback hcallback (by simp [hworker, Worker.isOver]),
            Guar.runCallback hcallback⟩
        · contradiction
      · contradiction
  | cancelWaiter k =>
      cases hevent
      refine ⟨⟨?_, h.acquired, h.released, h.callbacks, ?_, ?_, h.ended, h.deferred, h.worker⟩,
        fun _ _ => Iff.rfl, fun _ _ => ?_, fun _ _ => .refl _, fun _ _ h => ⟨h, Iff.rfl⟩,
        fun _ h => h⟩
      · exact permits_cancel (s := w.semaphore) ▸ h.permits
      · exact queue_cancel (s := w.semaphore) ▸ h.queue
      · exact queue_cancel (s := w.semaphore) ▸ h.queued
      · rw [queue_cancel]

/-! ## What the commands of a call can do -/

variable {choice : Choice}

/-- An acquisition that does not have to wait, or joins the queue. -/
theorem exec_acquire {acquired : Bool} (hexec : exec i .acquire choice w = some (acquired, w')) :
    ∃ semaphore, w' = w.acquire i semaphore acquired ∧
      ((acquired = true ∧ semaphore.permits + 1 = w.semaphore.permits ∧
          semaphore.queue = w.semaphore.queue) ∨
        (acquired = false ∧ semaphore.permits = w.semaphore.permits ∧
          semaphore.queue = w.semaphore.queue ++ [i])) := by
  cases choice with
  | quiet =>
      cases hexec
      exact ⟨_, rfl, permits_acquire rfl⟩
  | _ => contradiction

/-- The end of a wait for a slot. -/
theorem exec_resume {b : Except Raised Unit} (hexec : exec i .resume choice w = some (b, w')) :
    ∃ semaphore acquired, w' = w.acquire i semaphore acquired ∧
      b = (if acquired then .ok () else .error .cancelled) ∧
      w.semaphore.resume i (choice = .cancelled) = some (semaphore, acquired) := by
  obtain ⟨⟨semaphore, acquired⟩, hresume, heq⟩ := Option.map_eq_some_iff.mp hexec
  cases heq
  exact ⟨semaphore, acquired, rfl, rfl, hresume⟩

/-- The end of a wait for a worker: the worker is done, or the wait ends before. -/
theorem exec_awaitWorker {b : Parsed} (hexec : exec i .awaitWorker choice w = some (b, w')) :
    w' = w ∧ ((w.workers i).isOver = true ∨ b = .error .timeout ∨ b = .error .cancelled) := by
  cases choice with
  | quiet =>
      simp only [exec] at hexec
      split at hexec
      · rename_i outcome hworker
        cases hexec
        exact ⟨rfl, Or.inl (by simp [hworker, Worker.isOver])⟩
      · contradiction
  | timeout =>
      cases hexec
      exact ⟨rfl, Or.inr (Or.inl rfl)⟩
  | cancelled =>
      cases hexec
      exact ⟨rfl, Or.inr (Or.inr rfl)⟩

/-- Every command keeps the contract. -/
theorem Inv.exec (h : Inv maxConcurrency w) {β : Type} {cmd : Cmd β} {b : β}
    (hissues : Issues i w cmd) (hexec : exec i cmd choice w = some (b, w')) :
    Inv maxConcurrency w' ∧ Guar i w w' := by
  cases cmd with
  | acquire =>
      obtain ⟨hacquired, hqueue⟩ := hissues
      obtain ⟨semaphore, rfl, ⟨rfl, hpermits, heq⟩ | ⟨rfl, hpermits, heq⟩⟩ := exec_acquire hexec
      · refine ⟨h.acquire hacquired (by simpa using hpermits) (heq ▸ h.queue) ?_, Guar.acquire ?_⟩
        · intro j hj
          rw [heq] at hj
          exact Or.inr ⟨fun hji => hqueue (hji ▸ hj), hj⟩
        · intro j _
          rw [heq]
      · refine ⟨h.acquire hacquired (by simpa using hpermits) ?_ ?_, Guar.acquire ?_⟩
        · rw [heq]
          exact h.queue.append (List.nodup_singleton i) (List.disjoint_singleton.mpr hqueue)
        · intro j hj
          rw [heq] at hj
          by_cases hji : j = i
          · exact Or.inl ⟨hji, rfl⟩
          · exact Or.inr ⟨hji, by simpa [hji] using hj⟩
        · intro j hj
          simp [heq, hj]
  | resume =>
      obtain ⟨semaphore, acquired, rfl, _, hresume⟩ := exec_resume hexec
      obtain ⟨hqueue, hmem, hpermits⟩ := permits_resume h.queue hresume
      refine ⟨h.acquire (h.queued i hmem) hpermits ?_ ?_, Guar.acquire ?_⟩
      · rw [hqueue]
        exact h.queue.filter _
      · intro j hj
        rw [hqueue, List.mem_filter] at hj
        exact Or.inr ⟨by simpa using hj.2, hj.1⟩
      · intro j hj
        simp [hqueue, hj]
  | createTask =>
      cases choice <;> cases hexec
      exact ⟨h.setWorker hissues.1 (by simp [hissues.2, Worker.isOver]),
        Guar.setWorker (Or.inl rfl)⟩
  | awaitWorker =>
      obtain ⟨rfl, _⟩ := exec_awaitWorker hexec
      exact ⟨h, Guar.refl i _⟩
  | addDoneCallback =>
      cases choice <;> cases hexec
      exact ⟨h.addDoneCallback hissues, Guar.addDoneCallback i w⟩
  | release =>
      cases choice <;> cases hexec
      exact ⟨h.release hissues.1 hissues.2, Guar.release i w⟩
  | event event =>
      cases choice with
      | quiet =>
          obtain ⟨w₁, hevent, heq⟩ := Option.map_eq_some_iff.mp hexec
          cases heq
          exact h.event hevent
      | _ => contradiction

/-! ## The call keeps the contract -/

/-- Call {lit}`i` has a slot, and no worker yet. -/
def Ready (i : CallId) (w : World) : Prop :=
  Holds i w ∧ w.workers i = .absent

/-- The slot of call {lit}`i` has been released, or its release is deferred. -/
def Settled (i : CallId) (w : World) : Prop :=
  i ∈ w.acquired → i ∈ w.released ∨ i ∈ w.callbacks

theorem Holds.stable (i : CallId) : (contract maxConcurrency).Stable i (Holds i) := by
  intro j r hj w w' _ _ hguar h
  obtain ⟨hcallbacks, hreleased⟩ := hguar.pending i hj.symm h.callbacks
  exact ⟨(hguar.acquired i hj.symm).mpr h.acquired, fun hmem => h.released (hreleased.mp hmem),
    hcallbacks⟩

theorem Ready.stable (i : CallId) : (contract maxConcurrency).Stable i (Ready i) := by
  intro j r hj w w' hw hw' hguar h
  exact ⟨Holds.stable i j r hj w w' hw hw' hguar h.1,
    (hguar.workers i hj.symm).absent.mpr h.2⟩

theorem Settled.stable (i : CallId) : (contract maxConcurrency).Stable i (Settled i) := by
  intro j r hj w w' _ _ hguar h hacquired
  exact hguar.kept i (h ((hguar.acquired i hj.symm).mp hacquired))

theorem unacquired_stable (i : CallId) :
    (contract maxConcurrency).Stable i fun w => i ∉ w.acquired := by
  intro j r hj w w' _ _ hguar h hacquired
  exact h ((hguar.acquired i hj.symm).mp hacquired)

theorem fresh_stable (i : CallId) :
    (contract maxConcurrency).Stable i fun w => i ∉ w.acquired ∧ i ∉ w.semaphore.queue := by
  intro j r hj w w' hw hw' hguar h
  exact ⟨unacquired_stable i j r hj w w' hw hw' hguar h.1,
    fun hmem => h.2 ((hguar.queue i hj.symm).mp hmem)⟩

/-- A call that acquires a slot has no worker, and has not released the slot. -/
theorem Inv.ready (h : Inv maxConcurrency w) (hfresh : i ∉ w.acquired)
    (semaphore : Semaphore CallId) : Ready i (w.acquire i semaphore true) where
  left :=
    { acquired := List.mem_cons_self
      released := fun hmem => hfresh (h.ended i hmem).1
      callbacks := fun hmem => hfresh (h.deferred i hmem).1 }
  right := by
    by_contra hworker
    exact hfresh (h.worker i hworker)

/-- The program of one call keeps the contract. -/
abbrev CallValid (maxConcurrency : Nat) (i : CallId) {α : Type} (program : Action α)
    (P : World → Prop) (Q : α → World → Prop) (E : Raised → World → Prop) : Prop :=
  Valid executorMachine .any (contract maxConcurrency) i .parse program.run P (Ends Q E)

theorem acquire_valid :
    CallValid maxConcurrency i acquire (fun w => i ∉ w.acquired ∧ i ∉ w.semaphore.queue)
      (fun _ => Ready i) (fun _ => Settled i) := by
  refine Valid.except_bind
    (Q := fun acquired w => if acquired = true then Ready i w else i ∉ w.acquired) ?_ ?_
  · refine Valid.except_lift (Valid.cmd (fresh_stable i) (fun _ _ h => h) ?_)
    intro acquired w w' choice hw _ _ hfresh _ hexec
    obtain ⟨semaphore, rfl, ⟨rfl, _⟩ | ⟨rfl, _⟩⟩ := exec_acquire hexec
    · exact hw.ready hfresh.1 semaphore
    · exact hfresh.1
  · intro acquired
    cases acquired with
    | true => exact Valid.except_ret fun _ _ h => h
    | false =>
        refine Valid.cmd (unacquired_stable i) (fun _ _ _ => trivial) ?_
        intro b w w' choice hw _ _ hfresh _ hexec
        obtain ⟨semaphore, acquired, rfl, rfl, _⟩ := exec_resume hexec
        cases acquired with
        | true => exact hw.ready hfresh semaphore
        | false => exact fun hacquired => absurd hacquired hfresh

/-- Whoever has a slot may release it once the thread has ended, and may defer its release at
any time. -/
theorem release_valid :
    Valid executorMachine .any (contract maxConcurrency) i .parse (perform .release)
      (fun w => Holds i w ∧ (w.workers i).isOver = true) fun _ => Settled i := by
  refine Valid.cmd ?_ (fun _ _ h => h) ?_
  · intro j r hj w w' hw hw' hguar h
    exact ⟨Holds.stable i j r hj w w' hw hw' hguar h.1, (hguar.workers i hj.symm).ended h.2⟩
  · intro b w w' choice _ _ _ _ _ hexec _
    cases choice <;> cases hexec
    exact Or.inl List.mem_cons_self

theorem addDoneCallback_valid :
    Valid executorMachine .any (contract maxConcurrency) i .parse (perform .addDoneCallback)
      (Holds i) fun _ => Settled i := by
  refine Valid.cmd (Holds.stable i) (fun _ _ h => h) ?_
  intro b w w' choice _ _ _ _ _ hexec _
  cases choice <;> cases hexec
  exact Or.inr List.mem_cons_self

/-- Only an early end of the wait is caught with a deferred release. -/
theorem caught_deferred {e : Raised} (h : (caught e).2 = false) :
    e ≠ .timeout ∧ e ≠ .cancelled := by
  cases e <;> simp_all [caught]

theorem awaitWorker_valid :
    CallValid maxConcurrency i awaitWorker (Holds i) (fun _ => Settled i) fun _ => Settled i := by
  refine Valid.bind (Q := fun b w => Holds i w ∧
    ((w.workers i).isOver = true ∨ b = .error .timeout ∨ b = .error .cancelled)) ?_ ?_
  · refine Valid.cmd (Holds.stable i) (fun _ _ _ => trivial) ?_
    intro b w w' choice _ _ _ hholds _ hexec
    obtain ⟨rfl, hended⟩ := exec_awaitWorker hexec
    exact ⟨hholds, hended⟩
  · rintro (e | result)
    · dsimp only
      cases hdeferred : (caught e).2 with
      | true =>
          exact (addDoneCallback_valid.bind fun _ => Valid.ret fun _ _ h => h).pre
            fun _ _ h => h.1
      | false =>
          obtain ⟨htimeout, hcancelled⟩ := caught_deferred hdeferred
          refine (release_valid.bind fun _ => Valid.ret fun _ _ h => h).pre fun w _ h => ?_
          exact ⟨h.1, h.2.resolve_right (by simp [htimeout, hcancelled])⟩
    · refine (release_valid.bind fun _ => Valid.ret fun _ _ h => h).pre fun w _ h => ?_
      exact ⟨h.1, h.2.resolve_right (by simp)⟩

theorem parse_valid :
    CallValid maxConcurrency i parse (fun w => i ∉ w.acquired ∧ i ∉ w.semaphore.queue)
      (fun _ => Settled i) fun _ => Settled i := by
  refine Valid.except_bind acquire_valid fun _ => ?_
  refine Valid.except_bind (Q := fun _ => Holds i) ?_ fun _ => awaitWorker_valid
  refine Valid.except_lift (Valid.cmd (Ready.stable i) (fun _ _ h => ⟨h.1.acquired, h.2⟩) ?_)
  intro b w w' choice _ _ _ hready _ hexec
  cases choice <;> cases hexec
  exact ⟨hready.1.acquired, hready.1.released, hready.1.callbacks⟩

theorem inv_initial (maxConcurrency : Nat) : Inv maxConcurrency (.initial maxConcurrency) where
  permits := by simp [World.initial, Semaphore.initial, Semaphore.permits, Semaphore.granted]
  acquired := List.nodup_nil
  released := List.nodup_nil
  callbacks := List.nodup_nil
  queue := List.nodup_nil
  queued := by simp [World.initial]
  ended := by simp [World.initial]
  deferred := by simp [World.initial]
  worker := by simp [World.initial]

/-- The contract of the executor. -/
theorem executorMachine_sound (maxConcurrency : Nat) :
    Sound executorMachine .any (contract maxConcurrency) (.initial maxConcurrency)
      (fun i w => i ∉ w.acquired ∧ i ∉ w.semaphore.queue)
      (fun i request _ w => request = .parse → Settled i w) where
  init := inv_initial maxConcurrency
  pre_init i := by simp [World.initial, Semaphore.initial, Semaphore.queue]
  pre_stable := fresh_stable
  post_stable i request _ := by
    intro j r hj w w' hw hw' hguar h hparse
    exact Settled.stable i j r hj w w' hw hw' hguar (h hparse)
  exec i r _ cmd ch b w w' _ hw hissues _ hexec := hw.exec hissues hexec
  close i _ w _ hw := ⟨hw, Guar.refl i w⟩
  refl i _ w _ _ := Guar.refl i w
  valid i request _ := by
    cases request with
    | parse =>
        refine Valid.bind (Q := fun _ => Settled i) (parse_valid.post ?_) fun result =>
          Valid.ret fun _ _ h _ => h
        rintro (e | result) w _ h
        · exact h
        · exact h
    | event event =>
        refine Valid.bind (Q := fun _ _ => True) (Valid.cmd (fresh_stable i) ?_ ?_) fun _ =>
          Valid.ret fun _ _ _ h => ?_
        · exact fun _ _ _ => trivial
        · exact fun _ _ _ _ _ _ _ _ _ _ => trivial
        · contradiction

/-! ## The slots -/

/-- Free permits and held slots add up. -/
theorem Inv.held_length (h : Inv maxConcurrency w) :
    w.semaphore.value + w.held.length = maxConcurrency := by
  have hreleased : (w.acquired.filter (· ∈ w.released)).length = w.released.length := by
    refine List.Perm.length_eq
      ((List.perm_ext_iff_of_nodup (h.acquired.filter _) h.released).mpr ?_)
    intro i
    simp only [List.mem_filter, decide_eq_true_eq]
    exact ⟨fun hi => hi.2, fun hi => ⟨(h.ended i hi).1, hi⟩⟩
  have hsplit := List.length_eq_length_filter_add (l := w.acquired) (· ∈ w.released)
  have hpermits := h.permits
  simp only [World.held, List.length_append, Semaphore.permits] at hpermits ⊢
  have hother : (w.acquired.filter (· ∉ w.released)).length =
      (w.acquired.filter fun i => !decide (i ∈ w.released)).length := by
    simp only [decide_not]
  omega

theorem granted_sublist (s : Semaphore CallId) : s.granted.Sublist s.queue :=
  List.filter_sublist.map _

/-- No call holds two slots. -/
theorem Inv.held_nodup (h : Inv maxConcurrency w) : w.held.Nodup := by
  refine (h.acquired.filter _).append (h.queue.sublist (granted_sublist w.semaphore)) ?_
  intro i hacquired hgranted
  exact h.queued i ((granted_sublist w.semaphore).subset hgranted)
    (List.mem_of_mem_filter hacquired)

/-- A thread that runs has a slot. -/
theorem Inv.running_held (h : Inv maxConcurrency w) (hrunning : (w.workers i).isRunning = true) :
    i ∈ w.held := by
  have hworker : w.workers i = .running := by
    cases hw : w.workers i <;> simp_all [Worker.isRunning]
  have hacquired : i ∈ w.acquired := h.worker i (by simp [hworker])
  have hreleased : i ∉ w.released := by
    intro hmem
    have hover := (h.ended i hmem).2
    rw [hworker] at hover
    contradiction
  exact List.mem_append_left _ (List.mem_filter.mpr ⟨hacquired, by simpa using hreleased⟩)

/-- Free permits and held slots add up to the limit, at most as many threads run, and a slot is
released once, after its thread has finished: by the call before it returns, or by a callback that
runs when the worker is done. -/
theorem parse_slots_conserved (maxConcurrency : Nat)
    (c : Config World Cmd Request (Option Parsed))
    (h : executorMachine.Reachable .any (.initial maxConcurrency) c) :
    c.world.semaphore.value + c.world.held.length = maxConcurrency ∧ c.world.held.Nodup ∧
    (∀ calls : Finset CallId, (∀ i ∈ calls, (c.world.workers i).isRunning = true) →
      calls.card ≤ maxConcurrency) ∧
    (∀ i ∈ c.world.released, c.world.released.count i = 1 ∧ c.world.acquired.count i = 1 ∧
      (c.world.workers i).isOver = true) ∧
    (∀ i result, c.calls i = .running .parse (.pure result) → i ∈ c.world.acquired →
      i ∈ c.world.released ∨ i ∈ c.world.callbacks) ∧
    ∀ i ∈ c.world.callbacks, i ∈ c.world.acquired ∧ i ∉ c.world.released ∧
      ∀ outcome, c.world.workers i = .done outcome →
        ∃ w, c.world.event (.runCallback i) = some w ∧ i ∈ w.released := by
  have hsound := executorMachine_sound maxConcurrency
  have hinv : Inv maxConcurrency c.world := (hsound.reachable h).1
  refine ⟨hinv.held_length, hinv.held_nodup, ?_, ?_, ?_, ?_⟩
  · intro calls hcalls
    have hsubset : calls ⊆ c.world.held.toFinset := by
      intro i hi
      exact List.mem_toFinset.mpr (hinv.running_held (hcalls i hi))
    calc
      calls.card ≤ c.world.held.toFinset.card := Finset.card_le_card hsubset
      _ ≤ c.world.held.length := List.toFinset_card_le _
      _ ≤ maxConcurrency := by
        have hsum := hinv.held_length
        omega
  · intro i hi
    obtain ⟨hacquired, hover⟩ := hinv.ended i hi
    exact ⟨List.count_eq_one_of_mem hinv.released hi,
      List.count_eq_one_of_mem hinv.acquired hacquired, hover⟩
  · intro i result hi hacquired
    exact hsound.returned h hi rfl hacquired
  · intro i hi
    obtain ⟨hacquired, hreleased⟩ := hinv.deferred i hi
    refine ⟨hacquired, hreleased, fun outcome hdone => ⟨c.world.runCallback i, ?_, ?_⟩⟩
    · simp [World.event, hdone, hi]
    · exact List.mem_cons_self

/-- One slot: a call times out, another waits for the slot, and the callback of the first hands it
over once the thread has ended. -/
def timeoutThenNext : List (Label Choice Request) :=
  [.start 0 .parse, .step 0 .quiet, .step 0 .quiet, .start 1 .parse, .step 1 .quiet,
    .start 2 (.event (.startThread 0)), .step 2 .quiet, .step 0 .timeout, .step 0 .quiet,
    .start 3 (.event (.finishThread 0 (.error .exception))), .step 3 .quiet,
    .start 4 (.event (.settle 0)), .step 4 .quiet,
    .start 5 (.event (.runCallback 0)), .step 5 .quiet, .step 1 .quiet]

theorem parse_slots_conserved_timeout :
    ∃ c, executorMachine.play .any timeoutThenNext (.initial (.initial 1)) = some c ∧
      c.world.acquired = [1, 0] ∧ c.world.released = [0] ∧
        c.world.semaphore.value + c.world.held.length = 1 := by
  have hrun : (executorMachine.play .any timeoutThenNext (.initial (.initial 1))).map
      (fun c => (c.world.acquired, c.world.released)) = some ([1, 0], [0]) := by rfl
  obtain ⟨c, hc, heq⟩ := Option.map_eq_some_iff.mp hrun
  exact ⟨c, hc, congrArg (·.1) heq, congrArg (·.2) heq,
    (parse_slots_conserved 1 c (Machine.reachable_of_play hc)).1⟩

end Execution
end Resumes
end HireAndTech
