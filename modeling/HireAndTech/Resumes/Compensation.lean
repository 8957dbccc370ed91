import HireAndTech.Resumes.Calls

/-!
# Compensation after a rollback

A call that fails after it has stored its object rolls its session back and then
reads the object key from its reservation.  The rollback has expired the
reservation, so the read raises, and the compensation does not run.  Only a
replacement whose parse executor fails has no transaction in progress when it rolls
back.

Main results:

- Theorem {lit}`compensated_iff`: the failures for which the compensation runs.
- Theorem {lit}`executor_failure_not_compensated`: an upload whose executor fails
  leaves its object, and its caller receives another error.
-/

namespace HireAndTech
namespace Resumes

open Interleaving

/-- The requests that store a new resume. -/
def Request.storesResume : Request → Bool
  | .upload _ _ | .replace _ _ _ => true
  | _ => false

/-- A failed upload or replacement has compensated when it returns if and only if it
could still read its reservation: it is a replacement, its executor failed, and a
rollback outside of a transaction expires nothing. -/
theorem compensated_iff (env : Env) {w₀ : World} (h : Initial w₀)
    {c : Config World Cmd Request (Except ServiceError Reply)}
    (hc : (resumeMachine env).Reachable .any w₀ c) {i : CallId} {r : Request}
    {res : Raises Reply} (hr : r.storesResume = true)
    (hi : (c.calls i).returned = some (r, res)) {key : ObjectKey} {cause : Cause}
    {rest : List Event} (hfail : failureOf (c.world.events i) = some (key, cause, rest)) :
    Compensated r key cause rest res c.world ↔
      cause = .executor ∧ (∃ resumeId owner file, r = .replace resumeId owner file) ∧
        env.rollbackAlwaysExpires = false := by
  have hpost : Post env i r res c.world :=
    (resumeSound env h).returned hc (CallState.returned_eq_some hi)
  have hends : EndsFailed env r key cause rest res c.world := by
    cases r with
    | upload owner file => exact (hpost key cause rest hfail).2
    | replace resumeId owner file => exact (hpost key cause rest hfail).2
    | _ => contradiction
  have hreadable : reservationReadable env r cause = true ↔ cause = .executor ∧
      (∃ resumeId owner file, r = .replace resumeId owner file) ∧
        env.rollbackAlwaysExpires = false := by
    cases r <;> cases cause <;> simp [reservationReadable]
  rw [← hreadable]
  unfold EndsFailed at hends
  constructor
  · rintro ⟨_, success, rest', hrest, _⟩
    by_contra hread
    rw [if_neg hread] at hends
    rw [hends.1] at hrest
    contradiction
  · intro hread
    rwa [if_pos hread] at hends

/-- A resume is uploaded, and the parse executor fails on its replacement. -/
def failedReplacement : List (Label Choice Request) :=
  [.start 0 (.upload 7 sampleFile), .step 0 ⟨0, .fresh 1⟩, .step 0 ⟨0, .quiet⟩,
    .step 0 ⟨0, .fresh 2⟩, .step 0 ⟨0, .storage .done⟩, .step 0 ⟨0, .quiet⟩,
    .step 0 ⟨0, .parse (.parsed sampleParsed)⟩, .step 0 ⟨0, .fresh 3⟩, .finish 0,
    .start 1 (.replace 1 7 sampleFile), .step 1 ⟨0, .quiet⟩, .step 1 ⟨0, .fresh 4⟩,
    .step 1 ⟨0, .quiet⟩, .step 1 ⟨0, .fresh 5⟩, .step 1 ⟨0, .storage .done⟩,
    .step 1 ⟨0, .parse .executionError⟩, .step 1 ⟨0, .quiet⟩, .step 1 ⟨0, .quiet⟩,
    .step 1 ⟨0, .storage .done⟩, .step 1 ⟨0, .fresh 6⟩]

theorem compensated_failedReplacement : ∃ c rest,
    (resumeMachine defaultEnv).play .any failedReplacement (.initial .empty) = some c ∧
      Compensated (.replace 1 7 sampleFile) (buildResumeObjectKey 7 4) .executor rest
        (.error parserUnavailable : Raises Reply) c.world := by
  have hrun : ((resumeMachine defaultEnv).play .any failedReplacement (.initial .empty)).map
      (fun c => ((c.calls 1).returned, failureOf (c.world.events 1))) =
        some (some (.replace 1 7 sampleFile, .error parserUnavailable),
          some (buildResumeObjectKey 7 4, .executor,
            [.removed (buildResumeObjectKey 7 4) true, .committed { deleteCleanups := [5] }])) := by
    rfl
  obtain ⟨c, hc, hcalls⟩ := Option.map_eq_some_iff.mp hrun
  obtain ⟨hreturned, hfail⟩ := Prod.mk.inj hcalls
  exact ⟨c, _, hc, (compensated_iff defaultEnv initial_empty (Machine.reachable_of_play hc) rfl
    hreturned hfail).mpr ⟨rfl, ⟨1, 7, sampleFile, rfl⟩, rfl⟩⟩

/-- An upload whose parse executor fails. -/
def failedUpload : List (Label Choice Request) :=
  [.start 0 (.upload 7 sampleFile), .step 0 ⟨0, .fresh 1⟩, .step 0 ⟨0, .quiet⟩,
    .step 0 ⟨0, .fresh 2⟩, .step 0 ⟨0, .storage .done⟩, .step 0 ⟨0, .quiet⟩,
    .step 0 ⟨0, .parse .executionError⟩, .step 0 ⟨0, .quiet⟩, .step 0 ⟨0, .quiet⟩]

theorem executor_failure_not_compensated : ∃ c res rest,
    (resumeMachine defaultEnv).play .any failedUpload (.initial .empty) = some c ∧
      (c.calls 0).returned = some (.upload 7 sampleFile, res) ∧
      failureOf (c.world.events 0) = some (buildResumeObjectKey 7 1, .executor, rest) ∧
      c.world.objects = [buildResumeObjectKey 7 1] ∧
      ¬ Compensated (.upload 7 sampleFile) (buildResumeObjectKey 7 1) .executor rest res
        c.world := by
  have hrun : ((resumeMachine defaultEnv).play .any failedUpload (.initial .empty)).map
      (fun c => ((c.calls 0).returned, failureOf (c.world.events 0), c.world.objects)) =
        some (some (.upload 7 sampleFile, .error .missingGreenlet),
          some (buildResumeObjectKey 7 1, .executor, []), [buildResumeObjectKey 7 1]) := by
    rfl
  obtain ⟨c, hc, hcalls⟩ := Option.map_eq_some_iff.mp hrun
  simp only [Prod.mk.injEq] at hcalls
  obtain ⟨hreturned, hfail, hobjects⟩ := hcalls
  refine ⟨c, _, _, hc, hreturned, hfail, hobjects, ?_⟩
  rintro ⟨_, success, rest', hrest, _⟩
  contradiction

end Resumes
end HireAndTech
