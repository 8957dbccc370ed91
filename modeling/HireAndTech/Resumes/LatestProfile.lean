import HireAndTech.Resumes.Commits

/-!
# The profile that searches rank with

Recommendations and searches take the owner's candidate profile with the latest
{lit}`updated_at`.  The query does not look at the resume of the profile, and deleting
a resume keeps its profile row.

Main results:

- Theorem {lit}`latest_profile_active`: as long as every retired resume has a profile
  that is older than another one of its owner, the latest profile belongs to an
  active resume.
- Theorem {lit}`latest_profile_of_deleted`: after an upload and a deletion the latest
  profile is that of the deleted resume.
-/

namespace HireAndTech
namespace Resumes

open Interleaving

/-! ## The property and its condition -/

/-- The answers of `CandidateProfileRepository.get_latest_owned`: `ORDER BY updated_at
DESC LIMIT 1`, which leaves open which of several latest profiles is returned. -/
def Database.GetLatestOwned (db : Database) (ownerProfileId : UUID) :
    Option CandidateProfile → Prop
  | none => ∀ p ∈ db.profiles, p.ownerProfileId ≠ ownerProfileId
  | some p => p ∈ db.profiles ∧ p.ownerProfileId = ownerProfileId ∧
      ∀ q ∈ db.profiles, q.ownerProfileId = ownerProfileId → q.updatedAt ≤ p.updatedAt

/-- Every answer belongs to a resume that is not deleted, and there is none when the
owner has no active parsed resume. -/
def LatestActive (db : Database) : Prop :=
  ∀ owner answer, db.GetLatestOwned owner answer →
    (∀ p, answer = some p → ∃ r ∈ db.resumes, r.id = p.resumeId ∧ r.ownerProfileId = owner ∧
      r.status ≠ .deleted) ∧
    ((∀ r ∈ db.resumes, r.ownerProfileId = owner → r.status ≠ .parsed) → answer = none)

/-- Another profile of the owner is strictly newer. -/
def Database.superseded (db : Database) (p : CandidateProfile) : Bool :=
  db.profiles.any fun q => q.ownerProfileId = p.ownerProfileId && p.updatedAt < q.updatedAt

/-- The unit of work retires only resumes whose profile is superseded, or is older than
the profile that it inserts. -/
def supersedes (db : Database) (now : Time) (u : UnitOfWork) : Bool :=
  u.retire.all fun ct => db.profiles.all fun p =>
    p.resumeId ≠ ct.1.id || db.superseded p || (u.insertProfile.isSome && p.updatedAt < now)

/-- The runs in which every retirement that commits is of a resume with a superseded profile. -/
def supersedingRetirements : Regime World Cmd Choice Request where
  starts _ _ := true
  allows w _ cmd ch :=
    match cmd, ch.outcome with
    | .flushCommit u, .fresh id =>
        !(w.db.flush u (w.now + ch.elapsed) id).isOk || supersedes w.db (w.now + ch.elapsed) u
    | _, _ => true

/-- A unit of work that commits under this regime supersedes the profiles that it retires. -/
theorem supersedes_of_flushCommit {env : Env} {i : CallId} {r : Request} {u : UnitOfWork}
    {ch : Choice} {w w' : World} {f : Flushed}
    (hallow : supersedingRetirements.allows w r (.flushCommit u) ch = true)
    (he : exec env i (.flushCommit u) ch w = some (.ok f, w')) :
    supersedes w.db (w.now + ch.elapsed) u = true := by
  obtain ⟨id, houtcome, hflush⟩ := exec_flushCommit_ok he
  simpa [supersedingRetirements, houtcome, hflush, Except.isOk, Except.toBool] using hallow

/-! ## The invariant -/

/-- Every profile belongs to a parsed resume, or to a deleted one and is superseded. -/
def ProfilesCurrent (db : Database) : Prop :=
  ∀ p ∈ db.profiles, ∀ r ∈ db.resumes, r.id = p.resumeId →
    r.status = .parsed ∨ (r.status = .deleted ∧ db.superseded p = true)

theorem superseded_iff {db : Database} {p : CandidateProfile} :
    db.superseded p = true ↔
      ∃ q ∈ db.profiles, q.ownerProfileId = p.ownerProfileId ∧ p.updatedAt < q.updatedAt := by
  simp [Database.superseded]

theorem ProfilesCurrent.latestActive {db : Database} (hdb : db.Constraints)
    (h : ProfilesCurrent db) : LatestActive db := by
  -- the resume of a latest profile is parsed, for nothing supersedes the profile
  have hparsed : ∀ owner p, db.GetLatestOwned owner (some p) →
      ∃ r ∈ db.resumes, r.id = p.resumeId ∧ r.ownerProfileId = owner ∧ r.status = .parsed := by
    rintro owner p ⟨hp, howner, hlatest⟩
    obtain ⟨r, hr, hid, hrowner⟩ := hdb.profile_owned p hp
    refine ⟨r, hr, hid, hrowner.trans howner, ?_⟩
    rcases h p hp r hr hid with hstatus | ⟨_, hsuperseded⟩
    · exact hstatus
    · obtain ⟨q, hq, hqowner, hnewer⟩ := superseded_iff.mp hsuperseded
      exact absurd hnewer (Nat.not_lt.mpr (hlatest q hq (hqowner.trans howner)))
  intro owner answer hanswer
  refine ⟨?_, fun hnone => ?_⟩
  · rintro p rfl
    obtain ⟨r, hr, hid, hrowner, hstatus⟩ := hparsed owner p hanswer
    exact ⟨r, hr, hid, hrowner, by simp [hstatus]⟩
  · cases answer with
    | none => rfl
    | some p =>
        obtain ⟨r, hr, _, hrowner, hstatus⟩ := hparsed owner p hanswer
        exact absurd hstatus (hnone r hr hrowner)

section

variable {env : Env} {i : CallId} {r : Request} {w w' : World}
variable {β : Type} {cmd : Cmd β} {b : β} {ch : Choice}

/-- An inserted profile belongs to the inserted resume, which is parsed, and to the owner
of the resume that the commit retires. -/
theorem Commits.inserts_profile {u : UnitOfWork} (h : Commits env i w r u)
    {p : CandidateProfile} (hp : u.insertProfile = some p) :
    ∃ x, u.insertResume = some x ∧ x.id = p.resumeId ∧ x.status = .parsed ∧
      ∀ current t, u.retire = some (current, t) → current.ownerProfileId = p.ownerProfileId := by
  cases h with
  | persist hstored hshape =>
      rcases hshape with ⟨rfl, parsed, rfl⟩ | ⟨_, rfl⟩
      · cases hp
        exact ⟨_, rfl, rfl, rfl, by simp⟩
      · contradiction
  | replace hstored hloaded hactive howner =>
      cases hp
      refine ⟨_, rfl, rfl, rfl, ?_⟩
      rintro current t ⟨⟩
      exact howner
  | _ => contradiction

/-- A commit keeps the profiles current. -/
theorem ProfilesCurrent.flushCommit {u : UnitOfWork} {b : Except DbError Flushed}
    (hw : Coherent w) (hw' : Coherent w') (hu : Commits env i w r u)
    (hallow : supersedingRetirements.allows w r (.flushCommit u) ch = true)
    (he : exec env i (.flushCommit u) ch w = some (b, w')) (h : ProfilesCurrent w.db) :
    ProfilesCurrent w'.db := by
  rcases exec_flushCommit he with ⟨e, rfl, hdb, _⟩ | ⟨f, rfl, _, _, hnow, hflush, _⟩
  · rw [hdb]
    exact h
  have hallow := supersedes_of_flushCommit hallow he
  obtain ⟨_, _, _, hdb⟩ := flush_eq_ok hflush
  have hkept : ∀ p, w.db.superseded p = true → w'.db.superseded p = true := by
    intro p hp
    obtain ⟨q, hq, howner, hnewer⟩ := superseded_iff.mp hp
    refine superseded_iff.mpr ⟨q, ?_, howner, hnewer⟩
    rw [hdb]
    exact mem_write_profiles.mpr (Or.inl hq)
  intro p hp x' hx' hid
  have hp' := hp
  rw [hdb] at hp'
  rcases mem_write_profiles.mp hp' with hold | ⟨q, hq, rfl⟩
  · -- an old profile still belongs to its resume, which may have been retired just now
    obtain ⟨y, hy, hyid, hyowner⟩ := hw.constraints.profile_owned p hold
    cases hretire : u.retire with
    | none =>
        have hy' : y ∈ w'.db.resumes := by
          rw [hdb]
          exact mem_write_resumes.mpr (Or.inl ⟨y, hy, Or.inr ⟨hretire, rfl⟩⟩)
        rw [hw'.constraints.resume_eq hx' hy' (hid.trans hyid.symm)]
        exact (h p hold y hy hyid).imp_right fun hs => ⟨hs.1, hkept p hs.2⟩
    | some ct =>
        obtain ⟨current, t⟩ := ct
        have hy' : retireRow current t y ∈ w'.db.resumes := by
          rw [hdb]
          exact mem_write_resumes.mpr (Or.inl ⟨y, hy, Or.inl ⟨current, t, hretire, rfl⟩⟩)
        rw [hw'.constraints.resume_eq hx' hy' (by simp [hid, hyid])]
        cases hm : matchesVersion current y with
        | false =>
            rw [retireRow_of_not_matches hm]
            exact (h p hold y hy hyid).imp_right fun hs => ⟨hs.1, hkept p hs.2⟩
        | true =>
            refine Or.inr ⟨(retireRow_of_matches hm).1, ?_⟩
            have hcurrent : p.resumeId = current.id :=
              hyid.symm.trans (matchesVersion_iff.mp hm).1
            simp only [supersedes, hretire, Option.all_some, List.all_eq_true] at hallow
            have hcond := hallow p hold
            simp only [hcurrent, ne_eq, not_true_eq_false, decide_false, Bool.false_or,
              Bool.or_eq_true, Bool.and_eq_true, decide_eq_true_eq] at hcond
            rcases hcond with hsuperseded | ⟨hinsert, hnewer⟩
            · exact hkept p hsuperseded
            · obtain ⟨q, hq⟩ := Option.isSome_iff_exists.mp hinsert
              obtain ⟨_, _, _, _, howner⟩ := hu.inserts_profile hq
              obtain ⟨⟨z, hz, hzid, hzowner, _⟩, _⟩ := hu.retires hretire
              have hyz : y = z := hw.constraints.resume_eq hy hz
                ((matchesVersion_iff.mp hm).1.trans hzid.symm)
              refine superseded_iff.mpr ⟨{ q with updatedAt := f.now }, ?_, ?_, ?_⟩
              · rw [hdb]
                exact mem_write_profiles.mpr (Or.inr ⟨q, hq, rfl⟩)
              · show q.ownerProfileId = p.ownerProfileId
                rw [← howner current t hretire, ← hzowner, ← hyz, hyowner]
              · show p.updatedAt < f.now
                rw [hnow]
                exact hnewer
  · obtain ⟨x, hx, hxid, hstatus, _⟩ := hu.inserts_profile hq
    have hx'' : { x with version := 1, createdAt := f.now } ∈ w'.db.resumes := by
      rw [hdb]
      exact mem_write_resumes.mpr (Or.inr ⟨x, hx, rfl⟩)
    rw [hw'.constraints.resume_eq hx' hx'' (hid.trans hxid.symm)]
    exact Or.inl hstatus

/-- One command keeps the profiles current. -/
theorem ProfilesCurrent.exec (hw : Coherent w) (hw' : Coherent w')
    (hissues : Issues env i r w cmd) (hallow : supersedingRetirements.allows w r cmd ch = true)
    (he : exec env i cmd ch w = some (b, w')) (h : ProfilesCurrent w.db) :
    ProfilesCurrent w'.db := by
  cases cmd with
  | flushCommit u => exact h.flushCommit hw hw' hissues hallow he
  | uuid4 owner =>
      obtain ⟨_, hdb, _⟩ := exec_uuid4 he
      exact hdb ▸ h
  | storageUpload key =>
      obtain ⟨_, _, hdb, _⟩ := exec_storageUpload he
      exact hdb ▸ h
  | storageDelete key =>
      obtain ⟨_, _, hdb, _⟩ := exec_storageDelete he
      exact hdb ▸ h
  | _ =>
      obtain ⟨hdb, _⟩ := exec_quiet rfl he
      exact hdb ▸ h

end

/-! ## Main result -/

/-- In every run whose retirements are of resumes with superseded profiles, the latest
profile of every owner belongs to an active resume. -/
theorem latest_profile_active (env : Env) {w₀ : World} (h : Initial w₀)
    (hprofiles : ProfilesCurrent w₀.db)
    {c : Config World Cmd Request (Except ServiceError Reply)}
    (hc : (resumeMachine env).Reachable supersedingRetirements w₀ c) :
    LatestActive c.world.db := by
  have hcurrent : Coherent c.world ∧ ProfilesCurrent c.world.db :=
    (resumeSound env h).invariant (J := fun w => Coherent w ∧ ProfilesCurrent w.db)
      ⟨h.coherent, hprofiles⟩
      (fun _ _ _ _ _ _ _ _ _ hw hw' _ hissues hallow he hJ =>
        ⟨hw', hJ.2.exec hw hw' hissues hallow he⟩)
      (fun i w hw hJ => ⟨(close_coherent (i := i) hw).1, hJ.2⟩) hc
  exact hcurrent.2.latestActive hcurrent.1.constraints

/-- A replacement that runs to its end. -/
def plainReplacement : List (Label Choice Request) :=
  [.start 0 (.replace 1 7 sampleFile), .step 0 ⟨0, .quiet⟩, .step 0 ⟨0, .fresh 2⟩,
    .step 0 ⟨0, .quiet⟩, .step 0 ⟨0, .fresh 3⟩, .step 0 ⟨0, .storage .done⟩,
    .step 0 ⟨0, .parse (.parsed sampleParsed)⟩, .step 0 ⟨0, .quiet⟩, .step 0 ⟨0, .quiet⟩,
    .step 0 ⟨0, .fresh 4⟩, .step 0 ⟨0, .storage .done⟩, .step 0 ⟨0, .fresh 5⟩, .finish 0]

theorem latest_profile_active_plainReplacement : ∃ c,
    (resumeMachine defaultEnv).play supersedingRetirements plainReplacement
        (.initial oneResume) = some c ∧
      c.world.db.resumes.map (fun r => (r.id, r.status)) = [(1, .deleted), (2, .parsed)] ∧
      LatestActive c.world.db := by
  have hrun : ((resumeMachine defaultEnv).play supersedingRetirements plainReplacement
      (.initial oneResume)).map (·.world.db.resumes.map fun r => (r.id, r.status)) =
        some [(1, .deleted), (2, .parsed)] := by decide
  obtain ⟨c, hc, hrows⟩ := Option.map_eq_some_iff.mp hrun
  exact ⟨c, hc, hrows, latest_profile_active defaultEnv initial_oneResume
    (by simp [ProfilesCurrent, oneResume, newResume]) (Machine.reachable_of_play hc)⟩

/-- An upload and then the deletion of the resume, both running to their end. -/
def uploadThenDelete : List (Label Choice Request) :=
  [.start 0 (.upload 7 sampleFile), .step 0 ⟨0, .fresh 1⟩, .step 0 ⟨0, .quiet⟩,
    .step 0 ⟨0, .fresh 2⟩, .step 0 ⟨0, .storage .done⟩, .step 0 ⟨0, .quiet⟩,
    .step 0 ⟨0, .parse (.parsed sampleParsed)⟩, .step 0 ⟨0, .fresh 3⟩, .finish 0,
    .start 1 (.delete 1 7), .step 1 ⟨60, .quiet⟩, .step 1 ⟨0, .quiet⟩, .step 1 ⟨0, .quiet⟩,
    .step 1 ⟨0, .fresh 4⟩, .step 1 ⟨0, .storage .done⟩, .step 1 ⟨0, .fresh 5⟩, .finish 1]

theorem latest_profile_of_deleted : ∃ c,
    (resumeMachine defaultEnv).play .any uploadThenDelete (.initial .empty) = some c ∧
      ¬ LatestActive c.world.db := by
  have hrun : ((resumeMachine defaultEnv).play .any uploadThenDelete (.initial .empty)).map
      (fun c => (c.world.db.resumes.map (·.status), c.world.db.profiles)) =
        some ([.deleted], [newProfile 1 7 sampleParsed]) := by decide
  obtain ⟨c, hc, hdb⟩ := Option.map_eq_some_iff.mp hrun
  obtain ⟨hstatus, hprofiles⟩ := Prod.mk.inj hdb
  refine ⟨c, hc, fun h => ?_⟩
  have hlatest : c.world.db.GetLatestOwned 7 (some (newProfile 1 7 sampleParsed)) := by
    simp [Database.GetLatestOwned, hprofiles, newProfile]
  obtain ⟨r, hr, _, _, hactive⟩ := (h 7 _ hlatest).1 _ rfl
  have hdeleted : r.status ∈ c.world.db.resumes.map (·.status) := List.mem_map_of_mem hr
  rw [hstatus, List.mem_singleton] at hdeleted
  exact hactive hdeleted

end Resumes
end HireAndTech
