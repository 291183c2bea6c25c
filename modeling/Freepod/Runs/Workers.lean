import Freepod.Platform.Step

/-!
# What a worker's step does

One inversion lemma for each commit of a turn: the stage the worker was in, the rows it read, what
it wrote, and the stage it is in afterwards.
-/

namespace Freepod
open Base

variable {cfg : Settings} {s t : State} {a : Action} {w : WorkerId}

theorem claimJob_ok {skipped : List JobId} (h : claimJob cfg s w skipped = some t) :
    s.workers w = none ∧ ∃ j jobs, claimNextJob cfg s.now s.jobs w skipped = some (j, jobs) ∧
      t = { s with
        jobs := jobs
        workers := Function.update s.workers w (some ⟨j.id, j.deploymentId, .claimed⟩) } := by
  unfold claimJob at h
  split at h
  · cases h
  · rename_i hw
    obtain ⟨⟨j, jobs⟩, hc, h⟩ := Option.bind_eq_some_iff.mp h
    cases h
    exact ⟨hw, j, jobs, hc, rfl⟩

/-- the stage and the releases after the claim of the release, by what the worker read -/
inductive ReleaseClaim (s : State) (d : Deployment) : Stage → Table DeploymentRelease → Prop
  | deleted (deleted : d.deletedAt ≠ none) :
      ReleaseClaim s d (.releaseClaimed ⟨some d, none, none⟩ none none) s.releases
  | missing (live : d.deletedAt = none) (missing : s.releases.get? d.desiredReleaseId = none) :
      ReleaseClaim s d
        (.applied d none none (failure s.now d "Deployment's desired release is missing"))
        s.releases
  | current (r : DeploymentRelease) (live : d.deletedAt = none)
      (row : s.releases.get? d.desiredReleaseId = some r)
      (same : d.appliedReleaseId = some r.id) :
      ReleaseClaim s d (.releaseClaimed ⟨some d, some r, none⟩ (some r.id) none) s.releases
  | again (r : DeploymentRelease) (live : d.deletedAt = none)
      (row : s.releases.get? d.desiredReleaseId = some r) (differs : d.appliedReleaseId ≠ some r.id)
      (started : r.startedAt ≠ none) :
      ReleaseClaim s d (.releaseClaimed ⟨some d, some r, none⟩ (some r.id) (some r.id)) s.releases
  | first (r : DeploymentRelease) (live : d.deletedAt = none)
      (row : s.releases.get? d.desiredReleaseId = some r) (differs : d.appliedReleaseId ≠ some r.id)
      (queued : r.startedAt = none) (releases : Table DeploymentRelease)
      (put : s.releases.put? { r with startedAt := some s.now } = some releases) :
      ReleaseClaim s d (.releaseClaimed .expired (some r.id) (some r.id)) releases

theorem claimRelease_ok (h : claimRelease s w = some t) :
    ∃ job id d stage releases, s.workers w = some ⟨job, id, .claimed⟩ ∧
      s.deployments.get? id = some d ∧ ReleaseClaim s d stage releases ∧
      t = { s with
        releases := releases
        workers := Function.update s.workers w (some ⟨job, id, stage⟩) } := by
  unfold claimRelease at h
  split at h
  · rename_i job id hw
    obtain ⟨d, hd, h⟩ := Option.bind_eq_some_iff.mp h
    split at h
    · rename_i hdel
      cases h
      exact ⟨job, id, d, _, _, hw, hd, .deleted (Option.isSome_iff_ne_none.mp hdel), rfl⟩
    · rename_i hlive
      have hlive : d.deletedAt = none := by simpa using hlive
      split at h
      · rename_i hr
        cases h
        exact ⟨job, id, d, _, _, hw, hd, .missing hlive hr, rfl⟩
      · rename_i r hr
        split at h
        · rename_i hsame
          cases h
          exact ⟨job, id, d, _, _, hw, hd, .current r hlive hr hsame, rfl⟩
        · rename_i hdiff
          split at h
          · rename_i hq
            obtain ⟨releases, hput, h⟩ := Option.bind_eq_some_iff.mp h
            cases h
            exact ⟨job, id, d, _, _, hw, hd, .first r hlive hr hdiff hq releases hput, rfl⟩
          · rename_i hstarted
            cases h
            exact ⟨job, id, d, _, _, hw, hd, .again r hlive hr hdiff hstarted, rfl⟩
  · cases h

/-- the stage and the power rows after the claim of the power row -/
inductive PowerClaim (s : State) (d : Deployment) (session : Session)
    (values release : Option ReleaseId) : Stage → Table DeploymentPower → Prop
  | none (same : (if values.isSome then d.powerToClaim else Option.none) = Option.none) :
      PowerClaim s d session values release
        (.powerClaimed { session with deployment := some d } values release Option.none) s.powers
  | missing (p : PowerId) (row : Option DeploymentRelease) (error : String)
      (differs : values.isSome = true ∧ d.powerToClaim = some p)
      (missing : s.powers.get? p = Option.none) :
      PowerClaim s d session values release
        (.applied d row Option.none (failure s.now d error)) s.powers
  | again (p : PowerId) (row : DeploymentPower)
      (differs : values.isSome = true ∧ d.powerToClaim = some p)
      (found : s.powers.get? p = some row) (started : row.startedAt ≠ Option.none) :
      PowerClaim s d session values release
        (.powerClaimed { session with deployment := some d, power := some row } values release
          (some p)) s.powers
  | first (p : PowerId) (row : DeploymentPower)
      (differs : values.isSome = true ∧ d.powerToClaim = some p)
      (found : s.powers.get? p = some row) (queued : row.startedAt = Option.none)
      (powers : Table DeploymentPower)
      (put : s.powers.put? { row with startedAt := some s.now } = some powers) :
      PowerClaim s d session values release (.powerClaimed .expired values release (some p)) powers

theorem claimPower_ok {x : Effects} (h : claimPower s w x = some t) :
    ∃ job id session values release d stage powers,
      s.workers w = some ⟨job, id, .releaseClaimed session values release⟩ ∧
      readRow session.deployment s.deployments id = some d ∧
      PowerClaim s d session values release stage powers ∧
      t = { s with
        powers := powers
        workers := Function.update s.workers w (some ⟨job, id, stage⟩) } := by
  unfold claimPower at h
  split at h
  · rename_i job id session values release hw
    obtain ⟨d, hd, h⟩ := Option.bind_eq_some_iff.mp h
    refine ⟨job, id, session, values, release, d, ?_⟩
    split at h
    · rename_i hnone
      cases h
      exact ⟨_, _, hw, hd, .none hnone, rfl⟩
    · rename_i p hsome
      have hdiff : values.isSome = true ∧ d.powerToClaim = some p := by
        split at hsome
        · rename_i hv
          exact ⟨hv, hsome⟩
        · cases hsome
      split at h
      · rename_i hp
        cases h
        exact ⟨_, _, hw, hd, .missing p _ _ hdiff hp, rfl⟩
      · rename_i row hp
        split at h
        · rename_i hq
          obtain ⟨powers, hput, h⟩ := Option.bind_eq_some_iff.mp h
          cases h
          exact ⟨_, _, hw, hd, .first p row hdiff hp hq powers hput, rfl⟩
        · rename_i hstarted
          cases h
          exact ⟨_, _, hw, hd, .again p row hdiff hp hstarted, rfl⟩
  · cases h

theorem applyRelease_ok {x : Effects} (h : applyRelease s w x = some t) :
    ∃ job id session values release power d text,
      s.workers w = some ⟨job, id, .powerClaimed session values release power⟩ ∧
      readRow session.deployment s.deployments id = some d ∧
      t = { s with
        cluster := Function.update s.cluster id
          (provision s.now x s.powers (s.cluster id) d values).1
        workers := Function.update s.workers w (some ⟨job, id, .applied d
          (release.bind fun r => readRow session.release s.releases r)
          (power.bind fun p => readRow session.power s.powers p)
          (reconcileResult s.now d text
            (provision s.now x s.powers (s.cluster id) d values).2)⟩) } := by
  unfold applyRelease at h
  split at h
  · rename_i job id session values release power hw
    obtain ⟨d, hd, h⟩ := Option.bind_eq_some_iff.mp h
    cases h
    exact ⟨job, id, session, values, release, power, d, _, hw, hd, rfl⟩
  · cases h

theorem recordOutcome_ok (h : recordOutcome s w = some t) :
    ∃ job id d release power result row releases powers deployments,
      s.workers w = some ⟨job, id, .applied d release power result⟩ ∧
      s.deployments.get? id = some row ∧
      recordRow s.releases release (recordRelease s.now result) = some releases ∧
      recordRow s.powers power (recordPower s.now result) = some powers ∧
      s.deployments.put? (recordDeployment result (release.map DeploymentRelease.id)
        (power.map DeploymentPower.id) d row) = some deployments ∧
      t = { s with
        releases := releases
        powers := powers
        deployments := deployments
        workers := Function.update s.workers w (some ⟨job, id, .recorded result⟩) } := by
  unfold recordOutcome at h
  split at h
  · rename_i job id d release power result hw
    obtain ⟨row, hrow, h⟩ := Option.bind_eq_some_iff.mp h
    obtain ⟨releases, hr, h⟩ := Option.bind_eq_some_iff.mp h
    obtain ⟨powers, hp, h⟩ := Option.bind_eq_some_iff.mp h
    obtain ⟨deployments, hd, h⟩ := Option.bind_eq_some_iff.mp h
    cases h
    exact ⟨job, id, d, release, power, result, row, releases, powers, deployments, hw, hrow, hr, hp,
      hd, rfl⟩
  · cases h

theorem markJob_ok (h : markJob s w = some t) :
    ∃ job id result status error jobs,
      s.workers w = some ⟨job, id, .recorded result⟩ ∧ status ≠ .queued ∧ status ≠ .running ∧
      completeJob s.now s.jobs job status error w = some jobs ∧
      t = { s with jobs := jobs, workers := Function.update s.workers w none } := by
  unfold markJob at h
  split at h
  · rename_i job id result hw
    obtain ⟨jobs, hj, h⟩ := Option.bind_eq_some_iff.mp h
    cases h
    unfold completeTurn at hj
    split at hj
    · exact ⟨job, id, result, .failed, _, jobs, hw, by decide, by decide, hj, rfl⟩
    · exact ⟨job, id, result, .done, _, jobs, hw, by decide, by decide, hj, rfl⟩
  · cases h

theorem crash_ok (h : crash s w = some t) :
    t = { s with workers := Function.update s.workers w none } := by
  unfold crash at h
  split at h
  · cases h
  · cases h
    rfl

/-- a turn before the commit of its outcome -/
def Stage.preCommit : Stage → Bool
  | .recorded _ => false
  | _ => true

/-- a turn between the provisioner's work and the commit of its outcome -/
def Stage.isApplied : Stage → Bool
  | .applied _ _ _ _ => true
  | _ => false

theorem Stage.preCommit_of_isApplied (stage : Stage) (h : stage.isApplied = true) :
    stage.preCommit = true := by
  cases stage with
  | applied d release power result => rfl
  | _ => cases h

/-! ## Which tables a worker's step writes -/

/-- a worker's step moves its own turn alone -/
theorem workers_of_worker (h : step cfg s a = some t) (ha : a.worker = some w) :
    ∃ new, t.workers = Function.update s.workers w new := by
  cases a with
  | claimJob w skipped =>
    cases ha
    obtain ⟨-, j, jobs, -, rfl⟩ := claimJob_ok h
    exact ⟨_, rfl⟩
  | claimRelease w =>
    cases ha
    obtain ⟨job, id, d, stage, releases, -, -, -, rfl⟩ := claimRelease_ok h
    exact ⟨_, rfl⟩
  | claimPower w x =>
    cases ha
    obtain ⟨job, id, session, values, release, d, stage, powers, -, -, -, rfl⟩ := claimPower_ok h
    exact ⟨_, rfl⟩
  | applyRelease w x =>
    cases ha
    obtain ⟨job, id, session, values, release, power, d, text, -, -, rfl⟩ := applyRelease_ok h
    exact ⟨_, rfl⟩
  | recordOutcome w =>
    cases ha
    obtain ⟨job, id, d, release, power, result, row, releases, powers, deployments, -, -, -, -, -,
      rfl⟩ := recordOutcome_ok h
    exact ⟨_, rfl⟩
  | markJob w =>
    cases ha
    obtain ⟨job, id, result, status, error, jobs, -, -, -, -, rfl⟩ := markJob_ok h
    exact ⟨_, rfl⟩
  | crash w =>
    cases ha
    rw [crash_ok h]
    exact ⟨_, rfl⟩
  | _ => cases ha

/-- a worker writes the jobs when it claims one and when it completes the one of its turn -/
theorem jobs_of_worker (h : step cfg s a = some t) (ha : a.worker = some w) :
    t.jobs = s.jobs ∨
      (∃ skipped j, a = .claimJob w skipped ∧
        claimNextJob cfg s.now s.jobs w skipped = some (j, t.jobs)) ∨
      ∃ job id result status error, s.workers w = some ⟨job, id, .recorded result⟩ ∧
        status ≠ .queued ∧ status ≠ .running ∧
        completeJob s.now s.jobs job status error w = some t.jobs := by
  cases a with
  | claimJob w skipped =>
    cases ha
    obtain ⟨-, j, jobs, hc, rfl⟩ := claimJob_ok h
    exact .inr (.inl ⟨skipped, j, rfl, hc⟩)
  | claimRelease w =>
    obtain ⟨job, id, d, stage, releases, -, -, -, rfl⟩ := claimRelease_ok h
    exact .inl rfl
  | claimPower w x =>
    obtain ⟨job, id, session, values, release, d, stage, powers, -, -, -, rfl⟩ := claimPower_ok h
    exact .inl rfl
  | applyRelease w x =>
    obtain ⟨job, id, session, values, release, power, d, text, -, -, rfl⟩ := applyRelease_ok h
    exact .inl rfl
  | recordOutcome w =>
    obtain ⟨job, id, d, release, power, result, row, releases, powers, deployments, -, -, -, -, -,
      rfl⟩ := recordOutcome_ok h
    exact .inl rfl
  | markJob w =>
    cases ha
    obtain ⟨job, id, result, status, error, jobs, hw, hq, hr, hj, rfl⟩ := markJob_ok h
    exact .inr (.inr ⟨job, id, result, status, error, hw, hq, hr, hj⟩)
  | crash w =>
    rw [crash_ok h]
    exact .inl rfl
  | _ => cases ha

/-- a worker writes the deployments when it commits the outcome of its turn -/
theorem deployments_of_worker (h : step cfg s a = some t) (ha : a.worker = some w) :
    t.deployments = s.deployments ∨
      ∃ job id d release power result row,
        s.workers w = some ⟨job, id, .applied d release power result⟩ ∧
        s.deployments.get? id = some row ∧
        s.deployments.put? (recordDeployment result (release.map DeploymentRelease.id)
          (power.map DeploymentPower.id) d row) = some t.deployments := by
  cases a with
  | claimJob w skipped =>
    obtain ⟨-, j, jobs, -, rfl⟩ := claimJob_ok h
    exact .inl rfl
  | claimRelease w =>
    obtain ⟨job, id, d, stage, releases, -, -, -, rfl⟩ := claimRelease_ok h
    exact .inl rfl
  | claimPower w x =>
    obtain ⟨job, id, session, values, release, d, stage, powers, -, -, -, rfl⟩ := claimPower_ok h
    exact .inl rfl
  | applyRelease w x =>
    obtain ⟨job, id, session, values, release, power, d, text, -, -, rfl⟩ := applyRelease_ok h
    exact .inl rfl
  | recordOutcome w =>
    cases ha
    obtain ⟨job, id, d, release, power, result, row, releases, powers, deployments, hw, hrow, -, -,
      hput, rfl⟩ := recordOutcome_ok h
    exact .inr ⟨job, id, d, release, power, result, row, hw, hrow, hput⟩
  | markJob w =>
    obtain ⟨job, id, result, status, error, jobs, -, -, -, -, rfl⟩ := markJob_ok h
    exact .inl rfl
  | crash w =>
    rw [crash_ok h]
    exact .inl rfl
  | _ => cases ha

end Freepod
