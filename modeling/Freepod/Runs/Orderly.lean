import Freepod.Runs.Holding

/-!
# Runs without a reclaim from a live worker

`orderly` is the condition that a job is claimed only when no worker is before the commit of its
outcome on it: a lease that runs out has been left behind by a crash.  Under it the holder of a
job is the only one to touch the job's deployment.

* `untouched_of_other` is the frame: a step of anyone else leaves the deployment alone.
* `ordered_step` is the step lemma, `ordered_of_reach` the run lemma.
-/

namespace Freepod
open Base

/-- no claim takes a job from a worker that has yet to commit its outcome -/
def orderly (cfg : Settings) (s : State) (a : Action) : Prop :=
  ∀ w skipped j jobs, a = .claimJob w skipped →
    claimNextJob cfg s.now s.jobs w skipped = some (j, jobs) →
    ∀ w' turn, s.workers w' = some turn → turn.stage.preCommit = true → turn.job ≠ j.id

variable {cfg : Settings} {s t : State} {a : Action} {w : WorkerId} {id : DeploymentId}
  {d : Deployment}

/-! ## What a worker reads -/

theorem Session.fresh_expired (s : State) (d : Deployment) (values : Option ReleaseId)
    (power : Option PowerId) : Session.expired.Fresh s d values power :=
  ⟨fun _ h => (nomatch h), fun _ h => (nomatch h), fun _ h => (nomatch h)⟩

/-- the row a worker reads is the table's -/
theorem Session.Fresh.readRow_deployment {x : Session} {values : Option ReleaseId}
    {power : Option PowerId} (h : x.Fresh s d values power) (hd : s.deployments.get? id = some d)
    {y : Deployment} (hy : readRow x.deployment s.deployments id = some y) : y = d := by
  unfold readRow at hy
  split at hy
  · rename_i c hc
    cases hy
    exact h.deployment _ hc
  · rw [hd] at hy
    exact (Option.some.inj hy).symm

theorem Session.Fresh.readRow_release {x : Session} {values : Option ReleaseId}
    {power : Option PowerId} (h : x.Fresh s d values power) {k : ReleaseId}
    (hk : values = some k) : readRow x.release s.releases k = s.releases.get? k := by
  unfold readRow
  split
  · rename_i r hr
    obtain ⟨hv, hg⟩ := h.release r hr
    rw [hk, Option.some.injEq] at hv
    rw [hv, hg]
  · rfl

theorem Session.Fresh.readRow_power {x : Session} {values : Option ReleaseId}
    {power : Option PowerId} (h : x.Fresh s d values power) {k : PowerId}
    (hk : power = some k) : readRow x.power s.powers k = s.powers.get? k := by
  unfold readRow
  split
  · rename_i p hp
    obtain ⟨hv, hg⟩ := h.power p hp
    rw [hk, Option.some.injEq] at hv
    rw [hv, hg]
  · rfl

/-- the release row of a turn is the one of the table -/
theorem releaseToClaim_read {x : Session} {power : Option PowerId}
    (h : x.Fresh s d d.valuesRelease power) :
    (d.releaseToClaim.bind fun r => readRow x.release s.releases r) =
      d.releaseToClaim.bind s.releases.get? := by
  cases hc : d.releaseToClaim with
  | none => rfl
  | some k =>
    have hval : d.valuesRelease = some k := by
      unfold Deployment.releaseToClaim at hc
      split at hc
      · rename_i hl
        rw [Deployment.valuesRelease, if_pos hl.1, hc]
      · cases hc
    exact h.readRow_release hval

theorem powerClaimed_read {x : Session} {values : Option ReleaseId}
    (h : x.Fresh s d values d.powerClaimed) :
    (d.powerClaimed.bind fun p => readRow x.power s.powers p) =
      d.powerClaimed.bind s.powers.get? := by
  cases hc : d.powerClaimed with
  | none => rfl
  | some k => exact h.readRow_power hc

theorem valuesRelease_of_live (h : d.deletedAt = none) :
    d.valuesRelease = some d.desiredReleaseId := if_pos h

/-- what the claim of the release leaves in memory -/
theorem stageOk_claimRelease {stage : Stage} {releases : Table DeploymentRelease}
    (hp : Pointed s d) (h : ReleaseClaim s d stage releases)
    (ht : t.releases = releases) : StageOk t d stage := by
  cases h with
  | deleted deleted =>
    refine ⟨⟨fun y hy => (Option.some.inj hy).symm, fun _ h => (nomatch h),
      fun _ h => (nomatch h)⟩, ?_, ?_⟩
    · exact (if_neg deleted).symm
    · exact (if_neg fun h => deleted h.1).symm
  | missing live missing =>
    obtain ⟨r, hr, -⟩ := hp.desired
    rw [missing] at hr
    cases hr
  | current r live row same =>
    have hid : r.id = d.desiredReleaseId := Table.key_of_get? row
    refine ⟨⟨fun y hy => (Option.some.inj hy).symm, fun x hx => ?_, fun _ h => (nomatch h)⟩, ?_, ?_⟩
    · cases hx
      exact ⟨rfl, by rw [ht, hid, row]⟩
    · rw [valuesRelease_of_live live, hid]
    · exact (if_neg fun h => h.2 (hid ▸ same)).symm
  | again r live row differs started =>
    have hid : r.id = d.desiredReleaseId := Table.key_of_get? row
    refine ⟨⟨fun y hy => (Option.some.inj hy).symm, fun x hx => ?_, fun _ h => (nomatch h)⟩, ?_, ?_⟩
    · cases hx
      exact ⟨rfl, by rw [ht, hid, row]⟩
    · rw [valuesRelease_of_live live, hid]
    · rw [Deployment.releaseToClaim, if_pos ⟨live, hid ▸ differs⟩, hid]
  | first r live row differs queued releases put =>
    have hid : r.id = d.desiredReleaseId := Table.key_of_get? row
    refine ⟨Session.fresh_expired _ _ _ _, ?_, ?_⟩
    · rw [valuesRelease_of_live live, hid]
    · rw [Deployment.releaseToClaim, if_pos ⟨live, hid ▸ differs⟩, hid]

/-- what the claim of the power row leaves in memory -/
theorem stageOk_claimPower {session : Session} {values release : Option ReleaseId} {stage : Stage}
    {powers : Table DeploymentPower} (hp : Pointed s d)
    (hok : StageOk s d (.releaseClaimed session values release))
    (h : PowerClaim s d session values release stage powers)
    (hr : t.releases = s.releases) (ht : t.powers = powers) : StageOk t d stage := by
  obtain ⟨hf, hv, hrel⟩ := hok
  have release : ∀ r, session.release = some r →
      values = some r.id ∧ t.releases.get? r.id = some r := fun r h => by
    rw [hr]
    exact hf.release r h
  have live : values.isSome = true ↔ d.deletedAt = none := by
    rw [hv, Deployment.valuesRelease]
    split
    · rename_i h
      exact ⟨fun _ => h, fun _ => rfl⟩
    · rename_i h
      exact ⟨fun hn => (nomatch hn), fun hn => absurd hn h⟩
  have claimed : ∀ {p}, values.isSome = true ∧ d.powerToClaim = some p →
      d.powerClaimed = some p := fun h =>
    (if_pos (live.mp h.1)).trans h.2
  cases h with
  | none same =>
    refine ⟨⟨fun y hy => (Option.some.inj hy).symm, release,
      fun p hp => (nomatch (hf.power p hp).1)⟩, hv, hrel, ?_⟩
    rw [← same, Deployment.powerClaimed]
    simp only [live]
  | missing p row error differs missing =>
    obtain ⟨x, hx, -⟩ := hp.desiredPower p (desired_of_powerClaimed (claimed differs))
    rw [missing] at hx
    cases hx
  | again p row differs found started =>
    have hid : row.id = p := Table.key_of_get? found
    refine ⟨⟨fun y hy => (Option.some.inj hy).symm, release, fun x hx => ?_⟩, hv, hrel,
      (claimed differs).symm⟩
    cases hx
    rw [hid, ht]
    exact ⟨rfl, found⟩
  | first p row differs found queued powers put =>
    exact ⟨Session.fresh_expired _ _ _ _, hv, hrel, (claimed differs).symm⟩

/-! ## One step -/

/-- **a worker touches the deployment of its turn alone, and that before its commit** -/
theorem untouched_worker (ho : Ordered s) (h : step cfg s a = some t) (ha : a.worker = some w)
    (hne : ∀ turn, s.workers w = some turn → turn.stage.preCommit = true → turn.deployment ≠ id) :
    Untouched s t id := by
  cases a with
  | claimJob w skipped =>
    obtain ⟨-, j, jobs, -, rfl⟩ := claimJob_ok h
    exact ⟨rfl, fun _ _ _ => Iff.rfl, fun _ _ _ => Iff.rfl, rfl⟩
  | claimRelease w =>
    cases ha
    obtain ⟨job, id', d, stage, releases, hw, hd, hclaim, rfl⟩ := claimRelease_ok h
    have hid' : id' ≠ id := hne _ hw rfl
    have hdid : d.id = id' := Table.key_of_get? hd
    cases hclaim with
    | first r live row differs queued releases hput =>
      have hr : r.deploymentId = id' := ((ho.pointed id' d hd).release_id row).trans hdid
      have hrow := Table.get?_of_mem (Table.mem_of_get? row)
      exact ⟨rfl, fun k x hx => get?_put?_group DeploymentRelease.deploymentId hput hrow
        (hr ▸ hid') (hr ▸ hid') hx, fun _ _ _ => Iff.rfl, rfl⟩
    | _ => exact ⟨rfl, fun _ _ _ => Iff.rfl, fun _ _ _ => Iff.rfl, rfl⟩
  | claimPower w x =>
    cases ha
    obtain ⟨job, id', session, values, release, d, stage, powers, hw, hd, hclaim, rfl⟩ :=
      claimPower_ok h
    have hid' : id' ≠ id := hne _ hw rfl
    obtain ⟨d', hd', hok⟩ := (ho.turns w _ hw rfl).row
    have hd' : s.deployments.get? id' = some d' := hd'
    obtain rfl := hok.1.readRow_deployment hd' hd
    have hdid : d.id = id' := Table.key_of_get? hd'
    cases hclaim with
    | first p row differs found queued powers hput =>
      have hsame : d.desiredPowerId = some p := by
        have := differs.2
        unfold Deployment.powerToClaim at this
        split at this
        · cases this
        · exact this
      have hr : row.deploymentId = id' :=
        ((ho.pointed id' d hd').power_id hsame found).trans hdid
      have hrow := Table.get?_of_mem (Table.mem_of_get? found)
      exact ⟨rfl, fun _ _ _ => Iff.rfl, fun k x hx => get?_put?_group DeploymentPower.deploymentId
        hput hrow (hr ▸ hid') (hr ▸ hid') hx, rfl⟩
    | _ => exact ⟨rfl, fun _ _ _ => Iff.rfl, fun _ _ _ => Iff.rfl, rfl⟩
  | applyRelease w x =>
    cases ha
    obtain ⟨job, id', session, values, release, power, d, text, hw, -, rfl⟩ := applyRelease_ok h
    have hid' : id' ≠ id := hne _ hw rfl
    exact ⟨rfl, fun _ _ _ => Iff.rfl, fun _ _ _ => Iff.rfl,
      Function.update_of_ne (Ne.symm hid') _ _⟩
  | recordOutcome w =>
    cases ha
    obtain ⟨job, id', d, release, power, result, hw, hd, hr, hp, hput, -, hc, -⟩ :=
      recordOutcome_ordered ho h
    have hid' : id' ≠ id := hne _ hw rfl
    have hdid : d.id = id' := Table.key_of_get? hd
    have pointed := ho.pointed id' d hd
    refine ⟨Table.get?_put?_of_ne hput (by rintro rfl; exact hid' hdid.symm), fun k x hx => ?_,
      fun k x hx => ?_, by rw [hc]⟩
    · rcases hr with ⟨-, hr⟩ | ⟨r, hk, hrow, hput⟩
      · rw [hr]
      · have hrd : r.deploymentId = id' :=
          (pointed.release_id (desired_of_releaseToClaim hk ▸ hrow)).trans hdid
        exact get?_put?_group DeploymentRelease.deploymentId hput hrow (hrd ▸ hid') (hrd ▸ hid') hx
    · rcases hp with ⟨-, hp⟩ | ⟨p, hk, hrow, hput⟩
      · rw [hp]
      · have hpd : p.deploymentId = id' :=
          (pointed.power_id (desired_of_powerClaimed hk) hrow).trans hdid
        exact get?_put?_group DeploymentPower.deploymentId hput hrow (hpd ▸ hid') (hpd ▸ hid') hx
  | markJob w =>
    obtain ⟨job, id', result, status, error, jobs, -, -, -, -, rfl⟩ := markJob_ok h
    exact ⟨rfl, fun _ _ _ => Iff.rfl, fun _ _ _ => Iff.rfl, rfl⟩
  | crash w =>
    rw [crash_ok h]
    exact ⟨rfl, fun _ _ _ => Iff.rfl, fun _ _ _ => Iff.rfl, rfl⟩
  | _ => cases ha

/-- a worker leaves the pointers of a deployment at rows of the deployment -/
theorem pointed_worker (ho : Ordered s) (h : step cfg s a = some t) (ha : a.worker = some w)
    (hd : t.deployments.get? id = some d) : Pointed t d := by
  have kept := kept_of_step h
  rcases deployments_of_worker h ha with he | ⟨job, id', x, release, power, result, row, hw, hrow,
    hput⟩
  · exact (ho.pointed id d (he ▸ hd)).kept kept
  · obtain ⟨x', hx', rfl, rfl, rfl⟩ := (ho.turns w _ hw rfl).row
    have hx' : s.deployments.get? id' = some x := hx'
    rw [hrow] at hx'
    cases hx'
    have hp := ho.pointed id' x hrow
    rw [map_id_releaseToClaim hp, map_id_powerClaimed hp, recordDeployment_self] at hput
    rcases get?_of_put? hput hd with ⟨-, rfl⟩ | ⟨-, hd⟩
    · exact (hp.kept kept).outcome result
    · exact (ho.pointed id d hd).kept kept

/-- a job keeps its row in every step but its holder's and a claim of it -/
theorem get?_jobs_of_step {k : JobId} {j : ReconcileJob} (h : step cfg s a = some t)
    (hj : s.jobs.get? k = some j) (hl : j.lockedBy = some w) (ha : a.worker ≠ some w)
    (hc : ∀ w' skipped j' jobs, a = .claimJob w' skipped →
      claimNextJob cfg s.now s.jobs w' skipped = some (j', jobs) → k ≠ j'.id) :
    t.jobs.get? k = some j := by
  cases hw : a.worker with
  | none =>
    obtain ⟨ids, he, -⟩ := (written_of_step h hw).enqueued
    exact he.get? hj
  | some w' =>
    rcases jobs_of_worker h hw with he | ⟨skipped, j', rfl, hclaim⟩ |
      ⟨job, id', result, status, error, -, -, -, hdone⟩
    · rw [he, hj]
    · obtain ⟨hm, -, -, hput⟩ := claimNextJob_ok hclaim
      rw [← hj]
      exact Table.get?_put?_of_ne hput (hc w' skipped j' _ rfl hclaim)
    · obtain ⟨x, hx, ⟨hlx, hput⟩ | ⟨-, he⟩⟩ := completeJob_ok hdone
      · have hxid : x.id = job := Table.key_of_get? hx
        have hne : k ≠ x.id := by
          rintro rfl
          rw [hxid, hx] at hj
          cases hj
          rw [hl] at hlx
          cases hlx
          exact ha hw
        rw [← hj]
        exact Table.get?_put?_of_ne hput hne
      · rw [he, hj]

/-- a step of anyone else leaves a deployment with a worker before its commit alone -/
theorem untouched_of_other (ho : Ordered s) (h : step cfg s a = some t) {turn : Turn}
    (hw : s.workers w = some turn) (hp : turn.stage.preCommit = true) (ha : a.worker ≠ some w) :
    Untouched s t turn.deployment := by
  have holding := ho.turns w turn hw hp
  cases hwa : a.worker with
  | none => exact untouched_written ho.sound (written_of_step h hwa) (holding.hasOpenJob ho.sound)
  | some w' =>
    refine untouched_worker ho h hwa fun turn' hw' hp' hd => ha ?_
    rw [hwa, ho.unique hw' hw hp' hp hd]

/-- a step of anyone else leaves what a turn before its commit relies on -/
theorem Holding.other (ho : Ordered s) (hok : orderly cfg s a) (h : step cfg s a = some t)
    {turn : Turn} (hw : s.workers w = some turn) (hp : turn.stage.preCommit = true)
    (ha : a.worker ≠ some w) : Holding t w turn := by
  obtain ⟨⟨j, hj, hjd, hl⟩, d, hd, hstage⟩ := ho.turns w turn hw hp
  have hu := untouched_of_other ho h hw hp ha
  have hid : d.id = turn.deployment := Table.key_of_get? hd
  refine ⟨⟨j, get?_jobs_of_step h hj hl ha fun w' skipped j' jobs he hc =>
    hok w' skipped j' jobs he hc w turn hw hp, hjd, hl⟩, d, hu.deployment.trans hd, ?_⟩
  exact hstage.untouched (ho.pointed _ d hd) (hid ▸ hu)

/-- a worker's turn was on the same job before the step, or has just begun -/
theorem turn_of_step (h : step cfg s a = some t) {turn : Turn} (hw : t.workers w = some turn) :
    (∃ turn₀, s.workers w = some turn₀ ∧ turn₀.job = turn.job ∧
        turn₀.deployment = turn.deployment ∧
        (turn.stage.preCommit = true → turn₀.stage.preCommit = true)) ∨
      ∃ skipped j jobs, a = .claimJob w skipped ∧
        claimNextJob cfg s.now s.jobs w skipped = some (j, jobs) ∧
        turn = ⟨j.id, j.deploymentId, .claimed⟩ := by
  by_cases ha : a.worker = some w
  · cases a with
    | claimJob w skipped =>
      cases ha
      obtain ⟨-, j, jobs, hc, rfl⟩ := claimJob_ok h
      exact .inr ⟨skipped, j, jobs, rfl, hc, by simpa [Function.update_self, eq_comm] using hw⟩
    | claimRelease w =>
      cases ha
      obtain ⟨job, id', d, stage, releases, hs, -, -, rfl⟩ := claimRelease_ok h
      rw [show turn = ⟨job, id', stage⟩ by simpa [Function.update_self, eq_comm] using hw]
      exact .inl ⟨_, hs, rfl, rfl, fun _ => rfl⟩
    | claimPower w x =>
      cases ha
      obtain ⟨job, id', session, values, release, d, stage, powers, hs, -, -, rfl⟩ :=
        claimPower_ok h
      rw [show turn = ⟨job, id', stage⟩ by simpa [Function.update_self, eq_comm] using hw]
      exact .inl ⟨_, hs, rfl, rfl, fun _ => rfl⟩
    | applyRelease w x =>
      cases ha
      obtain ⟨job, id', session, values, release, power, d, text, hs, -, rfl⟩ := applyRelease_ok h
      rw [show turn = ⟨job, id', _⟩ by simpa [Function.update_self, eq_comm] using hw]
      exact .inl ⟨_, hs, rfl, rfl, fun _ => rfl⟩
    | recordOutcome w =>
      cases ha
      obtain ⟨job, id', d, release, power, result, row, releases, powers, deployments, hs, -, -, -, -,
        rfl⟩ := recordOutcome_ok h
      rw [show turn = ⟨job, id', _⟩ by simpa [Function.update_self, eq_comm] using hw]
      exact .inl ⟨_, hs, rfl, rfl, fun _ => rfl⟩
    | markJob w =>
      cases ha
      obtain ⟨job, id', result, status, error, jobs, -, -, -, -, rfl⟩ := markJob_ok h
      rw [show State.workers _ w = none from Function.update_self _ _ _] at hw
      cases hw
    | crash w =>
      cases ha
      rw [crash_ok h, show State.workers _ w = none from Function.update_self _ _ _] at hw
      cases hw
    | _ => cases ha
  · rw [workers_of_step h ha] at hw
    exact .inl ⟨turn, hw, rfl, rfl, fun hp => hp⟩

/-- the worker that steps relies on what it has just read -/
theorem Holding.own (ho : Ordered s) (h : step cfg s a = some t) (ha : a.worker = some w)
    {turn : Turn} (hw : t.workers w = some turn) (hp : turn.stage.preCommit = true) :
    Holding t w turn := by
  cases a with
  | claimJob w skipped =>
    cases ha
    obtain ⟨-, j, jobs, hc, rfl⟩ := claimJob_ok h
    obtain ⟨hm, -, -, hput⟩ := claimNextJob_ok hc
    have hj := Table.get?_of_mem hm
    obtain ⟨d, hd⟩ := ho.sound.jobDeployment j.id j hj
    rw [show turn = ⟨j.id, j.deploymentId, .claimed⟩ by
      simpa [Function.update_self, eq_comm] using hw]
    exact ⟨⟨_, Table.get?_put?_self (a := j.claim s.now w) hput hj, rfl, rfl⟩, d, hd, trivial⟩
  | claimRelease w =>
    cases ha
    obtain ⟨job, id', d, stage, releases, hws, hd, hclaim, rfl⟩ := claimRelease_ok h
    obtain ⟨hlease, -⟩ := ho.turns w _ hws rfl
    rw [show turn = ⟨job, id', stage⟩ by simpa [Function.update_self, eq_comm] using hw]
    exact ⟨hlease, d, hd, stageOk_claimRelease (ho.pointed id' d hd) hclaim rfl⟩
  | claimPower w x =>
    cases ha
    obtain ⟨job, id', session, values, release, d, stage, powers, hws, hd, hclaim, rfl⟩ :=
      claimPower_ok h
    obtain ⟨hlease, d', hd', hok⟩ := ho.turns w _ hws rfl
    have hd' : s.deployments.get? id' = some d' := hd'
    obtain rfl := hok.1.readRow_deployment hd' hd
    rw [show turn = ⟨job, id', stage⟩ by simpa [Function.update_self, eq_comm] using hw]
    exact ⟨hlease, d, hd', stageOk_claimPower (ho.pointed id' d hd') hok hclaim rfl rfl⟩
  | applyRelease w x =>
    cases ha
    obtain ⟨job, id', session, values, release, power, d, text, hws, hd, rfl⟩ := applyRelease_ok h
    obtain ⟨hlease, d', hd', hf, hv, hr, hpow⟩ := ho.turns w _ hws rfl
    have hd' : s.deployments.get? id' = some d' := hd'
    obtain rfl := hf.readRow_deployment hd' hd
    rw [show turn = ⟨job, id', _⟩ by simpa [Function.update_self, eq_comm] using hw]
    subst hv hr hpow
    exact ⟨hlease, d, hd', rfl, releaseToClaim_read hf, powerClaimed_read hf⟩
  | recordOutcome w =>
    cases ha
    obtain ⟨job, id', d, release, power, result, row, releases, powers, deployments, -, -, -, -, -,
      rfl⟩ := recordOutcome_ok h
    rw [show turn = ⟨job, id', .recorded result⟩ by
      simpa [Function.update_self, eq_comm] using hw] at hp
    cases hp
  | markJob w =>
    cases ha
    obtain ⟨job, id', result, status, error, jobs, -, -, -, -, rfl⟩ := markJob_ok h
    rw [show State.workers _ w = none from Function.update_self _ _ _] at hw
    cases hw
  | crash w =>
    cases ha
    rw [crash_ok h, show State.workers _ w = none from Function.update_self _ _ _] at hw
    cases hw
  | _ => cases ha

/-- a turn with its result at hand had it before the step, or has just called the provisioner -/
theorem applied_of_step (ho : Ordered s) (h : step cfg s a = some t) {job : JobId}
    {release : Option DeploymentRelease} {power : Option DeploymentPower}
    {result : ReconcileResult}
    (hw : t.workers w = some ⟨job, id, .applied d release power result⟩) :
    a.worker ≠ some w ∧ s.workers w = some ⟨job, id, .applied d release power result⟩ ∨
      ∃ x session text, a = .applyRelease w x ∧
        s.workers w =
          some ⟨job, id, .powerClaimed session d.valuesRelease d.releaseToClaim d.powerClaimed⟩ ∧
        s.deployments.get? id = some d ∧
        t.cluster id = (provision s.now x s.powers (s.cluster id) d d.valuesRelease).1 ∧
        result = reconcileResult s.now d text
          (provision s.now x s.powers (s.cluster id) d d.valuesRelease).2 := by
  by_cases ha : a.worker = some w
  · cases a with
    | claimJob w skipped =>
      cases ha
      obtain ⟨-, j, jobs, hc, rfl⟩ := claimJob_ok h
      have hw := (Function.update_self w _ s.workers).symm.trans hw
      cases hw
    | claimRelease w =>
      cases ha
      obtain ⟨job', id', x, stage, releases, -, hx, hclaim, rfl⟩ := claimRelease_ok h
      have hw := (Function.update_self w _ s.workers).symm.trans hw
      cases hw
      cases hclaim with
      | missing live missing =>
        obtain ⟨r, hr, -⟩ := (ho.pointed _ _ hx).desired
        rw [missing] at hr
        cases hr
    | claimPower w x =>
      cases ha
      obtain ⟨job', id', session, values, release', y, stage, powers, hs, hy, hclaim, rfl⟩ :=
        claimPower_ok h
      have hw := (Function.update_self w _ s.workers).symm.trans hw
      cases hw
      obtain ⟨-, z, hz, hf, -⟩ := ho.turns w _ hs rfl
      obtain rfl := hf.readRow_deployment hz hy
      cases hclaim with
      | missing p row error differs missing =>
        have hp : d.desiredPowerId = some p := by
          have := differs.2
          unfold Deployment.powerToClaim at this
          split at this
          · cases this
          · exact this
        obtain ⟨q, hq, -⟩ := (ho.pointed _ d hz).desiredPower p hp
        rw [missing] at hq
        cases hq
    | applyRelease w x =>
      cases ha
      obtain ⟨job', id', session, values, release', power', y, text, hs, hy, rfl⟩ :=
        applyRelease_ok h
      have hw := (Function.update_self w _ s.workers).symm.trans hw
      cases hw
      obtain ⟨-, z, hz, hf, rfl, rfl, rfl⟩ := ho.turns w _ hs rfl
      obtain rfl := hf.readRow_deployment hz hy
      exact .inr ⟨x, session, text, rfl, hs, hz, Function.update_self _ _ _, rfl⟩
    | recordOutcome w =>
      cases ha
      obtain ⟨job', id', y, release', power', result', row, releases, powers, deployments, -, -, -,
        -, -, rfl⟩ := recordOutcome_ok h
      have hw := (Function.update_self w _ s.workers).symm.trans hw
      cases hw
    | markJob w =>
      cases ha
      obtain ⟨job', id', result', status, error, jobs, -, -, -, -, rfl⟩ := markJob_ok h
      have hw := (Function.update_self w _ s.workers).symm.trans hw
      cases hw
    | crash w =>
      cases ha
      rw [crash_ok h] at hw
      have hw := (Function.update_self w _ s.workers).symm.trans hw
      cases hw
    | _ => cases ha
  · rw [workers_of_step h ha] at hw
    exact .inl ⟨ha, hw⟩

/-- what a worker's step does to one deployment -/
inductive WorkerStep (a : Action) (s t : State) (id : DeploymentId) : Prop
  | untouched (same : Untouched s t id)
      (busy : ∀ w turn, s.workers w = some turn → turn.deployment = id →
        turn.stage.isApplied = true → a = .crash w ∨ t.workers w = some turn)
  | claimRelease (w : WorkerId) (job : JobId) (d : Deployment) (r : DeploymentRelease)
      (turn : s.workers w = some ⟨job, id, .claimed⟩) (before : s.deployments.get? id = some d)
      (claimed : d.releaseToClaim = some r.id) (row : s.releases.get? r.id = some r)
      (queued : r.startedAt = none)
      (releases : s.releases.put? { r with startedAt := some s.now } = some t.releases)
      (deployments : t.deployments = s.deployments) (powers : t.powers = s.powers)
      (cluster : t.cluster = s.cluster)
  | claimPower (w : WorkerId) (job : JobId) (session : Session) (values release : Option ReleaseId)
      (d : Deployment) (p : DeploymentPower)
      (turn : s.workers w = some ⟨job, id, .releaseClaimed session values release⟩)
      (before : s.deployments.get? id = some d) (claimed : d.powerClaimed = some p.id)
      (row : s.powers.get? p.id = some p) (queued : p.startedAt = none)
      (powers : s.powers.put? { p with startedAt := some s.now } = some t.powers)
      (deployments : t.deployments = s.deployments) (releases : t.releases = s.releases)
      (cluster : t.cluster = s.cluster)
  | applyRelease (w : WorkerId) (x : Effects) (job : JobId) (session : Session) (d : Deployment)
      (text : String → String) (action : a = .applyRelease w x)
      (turn : s.workers w =
        some ⟨job, id, .powerClaimed session d.valuesRelease d.releaseToClaim d.powerClaimed⟩)
      (before : s.deployments.get? id = some d)
      (cluster : t.cluster id = (provision s.now x s.powers (s.cluster id) d d.valuesRelease).1)
      (stage : t.workers w = some ⟨job, id, .applied d (d.releaseToClaim.bind s.releases.get?)
        (d.powerClaimed.bind s.powers.get?) (reconcileResult s.now d text
          (provision s.now x s.powers (s.cluster id) d d.valuesRelease).2)⟩)
      (deployments : t.deployments = s.deployments) (releases : t.releases = s.releases)
      (powers : t.powers = s.powers)
  | recordOutcome (w : WorkerId) (job : JobId) (d : Deployment)
      (release : Option DeploymentRelease) (power : Option DeploymentPower)
      (result : ReconcileResult)
      (turn : s.workers w = some ⟨job, id, .applied d release power result⟩)
      (before : s.deployments.get? id = some d)
      (releases : d.releaseToClaim = none ∧ t.releases = s.releases ∨
        ∃ r, d.releaseToClaim = some r.id ∧ s.releases.get? r.id = some r ∧
          s.releases.put? (r.finish s.now result) = some t.releases)
      (powers : d.powerClaimed = none ∧ t.powers = s.powers ∨
        ∃ p, d.powerClaimed = some p.id ∧ s.powers.get? p.id = some p ∧
          s.powers.put? (p.finish s.now result) = some t.powers)
      (after : t.deployments.get? id = some (d.outcome result)) (cluster : t.cluster = s.cluster)
      (stage : t.workers w = some ⟨job, id, .recorded result⟩)

/-- **a worker's step does one of four things to a deployment, or leaves it alone** -/
theorem workerStep_of_step (ho : Ordered s) (h : step cfg s a = some t) (ha : a.worker = some w)
    (id : DeploymentId) : WorkerStep a s t id := by
  by_cases hon : ∃ turn, s.workers w = some turn ∧ turn.stage.preCommit = true ∧
      turn.deployment = id
  · obtain ⟨turn, hw, hpre, rfl⟩ := hon
    have busy : turn.stage.isApplied = false → ∀ w' turn', s.workers w' = some turn' →
        turn'.deployment = turn.deployment → turn'.stage.isApplied = true →
        a = .crash w' ∨ t.workers w' = some turn' := fun hst w' turn' hw' _ hst' => by
      refine .inr ((workers_of_step h fun ha' => ?_).trans hw')
      rw [ha, Option.some.injEq] at ha'
      rw [← ha', hw, Option.some.injEq] at hw'
      rw [← hw', hst] at hst'
      cases hst'
    obtain ⟨-, d₀, hd₀, hok⟩ := ho.turns w turn hw hpre
    cases a with
    | claimJob w' skipped =>
      cases ha
      obtain ⟨hidle, -⟩ := claimJob_ok h
      rw [hw] at hidle
      cases hidle
    | claimRelease w' =>
      cases ha
      obtain ⟨job, id', d, stage, releases, hw', hd, hclaim, rfl⟩ := claimRelease_ok h
      rw [hw] at hw'
      cases hw'
      have busy := busy rfl
      cases hclaim with
      | first r live row differs queued releases hput =>
        have hid : r.id = d.desiredReleaseId := Table.key_of_get? row
        refine .claimRelease w job d r hw hd ?_ (hid ▸ row) queued hput rfl rfl rfl
        rw [Deployment.releaseToClaim, if_pos ⟨live, hid ▸ differs⟩, hid]
      | _ => exact .untouched ⟨rfl, fun _ _ _ => Iff.rfl, fun _ _ _ => Iff.rfl, rfl⟩ busy
    | claimPower w' x =>
      cases ha
      obtain ⟨job, id', session, values, release, d, stage, powers, hw', hd, hclaim, rfl⟩ :=
        claimPower_ok h
      rw [hw] at hw'
      cases hw'
      have busy := busy rfl
      obtain rfl := hok.1.readRow_deployment hd₀ hd
      cases hclaim with
      | first p row differs found queued powers hput =>
        have hid : row.id = p := Table.key_of_get? found
        refine .claimPower w job session values release d row hw hd₀ ?_ (hid ▸ found) queued hput
          rfl rfl rfl
        have live : d.deletedAt = none := by
          have := differs.1
          rw [hok.2.1, Deployment.valuesRelease] at this
          split at this
          · assumption
          · cases this
        rw [Deployment.powerClaimed, if_pos live, hid, differs.2]
      | _ => exact .untouched ⟨rfl, fun _ _ _ => Iff.rfl, fun _ _ _ => Iff.rfl, rfl⟩ busy
    | applyRelease w' x =>
      cases ha
      obtain ⟨job, id', session, values, release, power, d, text, hw', hd, rfl⟩ :=
        applyRelease_ok h
      rw [hw] at hw'
      cases hw'
      obtain ⟨hf, rfl, rfl, rfl⟩ := hok
      obtain rfl := hf.readRow_deployment hd₀ hd
      refine .applyRelease w x job session d text rfl hw hd₀ (Function.update_self _ _ _) ?_ rfl rfl
        rfl
      refine (Function.update_self _ _ _).trans ?_
      rw [releaseToClaim_read hf, powerClaimed_read hf]
    | recordOutcome w' =>
      cases ha
      obtain ⟨job, id', d, release, power, result, hw', hd, hr, hp, hput, -, hc, hstage⟩ :=
        recordOutcome_ordered ho h
      rw [hw] at hw'
      cases hw'
      have hid : d.id = id' := Table.key_of_get? hd
      refine .recordOutcome w job d release power result hw hd hr hp ?_ hc ?_
      · subst hid
        exact Table.get?_put?_self (a := d.outcome result) hput hd
      · rw [hstage]
        exact Function.update_self _ _ _
    | markJob w' =>
      cases ha
      obtain ⟨job, id', result, status, error, jobs, hw', -⟩ := markJob_ok h
      rw [hw] at hw'
      cases hw'
      cases hpre
    | crash w' =>
      refine .untouched (by rw [crash_ok h]; exact ⟨rfl, fun _ _ _ => Iff.rfl,
        fun _ _ _ => Iff.rfl, rfl⟩) fun w'' turn' hw'' _ _ => ?_
      by_cases hsame : w'' = w'
      · exact .inl (congrArg Action.crash hsame.symm)
      · refine .inr ((workers_of_step h fun ha' => hsame ?_).trans hw'')
        exact (Option.some.inj ha').symm
    | _ => cases ha
  · refine .untouched (untouched_worker ho h ha fun turn hw hp hd => hon ⟨turn, hw, hp, hd⟩)
      fun w' turn hw' hd hst => .inr ((workers_of_step h fun ha' => hon ?_).trans hw')
    rw [ha, Option.some.injEq] at ha'
    exact ⟨turn, ha' ▸ hw', turn.stage.preCommit_of_isApplied hst, hd⟩

/-- a step does to a deployment what a request or a worker does -/
theorem deploymentStep_of_step (ho : Ordered s) (h : step cfg s a = some t) (id : DeploymentId) :
    RequestStep a s t id ∨ WorkerStep a s t id := by
  cases ha : a.worker with
  | none => exact .inl (requestStep_of_written (written_of_step h ha) id)
  | some w => exact .inr (workerStep_of_step ho h ha id)

/-- **`Ordered` is kept by every orderly step** -/
theorem ordered_step (ho : Ordered s) (hok : orderly cfg s a) (h : step cfg s a = some t) :
    Ordered t := by
  refine ⟨sound_step ho.sound h, fun id d hd => ?_, fun w turn hw hp => ?_⟩
  · cases hwa : a.worker with
    | none => exact pointed_written ho.pointed (written_of_step h hwa) hd
    | some w => exact pointed_worker ho h hwa hd
  · by_cases ha : a.worker = some w
    · exact .own ho h ha hw hp
    · rw [workers_of_step h ha] at hw
      exact .other ho hok h hw hp ha

theorem ordered_of_reach {ok : State → Action → Prop} (ho : Ordered s)
    (hok : ∀ s a, ok s a → orderly cfg s a) (h : (platform cfg).Reach ok s t) : Ordered t :=
  h.invariant ho fun _ a _ ho ha hstep => ordered_step ho (hok _ a ha) hstep

/-! ## Orderly runs of a list of actions -/

/-- the check that a claim by one of the workers `ws` is orderly, when no others are at work -/
def orderlyAmong (cfg : Settings) (ws : List WorkerId) (s : State) (a : Action) : Bool :=
  a.worker.all (fun w => ws.contains w) &&
    match a with
    | .claimJob w skipped =>
      (claimNextJob cfg s.now s.jobs w skipped).all fun claimed =>
        ws.all fun w' => (s.workers w').all fun turn =>
          !turn.stage.preCommit || decide (turn.job ≠ claimed.1.id)
    | _ => true

/-- nobody but the workers `ws` is at work -/
def OnlyAmong (ws : List WorkerId) (s : State) : Prop := ∀ w, w ∉ ws → s.workers w = none

theorem orderly_of_among {ws : List WorkerId} (hidle : OnlyAmong ws s)
    (h : orderlyAmong cfg ws s a = true) : orderly cfg s a := by
  rintro w skipped j jobs rfl hc w' turn hw hp
  simp only [orderlyAmong, Bool.and_eq_true, hc, Option.all_some, List.all_eq_true] at h
  have hmem : w' ∈ ws := by
    by_contra hnot
    rw [hidle w' hnot] at hw
    cases hw
  have := h.2 w' hmem
  rw [hw, Option.all_some, hp] at this
  simpa using this

/-- the evaluation of a list of actions as a run under `orderly` and another condition -/
theorem exists_orderly_of_runIf (cfg : Settings) {ws : List WorkerId} {c : State → Action → Bool}
    {k : State → Action → Prop} (hcheck : ∀ s a, c s a = true → k s a) {l : List Action}
    {p : State → Bool} (hidle : OnlyAmong ws s)
    (h : ((platform cfg).runIf (fun s a => orderlyAmong cfg ws s a && c s a) s l).any p = true) :
    ∃ t, (platform cfg).Reach (fun s a => orderly cfg s a ∧ k s a) s t ∧ OnlyAmong ws t ∧
      p t = true := by
  refine Machine.exists_reach_of_runIf (P := OnlyAmong ws) ?_ ?_ hidle h
  · intro s a t hidle hc hstep w hw
    rw [Bool.and_eq_true] at hc
    have hne : a.worker ≠ some w := by
      intro ha
      have := (Bool.and_eq_true_iff.mp hc.1).1
      rw [ha, Option.all_some, List.contains_iff_mem] at this
      exact hw this
    rw [workers_of_step hstep hne, hidle w hw]
  · intro s a hidle hc
    rw [Bool.and_eq_true] at hc
    exact ⟨orderly_of_among hidle hc.1, hcheck s a hc.2⟩

theorem onlyAmong_init (ws : List WorkerId) : OnlyAmong ws .init := fun _ _ => rfl

end Freepod
