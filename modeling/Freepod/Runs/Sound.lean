import Freepod.Runs.Kept

/-!
# What holds in every run

`Sound` is kept by every step whatever the workers do, crashes and lost leases included: a job has
a deployment, a locked job is running, a deployment awaiting payment has no open job, and a turn
works on a job of its deployment and ends in a settled status.

* `sound_step` is the step lemma, `sound_of_reach` the run lemma.
-/

namespace Freepod
open Base

/-- a status a reconcile ends in -/
def DeploymentStatus.isSettled : DeploymentStatus → Bool
  | ready | error | deleted => true
  | _ => false

/-- the result a stage holds, if any, ends the reconcile -/
def Stage.resultSettled : Stage → Prop
  | .applied _ _ _ result => result.status.isSettled = true
  | .recorded result => result.status.isSettled = true
  | _ => True

/-- the turn works on a job of its deployment -/
def TurnSound (jobs : Table ReconcileJob) (turn : Turn) : Prop :=
  (∃ j, jobs.get? turn.job = some j ∧ j.deploymentId = turn.deployment) ∧ turn.stage.resultSettled

structure Sound (s : State) : Prop where
  jobDeployment : ∀ id j, s.jobs.get? id = some j →
    ∃ d, s.deployments.get? j.deploymentId = some d
  locked : ∀ id j, s.jobs.get? id = some j → j.lockedBy ≠ none → j.status = .running
  pending : ∀ id d, s.deployments.get? id = some d → d.status = .pending → ¬ hasOpenJob s.jobs id
  turns : ∀ w turn, s.workers w = some turn → TurnSound s.jobs turn

variable {cfg : Settings} {s t : State} {a : Action} {w : WorkerId}

theorem sound_init : Sound .init where
  jobDeployment := fun _ _ h => nomatch h
  locked := fun _ _ h => nomatch h
  pending := fun _ _ h => nomatch h
  turns := fun _ _ h => nomatch h

/-! ## Requests -/

theorem Written.workers (h : Written a s t) : t.workers = s.workers := by
  cases h with
  | aside hd hr hj rest => exact rest.workers
  | create r ns values hostname isPaid hd hr hj rest => exact rest.workers
  | update u d values hostname buildId row settled hd hr hj rest => exact rest.workers
  | delete d row leaving hd hr hj rest => exact rest.workers
  | power r d row ready changes hp hd hr hj cluster workers => exact workers
  | paid n info p sub action fetched status payment named first subscription hd hr hj rest =>
    exact rest.workers

/-- a request enqueues jobs for rows that are on their way, or ready to change their power -/
theorem Written.enqueued (h : Written a s t) :
    ∃ ids, Enqueued s.jobs t.jobs ids ∧ ∀ id, ids id → ∃ d, t.deployments.get? id = some d ∧
      (d.status = .provisioning ∨ d.status = .ready ∨
        d.status = .deleting ∧ d.deletedAt ≠ none) := by
  have none : ∀ {jobs}, jobs = s.jobs → ∃ ids, Enqueued s.jobs jobs ids ∧
      ∀ id, ids id → ∃ d, t.deployments.get? id = some d ∧
        (d.status = .provisioning ∨ d.status = .ready ∨
          d.status = .deleting ∧ d.deletedAt ≠ none) := by
    rintro _ rfl
    exact ⟨_, .refl _, fun _ h => h.elim⟩
  cases h with
  | aside hd hr hj rest => exact none hj
  | create r ns values hostname isPaid hd hr hj rest =>
    rcases hj with ⟨-, hj⟩ | ⟨hp, hj⟩
    · exact none hj
    · refine ⟨_, hj, ?_⟩
      rintro _ rfl
      refine ⟨_, Table.get?_insert?_self hd, .inl ?_⟩
      simp [CreateRequest.deployment, hp]
  | update u d values hostname buildId row settled hd hr hj rest =>
    refine ⟨_, hj, ?_⟩
    rintro _ rfl
    have hid : d.id = u.id := Table.key_of_get? row
    exact ⟨_, Table.get?_put?_self (a := u.deployment d values hostname) hd (hid ▸ row), .inl rfl⟩
  | delete d row leaving hd hr hj rest =>
    refine ⟨_, hj, ?_⟩
    rintro _ rfl
    exact ⟨_, Table.get?_put?_self (a := d.markDeleting s.now) hd row,
      .inr (.inr ⟨rfl, fun h => nomatch h⟩)⟩
  | power r d row ready changes hp hd hr hj cluster workers =>
    refine ⟨_, hj, ?_⟩
    rintro _ rfl
    refine ⟨_, Table.get?_put?_self (a := { d with desiredPowerId := some s.powers.nextKey }) hd row,
      .inr (.inl ?_)⟩
    exact ready
  | paid n info p sub action fetched status payment named first subscription hd hr hj rest =>
    rcases hj with ⟨-, hj⟩ | ⟨-, hj⟩
    · refine ⟨_, hj, ?_⟩
      rintro _ ⟨d, hm, hp, rfl⟩
      exact ⟨d, Table.get?_of_mem (mem_subDeployments.mp hm).1, .inl hp⟩
    · exact none hj

/-- a row that is pending after a request was pending before it, or is new and of a new
subscription -/
theorem Written.pending (h : Written a s t) {id : DeploymentId} {d : Deployment}
    (hd : t.deployments.get? id = some d) (hp : d.status = .pending) :
    (∃ d₀, s.deployments.get? id = some d₀ ∧ d₀.status = .pending) ∨
      s.deployments.get? id = none ∧ d.subscriptionId = s.subscriptions.nextKey := by
  cases h with
  | aside h hr hj rest => exact .inl ⟨d, h ▸ hd, hp⟩
  | create r ns values hostname isPaid h hr hj rest =>
    rcases get?_of_insert h hd with ⟨hid, rfl⟩ | ⟨-, hd⟩
    · rw [hid]
      exact .inr ⟨Table.get?_of_insert? h, rfl⟩
    · exact .inl ⟨d, hd, hp⟩
  | update u x values hostname buildId row settled h hr hj rest =>
    rcases get?_of_put? h hd with ⟨-, rfl⟩ | ⟨-, hd⟩
    · cases hp
    · exact .inl ⟨d, hd, hp⟩
  | delete x row leaving h hr hj rest =>
    rcases get?_of_put? h hd with ⟨-, rfl⟩ | ⟨-, hd⟩
    · cases hp
    · exact .inl ⟨d, hd, hp⟩
  | power r x row ready changes hpow h hr hj cluster workers =>
    rcases get?_of_put? h hd with ⟨hid, rfl⟩ | ⟨-, hd⟩
    · rw [show id = x.id from hid]
      exact .inl ⟨x, row, hp⟩
    · exact .inl ⟨d, hd, hp⟩
  | paid n info p sub action fetched status payment named first subscription h hr hj rest =>
    rw [h] at hd
    obtain ⟨d₀, hd₀, rfl⟩ := Option.map_eq_some_iff.mp hd
    refine .inl ⟨d₀, hd₀, ?_⟩
    unfold Deployment.provisioned at hp
    split at hp
    · cases hp
    · exact hp

theorem TurnSound.kept {jobs jobs' : Table ReconcileJob} {turn : Turn} (h : TurnSound jobs turn)
    (hk : ∀ id j, jobs.get? id = some j →
      ∃ j', jobs'.get? id = some j' ∧ j'.deploymentId = j.deploymentId) : TurnSound jobs' turn := by
  obtain ⟨⟨j, hj, hd⟩, hs⟩ := h
  obtain ⟨j', hj', hd'⟩ := hk _ j hj
  exact ⟨⟨j', hj', hd'.trans hd⟩, hs⟩

theorem sound_written (hs : Sound s) (h : Written a s t) : Sound t := by
  have kept := Kept.of_written h
  obtain ⟨ids, he, hids⟩ := h.enqueued
  refine ⟨fun id j hj => ?_, fun id j hj hl => ?_, fun id d hd hp ho => ?_, fun w turn hw => ?_⟩
  · rcases he.fresh j (Table.mem_of_get? hj) with hj | ⟨-, -, hj⟩
    · obtain ⟨d, hd⟩ := hs.jobDeployment j.id j (Table.get?_of_mem hj)
      obtain ⟨d', hd', -⟩ := kept.deployments _ d hd
      exact ⟨d', hd'⟩
    · obtain ⟨d, hd, -⟩ := hids _ hj
      exact ⟨d, hd⟩
  · rcases he.fresh j (Table.mem_of_get? hj) with hj | ⟨-, hn, -⟩
    · exact hs.locked j.id j (Table.get?_of_mem hj) hl
    · exact absurd hn hl
  · rcases he.hasOpenJob_cases ho with ho | hid
    · rcases h.pending hd hp with ⟨d₀, hd₀, hp₀⟩ | ⟨hnone, -⟩
      · exact hs.pending id d₀ hd₀ hp₀ ho
      · obtain ⟨j, hj, -, rfl⟩ := ho
        obtain ⟨d₀, hd₀⟩ := hs.jobDeployment j.id j (Table.get?_of_mem hj)
        rw [hnone] at hd₀
        cases hd₀
    · obtain ⟨d', hd', hst⟩ := hids id hid
      rw [hd] at hd'
      cases hd'
      rw [hp] at hst
      rcases hst with hst | hst | ⟨hst, -⟩
      · cases hst
      · cases hst
      · cases hst
  · rw [h.workers] at hw
    exact (hs.turns w turn hw).kept kept.jobs

/-! ## Workers -/

/-- a provisioner's answer is ready or deleted -/
theorem provision_ok {now : Time} {x : Effects} {powers : Table DeploymentPower}
    {cluster : Option Rendered} {d : Deployment} {values : Option ReleaseId} {r : ReconcileResult}
    (h : (provision now x powers cluster d values).2 = .ok r) :
    r.status = .ready ∧ d.deletedAt = none ∨ r.status = .deleted ∧ d.deletedAt ≠ none := by
  unfold provision at h
  split at h
  · cases h
  split at h
  · rename_i hdel
    unfold reconcileDelete at h
    split at h
    · cases h
    split at h
    · cases h
    split at h
    · cases h
    · cases h
      exact .inr ⟨rfl, by simp [hdel]⟩
  · cases h
  · rename_i hlive
    unfold reconcileApply at h
    split at h
    · cases h
    split at h
    · cases h
    unfold finishApply at h
    split at h
    · cases h
    · cases h
      exact .inl ⟨rfl, hlive⟩

theorem reconcileResult_settled {now : Time} {x : Effects} {powers : Table DeploymentPower}
    {cluster : Option Rendered} {d : Deployment} {values : Option ReleaseId}
    (text : String → String) :
    (reconcileResult now d text (provision now x powers cluster d values).2).status.isSettled =
      true := by
  cases h : (provision now x powers cluster d values).2 with
  | error e => rfl
  | ok r =>
    show r.status.isSettled = true
    rcases provision_ok h with ⟨hr, -⟩ | ⟨hr, -⟩
    · rw [hr]
      rfl
    · rw [hr]
      rfl

/-- the turns after a step that moves one worker -/
theorem turns_update {P : WorkerId → Turn → Prop} {workers : WorkerId → Option Turn}
    {new : Option Turn} (hold : ∀ w' turn, w' ≠ w → workers w' = some turn → P w' turn)
    (hnew : ∀ turn, new = some turn → P w turn) (w' : WorkerId) (turn : Turn)
    (h : Function.update workers w new w' = some turn) : P w' turn := by
  by_cases hw : w' = w
  · subst hw
    rw [Function.update_self] at h
    exact hnew turn h
  · rw [Function.update_of_ne hw] at h
    exact hold w' turn hw h

/-- a claim or a completion of a job opens no job -/
theorem hasOpenJob_of_put? {jobs jobs' : Table ReconcileJob} {j j' : ReconcileJob}
    (h : jobs.put? j' = some jobs') (hj : j ∈ jobs.rows)
    (hopen : j'.isOpen = true → j.isOpen = true) (hd : j'.deploymentId = j.deploymentId)
    {id : DeploymentId} (ho : hasOpenJob jobs' id) : hasOpenJob jobs id := by
  obtain ⟨x, hx, ho, rfl⟩ := ho
  rcases Table.mem_put? h hx with rfl | ⟨hx, -⟩
  · exact ⟨j, hj, hopen ho, hd.symm⟩
  · exact ⟨x, hx, ho, rfl⟩

theorem ReconcileJob.isOpen_complete (j : ReconcileJob) (now : Time) {status : JobStatus}
    (error : Option String) (hq : status ≠ .queued) (hr : status ≠ .running) :
    (j.complete now status error).isOpen = false := by
  show status.isOpen = false
  cases status with
  | queued => exact absurd rfl hq
  | running => exact absurd rfl hr
  | done => rfl
  | failed => rfl

theorem completeJob_opens {now : Time} {jobs jobs' : Table ReconcileJob} {job : JobId}
    {status : JobStatus} {error : Option String} (hq : status ≠ .queued) (hr : status ≠ .running)
    (h : completeJob now jobs job status error w = some jobs') {id : DeploymentId}
    (ho : hasOpenJob jobs' id) : hasOpenJob jobs id := by
  obtain ⟨j, hj, ⟨-, hput⟩ | ⟨-, rfl⟩⟩ := completeJob_ok h
  · refine hasOpenJob_of_put? hput (Table.mem_of_get? hj) (fun hopen => ?_) rfl ho
    rw [j.isOpen_complete now error hq hr] at hopen
    cases hopen
  · exact ho

/-- the deployment's status after the final commit is as it was or the result's -/
theorem status_recordDeployment (result : ReconcileResult) (release : Option ReleaseId)
    (power : Option PowerId) (d row : Deployment) :
    (recordDeployment result release power d row).status = row.status ∧
        result.status = d.status ∨
      (recordDeployment result release power d row).status = result.status := by
  simp only [recordDeployment, flush]
  by_cases h : result.status = d.status
  · exact .inl ⟨if_pos h, h⟩
  · exact .inr (if_neg h)

/-- **`Sound` is kept by every step** -/
theorem sound_step (hs : Sound s) (h : step cfg s a = some t) : Sound t := by
  have kept := kept_of_step h
  cases ha : a.worker with
  | none => exact sound_written hs (written_of_step h ha)
  | some w =>
    have deployments : ∀ j d, s.deployments.get? j = some d → ∃ d', t.deployments.get? j = some d' :=
      fun j d hd => (kept.deployments j d hd).imp fun _ h => h.1
    have old : ∀ w' turn, w' ≠ w → s.workers w' = some turn → TurnSound t.jobs turn :=
      fun w' turn _ hw => (hs.turns w' turn hw).kept kept.jobs
    cases a with
    | claimJob w skipped =>
      cases ha
      obtain ⟨-, j, jobs, hc, rfl⟩ := claimJob_ok h
      obtain ⟨hm, ho, -, hput⟩ := claimNextJob_ok hc
      have hj := Table.get?_of_mem hm
      refine ⟨fun id x hx => ?_, fun id x hx hl => ?_, fun id d hd hp hop => ?_,
        turns_update old fun turn ht => ?_⟩
      · rcases get?_of_put? hput hx with ⟨-, rfl⟩ | ⟨-, hx⟩
        · exact hs.jobDeployment j.id j hj
        · exact hs.jobDeployment id x hx
      · rcases get?_of_put? hput hx with ⟨-, rfl⟩ | ⟨-, hx⟩
        · rfl
        · exact hs.locked id x hx hl
      · exact hs.pending id d hd hp (hasOpenJob_of_put? hput hm (fun _ => ho) rfl hop)
      · cases ht
        exact ⟨⟨_, Table.get?_put?_self (a := j.claim s.now w) hput hj, rfl⟩, trivial⟩
    | claimRelease w =>
      cases ha
      obtain ⟨job, id, d, stage, releases, hw, -, hclaim, rfl⟩ := claimRelease_ok h
      refine ⟨hs.jobDeployment, hs.locked, hs.pending, turns_update old fun turn ht => ?_⟩
      cases ht
      refine ⟨(hs.turns w _ hw).1, ?_⟩
      cases hclaim with
      | missing live missing => rfl
      | _ => trivial
    | claimPower w x =>
      cases ha
      obtain ⟨job, id, session, values, release, d, stage, powers, hw, -, hclaim, rfl⟩ :=
        claimPower_ok h
      refine ⟨hs.jobDeployment, hs.locked, hs.pending, turns_update old fun turn ht => ?_⟩
      cases ht
      refine ⟨(hs.turns w _ hw).1, ?_⟩
      cases hclaim with
      | missing p row error differs missing => rfl
      | _ => trivial
    | applyRelease w x =>
      cases ha
      obtain ⟨job, id, session, values, release, power, d, text, hw, -, rfl⟩ := applyRelease_ok h
      refine ⟨hs.jobDeployment, hs.locked, hs.pending, turns_update old fun turn ht => ?_⟩
      cases ht
      exact ⟨(hs.turns w _ hw).1, reconcileResult_settled text⟩
    | recordOutcome w =>
      cases ha
      obtain ⟨job, id, d, release, power, result, row, releases, powers, table, hw, hrow, hr,
        hpow, hput, rfl⟩ := recordOutcome_ok h
      have hsettled : result.status.isSettled = true := (hs.turns w _ hw).2
      refine ⟨fun k j hj => ?_, hs.locked, fun k x hx hp => ?_, turns_update old fun turn ht => ?_⟩
      · obtain ⟨x, hx⟩ := hs.jobDeployment k j hj
        exact deployments _ x hx
      · rcases get?_of_put? hput hx with ⟨hk, rfl⟩ | ⟨-, hx⟩
        · rcases status_recordDeployment result (release.map DeploymentRelease.id)
            (power.map DeploymentPower.id) d row with ⟨he, -⟩ | he
          · have hrid : row.id = id := Table.key_of_get? hrow
            have hid : k = id := hk.trans hrid
            exact hs.pending k row (hid ▸ hrow) (he ▸ hp)
          · rw [he] at hp
            rw [hp] at hsettled
            cases hsettled
        · exact hs.pending k x hx hp
      · cases ht
        exact ⟨(hs.turns w _ hw).1, hsettled⟩
    | markJob w =>
      cases ha
      obtain ⟨job, id, result, status, error, jobs, hw, hq, hr, hj, rfl⟩ := markJob_ok h
      refine ⟨fun k j hjk => ?_, fun k j hjk hl => ?_, fun k d hd hp ho => ?_,
        turns_update old fun turn ht => nomatch ht⟩
      · obtain ⟨x, hx, ⟨-, hput⟩ | ⟨-, rfl⟩⟩ := completeJob_ok hj
        · rcases get?_of_put? hput hjk with ⟨-, rfl⟩ | ⟨-, hjk⟩
          · exact hs.jobDeployment job x hx
          · exact hs.jobDeployment k j hjk
        · exact hs.jobDeployment k j hjk
      · obtain ⟨x, hx, ⟨-, hput⟩ | ⟨-, rfl⟩⟩ := completeJob_ok hj
        · rcases get?_of_put? hput hjk with ⟨-, rfl⟩ | ⟨-, hjk⟩
          · exact absurd rfl hl
          · exact hs.locked k j hjk hl
        · exact hs.locked k j hjk hl
      · exact hs.pending k d hd hp (completeJob_opens hq hr hj ho)
    | crash w =>
      cases ha
      rw [crash_ok h] at old kept ⊢
      exact ⟨hs.jobDeployment, hs.locked, hs.pending, turns_update old fun turn ht => nomatch ht⟩
    | _ => cases ha

theorem sound_of_reach {ok : State → Action → Prop} (hs : Sound s)
    (h : (platform cfg).Reach ok s t) : Sound t :=
  h.invariant hs fun _ _ _ hs _ hstep => sound_step hs hstep

/-- a worker leaves a status as it is or settles it -/
theorem status_of_worker (hs : Sound s) (h : step cfg s a = some t) (ha : a.worker = some w)
    {id : DeploymentId} {d : Deployment} (hd : t.deployments.get? id = some d) :
    ∃ x, s.deployments.get? id = some x ∧ (d.status = x.status ∨ d.status.isSettled = true) := by
  rcases deployments_of_worker h ha with he | ⟨job, id', x, release, power, result, row, hw, hrow,
    hput⟩
  · exact ⟨d, he ▸ hd, .inl rfl⟩
  · rcases get?_of_put? hput hd with ⟨hk, rfl⟩ | ⟨-, hd⟩
    · have hid : row.id = id' := Table.key_of_get? hrow
      refine ⟨row, (show id = id' from hk.trans hid) ▸ hrow, ?_⟩
      rcases status_recordDeployment result (release.map DeploymentRelease.id)
        (power.map DeploymentPower.id) x row with ⟨he, -⟩ | he
      · exact .inl he
      · refine .inr ?_
        rw [he]
        exact (hs.turns _ _ hw).2
    · exact ⟨d, hd, .inl rfl⟩

end Freepod
