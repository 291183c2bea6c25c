import Freepod.Runs.Frame

/-!
# No deployment is stranded

A deployment that is `provisioning` or `deleting` waits for a reconcile job.  The requests enqueue
one in the transaction that moves the status; the webhook does so only when it takes the
subscription from `pending` to `current`, and moves the status of a pending deployment in any case.

Here the workers may crash, lose their leases and come back: what carries the invariant over the
completion of a job is that the holder of the lease has settled the status by then.

* `no_deployment_stranded`: while no first payment is taken as paid for a pending deployment of a
  subscription that is not pending any more, such a deployment has exactly one open job.
* `deployment_stranded`: a first payment that fails and is then paid leaves one without a job.
-/

namespace Freepod
open Base

variable {cfg : Settings} {s t : State} {a : Action} {w : WorkerId} {id : DeploymentId}
  {d : Deployment}

/-- a first payment is taken as paid only while its subscription is pending, or when no deployment
of the subscription awaits it -/
def paidInTime (s : State) (a : Action) : Prop :=
  ∀ n info p sub, a = .webhook n → n.info = some info → info.status = .paid →
    p ∈ s.payments.rows → p.molliePaymentId = n.id → p.sequenceType = .first →
    s.subscriptions.get? p.subscriptionId = some sub →
    sub.paymentStatus = .pending ∨ ∀ d ∈ subDeployments s.deployments sub.id, d.status ≠ .pending

/-- the deployment waits for a reconcile -/
def Deployment.waits (d : Deployment) : Prop := d.status = .provisioning ∨ d.status = .deleting

/-- the row of the turn's deployment that the session holds -/
def Stage.loaded : Stage → Option Deployment
  | .releaseClaimed session _ _ => session.deployment
  | .powerClaimed session _ _ _ => session.deployment
  | .applied read _ _ _ => some read
  | _ => none

def Stage.isRecorded : Stage → Bool
  | .recorded _ => true
  | _ => false

/-- what a worker that holds the lease of its job knows of the status -/
def StageAttends (d : Deployment) (stage : Stage) : Prop :=
  (∀ read, stage.loaded = some read → d.status = read.status ∨ d.status.isSettled = true) ∧
    (stage.isRecorded = true → d.status.isSettled = true)

structure Attended (s : State) : Prop where
  sound : Sound s
  attended : ∀ id d, s.deployments.get? id = some d → d.waits → hasOpenJob s.jobs id
  turns : ∀ w turn j d, s.workers w = some turn → s.jobs.get? turn.job = some j →
    j.lockedBy = some w → s.deployments.get? turn.deployment = some d →
    StageAttends d turn.stage

theorem attended_init : Attended .init where
  sound := sound_init
  attended := fun _ _ h => nomatch h
  turns := fun _ _ _ _ h => nomatch h

/-! ## Statuses and leases over one step -/

theorem not_waits_of_settled (h : d.status.isSettled = true) : ¬ d.waits := by
  rintro (hst | hst)
  · rw [hst] at h
    cases h
  · rw [hst] at h
    cases h

theorem attended_written (hs : Attended s) (hok : paidInTime s a) (h : Written a s t)
    (hd : t.deployments.get? id = some d) (hw : d.waits) : hasOpenJob t.jobs id := by
  cases h with
  | aside hdep hr hj rest =>
    rw [hj]
    exact hs.attended id d (hdep ▸ hd) hw
  | create r ns values hostname isPaid hdep hr hj rest =>
    rcases get?_of_insert hdep hd with ⟨hid, rfl⟩ | ⟨-, hd⟩
    · rcases hj with ⟨rfl, -⟩ | ⟨-, hj⟩
      · rcases hw with hw | hw
        · cases hw
        · cases hw
      · exact (hj.opened id hid).2
    · have ho := hs.attended id d hd hw
      rcases hj with ⟨-, hj⟩ | ⟨-, hj⟩
      · exact hj ▸ ho
      · exact hj.hasOpenJob ho
  | update u x values hostname buildId row settled hdep hr hj rest =>
    rcases get?_of_put? hdep hd with ⟨hid, rfl⟩ | ⟨-, hd⟩
    · exact (hj.opened id hid).2
    · exact hj.hasOpenJob (hs.attended id d hd hw)
  | delete x row leaving hdep hr hj rest =>
    rcases get?_of_put? hdep hd with ⟨hid, rfl⟩ | ⟨-, hd⟩
    · exact (hj.opened id hid).2
    · exact hj.hasOpenJob (hs.attended id d hd hw)
  | power r x row ready changes hp hdep hr hj cluster workers =>
    rcases get?_of_put? hdep hd with ⟨hid, rfl⟩ | ⟨-, hd⟩
    · exact (hj.opened id hid).2
    · exact hj.hasOpenJob (hs.attended id d hd hw)
  | paid n info p sub action fetched status payment named first subscription hdep hr hj rest =>
    have hold := hd
    rw [hdep] at hold
    obtain ⟨x, hx, hxd⟩ := Option.map_eq_some_iff.mp hold
    by_cases hpend : x.subscriptionId = sub.id ∧ x.status = .pending
    · -- a deployment that was pending gets its job with the status
      have hxm : x ∈ subDeployments s.deployments sub.id :=
        mem_subDeployments.mpr ⟨Table.mem_of_get? hx, hpend.1⟩
      have hprov : d = { x with status := .provisioning } := by
        rw [← hxd, Deployment.provisioned, if_pos hpend]
      have hsub : sub.paymentStatus = .pending :=
        (hok n info p sub action fetched status payment named first subscription).resolve_right
          fun hnone => hnone x hxm hpend.2
      rcases hj with ⟨-, hj⟩ | ⟨hne, -⟩
      · refine (hj.opened id ⟨d, mem_subDeployments.mpr ⟨Table.mem_of_get? hd, ?_⟩, ?_, ?_⟩).2
        · rw [hprov]
          exact hpend.1
        · rw [hprov]
        · exact Table.key_of_get? hd
      · exact absurd hsub hne
    · have hsame : x = d := by
        rw [← hxd, Deployment.provisioned, if_neg hpend]
      have ho := hs.attended id x hx (hsame ▸ hw)
      rcases hj with ⟨-, hj⟩ | ⟨-, hj⟩
      · exact hj.hasOpenJob ho
      · exact hj ▸ ho

theorem attended_worker (hs : Attended s) (h : step cfg s a = some t) (ha : a.worker = some w)
    (hd : t.deployments.get? id = some d) (hw : d.waits) : hasOpenJob t.jobs id := by
  obtain ⟨x, hx, hst⟩ := status_of_worker hs.sound h ha hd
  have hxw : x.waits := by
    rcases hst with hst | hst
    · rcases hw with hw | hw
      · exact .inl (hst.symm.trans hw)
      · exact .inr (hst.symm.trans hw)
    · exact absurd hw (not_waits_of_settled hst)
  have ho := hs.attended id x hx hxw
  rcases hasOpenJob_of_worker hs.sound h ha ho with ho | ⟨job, result, j, hturn, hj, hl⟩
  · exact ho
  · -- the holder has settled the status of the deployment whose job it closes
    have hsettled := (hs.turns w _ j x hturn hj hl hx).2 rfl
    exact absurd hxw (not_waits_of_settled hsettled)

/-! ## Turns -/

/-- the row a session reads has the status of the table's, or that one is settled by now -/
theorem status_of_readRow {session : Session} {y : Deployment}
    (h : ∀ read, session.deployment = some read →
      d.status = read.status ∨ d.status.isSettled = true)
    (hd : s.deployments.get? id = some d)
    (hy : readRow session.deployment s.deployments id = some y) :
    d.status = y.status ∨ d.status.isSettled = true := by
  unfold readRow at hy
  split at hy
  · rename_i c hc
    cases hy
    exact h _ hc
  · rw [hd] at hy
    cases hy
    exact .inl rfl

theorem StageAttends.of_status {x : Deployment} {stage : Stage} (h : StageAttends x stage)
    (hst : d.status = x.status ∨ d.status.isSettled = true) : StageAttends d stage := by
  rcases hst with hst | hst
  · refine ⟨fun read hr => ?_, fun hr => ?_⟩
    · rw [hst]
      exact h.1 read hr
    · rw [hst]
      exact h.2 hr
  · exact ⟨fun _ _ => .inr hst, fun _ => hst⟩

theorem attends_own (hs : Attended s) (h : step cfg s a = some t) (ha : a.worker = some w)
    {turn : Turn} {j : ReconcileJob} (hw : t.workers w = some turn)
    (hj : t.jobs.get? turn.job = some j) (hl : j.lockedBy = some w)
    (hd : t.deployments.get? turn.deployment = some d) : StageAttends d turn.stage := by
  cases a with
  | claimJob w skipped =>
    cases ha
    obtain ⟨-, j, jobs, -, rfl⟩ := claimJob_ok h
    have hw := (Function.update_self w _ s.workers).symm.trans hw
    cases hw
    exact ⟨fun _ h => (nomatch h), fun h => (nomatch h)⟩
  | claimRelease w =>
    cases ha
    obtain ⟨job, id', x, stage, releases, -, hx, hclaim, rfl⟩ := claimRelease_ok h
    have hw := (Function.update_self w _ s.workers).symm.trans hw
    cases hw
    have hd : s.deployments.get? id' = some d := hd
    rw [hx] at hd
    cases hd
    cases hclaim with
    | first r live row differs queued releases put =>
      exact ⟨fun _ h => (nomatch h), fun h => (nomatch h)⟩
    | _ => exact ⟨fun _ h => .inl (congrArg Deployment.status (Option.some.inj h)),
        fun h => (nomatch h)⟩
  | claimPower w x =>
    cases ha
    obtain ⟨job, id', session, values, release, y, stage, powers, hs', hy, hclaim, rfl⟩ :=
      claimPower_ok h
    have hw := (Function.update_self w _ s.workers).symm.trans hw
    cases hw
    have hread := status_of_readRow (hs.turns w _ j d hs' hj hl hd).1 hd hy
    cases hclaim with
    | first p row differs found queued powers put =>
      exact ⟨fun _ h => (nomatch h), fun h => (nomatch h)⟩
    | _ =>
      refine ⟨fun read hr => ?_, fun h => (nomatch h)⟩
      cases hr
      exact hread
  | applyRelease w x =>
    cases ha
    obtain ⟨job, id', session, values, release, power, y, text, hs', hy, rfl⟩ := applyRelease_ok h
    have hw := (Function.update_self w _ s.workers).symm.trans hw
    cases hw
    have hread := status_of_readRow (hs.turns w _ j d hs' hj hl hd).1 hd hy
    refine ⟨fun read hr => ?_, fun h => (nomatch h)⟩
    cases hr
    exact hread
  | recordOutcome w =>
    cases ha
    obtain ⟨job, id', x, release, power, result, row, releases, powers, deployments, hs', hrow, -, -,
      hput, rfl⟩ := recordOutcome_ok h
    have hw := (Function.update_self w _ s.workers).symm.trans hw
    cases hw
    have hsettled : result.status.isSettled = true := (hs.sound.turns w _ hs').2
    refine ⟨fun _ h => (nomatch h), fun _ => ?_⟩
    have hrid : row.id = id' := Table.key_of_get? hrow
    have hself : deployments.get? id' = some (recordDeployment result
        (release.map DeploymentRelease.id) (power.map DeploymentPower.id) x row) := by
      rw [← hrid]
      exact Table.get?_put?_self (a := recordDeployment result (release.map DeploymentRelease.id)
        (power.map DeploymentPower.id) x row) hput (hrid ▸ hrow)
    have hd : deployments.get? id' = some d := hd
    rw [hself] at hd
    cases hd
    rcases status_recordDeployment result (release.map DeploymentRelease.id)
      (power.map DeploymentPower.id) x row with ⟨he, hsame⟩ | he
    · -- the commit left the status alone: it was the result's when it was read
      rw [he]
      rcases (hs.turns w _ j row hs' hj hl hrow).1 x rfl with hst | hst
      · rw [hst, ← hsame]
        exact hsettled
      · exact hst
    · rw [he]
      exact hsettled
  | markJob w =>
    cases ha
    obtain ⟨job, id', result, status, error, jobs, -, -, -, -, rfl⟩ := markJob_ok h
    have hw := (Function.update_self w _ s.workers).symm.trans hw
    cases hw
  | crash w =>
    cases ha
    rw [crash_ok h] at hw
    have hw := (Function.update_self w _ s.workers).symm.trans hw
    cases hw
  | _ => cases ha

theorem attended_turns (hs : Attended s) (h : step cfg s a = some t) {turn : Turn}
    {j : ReconcileJob} (hw : t.workers w = some turn) (hj : t.jobs.get? turn.job = some j)
    (hl : j.lockedBy = some w) (hd : t.deployments.get? turn.deployment = some d) :
    StageAttends d turn.stage := by
  by_cases ha : a.worker = some w
  · exact attends_own hs h ha hw hj hl hd
  · rw [workers_of_step h ha] at hw
    have hjs := lease_of_step h hj hl fun skipped he => ha (by rw [he]; rfl)
    cases hwa : a.worker with
    | none =>
      have hopen := hasOpenJob_of_lease hs.sound hw hjs hl
      have hu := untouched_written hs.sound (written_of_step h hwa) hopen
      exact hs.turns w turn j d hw hjs hl (hu.deployment ▸ hd)
    | some w' =>
      obtain ⟨x, hx, hst⟩ := status_of_worker hs.sound h hwa hd
      exact (hs.turns w turn j x hw hjs hl hx).of_status hst

theorem attended_step (hs : Attended s) (hok : paidInTime s a) (h : step cfg s a = some t) :
    Attended t where
  sound := sound_step hs.sound h
  attended := fun id d hd hw => by
    cases ha : a.worker with
    | none => exact attended_written hs hok (written_of_step h ha) hd hw
    | some w => exact attended_worker hs h ha hd hw
  turns := fun _ _ _ _ hw hj hl hd => attended_turns hs h hw hj hl hd

/-- **no deployment is stranded**, whatever the workers do -/
theorem no_deployment_stranded (hs : (platform cfg).Reach paidInTime .init s)
    (hd : s.deployments.get? id = some d) (hw : d.status = .provisioning ∨ d.status = .deleting) :
    ∃! j, j ∈ s.jobs.rows ∧ j.isOpen = true ∧ j.deploymentId = id := by
  have ha : Attended s := hs.invariant attended_init fun _ _ _ hs hok h => attended_step hs hok h
  obtain ⟨j, hj, ho, hid⟩ := ha.attended id d hd hw
  refine ⟨j, ⟨hj, ho, hid⟩, fun j' h => ?_⟩
  exact openJob_unique h.1 hj h.2.1 ho (h.2.2.trans hid.symm)

/-! ## Runs -/

/-- the check that decides `paidInTime` for a notification of nothing paid -/
def paidInTimeCheck (_ : State) (a : Action) : Bool :=
  match a with
  | .webhook n => n.info.all fun info => decide (info.status ≠ .paid)
  | _ => true

theorem paidInTime_of_check (h : paidInTimeCheck s a = true) : paidInTime s a := by
  rintro n info p sub rfl hinfo hpaid
  simp only [paidInTimeCheck, hinfo, Option.all_some, decide_eq_true_eq] at h
  exact absurd hpaid h

theorem no_deployment_stranded_created : ∃ (s : State) (d : Deployment), s.deployments.get? 1 = some d ∧
    d.status = .provisioning ∧ ∃! j, j ∈ s.jobs.rows ∧ j.isOpen = true ∧ j.deploymentId = 1 := by
  obtain ⟨s, hs, -, hp⟩ := Machine.exists_reach_of_runIf (M := platform .sample) (s := .init)
    (P := fun _ => True) (c := paidInTimeCheck) (k := paidInTime)
    (fun _ _ _ _ _ _ => trivial) (fun _ _ _ h => paidInTime_of_check h)
    (l := [.create .sample (.sample .null none), .claimJob "w1" [], .claimRelease "w1",
      .crash "w1", .tick 601, .claimJob "w2" []])
    (p := fun s : State => (s.deployments.get? 1).any
      fun d : Deployment => decide (d.status = .provisioning)) trivial (by decide +kernel)
  obtain ⟨d, hd, hp⟩ := (Option.any_eq_true _ _).mp hp
  rw [decide_eq_true_eq] at hp
  exact ⟨s, d, hd, hp, no_deployment_stranded hs hd (.inl hp)⟩

/-- the first payment fails, and is paid later -/
theorem deployment_stranded :
    ¬ ∀ s id d, (platform .sample).Reach (fun _ _ => True) .init s →
      s.deployments.get? id = some d → d.status = .provisioning ∨ d.status = .deleting →
      ∃! j, j ∈ s.jobs.rows ∧ j.isOpen = true ∧ j.deploymentId = id := by
  intro hall
  obtain ⟨s, hs, hp⟩ := Machine.exists_reach_of_run (M := platform .sample) (s := .init)
    (l := [.create .sample (.sample .null (some (.ok "tr_1"))),
      .webhook (.sample "tr_1" .failed none), .webhook (.sample "tr_1" .paid none)])
    (p := fun s : State => (s.deployments.get? 1).any
      (fun d : Deployment => decide (d.status = .provisioning)) && s.jobs.rows.isEmpty)
    (by decide +kernel)
  rw [Bool.and_eq_true, Option.any_eq_true, List.isEmpty_iff] at hp
  obtain ⟨⟨d, hd, hst⟩, hjobs⟩ := hp
  rw [decide_eq_true_eq] at hst
  obtain ⟨j, ⟨hj, -⟩, -⟩ := hall s 1 d hs hd (.inl hst)
  rw [hjobs] at hj
  cases hj

end Freepod
