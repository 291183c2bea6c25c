import Freepod.Runs.Results

/-!
# The power pointers settle

A request moves the desired power to a new row and enqueues a job; the commit of the reconcile
moves the applied power to it, or the desired power back.  `Settling` is the invariant that
carries both over the completion of the job: a worker that still holds the lease of its job after
its commit leaves the two pointers equal.

* `power_settles`: in orderly runs the pointers of a deployment without an open job are equal and
  name a row that ended without an error, and a row whose reconcile failed is never desired,
  applied or held by a worker again.
* `power_unsettled`: a worker that lost its lease and commits late leaves the pointers apart.
-/

namespace Freepod
open Base

variable {cfg : Settings} {s t : State} {a : Action} {w : WorkerId} {id : DeploymentId}
  {d : Deployment}

/-- the row is the deployment's and has ended without an error -/
def EndedWell (s : State) (id : DeploymentId) (k : PowerId) : Prop :=
  ∃ p, s.powers.get? k = some p ∧ p.deploymentId = id ∧ p.endedAt ≠ none ∧ p.error = none

structure Settling (s : State) : Prop where
  ordered : Ordered s
  resulted : Resulted s
  running : Running s
  live : ∀ id d, s.deployments.get? id = some d → d.status = .ready → d.deletedAt = none
  applied : ∀ id d k, s.deployments.get? id = some d → d.appliedPowerId = some k → EndedWell s id k
  desired : ∀ id d k p, s.deployments.get? id = some d → d.desiredPowerId = some k →
    s.powers.get? k = some p → p.error = none
  busy : ∀ id d, s.deployments.get? id = some d → d.desiredPowerId ≠ d.appliedPowerId →
    hasOpenJob s.jobs id ∧ d.deletedAt = none
  recorded : ∀ w job id result j d, s.workers w = some ⟨job, id, .recorded result⟩ →
    s.jobs.get? job = some j → j.lockedBy = some w → s.deployments.get? id = some d →
    d.desiredPowerId = d.appliedPowerId

theorem settling_init : Settling .init where
  ordered := ordered_init
  resulted := resulted_init
  running := fun _ _ h => nomatch h
  live := fun _ _ h => nomatch h
  applied := fun _ _ _ h => nomatch h
  desired := fun _ _ _ _ h => nomatch h
  busy := fun _ _ h => nomatch h
  recorded := fun _ _ _ _ _ _ h => nomatch h

/-! ## One step -/

theorem settling_live (hs : Settling s) (h : step cfg s a = some t)
    (hd : t.deployments.get? id = some d) (hr : d.status = .ready) : d.deletedAt = none := by
  rcases deploymentStep_of_step hs.ordered h id with hreq | hw
  · cases hreq with
    | untouched same => exact hs.live id d (same.deployment ▸ hd) hr
    | create r sub ns values hostname isPaid named before after =>
      rw [after] at hd
      cases hd
      rfl
    | update u x values hostname buildId before settled closed opened after =>
      rw [after] at hd
      cases hd
      cases hr
    | delete x before leaving closed opened after =>
      rw [after] at hd
      cases hd
      cases hr
    | power r x before ready changes closed opened after =>
      rw [after] at hd
      cases hd
      exact hs.live id x before ready
    | provision x before pending after =>
      rw [after] at hd
      cases hd
      cases hr
  · cases hw with
    | untouched same => exact hs.live id d (same.deployment ▸ hd) hr
    | claimRelease w job x r turn before claimed row queued releases deployments =>
      exact hs.live id d (deployments ▸ hd) hr
    | claimPower w job session values release x p turn before claimed row queued powers
        deployments => exact hs.live id d (deployments ▸ hd) hr
    | applyRelease w x job session y text action turn before cluster stage deployments =>
      exact hs.live id d (deployments ▸ hd) hr
    | recordOutcome w job x release power result turn before releases powers after =>
      rw [after] at hd
      cases hd
      exact (hs.resulted w job id x release power result turn).live hr

/-- a row that is claimed is not the applied one -/
theorem applied_ne_powerClaimed {k k' : PowerId} (hc : d.powerClaimed = some k)
    (ha : d.appliedPowerId = some k') : k' ≠ k := by
  rintro rfl
  have hd := desired_of_powerClaimed hc
  unfold Deployment.powerClaimed Deployment.powerToClaim at hc
  rw [if_pos (hd.trans ha.symm), ite_self] at hc
  cases hc

theorem EndedWell.same {k : PowerId} (h : EndedWell s id k) (hrows : SameOutcomes s t id) :
    EndedWell t id k := by
  obtain ⟨p, hp, hd, hend, herror⟩ := h
  obtain ⟨p', hp', hd', hend', herror'⟩ := hrows k p hp hd
  exact ⟨p', hp', hd', hend' ▸ hend, herror'.trans herror⟩

theorem settling_applied (hs : Settling s) (h : step cfg s a = some t)
    (hd : t.deployments.get? id = some d) {k : PowerId} (hk : d.appliedPowerId = some k) :
    EndedWell t id k := by
  cases powerStep_of_step hs.ordered h hd with
  | created before desired applied =>
    rw [applied] at hk
    cases hk
  | kept x before desired applied rows =>
    exact (hs.applied id x k before (applied ▸ hk)).same rows
  | requested x row before ready opened desired applied deletedAt new error rows =>
    exact (hs.applied id x k before (applied ▸ hk)).same rows
  | recorded w job x release power result turn before after powers =>
    subst after
    have other : x.appliedPowerId = some k → EndedWell t id k := by
      intro ha
      obtain ⟨p, hp, hpd, hend, herror⟩ := hs.applied id x k before ha
      rcases powers with ⟨-, he⟩ | ⟨q, hc, -, hput⟩
      · exact ⟨p, by rw [he, hp], hpd, hend, herror⟩
      · have hne := applied_ne_powerClaimed hc ha
        exact ⟨p, (Table.get?_put?_of_ne hput hne).trans hp, hpd, hend, herror⟩
    rcases power_outcome x result with ⟨-, -, ha⟩ | ⟨k', hc, hr, -, ha⟩ | ⟨k', -, -, -, ha⟩
    · exact other (ha ▸ hk)
    · rw [ha, Option.some.injEq] at hk
      subst hk
      rcases powers with ⟨hnone, -⟩ | ⟨q, hc', hq, hput⟩
      · rw [hc] at hnone
        cases hnone
      · rw [hc, Option.some.injEq] at hc'
        subst hc'
        have hself := Table.get?_put?_self (a := q.finish s.now result) hput hq
        have hqd := (hs.ordered.pointed id x before).power_id (desired_of_powerClaimed hc) hq
        have hid : x.id = id := Table.key_of_get? before
        have herror := (hs.resulted w job id x release power result turn).noError hr
        exact ⟨_, hself, hqd.trans hid, (fun h => nomatch h), herror⟩
    · exact other (ha ▸ hk)

/-- what either pointer names has no error -/
theorem settling_desired (hs : Settling s) (h : step cfg s a = some t)
    (hd : t.deployments.get? id = some d) {k : PowerId} {p : DeploymentPower}
    (hk : d.desiredPowerId = some k) (hp : t.powers.get? k = some p) : p.error = none := by
  have ofApplied : d.appliedPowerId = some k → p.error = none := by
    intro ha
    obtain ⟨q, hq, -, -, herror⟩ := settling_applied hs h hd ha
    rw [hp] at hq
    cases hq
    exact herror
  have same : ∀ x, s.deployments.get? id = some x → x.desiredPowerId = some k →
      SameOutcomes s t id → p.error = none := by
    intro x hx hxk hrows
    have hid : x.id = id := Table.key_of_get? hx
    obtain ⟨q, hq, hqd⟩ := (hs.ordered.pointed id x hx).desiredPower k hxk
    obtain ⟨q', hq', -, -, herror⟩ := hrows k q hq (hqd.trans hid)
    rw [hp] at hq'
    cases hq'
    exact herror.trans (hs.desired id x k q hx hxk hq)
  cases powerStep_of_step hs.ordered h hd with
  | created before desired applied =>
    rw [desired] at hk
    cases hk
  | kept x before desired applied rows => exact same x before (desired ▸ hk) rows
  | requested x row before ready opened desired applied deletedAt new error rows =>
    rw [desired, Option.some.injEq] at hk
    rw [← hk, new] at hp
    cases hp
    exact error
  | recorded w job x release power result turn before after powers =>
    subst after
    rcases power_outcome x result with ⟨hnone, hdes, -⟩ | ⟨k', -, -, hdes, happ⟩ |
      ⟨k', -, -, hdes, happ⟩
    · rcases powers with ⟨-, he⟩ | ⟨q, hc, -⟩
      · exact same x before (hdes ▸ hk) (sameOutcomes_of_powers he)
      · rw [hnone] at hc
        cases hc
    · exact ofApplied (by rw [happ, ← hdes, hk])
    · exact ofApplied (by rw [happ, ← hdes, hk])

/-- the commit leaves the pointers equal -/
theorem settled_outcome (hs : Settling s) {x : Deployment} (hx : s.deployments.get? id = some x)
    (result : ReconcileResult) :
    (x.outcome result).desiredPowerId = (x.outcome result).appliedPowerId := by
  rcases power_outcome x result with ⟨hnone, hd, ha⟩ | ⟨k, -, -, hd, ha⟩ | ⟨k, -, -, hd, ha⟩
  · rw [hd, ha]
    by_contra hne
    obtain ⟨-, hlive⟩ := hs.busy id x hx hne
    rw [Deployment.powerClaimed, if_pos hlive, Deployment.powerToClaim, if_neg hne] at hnone
    rw [hnone, hs.running id x hx hnone] at hne
    exact hne rfl
  · rw [hd, ha]
  · rw [hd, ha]

theorem settling_busy (hs : Settling s) (h : step cfg s a = some t)
    (hd : t.deployments.get? id = some d) (hne : d.desiredPowerId ≠ d.appliedPowerId) :
    hasOpenJob t.jobs id ∧ d.deletedAt = none := by
  cases powerStep_of_step hs.ordered h hd with
  | created before desired applied => exact absurd (desired.trans applied.symm) hne
  | kept x before desired applied rows live =>
    obtain ⟨hopen, hlive⟩ := hs.busy id x before (desired ▸ applied ▸ hne)
    refine ⟨?_, live.elim (fun he => he.trans hlive) fun hclosed => absurd hopen hclosed⟩
    cases hw : a.worker with
    | none =>
      obtain ⟨ids, he, -⟩ := (written_of_step h hw).enqueued
      exact he.hasOpenJob hopen
    | some w =>
      rcases hasOpenJob_of_worker hs.ordered.sound h hw hopen with hopen | ⟨job, result, j, hturn, hj, hl⟩
      · exact hopen
      · -- the holder has settled the pointers of the deployment whose job it closes
        have heq := hs.recorded w job id result j x hturn hj hl before
        rw [desired, applied] at hne
        exact absurd heq hne
  | requested x row before ready opened desired applied deletedAt =>
    exact ⟨opened, deletedAt.trans (hs.live id x before ready)⟩
  | recorded w job x release power result turn before after =>
    subst after
    exact absurd (settled_outcome hs before result) hne

/-- while a worker holds the lease of its job nobody else moves the deployment -/
theorem deployment_of_lease (ho : Ordered s) (h : step cfg s a = some t) {turn : Turn}
    {j : ReconcileJob} (hw : s.workers w = some turn) (hj : s.jobs.get? turn.job = some j)
    (hl : j.lockedBy = some w) (ha : a.worker ≠ some w) :
    t.deployments.get? turn.deployment = s.deployments.get? turn.deployment := by
  have hopen := hasOpenJob_of_lease ho.sound hw hj hl
  cases hwa : a.worker with
  | none => exact (untouched_written ho.sound (written_of_step h hwa) hopen).deployment
  | some w' =>
    refine (untouched_worker ho h hwa fun turn' hw' hp hd => ha ?_).deployment
    -- another worker before its commit on the deployment would hold the same job
    obtain ⟨j', hj', ho', hjd', hl'⟩ := (ho.turns w' turn' hw' hp).openJob ho.sound
    obtain ⟨⟨x, hx, hxd⟩, -⟩ := ho.sound.turns w turn hw
    rw [hj, Option.some.injEq] at hx
    subst hx
    have hrun : j.status = .running := ho.sound.locked _ j hj (by simp [hl])
    have hjo : j.isOpen = true := by
      rw [ReconcileJob.isOpen, hrun]
      rfl
    have hsame := openJob_unique (Table.mem_of_get? hj) hj' hjo ho'
      (hxd.trans (hd.symm.trans hjd'.symm))
    rw [hsame, hl'] at hl
    rw [hwa, hl]

/-- a worker that has just recorded an outcome has written it -/
theorem recorded_of_step (ho : Ordered s) (h : step cfg s a = some t) (ha : a.worker = some w)
    {job : JobId} {result : ReconcileResult}
    (hw : t.workers w = some ⟨job, id, .recorded result⟩) :
    ∃ x, s.deployments.get? id = some x ∧ t.deployments.get? id = some (x.outcome result) := by
  cases a with
  | claimJob w skipped =>
    cases ha
    obtain ⟨-, j, jobs, -, rfl⟩ := claimJob_ok h
    have hw := (Function.update_self w _ s.workers).symm.trans hw
    cases hw
  | claimRelease w =>
    cases ha
    obtain ⟨job', id', x, stage, releases, -, -, hclaim, rfl⟩ := claimRelease_ok h
    have hw := (Function.update_self w _ s.workers).symm.trans hw
    cases hw
    cases hclaim
  | claimPower w x =>
    cases ha
    obtain ⟨job', id', session, values, release, y, stage, powers, -, -, hclaim, rfl⟩ :=
      claimPower_ok h
    have hw := (Function.update_self w _ s.workers).symm.trans hw
    cases hw
    cases hclaim
  | applyRelease w x =>
    cases ha
    obtain ⟨job', id', session, values, release, power, y, text, -, -, rfl⟩ := applyRelease_ok h
    have hw := (Function.update_self w _ s.workers).symm.trans hw
    cases hw
  | recordOutcome w =>
    cases ha
    obtain ⟨job', id', x, release, power, result', -, hx, -, -, hput, -, -, hstage⟩ :=
      recordOutcome_ordered ho h
    rw [hstage, Function.update_self] at hw
    cases hw
    have hid : x.id = id := Table.key_of_get? hx
    subst hid
    exact ⟨x, hx, Table.get?_put?_self (a := x.outcome result) hput hx⟩
  | markJob w =>
    cases ha
    obtain ⟨job', id', result', status, error, jobs, -, -, -, -, rfl⟩ := markJob_ok h
    have hw := (Function.update_self w _ s.workers).symm.trans hw
    cases hw
  | crash w =>
    cases ha
    rw [crash_ok h] at hw
    have hw := (Function.update_self w _ s.workers).symm.trans hw
    cases hw
  | _ => cases ha

theorem settling_recorded (hs : Settling s) (h : step cfg s a = some t) {job : JobId}
    {result : ReconcileResult} {j : ReconcileJob}
    (hw : t.workers w = some ⟨job, id, .recorded result⟩) (hj : t.jobs.get? job = some j)
    (hl : j.lockedBy = some w) (hd : t.deployments.get? id = some d) :
    d.desiredPowerId = d.appliedPowerId := by
  by_cases ha : a.worker = some w
  · obtain ⟨x, hx, hafter⟩ := recorded_of_step hs.ordered h ha hw
    rw [hafter] at hd
    cases hd
    exact settled_outcome hs hx result
  · have hws : s.workers w = some ⟨job, id, .recorded result⟩ := (workers_of_step h ha) ▸ hw
    have hjs := lease_of_step h hj hl fun skipped he => ha (by rw [he]; rfl)
    have hrow := deployment_of_lease hs.ordered h hws hjs hl ha
    exact hs.recorded w job id result j d hws hjs hl (hrow ▸ hd)

theorem settling_step (hs : Settling s) (hok : orderly cfg s a) (h : step cfg s a = some t) :
    Settling t where
  ordered := ordered_step hs.ordered hok h
  resulted := resulted_step hs.ordered hs.resulted h
  running := running_step hs.ordered hs.running h
  live := fun _ _ hd hr => settling_live hs h hd hr
  applied := fun _ _ _ hd hk => settling_applied hs h hd hk
  desired := fun _ _ _ _ hd hk hp => settling_desired hs h hd hk hp
  busy := fun _ _ hd hne => settling_busy hs h hd hne
  recorded := fun _ _ _ _ _ _ hw hj hl hd => settling_recorded hs h hw hj hl hd

/-! ## A row whose reconcile failed -/

/-- the power row a stage of a turn is to change to -/
def Stage.power : Stage → Option PowerId
  | .powerClaimed _ _ _ power => power
  | .applied _ _ power _ => power.map DeploymentPower.id
  | _ => none

/-- the row has this outcome, and no pointer and no worker is at it -/
structure Shelved (s : State) (k : PowerId) (endedAt : Option Time) (error : String) : Prop where
  row : ∃ p, s.powers.get? k = some p ∧ p.endedAt = endedAt ∧ p.error = some error
  unnamed : ∀ id d, s.deployments.get? id = some d →
    d.desiredPowerId ≠ some k ∧ d.appliedPowerId ≠ some k
  unheld : ∀ w turn, s.workers w = some turn → turn.stage.power ≠ some k

/-- a failed row of a deployment -/
def FailedRow (s : State) (k : PowerId) (endedAt : Option Time) (error : String) : Prop :=
  ∃ p d, s.powers.get? k = some p ∧ s.deployments.get? p.deploymentId = some d ∧
    p.endedAt = endedAt ∧ p.error = some error

theorem failedRow_step (hs : Settling s) (h : step cfg s a = some t) {k : PowerId}
    {endedAt : Option Time} {error : String} (hf : FailedRow s k endedAt error) :
    FailedRow t k endedAt error := by
  obtain ⟨p, x, hp, hx, hend, herror⟩ := hf
  obtain ⟨d, hd, -⟩ := (kept_of_step h).deployments _ x hx
  have same : SameOutcomes s t p.deploymentId → FailedRow t k endedAt error := by
    intro hrows
    obtain ⟨p', hp', hpd, hend', herror'⟩ := hrows k p hp rfl
    exact ⟨p', d, hp', hpd ▸ hd, hend'.trans hend, herror'.trans herror⟩
  cases powerStep_of_step hs.ordered h hd with
  | created before =>
    rw [hx] at before
    cases before
  | kept y before desired applied rows => exact same rows
  | requested y row before ready opened desired applied deletedAt new error rows => exact same rows
  | recorded w job y release power result turn before after powers =>
    rcases powers with ⟨-, he⟩ | ⟨q, hc, hq, hput⟩
    · exact same (sameOutcomes_of_powers he)
    · -- the row that is recorded is desired, so it has no error yet
      have hne : k ≠ q.id := by
        rintro rfl
        rw [hp, Option.some.injEq] at hq
        subst hq
        have hnone := hs.desired _ y _ p before (desired_of_powerClaimed hc) hp
        rw [herror] at hnone
        cases hnone
      exact ⟨p, d, (Table.get?_put?_of_ne hput hne).trans hp, hd, hend, herror⟩

/-- a failed row is on the shelf -/
theorem FailedRow.shelved (hs : Settling s) {k : PowerId} {endedAt : Option Time} {error : String}
    (hf : FailedRow s k endedAt error) : Shelved s k endedAt error := by
  obtain ⟨p, x, hp, hx, hend, herror⟩ := hf
  have unnamed : ∀ id d, s.deployments.get? id = some d → d.desiredPowerId ≠ some k := by
    intro id d hd hk
    have hnone := hs.desired id d k p hd hk hp
    rw [herror] at hnone
    cases hnone
  refine ⟨⟨p, hp, hend, herror⟩, fun id d hd => ⟨unnamed id d hd, fun hk => ?_⟩,
    fun w turn hw hk => ?_⟩
  · obtain ⟨q, hq, -, -, hnone⟩ := hs.applied id d k hd hk
    rw [hp, Option.some.injEq] at hq
    subst hq
    rw [herror] at hnone
    cases hnone
  · obtain ⟨job, id, stage⟩ := turn
    cases stage with
    | powerClaimed session values release power =>
      obtain ⟨-, d, hd, -, -, -, hpow⟩ := hs.ordered.turns w _ hw rfl
      have hk : power = some k := hk
      exact unnamed id d hd (desired_of_powerClaimed (hpow ▸ hk))
    | applied d release power result =>
      obtain ⟨-, y, hy, rfl, -, hpow⟩ := hs.ordered.turns w _ hw rfl
      have hk : power.map DeploymentPower.id = some k := hk
      rw [hpow, map_id_powerClaimed (hs.ordered.pointed id d hy)] at hk
      exact unnamed id d hy (desired_of_powerClaimed hk)
    | claimed => cases hk
    | releaseClaimed session values release => cases hk
    | recorded result => cases hk

/-- the commit of a reconcile that failed puts the outcome on the row it was to change to -/
theorem failedRow_of_outcome (hs : Settling s) {job : JobId} {release : Option DeploymentRelease}
    {p : DeploymentPower} {result : ReconcileResult}
    (hw : s.workers w = some ⟨job, id, .applied d release (some p) result⟩)
    (hr : result.status ≠ .ready) (h : step cfg s (.recordOutcome w) = some t) :
    ∃ endedAt error, result.lastError = some error ∧ FailedRow t p.id endedAt error := by
  obtain ⟨job', id', x, release', power, result', hw', hx, -, hpow, hput, -⟩ :=
    recordOutcome_ordered hs.ordered h
  rw [hw] at hw'
  cases hw'
  obtain ⟨-, y, hy, rfl, -, hread⟩ := hs.ordered.turns w _ hw rfl
  obtain ⟨k, hc, hk⟩ := Option.bind_eq_some_iff.mp hread.symm
  have hpk : p.id = k := Table.key_of_get? hk
  have hid : d.id = id := Table.key_of_get? hx
  rcases hpow with ⟨hnone, -⟩ | ⟨q, hc', hq, hput'⟩
  · rw [hc] at hnone
    cases hnone
  · rw [hc, Option.some.injEq] at hc'
    rw [← hpk] at hk
    rw [← hc', ← hpk, hk, Option.some.injEq] at hq
    subst hq
    have hpd := (hs.ordered.pointed id d hx).power_id (desired_of_powerClaimed hc) (hpk ▸ hk)
    have hself := Table.get?_put?_self (a := p.finish s.now result) hput' hk
    have hdep : t.deployments.get? p.deploymentId = some (d.outcome result) :=
      hpd ▸ Table.get?_put?_self (a := d.outcome result) hput (hid ▸ hx)
    cases hs.resulted w job id d release (some p) result hw with
    | ready status => exact absurd status hr
    | deleted status gone =>
      rw [Deployment.powerClaimed, if_neg gone] at hc
      cases hc
    | failed status error =>
      obtain ⟨e, he⟩ := Option.ne_none_iff_exists'.mp error
      exact ⟨_, e, he, _, _, hself, hdep, rfl, he⟩

/-! ## The pointers -/

/-- **the power pointers settle** in orderly runs: without an open job the two are equal and name a
row that ended without an error, and a row whose reconcile failed keeps its outcome and is never
named, nor held by a worker, again -/
theorem power_settles (hs : (platform cfg).Reach (orderly cfg) .init s) :
    (∀ id d, s.deployments.get? id = some d → ¬ hasOpenJob s.jobs id →
      d.desiredPowerId = d.appliedPowerId ∧ ∀ k, d.appliedPowerId = some k → EndedWell s id k) ∧
    ∀ w job id d release p result s',
      s.workers w = some ⟨job, id, .applied d release (some p) result⟩ → result.status ≠ .ready →
      step cfg s (.recordOutcome w) = some s' →
      ∃ endedAt error, result.lastError = some error ∧
        ∀ t, (platform cfg).Reach (orderly cfg) s' t → Shelved t p.id endedAt error := by
  have hset : Settling s := hs.invariant settling_init fun _ _ _ hs hok h => settling_step hs hok h
  constructor
  · intro id d hd hclosed
    refine ⟨?_, fun k hk => hset.applied id d k hd hk⟩
    by_contra hne
    exact hclosed (hset.busy id d hd hne).1
  · intro w job id d release p result s' hw hr h
    obtain ⟨endedAt, error, he, hf⟩ := failedRow_of_outcome hset hw hr h
    refine ⟨endedAt, error, he, fun t ht => ?_⟩
    have hok : orderly cfg s (.recordOutcome w) := fun _ _ _ _ ha => nomatch ha
    have hset' : Settling s' := settling_step hset hok h
    obtain ⟨hset, hf⟩ := ht.invariant (P := fun t => Settling t ∧ FailedRow t p.id endedAt error)
      ⟨hset', hf⟩ fun _ _ _ hP hok h => ⟨settling_step hP.1 hok h, failedRow_step hP.1 h hP.2⟩
    exact hf.shelved hset

/-! ## Runs -/

/-- the worker has applied this power, and not brought the deployment up -/
def State.failedPower (s : State) (w : WorkerId) (id : PowerId) : Bool :=
  match s.workers w with
  | some ⟨_, _, .applied _ _ (some p) result⟩ =>
    decide (p.id = id) && decide (result.status ≠ .ready)
  | _ => false

/-- a stop whose Helm upgrade raises -/
theorem power_settles_failed : ∃ s s' d, s'.deployments.get? 1 = some d ∧
    d.desiredPowerId = none ∧ d.appliedPowerId = none ∧
    step .sample s (.recordOutcome "w2") = some s' ∧
    ∃ endedAt error, ∀ t, (platform .sample).Reach (orderly .sample) s' t →
      Shelved t 1 endedAt error := by
  obtain ⟨s, hs, -, hp⟩ := exists_orderly_of_runIf .sample (c := fun _ _ => true)
    (k := fun _ _ => True) (fun _ _ _ => trivial)
    (l := .create .sample (.sample .null none) :: Action.turn "w1" .clean ++
      [.power .stopSample, .claimJob "w2" [], .claimRelease "w2", .claimPower "w2" .clean,
        .applyRelease "w2" (.raising .helmUpgradeInstall)])
    (p := fun s : State =>
      s.failedPower "w2" 1 && (step .sample s (.recordOutcome "w2")).any fun s' =>
        (s'.deployments.get? 1).any fun d : Deployment =>
          d.desiredPowerId.isNone && d.appliedPowerId.isNone)
    (onlyAmong_init ["w1", "w2"]) (by decide +kernel)
  rw [Bool.and_eq_true, Option.any_eq_true] at hp
  obtain ⟨hturn, s', hs', hp⟩ := hp
  obtain ⟨d, hd, hp⟩ := (Option.any_eq_true _ _).mp hp
  rw [Bool.and_eq_true, Option.isNone_iff_eq_none, Option.isNone_iff_eq_none] at hp
  unfold State.failedPower at hturn
  split at hturn
  · rename_i job id x release p result hw
    rw [Bool.and_eq_true, decide_eq_true_eq, decide_eq_true_eq] at hturn
    obtain ⟨endedAt, error, -, hshelved⟩ := (power_settles (hs.mono fun _ _ h => h.1)).2 "w2" job id
      x release p result s' hw hturn.2 hs'
    exact ⟨s, s', d, hd, hp.1, hp.2, hs', endedAt, error, hturn.1 ▸ hshelved⟩
  · cases hturn

/-- a worker whose lease has run out applies the stop and commits after the job was taken over; the
worker that took it over raises, and puts the desired power back to what it read as applied -/
theorem power_unsettled :
    ¬ ∀ s id d, (platform .sample).Reach (fun _ _ => True) .init s →
      s.deployments.get? id = some d → ¬ hasOpenJob s.jobs id →
      d.desiredPowerId = d.appliedPowerId := by
  intro hall
  obtain ⟨s, hs, hp⟩ := Machine.exists_reach_of_run (M := platform .sample) (s := .init)
    (l := .create .sample (.sample .null none) :: Action.turn "w1" .clean ++
      [.power .stopSample, .claimJob "w1" [], .claimRelease "w1", .claimPower "w1" .clean,
        .applyRelease "w1" .clean, .tick 601, .claimJob "w2" [], .claimRelease "w2",
        .claimPower "w2" .clean, .applyRelease "w2" (.raising .helmUpgradeInstall),
        .recordOutcome "w1", .recordOutcome "w2", .markJob "w2"])
    (p := fun s : State =>
      ((s.deployments.get? 1).any fun d : Deployment =>
        decide (d.desiredPowerId ≠ d.appliedPowerId)) && decide (¬ hasOpenJob s.jobs 1))
    (by decide +kernel)
  rw [Bool.and_eq_true, Option.any_eq_true, decide_eq_true_eq] at hp
  obtain ⟨⟨d, hd, hne⟩, hclosed⟩ := hp
  exact of_decide_eq_true hne (hall s 1 d hs hd hclosed)

end Freepod
