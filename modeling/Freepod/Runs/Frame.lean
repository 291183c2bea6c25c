import Freepod.Runs.Sound

/-!
# What a step leaves alone

`Untouched s t id` says that a step from `s` to `t` was not about deployment `id`: its row, its
releases, its power rows and its part of the cluster are as they were.

* `requestStep_of_written`: what a step outside the workers does to one deployment.
* `untouched_written`: no request touches a deployment that has an open job.
-/

namespace Freepod
open Base

section
variable {α κ ι γ : Type} [Row α κ ι] [DecidableEq κ] [DecidableEq ι] {t t' : Table α} {a x : α}
  (f : α → γ) {c : γ}

/-- an overwrite of a row of another group leaves the rows of a group as they are -/
theorem get?_put?_group (h : t.put? a = some t') (hx : t.get? (Row.key a) = some x)
    (hfx : f x ≠ c) (hfa : f a ≠ c) {k : κ} {r : α} (hr : f r = c) :
    t'.get? k = some r ↔ t.get? k = some r := by
  rw [Table.get?_put? h]
  by_cases hk : k = Row.key a
  · rw [if_pos hk, hk, hx]
    constructor
    · intro ha
      cases ha
      exact absurd hr hfa
    · intro ha
      cases ha
      exact absurd hr hfx
  · rw [if_neg hk]

/-- an insert into another group leaves the rows of a group as they are -/
theorem get?_insert?_group (h : t.insert? a = some t') (hfa : f a ≠ c) {k : κ} {r : α}
    (hr : f r = c) : t'.get? k = some r ↔ t.get? k = some r := by
  rw [Table.get?_insert? h]
  by_cases hk : k = Row.key a
  · rw [if_pos hk, hk, Table.get?_of_insert? h]
    constructor
    · intro ha
      cases ha
      exact absurd hr hfa
    · intro ha
      cases ha
  · rw [if_neg hk]

end

structure Untouched (s t : State) (id : DeploymentId) : Prop where
  deployment : t.deployments.get? id = s.deployments.get? id
  release : ∀ k r, r.deploymentId = id →
    (t.releases.get? k = some r ↔ s.releases.get? k = some r)
  power : ∀ k p, p.deploymentId = id → (t.powers.get? k = some p ↔ s.powers.get? k = some p)
  cluster : t.cluster id = s.cluster id

variable {cfg : Settings} {s t : State} {a : Action} {w : WorkerId} {id : DeploymentId}

/-- what a step outside the workers does to one deployment -/
inductive RequestStep (a : Action) (s t : State) (id : DeploymentId) : Prop
  | untouched (same : Untouched s t id)
  | create (r : CreateRequest) (sub : SubscriptionId) (ns : String) (values : Json)
      (hostname : Option String) (isPaid : Bool) (named : r.deploymentId = id)
      (before : s.deployments.get? id = none)
      (after : t.deployments.get? id = some (r.deployment s.now sub ns values hostname isPaid))
      (releases : s.releases.insert? (newRelease r.releaseId 1 id r.desiredTemplateId r.buildId
        values s.now) = some t.releases)
      (powers : t.powers = s.powers) (cluster : t.cluster = s.cluster)
      (action : ∃ c, a = .create c r)
  | update (u : UpdateRequest) (d : Deployment) (values : Json) (hostname : Option String)
      (buildId : Option BuildId) (before : s.deployments.get? id = some d)
      (settled : d.status = .ready ∨ d.status = .error) (closed : ¬ hasOpenJob s.jobs id)
      (opened : hasOpenJob t.jobs id)
      (after : t.deployments.get? id = some (u.deployment d values hostname))
      (releases : s.releases.insert? (newRelease u.releaseId (nextReleaseNumber s.releases id) id
        u.desiredTemplateId buildId values s.now) = some t.releases)
      (powers : t.powers = s.powers) (cluster : t.cluster = s.cluster)
      (action : ∃ c, a = .update c u) (named : u.id = id)
  | delete (d : Deployment) (before : s.deployments.get? id = some d)
      (leaving : ¬ (d.status = .deleting ∨ d.status = .deleted))
      (closed : ¬ hasOpenJob s.jobs id) (opened : hasOpenJob t.jobs id)
      (after : t.deployments.get? id = some (d.markDeleting s.now))
      (releases : t.releases = s.releases) (powers : t.powers = s.powers)
      (cluster : t.cluster = s.cluster)
  | power (r : PowerRequest) (d : Deployment) (before : s.deployments.get? id = some d)
      (ready : d.status = .ready) (changes : powerState s.powers d.desiredPowerId ≠ r.target)
      (closed : ¬ hasOpenJob s.jobs id) (opened : hasOpenJob t.jobs id)
      (after : t.deployments.get? id = some { d with desiredPowerId := some s.powers.nextKey })
      (releases : t.releases = s.releases) (powers : s.powers.insert? (r.row s d) = some t.powers)
      (cluster : t.cluster = s.cluster)
  | provision (d : Deployment) (before : s.deployments.get? id = some d)
      (pending : d.status = .pending)
      (after : t.deployments.get? id = some { d with status := .provisioning })
      (releases : t.releases = s.releases) (powers : t.powers = s.powers)
      (cluster : t.cluster = s.cluster)

/-- **a step outside the workers does one of five things to a deployment, or leaves it alone** -/
theorem requestStep_of_written (h : Written a s t) (id : DeploymentId) :
    RequestStep a s t id := by
  cases h with
  | aside hdep hr hj rest =>
    exact .untouched ⟨by rw [hdep], fun _ _ _ => by rw [hr], fun _ _ _ => by rw [rest.powers],
      by rw [rest.cluster]⟩
  | create r ns values hostname isPaid hdep hr hj rest action =>
    by_cases hid : r.deploymentId = id
    · subst hid
      exact .create r _ ns values hostname isPaid rfl (Table.get?_of_insert? hdep)
        (Table.get?_insert?_self hdep) hr rest.powers rest.cluster action
    · exact .untouched ⟨(Table.get?_insert? hdep id).trans (if_neg (Ne.symm hid)),
        fun k x hx => get?_insert?_group _ hr hid hx, fun _ _ _ => by rw [rest.powers],
        by rw [rest.cluster]⟩
  | update u d values hostname buildId row settled hdep hr hj rest action =>
    have hu : d.id = u.id := Table.key_of_get? row
    by_cases hid : d.id = id
    · subst hid
      rw [← hu] at row
      exact .update u d values hostname buildId row settled (hj.opened _ rfl).1
        (hj.opened _ rfl).2 (Table.get?_put?_self (a := u.deployment d values hostname) hdep row) hr
        rest.powers rest.cluster action hu.symm
    · exact .untouched ⟨Table.get?_put?_of_ne hdep (Ne.symm hid),
        fun k r hrd => get?_insert?_group DeploymentRelease.deploymentId hr hid hrd,
        fun _ _ _ => by rw [rest.powers], by rw [rest.cluster]⟩
  | delete d row leaving hdep hr hj rest =>
    by_cases hid : d.id = id
    · subst hid
      exact .delete d row leaving (hj.opened _ rfl).1 (hj.opened _ rfl).2
        (Table.get?_put?_self (a := d.markDeleting s.now) hdep row) hr rest.powers rest.cluster
    · exact .untouched ⟨Table.get?_put?_of_ne hdep (Ne.symm hid), fun _ _ _ => by rw [hr],
        fun _ _ _ => by rw [rest.powers], by rw [rest.cluster]⟩
  | power r d row ready changes hp hdep hr hj cluster workers =>
    by_cases hid : d.id = id
    · subst hid
      exact .power r d row ready changes (hj.opened _ rfl).1 (hj.opened _ rfl).2
        (Table.get?_put?_self (a := { d with desiredPowerId := some s.powers.nextKey }) hdep row)
        hr hp cluster
    · exact .untouched ⟨Table.get?_put?_of_ne hdep (Ne.symm hid), fun _ _ _ => by rw [hr],
        fun k p hpd => get?_insert?_group DeploymentPower.deploymentId hp hid hpd, by rw [cluster]⟩
  | paid n info p sub action fetched status payment named first subscription hdep hr hj rest =>
    have hsame : t.deployments.get? id = s.deployments.get? id → RequestStep a s t id := fun hd =>
      .untouched ⟨hd, fun _ _ _ => by rw [hr], fun _ _ _ => by rw [rest.powers],
        by rw [rest.cluster]⟩
    cases hd : s.deployments.get? id with
    | none => exact hsame (by rw [hdep, hd, Option.map_none])
    | some d =>
      by_cases hp : d.subscriptionId = sub.id ∧ d.status = .pending
      · refine .provision d hd hp.2 ?_ hr rest.powers rest.cluster
        rw [hdep, hd, Option.map_some, Deployment.provisioned, if_pos hp]
      · refine hsame ?_
        rw [hdep, hd, Option.map_some, Deployment.provisioned, if_neg hp]

/-- **no request touches a deployment that has an open job** -/
theorem untouched_written (hs : Sound s) (h : Written a s t) (ho : hasOpenJob s.jobs id) :
    Untouched s t id := by
  cases requestStep_of_written h id with
  | untouched same => exact same
  | create r sub ns values hostname isPaid named before =>
    obtain ⟨j, hj, -, rfl⟩ := ho
    obtain ⟨d, hd⟩ := hs.jobDeployment j.id j (Table.get?_of_mem hj)
    rw [before] at hd
    cases hd
  | update u d values hostname buildId before settled closed => exact absurd ho closed
  | delete d before leaving closed => exact absurd ho closed
  | power r d before ready changes closed => exact absurd ho closed
  | provision d before pending => exact absurd ho (hs.pending id d before pending)

/-- the steps that write the core alone, and vars -/
def Action.isCore : Action → Bool
  | tick _ | create _ _ | webhook _ | createBuild _ _ | claimBuild _ | recordBuildJob _ _
  | finishBuild _ _ => false
  | _ => true

/-- the billing, the builds and the clock are as they were -/
structure SameAside (s t : State) : Prop where
  subscriptions : t.subscriptions = s.subscriptions
  payments : t.payments = s.payments
  builds : t.builds = s.builds
  now : t.now = s.now

theorem aside_of_core {cfg : Settings} (h : step cfg s a = some t) (ha : a.isCore = true) :
    SameAside s t := by
  cases a with
  | update c u =>
    obtain ⟨d, values, hostname, buildId, deployments, releases, vars, jobs, -, -, -, -, -, -, -, -,
      rfl⟩ := updateDeployment_ok (toOption_eq_some.mp h)
    exact ⟨rfl, rfl, rfl, rfl⟩
  | delete userId id =>
    obtain ⟨d, -, -, ⟨-, rfl⟩ | ⟨-, deployments, jobs, -, -, rfl⟩⟩ :=
      deleteDeployment_ok (toOption_eq_some.mp h)
    · exact ⟨rfl, rfl, rfl, rfl⟩
    · exact ⟨rfl, rfl, rfl, rfl⟩
  | power r =>
    obtain ⟨d, -, -, -, ⟨-, rfl⟩ | ⟨-, -, powers, deployments, jobs, -, -, -, rfl⟩⟩ :=
      changePower_ok (toOption_eq_some.mp h)
    · exact ⟨rfl, rfl, rfl, rfl⟩
    · exact ⟨rfl, rfl, rfl, rfl⟩
  | writeVars c r =>
    obtain ⟨d, vars, -, -, -, -, rfl⟩ := writeVarsRequest_ok (toOption_eq_some.mp h)
    exact ⟨rfl, rfl, rfl, rfl⟩
  | claimJob w skipped =>
    obtain ⟨-, j, jobs, -, rfl⟩ := claimJob_ok h
    exact ⟨rfl, rfl, rfl, rfl⟩
  | claimRelease w =>
    obtain ⟨job, id, d, stage, releases, -, -, -, rfl⟩ := claimRelease_ok h
    exact ⟨rfl, rfl, rfl, rfl⟩
  | claimPower w x =>
    obtain ⟨job, id, session, values, release, d, stage, powers, -, -, -, rfl⟩ := claimPower_ok h
    exact ⟨rfl, rfl, rfl, rfl⟩
  | applyRelease w x =>
    obtain ⟨job, id, session, values, release, power, d, text, -, -, rfl⟩ := applyRelease_ok h
    exact ⟨rfl, rfl, rfl, rfl⟩
  | recordOutcome w =>
    obtain ⟨job, id, d, release, power, result, row, releases, powers, deployments, -, -, -, -, -,
      rfl⟩ := recordOutcome_ok h
    exact ⟨rfl, rfl, rfl, rfl⟩
  | markJob w =>
    obtain ⟨job, id, result, status, error, jobs, -, -, -, -, rfl⟩ := markJob_ok h
    exact ⟨rfl, rfl, rfl, rfl⟩
  | crash w =>
    rw [crash_ok h]
    exact ⟨rfl, rfl, rfl, rfl⟩
  | _ => cases ha

/-- the turn of every worker but the one that steps is as it was -/
theorem workers_of_step {cfg : Settings} (h : step cfg s a = some t) {w' : WorkerId} (ha : a.worker ≠ some w') :
    t.workers w' = s.workers w' := by
  cases hwa : a.worker with
  | none => rw [(written_of_step h hwa).workers]
  | some w =>
    obtain ⟨new, hnew⟩ := workers_of_worker h hwa
    rw [hnew]
    refine Function.update_of_ne ?_ _ _
    rintro rfl
    exact ha hwa

/-! ## Leases and open jobs over a step -/

/-- only a claim leases a job to a worker -/
theorem lease_of_step (h : step cfg s a = some t) {k : JobId} {j : ReconcileJob}
    (hj : t.jobs.get? k = some j) (hl : j.lockedBy = some w)
    (hne : ∀ skipped, a ≠ .claimJob w skipped) : s.jobs.get? k = some j := by
  cases ha : a.worker with
  | none =>
    obtain ⟨ids, he, -⟩ := (written_of_step h ha).enqueued
    rcases he.fresh j (Table.mem_of_get? hj) with hold | ⟨-, hn, -⟩
    · have hk : j.id = k := Table.key_of_get? hj
      exact hk ▸ Table.get?_of_mem hold
    · rw [hn] at hl
      cases hl
  | some w' =>
    rcases jobs_of_worker h ha with he | ⟨skipped, x, rfl, hc⟩ |
      ⟨job, id', result, status, error, -, -, -, hdone⟩
    · exact he ▸ hj
    · obtain ⟨-, -, -, hput⟩ := claimNextJob_ok hc
      rcases get?_of_put? hput hj with ⟨-, rfl⟩ | ⟨-, hj⟩
      · cases hl
        exact absurd rfl (hne skipped)
      · exact hj
    · obtain ⟨x, hx, ⟨-, hput⟩ | ⟨-, he⟩⟩ := completeJob_ok hdone
      · rcases get?_of_put? hput hj with ⟨-, rfl⟩ | ⟨-, hj⟩
        · cases hl
        · exact hj
      · exact he ▸ hj

/-- an overwritten job that stays open, or was another deployment's, leaves the open job there -/
theorem hasOpenJob_put? {jobs jobs' : Table ReconcileJob} {j j' : ReconcileJob}
    (hput : jobs.put? j' = some jobs') (hj : jobs.get? j'.id = some j)
    (hkeep : j.deploymentId = id → j'.isOpen = true ∧ j'.deploymentId = id)
    (ho : hasOpenJob jobs id) : hasOpenJob jobs' id := by
  obtain ⟨x, hx, hopen, hd⟩ := ho
  have hxrow := Table.get?_of_mem hx
  have hkept := get?_put?_cases hput hxrow
  by_cases hk : Row.key x = Row.key j'
  · rw [if_pos hk] at hkept
    have hxj : jobs.get? j'.id = some x := (show Row.key x = j'.id from hk) ▸ hxrow
    rw [hj, Option.some.injEq] at hxj
    obtain ⟨h1, h2⟩ := hkeep (hxj ▸ hd)
    exact ⟨j', Table.mem_of_get? hkept, h1, h2⟩
  · rw [if_neg hk] at hkept
    exact ⟨x, Table.mem_of_get? hkept, hopen, hd⟩

/-- a worker keeps a deployment's open job, or has recorded its outcome and completes it -/
theorem hasOpenJob_of_worker (hs : Sound s) (h : step cfg s a = some t)
    (ha : a.worker = some w) (ho : hasOpenJob s.jobs id) :
    hasOpenJob t.jobs id ∨ ∃ job result j, s.workers w = some ⟨job, id, .recorded result⟩ ∧
      s.jobs.get? job = some j ∧ j.lockedBy = some w := by
  rcases jobs_of_worker h ha with he | ⟨skipped, j, -, hc⟩ |
    ⟨job, id', result, status, error, hturn, -, -, hdone⟩
  · exact .inl (he ▸ ho)
  · obtain ⟨hm, -, -, hput⟩ := claimNextJob_ok hc
    have hj : s.jobs.get? j.id = some j := Table.get?_of_mem hm
    exact .inl (hasOpenJob_put? hput hj (fun hid => ⟨rfl, hid⟩) ho)
  · obtain ⟨j, hj, ⟨hl, hput⟩ | ⟨-, he⟩⟩ := completeJob_ok hdone
    · have hjid : j.id = job := Table.key_of_get? hj
      by_cases hid : j.deploymentId = id
      · obtain ⟨j', hj', hjd⟩ := (hs.turns w _ hturn).1
        have hj' : s.jobs.get? job = some j' := hj'
        rw [hj] at hj'
        cases hj'
        have hid' : id' = id := hjd.symm.trans hid
        exact .inr ⟨job, result, j, hid' ▸ hturn, hj, hl⟩
      · exact .inl (hasOpenJob_put? hput (j := j) (hjid ▸ hj) (fun he => absurd he hid) ho)
    · exact .inl (he ▸ ho)

/-- a worker that holds the lease of its job has an open job for the deployment -/
theorem hasOpenJob_of_lease (hs : Sound s) {turn : Turn} {j : ReconcileJob}
    (hw : s.workers w = some turn) (hj : s.jobs.get? turn.job = some j)
    (hl : j.lockedBy = some w) : hasOpenJob s.jobs turn.deployment := by
  obtain ⟨⟨j', hj', hd⟩, -⟩ := hs.turns w turn hw
  rw [hj, Option.some.injEq] at hj'
  have hrun : j.status = .running := hs.locked _ j hj (by simp [hl])
  refine ⟨j, Table.mem_of_get? hj, ?_, hj' ▸ hd⟩
  rw [ReconcileJob.isOpen, hrun]
  rfl

end Freepod
