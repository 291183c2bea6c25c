import Freepod.Runs.Orderly

/-!
# Results and what their commit leaves

A reconcile ends `ready`, `deleted` or in an `error`; `ResultOf` says with which error and which
template.  The commit of a result moves the pointers of the release and of the power row.

* `resulted_step`: every result a worker has at hand is one of its deployment.
* `release_outcome`, `power_outcome`: where the commit leaves the pointers.
* `powerStep_of_step`: where a step leaves the power pointers and the rows of a deployment.
-/

namespace Freepod
open Base

variable {cfg : Settings} {s t : State} {a : Action} {w : WorkerId} {id : DeploymentId}
  {d : Deployment} {result : ReconcileResult}

/-- how a reconcile of the deployment ends -/
inductive ResultOf (d : Deployment) (result : ReconcileResult) : Prop
  | ready (status : result.status = .ready) (live : d.deletedAt = none)
      (error : result.lastError = none)
      (template : result.appliedTemplateId = some d.desiredTemplateId)
  | deleted (status : result.status = .deleted) (gone : d.deletedAt ≠ none)
      (error : result.lastError = none) (template : result.appliedTemplateId = d.appliedTemplateId)
  | failed (status : result.status = .error) (error : result.lastError ≠ none)
      (template : result.appliedTemplateId = d.appliedTemplateId)

theorem ResultOf.live (h : ResultOf d result) (hr : result.status = .ready) :
    d.deletedAt = none := by
  cases h with
  | ready status live => exact live
  | deleted status => rw [status] at hr; cases hr
  | failed status => rw [status] at hr; cases hr

theorem ResultOf.noError (h : ResultOf d result) (hr : result.status = .ready) :
    result.lastError = none := by
  cases h with
  | ready status live error => exact error
  | deleted status => rw [status] at hr; cases hr
  | failed status => rw [status] at hr; cases hr

/-- the provisioner's answer -/
theorem resultOf_provision {now : Time} {x : Effects} {powers : Table DeploymentPower}
    {cluster : Option Rendered} {values : Option ReleaseId}
    (h : (provision now x powers cluster d values).2 = .ok result) : ResultOf d result := by
  unfold provision at h
  split at h
  · cases h
  split at h
  · rename_i hdel
    unfold reconcileDelete at h
    split at h
    · cases h
    split at h
    · cases h
    split at h
    · cases h
    · cases h
      exact .deleted rfl (by rw [hdel]; exact fun h => nomatch h) rfl rfl
  · cases h
  · rename_i hlive
    unfold reconcileApply at h
    split at h
    · cases h
    split at h
    · cases h
    unfold finishApply at h
    split at h
    · cases h
    · cases h
      exact .ready rfl hlive rfl rfl

theorem resultOf_reconcile (now : Time) (x : Effects) (powers : Table DeploymentPower)
    (cluster : Option Rendered) (d : Deployment) (values : Option ReleaseId)
    (text : String → String) :
    ResultOf d (reconcileResult now d text (provision now x powers cluster d values).2) := by
  cases h : (provision now x powers cluster d values).2 with
  | error e => exact .failed rfl (fun h => nomatch h) rfl
  | ok r => exact resultOf_provision h

/-- the results at hand are those of their deployments -/
def Resulted (s : State) : Prop :=
  ∀ w job id d release power result,
    s.workers w = some ⟨job, id, .applied d release power result⟩ → ResultOf d result

theorem resulted_init : Resulted .init := fun _ _ _ _ _ _ _ h => nomatch h

theorem resulted_step (ho : Ordered s) (hr : Resulted s) (h : step cfg s a = some t) :
    Resulted t := by
  intro w job id d release power result hw
  rcases applied_of_step ho h hw with ⟨-, hw⟩ | ⟨x, session, text, -, -, -, -, rfl⟩
  · exact hr w job id d release power result hw
  · exact resultOf_reconcile s.now x s.powers (s.cluster id) d d.valuesRelease text

/-! ## The pointers after the commit -/

/-- the applied release after the commit -/
theorem release_outcome (d : Deployment) (result : ReconcileResult) :
    d.releaseToClaim = none ∧ (d.outcome result).appliedReleaseId = d.appliedReleaseId ∨
      result.status ≠ .ready ∧ (d.outcome result).appliedReleaseId = d.appliedReleaseId ∨
      d.releaseToClaim = some d.desiredReleaseId ∧ result.status = .ready ∧
        (d.outcome result).appliedReleaseId = some d.desiredReleaseId := by
  by_cases hr : result.status = .ready
  · cases hc : d.releaseToClaim with
    | none =>
      refine .inl ⟨rfl, if_neg fun h => ?_⟩
      rw [hc] at h
      exact nomatch h.1
    | some k =>
      have hk : d.desiredReleaseId = k := desired_of_releaseToClaim hc
      refine .inr (.inr ⟨by rw [hk], hr, ?_⟩)
      show (if d.releaseToClaim.isSome ∧ result.status = .ready then d.releaseToClaim
        else d.appliedReleaseId) = _
      rw [hc, if_pos ⟨rfl, hr⟩, hk]
  · exact .inr (.inl ⟨hr, if_neg fun h => hr h.2⟩)

/-- **the power pointers after the commit**: as they were, both at the row that was changed to, or
both back at the row that was applied -/
theorem power_outcome (d : Deployment) (result : ReconcileResult) :
    d.powerClaimed = none ∧ (d.outcome result).desiredPowerId = d.desiredPowerId ∧
        (d.outcome result).appliedPowerId = d.appliedPowerId ∨
      (∃ k, d.powerClaimed = some k ∧ result.status = .ready ∧
        (d.outcome result).desiredPowerId = some k ∧ (d.outcome result).appliedPowerId = some k) ∨
      ∃ k, d.powerClaimed = some k ∧ result.status ≠ .ready ∧
        (d.outcome result).desiredPowerId = d.appliedPowerId ∧
        (d.outcome result).appliedPowerId = d.appliedPowerId := by
  have desired : (d.outcome result).desiredPowerId =
      if d.powerClaimed.isSome ∧ result.status ≠ .ready then d.appliedPowerId
      else d.desiredPowerId := rfl
  have applied : (d.outcome result).appliedPowerId =
      if d.powerClaimed.isSome ∧ result.status = .ready then d.powerClaimed
      else d.appliedPowerId := rfl
  rw [desired, applied]
  cases hc : d.powerClaimed with
  | none =>
    refine .inl ⟨rfl, ?_, ?_⟩
    · exact if_neg fun h => nomatch h.1
    · exact if_neg fun h => nomatch h.1
  | some k =>
    by_cases hr : result.status = .ready
    · refine .inr (.inl ⟨k, rfl, hr, ?_, if_pos ⟨rfl, hr⟩⟩)
      rw [if_neg fun h => h.2 hr, desired_of_powerClaimed hc]
    · exact .inr (.inr ⟨k, rfl, hr, if_pos ⟨rfl, hr⟩, if_neg fun h => hr h.2⟩)

/-- a ready outcome leaves the desired release applied -/
theorem appliedRelease_outcome (hlive : d.deletedAt = none) (hr : result.status = .ready) :
    (d.outcome result).appliedReleaseId = some d.desiredReleaseId := by
  rcases release_outcome d result with ⟨hnone, he⟩ | ⟨hne, -⟩ | ⟨-, -, he⟩
  · rw [he]
    by_contra hdiff
    rw [Deployment.releaseToClaim, if_pos ⟨hlive, hdiff⟩] at hnone
    cases hnone
  · exact absurd hr hne
  · exact he

/-- after the outcome of a ready reconcile nothing is left to roll out -/
theorem releaseToClaim_outcome (hr : result.status = .ready) :
    (d.outcome result).releaseToClaim = none := by
  refine if_neg fun h => h.2 ?_
  exact appliedRelease_outcome h.1 hr

/-- after an outcome there is no power row to change to -/
theorem powerClaimed_outcome : (d.outcome result).powerClaimed = none := by
  rw [Deployment.powerClaimed, Deployment.powerToClaim]
  rcases power_outcome d result with ⟨hnone, hd, ha⟩ | ⟨k, -, -, hd, ha⟩ | ⟨k, -, -, hd, ha⟩
  · rw [hd, ha]
    exact hnone
  · rw [hd, ha, if_pos rfl, ite_self]
  · rw [hd, ha, if_pos rfl, ite_self]

/-- a ready outcome leaves the desired power applied -/
theorem appliedPower_outcome (hlive : d.deletedAt = none)
    (hrun : d.desiredPowerId = none → d.appliedPowerId = none) (hr : result.status = .ready) :
    (d.outcome result).appliedPowerId = d.desiredPowerId := by
  rcases power_outcome d result with ⟨hnone, -, ha⟩ | ⟨k, hk, -, -, ha⟩ | ⟨k, -, hne, -⟩
  · rw [ha]
    rw [Deployment.powerClaimed, if_pos hlive, Deployment.powerToClaim] at hnone
    split at hnone
    · rename_i hsame
      exact hsame.symm
    · rw [hnone, hrun hnone]
  · rw [ha, desired_of_powerClaimed hk]
  · exact absurd hr hne

/-! ## The power pointers over a step -/

/-- the power rows of a deployment have the outcomes they had -/
def SameOutcomes (s t : State) (id : DeploymentId) : Prop :=
  ∀ k p, s.powers.get? k = some p → p.deploymentId = id →
    ∃ p', t.powers.get? k = some p' ∧ p'.deploymentId = id ∧ p'.endedAt = p.endedAt ∧
      p'.error = p.error

/-- where a step leaves the power of a deployment -/
inductive PowerStep (s t : State) (id : DeploymentId) (d : Deployment) : Prop
  | created (before : s.deployments.get? id = none) (desired : d.desiredPowerId = none)
      (applied : d.appliedPowerId = none)
  | kept (x : Deployment) (before : s.deployments.get? id = some x)
      (desired : d.desiredPowerId = x.desiredPowerId) (applied : d.appliedPowerId = x.appliedPowerId)
      (rows : SameOutcomes s t id)
      (live : d.deletedAt = x.deletedAt ∨ ¬ hasOpenJob s.jobs id)
  | requested (x : Deployment) (row : DeploymentPower) (before : s.deployments.get? id = some x)
      (ready : x.status = .ready) (opened : hasOpenJob t.jobs id)
      (desired : d.desiredPowerId = some row.id) (applied : d.appliedPowerId = x.appliedPowerId)
      (deletedAt : d.deletedAt = x.deletedAt) (new : t.powers.get? row.id = some row)
      (error : row.error = none) (rows : SameOutcomes s t id)
  | recorded (w : WorkerId) (job : JobId) (x : Deployment) (release : Option DeploymentRelease)
      (power : Option DeploymentPower) (result : ReconcileResult)
      (turn : s.workers w = some ⟨job, id, .applied x release power result⟩)
      (before : s.deployments.get? id = some x) (after : d = x.outcome result)
      (powers : x.powerClaimed = none ∧ t.powers = s.powers ∨
        ∃ p, x.powerClaimed = some p.id ∧ s.powers.get? p.id = some p ∧
          s.powers.put? (p.finish s.now result) = some t.powers)

theorem sameOutcomes_of_powers (h : t.powers = s.powers) : SameOutcomes s t id :=
  fun k p hp hd => ⟨p, by rw [h, hp], hd, rfl, rfl⟩

theorem SameOutcomes.of_untouched (h : Untouched s t id) : SameOutcomes s t id :=
  fun k p hp hd => ⟨p, (h.power k p hd).mpr hp, hd, rfl, rfl⟩

theorem powerStep_of_step (ho : Ordered s) (h : step cfg s a = some t)
    (hd : t.deployments.get? id = some d) : PowerStep s t id d := by
  rcases deploymentStep_of_step ho h id with hreq | hw
  · cases hreq with
    | untouched same =>
      exact .kept d (same.deployment ▸ hd) rfl rfl (.of_untouched same) (.inl rfl)
    | create r sub ns values hostname isPaid named before after =>
      rw [after] at hd
      cases hd
      exact .created before rfl rfl
    | update u x values hostname buildId before settled closed opened after releases powers =>
      rw [after] at hd
      cases hd
      exact .kept x before rfl rfl (sameOutcomes_of_powers powers) (.inl rfl)
    | delete x before leaving closed opened after releases powers =>
      rw [after] at hd
      cases hd
      exact .kept x before rfl rfl (sameOutcomes_of_powers powers) (.inr closed)
    | power r x before ready changes closed opened after releases powers =>
      rw [after] at hd
      cases hd
      exact .requested x (r.row s x) before ready opened rfl rfl rfl (Table.get?_insert?_self powers)
        rfl fun k p hp hid => ⟨p, Table.get?_insert?_of_get? powers hp, hid, rfl, rfl⟩
    | provision x before pending after releases powers =>
      rw [after] at hd
      cases hd
      exact .kept x before rfl rfl (sameOutcomes_of_powers powers) (.inl rfl)
  · cases hw with
    | untouched same =>
      exact .kept d (same.deployment ▸ hd) rfl rfl (.of_untouched same) (.inl rfl)
    | claimRelease w job x r turn before claimed row queued releases deployments powers =>
      exact .kept d (deployments ▸ hd) rfl rfl (sameOutcomes_of_powers powers) (.inl rfl)
    | claimPower w job session values release x q turn before claimed row queued powers
        deployments =>
      refine .kept d (deployments ▸ hd) rfl rfl (fun k p hp hid => ?_) (.inl rfl)
      have hput := get?_put?_cases powers hp
      by_cases hk : k = q.id
      · subst hk
        rw [row, Option.some.injEq] at hp
        subst hp
        exact ⟨_, hput.trans (congrArg some (if_pos rfl)), hid, rfl, rfl⟩
      · exact ⟨p, hput.trans (congrArg some (if_neg hk)), hid, rfl, rfl⟩
    | applyRelease w x job session y text action turn before cluster stage deployments releases
        powers => exact .kept d (deployments ▸ hd) rfl rfl (sameOutcomes_of_powers powers) (.inl rfl)
    | recordOutcome w job x release power result turn before releases powers after =>
      rw [after] at hd
      cases hd
      exact .recorded w job x release power result turn before rfl powers

/-- a deployment that is to run by default has no power row applied -/
def Running (s : State) : Prop :=
  ∀ id d, s.deployments.get? id = some d → d.desiredPowerId = none → d.appliedPowerId = none

theorem running_step (ho : Ordered s) (hr : Running s) (h : step cfg s a = some t) : Running t := by
  intro id d hd hnone
  cases powerStep_of_step ho h hd with
  | created before desired applied => exact applied
  | kept x before desired applied =>
    rw [applied]
    exact hr id x before (desired ▸ hnone)
  | requested x row before ready opened desired =>
    rw [desired] at hnone
    cases hnone
  | recorded w job x release power result turn before after =>
    subst after
    rcases power_outcome x result with ⟨-, hd, ha⟩ | ⟨k, -, -, hd, -⟩ | ⟨k, -, -, hd, ha⟩
    · rw [ha]
      exact hr id x before (hd ▸ hnone)
    · rw [hd] at hnone
      cases hnone
    · rw [ha, ← hd, hnone]

end Freepod
