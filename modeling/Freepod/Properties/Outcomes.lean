import Freepod.Runs.Results

/-!
# Outcome columns are written once

Nothing in the ledgers keeps a row that has ended from being written again: the rule rests on
which reconciles can follow which.  `Unended s d` says that the release a reconcile of `d` would
roll out has not ended; `Once` says where that has to hold.

* `outcomes_written_once`: a row that has ended never changes, in orderly runs that take no job
  over after its holder recorded a failed rollout and died.
* `outcome_rewritten`: after such a takeover the row is written again.
-/

namespace Freepod
open Base

variable {cfg : Settings} {s t : State} {a : Action} {w : WorkerId} {id : DeploymentId}
  {d : Deployment}

/-- the release a reconcile of the deployment would roll out has not ended -/
def Unended (s : State) (d : Deployment) : Prop :=
  ∀ r, d.releaseToClaim.bind s.releases.get? = some r → r.endedAt = none

/-- the power row a reconcile of the deployment would change to has not ended -/
def PowerUnended (s : State) (d : Deployment) : Prop :=
  ∀ p, d.powerClaimed.bind s.powers.get? = some p → p.endedAt = none

/-- no job is taken over from a worker that recorded a failed rollout -/
def noRerun (cfg : Settings) (s : State) (a : Action) : Prop :=
  ∀ w skipped j jobs d, a = .claimJob w skipped →
    claimNextJob cfg s.now s.jobs w skipped = some (j, jobs) → j.status = .running →
    s.deployments.get? j.deploymentId = some d → Unended s d

/-- where a rollout has yet to end -/
structure Once (s : State) : Prop where
  ordered : Ordered s
  ready : ∀ id d, s.deployments.get? id = some d → d.status = .ready → d.releaseToClaim = none
  waiting : ∀ id d, s.deployments.get? id = some d →
    d.status = .pending ∨ d.status = .provisioning → Unended s d
  power : ∀ id d, s.deployments.get? id = some d → PowerUnended s d
  queued : ∀ k j d, s.jobs.get? k = some j → j.status = .queued →
    s.deployments.get? j.deploymentId = some d → Unended s d
  turns : ∀ w turn d, s.workers w = some turn → turn.stage.preCommit = true →
    s.deployments.get? turn.deployment = some d → Unended s d

theorem once_init : Once .init where
  ordered := ordered_init
  ready := fun _ _ h => nomatch h
  waiting := fun _ _ h => nomatch h
  power := fun _ _ h => nomatch h
  queued := fun _ _ _ h => nomatch h
  turns := fun _ _ _ h => nomatch h

/-! ## What one step does to a rollout -/

theorem unended_of_none (h : d.releaseToClaim = none) : Unended s d := by
  intro r hr
  rw [h] at hr
  cases hr

theorem powerUnended_of_none (h : d.powerClaimed = none) : PowerUnended s d := by
  intro p hp
  rw [h] at hp
  cases hp

theorem releaseToClaim_of_deleted (h : d.deletedAt ≠ none) : d.releaseToClaim = none :=
  if_neg fun hc => h hc.1

theorem powerClaimed_of_deleted (h : d.deletedAt ≠ none) : d.powerClaimed = none := if_neg h

theorem Unended.untouched (h : Unended s d) (hp : Pointed s d) (hu : Untouched s t d.id) :
    Unended t d := by
  intro r hr
  rw [releaseToClaim_untouched hp hu] at hr
  exact h r hr

theorem PowerUnended.untouched (h : PowerUnended s d) (hp : Pointed s d)
    (hu : Untouched s t d.id) : PowerUnended t d := by
  intro p hr
  rw [powerClaimed_untouched hp hu] at hr
  exact h p hr

/-- a new release has not ended -/
theorem unended_of_insert {r : DeploymentRelease} {releases : Table DeploymentRelease}
    (h : s.releases.insert? r = some releases) (ht : t.releases = releases)
    (hd : d.desiredReleaseId = r.id) (hr : r.endedAt = none) : Unended t d := by
  intro x hx
  obtain ⟨k, hk, hx⟩ := Option.bind_eq_some_iff.mp hx
  have hself : releases.get? r.id = some r := Table.get?_insert?_self h
  rw [ht, ← desired_of_releaseToClaim hk, hd, hself] at hx
  cases hx
  exact hr

/-- a row that is desired and rewritten with the end it had -/
theorem unended_of_put {r r' : DeploymentRelease} (h : Unended s d)
    (hr : s.releases.get? r.id = some r) (hput : s.releases.put? r' = some t.releases)
    (hid : r'.id = r.id) (hend : r'.endedAt = r.endedAt) : Unended t d := by
  intro x hx
  obtain ⟨k, hk, hx⟩ := Option.bind_eq_some_iff.mp hx
  rcases get?_of_put? hput hx with ⟨hkey, rfl⟩ | ⟨-, hx⟩
  · have hkr : k = r.id := hkey.trans hid
    exact hend.trans (h r (by rw [hk, hkr]; exact hr))
  · exact h x (by rw [hk]; exact hx)

theorem powerUnended_of_put {p p' : DeploymentPower} (h : PowerUnended s d)
    (hp : s.powers.get? p.id = some p) (hput : s.powers.put? p' = some t.powers)
    (hid : p'.id = p.id) (hend : p'.endedAt = p.endedAt) : PowerUnended t d := by
  intro x hx
  obtain ⟨k, hk, hx⟩ := Option.bind_eq_some_iff.mp hx
  rcases get?_of_put? hput hx with ⟨hkey, rfl⟩ | ⟨-, hx⟩
  · have hkp : k = p.id := hkey.trans hid
    exact hend.trans (h p (by rw [hk, hkp]; exact hp))
  · exact h x (by rw [hk]; exact hx)

/-- a worker's step leaves a rollout unended, or records its outcome -/
theorem unended_of_workerStep (ho : Ordered s) (h : WorkerStep a s t id)
    (hd : t.deployments.get? id = some d) :
    s.deployments.get? id = some d ∧ (Unended s d → Unended t d) ∨
      ∃ w job x release power result,
        s.workers w = some ⟨job, id, .applied x release power result⟩ ∧
        t.workers w = some ⟨job, id, .recorded result⟩ ∧ d = x.outcome result := by
  cases h with
  | untouched same =>
    have hd := same.deployment ▸ hd
    have hid : d.id = id := Table.key_of_get? hd
    exact .inl ⟨hd, fun hu => hu.untouched (ho.pointed id d hd) (hid ▸ same)⟩
  | claimRelease w job x r turn before claimed row queued releases deployments powers cluster =>
    exact .inl ⟨deployments ▸ hd, fun hu => unended_of_put hu row releases rfl rfl⟩
  | claimPower w job session values release x p turn before claimed row queued powers deployments
      releases cluster =>
    refine .inl ⟨deployments ▸ hd, fun hu r hr => hu r ?_⟩
    rwa [releases] at hr
  | applyRelease w x job session y text action turn before cluster stage deployments releases
      powers =>
    refine .inl ⟨deployments ▸ hd, fun hu r hr => hu r ?_⟩
    rwa [releases] at hr
  | recordOutcome w job x release power result turn before releases powers after cluster stage =>
    rw [after] at hd
    cases hd
    exact .inr ⟨w, job, x, release, power, result, turn, stage, rfl⟩

theorem settled_of_turn (hs : Sound s) {w : WorkerId} {job : JobId} {x : Deployment}
    {release : Option DeploymentRelease} {power : Option DeploymentPower}
    {result : ReconcileResult}
    (h : s.workers w = some ⟨job, id, .applied x release power result⟩) :
    result.status.isSettled = true := (hs.turns w _ h).2

theorem once_ready (ho : Once s) (h : step cfg s a = some t)
    (hd : t.deployments.get? id = some d) (hst : d.status = .ready) :
    d.releaseToClaim = none := by
  rcases deploymentStep_of_step ho.ordered h id with h | h
  · cases h with
    | untouched same => exact ho.ready id d (same.deployment ▸ hd) hst
    | create r sub ns values hostname isPaid named before after =>
      rw [after] at hd
      cases hd
      cases isPaid with
      | true => cases hst
      | false => cases hst
    | update u x values hostname buildId before settled closed opened after =>
      rw [after] at hd
      cases hd
      cases hst
    | delete x before leaving closed opened after =>
      rw [after] at hd
      cases hd
      cases hst
    | power r x before ready changes closed opened after =>
      rw [after] at hd
      cases hd
      exact ho.ready id x before ready
    | provision x before pending after =>
      rw [after] at hd
      cases hd
      cases hst
  · rcases unended_of_workerStep ho.ordered h hd with ⟨hd, -⟩ | ⟨w, job, x, r, p, result, -, -, rfl⟩
    · exact ho.ready id d hd hst
    · exact releaseToClaim_outcome hst

theorem once_waiting (ho : Once s) (h : step cfg s a = some t)
    (hd : t.deployments.get? id = some d) (hst : d.status = .pending ∨ d.status = .provisioning) :
    Unended t d := by
  have old : ∀ x, s.deployments.get? id = some x → Pointed s x := ho.ordered.pointed id
  rcases deploymentStep_of_step ho.ordered h id with h | h
  · cases h with
    | untouched same =>
      have hd := same.deployment ▸ hd
      have hid : d.id = id := Table.key_of_get? hd
      exact (ho.waiting id d hd hst).untouched (old d hd) (hid ▸ same)
    | create r sub ns values hostname isPaid named before after releases =>
      rw [after] at hd
      cases hd
      exact unended_of_insert releases rfl rfl rfl
    | update u x values hostname buildId before settled closed opened after releases =>
      rw [after] at hd
      cases hd
      exact unended_of_insert releases rfl rfl rfl
    | delete x before leaving closed opened after =>
      rw [after] at hd
      cases hd
      rcases hst with hst | hst
      · cases hst
      · cases hst
    | power r x before ready changes closed opened after =>
      rw [after] at hd
      cases hd
      rw [show x.status = .ready from ready] at hst
      rcases hst with hst | hst
      · cases hst
      · cases hst
    | provision x before pending after releases =>
      rw [after] at hd
      cases hd
      intro r hr
      rw [releases] at hr
      exact ho.waiting id x before (.inl pending) r hr
  · rcases unended_of_workerStep ho.ordered h hd with
      ⟨hd, hu⟩ | ⟨w, job, x, r, p, result, hw, -, rfl⟩
    · exact hu (ho.waiting id d hd hst)
    · have hsettled := settled_of_turn ho.ordered.sound hw
      rcases hst with hst | hst
      · rw [show result.status = .pending from hst] at hsettled
        cases hsettled
      · rw [show result.status = .provisioning from hst] at hsettled
        cases hsettled

theorem once_power (ho : Once s) (h : step cfg s a = some t)
    (hd : t.deployments.get? id = some d) : PowerUnended t d := by
  have same : ∀ {x}, s.deployments.get? id = some x → t.powers = s.powers →
      x.powerClaimed = d.powerClaimed → PowerUnended t d := fun {x} hx hp he p hpow => by
    rw [hp, ← he] at hpow
    exact ho.power id x hx p hpow
  have untouched : Untouched s t id → PowerUnended t d := fun hu => by
    have hd := hu.deployment ▸ hd
    have hid : d.id = id := Table.key_of_get? hd
    exact (ho.power id d hd).untouched (ho.ordered.pointed id d hd) (hid ▸ hu)
  rcases deploymentStep_of_step ho.ordered h id with h | h
  · cases h with
    | untouched hu => exact untouched hu
    | create r sub ns values hostname isPaid named before after =>
      rw [after] at hd
      cases hd
      exact powerUnended_of_none rfl
    | update u x values hostname buildId before settled closed opened after releases powers =>
      rw [after] at hd
      cases hd
      exact same before powers rfl
    | delete x before leaving closed opened after =>
      rw [after] at hd
      cases hd
      exact powerUnended_of_none (powerClaimed_of_deleted fun h => nomatch h)
    | power r x before ready changes closed opened after releases powers =>
      rw [after] at hd
      cases hd
      intro p hp
      obtain ⟨k, hk, hp⟩ := Option.bind_eq_some_iff.mp hp
      have hself : t.powers.get? s.powers.nextKey = some (r.row s x) :=
        Table.get?_insert?_self powers
      have hkey : some s.powers.nextKey = some k := desired_of_powerClaimed hk
      rw [← Option.some.inj hkey, hself] at hp
      cases hp
      rfl
    | provision x before pending after releases powers =>
      rw [after] at hd
      cases hd
      exact same before powers rfl
  · cases h with
    | untouched hu => exact untouched hu
    | claimRelease w job x r turn before claimed row queued releases deployments powers =>
      exact same (deployments ▸ hd) powers rfl
    | claimPower w job session values release x p turn before claimed row queued powers
        deployments =>
      exact powerUnended_of_put (ho.power id d (deployments ▸ hd)) row powers rfl rfl
    | applyRelease w x job session y text action turn before cluster stage deployments releases
        powers =>
      exact same (deployments ▸ hd) powers rfl
    | recordOutcome w job x release power result turn before releases powers after =>
      rw [after] at hd
      cases hd
      exact powerUnended_of_none powerClaimed_outcome

/-- a deployment with an open job is worked on by the job's holder alone -/
theorem untouched_of_queued (ho : Ordered s) (h : step cfg s a = some t) {k : JobId}
    {j : ReconcileJob} (hj : s.jobs.get? k = some j) (hq : j.status = .queued) :
    Untouched s t j.deploymentId := by
  have hopen : j.isOpen = true := by
    rw [ReconcileJob.isOpen, hq]
    rfl
  cases ha : a.worker with
  | none =>
    exact untouched_written ho.sound (written_of_step h ha)
      ⟨j, Table.mem_of_get? hj, hopen, rfl⟩
  | some w =>
    refine untouched_worker ho h ha fun turn hw hp hd => ?_
    -- the worker's own open job would be a second one
    obtain ⟨j', hj', ho', hd', hl⟩ := (ho.turns w turn hw hp).openJob ho.sound
    have := openJob_unique (Table.mem_of_get? hj) hj' hopen ho' (hd.symm.trans hd'.symm)
    have hrun := ho.sound.locked _ j' (Table.get?_of_mem hj') (by simp [hl])
    rw [← this, hq] at hrun
    cases hrun

/-- a job that is queued after a step was queued before it, or is a request's -/
theorem queued_of_step (h : step cfg s a = some t) {k : JobId} {j : ReconcileJob}
    (hj : t.jobs.get? k = some j) (hq : j.status = .queued) :
    s.jobs.get? k = some j ∨ ∃ d, t.deployments.get? j.deploymentId = some d ∧
      (d.status = .provisioning ∨ d.status = .ready ∨
        d.status = .deleting ∧ d.deletedAt ≠ none) := by
  cases ha : a.worker with
  | none =>
    obtain ⟨ids, he, hids⟩ := (written_of_step h ha).enqueued
    rcases he.fresh j (Table.mem_of_get? hj) with hold | ⟨-, -, hid⟩
    · have hk : j.id = k := Table.key_of_get? hj
      exact .inl (hk ▸ Table.get?_of_mem hold)
    · exact .inr (hids _ hid)
  | some w =>
    refine .inl ?_
    rcases jobs_of_worker h ha with he | ⟨skipped, j', -, hc⟩ |
      ⟨job, id', result, status, error, -, hne, -, hdone⟩
    · exact he ▸ hj
    · obtain ⟨-, -, -, hput⟩ := claimNextJob_ok hc
      rcases get?_of_put? hput hj with ⟨-, rfl⟩ | ⟨-, hj⟩
      · cases hq
      · exact hj
    · obtain ⟨x, hx, ⟨-, hput⟩ | ⟨-, he⟩⟩ := completeJob_ok hdone
      · rcases get?_of_put? hput hj with ⟨-, rfl⟩ | ⟨-, hj⟩
        · exact absurd hq hne
        · exact hj
      · exact he ▸ hj

theorem once_queued (ho : Once s) (h : step cfg s a = some t) {k : JobId} {j : ReconcileJob}
    (hj : t.jobs.get? k = some j) (hq : j.status = .queued)
    (hd : t.deployments.get? j.deploymentId = some d) : Unended t d := by
  rcases queued_of_step h hj hq with hold | ⟨x, hx, hst⟩
  · have hu := untouched_of_queued ho.ordered h hold hq
    have hd := hu.deployment ▸ hd
    have hid : d.id = j.deploymentId := Table.key_of_get? hd
    exact (ho.queued k j d hold hq hd).untouched (ho.ordered.pointed _ d hd) (hid ▸ hu)
  · rw [hd] at hx
    cases hx
    rcases hst with hst | hst | ⟨-, hdel⟩
    · exact once_waiting ho h hd (.inr hst)
    · exact unended_of_none (once_ready ho h hd hst)
    · exact unended_of_none (releaseToClaim_of_deleted hdel)

theorem once_turns (ho : Once s) (hok : orderly cfg s a) (hre : noRerun cfg s a)
    (h : step cfg s a = some t) {turn : Turn} (hw : t.workers w = some turn)
    (hp : turn.stage.preCommit = true) (hd : t.deployments.get? turn.deployment = some d) :
    Unended t d := by
  rcases turn_of_step h hw with ⟨turn₀, hw₀, -, hid, hp₀⟩ | ⟨skipped, j, jobs, rfl, hc, rfl⟩
  · have hun : ∀ x, s.deployments.get? turn.deployment = some x → Unended s x := fun x hx =>
      ho.turns w turn₀ x hw₀ (hp₀ hp) (hid ▸ hx)
    cases ha : a.worker with
    | none =>
      have hopen := (ho.ordered.turns w turn₀ hw₀ (hp₀ hp)).hasOpenJob ho.ordered.sound
      have hu := untouched_written ho.ordered.sound (written_of_step h ha) (hid ▸ hopen)
      have hd := hu.deployment ▸ hd
      have hdid : d.id = turn.deployment := Table.key_of_get? hd
      exact (hun d hd).untouched (ho.ordered.pointed _ d hd) (hdid ▸ hu)
    | some w' =>
      rcases unended_of_workerStep ho.ordered
        (workerStep_of_step ho.ordered h ha turn.deployment) hd with
        ⟨hd, hu⟩ | ⟨w'', job, x, r, p, result, hw', hrec, rfl⟩
      · exact hu (hun d hd)
      · -- the worker that committed is the one of the turn
        have hsame := ho.ordered.unique hw₀ hw' (hp₀ hp) rfl hid
        rw [← hsame, hw] at hrec
        have hstage : turn.stage = .recorded result := congrArg Turn.stage (Option.some.inj hrec)
        rw [hstage] at hp
        cases hp
  · obtain ⟨-, j', jobs', hc', rfl⟩ := claimJob_ok h
    obtain ⟨hm, hopen, -, -⟩ := claimNextJob_ok hc
    cases hst : j.status with
    | queued => exact ho.queued j.id j d (Table.get?_of_mem hm) hst hd
    | running => exact hre w skipped j jobs d rfl hc hst hd
    | done =>
      rw [ReconcileJob.isOpen, hst] at hopen
      cases hopen
    | failed =>
      rw [ReconcileJob.isOpen, hst] at hopen
      cases hopen

theorem once_step (ho : Once s) (hok : orderly cfg s a ∧ noRerun cfg s a)
    (h : step cfg s a = some t) : Once t where
  ordered := ordered_step ho.ordered hok.1 h
  ready := fun _ _ hd hst => once_ready ho h hd hst
  waiting := fun _ _ hd hst => once_waiting ho h hd hst
  power := fun _ _ hd => once_power ho h hd
  queued := fun _ _ _ hj hq hd => once_queued ho h hj hq hd
  turns := fun _ _ _ hw hp hd => once_turns ho hok.1 hok.2 h hw hp hd

/-! ## What has ended stays -/

/-- the rows of the two ledgers that have ended are still there, unchanged -/
structure EndedKept (s t : State) : Prop where
  releases : ∀ k r, s.releases.get? k = some r → r.endedAt ≠ none → t.releases.get? k = some r
  powers : ∀ k p, s.powers.get? k = some p → p.endedAt ≠ none → t.powers.get? k = some p

section
variable {α κ ι : Type} [Row α κ ι] [DecidableEq κ] [DecidableEq ι] {x y : Table α} {b : α}

/-- an overwrite of another row leaves a row as it is -/
theorem get?_put?_of_key_ne {k : κ} {r : α} (h : x.put? b = some y) (hr : x.get? k = some r)
    (hk : k ≠ Row.key b) : y.get? k = some r := by
  rw [Table.get?_put?_of_ne h hk, hr]

end

theorem endedKept_of_step (ho : Once s) (h : step cfg s a = some t) : EndedKept s t := by
  refine ⟨fun k r hr hend => ?_, fun k p hp hend => ?_⟩
  · rcases deploymentStep_of_step ho.ordered h r.deploymentId with hs | hs
    · cases hs with
      | untouched same => exact (same.release k r rfl).mpr hr
      | create q sub ns values hostname isPaid named before after releases =>
        exact Table.get?_insert?_of_get? releases hr
      | update u x values hostname buildId before settled closed opened after releases =>
        exact Table.get?_insert?_of_get? releases hr
      | delete x before leaving closed opened after releases => exact releases ▸ hr
      | power q x before ready changes closed opened after releases => exact releases ▸ hr
      | provision x before pending after releases => exact releases ▸ hr
    · cases hs with
      | untouched same => exact (same.release k r rfl).mpr hr
      | claimRelease w job x r₀ turn before claimed row queued releases =>
        refine get?_put?_of_key_ne releases hr ?_
        rintro rfl
        have hrow : s.releases.get? r₀.id = some r := hr
        exact hend (ho.turns w _ x turn rfl before r (by rw [claimed]; exact hrow))
      | claimPower w job session values release x p turn before claimed row queued powers
          deployments releases => exact releases ▸ hr
      | applyRelease w x job session y text action turn before cluster stage deployments releases =>
        exact releases ▸ hr
      | recordOutcome w job x release power result turn before releases =>
        rcases releases with ⟨-, he⟩ | ⟨r₀, claimed, row, hput⟩
        · exact he ▸ hr
        · refine get?_put?_of_key_ne hput hr ?_
          rintro rfl
          have hrow : s.releases.get? r₀.id = some r := hr
          exact hend (ho.turns w _ x turn rfl before r (by rw [claimed]; exact hrow))
  · rcases deploymentStep_of_step ho.ordered h p.deploymentId with hs | hs
    · cases hs with
      | untouched same => exact (same.power k p rfl).mpr hp
      | create q sub ns values hostname isPaid named before after releases powers =>
        exact powers ▸ hp
      | update u x values hostname buildId before settled closed opened after releases powers =>
        exact powers ▸ hp
      | delete x before leaving closed opened after releases powers => exact powers ▸ hp
      | power q x before ready changes closed opened after releases powers =>
        exact Table.get?_insert?_of_get? powers hp
      | provision x before pending after releases powers => exact powers ▸ hp
    · cases hs with
      | untouched same => exact (same.power k p rfl).mpr hp
      | claimRelease w job x r turn before claimed row queued releases deployments powers =>
        exact powers ▸ hp
      | claimPower w job session values release x p₀ turn before claimed row queued powers =>
        refine get?_put?_of_key_ne powers hp ?_
        rintro rfl
        have hrow : s.powers.get? p₀.id = some p := hp
        exact hend (ho.power _ x before p (by rw [claimed]; exact hrow))
      | applyRelease w x job session y text action turn before cluster stage deployments releases
          powers => exact powers ▸ hp
      | recordOutcome w job x release power result turn before releases powers =>
        rcases powers with ⟨-, he⟩ | ⟨p₀, claimed, row, hput⟩
        · exact he ▸ hp
        · refine get?_put?_of_key_ne hput hp ?_
          rintro rfl
          have hrow : s.powers.get? p₀.id = some p := hp
          exact hend (ho.power _ x before p (by rw [claimed]; exact hrow))

/-! ## Runs -/

/-- **outcome columns are written once**: what has ended stays, whatever follows -/
theorem outcomes_written_once
    (hs : (platform cfg).Reach (fun s a => orderly cfg s a ∧ noRerun cfg s a) .init s)
    (ht : (platform cfg).Reach (fun s a => orderly cfg s a ∧ noRerun cfg s a) s t) :
    EndedKept s t := by
  have hstep : ∀ s a t, Once s → (orderly cfg s a ∧ noRerun cfg s a) →
      (platform cfg).step s a = some t → Once t := fun s a t ho hok h => once_step ho hok h
  have ho : Once s := hs.invariant once_init hstep
  refine ht.along ho hstep ⟨fun _ _ h _ => h, fun _ _ h _ => h⟩ fun u a v hu hk _ h => ?_
  have hv := endedKept_of_step hu h
  exact ⟨fun k r hr he => hv.releases k r (hk.releases k r hr he) he,
    fun k p hp he => hv.powers k p (hk.powers k p hp he) he⟩

/-- the check that decides `noRerun` -/
def noRerunCheck (cfg : Settings) (s : State) (a : Action) : Bool :=
  match a with
  | .claimJob w skipped =>
    (claimNextJob cfg s.now s.jobs w skipped).all fun claimed =>
      decide (claimed.1.status ≠ .running) ||
        (s.deployments.get? claimed.1.deploymentId).all fun d =>
          (d.releaseToClaim.bind s.releases.get?).all fun r => decide (r.endedAt = none)
  | _ => true

theorem noRerun_of_check (cfg : Settings) (s : State) (a : Action) (h : noRerunCheck cfg s a = true) :
    noRerun cfg s a := by
  rintro w skipped j jobs d rfl hc hrun hd r hr
  simp only [noRerunCheck, hc, Option.all_some, hd, hr, Bool.or_eq_true, decide_eq_true_eq] at h
  exact h.resolve_left fun hne => hne hrun

/-- the end of a release, when it has one -/
def State.endedAt (s : State) (k : ReleaseId) : Option Time :=
  (s.releases.get? k).bind DeploymentRelease.endedAt

/-- a rollout that a second worker finishes after a crash, and the next one -/
theorem outcomes_written_once_sample : ∃ s t, s.endedAt 1 = some 601 ∧ t.endedAt 2 = some 602 ∧
    EndedKept s t := by
  let check := fun s a => orderlyAmong .sample ["w1", "w2"] s a && noRerunCheck .sample s a
  let first := [.create .sample (.sample .null none), .claimJob "w1" [], .claimRelease "w1",
    .crash "w1", .tick 601] ++ Action.turn "w2" .clean
  let next := [.tick 1, .update .sample (.sample none 2)] ++
    Action.turn "w1" (.raising .helmUpgradeInstall)
  obtain ⟨s, hs, hidle, hp⟩ := exists_orderly_of_runIf .sample (noRerun_of_check .sample)
    (l := first) (p := fun s : State => decide (s.endedAt 1 = some 601) &&
      ((platform .sample).runIf check s next).any fun t : State =>
        decide (t.endedAt 2 = some 602)) (onlyAmong_init ["w1", "w2"]) (by decide +kernel)
  rw [Bool.and_eq_true, decide_eq_true_eq] at hp
  obtain ⟨t, ht, -, hq⟩ := exists_orderly_of_runIf .sample (noRerun_of_check .sample) hidle hp.2
  exact ⟨s, t, hp.1, of_decide_eq_true hq, outcomes_written_once hs ht⟩

theorem outcome_rewritten :
    ¬ ∀ s t, (platform .sample).Reach (fun _ _ => True) .init s →
      (platform .sample).Reach (fun _ _ => True) s t → EndedKept s t := by
  intro hall
  -- the worker dies between the commit of a failed rollout and the mark on its job
  obtain ⟨s, hs, hp⟩ := Machine.exists_reach_of_run (M := platform .sample) (s := .init)
    (l := .create .sample (.sample .null none) ::
      Action.reconcile "w1" (.raising .helmUpgradeInstall) ++ [.crash "w1", .tick 601])
    (p := fun s : State => decide (s.endedAt 1 = some 0) &&
      ((platform .sample).run s (Action.turn "w2" .clean)).any fun t : State =>
        decide (t.endedAt 1 = some 601)) (by decide +kernel)
  rw [Bool.and_eq_true, decide_eq_true_eq] at hp
  obtain ⟨t, ht, hq⟩ := Machine.exists_reach_of_run hp.2
  obtain ⟨r, hr, hend⟩ := Option.bind_eq_some_iff.mp hp.1
  have hkept := (hall s t hs ht).releases 1 r hr (by simp [hend])
  have := of_decide_eq_true hq
  rw [State.endedAt, hkept, Option.bind_some, hend] at this
  cases this

end Freepod
