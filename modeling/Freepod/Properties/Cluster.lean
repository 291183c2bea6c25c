import Freepod.Runs.Results

/-!
# The applied pointers and the cluster

`rendering` is what the applied pointers of a deployment say the cluster holds.  A reconcile that
fails before Helm, or whose upgrade Helm rolls back, moves neither; one that succeeds moves both.
The sweep of a stopped deployment's workloads runs after Helm has upgraded, and when it raises the
reconcile is recorded as failed over a cluster that has moved.

* `applied_pointers_true`: in orderly runs where no worker dies between Helm and the commit and no
  sweep raises after an upgrade that changed something, the pointers of a live deployment without
  an open job name what the cluster holds.
* `applied_pointers_false`: a sweep that raises leaves them behind.
-/

namespace Freepod
open Base

variable {cfg : Settings} {s t : State} {a : Action} {w : WorkerId} {id : DeploymentId}
  {d : Deployment}

/-- what Helm renders for a release in the power a pointer names -/
def rendering (s : State) (release : Option ReleaseId) (power : Option PowerId) :
    Option Rendered :=
  (release.bind s.releases.get?).map fun r =>
    { releaseId := r.id
      templateId := r.templateId
      values := r.valuesJson
      render := if powerState s.powers power = .stopped then .stopped else .normal }

/-- the template of a release -/
def templateOf (s : State) (release : Option ReleaseId) : Option TemplateId :=
  (release.bind s.releases.get?).map DeploymentRelease.templateId

/-- the applied pointers say what the cluster holds -/
structure Truthful (s : State) (d : Deployment) : Prop where
  cluster : s.cluster d.id = rendering s d.appliedReleaseId d.appliedPowerId
  template : d.appliedTemplateId = templateOf s d.appliedReleaseId

/-- the result of a reconcile says which pointers the cluster follows -/
structure ResultTruthful (s : State) (d : Deployment) (result : ReconcileResult) : Prop where
  ready : result.status = .ready →
    s.cluster d.id = rendering s (some d.desiredReleaseId) d.desiredPowerId ∧
      result.appliedTemplateId = some d.desiredTemplateId
  failed : result.status ≠ .ready →
    Truthful s d ∧ result.appliedTemplateId = d.appliedTemplateId

/-! ## The condition -/

/-- every step up to and including Helm's upgrade succeeds -/
def Effects.upgrades (x : Effects) (d : Deployment) : Prop :=
  validateInputState x d = none ∧ x.firstRaise callsBeforeHelm = none ∧
    x.raises .helmUpgradeInstall = none

/-- no sweep raises after Helm has upgraded to something else -/
def sweepsCleanly (s : State) (a : Action) : Prop :=
  ∀ w x turn d, a = .applyRelease w x → s.workers w = some turn →
    s.deployments.get? turn.deployment = some d →
    d.releaseToClaim ≠ none ∨ d.powerClaimed ≠ none → x.upgrades d →
    powerState s.powers d.desiredPowerId = .stopped → x.raises .sweepStoppedWorkloads = none

/-- no worker dies between the provisioner's work and the commit -/
def survives (s : State) (a : Action) : Prop :=
  ∀ w turn, a = .crash w → s.workers w = some turn → turn.stage.isApplied = false

/-! ## What a rendering depends on -/

theorem powerState_kept (hk : Kept s t) {k : Option PowerId}
    (h : ∀ p, k = some p → ∃ row, s.powers.get? p = some row) :
    powerState t.powers k = powerState s.powers k := by
  cases k with
  | none => rfl
  | some p =>
    obtain ⟨row, hrow⟩ := h p rfl
    obtain ⟨row', hrow', hi⟩ := hk.powers p row hrow
    simp only [powerState, Option.bind_some, hrow, hrow', (DeploymentPower.of_intent hi).2]

theorem rendering_kept (hk : Kept s t) {k : Option ReleaseId} {p : Option PowerId}
    (hr : ∀ x, k = some x → ∃ r, s.releases.get? x = some r)
    (hp : ∀ x, p = some x → ∃ row, s.powers.get? x = some row) :
    rendering t k p = rendering s k p ∧ templateOf t k = templateOf s k := by
  cases k with
  | none => exact ⟨rfl, rfl⟩
  | some x =>
    obtain ⟨r, hr⟩ := hr x rfl
    obtain ⟨r', hr', hi⟩ := hk.releases x r hr
    obtain ⟨-, -, ht, hv⟩ := DeploymentRelease.of_intent hi
    have hid : r'.id = r.id :=
      (show r'.id = x from Table.key_of_get? hr').trans (Table.key_of_get? hr).symm
    simp only [rendering, templateOf, Option.bind_some, hr, hr', Option.map_some, hid, ht, hv,
      powerState_kept hk hp, and_self]

theorem Pointed.appliedRendering_kept (h : Pointed s d) (hk : Kept s t) :
    rendering t d.appliedReleaseId d.appliedPowerId =
        rendering s d.appliedReleaseId d.appliedPowerId ∧
      templateOf t d.appliedReleaseId = templateOf s d.appliedReleaseId :=
  rendering_kept hk (fun x hx => (h.applied x hx).imp fun _ h => h.1)
    fun x hx => (h.appliedPower x hx).imp fun _ h => h.1

theorem Pointed.desiredRendering_kept (h : Pointed s d) (hk : Kept s t) :
    rendering t (some d.desiredReleaseId) d.desiredPowerId =
        rendering s (some d.desiredReleaseId) d.desiredPowerId ∧
      templateOf t (some d.desiredReleaseId) = templateOf s (some d.desiredReleaseId) :=
  rendering_kept hk (fun x hx => by cases hx; exact h.desired.imp fun _ h => h.1)
    fun x hx => (h.desiredPower x hx).imp fun _ h => h.1

/-- Helm renders the desired release in the desired power -/
theorem rendering_desired (h : Pointed s d) :
    rendering s (some d.desiredReleaseId) d.desiredPowerId =
        some (renderDeployment s.powers d d.desiredReleaseId) ∧
      templateOf s (some d.desiredReleaseId) = some d.desiredTemplateId := by
  obtain ⟨r, hr, -, ht, hv⟩ := h.desired
  have hid : r.id = d.desiredReleaseId := Table.key_of_get? hr
  simp only [rendering, templateOf, Option.bind_some, hr, Option.map_some, hid, ht, hv,
    renderDeployment, and_self]

/-- the pointers stay truthful while the cluster and they stay as they are -/
theorem Truthful.kept {d' : Deployment} (h : Truthful s d) (hk : Kept s t) (hp : Pointed s d)
    (hid : d'.id = d.id) (hr : d'.appliedReleaseId = d.appliedReleaseId)
    (hpow : d'.appliedPowerId = d.appliedPowerId)
    (ht : d'.appliedTemplateId = d.appliedTemplateId) (hc : t.cluster d.id = s.cluster d.id) :
    Truthful t d' := by
  obtain ⟨hren, htem⟩ := hp.appliedRendering_kept hk
  constructor
  · rw [hid, hc, hr, hpow, hren, h.cluster]
  · rw [ht, hr, htem, h.template]

theorem ResultTruthful.kept {result : ReconcileResult} (h : ResultTruthful s d result)
    (hk : Kept s t) (hp : Pointed s d) (hc : t.cluster d.id = s.cluster d.id) :
    ResultTruthful t d result := by
  refine ⟨fun hr => ?_, fun hf => ?_⟩
  · obtain ⟨hcluster, ht⟩ := h.ready hr
    exact ⟨by rw [hc, hcluster, (hp.desiredRendering_kept hk).1], ht⟩
  · obtain ⟨htrue, ht⟩ := h.failed hf
    exact ⟨htrue.kept hk hp rfl rfl rfl rfl hc, ht⟩

/-! ## What the provisioner does to a live deployment -/

/-- the provisioner fails over an unmoved cluster, or upgrades to what is desired; then the sweep
of a stopped deployment raises, or the result is ready -/
theorem provision_live (now : Time) (x : Effects) (powers : Table DeploymentPower)
    (cluster : Option Rendered) (hlive : d.deletedAt = none) :
    let out := provision now x powers cluster d d.valuesRelease
    (out.1 = cluster ∧ ∃ e, out.2 = .error e) ∨
      x.upgrades d ∧ out.1 = some (renderDeployment powers d d.desiredReleaseId) ∧
        ((∃ e, out.2 = .error e ∧ powerState powers d.desiredPowerId = .stopped ∧
            x.raises .sweepStoppedWorkloads = some e) ∨
          ∃ r, out.2 = .ok r ∧ r.status = .ready ∧
            r.appliedTemplateId = some d.desiredTemplateId) := by
  simp only [provision, hlive, valuesRelease_of_live hlive, reconcileApply]
  cases hv : validateInputState x d with
  | some e => exact .inl ⟨rfl, e, rfl⟩
  | none =>
    cases hb : x.firstRaise callsBeforeHelm with
    | some e => exact .inl ⟨rfl, e, rfl⟩
    | none =>
      cases hh : x.raises .helmUpgradeInstall with
      | some e => exact .inl ⟨rfl, e, rfl⟩
      | none =>
        refine .inr ⟨⟨hv, hb, hh⟩, ?_⟩
        simp only [finishApply]
        cases hsweep : (if (renderDeployment powers d d.desiredReleaseId).render = .stopped then
          x.raises .sweepStoppedWorkloads else none) with
        | none => exact ⟨rfl, .inr ⟨_, rfl, rfl, rfl⟩⟩
        | some e =>
          refine ⟨rfl, .inl ⟨e, rfl, ?_, ?_⟩⟩
          · by_contra hrun
            have : (renderDeployment powers d d.desiredReleaseId).render = .normal := if_neg hrun
            rw [this] at hsweep
            cases hsweep
          · split at hsweep
            · exact hsweep
            · cases hsweep

/-! ## One step -/

/-- nobody is between the provisioner's work and the commit on the deployment -/
def NoneApplied (s : State) (id : DeploymentId) : Prop :=
  ∀ w turn, s.workers w = some turn → turn.deployment = id → turn.stage.isApplied = false

structure Mirrored (s : State) : Prop where
  ordered : Ordered s
  running : ∀ id d, s.deployments.get? id = some d → d.desiredPowerId = none →
    d.appliedPowerId = none
  absent : ∀ id, s.deployments.get? id = none → s.cluster id = none
  rest : ∀ id d, s.deployments.get? id = some d → d.deletedAt = none → NoneApplied s id →
    Truthful s d
  turns : ∀ w job id d release power result,
    s.workers w = some ⟨job, id, .applied d release power result⟩ → d.deletedAt = none →
    ResultTruthful s d result

theorem mirrored_init : Mirrored .init where
  ordered := ordered_init
  running := fun _ _ h => nomatch h
  absent := fun _ _ => rfl
  rest := fun _ _ h => nomatch h
  turns := fun _ _ _ _ _ _ _ h => nomatch h

/-- a turn of another stage on the deployment leaves no room for one with its result at hand -/
theorem noneApplied_of_turn (ho : Ordered s) {turn : Turn} (hw : s.workers w = some turn)
    (hp : turn.stage.preCommit = true) (hst : turn.stage.isApplied = false) :
    NoneApplied s turn.deployment := by
  intro w' turn' hw' hd
  refine Bool.eq_false_iff.mpr fun ha => ?_
  have hsame := ho.unique hw' hw (turn'.stage.preCommit_of_isApplied ha) hp hd
  rw [hsame, hw] at hw'
  cases hw'
  rw [hst] at ha
  cases ha

theorem NoneApplied.of_workers (h : NoneApplied t id) (he : t.workers = s.workers) :
    NoneApplied s id := fun w turn hw hd => h w turn (he ▸ hw) hd

theorem mirrored_absent (hm : Mirrored s) (h : step cfg s a = some t)
    (hnone : t.deployments.get? id = none) : t.cluster id = none := by
  have hs : s.deployments.get? id = none := by
    refine Option.eq_none_iff_forall_ne_some.mpr fun d hd => ?_
    obtain ⟨d', hd', -⟩ := (kept_of_step h).deployments id d hd
    rw [hnone] at hd'
    cases hd'
  have hcl := hm.absent id hs
  rcases deploymentStep_of_step hm.ordered h id with h | h
  · cases h with
    | untouched same => rw [same.cluster, hcl]
    | create r sub ns values hostname isPaid named before after releases powers cluster =>
      rw [cluster, hcl]
    | update u x values hostname buildId before settled closed opened after releases powers
        cluster => rw [cluster, hcl]
    | delete x before leaving closed opened after releases powers cluster => rw [cluster, hcl]
    | power r x before ready changes closed opened after releases powers cluster =>
      rw [cluster, hcl]
    | provision x before pending after releases powers cluster => rw [cluster, hcl]
  · cases h with
    | untouched same => rw [same.cluster, hcl]
    | claimRelease w job x r turn before => rw [hs] at before; cases before
    | claimPower w job session values release x p turn before => rw [hs] at before; cases before
    | applyRelease w x job session y text action turn before => rw [hs] at before; cases before
    | recordOutcome w job x release power result turn before => rw [hs] at before; cases before

/-- the commit moves the pointers to where the result says the cluster is -/
theorem truthful_outcome (hk : Kept s t) (hp : Pointed s d) {result : ReconcileResult}
    (hlive : d.deletedAt = none) (hrun : d.desiredPowerId = none → d.appliedPowerId = none)
    (h : ResultTruthful s d result) (hc : t.cluster = s.cluster) :
    Truthful t (d.outcome result) := by
  by_cases hr : result.status = .ready
  · obtain ⟨hcluster, ht⟩ := h.ready hr
    have happ := appliedRelease_outcome hlive hr
    have hpow := appliedPower_outcome hlive hrun hr
    obtain ⟨hren, htem⟩ := hp.desiredRendering_kept hk
    constructor
    · show t.cluster d.id = _
      rw [happ, hpow, hren, ← hcluster, hc]
    · rw [happ, htem, (rendering_desired hp).2]
      exact ht
  · obtain ⟨htrue, ht⟩ := h.failed hr
    refine htrue.kept hk hp rfl ?_ ?_ ?_ (by rw [hc])
    · exact if_neg fun h => hr h.2
    · exact if_neg fun h => hr h.2
    · exact ht

theorem mirrored_rest (hm : Mirrored s) (hsurv : survives s a) (h : step cfg s a = some t)
    (hd : t.deployments.get? id = some d) (hlive : d.deletedAt = none) (hno : NoneApplied t id) :
    Truthful t d := by
  have hk := kept_of_step h
  have pointed : ∀ x, s.deployments.get? id = some x → Pointed s x := hm.ordered.pointed id
  cases ha : a.worker with
  | none =>
    have hw := (written_of_step h ha).workers
    have rest : ∀ x, s.deployments.get? id = some x → x.deletedAt = none → Truthful s x :=
      fun x hx hl => hm.rest id x hx hl (hno.of_workers hw)
    cases requestStep_of_written (written_of_step h ha) id with
    | untouched same =>
      have hd := same.deployment ▸ hd
      have hid : d.id = id := Table.key_of_get? hd
      exact (rest d hd hlive).kept hk (pointed d hd) rfl rfl rfl rfl (hid ▸ same.cluster)
    | create r sub ns values hostname isPaid named before after releases powers cluster =>
      rw [after] at hd
      cases hd
      subst named
      exact ⟨by rw [cluster]; exact hm.absent _ before, rfl⟩
    | update u x values hostname buildId before settled closed opened after releases powers
        cluster =>
      rw [after] at hd
      cases hd
      exact (rest x before hlive).kept hk (pointed x before) rfl rfl rfl rfl (by rw [cluster])
    | delete x before leaving closed opened after =>
      rw [after] at hd
      cases hd
      cases hlive
    | power r x before ready changes closed opened after releases powers cluster =>
      rw [after] at hd
      cases hd
      exact (rest x before hlive).kept hk (pointed x before) rfl rfl rfl rfl (by rw [cluster])
    | provision x before pending after releases powers cluster =>
      rw [after] at hd
      cases hd
      exact (rest x before hlive).kept hk (pointed x before) rfl rfl rfl rfl (by rw [cluster])
  | some w =>
    cases workerStep_of_step hm.ordered h ha id with
    | untouched same busy =>
      have hd := same.deployment ▸ hd
      have hid : d.id = id := Table.key_of_get? hd
      have hnone : NoneApplied s id := fun w' turn hw' hdep => by
        refine Bool.eq_false_iff.mpr fun happ => ?_
        rcases busy w' turn hw' hdep happ with hcrash | hstay
        · rw [hsurv w' turn hcrash hw'] at happ
          cases happ
        · rw [hno w' turn hstay hdep] at happ
          cases happ
      exact (hm.rest id d hd hlive hnone).kept hk (pointed d hd) rfl rfl rfl rfl
        (hid ▸ same.cluster)
    | claimRelease w' job x r turn before claimed row queued releases deployments powers cluster =>
      have hd := deployments ▸ hd
      have hnone := noneApplied_of_turn hm.ordered turn rfl rfl
      exact (hm.rest id d hd hlive hnone).kept hk (pointed d hd) rfl rfl rfl rfl (by rw [cluster])
    | claimPower w' job session values release x p turn before claimed row queued powers
        deployments releases cluster =>
      have hd := deployments ▸ hd
      have hnone := noneApplied_of_turn hm.ordered turn rfl rfl
      exact (hm.rest id d hd hlive hnone).kept hk (pointed d hd) rfl rfl rfl rfl (by rw [cluster])
    | applyRelease w' x job session y text action turn before cluster stage =>
      have := hno w' _ stage rfl
      cases this
    | recordOutcome w' job x release power result turn before releases powers after cluster =>
      rw [after] at hd
      cases hd
      exact truthful_outcome hk (pointed x before) hlive (hm.running id x before)
        (hm.turns w' job id x release power result turn hlive) cluster

theorem mirrored_turns (hm : Mirrored s) (hsweep : sweepsCleanly s a)
    (h : step cfg s a = some t) {job : JobId} {release : Option DeploymentRelease}
    {power : Option DeploymentPower} {result : ReconcileResult}
    (hw : t.workers w = some ⟨job, id, .applied d release power result⟩)
    (hlive : d.deletedAt = none) : ResultTruthful t d result := by
  have hk := kept_of_step h
  rcases applied_of_step hm.ordered h hw with
    ⟨hother, hold⟩ | ⟨x, session, text, ha, hs, hd, hc, rfl⟩
  · obtain ⟨d', hd', rfl, -⟩ := (hm.ordered.turns w _ hold rfl).row
    have hd' : s.deployments.get? id = some d := hd'
    have hid : d.id = id := Table.key_of_get? hd'
    have hu : Untouched s t id := untouched_of_other hm.ordered h hold rfl hother
    exact (hm.turns w job id d release power result hold hlive).kept hk
      (hm.ordered.pointed id d hd') (hid ▸ hu.cluster)
  · have hid : d.id = id := Table.key_of_get? hd
    have hp := hm.ordered.pointed id d hd
    have htrue : Truthful s d := hm.rest id d hd hlive (noneApplied_of_turn hm.ordered hs rfl rfl)
    have hrender := (rendering_desired hp).1
    rcases provision_live s.now x s.powers (s.cluster id)
      hlive with ⟨hcl, e, he⟩ | ⟨hup, hcl, ⟨e, he, hstop, hraise⟩ | ⟨r, hr, hready, ht⟩⟩
    · -- nothing moved
      have hfail : ResultTruthful s d (failure s.now d (text e)) :=
        ⟨fun h => (nomatch h), fun _ => ⟨htrue, rfl⟩⟩
      rw [he]
      exact hfail.kept hk hp (by rw [hid, hc, hcl])
    · -- Helm upgraded to what it already served
      have hnothing : d.releaseToClaim = none ∧ d.powerClaimed = none := by
        by_contra hne
        have := hsweep w x _ d ha hs hd (by tauto) hup hstop
        rw [hraise] at this
        cases this
      have happ : d.appliedReleaseId = some d.desiredReleaseId := by
        by_contra hne
        have hclaim : d.releaseToClaim = some d.desiredReleaseId := if_pos ⟨hlive, hne⟩
        rw [hnothing.1] at hclaim
        cases hclaim
      have hpow : d.appliedPowerId = d.desiredPowerId := by
        by_contra hne
        have hclaim : d.powerClaimed = d.desiredPowerId :=
          (if_pos hlive).trans (if_neg (Ne.symm hne))
        rw [hnothing.2] at hclaim
        exact hne (by rw [hm.running id d hd hclaim.symm, ← hclaim])
      have hsame : t.cluster d.id = s.cluster d.id := by
        rw [hid, hc, hcl, ← hid, htrue.cluster, happ, hpow, hrender]
      have hfail : ResultTruthful s d (failure s.now d (text e)) :=
        ⟨fun h => (nomatch h), fun _ => ⟨htrue, rfl⟩⟩
      rw [he]
      exact hfail.kept hk hp hsame
    · -- the upgrade is what is desired
      rw [hr]
      refine ⟨fun _ => ⟨?_, ht⟩, fun h => absurd hready h⟩
      rw [hid, hc, hcl, (hp.desiredRendering_kept hk).1, hrender]

theorem mirrored_step (hm : Mirrored s)
    (hok : orderly cfg s a ∧ survives s a ∧ sweepsCleanly s a) (h : step cfg s a = some t) :
    Mirrored t where
  ordered := ordered_step hm.ordered hok.1 h
  running := running_step hm.ordered hm.running h
  absent := fun _ hn => mirrored_absent hm h hn
  rest := fun _ _ hd hl hn => mirrored_rest hm hok.2.1 h hd hl hn
  turns := fun _ _ _ _ _ _ _ hw hl => mirrored_turns hm hok.2.2 h hw hl

/-- **the applied pointers tell the truth about the cluster** -/
theorem applied_pointers_true
    (hs : (platform cfg).Reach (fun s a => orderly cfg s a ∧ survives s a ∧ sweepsCleanly s a)
      .init s)
    (hd : s.deployments.get? id = some d) (hlive : d.deletedAt = none)
    (hclosed : ¬ hasOpenJob s.jobs id) :
    s.cluster id = rendering s d.appliedReleaseId d.appliedPowerId ∧
      d.appliedTemplateId = templateOf s d.appliedReleaseId := by
  have hm : Mirrored s := hs.invariant mirrored_init fun _ _ _ hm hok h => mirrored_step hm hok h
  have hid : d.id = id := Table.key_of_get? hd
  have hno : NoneApplied s id := fun w turn hw hdep => by
    refine Bool.eq_false_iff.mpr fun happ => hclosed ?_
    have hhold := hm.ordered.turns w turn hw (turn.stage.preCommit_of_isApplied happ)
    exact hdep ▸ hhold.hasOpenJob hm.ordered.sound
  have htrue := hm.rest id d hd hlive hno
  exact ⟨hid ▸ htrue.cluster, htrue.template⟩

instance (x : Effects) (d : Deployment) : Decidable (x.upgrades d) :=
  inferInstanceAs (Decidable (_ ∧ _ ∧ _))

/-- the check that decides `survives` and `sweepsCleanly` -/
def cleanCheck (s : State) (a : Action) : Bool :=
  match a with
  | .crash w => (s.workers w).all fun turn => !turn.stage.isApplied
  | .applyRelease w x =>
    (s.workers w).all fun turn => (s.deployments.get? turn.deployment).all fun d =>
      decide ((d.releaseToClaim ≠ none ∨ d.powerClaimed ≠ none) → x.upgrades d →
        powerState s.powers d.desiredPowerId = .stopped → x.raises .sweepStoppedWorkloads = none)
  | _ => true

theorem clean_of_check (s : State) (a : Action) (h : cleanCheck s a = true) :
    survives s a ∧ sweepsCleanly s a := by
  constructor
  · rintro w turn rfl hw
    simpa [cleanCheck, hw] using h
  · rintro w x turn d rfl hw hd
    simpa only [cleanCheck, hw, hd, Option.all_some, decide_eq_true_eq] using h

/-- a deployment that is ready, and its stop -/
def stopRun (x : Effects) : List Action :=
  .create .sample (.sample .null none) :: Action.turn "w1" .clean ++
    .power .stopSample :: Action.turn "w1" x

/-- the deployment is live and no job of it is open -/
def settledSample (s : State) : Bool :=
  (s.deployments.get? 1).any (fun d : Deployment => decide (d.deletedAt = none)) &&
    decide (¬ hasOpenJob s.jobs 1)

theorem settledSample_iff (h : settledSample s = true) :
    ∃ d, s.deployments.get? 1 = some d ∧ d.deletedAt = none ∧ ¬ hasOpenJob s.jobs 1 := by
  rw [settledSample, Bool.and_eq_true, Option.any_eq_true, decide_eq_true_eq] at h
  obtain ⟨⟨d, hd, hlive⟩, hclosed⟩ := h
  exact ⟨d, hd, of_decide_eq_true hlive, hclosed⟩

/-- what the cluster runs the deployment as -/
def State.render (s : State) (id : DeploymentId) : Option Render := (s.cluster id).map Rendered.render

theorem applied_pointers_true_stopped : ∃ s d, s.deployments.get? 1 = some d ∧
    s.render 1 = some .stopped ∧
    s.cluster 1 = rendering s d.appliedReleaseId d.appliedPowerId ∧
      d.appliedTemplateId = templateOf s d.appliedReleaseId := by
  obtain ⟨s, hs, -, hp⟩ := exists_orderly_of_runIf .sample clean_of_check
    (l := stopRun .clean) (p := fun s : State =>
      settledSample s && decide (s.render 1 = some .stopped))
    (onlyAmong_init ["w1"]) (by decide +kernel)
  rw [Bool.and_eq_true, decide_eq_true_eq] at hp
  obtain ⟨d, hd, hlive, hclosed⟩ := settledSample_iff hp.1
  exact ⟨s, d, hd, hp.2, applied_pointers_true hs hd hlive hclosed⟩

/-- Helm has stopped the workloads and the sweep raised: the pointers still say that they run -/
theorem applied_pointers_false :
    ¬ ∀ s id d, (platform .sample).Reach (fun _ _ => True) .init s →
      s.deployments.get? id = some d → d.deletedAt = none → ¬ hasOpenJob s.jobs id →
      s.cluster id = rendering s d.appliedReleaseId d.appliedPowerId ∧
        d.appliedTemplateId = templateOf s d.appliedReleaseId := by
  intro hall
  obtain ⟨s, hs, hp⟩ := Machine.exists_reach_of_run (M := platform .sample) (s := .init)
    (l := stopRun (.raising .sweepStoppedWorkloads)) (p := fun s : State =>
      settledSample s && (decide (s.render 1 = some .stopped) &&
        (s.deployments.get? 1).all fun d : Deployment => decide (d.appliedPowerId = none)))
    (by decide +kernel)
  rw [Bool.and_eq_true, Bool.and_eq_true, decide_eq_true_eq] at hp
  obtain ⟨hset, hstopped, hpow⟩ := hp
  obtain ⟨d, hd, hlive, hclosed⟩ := settledSample_iff hset
  rw [hd, Option.all_some, decide_eq_true_eq] at hpow
  have hcluster := (hall s 1 d hs hd hlive hclosed).1
  rw [State.render, hcluster, hpow, rendering, Option.map_map, Option.map_eq_some_iff] at hstopped
  obtain ⟨r, -, hr⟩ := hstopped
  cases hr

end Freepod
