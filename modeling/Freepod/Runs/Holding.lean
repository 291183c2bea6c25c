import Freepod.Runs.Frame

/-!
# What a worker that holds its lease may rely on

Before the commit of its outcome a worker holds rows it has read in memory.  `Holding` says that
it still has the lease of its job and that those rows are what the tables hold, `Pointed` what the
pointers of a deployment point at, and `Ordered` that both are so everywhere.

* `Ordered.unique`: at most one worker is before its commit on a deployment.
* `StageOk.untouched`: what a stage holds stays so while nobody touches the deployment.
* `recordOutcome_ordered`: the final commit then writes the outcome of the rows as they are.
-/

namespace Freepod
open Base

/-! ## What a turn has settled on -/

/-- the release whose values a reconcile of the deployment deploys; none on the delete path -/
def Deployment.valuesRelease (d : Deployment) : Option ReleaseId :=
  if d.deletedAt = none then some d.desiredReleaseId else none

/-- the release a reconcile of the deployment rolls out for the first time, if any -/
def Deployment.releaseToClaim (d : Deployment) : Option ReleaseId :=
  if d.deletedAt = none ∧ d.appliedReleaseId ≠ some d.desiredReleaseId then
    some d.desiredReleaseId
  else none

/-- the power row a reconcile of the deployment changes to, if any -/
def Deployment.powerClaimed (d : Deployment) : Option PowerId :=
  if d.deletedAt = none then d.powerToClaim else none

/-- the rows a session has read are the tables' -/
structure Session.Fresh (x : Session) (s : State) (d : Deployment) (values : Option ReleaseId)
    (power : Option PowerId) : Prop where
  deployment : ∀ y, x.deployment = some y → y = d
  release : ∀ r, x.release = some r → values = some r.id ∧ s.releases.get? r.id = some r
  power : ∀ p, x.power = some p → power = some p.id ∧ s.powers.get? p.id = some p

/-- what the stage holds in memory, by the row of the turn's deployment -/
def StageOk (s : State) (d : Deployment) : Stage → Prop
  | .claimed => True
  | .releaseClaimed session values release =>
    session.Fresh s d values none ∧ values = d.valuesRelease ∧ release = d.releaseToClaim
  | .powerClaimed session values release power =>
    session.Fresh s d values power ∧ values = d.valuesRelease ∧ release = d.releaseToClaim ∧
      power = d.powerClaimed
  | .applied read release power _ =>
    read = d ∧ release = d.releaseToClaim.bind s.releases.get? ∧
      power = d.powerClaimed.bind s.powers.get?
  | .recorded _ => True

/-- what the pointers of a deployment point at -/
structure Pointed (s : State) (d : Deployment) : Prop where
  desired : ∃ r, s.releases.get? d.desiredReleaseId = some r ∧ r.deploymentId = d.id ∧
    r.templateId = d.desiredTemplateId ∧ r.valuesJson = d.userValuesJson
  applied : ∀ k, d.appliedReleaseId = some k →
    ∃ r, s.releases.get? k = some r ∧ r.deploymentId = d.id
  desiredPower : ∀ k, d.desiredPowerId = some k →
    ∃ p, s.powers.get? k = some p ∧ p.deploymentId = d.id
  appliedPower : ∀ k, d.appliedPowerId = some k →
    ∃ p, s.powers.get? k = some p ∧ p.deploymentId = d.id

/-- a turn before its commit holds the lease of its job, and what it read is still so -/
structure Holding (s : State) (w : WorkerId) (turn : Turn) : Prop where
  lease : ∃ j, s.jobs.get? turn.job = some j ∧ j.deploymentId = turn.deployment ∧
    j.lockedBy = some w
  row : ∃ d, s.deployments.get? turn.deployment = some d ∧ StageOk s d turn.stage

structure Ordered (s : State) : Prop where
  sound : Sound s
  pointed : ∀ id d, s.deployments.get? id = some d → Pointed s d
  turns : ∀ w turn, s.workers w = some turn → turn.stage.preCommit = true → Holding s w turn

variable {cfg : Settings} {s t : State} {a : Action} {w : WorkerId} {id : DeploymentId}
  {d : Deployment}

theorem ordered_init : Ordered .init where
  sound := sound_init
  pointed := fun _ _ h => nomatch h
  turns := fun _ _ h => nomatch h

/-! ## Pointers -/

/-- pointers at rows that no step removes -/
theorem Pointed.kept (h : Pointed s d) (hk : Kept s t) : Pointed t d := by
  have power : ∀ {k : PowerId}, (∃ p, s.powers.get? k = some p ∧ p.deploymentId = d.id) →
      ∃ p, t.powers.get? k = some p ∧ p.deploymentId = d.id := by
    rintro k ⟨p, hp, hd⟩
    obtain ⟨p', hp', hi⟩ := hk.powers k p hp
    exact ⟨p', hp', (DeploymentPower.of_intent hi).1.trans hd⟩
  refine ⟨?_, fun k ha => ?_, fun k hd => power (h.desiredPower k hd),
    fun k ha => power (h.appliedPower k ha)⟩
  · obtain ⟨r, hr, hd, ht, hv⟩ := h.desired
    obtain ⟨r', hr', hi⟩ := hk.releases _ r hr
    obtain ⟨-, hd', ht', hv'⟩ := DeploymentRelease.of_intent hi
    exact ⟨r', hr', hd'.trans hd, ht'.trans ht, hv'.trans hv⟩
  · obtain ⟨r, hr, hd⟩ := h.applied k ha
    obtain ⟨r', hr', hi⟩ := hk.releases k r hr
    exact ⟨r', hr', (DeploymentRelease.of_intent hi).2.1.trans hd⟩

/-- rows that differ in other columns alone point at the same -/
theorem Pointed.congr {d' : Deployment} (h : Pointed s d) (hid : d'.id = d.id)
    (hr : d'.desiredReleaseId = d.desiredReleaseId)
    (ht : d'.desiredTemplateId = d.desiredTemplateId) (hv : d'.userValuesJson = d.userValuesJson)
    (ha : d'.appliedReleaseId = d.appliedReleaseId) (hp : d'.desiredPowerId = d.desiredPowerId)
    (hq : d'.appliedPowerId = d.appliedPowerId) : Pointed s d' := by
  obtain ⟨h1, h2, h3, h4⟩ := h
  constructor
  · rw [hr, hid, ht, hv]
    exact h1
  · rw [ha, hid]
    exact h2
  · rw [hp, hid]
    exact h3
  · rw [hq, hid]
    exact h4

theorem pointed_written (hp : ∀ id d, s.deployments.get? id = some d → Pointed s d)
    (h : Written a s t) (hd : t.deployments.get? id = some d) : Pointed t d := by
  have kept := Kept.of_written h
  cases h with
  | aside hdep hr hj rest => exact (hp id d (hdep ▸ hd)).kept kept
  | create r ns values hostname isPaid hdep hr hj rest =>
    rcases get?_of_insert hdep hd with ⟨-, rfl⟩ | ⟨-, hd⟩
    · exact ⟨⟨_, Table.get?_insert?_self hr, rfl, rfl, rfl⟩, fun k h => (nomatch h),
        fun k h => (nomatch h), fun k h => (nomatch h)⟩
    · exact (hp id d hd).kept kept
  | update u x values hostname buildId row settled hdep hr hj rest =>
    rcases get?_of_put? hdep hd with ⟨-, rfl⟩ | ⟨-, hd⟩
    · have hx := (hp u.id x row).kept kept
      exact ⟨⟨_, Table.get?_insert?_self hr, rfl, rfl, rfl⟩, hx.applied, hx.desiredPower,
        hx.appliedPower⟩
    · exact (hp id d hd).kept kept
  | delete x row leaving hdep hr hj rest =>
    rcases get?_of_put? hdep hd with ⟨-, rfl⟩ | ⟨-, hd⟩
    · exact ((hp x.id x row).kept kept).congr rfl rfl rfl rfl rfl rfl rfl
    · exact (hp id d hd).kept kept
  | power r x row ready changes hpow hdep hr hj cluster workers =>
    rcases get?_of_put? hdep hd with ⟨-, rfl⟩ | ⟨-, hd⟩
    · have hx := (hp x.id x row).kept kept
      refine ⟨hx.desired, hx.applied, fun k hk => ?_, hx.appliedPower⟩
      cases hk
      exact ⟨_, Table.get?_insert?_self hpow, rfl⟩
    · exact (hp id d hd).kept kept
  | paid n info p sub action fetched status payment named first subscription hdep hr hj rest =>
    rw [hdep] at hd
    obtain ⟨x, hx, rfl⟩ := Option.map_eq_some_iff.mp hd
    have hx := (hp id x hx).kept kept
    unfold Deployment.provisioned
    split
    · exact hx.congr rfl rfl rfl rfl rfl rfl rfl
    · exact hx

/-! ## The turns of a worker that holds its lease -/

theorem Holding.openJob {turn : Turn} (h : Holding s w turn) (hs : Sound s) :
    ∃ j ∈ s.jobs.rows, j.isOpen = true ∧ j.deploymentId = turn.deployment ∧
      j.lockedBy = some w := by
  obtain ⟨j, hj, hd, hl⟩ := h.lease
  have hrun : j.status = .running := hs.locked _ j hj (by simp [hl])
  refine ⟨j, Table.mem_of_get? hj, ?_, hd, hl⟩
  rw [ReconcileJob.isOpen, hrun]
  rfl

theorem Holding.hasOpenJob {turn : Turn} (h : Holding s w turn) (hs : Sound s) :
    Freepod.hasOpenJob s.jobs turn.deployment := by
  obtain ⟨j, hj, ho, hd, -⟩ := h.openJob hs
  exact ⟨j, hj, ho, hd⟩

/-- **at most one worker is before its commit on a deployment** -/
theorem Ordered.unique (h : Ordered s) {w' : WorkerId} {turn turn' : Turn}
    (hw : s.workers w = some turn) (hw' : s.workers w' = some turn')
    (hp : turn.stage.preCommit = true) (hp' : turn'.stage.preCommit = true)
    (hd : turn.deployment = turn'.deployment) : w = w' := by
  obtain ⟨j, hj, ho, hjd, hl⟩ := (h.turns w turn hw hp).openJob h.sound
  obtain ⟨j', hj', ho', hjd', hl'⟩ := (h.turns w' turn' hw' hp').openJob h.sound
  have := openJob_unique hj hj' ho ho' (hjd.trans (hd.trans hjd'.symm))
  rw [this, hl'] at hl
  exact (Option.some.inj hl).symm

theorem desired_of_valuesRelease {k : ReleaseId} (h : d.valuesRelease = some k) :
    d.desiredReleaseId = k := by
  unfold Deployment.valuesRelease at h
  split at h
  · exact Option.some.inj h
  · cases h

theorem desired_of_releaseToClaim {k : ReleaseId} (h : d.releaseToClaim = some k) :
    d.desiredReleaseId = k := by
  unfold Deployment.releaseToClaim at h
  split at h
  · exact Option.some.inj h
  · cases h

theorem desired_of_powerClaimed {k : PowerId} (h : d.powerClaimed = some k) :
    d.desiredPowerId = some k := by
  unfold Deployment.powerClaimed Deployment.powerToClaim at h
  split at h
  · split at h
    · cases h
    · exact h
  · cases h

/-- the release a pointer names is the deployment's -/
theorem Pointed.release_id (h : Pointed s d) {r : DeploymentRelease}
    (hr : s.releases.get? d.desiredReleaseId = some r) : r.deploymentId = d.id := by
  obtain ⟨x, hx, hd, -⟩ := h.desired
  rw [hr] at hx
  cases hx
  exact hd

theorem Pointed.power_id (h : Pointed s d) {k : PowerId} {p : DeploymentPower}
    (hk : d.desiredPowerId = some k) (hp : s.powers.get? k = some p) : p.deploymentId = d.id := by
  obtain ⟨x, hx, hd⟩ := h.desiredPower k hk
  rw [hp] at hx
  cases hx
  exact hd

theorem Session.Fresh.untouched {x : Session} {values : Option ReleaseId} {power : Option PowerId}
    (h : x.Fresh s d values power) (hp : Pointed s d) (hv : values = d.valuesRelease)
    (hpow : power = none ∨ power = d.powerClaimed) (hu : Untouched s t d.id) :
    x.Fresh t d values power := by
  refine ⟨h.deployment, fun r hr => ?_, fun p hx => ?_⟩
  · obtain ⟨hval, hget⟩ := h.release r hr
    refine ⟨hval, (hu.release _ r ?_).mpr hget⟩
    have hk : d.desiredReleaseId = r.id := desired_of_valuesRelease (hv ▸ hval)
    exact hp.release_id (hk ▸ hget)
  · obtain ⟨hval, hget⟩ := h.power p hx
    refine ⟨hval, (hu.power _ p ?_).mpr hget⟩
    rcases hpow with hpow | hpow
    · rw [hpow] at hval
      cases hval
    · exact hp.power_id (desired_of_powerClaimed (hpow ▸ hval)) hget

theorem releaseToClaim_untouched (hp : Pointed s d) (hu : Untouched s t d.id) :
    d.releaseToClaim.bind t.releases.get? = d.releaseToClaim.bind s.releases.get? := by
  cases h : d.releaseToClaim with
  | none => rfl
  | some k =>
    obtain ⟨r, hr, hd, -⟩ := hp.desired
    rw [desired_of_releaseToClaim h] at hr
    show t.releases.get? k = s.releases.get? k
    rw [hr, (hu.release k r hd).mpr hr]

theorem powerClaimed_untouched (hp : Pointed s d) (hu : Untouched s t d.id) :
    d.powerClaimed.bind t.powers.get? = d.powerClaimed.bind s.powers.get? := by
  cases h : d.powerClaimed with
  | none => rfl
  | some k =>
    obtain ⟨p, hr, hd⟩ := hp.desiredPower k (desired_of_powerClaimed h)
    show t.powers.get? k = s.powers.get? k
    rw [hr, (hu.power k p hd).mpr hr]

/-- what a stage holds stays so while nobody touches the deployment -/
theorem StageOk.untouched {stage : Stage} (h : StageOk s d stage) (hp : Pointed s d)
    (hu : Untouched s t d.id) : StageOk t d stage := by
  cases stage with
  | claimed => trivial
  | releaseClaimed session values release =>
    obtain ⟨hf, hv, hr⟩ := h
    exact ⟨hf.untouched hp hv (.inl rfl) hu, hv, hr⟩
  | powerClaimed session values release power =>
    obtain ⟨hf, hv, hr, hpow⟩ := h
    exact ⟨hf.untouched hp hv (.inr hpow) hu, hv, hr, hpow⟩
  | applied read release power result =>
    obtain ⟨hread, hr, hpow⟩ := h
    exact ⟨hread, hr.trans (releaseToClaim_untouched hp hu).symm,
      hpow.trans (powerClaimed_untouched hp hu).symm⟩
  | recorded result => trivial

/-! ## The final commit of a worker that holds its lease -/

/-- the columns of a release after its rollout ended -/
def DeploymentRelease.finish (r : DeploymentRelease) (now : Time) (result : ReconcileResult) :
    DeploymentRelease :=
  { r with
    endedAt := some (result.lastReconcileAt.getD now)
    error := result.lastError
    helmRevision := result.helmRevision }

/-- the columns of a power row after the change ended -/
def DeploymentPower.finish (p : DeploymentPower) (now : Time) (result : ReconcileResult) :
    DeploymentPower :=
  { p with
    endedAt := some (result.lastReconcileAt.getD now)
    error := result.lastError }

/-- the columns of a deployment after its reconcile ended -/
def Deployment.outcome (d : Deployment) (result : ReconcileResult) : Deployment :=
  { d with
    status := result.status
    appliedTemplateId := result.appliedTemplateId
    lastError := result.lastError
    lastReconcileAt := result.lastReconcileAt
    appliedReleaseId :=
      if d.releaseToClaim.isSome ∧ result.status = .ready then d.releaseToClaim
      else d.appliedReleaseId
    appliedPowerId :=
      if d.powerClaimed.isSome ∧ result.status = .ready then d.powerClaimed else d.appliedPowerId
    desiredPowerId :=
      if d.powerClaimed.isSome ∧ result.status ≠ .ready then d.appliedPowerId
      else d.desiredPowerId }

/-- an outcome moves the pointers between rows of the deployment -/
theorem Pointed.outcome (h : Pointed s d) (result : ReconcileResult) :
    Pointed s (d.outcome result) := by
  refine ⟨h.desired, fun k hk => ?_, fun k hk => ?_, fun k hk => ?_⟩
  · by_cases hc : d.releaseToClaim.isSome ∧ result.status = .ready
    · have hk : d.releaseToClaim = some k := (if_pos hc).symm.trans hk
      obtain ⟨r, hr, hd, -⟩ := h.desired
      exact ⟨r, desired_of_releaseToClaim hk ▸ hr, hd⟩
    · exact h.applied k ((if_neg hc).symm.trans hk)
  · by_cases hc : d.powerClaimed.isSome ∧ result.status ≠ .ready
    · exact h.appliedPower k ((if_pos hc).symm.trans hk)
    · exact h.desiredPower k ((if_neg hc).symm.trans hk)
  · by_cases hc : d.powerClaimed.isSome ∧ result.status = .ready
    · have hk : d.powerClaimed = some k := (if_pos hc).symm.trans hk
      exact h.desiredPower k (desired_of_powerClaimed hk)
    · exact h.appliedPower k ((if_neg hc).symm.trans hk)

@[simp] theorem flush_self {α : Type} [DecidableEq α] (a new : α) : flush a new a = new := by
  unfold flush
  split
  · rename_i h
    exact h.symm
  · rfl

theorem recordRelease_self (now : Time) (result : ReconcileResult) (r : DeploymentRelease) :
    recordRelease now result r r = r.finish now result := by
  simp [recordRelease, DeploymentRelease.finish]

theorem recordPower_self (now : Time) (result : ReconcileResult) (p : DeploymentPower) :
    recordPower now result p p = p.finish now result := by
  simp [recordPower, DeploymentPower.finish]

theorem recordDeployment_self (result : ReconcileResult) (d : Deployment) :
    recordDeployment result d.releaseToClaim d.powerClaimed d d = d.outcome result := by
  simp [recordDeployment, Deployment.outcome]

/-- the outcome of a ledger row whose session read is current -/
theorem recordRow_current {α κ ι : Type} [Row α κ ι] [DecidableEq κ] [DecidableEq ι]
    {t t' : Table α} {k : Option κ} {outcome : α → α → α}
    (h : recordRow t (k.bind t.get?) outcome = some t') (hk : ∀ x, k = some x → ∃ r, t.get? x = some r) :
    k = none ∧ t' = t ∨
      ∃ r, k = some (Row.key r) ∧ t.get? (Row.key r) = some r ∧ t.put? (outcome r r) = some t' := by
  rcases recordRow_ok h with ⟨hnone, rfl⟩ | ⟨r, row, hr, hrow, hput⟩
  · cases k with
    | none => exact .inl ⟨rfl, rfl⟩
    | some x =>
      obtain ⟨r, hr⟩ := hk x rfl
      rw [Option.bind_some, hr] at hnone
      cases hnone
  · obtain ⟨x, rfl, hx⟩ := Option.bind_eq_some_iff.mp hr
    have hkey := Table.key_of_get? hx
    rw [hkey, hx] at hrow
    cases hrow
    rw [← hkey] at hx ⊢
    exact .inr ⟨r, rfl, hx, hput⟩

theorem map_id_releaseToClaim (hp : Pointed s d) :
    (d.releaseToClaim.bind s.releases.get?).map DeploymentRelease.id = d.releaseToClaim := by
  cases h : d.releaseToClaim with
  | none => rfl
  | some k =>
    obtain ⟨r, hr, -⟩ := hp.desired
    rw [desired_of_releaseToClaim h] at hr
    have hid : r.id = k := Table.key_of_get? hr
    show (s.releases.get? k).map _ = _
    rw [hr, Option.map_some, hid]

theorem map_id_powerClaimed (hp : Pointed s d) :
    (d.powerClaimed.bind s.powers.get?).map DeploymentPower.id = d.powerClaimed := by
  cases h : d.powerClaimed with
  | none => rfl
  | some k =>
    obtain ⟨p, hr, -⟩ := hp.desiredPower k (desired_of_powerClaimed h)
    have hid : p.id = k := Table.key_of_get? hr
    show (s.powers.get? k).map _ = _
    rw [hr, Option.map_some, hid]

/-- **the final commit writes the outcome of the rows as they are** -/
theorem recordOutcome_ordered (ho : Ordered s) (h : recordOutcome s w = some t) :
    ∃ job id d release power result, s.workers w = some ⟨job, id, .applied d release power result⟩ ∧
      s.deployments.get? id = some d ∧
      (d.releaseToClaim = none ∧ t.releases = s.releases ∨
        ∃ r, d.releaseToClaim = some r.id ∧ s.releases.get? r.id = some r ∧
          s.releases.put? (r.finish s.now result) = some t.releases) ∧
      (d.powerClaimed = none ∧ t.powers = s.powers ∨
        ∃ p, d.powerClaimed = some p.id ∧ s.powers.get? p.id = some p ∧
          s.powers.put? (p.finish s.now result) = some t.powers) ∧
      s.deployments.put? (d.outcome result) = some t.deployments ∧
      t.jobs = s.jobs ∧ t.cluster = s.cluster ∧
      t.workers = Function.update s.workers w (some ⟨job, id, .recorded result⟩) := by
  obtain ⟨job, id, d, release, power, result, row, releases, powers, deployments, hw, hrow, hr, hp,
    hput, rfl⟩ := recordOutcome_ok h
  obtain ⟨d', hd', rfl, hrel, hpow⟩ := (ho.turns w _ hw rfl).row
  have hd' : s.deployments.get? id = some d := hd'
  rw [hrow] at hd'
  cases hd'
  have pointed := ho.pointed id d hrow
  subst hrel hpow
  rw [map_id_releaseToClaim pointed, map_id_powerClaimed pointed, recordDeployment_self] at hput
  refine ⟨job, id, d, _, _, result, hw, hrow, ?_, ?_, hput, rfl, rfl, rfl⟩
  · have hex : ∀ x, d.releaseToClaim = some x → ∃ r, s.releases.get? x = some r := fun x hx => by
      obtain ⟨r, hr, -⟩ := pointed.desired
      exact ⟨r, desired_of_releaseToClaim hx ▸ hr⟩
    refine (recordRow_current hr hex).imp_right fun ⟨r, hk, hg, hput⟩ => ⟨r, hk, hg, ?_⟩
    rwa [recordRelease_self] at hput
  · have hex : ∀ x, d.powerClaimed = some x → ∃ p, s.powers.get? x = some p := fun x hx => by
      obtain ⟨p, hp, -⟩ := pointed.desiredPower x (desired_of_powerClaimed hx)
      exact ⟨p, hp⟩
    refine (recordRow_current hp hex).imp_right fun ⟨p, hk, hg, hput⟩ => ⟨p, hk, hg, ?_⟩
    rwa [recordPower_self] at hput

end Freepod
