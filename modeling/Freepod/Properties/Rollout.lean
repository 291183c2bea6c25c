import Freepod.Cli.Rollout
import Freepod.Runs.Results

/-!
# What a deploy reports

A client's update returns a generation, and the client polls until the deployment is settled at
that generation or a later one.  Meanwhile the platform takes any steps.

* `Alone`: the steps between the update and the poll that leave the deployment to this rollout.
* `Followed`: where the rollout is, from the update on.
* `rollout_reported`: in such runs the record the client gets is that of its own release.
* `rollout_misreported`: another client's update in between is reported as one's own.
-/

namespace Freepod
open Base Cli

variable {cfg : Settings} {s t : State} {a : Action} {w : WorkerId} {id : DeploymentId}
  {k : ReleaseId} {g : Nat} {d : Deployment} {r : DeploymentRelease}

/-! ## The runs -/

/-- the deployment a request is made about -/
def Action.about : Action → Option DeploymentId
  | .update _ u => some u.id
  | .delete _ id => some id
  | .power r => some r.deploymentId
  | _ => none

/-- nobody else asks for a change of the deployment, and its job is claimed neither from a live
worker nor after the outcome of the release was recorded -/
structure Alone (cfg : Settings) (id : DeploymentId) (k : ReleaseId) (s : State) (a : Action) :
    Prop where
  orderly : orderly cfg s a
  request : a.about ≠ some id
  claim : ∀ w skipped j jobs, a = .claimJob w skipped →
    claimNextJob cfg s.now s.jobs w skipped = some (j, jobs) → j.deploymentId = id →
    ∀ r, s.releases.get? k = some r → r.endedAt = none

/-- the polls of a client in a run of the platform; a poll may fail -/
inductive Polled (cfg : Settings) (ok : State → Action → Prop) (userId : UserId)
    (id : DeploymentId) : State → List Reading → Prop
  | nil (s : State) : Polled cfg ok userId id s []
  | cons {s t : State} {reading : Reading} {readings : List Reading}
    (run : (platform cfg).Reach ok s t)
    (read : ∀ record, reading.record = .ok record → readDeployment t userId id = .ok record)
    (rest : Polled cfg ok userId id t readings) : Polled cfg ok userId id s (reading :: readings)

/-- a record the client read is one of a state of the run -/
theorem Polled.reach {ok : State → Action → Prop} {userId : UserId} {readings : List Reading}
    (h : Polled cfg ok userId id s readings) {reading : Reading} (hmem : reading ∈ readings)
    {record : Record} (hr : reading.record = .ok record) :
    ∃ t, (platform cfg).Reach ok s t ∧ readDeployment t userId id = .ok record := by
  induction h with
  | nil => cases hmem
  | cons run read rest ih =>
    obtain rfl | hmem := List.mem_cons.1 hmem
    · exact ⟨_, run, read record hr⟩
    · obtain ⟨t, ht, hread⟩ := ih hmem
      exact ⟨t, run.trans ht, hread⟩

theorem readDeployment_ok {userId : UserId} {record : Record}
    (h : readDeployment s userId id = .ok record) :
    ∃ d, s.deployments.get? id = some d ∧ record = recordOf d := by
  unfold readDeployment at h
  cases howned : s.owned userId id with
  | error e =>
    rw [howned] at h
    cases h
  | ok d =>
    simp only [howned] at h
    simp only [State.owned, bind_eq_ok, found_eq_ok, pure_eq_ok] at howned
    obtain ⟨d', hd, -, -, rfl⟩ := howned
    split at h
    · cases h
    · exact ⟨_, hd, (Except.ok.inj h).symm⟩

/-! ## Requests about other deployments -/

/-- a payment moves pending deployments alone, and no release -/
theorem kept_of_webhook {n : Notification} (h : mollieWebhook s n = .ok t)
    (hd : s.deployments.get? id = some d) (hp : d.status ≠ .pending) :
    t.deployments.get? id = some d ∧ t.releases = s.releases := by
  obtain rfl | ⟨info, p, sub, s₀, -, -, h, hrow⟩ := mollieWebhook_ok h
  · exact ⟨hd, rfl⟩
  have hs₀ : s₀.deployments = s.deployments ∧ s₀.releases = s.releases := by
    obtain ⟨-, -, rfl⟩ | ⟨payments, -, -, -, -, rfl⟩ := hrow
    · exact ⟨rfl, rfl⟩
    · exact ⟨rfl, rfl⟩
  rw [← hs₀.1] at hd
  rw [← hs₀.2]
  obtain ⟨payments, -, h⟩ := processPayment_ok h
  obtain ⟨-, -, h⟩ | ⟨-, h⟩ | ⟨-, -, h⟩ | ⟨-, -, rfl⟩ := h
  · obtain ⟨deployments, jobs, subscriptions, mollieId, hget, -, -, rfl⟩ :=
      handleFirstPaymentPaid_ok h
    refine ⟨?_, rfl⟩
    show deployments.get? id = some d
    rw [hget]
    show (s₀.deployments.get? id).map _ = some d
    rw [hd, Option.map_some, Deployment.provisioned, if_neg fun hpending => hp hpending.2]
  · obtain ⟨subscriptions, -, rfl⟩ := setPaymentStatus_ok h
    exact ⟨hd, rfl⟩
  · obtain ⟨subscriptions, -, rfl⟩ := setPaymentStatus_ok h
    exact ⟨hd, rfl⟩
  · exact ⟨hd, rfl⟩

/-- **a request about another deployment** leaves the row of this one and every release -/
theorem kept_of_request (h : step cfg s a = some t) (ha : a.worker = none)
    (hne : a.about ≠ some id) (hd : s.deployments.get? id = some d) (hp : d.status ≠ .pending)
    (hr : s.releases.get? k = some r) :
    t.deployments.get? id = some d ∧ t.releases.get? k = some r := by
  have hbuilds : a.ofBuilds = true →
      t.deployments.get? id = some d ∧ t.releases.get? k = some r := by
    intro hb
    obtain ⟨builds, rfl⟩ := builds_of_step h hb
    exact ⟨hd, hr⟩
  -- a write to the row of another deployment
  have hput : ∀ {x : Deployment} {deployments : Table Deployment},
      s.deployments.put? x = some deployments → x.id ≠ id → deployments.get? id = some d := by
    intro x deployments hput hx
    rw [Table.get?_put?_of_ne hput (Ne.symm hx)]
    exact hd
  cases a with
  | tick delta =>
    cases h
    exact ⟨hd, hr⟩
  | create c x =>
    obtain ⟨values, hostname, ns, isPaid, subscriptions, deployments, releases, vars, price,
      payments, jobs, -, -, hins, hrel, -, rfl⟩ := createDeployment_ok (toOption_eq_some.1 h)
    exact ⟨Table.get?_insert?_of_get? hins hd, Table.get?_insert?_of_get? hrel hr⟩
  | update c u =>
    obtain ⟨x, values, hostname, buildId, deployments, releases, vars, jobs, hx, -, -, -, -, hput',
      hrel, -, rfl⟩ := updateDeployment_ok (toOption_eq_some.1 h)
    have hid : x.id = u.id := Table.key_of_get? hx
    refine ⟨hput hput' (fun heq => hne ?_), Table.get?_insert?_of_get? hrel hr⟩
    exact congrArg some (hid.symm.trans heq)
  | delete userId id' =>
    obtain ⟨x, hx, -, ⟨-, rfl⟩ | ⟨-, deployments, jobs, hput', -, rfl⟩⟩ :=
      deleteDeployment_ok (toOption_eq_some.1 h)
    · exact ⟨hd, hr⟩
    · have hid : x.id = id' := Table.key_of_get? hx
      exact ⟨hput hput' (fun heq => hne (congrArg some (hid.symm.trans heq))), hr⟩
  | power x =>
    obtain ⟨y, hy, -, -, ⟨-, rfl⟩ | ⟨-, -, powers, deployments, jobs, -, hput', -, rfl⟩⟩ :=
      changePower_ok (toOption_eq_some.1 h)
    · exact ⟨hd, hr⟩
    · have hid : y.id = x.deploymentId := Table.key_of_get? hy
      exact ⟨hput hput' (fun heq => hne (congrArg some (hid.symm.trans heq))), hr⟩
  | writeVars c x =>
    obtain ⟨y, vars, -, -, -, -, rfl⟩ := writeVarsRequest_ok (toOption_eq_some.1 h)
    exact ⟨hd, hr⟩
  | webhook n =>
    obtain ⟨hd', hr'⟩ := kept_of_webhook (toOption_eq_some.1 h) hd hp
    exact ⟨hd', by rw [hr', hr]⟩
  | createBuild c x => exact hbuilds rfl
  | claimBuild skipped => exact hbuilds rfl
  | recordBuildJob build job => exact hbuilds rfl
  | finishBuild build image => exact hbuilds rfl
  | _ => cases ha

/-! ## Where the rollout is -/

/-- the rollout of a release: under way, applied, or failed -/
inductive Phase (d : Deployment) (r : DeploymentRelease) : Prop
  | rolling (status : d.status = .provisioning) (live : d.deletedAt = none)
    (differs : d.appliedReleaseId ≠ some r.id) (unended : r.endedAt = none)
  | applied (status : d.status = .ready) (applied : d.appliedReleaseId = some r.id)
    (ended : r.endedAt ≠ none) (error : r.error = none)
  | failed (status : d.status = .error) (ended : r.endedAt ≠ none) (error : r.error ≠ none)

/-- a worker before its commit on the deployment works for a release that has not ended -/
def Quiet (s : State) (id : DeploymentId) (r : DeploymentRelease) : Prop :=
  ∀ w turn, s.workers w = some turn → turn.deployment = id → turn.stage.preCommit = true →
    r.endedAt = none

/-- the release is the one the deployment is to run, and its rollout is in one of the phases -/
def Followed (s : State) (id : DeploymentId) (k : ReleaseId) : Prop :=
  ∃ d r, s.deployments.get? id = some d ∧ s.releases.get? k = some r ∧ d.desiredReleaseId = k ∧
    r.deploymentId = id ∧ Phase d r ∧ Quiet s id r

theorem Phase.not_pending (h : Phase d r) : d.status ≠ .pending := by
  cases h with
  | rolling status => rw [status]; decide
  | applied status => rw [status]; decide
  | failed status => rw [status]; decide

/-- a step that leaves the end of the release leaves it quiet -/
theorem Quiet.kept {r' : DeploymentRelease} (hq : Quiet s id r) (hr : s.releases.get? k = some r)
    (hok : Alone cfg id k s a) (h : step cfg s a = some t) (he : r'.endedAt = r.endedAt) :
    Quiet t id r' := by
  intro w turn hw hid hp
  rw [he]
  obtain ⟨turn₀, hw₀, -, hd₀, hp₀⟩ | ⟨skipped, j, jobs, ha, hclaim, rfl⟩ := turn_of_step h hw
  · exact hq w turn₀ hw₀ (hd₀.trans hid) (hp₀ hp)
  · exact hok.claim w skipped j jobs ha hclaim hid r hr

/-- the outcome of the rollout of a release -/
theorem Phase.finish {now : Time} {result : ReconcileResult} (hk : d.desiredReleaseId = r.id)
    (hlive : d.deletedAt = none) (hresult : ResultOf d result) : Phase (d.outcome result) (r.finish now result) := by
  cases hresult with
  | ready status live error template =>
    refine .applied status ?_ (Option.some_ne_none _) error
    rw [appliedRelease_outcome hlive status, hk]
    rfl
  | deleted status gone => exact absurd hlive gone
  | failed status error template => exact .failed status (Option.some_ne_none _) error

/-- the commit of the outcome ends the rollout -/
theorem followed_recordOutcome {job : JobId} {release : Option DeploymentRelease}
    {power : Option DeploymentPower} {result : ReconcileResult} (ho : Ordered s)
    (hresult : Resulted s) (h : step cfg s a = some t)
    (hturn : s.workers w = some ⟨job, id, .applied d release power result⟩)
    (hstage : t.workers w = some ⟨job, id, .recorded result⟩)
    (hr : s.releases.get? k = some r) (hk : d.desiredReleaseId = k) (hrid : r.deploymentId = id)
    (hphase : Phase d r) (hquiet : Quiet s id r)
    (hafter : t.deployments.get? id = some (d.outcome result))
    (hreleases : d.releaseToClaim = none ∧ t.releases = s.releases ∨
      ∃ r, d.releaseToClaim = some r.id ∧ s.releases.get? r.id = some r ∧
        s.releases.put? (r.finish s.now result) = some t.releases) : Followed t id k := by
  have hunended : r.endedAt = none := hquiet w _ hturn rfl rfl
  have hkey : r.id = k := Table.key_of_get? hr
  obtain ⟨hlive, hdiff⟩ : d.deletedAt = none ∧ d.appliedReleaseId ≠ some r.id := by
    cases hphase with
    | rolling status live differs => exact ⟨live, differs⟩
    | applied status applied ended => exact absurd hunended ended
    | failed status ended => exact absurd hunended ended
  have hclaim : d.releaseToClaim = some k := by
    rw [Deployment.releaseToClaim, if_pos ⟨hlive, by rw [hk, ← hkey]; exact hdiff⟩, hk]
  obtain ⟨hnone, -⟩ | ⟨x, hx, hxrow, hput⟩ := hreleases
  · rw [hclaim] at hnone
    cases hnone
  rw [hclaim, Option.some.injEq] at hx
  rw [← hx, hr, Option.some.injEq] at hxrow
  subst hxrow
  have hrow : t.releases.get? k = some (r.finish s.now result) := by
    have hself := Table.get?_put?_self (a := r.finish s.now result) hput (hkey ▸ hr)
    exact hkey ▸ hself
  refine ⟨_, _, hafter, hrow, ?_, hrid, ?_, fun w' turn hw' hid hp => ?_⟩
  · exact hk
  · exact Phase.finish (hk.trans hkey.symm) hlive (hresult w job id d release power result hturn)
  · -- the worker was the only one before its commit
    obtain ⟨turn₀, hw₀, -, hd₀, hp₀⟩ | ⟨skipped, j, jobs, rfl, -, -⟩ := turn_of_step h hw'
    · obtain rfl := ho.unique hw₀ hturn (hp₀ hp) rfl (hd₀.trans hid)
      rw [hstage, Option.some.injEq] at hw'
      rw [← hw'] at hp
      cases hp
    · obtain ⟨hidle, j', jobs', -, rfl⟩ := claimJob_ok h
      by_cases hsame : w' = w
      · rw [← hsame, hidle] at hturn
        cases hturn
      · have hturn' := (Function.update_of_ne (Ne.symm hsame) _ s.workers).symm.trans hstage
        rw [hturn] at hturn'
        cases hturn'

/-- **the step lemma** of a followed rollout -/
theorem followed_step (ho : Ordered s) (hresult : Resulted s) (hf : Followed s id k)
    (hok : Alone cfg id k s a) (h : step cfg s a = some t) : Followed t id k := by
  obtain ⟨d, r, hd, hr, hk, hrid, hphase, hquiet⟩ := hf
  cases ha : a.worker with
  | none =>
    obtain ⟨hd', hr'⟩ := kept_of_request h ha hok.request hd hphase.not_pending hr
    exact ⟨d, r, hd', hr', hk, hrid, hphase, hquiet.kept hr hok h rfl⟩
  | some w =>
    cases workerStep_of_step ho h ha id with
    | untouched same =>
      exact ⟨d, r, same.deployment.trans hd, (same.release k r hrid).2 hr, hk, hrid, hphase,
        hquiet.kept hr hok h rfl⟩
    | claimRelease w job d' x turn before claimed row queued releases deployments =>
      have hput := get?_put?_cases releases hr
      by_cases hx : k = x.id
      · rw [← hx, hr, Option.some.injEq] at row
        subst row
        have hrow : t.releases.get? k = some { r with startedAt := some s.now } :=
          hput.trans (congrArg some (if_pos hx))
        refine ⟨d, _, deployments ▸ hd, hrow, hk, hrid, ?_, hquiet.kept hr hok h rfl⟩
        cases hphase with
        | rolling status live differs unended => exact .rolling status live differs unended
        | applied status applied ended error => exact .applied status applied ended error
        | failed status ended error => exact .failed status ended error
      · exact ⟨d, r, deployments ▸ hd, hput.trans (congrArg some (if_neg hx)), hk, hrid, hphase,
          hquiet.kept hr hok h rfl⟩
    | claimPower w job session values release d' p turn before claimed row queued powers deployments
        releases =>
      exact ⟨d, r, deployments ▸ hd, releases ▸ hr, hk, hrid, hphase, hquiet.kept hr hok h rfl⟩
    | applyRelease w x job session d' text action turn before cluster stage deployments releases =>
      exact ⟨d, r, deployments ▸ hd, releases ▸ hr, hk, hrid, hphase, hquiet.kept hr hok h rfl⟩
    | recordOutcome w job d' release power result turn before releases powers after cluster
        stage =>
      rw [hd, Option.some.injEq] at before
      subst before
      exact followed_recordOutcome ho hresult h turn stage hr hk hrid hphase hquiet after releases

/-- an accepted update starts the rollout of its release -/
theorem followed_update {c : Context} {u : UpdateRequest} (ho : Ordered s)
    (hlive : ∀ d, s.deployments.get? u.id = some d → d.deletedAt = none)
    (h : updateDeployment cfg c s u = .ok t) : Followed t u.id u.releaseId := by
  obtain ⟨d, values, hostname, buildId, deployments, releases, vars, jobs, hd, -, -, -, -, hput, hrel,
    -, ht⟩ := updateDeployment_ok h
  have hid : d.id = u.id := Table.key_of_get? hd
  have hnone : s.releases.get? u.releaseId = none := Table.get?_of_insert? hrel
  have hdiff : d.appliedReleaseId ≠ some u.releaseId := by
    intro happlied
    obtain ⟨x, hx, -⟩ := (ho.pointed _ d hd).applied _ happlied
    rw [hnone] at hx
    cases hx
  subst ht
  refine ⟨u.deployment d values hostname, _, ?_, Table.get?_insert?_self hrel, rfl, hid,
    .rolling rfl (hlive d hd) hdiff rfl, fun w turn _ _ _ => rfl⟩
  exact hid ▸ Table.get?_put?_self (a := u.deployment d values hostname) hput (hid ▸ hd)

/-! ## What the client is told -/

/-- the release was applied: its rollout has ended without an error -/
def Succeeded (s : State) (id : DeploymentId) (k : ReleaseId) : Prop :=
  ∃ d r, s.deployments.get? id = some d ∧ s.releases.get? k = some r ∧
    d.appliedReleaseId = some k ∧ r.endedAt ≠ none ∧ r.error = none

/-- the rollout of the release has ended in an error -/
def Failed (s : State) (k : ReleaseId) : Prop :=
  ∃ r, s.releases.get? k = some r ∧ r.endedAt ≠ none ∧ r.error ≠ none

/-- a terminal record of a followed rollout is about its release -/
theorem Followed.record (hf : Followed s id k) {userId : UserId} {record : Record}
    (h : readDeployment s userId id = .ok record) :
    (record.status = .ready → Succeeded s id k) ∧ (record.status = .error → Failed s k) := by
  obtain ⟨d, r, hd, hr, -, -, hphase, -⟩ := hf
  obtain ⟨d', hd', rfl⟩ := readDeployment_ok h
  rw [hd, Option.some.injEq] at hd'
  subst hd'
  have hkey : r.id = k := Table.key_of_get? hr
  cases hphase with
  | rolling status =>
    have hne : ∀ {x}, DeploymentStatus.provisioning ≠ x → d.status ≠ x := fun hx hs =>
      hx (status.symm.trans hs)
    exact ⟨fun hs => absurd hs (hne (by decide)), fun hs => absurd hs (hne (by decide))⟩
  | applied status applied ended error =>
    refine ⟨fun _ => ⟨d, r, hd, hr, hkey ▸ applied, ended, error⟩, fun hs => ?_⟩
    cases status.symm.trans hs
  | failed status ended error =>
    refine ⟨fun hs => ?_, fun _ => ⟨r, hr, ended, error⟩⟩
    cases status.symm.trans hs

/-- **a deploy reports its own rollout**, in the runs that leave the deployment to it -/
theorem rollout_reported {c : Context} {u : UpdateRequest} {s₀ s₁ : State}
    {readings : List Reading} {timeout generation : Nat} {record : Record}
    (h₀ : (platform cfg).Reach (orderly cfg) .init s₀)
    (hlive : ∀ d, s₀.deployments.get? u.id = some d → d.deletedAt = none)
    (hupdate : updateDeployment cfg c s₀ u = .ok s₁)
    (hpolled : Polled cfg (Alone cfg u.id u.releaseId) u.userId u.id s₁ readings)
    (hfollow : followRollout u.id timeout generation readings = some (.ok record)) :
    ∃ s₂, (platform cfg).Reach (Alone cfg u.id u.releaseId) s₁ s₂ ∧
      readDeployment s₂ u.userId u.id = .ok record ∧
      (record.status = .ready → Succeeded s₂ u.id u.releaseId) ∧
      (record.status = .error → Failed s₂ u.releaseId) ∧
      ∀ live, released record = .ok live → Succeeded s₂ u.id u.releaseId := by
  obtain ⟨ho, hres⟩ : Ordered s₀ ∧ Resulted s₀ :=
    h₀.invariant (P := fun s => Ordered s ∧ Resulted s) ⟨ordered_init, resulted_init⟩
      fun s a t ⟨ho, hres⟩ hok h => ⟨ordered_step ho hok h, resulted_step ho hres h⟩
  have hstep : step cfg s₀ (.update c u) = some s₁ := toOption_eq_some.2 hupdate
  have horderly : orderly cfg s₀ (.update c u) := fun _ _ _ _ ha => nomatch ha
  have hstart : Ordered s₁ ∧ Resulted s₁ ∧ Followed s₁ u.id u.releaseId :=
    ⟨ordered_step ho horderly hstep, resulted_step ho hres hstep, followed_update ho hlive hupdate⟩
  obtain ⟨⟨reading, hmem, hreading⟩, -, hterminal⟩ := followRollout_ok hfollow
  obtain ⟨s₂, hrun, hread⟩ := hpolled.reach hmem hreading
  obtain ⟨-, -, hfollowed⟩ : Ordered s₂ ∧ Resulted s₂ ∧ Followed s₂ u.id u.releaseId :=
    hrun.invariant (P := fun s => Ordered s ∧ Resulted s ∧ Followed s u.id u.releaseId) hstart
      fun s a t ⟨ho, hres, hf⟩ hok h =>
        ⟨ordered_step ho hok.orderly h, resulted_step ho hres h, followed_step ho hres hf hok h⟩
  obtain ⟨hready, herror⟩ := hfollowed.record hread
  refine ⟨s₂, hrun, hread, hready, herror, fun live hlive => hready ?_⟩
  exact hterminal.resolve_right (released_ok hlive)

/-! ## Two deploys of one deployment -/

namespace Sample

/-- a catalog whose deployments have a hostname -/
def namedContext : Context :=
  { Context.sample with
    normalizeHostname := fun _ values _ _ => .ok (values, some "app-bob.freepod.app") }

/-- user 7's deployment, once it is ready -/
def readyRun : List Action := .create namedContext (.sample .null none) :: Action.turn "w1" .clean

/-- the update of a client, that makes release 2 -/
def ownUpdate : UpdateRequest := .sample none 2

/-- what the client reads of the deployment -/
def read (s : State) : Option Record := (readDeployment s 7 1).toOption

/-- the first poll of the client, after its update returned generation 2 -/
def polled (record : Record) : Option (Except DeployError Record) :=
  followRollout 1 300 2 [⟨.ok record, false⟩]

/-- the own rollout fails, and then another client updates the deployment -/
def overtaken : List Action := Action.turn "w1" (.raising .helmUpgradeInstall) ++
  .update namedContext (.sample none 3) :: Action.turn "w1" .clean

/-- the client reports an address; release 2 has ended, in an error or not -/
def reports (failed : Bool) (s : State) : Bool :=
  (read s).any fun record =>
    decide (polled record = some (.ok record) ∧ record.status = .ready ∧
      released record = .ok "https://app-bob.freepod.app" ∧
      ((s.releases.get? 2).map fun r => (r.endedAt.isSome, r.error.isSome)) = some (true, failed))

theorem reports_spec {failed : Bool} {s : State} (h : reports failed s = true) :
    ∃ record r, readDeployment s 7 1 = .ok record ∧ polled record = some (.ok record) ∧
      record.status = .ready ∧ released record = .ok "https://app-bob.freepod.app" ∧
      s.releases.get? 2 = some r ∧ r.endedAt ≠ none ∧ r.error.isSome = failed := by
  obtain ⟨record, hrecord, h⟩ := (Option.any_eq_true _ _).1 h
  obtain ⟨hpolled, hready, hlive, hrow⟩ := of_decide_eq_true h
  obtain ⟨r, hr, hrow⟩ := Option.map_eq_some_iff.1 hrow
  obtain ⟨hended, herror⟩ := Prod.mk.inj hrow
  exact ⟨record, r, toOption_eq_some.1 hrecord, hpolled, hready, hlive, hr,
    Option.isSome_iff_ne_none.1 hended, herror⟩

/-- the check of what `Alone` asks for beside an orderly claim -/
def aloneCheck (cfg : Settings) (id : DeploymentId) (k : ReleaseId) (s : State) (a : Action) :
    Bool :=
  decide (a.about ≠ some id) &&
    match a with
    | .claimJob w skipped =>
      (claimNextJob cfg s.now s.jobs w skipped).all fun claimed =>
        decide (claimed.1.deploymentId ≠ id) ||
          (s.releases.get? k).all fun r => decide (r.endedAt = none)
    | _ => true

theorem alone_of_check {cfg : Settings} {id : DeploymentId} {k : ReleaseId} {s : State} {a : Action}
    (ho : orderly cfg s a) (h : aloneCheck cfg id k s a = true) : Alone cfg id k s a := by
  unfold aloneCheck at h
  obtain ⟨hrequest, hcheck⟩ := Bool.and_eq_true_iff.1 h
  refine ⟨ho, of_decide_eq_true hrequest, ?_⟩
  rintro w skipped j jobs rfl hclaim hid r hr
  simp only [hclaim, Option.all_some, Bool.or_eq_true, decide_eq_true_eq, hr] at hcheck
  exact hcheck.resolve_left fun hne => hne hid

end Sample

open Sample in
/-- another client's update, made after the own one failed, is reported as the own -/
theorem rollout_misreported :
    ∃ s₀ s₁ s₂ record, (platform .sample).Reach (orderly .sample) .init s₀ ∧
      updateDeployment .sample namedContext s₀ ownUpdate = .ok s₁ ∧
      (s₁.deployments.get? 1).map Deployment.generation = some 2 ∧
      (platform .sample).Reach (orderly .sample) s₁ s₂ ∧ readDeployment s₂ 7 1 = .ok record ∧
      polled record = some (.ok record) ∧ record.status = .ready ∧
      released record = .ok "https://app-bob.freepod.app" ∧
      Failed s₂ 2 ∧ ¬ Succeeded s₂ 1 2 := by
  have hrun : ((platform .sample).runIf
      (fun s a => orderlyAmong .sample ["w1"] s a && true) .init readyRun).any (fun s₀ =>
        (step .sample s₀ (.update namedContext ownUpdate)).any fun s₁ =>
          decide ((s₁.deployments.get? 1).map Deployment.generation = some 2) &&
          ((platform .sample).runIf (fun s a => orderlyAmong .sample ["w1"] s a && true) s₁
            overtaken).any (reports true)) = true := by decide +kernel
  obtain ⟨s₀, h₀, hidle, hrest⟩ := exists_orderly_of_runIf .sample (k := fun _ _ => True)
    (fun _ _ _ => trivial) (onlyAmong_init ["w1"]) hrun
  obtain ⟨s₁, hstep, hrest⟩ := (Option.any_eq_true _ _).1 hrest
  rw [Bool.and_eq_true, decide_eq_true_eq] at hrest
  have hidle₁ : OnlyAmong ["w1"] s₁ := fun w hw => by
    rw [workers_of_step hstep (fun h => nomatch h)]
    exact hidle w hw
  obtain ⟨s₂, h₂, -, hreported⟩ := exists_orderly_of_runIf .sample (k := fun _ _ => True)
    (fun _ _ _ => trivial) hidle₁ hrest.2
  obtain ⟨record, r, hrecord, hpolled, hready, hlive, hr, hended, herror⟩ := reports_spec hreported
  refine ⟨s₀, s₁, s₂, record, h₀.mono fun _ _ h => h.1, toOption_eq_some.1 hstep, hrest.1,
    h₂.mono fun _ _ h => h.1, hrecord, hpolled, hready, hlive, ⟨r, hr, hended, Option.isSome_iff_ne_none.1 herror⟩, ?_⟩
  rintro ⟨d, r', -, hr', -, -, hnone⟩
  rw [hr, Option.some.injEq] at hr'
  rw [hr', hnone] at herror
  cases herror

open Sample in
/-- with the platform to itself the client is told of its own release -/
theorem rollout_reported_alone :
    ∃ s₂ record, readDeployment s₂ 7 1 = .ok record ∧ polled record = some (.ok record) ∧
      released record = .ok "https://app-bob.freepod.app" ∧ Succeeded s₂ 1 2 := by
  have hrun : ((platform .sample).runIf
      (fun s a => orderlyAmong .sample ["w1"] s a && true) .init readyRun).any (fun s₀ =>
        decide ((s₀.deployments.get? 1).bind Deployment.deletedAt = none) &&
        (step .sample s₀ (.update namedContext ownUpdate)).any fun s₁ =>
          ((platform .sample).runIf
            (fun s a => orderlyAmong .sample ["w1"] s a && aloneCheck .sample 1 2 s a) s₁
            (Action.turn "w1" .clean)).any (reports false)) = true := by decide +kernel
  obtain ⟨s₀, h₀, hidle, hrest⟩ := exists_orderly_of_runIf .sample (k := fun _ _ => True)
    (fun _ _ _ => trivial) (onlyAmong_init ["w1"]) hrun
  rw [Bool.and_eq_true, decide_eq_true_eq] at hrest
  obtain ⟨s₁, hstep, hafter⟩ := (Option.any_eq_true _ _).1 hrest.2
  have hidle₁ : OnlyAmong ["w1"] s₁ := fun w hw => by
    rw [workers_of_step hstep (fun h => nomatch h)]
    exact hidle w hw
  obtain ⟨s₂, h₂, -, hreported⟩ := exists_orderly_of_runIf .sample
    (k := fun s a => orderly .sample s a → Alone .sample 1 2 s a)
    (fun s a hc ho => alone_of_check ho hc) hidle₁ hafter
  obtain ⟨record, r, hrecord, hpolled, -, hlive, -⟩ := reports_spec hreported
  have hread : Polled .sample (Alone .sample 1 2) 7 1 s₁ [⟨.ok record, false⟩] := by
    refine .cons (h₂.mono fun _ _ h => h.2 h.1) (fun record' h => ?_) (.nil s₂)
    exact (Except.ok.inj h) ▸ hrecord
  obtain ⟨s₂, -, hrecord, -, -, hsucceeded⟩ := rollout_reported (h₀.mono fun _ _ h => h.1)
    (fun d hd => by simpa [show s₀.deployments.get? 1 = some d from hd] using hrest.1)
    (toOption_eq_some.1 hstep) hread hpolled
  exact ⟨s₂, record, hrecord, hpolled, hlive, hsucceeded _ hlive⟩

end Freepod
