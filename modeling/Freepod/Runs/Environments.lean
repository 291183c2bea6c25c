import Freepod.Platform.Pending
import Freepod.Runs.Frame

/-!
# Releases and the rows bound to them

A release is live for a deployment while it is the applied or the desired one, or a worker is
rolling it out: the releases the pod runs or may come to run without another request.

* `live_of_step`: a release becomes live when a create or an update makes it, and never otherwise.
* `Bound`: the rows bound to a release are its deployment's, one for each key.  Every step keeps it.
* `KeepsApart`: a row newer than one bound to a live release has another text.  Every step that
  repeats no bound text keeps it.
-/

namespace Freepod
open Base

/-- the release a turn rolls out, by its id or by the row it has read -/
def Stage.claims (stage : Stage) (k : ReleaseId) : Prop :=
  match stage with
  | .releaseClaimed session _ release | .powerClaimed session _ release _ =>
    release.isSome = true ∧
      (release = some k ∨ session.release.map DeploymentRelease.id = some k)
  | .applied _ release _ _ => release.map DeploymentRelease.id = some k
  | _ => False

/-- the release is the applied or the desired one of the deployment, or is being rolled out -/
def Live (s : State) (id : DeploymentId) (k : ReleaseId) : Prop :=
  (∃ d, s.deployments.get? id = some d ∧
      (d.desiredReleaseId = k ∨ d.appliedReleaseId = some k)) ∨
    ∃ w turn, s.workers w = some turn ∧ turn.deployment = id ∧ turn.stage.claims k

variable {cfg : Settings} {s t : State} {a : Action} {w : WorkerId} {id : DeploymentId}
  {k : ReleaseId} {d : Deployment}

/-! ## How a release becomes live -/

/-- the step makes the release -/
def Makes (a : Action) (id : DeploymentId) (k : ReleaseId) : Prop :=
  (∃ c r, a = .create c r ∧ r.deploymentId = id ∧ r.releaseId = k) ∨
    ∃ c u, a = .update c u ∧ u.id = id ∧ u.releaseId = k

theorem live_of_deployments (hw : t.workers = s.workers)
    (hd : ∀ d, t.deployments.get? id = some d →
      (d.desiredReleaseId = k ∨ d.appliedReleaseId = some k) → Live s id k ∨ Makes a id k)
    (h : Live t id k) : Live s id k ∨ Makes a id k := by
  obtain ⟨d, hget, hk⟩ | ⟨w, turn, hturn, hid, hk⟩ := h
  · exact hd d hget hk
  · exact .inl (.inr ⟨w, turn, hw ▸ hturn, hid, hk⟩)

theorem live_written (hw : Written a s t) (h : Live t id k) : Live s id k ∨ Makes a id k := by
  refine live_of_deployments hw.workers (fun d hd hk => ?_) h
  have hsame : ∀ x, s.deployments.get? id = some x → d.desiredReleaseId = x.desiredReleaseId →
      d.appliedReleaseId = x.appliedReleaseId → Live s id k ∨ Makes a id k := by
    intro x hx hdes happ
    rw [hdes, happ] at hk
    exact .inl (.inl ⟨x, hx, hk⟩)
  cases requestStep_of_written hw id with
  | untouched same => exact hsame d (same.deployment ▸ hd) rfl rfl
  | create r sub ns values hostname isPaid named before after releases powers cluster action =>
    rw [after, Option.some.injEq] at hd
    subst hd
    obtain hk | hk := hk
    · obtain ⟨c, hc⟩ := action
      exact .inr (.inl ⟨c, r, hc, named, hk⟩)
    · cases hk
  | update u x values hostname buildId before settled closed opened after releases powers cluster
      action named =>
    rw [after, Option.some.injEq] at hd
    subst hd
    obtain hk | hk := hk
    · obtain ⟨c, hc⟩ := action
      exact .inr (.inr ⟨c, u, hc, named, hk⟩)
    · exact .inl (.inl ⟨x, before, .inr hk⟩)
  | delete x before leaving closed opened after =>
    rw [after, Option.some.injEq] at hd
    subst hd
    exact hsame x before rfl rfl
  | power r x before ready changes closed opened after =>
    rw [after, Option.some.injEq] at hd
    subst hd
    exact hsame x before rfl rfl
  | provision x before pending after =>
    rw [after, Option.some.injEq] at hd
    subst hd
    exact hsame x before rfl rfl

/-- a step that moves one worker and no deployment -/
theorem live_of_turn {new : Option Turn} (h : Live t id k) (hd : t.deployments = s.deployments)
    (hw : t.workers = Function.update s.workers w new)
    (hnew : ∀ turn, new = some turn → turn.stage.claims k → Live s turn.deployment k) :
    Live s id k := by
  obtain ⟨d, hget, hk⟩ | ⟨w', turn, hturn, rfl, hk⟩ := h
  · exact .inl ⟨d, hd ▸ hget, hk⟩
  · rw [hw] at hturn
    by_cases hww : w' = w
    · rw [hww, Function.update_self] at hturn
      exact hnew turn hturn hk
    · rw [Function.update_of_ne hww] at hturn
      exact .inr ⟨w', turn, hturn, rfl, hk⟩

theorem live_claimRelease (hd : s.deployments.get? id = some d) {stage : Stage}
    {releases : Table DeploymentRelease} (h : ReleaseClaim s d stage releases)
    (hk : stage.claims k) : Live s id k := by
  cases h with
  | deleted deleted =>
    obtain ⟨h, -⟩ := hk
    cases h
  | missing live missing => cases hk
  | current r live row same =>
    obtain ⟨h, -⟩ := hk
    cases h
  | again r live row differs started =>
    have hid : r.id = d.desiredReleaseId := Table.key_of_get? row
    obtain ⟨-, hk | hk⟩ := hk
    · exact .inl ⟨d, hd, .inl (hid.symm.trans (Option.some.inj hk))⟩
    · exact .inl ⟨d, hd, .inl (hid.symm.trans (Option.some.inj hk))⟩
  | first r live row differs queued releases put =>
    have hid : r.id = d.desiredReleaseId := Table.key_of_get? row
    obtain ⟨-, hk | hk⟩ := hk
    · exact .inl ⟨d, hd, .inl (hid.symm.trans (Option.some.inj hk))⟩
    · cases hk

/-- the row a turn reads of its release is one it claims -/
theorem claims_of_readRow {session : Session} (values : Option ReleaseId) {release : Option ReleaseId}
    (hk : ((release.bind fun r => readRow session.release s.releases r).map
      DeploymentRelease.id) = some k) :
    (Stage.releaseClaimed session values release).claims k := by
  obtain ⟨row, hrow, rfl⟩ := Option.map_eq_some_iff.mp hk
  obtain ⟨r, rfl, hread⟩ := Option.bind_eq_some_iff.mp hrow
  refine ⟨rfl, ?_⟩
  unfold readRow at hread
  split at hread
  · rename_i cached hcached
    cases hread
    exact .inr (by rw [hcached]; rfl)
  · have hkey : row.id = r := Table.key_of_get? hread
    exact .inl (by rw [hkey])

/-- the claim of the power row leaves the release of the turn as it is -/
theorem claimPower_release {x : Effects} (h : claimPower s w x = some t) :
    ∃ job id session values release stage,
      s.workers w = some ⟨job, id, .releaseClaimed session values release⟩ ∧
      t.deployments = s.deployments ∧
      t.workers = Function.update s.workers w (some ⟨job, id, stage⟩) ∧
      ∀ k, stage.claims k → (Stage.releaseClaimed session values release).claims k := by
  unfold claimPower at h
  split at h
  · rename_i job id session values release hw
    obtain ⟨d, hd, h⟩ := Option.bind_eq_some_iff.mp h
    refine ⟨job, id, session, values, release, ?_⟩
    split at h
    · cases h
      exact ⟨_, hw, rfl, rfl, fun k hk => hk⟩
    · split at h
      · cases h
        exact ⟨_, hw, rfl, rfl, fun k hk => claims_of_readRow values hk⟩
      · split at h
        · obtain ⟨powers, hput, h⟩ := Option.bind_eq_some_iff.mp h
          cases h
          refine ⟨_, hw, rfl, rfl, fun k hk => ⟨hk.1, .inl ?_⟩⟩
          obtain ⟨-, hk | hk⟩ := hk
          · exact hk
          · cases hk
        · cases h
          exact ⟨_, hw, rfl, rfl, fun k hk => hk⟩
  · cases h

theorem live_recordOutcome (h : recordOutcome s w = some t) (hl : Live t id k) : Live s id k := by
  obtain ⟨job, id', d, release, power, result, row, releases, powers, deployments, hw, hrow, -, -,
    hput, rfl⟩ := recordOutcome_ok h
  obtain ⟨x, hx, hk⟩ | ⟨w', turn, hturn, rfl, hk⟩ := hl
  · obtain ⟨hid, rfl⟩ | ⟨-, hx⟩ := get?_of_put? hput hx
    · have hrid : row.id = id' := Table.key_of_get? hrow
      have hid : id = id' := hid.trans hrid
      subst hid
      obtain hk | hk := hk
      · exact .inl ⟨row, hrow, .inl hk⟩
      have happlied : release.map DeploymentRelease.id = some k ∨ row.appliedReleaseId = some k := by
        simp only [recordDeployment, flush] at hk
        split at hk
        · split at hk
          · exact .inr hk
          · exact .inl hk
        · exact .inr hk
      obtain hk | hk := happlied
      · exact .inr ⟨w, _, hw, rfl, hk⟩
      · exact .inl ⟨row, hrow, .inr hk⟩
    · exact .inl ⟨x, hx, hk⟩
  · by_cases hww : w' = w
    · have hturn : Function.update s.workers w (some ⟨job, id', .recorded result⟩) w' = some turn :=
        hturn
      rw [hww, Function.update_self, Option.some.injEq] at hturn
      subst hturn
      cases hk
    · have hturn : Function.update s.workers w (some ⟨job, id', .recorded result⟩) w' = some turn :=
        hturn
      rw [Function.update_of_ne hww] at hturn
      exact .inr ⟨w', turn, hturn, rfl, hk⟩

/-- **a release becomes live when a request makes it, and never otherwise** -/
theorem live_of_step (h : step cfg s a = some t) (hl : Live t id k) :
    Live s id k ∨ Makes a id k := by
  cases ha : a.worker with
  | none => exact live_written (written_of_step h ha) hl
  | some w =>
    refine .inl ?_
    cases a with
    | claimJob w skipped =>
      obtain ⟨-, j, jobs, -, rfl⟩ := claimJob_ok h
      refine live_of_turn hl rfl rfl fun turn hturn hk => ?_
      cases hturn
      cases hk
    | claimRelease w =>
      obtain ⟨job, id, d, stage, releases, hw, hd, hclaim, rfl⟩ := claimRelease_ok h
      refine live_of_turn hl rfl rfl fun turn hturn hk => ?_
      cases hturn
      exact live_claimRelease hd hclaim hk
    | claimPower w x =>
      obtain ⟨job, id, session, values, release, stage, hw, hd, hworkers, hclaims⟩ :=
        claimPower_release h
      refine live_of_turn hl hd hworkers fun turn hturn hk => ?_
      cases hturn
      exact .inr ⟨w, _, hw, rfl, hclaims _ hk⟩
    | applyRelease w x =>
      obtain ⟨job, id, session, values, release, power, d, text, hw, -, rfl⟩ := applyRelease_ok h
      refine live_of_turn hl rfl rfl fun turn hturn hk => ?_
      cases hturn
      exact .inr ⟨w, _, hw, rfl, claims_of_readRow values hk⟩
    | recordOutcome w => exact live_recordOutcome h hl
    | markJob w =>
      obtain ⟨job, id, result, status, error, jobs, -, -, -, -, rfl⟩ := markJob_ok h
      exact live_of_turn hl rfl rfl fun turn hturn _ => nomatch hturn
    | crash w =>
      rw [crash_ok h] at hl
      exact live_of_turn hl rfl rfl fun turn hturn _ => nomatch hturn
    | _ => cases ha

/-! ## What a step writes of the vars -/

/-- the vars and the bound rows after a step -/
inductive VarsStep (a : Action) (s t : State) : Prop
  | same (vars : t.vars = s.vars) (bound : t.releaseVars = s.releaseVars)
  | release (id : DeploymentId) (k : ReleaseId) (makes : Makes a id k)
      (fresh : s.releases.get? k = none)
      (made : ∃ x, t.releases.get? k = some x ∧ x.deploymentId = id)
      (vars : VarsAppended s.vars t.vars id)
      (bound : t.releaseVars = snapshotRelease t.vars s.releaseVars k id)
      (added : s.deployments.get? id = none ∨ ∃ c u, a = .update c u ∧ u.id = id ∧
        ∀ v ∈ t.vars.rows, v ∈ s.vars.rows ∨
          AddedRow s.vars id (declaredVars c u.desiredTemplateId) u.vars v)
  | write (c : Context) (r : VarsRequest) (d : Deployment) (action : a = .writeVars c r)
      (row : s.deployments.get? r.deploymentId = some d)
      (vars : VarsAppended s.vars t.vars r.deploymentId)
      (bound : t.releaseVars = s.releaseVars)
      (added : ∀ v ∈ t.vars.rows, v ∈ s.vars.rows ∨
        AddedRow s.vars r.deploymentId (declaredVars c d.desiredTemplateId) r.entries v)

theorem releaseVars_of_webhook {n : Notification} (h : mollieWebhook s n = .ok t) :
    t.releaseVars = s.releaseVars := by
  obtain rfl | ⟨info, p, sub, s₀, -, -, h, hrow⟩ := mollieWebhook_ok h
  · rfl
  have hs₀ : s₀.releaseVars = s.releaseVars := by
    obtain ⟨-, -, rfl⟩ | ⟨payments₀, -, -, -, -, rfl⟩ := hrow
    · rfl
    · rfl
  obtain ⟨payments, -, h⟩ := processPayment_ok h
  obtain ⟨-, -, h⟩ | ⟨-, h⟩ | ⟨-, -, h⟩ | ⟨-, -, rfl⟩ := h
  · obtain ⟨deployments, jobs, subscriptions, mollieId, -, -, -, rfl⟩ := handleFirstPaymentPaid_ok h
    exact hs₀
  · obtain ⟨subscriptions, -, rfl⟩ := setPaymentStatus_ok h
    exact hs₀
  · obtain ⟨subscriptions, -, rfl⟩ := setPaymentStatus_ok h
    exact hs₀
  · exact hs₀

/-- a worker's step leaves the vars alone -/
theorem vars_of_worker (h : step cfg s a = some t) (ha : a.worker = some w) :
    t.vars = s.vars ∧ t.releaseVars = s.releaseVars := by
  cases a with
  | claimJob w skipped =>
    obtain ⟨-, j, jobs, -, rfl⟩ := claimJob_ok h
    exact ⟨rfl, rfl⟩
  | claimRelease w =>
    obtain ⟨job, id, d, stage, releases, -, -, -, rfl⟩ := claimRelease_ok h
    exact ⟨rfl, rfl⟩
  | claimPower w x =>
    obtain ⟨job, id, session, values, release, d, stage, powers, -, -, -, rfl⟩ := claimPower_ok h
    exact ⟨rfl, rfl⟩
  | applyRelease w x =>
    obtain ⟨job, id, session, values, release, power, d, text, -, -, rfl⟩ := applyRelease_ok h
    exact ⟨rfl, rfl⟩
  | recordOutcome w =>
    obtain ⟨job, id, d, release, power, result, row, releases, powers, deployments, -, -, -, -, -,
      rfl⟩ := recordOutcome_ok h
    exact ⟨rfl, rfl⟩
  | markJob w =>
    obtain ⟨job, id, result, status, error, jobs, -, -, -, -, rfl⟩ := markJob_ok h
    exact ⟨rfl, rfl⟩
  | crash w =>
    rw [crash_ok h]
    exact ⟨rfl, rfl⟩
  | _ => cases ha

/-- **what a step writes of the vars** -/
theorem varsStep_of_step (h : step cfg s a = some t) : VarsStep a s t := by
  cases ha : a.worker with
  | some w =>
    obtain ⟨hvars, hbound⟩ := vars_of_worker h ha
    exact .same hvars hbound
  | none =>
    cases a with
    | create c r =>
      have h := toOption_eq_some.mp h
      obtain ⟨happended, hbound⟩ := createDeployment_bound h
      obtain ⟨values, hostname, ns, isPaid, subscriptions, deployments, releases, vars, price,
        payments, jobs, -, -, hd, hr, -, rfl⟩ := createDeployment_ok h
      exact .release r.deploymentId r.releaseId (.inl ⟨c, r, rfl, rfl, rfl⟩)
        (Table.get?_of_insert? hr) ⟨_, Table.get?_insert?_self hr, rfl⟩ happended hbound
        (.inl (Table.get?_of_insert? hd))
    | update c u =>
      have h := toOption_eq_some.mp h
      obtain ⟨hbound, happended, hadded⟩ := updateDeployment_bound h
      obtain ⟨d, values, hostname, buildId, deployments, releases, vars, jobs, hd, -, -, -, -, -, hr,
        -, rfl⟩ := updateDeployment_ok h
      have hid : d.id = u.id := Table.key_of_get? hd
      exact .release u.id u.releaseId (.inr ⟨c, u, rfl, rfl, rfl⟩) (Table.get?_of_insert? hr)
        ⟨_, Table.get?_insert?_self hr, hid⟩ happended hbound (.inr ⟨c, u, rfl, rfl, hadded⟩)
    | writeVars c r =>
      obtain ⟨d, vars, hd, rfl, happended, hadded⟩ := writeVarsRequest_new (toOption_eq_some.mp h)
      exact .write c r d rfl hd happended rfl hadded
    | delete userId id =>
      obtain ⟨d, -, -, ⟨-, rfl⟩ | ⟨-, deployments, jobs, -, -, rfl⟩⟩ :=
        deleteDeployment_ok (toOption_eq_some.mp h)
      · exact .same rfl rfl
      · exact .same rfl rfl
    | power r =>
      obtain ⟨d, -, -, -, ⟨-, rfl⟩ | ⟨-, -, powers, deployments, jobs, -, -, -, rfl⟩⟩ :=
        changePower_ok (toOption_eq_some.mp h)
      · exact .same rfl rfl
      · exact .same rfl rfl
    | webhook n =>
      have h := toOption_eq_some.mp h
      exact .same (aside_of_webhook h).1 (releaseVars_of_webhook h)
    | tick delta =>
      cases h
      exact .same rfl rfl
    | createBuild c r =>
      obtain ⟨builds, rfl⟩ := builds_of_step h rfl
      exact .same rfl rfl
    | claimBuild skipped =>
      obtain ⟨builds, rfl⟩ := builds_of_step h rfl
      exact .same rfl rfl
    | recordBuildJob id jobId =>
      obtain ⟨builds, rfl⟩ := builds_of_step h rfl
      exact .same rfl rfl
    | finishBuild id image =>
      obtain ⟨builds, rfl⟩ := builds_of_step h rfl
      exact .same rfl rfl
    | _ => cases ha

/-! ## The rows bound to a release -/

structure Bound (s : State) : Prop where
  rows : ∀ b ∈ s.releaseVars, ∃ r v, s.releases.get? b.releaseId = some r ∧ v ∈ s.vars.rows ∧
    v.id = b.varId ∧ v.deploymentId = r.deploymentId ∧ v.text.isSome = true
  once : ∀ k, KeyedOnce (snapshot s k)
  live : ∀ id k, Live s id k → (∃ d, s.deployments.get? id = some d) ∧
    ∃ r, s.releases.get? k = some r ∧ r.deploymentId = id

theorem bound_init : Bound .init where
  rows := fun _ h => nomatch h
  once := fun _ _ h => absurd (mem_snapshot.mp h).2 List.not_mem_nil
  live := by
    rintro id k (⟨d, h, -⟩ | ⟨w, turn, h, -⟩)
    · cases h
    · cases h

/-- a row of the snapshot of a release -/
theorem Bound.snapshot (hb : Bound s) {v : DeploymentVar} (hv : v ∈ snapshot s k) :
    ∃ r, s.releases.get? k = some r ∧ v.deploymentId = r.deploymentId ∧ v.text.isSome = true := by
  obtain ⟨hmem, hbound⟩ := mem_snapshot.mp hv
  obtain ⟨r, x, hr, hx, hid, hd, htext⟩ := hb.rows _ hbound
  rw [eq_of_varId hx hmem hid] at hd htext
  exact ⟨r, hr, hd, htext⟩

/-- a snapshot taken before a step that adds rows -/
theorem Bound.snapshot_appended (hb : Bound s) (hvars : ∀ v ∈ s.vars.rows, v ∈ t.vars.rows)
    {v : DeploymentVar} (hv : v ∈ t.vars.rows) (hbound : (⟨k, v.id⟩ : ReleaseVar) ∈ s.releaseVars) :
    v ∈ Freepod.snapshot s k := by
  obtain ⟨r, x, hr, hx, hid, -⟩ := hb.rows _ hbound
  rw [← eq_of_varId (hvars x hx) hv hid]
  exact mem_snapshot.mpr ⟨hx, hid ▸ hbound⟩

/-- the rows of a snapshot after a step: as they were, or head bound to the release it made -/
theorem Bound.snapshot_of_step (hb : Bound s) (h : step cfg s a = some t) {v : DeploymentVar}
    (hv : v ∈ Freepod.snapshot t k) :
    v ∈ Freepod.snapshot s k ∨
      ∃ id, Makes a id k ∧ s.releases.get? k = none ∧ v ∈ head t.vars id := by
  obtain ⟨hmem, hbound⟩ := mem_snapshot.mp hv
  cases varsStep_of_step h with
  | same vars bound =>
    rw [vars] at hmem
    rw [bound] at hbound
    exact .inl (mem_snapshot.mpr ⟨hmem, hbound⟩)
  | release id k' makes fresh made vars bound =>
    rw [bound, snapshotRelease, List.mem_append, List.mem_map] at hbound
    obtain hbound | ⟨x, hx, he⟩ := hbound
    · exact .inl (hb.snapshot_appended vars.kept hmem hbound)
    · rw [ReleaseVar.mk.injEq] at he
      obtain ⟨rfl, hid⟩ := he
      rw [eq_of_varId (mem_head.mp hx).1 hmem hid] at hx
      exact .inr ⟨id, makes, fresh, hx⟩
  | write c r d action row vars bound =>
    rw [bound] at hbound
    exact .inl (hb.snapshot_appended vars.kept hmem hbound)

/-- no release is made twice -/
theorem Bound.not_snapshot (hb : Bound s) (hk : s.releases.get? k = none) {v : DeploymentVar} :
    v ∉ Freepod.snapshot s k := fun hv => by
  obtain ⟨r, hr, -⟩ := hb.snapshot hv
  rw [hk] at hr
  cases hr

theorem makes_unique {id' : DeploymentId} (h : Makes a id k) (h' : Makes a id' k) : id = id' := by
  obtain ⟨c, r, rfl, rfl, -⟩ | ⟨c, u, rfl, rfl, -⟩ := h
  · obtain ⟨c', r', he, rfl, -⟩ | ⟨c', u', he, -⟩ := h'
    · cases he
      rfl
    · cases he
  · obtain ⟨c', r', he, -⟩ | ⟨c', u', he, rfl, -⟩ := h'
    · cases he
    · cases he
      rfl

/-- **`Bound` is kept by every step** -/
theorem bound_step (hb : Bound s) (h : step cfg s a = some t) : Bound t := by
  have kept := kept_of_step h
  have hold : ∀ b ∈ s.releaseVars, (∀ v ∈ s.vars.rows, v ∈ t.vars.rows) →
      ∃ r v, t.releases.get? b.releaseId = some r ∧ v ∈ t.vars.rows ∧ v.id = b.varId ∧
        v.deploymentId = r.deploymentId ∧ v.text.isSome = true := by
    intro b hbound hvars
    obtain ⟨r, v, hr, hv, hid, hd, htext⟩ := hb.rows b hbound
    obtain ⟨r', hr', hi⟩ := kept.releases _ r hr
    exact ⟨r', v, hr', hvars v hv, hid, hd.trans (DeploymentRelease.of_intent hi).2.1.symm, htext⟩
  refine ⟨fun b hbound => ?_, fun k x hx y hy hkey => ?_, fun id k hl => ?_⟩
  · cases varsStep_of_step h with
    | same vars bound =>
      rw [bound] at hbound
      exact hold b hbound fun v hv => vars ▸ hv
    | release id k makes fresh made vars bound =>
      rw [bound, snapshotRelease, List.mem_append, List.mem_map] at hbound
      obtain hbound | ⟨x, hx, rfl⟩ := hbound
      · exact hold b hbound vars.kept
      · obtain ⟨r, hr, hrid⟩ := made
        obtain ⟨hmem, hid, hsome, -⟩ := mem_head.mp hx
        exact ⟨r, x, hr, hmem, rfl, hid.trans hrid.symm, by rw [text_isSome, hsome]⟩
    | write c r d action row vars bound =>
      rw [bound] at hbound
      exact hold b hbound vars.kept
  · obtain hx | ⟨id, hmakes, hnone, hx⟩ := hb.snapshot_of_step h hx
    · obtain hy | ⟨id', -, hnone, -⟩ := hb.snapshot_of_step h hy
      · exact hb.once k x hx y hy hkey
      · exact absurd hx (hb.not_snapshot hnone)
    · obtain hy | ⟨id', hmakes', -, hy⟩ := hb.snapshot_of_step h hy
      · exact absurd hy (hb.not_snapshot hnone)
      · rw [makes_unique hmakes hmakes'] at hx
        exact head_unique hx hy hkey
  · obtain hl | hmakes := live_of_step h hl
    · obtain ⟨⟨d, hd⟩, r, hr, hrid⟩ := hb.live id k hl
      obtain ⟨d', hd', -⟩ := kept.deployments id d hd
      obtain ⟨r', hr', hi⟩ := kept.releases k r hr
      exact ⟨⟨d', hd'⟩, r', hr', (DeploymentRelease.of_intent hi).2.1.trans hrid⟩
    · obtain ⟨c, r, rfl, rfl, rfl⟩ | ⟨c, u, rfl, rfl, rfl⟩ := hmakes
      · obtain ⟨values, hostname, ns, isPaid, subscriptions, deployments, releases, vars, price,
          payments, jobs, -, -, hd, hr, -, rfl⟩ := createDeployment_ok (toOption_eq_some.mp h)
        exact ⟨⟨_, Table.get?_insert?_self hd⟩, _, Table.get?_insert?_self hr, rfl⟩
      · obtain ⟨d, values, hostname, buildId, deployments, releases, vars, jobs, hd, -, -, -, -,
          hput, hr, -, rfl⟩ := updateDeployment_ok (toOption_eq_some.mp h)
        have hid : d.id = u.id := Table.key_of_get? hd
        have hself : deployments.get? d.id = some (u.deployment d values hostname) :=
          Table.get?_put?_self (a := u.deployment d values hostname) hput (hid ▸ hd)
        exact ⟨⟨_, hid ▸ hself⟩, _, Table.get?_insert?_self hr, hid⟩

/-! ## Rows of one text -/

/-- a row newer than one bound to a live release has another text -/
def KeepsApart (s : State) : Prop :=
  ∀ id k, Live s id k → ∀ b ∈ snapshot s k, ∀ v ∈ s.vars.rows, v.deploymentId = id →
    v.key = b.key → b.id < v.id → v.text ≠ b.text

/-- an entry writes the text a live release has bound to its key, beside the bound row -/
def Repeats (s : State) (id : DeploymentId) (declared : Fields)
    (entries : List (String × VarWrite)) : Prop :=
  ∃ key entry k b, (key, entry) ∈ entries ∧ Live s id k ∧ b ∈ snapshot s k ∧ b.key = key ∧
    entry.text ((head s.vars id).find? fun v => v.key = key) = b.text ∧
    ¬ Held (head s.vars id) declared key entry

/-- no entry of a write repeats a text bound to a live release -/
def repeatsNothing (s : State) : Action → Prop
  | .update c u => ¬ Repeats s u.id (declaredVars c u.desiredTemplateId) u.vars
  | .writeVars c r => ∀ d, s.deployments.get? r.deploymentId = some d →
    ¬ Repeats s r.deploymentId (declaredVars c d.desiredTemplateId) r.entries
  | _ => True

theorem keepsApart_init : KeepsApart .init := by
  intro id k hl
  obtain ⟨⟨d, hd⟩, -⟩ := bound_init.live id k hl
  cases hd

/-- a row a write that repeats nothing adds differs from the bound ones -/
theorem text_ne_of_added {declared : Fields} {entries : List (String × VarWrite)}
    (hb : Bound s) (hr : ¬ Repeats s id declared entries) {b v : DeploymentVar}
    (hv : AddedRow s.vars id declared entries v) (hl : Live s id k) (hbound : b ∈ snapshot s k)
    (hkey : v.key = b.key) : v.text ≠ b.text := by
  intro htext
  obtain ⟨r, -, -, hsome⟩ := hb.snapshot hbound
  obtain ⟨-, hnone | ⟨entry, hentry, -, hwrites, hheld⟩⟩ := hv
  · rw [← htext, text_isSome, hnone] at hsome
    cases hsome
  · exact hr ⟨v.key, entry, k, b, hentry, hl, hbound, hkey.symm, hwrites.symm.trans htext, hheld⟩

/-- **`KeepsApart` is kept by every step that repeats nothing** -/
theorem keepsApart_step (hb : Bound s) (hk : KeepsApart s) (hok : repeatsNothing s a)
    (h : step cfg s a = some t) : KeepsApart t := by
  intro id k hl b hbound v hv hid hkey hlt
  obtain hbound | ⟨id', hmakes, hnone, hbound⟩ := hb.snapshot_of_step h hbound
  · -- the release was there, so it was live
    have hl : Live s id k := by
      obtain hl | hmakes := live_of_step h hl
      · exact hl
      · obtain ⟨r, hr, -⟩ := hb.snapshot hbound
        obtain ⟨c, q, rfl, -, rfl⟩ | ⟨c, u, rfl, -, rfl⟩ := hmakes
        · obtain ⟨_, _, _, _, _, _, _, _, _, _, _, -, -, -, hins, -⟩ :=
            createDeployment_ok (toOption_eq_some.mp h)
          have hnone : s.releases.get? q.releaseId = none := Table.get?_of_insert? hins
          rw [hnone] at hr
          cases hr
        · obtain ⟨_, _, _, _, _, _, _, _, -, -, -, -, -, -, hins, -⟩ :=
            updateDeployment_ok (toOption_eq_some.mp h)
          have hnone : s.releases.get? u.releaseId = none := Table.get?_of_insert? hins
          rw [hnone] at hr
          cases hr
    cases varsStep_of_step h with
    | same vars bound => exact hk id k hl b hbound v (vars ▸ hv) hid hkey hlt
    | release id' k' makes fresh made vars bound added =>
      obtain hold | hown := vars.own v hv
      · exact hk id k hl b hbound v hold hid hkey hlt
      · obtain rfl : id' = id := hown.symm.trans hid
        obtain hnone | ⟨c, u, rfl, rfl, hadded⟩ := added
        · obtain ⟨⟨d, hd⟩, -⟩ := hb.live id' k hl
          rw [hnone] at hd
          cases hd
        · obtain hold | hnew := hadded v hv
          · exact hk u.id k hl b hbound v hold hid hkey hlt
          · exact text_ne_of_added hb hok hnew hl hbound hkey
    | write c r d action row vars bound added =>
      subst action
      obtain hold | hnew := added v hv
      · exact hk id k hl b hbound v hold hid hkey hlt
      · obtain rfl : r.deploymentId = id := hnew.1.symm.trans hid
        exact text_ne_of_added hb (hok d row) hnew hl hbound hkey
  · -- a release just made has the newest rows
    have hid' : id' = id := by
      obtain hl | hmakes' := live_of_step h hl
      · obtain ⟨-, r, hr, -⟩ := hb.live id k hl
        rw [hnone] at hr
        cases hr
      · exact makes_unique hmakes hmakes'
    rw [hid'] at hbound
    obtain ⟨-, -, -, hnewest⟩ := mem_head.mp hbound
    exact absurd hlt (Nat.not_lt.mpr (hnewest v hv hid hkey))

/-! ## Rotations -/

section
variable {vars : Table DeploymentVar}

theorem mem_of_samePlain (h : SamePlain s.vars vars) {v : DeploymentVar} (hv : v ∈ vars.rows) :
    ∃ x ∈ s.vars.rows, x.id = v.id ∧ x.deploymentId = v.deploymentId ∧ x.key = v.key ∧
      x.text = v.text := by
  have hmem : v.plain ∈ s.vars.rows.map DeploymentVar.plain := h ▸ List.mem_map_of_mem hv
  obtain ⟨x, hx, he⟩ := List.mem_map.mp hmem
  simp only [DeploymentVar.plain, Prod.mk.injEq] at he
  exact ⟨x, hx, he.1, he.2.1, he.2.2.1, he.2.2.2.1⟩

theorem SamePlain.symm (h : SamePlain s.vars vars) : SamePlain vars s.vars := Eq.symm h

theorem bound_rotate (hb : Bound s) (h : SamePlain s.vars vars) :
    Bound { s with vars := vars } := by
  have hsnapshot : ∀ {k v}, v ∈ Freepod.snapshot { s with vars := vars } k →
      ∃ x ∈ Freepod.snapshot s k, x.id = v.id ∧ x.key = v.key := by
    intro k v hv
    obtain ⟨hmem, hbound⟩ := mem_snapshot.mp hv
    obtain ⟨x, hx, hid, -, hkey, -⟩ := mem_of_samePlain h hmem
    exact ⟨x, mem_snapshot.mpr ⟨hx, hid.symm ▸ hbound⟩, hid, hkey⟩
  refine ⟨fun b hbound => ?_, fun k x hx y hy hkey => ?_, hb.live⟩
  · obtain ⟨r, v, hr, hv, hid, hd, htext⟩ := hb.rows b hbound
    obtain ⟨x, hx, hxid, hxd, -, hxt⟩ := mem_of_samePlain (s := { s with vars := vars }) h.symm hv
    exact ⟨r, x, hr, hx, hxid.trans hid, hxd.trans hd, hxt ▸ htext⟩
  · obtain ⟨x', hx', hxid, hxkey⟩ := hsnapshot hx
    obtain ⟨y', hy', hyid, hykey⟩ := hsnapshot hy
    have he : x' = y' := hb.once k x' hx' y' hy' (hxkey.trans (hkey.trans hykey.symm))
    have hid : x.id = y.id := by rw [← hxid, he, hyid]
    exact eq_of_varId (mem_snapshot.mp hx).1 (mem_snapshot.mp hy).1 hid

theorem keepsApart_rotate (hk : KeepsApart s) (h : SamePlain s.vars vars) :
    KeepsApart { s with vars := vars } := by
  intro id k hl b hbound v hv hid hkey hlt
  obtain ⟨hmem, hbound⟩ := mem_snapshot.mp hbound
  obtain ⟨b', hb', hbid, -, hbkey, hbtext⟩ := mem_of_samePlain h hmem
  obtain ⟨v', hv', hvid, hvd, hvkey, hvtext⟩ := mem_of_samePlain h hv
  rw [← hvtext, ← hbtext]
  refine hk id k hl b' (mem_snapshot.mpr ⟨hb', hbid.symm ▸ hbound⟩) v' hv' (hvd.trans hid) ?_ ?_
  · rw [hvkey, hbkey, hkey]
  · rw [hvid, hbid]
    exact hlt

end

/-- the keyed steps that repeat nothing -/
def keyedRepeatsNothing (s : State) : KeyedAction → Prop
  | .platform _ a => repeatsNothing s a
  | .rotate _ _ => True

variable {x : KeyedAction}

theorem bound_keyedStep (hb : Bound s) (h : keyedStep cfg s x = some t) : Bound t := by
  cases x with
  | platform keyIds a => exact bound_step hb h
  | rotate keyIds batchSize =>
    obtain ⟨vars, hvars, rfl⟩ := Option.map_eq_some_iff.mp h
    exact bound_rotate hb (rotateBatch_same (toOption_eq_some.mp hvars))

theorem keepsApart_keyedStep (hb : Bound s) (hk : KeepsApart s) (hok : keyedRepeatsNothing s x)
    (h : keyedStep cfg s x = some t) : KeepsApart t := by
  cases x with
  | platform keyIds a => exact keepsApart_step hb hk hok h
  | rotate keyIds batchSize =>
    obtain ⟨vars, hvars, rfl⟩ := Option.map_eq_some_iff.mp h
    exact keepsApart_rotate hk (rotateBatch_same (toOption_eq_some.mp hvars))

end Freepod
