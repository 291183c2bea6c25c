import Freepod.Runs.Orderly

/-!
# A requested deletion is final

Each request guards on its own set of statuses, and none on `deleted_at`.  While every delete
reconcile succeeds the status of a deployment whose deletion was requested stays among `deleting`
and `deleted`, which all the guards refuse; a delete reconcile that fails overwrites it.

* `deletion_final`: in orderly runs whose delete reconciles succeed, no request moves a deployment
  once its deletion was requested.
* `deletion_overtaken`: after a delete reconcile that failed an update is accepted.
-/

namespace Freepod
open Base

variable {cfg : Settings} {s t : State} {a : Action} {w : WorkerId} {id : DeploymentId}
  {d : Deployment}

/-- the calls of a delete reconcile that may raise -/
def deleteCalls : List Call :=
  [.teardownObjectStorage, .teardownDatabase, .helmUninstall, .deleteNamespace]

/-- no check and no call of a delete reconcile raises -/
def deletesCleanly (s : State) (a : Action) : Prop :=
  ∀ w x turn d, a = .applyRelease w x → s.workers w = some turn →
    s.deployments.get? turn.deployment = some d → d.deletedAt ≠ none →
    validateInputState x d = none ∧ ∀ call ∈ deleteCalls, x.raises call = none

/-- a deployment whose deletion was requested is on its way out -/
structure Leaving (s : State) : Prop where
  ordered : Ordered s
  status : ∀ id d, s.deployments.get? id = some d → d.deletedAt ≠ none →
    d.status = .deleting ∨ d.status = .deleted
  turns : ∀ w job id d release power result,
    s.workers w = some ⟨job, id, .applied d release power result⟩ → d.deletedAt ≠ none →
    result.status = .deleted

theorem leaving_init : Leaving .init where
  ordered := ordered_init
  status := fun _ _ h => nomatch h
  turns := fun _ _ _ _ _ _ _ h => nomatch h

/-! ## One step -/

theorem provision_deleted {now : Time} {x : Effects} {powers : Table DeploymentPower}
    {cluster : Option Rendered} {values : Option ReleaseId} (hdel : d.deletedAt ≠ none)
    (hv : validateInputState x d = none) (hc : ∀ call ∈ deleteCalls, x.raises call = none)
    (text : String → String) :
    (reconcileResult now d text (provision now x powers cluster d values).2).status =
      .deleted := by
  obtain ⟨time, ht⟩ := Option.ne_none_iff_exists'.mp hdel
  have first : x.firstRaise [.teardownObjectStorage, .teardownDatabase] = none := by
    simp [Effects.firstRaise, hc .teardownObjectStorage (by decide),
      hc .teardownDatabase (by decide)]
  simp only [provision, hv, ht, reconcileDelete, first, hc .helmUninstall (by decide),
    hc .deleteNamespace (by decide), reconcileResult]

theorem leaving_status (hl : Leaving s) (h : step cfg s a = some t)
    (hd : t.deployments.get? id = some d) (hdel : d.deletedAt ≠ none) :
    d.status = .deleting ∨ d.status = .deleted := by
  rcases deploymentStep_of_step hl.ordered h id with h | h
  · cases h with
    | untouched same => exact hl.status id d (same.deployment ▸ hd) hdel
    | create r sub ns values hostname isPaid named before after =>
      rw [after] at hd
      cases hd
      exact absurd rfl hdel
    | update u x values hostname buildId before settled closed opened after =>
      rw [after] at hd
      cases hd
      -- the statuses an update asks for are not those of a deletion
      rcases hl.status id x before hdel with hst | hst
      · rw [hst] at settled
        rcases settled with h | h
        · cases h
        · cases h
      · rw [hst] at settled
        rcases settled with h | h
        · cases h
        · cases h
    | delete x before leaving closed opened after =>
      rw [after] at hd
      cases hd
      exact .inl rfl
    | power r x before ready changes closed opened after =>
      rw [after] at hd
      cases hd
      exact hl.status id x before hdel
    | provision x before pending after =>
      rw [after] at hd
      cases hd
      rcases hl.status id x before hdel with hst | hst
      · rw [pending] at hst
        cases hst
      · rw [pending] at hst
        cases hst
  · cases h with
    | untouched same => exact hl.status id d (same.deployment ▸ hd) hdel
    | claimRelease w job x r turn before claimed row queued releases deployments =>
      exact hl.status id d (deployments ▸ hd) hdel
    | claimPower w job session values release x p turn before claimed row queued powers
        deployments => exact hl.status id d (deployments ▸ hd) hdel
    | applyRelease w x job session y text action turn before cluster stage deployments =>
      exact hl.status id d (deployments ▸ hd) hdel
    | recordOutcome w job x release power result turn before releases powers after =>
      rw [after] at hd
      cases hd
      exact .inr (hl.turns w job id x release power result turn hdel)

theorem leaving_step (hl : Leaving s) (hok : orderly cfg s a ∧ deletesCleanly s a)
    (h : step cfg s a = some t) : Leaving t := by
  refine ⟨ordered_step hl.ordered hok.1 h, fun id d hd hdel => leaving_status hl h hd hdel, ?_⟩
  intro w job id d release power result hw hdel
  rcases applied_of_step hl.ordered h hw with ⟨-, hold⟩ | ⟨x, session, text, ha, hs, hd, -, rfl⟩
  · exact hl.turns w job id d release power result hold hdel
  · obtain ⟨hv, hc⟩ := hok.2 w x _ d ha hs hd hdel
    exact provision_deleted hdel hv hc text

/-! ## Requests -/

/-- a row of the deployment's vars is there before and after, or neither -/
theorem vars_of_appended {vars vars' : Table DeploymentVar} {id' : DeploymentId}
    (h : VarsAppended vars vars' id') (hne : id' ≠ id) (v : DeploymentVar)
    (hv : v.deploymentId = id) : v ∈ vars'.rows ↔ v ∈ vars.rows := by
  refine ⟨fun hm => ?_, h.kept v⟩
  rcases h.own v hm with hm | hid
  · exact hm
  · exact absurd (hid.symm.trans hv) hne

/-- no request is accepted that would write the deployment, its ledgers or its vars.  A stop or a
start of a deployment that has the asked power already succeeds and writes nothing -/
structure Closed (cfg : Settings) (s : State) (id : DeploymentId) : Prop where
  update : ∀ c u, u.id = id → step cfg s (.update c u) = none
  power : ∀ r t, r.deploymentId = id → step cfg s (.power r) = some t → t = s
  vars : ∀ c r, r.deploymentId = id → step cfg s (.writeVars c r) = none
  delete : ∀ userId t, step cfg s (.delete userId id) = some t → t = s
  requests : ∀ a t, a.worker = none → step cfg s a = some t →
    Untouched s t id ∧ ∀ v, v.deploymentId = id → (v ∈ t.vars.rows ↔ v ∈ s.vars.rows)

theorem not_status_of_leaving (hst : d.status = .deleting ∨ d.status = .deleted)
    {st : DeploymentStatus} (h : d.status = st) (h1 : st ≠ .deleting) (h2 : st ≠ .deleted) :
    False := by
  rcases hst with hst | hst
  · exact h1 (h.symm.trans hst)
  · exact h2 (h.symm.trans hst)

section
variable (hd : s.deployments.get? id = some d) (hst : d.status = .deleting ∨ d.status = .deleted)
include hd hst

theorem update_refused {c : Context} {u : UpdateRequest} (hu : u.id = id) :
    step cfg s (.update c u) = none := by
  refine Option.eq_none_iff_forall_ne_some.mpr fun t h => ?_
  obtain ⟨x, _, _, _, _, _, _, _, hx, -, hset, -⟩ := updateDeployment_ok (toOption_eq_some.mp h)
  rw [hu, hd] at hx
  cases hx
  rcases hset with h | h
  · exact not_status_of_leaving hst h (by decide) (by decide)
  · exact not_status_of_leaving hst h (by decide) (by decide)

theorem power_idle {r : PowerRequest} (hr : r.deploymentId = id)
    (h : step cfg s (.power r) = some t) : t = s := by
  obtain ⟨x, hx, -, -, ⟨-, h⟩ | ⟨-, hready, -⟩⟩ := changePower_ok (toOption_eq_some.mp h)
  · exact h
  · rw [hr, hd] at hx
    cases hx
    exact (not_status_of_leaving hst hready (by decide) (by decide)).elim

theorem writeVars_refused {c : Context} {r : VarsRequest} (hr : r.deploymentId = id) :
    step cfg s (.writeVars c r) = none := by
  refine Option.eq_none_iff_forall_ne_some.mpr fun t h => ?_
  obtain ⟨x, _, hx, h1, h2, -⟩ := writeVarsRequest_ok (toOption_eq_some.mp h)
  rw [hr, hd] at hx
  cases hx
  exact hst.elim h2 h1

theorem delete_idle {userId : UserId} (h : step cfg s (.delete userId id) = some t) : t = s := by
  obtain ⟨x, hx, -, ⟨-, h⟩ | ⟨hin, -⟩⟩ := deleteDeployment_ok (toOption_eq_some.mp h)
  · exact h
  · rw [hd] at hx
    cases hx
    exact absurd hst hin

theorem untouched_of_leaving (h : RequestStep a s t id) : Untouched s t id := by
  cases h with
  | untouched same => exact same
  | create r sub ns values hostname isPaid named before =>
    rw [hd] at before
    cases before
  | update u x values hostname buildId before settled =>
    rw [hd] at before
    cases before
    rcases settled with h | h
    · exact (not_status_of_leaving hst h (by decide) (by decide)).elim
    · exact (not_status_of_leaving hst h (by decide) (by decide)).elim
  | delete x before leaving =>
    rw [hd] at before
    cases before
    exact absurd hst leaving
  | power r x before ready =>
    rw [hd] at before
    cases before
    exact (not_status_of_leaving hst ready (by decide) (by decide)).elim
  | provision x before pending =>
    rw [hd] at before
    cases before
    exact (not_status_of_leaving hst pending (by decide) (by decide)).elim

/-- no request writes a var of the deployment -/
theorem vars_of_leaving (ha : a.worker = none) (h : step cfg s a = some t) (v : DeploymentVar)
    (hv : v.deploymentId = id) : v ∈ t.vars.rows ↔ v ∈ s.vars.rows := by
  cases a with
  | create c r =>
    have h := toOption_eq_some.mp h
    have hne : r.deploymentId ≠ id := by
      rintro rfl
      obtain ⟨_, _, _, _, _, _, _, _, _, _, _, -, -, hi, -⟩ := createDeployment_ok h
      have hnone : s.deployments.get? r.deploymentId = none := Table.get?_of_insert? hi
      rw [hd] at hnone
      cases hnone
    exact vars_of_appended (createDeployment_vars h) hne v hv
  | update c u =>
    have hne : u.id ≠ id := fun hu => by
      rw [update_refused hd hst hu] at h
      cases h
    exact vars_of_appended (updateDeployment_vars (toOption_eq_some.mp h)) hne v hv
  | writeVars c r =>
    have hne : r.deploymentId ≠ id := fun hr => by
      rw [writeVars_refused hd hst hr] at h
      cases h
    obtain ⟨_, vars, -, -, -, hrows, rfl⟩ := writeVarsRequest_ok (toOption_eq_some.mp h)
    exact vars_of_appended hrows hne v hv
  | delete userId id' =>
    obtain ⟨_, -, -, ⟨-, rfl⟩ | ⟨-, _, _, -, -, rfl⟩⟩ :=
      deleteDeployment_ok (toOption_eq_some.mp h)
    · exact Iff.rfl
    · exact Iff.rfl
  | power r =>
    obtain ⟨_, -, -, -, ⟨-, rfl⟩ | ⟨-, -, _, _, _, -, -, -, rfl⟩⟩ :=
      changePower_ok (toOption_eq_some.mp h)
    · exact Iff.rfl
    · exact Iff.rfl
  | webhook n => rw [(aside_of_webhook (toOption_eq_some.mp h)).1]
  | tick delta =>
    cases h
    exact Iff.rfl
  | createBuild c r =>
    obtain ⟨builds, rfl⟩ := builds_of_step h rfl
    exact Iff.rfl
  | claimBuild skipped =>
    obtain ⟨builds, rfl⟩ := builds_of_step h rfl
    exact Iff.rfl
  | recordBuildJob k jobId =>
    obtain ⟨builds, rfl⟩ := builds_of_step h rfl
    exact Iff.rfl
  | finishBuild k image =>
    obtain ⟨builds, rfl⟩ := builds_of_step h rfl
    exact Iff.rfl
  | _ => cases ha

theorem closed_of_leaving : Closed cfg s id where
  update := fun _ _ hu => update_refused hd hst hu
  power := fun _ _ hr h => power_idle hd hst hr h
  vars := fun _ _ hr => writeVars_refused hd hst hr
  delete := fun _ _ h => delete_idle hd hst h
  requests := fun _ _ ha h =>
    ⟨untouched_of_leaving hd hst (requestStep_of_written (written_of_step h ha) id),
      vars_of_leaving hd hst ha h⟩

end

/-- **a requested deletion is final** in orderly runs whose delete reconciles succeed -/
theorem deletion_final
    (hs : (platform cfg).Reach (fun s a => orderly cfg s a ∧ deletesCleanly s a) .init s)
    (hd : s.deployments.get? id = some d) (hdel : d.deletedAt ≠ none) :
    (d.status = .deleting ∨ d.status = .deleted) ∧ Closed cfg s id := by
  have hl : Leaving s := hs.invariant leaving_init fun _ _ _ hl hok h => leaving_step hl hok h
  have hst := hl.status id d hd hdel
  exact ⟨hst, closed_of_leaving hd hst⟩

/-- the check that decides `deletesCleanly` -/
def deletesCleanlyCheck (s : State) (a : Action) : Bool :=
  match a with
  | .applyRelease w x =>
    (s.workers w).all fun turn => (s.deployments.get? turn.deployment).all fun d =>
      d.deletedAt.isNone || ((validateInputState x d).isNone &&
        deleteCalls.all fun call => (x.raises call).isNone)
  | _ => true

theorem deletesCleanly_of_check (s : State) (a : Action) (h : deletesCleanlyCheck s a = true) :
    deletesCleanly s a := by
  rintro w x turn d rfl hw hd hdel
  simp only [deletesCleanlyCheck, hw, hd, Option.all_some, Bool.or_eq_true, Bool.and_eq_true,
    Option.isNone_iff_eq_none, List.all_eq_true] at h
  exact h.resolve_left hdel

/-- a deployment and its deletion -/
def deletionRun (x : Effects) : List Action :=
  .create .sample (.sample .null none) :: Action.turn "w1" .clean ++
    .delete 7 1 :: Action.turn "w2" x

theorem deletion_final_sample : ∃ s d, s.deployments.get? 1 = some d ∧ d.deletedAt ≠ none ∧
    d.status = .deleted ∧ Closed .sample s 1 := by
  obtain ⟨s, hs, -, hp⟩ := exists_orderly_of_runIf .sample deletesCleanly_of_check
    (l := deletionRun .clean) (p := fun s : State => (s.deployments.get? 1).any
      fun d : Deployment => d.deletedAt.isSome && decide (d.status = .deleted))
    (onlyAmong_init ["w1", "w2"]) (by decide +kernel)
  obtain ⟨d, hd, hp⟩ := (Option.any_eq_true _ _).mp hp
  rw [Bool.and_eq_true, decide_eq_true_eq, Option.isSome_iff_ne_none] at hp
  exact ⟨s, d, hd, hp.1, hp.2, (deletion_final hs hd hp.1).2⟩

/-- the update is accepted: the failed delete reconcile left the status `error` -/
theorem deletion_overtaken :
    ¬ ∀ s id d, (platform .sample).Reach (fun _ _ => True) .init s →
      s.deployments.get? id = some d → d.deletedAt ≠ none → Closed .sample s id := by
  intro hall
  obtain ⟨s, hs, hp⟩ := Machine.exists_reach_of_run (M := platform .sample) (s := .init)
    (l := deletionRun (.raising .helmUninstall)) (p := fun s : State =>
      ((s.deployments.get? 1).any fun d : Deployment => d.deletedAt.isSome) &&
      (step .sample s (.update .sample (.sample none 2))).isSome) (by decide +kernel)
  rw [Bool.and_eq_true, Option.any_eq_true] at hp
  obtain ⟨⟨d, hd, hdel⟩, hupdate⟩ := hp
  have hclosed := hall s 1 d hs hd (Option.isSome_iff_ne_none.mp hdel)
  rw [hclosed.update .sample (.sample none 2) rfl] at hupdate
  cases hupdate

end Freepod
