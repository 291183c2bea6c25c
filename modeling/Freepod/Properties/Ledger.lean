import Freepod.Platform.Sessions
import Freepod.Runs.Releases
import Freepod.Runs.Results

/-!
# The shape of the release ledger

`attempts` is the platform under requests that may be refused: a create or an update runs its
session, statement by statement, and whatever else is not accepted changes nothing.

* `attempt_cases`: a refused request leaves the database as it was.
* `ledger_shape`: in orderly runs the numbers of a deployment's releases are `1` to `n`, the desired
  release is the one numbered `n`, and the applied one has ended without an error.
-/

namespace Freepod
open Base

variable {cfg : Settings} {s t : State} {a : Action} {w : WorkerId} {id : DeploymentId}
  {d : Deployment}

/-! ## Requests that may be refused -/

/-- the state after an action that may be refused -/
def attempt (cfg : Settings) (s : State) : Action → State
  | .create c r => ((createSession cfg c r).exec s).2
  | .update c u => ((updateSession cfg c u).exec s).2
  | a => (step cfg s a).getD s

/-- the platform under accepted and rejected requests -/
def attempts (cfg : Settings) : Machine State Action := ⟨fun s a => some (attempt cfg s a)⟩

/-- **an action is a step, or leaves the state as it was** -/
theorem attempt_cases (cfg : Settings) (s : State) (a : Action) :
    step cfg s a = some (attempt cfg s a) ∨ step cfg s a = none ∧ attempt cfg s a = s := by
  have other : attempt cfg s a = (step cfg s a).getD s →
      step cfg s a = some (attempt cfg s a) ∨ step cfg s a = none ∧ attempt cfg s a = s := by
    intro h
    rw [h]
    cases step cfg s a with
    | none => exact .inr ⟨rfl, rfl⟩
    | some t => exact .inl rfl
  cases a with
  | create c r =>
    rcases Transaction.exec_of_commits (createSession_commits cfg c r) s with
      ⟨t, hf, he⟩ | ⟨e, hf, he⟩
    · left
      show (createDeployment cfg c s r).toOption = some ((createSession cfg c r).exec s).2
      rw [hf, he]
      rfl
    · right
      show (createDeployment cfg c s r).toOption = none ∧ ((createSession cfg c r).exec s).2 = s
      rw [hf, he]
      exact ⟨rfl, rfl⟩
  | update c u =>
    rcases Transaction.exec_of_commits (updateSession_commits cfg c u) s with
      ⟨t, hf, he⟩ | ⟨e, hf, he⟩
    · left
      show (updateDeployment cfg c s u).toOption = some ((updateSession cfg c u).exec s).2
      rw [hf, he]
      rfl
    · right
      show (updateDeployment cfg c s u).toOption = none ∧ ((updateSession cfg c u).exec s).2 = s
      rw [hf, he]
      exact ⟨rfl, rfl⟩
  | _ => exact other rfl

/-- what is reached with refused requests is reached without them -/
theorem reach_of_attempts {ok : State → Action → Prop} (h : (attempts cfg).Reach ok s t) :
    (platform cfg).Reach ok s t := by
  refine h.along (P := fun _ => True) trivial (fun _ _ _ _ _ _ => trivial) .refl ?_
  intro t a u _ hr ha hs
  have hu : attempt cfg t a = u := Option.some.inj hs
  rcases attempt_cases cfg t a with hstep | ⟨-, hsame⟩
  · exact hr.tail ha (hu ▸ hstep)
  · rw [← hu, hsame]
    exact hr

theorem attempt_of_step (h : step cfg s a = some t) : attempt cfg s a = t := by
  rcases attempt_cases cfg s a with hstep | ⟨hnone, -⟩
  · rw [h] at hstep
    exact (Option.some.inj hstep).symm
  · rw [h] at hnone
    cases hnone

theorem attempts_of_reach {ok : State → Action → Prop} (h : (platform cfg).Reach ok s t) :
    (attempts cfg).Reach ok s t := by
  refine h.along (P := fun _ => True) trivial (fun _ _ _ _ _ _ => trivial) .refl ?_
  intro t a u _ hr ha hs
  exact hr.tail ha (congrArg some (attempt_of_step hs))

/-! ## The invariant -/

/-- the numbers of the releases of a deployment -/
def releaseNumbers (s : State) (id : DeploymentId) : List Nat :=
  (s.releases.rows.filter fun r => r.deploymentId = id).map DeploymentRelease.number

/-- the release a deployment's applied pointer names -/
def AppliedOk (s : State) (d : Deployment) : Prop :=
  ∀ k, d.appliedReleaseId = some k → ∃ r, s.releases.get? k = some r ∧ r.deploymentId = d.id ∧
    r.endedAt ≠ none ∧ r.error = none ∧ d.appliedTemplateId = some r.templateId

structure LedgerShape (s : State) (d : Deployment) : Prop where
  numbers : (releaseNumbers s d.id).Perm (List.range' 1 (releaseNumbers s d.id).length)
  desired : ∃ r, s.releases.get? d.desiredReleaseId = some r ∧ r.deploymentId = d.id ∧
    r.number = (releaseNumbers s d.id).length ∧ r.templateId = d.desiredTemplateId
  applied : AppliedOk s d

/-- the releases of every deployment count down to `1`, and what is applied has ended well -/
structure Counted (s : State) : Prop where
  ledgered : Ledgered s
  resulted : Resulted s
  numbers : ∀ id d, s.deployments.get? id = some d →
    (releasesByNumber s.releases id).map ReleaseRow.number =
      (List.range' 1 (releasesByNumber s.releases id).length).reverse
  applied : ∀ id d, s.deployments.get? id = some d → AppliedOk s d

theorem counted_init : Counted .init where
  ledgered := ledgered_init
  resulted := resulted_init
  numbers := fun _ _ h => nomatch h
  applied := fun _ _ h => nomatch h

/-- the next release continues the count -/
theorem nextReleaseNumber_of_count {releases : Table DeploymentRelease}
    (h : (releasesByNumber releases id).map ReleaseRow.number =
      (List.range' 1 (releasesByNumber releases id).length).reverse) :
    nextReleaseNumber releases id = (releasesByNumber releases id).length + 1 := by
  rw [nextReleaseNumber_eq, h]
  generalize (releasesByNumber releases id).length = n
  congr 1
  induction n with
  | zero => rfl
  | succ n ih =>
    rw [List.range'_1_concat, List.reverse_append, List.reverse_singleton, List.singleton_append,
      List.foldr_cons, ih]
    omega

theorem counted_numbers (hc : Counted s) (h : step cfg s a = some t)
    (hd : t.deployments.get? id = some d) :
    (releasesByNumber t.releases id).map ReleaseRow.number =
      (List.range' 1 (releasesByNumber t.releases id).length).reverse := by
  rcases releasesByNumber_of_step hc.ledgered h hd with ⟨x, hx, -, he⟩ | ⟨x, -, hnumber, he⟩
  · rw [he]
    exact hc.numbers id x hx
  · have hold : (releasesByNumber s.releases id).map ReleaseRow.number =
        (List.range' 1 (releasesByNumber s.releases id).length).reverse := by
      cases hs : s.deployments.get? id with
      | some y => exact hc.numbers id y hs
      | none =>
        rw [hc.ledgered.releasesByNumber_none hs]
        rfl
    rw [nextReleaseNumber_of_count hold] at hnumber
    rw [he, List.map_cons, hnumber, hold, List.length_cons, List.range'_1_concat,
      List.reverse_append, List.reverse_singleton, List.singleton_append, Nat.add_comm 1]

/-- the applied release while its row and the pointer stay -/
theorem AppliedOk.congr {d' : Deployment} (h : AppliedOk s d) (hid : d'.id = d.id)
    (ha : d'.appliedReleaseId = d.appliedReleaseId)
    (ht : d'.appliedTemplateId = d.appliedTemplateId)
    (hrow : ∀ k r, d.appliedReleaseId = some k → s.releases.get? k = some r →
      t.releases.get? k = some r) : AppliedOk t d' := by
  intro k hk
  rw [ha] at hk
  obtain ⟨r, hr, hd, hend, herror, htemplate⟩ := h k hk
  exact ⟨r, hrow k r hk hr, hd.trans hid.symm, hend, herror, ht.trans htemplate⟩

/-- a release that is claimed is not the applied one -/
theorem applied_ne_releaseToClaim {k k' : ReleaseId} (hc : d.releaseToClaim = some k)
    (ha : d.appliedReleaseId = some k') : k' ≠ k := by
  unfold Deployment.releaseToClaim at hc
  split at hc
  · rename_i hdiff
    rintro rfl
    exact hdiff.2 (ha.trans hc.symm)
  · cases hc

/-- the commit of an outcome leaves the applied release ended without an error -/
theorem appliedOk_outcome {result : ReconcileResult} (h : AppliedOk s d) (hp : Pointed s d)
    (hres : ResultOf d result)
    (hr : d.releaseToClaim = none ∧ t.releases = s.releases ∨
      ∃ r, d.releaseToClaim = some r.id ∧ s.releases.get? r.id = some r ∧
        s.releases.put? (r.finish s.now result) = some t.releases) :
    AppliedOk t (d.outcome result) := by
  obtain ⟨x, hx, hxd, hxt, -⟩ := hp.desired
  have other : ∀ k r, d.appliedReleaseId = some k → s.releases.get? k = some r →
      t.releases.get? k = some r := by
    intro k y hk hy
    rcases hr with ⟨-, he⟩ | ⟨r, hc, -, hput⟩
    · rw [he, hy]
    · rw [Table.get?_put?_of_ne hput (applied_ne_releaseToClaim hc hk), hy]
  -- a result that is not ready keeps the applied template
  have kept : result.status ≠ .ready → (d.outcome result).appliedTemplateId = d.appliedTemplateId :=
    fun hne => by
      cases hres with
      | ready status => exact absurd status hne
      | deleted status gone error template => exact template
      | failed status error template => exact template
  rcases release_outcome d result with ⟨hnone, ha⟩ | ⟨hne, ha⟩ | ⟨hc, hready, ha⟩
  · by_cases hready : result.status = .ready
    · -- the release that is applied is the desired one, rolled out again
      intro k hk
      have hlive := hres.live hready
      have hk' : d.desiredReleaseId = k := by
        rw [appliedRelease_outcome hlive hready, Option.some.injEq] at hk
        exact hk
      obtain ⟨r, hrow, hrd, hend, herror, -⟩ := h k (ha ▸ hk)
      refine ⟨r, other k r (ha ▸ hk) hrow, hrd, hend, herror, ?_⟩
      rw [hk', hrow] at hx
      cases hx
      cases hres with
      | ready status live error template => exact template.trans (by rw [hxt])
      | deleted status => rw [status] at hready; cases hready
      | failed status => rw [status] at hready; cases hready
    · exact h.congr rfl ha (kept hready) other
  · exact h.congr rfl ha (kept hne) other
  · intro k hk
    rw [ha, Option.some.injEq] at hk
    subst hk
    rcases hr with ⟨hnone, -⟩ | ⟨r, hc', hrow, hput⟩
    · rw [hc] at hnone
      cases hnone
    · have hrid : d.desiredReleaseId = r.id := desired_of_releaseToClaim hc'
      rw [hrid, hrow] at hx
      obtain rfl : r = x := Option.some.inj hx
      have hself := Table.get?_put?_self (a := r.finish s.now result) hput hrow
      refine ⟨r.finish s.now result, hrid ▸ hself, hxd, (fun h => nomatch h), hres.noError hready, ?_⟩
      cases hres with
      | ready status live error template => exact template.trans (by rw [← hxt]; rfl)
      | deleted status => rw [status] at hready; cases hready
      | failed status => rw [status] at hready; cases hready

theorem counted_applied (hc : Counted s) (h : step cfg s a = some t)
    (hd : t.deployments.get? id = some d) : AppliedOk t d := by
  have ho := hc.ledgered.ordered
  rcases deploymentStep_of_step ho h id with hreq | hw
  · cases hreq with
    | untouched same =>
      have hd := same.deployment ▸ hd
      have hid : d.id = id := Table.key_of_get? hd
      refine (hc.applied id d hd).congr rfl rfl rfl fun k r hk hr => ?_
      refine (same.release k r ?_).mpr hr
      obtain ⟨x, hx, hxd⟩ := (ho.pointed id d hd).applied k hk
      rw [hr] at hx
      cases hx
      exact hxd.trans hid
    | create r sub ns values hostname isPaid named before after =>
      rw [after] at hd
      cases hd
      intro k hk
      cases hk
    | update u x values hostname buildId before settled closed opened after releases =>
      rw [after] at hd
      cases hd
      exact (hc.applied id x before).congr rfl rfl rfl fun k r _ hr =>
        Table.get?_insert?_of_get? releases hr
    | delete x before leaving closed opened after releases =>
      rw [after] at hd
      cases hd
      exact (hc.applied id x before).congr rfl rfl rfl fun k r _ hr => by rw [releases, hr]
    | power r x before ready changes closed opened after releases =>
      rw [after] at hd
      cases hd
      exact (hc.applied id x before).congr rfl rfl rfl fun k r _ hr => by rw [releases, hr]
    | provision x before pending after releases =>
      rw [after] at hd
      cases hd
      exact (hc.applied id x before).congr rfl rfl rfl fun k r _ hr => by rw [releases, hr]
  · cases hw with
    | untouched same =>
      have hd := same.deployment ▸ hd
      have hid : d.id = id := Table.key_of_get? hd
      refine (hc.applied id d hd).congr rfl rfl rfl fun k r hk hr => ?_
      refine (same.release k r ?_).mpr hr
      obtain ⟨x, hx, hxd⟩ := (ho.pointed id d hd).applied k hk
      rw [hr] at hx
      cases hx
      exact hxd.trans hid
    | claimRelease w job x r turn before claimed row queued releases deployments =>
      have hd := deployments ▸ hd
      rw [before] at hd
      cases hd
      exact (hc.applied id d before).congr rfl rfl rfl fun k y hk hy =>
        (Table.get?_put?_of_ne releases (applied_ne_releaseToClaim claimed hk)).trans hy
    | claimPower w job session values release x p turn before claimed row queued powers deployments
        releases =>
      exact (hc.applied id d (deployments ▸ hd)).congr rfl rfl rfl fun k r _ hr => by
        rw [releases, hr]
    | applyRelease w x job session y text action turn before cluster stage deployments releases =>
      exact (hc.applied id d (deployments ▸ hd)).congr rfl rfl rfl fun k r _ hr => by
        rw [releases, hr]
    | recordOutcome w job x release power result turn before releases powers after =>
      rw [after] at hd
      cases hd
      exact appliedOk_outcome (hc.applied id x before) (ho.pointed id x before)
        (hc.resulted w job id x release power result turn) releases

theorem counted_step (hc : Counted s) (hok : orderly cfg s a) (h : step cfg s a = some t) :
    Counted t where
  ledgered := ledgered_step hc.ledgered hok h
  resulted := resulted_step hc.ledgered.ordered hc.resulted h
  numbers := fun _ _ hd => counted_numbers hc h hd
  applied := fun _ _ hd => counted_applied hc h hd

/-! ## The ledger -/

theorem length_releasesByNumber (s : State) (id : DeploymentId) :
    (releasesByNumber s.releases id).length = (releaseNumbers s id).length := by
  rw [releasesByNumber, List.length_insertionSort, List.length_map, releaseNumbers, List.length_map]

theorem perm_releasesByNumber (s : State) (id : DeploymentId) :
    ((releasesByNumber s.releases id).map ReleaseRow.number).Perm (releaseNumbers s id) := by
  have hperm := (List.perm_insertionSort (fun a b : ReleaseRow => b.number ≤ a.number)
    ((s.releases.rows.filter fun r => r.deploymentId = id).map DeploymentRelease.row)).map
      ReleaseRow.number
  rw [List.map_map] at hperm
  exact hperm

/-- the desired release has the highest number -/
theorem Counted.desired (hc : Counted s) (hd : s.deployments.get? id = some d) :
    ∃ r, s.releases.get? d.desiredReleaseId = some r ∧ r.deploymentId = id ∧
      r.number = (releaseNumbers s id).length ∧ r.templateId = d.desiredTemplateId := by
  have hid : d.id = id := Table.key_of_get? hd
  obtain ⟨r, hr, hrd, hrt, -⟩ := (hc.ledgered.ordered.pointed id d hd).desired
  refine ⟨r, hr, hrd.trans hid, ?_, hrt⟩
  have hnewest := hc.ledgered.newest id d hd
  have hnumbers := hc.numbers id d hd
  rw [← length_releasesByNumber]
  cases hl : releasesByNumber s.releases id with
  | nil =>
    rw [hl] at hnewest
    cases hnewest
  | cons x l =>
    rw [hl] at hnewest hnumbers
    rw [List.map_cons, List.length_cons, List.range'_1_concat, List.reverse_append,
      List.reverse_singleton, List.singleton_append, List.cons.injEq] at hnumbers
    have hx : x ∈ releasesByNumber s.releases id := by
      rw [hl]
      exact List.mem_cons_self
    obtain ⟨y, hy, he⟩ := List.mem_map.mp (mem_releasesByNumber.mp hx)
    rw [DeploymentRelease.entry, Prod.mk.injEq] at he
    have hxid : x.id = d.desiredReleaseId := Option.some.inj hnewest
    have hyid : y.id = d.desiredReleaseId := (congrArg ReleaseRow.id he.2).trans hxid
    have hget : s.releases.get? y.id = some y := Table.get?_of_mem hy
    rw [hyid, hr] at hget
    cases hget
    have hnumber : r.number = x.number := congrArg ReleaseRow.number he.2
    rw [hnumber, hnumbers.1, List.length_cons]
    omega

theorem Counted.shape (hc : Counted s) (hd : s.deployments.get? id = some d) :
    LedgerShape s d := by
  have hid : d.id = id := Table.key_of_get? hd
  subst hid
  refine ⟨?_, hc.desired hd, hc.applied d.id d hd⟩
  have hperm := perm_releasesByNumber s d.id
  rw [hc.numbers d.id d hd, length_releasesByNumber] at hperm
  exact hperm.symm.trans (List.reverse_perm _)

/-- **the shape of the ledger** in every state that accepted and rejected requests and orderly
reconciles reach, and nothing left behind by a rejected one -/
theorem ledger_shape (hs : (attempts cfg).Reach (orderly cfg) .init s) :
    (∀ id d, s.deployments.get? id = some d → LedgerShape s d) ∧
      (∀ c r e, ((createSession cfg c r).exec s).1 = .error e →
        ((createSession cfg c r).exec s).2 = s) ∧
      ∀ c u e, ((updateSession cfg c u).exec s).1 = .error e →
        ((updateSession cfg c u).exec s).2 = s := by
  have hc : Counted s := (reach_of_attempts hs).invariant counted_init
    fun _ _ _ hc hok h => counted_step hc hok h
  refine ⟨fun id d hd => hc.shape hd, fun c r e he => ?_, fun c u e he => ?_⟩
  · rcases Transaction.exec_of_commits (createSession_commits cfg c r) s with
      ⟨t, -, hx⟩ | ⟨e, -, hx⟩
    · rw [hx] at he
      cases he
    · rw [hx]
  · rcases Transaction.exec_of_commits (updateSession_commits cfg c u) s with
      ⟨t, -, hx⟩ | ⟨e, -, hx⟩
    · rw [hx] at he
      cases he
    · rw [hx]

/-- a rollout, a second one that is under way, and a third that is refused -/
theorem ledger_shape_sample : ∃ s d, s.deployments.get? 1 = some d ∧ LedgerShape s d ∧
    (releaseNumbers s 1).length = 2 ∧ d.appliedReleaseId = some 1 ∧
    ∃ e, (updateSession .sample .sample (.sample none 3)).exec s = (.error e, s) := by
  obtain ⟨s, hs, -, hp⟩ := exists_orderly_of_runIf .sample (c := fun _ _ => true)
    (k := fun _ _ => True) (fun _ _ _ => trivial)
    (l := .create .sample (.sample .null none) :: Action.turn "w1" .clean ++
      [.update .sample (.sample none 2)])
    (p := fun s : State =>
      (s.deployments.get? 1).any (fun d : Deployment => decide (d.appliedReleaseId = some 1)) &&
      decide ((releaseNumbers s 1).length = 2) &&
      !((updateSession .sample .sample (.sample none 3)).exec s).1.isOk)
    (onlyAmong_init ["w1"]) (by decide +kernel)
  rw [Bool.and_eq_true, Bool.and_eq_true, decide_eq_true_eq, Option.any_eq_true] at hp
  obtain ⟨⟨⟨d, hd, happ⟩, hlen⟩, hrefused⟩ := hp
  obtain ⟨hshape, -, hupdate⟩ :=
    ledger_shape (attempts_of_reach (hs.mono fun _ _ h => h.1))
  refine ⟨s, d, hd, hshape 1 d hd, hlen, of_decide_eq_true happ, ?_⟩
  cases he : ((updateSession .sample .sample (.sample none 3)).exec s).1 with
  | ok u =>
    rw [he] at hrefused
    cases hrefused
  | error e => exact ⟨e, Prod.ext he (hupdate .sample (.sample none 3) e he)⟩

end Freepod
