import Mathlib.Order.Lattice
import Freepod.Platform.Updates
import Freepod.Runs.Kept

/-!
# What the rollouts of a deployment come to

A deployment has the template it is meant to run, and one release for each rollout with the template
of that rollout.  `State.rollouts` is this part of the state.

* `Rollouts.Ascending`: the releases of a deployment are numbered without a gap, their templates
  climb with the numbers, and none is above the desired one.
* `Ascending.add`: a release that continues the numbers, with a template not below the desired one,
  keeps it so.
* `rollouts_of_step`: of the steps that are not updates only a create rolls anything out.
* `rollouts_of_commit`: what the commit of an update rolls out.
* `Updates.Does`, `Updates.Rolls`: what one statement of an update does, and what else may happen
  between two.
* `Updates.meets_handler`: what an update knows when it locks the row, and when it commits.
-/

namespace Freepod
open Base

/-- the desired template of each deployment, and the template of each numbered release -/
@[ext] structure Rollouts where
  desired : DeploymentId → Option TemplateId
  released : DeploymentId → Nat → TemplateId → Prop

namespace Rollouts

variable {R : Rollouts} {id id' : DeploymentId} {n m : Nat} {x y : TemplateId}

/-- a rollout of `x` under the number `n` -/
def add (R : Rollouts) (id : DeploymentId) (n : Nat) (x : TemplateId) : Rollouts where
  desired := Function.update R.desired id (some x)
  released := fun id' m y => R.released id' m y ∨ (id' = id ∧ m = n ∧ y = x)

/-- some release has the number -/
def Numbered (R : Rollouts) (id : DeploymentId) (n : Nat) : Prop := ∃ x, R.released id n x

structure Ascending (R : Rollouts) : Prop where
  below : ∀ id n x, R.released id n x → ∃ y, R.desired id = some y ∧ x ≤ y
  climbs : ∀ id n m x y, R.released id n x → R.released id m y → n ≤ m → x ≤ y
  positive : ∀ id n, R.Numbered id n → 1 ≤ n
  dense : ∀ id n k, R.Numbered id n → 1 ≤ k → k ≤ n → R.Numbered id k

theorem Numbered.add (h : R.Numbered id n) (id' : DeploymentId) (m : Nat) (x : TemplateId) :
    (R.add id' m x).Numbered id n := h.imp fun _ hy => .inl hy

theorem numbered_add : (R.add id n x).Numbered id n := ⟨x, .inr ⟨rfl, rfl, rfl⟩⟩

/-- a number is used after a rollout if it was before, or is the rollout's -/
theorem Numbered.of_add (h : (R.add id n x).Numbered id' m) :
    R.Numbered id' m ∨ (id' = id ∧ m = n) := by
  obtain ⟨y, hy | ⟨hid, hm, -⟩⟩ := h
  · exact .inl ⟨y, hy⟩
  · exact .inr ⟨hid, hm⟩

/-- a free number above used ones only is above all of them -/
theorem Ascending.lt_of_free (h : R.Ascending) (hfree : ¬ R.Numbered id n) (hpos : 1 ≤ n)
    (hm : R.Numbered id m) : m < n := by
  by_contra hle
  exact hfree (h.dense id m n hm hpos (by omega))

/-- **a rollout forward keeps the order** -/
theorem Ascending.add (h : R.Ascending) (hfree : ¬ R.Numbered id n) (hpos : 1 ≤ n)
    (hbelow : ∀ k, 1 ≤ k → k < n → R.Numbered id k)
    (hle : ∀ y, R.desired id = some y → y ≤ x) : (R.add id n x).Ascending where
  below := by
    intro id' m y hy
    by_cases hid : id' = id
    · subst hid
      refine ⟨x, Function.update_self .., ?_⟩
      rcases hy with hy | ⟨-, -, rfl⟩
      · obtain ⟨z, hz, hyz⟩ := h.below _ _ _ hy
        exact Nat.le_trans hyz (hle z hz)
      · exact Nat.le_refl _
    · rcases hy with hy | ⟨he, -⟩
      · obtain ⟨z, hz, hyz⟩ := h.below _ _ _ hy
        exact ⟨z, (Function.update_of_ne hid _ _).trans hz, hyz⟩
      · exact absurd he hid
  climbs := by
    intro id' m k y z hy hz hmk
    rcases hy with hy | ⟨rfl, rfl, rfl⟩
    · rcases hz with hz | ⟨rfl, rfl, rfl⟩
      · exact h.climbs _ _ _ _ _ hy hz hmk
      · obtain ⟨w, hw, hyw⟩ := h.below _ _ _ hy
        exact Nat.le_trans hyw (hle w hw)
    · rcases hz with hz | ⟨-, -, rfl⟩
      · -- the new number is above every other
        have hlt := h.lt_of_free hfree hpos ⟨z, hz⟩
        omega
      · exact Nat.le_refl _
  positive := by
    intro id' m hm
    rcases hm.of_add with hm | ⟨-, rfl⟩
    · exact h.positive _ _ hm
    · exact hpos
  dense := by
    intro id' m k hm hk hkm
    rcases hm.of_add with hm | ⟨rfl, rfl⟩
    · exact (h.dense _ _ _ hm hk hkm).add ..
    · by_cases hlt : k < m
      · exact (hbelow k hk hlt).add ..
      · have hkm : k = m := by omega
        exact hkm ▸ numbered_add

end Rollouts

/-- what a rollout records of a release -/
def DeploymentRelease.rollout (r : DeploymentRelease) : DeploymentId × Nat × TemplateId :=
  (r.deploymentId, r.number, r.templateId)

/-- the rollouts of a state -/
def State.rollouts (s : State) : Rollouts where
  desired := fun id => (s.deployments.get? id).map Deployment.desiredTemplateId
  released := fun id n x => (id, n, x) ∈ s.releases.rows.map DeploymentRelease.rollout

section
variable {cfg : Settings} {s t : State} {a : Action} {id : DeploymentId} {n : Nat} {x : TemplateId}

theorem ascending_init : State.init.rollouts.Ascending where
  below := fun _ _ _ h => nomatch h
  climbs := fun _ _ _ _ _ h => nomatch h
  positive := fun _ _ h => nomatch h.choose_spec
  dense := fun _ _ _ h => nomatch h.choose_spec

theorem mem_rollouts {r : DeploymentRelease} (hr : r ∈ s.releases.rows) :
    s.rollouts.released r.deploymentId r.number r.templateId := List.mem_map_of_mem hr

/-- the number of a release of the deployment is used -/
theorem numbered_iff : s.rollouts.Numbered id n ↔
    ∃ r ∈ s.releases.rows, r.deploymentId = id ∧ r.number = n := by
  constructor
  · rintro ⟨x, hx⟩
    obtain ⟨r, hr, he⟩ := List.mem_map.mp hx
    simp only [DeploymentRelease.rollout, Prod.mk.injEq] at he
    exact ⟨r, hr, he.1, he.2.1⟩
  · rintro ⟨r, hr, rfl, rfl⟩
    exact ⟨r.templateId, mem_rollouts hr⟩

/-- **the numbers below the next one are the used ones** -/
theorem numbered_of_lt_next (h : s.rollouts.Ascending) {k : Nat} (hk : 1 ≤ k)
    (hlt : k < nextReleaseNumber s.releases id) : s.rollouts.Numbered id k := by
  have hmax : ∀ l : List Nat, k ≤ l.foldr max 0 → ∃ n ∈ l, k ≤ n := by
    intro l hl
    induction l with
    | nil =>
      rw [List.foldr_nil] at hl
      omega
    | cons n l ih =>
      rw [List.foldr_cons] at hl
      rcases le_max_iff.mp hl with hn | hl
      · exact ⟨n, List.mem_cons_self, hn⟩
      · obtain ⟨m, hm, hkm⟩ := ih hl
        exact ⟨m, List.mem_cons_of_mem _ hm, hkm⟩
  obtain ⟨n, hn, hkn⟩ := hmax _ (Nat.le_of_lt_succ hlt)
  obtain ⟨r, hr, rfl⟩ := List.mem_map.mp hn
  obtain ⟨hr, hid⟩ := List.mem_filter.mp hr
  have hnum : s.rollouts.Numbered id r.number := numbered_iff.mpr ⟨r, hr, of_decide_eq_true hid, rfl⟩
  exact h.dense _ _ _ hnum hk hkn

/-! ## One step -/

/-- steps that write neither column roll nothing out -/
theorem rollouts_congr
    (hd : ∀ id, (t.deployments.get? id).map Deployment.desiredTemplateId =
      (s.deployments.get? id).map Deployment.desiredTemplateId)
    (hr : t.releases.rows.map DeploymentRelease.rollout =
      s.releases.rows.map DeploymentRelease.rollout) : t.rollouts = s.rollouts := by
  refine Rollouts.ext (funext hd) ?_
  funext id n x
  show (_ ∈ _) = (_ ∈ _)
  rw [hr]

/-- an overwrite that leaves the desired template -/
theorem desired_put? {deployments deployments' : Table Deployment} {d d' : Deployment}
    (hput : deployments.put? d' = some deployments') (hd : deployments.get? d'.id = some d)
    (he : d'.desiredTemplateId = d.desiredTemplateId) (id : DeploymentId) :
    (deployments'.get? id).map Deployment.desiredTemplateId =
      (deployments.get? id).map Deployment.desiredTemplateId := by
  rw [Table.get?_put? hput]
  split
  · rename_i hid
    rw [hid, key_deployment, hd]
    exact congrArg some he
  · rfl

/-- an overwrite that leaves what a rollout recorded -/
theorem rollout_put? {releases releases' : Table DeploymentRelease} {r r' : DeploymentRelease}
    (hput : releases.put? r' = some releases') (hr : releases.get? r'.id = some r)
    (he : r'.rollout = r.rollout) :
    releases'.rows.map DeploymentRelease.rollout = releases.rows.map DeploymentRelease.rollout := by
  rw [Table.put?_eq_some.mp hput]
  exact (Table.map_overwrite DeploymentRelease.rollout hr).mpr he

/-- what a new row and a new release roll out -/
theorem rollouts_add {d : Deployment} {r : DeploymentRelease}
    (hd : ∀ id, t.deployments.get? id = if id = d.id then some d else s.deployments.get? id)
    (hr : s.releases.insert? r = some t.releases) (hid : r.deploymentId = d.id)
    (hx : r.templateId = d.desiredTemplateId) :
    t.rollouts = s.rollouts.add d.id r.number d.desiredTemplateId := by
  refine Rollouts.ext ?_ ?_
  · funext id
    show (t.deployments.get? id).map _ = _
    rw [hd]
    split
    · rename_i h
      subst h
      exact (Function.update_self d.id _ s.rollouts.desired).symm
    · rename_i h
      exact (Function.update_of_ne h _ s.rollouts.desired).symm
  · funext id n x
    show ((id, n, x) ∈ t.releases.rows.map _) = (_ ∨ _)
    rw [Table.insert?_eq_some.mp hr, List.map_append, List.mem_append, List.map_singleton,
      List.mem_singleton]
    simp only [DeploymentRelease.rollout, Prod.mk.injEq, hid, hx]
    rfl

/-- an inserted release has a free number -/
theorem free_of_insert? {r : DeploymentRelease} (hr : s.releases.insert? r = some t.releases) :
    ¬ s.rollouts.Numbered r.deploymentId r.number := by
  rw [numbered_iff]
  rintro ⟨x, hx, hid, hn⟩
  have hentry : (x.deploymentId, x.number) = (r.deploymentId, r.number) := Prod.ext hid hn
  have hmem : r ∈ t.releases.rows := (Table.mem_insert? hr).mpr (.inr rfl)
  have hold : x ∈ t.releases.rows := (Table.mem_insert? hr).mpr (.inl hx)
  have heq : x = r :=
    Table.eq_of_entry hold hmem (List.mem_singleton.mpr rfl) (List.mem_singleton.mpr hentry)
  have hkey := Table.get?_of_insert? hr
  rw [← heq, Table.get?_of_mem hx] at hkey
  cases hkey

/-- a worker writes the outcome columns of the releases -/
theorem rollouts_of_worker {w : WorkerId} (h : step cfg s a = some t) (ha : a.worker = some w) :
    t.rollouts = s.rollouts := by
  refine rollouts_congr ?_ ?_
  · rcases deployments_of_worker h ha with he | ⟨job, id, d, release, power, result, row, -, hrow, hput⟩
    · rw [he]
      exact fun _ => rfl
    · have hid : row.id = id := Table.key_of_get? hrow
      rw [← hid] at hrow
      exact desired_put? hput hrow rfl
  · cases a with
    | claimRelease w =>
      obtain ⟨job, id, d, stage, releases, -, -, hclaim, rfl⟩ := claimRelease_ok h
      cases hclaim with
      | first r live row differs queued releases hput =>
        have hkey : r.id = d.desiredReleaseId := Table.key_of_get? row
        rw [← hkey] at row
        exact rollout_put? hput row rfl
      | _ => rfl
    | recordOutcome w =>
      obtain ⟨job, id, d, release, power, result, row, releases, powers, deployments, -, -, hr, -, -,
        rfl⟩ := recordOutcome_ok h
      rcases recordRow_ok hr with ⟨-, rfl⟩ | ⟨r, row', -, hrow, hput⟩
      · rfl
      · have hkey : row'.id = r.id := Table.key_of_get? hrow
        rw [key_release, ← hkey] at hrow
        exact rollout_put? hput hrow rfl
    | claimJob w skipped =>
      obtain ⟨-, j, jobs, -, rfl⟩ := claimJob_ok h
      rfl
    | claimPower w x =>
      obtain ⟨job, id, session, values, release, d, stage, powers, -, -, -, rfl⟩ := claimPower_ok h
      rfl
    | applyRelease w x =>
      obtain ⟨job, id, session, values, release, power, d, text, -, -, rfl⟩ := applyRelease_ok h
      rfl
    | markJob w =>
      obtain ⟨job, id, result, status, error, jobs, -, -, -, -, rfl⟩ := markJob_ok h
      rfl
    | crash w => rw [crash_ok h]
    | _ => cases ha

/-- **of the steps that are not updates only a create rolls anything out** -/
theorem rollouts_of_step (h : step cfg s a = some t) (hu : ∀ c u, a ≠ .update c u) :
    t.rollouts = s.rollouts ∨
      ∃ c r, a = .create c r ∧ s.rollouts.desired r.deploymentId = none ∧
        ¬ s.rollouts.Numbered r.deploymentId 1 ∧
        t.rollouts = s.rollouts.add r.deploymentId 1 r.desiredTemplateId := by
  cases ha : a.worker with
  | some w => exact .inl (rollouts_of_worker h ha)
  | none =>
    cases written_of_step h ha with
    | aside hd hr hj rest =>
      refine .inl (rollouts_congr ?_ ?_)
      · rw [hd]
        exact fun _ => rfl
      · rw [hr]
    | create r ns values hostname isPaid hd hr hj rest action =>
      obtain ⟨c, rfl⟩ := action
      refine .inr ⟨c, r, rfl, ?_, free_of_insert? hr, rollouts_add (Table.get?_insert? hd) hr rfl rfl⟩
      show (s.deployments.get? _).map _ = none
      rw [show s.deployments.get? r.deploymentId = none from Table.get?_of_insert? hd]
      rfl
    | update u d values hostname buildId row settled hd hr hj rest action =>
      obtain ⟨c, rfl⟩ := action
      exact absurd rfl (hu c u)
    | delete d row leaving hd hr hj rest =>
      exact .inl (rollouts_congr (desired_put? hd row rfl) (by rw [hr]))
    | power r d row ready changes hp hd hr hj cluster workers =>
      exact .inl (rollouts_congr (desired_put? hd row rfl) (by rw [hr]))
    | paid n info p sub action fetched status payment named first subscription hd hr hj rest =>
      refine .inl (rollouts_congr ?_ (by rw [hr]))
      intro id
      rw [hd, Option.map_map]
      congr 1
      funext d
      show (d.provisioned sub.id).desiredTemplateId = d.desiredTemplateId
      unfold Deployment.provisioned
      split <;> rfl

/-- **what the commit of an update rolls out** -/
theorem rollouts_of_commit {c : Context} {u : UpdateRequest} {y : Updates.Draft}
    (h : Updates.commitUpdate cfg c s u y = .ok t) :
    (∃ x, s.rollouts.desired u.id = some x) ∧ ¬ s.rollouts.Numbered u.id y.number ∧
      t.rollouts = s.rollouts.add u.id y.number u.desiredTemplateId := by
  simp only [Updates.commitUpdate, bind_eq_ok, found_eq_ok, pure_eq_ok] at h
  obtain ⟨d, hd, deployments, hput, releases, hr, vars, -, jobs, -, rfl⟩ := h
  have hid : d.id = u.id := Table.key_of_get? hd
  refine ⟨⟨d.desiredTemplateId, ?_⟩, free_of_insert? (t := { s with releases := releases }) hr, ?_⟩
  · show (s.deployments.get? u.id).map _ = _
    rw [hd]
    rfl
  · have hrow : ∀ id, deployments.get? id =
        if id = d.id then some (u.deployment d y.values y.hostname) else s.deployments.get? id := by
      intro id
      rw [Table.get?_put? hput]
      show (if id = d.id then _ else _) = _
      split
      · rename_i he
        rw [he, hid, hd]
        rfl
      · rfl
    have hadd := rollouts_add (s := s) (d := u.deployment d y.values y.hostname)
      (t := { s with deployments := deployments, releases := releases }) hrow hr hid.symm rfl
    exact hid ▸ hadd

/-- the template of a create is one of the catalog's -/
theorem createDeployment_template {c : Context} {r : CreateRequest}
    (h : createDeployment cfg c s r = .ok t) : ∃ y, c.templates r.desiredTemplateId = some y := by
  simp only [createDeployment, bind_eq_ok, found_eq_ok] at h
  obtain ⟨user, -, -, -, template, htemplate, -⟩ := h
  exact ⟨template, htemplate⟩

end

namespace Updates

/-! ## Between two statements -/

/-- the product of a template -/
def productOf (templates : TemplateId → Option Template) (x : TemplateId) : Option Nat :=
  (templates x).map Template.productId

section
variable {cfg : Settings} {s t : Store}

/-- what happens beside the updates: nothing is rolled out, or the first release of a deployment of
some template, and no template leaves its product -/
inductive Rolls (s t : Store) : Prop
  | nothing (templates : t.templates = s.templates) (rollouts : t.state.rollouts = s.state.rollouts)
  | creates (id : DeploymentId) (x : TemplateId) (templates : t.templates = s.templates)
      (found : productOf s.templates x ≠ none) (before : s.state.rollouts.desired id = none)
      (free : ¬ s.state.rollouts.Numbered id 1)
      (rollouts : t.state.rollouts = s.state.rollouts.add id 1 x)
  | publishes (rollouts : t.state.rollouts = s.state.rollouts)
      (kept : ∀ x p, productOf s.templates x = some p → productOf t.templates x = some p)

theorem rest_ne_update {templates : TemplateId → Option Template} {a b : Action}
    (h : rest templates a = some b) (c : Context) (u : UpdateRequest) : b ≠ .update c u := by
  rintro rfl
  cases a <;> cases h

/-- a create reads the templates of the catalog -/
theorem rest_create {templates : TemplateId → Option Template} {a : Action} {c : Context}
    {r : CreateRequest} (h : rest templates a = some (.create c r)) : c.templates = templates := by
  cases a with
  | create c' r' =>
    cases h
    rfl
  | _ => cases h

theorem rolls_of_change {w : Change} (h : change cfg s w = some t) :
    t.held = s.held ∧ Rolls s t := by
  cases w with
  | platform a =>
    simp only [change] at h
    split at h
    · cases h
    · obtain ⟨x, hx, rfl⟩ := Option.map_eq_some_iff.mp h
      obtain ⟨b, hb, hstep⟩ := Option.bind_eq_some_iff.mp hx
      refine ⟨rfl, ?_⟩
      rcases rollouts_of_step hstep (rest_ne_update hb) with he | ⟨c, r, rfl, hnone, hfree, he⟩
      · exact .nothing rfl he
      · obtain ⟨y, hy⟩ := createDeployment_template (toOption_eq_some.mp hstep)
        rw [rest_create hb] at hy
        refine .creates r.deploymentId r.desiredTemplateId rfl ?_ hnone hfree he
        rw [productOf, hy]
        exact Option.some_ne_none _
  | template id y =>
    simp only [change] at h
    split at h
    · rename_i hsame
      obtain rfl := Option.some.inj h
      refine ⟨rfl, .publishes rfl fun x p hp => ?_⟩
      by_cases hx : x = id
      · subst hx
        obtain ⟨old, hold, rfl⟩ := Option.map_eq_some_iff.mp hp
        rw [hold, Option.all_some, decide_eq_true_eq] at hsame
        show (Function.update s.templates x (some y) x).map _ = _
        rw [Function.update_self, Option.map_some, hsame]
      · show (Function.update s.templates id (some y) x).map _ = _
        rw [Function.update_of_ne hx]
        exact hp
    · cases h

/-! ## One statement -/

/-- what a statement that writes nothing found -/
def Reads (s : Store) : Base.Call Ret → Prop
  | ⟨.deployment _ id, .ok d⟩ => s.state.deployments.get? id = some d
  | ⟨.template x, y⟩ => y = s.templates x
  | ⟨.nextNumber id, n⟩ => n = nextReleaseNumber s.state.releases id
  | ⟨.guardedUpdate _, passed⟩ => passed = false
  | ⟨.commit _ _ _, _⟩ => False
  | _ => True

/-- the store once the request's transaction has ended -/
def unlocked (s : Store) (id : DeploymentId) : Store := { s with held := s.held.filter (· ≠ id) }

inductive Does (cfg : Settings) (s : Store) : Base.Call Ret → Store → Prop
  | reads {c : Base.Call Ret} (found : Reads s c) : Does cfg s c s
  | locks {u : UpdateRequest} (free : u.id ∉ s.held) (settled : settled s.state u.id = true) :
      Does cfg s ⟨.guardedUpdate u, true⟩ { s with held := u.id :: s.held }
  | rollsBack {c : Context} {u : UpdateRequest} {y : Draft} {e : Refusal} :
      Does cfg s ⟨.commit c u y, .error e⟩ (unlocked s u.id)
  | commits {c : Context} {u : UpdateRequest} {y : Draft} {x : State}
      (written : commitUpdate cfg (reading s.templates c) s.state u y = .ok x) :
      Does cfg s ⟨.commit c u y, .ok ()⟩ { unlocked s u.id with state := x }

/-- **what one statement does** -/
theorem does_of_perform {o : Op} {x : Ret o} (h : perform cfg s o () = some (x, t)) :
    Does cfg s ⟨o, x⟩ t := by
  cases o with
  | deployment userId id =>
    obtain ⟨rfl, rfl⟩ := Prod.mk.inj (Option.some.inj h)
    refine .reads ?_
    cases hd : s.state.owned userId id with
    | error e => trivial
    | ok d =>
      simp only [State.owned, bind_eq_ok, found_eq_ok, require_eq_ok, pure_eq_ok] at hd
      obtain ⟨_, hd, -, -, rfl⟩ := hd
      exact hd
  | guardedUpdate u =>
    simp only [perform] at h
    split at h
    · cases h
    · rename_i hfree
      split at h
      · rename_i hsettled
        cases h
        exact .locks hfree hsettled
      · cases h
        exact .reads rfl
  | commit c u y =>
    simp only [perform] at h
    split at h
    · rename_i x' hx
      cases h
      exact .commits hx
    · cases h
      exact .rollsBack
  | template | nextNumber =>
    obtain ⟨rfl, rfl⟩ := Prod.mk.inj (Option.some.inj h)
    exact .reads rfl
  | _ =>
    obtain ⟨rfl, rfl⟩ := Prod.mk.inj (Option.some.inj h)
    exact .reads trivial

end

/-! ## What an update knows -/

/-- the target was found to be of the product of the template that the deployment had when it was
read -/
def ProductChecked (log : Log Ret) (u : UpdateRequest) (d : Deployment) : Prop :=
  ∃ target current older, Made older (.deployment u.userId u.id) (.ok d) ∧
    (⟨.template d.desiredTemplateId, current⟩ : Base.Call Ret) :: older <:+ log ∧
    Made log (.template u.desiredTemplateId) (some target) ∧ sameProduct target current = true

/-- the request read the deployment first, and found its template not newer than the target -/
def VersionChecked (log : Log Ret) (u : UpdateRequest) : Prop :=
  ∃ pre d, log = pre ++ [⟨.deployment u.userId u.id, .ok d⟩] ∧
    d.desiredTemplateId ≤ u.desiredTemplateId

/-- what the log of a request holds when it locks the row, and when it commits -/
def deed (r : Request) (log : Log Ret) : Op → Prop
  | .guardedUpdate u => u = r.update ∧ VersionChecked log u
  | .commit _ u y => u = r.update ∧ (∃ older, log = ⟨.guardedUpdate u, true⟩ :: older) ∧
      ∃ d, ProductChecked log u d ∧ Made log (.nextNumber d.id) y.number
  | _ => True

def contract (r : Request) : Contract Ret (Except Refusal Unit) := ⟨deed r, fun _ _ => True⟩

section
variable {r : Request} {log : Log Ret} {α β : Type}

theorem meets_orRefuse {Q : Log Ret → β → Prop} {x : Except Refusal α} {f : α → Handler β}
    (hf : ∀ a, x = .ok a → Meets (contract r) Q log (f a)) :
    Meets (contract r) Q log (orRefuse x >>= f) := by
  cases x with
  | ok a => exact hf a rfl
  | error e => exact trivial

/-- **an update keeps to that** -/
theorem meets_handler (r : Request) :
    Meets (contract r) (contract r).answer [] (handler r) := by
  refine Meets.ask trivial fun d => ?_
  refine meets_orRefuse fun d hd => meets_orRefuse fun _ hversion => ?_
  refine Meets.ask trivial fun target => meets_orRefuse fun target htarget => ?_
  refine Meets.ask trivial fun current => meets_orRefuse fun _ hsame => ?_
  refine Meets.ask trivial fun named => meets_orRefuse fun named _ => meets_orRefuse fun _ _ => ?_
  refine Meets.ask trivial fun build => meets_orRefuse fun _ _ => ?_
  refine Meets.ask trivial fun images => meets_orRefuse fun _ _ => ?_
  refine Meets.ask trivial fun buildId => Meets.ask trivial fun number => ?_
  subst hd
  refine Meets.ask ⟨rfl, [_, _, _, _, _, _, _], d, rfl, require_eq_ok.mp hversion⟩ fun passed =>
    meets_orRefuse fun _ hpassed => ?_
  have htarget := found_eq_ok.mp htarget
  subst htarget
  have hsame := require_eq_ok.mp hsame
  have hpassed : passed = true := require_eq_ok.mp hpassed
  subst hpassed
  refine Meets.ask ⟨rfl, ⟨_, rfl⟩, d, ⟨target, current, _, ?_,
    List.suffix_append [_, _, _, _, _, _] _, ?_, hsame⟩, ?_⟩ fun _ => trivial
  · exact (made_head _ _ _).cons _
  · exact (made_head _ _ _).mono (List.suffix_append [_, _, _, _, _, _, _] _)
  · exact (made_head _ _ _).cons _

end

end Updates

end Freepod
