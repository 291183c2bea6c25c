import Freepod.Runs.Requests
import Freepod.Runs.Workers

/-!
# What every step keeps

No step removes a row, and no step revises what a request wrote of a release, a power row or a
job: `kept_of_step`.  The outcome columns are the reconciler's and may change.
-/

namespace Freepod
open Base

/-- a release without the columns the reconciler writes -/
def DeploymentRelease.intent (r : DeploymentRelease) : DeploymentRelease :=
  { r with startedAt := none, endedAt := none, error := none, helmRevision := none }

/-- a power row without the columns the reconciler writes -/
def DeploymentPower.intent (p : DeploymentPower) : DeploymentPower :=
  { p with startedAt := none, endedAt := none, error := none }

theorem DeploymentRelease.of_intent {r r' : DeploymentRelease} (h : r'.intent = r.intent) :
    r'.number = r.number ∧ r'.deploymentId = r.deploymentId ∧ r'.templateId = r.templateId ∧
      r'.valuesJson = r.valuesJson := by
  simp only [DeploymentRelease.intent, DeploymentRelease.mk.injEq] at h
  exact ⟨h.2.1, h.2.2.1, h.2.2.2.1, h.2.2.2.2.2.1⟩

theorem DeploymentPower.of_intent {p p' : DeploymentPower} (h : p'.intent = p.intent) :
    p'.deploymentId = p.deploymentId ∧ p'.state = p.state := by
  simp only [DeploymentPower.intent, DeploymentPower.mk.injEq] at h
  exact ⟨h.2.1, h.2.2.1⟩

/-- every row of `s` is still in `t`, with what its request wrote -/
structure Kept (s t : State) : Prop where
  deployments : ∀ id d, s.deployments.get? id = some d →
    ∃ d', t.deployments.get? id = some d' ∧ d'.userId = d.userId ∧
      d'.subscriptionId = d.subscriptionId
  releases : ∀ id r, s.releases.get? id = some r →
    ∃ r', t.releases.get? id = some r' ∧ r'.intent = r.intent
  powers : ∀ id p, s.powers.get? id = some p →
    ∃ p', t.powers.get? id = some p' ∧ p'.intent = p.intent
  jobs : ∀ id j, s.jobs.get? id = some j →
    ∃ j', t.jobs.get? id = some j' ∧ j'.deploymentId = j.deploymentId

section
variable {α κ ι : Type} [Row α κ ι] [DecidableEq κ] [DecidableEq ι] {t t' : Table α} {a : α}

/-- an overwritten row still has what the new one shares with it -/
theorem get?_put?_cases (h : t.put? a = some t') {k : κ} {r : α} (hr : t.get? k = some r) :
    t'.get? k = some (if k = Row.key a then a else r) := by
  rw [Table.get?_put? h, hr]
  split <;> rfl

/-- a row after an overwrite is the new one, or was there under another key -/
theorem get?_of_put? (h : t.put? a = some t') {k : κ} {r : α} (hr : t'.get? k = some r) :
    (k = Row.key a ∧ r = a) ∨ (k ≠ Row.key a ∧ t.get? k = some r) := by
  rw [Table.get?_put? h] at hr
  by_cases hk : k = Row.key a
  · rw [if_pos hk] at hr
    cases hg : t.get? k with
    | none =>
      rw [hg] at hr
      cases hr
    | some x =>
      rw [hg] at hr
      cases hr
      exact .inl ⟨hk, rfl⟩
  · rw [if_neg hk] at hr
    exact .inr ⟨hk, hr⟩

/-- a row after an insert is the new one, or was there -/
theorem get?_of_insert (h : t.insert? a = some t') {k : κ} {r : α} (hr : t'.get? k = some r) :
    (k = Row.key a ∧ r = a) ∨ (k ≠ Row.key a ∧ t.get? k = some r) := by
  rw [Table.get?_insert? h] at hr
  by_cases hk : k = Row.key a
  · rw [if_pos hk] at hr
    cases hr
    exact .inl ⟨hk, rfl⟩
  · rw [if_neg hk] at hr
    exact .inr ⟨hk, hr⟩

end

theorem Enqueued.get? {jobs jobs' : Table ReconcileJob} {ids : DeploymentId → Prop}
    (h : Enqueued jobs jobs' ids) {id : JobId} {j : ReconcileJob} (hj : jobs.get? id = some j) :
    jobs'.get? id = some j := by
  have := Table.get?_of_mem (h.kept j (Table.mem_of_get? hj))
  rwa [show Row.key j = id from Table.key_of_get? hj] at this

variable {cfg : Settings} {s t : State} {a : Action}

theorem Kept.of_written (h : Written a s t) : Kept s t := by
  have same : ∀ {α κ ι : Type} [Row α κ ι] [DecidableEq κ] {x y : Table α} (f : α → α), y = x →
      ∀ id r, x.get? id = some r → ∃ r', y.get? id = some r' ∧ f r' = f r := by
    rintro α κ ι _ _ x _ f rfl id r hr
    exact ⟨r, hr, rfl⟩
  have jobs : ∀ {ids : DeploymentId → Prop}, Enqueued s.jobs t.jobs ids →
      ∀ id j, s.jobs.get? id = some j →
        ∃ j', t.jobs.get? id = some j' ∧ j'.deploymentId = j.deploymentId :=
    fun he id j hj => ⟨j, he.get? hj, rfl⟩
  have inserted : ∀ {r : DeploymentRelease}, s.releases.insert? r = some t.releases →
      ∀ id x, s.releases.get? id = some x →
        ∃ x', t.releases.get? id = some x' ∧ x'.intent = x.intent :=
    fun hi id x hx => ⟨x, Table.get?_insert?_of_get? hi hx, rfl⟩
  cases h with
  | aside hd hr hj rest =>
    exact ⟨fun id d h => ⟨d, hd ▸ h, rfl, rfl⟩, same _ hr, same _ rest.powers,
      fun id j h => ⟨j, hj ▸ h, rfl⟩⟩
  | create r ns values hostname isPaid hd hr hj rest =>
    refine ⟨fun id d h => ⟨d, Table.get?_insert?_of_get? hd h, rfl, rfl⟩, inserted hr,
      same _ rest.powers, ?_⟩
    rcases hj with ⟨-, hj⟩ | ⟨-, hj⟩
    · exact fun id j h => ⟨j, hj ▸ h, rfl⟩
    · exact jobs hj
  | update u d values hostname buildId row settled hd hr hj rest =>
    refine ⟨fun id x h => ⟨_, get?_put?_cases hd h, ?_⟩, inserted hr, same _ rest.powers, jobs hj⟩
    split
    · rename_i hid
      have hu : d.id = u.id := Table.key_of_get? row
      rw [show id = u.id from hid.trans hu, row] at h
      cases h
      exact ⟨rfl, rfl⟩
    · exact ⟨rfl, rfl⟩
  | delete d row leaving hd hr hj rest =>
    refine ⟨fun id x h => ⟨_, get?_put?_cases hd h, ?_⟩, same _ hr, same _ rest.powers, jobs hj⟩
    split
    · rename_i hid
      rw [show id = d.id from hid, row] at h
      cases h
      exact ⟨rfl, rfl⟩
    · exact ⟨rfl, rfl⟩
  | power r d row ready changes hp hd hr hj cluster workers =>
    refine ⟨fun id x h => ⟨_, get?_put?_cases hd h, ?_⟩, same _ hr,
      fun id p h => ⟨p, Table.get?_insert?_of_get? hp h, rfl⟩, jobs hj⟩
    split
    · rename_i hid
      rw [show id = d.id from hid, row] at h
      cases h
      exact ⟨rfl, rfl⟩
    · exact ⟨rfl, rfl⟩
  | paid n info p sub action fetched status payment named first subscription hd hr hj rest =>
    refine ⟨fun id d h => ⟨d.provisioned sub.id, by rw [hd, h]; rfl, ?_⟩, same _ hr,
      same _ rest.powers, ?_⟩
    · unfold Deployment.provisioned
      split
      · exact ⟨rfl, rfl⟩
      · exact ⟨rfl, rfl⟩
    · rcases hj with ⟨-, hj⟩ | ⟨-, hj⟩
      · exact jobs hj
      · exact fun id j h => ⟨j, hj ▸ h, rfl⟩

theorem intent_recordRelease (now : Time) (result : ReconcileResult) (r row : DeploymentRelease) :
    (recordRelease now result r row).intent = row.intent := rfl

theorem intent_recordPower (now : Time) (result : ReconcileResult) (p row : DeploymentPower) :
    (recordPower now result p row).intent = row.intent := rfl

/-- a recorded outcome overwrites one row of the table -/
theorem recordRow_ok {α κ ι : Type} [Row α κ ι] [DecidableEq κ] [DecidableEq ι] {t t' : Table α}
    {read : Option α} {outcome : α → α → α} (h : recordRow t read outcome = some t') :
    read = none ∧ t' = t ∨
      ∃ r row, read = some r ∧ t.get? (Row.key r) = some row ∧
        t.put? (outcome r row) = some t' := by
  unfold recordRow at h
  cases read with
  | none =>
    cases h
    exact .inl ⟨rfl, rfl⟩
  | some r =>
    obtain ⟨row, hrow, hput⟩ := Option.bind_eq_some_iff.mp h
    exact .inr ⟨r, row, rfl, hrow, hput⟩

/-- a table with one outcome recorded keeps every row with what `f` sees of it -/
theorem recordRow_kept {α β κ ι : Type} [Row α κ ι] [DecidableEq κ] [DecidableEq ι]
    {t t' : Table α} {read : Option α} {outcome : α → α → α} (f : α → β)
    (hf : ∀ r row, f (outcome r row) = f row) (hk : ∀ r row : α, Row.key (outcome r row) = Row.key row)
    (h : recordRow t read outcome = some t') (k : κ) (x : α) (hx : t.get? k = some x) :
    ∃ x', t'.get? k = some x' ∧ f x' = f x := by
  rcases recordRow_ok h with ⟨-, rfl⟩ | ⟨r, row, -, hrow, hput⟩
  · exact ⟨x, hx, rfl⟩
  · refine ⟨_, get?_put?_cases hput hx, ?_⟩
    split
    · rename_i hkey
      have : k = Row.key row := hkey.trans (hk r row)
      rw [this, Table.get?_of_mem (Table.mem_of_get? hrow)] at hx
      cases hx
      exact hf r x
    · rfl

/-- a table with one row overwritten by one with the same image under `f` keeps the images -/
theorem put?_kept {α β κ ι : Type} [Row α κ ι] [DecidableEq κ] [DecidableEq ι] {t t' : Table α}
    {a r : α} (f : α → β) (h : t.put? a = some t') (hr : r ∈ t.rows)
    (hk : Row.key a = Row.key r) (hf : f a = f r) (k : κ) (x : α) (hx : t.get? k = some x) :
    ∃ x', t'.get? k = some x' ∧ f x' = f x := by
  refine ⟨_, get?_put?_cases h hx, ?_⟩
  split
  · rename_i hka
    rw [hka, hk, Table.get?_of_mem hr] at hx
    cases hx
    exact hf
  · rfl

theorem refl_kept {α β κ ι : Type} [Row α κ ι] [DecidableEq κ] (f : α → β) (t : Table α) (k : κ)
    (x : α) (hx : t.get? k = some x) : ∃ x', t.get? k = some x' ∧ f x' = f x :=
  ⟨x, hx, rfl⟩

/-- the columns of a deployment no step of the model rewrites -/
theorem deployments_refl_kept (t : Table Deployment) (id : DeploymentId) (d : Deployment)
    (h : t.get? id = some d) :
    ∃ d', t.get? id = some d' ∧ d'.userId = d.userId ∧ d'.subscriptionId = d.subscriptionId :=
  ⟨d, h, rfl, rfl⟩

theorem completeJob_kept {now : Time} {jobs jobs' : Table ReconcileJob} {id : JobId}
    {status : JobStatus} {error : Option String} {w : WorkerId}
    (h : completeJob now jobs id status error w = some jobs') (k : JobId) (j : ReconcileJob)
    (hj : jobs.get? k = some j) :
    ∃ j', jobs'.get? k = some j' ∧ j'.deploymentId = j.deploymentId := by
  obtain ⟨x, hx, ⟨-, hput⟩ | ⟨-, rfl⟩⟩ := completeJob_ok h
  · exact put?_kept ReconcileJob.deploymentId hput (Table.mem_of_get? hx) rfl rfl k j hj
  · exact ⟨j, hj, rfl⟩

/-- **no step removes a row or revises what its request wrote** -/
theorem kept_of_step (h : step cfg s a = some t) : Kept s t := by
  cases ha : a.worker with
  | none => exact .of_written (written_of_step h ha)
  | some w =>
    cases a with
    | claimJob w skipped =>
      obtain ⟨-, j, jobs, hc, rfl⟩ := claimJob_ok h
      obtain ⟨hm, -, -, hput⟩ := claimNextJob_ok hc
      exact ⟨deployments_refl_kept _, refl_kept _ _, refl_kept _ _,
        put?_kept _ hput hm rfl rfl⟩
    | claimRelease w =>
      obtain ⟨job, id, d, stage, releases, -, -, hclaim, rfl⟩ := claimRelease_ok h
      refine ⟨deployments_refl_kept _, ?_, refl_kept _ _, refl_kept _ _⟩
      cases hclaim with
      | first r live row differs queued releases hput =>
        exact put?_kept _ hput (Table.mem_of_get? row) rfl rfl
      | _ => exact refl_kept _ _
    | claimPower w x =>
      obtain ⟨job, id, session, values, release, d, stage, powers, -, -, hclaim, rfl⟩ :=
        claimPower_ok h
      refine ⟨deployments_refl_kept _, refl_kept _ _, ?_, refl_kept _ _⟩
      cases hclaim with
      | first p row differs found queued powers hput =>
        exact put?_kept _ hput (Table.mem_of_get? found) rfl rfl
      | _ => exact refl_kept _ _
    | applyRelease w x =>
      obtain ⟨job, id, session, values, release, power, d, text, -, -, rfl⟩ := applyRelease_ok h
      exact ⟨deployments_refl_kept _, refl_kept _ _, refl_kept _ _, refl_kept _ _⟩
    | recordOutcome w =>
      obtain ⟨job, id, d, release, power, result, row, releases, powers, deployments, -, hrow, hr, hp,
        hput, rfl⟩ := recordOutcome_ok h
      refine ⟨?_, recordRow_kept _ (intent_recordRelease _ _) (fun _ _ => rfl) hr,
        recordRow_kept _ (intent_recordPower _ _) (fun _ _ => rfl) hp, refl_kept _ _⟩
      intro k x hx
      obtain ⟨x', hx', he⟩ := put?_kept (fun d => (d.userId, d.subscriptionId)) hput
        (Table.mem_of_get? hrow) rfl rfl k x hx
      rw [Prod.mk.injEq] at he
      exact ⟨x', hx', he⟩
    | markJob w =>
      obtain ⟨job, id, result, status, error, jobs, -, -, -, hj, rfl⟩ := markJob_ok h
      exact ⟨deployments_refl_kept _, refl_kept _ _, refl_kept _ _, completeJob_kept hj⟩
    | crash w =>
      rw [crash_ok h]
      exact ⟨deployments_refl_kept _, refl_kept _ _, refl_kept _ _, refl_kept _ _⟩
    | _ => cases ha

end Freepod
