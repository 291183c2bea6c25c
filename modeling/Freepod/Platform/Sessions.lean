import Freepod.Base.Transaction
import Freepod.Platform.Deployments

/-!
# A create and an update, statement by statement

`create_deployment` and `update_deployment` as the database sees them: the checks, then one
statement after the other, and a single commit at the end.  The pointer to the desired release is
moved before the release is there; its foreign key is checked at the commit.

* `createSession_commits` and `updateSession_commits`: the statements commit what the requests of
  `Platform.Deployments` return, or nothing.
-/

namespace Freepod
open Base

/-- `fk_deployment_desired_release_id` of one deployment, deferred to the commit -/
def desiredReleaseExists (id : DeploymentId) (s : State) : Except Refusal Unit :=
  require (∀ d ∈ s.deployments.get? id, (s.releases.get? d.desiredReleaseId).isSome = true)
    constraintViolated

/-- `session.add` of a release -/
def addRelease (r : State → DeploymentRelease) (s : State) : Except Refusal State := do
  let releases ← found (s.releases.insert? (r s)) constraintViolated
  pure { s with releases := releases }

/-- `_enqueue_reconcile_job` -/
def enqueueReconcileJob (id : DeploymentId) (reason : JobReason) (s : State) :
    Except Refusal State := do
  let jobs ← enqueueJob s.now s.jobs id reason
  pure { s with jobs := jobs }

/-- a write to the vars -/
def onVars {α : Type} (f : Table DeploymentVar → α → Except Refusal (Table DeploymentVar))
    (s : State) (a : α) : Except Refusal State := do
  let vars ← f s.vars a
  pure { s with vars := vars }

/-- the checks of `write_vars`, up to its first insert -/
def planVars (cfg : Settings) (c : Context) (vars : Table DeploymentVar) (d : Deployment)
    (entries : List (String × VarWrite)) (replace : Bool) (documentError : String → Refusal) :
    Except Refusal VarPlan := do
  let current := head vars d.id
  let template ← found (c.templates d.desiredTemplateId) (.notFound "Template not found")
  let projection := c.varsProjection template.valuesSchemaJson
  require (entries.isEmpty ∨ projection.isSome)
    (.validation "vars are not supported on this product template")
  let declared := match projection.bind fun p => p.get? "properties" with
    | some (.obj fields) => fields
    | _ => []
  let plan ← entries.foldlM (planEntry cfg c current declared) ⟨[], []⟩
  let plan ← current.foldlM (planRest cfg replace) plan
  let plaintexts := plan.desired.map fun e => (e.1, e.2.1)
  c.validateVars plaintexts projection
  match c.validateDocument d.userValuesJson plaintexts template.valuesSchemaJson with
  | some message => .error (documentError message)
  | none => do
    checkLimits plan.desired
    pure plan

/-- `write_vars` -/
def writeVarsSession (cfg : Settings) (c : Context) (d : Deployment) (actor : UserId)
    (entries : List (String × VarWrite)) (replace : Bool) (documentError : String → Refusal) :
    Transaction Refusal State Unit := do
  let now ← Transaction.read fun s => .ok s.now
  let current ← Transaction.read fun s => .ok (head s.vars d.id)
  let plan ← Transaction.read fun s => planVars cfg c s.vars d entries replace documentError
  Transaction.writeEach (onVars (insertVar cfg now d.id actor current))
    (plan.desired.insertionSort fun a b => a.1 ≤ b.1)
  Transaction.writeEach (onVars (insertTombstone now d.id actor current))
    (plan.deletions.dedup.insertionSort (· ≤ ·))

/-- what an update has settled on before its first statement -/
structure UpdatePlan where
  deployment : Deployment
  values : Json
  hostname : Option String
  buildId : Option BuildId
  number : Nat

/-- the checks of `update_deployment`, up to its guarded `UPDATE` -/
def checkUpdate (cfg : Settings) (c : Context) (u : UpdateRequest) (s : State) :
    Except Refusal UpdatePlan := do
  let d ← s.owned u.userId u.id
  require (d.desiredTemplateId ≤ u.desiredTemplateId)
    (.integrity "Can only upgrade to newer versions, not downgrade")
  let target ← found (c.templates u.desiredTemplateId) (.notFound "Template not found")
  require (∀ current ∈ c.templates d.desiredTemplateId, target.productId = current.productId)
    (.integrity "Upgrade template must belong to the same product")
  let handle := (c.users d.userId).bind User.handle
  let (values, hostname) ← c.normalizeHostname target.valuesSchemaJson
    (u.userValuesJson.getD d.userValuesJson) handle (some d.id)
  c.validateUserValues values target.valuesSchemaJson
  let named := u.buildId.join
  validateBuildReference s (some d.id) named
  validateRetainedImages cfg s d.userId named values (some d)
  pure
    { deployment := d
      values := values
      hostname := hostname
      buildId := releaseBuildId s d u.buildId values
      number := nextReleaseNumber s.releases d.id }

/-- the guarded `UPDATE` of `update_deployment` -/
def guardedUpdate (u : UpdateRequest) (p : UpdatePlan) (s : State) : Except Refusal State := do
  require (p.deployment.status = .ready ∨ p.deployment.status = .error)
    (.integrity "Deployment is not in ready state")
  let deployments ← found (s.deployments.put? (u.deployment p.deployment p.values p.hostname))
    constraintViolated
  pure { s with deployments := deployments }

/-- `snapshot_release` -/
def addSnapshot (releaseId : ReleaseId) (id : DeploymentId) (s : State) : Except Refusal State :=
  .ok { s with releaseVars := snapshotRelease s.vars s.releaseVars releaseId id }

/-- `update_deployment` -/
def updateSession (cfg : Settings) (c : Context) (u : UpdateRequest) :
    Transaction Refusal State Unit := do
  let p ← Transaction.read (checkUpdate cfg c u)
  let d := u.deployment p.deployment p.values p.hostname
  Transaction.write (guardedUpdate u p)
  Transaction.write (addRelease fun s =>
    newRelease u.releaseId p.number d.id u.desiredTemplateId p.buildId p.values s.now)
  writeVarsSession cfg c d d.userId u.vars false .integrity
  Transaction.write (addSnapshot u.releaseId d.id)
  Transaction.orRollback do
    Transaction.write (enqueueReconcileJob d.id .update)
    Transaction.commit (desiredReleaseExists u.id)

/-- what a create has settled on before its first statement -/
structure CreatePlan where
  values : Json
  hostname : Option String
  price : Nat
  isPaid : Bool

/-- the checks of `create_deployment`, up to the subscription it inserts -/
def checkCreate (cfg : Settings) (c : Context) (r : CreateRequest) (s : State) :
    Except Refusal CreatePlan := do
  let user ← found (c.users r.userId) (.notFound "User not found")
  require (user.deletedAt = none) (.notFound "User not found")
  let template ← found (c.templates r.desiredTemplateId) (.notFound "Template not found")
  require (template.isCanonical = true)
    (.integrity "Template is not the current canonical for this product")
  require (user.handle.isSome = true)
    (.handleRequired "A handle must be claimed before deploying")
  let (values, hostname) ←
    c.normalizeHostname template.valuesSchemaJson r.userValuesJson user.handle none
  c.validateUserValues values template.valuesSchemaJson
  let plan ← validatePlanTemplate c r.planTemplateId template.productId
  require (user.tosAccepted = true)
    (.validation "Terms of Service must be accepted before deploying")
  validateBuildReference s none r.buildId
  validateRetainedImages cfg s r.userId none values none
  pure
    { values := values
      hostname := hostname
      price := plan.priceCents
      isPaid := r.provider.isSome && decide (0 < plan.priceCents) }

/-- `create_subscription`, uncommitted -/
def addSubscription (r : CreateRequest) (isPaid : Bool) (s : State) : Except Refusal State := do
  let subscriptions ← found (s.subscriptions.insert?
    { id := s.subscriptions.nextKey
      userId := r.userId
      planTemplateId := r.planTemplateId
      paymentStatus := if isPaid then .pending else .current
      mollieSubscriptionId := none
      mollieMandateId := none }) constraintViolated
  pure { s with subscriptions := subscriptions }

/-- `session.add` of a deployment -/
def addDeployment (d : State → Deployment) (s : State) : Except Refusal State := do
  let deployments ← found (s.deployments.insert? (d s)) (.integrity "Deployment already exists")
  pure { s with deployments := deployments }

/-- the payment of a paid create, or the job of a free one -/
def addPaymentOrJob (sub : SubscriptionId) (r : CreateRequest) (p : CreatePlan) (s : State) :
    Except Refusal State := do
  let (payments, jobs) ← createPaymentOrJob s sub r.deploymentId p.price r.provider p.isPaid
  pure { s with payments := payments, jobs := jobs }

/-- `create_deployment` -/
def createSession (cfg : Settings) (c : Context) (r : CreateRequest) :
    Transaction Refusal State Unit := do
  let p ← Transaction.read (checkCreate cfg c r)
  let sub ← Transaction.read fun s => .ok s.subscriptions.nextKey
  Transaction.write (addSubscription r p.isPaid)
  let ns ← Transaction.read fun s => allocateNamespace s r.namespaces
  let now ← Transaction.read fun s => .ok s.now
  let d := r.deployment now sub ns p.values p.hostname p.isPaid
  Transaction.write (addDeployment fun _ => d)
  Transaction.write (addRelease fun s =>
    newRelease r.releaseId 1 r.deploymentId r.desiredTemplateId r.buildId p.values s.now)
  Transaction.orRollback do
    writeVarsSession cfg c d r.userId r.vars false .integrity
    Transaction.write (addSnapshot r.releaseId r.deploymentId)
  Transaction.orRollback do
    Transaction.write (addPaymentOrJob sub r p)
    Transaction.commit (desiredReleaseExists r.deploymentId)

/-! ## The statements and the requests -/

theorem foldlM_onVars {α : Type}
    (f : Table DeploymentVar → α → Except Refusal (Table DeploymentVar)) (l : List α) (s : State) :
    l.foldlM (onVars f) s = l.foldlM f s.vars >>= fun vars => pure { s with vars := vars } := by
  induction l generalizing s with
  | nil => rfl
  | cons a l ih =>
    rw [List.foldlM_cons, List.foldlM_cons, onVars]
    cases f s.vars a with
    | ok vars => exact ih { s with vars := vars }
    | error e => rfl

/-- the request writes the vars it has planned -/
theorem writeVars_eq (cfg : Settings) (c : Context) (now : Time) (vars : Table DeploymentVar)
    (d : Deployment) (actor : UserId) (entries : List (String × VarWrite)) (replace : Bool)
    (documentError : String → Refusal) :
    writeVars cfg c now vars d actor entries replace documentError =
      planVars cfg c vars d entries replace documentError >>= fun plan =>
        (plan.desired.insertionSort fun a b => a.1 ≤ b.1).foldlM
            (insertVar cfg now d.id actor (head vars d.id)) vars >>= fun vars' =>
          (plan.deletions.dedup.insertionSort (· ≤ ·)).foldlM
            (insertTombstone now d.id actor (head vars d.id)) vars' := by
  unfold writeVars planVars
  simp only [bind_assoc]
  congr 1
  funext template
  congr 1
  funext _
  congr 1
  funext plan₀
  congr 1
  funext plan
  congr 1
  funext _
  cases c.validateDocument d.userValuesJson (plan.desired.map fun e => (e.1, e.2.1))
    template.valuesSchemaJson with
  | some message => rfl
  | none => simp only [bind_assoc, pure_bind]

theorem writeVarsSession_follows (cfg : Settings) (c : Context) (d : Deployment) (actor : UserId)
    (entries : List (String × VarWrite)) (replace : Bool) (documentError : String → Refusal) :
    (writeVarsSession cfg c d actor entries replace documentError).Follows fun s =>
      writeVars cfg c s.now s.vars d actor entries replace documentError >>= fun vars =>
        pure ((), { s with vars := vars }) := by
  open Transaction in
  refine (follows_bind (follows_read _) fun now => follows_bind (follows_read _) fun current =>
    follows_bind (follows_read _) fun plan => follows_bind (follows_writeEach _ _) fun _ =>
      follows_writeEach _ _).congr fun s => ?_
  rw [writeVars_eq]
  simp only [bind_assoc, pure_bind, ok_bind, foldlM_onVars]

/-- a check that every accepted result passes changes nothing -/
theorem bind_check {σ : Type} {x : Except Refusal σ} {check : σ → Except Refusal Unit}
    (h : ∀ t, x = .ok t → check t = .ok ()) :
    (x >>= fun t => check t >>= fun _ => pure t) = x := by
  cases x with
  | error e => rfl
  | ok t =>
    rw [Transaction.ok_bind, h t rfl]
    rfl

/-- the deferred foreign key holds where an accepted request leaves its release -/
theorem desiredReleaseExists_of_get? {s : State} {id : DeploymentId} {d : Deployment}
    {r : DeploymentRelease} (hd : s.deployments.get? id = some d)
    (hr : s.releases.get? d.desiredReleaseId = some r) : desiredReleaseExists id s = .ok () := by
  refine require_eq_ok.mpr fun x hx => ?_
  rw [hd] at hx
  cases hx
  rw [hr]
  rfl

theorem updateDeployment_pointer {cfg : Settings} {c : Context} {s t : State} {u : UpdateRequest}
    (h : updateDeployment cfg c s u = .ok t) : desiredReleaseExists u.id t = .ok () := by
  obtain ⟨d, values, hostname, buildId, deployments, releases, vars, jobs, hd, -, -, -, -, hput, hr,
    -, rfl⟩ := updateDeployment_ok h
  have hid : d.id = u.id := Table.key_of_get? hd
  have hself : deployments.get? u.id = some (u.deployment d values hostname) :=
    hid ▸ Table.get?_put?_self (a := u.deployment d values hostname) hput (hid ▸ hd)
  exact desiredReleaseExists_of_get? hself (Table.get?_insert?_self hr)

theorem createDeployment_pointer {cfg : Settings} {c : Context} {s t : State} {r : CreateRequest}
    (h : createDeployment cfg c s r = .ok t) : desiredReleaseExists r.deploymentId t = .ok () := by
  obtain ⟨values, hostname, ns, isPaid, subscriptions, deployments, releases, vars, price, payments,
    jobs, -, -, hd, hr, -, rfl⟩ := createDeployment_ok h
  exact desiredReleaseExists_of_get? (Table.get?_insert?_self hd) (Table.get?_insert?_self hr)

/-- the statements of an update, in one go -/
theorem updateDeployment_eq (cfg : Settings) (c : Context) (u : UpdateRequest) (s : State) :
    updateDeployment cfg c s u = checkUpdate cfg c u s >>= fun p =>
      guardedUpdate u p s >>= fun s₁ =>
      addRelease (fun s => newRelease u.releaseId p.number p.deployment.id u.desiredTemplateId
        p.buildId p.values s.now) s₁ >>= fun s₂ =>
      writeVars cfg c s₂.now s₂.vars (u.deployment p.deployment p.values p.hostname)
        p.deployment.userId u.vars false .integrity >>= fun vars =>
      addSnapshot u.releaseId p.deployment.id { s₂ with vars := vars } >>= fun s₃ =>
      enqueueReconcileJob p.deployment.id .update s₃ := by
  simp only [updateDeployment, checkUpdate, guardedUpdate, addRelease, addSnapshot,
    enqueueReconcileJob, bind_assoc, pure_bind, Transaction.ok_bind]

/-- **the statements of an update commit what the request returns, or nothing** -/
theorem updateSession_commits (cfg : Settings) (c : Context) (u : UpdateRequest) :
    (updateSession cfg c u).Commits fun s => updateDeployment cfg c s u := by
  open Transaction in
  refine (commits_bind (follows_read _) fun p => commits_bind (follows_write _) fun _ =>
    commits_bind (follows_write _) fun _ =>
      commits_bind (writeVarsSession_follows cfg c _ _ _ _ _) fun _ =>
        commits_bind (follows_write _) fun _ =>
          (commits_bind (follows_write _) fun _ => commits_commit _).orRollback).congr fun s => ?_
  rw [← bind_check fun t => updateDeployment_pointer, updateDeployment_eq]
  simp only [bind_assoc, pure_bind]
  rfl

/-- the statements of a create, in one go -/
theorem createDeployment_eq (cfg : Settings) (c : Context) (r : CreateRequest) (s : State) :
    createDeployment cfg c s r = checkCreate cfg c r s >>= fun p =>
      addSubscription r p.isPaid s >>= fun s₁ =>
      allocateNamespace s₁ r.namespaces >>= fun ns =>
      addDeployment (fun _ => r.deployment s₁.now s.subscriptions.nextKey ns p.values p.hostname
        p.isPaid) s₁ >>= fun s₂ =>
      addRelease (fun s => newRelease r.releaseId 1 r.deploymentId r.desiredTemplateId r.buildId
        p.values s.now) s₂ >>= fun s₃ =>
      writeVars cfg c s₃.now s₃.vars (r.deployment s₁.now s.subscriptions.nextKey ns p.values
        p.hostname p.isPaid) r.userId r.vars false .integrity >>= fun vars =>
      addSnapshot r.releaseId r.deploymentId { s₃ with vars := vars } >>= fun s₄ =>
      addPaymentOrJob s.subscriptions.nextKey r p s₄ := by
  simp only [createDeployment, checkCreate, addSubscription, addDeployment, addRelease, addSnapshot,
    addPaymentOrJob, bind_assoc, pure_bind, Transaction.ok_bind]
  rfl

/-- **the statements of a create commit what the request returns, or nothing** -/
theorem createSession_commits (cfg : Settings) (c : Context) (r : CreateRequest) :
    (createSession cfg c r).Commits fun s => createDeployment cfg c s r := by
  open Transaction in
  refine (commits_bind (follows_read _) fun p => commits_bind (follows_read _) fun sub =>
    commits_bind (follows_write _) fun _ => commits_bind (follows_read _) fun ns =>
      commits_bind (follows_read _) fun now => commits_bind (follows_write _) fun _ =>
        commits_bind (follows_write _) fun _ =>
          commits_bind (follows_bind (writeVarsSession_follows cfg c _ _ _ _ _) fun _ =>
            follows_write _).orRollback fun _ =>
          (commits_bind (follows_write _) fun _ => commits_commit _).orRollback).congr fun s => ?_
  rw [← bind_check fun t => createDeployment_pointer, createDeployment_eq]
  simp only [bind_assoc, pure_bind, Transaction.ok_bind]

end Freepod
