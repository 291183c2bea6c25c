import Freepod.Platform.Jobs
import Freepod.Platform.Retention
import Freepod.Platform.Vars

/-!
# Creating, updating and deleting a deployment

`services/deployments.py`.  Each request is one transaction: it checks, then writes the deployment
with its release, its vars and the reconcile job together, or refuses and writes nothing.

* `createDeployment_ok`, `updateDeployment_ok` and `deleteDeployment_ok` say what an accepted
  request checked and wrote.
-/

namespace Freepod
open Base

/-- `_validate_build_reference` -/
def validateBuildReference (s : State) (deploymentId : Option DeploymentId)
    (buildId : Option BuildId) : Except Refusal Unit :=
  match buildId with
  | none => .ok ()
  | some id =>
    match s.builds.get? id with
    | none => .error (.validation "Unknown build")
    | some b => require (deploymentId = some b.deploymentId) (.validation "Unknown build")

/-- the owner's images in the desired and the applied release of the deployment, if there is one -/
def deploymentImages (s : State) (owner : UserId) : Option Deployment → List String
  | none => []
  | some d =>
    ((s.releases.get? d.desiredReleaseId).toList ++
      (d.appliedReleaseId.bind s.releases.get?).toList).flatMap fun r =>
        ownerImages owner r.valuesJson

/-- the owner's images a write references, and those it need not ask retention for -/
def referencedImages (cfg : Settings) (s : State) (owner : UserId) (build : Option Build)
    (values : Json) (d : Option Deployment) : List String × List String :=
  let referenced := ownerImages owner values
  let current := deploymentImages s owner d
  match build.bind fun b => b.imageText.map fun image => (b, image) with
  | none => (referenced, current)
  | some (b, image) =>
    if b.isFresh (graceStart cfg s.now) then (referenced, image :: current)
    else (image :: referenced, current)

/-- `referenced - current` -/
def unknownImages (cfg : Settings) (s : State) (owner : UserId) (build : Option Build)
    (values : Json) (d : Option Deployment) : List String :=
  let images := referencedImages cfg s owner build values d
  images.1.filter fun i => i ∉ images.2

/-- `_validate_retained_images` -/
def validateRetainedImages (cfg : Settings) (s : State) (owner : UserId)
    (buildId : Option BuildId) (values : Json) (d : Option Deployment) : Except Refusal Unit :=
  let build := buildId.bind s.builds.get?
  let unknown := unknownImages cfg s owner build values d
  if unknown.isEmpty then .ok ()
  else
    let retention := ownerRetention cfg s owner
    let buildImage := build.bind Build.image
    if buildImage.any fun i => decide (i ∈ unknown) && !retention.retains i then
      .error (.imageNotRetained
        "That build's image is no longer kept; rebuild the project to deploy it")
    else if unknown.any fun i => !retention.retains i then
      .error (.imageNotRetained
        "An image in these values is no longer kept; rebuild the project to deploy it")
    else .ok ()

/-- `_release_build_id`; `named` is the request's build, absent or given -/
def releaseBuildId (s : State) (d : Deployment) (named : Option (Option BuildId))
    (values : Json) : Option BuildId :=
  match named with
  | some buildId => buildId
  | none =>
    match ((d.appliedReleaseId.bind s.releases.get?).bind DeploymentRelease.buildId).bind
        s.builds.get? with
    | none => none
    | some b =>
      match b.imageText with
      | none => none
      | some image => if image ∈ strings values then some b.id else none

/-- `_next_release_number` -/
def nextReleaseNumber (releases : Table DeploymentRelease) (id : DeploymentId) : Nat :=
  ((releases.rows.filter fun r => r.deploymentId = id).map DeploymentRelease.number).foldr max 0 + 1

/-- `_validate_plan_template` -/
def validatePlanTemplate (c : Context) (id productId : Nat) : Except Refusal PlanTemplate := do
  let missing : Refusal :=
    .validation ("Plan template version " ++ toString id ++ " not found or deleted")
  let plan ← found (c.planTemplates id) missing
  require (plan.deletedAt = none) missing
  require (plan.productId = productId)
    (.validation "Plan template does not belong to this product")
  require (plan.isCanonical = true)
    (.validation "Plan template is not the current canonical version for its plan")
  pure plan

def namespaceAttempts : Nat := 5

/-- `_allocate_namespace` over the names the generator returns -/
def allocateNamespace (s : State) (candidates : List String) : Except Refusal String :=
  found ((candidates.take namespaceAttempts).find? fun ns =>
      s.deployments.rows.all fun d => decide (d.ns ≠ ns))
    (.invalid "could not allocate a free deployment namespace in 5 attempts")

/-- a create request, with the identifiers and names it mints and the payment provider's answer:
none without a provider, else the first payment's id or the exception -/
structure CreateRequest where
  userId : UserId
  planTemplateId : Nat
  desiredTemplateId : TemplateId
  userValuesJson : Json
  buildId : Option BuildId
  vars : List (String × VarWrite)
  deploymentId : DeploymentId
  releaseId : ReleaseId
  name : String
  namespaces : List String
  provider : Option (Except String String)

/-- the deployment a create inserts -/
def CreateRequest.deployment (r : CreateRequest) (now : Time) (sub : SubscriptionId) (ns : String)
    (values : Json) (hostname : Option String) (isPaid : Bool) : Deployment where
  id := r.deploymentId
  userId := r.userId
  subscriptionId := sub
  name := r.name
  ns := ns
  hostname := hostname
  status := if isPaid then .pending else .provisioning
  desiredTemplateId := r.desiredTemplateId
  appliedTemplateId := none
  desiredReleaseId := r.releaseId
  appliedReleaseId := none
  desiredPowerId := none
  appliedPowerId := none
  userValuesJson := values
  generation := 1
  lastError := none
  lastReconcileAt := none
  createdAt := now
  deletedAt := none

/-- a release as a request inserts it -/
def newRelease (id : ReleaseId) (number : Nat) (deploymentId : DeploymentId)
    (templateId : TemplateId) (buildId : Option BuildId) (values : Json) (now : Time) :
    DeploymentRelease where
  id := id
  number := number
  deploymentId := deploymentId
  templateId := templateId
  buildId := buildId
  valuesJson := values
  createdAt := now
  startedAt := none
  endedAt := none
  error := none
  helmRevision := none

/-- the payment a paid create records, or the reconcile job a free one enqueues -/
def createPaymentOrJob (s : State) (sub : SubscriptionId) (deploymentId : DeploymentId)
    (price : Nat) (provider : Option (Except String String)) (isPaid : Bool) :
    Except Refusal (Table MolliePayment × Table ReconcileJob) :=
  if isPaid then
    match provider with
    | some (.ok paymentId) => do
      let payments ← found (s.payments.insert?
        { id := s.payments.nextKey
          subscriptionId := sub
          molliePaymentId := paymentId
          status := .open
          sequenceType := .first
          amountCents := price
          payload := .null }) (.integrity "Deployment already exists")
      pure (payments, s.jobs)
    | some (.error message) => .error (.provider message)
    | none => .ok (s.payments, s.jobs)
  else do
    let jobs ← enqueueJob s.now s.jobs deploymentId .create
    pure (s.payments, jobs)

/-- `create_deployment` -/
def createDeployment (cfg : Settings) (c : Context) (s : State) (r : CreateRequest) :
    Except Refusal State := do
  let user ← found (c.users r.userId) (.notFound "User not found")
  require (user.deletedAt = none) (.notFound "User not found")
  let template ← found (c.templates r.desiredTemplateId) (.notFound "Template not found")
  require (template.isCanonical = true)
    (.integrity "Template is not the current canonical for this product")
  require (user.handle.isSome = true)
    (.handleRequired "A handle must be claimed before deploying")
  let (values, hostname) ←
    c.normalizeHostname template.valuesSchemaJson r.userValuesJson user.handle none
  c.validateUserValues values template.valuesSchemaJson
  let plan ← validatePlanTemplate c r.planTemplateId template.productId
  require (user.tosAccepted = true)
    (.validation "Terms of Service must be accepted before deploying")
  validateBuildReference s none r.buildId
  validateRetainedImages cfg s r.userId none values none
  let isPaid := r.provider.isSome && decide (0 < plan.priceCents)
  let sub := s.subscriptions.nextKey
  let subscriptions ← found (s.subscriptions.insert?
    { id := sub
      userId := r.userId
      planTemplateId := r.planTemplateId
      paymentStatus := if isPaid then .pending else .current
      mollieSubscriptionId := none
      mollieMandateId := none }) constraintViolated
  let ns ← allocateNamespace s r.namespaces
  let d := r.deployment s.now sub ns values hostname isPaid
  let deployments ← found (s.deployments.insert? d) (.integrity "Deployment already exists")
  let releases ← found (s.releases.insert?
    (newRelease r.releaseId 1 r.deploymentId r.desiredTemplateId r.buildId values s.now))
    constraintViolated
  let vars ← writeVars cfg c s.now s.vars d r.userId r.vars false .integrity
  let (payments, jobs) ←
    createPaymentOrJob s sub r.deploymentId plan.priceCents r.provider isPaid
  pure { s with
    subscriptions := subscriptions
    deployments := deployments
    releases := releases
    vars := vars
    releaseVars := snapshotRelease vars s.releaseVars r.releaseId r.deploymentId
    payments := payments
    jobs := jobs }

/-- an update request with the release id it mints; `buildId` is absent or given -/
structure UpdateRequest where
  id : DeploymentId
  userId : UserId
  desiredTemplateId : TemplateId
  userValuesJson : Option Json
  buildId : Option (Option BuildId)
  vars : List (String × VarWrite)
  releaseId : ReleaseId

/-- the guarded `UPDATE` of an update request -/
def UpdateRequest.deployment (u : UpdateRequest) (d : Deployment) (values : Json)
    (hostname : Option String) : Deployment :=
  { d with
    desiredTemplateId := u.desiredTemplateId
    userValuesJson := values
    hostname := hostname
    status := .provisioning
    desiredReleaseId := u.releaseId
    generation := d.generation + 1
    lastError := none }

/-- `update_deployment` -/
def updateDeployment (cfg : Settings) (c : Context) (s : State) (u : UpdateRequest) :
    Except Refusal State := do
  let d ← s.owned u.userId u.id
  require (d.desiredTemplateId ≤ u.desiredTemplateId)
    (.integrity "Can only upgrade to newer versions, not downgrade")
  let target ← found (c.templates u.desiredTemplateId) (.notFound "Template not found")
  require (∀ current ∈ c.templates d.desiredTemplateId, target.productId = current.productId)
    (.integrity "Upgrade template must belong to the same product")
  let handle := (c.users d.userId).bind User.handle
  let (values, hostname) ← c.normalizeHostname target.valuesSchemaJson
    (u.userValuesJson.getD d.userValuesJson) handle (some d.id)
  c.validateUserValues values target.valuesSchemaJson
  let named := u.buildId.join
  validateBuildReference s (some d.id) named
  validateRetainedImages cfg s d.userId named values (some d)
  let buildId := releaseBuildId s d u.buildId values
  let number := nextReleaseNumber s.releases d.id
  require (d.status = .ready ∨ d.status = .error)
    (.integrity "Deployment is not in ready state")
  let d' := u.deployment d values hostname
  let deployments ← found (s.deployments.put? d') constraintViolated
  let releases ← found (s.releases.insert?
    (newRelease u.releaseId number d.id u.desiredTemplateId buildId values s.now))
    constraintViolated
  let vars ← writeVars cfg c s.now s.vars d' d.userId u.vars false .integrity
  let jobs ← enqueueJob s.now s.jobs d.id .update
  pure { s with
    deployments := deployments
    releases := releases
    vars := vars
    releaseVars := snapshotRelease vars s.releaseVars u.releaseId d.id
    jobs := jobs }

/-- the row a delete request writes -/
def Deployment.markDeleting (d : Deployment) (now : Time) : Deployment :=
  { d with
    status := .deleting
    generation := d.generation + 1
    lastError := none
    deletedAt := some now }

/-- `delete_deployment` -/
def deleteDeployment (s : State) (userId : UserId) (id : DeploymentId) : Except Refusal State := do
  let d ← s.owned userId id
  if d.status = .deleting ∨ d.status = .deleted then pure s
  else do
    let deployments ← found (s.deployments.put? (d.markDeleting s.now)) constraintViolated
    let jobs ← enqueueJob s.now s.jobs d.id .delete
    pure { s with deployments := deployments, jobs := jobs }

/-! ## What an accepted request checked and wrote -/

/-- a paid create enqueues nothing, a free one records no payment -/
theorem createPaymentOrJob_ok {s : State} {sub : SubscriptionId} {id : DeploymentId} {price : Nat}
    {provider : Option (Except String String)} {isPaid : Bool}
    {r : Table MolliePayment × Table ReconcileJob}
    (h : createPaymentOrJob s sub id price provider isPaid = .ok r) :
    isPaid = true ∧ r.2 = s.jobs ∧
        (r.1 = s.payments ∨ ∃ p : MolliePayment, s.payments.insert? p = some r.1 ∧
          p.subscriptionId = sub ∧ p.status = .open ∧ p.sequenceType = .first) ∨
      isPaid = false ∧ r.1 = s.payments ∧ enqueueJob s.now s.jobs id .create = .ok r.2 := by
  unfold createPaymentOrJob at h
  cases isPaid with
  | true =>
    refine .inl ⟨rfl, ?_⟩
    simp only [if_true] at h
    cases provider with
    | none =>
      cases h
      exact ⟨rfl, .inl rfl⟩
    | some answer =>
      cases answer with
      | error message => cases h
      | ok paymentId =>
        simp only [bind_eq_ok, found_eq_ok, pure_eq_ok] at h
        obtain ⟨payments, hp, rfl⟩ := h
        exact ⟨rfl, .inr ⟨_, hp, rfl, rfl, rfl⟩⟩
  | false =>
    simp only [Bool.false_eq_true, if_false, bind_eq_ok, pure_eq_ok] at h
    obtain ⟨jobs, hj, rfl⟩ := h
    exact .inr ⟨rfl, rfl, hj⟩

/-- **an accepted create inserts a subscription, the deployment, its first release, and a payment
or a job** -/
theorem createDeployment_ok {cfg : Settings} {c : Context} {s t : State} {r : CreateRequest}
    (h : createDeployment cfg c s r = .ok t) :
    ∃ values hostname ns isPaid subscriptions deployments releases vars price payments jobs,
      validateRetainedImages cfg s r.userId none values none = .ok () ∧
      s.subscriptions.insert?
        { id := s.subscriptions.nextKey
          userId := r.userId
          planTemplateId := r.planTemplateId
          paymentStatus := if isPaid = true then .pending else .current
          mollieSubscriptionId := none
          mollieMandateId := none } = some subscriptions ∧
      s.deployments.insert?
        (r.deployment s.now s.subscriptions.nextKey ns values hostname isPaid) =
          some deployments ∧
      s.releases.insert?
        (newRelease r.releaseId 1 r.deploymentId r.desiredTemplateId r.buildId values s.now) =
          some releases ∧
      createPaymentOrJob s s.subscriptions.nextKey r.deploymentId price r.provider isPaid =
        .ok (payments, jobs) ∧
      t = { s with
        subscriptions := subscriptions
        deployments := deployments
        releases := releases
        vars := vars
        releaseVars := snapshotRelease vars s.releaseVars r.releaseId r.deploymentId
        payments := payments
        jobs := jobs } := by
  simp only [createDeployment, bind_eq_ok, require_eq_ok, found_eq_ok, pure_eq_ok] at h
  obtain ⟨user, -, -, -, template, -, -, -, -, -, ⟨values, hostname⟩, -, -, -, plan, -, -, -, -, -,
    _, himages, subscriptions, hsub, ns, -, deployments, hd, releases, hr, vars, -,
    ⟨payments, jobs⟩, hpj, rfl⟩ := h
  exact ⟨values, hostname, ns, _, subscriptions, deployments, releases, vars, plan.priceCents,
    payments, jobs, himages, hsub, hd, hr, hpj, rfl⟩

/-- **an accepted update moves a settled deployment to a new release and enqueues its job** -/
theorem updateDeployment_ok {cfg : Settings} {c : Context} {s t : State} {u : UpdateRequest}
    (h : updateDeployment cfg c s u = .ok t) :
    ∃ d values hostname buildId deployments releases vars jobs,
      s.deployments.get? u.id = some d ∧ d.userId = u.userId ∧
      (d.status = .ready ∨ d.status = .error) ∧
      validateBuildReference s (some d.id) u.buildId.join = .ok () ∧
      validateRetainedImages cfg s d.userId u.buildId.join values (some d) = .ok () ∧
      s.deployments.put? (u.deployment d values hostname) = some deployments ∧
      s.releases.insert?
        (newRelease u.releaseId (nextReleaseNumber s.releases d.id) d.id u.desiredTemplateId
          buildId values s.now) = some releases ∧
      enqueueJob s.now s.jobs d.id .update = .ok jobs ∧
      t = { s with
        deployments := deployments
        releases := releases
        vars := vars
        releaseVars := snapshotRelease vars s.releaseVars u.releaseId d.id
        jobs := jobs } := by
  simp only [updateDeployment, State.owned, bind_eq_ok, require_eq_ok, found_eq_ok,
    pure_eq_ok] at h
  obtain ⟨d, ⟨_, hd, -, howner, rfl⟩, -, -, target, -, -, -, ⟨values, hostname⟩, -, -, -, _, hbuild,
    _, himages, -, hstatus, deployments, hput, releases, hr, vars, -, jobs, hj, rfl⟩ := h
  exact ⟨_, values, hostname, _, deployments, releases, vars, jobs, hd, howner, hstatus, hbuild,
    himages, hput, hr, hj, rfl⟩

/-- the values an update of the deployment submits, with the hostname completed -/
def UpdateRequest.normalized (u : UpdateRequest) (c : Context) (d : Deployment) : Option Json :=
  (c.templates u.desiredTemplateId).bind fun target =>
    ((c.normalizeHostname target.valuesSchemaJson (u.userValuesJson.getD d.userValuesJson)
      ((c.users d.userId).bind User.handle) (some d.id)).toOption).map Prod.fst

/-- an accepted update checked the images of the values it writes -/
theorem updateDeployment_images {cfg : Settings} {c : Context} {s t : State} {u : UpdateRequest}
    (h : updateDeployment cfg c s u = .ok t) :
    ∃ d values, s.deployments.get? u.id = some d ∧ u.normalized c d = some values ∧
      validateBuildReference s (some d.id) u.buildId.join = .ok () ∧
      validateRetainedImages cfg s d.userId u.buildId.join values (some d) = .ok () ∧
      (t.deployments.get? u.id).map Deployment.userValuesJson = some values := by
  simp only [updateDeployment, State.owned, bind_eq_ok, require_eq_ok, found_eq_ok,
    pure_eq_ok] at h
  obtain ⟨d, ⟨x, hd, -, -, hx⟩, -, -, target, htarget, -, -, ⟨values, hostname⟩, hnorm, -, -, _, hbuild,
    _, himages, -, -, deployments, hput, releases, -, vars, -, jobs, -, rfl⟩ := h
  subst hx
  refine ⟨x, values, hd, ?_, hbuild, himages, ?_⟩
  · rw [UpdateRequest.normalized, htarget, Option.bind_some, hnorm]
    rfl
  · have hid : x.id = u.id := Table.key_of_get? hd
    have hself : deployments.get? u.id = some (u.deployment x values hostname) :=
      hid ▸ Table.get?_put?_self (a := u.deployment x values hostname) hput (hid ▸ hd)
    show (deployments.get? u.id).map Deployment.userValuesJson = some values
    rw [hself]
    rfl

/-- **an accepted delete finds the deployment on its way out, or marks it and enqueues its job** -/
theorem deleteDeployment_ok {s t : State} {userId : UserId} {id : DeploymentId}
    (h : deleteDeployment s userId id = .ok t) :
    ∃ d, s.deployments.get? id = some d ∧ d.userId = userId ∧
      ((d.status = .deleting ∨ d.status = .deleted) ∧ t = s ∨
        ¬ (d.status = .deleting ∨ d.status = .deleted) ∧
        ∃ deployments jobs,
          s.deployments.put? (d.markDeleting s.now) = some deployments ∧
          enqueueJob s.now s.jobs d.id .delete = .ok jobs ∧
          t = { s with deployments := deployments, jobs := jobs }) := by
  simp only [deleteDeployment, State.owned, bind_eq_ok, require_eq_ok, found_eq_ok,
    pure_eq_ok] at h
  obtain ⟨d, ⟨_, hd, -, howner, rfl⟩, h⟩ := h
  refine ⟨_, hd, howner, ?_⟩
  split at h
  · rename_i hout
    rw [pure_eq_ok] at h
    exact .inl ⟨hout, h.symm⟩
  · rename_i hin
    simp only [bind_eq_ok, found_eq_ok, pure_eq_ok] at h
    obtain ⟨deployments, hput, jobs, hj, rfl⟩ := h
    exact .inr ⟨hin, deployments, jobs, hput, hj, rfl⟩

/-- a create writes vars of the new deployment alone -/
theorem createDeployment_vars {cfg : Settings} {c : Context} {s t : State} {r : CreateRequest}
    (h : createDeployment cfg c s r = .ok t) : VarsAppended s.vars t.vars r.deploymentId := by
  simp only [createDeployment, bind_eq_ok, require_eq_ok, found_eq_ok, pure_eq_ok] at h
  obtain ⟨user, -, -, -, template, -, -, -, -, -, ⟨values, hostname⟩, -, -, -, plan, -, -, -, -, -,
    _, -, subscriptions, -, ns, -, deployments, -, releases, -, vars, hv, -, -, rfl⟩ := h
  exact writeVars_rows hv

/-- an update writes vars of its deployment alone -/
theorem updateDeployment_vars {cfg : Settings} {c : Context} {s t : State} {u : UpdateRequest}
    (h : updateDeployment cfg c s u = .ok t) : VarsAppended s.vars t.vars u.id := by
  simp only [updateDeployment, State.owned, bind_eq_ok, require_eq_ok, found_eq_ok,
    pure_eq_ok] at h
  obtain ⟨d, ⟨x, hd, -, -, hx⟩, -, -, target, -, -, -, ⟨values, hostname⟩, -, -, -, _, -, _, -, -, -,
    deployments, -, releases, -, vars, hv, jobs, -, rfl⟩ := h
  have hid : d.id = u.id := hx ▸ Table.key_of_get? hd
  have hrows := writeVars_rows hv
  have hown : VarsAppended s.vars vars d.id := hrows
  exact hid ▸ hown

/-- a write to the vars of a deployment finds it neither deleted nor on its way out -/
theorem writeVarsRequest_ok {cfg : Settings} {c : Context} {s t : State} {r : VarsRequest}
    (h : writeVarsRequest cfg c s r = .ok t) :
    ∃ d vars, s.deployments.get? r.deploymentId = some d ∧ d.status ≠ .deleted ∧
      d.status ≠ .deleting ∧ VarsAppended s.vars vars r.deploymentId ∧
      t = { s with vars := vars } := by
  simp only [writeVarsRequest, readableDeployment, assertWritable, bind_eq_ok, require_eq_ok,
    found_eq_ok, pure_eq_ok] at h
  obtain ⟨-, -, d, ⟨_, hd, -, -, -, hdel, rfl⟩, -, hleave, vars, hv, rfl⟩ := h
  have hid : Deployment.id _ = r.deploymentId := Table.key_of_get? hd
  exact ⟨_, vars, hd, hdel, hleave, hid ▸ writeVars_rows hv, rfl⟩

end Freepod
