import Freepod.Base.Pool
import Freepod.Platform.Step

/-!
# Updates, one statement at a time

`update_deployment` reads the deployment, checks the request and numbers the release in statements
of its own, and nothing is locked until the guarded `UPDATE`.  Here it is a program over those
statements, so that other requests, the reconcile workers and the catalog may come between any two.

* `Op`, `perform`: the statements.  The guarded `UPDATE` locks the row until the request commits or
  is rolled back.
* `handler`: the request.
* `Change`: everything else that happens to the platform, and the templates the catalog publishes.
-/

namespace Freepod.Updates
open Base

/-- the tables, the catalog's templates, and the deployments whose rows a transaction has locked -/
structure Store where
  state : State
  templates : TemplateId → Option Template
  held : List DeploymentId

/-- the platform before the first deployment and the first template -/
def Store.init : Store := ⟨.init, fun _ => none, []⟩

/-- an update request, with what else it reads -/
structure Request where
  context : Context
  update : UpdateRequest

/-- what the commit writes beside the request's own fields -/
structure Draft where
  values : Json
  hostname : Option String
  buildId : Option BuildId
  number : Nat

inductive Op
  | deployment (userId : UserId) (id : DeploymentId)
  | template (id : TemplateId)
  /-- the completion of the hostname, which may query the DNS -/
  | hostname (c : Context) (d : Deployment) (schema values : Json)
  | buildReference (id : DeploymentId) (buildId : Option BuildId)
  | retainedImages (d : Deployment) (buildId : Option BuildId) (values : Json)
  | releaseBuild (d : Deployment) (named : Option (Option BuildId)) (values : Json)
  | nextNumber (id : DeploymentId)
  | guardedUpdate (u : UpdateRequest)
  /-- the inserts, and `COMMIT` -/
  | commit (c : Context) (u : UpdateRequest) (x : Draft)

abbrev Ret : Op → Type
  | .deployment _ _ => Except Refusal Deployment
  | .template _ => Option Template
  | .hostname _ _ _ _ => Except Refusal (Json × Option String)
  | .buildReference _ _ => Except Refusal Unit
  | .retainedImages _ _ _ => Except Refusal Unit
  | .releaseBuild _ _ _ => Option BuildId
  | .nextNumber _ => Nat
  | .guardedUpdate _ => Bool
  | .commit _ _ _ => Except Refusal Unit

/-- the status is one that the guard of the `UPDATE` lets through -/
def settled (s : State) (id : DeploymentId) : Bool :=
  (s.deployments.get? id).any fun d => decide (d.status = .ready ∨ d.status = .error)

/-- a context whose templates are the catalog's -/
def reading (templates : TemplateId → Option Template) (c : Context) : Context :=
  { c with templates := templates }

/-- the transaction from the guarded `UPDATE` on, as its commit writes it -/
def commitUpdate (cfg : Settings) (c : Context) (s : State) (u : UpdateRequest) (x : Draft) :
    Except Refusal State := do
  let d ← found (s.deployments.get? u.id) constraintViolated
  let d' := u.deployment d x.values x.hostname
  let deployments ← found (s.deployments.put? d') constraintViolated
  let releases ← found (s.releases.insert?
    (newRelease u.releaseId x.number u.id u.desiredTemplateId x.buildId x.values s.now))
    constraintViolated
  let vars ← writeVars cfg c s.now s.vars d' d.userId u.vars false .integrity
  let jobs ← enqueueJob s.now s.jobs u.id .update
  pure { s with
    deployments := deployments
    releases := releases
    vars := vars
    releaseVars := snapshotRelease vars s.releaseVars u.releaseId u.id
    jobs := jobs }

variable (cfg : Settings)

/-- one statement; the guarded `UPDATE` waits for a row that is locked -/
def perform (s : Store) : (o : Op) → Unit → Option (Ret o × Store)
  | .deployment userId id, _ => some (s.state.owned userId id, s)
  | .template id, _ => some (s.templates id, s)
  | .hostname c d schema values, _ =>
    some (c.normalizeHostname schema values ((c.users d.userId).bind User.handle) (some d.id), s)
  | .buildReference id buildId, _ => some (validateBuildReference s.state (some id) buildId, s)
  | .retainedImages d buildId values, _ =>
    some (validateRetainedImages cfg s.state d.userId buildId values (some d), s)
  | .releaseBuild d named values, _ => some (releaseBuildId s.state d named values, s)
  | .nextNumber id, _ => some (nextReleaseNumber s.state.releases id, s)
  | .guardedUpdate u, _ =>
    if u.id ∈ s.held then none
    else if settled s.state u.id then some (true, { s with held := u.id :: s.held })
    else some (false, s)
  | .commit c u x, _ =>
    let unlocked := { s with held := s.held.filter (· ≠ u.id) }
    match commitUpdate cfg (reading s.templates c) s.state u x with
    | .ok t => some (.ok (), { unlocked with state := t })
    | .error e => some (.error e, unlocked)

/-! ## The request -/

abbrev Handler := Prog Ret (Except Refusal Unit)

namespace Ask

abbrev deployment (userId : UserId) (id : DeploymentId) : Handler (Except Refusal Deployment) :=
  ask (Op.deployment userId id)
abbrev template (id : TemplateId) : Handler (Option Template) := ask (Op.template id)
abbrev hostname (c : Context) (d : Deployment) (schema values : Json) :
    Handler (Except Refusal (Json × Option String)) := ask (Op.hostname c d schema values)
abbrev buildReference (id : DeploymentId) (buildId : Option BuildId) :
    Handler (Except Refusal Unit) := ask (Op.buildReference id buildId)
abbrev retainedImages (d : Deployment) (buildId : Option BuildId) (values : Json) :
    Handler (Except Refusal Unit) := ask (Op.retainedImages d buildId values)
abbrev releaseBuild (d : Deployment) (named : Option (Option BuildId)) (values : Json) :
    Handler (Option BuildId) := ask (Op.releaseBuild d named values)
abbrev nextNumber (id : DeploymentId) : Handler Nat := ask (Op.nextNumber id)
abbrev guardedUpdate (u : UpdateRequest) : Handler Bool := ask (Op.guardedUpdate u)
abbrev commit (c : Context) (u : UpdateRequest) (x : Draft) : Handler (Except Refusal Unit) :=
  ask (Op.commit c u x)

end Ask

/-- an exception ends the request -/
def orRefuse {α : Type} : Except Refusal α → Handler α
  | .ok a => pure a
  | .error e => .exit (.error e)

/-- the target is of the product of the current template, if there is one -/
def sameProduct (target : Template) (current : Option Template) : Bool :=
  current.all fun current => decide (target.productId = current.productId)

/-- `update_deployment` -/
def handler (r : Request) : Handler (Except Refusal Unit) := do
  let u := r.update
  let d ← Ask.deployment u.userId u.id
  let d ← orRefuse d
  orRefuse (require (d.desiredTemplateId ≤ u.desiredTemplateId)
    (.integrity "Can only upgrade to newer versions, not downgrade"))
  let target ← Ask.template u.desiredTemplateId
  let target ← orRefuse (found target (.notFound "Template not found"))
  let current ← Ask.template d.desiredTemplateId
  orRefuse (require (sameProduct target current = true)
    (.integrity "Upgrade template must belong to the same product"))
  let named ← Ask.hostname r.context d target.valuesSchemaJson
    (u.userValuesJson.getD d.userValuesJson)
  let named ← orRefuse named
  orRefuse (r.context.validateUserValues named.1 target.valuesSchemaJson)
  let build ← Ask.buildReference d.id u.buildId.join
  orRefuse build
  let images ← Ask.retainedImages d u.buildId.join named.1
  orRefuse images
  let buildId ← Ask.releaseBuild d u.buildId named.1
  let number ← Ask.nextNumber d.id
  let passed ← Ask.guardedUpdate u
  orRefuse (require (passed = true) (.integrity "Deployment is not in ready state"))
  let committed ← Ask.commit r.context u ⟨named.1, named.2, buildId, number⟩
  pure committed

/-! ## The rest of the platform -/

/-- the action, with the catalog's templates in what it reads; an update is a request of its own -/
def rest (templates : TemplateId → Option Template) : Action → Option Action
  | .update _ _ => none
  | .create c r => some (.create (reading templates c) r)
  | .writeVars c r => some (.writeVars (reading templates c) r)
  | .createBuild c r => some (.createBuild (reading templates c) r)
  | a => some a

/-- the settled deployment whose row the action writes -/
def writes (s : State) : Action → Option DeploymentId
  | .delete _ id => some id
  | .power r => some r.deploymentId
  | .recordOutcome w => (s.workers w).map Turn.deployment
  | _ => none

inductive Change
  | platform (a : Action)
  /-- the catalog publishes a template, or edits one of the product it belongs to -/
  | template (id : TemplateId) (t : Template)

/-- what happens beside the updates; a write to a locked row waits -/
def change (s : Store) : Change → Option Store
  | .platform a =>
    if (writes s.state a).any (fun id => decide (id ∈ s.held)) then none
    else ((rest s.templates a).bind (step cfg s.state)).map fun t => { s with state := t }
  | .template id t =>
    if (s.templates id).all (fun old => decide (old.productId = t.productId)) then
      some { s with templates := Function.update s.templates id (some t) }
    else none

/-- the updates, each statement of which is run at an instant that the run chooses -/
def service : Service Ret Request (Except Refusal Unit) Store Unit Unit Change where
  handler := handler
  perform := perform cfg
  change := change cfg
  clock := fun _ => ()

abbrev UpdatePool := Pool Ret Request (Except Refusal Unit) Store Unit
abbrev UpdateEvent := Event Request Unit Change

end Freepod.Updates
