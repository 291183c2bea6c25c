import Freepod.Base.Refuse
import Freepod.Platform.Rows

/-!
# The state of the platform

`State` holds the tables, the clock, the cluster and every worker's turn.  A turn is one pass of
`worker.process_one_job` over the job the worker claimed; its `Stage` is the last commit the turn
got to, with what the worker still holds in memory there.

`Settings` are the platform's settings.  `Context` is what a request reads beside the tables: the
catalog and user rows, and the verdicts of the checks that are modelled elsewhere or not at all.
-/

namespace Freepod
open Base

/-- the rows a worker's session has read since its last commit, which expires them all -/
structure Session where
  deployment : Option Deployment
  release : Option DeploymentRelease
  power : Option DeploymentPower

/-- a session after a commit -/
def Session.expired : Session := ⟨none, none, none⟩

structure ReconcileResult where
  status : DeploymentStatus
  appliedTemplateId : Option TemplateId
  lastError : Option String
  lastReconcileAt : Option Time
  helmRevision : Option Nat

/-- how far a turn got: the job claimed, the release marked as started, the power row marked as
started, the provisioner done and its result at hand, the outcome recorded -/
inductive Stage
  | claimed
  | releaseClaimed (session : Session) (values release : Option ReleaseId)
  | powerClaimed (session : Session) (values release : Option ReleaseId) (power : Option PowerId)
  | applied (deployment : Deployment) (release : Option DeploymentRelease)
      (power : Option DeploymentPower) (result : ReconcileResult)
  | recorded (result : ReconcileResult)

/-- a worker's pass over one job -/
structure Turn where
  job : JobId
  deployment : DeploymentId
  stage : Stage

structure State where
  now : Time
  deployments : Table Deployment
  releases : Table DeploymentRelease
  powers : Table DeploymentPower
  jobs : Table ReconcileJob
  subscriptions : Table Subscription
  payments : Table MolliePayment
  builds : Table Build
  vars : Table DeploymentVar
  releaseVars : List ReleaseVar
  cluster : DeploymentId → Option Rendered
  workers : WorkerId → Option Turn

/-- the platform before the first deployment -/
def State.init : State where
  now := 0
  deployments := .empty
  releases := .empty
  powers := .empty
  jobs := .empty
  subscriptions := .empty
  payments := .empty
  builds := .empty
  vars := .empty
  releaseVars := []
  cluster := fun _ => none
  workers := fun _ => none

structure Settings where
  reconcileJobLease : Time
  registryRetainedPastImages : Nat
  registryPruneGrace : Time
  varKeyIds : List String

structure Template where
  productId : Nat
  isCanonical : Bool
  valuesSchemaJson : Json
  systemValuesJson : Json

structure PlanTemplate where
  productId : Nat
  isCanonical : Bool
  deletedAt : Option Time
  priceCents : Nat

structure User where
  deletedAt : Option Time
  handle : Option String
  tosAccepted : Bool
  isAdmin : Bool

/-- the catalog and user rows a request reads, and the checks of the values it submits -/
structure Context where
  users : UserId → Option User
  templates : TemplateId → Option Template
  planTemplates : Nat → Option PlanTemplate
  /-- `normalize_and_return_hostname` with `require_valid_hostname_for_deployment`: the values
  with the completed name written back, and the name -/
  normalizeHostname : (schema values : Json) → (handle : Option String) →
    (exclude : Option DeploymentId) → Except Refusal (Json × Option String)
  validateUserValues : (values schema : Json) → Except Refusal Unit
  validateArtifactId : String → Except Refusal Unit
  artifactExists : UserId → String → Bool
  checkVarName : String → Except Refusal Unit
  /-- `derive_projections(schema).vars` -/
  varsProjection : (schema : Json) → Option Json
  validateVars : List (String × String) → Option Json → Except Refusal Unit
  /-- the text of the error, when the chart values and the vars do not fit the schema together -/
  validateDocument : Json → List (String × String) → Json → Option String

/-- the refusal of a write that breaks a constraint of the database -/
def constraintViolated : Refusal := .integrity "constraint violated"

/-- `_get_deployment_orm` scoped to an owner -/
def State.owned (s : State) (userId : UserId) (id : DeploymentId) : Except Refusal Deployment := do
  let d ← found (s.deployments.get? id) (.notFound "Deployment not found")
  require (d.userId = userId) (.notFound "Deployment not found")
  pure d

end Freepod
