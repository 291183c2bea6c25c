import Freepod.Base.Table
import Freepod.Values.Json

/-!
# The platform's rows

The tables the API, the reconciler and the build worker write, with the columns they read or
write (`models/core.py`, `models/billing.py`, `models/build.py`).  Identifiers are numbers,
timestamps are whole ticks of one clock, and an encrypted value is its plaintext tagged with the
fingerprint of the encrypting key.

`State` is the database together with what the reconciler changes outside it: the cluster, and
the turn each worker is in (`Platform.Reconcile`).
-/

namespace Freepod
open Base

abbrev Time := Nat
abbrev UserId := Nat
abbrev DeploymentId := Nat
abbrev ReleaseId := Nat
abbrev PowerId := Nat
abbrev JobId := Nat
abbrev BuildId := Nat
abbrev SubscriptionId := Nat
abbrev TemplateId := Nat
abbrev VarId := Nat
abbrev WorkerId := String

inductive DeploymentStatus
  | pending | provisioning | ready | deleting | deleted | error
  deriving DecidableEq, Repr

def DeploymentStatus.text : DeploymentStatus → String
  | pending => "pending"
  | provisioning => "provisioning"
  | ready => "ready"
  | deleting => "deleting"
  | deleted => "deleted"
  | error => "error"

inductive JobStatus
  | queued | running | done | failed
  deriving DecidableEq, Repr

inductive JobReason
  | create | update | delete | power
  deriving DecidableEq, Repr

inductive PowerState
  | running | stopped
  deriving DecidableEq, Repr

inductive PowerReason
  | manual | payment
  deriving DecidableEq, Repr

inductive PaymentStatus
  | pending | current | arrears
  deriving DecidableEq, Repr

inductive MolliePaymentStatus
  | «open» | pending | authorized | paid | canceled | expired | failed
  deriving DecidableEq, Repr

inductive SequenceType
  | first | recurring
  deriving DecidableEq, Repr

inductive BuildStatus
  | queued | running | succeeded | failed | canceled
  deriving DecidableEq, Repr

structure Deployment where
  id : DeploymentId
  userId : UserId
  subscriptionId : SubscriptionId
  name : String
  ns : String
  hostname : Option String
  status : DeploymentStatus
  desiredTemplateId : TemplateId
  appliedTemplateId : Option TemplateId
  desiredReleaseId : ReleaseId
  appliedReleaseId : Option ReleaseId
  desiredPowerId : Option PowerId
  appliedPowerId : Option PowerId
  userValuesJson : Json
  generation : Nat
  lastError : Option String
  lastReconcileAt : Option Time
  createdAt : Time
  deletedAt : Option Time

/-- one rollout of a deployment; the last four columns are the reconciler's -/
structure DeploymentRelease where
  id : ReleaseId
  number : Nat
  deploymentId : DeploymentId
  templateId : TemplateId
  buildId : Option BuildId
  valuesJson : Json
  createdAt : Time
  startedAt : Option Time
  endedAt : Option Time
  error : Option String
  helmRevision : Option Nat

/-- one requested power change; the last three columns are the reconciler's -/
structure DeploymentPower where
  id : PowerId
  deploymentId : DeploymentId
  state : PowerState
  reason : PowerReason
  actorUserId : Option UserId
  createdAt : Time
  startedAt : Option Time
  endedAt : Option Time
  error : Option String

structure ReconcileJob where
  id : JobId
  deploymentId : DeploymentId
  reason : JobReason
  status : JobStatus
  runAfter : Time
  attempt : Nat
  lockedBy : Option WorkerId
  lockedAt : Option Time
  lastError : Option String
  updatedAt : Time

/-- an identifier Mollie minted; never empty -/
structure MollieId where
  text : String
  nonempty : text ≠ ""
  deriving DecidableEq

structure Subscription where
  id : SubscriptionId
  userId : UserId
  planTemplateId : Nat
  paymentStatus : PaymentStatus
  mollieSubscriptionId : Option MollieId
  mollieMandateId : Option String

structure MolliePayment where
  id : Nat
  subscriptionId : SubscriptionId
  molliePaymentId : String
  status : MolliePaymentStatus
  sequenceType : SequenceType
  amountCents : Nat
  payload : Json

structure Build where
  id : BuildId
  deploymentId : DeploymentId
  artifactId : String
  status : BuildStatus
  createdAt : Time
  startedAt : Option Time
  finishedAt : Option Time
  jobId : Option String
  image : Option String

/-- a Fernet token: the plaintext under the key with this fingerprint -/
structure Sealed where
  keyId : String
  plaintext : String
  deriving DecidableEq, Repr

/-- one entry of the append-only var history; a row without a value is a tombstone -/
structure DeploymentVar where
  id : VarId
  deploymentId : DeploymentId
  key : String
  value : Option Sealed
  sensitive : Bool
  createdBy : UserId
  createdAt : Time

structure ReleaseVar where
  releaseId : ReleaseId
  varId : VarId
  deriving DecidableEq, Repr

/-- the entries of a deployment in its unique indexes, `uq_deployment_namespace` and
`uq_hostname_active` -/
inductive DeploymentEntry
  | ns (name : String)
  | hostname (name : String)
  deriving DecidableEq

def Deployment.entries (d : Deployment) : List DeploymentEntry :=
  .ns d.ns ::
    if d.status = .deleted then [] else (d.hostname.map DeploymentEntry.hostname).toList

/-- the statuses of the partial index `uq_open_reconcile_job_per_deployment` -/
def JobStatus.isOpen : JobStatus → Bool
  | queued | running => true
  | _ => false

/-- `BUILD_STATUSES_OPEN`, the statuses of the partial index on `build.artifact_id` -/
def BuildStatus.isOpen : BuildStatus → Bool
  | queued | running => true
  | _ => false

instance : Row Deployment DeploymentId DeploymentEntry := ⟨Deployment.id, Deployment.entries⟩
instance : Row DeploymentRelease ReleaseId (DeploymentId × Nat) :=
  ⟨DeploymentRelease.id, fun r => [(r.deploymentId, r.number)]⟩
instance : Row DeploymentPower PowerId Unit := ⟨DeploymentPower.id, fun _ => []⟩
instance : Row ReconcileJob JobId DeploymentId :=
  ⟨ReconcileJob.id, fun j => if j.status.isOpen then [j.deploymentId] else []⟩
instance : Row Subscription SubscriptionId Unit := ⟨Subscription.id, fun _ => []⟩
instance : Row MolliePayment Nat String :=
  ⟨MolliePayment.id, fun p => [p.molliePaymentId]⟩
instance : Row Build BuildId String :=
  ⟨Build.id, fun b => if b.status.isOpen then [b.artifactId] else []⟩
instance : Row DeploymentVar VarId Unit := ⟨DeploymentVar.id, fun _ => []⟩

@[simp] theorem key_deployment (d : Deployment) : Row.key d = d.id := rfl
@[simp] theorem key_release (r : DeploymentRelease) : Row.key r = r.id := rfl
@[simp] theorem key_power (p : DeploymentPower) : Row.key p = p.id := rfl
@[simp] theorem key_job (j : ReconcileJob) : Row.key j = j.id := rfl
@[simp] theorem key_subscription (s : Subscription) : Row.key s = s.id := rfl
@[simp] theorem key_payment (p : MolliePayment) : Row.key p = p.id := rfl
@[simp] theorem key_build (b : Build) : Row.key b = b.id := rfl
@[simp] theorem key_var (v : DeploymentVar) : Row.key v = v.id := rfl

/-- what a Helm release renders: the workloads as the chart has them, or all of them stopped -/
inductive Render
  | normal | stopped
  deriving DecidableEq, Repr

/-- the release a deployment's Helm release was last upgraded to, and how -/
structure Rendered where
  releaseId : ReleaseId
  templateId : TemplateId
  values : Json
  render : Render

/-- every exception a request ends in, with the text the caller sees -/
inductive Refusal
  | notFound (message : String)
  | integrity (message : String)
  | validation (message : String)
  | handleRequired (message : String)
  | imageNotRetained (message : String)
  | hostname (reason : String)
  | inProgress (message : String)
  | conflict (message : String) (code : String)
  | varEncryption (message : String)
  | provider (message : String)
  | invalid (message : String)
  deriving DecidableEq, Repr

end Freepod
