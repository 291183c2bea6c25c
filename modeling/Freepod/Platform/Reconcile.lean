import Freepod.Platform.Jobs
import Freepod.Platform.Power

/-!
# The reconcile worker

One pass of `worker.process_one_job` with `DeploymentReconciler.reconcile`, cut at its commits:
the claim of the job, the claim of the release, the claim of the power row, the provisioner's
work, the commit of the outcome, and the completion of the job.  A worker may crash, or sit past
its lease, between any two of them.

A commit expires the rows a session has read, so what a later step reads is what the tables hold
then.  The final commit writes the columns whose value differs from the one that was read
(`flush`), and no others.

The provisioner is an oracle: `Effects.raises` names the calls that raise and with what text.  A
Helm upgrade that raises has rolled back.
-/

namespace Freepod
open Base

/-- the calls of a reconcile that may raise, in the order it makes them -/
inductive Call
  | validateInputState
  | validateUserValues
  | ensureNamespace
  | ensureTenantNetworkPolicies
  | ensureObjectStorage
  | ensureDatabase
  | ensureVarsSecret
  | ensureRegistryPullSecret
  | ensureOidcSecret
  | buildMergedValues
  | helmUpgradeInstall
  | sweepStoppedWorkloads
  | teardownObjectStorage
  | teardownDatabase
  | helmUninstall
  | deleteNamespace
  deriving DecidableEq, Repr

/-- what the world answers one reconcile: the exceptions, Helm's revision, and the lines of the
failed release's output the log store returns -/
structure Effects where
  raises : Call → Option String
  revision : Option Nat
  entries : Option (List String)

/-- the text of the first exception among these calls -/
def Effects.firstRaise (x : Effects) (calls : List Call) : Option String :=
  calls.findSome? x.raises

/-- the calls between the checks of the deployment's own row and Helm -/
def callsBeforeHelm : List Call :=
  [.validateUserValues, .ensureNamespace, .ensureTenantNetworkPolicies, .ensureObjectStorage,
    .ensureDatabase, .ensureVarsSecret, .ensureRegistryPullSecret, .ensureOidcSecret,
    .buildMergedValues]

/-- `_with_release_output` -/
def withReleaseOutput (message : String) (number : Nat) (entries : Option (List String)) :
    String :=
  match entries with
  | none => message
  | some [] => message
  | some lines =>
    message ++ "\n\nApplication output (release " ++ toString number ++ ", last " ++
      toString lines.length ++ " lines):\n" ++ String.intercalate "\n" lines

/-- `_validate_input_state` -/
def validateInputState (x : Effects) (d : Deployment) : Option String :=
  if d.status = .pending then
    some "Deployment is awaiting payment and cannot be reconciled"
  else if d.name = "" then some "Deployment is missing name"
  else if d.ns = "" then some "Deployment is missing namespace"
  else x.raises .validateInputState

/-- the result of a reconcile that raised -/
def failure (now : Time) (d : Deployment) (error : String) : ReconcileResult where
  status := .error
  appliedTemplateId := d.appliedTemplateId
  lastError := some error
  lastReconcileAt := some now
  helmRevision := none

/-- what Helm renders for the deployment, with the release whose identity it carries -/
def renderDeployment (powers : Table DeploymentPower) (d : Deployment) (values : ReleaseId) :
    Rendered where
  releaseId := values
  templateId := d.desiredTemplateId
  values := d.userValuesJson
  render := if powerState powers d.desiredPowerId = .stopped then .stopped else .normal

/-- the end of `_reconcile_apply`, once Helm has upgraded to `rendered`: the sweep of a stopped
deployment's workloads, and the result.  Reaping superseded Secrets catches its own failures -/
def finishApply (now : Time) (x : Effects) (d : Deployment) (rendered : Rendered) :
    Option Rendered × Except String ReconcileResult :=
  match if rendered.render = .stopped then x.raises .sweepStoppedWorkloads else none with
  | some e => (some rendered, .error e)
  | none =>
    (some rendered, .ok
      { status := .ready
        appliedTemplateId := some d.desiredTemplateId
        lastError := none
        lastReconcileAt := some now
        helmRevision := x.revision })

/-- `_reconcile_apply`: what the cluster holds afterwards, and the result or the exception -/
def reconcileApply (now : Time) (x : Effects) (powers : Table DeploymentPower)
    (cluster : Option Rendered) (d : Deployment) (values : ReleaseId) :
    Option Rendered × Except String ReconcileResult :=
  match x.firstRaise callsBeforeHelm with
  | some e => (cluster, .error e)
  | none =>
    match x.raises .helmUpgradeInstall with
    | some e => (cluster, .error e)
    | none => finishApply now x d (renderDeployment powers d values)

/-- `_reconcile_delete` -/
def reconcileDelete (now : Time) (x : Effects) (cluster : Option Rendered) (d : Deployment) :
    Option Rendered × Except String ReconcileResult :=
  match x.firstRaise [.teardownObjectStorage, .teardownDatabase] with
  | some e => (cluster, .error e)
  | none =>
    match x.raises .helmUninstall with
    | some e => (cluster, .error e)
    | none =>
      match x.raises .deleteNamespace with
      | some e => (none, .error e)
      | none =>
        (none, .ok
          { status := .deleted
            appliedTemplateId := d.appliedTemplateId
            lastError := none
            lastReconcileAt := some now
            helmRevision := none })

/-- the work between the claims and the final commit: the checks, then the delete or the apply.
`values` is the release the claims settled on; none on the delete path -/
def provision (now : Time) (x : Effects) (powers : Table DeploymentPower)
    (cluster : Option Rendered) (d : Deployment) (values : Option ReleaseId) :
    Option Rendered × Except String ReconcileResult :=
  match validateInputState x d with
  | some e => (cluster, .error e)
  | none =>
    match d.deletedAt, values with
    | some _, _ => reconcileDelete now x cluster d
    | none, none => (cluster, .error "")
    | none, some values => reconcileApply now x powers cluster d values

/-- the text of a failure, with the output of whatever booted when there is any to fetch -/
def failureText (x : Effects) (error : String) (values release : Option DeploymentRelease)
    (power : Option DeploymentPower) : String :=
  let started := match release with
    | some r => r.startedAt
    | none => power.bind DeploymentPower.startedAt
  match values, started with
  | some r, some _ => withReleaseOutput error r.number x.entries
  | _, _ => error

/-- the result a reconcile ends with, whether it returned or raised -/
def reconcileResult (now : Time) (d : Deployment) (text : String → String) :
    Except String ReconcileResult → ReconcileResult
  | .ok result => result
  | .error e => failure now d (text e)

/-! ## The steps of a turn -/

/-- the row a session sees: the one it read since its last commit, or the table's -/
def readRow {α κ ι : Type} [Row α κ ι] [DecidableEq κ] (cached : Option α) (t : Table α) (k : κ) :
    Option α :=
  match cached with
  | some a => some a
  | none => t.get? k

def State.setTurn (s : State) (w : WorkerId) (turn : Option Turn) : State :=
  { s with workers := Function.update s.workers w turn }

def State.setStage (s : State) (w : WorkerId) (turn : Turn) (stage : Stage) : State :=
  s.setTurn w (some { turn with stage := stage })

/-- `claim_next_job` by an idle worker -/
def claimJob (cfg : Settings) (s : State) (w : WorkerId) (skipped : List JobId) : Option State :=
  match s.workers w with
  | some _ => none
  | none => do
    let (j, jobs) ← claimNextJob cfg s.now s.jobs w skipped
    pure ({ s with jobs := jobs }.setTurn w (some ⟨j.id, j.deploymentId, .claimed⟩))

/-- the load of the deployment and of its desired release, and `_claim_release` -/
def claimRelease (s : State) (w : WorkerId) : Option State :=
  match s.workers w with
  | some ⟨job, id, .claimed⟩ => do
    let turn : Turn := ⟨job, id, .claimed⟩
    let d ← s.deployments.get? id
    if d.deletedAt.isSome then
      pure (s.setStage w turn (.releaseClaimed ⟨some d, none, none⟩ none none))
    else
      match s.releases.get? d.desiredReleaseId with
      | none =>
        pure (s.setStage w turn
          (.applied d none none (failure s.now d "Deployment's desired release is missing")))
      | some r =>
        if d.appliedReleaseId = some r.id then
          pure (s.setStage w turn (.releaseClaimed ⟨some d, some r, none⟩ (some r.id) none))
        else if r.startedAt = none then do
          let releases ← s.releases.put? { r with startedAt := some s.now }
          pure ({ s with releases := releases }.setStage w turn
            (.releaseClaimed .expired (some r.id) (some r.id)))
        else
          pure (s.setStage w turn (.releaseClaimed ⟨some d, some r, none⟩ (some r.id) (some r.id)))
  | _ => none

/-- the power row a turn has to change to: desired, and not applied yet -/
def Deployment.powerToClaim (d : Deployment) : Option PowerId :=
  if d.desiredPowerId = d.appliedPowerId then none else d.desiredPowerId

/-- `_claim_power` -/
def claimPower (s : State) (w : WorkerId) (x : Effects) : Option State :=
  match s.workers w with
  | some ⟨job, id, .releaseClaimed session values release⟩ => do
    let turn : Turn := ⟨job, id, .claimed⟩
    let d ← readRow session.deployment s.deployments id
    match (if values.isSome then d.powerToClaim else none) with
    | none =>
      pure (s.setStage w turn
        (.powerClaimed { session with deployment := some d } values release none))
    | some p =>
      match s.powers.get? p with
      | none =>
        let valuesRow := values.bind fun r => readRow session.release s.releases r
        let row := release.bind fun r => readRow session.release s.releases r
        pure (s.setStage w turn (.applied d row none
          (failure s.now d
            (failureText x "Deployment's desired power is missing" valuesRow row none))))
      | some row =>
        if row.startedAt = none then do
          let powers ← s.powers.put? { row with startedAt := some s.now }
          pure ({ s with powers := powers }.setStage w turn
            (.powerClaimed .expired values release (some p)))
        else
          pure (s.setStage w turn
            (.powerClaimed { session with deployment := some d, power := some row } values release
              (some p)))
  | _ => none

/-- the provisioner's work, on the rows as the session sees them -/
def applyRelease (s : State) (w : WorkerId) (x : Effects) : Option State :=
  match s.workers w with
  | some ⟨job, id, .powerClaimed session values release power⟩ => do
    let turn : Turn := ⟨job, id, .claimed⟩
    let d ← readRow session.deployment s.deployments id
    let valuesRow := values.bind fun r => readRow session.release s.releases r
    let releaseRow := release.bind fun r => readRow session.release s.releases r
    let powerRow := power.bind fun p => readRow session.power s.powers p
    let done := provision s.now x s.powers (s.cluster id) d values
    let result :=
      reconcileResult s.now d (fun e => failureText x e valuesRow releaseRow powerRow) done.2
    pure ({ s with cluster := Function.update s.cluster id done.1 }.setStage w turn
      (.applied d releaseRow powerRow result))
  | _ => none

/-- what the final commit leaves in a column: a value that is not the one that was read -/
def flush {α : Type} [DecidableEq α] (read new row : α) : α :=
  if new = read then row else new

/-- `_record_release_outcome` as it reaches the row -/
def recordRelease (now : Time) (result : ReconcileResult) (read row : DeploymentRelease) :
    DeploymentRelease :=
  { row with
    endedAt := flush read.endedAt (some (result.lastReconcileAt.getD now)) row.endedAt
    error := flush read.error result.lastError row.error
    helmRevision := flush read.helmRevision result.helmRevision row.helmRevision }

/-- the power row's outcome as it reaches the row -/
def recordPower (now : Time) (result : ReconcileResult) (read row : DeploymentPower) :
    DeploymentPower :=
  { row with
    endedAt := flush read.endedAt (some (result.lastReconcileAt.getD now)) row.endedAt
    error := flush read.error result.lastError row.error }

/-- the deployment's columns of the final commit as they reach the row -/
def recordDeployment (result : ReconcileResult) (release : Option ReleaseId)
    (power : Option PowerId) (read row : Deployment) : Deployment :=
  { row with
    status := flush read.status result.status row.status
    appliedTemplateId := flush read.appliedTemplateId result.appliedTemplateId
      row.appliedTemplateId
    lastError := flush read.lastError result.lastError row.lastError
    lastReconcileAt := flush read.lastReconcileAt result.lastReconcileAt row.lastReconcileAt
    appliedReleaseId :=
      if release.isSome ∧ result.status = .ready then
        flush read.appliedReleaseId release row.appliedReleaseId
      else row.appliedReleaseId
    appliedPowerId :=
      if power.isSome ∧ result.status = .ready then
        flush read.appliedPowerId power row.appliedPowerId
      else row.appliedPowerId
    desiredPowerId :=
      if power.isSome ∧ result.status ≠ .ready then
        flush read.desiredPowerId read.appliedPowerId row.desiredPowerId
      else row.desiredPowerId }

/-- the row of a table after the outcome of the row that was read, when there is one -/
def recordRow {α κ ι : Type} [Row α κ ι] [DecidableEq κ] [DecidableEq ι] (t : Table α)
    (read : Option α) (outcome : α → α → α) : Option (Table α) :=
  match read with
  | none => some t
  | some r => do
    let row ← t.get? (Row.key r)
    t.put? (outcome r row)

/-- the final commit of `reconcile` -/
def recordOutcome (s : State) (w : WorkerId) : Option State :=
  match s.workers w with
  | some ⟨job, id, .applied d release power result⟩ => do
    let turn : Turn := ⟨job, id, .claimed⟩
    let row ← s.deployments.get? id
    let releases ← recordRow s.releases release (recordRelease s.now result)
    let powers ← recordRow s.powers power (recordPower s.now result)
    let deployments ← s.deployments.put?
      (recordDeployment result (release.map DeploymentRelease.id) (power.map DeploymentPower.id)
        d row)
    pure ({ s with releases := releases, powers := powers, deployments := deployments }.setStage w
      turn (.recorded result))
  | _ => none

/-- `mark_job_failed` or `mark_job_done`, under the worker's own id -/
def completeTurn (now : Time) (jobs : Table ReconcileJob) (job : JobId) (result : ReconcileResult)
    (w : WorkerId) : Option (Table ReconcileJob) :=
  if result.status = .error then
    completeJob now jobs job .failed
      (some (match result.lastError with
        | none => "unknown error"
        | some e => if e = "" then "unknown error" else e)) w
  else completeJob now jobs job .done none w

/-- the end of the turn -/
def markJob (s : State) (w : WorkerId) : Option State :=
  match s.workers w with
  | some ⟨job, _, .recorded result⟩ => do
    let jobs ← completeTurn s.now s.jobs job result w
    pure ({ s with jobs := jobs }.setTurn w none)
  | _ => none

/-- the worker's process dies -/
def crash (s : State) (w : WorkerId) : Option State :=
  match s.workers w with
  | none => none
  | some _ => some (s.setTurn w none)

end Freepod
