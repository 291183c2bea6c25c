import Freepod.Base.Machine
import Freepod.Platform.Deployments
import Freepod.Platform.Power
import Freepod.Platform.Webhooks
import Freepod.Platform.Builds
import Freepod.Platform.Reconcile

/-!
# The platform as a machine

`Action` is everything that happens to the platform: requests, Mollie's notifications, builds, the
commits of the reconcile workers, and the passing of time.  Any number of workers take their steps
in any order.  A request is one step: no other step comes between a read of it and its commit, be it
the unlocked read of the status before a var write or the retention check before an update's UPDATE.
-/

namespace Freepod
open Base

inductive Action
  | tick (delta : Time)
  | create (c : Context) (r : CreateRequest)
  | update (c : Context) (u : UpdateRequest)
  | delete (userId : UserId) (id : DeploymentId)
  | power (r : PowerRequest)
  | writeVars (c : Context) (r : VarsRequest)
  | webhook (n : Notification)
  | createBuild (c : Context) (r : BuildRequest)
  | claimBuild (skipped : List BuildId)
  | recordBuildJob (id : BuildId) (jobId : String)
  | finishBuild (id : BuildId) (image : Option String)
  | claimJob (w : WorkerId) (skipped : List JobId)
  | claimRelease (w : WorkerId)
  | claimPower (w : WorkerId) (x : Effects)
  | applyRelease (w : WorkerId) (x : Effects)
  | recordOutcome (w : WorkerId)
  | markJob (w : WorkerId)
  | crash (w : WorkerId)

/-- the worker that takes the step, for a worker's step -/
def Action.worker : Action → Option WorkerId
  | claimJob w _ | claimRelease w | claimPower w _ | applyRelease w _ | recordOutcome w
  | markJob w | crash w => some w
  | _ => none

/-- the steps of the builds -/
def Action.ofBuilds : Action → Bool
  | createBuild _ _ | claimBuild _ | recordBuildJob _ _ | finishBuild _ _ => true
  | _ => false

/-- one step; a refused request is no step -/
def step (cfg : Settings) (s : State) : Action → Option State
  | .tick delta => some { s with now := s.now + delta }
  | .create c r => (createDeployment cfg c s r).toOption
  | .update c u => (updateDeployment cfg c s u).toOption
  | .delete userId id => (deleteDeployment s userId id).toOption
  | .power r => (changePower s r).toOption
  | .writeVars c r => (writeVarsRequest cfg c s r).toOption
  | .webhook n => (mollieWebhook s n).toOption
  | .createBuild c r => (createBuild c s r).toOption
  | .claimBuild skipped => claimNextBuild s skipped
  | .recordBuildJob id jobId => recordBuildJob s id jobId
  | .finishBuild id image => (finishBuild s id image).toOption
  | .claimJob w skipped => claimJob cfg s w skipped
  | .claimRelease w => claimRelease s w
  | .claimPower w x => claimPower s w x
  | .applyRelease w x => applyRelease s w x
  | .recordOutcome w => recordOutcome s w
  | .markJob w => markJob s w
  | .crash w => crash s w

/-- the platform under fixed settings -/
def platform (cfg : Settings) : Machine State Action := ⟨step cfg⟩

/-! ## A small platform to run -/

def Settings.sample : Settings where
  reconcileJobLease := 600
  registryRetainedPastImages := 2
  registryPruneGrace := 86400
  varKeyIds := ["key-1"]

/-- a catalog in which every check passes -/
def Context.sample : Context where
  users := fun _ => some ⟨none, some "bob", true, false⟩
  templates := fun _ => some ⟨1, true, .null, .null⟩
  planTemplates := fun _ => some ⟨1, true, none, 500⟩
  normalizeHostname := fun _ values _ _ => .ok (values, none)
  validateUserValues := fun _ _ => .ok ()
  validateArtifactId := fun _ => .ok ()
  artifactExists := fun _ _ => true
  checkVarName := fun _ => .ok ()
  varsProjection := fun _ => some .null
  validateVars := fun _ _ => .ok ()
  validateDocument := fun _ _ _ => none

/-- user 7 creates deployment 1 with release 1 -/
def CreateRequest.sample (values : Json) (provider : Option (Except String String)) :
    CreateRequest where
  userId := 7
  planTemplateId := 1
  desiredTemplateId := 1
  userValuesJson := values
  buildId := none
  vars := []
  deploymentId := 1
  releaseId := 1
  name := "app"
  namespaces := ["app-bob"]
  provider := provider

/-- user 7 moves deployment 1 to a new release -/
def UpdateRequest.sample (values : Option Json) (release : ReleaseId) : UpdateRequest where
  id := 1
  userId := 7
  desiredTemplateId := 1
  userValuesJson := values
  buildId := none
  vars := []
  releaseId := release

/-- user 7 stops deployment 1 -/
def PowerRequest.stopSample : PowerRequest := ⟨7, 1, some 7, .stopped⟩

/-- the subscription that recurring payments name -/
def MollieId.sample : MollieId := ⟨"sub_1", by decide⟩

/-- a delivery for a payment -/
def Notification.sample (id : String) (status : MolliePaymentStatus)
    (subscriptionId : Option MollieId) : Notification where
  id := id
  info := some ⟨status, subscriptionId, some "mdt_1", .null⟩
  priceCents := 500
  createSubscription := .ok .sample

/-- every call of the reconcile returns -/
def Effects.clean : Effects := ⟨fun _ => none, some 1, none⟩

/-- one call of the reconcile raises -/
def Effects.raising (call : Call) : Effects :=
  ⟨fun c => if c = call then some "timed out" else none, none, none⟩

/-- a worker's pass over a job up to its commit -/
def Action.reconcile (w : WorkerId) (x : Effects) : List Action :=
  [.claimJob w [], .claimRelease w, .claimPower w x, .applyRelease w x, .recordOutcome w]

/-- a worker's whole pass over a job -/
def Action.turn (w : WorkerId) (x : Effects) : List Action :=
  Action.reconcile w x ++ [.markJob w]

/-- the status of a deployment -/
def State.status (s : State) (id : DeploymentId) : Option DeploymentStatus :=
  (s.deployments.get? id).map Deployment.status

/-- a free deployment is ready after one pass -/
example : ((platform .sample).run .init (.create .sample (.sample .null none) ::
    Action.turn "w1" .clean)).any (fun s => decide (s.status 1 = some .ready)) = true := by decide

end Freepod
