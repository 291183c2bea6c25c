import Freepod.Platform.Jobs

/-!
# Stopping and starting a deployment

`services/power.py`: a request records a power row and moves `desired_power_id` in one transaction
with the reconcile job it enqueues.  A request for the power that is desired already succeeds and
writes nothing.
-/

namespace Freepod
open Base

def codeDeploymentNotReady : String := "deployment_not_ready"
def codeNotStartable : String := "not_startable"

def PowerReason.text : PowerReason → String
  | manual => "manual"
  | payment => "payment"

/-- the state of the power row a pointer names; without one the deployment runs -/
def powerState (powers : Table DeploymentPower) (id : Option PowerId) : PowerState :=
  match id.bind powers.get? with
  | some p => p.state
  | none => .running

structure PowerRequest where
  userId : UserId
  deploymentId : DeploymentId
  actorUserId : Option UserId
  target : PowerState

/-- `_locked_deployment` -/
def lockedDeployment (s : State) (userId : UserId) (id : DeploymentId) :
    Except Refusal Deployment := do
  let d ← s.owned userId id
  require (d.status ≠ .deleted) (.notFound "Deployment not found")
  pure d

/-- the power row a request inserts -/
def PowerRequest.row (r : PowerRequest) (s : State) (d : Deployment) : DeploymentPower where
  id := s.powers.nextKey
  deploymentId := d.id
  state := r.target
  reason := .manual
  actorUserId := r.actorUserId
  createdAt := s.now
  startedAt := none
  endedAt := none
  error := none

/-- a power row that nobody asked for by hand keeps the deployment from being started -/
def requireStartable (s : State) (d : Deployment) (target : PowerState) : Except Refusal Unit :=
  match (d.desiredPowerId.bind s.powers.get?).filter fun p => decide (p.reason ≠ .manual) with
  | some p =>
    require (target ≠ .running)
      (.conflict ("Deployment is stopped for " ++ p.reason.text ++ " and cannot be started")
        codeNotStartable)
  | none => .ok ()

/-- `_change_power`, behind `stop_deployment` and `start_deployment` -/
def changePower (s : State) (r : PowerRequest) : Except Refusal State := do
  let d ← lockedDeployment s r.userId r.deploymentId
  if powerState s.powers d.desiredPowerId = r.target then pure s
  else do
    require (d.status = .ready)
      (.conflict ("Deployment is " ++ d.status.text ++ "; only a ready deployment can be " ++
        (if r.target = .stopped then "stopped" else "started")) codeDeploymentNotReady)
    requireStartable s d r.target
    let powers ← found (s.powers.insert? (r.row s d)) constraintViolated
    let deployments ← found
      (s.deployments.put? { d with desiredPowerId := some s.powers.nextKey }) constraintViolated
    let jobs ← enqueueJob s.now s.jobs d.id .power
    pure { s with powers := powers, deployments := deployments, jobs := jobs }

/-- an accepted request asks for the power that is desired already, or records the row of a change
of a ready deployment without an open job -/
theorem changePower_ok {s t : State} {r : PowerRequest} (h : changePower s r = .ok t) :
    ∃ d, s.deployments.get? r.deploymentId = some d ∧ d.userId = r.userId ∧ d.status ≠ .deleted ∧
      (powerState s.powers d.desiredPowerId = r.target ∧ t = s ∨
        powerState s.powers d.desiredPowerId ≠ r.target ∧ d.status = .ready ∧
        ∃ powers deployments jobs,
          s.powers.insert? (r.row s d) = some powers ∧
          s.deployments.put? { d with desiredPowerId := some s.powers.nextKey } =
            some deployments ∧
          enqueueJob s.now s.jobs d.id .power = .ok jobs ∧
          t = { s with powers := powers, deployments := deployments, jobs := jobs }) := by
  simp only [changePower, lockedDeployment, State.owned, bind_eq_ok, require_eq_ok, found_eq_ok,
    pure_eq_ok] at h
  obtain ⟨d, ⟨_, ⟨d, hd, -, howner, rfl⟩, -, hstatus, rfl⟩, h⟩ := h
  refine ⟨d, hd, howner, hstatus, ?_⟩
  split at h
  · rename_i hsame
    rw [pure_eq_ok] at h
    exact .inl ⟨hsame, h.symm⟩
  · rename_i hdiff
    simp only [bind_eq_ok, require_eq_ok, found_eq_ok, pure_eq_ok] at h
    obtain ⟨-, hready, -, -, powers, hp, deployments, hput, jobs, hj, rfl⟩ := h
    exact .inr ⟨hdiff, hready, powers, deployments, jobs, hp, hput, hj, rfl⟩

/-- `stop_deployment` -/
def stopDeployment (s : State) (userId : UserId) (id : DeploymentId)
    (actor : Option UserId) : Except Refusal State :=
  changePower s ⟨userId, id, actor, .stopped⟩

/-- `start_deployment` -/
def startDeployment (s : State) (userId : UserId) (id : DeploymentId)
    (actor : Option UserId) : Except Refusal State :=
  changePower s ⟨userId, id, actor, .running⟩

end Freepod
