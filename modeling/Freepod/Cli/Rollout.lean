import Freepod.Platform.Step

/-!
# Following a rollout

The end of `freepod deploy` (`freepod/deploy.py`): after its update the client polls the deployment
until the rollout is over, and then returns the address or fails.

* `followRollout`: the loop over the readings, one for each poll.
* `released`: what `release` makes of the record the loop returns.
-/

namespace Freepod.Cli
open Base

/-- the errors of the command -/
inductive DeployError
  | freepod (message : String)
  | rolloutFailed (message : String)
  deriving DecidableEq, Repr

/-- what the client reads of a deployment -/
structure Record where
  id : DeploymentId
  name : String
  status : DeploymentStatus
  generation : Nat
  hostname : Option String
  lastError : Option String
  deriving DecidableEq, Repr

def recordOf (d : Deployment) : Record where
  id := d.id
  name := d.name
  status := d.status
  generation := d.generation
  hostname := d.hostname
  lastError := d.lastError

/-- the answer to a read of a deployment that is not found -/
def disappeared (id : DeploymentId) : DeployError :=
  .freepod ("deployment " ++ toString id ++
    " disappeared while this deploy was running — it was deleted from elsewhere.")

/-- `read_deployment`, answered by `get_deployment` -/
def readDeployment (s : State) (userId : UserId) (id : DeploymentId) : Except DeployError Record :=
  match s.owned userId id with
  | .ok d => if d.status = .deleted then .error (disappeared id) else .ok (recordOf d)
  | .error _ => .error (disappeared id)

/-- one turn of the loop: what was read, and whether the deadline has passed by then -/
structure Reading where
  record : Except DeployError Record
  late : Bool

/-- `TERMINAL_STATUSES` -/
def terminal (status : DeploymentStatus) : Bool := status = .ready || status = .error

/-- `GONE_STATUSES` -/
def gone (status : DeploymentStatus) : Bool := status = .deleting || status = .deleted

/-- `follow_rollout`; none while it is still polling -/
def followRollout (id : DeploymentId) (timeout generation : Nat) :
    List Reading → Option (Except DeployError Record)
  | [] => none
  | reading :: readings =>
    match reading.record with
    | .error e => some (.error e)
    | .ok record =>
      if generation ≤ record.generation ∧ terminal record.status = true then some (.ok record)
      else if gone record.status = true then
        some (.error (.freepod ("deployment " ++ toString id ++ " became '" ++ record.status.text ++
          "' during the rollout — it was deleted from elsewhere.")))
      else if reading.late = true then
        some (.error (.freepod ("stopped waiting after " ++ toString timeout ++ "s. Deployment " ++
          toString id ++ " is still rolling out on the platform — it was not canceled. Check it " ++
          "with \x60freepod deploy\x60 again, or in the web UI.")))
      else followRollout id timeout generation readings

/-- `address` -/
def address (record : Record) : Option String :=
  match record.hostname with
  | some hostname => if hostname = "" then none else some ("https://" ++ hostname)
  | none => none

/-- the end of `release`: the address of the deployment -/
def released (final : Record) : Except DeployError String :=
  if final.status = .error then
    let recorded := final.lastError.getD ""
    .error (.rolloutFailed ("the rollout failed for deployment " ++ final.name ++ " (" ++
      toString final.id ++ ").\n  The platform recorded: " ++
      if recorded = "" then "no error message" else recorded))
  else
    match address final with
    | none => .error (.freepod ("deployment " ++ toString final.id ++
        " is ready but carries no hostname — this is an unexpected platform condition, please " ++
        "report it."))
    | some live => .ok live

/-- a record the loop returns was read by one of its polls, and is terminal -/
theorem followRollout_ok {id : DeploymentId} {timeout generation : Nat} {readings : List Reading}
    {record : Record} (h : followRollout id timeout generation readings = some (.ok record)) :
    (∃ reading ∈ readings, reading.record = .ok record) ∧ generation ≤ record.generation ∧
      (record.status = .ready ∨ record.status = .error) := by
  induction readings with
  | nil => cases h
  | cons reading readings ih =>
    rw [followRollout] at h
    split at h
    · cases h
    · rename_i record' hrecord
      split at h
      · rename_i hdone
        cases h
        refine ⟨⟨reading, List.mem_cons_self, hrecord⟩, hdone.1, ?_⟩
        simpa [terminal] using hdone.2
      · split at h
        · cases h
        · split at h
          · cases h
          · obtain ⟨⟨reading', hmem, hr⟩, hrest⟩ := ih h
            exact ⟨⟨reading', List.mem_cons_of_mem _ hmem, hr⟩, hrest⟩

/-- an address is returned for a record that is not in an error alone -/
theorem released_ok {final : Record} {live : String} (h : released final = .ok live) :
    final.status ≠ .error := by
  intro herror
  rw [released, if_pos herror] at h
  cases h

end Freepod.Cli
