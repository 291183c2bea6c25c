import Freepod.Base.Assoc
import Freepod.Base.Machine
import Freepod.Platform.Rows

/-!
# The database of a deployment

One deployment's row in `deployment_database`, its role and its database on the tenant cluster
(`services/relational_storage.py`), under the sweeps of the housekeeping worker (`db_worker.py`),
its reconciles, its teardown and its purge.  Nothing locks the row, so any number of tasks take
their statements and commits in any order, and any of them may raise.
-/

namespace Freepod
open Base

abbrev TaskId := Nat

inductive QuotaState
  | ok | warned | readonly | blocked
  deriving DecidableEq, Repr

def warnThresholds : List Nat := [80, 90]
def readonlyThreshold : Nat := 100
def blockThreshold : Nat := 150

/-- the columns of `DeploymentDatabaseORM` that an evaluation or a teardown reads or writes -/
structure DatabaseRecord where
  quotaState : QuotaState := .ok
  sizeBytes : Option Nat := none
  measuredAt : Option Time := none
  warnedThreshold : Option Nat := none
  warnedAt : Option Time := none
  readonlyAt : Option Time := none
  blockedAt : Option Time := none
  purgeAfter : Option Time := none
  deriving DecidableEq, Repr

/-- the role on the tenant cluster -/
structure Role where
  login : Bool
  deriving DecidableEq, Repr

/-- the database on the tenant cluster, with its `default_transaction_read_only` -/
structure Database where
  readOnly : Bool
  deriving DecidableEq, Repr

/-- a size, against the allowance of the plan -/
structure Measurement where
  sizeBytes : Nat
  allowance : Nat
  deriving DecidableEq, Repr

/-- `percent >= threshold` -/
def Measurement.reaches (m : Measurement) (threshold : Nat) : Bool :=
  decide (threshold * m.allowance ≤ m.sizeBytes * 100)

/-- `_state_for` -/
def Measurement.state (m : Measurement) : QuotaState :=
  if m.reaches blockThreshold then .blocked
  else if m.reaches readonlyThreshold then .readonly
  else if warnThresholds.head?.any m.reaches then .warned
  else .ok

/-- `_crossed_threshold` -/
def Measurement.crossedThreshold (m : Measurement) : Option Nat :=
  (readonlyThreshold :: warnThresholds.reverse).find? m.reaches

/-- where a task is, and the row as it was loaded -/
inductive Task
  /-- `evaluate_quota_state`, before it looks at `purge_after` -/
  | evaluation (loaded : DatabaseRecord) (notify : Bool)
  | measured (loaded : DatabaseRecord) (notify : Bool) (m : Measurement)
  /-- the database is limited or not, the role is not altered yet -/
  | limited (loaded : DatabaseRecord) (notify : Bool) (m : Measurement)
  | applied (loaded : DatabaseRecord) (notify : Bool) (m : Measurement)
  /-- `ensure_database`, with its row stored -/
  | provisioning (loaded : DatabaseRecord)
  | roleReady (loaded : DatabaseRecord)
  /-- `teardown_database`, with a row -/
  | teardown (loaded : DatabaseRecord)
  | roleFound (loaded : DatabaseRecord)
  | revoked (loaded : DatabaseRecord)
  | terminated (loaded : DatabaseRecord)
  /-- `purge_database`, past its check of the grace period -/
  | purge
  | databaseDropped
  | roleDropped
  deriving DecidableEq, Repr

structure Tenant where
  now : Time
  record : Option DatabaseRecord
  role : Option Role
  database : Option Database
  /-- a teardown has returned, and no purge has finished since -/
  tornDown : Bool
  tasks : List (TaskId × Task)

def Tenant.init : Tenant where
  now := 0
  record := none
  role := none
  database := none
  tornDown := false
  tasks := []

namespace Tenant

/-- the role may open a connection -/
def canLogin (s : Tenant) : Bool := s.role.any Role.login

/-- the task is at this point from now on -/
def become (s : Tenant) (t : TaskId) (task : Task) : Tenant :=
  { s with tasks := setKey t task s.tasks }

/-- the task has returned, or has raised -/
def finish (s : Tenant) (t : TaskId) : Tenant :=
  { s with tasks := s.tasks.filter fun e => e.1 ≠ t }

end Tenant

/-- the object relational mapper writes the columns that differ from what it loaded -/
def writeChanged {α : Type} [DecidableEq α] (loaded new current : α) : α :=
  if new = loaded then current else new

/-- the columns as `evaluate_quota_state` sets them on the loaded row; `mailed` tells whether the
notice was sent -/
def DatabaseRecord.evaluated (r : DatabaseRecord) (m : Measurement) (now : Time)
    (notify mailed : Bool) : DatabaseRecord :=
  let state := m.state
  let r' := { r with
    sizeBytes := some m.sizeBytes
    measuredAt := some now
    quotaState := state
    readonlyAt := if state = .readonly ∧ r.quotaState ≠ .readonly then some now else r.readonlyAt
    blockedAt := if state = .blocked ∧ r.quotaState ≠ .blocked then some now else r.blockedAt }
  if state = .ok then { r' with warnedThreshold := none, warnedAt := none }
  else
    match m.crossedThreshold with
    | some threshold =>
      if notify = true ∧ some threshold ≠ r.warnedThreshold ∧ mailed = true then
        { r' with warnedThreshold := some threshold, warnedAt := some now }
      else r'
    | none => r'

/-- the row after the commit of a loaded row that has changed -/
def DatabaseRecord.commit (loaded new current : DatabaseRecord) : DatabaseRecord where
  quotaState := writeChanged loaded.quotaState new.quotaState current.quotaState
  sizeBytes := writeChanged loaded.sizeBytes new.sizeBytes current.sizeBytes
  measuredAt := writeChanged loaded.measuredAt new.measuredAt current.measuredAt
  warnedThreshold := writeChanged loaded.warnedThreshold new.warnedThreshold current.warnedThreshold
  warnedAt := writeChanged loaded.warnedAt new.warnedAt current.warnedAt
  readonlyAt := writeChanged loaded.readonlyAt new.readonlyAt current.readonlyAt
  blockedAt := writeChanged loaded.blockedAt new.blockedAt current.blockedAt
  purgeAfter := writeChanged loaded.purgeAfter new.purgeAfter current.purgeAfter

inductive TenantAction
  | tick (delta : Time)
  /-- the sweep selects the row -/
  | readRecord (t : TaskId)
  /-- a row that expired with the commit of another one is loaded again -/
  | refresh (t : TaskId)
  | measure (t : TaskId) (m : Measurement)
  | limitWrites (t : TaskId)
  | alterRole (t : TaskId)
  | commitQuota (t : TaskId) (mailed : Bool)
  | ensure (t : TaskId)
  | createRole (t : TaskId)
  | createDatabase (t : TaskId)
  | teardown (t : TaskId)
  | findRole (t : TaskId)
  | revokeLogin (t : TaskId)
  | terminate (t : TaskId)
  | recordPurge (t : TaskId) (grace : Time)
  | purge (t : TaskId)
  | dropDatabase (t : TaskId)
  | dropRole (t : TaskId)
  | forget (t : TaskId)
  | raise (t : TaskId)

namespace Tenant

/-- the sweep's query skips a row awaiting its purge -/
def readRecord (s : Tenant) (t : TaskId) : Option Tenant :=
  match s.tasks.lookup t, s.record with
  | none, some r => if r.purgeAfter = none then some (s.become t (.evaluation r true)) else none
  | _, _ => none

/-- the row is gone when it was purged, and the tick raises -/
def refresh (s : Tenant) (t : TaskId) : Option Tenant :=
  match s.tasks.lookup t with
  | some (.evaluation _ notify) =>
    match s.record with
    | some r => some (s.become t (.evaluation r notify))
    | none => some (s.finish t)
  | _ => none

/-- a row awaiting its purge is not evaluated -/
def measure (s : Tenant) (t : TaskId) (m : Measurement) : Option Tenant :=
  match s.tasks.lookup t with
  | some (.evaluation r notify) =>
    if r.purgeAfter ≠ none then some (s.finish t)
    else
      match s.database with
      | some _ => some (s.become t (.measured r notify m))
      | none => none
  | _ => none

/-- the first half of `_apply_quota_state`, under the tenant's role -/
def limitWrites (s : Tenant) (t : TaskId) : Option Tenant :=
  match s.tasks.lookup t, s.role, s.database with
  | some (.measured r notify m), some _, some _ =>
    let readOnly := decide (m.state = .readonly ∨ m.state = .blocked)
    some ({ s with database := some ⟨readOnly⟩ }.become t (.limited r notify m))
  | _, _, _ => none

/-- the second half of `_apply_quota_state`: `NOLOGIN` for a blocked tenant, else `LOGIN` -/
def alterRole (s : Tenant) (t : TaskId) : Option Tenant :=
  match s.tasks.lookup t, s.role with
  | some (.limited r notify m), some _ =>
    some ({ s with role := some ⟨decide (m.state ≠ QuotaState.blocked)⟩ }.become t (.applied r notify m))
  | _, _ => none

/-- the commit raises when the row is gone -/
def commitQuota (s : Tenant) (t : TaskId) (mailed : Bool) : Option Tenant :=
  match s.tasks.lookup t with
  | some (.applied r notify m) =>
    let new := r.evaluated m s.now notify mailed
    some ({ s with record := s.record.map (r.commit new) }.finish t)
  | _ => none

/-- `_store_password`: the row, stored on the first provisioning -/
def ensure (s : Tenant) (t : TaskId) : Option Tenant :=
  match s.tasks.lookup t with
  | none =>
    let r := s.record.getD {}
    some ({ s with record := some r }.become t (.provisioning r))
  | _ => none

def createRole (s : Tenant) (t : TaskId) : Option Tenant :=
  match s.tasks.lookup t with
  | some (.provisioning r) =>
    some ({ s with role := some (s.role.getD ⟨true⟩) }.become t (.roleReady r))
  | _ => none

/-- the database and the role's settings, then the evaluation that mails nobody -/
def createDatabase (s : Tenant) (t : TaskId) : Option Tenant :=
  match s.tasks.lookup t, s.role with
  | some (.roleReady r), some _ =>
    some ({ s with database := some (s.database.getD ⟨false⟩) }.become t (.evaluation r false))
  | _, _ => none

/-- a no-op for a deployment without a row -/
def teardown (s : Tenant) (t : TaskId) : Option Tenant :=
  match s.tasks.lookup t, s.record with
  | none, some r => some (s.become t (.teardown r))
  | none, none => some { s with tornDown := true }
  | _, _ => none

/-- `role_exists`; without a role there is nothing to revoke -/
def findRole (s : Tenant) (t : TaskId) : Option Tenant :=
  match s.tasks.lookup t, s.role with
  | some (.teardown r), some _ => some (s.become t (.roleFound r))
  | some (.teardown r), none => some (s.become t (.terminated r))
  | _, _ => none

def revokeLogin (s : Tenant) (t : TaskId) : Option Tenant :=
  match s.tasks.lookup t, s.role with
  | some (.roleFound r), some _ =>
    some ({ s with role := some ⟨false⟩ }.become t (.revoked r))
  | _, _ => none

def terminate (s : Tenant) (t : TaskId) : Option Tenant :=
  match s.tasks.lookup t with
  | some (.revoked r) => some (s.become t (.terminated r))
  | _ => none

/-- the end of `teardown_database`; the commit raises when the row is gone -/
def recordPurge (s : Tenant) (t : TaskId) (grace : Time) : Option Tenant :=
  match s.tasks.lookup t, s.record with
  | some (.terminated r), some current =>
    let purgeAfter := if r.purgeAfter = none then some (s.now + grace) else current.purgeAfter
    some ({ s with record := some { current with purgeAfter }, tornDown := true }.finish t)
  | _, _ => none

def purge (s : Tenant) (t : TaskId) : Option Tenant :=
  match s.tasks.lookup t, s.record with
  | none, some r =>
    if r.purgeAfter.any fun due => decide (due ≤ s.now) then some (s.become t .purge) else none
  | _, _ => none

def dropDatabase (s : Tenant) (t : TaskId) : Option Tenant :=
  match s.tasks.lookup t with
  | some .purge => some ({ s with database := none }.become t .databaseDropped)
  | _ => none

def dropRole (s : Tenant) (t : TaskId) : Option Tenant :=
  match s.tasks.lookup t with
  | some .databaseDropped => some ({ s with role := none }.become t .roleDropped)
  | _ => none

def forget (s : Tenant) (t : TaskId) : Option Tenant :=
  match s.tasks.lookup t with
  | some .roleDropped => some ({ s with record := none, tornDown := false }.finish t)
  | _ => none

/-- a task that raises leaves what it has committed -/
def raise (s : Tenant) (t : TaskId) : Option Tenant :=
  match s.tasks.lookup t with
  | some _ => some (s.finish t)
  | none => none

def step (s : Tenant) : TenantAction → Option Tenant
  | .tick delta => some { s with now := s.now + delta }
  | .readRecord t => s.readRecord t
  | .refresh t => s.refresh t
  | .measure t m => s.measure t m
  | .limitWrites t => s.limitWrites t
  | .alterRole t => s.alterRole t
  | .commitQuota t mailed => s.commitQuota t mailed
  | .ensure t => s.ensure t
  | .createRole t => s.createRole t
  | .createDatabase t => s.createDatabase t
  | .teardown t => s.teardown t
  | .findRole t => s.findRole t
  | .revokeLogin t => s.revokeLogin t
  | .terminate t => s.terminate t
  | .recordPurge t grace => s.recordPurge t grace
  | .purge t => s.purge t
  | .dropDatabase t => s.dropDatabase t
  | .dropRole t => s.dropRole t
  | .forget t => s.forget t
  | .raise t => s.raise t

end Tenant

/-- the tenant's row and cluster objects under all their tasks -/
def tenantDb : Machine Tenant TenantAction := ⟨Tenant.step⟩

end Freepod
