import Mathlib.Algebra.Order.Ring.Int
import Freepod.Base.Pool
import Freepod.Platform.BuildLog
import Freepod.Platform.Step

/-!
# The build worker

One pass of `build_worker.run_pass` as a program over its commits and its calls of `kubectl`
(`services/build_jobs.py`), so that the worker may crash between any two, and Jobs and pods may go on
in between.

* `Cluster`: the Jobs by name, and the pods and the output of each build.
* `Outcome`: what becomes of a call.  A `kubectl` that cannot reach the API server, or whose output
  does not parse, looks to the worker like one that found nothing.
* `parseImage`, `parseUsage`: what a termination message reports.
* `advanceBuild`, `claimBuilds`, `runPass`: the pass.
-/

set_option linter.unusedSectionVars false

namespace Freepod.BuildWorker
open Base

/-! ## What a build reports -/

/-- a parsed JSON value, as far as a report is looked into; `Num` are Python's numbers -/
inductive Value (Num : Type) where
  | bool (b : Bool)
  | num (x : Num)
  | str (s : String)
  | obj (fields : List (String × Value Num))
  /-- null, or a list -/
  | other

/-- what `json.loads` does; it raises other exceptions than a decode error too -/
inductive Loads (Num : Type) where
  | value (v : Value Num)
  | decodeError
  | raises

/-- Python's numbers and timestamps: a call without a value has raised -/
class Python where
  Num : Type
  loads : String → Loads Num
  isfinite : Num → Option Bool
  nonneg : Num → Bool
  round : Num → Int
  /-- none is a `ValueError` -/
  Moment : Type
  fromisoformat : String → Option Moment
  hasZone : Moment → Bool
  toUTC : Moment → Option Time
  strip : String → String

variable [Python]

/-- `BuildUsage`; the CPU seconds are a float column, which takes any finite one -/
structure BuildUsage where
  memoryByteSeconds : Int
  memoryPeakBytes : Int
  startedAt : Time
  finishedAt : Time

/-- a value, or an exception -/
abbrev Raising (α : Type) := Option α

/-- `_termination_payload` -/
def terminationPayload (message : Option String) :
    Raising (Option (List (String × Value Python.Num))) :=
  match message with
  | none => some none
  | some message =>
    if message = "" then some none
    else
      match Python.loads message with
      | .raises => none
      | .decodeError => some none
      | .value (.obj fields) => some (some fields)
      | .value _ => some none

/-- `parse_image_from_termination_message` -/
def parseImage (message : Option String) : Raising (Option String) := do
  let payload ← terminationPayload message
  match payload.bind fun fields => fields.lookup "image" with
  | some (.str image) => pure (if image = "" then none else some image)
  | _ => pure none

/-- `_quantity` -/
def quantity : Option (Value Python.Num) → Raising (Option Python.Num)
  | some (.num x) => do
    let finite ← Python.isfinite x
    pure (if finite && Python.nonneg x then some x else none)
  | _ => some none

/-- `_timestamp` -/
def timestamp : Option (Value Python.Num) → Raising (Option Time)
  | some (.str value) =>
    match Python.fromisoformat value with
    | none => some none
    | some moment =>
      if Python.hasZone moment then (Python.toUTC moment).map some else some none
  | _ => some none

/-- `parse_usage_from_termination_message` -/
def parseUsage (message : Option String) : Raising (Option BuildUsage) := do
  let payload ← terminationPayload message
  match payload.bind fun fields => fields.lookup "usage" with
  | some (.obj usage) => do
    let cpu ← quantity (usage.lookup "cpu_seconds")
    let memory ← quantity (usage.lookup "memory_byte_seconds")
    let peak ← quantity (usage.lookup "memory_peak_bytes")
    let started ← timestamp (usage.lookup "started_at")
    let finished ← timestamp (usage.lookup "finished_at")
    match cpu, memory, peak, started, finished with
    | some _, some memory, some peak, some started, some finished =>
      pure (if finished < started then none
        else some ⟨Python.round memory, Python.round peak, started, finished⟩)
    | _, _, _, _, _ => pure none
  | _ => pure none

/-- the values fit their columns: `BIGINT`, and a text without a NUL -/
def storable (image : Option String) (usage : Option BuildUsage) : Bool :=
  (image.all fun image => !image.toList.contains '\x00') &&
    usage.all fun u => decide (u.memoryByteSeconds < 2 ^ 63 ∧ u.memoryPeakBytes < 2 ^ 63)

/-! ## The cluster -/

/-- `.status.succeeded` and `.status.failed` of a Job -/
structure Job where
  succeeded : Nat
  failed : Nat
  deriving DecidableEq

/-- `job_is_complete` -/
def Job.isComplete (j : Job) : Bool := decide (0 < j.succeeded)

/-- `job_is_failed` -/
def Job.isFailed (j : Job) : Bool := decide (0 < j.failed)

def Job.isFinished (j : Job) : Bool := j.isComplete || j.isFailed

structure Terminated where
  exitCode : Int
  message : Option String
  reason : Option String

structure ContainerStatus where
  name : String
  terminated : Option Terminated

structure Pod where
  reason : Option String
  message : Option String
  initContainerStatuses : List ContainerStatus
  containerStatuses : List ContainerStatus

/-- the Jobs by name, and by the label of a build its pods and what `kubectl logs` prints of it, none
when it fails -/
structure Cluster where
  jobs : String → Option Job
  pods : BuildId → List Pod
  output : BuildId → Option Bytes

def nonempty (s : Option String) : Option String := s.filter (· ≠ "")

/-- `read_termination_message`, of the pods that `_pods` found -/
def terminationMessage (pods : List Pod) : Option String :=
  (pods.flatMap Pod.containerStatuses).findSome? fun status =>
    status.terminated.bind fun terminated => nonempty terminated.message

def egressGate : String := "caelus-egress-gate"

/-- `read_gate_failure` -/
def gateFailure (pods : List Pod) : Option String :=
  (pods.flatMap Pod.initContainerStatuses).findSome? fun status =>
    if status.name ≠ egressGate then none
    else
      status.terminated.bind fun terminated =>
        if terminated.exitCode = 0 then none
        else some ((nonempty (some (Python.strip (terminated.message.getD "")))).getD
          (terminated.reason.getD "failed"))

/-- `read_eviction` -/
def eviction (pods : List Pod) : Option String :=
  pods.findSome? fun pod =>
    if pod.reason ≠ some "Evicted" then none
    else some ((nonempty (some (Python.strip (pod.message.getD "")))).getD "Evicted")

/-- what becomes of a call -/
inductive Outcome
  | ok
  /-- `kubectl` exits with an error, or its output does not parse -/
  | fails
  /-- the call raises, or the commit is rolled back -/
  | raises
  /-- the Job is created, and the answer is lost -/
  | lost
  deriving DecidableEq

/-! ## The statements and the calls -/

structure Store where
  state : State
  logs : BuildId → Bytes
  usage : BuildId → Option BuildUsage
  cluster : Cluster

def Store.init : Store := ⟨.init, fun _ => [], fun _ => none, ⟨fun _ => none, fun _ => [], fun _ => none⟩⟩

/-- the settings, and the text of an identifier -/
structure Config where
  buildLogMaxBytes : Nat
  buildDeadlineSeconds : Time
  buildDeadlineGraceSeconds : Time
  buildMaxInFlight : Nat
  uuid : BuildId → String
  uuid_injective : Function.Injective uuid

def jobNamePrefix : String := "build-"

/-- `job_name` -/
def Config.jobName (cfg : Config) (id : BuildId) : String := jobNamePrefix ++ cfg.uuid id

theorem Config.jobName_injective (cfg : Config) : Function.Injective cfg.jobName := by
  intro a b h
  have h' := congrArg String.toList h
  simp only [Config.jobName, String.toList_append] at h'
  exact cfg.uuid_injective (String.toList_injective (List.append_cancel_left h'))

/-- what a pass decides about a build -/
structure Finish where
  image : Option String
  line : Option Bytes
  usage : Option BuildUsage

inductive Op
  | now
  /-- the running builds, in the order they were started -/
  | running
  /-- the row of a build -/
  | load (id : BuildId)
  | readLog (id : BuildId)
  | mirror (id : BuildId) (fresh : Option Bytes)
  | deleteJob (name : String)
  | getJob (name : String)
  | readTerminationMessage (id : BuildId)
  | readGateFailure (id : BuildId)
  | readEviction (id : BuildId)
  | finish (id : BuildId) (x : Finish) (now : Time)
  | runningCount
  | claim (now : Time)
  | createJob (id : BuildId)
  | recordJob (id : BuildId)

/-- a commit: done, refused for what it would write, or rolled back for another reason -/
inductive Commit
  | done | refused | rolledBack
  deriving DecidableEq

abbrev Ret : Op → Type
  | .now => Time
  | .running => List BuildId
  | .load _ => Option Build
  | .readLog _ => Raising (Option Bytes)
  | .mirror _ _ => Commit
  | .deleteJob _ => Raising Unit
  | .getJob _ => Raising (Option Job)
  | .readTerminationMessage _ => Raising (Option String)
  | .readGateFailure _ => Raising (Option String)
  | .readEviction _ => Raising (Option String)
  | .finish _ _ _ => Commit
  | .runningCount => Nat
  | .claim _ => Option BuildId
  | .createJob _ => Bool
  | .recordJob _ => Commit

/-- `order_by(started_at)` -/
def startedBefore (a b : Build) : Prop := a.startedAt.getD 0 ≤ b.startedAt.getD 0

instance : DecidableRel startedBefore := fun a b => by
  unfold startedBefore
  infer_instance

def runningBuilds (s : State) : List BuildId :=
  ((s.builds.rows.filter fun b => decide (b.status = .running)).insertionSort startedBefore).map
    Build.id

/-- a read by `kubectl` -/
def kubectl {α : Type} (c : Outcome) (found : α) (nothing : α) : Raising α :=
  match c with
  | .ok => some found
  | .raises => none
  | _ => some nothing

/-- a step of the builds, by the clock of the pass -/
def atTime (s : State) (now : Time) (f : State → Option State) : Option State :=
  (f { s with now := now }).map fun t => { t with now := s.now }

/-- the build that a claim takes -/
def nextBuild (s : State) : Option BuildId :=
  (((s.builds.rows.filter fun b => decide (b.status = .queued)).insertionSort Build.before).head?).map
    Build.id

/-- `_finish`, with the line appended before -/
def finish (s : Store) (id : BuildId) (x : Finish) (now : Time) : Option Store :=
  if storable x.image x.usage then
    (atTime s.state now fun t => (finishBuild t id x.image).toOption).map fun t =>
      { s with
        state := t
        logs := match x.line with
          | none => s.logs
          | some line => Function.update s.logs id (appendLogLine (s.logs id) line)
        usage := Function.update s.usage id (x.usage.or (s.usage id)) }
  else none

variable (cfg : Config)

/-- one commit or call -/
def perform (s : Store) : (o : Op) → Outcome → Option (Ret o × Store)
  | .now, _ => some (s.state.now, s)
  | .running, _ => some (runningBuilds s.state, s)
  | .load id, _ => some (s.state.builds.get? id, s)
  | .readLog id, c => some (kubectl c (s.cluster.output id) none, s)
  | .mirror id fresh, c =>
    if c = .raises then some (.rolledBack, s)
    else some (.done, { s with
      logs := Function.update s.logs id (mergeLog (s.logs id) fresh cfg.buildLogMaxBytes) })
  | .deleteJob name, c =>
    -- the deletion is asked for, and a Job may stay for a while
    match c with
    | .raises => some (none, s)
    | .ok => some (some (), { s with
        cluster := { s.cluster with jobs := Function.update s.cluster.jobs name none } })
    | _ => some (some (), s)
  | .getJob name, c => some (kubectl c (s.cluster.jobs name) none, s)
  | .readTerminationMessage id, c =>
    some (kubectl c (terminationMessage (s.cluster.pods id)) none, s)
  | .readGateFailure id, c => some (kubectl c (gateFailure (s.cluster.pods id)) none, s)
  | .readEviction id, c => some (kubectl c (eviction (s.cluster.pods id)) none, s)
  | .finish id x now, c =>
    if c = .raises then some (.rolledBack, s)
    else
      match finish s id x now with
      | some t => some (.done, t)
      | none => some (.refused, s)
  | .runningCount, _ => some ((runningBuilds s.state).length, s)
  | .claim now, _ =>
    match nextBuild s.state with
    | none => some (none, s)
    | some id => (atTime s.state now fun t => claimNextBuild t []).map fun t =>
        (some id, { s with state := t })
  | .createJob id, c =>
    let created := { s with
      cluster := { s.cluster with
        jobs := Function.update s.cluster.jobs (cfg.jobName id) (some ⟨0, 0⟩) } }
    if (s.cluster.jobs (cfg.jobName id)).isSome then some (false, s)
    else
      match c with
      | .ok => some (true, created)
      | .lost => some (false, created)
      | _ => some (false, s)
  | .recordJob id, c =>
    if c = .raises then some (.rolledBack, s)
    else (recordBuildJob s.state id (cfg.jobName id)).map fun t => (.done, { s with state := t })

/-! ## The pass -/

/-- a part of a pass, which an exception ends -/
abbrev Part := Prog Ret Unit

namespace Ask

abbrev load (id : BuildId) : Part (Option Build) := ask (Op.load id)
abbrev readLog (id : BuildId) : Part (Raising (Option Bytes)) := ask (Op.readLog id)
abbrev mirror (id : BuildId) (fresh : Option Bytes) : Part Commit := ask (Op.mirror id fresh)
abbrev deleteJob (name : String) : Part (Raising Unit) := ask (Op.deleteJob name)
abbrev getJob (name : String) : Part (Raising (Option Job)) := ask (Op.getJob name)
abbrev readTerminationMessage (id : BuildId) : Part (Raising (Option String)) :=
  ask (Op.readTerminationMessage id)
abbrev readGateFailure (id : BuildId) : Part (Raising (Option String)) :=
  ask (Op.readGateFailure id)
abbrev readEviction (id : BuildId) : Part (Raising (Option String)) := ask (Op.readEviction id)
abbrev finish (id : BuildId) (x : Finish) (now : Time) : Part Commit := ask (Op.finish id x now)
abbrev now : Part Time := ask Op.now
abbrev running : Part (List BuildId) := ask Op.running
abbrev runningCount : Part Nat := ask Op.runningCount
abbrev claim (now : Time) : Part (Option BuildId) := ask (Op.claim now)
abbrev createJob (id : BuildId) : Part Bool := ask (Op.createJob id)
abbrev recordJob (id : BuildId) : Part Commit := ask (Op.recordJob id)

end Ask

/-- go on with the value, or raise -/
def orRaise {α : Type} : Raising α → Part α
  | some a => pure a
  | none => .exit ()

def committed : Commit → Part Unit
  | .done => pure ()
  | _ => .exit ()

/-- `_finish` -/
def finishWith (now : Time) (id : BuildId) (x : Finish) : Part Unit := do
  let stored ← Ask.finish id x now
  committed stored

/-- a failed build without a line of its own -/
def Finish.plain : Finish := ⟨none, none, none⟩

/-- past the deadline and its grace -/
def overdue (now : Time) (b : Build) : Bool :=
  b.startedAt.any fun started =>
    decide (started + (cfg.buildDeadlineSeconds + cfg.buildDeadlineGraceSeconds) < now)

/-- the Job has completed -/
def advanceComplete (now : Time) (id : BuildId) : Part Unit := do
  let message ← Ask.readTerminationMessage id
  let message ← orRaise message
  let image ← orRaise (parseImage message)
  let usage ← orRaise (parseUsage message)
  finishWith now id ⟨image, none, usage⟩

/-- the line for a build whose Job has failed -/
def failureLine (id : BuildId) : Part (Option Bytes) := do
  let gate ← Ask.readGateFailure id
  let gate ← orRaise gate
  match gate with
  | some _ => pure (some gateFailureLogLine)
  | none => do
    let evicted ← Ask.readEviction id
    let evicted ← orRaise evicted
    pure (evicted.map evictionLogLine)

/-- the Job has failed -/
def advanceFailed (now : Time) (id : BuildId) : Part Unit := do
  let line ← failureLine id
  let message ← Ask.readTerminationMessage id
  let message ← orRaise message
  let usage ← orRaise (parseUsage message)
  finishWith now id ⟨none, line, usage⟩

/-- the Job of a build, as it was found -/
def advanceJob (now : Time) (id : BuildId) (b : Build) (name : String) : Option Job → Part Unit
  | none => finishWith now id .plain
  | some job =>
    if job.isComplete then advanceComplete now id
    else if job.isFailed then advanceFailed now id
    else if overdue cfg now b then do
      let deleted ← Ask.deleteJob name
      orRaise deleted
      finishWith now id .plain
    else pure ()

/-- `_advance_build` -/
def advanceBuild (now : Time) (id : BuildId) : Part Unit := do
  let fresh ← Ask.readLog id
  let fresh ← orRaise fresh
  let stored ← Ask.mirror id fresh
  committed stored
  let row ← Ask.load id
  let b ← orRaise row
  match b.jobId with
  | none => do
    let deleted ← Ask.deleteJob (cfg.jobName id)
    orRaise deleted
    finishWith now id .plain
  | some name => do
    let job ← Ask.getJob name
    let job ← orRaise job
    advanceJob cfg now id b name job

/-- the loop over the running builds; an exception ends the build's turn alone -/
def advanceAll (now : Time) : List BuildId → Part Unit
  | [] => pure ()
  | id :: ids => do
    let _ ← (advanceBuild cfg now id).attempt
    advanceAll now ids

/-- `_start_build`; false is an exception -/
def startBuild (id : BuildId) : Part Bool := do
  let created ← Ask.createJob id
  if created then do
    let recorded ← Ask.recordJob id
    pure (decide (recorded = .done))
  else pure false

/-- the loop that claims; each round that goes on adds a running build, so that `rounds` bounds it -/
def claimBuilds (now : Time) : (rounds : Nat) → Part Unit
  | 0 => pure ()
  | rounds + 1 => do
    let count ← Ask.runningCount
    if count < cfg.buildMaxInFlight then do
      let claimed ← Ask.claim now
      match claimed with
      | none => pure ()
      | some id => do
        let started ← startBuild id
        if started then claimBuilds now rounds else pure ()
    else pure ()

/-- `run_pass` -/
def runPass : Part Unit := do
  let now ← Ask.now
  let ids ← Ask.running
  advanceAll cfg now ids
  claimBuilds cfg now (cfg.buildMaxInFlight + 1)

/-! ## The rest of the platform -/

/-- the steps of the platform that are not the build worker's -/
def rest : Action → Bool
  | .claimBuild _ | .recordBuildJob _ _ | .finishBuild _ _ => false
  | _ => true

inductive Change
  | platform (a : Action)
  /-- a Job goes on; one that has finished stays so -/
  | job (name : String) (j : Job)
  /-- a Job goes, by its TTL or by a hand -/
  | reap (name : String)
  | pods (id : BuildId) (pods : List Pod)
  | output (id : BuildId) (output : Option Bytes)

def change (settings : Settings) (s : Store) : Change → Option Store
  | .platform a =>
    if rest a then (step settings s.state a).map fun t => { s with state := t } else none
  | .job name j =>
    if (s.cluster.jobs name).any fun old => !old.isFinished || j.isFinished then
      some { s with cluster := { s.cluster with
        jobs := Function.update s.cluster.jobs name (some j) } }
    else none
  | .reap name => some { s with cluster := { s.cluster with
      jobs := Function.update s.cluster.jobs name none } }
  | .pods id pods => some { s with cluster := { s.cluster with
      pods := Function.update s.cluster.pods id pods } }
  | .output id output => some { s with cluster := { s.cluster with
      output := Function.update s.cluster.output id output } }

/-- the passes -/
def service (settings : Settings) : Service Ret Unit Unit Store Time Outcome Change where
  handler := fun _ => runPass cfg
  perform := perform cfg
  change := change settings
  clock := fun s => s.state.now

abbrev WorkerPool := Pool Ret Unit Unit Store Time
abbrev WorkerEvent := Event Unit Outcome Change

end Freepod.BuildWorker
