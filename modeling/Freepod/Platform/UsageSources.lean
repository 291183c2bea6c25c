import Freepod.Platform.BuildUsage

/-!
# The sources of the usage ledger

`services/usage`: what each source of the sampler reads of a window, as observations that name their
subject by kind and reference.

* `OpenCost.read` (`containers.py`, `source.py`, `mapping.py`): one observation for each allocation
  this environment records.
* `Databases.read` and `Buckets.read`: the sizes Prometheus has, kept to the deployments the
  platform's tables know and that outlived the window.
* What the two services answer is data, as is what the tables hold at the time; a text that is no
  number is a failure of the pass, not of the read.
-/

namespace Freepod.Usage

/-! ## subjects and observations -/

inductive SubjectKind where
  | container | pv | bucket | database | node | build
  deriving DecidableEq

/-- the unique columns of `usage_subject` -/
abbrev SubjectKey := SubjectKind × String

structure SubjectSpec where
  kind : SubjectKind
  ref : String
  ns : Option String
  deploymentId : Option String

/-- `SubjectSpec.key` -/
def SubjectSpec.key (spec : SubjectSpec) : SubjectKey := (spec.kind, spec.ref)

structure Observation where
  subject : SubjectSpec
  quantities : List (String × ℚ)

/-! ## the platform's tables -/

structure DeploymentRecord where
  id : String
  ns : String
  subscriptionId : Option Nat
  deletedAt : Option Int

structure Tables where
  deployments : List DeploymentRecord
  /-- `deployment_database`: a database's name and its deployment -/
  databases : List (String × String)
  /-- a subscription and its plan template -/
  subscriptions : List (Nat × Nat)
  /-- a plan template and its `database_bytes` -/
  planTemplates : List (Nat × Option Int)

namespace Tables

/-- the rows a measured window may be recorded for -/
def surviving (t : Tables) (windowEnd : Int) : List DeploymentRecord :=
  t.deployments.filter fun d => d.deletedAt.all fun at_ => decide (windowEnd ≤ at_)

/-- the two left joins of `_KNOWN_DATABASES` -/
def allowance (t : Tables) (d : DeploymentRecord) : Option Int :=
  d.subscriptionId.bind fun s => (t.subscriptions.lookup s).bind fun v =>
    (t.planTemplates.lookup v).join

/-- `deployment_ids_by_namespace`, of one namespace: a later row replaces an earlier one -/
def deploymentIdOf (t : Tables) (ns : Option String) : Option String :=
  ns.bind fun ns =>
    if ns = "" then none
    else (t.deployments.filter fun d => decide (d.ns = ns)).getLast?.map DeploymentRecord.id

end Tables

structure SamplerSettings extends Settings where
  usageFirstRunLookbackSeconds : Int
  usageMaxWindowsPerPass : Int
  environment : String
  buildsNamespace : String
  usageTenantDbNamespace : String
  usageBucketNamespace : String

/-- `Decimal(window_seconds) / SECONDS_PER_HOUR` -/
def SamplerSettings.hours (settings : SamplerSettings) : ℚ :=
  settings.usageWindowSeconds / secondsPerHour

def SamplerSettings.windowEnd (settings : SamplerSettings) (windowStart : Int) : Int :=
  windowStart + settings.usageWindowSeconds * second

/-! ## containers, from OpenCost -/

structure Allocation where
  ns : Option String
  controllerKind : Option String
  controller : Option String
  container : String
  minutes : ℚ
  fields : List (String × ℚ)
  namespaceLabels : List (String × String)

namespace Allocation

def unmounted : String := "__unmounted__"

def isUnmounted (a : Allocation) : Bool := decide (a.container = unmounted)

def isTenant (a : Allocation) : Bool :=
  decide (a.namespaceLabels.lookup "caelus_dev_tenant" = some "true")

def tenantEnvironment (a : Allocation) : Option String :=
  a.namespaceLabels.lookup "caelus_dev_environment"

end Allocation

namespace OpenCost

/-- what the exporter check and the allocation request of a window come to -/
structure Answer where
  covered : Except String Bool
  windows : Except String (List (List Allocation))

/-- `read_window`: the allocations, or the reason the window is unusable -/
def readWindow (answer : Answer) : Except String (List Allocation) := do
  let covered ← answer.covered
  if covered then
    let windows ← answer.windows
    match windows.head? with
    | none | some [] => .error "the source reported no allocations"
    | some allocations => .ok allocations
  else .error "OpenCost's exporter published nothing over the window"

/-- `billable` -/
def billable (settings : SamplerSettings) (allocations : List Allocation) : List Allocation :=
  allocations.filter fun a =>
    !a.isUnmounted
      && !(a.isTenant && decide (¬ (a.tenantEnvironment = none ∨
        a.tenantEnvironment = some settings.environment)))
      && !decide (settings.buildsNamespace ≠ "" ∧ a.ns = some settings.buildsNamespace)

/-- `FIELD_METRICS` -/
def fieldMetrics : List (String × String) :=
  [("cpu_core_hours", "cpuCoreHours"), ("cpu_usage_cores_avg", "cpuCoreUsageAverage"),
    ("cpu_request_cores_avg", "cpuCoreRequestAverage"),
    ("cpu_limit_cores_avg", "cpuCoreLimitAverage"), ("ram_byte_hours", "ramByteHours"),
    ("ram_usage_bytes_avg", "ramByteUsageAverage"),
    ("ram_request_bytes_avg", "ramByteRequestAverage"),
    ("ram_limit_bytes_avg", "ramByteLimitAverage"),
    ("network_transmit_bytes", "networkTransferBytes"),
    ("network_receive_bytes", "networkReceiveBytes"), ("pv_byte_hours", "pvByteHours")]

def runningSeconds : String := "running_seconds"

/-- `quantities`: a field that is absent yields none -/
def quantities (a : Allocation) : List (String × ℚ) :=
  (fieldMetrics.filterMap fun m => (a.fields.lookup m.2).map fun value => (m.1, value)) ++
    [(runningSeconds, a.minutes * 60)]

def unresolved : String := "unresolved"

/-- Python's `or` of a name -/
def named (name : Option String) : String := (name.filter fun s => decide (s ≠ "")).getD unresolved

/-- `subject_ref` -/
def subjectRef (a : Allocation) : String :=
  a.ns.getD "None" ++ "/" ++ named a.controllerKind ++ "/" ++ named a.controller ++ "/" ++
    a.container

/-- `observations` -/
def observation (t : Tables) (a : Allocation) : Observation :=
  ⟨⟨.container, subjectRef a, a.ns, t.deploymentIdOf a.ns⟩, quantities a⟩

/-- `OpenCostSource.read` -/
def read (settings : SamplerSettings) (answer : Answer) (t : Tables) : Option (List Observation) :=
  match readWindow answer with
  | .error _ => none
  | .ok allocations =>
    match billable settings allocations with
    | [] => none
    | a :: rest => some ((a :: rest).map (observation t))

end OpenCost

/-! ## database sizes, from Prometheus -/

namespace Databases

def sizeMetric : String := "db_byte_hours"
def allowanceMetric : String := "db_allowance_byte_hours"

/-- what the coverage query and the size query of a window come to -/
structure Answer where
  covered : Except String Bool
  /-- a series has a `datname`, or none -/
  series : Except String (List (Option String × ℚ))

/-- `average_sizes` -/
def averageSizes (series : List (Option String × ℚ)) : List (String × ℚ) :=
  series.filterMap fun s => (s.1.filter fun name => decide (name ≠ "")).map fun name => (name, s.2)

/-- the quantities of a database of a known deployment -/
def quantities (settings : SamplerSettings) (size : ℚ) (allowance : Option Int) :
    List (String × ℚ) :=
  (sizeMetric, size * settings.hours) ::
    match allowance with
    | none => []
    | some bytes => if 0 < bytes then [(allowanceMetric, bytes * settings.hours)] else []

/-- the rows of `_KNOWN_DATABASES` for one measured size, as observations -/
def known (settings : SamplerSettings) (t : Tables) (windowEnd : Int) (size : String × ℚ) :
    List Observation :=
  (t.databases.filter fun row => decide (row.1 = size.1)).flatMap fun row =>
    ((t.surviving windowEnd).filter fun d => decide (d.id = row.2)).map fun d =>
      ⟨⟨.database, size.1, some settings.usageTenantDbNamespace, some d.id⟩,
        quantities settings size.2 (t.allowance d)⟩

/-- `DatabaseSizeSource.read` -/
def read (settings : SamplerSettings) (answer : Answer) (t : Tables) (windowStart : Int) :
    Option (List Observation) :=
  match answer.covered, answer.series with
  | .ok true, .ok series =>
    some ((averageSizes series).flatMap (known settings t (settings.windowEnd windowStart)))
  | _, _ => none

end Databases

/-! ## bucket sizes, from Prometheus -/

namespace Buckets

def sizeMetric : String := "object_storage_byte_hours"

/-- what the coverage query and the size query of a window come to -/
structure Answer where
  covered : Except String Bool
  /-- a series has a bucket, or the empty name -/
  series : Except String (List (String × ℚ))

/-- a digit of `[0-9a-f]` -/
def isHex (c : Char) : Bool := c.isDigit || (decide ('a' ≤ c) && decide (c ≤ 'f'))

/-- `deployment_id_of`: the match of `_BUCKET_NAME` -/
def deploymentIdOf (bucket : String) : Option String :=
  match bucket.toList.splitOn '-' with
  | [] => none
  | first :: groups =>
    if first = ['d', 'e', 'p'] ∧ groups.map List.length = [8, 4, 4, 4, 12] ∧
        groups.all (fun g => g.all isHex) = true then
      some (String.ofList (bucket.toList.drop 4))
    else none

/-- `average_sizes`: a bucket, its deployment and its size -/
def averageSizes (series : List (String × ℚ)) : List (String × String × ℚ) :=
  series.filterMap fun s =>
    (deploymentIdOf s.1).bind fun id => if 0 < s.2 then some (s.1, id, s.2) else none

/-- the rows of `_KNOWN_BUCKETS` for one measured size, as observations -/
def known (settings : SamplerSettings) (t : Tables) (windowEnd : Int)
    (size : String × String × ℚ) : List Observation :=
  ((t.surviving windowEnd).filter fun d => decide (d.id = size.2.1)).map fun d =>
    ⟨⟨.bucket, size.1, some settings.usageBucketNamespace, some d.id⟩,
      [(sizeMetric, size.2.2 * settings.hours)]⟩

/-- `BucketSizeSource.read` -/
def read (settings : SamplerSettings) (answer : Answer) (t : Tables) (windowStart : Int) :
    Option (List Observation) :=
  match answer.covered, answer.series with
  | .ok true, .ok series =>
    some ((averageSizes series).flatMap (known settings t (settings.windowEnd windowStart)))
  | _, _ => none

end Buckets

/-! ## the sources -/

inductive Source where
  | opencost | databases | buckets
  deriving DecidableEq

/-- everything outside the ledger that a window's reading depends on -/
structure Outside where
  opencost : OpenCost.Answer
  databases : Databases.Answer
  buckets : Buckets.Answer
  tables : Tables

namespace Source

/-- `name` -/
def name : Source → String
  | opencost => "opencost"
  | databases => "databases"
  | buckets => "buckets"

/-- `position_metrics` -/
def positionMetrics : Source → List String
  | opencost => ["network_receive_bytes", "network_transmit_bytes", "pv_byte_hours"]
  | databases => [Databases.sizeMetric]
  | buckets => [Buckets.sizeMetric]

/-- `read` -/
def read (settings : SamplerSettings) (outside : Outside) (windowStart : Int) :
    Source → Option (List Observation)
  | opencost => OpenCost.read settings outside.opencost outside.tables
  | databases => Databases.read settings outside.databases outside.tables windowStart
  | buckets => Buckets.read settings outside.buckets outside.tables windowStart

end Source

/-- `default_sources` -/
def defaultSources (settings : SamplerSettings) : List Source :=
  [.opencost] ++ (if settings.usageTenantDbNamespace ≠ "" then [.databases] else []) ++
    if settings.usageBucketNamespace ≠ "" then [.buckets] else []

end Freepod.Usage
