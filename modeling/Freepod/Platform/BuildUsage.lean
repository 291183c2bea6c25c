import Freepod.Base.Binary64
import Freepod.Base.Machine
import Freepod.Platform.Rows
import Mathlib.Algebra.Order.Ring.Int
import Mathlib.Algebra.Order.Ring.Rat
import Mathlib.Data.Int.ConditionallyCompleteOrder
import Mathlib.Data.Rat.Floor

/-!
# A build's usage in the ledger

`services/usage/builds.py`: what a build's run amounts to in each window (`windowQuantities`), and
the passes that record it (`pending`, `recordBuild`, `Pass`).

* Instants are microseconds from 1970, in UTC without a zone, as the columns hold them; `Decimal` is
  exact, and `total_seconds` is a double.
* `record_settled_builds` runs as a machine: any number of passes, each build of a pass its own
  transaction, which commits, fails or dies with the pass.  A row stays locked from the query that
  finds it to the end of its transaction.
-/

namespace Freepod.Usage

open Base

/-! ## the window grid -/

/-- a second in microseconds -/
def second : Int := 1000000

/-- the first and the last moment a `datetime` can hold -/
def datetimeMin : Int := -62135596800000000
def datetimeMax : Int := 253402300799999999

def outOfRange : String := "date value out of range"

/-- the result of `datetime` arithmetic -/
def checked (moment : Int) : Except String Int :=
  if datetimeMin ≤ moment ∧ moment ≤ datetimeMax then .ok moment else .error outOfRange

/-- `int(delta.total_seconds())`: a double, cut off toward zero -/
def wholeSeconds (delta : Int) : Int :=
  if 0 ≤ delta then truncQuotient delta.toNat 1000000 else -truncQuotient (-delta).toNat 1000000

/-- the grid point `align` goes for -/
def gridPoint (moment windowSeconds : Int) : Int :=
  (wholeSeconds moment - wholeSeconds moment % windowSeconds) * second

/-- `align` -/
def align (moment windowSeconds : Int) : Except String Int :=
  checked (gridPoint moment windowSeconds)

/-! ## the quantities of a window -/

structure Build where
  id : Nat
  status : BuildStatus
  jobId : Option String
  startedAt : Option Int
  finishedAt : Option Int
  usageCpuSeconds : Option ℚ
  usageMemoryByteSeconds : Option Int
  usageStartedAt : Option Int
  usageFinishedAt : Option Int
  usageRecordedAt : Option Int

/-- `500m`, `4`, `1Gi` and `6Gi` -/
def cpuRequestCores : ℚ := 500 / 1000
def cpuLimitCores : ℚ := 4
def memoryRequestBytes : ℚ := 2 ^ 30
def memoryLimitBytes : ℚ := 6 * 2 ^ 30

def secondsPerHour : ℚ := 3600

/-- `_seconds` -/
def seconds (delta : Int) : ℚ := delta / 1000000

/-- the report of a build that made one: CPU seconds, byte seconds and the container's run -/
def measurement (b : Build) : Option (ℚ × Int × Int × Int) :=
  match b.usageCpuSeconds, b.usageMemoryByteSeconds, b.usageStartedAt, b.usageFinishedAt with
  | some cpu, some memory, some start, some finish => some (cpu, memory, start, finish)
  | _, _, _, _ => none

/-- `run_of` -/
def runOf (b : Build) : Option (Int × Int) :=
  match measurement b with
  | some (_, _, start, finish) => some (start, finish)
  | none =>
    match b.startedAt, b.finishedAt with
    | some start, some finish => some (start, finish)
    | _, _ => none

structure WindowUsage where
  windowStart : Int
  quantities : List (String × ℚ)

/-- the quantities of a window that holds `overlap` of a run of `wall` seconds -/
def quantitiesOf (b : Build) (wall overlap : ℚ) : List (String × ℚ) :=
  let share := overlap / wall
  let hours := overlap / secondsPerHour
  let cpuFloor := cpuRequestCores * hours
  let memoryFloor := memoryRequestBytes * hours
  [("cpu_request_cores_avg", cpuRequestCores), ("cpu_limit_cores_avg", cpuLimitCores),
    ("ram_request_bytes_avg", memoryRequestBytes), ("ram_limit_bytes_avg", memoryLimitBytes),
    ("running_seconds", overlap)] ++
  match measurement b with
  | some (cpuSeconds, memoryByteSeconds, _, _) =>
    [("cpu_core_hours", max cpuFloor (cpuSeconds * share / secondsPerHour)),
      ("ram_byte_hours", max memoryFloor (memoryByteSeconds * share / secondsPerHour)),
      ("cpu_usage_cores_avg", cpuSeconds / wall),
      ("ram_usage_bytes_avg", memoryByteSeconds / wall)]
  | none => [("cpu_core_hours", cpuFloor), ("ram_byte_hours", memoryFloor)]

/-- the loop of `window_quantities`, for at most the given number of windows -/
def windowsFrom (b : Build) (start finish step : Int) :
    Nat → Int → Except String (List WindowUsage)
  | 0, _ => .ok []
  | n + 1, windowStart =>
    if windowStart < finish then do
      let stop ← checked (windowStart + step)
      let overlap := seconds (min finish stop - max start windowStart)
      let rest ← windowsFrom b start finish step n stop
      .ok (⟨windowStart, quantitiesOf b (seconds (finish - start)) overlap⟩ :: rest)
    else .ok []

/-- how many windows there are from a grid point on -/
def windowCount (finish step windowStart : Int) : Nat := (-((windowStart - finish) / step)).toNat

/-- `window_quantities` -/
def windowQuantities (b : Build) (windowSeconds : Int) : Except String (List WindowUsage) :=
  match runOf b with
  | none => .ok []
  | some (start, finish) =>
    if finish ≤ start then .ok []
    else do
      let windowStart ← align start windowSeconds
      windowsFrom b start finish (windowSeconds * second)
        (windowCount finish (windowSeconds * second) windowStart) windowStart

/-! ## the ledger -/

/-- a row of the ledger; a build's subject is named by the build -/
structure SampleRow where
  subject : Nat
  metric : String
  windowStart : Int
  intervalSeconds : Int
  value : ℚ
  observedAt : Int

/-- the key the ledger has one row for -/
def SampleRow.key (r : SampleRow) : Nat × String × Int := (r.subject, r.metric, r.windowStart)

/-- `ON CONFLICT DO NOTHING` -/
def insertSample (samples : List SampleRow) (r : SampleRow) : List SampleRow :=
  if r.key ∈ samples.map SampleRow.key then samples else samples ++ [r]

/-- `record_samples` -/
def recordSamples (catalog : List String) (samples rows : List SampleRow) :
    Except String (List SampleRow) :=
  if rows.all fun r => decide (r.metric ∈ catalog) then .ok (rows.foldl insertSample samples)
  else .error "uncatalogued metric(s)"

structure Settings where
  usageWindowSeconds : Int
  usageSettleSeconds : Int

/-- the rows of a build's windows -/
def sampleRows (b : Build) (settings : Settings) (now : Int) (windows : List WindowUsage) :
    List SampleRow :=
  windows.flatMap fun w => w.quantities.map fun q =>
    ⟨b.id, q.1, w.windowStart, settings.usageWindowSeconds, q.2, now⟩

/-- `record_build`: the build as it is then, and the ledger -/
def recordBuild (catalog : List String) (samples : List SampleRow) (b : Build) (settings : Settings)
    (now : Int) : Except String (Build × List SampleRow) := do
  let windows ← windowQuantities b settings.usageWindowSeconds
  let samples ← recordSamples catalog samples (sampleRows b settings now windows)
  .ok ({ b with usageRecordedAt := some now }, samples)

/-! ## the passes -/

/-- a pass that is under way: how many builds it may still take, and the one it has locked -/
structure Pass where
  now : Int
  settings : Settings
  catalog : List String
  settledBefore : Int
  left : Nat
  failed : List Nat
  holding : Option Nat

/-- what a transaction recorded: kept for the statements, no step reads it -/
structure Record where
  build : Nat
  now : Int
  settings : Settings

structure System where
  builds : List Build
  samples : List SampleRow
  passes : List Pass
  records : List Record

/-- `greatest`, which passes over a null -/
def greatest : Option Int → Option Int → Option Int
  | some a, some b => some (max a b)
  | some a, none => some a
  | none, b => b

/-- the conditions of `_next_pending` on a row -/
def pending (settledBefore : Int) (b : Build) : Bool :=
  decide (b.status = .succeeded ∨ b.status = .failed) && b.jobId.isSome && b.usageRecordedAt.isNone
    && (greatest b.finishedAt b.usageFinishedAt).any fun t => decide (t < settledBefore)

/-- the order of `finished_at`, a null last -/
def finishedKey (b : Build) : WithTop Int :=
  match b.finishedAt with
  | some t => t
  | none => ⊤

namespace System

/-- the rows other transactions have locked -/
def locked (s : System) : List Nat := s.passes.filterMap Pass.holding

/-- what `_next_pending` may return: a row that is not locked, of a build the pass has not failed -/
def eligible (s : System) (p : Pass) : List Build :=
  s.builds.filter fun b =>
    pending p.settledBefore b && decide (b.id ∉ s.locked) && decide (b.id ∉ p.failed)

/-- the pass `i` after it has changed -/
def setPass (s : System) (i : Nat) (p : Pass) : System := { s with passes := s.passes.set i p }

def find (s : System) (id : Nat) : Option Build := s.builds.find? fun b => decide (b.id = id)

def setBuild (s : System) (b : Build) : System :=
  { s with builds := s.builds.map fun b' => if b'.id = b.id then b else b' }

end System

inductive Event where
  /-- a worker begins a pass -/
  | start (now : Int) (settings : Settings) (catalog : List String) (maxBuilds : Nat)
  /-- `_next_pending` returns a build to the pass `i` and locks it -/
  | take (i : Nat) (id : Nat)
  /-- the pass records the build it holds and commits -/
  | record (i : Nat)
  /-- recording raises: the transaction is rolled back and the build excluded from the pass -/
  | fail (i : Nat)
  /-- the pass ends, or its worker dies: its transaction is rolled back -/
  | leave (i : Nat)
  /-- a build is created -/
  | create (b : Build)
  /-- a build that is not terminal is advanced -/
  | advance (b : Build)

/-- the pass a worker begins -/
def beginPass (now : Int) (settings : Settings) (catalog : List String) (maxBuilds : Nat) :
    Except String Pass := do
  let moment ← checked (now - settings.usageSettleSeconds * second)
  let settledBefore ← align moment settings.usageWindowSeconds
  .ok ⟨now, settings, catalog, settledBefore, maxBuilds, [], none⟩

namespace System

def take (s : System) (i id : Nat) : Option System := do
  let p ← s.passes[i]?
  let b ← (s.eligible p).find? fun b => decide (b.id = id)
  if p.left ≠ 0 ∧ p.holding = none ∧ ∀ b' ∈ s.eligible p, finishedKey b ≤ finishedKey b' then
    some (s.setPass i { p with holding := some id })
  else none

def record (s : System) (i : Nat) : Option System := do
  let p ← s.passes[i]?
  let id ← p.holding
  let b ← s.find id
  match recordBuild p.catalog s.samples b p.settings p.now with
  | .error _ => none
  | .ok (b', samples) =>
    some { (s.setPass i { p with left := p.left - 1, holding := none }).setBuild b' with
      samples := samples
      records := s.records ++ [⟨id, p.now, p.settings⟩] }

def fail (s : System) (i : Nat) : Option System := do
  let p ← s.passes[i]?
  let id ← p.holding
  some (s.setPass i { p with left := p.left - 1, failed := p.failed ++ [id], holding := none })

def leave (s : System) (i : Nat) : Option System := do
  let p ← s.passes[i]?
  some (s.setPass i { p with left := 0, holding := none })

def create (s : System) (b : Build) : Option System :=
  if b.id ∉ s.builds.map Build.id ∧ b.usageRecordedAt = none then
    some { s with builds := s.builds ++ [b] }
  else none

/-- no transition leaves a terminal status -/
def advance (s : System) (b : Build) : Option System := do
  let old ← s.find b.id
  if old.status = .queued ∨ old.status = .running then
    if b.usageRecordedAt = old.usageRecordedAt then some (s.setBuild b) else none
  else none

def step (s : System) : Event → Option System
  | .start now settings catalog maxBuilds =>
    match beginPass now settings catalog maxBuilds with
    | .error _ => none
    | .ok p => some { s with passes := s.passes ++ [p] }
  | .take i id => s.take i id
  | .record i => s.record i
  | .fail i => s.fail i
  | .leave i => s.leave i
  | .create b => s.create b
  | .advance b => s.advance b

def machine : Machine System Event := ⟨step⟩

/-- no build has been created yet -/
def empty : System := ⟨[], [], [], []⟩

end System

end Freepod.Usage
