import Freepod.Platform.UsageSources
import Mathlib.Logic.Function.Basic

/-!
# The usage sampler

`services/usage/sampler.py` and `ledger.py`: which windows a pass reads, and how it writes them.

* A transaction writes a chunk of subjects and samples at a time.  A row it has written stays locked
  until it ends, and nobody sees it before it is committed.
* `System` runs any number of passes at once, one statement at a time, next to the workers that
  record builds; a read answers whatever the services answer, and a pass may raise or die between
  any two statements.
* A read takes all that a source has of a window at once.  The code's sources yield while the chunks
  are written, and look up the deployments of a chunk when they come to it.
-/

namespace Freepod.Usage.Sampler

open Base

/-! ## the ledger -/

/-- a row of `usage_subject`; its kind and reference are what it is found by -/
structure SubjectRow where
  id : Nat
  ns : Option String
  deploymentId : Option String
  firstSeenAt : Int
  lastSeenAt : Int

/-- what is committed, and the next value of the sequence -/
structure Ledger where
  subjects : SubjectKey → Option SubjectRow
  samples : List SampleRow
  nextId : Nat

/-- what a transaction has written: the subjects it has locked, and the samples it has added -/
structure Transaction where
  subjects : SubjectKey → Option SubjectRow
  samples : List SampleRow

def Transaction.empty : Transaction := ⟨fun _ => none, []⟩

/-- one subject's samples of one window -/
structure Entry where
  subject : SubjectSpec
  windowStart : Int
  quantities : List (String × ℚ)

/-- `_merged`, one spec more -/
def mergeSpec (merged : List SubjectSpec) (spec : SubjectSpec) : List SubjectSpec :=
  if spec.key ∈ merged.map SubjectSpec.key then
    merged.map fun prior =>
      if prior.key = spec.key ∧ prior.deploymentId = none then
        { prior with deploymentId := spec.deploymentId }
      else prior
  else merged ++ [spec]

/-- `_merged` -/
def merged (specs : List SubjectSpec) : List SubjectSpec := specs.foldl mergeSpec []

/-- one row of `upsert_subjects`, on what the transaction has written and the sequence -/
def upsertSubject (committed : SubjectKey → Option SubjectRow) (observedAt : Int)
    (written : (SubjectKey → Option SubjectRow) × Nat) (spec : SubjectSpec) :
    (SubjectKey → Option SubjectRow) × Nat :=
  let row := match (written.1 spec.key).or (committed spec.key) with
    | some row => { row with
        lastSeenAt := observedAt
        deploymentId := row.deploymentId.or spec.deploymentId }
    | none => ⟨written.2, spec.ns, spec.deploymentId, observedAt, observedAt⟩
  (Function.update written.1 spec.key (some row), written.2 + 1)

/-- the rows of a chunk, once its subjects have their ids -/
def entryRows (subjects : SubjectKey → Option SubjectRow) (intervalSeconds observedAt : Int)
    (entries : List Entry) : List SampleRow :=
  entries.flatMap fun e =>
    match subjects e.subject.key with
    | none => []
    | some row => e.quantities.map fun q =>
        ⟨row.id, q.1, e.windowStart, intervalSeconds, q.2, observedAt⟩

namespace Ledger

/-- a chunk of `record_observations`: its subjects in one upsert, then its samples -/
def write (l : Ledger) (tx : Transaction) (catalog : List String)
    (intervalSeconds observedAt : Int) (entries : List Entry) :
    Except String (Ledger × Transaction) :=
  let upserted := (merged (entries.map Entry.subject)).foldl (upsertSubject l.subjects observedAt)
    (tx.subjects, l.nextId)
  do
    let visible ← recordSamples catalog (l.samples ++ tx.samples)
      (entryRows upserted.1 intervalSeconds observedAt entries)
    .ok ({ l with nextId := upserted.2 }, ⟨upserted.1, visible.drop l.samples.length⟩)

/-- `session.commit` -/
def commit (l : Ledger) (tx : Transaction) : Ledger where
  subjects := fun k => (tx.subjects k).or (l.subjects k)
  samples := l.samples ++ tx.samples
  nextId := l.nextId

end Ledger

/-! ## which windows a pass reads -/

/-- `position_of` -/
def positionOf (samples : List SampleRow) (metric : String) : Option Int :=
  ((samples.filter fun r => decide (r.metric = metric)).map SampleRow.windowStart).max?

/-- `last_recorded_window` -/
def lastRecordedWindow (samples : List SampleRow) (metrics : List String) : Option Int :=
  (metrics.filterMap (positionOf samples)).max?

/-- `resume_from` -/
def resumeFrom (samples : List SampleRow) (settings : SamplerSettings) (now : Int)
    (metrics : List String) : Except String Int :=
  match lastRecordedWindow samples metrics with
  | some recorded => do
    let recorded ← align recorded settings.usageWindowSeconds
    checked (recorded + settings.usageWindowSeconds * second)
  | none => do
    let moment ← checked (now - settings.usageFirstRunLookbackSeconds * second)
    align moment settings.usageWindowSeconds

/-- `recordable_until` -/
def recordableUntil (settings : SamplerSettings) (now : Int) : Except String Int := do
  let moment ← checked (now - settings.usageSettleSeconds * second)
  align moment settings.usageWindowSeconds

/-- `pending_windows` -/
def pendingWindows (samples : List SampleRow) (settings : SamplerSettings) (now : Int)
    (metrics : List String) : Except String (List Int) := do
  let start ← resumeFrom samples settings now metrics
  let stop ← recordableUntil settings now
  let span := wholeSeconds (stop - start)
  let count := min settings.usageMaxWindowsPerPass (max 0 (span / settings.usageWindowSeconds))
  (List.range count.toNat).mapM fun i : Nat =>
    checked (start + i * settings.usageWindowSeconds * second)

/-! ## the passes -/

/-- `SampleRun`; a reason names a source and a window -/
structure SampleRun where
  windowsRecorded : Nat
  windowsSkipped : Nat
  samplesWritten : Nat
  skippedReasons : List (String × Int)
  failedSources : List String

/-- a call of `sample_once` under way -/
structure Sampling where
  now : Int
  settings : SamplerSettings
  catalog : List String
  /-- the sources still to be walked, with the one being walked -/
  sources : List Source
  /-- the windows still to be read, once they are known -/
  windows : Option (List Int)
  /-- what is left to write of the window being recorded, once it is read -/
  reading : Option (List Observation)
  tx : Transaction
  result : SampleRun
  /-- the windows planned for the source, and what the one being recorded has been read to hold:
  kept for the statements, no step reads them -/
  planned : List Int
  read : List Observation

/-- a committed window, kept for the statements: no step reads it -/
structure Recorded where
  source : Source
  window : Int
  observations : List Observation
  settings : SamplerSettings
  now : Int

namespace Sampling

/-- `sample_once` begins -/
def start (now : Int) (settings : SamplerSettings) (catalog : List String) : Sampling where
  now := now
  settings := settings
  catalog := catalog
  sources := defaultSources settings
  windows := none
  reading := none
  tx := .empty
  result := ⟨0, 0, 0, [], []⟩
  planned := []
  read := []

/-- the transaction is over, and with it the walk of the source -/
def nextSource (p : Sampling) (result : SampleRun) : Sampling :=
  { p with
    sources := p.sources.tail
    windows := none
    reading := none
    tx := .empty
    result := result
    planned := []
    read := [] }

/-- the source raised: rollback, and the next source -/
def raised (p : Sampling) : Sampling :=
  p.nextSource { p.result with
    failedSources := p.result.failedSources ++ (p.sources.head?.map Source.name).toList }

/-- the window is unusable: rollback, and the loop of the source is left -/
def skipped (p : Sampling) (source : Source) (window : Int) : Sampling :=
  p.nextSource { p.result with
    windowsSkipped := p.result.windowsSkipped + 1
    skippedReasons := p.result.skippedReasons ++ [(source.name, window)] }

/-- the window is committed -/
def committed (p : Sampling) (windows : List Int) : Sampling :=
  { p with
    windows := some windows
    reading := none
    tx := .empty
    result := { p.result with
      windowsRecorded := p.result.windowsRecorded + 1
      samplesWritten := p.result.samplesWritten + p.tx.samples.length }
    read := [] }

end Sampling

structure System where
  ledger : Ledger
  samplings : List Sampling
  recorded : List Recorded

inductive Event where
  /-- a worker calls `sample_once` -/
  | start (now : Int) (settings : SamplerSettings) (catalog : List String)
  /-- `pending_windows` of the source a pass has come to -/
  | plan (i : Nat)
  /-- the source reads the next window -/
  | read (i : Nat) (outside : Outside)
  /-- the next chunk of its observations is written -/
  | write (i : Nat)
  /-- the window is committed -/
  | commit (i : Nat)
  /-- the loop of a source ends -/
  | finish (i : Nat)
  /-- a statement raises, or the source does -/
  | raise (i : Nat)
  /-- the worker dies, or the pass returns -/
  | leave (i : Nat)
  /-- the transaction of a build's recording -/
  | build (b : Build) (settings : SamplerSettings) (now : Int) (catalog : List String)
      (deploymentId : Option String)

/-- `CHUNK_SIZE` -/
def chunkSize : Nat := 1000

namespace System

def set (s : System) (i : Nat) (p : Sampling) : System :=
  { s with samplings := s.samplings.set i p }

/-- a subject that is locked, and not by the pass `i` -/
def lockedOut (s : System) (i : Nat) (k : SubjectKey) : Bool :=
  s.samplings.zipIdx.any fun p => decide (p.2 ≠ i) && (p.1.tx.subjects k).isSome

def plan (s : System) (i : Nat) : Option System := do
  let p ← s.samplings[i]?
  let source ← p.sources.head?
  if p.windows.isNone then
    match pendingWindows s.ledger.samples p.settings p.now source.positionMetrics with
    | .error _ => some (s.set i p.raised)
    | .ok windows => some (s.set i { p with windows := some windows, planned := windows })
  else none

def read (s : System) (i : Nat) (outside : Outside) : Option System := do
  let p ← s.samplings[i]?
  let source ← p.sources.head?
  let windows ← p.windows
  let window ← windows.head?
  if p.reading.isNone then
    match source.read p.settings outside window with
    | none => some (s.set i (p.skipped source window))
    | some observations =>
      some (s.set i { p with reading := some observations, read := observations })
  else none

/-- a chunk waits for the subjects it names, as long as another transaction has them locked -/
def write (s : System) (i : Nat) : Option System := do
  let p ← s.samplings[i]?
  let windows ← p.windows
  let window ← windows.head?
  let observations ← p.reading
  let chunk := observations.take chunkSize
  if chunk ≠ [] ∧ ∀ o ∈ chunk, s.lockedOut i o.subject.key = false then
    match s.ledger.write p.tx p.catalog p.settings.usageWindowSeconds p.now
        (chunk.map fun o => ⟨o.subject, window, o.quantities⟩) with
    | .error _ => some (s.set i p.raised)
    | .ok (ledger, tx) =>
      some { s.set i { p with reading := some (observations.drop chunkSize), tx := tx } with
        ledger := ledger }
  else none

def commit (s : System) (i : Nat) : Option System := do
  let p ← s.samplings[i]?
  let source ← p.sources.head?
  let windows ← p.windows
  let window ← windows.head?
  let observations ← p.reading
  if observations = [] then
    some { s.set i (p.committed windows.tail) with
      ledger := s.ledger.commit p.tx
      recorded := s.recorded ++ [⟨source, window, p.read, p.settings, p.now⟩] }
  else none

def finish (s : System) (i : Nat) : Option System := do
  let p ← s.samplings[i]?
  let windows ← p.windows
  if windows = [] then some (s.set i (p.nextSource p.result)) else none

def raise (s : System) (i : Nat) : Option System := do
  let p ← s.samplings[i]?
  some (s.set i p.raised)

def leave (s : System) (i : Nat) : Option System := do
  let p ← s.samplings[i]?
  some (s.set i { p.nextSource p.result with sources := [] })

/-- `str(build.id)` -/
def buildRef (b : Build) : String := toString b.id

/-- `record_build` and its commit; a recording that raises leaves nothing behind -/
def build (s : System) (b : Build) (settings : SamplerSettings) (now : Int)
    (catalog : List String) (deploymentId : Option String) : Option System :=
  match windowQuantities b settings.usageWindowSeconds with
  | .error _ => none
  | .ok windows =>
    if s.lockedOut s.samplings.length (.build, buildRef b) then none
    else
      match s.ledger.write .empty catalog settings.usageWindowSeconds now
          (windows.map fun w => ⟨⟨.build, buildRef b, some settings.buildsNamespace, deploymentId⟩,
            w.windowStart, w.quantities⟩) with
      | .error _ => none
      | .ok (ledger, tx) => some { s with ledger := ledger.commit tx }

def step (s : System) : Event → Option System
  | .start now settings catalog =>
    some { s with samplings := s.samplings ++ [.start now settings catalog] }
  | .plan i => s.plan i
  | .read i outside => s.read i outside
  | .write i => s.write i
  | .commit i => s.commit i
  | .finish i => s.finish i
  | .raise i => s.raise i
  | .leave i => s.leave i
  | .build b settings now catalog deploymentId => s.build b settings now catalog deploymentId

def machine : Machine System Event := ⟨step⟩

end System

end Freepod.Usage.Sampler
