import Mathlib.Data.List.Sort
import Mathlib.Data.String.Basic
import Mathlib.Algebra.Order.Ring.Int

/-!
# Following a log on the platform

`services/log_stream.py` over `services/loki.py`, and the log endpoint of `api/users.py`: the query
for the first batch, and the loop that asks for what comes after it.

* `Query.Answers`: what Loki may answer; `parse`: the answer in the order of its lines.
* `Cursor`: what has been delivered; `Cursor.deliver`: what it lets through of a batch.
* `Stream.start` and `Stream.poll`: the body of the response.

An instant is a number of nanoseconds.  The store holds the lines that the source's selector
selects.
-/

namespace Freepod.LogStream

def nsPerSecond : Nat := 1000000000

/-! ## The store -/

structure LogEntry where
  timestampNs : Nat
  line : String
  labels : List (String × String)
  deriving DecidableEq

/-- the key `_parse` sorts by -/
def LogEntry.key (e : LogEntry) : Nat × String := (e.timestampNs, e.line)

def LogEntry.before (a b : LogEntry) : Prop :=
  a.timestampNs < b.timestampNs ∨ a.timestampNs = b.timestampNs ∧ a.line ≤ b.line

instance : DecidableRel LogEntry.before := fun _ _ => inferInstanceAs (Decidable (_ ∨ _))

/-- the lines of an answer that come with the same labels -/
structure LokiStream where
  stream : List (String × String)
  values : List (Nat × String)

/-- `_parse`: one ascending sequence, whichever the direction -/
def parse (result : List LokiStream) : List LogEntry :=
  (result.flatMap fun s => s.values.map fun v => ⟨v.1, v.2, s.stream⟩).insertionSort LogEntry.before

inductive Direction where
  | backward | forward

structure Query where
  startNs : Nat
  endNs : Option Nat
  limit : Nat
  direction : Direction

/-- the lines in the query's range; without an end it ends at Loki's clock -/
def Query.matching (q : Query) (now : Nat) (store : List LogEntry) : List LogEntry :=
  store.filter fun e => decide (q.startNs ≤ e.timestampNs ∧ e.timestampNs < q.endNs.getD now)

/-- whether `a` goes into an answer before `b` does -/
def Query.prefers (q : Query) (a b : LogEntry) : Prop :=
  match q.direction with
  | .forward => a.timestampNs ≤ b.timestampNs
  | .backward => b.timestampNs ≤ a.timestampNs

instance (q : Query) : DecidableRel q.prefers := fun a b => by
  unfold Query.prefers
  cases q.direction <;> infer_instance

/-- what Loki may answer: as many lines as the limit allows, from the end that is asked for -/
def Query.Answers (q : Query) (now : Nat) (store entries : List LogEntry) : Prop :=
  entries.Subperm (q.matching now store) ∧
    entries.length = min q.limit (q.matching now store).length ∧
    ∀ e ∈ (q.matching now store).diff entries, ∀ b ∈ entries, q.prefers b e

instance (q : Query) (now : Nat) (store entries : List LogEntry) :
    Decidable (q.Answers now store entries) := inferInstanceAs (Decidable (_ ∧ _ ∧ _))

/-! ## One log -/

/-- a log: a stored line as the payload of an event, if it is one of the log's records.  A payload
carries the timestamp of its line, and the line's text decides whether it is a record. -/
structure LogSource (δ : Type) where
  render : LogEntry → Option δ
  ts : δ → Nat
  ts_render : ∀ e d, render e = some d → ts d = e.timestampNs
  own_line : ∀ e e' : LogEntry, e.line = e'.line → (render e).isSome = (render e').isSome

def releaseLabel : String := "release_id"

structure LogRecord where
  ts : Nat
  line : String
  release : Option String
  deriving DecidableEq

/-- `deployment_logs.render` -/
def render (entry : LogEntry) : LogRecord :=
  ⟨entry.timestampNs, entry.line, entry.labels.lookup releaseLabel⟩

/-- a deployment's output, of which every line is a record -/
def logSource : LogSource LogRecord where
  render := fun entry => some (render entry)
  ts := LogRecord.ts
  ts_render := by
    rintro e d ⟨⟩
    rfl
  own_line := fun _ _ _ => rfl

/-! ## What a client asks for -/

structure Settings where
  logTailLines : Nat
  logMaxTailLines : Nat
  logInitialLookbackSeconds : Nat
  logKeepaliveSeconds : Nat
  logStreamMaxLifetimeSeconds : Nat

structure Request where
  tail : Option Nat
  lookback : Option Nat
  since : Option Nat

def minTimestampNs : Nat := 1000000000 * nsPerSecond
def maxTimestampNs : Nat := 2 ^ 64 - 1

/-- the range check of `parse_resume_timestamp`; a 400 where it is not met -/
def parseResumeTimestamp (value : Option Nat) : Option (Option Nat) :=
  match value with
  | none => some none
  | some ns => if minTimestampNs ≤ ns ∧ ns ≤ maxTimestampNs then some (some ns) else none

/-- `check_lookback`, or a 400 -/
def checkLookback (settings : Settings) (seconds : Option Nat) : Option (Option Nat) :=
  match seconds with
  | none => some none
  | some n => if settings.logInitialLookbackSeconds < n then none else some (some n)

/-- `tail or log_tail_lines`, and no more than the most -/
def requestedTail (settings : Settings) (tail : Option Nat) : Nat :=
  min ((tail.filter (· ≠ 0)).getD settings.logTailLines) settings.logMaxTailLines

/-- the query of `fetch_initial` -/
def fetchInitial (settings : Settings) (tail : Nat) (resumeNs lookbackSeconds : Option Nat)
    (nowNs : Nat) : Query :=
  match resumeNs with
  | some ns => ⟨ns, none, tail, .forward⟩
  | none =>
    let lookback := (lookbackSeconds.filter (· ≠ 0)).getD settings.logInitialLookbackSeconds
    ⟨max (nowNs - lookback * nsPerSecond) 1, some (nowNs + 1), tail, .backward⟩

/-- the query a request begins with, unless it is refused -/
def Request.query (settings : Settings) (request : Request) (nowNs : Nat) : Option Query := do
  let resumeNs ← parseResumeTimestamp request.since
  let lookbackSeconds ← checkLookback settings request.lookback
  some (fetchInitial settings (requestedTail settings request.tail) resumeNs lookbackSeconds nowNs)

/-! ## The cursor -/

/-- the resume point, and the lines that were delivered at it -/
structure Cursor where
  ns : Option Nat
  deliveredAtNs : List String

def Cursor.init : Cursor := ⟨none, []⟩

def Cursor.shouldEmit (c : Cursor) (entry : LogEntry) : Bool :=
  match c.ns with
  | none => true
  | some ns =>
    if entry.timestampNs < ns then false
    else !(decide (entry.timestampNs = ns) && c.deliveredAtNs.contains entry.line)

def Cursor.advance (c : Cursor) (entry : LogEntry) : Cursor :=
  match c.ns with
  | none => ⟨some entry.timestampNs, [entry.line]⟩
  | some ns =>
    if ns < entry.timestampNs then ⟨some entry.timestampNs, [entry.line]⟩
    else { c with deliveredAtNs := entry.line :: c.deliveredAtNs }

/-- the entries of a batch that the cursor lets through, and the cursor after them -/
def Cursor.deliver (c : Cursor) : List LogEntry → Cursor × List LogEntry
  | [] => (c, [])
  | entry :: entries =>
    if c.shouldEmit entry then
      let (c', taken) := (c.advance entry).deliver entries
      (c', entry :: taken)
    else c.deliver entries

/-! ## The body of the response -/

inductive Chunk (δ : Type) where
  | event (data : δ)
  | keepalive
  | error (code message : String)
  | ended (reason : String)
  deriving DecidableEq

def endComplete : String := "complete"
def endLifetime : String := "lifetime"

def Chunk.data? {δ : Type} : Chunk δ → Option δ
  | .event data => some data
  | _ => none

/-- the variables of `stream`, and what it has yielded -/
structure Stream (δ : Type) where
  cursor : Cursor
  batchLimit : Nat
  openedAt : Nat
  lastWriteAt : Nat
  sent : List (Chunk δ)
  isOpen : Bool

variable {δ : Type}

/-- the events among what was yielded -/
def Stream.events (s : Stream δ) : List δ := s.sent.filterMap Chunk.data?

/-- the stream yields its last chunk -/
def Stream.finish (s : Stream δ) (chunk : Chunk δ) : Stream δ :=
  { s with sent := s.sent ++ [chunk], isOpen := false }

/-- the events of the entries that are records -/
def LogSource.emit (source : LogSource δ) (taken : List LogEntry) : List (Chunk δ) :=
  (taken.filterMap source.render).map .event

/-- `stream` up to its loop: the first batch goes out -/
def Stream.start (settings : Settings) (source : LogSource δ) (initial : List LogEntry)
    (follow : Bool) (now : Nat) : Stream δ :=
  let (cursor, taken) := Cursor.init.deliver initial
  let s : Stream δ := ⟨cursor, settings.logMaxTailLines, now, now, source.emit taken, true⟩
  if follow then s else s.finish (.ended endComplete)

/-- the query of one turn of the loop -/
def Stream.query (s : Stream δ) (nowNs : Nat) : Query :=
  ⟨s.cursor.ns.getD nowNs, none, s.batchLimit, .forward⟩

/-- one turn of the loop, at the instant `now` of the monotonic clock -/
def Stream.poll (settings : Settings) (source : LogSource δ) (now : Nat)
    (answer : Except String (List LogEntry)) (s : Stream δ) : Stream δ :=
  if settings.logStreamMaxLifetimeSeconds * nsPerSecond ≤ now - s.openedAt then
    s.finish (.ended endLifetime)
  else
    match answer with
    | .error message => s.finish (.error "log_store_unavailable" message)
    | .ok entries =>
      let (cursor, taken) := s.cursor.deliver entries
      let emitted := source.emit taken
      let lastWriteAt := if emitted.isEmpty then s.lastWriteAt else now
      let s' : Stream δ := { s with cursor, lastWriteAt, sent := s.sent ++ emitted }
      if taken.isEmpty && s.batchLimit ≤ entries.length then
        -- a full batch that moved nothing: its lines share the cursor's nanosecond
        if settings.logMaxTailLines * 8 ≤ s.batchLimit then
          s'.finish (.error "cursor_stalled" ("Too many log lines share a single nanosecond to " ++
            "continue following this deployment."))
        else { s' with batchLimit := s.batchLimit * 2 }
      else
        let batchLimit := if taken.isEmpty then s.batchLimit else settings.logMaxTailLines
        if settings.logKeepaliveSeconds * nsPerSecond ≤ now - lastWriteAt then
          { s' with batchLimit, lastWriteAt := now, sent := s'.sent ++ [.keepalive] }
        else { s' with batchLimit }

end Freepod.LogStream
