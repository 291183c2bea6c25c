import Freepod.Base.Machine
import Freepod.Platform.LogStream

/-!
# Following a log across connections

`logs.py`: `stream_once` on one connection after the other, from `follow_stream`.  The client, the
connection and the platform's stream behind it, and the log store are one machine.

* `Follower`: what the client remembers across connections, and what it has printed.
* `World.step`: lines arrive at the store, the client connects, reads a chunk or loses the
  connection, and the platform's loop makes a turn.
-/

namespace Freepod.LogStream

open Base

variable {δ : Type}

/-! ## The client -/

inductive FollowState where
  | running
  /-- `follow_stream` has returned -/
  | returned
  /-- or raised -/
  | raised
  deriving DecidableEq

/-- the variables of `follow_stream`, with the `Cursor` it keeps and what it has printed; `first` is
set until the first connection is over -/
structure Follower (δ : Type) where
  ts : Option Nat
  printed : List δ
  failures : Nat
  first : Bool
  /-- how many lines there were when the connection was made -/
  delivered : Nat
  state : FollowState

def Follower.init : Follower δ := ⟨none, [], 0, true, 0, .running⟩

/-- the `tail` and the `lookback` that `freepod log` was called with, and `attempts` -/
structure FollowOptions where
  tail : Option Nat
  lookback : Option Nat
  attempts : Nat

/-- the parameters of the next connection -/
def Follower.request (options : FollowOptions) (f : Follower δ) : Request where
  tail := if f.first then options.tail else none
  lookback := if f.first && f.ts.isNone then options.lookback else none
  since := f.ts

/-- an event of the log: its line is printed -/
def Follower.print (source : LogSource δ) (f : Follower δ) (data : δ) : Follower δ :=
  { f with ts := some (source.ts data), printed := f.printed ++ [data] }

/-- an `HTTPError` or a `LogStreamInterrupted` -/
def Follower.interrupted (options : FollowOptions) (f : Follower δ) : Follower δ :=
  if options.attempts < f.failures + 1 then { f with failures := f.failures + 1, state := .raised }
  else { f with failures := f.failures + 1, first := false }

/-- `stream_once` has returned the platform's reason, or `None` -/
def Follower.over (options : FollowOptions) (f : Follower δ) (reason : Option String) :
    Follower δ :=
  let f := { f with
    first := false
    failures := if f.delivered < f.printed.length then 0 else f.failures }
  match reason with
  | some reason => if reason = endLifetime then f else { f with state := .returned }
  | none =>
    if options.attempts < f.failures + 1 then
      { f with failures := f.failures + 1, state := .raised }
    else { f with failures := f.failures + 1 }

/-! ## The client, a connection and the store -/

/-- a connection: the resume point it was made with, the stream behind it, and how many of the
stream's chunks the client has read -/
structure Connection (δ : Type) where
  since : Option Nat
  stream : Stream δ
  read : Nat

structure World (δ : Type) where
  store : List LogEntry
  clock : Nat
  follower : Follower δ
  connection : Option (Connection δ)

inductive Event where
  | arrive (entry : LogEntry)
  | pass (d : Nat)
  /-- a connection that the platform answers; `lokiNow` and `now` are Loki's clock and the
  platform's monotonic one -/
  | connect (lokiNow now : Nat) (result : List LokiStream)
  /-- a request that is answered with another status than success -/
  | refuse
  | poll (lokiNow now : Nat) (answer : Except String (List LokiStream))
  /-- the client reads the next chunk -/
  | read
  /-- the connection breaks, or is never made -/
  | interrupt
  /-- the response ends without an `end` event -/
  | hangUp

/-- the client reads a chunk -/
def World.readChunk (source : LogSource δ) (options : FollowOptions) (w : World δ)
    (c : Connection δ) : Chunk δ → World δ
  | .event data => { w with
      follower := w.follower.print source data
      connection := some { c with read := c.read + 1 } }
  | .keepalive => { w with connection := some { c with read := c.read + 1 } }
  | .error _ _ => { w with follower := { w.follower with state := .raised }, connection := none }
  | .ended reason =>
    { w with follower := w.follower.over options (some reason), connection := none }

def World.step (settings : Settings) (source : LogSource δ) (options : FollowOptions)
    (w : World δ) : Event → Option (World δ)
  | .arrive entry => some { w with store := w.store ++ [entry] }
  | .pass d => some { w with clock := w.clock + d }
  | .connect lokiNow now result => do
    guard (w.connection.isNone ∧ w.follower.state = .running)
    let query ← (w.follower.request options).query settings w.clock
    guard (query.Answers lokiNow w.store (parse result))
    some { w with
      follower := { w.follower with delivered := w.follower.printed.length }
      connection := some ⟨w.follower.ts, Stream.start settings source (parse result) true now, 0⟩ }
  | .refuse => do
    guard (w.connection.isNone ∧ w.follower.state = .running)
    some { w with follower := { w.follower with state := .raised } }
  | .poll lokiNow now answer => do
    let c ← w.connection
    guard (c.stream.isOpen = true)
    match answer with
    | .error message =>
      some { w with
        connection := some { c with stream := c.stream.poll settings source now (.error message) } }
    | .ok result =>
      guard ((c.stream.query w.clock).Answers lokiNow w.store (parse result))
      let stream := c.stream.poll settings source now (.ok (parse result))
      some { w with connection := some { c with stream } }
  | .read => do
    let c ← w.connection
    let chunk ← c.stream.sent[c.read]?
    some (w.readChunk source options c chunk)
  | .interrupt => do
    guard (w.follower.state = .running)
    some { w with follower := w.follower.interrupted options, connection := none }
  | .hangUp => do
    let _ ← w.connection
    some { w with follower := w.follower.over options none, connection := none }

/-- `freepod log --follow` on one deployment -/
def following (settings : Settings) (source : LogSource δ) (options : FollowOptions) :
    Machine (World δ) Event where
  step := World.step settings source options

/-- the store as it is when the command is run -/
def World.start (store : List LogEntry) (clock : Nat) : World δ := ⟨store, clock, .init, none⟩

end Freepod.LogStream
