import Mathlib.Algebra.Order.Ring.Int
import Mathlib.Data.Rat.Defs
import Mathlib.Algebra.Order.Ring.Rat

/-!
# The activity signal

* `Activity.writes`: reads Garage's request log from the cursor on.  Loki is a function of the
  query, which may fail.
* `Activity.counted`: records Garage's write counter.
* `Activity.cross`: the cross-check `Broken`, with the reading it judges (`Activity.judged`).
* `Event`, `Activity.run`: the calls of a run, and `Activity.answered` the queries Loki answered.

Instants are nanoseconds from Go's zero time, durations nanoseconds.
-/

namespace Freepod.Exporter

/-- a second -/
def second : Int := 1000000000

def maxActivityRange : Int := 3600 * second

/-- `t.Truncate(time.Second)` -/
def truncate (t : Int) : Int := t - t % second

/-- what the instant query asks for: the write lines of each bucket in the `seconds` up to `time` -/
structure Query where
  (namespace' : String)
  seconds : Int
  time : Int

/-- one bucket of the answer, and how many lines name it -/
structure Sample where
  bucket : String
  value : Nat

/-- a `window` -/
structure LogWindow where
  from' : Int
  to' : Int
  lines : Nat

/-- Garage's write counter as read at an instant -/
structure Reading where
  at' : Int
  value : ℚ

structure Activity where
  (namespace' : String)
  lag : Int
  cursor : Int
  windows : List LogWindow
  readings : List Reading
  broken : Bool

/-- the last `n` elements -/
def keepLast {α : Type*} (s : List α) (n : Nat) : List α :=
  if s.length > n then s.drop (s.length - n) else s

namespace Activity

/-- `NewActivity` -/
def new (namespace' : String) (lag now : Int) : Activity :=
  ⟨namespace', lag, truncate (now - lag), [], [], false⟩

/-- how far the log can be read at `now` -/
def until' (a : Activity) (now : Int) : Int :=
  if truncate (now - a.lag) - a.cursor > maxActivityRange then a.cursor + maxActivityRange
  else truncate (now - a.lag)

/-- the length of that range, in whole seconds -/
def seconds (a : Activity) (now : Int) : Int := (a.until' now - a.cursor).tdiv second

def query (a : Activity) (now : Int) : Query := ⟨a.namespace', a.seconds now, a.until' now⟩

/-- a query was answered -/
def advance (a : Activity) (now : Int) (samples : List Sample) : Activity :=
  { a with
    cursor := a.until' now
    windows := keepLast
      (a.windows ++ [⟨a.cursor, a.until' now, (samples.map Sample.value).sum⟩]) 4 }

/-- `Writes`: the names, the end of the range and the error -/
def writes (a : Activity) (loki : Query → Except String (List Sample)) (now : Int) :
    (List String × Int × Option String) × Activity :=
  if a.seconds now ≤ 0 then (([], a.cursor, none), a)
  else
    match loki (a.query now) with
    | .error err => (([], a.cursor, some ("loki: " ++ err)), a)
    | .ok samples => ((samples.map Sample.bucket, a.until' now, none), a.advance now samples)

/-- `Counted` -/
def counted (a : Activity) (at' : Int) (value : ℚ) : Activity :=
  { a with readings := keepLast (a.readings ++ [⟨at', value⟩]) 3 }

/-- two readings one after the other, the newest first, of which the later is not past `readTo` -/
def judged (a : Activity) (readTo : Int) : Option (Reading × Reading) :=
  (a.readings.zip a.readings.tail).reverse.find? fun p => decide (p.2.at' ≤ readTo)

/-- the write lines of the windows that overlap the interval between two readings -/
def linesBetween (a : Activity) (before after : Reading) : Nat :=
  ((a.windows.filter fun w => decide (w.to' > before.at' ∧ w.from' < after.at')).map
    LogWindow.lines).sum

/-- the verdict of `Broken` -/
def verdict (a : Activity) : Bool :=
  match a.windows.head?, a.windows.getLast? with
  | some first, some last =>
    match a.judged last.to' with
    | none => a.broken
    | some (before, after) =>
      if after.value ≤ before.value then a.broken
      else if first.from' > before.at' then a.broken
      else decide (a.linesBetween before after = 0)
  | _, _ => a.broken

/-- `Broken` -/
def cross (a : Activity) : Activity := { a with broken := a.verdict }

end Activity

/-- one call, with what Loki would answer -/
inductive Event where
  | writes (loki : Query → Except String (List Sample)) (now : Int)
  | counted (at' : Int) (value : ℚ)
  | broken

namespace Activity

def step (a : Activity) : Event → Activity
  | .writes loki now => (a.writes loki now).2
  | .counted at' value => a.counted at' value
  | .broken => a.cross

def run (a : Activity) (events : List Event) : Activity := events.foldl step a

/-- the query of a call that was answered -/
def answer (a : Activity) : Event → List Query
  | .writes loki now =>
    if a.seconds now ≤ 0 then []
    else
      match loki (a.query now) with
      | .error _ => []
      | .ok _ => [a.query now]
  | _ => []

/-- the queries of a run that were answered, in their order -/
def answered (a : Activity) : List Event → List Query
  | [] => []
  | e :: events => a.answer e ++ (a.step e).answered events

end Activity

/-- the counter readings of a run -/
def readingsOf : List Event → List Reading
  | [] => []
  | .counted at' value :: events => ⟨at', value⟩ :: readingsOf events
  | _ :: events => readingsOf events

/-- the range of the log a query reads -/
def Query.range (q : Query) : Int × Int := (q.time - q.seconds * second, q.time)

def LogWindow.range (w : LogWindow) : Int × Int := (w.from', w.to')

end Freepod.Exporter
