import Freepod.Base.Zone

/-!
# The nightly run

`schedule.py` of the product upgrader: when the nightly run is due.  A date is a number of days, and
an instant one of microseconds, neither with an end.

* `ScheduleTime`: `SCHEDULE_TIME`, a text that `schedule_problems` accepts.
* `instant`: the first instant of a wall time, or the first valid one after it (`_instant`).
* `nextRun`: the first scheduled instant after another, or nothing when the schedule is off.
-/

namespace Freepod.Upgrader

open Base

/-! ## the time of the day -/

def isDigit (c : Char) : Bool := 48 ≤ c.toNat && c.toNat ≤ 57

/-- `([01][0-9]|2[0-3]):[0-5][0-9]` -/
def isHourMinute : List Char → Bool
  | [a, b, ':', c, d] =>
    ((a == '0' || a == '1') && isDigit b || a == '2' && (48 ≤ b.toNat && b.toNat ≤ 51)) &&
      (48 ≤ c.toNat && c.toNat ≤ 53) && isDigit d
  | _ => false

structure ScheduleTime where
  text : List Char
  accepted : text = "off".toList ∨ isHourMinute text = true

inductive ScheduleError where
  | value
  | unreachable
  deriving DecidableEq

/-- `time(hour, minute)` of the numbers between the colons, in microseconds -/
def timeOf (text : List Char) : Except ScheduleError Int :=
  match (text.splitOn ':').map fun part => Nat.ofDigitChars 10 part 0 with
  | [hour, minute] =>
    if hour < 24 ∧ minute < 60 then .ok ((hour * 60 + minute : Nat) * Zone.minute)
    else .error .value
  | _ => .error .value

/-! ## the instant of a wall time -/

/-- half a `timedelta`, which rounds to even -/
def half (d : Int) : Int := if d % 2 = 1 ∧ d / 2 % 2 = 1 then d / 2 + 1 else d / 2

theorem half_spec {d : Int} (h : 1 < d) : 0 < half d ∧ half d < d := by
  unfold half
  split <;> omega

/-- the loop over the bracket -/
def bisect (zone : Zone) (wall lo hi : Int) : Int :=
  if Zone.minute < hi - lo then
    if wall ≤ zone.clock (lo + half (hi - lo)) then bisect zone wall lo (lo + half (hi - lo))
    else bisect zone wall (lo + half (hi - lo)) hi
  else hi
termination_by (hi - lo).toNat
decreasing_by
  all_goals
    unfold Zone.minute at *
    have hhalf := half_spec (d := hi - lo) (by omega)
    omega

/-- `_instant` -/
def instant (zone : Zone) (day time : Int) : Int :=
  let wall := day * Zone.day + time
  let first := wall - zone.localOffset wall false
  if zone.clock first = wall then first
  else
    let lo := wall - zone.localOffset wall true
    let hi := first
    let found := bisect zone wall (min lo hi) (max lo hi)
    -- `replace(second=0, microsecond=0)`
    found / Zone.minute * Zone.minute

/-- `next_run` -/
def nextRun (after : Int) (scheduleTime : ScheduleTime) (zone : Zone) :
    Except ScheduleError (Option Int) :=
  if scheduleTime.text = "off".toList then .ok none
  else do
    let time ← timeOf scheduleTime.text
    let localDay := zone.clock after / Zone.day
    let candidates := [0, 1, 2].map fun offset => instant zone (localDay + offset) time
    match candidates.find? fun candidate => after < candidate with
    | some candidate => .ok (some candidate)
    | none => .error .unreachable

end Freepod.Upgrader
