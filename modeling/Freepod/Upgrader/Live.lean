import Freepod.Upgrader.Redact

/-!
# The live transcript

`live.py` of the product upgrader: the running session's transcript, read by byte offset.

* `opening`, `refresh`: what a call reads of the file when a panel opens, and after an offset.
* `Panel.parse`: the steps of whole lines, redacted before they are parsed (`_parse`).
* `Panel.read`: a call, which returns the steps and the offset to ask for next.
* `Watch`, `Panel.run`: a panel whose calls each pass the offset the one before returned, while the
  file grows.

What becomes of one entry (`steps_of`), which may raise, is a field of `Panel`.
-/

namespace Freepod.Upgrader

open Base

def tailBytes : Nat := 64 * 1024

def maxRead : Nat := 256 * 1024

def openingSteps : Nat := 20

structure Step where
  kind : String
  text : String
  label : String

/-! ## what is read -/

/-- what a call reads: the whole lines it parses, or the length of the line it skips, from where on,
the offset it returns and how many bytes it took off the file -/
structure Fetched where
  start : Nat
  parsed : List UInt8
  skipped : Option Nat
  next : Nat
  bytesRead : Nat

/-- `data[: data.rfind(b"\n") + 1]` -/
def complete (data : List UInt8) : List UInt8 := data.rdropWhile (· ≠ 10)

/-- the whole lines of a file from the first one that starts at a place, or after it -/
def readTail (file : List UInt8) (start : Nat) : Fetched :=
  let data := file.drop start
  let cut : List UInt8 × Nat :=
    if start = 0 then (data, start)
    else if 10 ∈ data then
      ((data.dropWhile (· ≠ 10)).drop 1, start + (data.takeWhile (· ≠ 10)).length + 1)
    else ([], start)
  let whole := complete cut.1
  ⟨cut.2, whole, none, cut.2 + whole.length, data.length⟩

/-- without an offset, or past the end -/
def opening (file : List UInt8) : Fetched := readTail file (file.length - tailBytes)

/-- the loop over a line that a read does not end: its length once its end is found, and how much
was read in all; a chunk takes a unit of fuel -/
def skipLine : (fuel skipped bytesRead : Nat) → (rest : List UInt8) → Option Nat × Nat
  | 0, _, bytesRead, _ => (none, bytesRead)
  | fuel + 1, skipped, bytesRead, rest =>
    let chunk := rest.take maxRead
    if chunk = [] then (none, bytesRead)
    else if 10 ∈ chunk then
      (some (skipped + (chunk.takeWhile (· ≠ 10)).length + 1), bytesRead + chunk.length)
    else skipLine fuel (skipped + chunk.length) (bytesRead + chunk.length) (rest.drop maxRead)

/-- after an offset -/
def refresh (file : List UInt8) (offset : Nat) : Fetched :=
  let data := (file.drop offset).take maxRead
  if complete data ≠ [] then
    ⟨offset, complete data, none, offset + (complete data).length, data.length⟩
  else if data.length < maxRead then ⟨offset, [], none, offset, data.length⟩
  else
    let rest := file.drop (offset + maxRead)
    let found := skipLine (rest.length + 1) data.length data.length rest
    ⟨offset, [], found.1, offset + found.1.getD 0, found.2⟩

/-- a call without an offset, or with one past the end -/
def opens (file : List UInt8) (offset : Option Nat) : Bool :=
  match offset with
  | none => true
  | some offset => decide (file.length < offset)

def fetch (file : Option (List UInt8)) (offset : Option Nat) : Fetched :=
  match file with
  | none => ⟨0, [], none, 0, 0⟩
  | some file => if opens file offset then opening file else refresh file (offset.getD 0)

/-! ## what is shown -/

/-- the running session, as the dashboard reads it -/
structure Panel (ε : Type) where
  redact : Redactor
  other : List UInt8 → Option JsonText.Value
  stepsOf : List (List Nat × JsonText.Value) → Except ε (List Step)

namespace Panel

variable {ε : Type} (p : Panel ε)

/-- the white space `bytes.strip` takes off -/
def isSpaceByte (b : UInt8) : Bool := b == 32 || (9 ≤ b && b ≤ 13)

def stepsOfLine (line : List UInt8) : Except ε (List Step) :=
  if line.all isSpaceByte then .ok []
  else
    match jsonLoads p.other (p.redact.bytes line) with
    | some (.obj fields) => p.stepsOf fields
    | _ => .ok []

/-- `_parse` -/
def parse (data : List UInt8) : Except ε (List Step) := do
  let steps ← (byteBreaks.splitlines data).mapM p.stepsOfLine
  .ok steps.flatten

def tooLarge (skipped : Nat) : Step :=
  ⟨"note", "a " ++ toString (skipped / 1024) ++ " KiB entry, too large to show", ""⟩

/-- `read` -/
def read (file : Option (List UInt8)) (offset : Option Nat) : Except ε (List Step × Nat) :=
  let fetched := fetch file offset
  match fetched.skipped with
  | some skipped => .ok ([tooLarge skipped], fetched.next)
  | none => do
    let steps ← p.parse fetched.parsed
    let shown := if (file.any fun file => opens file offset) then
      steps.drop (steps.length - openingSteps) else steps
    .ok (shown, fetched.next)

end Panel

/-! ## a panel that is open -/

/-- a call that returned, with the file it found -/
structure LiveCall where
  file : Option (List UInt8)
  offset : Option Nat
  steps : List Step

def LiveCall.fetched (c : LiveCall) : Fetched := fetch c.file c.offset

/-- the transcript, the offset to ask for next, and the calls so far -/
structure Watch where
  file : Option (List UInt8)
  offset : Option Nat
  calls : List LiveCall

inductive WatchEvent where
  | write (more : List UInt8)
  | read

def Watch.init : Watch := ⟨none, none, []⟩

namespace Panel

variable {ε : Type} (p : Panel ε)

/-- the session writes, or the panel reads; a call that raises returns no offset -/
def step (w : Watch) : WatchEvent → Option Watch
  | .write more => some { w with file := some (w.file.getD [] ++ more) }
  | .read =>
    match p.read w.file w.offset with
    | .error _ => none
    | .ok (steps, next) => some ⟨w.file, some next, w.calls ++ [⟨w.file, w.offset, steps⟩]⟩

def run (events : List WatchEvent) : Option Watch := events.foldlM p.step .init

end Panel

end Freepod.Upgrader
