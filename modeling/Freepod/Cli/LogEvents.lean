import Freepod.Base.JsonText
import Freepod.Base.Lines
import Mathlib.Data.List.DropRight

/-!
# Log events on the wire

* `sse`, `keepalive`: what the platform writes of an event, and to keep a silent stream open
  (`services/log_stream.py`).
* `Message`, `wire`: a stream of them.
* `parseSse`: the events the command line client reads off the lines of a stream (`logs.py`).

The text of a stream is the list of its characters.
-/

namespace Freepod.LogEvents

open Base Base.JsonText

/-! ## the platform -/

/-- `"{field}: {value}"` -/
def fieldLine (field value : List Char) : List Char := field ++ ':' :: ' ' :: value

/-- `sse`, or a `ValueError` of `json.dumps` -/
def sse (event : List Char) (data : List (List Nat × JsonText.Value)) (eventId : Option (List Char)) :
    Option (List Char) := do
  let text ← dumps (.obj data)
  let lines := eventId.toList.map (fieldLine ['i', 'd']) ++
    [fieldLine ['e', 'v', 'e', 'n', 't'] event, fieldLine ['d', 'a', 't', 'a'] text]
  some (['\n'].intercalate lines ++ ['\n', '\n'])

/-- `_keepalive` -/
def keepalive : List Char := ": keepalive\n\n".toList

/-- one piece of a stream -/
inductive Message where
  | event (name : List Char) (data : List (List Nat × JsonText.Value)) (id : Option (List Char))
  | keepalive

def Message.text : Message → Option (List Char)
  | .event name data id => sse name data id
  | .keepalive => some LogEvents.keepalive

/-- what is written to a stream -/
def wire (messages : List Message) : Option (List Char) :=
  (messages.mapM Message.text).map List.flatten

/-! ## the client -/

structure Event where
  event : List Char
  data : JsonText.Value

/-- the variables of the loop of `parse_sse` -/
structure ParseState where
  eventName : List Char
  dataParts : List (List Char)

def ParseState.init : ParseState := ⟨"message".toList, []⟩

/-- the body of the loop: the event it yields, or the error it raises -/
def parseLine (s : ParseState) (raw : List Char) :
    Except (List Char) (ParseState × Option Event) :=
  let line := raw.rdropWhile (· = '\r')
  if line.head? = some ':' then .ok (s, none)
  else if line = [] then
    if s.dataParts = [] then .ok (.init, none)
    else
      let payload := ['\n'].intercalate s.dataParts
      match loads payload with
      | some data => .ok (.init, some ⟨s.eventName, data⟩)
      | none =>
        .error ("the platform sent a log event this client cannot parse: ".toList ++
          payload.take 200)
  else
    let field := line.takeWhile (· ≠ ':')
    let value := (line.dropWhile (· ≠ ':')).drop 1
    let value := if value.head? = some ' ' then value.drop 1 else value
    if field = ['e', 'v', 'e', 'n', 't'] then .ok ({ s with eventName := value }, none)
    else if field = ['d', 'a', 't', 'a'] then
      .ok ({ s with dataParts := s.dataParts ++ [value] }, none)
    else .ok (s, none)

/-- the events of the lines to come, and the error that ends them -/
def parseFrom (s : ParseState) : List (List Char) → List Event × Option (List Char)
  | [] => ([], none)
  | line :: lines =>
    match parseLine s line with
    | .error message => ([], some message)
    | .ok (s', event) =>
      (event.toList ++ (parseFrom s' lines).1, (parseFrom s' lines).2)

/-- `parse_sse` -/
def parseSse (lines : List (List Char)) : List Event × Option (List Char) :=
  parseFrom .init lines

end Freepod.LogEvents
