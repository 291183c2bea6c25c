import Freepod.Auth.Handlers

/-!
# App authentication: the API removes an entry

`app_access.remove_entry`, next to the requests that app-auth serves meanwhile.  The two programs
share the table of access entries and no other lock than the row's: `remove_entry` holds it from its
first statement to its end, and only what writes the row waits for it.
-/

namespace Freepod.Auth
open Base

/-- one call of `remove_entry`; `logoutURI` is there where the serving release is an OIDC one whose
template has a valid logout path -/
structure RemoveEntry where
  deploymentID : String
  entryID : String
  logoutURI : Option String

/-- how far the call got, with the row it read -/
inductive RemovePoint
  | start
  | locked (e : AccessEntryRow)
  | sent (e : AccessEntryRow)
  | cleared (e : AccessEntryRow)
  | deleted (e : AccessEntryRow)
  | returned (e : AccessEntryRow)
  | failed
  deriving DecidableEq

/-- the row that is locked -/
def RemovePoint.lock : RemovePoint → Option AccessEntryRow
  | .locked e | .sent e | .cleared e | .deleted e => some e
  | _ => none

/-- `entry.subject`, as a condition -/
def AccessEntryRow.signedIn (e : AccessEntryRow) : Bool := e.subject.any (· != "")

/-- app-auth's store, and the call -/
structure SharedStore where
  store : Store
  point : RemovePoint

/-- what the platform does by itself, and the steps of the call: its next statement, or its
connection is lost.  `accepted` is the app's answer to the logout token -/
inductive SharedWorld
  | world (w : World)
  | next (accepted : Bool)
  | crash

namespace RemoveEntry

variable (call : RemoveEntry)

/-- the call sends a logout token for this entry -/
def sends (e : AccessEntryRow) : Bool := e.signedIn && call.logoutURI.isSome

/-- the next statement of `remove_entry`, or its request to the app -/
def next (s : SharedStore) (accepted : Bool) : Option SharedStore :=
  match s.point with
  | .start =>
    match s.store.entries.find? fun e =>
        e.id == call.entryID && e.deploymentID == call.deploymentID with
    | none => some { s with point := .failed }
    | some e => some { s with point := .locked e }
  | .locked e => some { s with point := if call.sends e then .sent e else .cleared e }
  | .sent e => some { s with point := if accepted then .cleared e else .failed }
  | .cleared e => some { s with point := .deleted e }
  | .deleted e =>
    some { store := { s.store with entries := s.store.entries.filter fun r => !(r.id == e.id) }
           point := .returned e }
  | .returned _ | .failed => none

/-- an entry's id is drawn once; what deletes the locked row waits -/
def change (s : SharedStore) : SharedWorld → Option SharedStore
  | .world (.addEntry id d email) =>
    if id = call.entryID then none
    else (s.store.addEntry id d email).map fun t => { s with store := t }
  | .world (.dropEntry id) =>
    if s.point.lock.any fun e => e.id == id then none
    else (Auth.change s.store (.dropEntry id)).map fun t => { s with store := t }
  | .world (.dropDeployment d) =>
    if s.point.lock.any fun e => e.deploymentID == d then none
    else (Auth.change s.store (.dropDeployment d)).map fun t => { s with store := t }
  | .world w => (Auth.change s.store w).map fun t => { s with store := t }
  | .next accepted => call.next s accepted
  | .crash => s.point.lock.map fun _ => { s with point := .failed }

end RemoveEntry

def Choice.isFails : Choice → Bool
  | .fails => true
  | _ => false

/-- `bindEntry` waits for the locked row where it would write it, until it gives up -/
def SharedStore.waits (s : SharedStore) (c : Choice) : Op → Bool
  | .bindEntry id _ _ => (s.point.lock.any fun e => e.id == id) &&
      (s.store.entries.any fun r => r.id == id && r.subject.isNone) && !c.isFails
  | _ => false

/-- one call of app-auth -/
def SharedStore.perform (cfg : Config) (s : SharedStore) (o : Op) (c : Choice) :
    Option (Ret o × SharedStore) :=
  if s.waits c o then none
  else (Auth.perform cfg s.store o c).map fun (x, t) => (x, { s with store := t })

/-- app authentication, while the API removes an entry -/
def removal (cfg : Config) (call : RemoveEntry) :
    Service Ret Request Response SharedStore Time Choice SharedWorld where
  handler := handler cfg
  perform := SharedStore.perform cfg
  change := call.change
  clock := fun s => s.store.now

abbrev SharedPool := Pool Ret Request Response SharedStore Time
abbrev SharedEvent := Event Request Choice SharedWorld

end Freepod.Auth
