import Freepod.Base.Assoc
import Freepod.Base.Machine
import Freepod.Platform.SignIn

/-!
# Access lists, one statement a step

`services/app_access.py`: `add_entry`, `remove_entry` and `sweep_invitations` as transactions under
read committed, any number of them at once.  A statement reads what is committed when it starts; a
row lock is held until its transaction ends, and a statement that meets one waits.  What a
transaction writes shows at its commit.

`entriesEver` and `invitationsEver` are every row ever committed, for the statements about runs.
-/

namespace Freepod.Listing
open Base

abbrev CallId := Nat

def accessListLimit : Nat := 500

/-- times are microseconds -/
def hour : Nat := 3600 * 1000000

def invitationWindow : Nat := 24 * hour
def invitationRetention : Nat := 7 * 24 * hour

/-- the daily limit, `str.lower` and the time of an error's text -/
structure Settings where
  accessInvitationsPerDay : Nat
  lower : String → String
  strftime : Time → String

/-- the serving release's settings, and the `logout_uri` of its template -/
structure Serving where
  settings : AuthSettings
  logoutUri : Option String

structure AppDeployment where
  id : DeploymentId
  userId : UserId
  ownerEmail : String
  hostname : Option String
  serving : Option Serving

structure AccessEntry where
  id : Nat
  deploymentId : DeploymentId
  email : String
  subject : Option String
  name : Option String
  createdAt : Time
  boundAt : Option Time
  deriving DecidableEq

structure Invitation where
  id : Nat
  userId : UserId
  sentAt : Time
  deriving DecidableEq

structure AccessEntryRead where
  id : Nat
  email : String
  name : Option String
  createdAt : Time
  boundAt : Option Time
  deriving DecidableEq

/-- the mail that the caller sends once the addition has committed -/
structure Mail where
  recipient : String
  ownerEmail : String
  hostname : String
  deriving DecidableEq

def AccessEntry.read (e : AccessEntry) : AccessEntryRead :=
  ⟨e.id, e.email, e.name, e.createdAt, e.boundAt⟩

inductive Failure
  | conflict (message code : String)
  | rateLimited (message code : String)
  | notFound (message : String)
  | upstream (message code : String)
  | indexError
  | integrity
  | notRefreshed
  | interrupted
  deriving DecidableEq

inductive Outcome
  | added (entry : AccessEntryRead) (invitation : Mail)
  | removed
  | swept (count : Nat)
  | raised (e : Failure)
  deriving DecidableEq

/-- what `_check_invitation_limit` counted and when; `seen` is how many invitations the owner had
ever committed by then -/
structure Count where
  time : Time
  sent : Nat
  seen : Nat

/-- the statement `add_entry` comes to next -/
inductive AddPoint
  | lock
  | duplicate
  | room
  | invitations
  | insertEntry (c : Count)
  | insertInvitation (c : Count) (entry : AccessEntry) (invitation : Invitation)
  | commit (c : Count) (entry : AccessEntry) (invitation : Invitation)
  | refresh (entry : AccessEntry)

/-- the statement `remove_entry` comes to next -/
inductive RemovePoint
  | lock
  | signOut (entry : AccessEntry)
  | delete (entry : AccessEntry)
  | commit (entry : AccessEntry)

/-- the statement `sweep_invitations` comes to next -/
inductive SweepPoint
  | select
  | delete (stale : List Invitation)
  | commit (stale : List Invitation)

/-- a call, with the deployment as it loaded it -/
inductive Task
  | adding (deployment : AppDeployment) (email : String) (p : AddPoint)
  | removing (deployment : AppDeployment) (entryId : Nat) (p : RemovePoint)
  | sweeping (p : SweepPoint)
  | ended (outcome : Outcome)

structure State where
  now : Time
  nextId : Nat
  deployments : List AppDeployment
  entries : List AccessEntry
  invitations : List Invitation
  tasks : List (CallId × Task)
  entriesEver : List AccessEntry
  invitationsEver : List Invitation

def State.init : State := ⟨0, 0, [], [], [], [], [], []⟩

/-! ## Locks -/

/-- the deployment whose row the transaction has locked -/
def Task.lockedDeployment : Task → Option DeploymentId
  | .adding d _ .duplicate | .adding d _ .room | .adding d _ .invitations => some d.id
  | .adding d _ (.insertEntry _) => some d.id
  | .adding d _ (.insertInvitation _ _ _) => some d.id
  | .adding d _ (.commit _ _ _) => some d.id
  | _ => none

/-- the entry whose row the transaction has locked -/
def Task.lockedEntry : Task → Option Nat
  | .removing _ _ (.signOut e) => some e.id
  | .removing _ _ (.delete e) => some e.id
  | .removing _ _ (.commit e) => some e.id
  | _ => none

/-- the invitations the transaction has deleted -/
def Task.deleted : Task → List Invitation
  | .sweeping (.commit stale) => stale
  | _ => []

/-- the address of a deployment that the transaction has inserted -/
def Task.inserted : Task → Option (DeploymentId × String)
  | .adding _ _ (.insertInvitation _ e _) => some (e.deploymentId, e.email)
  | .adding _ _ (.commit _ e _) => some (e.deploymentId, e.email)
  | _ => none

namespace State

def become (s : State) (c : CallId) (k : Task) : State := { s with tasks := setKey c k s.tasks }

def raise (s : State) (c : CallId) (e : Failure) : State := s.become c (.ended (.raised e))

/-- some transaction has locked the row of a deployment -/
def deploymentLocked (s : State) (d : DeploymentId) : Bool :=
  s.tasks.any fun p => p.2.lockedDeployment == some d

def entryLocked (s : State) (id : Nat) : Bool := s.tasks.any fun p => p.2.lockedEntry == some id

/-- the addresses on a deployment's list -/
def addresses (s : State) (d : DeploymentId) : List String :=
  (s.entries.filter fun e => e.deploymentId == d).map (·.email)

/-- how many invitations an owner has ever committed -/
def sentEver (s : State) (u : UserId) : Nat := s.invitationsEver.countP fun i => i.userId == u

end State

/-! ## `add_entry` -/

/-- `_check_invitation_limit`, by the times of the invitations since a day ago -/
def checkInvitationLimit (cfg : Settings) (s : State) (u : UserId) : Except Failure Count :=
  let sent := ((s.invitations.filter fun i =>
    i.userId == u && s.now < i.sentAt + invitationWindow).map (·.sentAt)).insertionSort (· ≤ ·)
  let limit := cfg.accessInvitationsPerDay
  if limit ≤ sent.length then
    match sent[sent.length - limit]? with
    | none => .error .indexError
    | some first => .error (.rateLimited ("You have sent " ++ toString limit ++
        " invitations in the past 24 hours. You can invite more people after " ++
        cfg.strftime (first + invitationWindow) ++ " UTC.") "access_invitation_limit")
  else .ok ⟨s.now, sent.length, s.sentEver u⟩

/-- the next statement of `add_entry`; the address is normalized -/
def add (cfg : Settings) (s : State) (c : CallId) (d : AppDeployment) (email : String) :
    AddPoint → Option State
  | .lock =>
    if s.deploymentLocked d.id then none else some (s.become c (.adding d email .duplicate))
  | .duplicate =>
    if d.serving.any fun serving => serving.settings.listed then
      if email ∈ s.addresses d.id ∨ email = cfg.lower d.ownerEmail then
        some (s.raise c (.conflict (email ++ " can already sign in") "access_duplicate"))
      else some (s.become c (.adding d email .room))
    else some (s.raise c (.conflict ("This deployment's access list does not apply: its serving " ++
      "release does not have auth.enabled with auth.access: listed") "access_not_listed"))
  | .room =>
    if accessListLimit ≤ (s.addresses d.id).length then
      some (s.raise c (.conflict ("The access list is full: it holds " ++
        toString accessListLimit ++ " people") "access_list_full"))
    else some (s.become c (.adding d email .invitations))
  | .invitations =>
    match checkInvitationLimit cfg s d.userId with
    | .error e => some (s.raise c e)
    | .ok count => some (s.become c (.adding d email (.insertEntry count)))
  | .insertEntry count =>
    -- both rows are made before the first of them is inserted
    let entry : AccessEntry := ⟨s.nextId, d.id, email, none, none, s.now, none⟩
    let invitation : Invitation := ⟨s.nextId + 1, d.userId, s.now⟩
    -- the unique index waits for another row with this address that is not committed yet
    if s.tasks.any fun p => p.2.inserted == some (d.id, email) then none
    else if email ∈ s.addresses d.id then some (s.raise c .integrity)
    else some ({ s with nextId := s.nextId + 2 }.become c
      (.adding d email (.insertInvitation count entry invitation)))
  | .insertInvitation count entry invitation =>
    some (s.become c (.adding d email (.commit count entry invitation)))
  | .commit _ entry invitation =>
    some ({ s with
      entries := s.entries ++ [entry]
      invitations := s.invitations ++ [invitation]
      entriesEver := s.entriesEver ++ [entry]
      invitationsEver := s.invitationsEver ++ [invitation] }.become c
        (.adding d email (.refresh entry)))
  | .refresh entry =>
    match s.entries.find? fun e => e.id == entry.id with
    | none => some (s.raise c .notRefreshed)
    | some e => some (s.become c (.ended (.added e.read ⟨email, d.ownerEmail, d.hostname.getD ""⟩)))

/-! ## `remove_entry` and `sweep_invitations` -/

/-- how an app answers a logout token -/
abbrev Answer := Except Failure Unit

/-- the next statement of `remove_entry`, or its call of the app -/
def remove (s : State) (c : CallId) (d : AppDeployment) (entryId : Nat) (answer : Answer) :
    RemovePoint → Option State
  | .lock =>
    if s.entryLocked entryId then none
    else
      match s.entries.find? fun e => e.id == entryId && e.deploymentId == d.id with
      | none => some (s.raise c (.notFound "No such entry on this deployment's access list"))
      | some e => some (s.become c (.removing d entryId (.signOut e)))
  | .signOut e =>
    if (e.subject.any (· ≠ "")) && d.serving.any fun serving =>
        serving.settings.oidc && serving.logoutUri.isSome then
      match answer with
      | .error failure => some (s.raise c failure)
      | .ok () => some (s.become c (.removing d entryId (.delete e)))
    else some (s.become c (.removing d entryId (.delete e)))
  | .delete e => some (s.become c (.removing d entryId (.commit e)))
  | .commit e =>
    some ({ s with entries := s.entries.filter fun e' => e'.id != e.id }.become c (.ended .removed))

/-- the next statement of `sweep_invitations`; an invitation that another sweep has deleted is waited
for -/
def sweep (s : State) (c : CallId) : SweepPoint → Option State
  | .select =>
    some (s.become c (.sweeping (.delete
      (s.invitations.filter fun i => i.sentAt + invitationRetention < s.now))))
  | .delete stale =>
    if s.tasks.any fun p => p.2.deleted.any fun i => i ∈ stale then none
    else some (s.become c (.sweeping (.commit stale)))
  | .commit stale =>
    some ({ s with invitations := s.invitations.filter fun i => i ∉ stale }.become c
      (.ended (.swept stale.length)))

/-! ## Steps -/

inductive Request
  | addEntry (deployment : DeploymentId) (email : String)
  | removeEntry (deployment : DeploymentId) (entryId : Nat)
  | sweepInvitations

/-- time passes, a deployment appears or serves another release, app-auth binds an entry, and calls
begin, take their next statement, or lose their connection -/
inductive Action
  | tick (d : Nat)
  | deploy (d : AppDeployment)
  | serve (d : DeploymentId) (serving : Option Serving)
  | bind (entryId : Nat) (subject : String) (name : Option String)
  | begin (c : CallId) (r : Request)
  | next (c : CallId) (answer : Answer)
  | interrupt (c : CallId)

namespace State

/-- the deployment's row, as `get_deployment_orm` loads it -/
def deployment (s : State) (d : DeploymentId) : Option AppDeployment :=
  s.deployments.find? fun row => row.id == d

/-- a call before its first statement -/
def task (s : State) : Request → Option Task
  | .addEntry d email => (s.deployment d).map fun row => .adding row email .lock
  | .removeEntry d entryId => (s.deployment d).map fun row => .removing row entryId .lock
  | .sweepInvitations => some (.sweeping .select)

/-- `bindEntry` of app-auth, which waits for a removal of the entry -/
def bind (s : State) (entryId : Nat) (subject : String) (name : Option String) : Option State :=
  if s.entryLocked entryId then none
  else some { s with entries := s.entries.map fun e =>
    if e.id = entryId ∧ e.subject = none then
      { e with subject := some subject, name := name, boundAt := some s.now }
    else e }

/-- the next statement of a call -/
def next (cfg : Settings) (s : State) (c : CallId) (answer : Answer) : Option State :=
  match s.tasks.lookup c with
  | some (.adding d email p) => add cfg s c d email p
  | some (.removing d entryId p) => remove s c d entryId answer p
  | some (.sweeping p) => sweep s c p
  | _ => none

def step (cfg : Settings) (s : State) : Action → Option State
  | .tick d => some { s with now := s.now + d }
  | .deploy d =>
    if (s.deployment d.id).isSome then none else some { s with deployments := s.deployments ++ [d] }
  | .serve d serving =>
    some { s with deployments := s.deployments.map fun row =>
      if row.id = d then { row with serving := serving } else row }
  | .bind entryId subject name => s.bind entryId subject name
  | .begin c r =>
    match s.tasks.lookup c with
    | some _ => none
    | none => (s.task r).map (s.become c)
  | .next c answer => s.next cfg c answer
  | .interrupt c =>
    match s.tasks.lookup c with
    | none | some (.ended _) => none
    | some _ => some (s.raise c .interrupted)

end State

/-- the calls on access lists, any number at once -/
def accessLists (cfg : Settings) : Machine State Action := ⟨State.step cfg⟩

end Freepod.Listing
