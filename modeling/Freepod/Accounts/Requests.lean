import Freepod.Accounts.Users

/-!
# Accounts: the requests

Resolving a caller (`deps.py`), and claiming a handle, creating and deleting an account
(`services/users.py`), as programs over the statements of `Accounts.Users`.

* `resolveUser`, `getCurrentUser`: the ladder from a request's headers to a record, and its retry.
* `claimHandle`, `createUser`, `deleteUser`: what an account's owner and the operator do.
* `deed`, `reply`: what a request knows when it writes, and when it answers.
* `meets_handler`: every request keeps to that.
-/

namespace Freepod.Accounts
open Base

variable [Database]

/-- Python's string functions, and the settings -/
structure Config where
  strip : String → String
  lower : String → String
  repr : String → String
  reservedHandles : List String
  tenantDomain : String

/-- a record as the session holds it: expired by a commit, or with the row it was read as -/
structure Caller where
  id : UserId
  row : Option User
  deriving DecidableEq

structure HandleRead where
  handle : Option String
  suffix : Option String
  domain : String
  deriving DecidableEq

inductive Response
  | user (caller : Caller)
  | read (u : User)
  | handle (read : HandleRead)
  | error (status : Nat) (code : Option String) (detail : String)
  /-- an exception that no handler turns into a refusal -/
  | serverError
  deriving DecidableEq

inductive Request
  /-- `get_current_user`, with `X-Auth-Request-Email` and `X-Auth-Request-User` -/
  | currentUser (email subject : Option String)
  /-- `POST /me/handle` -/
  | claimMyHandle (email subject : Option String) (handle : String) (dryRun : Bool)
  /-- the operator's `claim-handle` -/
  | claimHandle (userId : UserId) (handle : String)
  | createUser (email : String)
  | deleteUser (userId : UserId)
  deriving DecidableEq

abbrev Handler := Prog Ret Response

namespace Ask

abbrev bySubject (s : String) : Handler (Option User) := ask (Op.bySubject s)
abbrev byEmail (e : String) : Handler (Option User) := ask (Op.byEmail e)
abbrev byId (id : UserId) : Handler (Option User) := ask (Op.byId id)
abbrev load (id : UserId) : Handler (Option User) := ask (Op.load id)
abbrev handleHeld (candidate : String) : Handler Bool := ask (Op.handleHeld candidate)
abbrev now : Handler Time := ask Op.now
abbrev update (id : UserId) (c : Column) : Handler Bool := ask (Op.update id c)
abbrev insertUser (e : String) (s : Option String) : Handler (Option UserId) :=
  ask (Op.insertUser e s)

end Ask

variable (cfg : Config)

/-! ## Who is asking -/

/-- `_address_taken` -/
def addressTaken : Response := .error 409 none
  "This email address is held by another Freepod account. Contact support to resolve it."

/-- the record bound to the subject, once its address is the caller's -/
def followSubject (email : String) (user : User) : Handler (Option Caller) :=
  if cfg.lower user.email ≠ email then do
    match ← Ask.byEmail email with
    | some _ => .exit addressTaken
    | none => do
      let stored ← Ask.update user.id (.email email)
      pure (if stored then some ⟨user.id, none⟩ else none)
  else pure (some ⟨user.id, some user⟩)

/-- an unbound record with the address, adopted, or a new record -/
def resolveByEmail (email : String) (subject : Option String) : Handler (Option Caller) := do
  match ← Ask.byEmail email with
  | some user =>
    match subject with
    | none => pure (some ⟨user.id, some user⟩)
    | some subject =>
      if user.keycloakSubject ≠ none then .exit addressTaken
      else do
        let stored ← Ask.update user.id (.keycloakSubject subject)
        pure (if stored then some ⟨user.id, none⟩ else none)
  | none => do
    match ← Ask.insertUser email subject with
    | none => pure none
    | some id => do
      match ← Ask.load id with
      | some user => pure (some ⟨id, some user⟩)
      | none => .exit .serverError

/-- `_resolve_user`; none is an `IntegrityError` -/
def resolveUser (email : String) (subject : Option String) : Handler (Option Caller) :=
  match subject with
  | none => resolveByEmail email none
  | some subject => do
    match ← Ask.bySubject subject with
    | some user => followSubject cfg email user
    | none => resolveByEmail email (some subject)

/-- the address and the subject that the headers carry, as they are looked up -/
def identity (email subject : Option String) : Option (String × Option String) :=
  (email.filter (· ≠ "")).map fun header =>
    (cfg.lower (cfg.strip header), (some (cfg.strip (subject.getD ""))).filter (· ≠ ""))

/-- `get_current_user` -/
def getCurrentUser (email subject : Option String) : Handler Caller :=
  match identity cfg email subject with
  | none => .exit (.error 404 none "Not authenticated")
  | some (email, subject) => do
    match ← resolveUser cfg email subject with
    | some caller => pure caller
    | none => do
      -- the session is rolled back, and the ladder is climbed once more
      match ← resolveUser cfg email subject with
      | some caller => pure caller
      | none => .exit .serverError

/-! ## Handles -/

def handleTaken : Response :=
  .error 409 (some "handle_taken") "That handle is already held by another account"

/-- `handle_suffix` -/
def handleSuffix (handle : Option String) : Option String :=
  (handle.filter (· ≠ "")).map fun handle => "-" ++ handle ++ "." ++ cfg.tenantDomain

/-- `get_handle` -/
def getHandle (user : User) : HandleRead :=
  ⟨user.handle, handleSuffix cfg user.handle, cfg.tenantDomain⟩

/-- `_check_handle` -/
def checkHandle (candidate : String) : Handler Unit :=
  if isHandle candidate.toList = false then
    .exit (.error 400 (some "handle_invalid") "A handle is 2-20 lowercase letters and digits only")
  else if candidate ∈ cfg.reservedHandles then
    .exit (.error 400 (some "handle_reserved") "That handle is reserved by the platform")
  else do
    let held ← Ask.handleHeld candidate
    if held then .exit handleTaken else pure ()

/-- `claim_handle` -/
def claimHandle (user : User) (handle : String) (dryRun : Bool) : Handler HandleRead :=
  let candidate := cfg.lower (cfg.strip handle)
  match user.handle with
  | some held =>
    if candidate = held then pure (getHandle cfg user)
    else .exit (.error 409 (some "handle_already_claimed")
      ("This account already holds the handle " ++ cfg.repr held ++
        ", and a handle cannot be changed or released"))
  | none => do
    checkHandle cfg candidate
    if dryRun then pure ⟨some candidate, handleSuffix cfg (some candidate), cfg.tenantDomain⟩
    else do
      let stored ← Ask.update user.id (.handle candidate)
      if stored then do
        match ← Ask.load user.id with
        | some user => pure (getHandle cfg user)
        | none => .exit .serverError
      else .exit handleTaken

/-! ## Accounts -/

/-- the record of a caller, reloaded when it has expired -/
def reload (caller : Caller) : Handler User :=
  match caller.row with
  | some user => pure user
  | none => do
    match ← Ask.load caller.id with
    | some user => pure user
    | none => .exit .serverError

/-- `create_user` -/
def createUser (email : String) : Handler User := do
  match ← Ask.insertUser email none with
  | none => .exit (.error 409 none ("Email already in use: " ++ email))
  | some id => do
    match ← Ask.load id with
    | some user => pure user
    | none => .exit .serverError

/-- `delete_user` -/
def deleteUser (userId : UserId) : Handler User := do
  match ← Ask.byId userId with
  | none => .exit (.error 404 none "User not found")
  | some user => do
    let now ← Ask.now
    let stored ← Ask.update user.id (.deletedAt now)
    if stored then do
      match ← Ask.load user.id with
      | some user => pure user
      | none => .exit .serverError
    else .exit .serverError

def handler : Request → Handler Response
  | .currentUser email subject => do
    let caller ← getCurrentUser cfg email subject
    pure (.user caller)
  | .claimMyHandle email subject handle dryRun => do
    let caller ← getCurrentUser cfg email subject
    let user ← reload caller
    let read ← claimHandle cfg user handle dryRun
    pure (.handle read)
  | .claimHandle userId handle => do
    match ← Ask.load userId with
    | none => .exit (.error 404 none "User not found")
    | some user =>
      if user.deletedAt ≠ none then .exit (.error 404 none "User not found")
      else do
        let read ← claimHandle cfg user handle false
        pure (.handle read)
  | .createUser email => do
    let user ← createUser email
    pure (.read user)
  | .deleteUser userId => do
    let user ← deleteUser userId
    pure (.read user)

/-- the requests, each statement of which is run at an instant that the run chooses -/
def service : Service Ret Request Response (Table User) Unit Time Empty where
  handler := handler cfg
  perform := perform
  change := fun _ w => nomatch w
  clock := fun _ => ()

abbrev AccountPool := Pool Ret Request Response (Table User) Unit
abbrev AccountEvent := Event Request Time Empty

end Freepod.Accounts
