import Freepod.Auth.Store

/-!
# App authentication: access lists

`access.go`: whom a listed deployment admits, by one copy of its list, by the store when a code is
issued, and by the copies the verifier holds.
-/

namespace Freepod.Auth
open Base

/-- a handler, cut into its calls -/
abbrev Handler (α : Type) := Prog Ret Response α

def answer {α : Type} (r : Response) : Handler α := .exit r

/-- a check that ends the request -/
def answerIf (c : Prop) [Decidable c] (r : Response) : Handler Unit :=
  if c then answer r else return ()

/-- what an access list said, where only `true` goes on -/
def granted (onError onRefusal : Response) : Except Failure Bool → Handler Unit
  | .error _ => answer onError
  | .ok false => answer onRefusal
  | .ok true => return ()

/-! ## The calls of a handler -/

namespace Ask

abbrev now : Handler Time := ask Op.now
abbrev random : Handler String := ask Op.random
abbrev appSID (clientID ksid : String) : Handler String := ask (Op.appSID clientID ksid)
abbrev sealed (v : Sealed) (ttl : Nat) : Handler (Except Failure String) := ask (Op.seal v ttl)
abbrev openFlow (raw : String) : Handler (Option Flow) := ask (Op.openFlow raw)
abbrev openConsent (raw : String) : Handler (Option PendingConsent) := ask (Op.openConsent raw)
abbrev openSession (raw : String) : Handler (Option Session) := ask (Op.openSession raw)
abbrev signIDToken (c : IDTokenClaims) : Handler (Except Failure Unit) := ask (Op.signIDToken c)
abbrev authURL (state nonce verifier prompt maxAge : String) : Handler (Except Failure String) :=
  ask (Op.authURL state nonce verifier prompt maxAge)
abbrev idToken (code verifier : String) : Handler (Option KeycloakToken) :=
  ask (Op.idToken code verifier)
abbrev logoutToken (raw : String) : Handler (Option LogoutToken) := ask (Op.logoutToken raw)
abbrev eligible (host : String) : Handler (Except Failure (Option HeaderApp)) :=
  ask (Op.eligible host)
abbrev ssoClient (d : String) : Handler (Except Failure (Option SsoClient)) := ask (Op.ssoClient d)
abbrev accessList (d : String) : Handler (Except Failure AccessList) := ask (Op.accessList d)
abbrev bindEntry (entryID subject name : String) : Handler (Except Failure Bool) :=
  ask (Op.bindEntry entryID subject name)
abbrev hasConsent (subject d : String) (claims : List String) : Handler (Except Failure Bool) :=
  ask (Op.hasConsent subject d claims)
abbrev recordConsent (subject d : String) (claims : List String) :
    Handler (Except Failure Unit) := ask (Op.recordConsent subject d claims)
abbrev insertCode (codeHash : Bytes) (c : CodeRecord) : Handler (Except Failure Unit) :=
  ask (Op.insertCode codeHash c)
abbrev redeemCode (codeHash : Bytes) : Handler (Except Failure (Option (CodeRecord × Bool))) :=
  ask (Op.redeemCode codeHash)
abbrev insertOIDCCode (codeHash : Bytes) (c : OidcCode) (ksid : String) :
    Handler (Except Failure Unit) := ask (Op.insertOIDCCode codeHash c ksid)
abbrev redeemOIDCCode (codeHash : Bytes) : Handler (Except Failure (Option (OidcCode × Bool))) :=
  ask (Op.redeemOIDCCode codeHash)
abbrev endSession (ksid : String) : Handler (Except Failure (List SignIn)) := ask (Op.endSession ksid)
abbrev endedSessions (since : Time) : Handler (Except Failure (List EndedSession)) :=
  ask (Op.endedSessions since)
abbrev purge (table : AuthTable) : Handler (Except Failure Nat) := ask (Op.purge table)
abbrev endedStatus (ksid : String) : Handler (Bool × Bool) := ask (Op.endedStatus ksid)
abbrev endedSince : Handler Time := ask Op.endedSince
abbrev endedMerge (rows : List EndedSession) : Handler Unit := ask (Op.endedMerge rows)
abbrev accessCached (host : String) : Handler (Option CachedAccess) := ask (Op.accessCached host)
abbrev accessKeep (host : String) (list : AccessList) : Handler CachedAccess :=
  ask (Op.accessKeep host list)

end Ask

variable (cfg : Config)

/-- the owner, then an entry bound to `sub`, then an unbound entry with this email, whose id is
returned for the caller to bind -/
def AccessList.admit (l : AccessList) (sub email : String) : Bool × String :=
  if l.ownerSubject ≠ "" ∧ sub ≠ "" ∧ sub = l.ownerSubject then (true, "")
  else if l.ownerSubject = "" ∧ email ≠ "" ∧ cfg.equalFold email l.ownerEmail then (true, "")
  else if l.entries.any fun e => sub != "" && e.subject == sub then (true, "")
  else
    match l.entries.find? fun e => e.subject == "" && email != "" && cfg.equalFold e.email email with
    | some e => (true, e.id)
    | none => (false, "")

/-- a listed deployment's access list, applied to `id`; with `bind`, the unbound entry that `id`
matched is tied to its subject -/
def admitted (deploymentID : String) (id : Identity) (bind : Bool) :
    Handler (Except Failure Bool) := do
  match ← Ask.accessList deploymentID with
  | .error e => return .error e
  | .ok l =>
    let (ok, entry) := l.admit cfg id.sub id.email
    if !ok || !bind || entry == "" then
      return .ok ok
    match ← Ask.bindEntry entry id.sub id.name with
    | .error e => return .error e
    | .ok true => return .ok true
    | .ok false =>
      -- bound by someone else in the meantime, who may be `id` signing in twice at once
      match ← Ask.accessList deploymentID with
      | .error e => return .error e
      | .ok l =>
        let (ok, entry) := l.admit cfg id.sub id.email
        return .ok (ok && entry == "")

/-- the header app at `host`; a preview hostname with no deployment of its own is the deployment it
previews -/
def resolveHeaderApp (host : String) : Handler (Except Failure (Option HeaderApp)) := do
  match ← Ask.eligible host with
  | .ok none =>
    match previewBase cfg host with
    | some base => Ask.eligible base
    | none => return .ok none
  | r => return r

/-! ## The copies the verifier holds -/

/-- `accessCache.load`: `host`'s list read afresh, or the copy held where the store does not answer -/
def loadAccess (host : String) : Handler (Option CachedAccess) := do
  match ← resolveHeaderApp cfg host with
  | .error _ => Ask.accessCached host
  | .ok none => return some (← Ask.accessKeep host ⟨"", "", []⟩)
  | .ok (some app) =>
    match ← Ask.accessList app.id with
    | .error _ => Ask.accessCached host
    | .ok l => return some (← Ask.accessKeep host l)

def heldAdmits (held : Option CachedAccess) (s : Session) : Bool :=
  held.any fun h => ( h.list.admit cfg s.sub s.email).1

/-- whether the copy is older than `age` -/
def olderThan (held : Option CachedAccess) (age : Nat) : Handler Bool := do
  match held with
  | none => return true
  | some h => return decide (age ≤ (← Ask.now) - h.loaded)

/-- `accessCache.admits`: a copy too old is read again, and before a refusal any but a fresh one -/
def accessAdmits (host : String) (s : Session) : Handler Bool := do
  let held ← Ask.accessCached host
  if ← olderThan held accessTTL then
    return heldAdmits cfg (← loadAccess cfg host) s
  if heldAdmits cfg held s then
    return true
  if ← olderThan held (accessRecheck + 1) then
    return heldAdmits cfg (← loadAccess cfg host) s
  return false

end Freepod.Auth
