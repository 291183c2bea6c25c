import Freepod.Auth.Request

/-!
# App authentication: the store and what each call does

The tables of `models/app_auth.py` with the calls of `store.go`, the sealed values, the random
tokens drawn, and the verifier's memory.  `perform` is one call: a call on the store succeeds,
fails without an effect, or takes effect and loses its answer.

Two things are assumed of cryptography: a sealed value opens only by the handle it was sealed
under (`openSealed`), and no random token repeats, nor the digest of one (`perform`, at `random`).
-/

namespace Freepod.Auth

/-- a sealed value, with the second it stops opening at -/
structure SealedRow where
  handle : String
  value : Sealed
  exp : Nat
  deriving DecidableEq

structure AccessEntryRow where
  id : String
  deploymentID : String
  email : String
  subject : Option String
  name : Option String
  boundAt : Option Time
  deriving DecidableEq

structure ConsentRow where
  subject : String
  deploymentID : String
  claims : List String
  grantedAt : Time
  deriving DecidableEq

structure CodeRow where
  codeHash : Bytes
  code : CodeRecord
  expiresAt : Time
  deriving DecidableEq

structure OidcCodeRow where
  codeHash : Bytes
  code : OidcCode
  expiresAt : Time
  deriving DecidableEq

structure SignInRow where
  keycloakSID : String
  deploymentID : String
  subject : String
  sid : String
  signedInAt : Time
  deriving DecidableEq

/-- what the platform's own tables answer, which the platform may change at any time -/
structure Platform where
  eligible : String → Option HeaderApp
  ssoClient : String → Option SsoClient
  /-- the email and the subject of a deployment's owner; the subject is empty until it is bound -/
  owner : String → Option (String × String)

/-- `endedCache` -/
structure EndedCache where
  ids : List (String × Time)
  latest : Time
  loaded : Bool
  deriving DecidableEq

structure Store where
  now : Time
  drawn : List String
  sidKey : String
  sealed : List SealedRow
  platform : Platform
  entries : List AccessEntryRow
  consents : List ConsentRow
  codes : List CodeRow
  oidcCodes : List OidcCodeRow
  signIns : List SignInRow
  ended : List EndedSession
  cache : EndedCache
  access : List (String × CachedAccess)

/-- the platform and its access lists as they are before the first sign-in -/
def Store.fresh (now : Time) (platform : Platform) (entries : List AccessEntryRow) : Store where
  now := now
  drawn := []
  sidKey := ""
  sealed := []
  platform := platform
  entries := entries
  consents := []
  codes := []
  oidcCodes := []
  signIns := []
  ended := []
  cache := ⟨[], 0, false⟩
  access := []

/-- what a call meets: the store's luck, a random token or a handle, or Keycloak's answer -/
inductive Choice
  | ok
  | fails
  | lost
  | text (s : String)
  | keycloak (t : Option KeycloakToken)
  | logout (t : Option LogoutToken)

/-- a call on the store -/
def attempt {α : Type} (s : Store) (f : Except Failure (α × Store)) :
    Choice → Option (Except Failure α × Store)
  | .ok =>
    match f with
    | .ok (a, t) => some (.ok a, t)
    | .error e => some (.error e, s)
  | .fails => some (.error .unavailable, s)
  | .lost =>
    match f with
    | .ok (_, t) => some (.error .unavailable, t)
    | .error e => some (.error e, s)
  | _ => none

def nullable (s : String) : Option String := if s = "" then none else some s

/-! ## The keyring -/

/-- `keyring.open`: the sealed value, until its second comes -/
def Store.openSealed (s : Store) (raw : String) : Option Sealed :=
  ((s.sealed.find? fun r => r.handle == raw).filter fun r => decide (unix s.now < r.exp)).map (·.value)

def Store.openFlow (s : Store) (raw : String) : Option Flow :=
  match s.openSealed raw with
  | some (.flow f) => some f
  | _ => none

def Store.openConsent (s : Store) (raw : String) : Option PendingConsent :=
  match s.openSealed raw with
  | some (.consent pc) => some pc
  | _ => none

def Store.openSession (s : Store) (raw : String) : Option Session :=
  match s.openSealed raw with
  | some (.session x) => some x
  | _ => none

/-! ## Statements -/

/-- `accessList`; the query of the owner finds no row where the deployment is gone -/
def Store.accessList (s : Store) (deploymentID : String) : Except Failure (AccessList × Store) :=
  match s.platform.owner deploymentID with
  | none => .error .refused
  | some (email, subject) =>
    .ok (⟨email, subject, (s.entries.filter fun e => e.deploymentID == deploymentID).map
      fun e => ⟨e.id, e.email, e.subject.getD ""⟩⟩, s)

/-- `bindEntry`: `false` where the entry is bound already, or another entry of the deployment holds
the subject -/
def Store.bindEntry (s : Store) (entryID subject name : String) : Bool × Store :=
  match s.entries.find? fun e => e.id == entryID && e.subject.isNone with
  | none => (false, s)
  | some e =>
    if s.entries.any fun e' => e'.deploymentID == e.deploymentID && e'.subject == some subject then
      (false, s)
    else
      (true, { s with entries := s.entries.map fun e' =>
        if e'.id = entryID ∧ e'.subject = none then
          { e' with subject := some subject, name := nullable name, boundAt := some s.now }
        else e' })

def Store.hasConsent (s : Store) (subject deploymentID : String) (claims : List String) : Bool :=
  s.consents.any fun c => c.subject == subject && c.deploymentID == deploymentID &&
    claims.all fun x => c.claims.contains x

def Store.recordConsent (s : Store) (subject deploymentID : String) (claims : List String) :
    Store :=
  { s with consents := (s.consents.filter fun c =>
      !(c.subject == subject && c.deploymentID == deploymentID)) ++
        [⟨subject, deploymentID, claims, s.now⟩] }

def Store.insertCode (s : Store) (codeHash : Bytes) (c : CodeRecord) :
    Except Failure (Unit × Store) :=
  if s.codes.any fun r => r.codeHash == codeHash then .error .refused
  else .ok ((), { s with codes := s.codes ++ [⟨codeHash, c, s.now + codeTTL⟩] })

/-- `redeemCode` deletes the code whatever happens next -/
def Store.redeemCode (s : Store) (codeHash : Bytes) : Option (CodeRecord × Bool) × Store :=
  ((s.codes.find? fun r => r.codeHash == codeHash).map fun r => (r.code, decide (s.now < r.expiresAt)),
    { s with codes := s.codes.filter fun r => !(r.codeHash == codeHash) })

/-- the sid a deployment was first given in a Keycloak session, or the new one -/
def Store.sidOf (s : Store) (keycloakSID deploymentID sid : String) : String :=
  ((s.signIns.find? fun r => r.keycloakSID == keycloakSID && r.deploymentID == deploymentID).map
    (·.sid)).getD sid

/-- the sign-in a code completes, which takes the place of an earlier one but for its sid -/
def Store.upsertSignIn (s : Store) (keycloakSID deploymentID subject sid : String) : Store :=
  { s with signIns := (s.signIns.filter fun r =>
      !(r.keycloakSID == keycloakSID && r.deploymentID == deploymentID)) ++
        [⟨keycloakSID, deploymentID, subject, s.sidOf keycloakSID deploymentID sid, s.now⟩] }

/-- `insertOIDCCode`, one transaction -/
def Store.insertOIDCCode (s : Store) (codeHash : Bytes) (c : OidcCode) (keycloakSID : String) :
    Except Failure (Unit × Store) :=
  let t := s.upsertSignIn keycloakSID c.deploymentID c.subject c.sid
  let c := { c with sid := s.sidOf keycloakSID c.deploymentID c.sid }
  if t.oidcCodes.any fun r => r.codeHash == codeHash then .error .refused
  else .ok ((), { t with oidcCodes := t.oidcCodes ++ [⟨codeHash, c, s.now + codeTTL⟩] })

def Store.redeemOIDCCode (s : Store) (codeHash : Bytes) : Option (OidcCode × Bool) × Store :=
  ((s.oidcCodes.find? fun r => r.codeHash == codeHash).map
      fun r => (r.code, decide (s.now < r.expiresAt)),
    { s with oidcCodes := s.oidcCodes.filter fun r => !(r.codeHash == codeHash) })

/-- `endSession`, one transaction -/
def Store.endSession (s : Store) (keycloakSID : String) : List SignIn × Store :=
  ((s.signIns.filter fun r => r.keycloakSID == keycloakSID).map
      fun r => ⟨r.deploymentID, r.subject, r.sid⟩,
    { s with
      ended := if s.ended.any fun e => e.id == keycloakSID then s.ended
        else s.ended ++ [⟨keycloakSID, s.now⟩]
      signIns := s.signIns.filter fun r => !(r.keycloakSID == keycloakSID) })

/-- one `DELETE` of `purgeExpiredCodes` or `purgeSignOuts` -/
def Store.purge (s : Store) : AuthTable → Nat × Store
  | .code =>
    (s.codes.countP fun r => decide (r.expiresAt < s.now),
      { s with codes := s.codes.filter fun r => !decide (r.expiresAt < s.now) })
  | .oidcCode =>
    (s.oidcCodes.countP fun r => decide (r.expiresAt < s.now),
      { s with oidcCodes := s.oidcCodes.filter fun r => !decide (r.expiresAt < s.now) })
  | .signIn =>
    (s.signIns.countP fun r => decide (r.signedInAt < s.now - signInRetention),
      { s with signIns := s.signIns.filter fun r =>
          !decide (r.signedInAt < s.now - signInRetention) })
  | .endedSession =>
    (s.ended.countP fun e => decide (e.endedAt < s.now - endedRetention),
      { s with ended := s.ended.filter fun e => !decide (e.endedAt < s.now - endedRetention) })

/-! ## The verifier's memory -/

/-- `endedCache.status` -/
def EndedCache.status (c : EndedCache) (ksid : String) : Bool × Bool :=
  if c.loaded then (c.ids.any (fun p => p.1 == ksid) && ksid != "", true) else (false, false)

/-- where `endedCache.refresh` reads from -/
def EndedCache.since (c : EndedCache) : Time := if c.loaded then c.latest - endedLookback else 0

/-- the map with one more row, and the latest end it holds -/
def EndedCache.add (c : EndedCache) (e : EndedSession) : EndedCache :=
  { c with
    ids := (e.id, e.endedAt) :: c.ids.filter fun p => !(p.1 == e.id)
    latest := max c.latest e.endedAt }

/-- the rows read are added, and those past the retention forgotten -/
def EndedCache.merge (c : EndedCache) (rows : List EndedSession) (now : Time) : EndedCache :=
  let c := rows.foldl EndedCache.add c
  { c with ids := c.ids.filter fun p => !decide (p.2 < now - endedRetention), loaded := true }

/-- `patternCacheLimit`, which bounds the lists held as well -/
def accessLimit : Nat := 10000

def Store.accessKeep (s : Store) (host : String) (list : AccessList) : CachedAccess × Store :=
  let e : CachedAccess := ⟨list, s.now⟩
  let held := if accessLimit ≤ s.access.length then [] else s.access
  (e, { s with access := (host, e) :: held.filter fun p => !(p.1 == host) })

/-! ## One call -/

/-- what the call finds and does, given what it meets; `none` where it cannot meet that -/
def perform (cfg : Config) (s : Store) : (o : Op) → Choice → Option (Ret o × Store)
  | .now, .ok => some (s.now, s)
  | .random, .text t =>
    if s.drawn.any fun u => cfg.sha256Bytes u == cfg.sha256Bytes t then none
    else some (t, { s with drawn := t :: s.drawn })
  | .appSID clientID ksid, .ok => some (cfg.deriveSID s.sidKey clientID ksid, s)
  | .seal v ttl, .text handle =>
    if s.sealed.any fun r => r.handle == handle then none
    else some (.ok handle, { s with sealed := s.sealed ++ [⟨handle, v, unix (s.now + ttl)⟩] })
  | .seal _ _, .fails => some (.error .unavailable, s)
  | .openFlow raw, .ok => some (s.openFlow raw, s)
  | .openConsent raw, .ok => some (s.openConsent raw, s)
  | .openSession raw, .ok => some (s.openSession raw, s)
  | .signIDToken _, .ok => some (.ok (), s)
  | .signIDToken _, .fails => some (.error .unavailable, s)
  | .authURL _ _ _ _ _, .text url => some (.ok url, s)
  | .authURL _ _ _ _ _, .fails => some (.error .unavailable, s)
  | .idToken _ _, .keycloak t => some (t, s)
  | .logoutToken _, .logout t => some (t, s)
  | .eligible host, c => attempt s (.ok (s.platform.eligible host, s)) c
  | .ssoClient d, c =>
    attempt s (.ok ((s.platform.ssoClient d).map fun client => { client with id := d }, s)) c
  | .accessList d, c => attempt s (s.accessList d) c
  | .bindEntry e sub name, c => attempt s (.ok (s.bindEntry e sub name)) c
  | .hasConsent sub d claims, c => attempt s (.ok (s.hasConsent sub d claims, s)) c
  | .recordConsent sub d claims, c => attempt s (.ok ((), s.recordConsent sub d claims)) c
  | .insertCode h rec, c => attempt s (s.insertCode h rec) c
  | .redeemCode h, c => attempt s (.ok (s.redeemCode h)) c
  | .insertOIDCCode h rec ksid, c => attempt s (s.insertOIDCCode h rec ksid) c
  | .redeemOIDCCode h, c => attempt s (.ok (s.redeemOIDCCode h)) c
  | .endSession ksid, c => attempt s (.ok (s.endSession ksid)) c
  | .endedSessions since, c =>
    attempt s (.ok (s.ended.filter fun e => decide (since ≤ e.endedAt), s)) c
  | .purge table, c => attempt s (.ok (s.purge table)) c
  | .endedStatus ksid, .ok => some (s.cache.status ksid, s)
  | .endedSince, .ok => some (s.cache.since, s)
  | .endedMerge rows, .ok => some ((), { s with cache := s.cache.merge rows s.now })
  | .accessCached host, .ok => some ((s.access.find? fun p => p.1 == host).map (·.2), s)
  | .accessKeep host list, .ok => some (s.accessKeep host list)
  | _, _ => none

/-! ## The world around it -/

/-- what happens by itself: time passes, the platform changes what it serves, the API adds and
removes people, a deployment goes with all its rows, and the keyring gets a new first key -/
inductive World
  | pass (d : Nat)
  | platform (p : Platform)
  | addEntry (id deploymentID email : String)
  | dropEntry (id : String)
  | dropDeployment (deploymentID : String)
  | rotate (key : String)

/-- the API's entries keep their ids apart, and a deployment's emails; an id is never empty -/
def Store.addEntry (s : Store) (id deploymentID email : String) : Option Store :=
  if id = "" ∨ s.entries.any fun e =>
      e.id == id || (e.deploymentID == deploymentID && e.email == email) then
    none
  else some { s with entries := s.entries ++ [⟨id, deploymentID, email, none, none, none⟩] }

def change (s : Store) : World → Option Store
  | .pass d => some { s with now := s.now + d }
  | .platform p => some { s with platform := p }
  | .addEntry id d email => s.addEntry id d email
  | .dropEntry id => some { s with entries := s.entries.filter fun e => !(e.id == id) }
  | .dropDeployment d =>
    some { s with
      entries := s.entries.filter fun e => !(e.deploymentID == d)
      consents := s.consents.filter fun c => !(c.deploymentID == d)
      oidcCodes := s.oidcCodes.filter fun r => !(r.code.deploymentID == d)
      signIns := s.signIns.filter fun r => !(r.deploymentID == d) }
  | .rotate key => some { s with sidKey := key }

end Freepod.Auth
