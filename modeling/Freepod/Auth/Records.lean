import Freepod.Base.Pool
import Freepod.Platform.Rows

/-!
# App authentication: its records

`daemons/app-auth` signs people in to apps: a *verifier* answers the edge for each request to a
header app, and a *broker* sends browsers to Keycloak, asks for consent and hands out codes; it is
an OpenID Provider as well.  These are the values it seals into cookies, the rows it stores, and
the calls its handlers make (`verify.go`, `broker.go`, `provider.go`, `store.go`).

Times are nanoseconds since Go's zero time.  A sealed value is the value itself: a browser holds a
handle of it, which opens only what was sealed under it.
-/

namespace Freepod.Auth

abbrev Bytes := List UInt8

def second : Nat := 1000000000
def minute : Nat := 60 * second
def hour : Nat := 60 * minute

/-- whole seconds of a time -/
def unix (t : Time) : Nat := t / second

def sessionTTL : Nat := 7 * 24 * hour
def flowTTL : Nat := 10 * minute
def consentTTL : Nat := 10 * minute
def codeTTL : Nat := 60 * second
def idTokenTTL : Nat := 300 * second
def accessTokenTTL : Nat := 10 * minute
def signInRetention : Nat := 720 * hour
def endedRetention : Nat := 7 * 24 * hour
def endedLookback : Nat := minute
def logoutTokenAge : Nat := 2 * minute
def logoutSkew : Nat := 5 * second
def accessTTL : Nat := 30 * second
def accessRecheck : Nat := 5 * second

/-- exactly what the consent page lists and the verifier forwards -/
def disclosedClaims : List String := ["sub", "email", "name"]

/-! ## Sealed values -/

structure OidcRequest where
  clientID : String
  redirectURI : String
  state : String
  nonce : String
  challenge : String
  promptNone : Bool
  forceConsent : Bool
  deriving DecidableEq

/-- the broker's state while the browser is away at Keycloak -/
structure Flow where
  host : String
  rd : String
  nonceHash : String
  state : String
  oidcNonce : String
  verifier : String
  oidc : Option OidcRequest
  deriving DecidableEq

/-- an authenticated identity across the consent page; `authTime` is in whole seconds -/
structure PendingConsent where
  host : String
  rd : String
  nonceHash : String
  deploymentID : String
  sub : String
  email : String
  name : String
  csrf : String
  oidc : Option OidcRequest
  authTime : Nat
  keycloakSID : String
  deriving DecidableEq

/-- what the session cookie seals -/
structure Session where
  sub : String
  email : String
  name : String
  host : String
  keycloakSID : String
  deriving DecidableEq

/-- the access token's content -/
structure AccessGrant where
  clientID : String
  sub : String
  email : String
  name : String
  deriving DecidableEq

/-- a value with the purpose it is sealed for -/
inductive Sealed
  | flow (f : Flow)
  | consent (pc : PendingConsent)
  | session (s : Session)
  | access (g : AccessGrant)
  deriving DecidableEq

/-! ## Identities and clients -/

structure Identity where
  sub : String
  email : String
  name : String
  authTime : Time
  keycloakSID : String
  deriving DecidableEq

/-- the claims of an ID token that Keycloak signed for this client -/
structure KeycloakToken where
  sub : String
  nonce : String
  issuedAt : Time
  email : String
  emailVerified : Bool
  name : String
  preferredUsername : String
  authTime : Nat
  sid : String
  deriving DecidableEq

/-- the claims of a logout token that Keycloak signed for this client; `issuedAt` is `none` when
the token carries no `iat` -/
structure LogoutToken where
  issuedAt : Option Time
  sid : String
  logoutEvent : Bool
  nonce : Option String
  deriving DecidableEq

structure HeaderApp where
  id : String
  listed : Bool
  deriving DecidableEq

structure SsoClient where
  id : String
  hostname : String
  redirectURIs : List String
  nativeURIs : List String
  logoutURI : String
  pkce : Bool
  listed : Bool
  deriving DecidableEq

structure AccessEntry where
  id : String
  email : String
  subject : String
  deriving DecidableEq

structure AccessList where
  ownerEmail : String
  ownerSubject : String
  entries : List AccessEntry
  deriving DecidableEq

/-! ## Codes and sessions in the store -/

structure CodeRecord where
  host : String
  subject : String
  email : String
  name : String
  returnPath : String
  nonceHash : Bytes
  keycloakSID : String
  deriving DecidableEq

structure OidcCode where
  deploymentID : String
  redirectURI : String
  subject : String
  email : String
  name : String
  nonce : String
  codeChallenge : String
  authTime : Time
  sid : String
  deriving DecidableEq

/-- a deployment a Keycloak session signed in to -/
structure SignIn where
  deploymentID : String
  subject : String
  sid : String
  deriving DecidableEq

structure EndedSession where
  id : String
  endedAt : Time
  deriving DecidableEq

structure IDTokenClaims where
  iss : String
  aud : String
  azp : String
  sub : String
  sid : String
  email : String
  emailVerified : Bool
  name : String
  iat : Nat
  exp : Nat
  authTime : Nat
  nonce : String
  deriving DecidableEq

/-- the tables the purge loop deletes from -/
inductive AuthTable
  | code | oidcCode | signIn | endedSession
  deriving DecidableEq

/-- a list as the verifier holds it -/
structure CachedAccess where
  list : AccessList
  loaded : Time
  deriving DecidableEq

/-! ## Calls -/

/-- the store did not answer, or refused the statement -/
inductive Failure
  | unavailable | refused
  deriving DecidableEq

/-- what a handler asks of the clock, the keyring, Keycloak, the store and the verifier's memory -/
inductive Op
  | now
  | random
  | appSID (clientID keycloakSID : String)
  | seal (v : Sealed) (ttl : Nat)
  | openFlow (raw : String)
  | openConsent (raw : String)
  | openSession (raw : String)
  | signIDToken (c : IDTokenClaims)
  | authURL (state nonce verifier prompt maxAge : String)
  | idToken (code verifier : String)
  | logoutToken (raw : String)
  | eligible (host : String)
  | ssoClient (deploymentID : String)
  | accessList (deploymentID : String)
  | bindEntry (entryID subject name : String)
  | hasConsent (subject deploymentID : String) (claims : List String)
  | recordConsent (subject deploymentID : String) (claims : List String)
  | insertCode (codeHash : Bytes) (c : CodeRecord)
  | redeemCode (codeHash : Bytes)
  | insertOIDCCode (codeHash : Bytes) (c : OidcCode) (keycloakSID : String)
  | redeemOIDCCode (codeHash : Bytes)
  | endSession (keycloakSID : String)
  | endedSessions (since : Time)
  | purge (table : AuthTable)
  | endedStatus (ksid : String)
  | endedSince
  | endedMerge (rows : List EndedSession)
  | accessCached (host : String)
  | accessKeep (host : String) (list : AccessList)
  deriving DecidableEq

/-- what a call answers; a redeemed code comes with whether it was still fresh, and
`endedStatus` with whether the session has ended and whether the copy was ever read -/
@[reducible] def Ret : Op → Type
  | .now => Time
  | .random => String
  | .appSID _ _ => String
  | .seal _ _ => Except Failure String
  | .openFlow _ => Option Flow
  | .openConsent _ => Option PendingConsent
  | .openSession _ => Option Session
  | .signIDToken _ => Except Failure Unit
  | .authURL _ _ _ _ _ => Except Failure String
  | .idToken _ _ => Option KeycloakToken
  | .logoutToken _ => Option LogoutToken
  | .eligible _ => Except Failure (Option HeaderApp)
  | .ssoClient _ => Except Failure (Option SsoClient)
  | .accessList _ => Except Failure AccessList
  | .bindEntry _ _ _ => Except Failure Bool
  | .hasConsent _ _ _ => Except Failure Bool
  | .recordConsent _ _ _ => Except Failure Unit
  | .insertCode _ _ => Except Failure Unit
  | .redeemCode _ => Except Failure (Option (CodeRecord × Bool))
  | .insertOIDCCode _ _ _ => Except Failure Unit
  | .redeemOIDCCode _ => Except Failure (Option (OidcCode × Bool))
  | .endSession _ => Except Failure (List SignIn)
  | .endedSessions _ => Except Failure (List EndedSession)
  | .purge _ => Except Failure Nat
  | .endedStatus _ => Bool × Bool
  | .endedSince => Time
  | .endedMerge _ => Unit
  | .accessCached _ => Option CachedAccess
  | .accessKeep _ _ => CachedAccess

end Freepod.Auth
