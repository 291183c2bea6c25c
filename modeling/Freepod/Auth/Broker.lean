import Freepod.Auth.Access

/-!
# App authentication: the broker's parts

`broker.go` up to its request handlers: the Keycloak leg, what is checked of an app and a person,
and the code handed to a header app.  A step that fails has answered the browser and ends the
request; `w` are the cookies set so far.
-/

namespace Freepod.Auth
open Base

variable (cfg : Config)

def reservedPrefix : String := "/.freepod/auth/"

/-- `refuseHeader`: the no-access page, which signs out through `/logout` -/
def refuseHeader (w : List Cookie) (host email : String) : Response :=
  noAccess w host email (cfg.loginURL ++ "/logout?" ++ "host=" ++ host ++ "&rd=%2F")

/-- the header app at `host`, or an answer -/
def eligible (w : List Cookie) (host : String) : Handler HeaderApp := do
  match ← resolveHeaderApp cfg host with
  | .error _ => answer (internal w)
  | .ok none => answer (errorPage w 404 "Sign-in isn't available here"
      (host ++ " does not offer Sign in with Freepod."))
  | .ok (some app) => return app

/-- a listed app's access list, applied to `id` at `host`: when someone just authenticated, and with
`bind` when a code is issued -/
def admits (w : List Cookie) (app : HeaderApp) (host : String) (id : Identity) (bind : Bool) :
    Handler Unit := do
  if app.listed then
    granted (internal w) (refuseHeader cfg w host id.email) (← admitted cfg app.id id bind)

/-! ## The Keycloak leg -/

inductive ExchangeError
  | failed | emailUnverified | noSession

/-- `oidcAuth.exchange`: what is kept of the ID token Keycloak gave, if it gave one -/
def identityOf (nonce : String) : Option KeycloakToken → Except ExchangeError Identity
  | none => .error .failed
  | some t =>
    if t.nonce ≠ nonce then .error .failed
    else if !t.emailVerified || t.email == "" then .error .emailUnverified
    else if t.sid = "" then .error .noSession
    else
      let name := cfg.trimSpace t.name
      .ok { sub := t.sub, email := t.email
            name := if name = "" then t.preferredUsername else name
            authTime := if 0 < t.authTime then t.authTime * second else t.issuedAt
            keycloakSID := t.sid }

/-- redeems Keycloak's code and, when that fails, answers the browser -/
def exchange (w : List Cookie) (code : String) (f : Flow) : Handler Identity := do
  match identityOf cfg f.oidcNonce (← Ask.idToken code f.verifier) with
  | .ok id => return id
  | .error .emailUnverified => answer (errorPage w 403 "Verify your email first"
      ("Apps can only receive a verified email address. Open the verification email Freepod sent " ++
        "you, then sign in again."))
  | .error .noSession => answer (errorPage w 503 "Sign-in is temporarily unavailable"
      "Something on our side isn't working as it should. Please try again later.")
  | .error .failed => answer (errorPage w 400 "Sign-in couldn't be completed"
      "Go back to the app and try again.")

/-! ## Codes -/

def incompleteLink (w : List Cookie) : Response :=
  errorPage w 400 "This sign-in link is incomplete"
    "Part of the link is missing. Go back to the app and sign in again."

/-- binds the entry that admits `id`, if it is not yet bound, then hands the app host its code -/
def issueCode (w : List Cookie) (app : HeaderApp) (host rd nonceHash : String) (id : Identity) :
    Handler Response := do
  let some nonceDigest := decodeNonceHash cfg nonceHash | answer (incompleteLink w)
  admits cfg w app host id true
  let code ← Ask.random
  match ← Ask.insertCode (cfg.sha256Bytes code)
      ⟨host, id.sub, id.email, id.name, rd, nonceDigest, id.keycloakSID⟩ with
  | .error _ => return internal w
  | .ok () => return redirect w ("https://" ++ host ++ reservedPrefix ++ "callback") [("code", code)]

/-! ## The start of a sign-in to a header app -/

/-- seals the flow, and sends the browser to Keycloak; `unavailable` answers when Keycloak's address
cannot be made -/
def sendToKeycloak (w : List Cookie) (f : Flow) (prompt maxAge : String) (unavailable : Response) :
    Handler Response := do
  match ← Ask.sealed (.flow f) flowTTL with
  | .error _ => return internal w
  | .ok sealed =>
    match ← Ask.authURL f.state f.oidcNonce f.verifier prompt maxAge with
    | .error _ => return unavailable
    | .ok target =>
      return redirect (setCookie w (flowCookie ++ firstChars 16 f.state) sealed 600) target []

def start (q : Values) : Handler Response := do
  let host := normalizeHost cfg (q.get "host")
  let nonceHash := q.get "n"
  answerIf (host = "" ∨ ¬ nonceHashPattern nonceHash) (incompleteLink [])
  let _ ← eligible cfg [] host
  let state ← Ask.random
  let oidcNonce ← Ask.random
  let verifier ← Ask.random
  let f : Flow := ⟨host, safeReturnPath cfg (q.get "rd"), nonceHash, state, oidcNonce, verifier, none⟩
  sendToKeycloak [] f "" "" (internal [])

end Freepod.Auth
