import Freepod.Auth.Provider

/-!
# App authentication: its requests

The handlers of `broker.go`, `verify.go`, `signout.go`, `ended.go` and the purge loop, and the
service they make: `service` answers any requests at once against one store and one verifier.
-/

namespace Freepod.Auth
open Base

variable (cfg : Config)

/-! ## The broker -/

/-- the first of the cookies that opens as a flow -/
def firstFlow : List String → Handler (Option Flow)
  | [] => return none
  | raw :: rest => do
    match ← Ask.openFlow raw with
    | some f => return some f
    | none => firstFlow rest

/-- the first of the cookies that opens as a pending consent -/
def firstConsent : List String → Handler (Option PendingConsent)
  | [] => return none
  | raw :: rest => do
    match ← Ask.openConsent raw with
    | some pc => return some pc
    | none => firstConsent rest

/-- the rest of a header app's callback: a code where there is consent, else the consent page -/
def headerCallback (w : List Cookie) (q : Values) (f : Flow) : Handler Response := do
  answerIf (q.get "error" ≠ "") (errorPage w 400 "Sign-in canceled"
    "Nothing was shared. You can close this page, or go back to the app to try again.")
  let id ← exchange cfg w (q.get "code") f
  let app ← eligible cfg w f.host
  admits cfg w app f.host id false
  match ← Ask.hasConsent id.sub app.id disclosedClaims with
  | .error _ => return internal w
  | .ok true => issueCode cfg w app f.host f.rd f.nonceHash id
  | .ok false =>
    let csrf ← Ask.random
    let pc : PendingConsent :=
      { host := f.host, rd := f.rd, nonceHash := f.nonceHash, deploymentID := app.id
        sub := id.sub, email := id.email, name := id.name, csrf := csrf, oidc := none
        authTime := 0, keycloakSID := id.keycloakSID }
    match ← Ask.sealed (.consent pc) consentTTL with
    | .error _ => return internal w
    | .ok sealed => return ⟨200, setCookie w consentCookie sealed 600,
        .consentPage pc.host pc.email pc.name pc.csrf ""⟩

def callback (q : Values) (cookies : Cookies) : Handler Response := do
  let state := q.get "state"
  answerIf (state.utf8ByteSize < 16) (incompleteLink [])
  let cookieName := flowCookie ++ firstChars 16 state
  let opened ← firstFlow (cookieValues cookies cookieName)
  let w := clearCookie [] cookieName
  match opened.filter fun f => f.state == state with
  | none =>
    return errorPage w 400 "This sign-in expired"
      ("It took too long, or it was started in another browser. Go back to the app and try " ++
        "again.")
  | some f =>
    match f.oidc with
    | some req => oidcCallback cfg w q f req
    | none => headerCallback cfg w q f

/-- the rest of a header app's consent -/
def headerConsent (w : List Cookie) (form : Values) (pc : PendingConsent) : Handler Response := do
  answerIf (form.get "decision" ≠ "allow") ⟨200, w, .page "Nothing was shared"
    (pc.host ++ " did not receive your name or email address. You can close this page.")⟩
  let app ← eligible cfg w pc.host
  -- consent given to one deployment is never recorded against another
  answerIf (app.id ≠ pc.deploymentID) (errorPage w 409 "This app changed"
    ("It was replaced while you were deciding, and nothing was shared. Go back to it and sign " ++
      "in again."))
  let id : Identity := ⟨pc.sub, pc.email, pc.name, 0, pc.keycloakSID⟩
  admits cfg w app pc.host id false
  match ← Ask.recordConsent pc.sub app.id disclosedClaims with
  | .error _ => return internal w
  | .ok () => issueCode cfg w app pc.host pc.rd pc.nonceHash id

def consent (form : Option Values) (cookies : Cookies) : Handler Response := do
  let some form := form | answer (errorPage [] 400 "Something went wrong"
    "The form could not be read. Go back to the app and sign in again.")
  let opened ← firstConsent (cookieValues cookies consentCookie)
  let w := clearCookie [] consentCookie
  match opened.filter fun pc => pc.csrf == form.get "csrf" && pc.keycloakSID != "" with
  | none =>
    return errorPage w 400 "This page expired"
      "Nothing was shared. Go back to the app and sign in again."
  | some pc =>
    match pc.oidc with
    | some req => oidcConsent cfg w form pc req
    | none => headerConsent cfg w form pc

/-! ## The end of a Keycloak session -/

/-- `verifyLogout`: the session that a logout token of Keycloak ends -/
def verifyLogout (t : LogoutToken) (now : Time) : Option String :=
  match t.issuedAt with
  | none => none
  | some iat =>
    if logoutTokenAge + logoutSkew < now - iat ∨ logoutSkew < iat - now then none
    else if ¬ t.logoutEvent ∨ t.nonce ≠ none ∨ t.sid = "" then none
    else some t.sid

/-- the sign-ins it removes are handed to deliveries, which touch no table -/
def backchannelLogout (form : Option Values) : Handler Response := do
  let some form := form | answer ⟨400, [], .text "unreadable request"⟩
  let now ← Ask.now
  let some t ← (if form.get "logout_token" = "" then return none
    else Ask.logoutToken (form.get "logout_token")) |
      answer ⟨400, [], .text "invalid logout token"⟩
  let some sid := verifyLogout t now | answer ⟨400, [], .text "invalid logout token"⟩
  match ← Ask.endSession sid with
  | .error _ => return ⟨500, [], .text "temporarily unavailable"⟩
  | .ok _ => return ⟨200, [], .done⟩

/-! ## The verifier -/

/-- `verifier.session`: the first of the cookies that opens as a session for `host` -/
def sessionFor (host : String) : List String → Handler (Option Session)
  | [] => return none
  | raw :: rest => do
    match ← Ask.openSession raw with
    | some s =>
      if s.host = host ∧ s.sub ≠ "" then
        return some s
      sessionFor host rest
    | none => sessionFor host rest

/-- marks this browser as the one starting sign-in, and sends it to the broker -/
def startLogin (w : List Cookie) (host rd : String) : Handler Response := do
  let nonce ← Ask.random
  return redirect (setCookie w loginCookie nonce 600) (cfg.loginURL ++ "/start")
    [("host", host), ("rd", rd), ("n", hashToken cfg nonce)]

def failurePage (w : List Cookie) : Response :=
  errorPage w 400 "Sign-in didn't complete"
    ("This sign-in link expired or was already used, or it was opened in a different browser " ++
      "from the one that started signing in.")

def nonceMatches (cookies : Cookies) (want : Bytes) : Bool :=
  (cookieValues cookies loginCookie).any fun nonce => cfg.sha256Bytes nonce == want

/-- redeems a broker-issued code into a session on this host; every presentation burns the code -/
def appCallback (cookies : Cookies) (host code : String) : Handler Response := do
  let w := clearCookie [] loginCookie
  answerIf (code = "") (failurePage w)
  match ← Ask.redeemCode (cfg.sha256Bytes code) with
  | .error _ => return ⟨503, w, .text "sign-in is temporarily unavailable"⟩
  | .ok none => return failurePage w
  | .ok (some (rec, fresh)) =>
    answerIf (¬ fresh ∨ rec.host ≠ host ∨ ¬ nonceMatches cfg cookies rec.nonceHash) (failurePage w)
    match ← Ask.sealed (.session ⟨rec.subject, rec.email, rec.name, host, rec.keycloakSID⟩)
        sessionTTL with
    | .error _ => return ⟨500, w, .text "internal error"⟩
    | .ok value =>
      return redirect (setCookie w sessionCookie value 604800)
        ("https://" ++ host ++ safeReturnPath cfg rec.returnPath) []

/-- the verifier's own paths -/
def reserved (cookies : Cookies) (host : String) (target : Target) : Handler Response :=
  if target.path = reservedPrefix ++ "login" then
    startLogin cfg [] host (safeReturnPath cfg (target.query.get "rd"))
  else if target.path = reservedPrefix ++ "logout" then
    return redirect (clearCookie [] sessionCookie) (cfg.loginURL ++ "/logout")
      [("host", host), ("rd", safeReturnPath cfg (target.query.get "rd"))]
  else if target.path = reservedPrefix ++ "callback" then
    appCallback cfg cookies host (target.query.get "code")
  else return ⟨404, [], .text "404 page not found"⟩

/-- a signed-in account the deployment does not admit -/
def refuse (r : ForwardAuth) (host email : String) : Response :=
  let name := r.edge.get "n"
  if isNavigation r.method r.headers then
    ⟨403, [], .noAccess (if name = "" then host else name) (name != "") ("https://" ++ host) email
      ("https://" ++ host ++ reservedPrefix ++ "logout?rd=/")⟩
  else ⟨403, [], .text "This account has no access to this app.\n"⟩

/-- the session a request is identified by, unless its Keycloak session has ended or another
origin's page sent it -/
def identify (r : ForwardAuth) (host : String) : Handler (Option Session) := do
  match ← sessionFor host (cookieValues r.cookies sessionCookie) with
  | none => return none
  | some s =>
    let (ended, ready) ← Ask.endedStatus s.keycloakSID
    answerIf (¬ ready) ⟨503, [], .text "sign-in is temporarily unavailable"⟩
    return if ended ∨ foreignInitiated cfg r.method r.headers host then none else some s

/-- the `l` parameter applies the deployment's access list to whoever is signed in -/
def checkAccess (r : ForwardAuth) (host : String) : Option Session → Handler Unit
  | none => return ()
  | some s =>
    if r.edge.has "l" then do
      answerIf (r.edge.get "l" ≠ "1") (refuse r host s.email)
      let ok ← accessAdmits cfg host s
      answerIf (¬ ok) (refuse r host s.email)
    else return ()

/-- `ServeHTTP` past the verifier's own paths -/
def verifyRequest (r : ForwardAuth) (host : String) (target : Target) : Handler Response := do
  let sess ← identify cfg r host
  checkAccess cfg r host sess
  if sess.isSome ∨ cfg.publicPath (r.edge.get "p") target.path then
    return ⟨200, [], .through (filterCookies cfg r.cookies) sess⟩
  if isNavigation r.method r.headers then
    startLogin cfg [] host (safeReturnPath cfg target.requestURI)
  else
    return ⟨401, [], .text
      "Sign-in required. Navigate to /.freepod/auth/login to sign in.\n"⟩

/-- `ServeHTTP`: Traefik's forward-auth request -/
def verify (r : ForwardAuth) : Handler Response := do
  let host := normalizeHost cfg r.host
  answerIf (host = "" ∨ r.uri = "" ∨ r.method = "") ⟨400, [], .text "not a forward-auth request"⟩
  match r.target with
  | none => return ⟨400, [], .text "bad request"⟩
  | some target =>
    if reservedPrefix.toList.isPrefixOf target.path.toList then
      reserved cfg r.cookies host target
    else
      verifyRequest cfg r host target

/-! ## The loops -/

/-- one round of `endedCache.run`: a failed read keeps the copy held -/
def refreshEnded : Handler Response := do
  let since ← Ask.endedSince
  match ← Ask.endedSessions since with
  | .error _ => return ⟨0, [], .done⟩
  | .ok rows =>
    Ask.endedMerge rows
    return ⟨0, [], .done⟩

/-- the deletions of one purge, up to the first that fails -/
def purgeTables : List AuthTable → Handler Unit
  | [] => return ()
  | table :: rest => do
    match ← Ask.purge table with
    | .error _ => return ()
    | .ok _ => purgeTables rest

/-- one round of `purgeLoop`: `purgeExpiredCodes`, then `purgeSignOuts` -/
def purgeRound : Handler Response := do
  purgeTables [.code, .oidcCode]
  purgeTables [.signIn, .endedSession]
  return ⟨0, [], .done⟩

/-! ## The service -/

def handler : Request → Handler Response
  | .verify r => verify cfg r
  | .start q => start cfg q
  | .callback q cookies => callback cfg q cookies
  | .consent form cookies => consent cfg form cookies
  | .authorize params => authorize params
  | .token form basic => token cfg form basic
  | .backchannelLogout form => backchannelLogout form
  | .refreshEnded => refreshEnded
  | .purgeLoop => purgeRound

/-- app authentication, answering any requests at once -/
def service : Service Ret Request Response Store Time Choice World where
  handler := handler cfg
  perform := perform cfg
  change := change
  clock := Store.now

abbrev AuthPool := Pool Ret Request Response Store Time
abbrev AuthEvent := Event Request Choice World
abbrev AuthEntry := Entry Ret Request Time

end Freepod.Auth
