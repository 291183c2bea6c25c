import Freepod.Auth.Broker

/-!
# App authentication: the OpenID Provider

`provider.go`: the broker's third role, for apps that are OIDC clients.  `authorize` checks the
client's request and sends the browser to Keycloak, `oidcCallback` and `oidcConsent` finish the
Keycloak leg and the consent page, and `token` redeems the code.
-/

namespace Freepod.Auth
open Base

variable (cfg : Config)

def maxStateLen : Nat := 512
def maxNonceLen : Nat := 256
def maxRedirectURILen : Nat := 2048

/-! ## Clients -/

/-- `pgStore.ssoClient`, which asks the database only for what may be a deployment's id -/
def ssoClient (clientID : String) : Handler (Except Failure (Option SsoClient)) :=
  if clientIDPattern clientID then Ask.ssoClient clientID else return .ok none

def SsoClient.isNativeRedirect (c : SsoClient) (uri : String) : Bool := c.nativeURIs.contains uri

def SsoClient.allowsRedirect (c : SsoClient) (uri : String) : Bool :=
  c.redirectURIs.contains uri || c.isNativeRedirect uri

/-- looks up a client and checks a redirect URI against it; until both pass, every failure is a
page on the login host, never a redirect -/
def oidcClient (w : List Cookie) (clientID redirectURI : String) : Handler SsoClient := do
  match ← ssoClient clientID with
  | .error _ => answer (internal w)
  | .ok none => answer (errorPage w 400 "Sign-in isn't available here"
      "This app is not set up for Sign in with Freepod.")
  | .ok (some c) =>
    answerIf (¬ c.allowsRedirect redirectURI) (errorPage w 400 "This sign-in link isn't valid"
      "The app asked to return to an address it may not use. Nothing was shared.")
    return c

/-- a listed client's access list; a refusal is the no-access page, or for `prompt=none`, which may
show none, `access_denied` -/
def oidcAdmits (w : List Cookie) (client : SsoClient) (req : OidcRequest) (id : Identity)
    (bind : Bool) : Handler Unit := do
  if client.listed then
    granted (internal w)
      (if req.promptNone then redirectError w req.redirectURI "access_denied" "" req.state
        else noAccess w client.hostname id.email (cfg.loginURL ++ "/oidc/logout"))
      (← admitted cfg client.id id bind)

/-! ## The authorization request -/

def invalidLink : Response :=
  errorPage [] 400 "This sign-in link isn't valid" "Go back to the app and sign in again."

def keycloakPrompts : List String := ["none", "login", "select_account"]

/-- the checks of an authorization request whose client and redirect URI are good: the error it is
refused with, or the prompts it passes on to Keycloak -/
def checkRequest (q : Values) (client : SsoClient) : Except (String × String) (List String) := do
  match q.repeated with
  | some k => throw ("invalid_request", "repeated parameter " ++ k)
  | none => pure ()
  let challenge := q.get "code_challenge"
  let method := q.get "code_challenge_method"
  if maxStateLen < (q.get "state").utf8ByteSize then
    throw ("invalid_request", "state is too long")
  if maxNonceLen < (q.get "nonce").utf8ByteSize then
    throw ("invalid_request", "nonce is too long")
  if maxRedirectURILen < (q.get "redirect_uri").utf8ByteSize then
    throw ("invalid_request", "redirect_uri is too long")
  if challenge ≠ "" ∧ ¬ challengePattern challenge then
    throw ("invalid_request", "code_challenge must be an S256 challenge")
  if q.get "response_type" = "" then
    throw ("invalid_request", "response_type is required")
  if q.get "response_type" ≠ "code" then
    throw ("unsupported_response_type", "only the authorization code flow is supported")
  if q.get "response_mode" ≠ "" ∧ q.get "response_mode" ≠ "query" then
    throw ("invalid_request", "only response_mode=query is supported")
  if q.has "request" then
    throw ("request_not_supported", "")
  if q.has "request_uri" then
    throw ("request_uri_not_supported", "")
  if ¬ (fields (q.get "scope")).contains "openid" then
    throw ("invalid_scope", "the openid scope is required")
  if challenge = "" ∧ method ≠ "" then
    throw ("invalid_request", "code_challenge_method without code_challenge")
  if challenge = "" ∧ (client.pkce ∨ client.isNativeRedirect (q.get "redirect_uri")) then
    throw ("invalid_request", "code_challenge is required")
  if challenge ≠ "" ∧ method ≠ "S256" then
    throw ("invalid_request", "code_challenge_method must be S256")
  let prompts := fields (q.get "prompt")
  if prompts.any fun p => p != "consent" && !keycloakPrompts.contains p then
    throw ("invalid_request", "unsupported prompt value")
  if prompts.contains "none" ∧ 1 < prompts.length then
    throw ("invalid_request", "prompt=none cannot be combined")
  if q.get "max_age" ≠ "" ∧ ¬ isNonNegativeInt (q.get "max_age") then
    throw ("invalid_request", "max_age must be a non-negative integer")
  return prompts

def authorize (params : Option Values) : Handler Response := do
  let some q := params | answer invalidLink
  answerIf (1 < q.count "client_id" ∨ 1 < q.count "redirect_uri") invalidLink
  let redirectURI := q.get "redirect_uri"
  let client ← oidcClient [] (q.get "client_id") redirectURI
  let state := if maxStateLen < (q.get "state").utf8ByteSize then "" else q.get "state"
  match checkRequest q client with
  | .error (code, description) => return redirectError [] redirectURI code description state
  | .ok prompts =>
    let kcState ← Ask.random
    let oidcNonce ← Ask.random
    let verifier ← Ask.random
    let req : OidcRequest :=
      { clientID := client.id, redirectURI := redirectURI, state := state, nonce := q.get "nonce"
        challenge := q.get "code_challenge", promptNone := prompts.contains "none"
        forceConsent := prompts.contains "consent" }
    let f : Flow := ⟨client.hostname, "", "", kcState, oidcNonce, verifier, some req⟩
    sendToKeycloak [] f (" ".intercalate (prompts.filter keycloakPrompts.contains))
      (q.get "max_age") (redirectError [] redirectURI "temporarily_unavailable" "" state)

/-! ## The code -/

/-- binds the entry that admits `id`, then records the sign-in and hands the app its code -/
def issueOIDCCode (w : List Cookie) (client : SsoClient) (req : OidcRequest) (id : Identity) :
    Handler Response := do
  oidcAdmits cfg w client req id true
  let code ← Ask.random
  let sid ← Ask.appSID req.clientID id.keycloakSID
  match ← Ask.insertOIDCCode (cfg.sha256Bytes code)
      { deploymentID := req.clientID, redirectURI := req.redirectURI, subject := id.sub
        email := id.email, name := id.name, nonce := req.nonce, codeChallenge := req.challenge
        authTime := id.authTime, sid := sid } id.keycloakSID with
  | .error _ => return redirectError w req.redirectURI "server_error" "" req.state
  | .ok () =>
    return redirect w req.redirectURI
      ([("code", code)] ++ (if req.state ≠ "" then [("state", req.state)] else []))

/-- the Keycloak errors an app can act on -/
def idpErrors : List String :=
  ["login_required", "interaction_required", "consent_required", "account_selection_required",
    "access_denied", "temporarily_unavailable"]

/-- the one more form-action source for a native app's scheme -/
def formAction (client : SsoClient) (redirectURI : String) : String :=
  if client.isNativeRedirect redirectURI then
    String.ofList (redirectURI.toList.takeWhile (· != ':')) ++ ":"
  else ""

/-- the Keycloak leg of an OIDC sign-in -/
def oidcCallback (w : List Cookie) (q : Values) (f : Flow) (req : OidcRequest) :
    Handler Response := do
  let client ← oidcClient w req.clientID req.redirectURI
  let errCode := q.get "error"
  answerIf (errCode ≠ "") (redirectError w req.redirectURI
    (if idpErrors.contains errCode then errCode else "server_error") "" req.state)
  let id ← exchange cfg w (q.get "code") f
  oidcAdmits cfg w client req id false
  match ← Ask.hasConsent id.sub client.id disclosedClaims with
  | .error _ => return internal w
  | .ok consented =>
    if consented && !req.forceConsent then
      issueOIDCCode cfg w client req id
    else if req.promptNone then
      return redirectError w req.redirectURI "consent_required" "" req.state
    else
      let csrf ← Ask.random
      let pc : PendingConsent :=
        { host := client.hostname, rd := "", nonceHash := "", deploymentID := client.id
          sub := id.sub, email := id.email, name := id.name, csrf := csrf, oidc := some req
          authTime := unix id.authTime, keycloakSID := id.keycloakSID }
      match ← Ask.sealed (.consent pc) consentTTL with
      | .error _ => return internal w
      | .ok sealed => return ⟨200, setCookie w consentCookie sealed 600,
          .consentPage pc.host pc.email pc.name pc.csrf (formAction client req.redirectURI)⟩

/-- an OIDC sign-in from the consent page -/
def oidcConsent (w : List Cookie) (form : Values) (pc : PendingConsent) (req : OidcRequest) :
    Handler Response := do
  let client ← oidcClient w req.clientID req.redirectURI
  answerIf (form.get "decision" ≠ "allow")
    (redirectError w req.redirectURI "access_denied" "" req.state)
  let id : Identity := ⟨pc.sub, pc.email, pc.name, pc.authTime * second, pc.keycloakSID⟩
  oidcAdmits cfg w client req id false
  match ← Ask.recordConsent pc.sub client.id disclosedClaims with
  | .error _ => return internal w
  | .ok () => issueOIDCCode cfg w client req id

/-! ## The token endpoint -/

/-- the id and the secret of the client that a token request names, or the error it gets -/
def clientOf (form : Values) (basic : Option (String × String)) :
    Except (Nat × String × String) (String × String) := do
  match basic with
  | none => return (form.get "client_id", form.get "client_secret")
  | some (basicID, basicSecret) =>
    if form.has "client_secret" then
      throw (400, "invalid_request", "more than one client authentication method")
    match cfg.queryUnescape basicID, cfg.queryUnescape basicSecret with
    | some id, some secret =>
      if form.get "client_id" ≠ "" ∧ form.get "client_id" ≠ id then
        throw (401, "invalid_client", "")
      return (id, secret)
    | _, _ => throw (401, "invalid_client", "")

/-- the code verifier against the challenge the code was issued with -/
def pkceMatches (challenge verifier : String) : Bool :=
  if challenge = "" then verifier == ""
  else verifierPattern verifier && hashToken cfg verifier == challenge

def idTokenClaims (c : OidcCode) (now : Time) : IDTokenClaims where
  iss := cfg.loginURL
  aud := c.deploymentID
  azp := c.deploymentID
  sub := c.subject
  sid := c.sid
  email := c.email
  emailVerified := true
  name := c.name
  iat := unix now
  exp := unix (now + idTokenTTL)
  authTime := unix c.authTime
  nonce := c.nonce

/-- the tokens for a redeemed code -/
def releaseTokens (client : SsoClient) (rec : OidcCode) : Handler Response := do
  let now ← Ask.now
  let claims := idTokenClaims cfg rec now
  match ← Ask.signIDToken claims with
  | .error _ => return tokenError 500 "server_error" ""
  | .ok () =>
    match ← Ask.sealed (.access ⟨client.id, rec.subject, rec.email, rec.name⟩) accessTokenTTL with
    | .error _ => return tokenError 500 "server_error" ""
    | .ok access => return ⟨200, [], .tokens access 600 claims "openid email profile"⟩

def invalidGrant : Response := tokenError 400 "invalid_grant" ""

/-- the access list of a listed client, applied again to the one a code was issued to -/
def tokenAdmits (client : SsoClient) (rec : OidcCode) : Handler Unit := do
  if client.listed then
    granted (tokenError 503 "temporarily_unavailable" "") invalidGrant
      (← admitted cfg client.id ⟨rec.subject, rec.email, "", 0, ""⟩ false)

/-- a code presented by an authenticated client -/
def redeem (form : Values) (client : SsoClient) : Handler Response := do
  answerIf (form.get "grant_type" ≠ "authorization_code")
    (tokenError 400 "unsupported_grant_type" "")
  answerIf (form.get "code" = "") (tokenError 400 "invalid_request" "code is required")
  match ← Ask.redeemOIDCCode (cfg.sha256Bytes (form.get "code")) with
  | .error _ => return tokenError 503 "temporarily_unavailable" ""
  | .ok none => return invalidGrant
  | .ok (some (rec, fresh)) =>
    answerIf (¬ fresh ∨ rec.deploymentID ≠ client.id ∨ form.get "redirect_uri" ≠ rec.redirectURI)
      invalidGrant
    tokenAdmits cfg client rec
    answerIf (¬ pkceMatches cfg rec.codeChallenge (form.get "code_verifier")) invalidGrant
    releaseTokens cfg client rec

def token (form : Option Values) (basic : Option (String × String)) : Handler Response := do
  let some form := form |
    answer (tokenError 400 "invalid_request" "the request body could not be read")
  answerIf form.repeated.isSome
    (tokenError 400 "invalid_request" ("repeated parameter " ++ form.repeated.getD ""))
  match clientOf cfg form basic with
  | .error (status, code, description) => return tokenError status code description
  | .ok (clientID, secret) =>
    answerIf (clientID = "" ∨ secret = "" ∨ ¬ cfg.verifyClientSecret clientID secret)
      (tokenError 401 "invalid_client" "")
    match ← ssoClient clientID with
    | .error _ => return tokenError 503 "temporarily_unavailable" ""
    | .ok none => return tokenError 401 "invalid_client" ""
    | .ok (some client) => redeem cfg form client

end Freepod.Auth
