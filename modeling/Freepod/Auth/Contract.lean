import Freepod.Auth.Handlers

/-!
# App authentication: what a request may do

Every handler knows the answers to its own calls only.  `deed` says what its log holds whenever it
seals a value, stores or redeems a code, binds an entry or asks whether a session has ended, and
`reply` what it holds when tokens or an identity are given out.  `meets_handler`: every handler
keeps to that, whatever its calls answer.
-/

namespace Freepod.Auth
open Base

variable (cfg : Config)

/-! ## What a log can hold -/

/-- `id` authenticated at Keycloak for the flow that the request's cookie holds -/
def Authenticated (log : Log Ret) (f : Flow) (id : Identity) : Prop :=
  (∃ raw, Made log (.openFlow raw) (some f)) ∧
    ∃ code t, Made log (.idToken code f.verifier) t ∧ identityOf cfg f.oidcNonce t = .ok id

/-- `app` is the header app at `host`, or at the hostname that `host` previews -/
def Served (log : Log Ret) (host : String) (app : HeaderApp) : Prop :=
  Made log (.eligible host) (.ok (some app)) ∨
    ∃ base, previewBase cfg host = some base ∧ Made log (.eligible host) (.ok none) ∧
      Made log (.eligible base) (.ok (some app))

/-- the deployment's list admits the subject as owner or by a bound entry, or an entry was bound
to it -/
def Bound (log : Log Ret) (d sub email : String) : Prop :=
  ∃ l, Made log (.accessList d) (.ok l) ∧
    ( l.admit cfg sub email = (true, "") ∨
      ∃ e name, l.admit cfg sub email = (true, e) ∧ Made log (.bindEntry e sub name) (.ok true))

/-- the subject's consent to the deployment was found or recorded -/
def Consented (log : Log Ret) (d sub : String) : Prop :=
  Made log (.hasConsent sub d disclosedClaims) (.ok true) ∨
    Made log (.recordConsent sub d disclosedClaims) (.ok ())

/-- the identity a code names was authenticated for a flow, in this request -/
structure FromFlow (log : Log Ret) (oidc : Option OidcRequest) (sub email ksid : String)
    (f : Flow) : Prop where
  oidc : f.oidc = oidc
  auth : ∃ id, Authenticated cfg log f id ∧ id.sub = sub ∧ id.email = email ∧ id.keycloakSID = ksid

/-- or in the request that showed the consent page -/
structure FromConsent (log : Log Ret) (oidc : Option OidcRequest) (sub email ksid : String)
    (pc : PendingConsent) : Prop where
  oidc : pc.oidc = oidc
  opened : ∃ raw, Made log (.openConsent raw) (some pc)
  sub : pc.sub = sub
  email : pc.email = email
  ksid : pc.keycloakSID = ksid

/-! ## What a request may do -/

/-- a flow for a header app is sealed by a start request for its host and digest, and one for a
client by an authorization request of that client for its redirect URI and challenge -/
def SealsFlow (req : Request) (log : Log Ret) (f : Flow) : Prop :=
  match f.oidc with
  | none => ∃ q, req = .start q ∧ f.host = normalizeHost cfg (q.get "host") ∧
      f.nonceHash = q.get "n"
  | some r => ∃ q client, req = .authorize (some q) ∧
      Made log (.ssoClient (q.get "client_id")) (.ok (some client)) ∧ r.clientID = client.id ∧
      client.allowsRedirect r.redirectURI = true ∧ r.redirectURI = q.get "redirect_uri" ∧
      r.challenge = q.get "code_challenge"

/-- a pending consent names the identity authenticated for its flow -/
def SealsConsent (log : Log Ret) (pc : PendingConsent) : Prop :=
  ∃ f, FromFlow cfg log pc.oidc pc.sub pc.email pc.keycloakSID f ∧
    (pc.oidc = none → pc.host = f.host ∧ pc.nonceHash = f.nonceHash)

/-- a session is sealed by the request that has just redeemed a code for the host it is on, and
presents the nonce that the code names -/
def SealsSession (req : Request) (log : Log Ret) (s : Session) : Prop :=
  ∃ r target rec older, req = .verify r ∧ r.target = some target ∧
    log = ⟨.redeemCode (cfg.sha256Bytes (target.query.get "code")), .ok (some (rec, true))⟩ ::
      older ∧
    rec.host = normalizeHost cfg r.host ∧ nonceMatches cfg r.cookies rec.nonceHash = true ∧
    s = ⟨rec.subject, rec.email, rec.name, rec.host, rec.keycloakSID⟩

/-- a header app's code goes to someone its host admits, who consented, and who authenticated for
the flow whose digest it names -/
def InsertsCode (log : Log Ret) (codeHash : Bytes) (rec : CodeRecord) : Prop :=
  (∃ t older, log = ⟨.random, t⟩ :: older ∧ codeHash = cfg.sha256Bytes t) ∧
  (∃ app, Served cfg log rec.host app ∧
    (app.listed = true → Bound cfg log app.id rec.subject rec.email) ∧
    Consented log app.id rec.subject) ∧
  ((∃ f, FromFlow cfg log none rec.subject rec.email rec.keycloakSID f ∧ f.host = rec.host ∧
      decodeNonceHash cfg f.nonceHash = some rec.nonceHash) ∨
    ∃ pc, FromConsent log none rec.subject rec.email rec.keycloakSID pc ∧ pc.host = rec.host ∧
      decodeNonceHash cfg pc.nonceHash = some rec.nonceHash)

/-- a client's code is issued for an authorization request that the client could still make -/
def InsertsOIDCCode (log : Log Ret) (codeHash : Bytes) (c : OidcCode) (ksid : String) : Prop :=
  (∃ sid t older, log = ⟨.appSID c.deploymentID ksid, sid⟩ :: ⟨.random, t⟩ :: older ∧
    codeHash = cfg.sha256Bytes t) ∧
  ∃ r client, c.deploymentID = r.clientID ∧ c.redirectURI = r.redirectURI ∧
    c.codeChallenge = r.challenge ∧ Made log (.ssoClient r.clientID) (.ok (some client)) ∧
    client.allowsRedirect r.redirectURI = true ∧
    (client.listed = true → Bound cfg log client.id c.subject c.email) ∧
    Consented log client.id c.subject ∧
    ((∃ f, FromFlow cfg log (some r) c.subject c.email ksid f) ∨
      ∃ pc, FromConsent log (some r) c.subject c.email ksid pc)

/-- Keycloak has not been asked yet -/
def NoToken (log : Log Ret) : Prop := ∀ code v t, ¬ Made log (.idToken code v) t

/-- what a handler's log holds when it makes a call -/
def deed (req : Request) (log : Log Ret) : Op → Prop
  | .seal (.flow f) _ => SealsFlow cfg req log f
  | .seal (.consent pc) ttl => ttl = consentTTL ∧ SealsConsent cfg log pc
  | .seal (.session s) ttl => ttl = sessionTTL ∧ SealsSession cfg req log s
  | .openFlow _ => NoToken log
  | .insertCode h rec => InsertsCode cfg log h rec
  | .insertOIDCCode h c ksid => InsertsOIDCCode cfg log h c ksid
  | .redeemOIDCCode h =>
    ∃ form basic, req = .token (some form) basic ∧ h = cfg.sha256Bytes (form.get "code")
  | .bindEntry e sub _ => ∃ d l email, Made log (.accessList d) (.ok l) ∧
      l.admit cfg sub email = (true, e) ∧ e ≠ ""
  | .endSession ksid => ksid ≠ ""
  | .endedMerge rows => ∃ since, Made log (.endedSessions since) (.ok rows)
  | .purge _ => req = .purgeLoop
  | _ => True

/-- tokens are given to a client that authenticated, for the code it presents with the redirect URI
and the verifier it was issued for -/
def GivesTokens (req : Request) (log : Log Ret) (claims : IDTokenClaims) : Prop :=
  ∃ form basic clientID secret client rec now, req = .token (some form) basic ∧
    clientOf cfg form basic = .ok (clientID, secret) ∧
    cfg.verifyClientSecret clientID secret = true ∧
    Made log (.ssoClient clientID) (.ok (some client)) ∧
    Made log (.redeemOIDCCode (cfg.sha256Bytes (form.get "code"))) (.ok (some (rec, true))) ∧
    rec.deploymentID = client.id ∧ rec.redirectURI = form.get "redirect_uri" ∧
    pkceMatches cfg rec.codeChallenge (form.get "code_verifier") = true ∧
    claims = idTokenClaims cfg rec now

/-- a request is identified by a session that one of its cookies opened as, and that was then not
known to have ended -/
def Identifies (req : Request) (log : Log Ret) (s : Session) : Prop :=
  ∃ r raw older, req = .verify r ∧ raw ∈ cookieValues r.cookies sessionCookie ∧
    (⟨.endedStatus s.keycloakSID, (false, true)⟩ : Base.Call Ret) :: older <:+ log ∧
    Made older (.openSession raw) (some s)

/-- what a handler's log holds when it answers -/
def reply (req : Request) (log : Log Ret) (r : Response) : Prop :=
  match r.body with
  | .tokens _ _ claims _ => GivesTokens cfg req log claims
  | .through _ (some s) => Identifies req log s
  | _ => True

def deeds (req : Request) : Contract Ret Response := ⟨deed cfg req, reply cfg req⟩

end Freepod.Auth
