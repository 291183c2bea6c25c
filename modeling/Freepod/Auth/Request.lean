import Mathlib.Algebra.Order.Ring.Int
import Freepod.Auth.Records

/-!
# Requests and responses of app authentication

What reaches a handler of an HTTP request and what its response says (`request.go`, `pages.go`),
with the checks both sides share.  `Config` holds the settings, and the functions of Go's standard
library and of the keyring that no property depends on: they may be any functions.
-/

namespace Freepod.Auth

structure Config where
  loginURL : String
  tenantDomain : String
  sha256Bytes : String → Bytes
  encodeBase64 : Bytes → String
  decodeBase64 : String → Option Bytes
  /-- the sid for a client and a Keycloak session, by the first key of the ring -/
  deriveSID : String → String → String → String
  verifyClientSecret : String → String → Bool
  equalFold : String → String → Bool
  toLower : String → String
  trimSpace : String → String
  /-- the host, where a host and a port are given -/
  splitHostPort : String → Option String
  /-- whether `url.Parse` reads it, and finds no scheme, host or user in it -/
  parsesAsPath : String → Bool
  queryUnescape : String → Option String
  /-- `patternCache.match` -/
  publicPath : String → String → Bool

/-- `url.Values`: parameters in the order sent -/
abbrev Values := List (String × String)

def Values.get (v : Values) (key : String) : String :=
  ((v.find? fun p => p.1 == key).map (·.2)).getD ""

def Values.has (v : Values) (key : String) : Bool := v.any fun p => p.1 == key

def Values.count (v : Values) (key : String) : Nat := v.countP fun p => p.1 == key

/-- a key sent more than once -/
def Values.repeated (v : Values) : Option String :=
  (v.find? fun p => decide (1 < v.count p.1)).map (·.1)

/-- the pairs of a request's `Cookie` lines; a pair without `=` has no value -/
abbrev Cookies := List (String × Option String)

def cookiePrefix : String := "__Host-freepod_"
def sessionCookie : String := cookiePrefix ++ "session"
def loginCookie : String := cookiePrefix ++ "login"
def flowCookie : String := cookiePrefix ++ "flow_"
def consentCookie : String := cookiePrefix ++ "consent"

/-- every value sent for a cookie name, in order -/
def cookieValues (cookies : Cookies) (name : String) : List String :=
  cookies.filterMap fun p => if p.1 = name then p.2 else none

/-- the request's cookies minus every platform cookie -/
def filterCookies (cfg : Config) (cookies : Cookies) : Cookies :=
  cookies.filter fun p => !(cookiePrefix.toList.isPrefixOf (cfg.trimSpace p.1).toList)

/-- the first `n` characters -/
def firstChars (n : Nat) (s : String) : String := String.ofList (s.toList.take n)

def normalizeHost (cfg : Config) (h : String) : String :=
  let h := cfg.toLower (cfg.trimSpace h)
  (cfg.splitHostPort h).getD h

def safeReturnPath (cfg : Config) (rd : String) : String :=
  match rd.toList with
  | '/' :: rest =>
    if 2048 < rd.utf8ByteSize then "/"
    else if rest.head? = some '/' ∨ rest.head? = some '\\' then "/"
    else if rd.toList.any fun c => c.toNat < 0x20 || c.toNat == 0x7f || c == '\\' then "/"
    else if cfg.parsesAsPath rd then rd
    else "/"
  | _ => "/"

/-- `[A-Za-z0-9_-]` -/
def isBase64Url (c : Char) : Bool := c.isAlphanum || c == '_' || c == '-'

def nonceHashPattern (s : String) : Bool := s.length == 43 && s.toList.all isBase64Url

def challengePattern (s : String) : Bool := s.length == 43 && s.toList.all isBase64Url

def verifierPattern (s : String) : Bool :=
  decide (43 ≤ s.length) && decide (s.length ≤ 128) &&
    s.toList.all fun c => c.isAlphanum || c == '.' || c == '_' || c == '~' || c == '-'

def decodeNonceHash (cfg : Config) (s : String) : Option Bytes :=
  (cfg.decodeBase64 s).filter fun b => b.length == 32

def hashToken (cfg : Config) (s : String) : String := cfg.encodeBase64 (cfg.sha256Bytes s)

/-- eight, four, four, four and twelve lower-case hexadecimal digits -/
def clientIDPattern (s : String) : Bool :=
  s.length == 36 && s.toList.zipIdx.all fun (c, i) =>
    if i = 8 ∨ i = 13 ∨ i = 18 ∨ i = 23 then c == '-' else c.isDigit || ('a' ≤ c && c ≤ 'f')

def previewPrefix : String := "preview-"

/-- the hostname that a preview hostname previews -/
def previewBase (cfg : Config) (host : String) : Option String :=
  let h := (cfg.toLower host).toList
  let label := h.takeWhile (· != '.')
  match h.drop label.length with
  | [] => none
  | _ :: rest =>
    if cfg.tenantDomain = "" ∨ String.ofList rest ≠ cfg.toLower cfg.tenantDomain ∨
        ¬ previewPrefix.toList.isPrefixOf label ∨ label = previewPrefix.toList then none
    else some (String.ofList (label.drop previewPrefix.length ++ '.' :: rest))

/-- whether a request is a top-level browser navigation -/
def isNavigation (method : String) (headers : Values) : Bool :=
  if method ≠ "GET" ∧ method ≠ "HEAD" then false
  else if headers.get "Sec-Fetch-Mode" ≠ "" then headers.get "Sec-Fetch-Mode" == "navigate"
  else decide ("text/html".toList <:+: (headers.get "Accept").toList)

/-- whether a page on another origin started this state-changing request or handshake -/
def foreignInitiated (cfg : Config) (method : String) (headers : Values) (host : String) : Bool :=
  let websocket := headers.get "Sec-WebSocket-Key" ≠ "" ∨ headers.get "Sec-Fetch-Mode" = "websocket"
  if (method = "GET" ∨ method = "HEAD" ∨ method = "OPTIONS") ∧ ¬ websocket then false
  else if headers.get "Sec-Fetch-Site" ≠ "" then
    headers.get "Sec-Fetch-Site" != "same-origin" && headers.get "Sec-Fetch-Site" != "none"
  else if headers.get "Origin" ≠ "" then
    !cfg.equalFold (headers.get "Origin") ("https://" ++ host)
  else false

/-- `unicode.IsSpace` -/
def isSpace (c : Char) : Bool :=
  (9 ≤ c.toNat && c.toNat ≤ 13) || c.toNat == 0x20 || c.toNat == 0x85 || c.toNat == 0xa0 ||
    c.toNat == 0x1680 || (0x2000 ≤ c.toNat && c.toNat ≤ 0x200a) || c.toNat == 0x2028 ||
    c.toNat == 0x2029 || c.toNat == 0x202f || c.toNat == 0x205f || c.toNat == 0x3000

/-- `strings.Fields` -/
def fields (s : String) : List String :=
  ((s.toList.splitOnP isSpace).filter (· ≠ [])).map String.ofList

/-- whether `strconv.Atoi` reads a number that is not negative -/
def isNonNegativeInt (s : String) : Bool :=
  let (negative, digits) := match s.toList with
    | '-' :: ds => (true, ds)
    | '+' :: ds => (false, ds)
    | ds => (false, ds)
  let n := digits.foldl (fun n c => 10 * n + (c.toNat - '0'.toNat)) 0
  digits ≠ [] && digits.all Char.isDigit && decide (n < 2 ^ 63) && (!negative || n == 0)

/-! ## Requests -/

/-- `url.ParseRequestURI` of the original request's URI -/
structure Target where
  path : String
  query : Values
  requestURI : String

/-- Traefik's question about one request; `edge` are the parameters of the middleware -/
structure ForwardAuth where
  host : String
  uri : String
  method : String
  target : Option Target
  edge : Values
  headers : Values
  cookies : Cookies

/-- a request that can reach app authentication, and the rounds of its two loops; a form is `none`
where the body could not be read -/
inductive Request
  | verify (r : ForwardAuth)
  | start (query : Values)
  | callback (query : Values) (cookies : Cookies)
  | consent (form : Option Values) (cookies : Cookies)
  | authorize (params : Option Values)
  | token (form : Option Values) (basic : Option (String × String))
  | backchannelLogout (form : Option Values)
  | refreshEnded
  | purgeLoop

/-! ## Responses -/

structure Cookie where
  name : String
  value : String
  maxAge : Int
  deriving DecidableEq

def setCookie (w : List Cookie) (name value : String) (maxAge : Int) : List Cookie :=
  w ++ [⟨name, value, maxAge⟩]

def clearCookie (w : List Cookie) (name : String) : List Cookie := setCookie w name "" (-1)

inductive Body
  | text (message : String)
  | page (title message : String)
  | consentPage (host email name csrf formAction : String)
  | noAccess (app : String) (named : Bool) (url email signOut : String)
  | redirect (base : String) (query : Values)
  | through (cookies : Cookies) (identity : Option Session)
  | tokenError (code description : String)
  | tokens (accessToken : String) (expiresIn : Nat) (idToken : IDTokenClaims) (scope : String)
  | done
  deriving DecidableEq

structure Response where
  status : Nat
  cookies : List Cookie
  body : Body
  deriving DecidableEq

def redirect (w : List Cookie) (base : String) (query : Values) : Response :=
  ⟨302, w, .redirect base query⟩

def errorPage (w : List Cookie) (status : Nat) (title message : String) : Response :=
  ⟨status, w, .page title message⟩

def internal (w : List Cookie) : Response :=
  errorPage w 503 "Sign-in is temporarily unavailable"
    "Something on our side isn't answering. Please try again in a moment."

def tokenError (status : Nat) (code description : String) : Response :=
  ⟨status, [], .tokenError code description⟩

/-- an OAuth 2.0 error to a validated redirect URI -/
def redirectError (w : List Cookie) (redirectURI code description state : String) : Response :=
  redirect w redirectURI ([("error", code)] ++
    (if description ≠ "" then [("error_description", description)] else []) ++
    (if state ≠ "" then [("state", state)] else []))

def noAccess (w : List Cookie) (host email signOut : String) : Response :=
  ⟨403, w, .noAccess host false ("https://" ++ host) email signOut⟩

end Freepod.Auth
