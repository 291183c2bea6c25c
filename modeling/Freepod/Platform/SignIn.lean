import Freepod.Base.Refuse
import Freepod.Platform.Rows
import Freepod.Values.Document
import Freepod.Values.Jsonb

/-!
# Who may sign in

The effective `auth` settings of a release, as the API merges them (`app_access.auth_settings`)
and as app-auth extracts them in its queries (`effective` in `store.go`).
-/

namespace Freepod
open Base

/-! ## The API -/

/-- the type check of a layer: absent or an object -/
def requireObject (layer : Json) (name : String) : Except Refusal Unit :=
  require (layer.isNull = true ∨ layer.isObj = true) (.integrity (name ++ " must be an object"))

/-- a layer over what is merged so far -/
def mergeLayer (merged layer : Json) : Json := if layer.isNull then merged else deepMerge merged layer

/-- `merge_values_scoped` -/
def mergeValuesScoped (defaults userScopeDelta systemOverrides : Json) : Except Refusal Json := do
  requireObject defaults "defaults"
  requireObject userScopeDelta "user_scope_delta"
  requireObject systemOverrides "system_overrides"
  let merged := if defaults.isNull then .obj [] else defaults
  pure (mergeLayer (mergeLayer merged userScopeDelta) systemOverrides)

inductive Access
  | anyone | listed
  deriving DecidableEq, Repr

/-- `str()` of the protocol leaves a string as it is, and nothing reads another one -/
structure AuthSettings where
  enabled : Bool
  protocol : Json
  access : Access

/-- the value is this string -/
def Json.isStr (word : String) : Json → Bool
  | .str s => decide (s = word)
  | _ => false

/-- `isinstance(auth, dict)`, an empty object for anything else -/
def authObject : Option Json → Json
  | some (.obj fields) => .obj fields
  | _ => .obj []

/-- a value, `None` for a key that is not there -/
def orNone (value : Option Json) : Json := value.getD .null

/-- `value is True` -/
def isTrue : Option Json → Bool
  | some (.bool true) => true
  | _ => false

/-- `auth_settings` -/
def authSettings (systemValues userValues : Json) : Except Refusal AuthSettings := do
  let merged ← mergeValuesScoped systemValues userValues .null
  let auth := authObject (merged.get? "auth")
  let protocol := orNone (auth.get? "protocol")
  let protocol := if protocol.isNull then .str "header" else protocol
  let access := orNone (auth.get? "access")
  let access := if access.isNull || access.isStr "anyone" then .anyone else .listed
  let enabled := isTrue (auth.get? "enabled") &&
    (protocol.isStr "header" || protocol.isStr "oidc")
  pure { enabled, protocol, access }

namespace AuthSettings

/-- the property `listed` -/
def listed (a : AuthSettings) : Bool := a.enabled && decide (a.access = .listed)

/-- the property `oidc` -/
def oidc (a : AuthSettings) : Bool := a.enabled && a.protocol.isStr "oidc"

def header (a : AuthSettings) : Bool := a.enabled && a.protocol.isStr "header"

end AuthSettings

/-! ## app-auth -/

/-- `effective`: the release's text, the template's, or the fallback; each is read when needed -/
def effective (release template : Json) (key fallback : String) : Except SqlError String := do
  let values ← toJsonb release
  match extractText values ["auth", key] with
  | some text => pure text
  | none =>
    let values ← toJsonb template
    pure ((extractText values ["auth", key]).getD fallback)

/-- `authEnabled` -/
def authEnabled (release template : Json) : Except SqlError Bool := do
  castBoolean (← effective release template "enabled" "false")

/-- `authProtocol` -/
def authProtocol (release template : Json) : Except SqlError String :=
  effective release template "protocol" "header"

/-- `authAccess` -/
def authAccess (release template : Json) : Except SqlError String :=
  effective release template "access" "anyone"

/-- whether the row a query selects for a protocol is listed, none when it selects no row.
Nothing orders the two sides of `AND`, so a query answers for certain when both have a value -/
def signInRow (protocol : String) (release template : Json) : Except SqlError (Option Bool) := do
  let enabled ← authEnabled release template
  let effectiveProtocol ← authProtocol release template
  if enabled = true ∧ effectiveProtocol = protocol then
    let access ← authAccess release template
    pure (some (decide (access ≠ "anyone")))
  else pure none

/-- the row of `eligible` -/
def eligible (release template : Json) : Except SqlError (Option Bool) :=
  signInRow "header" release template

/-- the row of `ssoClient`, before its redirect paths are read -/
def ssoClient (release template : Json) : Except SqlError (Option Bool) :=
  signInRow "oidc" release template

end Freepod
