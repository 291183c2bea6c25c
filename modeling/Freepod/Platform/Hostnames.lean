import Freepod.Base.Dotted
import Freepod.Base.Refuse
import Freepod.Platform.Rows

/-!
# Hostnames

What makes a name usable for a deployment (`services/hostnames.py`).  A bare label is completed
beneath the owner's handle; then the format, the tenant pattern or the platform domains, the
availability, and for a custom domain what DNS answers for it.
-/

namespace Freepod
open Base

structure HostnameSettings where
  domain : String
  tenantDomain : String
  platformDomains : List String

/-- one address of a record: its version and its value -/
structure IpAddress where
  version : Nat
  value : Nat
  deriving DecidableEq, Repr

/-- what the name servers answer, authoritative or not; an error when none does -/
structure Dns where
  cname : String → Except Unit (List String)
  addresses : String → Except Unit (List IpAddress)

/-- `[a-z0-9]` -/
def isLowerAlnum (c : Char) : Bool :=
  (decide ('a' ≤ c) && decide (c ≤ 'z')) || (decide ('0' ≤ c) && decide (c ≤ '9'))

theorem toLower_toNat (c : Char) : c.toLower = c ∨
    (65 ≤ c.toNat ∧ c.toNat ≤ 90 ∧ c.toLower.toNat = c.toNat + 32) := by
  unfold Char.toLower
  split
  · rename_i h
    simp only [ge_iff_le, UInt32.le_iff_toNat_le] at h
    have h1 : 65 ≤ c.val.toNat := h.1
    have h2 : c.val.toNat ≤ 90 := h.2
    have h3 : ('a'.val - 'A'.val).toNat = 32 := rfl
    refine .inr ⟨h1, h2, ?_⟩
    simp only [Char.toNat, UInt32.toNat_add, h3]
    omega
  · exact .inl rfl

theorem isLowerAlnum_iff {c : Char} : isLowerAlnum c = true ↔
    (97 ≤ c.toNat ∧ c.toNat ≤ 122) ∨ (48 ≤ c.toNat ∧ c.toNat ≤ 57) := by
  simp only [isLowerAlnum, Bool.or_eq_true, Bool.and_eq_true, decide_eq_true_eq, Char.le_def,
    UInt32.le_iff_toNat_le]
  rfl

theorem toLower_of_isLowerAlnum {c : Char} (h : isLowerAlnum c = true) : c.toLower = c := by
  rw [isLowerAlnum_iff] at h
  obtain h' | ⟨h1, h2, -⟩ := toLower_toNat c
  · exact h'
  · omega

/-- `[a-zA-Z0-9]` -/
def isAlnum (c : Char) : Bool :=
  isLowerAlnum c || (decide ('A' ≤ c) && decide (c ≤ 'Z'))

/-- the text a pattern with `$` at its end has to match: `$` is also before a last line feed -/
def dropNewline (l : List Char) : List Char :=
  if l.getLast? = some '\n' then l.dropLast else l

theorem mem_dropNewline {l : List Char} {c : Char} (h : c ∈ l) : c ∈ dropNewline l ∨ c = '\n' := by
  unfold dropNewline
  split
  · rename_i hlast
    rw [← List.dropLast_append_getLast? _ hlast, List.mem_append, List.mem_singleton] at h
    exact h
  · exact .inl h

/-- `X(?:[X-]*X)?` for a class `X` -/
def isHyphenated (cls : Char → Bool) (l : List Char) : Bool :=
  l.head?.any cls && l.getLast?.any cls && l.all fun c => cls c || c == '-'

/-- `_LABEL_RE` -/
def isLabel (l : List Char) : Bool :=
  let l := dropNewline l
  isHyphenated isAlnum l && decide (l.length ≤ 63)

/-- `_APP_LABEL_RE` -/
def isAppLabel (l : List Char) : Bool := isHyphenated isLowerAlnum (dropNewline l)

def handleMinLength : Nat := 2
def handleMaxLength : Nat := 20
def appLabelMaxLength : Nat := 34
def previewLabelPrefix : String := "preview-"

/-- `HANDLE_RE` -/
def isHandle (l : List Char) : Bool :=
  let l := dropNewline l
  decide (handleMinLength ≤ l.length) && decide (l.length ≤ handleMaxLength) && l.all isLowerAlnum

/-- an account's handle; `claim_handle` strips and lowers a claim before it matches it -/
structure Handle where
  text : String
  legal : isHandle text.toList = true ∧ '\n' ∉ text.toList

/-- `lower()` of one character.  Beyond ASCII only the Kelvin sign has a lower case that a label may
contain; the others are left, and refused as their lower cases are -/
def lowerChar (c : Char) : Char := if c = '\u212a' then 'k' else c.toLower

/-- `lower()` -/
def lower (s : String) : String := String.ofList (s.toList.map lowerChar)

/-- `rstrip(".")` -/
def rstripDots (s : String) : String := String.ofList (s.toList.rdropWhile (· = '.'))

/-- `_check_format` -/
def checkFormat (fqdn : String) : Except Refusal Unit := do
  require (fqdn ≠ "" ∧ fqdn.length ≤ 253) (.hostname "invalid")
  let labels := (rstripDots fqdn).toList.splitOn '.'
  require (2 ≤ labels.length) (.hostname "invalid")
  require (∀ label ∈ labels, label ≠ [] ∧ isLabel label = true) (.hostname "invalid")

/-- `_under` -/
def under (fqdn domain : String) : Bool :=
  decide (domain ≠ "") &&
    (decide (fqdn = domain) || ('.' :: domain.toList).isSuffixOf fqdn.toList)

/-- `complete_hostname` -/
def completeHostname (settings : HostnameSettings) (value : String) (handle : Option Handle) :
    Except Refusal String :=
  let value := lower value
  if '.' ∈ value.toList then .ok value
  else
    match handle with
    | none => .error (.hostname "invalid")
    | some handle => .ok (value ++ "-" ++ handle.text ++ "." ++ settings.tenantDomain)

/-- the text before the domain and its dot -/
def labelUnder (fqdn domain : String) : List Char :=
  if fqdn = domain then [] else fqdn.toList.take (fqdn.length - (domain.length + 1))

/-- `_check_tenant_label` -/
def checkTenantLabel (settings : HostnameSettings) (fqdn : String) (handle : Option Handle) :
    Except Refusal Unit := do
  let label := labelUnder fqdn settings.tenantDomain
  require (label ≠ [] ∧ '.' ∉ label ∧ '-' ∈ label) (.hostname "invalid")
  let (app, owner) := rpartition '-' label
  require (isHandle owner = true ∧ app.length ≤ appLabelMaxLength ∧ isAppLabel app = true ∧
    ¬ ['-', '-'] <:+: app) (.hostname "invalid")
  require (owner = (lower ((handle.map Handle.text).getD "")).toList) (.hostname "claimed")
  require (¬ previewLabelPrefix.toList <+: app) (.hostname "reserved")

/-- what the name may be beneath the platform's own domains -/
def checkDomains (settings : HostnameSettings) (fqdn : String) (handle : Option Handle) :
    Except Refusal Unit :=
  if under fqdn settings.tenantDomain = true then checkTenantLabel settings fqdn handle
  else
    require (∀ domain ∈ settings.platformDomains, under fqdn domain = false) (.hostname "reserved")

/-- `_check_available` -/
def checkAvailable (deployments : List Deployment) (fqdn : String)
    (exclude : Option DeploymentId) : Except Refusal Unit :=
  require (∀ d ∈ deployments, d.hostname = some fqdn → d.status ≠ .deleted → exclude = some d.id)
    (.hostname "in_use")

/-- `cname_target` -/
def cnameTarget (settings : HostnameSettings) : String :=
  if settings.tenantDomain = "" then settings.domain else settings.tenantDomain

/-- the answer of the name servers, `not_resolving` when none answers -/
def answered {α : Type} : Except Unit α → Except Refusal α
  | .ok a => .ok a
  | .error _ => .error (.hostname "not_resolving")

/-- `_check_dns_target` -/
def checkDnsTarget (dns : Dns) (settings : HostnameSettings) (fqdn : String) :
    Except Refusal Unit :=
  if settings.domain = "" then .ok ()
  else do
    let targetDomain := cnameTarget settings
    match ← answered (dns.cname fqdn) with
    | cname :: _ =>
      require (lower (rstripDots cname) = lower targetDomain) (.hostname "not_resolving")
    | [] =>
      let addresses ← answered (dns.addresses fqdn)
      require (addresses ≠ []) (.hostname "not_resolving")
      let platform ← answered (dns.addresses targetDomain)
      require (∀ a ∈ addresses, a ∈ platform) (.hostname "not_resolving")

/-- the part of a custom domain's check that asks DNS; a tenant hostname needs none -/
def checkTarget (dns : Dns) (settings : HostnameSettings) (fqdn : String) :
    Except Refusal Unit :=
  if under fqdn settings.tenantDomain = true then .ok () else checkDnsTarget dns settings fqdn

/-- `require_valid_hostname_for_deployment` -/
def requireValidHostname (dns : Dns) (settings : HostnameSettings) (deployments : List Deployment)
    (value : String) (handle : Option Handle) (exclude : Option DeploymentId) :
    Except Refusal String := do
  let fqdn ← completeHostname settings value handle
  checkFormat fqdn
  checkDomains settings fqdn handle
  checkAvailable deployments fqdn exclude
  checkTarget dns settings fqdn
  pure fqdn

end Freepod
