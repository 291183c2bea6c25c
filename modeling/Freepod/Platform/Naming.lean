import Freepod.Platform.Hostnames

/-!
# Names of deployments

`reconcile_naming.py`: the Helm release name and the namespace of a new deployment.  A `str` is the
list of its characters.

* `slugifyToken`: the lower-case words of a text, with one hyphen between them.
* `generateDeploymentName`, `generateDeploymentNamespace`: the generated names, or the `ValueError`
  of one that is not a DNS label.

`lower` is `str.lower`, and `choices` what `secrets.choice` returns.
-/

namespace Freepod.Naming

inductive ValueError where
  | suffix
  | name
  deriving DecidableEq

def nameSuffixLen : Nat := 6
def maxNameLen : Nat := 27
def nameBaseMaxLen : Nat := maxNameLen - (nameSuffixLen + 1)

def nsSuffixLen : Nat := 9
def nsProductMaxLen : Nat := 20
def nsEmailMaxLen : Nat := 10
def maxNamespaceLen : Nat := nsProductMaxLen + 1 + nsEmailMaxLen + 1 + nsSuffixLen

/-- `re.sub` of the runs of a class -/
def subRuns (cls : Char → Bool) (repl : Char) : (inRun : Bool) → List Char → List Char
  | _, [] => []
  | inRun, c :: l =>
    if cls c then
      if inRun then subRuns cls repl true l else repl :: subRuns cls repl true l
    else c :: subRuns cls repl false l

/-- `strip("-")` -/
def stripHyphens (l : List Char) : List Char := (l.dropWhile (· = '-')).rdropWhile (· = '-')

/-- `slugify_token` -/
def slugifyToken (lower : List Char → List Char) (value : List Char) : List Char :=
  let replaced := subRuns (fun c => !isLowerAlnum c) '-' false (lower value)
  let collapsed := subRuns (· = '-') '-' false replaced
  stripHyphens collapsed

/-- `DNS_LABEL_RE.fullmatch` -/
def isValidDnsLabel (l : List Char) : Bool :=
  isHyphenated isLowerAlnum l && decide (l.length ≤ 63)

def base36 : List Char := "0123456789abcdefghijklmnopqrstuvwxyz".toList

/-- `generate_suffix6` and `generate_suffix9` -/
def generateSuffix {n : Nat} (choices : Fin n → Fin 36) : List Char :=
  List.ofFn fun i => base36.get (choices i)

/-- `_trim_base` -/
def trimBase (base : List Char) (maxLen : Nat) : List Char :=
  let trimmed := stripHyphens (base.take maxLen)
  if trimmed = [] then "dep".toList else trimmed

/-- `_normalize_suffix6` and `_normalize_suffix9` -/
def normalizeSuffix (n : Nat) (suffix : List Char) : Except ValueError (List Char) :=
  if suffix.all isLowerAlnum && suffix.length == n then .ok suffix else .error .suffix

/-- the suffix that was given, or a generated one -/
def suffixOr {n : Nat} (suffix : Option (List Char)) (choices : Fin n → Fin 36) :
    Except ValueError (List Char) :=
  match suffix with
  | some suffix => normalizeSuffix n suffix
  | none => .ok (generateSuffix choices)

def generateDeploymentName (lower : List Char → List Char) (productName : List Char)
    (suffix : Option (List Char)) (choices : Fin nameSuffixLen → Fin 36) :
    Except ValueError (List Char) := do
  let base := trimBase (slugifyToken lower productName) nameBaseMaxLen
  let suffix ← suffixOr suffix choices
  let name := base ++ '-' :: suffix
  if maxNameLen < name.length ∨ isValidDnsLabel name = false then .error .name else .ok name

def generateDeploymentNamespace (lower : List Char → List Char) (productName userEmail : List Char)
    (suffix : Option (List Char)) (choices : Fin nsSuffixLen → Fin 36) :
    Except ValueError (List Char) := do
  let product := trimBase (slugifyToken lower productName) nsProductMaxLen
  let localPart := trimBase (slugifyToken lower (userEmail.takeWhile (· ≠ '@'))) nsEmailMaxLen
  let suffix ← suffixOr suffix choices
  let name := product ++ '-' :: (localPart ++ '-' :: suffix)
  if maxNamespaceLen < name.length ∨ isValidDnsLabel name = false then .error .name else .ok name

end Freepod.Naming
