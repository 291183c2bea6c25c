import Freepod.Platform.HelmValues
import Freepod.Platform.HostnameValues
import Freepod.Values.Text

/-!
# The post-renderer

`post_render.py` and `egress_gate.py`: the manifests Helm has rendered for a release, with the egress
gate and the hostname's annotation in every pod template, and stopped where the deployment is to be.
A document is the tree that PyYAML reads from one chunk of the stream; none of them shares a node
with another place by a YAML alias.

* `podTemplate`, `inject`, `annotate`, `rewrite`: what every render does to a document.
* `stop`, `rerouteIngress`: what a stopped one does to it.
* `render`: the stream of documents, separated by lines of dashes.
-/

namespace Freepod.PostRender
open Base

/-- Python raised: a method that the value has not, or an operation it does not support -/
inductive Crash
  | attributeError
  | typeError
  | yamlError
  deriving DecidableEq

/-- PyYAML's reader and writer, and `str` and `str.lower` -/
structure Python where
  load : String → Except Crash Json
  dump : Json → String
  printer : Printer
  lower : String → String

/-- `value or {}` -/
def orEmpty : Option Json → Json
  | some value => if value.truthy = true then value else .obj []
  | none => .obj []

/-- a value whose `get` is called -/
def asDict : Json → Except Crash Fields
  | .obj fields => .ok fields
  | _ => .error .attributeError

/-- what a loop over a value goes through -/
def iterate : Json → Except Crash (List Json)
  | .arr items => .ok items
  | .str s => .ok (s.toList.map fun c => .str (String.singleton c))
  | .obj fields => .ok (fields.map fun field => .str field.1)
  | _ => .error .typeError

/-- the items of `value or []` -/
def itemsOf : Option Json → Except Crash (List Json)
  | some value => if value.truthy = true then iterate value else .ok []
  | none => .ok []

/-! ## The egress gate -/

def containerName : String := "caelus-egress-gate"

/-- `GATE_SCRIPT` -/
def gateScript : String := "set -u
target=\x22$\x7bKUBERNETES_SERVICE_HOST:?\x7d/$\x7bKUBERNETES_SERVICE_PORT:?\x7d\x22
deadline=$((SECONDS + GATE_DEADLINE_SECONDS))
refused=0
while (( SECONDS < deadline )); do
  if timeout 0.5 bash -c \x22exec 3<>/dev/tcp/$\x7btarget\x7d\x22 2>/dev/null; then
    refused=0
  else
    refused=$((refused + 1))
    if (( refused >= 2 )); then
      echo \x22egress-gate: $\x7btarget/\\//:\x7d denied after $\x7bSECONDS\x7ds; egress is jailed\x22
      exit 0
    fi
  fi
  sleep 0.2
done
echo \x22egress-gate: $\x7btarget/\\//:\x7d still reachable after $\x7bGATE_DEADLINE_SECONDS\x7ds;\x22 \\
  \x22the egress NetworkPolicy is not enforced, refusing to start the pod\x22 >&2
exit 1"

def gateContainer (image : String) (deadlineSeconds : Int) : Json :=
  .obj [("name", .str containerName),
    ("image", .str image),
    ("imagePullPolicy", .str "IfNotPresent"),
    ("command", .arr [.str "bash", .str "-c", .str gateScript]),
    ("terminationMessagePolicy", .str "FallbackToLogsOnError"),
    ("env", .arr [.obj [("name", .str "GATE_DEADLINE_SECONDS"),
      ("value", .str (toString deadlineSeconds))]]),
    ("resources", .obj [("requests", .obj [("cpu", .str "10m"), ("memory", .str "8Mi")]),
      ("limits", .obj [("memory", .str "32Mi")])]),
    ("securityContext", .obj [("runAsNonRoot", .bool true),
      ("runAsUser", integer 65534),
      ("runAsGroup", integer 65534),
      ("allowPrivilegeEscalation", .bool false),
      ("readOnlyRootFilesystem", .bool true),
      ("capabilities", .obj [("drop", .arr [.str "ALL"])]),
      ("seccompProfile", .obj [("type", .str "RuntimeDefault")])])]

/-- whether a container is named as the gate -/
def isGate (container : Json) : Bool :=
  match container.get? "name" with
  | some (.str name) => name == containerName
  | _ => false

/-- `inject`: the gate first among the init containers of a pod's spec -/
def inject (pod : Fields) (gate : Json) : Except Crash Fields := do
  let containers ← itemsOf (pod.lookup "initContainers")
  let _ ← containers.mapM asDict
  return setKey "initContainers" (.arr (gate :: containers.filter (!isGate ·))) pod

/-! ## What every render does -/

def hasKind (doc : Json) (kind : String) : Bool :=
  match doc.get? "kind" with
  | some (.str k) => k == kind
  | _ => false

/-- the fields of a template that holds the spec of a pod, and that spec's -/
def templateOf : Option Json → Option (Fields × Fields)
  | some (.obj template) =>
    match template.lookup "spec" with
    | some (.obj pod) => if (pod.lookup "containers").isSome = true then some (template, pod) else none
    | _ => none
  | _ => none

/-- where a document that is no pod keeps its template, with what stands there -/
def templateAt (fields : Fields) : Except Crash (List String × Option Json) := do
  let spec ← asDict (orEmpty (fields.lookup "spec"))
  match spec.lookup "jobTemplate" with
  | some jobTemplate =>
    let job ← asDict (orEmpty (some jobTemplate))
    let spec ← asDict (orEmpty (job.lookup "spec"))
    return (["spec", "jobTemplate", "spec", "template"], spec.lookup "template")
  | none => return (["spec", "template"], spec.lookup "template")

/-- `pod_template`, with the path it stands at -/
def podTemplate (doc : Json) : Except Crash (Option (List String × Fields × Fields)) :=
  match doc with
  | .obj fields =>
    if hasKind doc "Pod" = true then .ok ((templateOf (some doc)).map fun t => ([], t))
    else do
      let (path, template) ← templateAt fields
      return (templateOf template).map fun t => (path, t)
  | _ => .ok none

/-- `dict | items` -/
def assignAll (fields : Fields) (items : List (String × String)) : Fields :=
  items.foldl (fun fields item => setKey item.1 (.str item.2) fields) fields

/-- `annotate` -/
def annotate (template : Fields) (annotations : List (String × String)) : Except Crash Fields := do
  let metadata ← asDict (orEmpty (template.lookup "metadata"))
  match orEmpty (metadata.lookup "annotations") with
  | .obj old =>
    let metadata := setKey "annotations" (.obj (assignAll old annotations)) metadata
    return setKey "metadata" (.obj metadata) template
  | _ => .error .typeError

/-- the document with another value at a path of keys -/
def put (value : Json) : List String → Json → Json
  | [], _ => value
  | key :: path, .obj fields =>
    .obj (setKey key (put value path ((fields.lookup key).getD .null)) fields)
  | _ :: _, doc => doc

/-- the steps of `rewrite` on a template -/
def rewriteTemplate (gate : Json) (annotations : List (String × String)) (template pod : Fields) :
    Except Crash Fields := do
  let pod ← inject pod gate
  let template := setKey "spec" (.obj pod) template
  if annotations = [] then pure template else annotate template annotations

/-- `rewrite`, with whether there is a pod template -/
def rewrite (doc gate : Json) (annotations : List (String × String)) :
    Except Crash (Json × Bool) := do
  match ← podTemplate doc with
  | none => return (doc, false)
  | some (path, template, pod) =>
    let template ← rewriteTemplate gate annotations template pod
    return (put (.obj template) path doc, true)

/-! ## What a stopped render does -/

structure Stopped where
  release : String
  hostname : Option String
  parkingHost : String
  parkingPort : Int

def parkingSuffix : String := "-caelus-parking"

def Stopped.serviceName (stopped : Stopped) : String := stopped.release ++ parkingSuffix

def parkingService (stopped : Stopped) : Json :=
  .obj [("apiVersion", .str "v1"),
    ("kind", .str "Service"),
    ("metadata", .obj [("name", .str stopped.serviceName)]),
    ("spec", .obj [("type", .str "ExternalName"),
      ("externalName", .str stopped.parkingHost),
      ("ports", .arr [.obj [("name", .str "http"), ("port", integer stopped.parkingPort),
        ("protocol", .str "TCP")]])])]

/-- the backend of a path that is rerouted -/
def Stopped.backend (stopped : Stopped) : Json :=
  .obj [("service", .obj [("name", .str stopped.serviceName),
    ("port", .obj [("number", integer stopped.parkingPort)])])]

/-- the host of a rule, in lower case -/
def ruleHost (py : Python) (rule : Fields) : String :=
  py.lower (match rule.lookup "host" with
    | some host => if host.truthy = true then py.printer.text host else ""
    | none => "")

def reroutePath (stopped : Stopped) : Json → Except Crash Json
  | .obj path => .ok (.obj (setKey "backend" stopped.backend path))
  | _ => .error .typeError

/-- a rule of an Ingress, with whether a path of it was rerouted -/
def rerouteRule (py : Python) (stopped : Stopped) (hostname : String) (rule : Json) :
    Except Crash (Json × Bool) :=
  match rule with
  | .obj fields =>
    if ruleHost py fields ≠ py.lower hostname then .ok (rule, false)
    else do
      let http ← asDict (orEmpty (fields.lookup "http"))
      let paths ← itemsOf (http.lookup "paths")
      if paths = [] then return (rule, false)
      let paths ← paths.mapM (reroutePath stopped)
      return (.obj (setKey "http" (.obj (setKey "paths" (.arr paths) http)) fields), true)
  | _ => .ok (rule, false)

/-- `_reroute_ingress`; only the items of a list can be rules -/
def rerouteIngress (py : Python) (stopped : Stopped) (fields : Fields) :
    Except Crash (Json × Bool) :=
  match stopped.hostname with
  | none => .ok (.obj fields, false)
  | some hostname =>
    if hostname = "" then .ok (.obj fields, false)
    else do
      let spec ← asDict (orEmpty (fields.lookup "spec"))
      let rules ← itemsOf (spec.lookup "rules")
      let rules ← rules.mapM (rerouteRule py stopped hostname)
      if rules.any (·.2) = true then
        let spec := setKey "rules" (.arr (rules.map (·.1))) spec
        return (.obj (setKey "spec" (.obj spec) fields), true)
      else return (.obj fields, false)

/-- `doc.setdefault("spec", {})[key] = value` -/
def setInSpec (key : String) (value : Json) (fields : Fields) : Except Crash Json :=
  match fields.lookup "spec" with
  | some (.obj spec) => .ok (.obj (setKey "spec" (.obj (setKey key value spec)) fields))
  | some _ => .error .typeError
  | none => .ok (.obj (setKey "spec" (.obj [(key, value)]) fields))

/-- `stop`: the document with whether it changed, or `none` to drop it -/
def stop (py : Python) (doc : Json) (stopped : Stopped) : Except Crash (Option (Json × Bool)) :=
  match doc with
  | .obj fields =>
    if hasKind doc "Deployment" || hasKind doc "StatefulSet" then
      return some (← setInSpec "replicas" (integer 0) fields, true)
    else if hasKind doc "Job" || hasKind doc "CronJob" then
      return some (← setInSpec "suspend" (.bool true) fields, true)
    else if hasKind doc "HorizontalPodAutoscaler" || hasKind doc "Pod" then .ok none
    else if hasKind doc "Ingress" then
      return some (← rerouteIngress py stopped fields)
    else .ok (some (doc, false))
  | _ => .ok (some (doc, false))

/-! ## The stream -/

/-- one document: as it is emitted and whether it changed, or `none` where it is dropped -/
def renderDoc (py : Python) (gate : Json) (annotations : List (String × String))
    (stopped : Option Stopped) (doc : Json) : Except Crash (Option (Json × Bool)) := do
  let (doc, changed) ← rewrite doc gate annotations
  match stopped with
  | none => return some (doc, changed)
  | some stopped =>
    match ← stop py doc stopped with
    | none => return none
    | some (doc, stopChanged) => return some (doc, changed || stopChanged)

/-- `---`, with blanks after it at most -/
def isSeparator (line : List Char) : Bool :=
  "---".toList.isPrefixOf line && (line.drop 3).all fun c => c == ' ' || c == '\t'

/-- `_SEPARATOR.split`: a chunk keeps the line breaks next to the separators -/
def splitSeparators (manifests : String) : List String :=
  let segments := (manifests.toList.splitOn '\n').splitOnP isSeparator
  segments.zipIdx.map fun (lines, i) => String.ofList (['\n'].intercalate
    ((if i = 0 then [] else [[]]) ++ lines ++ (if i + 1 = segments.length then [] else [[]])))

/-- `str.strip("\n")` -/
def stripNewlines (text : String) : String :=
  String.ofList ((text.toList.dropWhile (· == '\n')).rdropWhile (· == '\n'))

/-- the characters `str.splitlines` breaks a line at -/
def isLineBreak (c : Char) : Bool :=
  let n := c.toNat
  (10 ≤ n && n ≤ 13) || (28 ≤ n && n ≤ 30) || n == 0x85 || n == 0x2028 || n == 0x2029

/-- `str.splitlines` of what follows the line begun -/
def splitLines (line : List Char) : List Char → List (List Char)
  | [] => if line = [] then [] else [line.reverse]
  | '\r' :: '\n' :: text => line.reverse :: splitLines [] text
  | c :: text => if isLineBreak c = true then line.reverse :: splitLines [] text
    else splitLines (c :: line) text

/-- the comment lines a chunk begins with -/
def headOf (chunk : String) : List String :=
  ((splitLines [] (stripNewlines chunk).toList).takeWhile fun line => line.head? = some '#').map
    String.ofList

/-- the text of a chunk's document -/
def emit (py : Python) (chunk : String) (doc : Json) (changed : Bool) : String :=
  let chunk := if changed then "\n".intercalate (headOf chunk ++ [py.dump doc]) else chunk
  stripNewlines chunk ++ "\n"

/-- one turn of the loop of `render` -/
def renderChunk (py : Python) (gate : Json) (annotations : List (String × String))
    (stopped : Option Stopped) (chunk : String) : Except Crash (Option String) := do
  let doc ← py.load chunk
  match ← renderDoc py gate annotations stopped doc with
  | none => return none
  | some (doc, changed) => return some (emit py chunk doc changed)

/-- the parking Service's text, where the deployment has a hostname -/
def parkingText (py : Python) : Option Stopped → List String
  | none => []
  | some stopped =>
    if stopped.hostname.any (· ≠ "") = true then
      ["# Source: caelus post-render (stopped)\n" ++ py.dump (parkingService stopped)]
    else []

/-- the chunks of a stream that hold something -/
def chunksOf (manifests : String) : List String :=
  (splitSeparators manifests).filter fun chunk => strip chunk != ""

def render (py : Python) (manifests : String) (gate : Json) (annotations : List (String × String))
    (stopped : Option Stopped) : Except Crash String := do
  let out ← (chunksOf manifests).mapM (renderChunk py gate annotations stopped)
  return String.join ((out.filterMap id ++ parkingText py stopped).map fun c => "---\n" ++ c)

end Freepod.PostRender
