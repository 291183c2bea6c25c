import Mathlib.Algebra.Order.Ring.Int
import Freepod.Platform.TemplateValues

/-!
# The form of an app's settings

`UserValuesForm.tsx` and `stringListField.ts`: from a template's schema, the stored document and the
stored vars to what the form submits when its user has changed nothing.

* `flattenSchema`, `flattenValues`: the properties, and the stored values, under dotted paths.
* `initialData`: what the form holds at first.
* `splitSubmission`, `unflatten`: what is submitted of it.

An object is the list of its own members.  A walk is `none` where it would come upon a member of
`Object.prototype`, or step into a value that is no object (mostly a `TypeError`).  `spell` is
`String` of a value other than a string or a boolean, and `conditionals` what
`evaluateConditionals` hides.
-/

namespace Freepod.ValuesForm

open Base

/-! ## Objects -/

/-- the members every object inherits -/
def objectPrototype : List String :=
  ["constructor", "__proto__", "__defineGetter__", "__defineSetter__", "__lookupGetter__",
    "__lookupSetter__", "hasOwnProperty", "isPrototypeOf", "propertyIsEnumerable",
    "toLocaleString", "toString", "valueOf"]

/-- `object[key]`, where a member is the object's own -/
def member {β : Type} (object : List (String × β)) (key : String) : Option (Option β) :=
  match object.lookup key with
  | some value => if key = "__proto__" then none else some (some value)
  | none => if key ∈ objectPrototype then none else some none

/-- the condition of an `if` -/
def isTruthy : Json → Bool
  | .null => false
  | .bool b => b
  | .num mantissa _ => mantissa != 0
  | .str s => s != ""
  | .arr _ => true
  | .obj _ => true

/-- the names that come first in an object, in numeric order: those of array indices -/
def arrayIndex (key : String) : Option Nat :=
  let digits := key.toList
  let n := digits.foldl (fun n c => n * 10 + (c.toNat - '0'.toNat)) 0
  if digitsPattern digits ∧ (digits.head? = some '0' → digits = ['0']) ∧ n < 2 ^ 32 - 1 then some n
  else none

/-- `Object.entries` -/
def entries (object : Fields) : Fields :=
  (object.filter fun e => (arrayIndex e.1).isSome).insertionSort
      (fun a b => (arrayIndex a.1).getD 0 ≤ (arrayIndex b.1).getD 0) ++
    object.filter fun e => !(arrayIndex e.1).isSome

/-! ## The two walks -/

structure SchemaField where
  path : String
  type : Json
  default : Option Json
  itemsType : Option Json
  /-- the `target` is `runtime` -/
  runtime : Bool
  sensitive : Bool

def currentPath (path key : String) : String := if path = "" then key else path ++ "." ++ key

/-- a property with properties of its own -/
def hasProperties (propSchema : Json) : Bool := (propSchema.get? "properties").any isTruthy

/-- the field of a property without any, in the object at `path` -/
def leafField (path key : String) (propSchema : Json) : SchemaField :=
  let runtime := decide (path = "") && textIn ["runtime"] (propSchema.get? targetKey)
  { path := currentPath path key
    type := ((propSchema.get? "type").filter isTruthy).getD (.str "string")
    default := propSchema.get? "default"
    itemsType := (propSchema.get? "items").bind (·.get? "type")
    runtime := runtime
    sensitive := runtime &&
      match propSchema.get? sensitiveKey with
      | some (.bool b) => b
      | _ => false }

mutual
def flattenSchema (path : String) : Json → List SchemaField
  | .obj schema => flattenKeywords path schema
  | _ => []

/-- finds `schema.properties` -/
def flattenKeywords (path : String) : List (String × Json) → List SchemaField
  | [] => []
  | keyword :: schema =>
    if keyword.1 = "properties" then flattenKeyword path keyword else flattenKeywords path schema

def flattenKeyword (path : String) : String × Json → List SchemaField
  | (_, properties) => flattenProperties path properties

def flattenProperties (path : String) : Json → List SchemaField
  | .obj properties => flattenEach path properties
  | _ => []

/-- the loop over `Object.entries(properties)` -/
def flattenEach (path : String) : List (String × Json) → List SchemaField
  | [] => []
  | property :: properties => flattenProperty path property ++ flattenEach path properties

def flattenProperty (path : String) : String × Json → List SchemaField
  | (key, propSchema) =>
    if hasProperties propSchema then flattenSchema (currentPath path key) propSchema
    else if propSchema.isObj then [leafField path key propSchema]
    else []
end

/-- `Object.assign` -/
def assign (result source : Fields) : Fields := source.foldl (fun r e => setKey e.1 e.2 r) result

mutual
/-- the loop over `Object.entries(defaults)` -/
def flattenEntries (path : String) (result : Fields) : List (String × Json) → Fields
  | [] => result
  | entry :: defaults => flattenEntries path (flattenEntry path result entry) defaults

def flattenEntry (path : String) (result : Fields) : String × Json → Fields
  | (key, value) => flattenValue (currentPath path key) result value

def flattenValue (path : String) (result : Fields) : Json → Fields
  | .obj value => assign result (flattenEntries path [] value)
  | value => setKey path value result
end

def flattenValues (defaults : Json) : Fields := flattenEntries "" [] defaults.fields

/-- `key.split('.')` -/
def parts (key : String) : List String := (key.toList.splitOn '.').map String.ofList

/-- the assignment of a value, with the objects on the way to it -/
def insertAt (value : Json) : List String → Fields → Option Fields
  | [], current => some current
  | [part], current => if part = "__proto__" then none else some (setKey part value current)
  | part :: rest, current => do
    match ← member current part with
    | none => return setKey part (.obj (← insertAt value rest [])) current
    | some (.obj inner) => return setKey part (.obj (← insertAt value rest inner)) current
    | some _ => none

def unflatten (values : Fields) : Option Fields :=
  (entries values).foldlM (fun result e => insertAt e.2 (parts e.1) result) []

/-! ## Lists of strings -/

def isType (field : SchemaField) (type : String) : Bool := textIn [type] (some field.type)

def isStringList (field : SchemaField) : Bool :=
  isType field "array" && textIn ["string"] field.itemsType

/-- what `trim` takes off -/
def isSpace (c : Char) : Bool :=
  let n := c.toNat
  (9 ≤ n && n ≤ 13) || n == 32 || n == 160 || n == 5760 || (8192 ≤ n && n ≤ 8202) || n == 8232 ||
    n == 8233 || n == 8239 || n == 8287 || n == 12288 || n == 65279

/-- `line.replace(/\r$/, '')` -/
def dropReturn (line : List Char) : List Char :=
  if line.getLast? = some '\r' then line.dropLast else line

/-- `String(value)` -/
def textOf (spell : Json → String) : Json → String
  | .str s => s
  | .bool b => if b then "true" else "false"
  | value => spell value

def linesToList (spell : Json → String) : Json → List String
  | .arr items => items.map (textOf spell)
  | .str text =>
    (((text.toList.splitOn '\n').map dropReturn).filter fun line => !line.all isSpace).map
      String.ofList
  | _ => []

/-! ## The form -/

/-- the stored vars, each with its value unless that is write-only -/
abbrev StoredVars := List (String × Option String)

/-- the assignments of a loop over the fields, of those that have one -/
def collect {β : Type} (entry : SchemaField → Option (Option β)) :
    List SchemaField → List (String × β) → Option (List (String × β))
  | [], data => some data
  | field :: fields, data => do
    match ← entry field with
    | some value => collect entry fields (setKey field.path value data)
    | none => collect entry fields data

/-- a default as the form holds it -/
def prefill (spell : Json → String) (field : SchemaField) : Option Json → Option Json
  | some value =>
    if isStringList field then some (.str ("\n".intercalate (linesToList spell value)))
    else if isType field "boolean" then some (.bool (isTruthy value))
    else some value
  | none => if isType field "boolean" then some (.bool false) else none

/-- the value of a var that is read back -/
def currentVar (initialVars : StoredVars) (field : SchemaField) : Option (Option String) := do
  if field.runtime && !field.sensitive then
    match ← member initialVars field.path with
    | some value => return value
    | none => return none
  else return none

def initialEntry (spell : Json → String) (initialValues : Fields) (initialVars : StoredVars)
    (field : SchemaField) : Option (Option Json) := do
  match ← currentVar initialVars field with
  | some value =>
    return some (if isType field "boolean" then .bool (decide (value = "true")) else .str value)
  | none =>
    let stored ← member initialValues field.path
    return prefill spell field (stored.or field.default)

def initialData (spell : Json → String) (fields : List SchemaField) (initialValues : Fields)
    (initialVars : StoredVars) : Option Fields :=
  collect (initialEntry spell initialValues initialVars) fields []

/-- what a field adds to `chartData` -/
def chartEntry (spell : Json → String) (formData : Fields) (field : SchemaField) :
    Option (Option Json) := do
  if field.runtime then return none
  else
    match ← member formData field.path with
    | some value =>
      return some (if isStringList field then .arr ((linesToList spell value).map .str) else value)
    | none => return none

/-- what a field adds to `vars` -/
def varEntry (spell : Json → String) (formData : Fields) (initialVars : StoredVars)
    (touchedSensitive : List String) (field : SchemaField) : Option (Option String) := do
  if !field.runtime then return none
  else if field.sensitive && !touchedSensitive.contains field.path then return none
  else
    let raw := (← member formData field.path).filter fun raw => !raw.isNull
    let current ← member initialVars field.path
    match raw with
    | none => return if current.isNone then none else some ""
    | some (.str "") => return if current.isNone then none else some ""
    | some raw => return some (textOf spell raw)

structure Split where
  chartData : Fields
  vars : List (String × String)

def splitSubmission (spell : Json → String) (fields : List SchemaField) (formData : Fields)
    (initialVars : StoredVars) (touchedSensitive : List String) : Option Split := do
  let chartData ← collect (chartEntry spell formData) fields []
  let vars ← collect (varEntry spell formData initialVars touchedSensitive) fields []
  return ⟨chartData, vars⟩

/-- a field that is shown while these paths are hidden -/
def isShown (hidden : List String) (field : SchemaField) : Bool :=
  !hidden.any fun h => decide (field.path = h) || startsWith field.path (h ++ ".")

/-- a value that counts for `hasValues` -/
def isValue : Json → Bool
  | .str s => s != ""
  | .arr items => !items.isEmpty
  | value => !value.isNull

/-- what the form reports: the chart values, or `null`, and the vars -/
structure Submission where
  hidden : List String
  userValues : Option Fields
  vars : List (String × String)

/-- the submission of an untouched form -/
def submission (spell : Json → String)
    (conditionals : Fields → List (String × String) → List String)
    (valuesSchemaJson initialValuesJson : Json) (initialVars : StoredVars) : Option Submission := do
  let fields := flattenSchema "" valuesSchemaJson
  let formData ← initialData spell fields (flattenValues initialValuesJson) initialVars
  let whole ← splitSubmission spell fields formData initialVars []
  let hidden := conditionals (← unflatten whole.chartData) whole.vars
  if fields.isEmpty then return ⟨hidden, none, []⟩
  let shown ← splitSubmission spell (fields.filter (isShown hidden)) formData initialVars []
  if shown.chartData.any fun e => isValue e.2 then
    return ⟨hidden, some (← unflatten shown.chartData), shown.vars⟩
  else return ⟨hidden, none, shown.vars⟩

end Freepod.ValuesForm
