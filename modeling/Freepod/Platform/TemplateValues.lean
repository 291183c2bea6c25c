import Freepod.Platform.HelmValues
import Freepod.Platform.Vars

/-!
# What a template's schema says of the vars

`services/template_values.py`: the legal names of vars, the markers of a schema, the two halves it
is partitioned into, and the checks of the vars and of the whole document.  `jsonschema.validate` is
the parameter `Jsonschema`.

* `checkVarName_ok`: the names that are accepted.
* `validateVars_ok`: what an accepted write has passed.
-/

namespace Freepod
open Base

/-! ## Texts and patterns -/

def isDigit (c : Char) : Bool := decide ('0' ≤ c ∧ c ≤ '9')

def isLetter (c : Char) : Bool := decide ('a' ≤ c ∧ c ≤ 'z' ∨ 'A' ≤ c ∧ c ≤ 'Z')

/-- `[A-Za-z_]` -/
def startsName (c : Char) : Bool := isLetter c || c == '_'

/-- `[A-Za-z0-9_]` -/
def continuesName (c : Char) : Bool := startsName c || isDigit c

/-- `[A-Za-z_][A-Za-z0-9_]{0,63}` -/
def namePattern : List Char → Bool
  | [] => false
  | c :: l => startsName c && l.all continuesName && decide (l.length ≤ 63)

/-- `[0-9]+` -/
def digitsPattern (l : List Char) : Bool := !l.isEmpty && l.all isDigit

/-- the text after `[+-]?` -/
def dropSign : List Char → List Char
  | [] => []
  | c :: l => if c = '+' ∨ c = '-' then l else c :: l

/-- `[+-]?[0-9]+` -/
def integerPattern (l : List Char) : Bool := digitsPattern (dropSign l)

/-- `([eE][+-]?[0-9]+)?` -/
def exponentPattern : List Char → Bool
  | [] => true
  | c :: l => decide (c = 'e' ∨ c = 'E') && integerPattern l

/-- `[+-]?([0-9]+(\.[0-9]*)?|\.[0-9]+)([eE][+-]?[0-9]+)?` -/
def numberPattern (l : List Char) : Bool :=
  let l := dropSign l
  let whole := l.takeWhile isDigit
  match l.dropWhile isDigit with
  | '.' :: rest =>
    (!whole.isEmpty || !(rest.takeWhile isDigit).isEmpty) && exponentPattern (rest.dropWhile isDigit)
  | rest => !whole.isEmpty && exponentPattern rest

/-- `re.match` of `^…$` -/
def matchesLine (pattern : List Char → Bool) (s : String) : Bool := pattern (dropNewline s.toList)

/-! ## Names -/

def reservedVarPrefixes : List String := ["CAELUS_", "AWS_", "S3_", "RAILPACK_"]

def reservedVarNames : List String := ["BUCKET_NAME", "PORT"]

/-- `name.startswith(prefix)` -/
def startsWith (name start : String) : Bool := start.toList.isPrefixOf name.toList

/-- `check_var_name` -/
def checkVarName (name : String) : Except Refusal Unit := do
  require (matchesLine namePattern name = true)
    (.validation (name ++ ": a var's name is an environment variable name and must match " ++
      "^[A-Za-z_][A-Za-z0-9_]\x7b0,63\x7d$"))
  require (name ∉ reservedVarNames) (.validation (name ++ ": " ++ name ++ " is reserved by the platform"))
  match reservedVarPrefixes.find? fun start => startsWith name start with
  | some start =>
    .error (.validation (name ++ ": the " ++ start ++ "* namespace is reserved by the platform"))
  | none => .ok ()

theorem checkVarName_ok {name : String} :
    checkVarName name = .ok () ↔ matchesLine namePattern name = true ∧ name ∉ reservedVarNames ∧
      ∀ start ∈ reservedVarPrefixes, startsWith name start = false := by
  simp only [checkVarName, bind_eq_ok, require_eq_ok]
  cases hfind : reservedVarPrefixes.find? fun start => startsWith name start with
  | none =>
    have hnone := List.find?_eq_none.mp hfind
    simp only [Bool.not_eq_true] at hnone
    constructor
    · rintro ⟨-, hmatch, -, hnot, -⟩
      exact ⟨hmatch, hnot, hnone⟩
    · rintro ⟨hmatch, hnot, -⟩
      exact ⟨(), hmatch, (), hnot, rfl⟩
  | some start =>
    have hmem := List.mem_of_find?_eq_some hfind
    have hstart : startsWith name start = true := List.find?_some (p := fun s => startsWith name s) hfind
    constructor
    · rintro ⟨-, -, -, -, h⟩
      cases h
    · rintro ⟨-, -, hall⟩
      rw [hall start hmem] at hstart
      cases hstart

/-! ## The halves of a schema -/

def varsAdditionalKey : String := "x-caelus-vars-additional"

/-- a runtime property without the marker that routes it -/
def withoutTarget : Json → Json
  | .obj fields => .obj (fields.filter fun field => field.1 ≠ targetKey)
  | prop => prop

/-- the runtime properties of a schema -/
def runtimeProperties (schema : Json) : Fields :=
  (schemaProperties schema).filter fun field => targetsRuntime field.2

/-- whether a schema leaves the vars open -/
def varsOpen (schema : Json) : Bool := ((schema.get? varsAdditionalKey).map Json.truthy).getD false

/-- `derive_projections(schema).vars`, of a schema that says something -/
def varsProjectionOf (schema : Json) : Json :=
  let required := match schema.get? "required" with
    | some (.arr required) => required
    | _ => []
  .obj ((match schema.get? "$schema" with
      | some dialect => [("$schema", dialect)]
      | none => []) ++
    [("type", .str "object"), ("additionalProperties", .bool (varsOpen schema)),
      ("properties", .obj ((runtimeProperties schema).map fun field =>
        (field.1, withoutTarget field.2))),
      ("required", .arr (required.filter fun key =>
        !requiredOfChart (schemaProperties schema) key))])

/-- `derive_projections(schema).vars` -/
def varsProjection (schema : Json) : Option Json :=
  if schema.truthy then some (varsProjectionOf schema) else none

/-! ## The markers of a schema -/

/-- `isinstance(value, bool)` -/
def Json.isBool : Json → Bool
  | .bool _ => true
  | _ => false

/-- the value is one of these strings -/
def textIn (texts : List String) : Option Json → Bool
  | some (.str text) => decide (text ∈ texts)
  | _ => false

def scalarTypes : List String := ["string", "number", "integer", "boolean"]

mutual
/-- `_marked_nodes`: the places of the objects that carry a marker, and their paths as texts -/
def markedNodes (place : Path) (path : String) : Json → List (Path × String)
  | .obj fields =>
    (if (fields.lookup targetKey).isSome ∨ (fields.lookup sensitiveKey).isSome then [(place, path)]
      else []) ++ markedFields place path fields
  | .arr items => markedItems place path 0 items
  | _ => []

def markedFields (place : Path) (path : String) : List (String × Json) → List (Path × String)
  | [] => []
  | field :: fields => markedField place path field ++ markedFields place path fields

def markedField (place : Path) (path : String) : String × Json → List (Path × String)
  | (key, value) =>
    markedNodes (place ++ [.key key]) (if path = "" then key else path ++ "." ++ key) value

def markedItems (place : Path) (path : String) (index : Nat) : List Json → List (Path × String)
  | [] => []
  | item :: items =>
    markedNodes (place ++ [.index index]) (path ++ "[" ++ toString index ++ "]") item ++
      markedItems place path (index + 1) items
end

/-- the place of a top-level property -/
def isProperty : Path → Bool
  | [.key key, .key _] => decide (key = "properties")
  | _ => false

/-- the markers of one top-level property -/
def checkProperty (field : String × Json) : Except Refusal Unit :=
  match field.2 with
  | .obj prop => do
    let target := some ((prop.lookup targetKey).getD (.str "chart"))
    require (textIn ["chart", "runtime"] target = true)
      (.validation (field.1 ++ ": " ++ targetKey ++ " must be 'chart' or 'runtime'"))
    if textIn ["runtime"] target = false then
      require ((prop.lookup sensitiveKey).isNone = true)
        (.validation (field.1 ++ ": " ++ sensitiveKey ++ " is legal only on a " ++ targetKey ++
          ": runtime property"))
    else do
      require (((prop.lookup sensitiveKey).getD (.bool false)).isBool = true)
        (.validation (field.1 ++ ": " ++ sensitiveKey ++ " must be true or false"))
      require (textIn scalarTypes (prop.lookup "type") = true)
        (.validation (field.1 ++ ": a runtime property must be one of " ++
          ", ".intercalate scalarTypes))
      checkVarName field.1
  | _ => .ok ()

/-- `check_var_markers` -/
def checkVarMarkers (schema : Json) : Except Refusal Unit :=
  if schema.truthy = false then .ok ()
  else do
    require (((schema.get? varsAdditionalKey).getD (.bool false)).isBool = true)
      (.validation (varsAdditionalKey ++ " must be true or false"))
    match (markedNodes [] "" schema).find? fun node => !isProperty node.1 with
    | some node => .error (.validation
        (node.2 ++ ": routing markers are legal only on a top-level property"))
    | none => (schemaProperties schema).forM checkProperty

/-! ## Vars as values -/

/-- a value the platform hands to `jsonschema`; a float is the one its literal spells -/
inductive Value
  | json (j : Json)
  | float (literal : String)
  | dict (fields : List (String × Value))

def maxIntDigits : Nat := 4300

/-- `int(value)` of a text that matches the integer pattern -/
def parseInt (s : String) : Int :=
  let digits := (dropSign (dropNewline s.toList)).foldl
    (fun n c => 10 * n + (c.toNat - '0'.toNat)) 0
  if s.toList.head? = some '-' then -(digits : Int) else digits

/-- `_coerce_var` -/
def coerceVar (value : String) (declared : Option Json) : Except Refusal Value :=
  match declared.bind fun prop => prop.get? "type" with
  | some (.str "boolean") =>
    if value = "true" then .ok (.json (.bool true))
    else if value = "false" then .ok (.json (.bool false))
    else .ok (.json (.str value))
  | some (.str "integer") =>
    if matchesLine integerPattern value then
      if (dropSign (dropNewline value.toList)).length ≤ maxIntDigits then
        .ok (.json (.num (parseInt value) 0))
      else .error (.invalid ("Exceeds the limit (4300 digits) for integer string conversion: value " ++
        "has " ++ toString (dropSign (dropNewline value.toList)).length ++
        " digits; use sys.set_int_max_str_digits() to increase the limit"))
    else .ok (.json (.str value))
  | some (.str "number") =>
    if matchesLine numberPattern value then .ok (.float value) else .ok (.json (.str value))
  | _ => .ok (.json (.str value))

/-- the vars as an object, each coerced to the type the property declares -/
def coerceVars (declared : Fields) (vars : List (String × String)) :
    Except Refusal (List (String × Value)) :=
  vars.mapM fun e => do
    let value ← coerceVar e.2 (declared.lookup e.1)
    pure (e.1, value)

/-! ## The checks -/

/-- the `ValidationError` of `jsonschema`, as far as the platform reads it -/
structure ValidationError where
  message : String
  jsonPath : String
  absolutePath : List String
  validator : String
  /-- `validator_value`, of a `required` -/
  required : List String
  /-- the keys of the value that failed, when it is an object -/
  keys : Option (List String)

/-- what `jsonschema.validate` raises -/
inductive JsonschemaError
  | schemaError (message : String)
  | validationError (e : ValidationError)

/-- `jsonschema.validate` -/
structure Jsonschema where
  validate : (instanceValue : Value) → (schema : Json) → Except JsonschemaError Unit

/-- a `jsonschema` that finds nothing to refuse -/
def Jsonschema.lenient : Jsonschema := ⟨fun _ _ => .ok ()⟩

/-- the refusal of a schema that is itself broken -/
def invalidSchema (message : String) : Refusal :=
  .integrity ("product template has an invalid values_schema_json: " ++ message)

/-- `_var_error` -/
def varError (e : ValidationError) : String :=
  let location := if startsWith e.jsonPath "$" then
      "vars" ++ String.ofList (e.jsonPath.toList.drop 1)
    else e.jsonPath
  location ++ ": failed constraint \x22" ++ e.validator ++ "\x22"

/-- `validate_vars` -/
def validateVars (js : Jsonschema) (vars : List (String × String)) (projection : Option Json) :
    Except Refusal Unit :=
  match projection with
  | none =>
    require (vars.isEmpty = true) (.validation "vars are not supported on this product template")
  | some projection => do
    let declared := schemaProperties projection
    let isOpen := ((projection.get? "additionalProperties").map Json.truthy).getD false
    let undeclared := (vars.map Prod.fst).filter fun key => (declared.lookup key).isNone
    require (isOpen = true ∨ undeclared.isEmpty = true)
      (.validation ("vars not declared by this product template: " ++
        ", ".intercalate (undeclared.insertionSort (· ≤ ·))))
    let document ← coerceVars declared vars
    match js.validate (.dict document) projection with
    | .ok () => .ok ()
    | .error (.schemaError message) => .error (invalidSchema message)
    | .error (.validationError e) => .error (.validation (varError e))

/-- `_document_error` -/
def documentErrorText (e : ValidationError) (schema : Json) (varKeys : List String) : String :=
  let missing := match e.keys with
    | some keys =>
      if e.validator = "required" then (e.required.filter fun k => k ∉ keys).take 1 else []
    | none => []
  let path := e.absolutePath ++ missing
  let constraint := "failed constraint \x22" ++ e.validator ++ "\x22"
  match path with
  | [] => "values: " ++ constraint
  | key :: _ =>
    let prop := (schemaProperties schema).lookup key
    let start :=
      if key ∈ varKeys ∨ prop.any targetsRuntime = true then "vars."
      else if (prop.any fun p => !p.isNull) = true then "user_values_json."
      else ""
    start ++ ".".intercalate path ++ ": " ++ constraint

/-- `KEY_SET_KEYWORDS` -/
def keySetKeywords : List String :=
  ["additionalProperties", "unevaluatedProperties", "patternProperties", "propertyNames",
    "minProperties", "maxProperties"]

/-- `document.update(coerced)` -/
def updateDocument (document coerced : List (String × Value)) : List (String × Value) :=
  coerced.foldl (fun document e => setKey e.1 e.2 document) document

/-- the document `validate_document` evaluates: the chart values, and the vars over them -/
def fullDocument (userValues : Json) (vars : List (String × String)) (schema : Json) :
    Except Refusal (List (String × Value)) := do
  let coerced ← coerceVars (schemaProperties (varsProjectionOf schema)) vars
  pure (updateDocument (userValues.fields.map fun field => (field.1, .json field.2)) coerced)

/-- `validate_document`; `error` builds the exception a document that does not fit raises -/
def validateDocument (js : Jsonschema) (error : String → Refusal) (userValues : Json)
    (vars : List (String × String)) (schema : Json) : Except Refusal Unit :=
  if schema.truthy = false then .ok ()
  else do
    let document ← fullDocument userValues vars schema
    let whole := Json.obj (schema.fields.filter fun field => field.1 ∉ keySetKeywords)
    match js.validate (.dict document) whole with
    | .ok () => .ok ()
    | .error (.schemaError message) => .error (invalidSchema message)
    | .error (.validationError e) =>
      .error (error (documentErrorText e schema (vars.map Prod.fst)))

/-! ## What is read of a coerced object -/

/-- what a key of the coerced object holds, by what the vars hold -/
theorem lookup_coerceVars {declared : Fields} {vars : List (String × String)}
    {coerced : List (String × Value)} (h : coerceVars declared vars = .ok coerced) :
    coerced.map Prod.fst = vars.map Prod.fst ∧ ∀ k,
      (vars.lookup k = none → coerced.lookup k = none) ∧
      ∀ text, vars.lookup k = some text →
        ∃ value, coerceVar text (declared.lookup k) = .ok value ∧ coerced.lookup k = some value := by
  induction vars generalizing coerced with
  | nil =>
    cases h
    exact ⟨rfl, fun k => ⟨fun _ => rfl, fun text h => nomatch h⟩⟩
  | cons e vars ih =>
    obtain ⟨key, text⟩ := e
    simp only [coerceVars, List.mapM_cons, bind_assoc, pure_bind, bind_eq_ok, pure_eq_ok] at h
    obtain ⟨value, hvalue, rest, hrest, rfl⟩ := h
    obtain ⟨hkeys, hall⟩ := ih hrest
    refine ⟨by rw [List.map_cons, List.map_cons, hkeys], fun k => ⟨fun hnone => ?_, ?_⟩⟩
    · rw [lookup_cons_ite] at hnone ⊢
      split at hnone
      · cases hnone
      · rename_i hk
        rw [if_neg hk]
        exact (hall k).1 hnone
    · intro text' hsome
      rw [lookup_cons_ite] at hsome ⊢
      split at hsome
      · rename_i hk
        cases hsome
        rw [if_pos hk, hk]
        exact ⟨value, hvalue, rfl⟩
      · rename_i hk
        rw [if_neg hk]
        exact (hall k).2 text' hsome

/-- an updated document holds what it is updated with, and else what it held -/
theorem lookup_updateDocument {document coerced : List (String × Value)}
    (h : (coerced.map Prod.fst).Nodup) (k : String) :
    (updateDocument document coerced).lookup k = (coerced.lookup k).or (document.lookup k) := by
  induction coerced generalizing document with
  | nil => rfl
  | cons e coerced ih =>
    obtain ⟨key, value⟩ := e
    rw [List.map_cons, List.nodup_cons] at h
    show (updateDocument (setKey key value document) coerced).lookup k = _
    rw [ih h.2, lookup_setKey, lookup_cons_ite]
    by_cases hk : k = key
    · subst hk
      rw [if_pos rfl, if_pos rfl, lookup_eq_none_iff_notMem.mpr h.1]
      rfl
    · rw [if_neg hk, if_neg hk]

/-- an accepted write has passed the closed key set and coerced every var -/
theorem validateVars_ok {js : Jsonschema} {vars : List (String × String)} {projection : Json}
    (h : validateVars js vars (some projection) = .ok ()) :
    (((projection.get? "additionalProperties").map Json.truthy).getD false = true ∨
      ∀ key ∈ vars.map Prod.fst, (schemaProperties projection).lookup key ≠ none) ∧
    ∃ document, coerceVars (schemaProperties projection) vars = .ok document ∧
      js.validate (.dict document) projection = .ok () := by
  simp only [validateVars, bind_eq_ok, require_eq_ok] at h
  obtain ⟨-, hopen, document, hdocument, h⟩ := h
  refine ⟨hopen.imp_right fun hempty key hkey hnone => ?_, document, hdocument, ?_⟩
  · rw [List.isEmpty_iff] at hempty
    have hmem : key ∈ (vars.map Prod.fst).filter fun key =>
        ((schemaProperties projection).lookup key).isNone :=
      List.mem_filter.mpr ⟨hkey, by rw [hnone]; rfl⟩
    rw [hempty] at hmem
    cases hmem
  · cases hv : js.validate (.dict document) projection with
    | ok u => rfl
    | error e =>
      rw [hv] at h
      cases e with
      | schemaError message => cases h
      | validationError e => cases h

/-- the fields of the vars half -/
theorem get?_varsProjection (schema : Json) :
    (varsProjectionOf schema).get? "additionalProperties" = some (.bool (varsOpen schema)) ∧
      (varsProjectionOf schema).get? "$ref" = none ∧
      (varsProjectionOf schema).get? "properties" = some (.obj
        ((runtimeProperties schema).map fun field => (field.1, withoutTarget field.2))) := by
  unfold varsProjectionOf
  cases schema.get? "$schema" with
  | none => simp [Json.get?, lookup_cons_ite]
  | some dialect => simp [Json.get?, lookup_cons_ite]

/-- the vars half declares the runtime properties -/
theorem lookup_varsProjection (schema : Json) (k : String) :
    (schemaProperties (varsProjectionOf schema)).lookup k =
      ((runtimeProperties schema).lookup k).map withoutTarget := by
  rw [schemaProperties, (get?_varsProjection schema).2.2]
  exact lookup_map_snd withoutTarget _ k

end Freepod
