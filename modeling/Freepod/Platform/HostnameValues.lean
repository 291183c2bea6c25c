import Freepod.Platform.Deployments
import Freepod.Platform.Hostnames
import Freepod.Values.Paths

/-!
# The hostname among the submitted values

`services/deployments.py` and `util.py`.  A schema titles the values that are hostnames.  A create
or an update takes the deployment's hostname from the first one it finds, and writes the completed
name back.

* `iterHostnamePaths`: the walk over a schema; `valueForPath` and `setValueAtPath` follow its paths.
* `normalizeAndReturnHostname`: the hostname and the values it is written into.
* `nodeAt_writeAt`: a write over a value without children changes no other place of the document.
-/

namespace Freepod
open Base

/-! ## The walk over a schema -/

/-- a title that makes a value a hostname -/
def isHostnameTitle : Option Json → Bool
  | some (.str title) => decide (lower title = "hostname")
  | _ => false

/-- `isinstance(value, list)` -/
def Json.isArr : Json → Bool
  | .arr _ => true
  | _ => false

/-- how the walk goes on below a keyword of a schema -/
inductive Keyword
  | properties
  | items
  | variants
  | additional
  | definitions

/-- the keyword of a schema that holds its definitions -/
def definitionsKey (fields : Fields) : String :=
  if ((fields.lookup "$defs").map Json.truthy).getD false = true then "$defs" else "definitions"

mutual
/-- `_iter_hostname_paths` -/
def iterHostnamePaths (path : List String) : Json → List (List String)
  | .obj fields =>
    (if path ≠ [] ∧ isHostnameTitle (fields.lookup "title") = true then [path] else []) ++
      iterKeyword path .properties "properties" fields ++
      iterKeyword path .items "items" fields ++
      iterKeyword path .variants "allOf" fields ++
      iterKeyword path .variants "anyOf" fields ++
      iterKeyword path .variants "oneOf" fields ++
      iterKeyword path .variants "prefixItems" fields ++
      iterKeyword path .additional "additionalProperties" fields ++
      iterKeyword path .definitions (definitionsKey fields) fields
  | .arr schemas => iterSchemas path schemas
  | _ => []

def iterSchemas (path : List String) : List Json → List (List String)
  | [] => []
  | schema :: schemas => iterHostnamePaths path schema ++ iterSchemas path schemas

/-- the paths below the field of that name, if there is one -/
def iterKeyword (path : List String) (keyword : Keyword) (name : String) :
    List (String × Json) → List (List String)
  | [] => []
  | field :: fields =>
    if field.1 = name then iterValue path keyword field else iterKeyword path keyword name fields

def iterValue (path : List String) (keyword : Keyword) : String × Json → List (List String)
  | (_, value) =>
    match keyword with
    | .properties => iterChildren (fun key => path ++ [key]) value
    -- one schema for all elements or a list of them: a star either way
    | .items => iterHostnamePaths (path ++ ["*"]) value
    | .variants => if value.isArr = true then iterHostnamePaths path value else []
    | .additional => if value.isObj = true then iterHostnamePaths path value else []
    | .definitions => iterChildren (fun _ => path) value

/-- the schemas an object holds, each under the path of its key -/
def iterChildren (path : String → List String) : Json → List (List String)
  | .obj fields => iterFields path fields
  | _ => []

def iterFields (path : String → List String) : List (String × Json) → List (List String)
  | [] => []
  | field :: fields => iterField path field ++ iterFields path fields

def iterField (path : String → List String) : String × Json → List (List String)
  | (key, value) => iterHostnamePaths (path key) value
end

mutual
/-- the walk finds no path for the whole schema's own title -/
theorem ne_nil_of_iterHostnamePaths {path found : List String} :
    (schema : Json) → found ∈ iterHostnamePaths path schema → found ≠ []
  | .obj fields, h => by
    simp only [iterHostnamePaths, List.mem_append] at h
    obtain ((((((((h | h) | h) | h) | h) | h) | h) | h) | h) := h
    · split at h
      · rename_i hpath
        exact List.mem_singleton.1 h ▸ hpath.1
      · cases h
    all_goals exact ne_nil_of_iterKeyword fields h
  | .arr schemas, h => ne_nil_of_iterSchemas schemas h

theorem ne_nil_of_iterSchemas {path found : List String} :
    (schemas : List Json) → found ∈ iterSchemas path schemas → found ≠ []
  | schema :: schemas, h => by
    rw [iterSchemas, List.mem_append] at h
    obtain h | h := h
    · exact ne_nil_of_iterHostnamePaths schema h
    · exact ne_nil_of_iterSchemas schemas h

theorem ne_nil_of_iterKeyword {path found : List String} {keyword : Keyword} {name : String} :
    (fields : Fields) → found ∈ iterKeyword path keyword name fields → found ≠ []
  | field :: fields, h => by
    rw [iterKeyword] at h
    split at h
    · exact ne_nil_of_iterValue field h
    · exact ne_nil_of_iterKeyword fields h

theorem ne_nil_of_iterValue {path found : List String} {keyword : Keyword} :
    (field : String × Json) → found ∈ iterValue path keyword field → found ≠ []
  | (_, value), h => by
    cases keyword with
    | properties => exact ne_nil_of_iterChildren value h
    | items => exact ne_nil_of_iterHostnamePaths value h
    | variants =>
      replace h : found ∈ if value.isArr = true then iterHostnamePaths path value else [] := h
      split at h
      · exact ne_nil_of_iterHostnamePaths value h
      · cases h
    | additional =>
      replace h : found ∈ if value.isObj = true then iterHostnamePaths path value else [] := h
      split at h
      · exact ne_nil_of_iterHostnamePaths value h
      · cases h
    | definitions => exact ne_nil_of_iterChildren value h

theorem ne_nil_of_iterChildren {path : String → List String} {found : List String} :
    (value : Json) → found ∈ iterChildren path value → found ≠ []
  | .obj fields, h => ne_nil_of_iterFields fields h

theorem ne_nil_of_iterFields {path : String → List String} {found : List String} :
    (fields : Fields) → found ∈ iterFields path fields → found ≠ []
  | field :: fields, h => by
    rw [iterFields, List.mem_append] at h
    obtain h | h := h
    · exact ne_nil_of_iterField field h
    · exact ne_nil_of_iterFields fields h

theorem ne_nil_of_iterField {path : String → List String} {found : List String} :
    (field : String × Json) → found ∈ iterField path field → found ≠ []
  | (_, value), h => ne_nil_of_iterHostnamePaths value h
end

/-! ## The value at a path -/

/-- the steps of `value_for_path`, a star being the first element of a list -/
def descend : List String → Json → Json
  | [], current => current
  | key :: path, current =>
    if key = "*" then
      match current with
      | .arr (item :: _) => descend path item
      | _ => .null
    else
      match current with
      | .obj fields => ((fields.lookup key).map (descend path)).getD .null
      | _ => .null

/-- `value_for_path` -/
def valueForPath (data : Json) (path : List String) : Json :=
  descend path (if data.truthy = true then data else .obj [])

/-- the steps of `set_value_at_path` -/
def writeAt (value : Json) : List String → Json → Json
  | [], _ => value
  | key :: path, current =>
    if key = "*" then
      match current with
      | .arr (item :: items) => .arr (writeAt value path item :: items)
      | _ => current
    else
      match current with
      | .obj fields =>
        match fields.lookup key with
        | some child => .obj (setKey key (writeAt value path child) fields)
        | none => if path = [] then .obj (setKey key value fields) else current
      | _ => current

/-- `set_value_at_path` -/
def setValueAtPath (data : Json) (path : List String) (value : Json) : Json :=
  if data.truthy = false ∨ path = [] then data else writeAt value path data

/-! ## The hostname -/

/-- what `repr` writes for a number and for a string -/
structure Printer where
  number : (mantissa : Int) → (scale : Nat) → String
  quoted : String → String

mutual
/-- `repr(value)` -/
def Printer.repr (py : Printer) : Json → String
  | .null => "None"
  | .bool b => if b then "True" else "False"
  | .num mantissa scale => py.number mantissa scale
  | .str s => py.quoted s
  | .arr items => "[" ++ ", ".intercalate (py.reprItems items) ++ "]"
  | .obj fields => "\x7b" ++ ", ".intercalate (py.reprFields fields) ++ "\x7d"

def Printer.reprItems (py : Printer) : List Json → List String
  | [] => []
  | item :: items => py.repr item :: py.reprItems items

def Printer.reprFields (py : Printer) : List (String × Json) → List String
  | [] => []
  | field :: fields => py.reprField field :: py.reprFields fields

def Printer.reprField (py : Printer) : String × Json → String
  | (key, value) => py.quoted key ++ ": " ++ py.repr value
end

/-- `str(value)` -/
def Printer.text (py : Printer) : Json → String
  | .str s => s
  | value => py.repr value

/-- the first path of the walk -/
def firstHostnamePath (schema : Json) : Option (List String) :=
  if schema.isObj = true then (iterHostnamePaths [] schema).head? else none

/-- `normalize_and_return_hostname`, with the values as it leaves them -/
def normalizeAndReturnHostname (py : Printer) (schema values : Json)
    (complete : Option (String → Except Refusal String)) :
    Except Refusal (Json × Option String) :=
  match firstHostnamePath schema with
  | none => .ok (values, none)
  | some path =>
    let value := valueForPath values path
    if value.isNull = true then .ok (values, none)
    else do
      let hostname := lower (py.text value)
      let hostname ← match complete with
        | some complete => complete hostname
        | none => .ok hostname
      pure (setValueAtPath values path (.str hostname), some hostname)

/-- the handle an account holds: `claim_handle` stores no illegal one -/
def storedHandle (text : String) : Option Handle :=
  if h : isHandle text.toList = true ∧ '\n' ∉ text.toList then some ⟨text, h⟩ else none

/-- a context whose hostnames are the ones the platform's own checks return -/
def Context.naming (c : Context) (py : Printer) (dns : Dns) (settings : HostnameSettings)
    (s : State) : Context :=
  { c with
    normalizeHostname := fun schema values handle exclude =>
      normalizeAndReturnHostname py schema values (some fun hostname =>
        requireValidHostname dns settings s.deployments.rows hostname
          (handle.bind storedHandle) exclude) }

/-! ## What a write changes -/

/-- the place in a document that a path of the walk leads to -/
def location (path : List String) : Path :=
  path.map fun key => if key = "*" then .index 0 else .key key

/-- a value without children -/
def Json.isLeaf : Json → Bool
  | .arr _ => false
  | .obj _ => false
  | _ => true

theorem nodeAt_leaf {value : Json} (h : value.isLeaf = true) (step : Step) (q : Path) :
    nodeAt (some value) (step :: q) = none := by
  cases value with
  | arr items => cases h
  | obj fields => cases h
  | _ =>
    cases step with
    | key k => rfl
    | index i => rfl

/-- what a star leads to is the first element of a list -/
theorem descend_star {path : List String} {data : Json}
    (h : (descend ("*" :: path) data).isNull = false) :
    ∃ item items, data = .arr (item :: items) ∧
      descend ("*" :: path) data = descend path item := by
  cases data with
  | arr items =>
    cases items with
    | nil => cases h
    | cons item items => exact ⟨item, items, rfl, rfl⟩
  | _ => cases h

/-- what a key leads to is a field of an object -/
theorem descend_key {key : String} {path : List String} {data : Json} (hkey : key ≠ "*")
    (h : (descend (key :: path) data).isNull = false) :
    ∃ fields child, data = .obj fields ∧ fields.lookup key = some child ∧
      descend (key :: path) data = descend path child := by
  simp only [descend, if_neg hkey] at h ⊢
  cases data with
  | obj fields =>
    cases hchild : fields.lookup key with
    | none =>
      simp only [hchild] at h
      cases h
    | some child => exact ⟨fields, child, rfl, hchild, by simp only [hchild]; rfl⟩
  | _ => cases h

/-- **a write over a value without children changes no other place** -/
theorem nodeAt_writeAt {value : Json} (hv : value.isLeaf = true) {path : List String} {data : Json}
    (hnull : (descend path data).isNull = false) (hold : (descend path data).isLeaf = true)
    (q : Path) : nodeAt (some (writeAt value path data)) q =
      if q = location path then some value.node else nodeAt (some data) q := by
  induction path generalizing data q with
  | nil =>
    show nodeAt (some value) q = if q = [] then some value.node else _
    cases q with
    | nil => rw [if_pos rfl, nodeAt]
    | cons step q =>
      have hleaf : data.isLeaf = true := hold
      rw [if_neg (List.cons_ne_nil _ _), nodeAt_leaf hv, nodeAt_leaf hleaf]
  | cons key path ih =>
    by_cases hkey : key = "*"
    · subst hkey
      obtain ⟨item, items, rfl, hitem⟩ := descend_star hnull
      rw [hitem] at hnull hold
      show nodeAt (some (.arr (writeAt value path item :: items))) q =
        if q = .index 0 :: location path then _ else _
      cases q with
      | nil => rw [if_neg (List.cons_ne_nil _ _).symm]; rfl
      | cons step q =>
        cases step with
        | key k => rw [if_neg (by simp)]; rfl
        | index i =>
          cases i with
          | zero =>
            show nodeAt (some (writeAt value path item)) q = _
            rw [ih hnull hold]
            simp only [List.cons.injEq, true_and]
            rfl
          | succ i => rw [if_neg (by simp)]; rfl
    · obtain ⟨fields, child, rfl, hchild, hdown⟩ := descend_key hkey hnull
      rw [hdown] at hnull hold
      have hwrite : writeAt value (key :: path) (.obj fields) =
          .obj (setKey key (writeAt value path child) fields) := by
        simp only [writeAt, if_neg hkey, hchild]
      have hloc : location (key :: path) = .key key :: location path := by
        rw [location, List.map_cons, if_neg hkey]
        rfl
      rw [hwrite, hloc]
      cases q with
      | nil => rw [if_neg (List.cons_ne_nil _ _).symm]; rfl
      | cons step q =>
        cases step with
        | index i => rw [if_neg (by simp)]; rfl
        | key k =>
          show nodeAt ((setKey key (writeAt value path child) fields).lookup k) q =
            if _ then _ else nodeAt (fields.lookup k) q
          rw [lookup_setKey]
          by_cases hk : k = key
          · subst hk
            rw [if_pos rfl, ih hnull hold, hchild]
            simp only [List.cons.injEq, true_and]
          · rw [if_neg hk, if_neg (by simp [hk])]

/-- a path that leads to no value leads to no place, or to a null -/
theorem nodeAt_of_descend {path : List String} {data : Json}
    (h : (descend path data).isNull = true) {n : Node}
    (hn : nodeAt (some data) (location path) = some n) : n = .null := by
  induction path generalizing data with
  | nil =>
    cases data with
    | null => exact (Option.some.inj hn).symm
    | _ => cases h
  | cons key path ih =>
    by_cases hkey : key = "*"
    · subst hkey
      cases data with
      | arr items =>
        cases items with
        | nil =>
          replace hn : nodeAt none (location path) = some n := hn
          rw [nodeAt_none] at hn
          cases hn
        | cons item items => exact ih h hn
      | _ => cases hn
    · simp only [descend, if_neg hkey] at h
      rw [location, List.map_cons, if_neg hkey] at hn
      cases data with
      | obj fields =>
        replace hn : nodeAt (fields.lookup key) (location path) = some n := hn
        cases hchild : fields.lookup key with
        | none =>
          rw [hchild, nodeAt_none] at hn
          cases hn
        | some child =>
          simp only [hchild, Option.map_some, Option.getD_some] at h
          rw [hchild] at hn
          exact ih h hn
      | _ => cases hn

theorem nodeAt_of_not_truthy {data : Json} (h : data.truthy = false) (step : Step) (q : Path) :
    nodeAt (some data) (step :: q) = none := by
  cases data with
  | arr items =>
    cases items with
    | nil =>
      cases step with
      | key k => rfl
      | index i => exact nodeAt_none q
    | cons item items => cases h
  | obj fields =>
    cases fields with
    | nil =>
      cases step with
      | key k => exact nodeAt_none q
      | index i => rfl
    | cons field fields => cases h
  | _ => exact nodeAt_leaf rfl step q

theorem nodeAt_of_valueForPath {path : List String} {data : Json} (hne : path ≠ [])
    (h : (valueForPath data path).isNull = true) {n : Node}
    (hn : nodeAt (some data) (location path) = some n) : n = .null := by
  unfold valueForPath at h
  split at h
  · exact nodeAt_of_descend h hn
  · rename_i hdata
    -- a document that is not truthy has nothing below it
    obtain ⟨key, path, rfl⟩ := List.exists_cons_of_ne_nil hne
    rw [location, List.map_cons] at hn
    rw [nodeAt_of_not_truthy (Bool.not_eq_true _ ▸ hdata)] at hn
    cases hn

theorem nodeAt_setValueAtPath {value : Json} (hv : value.isLeaf = true) {path : List String}
    {data : Json} (hne : path ≠ []) (hnull : (valueForPath data path).isNull = false)
    (hold : (valueForPath data path).isLeaf = true) (q : Path) :
    nodeAt (some (setValueAtPath data path value)) q =
      if q = location path then some value.node else nodeAt (some data) q := by
  have hdata : data.truthy = true := by
    by_contra hdata
    obtain ⟨key, path, rfl⟩ := List.exists_cons_of_ne_nil hne
    rw [valueForPath, if_neg hdata, descend] at hnull
    split at hnull
    · cases hnull
    · cases hnull
  rw [valueForPath, if_pos hdata] at hnull hold
  rw [setValueAtPath, if_neg (by rw [hdata]; simp [hne])]
  exact nodeAt_writeAt hv hnull hold q

end Freepod
