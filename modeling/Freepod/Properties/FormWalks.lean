import Freepod.Ui.ValuesForm
import Freepod.Values.Paths

/-!
# The walks of the form

A document and a schema are seen through the values at paths of names.

* `lookup_flattenValues`: the flattened values of a document are the values at its leaves.
* `mem_flattenSchema`, `exists_mem_flattenSchema`: the fields are those of the leaf properties.
* `unflatten_holds`: what `unflatten` makes of values at paths none of which goes through another.
-/

namespace Freepod.ValuesForm

open Base

/-! ## Paths of names -/

/-- the value at a path of names -/
def valueAt : Json → List String → Option Json
  | value, [] => some value
  | value, name :: path =>
    match value.get? name with
    | some inner => valueAt inner path
    | none => none

/-- the value at a path that ends at no object -/
def leafAt (value : Json) (path : List String) : Option Json :=
  (valueAt value path).filter fun v => !v.isObj

/-- the schema of a property that has no properties of its own -/
def leafSchema : Json → List String → Option Json
  | _, [] => none
  | schema, name :: path =>
    match (schema.get? "properties").bind fun properties => properties.get? name with
    | some (.obj prop) =>
      if hasProperties (.obj prop) then leafSchema (.obj prop) path
      else if path = [] then some (.obj prop)
      else none
    | _ => none

/-- a name that a dotted path keeps apart and that no object has already -/
def PlainName (name : String) : Prop := name ≠ "" ∧ '.' ∉ name.toList ∧ name ∉ objectPrototype

def PlainPath (path : List String) : Prop := path ≠ [] ∧ ∀ name ∈ path, PlainName name

/-- the dotted path of some names in the object at `start` -/
def dotted (start : String) (names : List String) : String := names.foldl currentPath start

theorem dotted_cons (start name : String) (names : List String) :
    dotted start (name :: names) = dotted (currentPath start name) names := rfl

theorem dotted_concat (start name : String) (names : List String) :
    dotted start (names ++ [name]) = currentPath (dotted start names) name := by
  rw [dotted, List.foldl_append]
  rfl

theorem dotted_eq_intercalate {start : String} (h : start ≠ "") (names : List String) :
    dotted start names = ".".intercalate (start :: names) := by
  induction names generalizing start with
  | nil => exact String.intercalate_singleton.symm
  | cons name names ih =>
    have hne : start ++ "." ++ name ≠ "" := by
      intro he
      have hlen := congrArg String.length he
      simp only [String.length_append] at hlen
      exact absurd hlen (by simp)
    rw [dotted_cons, currentPath, if_neg h, ih hne, String.append_assoc,
      String.intercalate_cons_append, String.intercalate_cons_append,
      String.intercalate_cons_cons, String.append_assoc]

/-- **the parts of a dotted path** -/
theorem parts_dotted {names : List String} (h : PlainPath names) :
    parts (dotted "" names) = names := by
  obtain ⟨hne, hplain⟩ := h
  cases names with
  | nil => exact absurd rfl hne
  | cons name names =>
    have hname : name ≠ "" := (hplain name List.mem_cons_self).1
    have hdots : ∀ l ∈ (name :: names).map String.toList, '.' ∉ l := by
      intro l hl
      obtain ⟨n, hn, rfl⟩ := List.mem_map.mp hl
      exact (hplain n hn).2.1
    rw [dotted_cons, currentPath, if_pos rfl, dotted_eq_intercalate hname, parts,
      String.toList_intercalate, show ".".toList = ['.'] from rfl,
      List.splitOn_intercalate '.' hdots (by simp), List.map_map]
    simp

theorem dotted_inj {names names' : List String} (h : PlainPath names) (h' : PlainPath names')
    (he : dotted "" names = dotted "" names') : names = names' := by
  rw [← parts_dotted h, he, parts_dotted h']

/-- a dotted path is no member every object inherits -/
theorem dotted_notMem {names : List String} (h : PlainPath names) :
    dotted "" names ∉ objectPrototype := by
  intro hm
  have hparts : ∀ key ∈ objectPrototype, parts key = [key] := by
    decide
  have hnames := parts_dotted h
  rw [hparts _ hm] at hnames
  have hplain : PlainName (dotted "" names) := by
    apply h.2
    rw [← hnames]
    exact List.mem_singleton_self _
  exact hplain.2.2 hm

/-! ## Values at paths -/

theorem leafAt_some {value v : Json} {path : List String} :
    leafAt value path = some v ↔ valueAt value path = some v ∧ v.isObj = false := by
  rw [leafAt, Option.filter_eq_some_iff, Bool.not_eq_true']

theorem leafAt_cons (value : Json) (name : String) (path : List String) :
    leafAt value (name :: path) = (value.get? name).bind fun inner => leafAt inner path := by
  rw [leafAt, valueAt]
  cases value.get? name with
  | none => rfl
  | some inner => rfl

/-! ## `flattenValues` -/

theorem leaf_of_setKey {path key : String} {value v : Json} {result : Fields}
    (hobj : value.isObj = false) (h : (key, v) = (path, value) ∨ (key, v) ∈ result) :
    (key, v) ∈ result ∨ ∃ names, leafAt value names = some v ∧ key = dotted path names := by
  obtain h | h := h
  · cases h
    exact .inr ⟨[], leafAt_some.mpr ⟨rfl, hobj⟩, rfl⟩
  · exact .inl h

theorem mem_assign {result source : Fields} {e : String × Json} (h : e ∈ assign result source) :
    e ∈ result ∨ e ∈ source := by
  induction source generalizing result with
  | nil => exact .inl h
  | cons a source ih =>
    obtain h | h := ih h
    · obtain rfl | h := mem_setKey h
      · exact .inr List.mem_cons_self
      · exact .inl h
    · exact .inr (List.mem_cons_of_mem _ h)

theorem key_assign {result source : Fields} {key : String} :
    key ∈ (assign result source).map Prod.fst ↔
      key ∈ result.map Prod.fst ∨ key ∈ source.map Prod.fst := by
  induction source generalizing result with
  | nil => simp [assign]
  | cons a source ih =>
    rw [show assign result (a :: source) = assign (setKey a.1 a.2 result) source from rfl, ih,
      mem_map_fst_setKey, List.map_cons, List.mem_cons]
    tauto

mutual
/-- what the walk of a value writes is at its leaves -/
theorem mem_flattenValue {path key : String} {result : Fields} {v : Json} : ∀ value : Json,
    uniqueKeys value = true → (key, v) ∈ flattenValue path result value →
    (key, v) ∈ result ∨ ∃ names, leafAt value names = some v ∧ key = dotted path names
  | .obj fields, hu, h => by
    rw [uniqueKeys_obj] at hu
    rw [flattenValue] at h
    obtain h | h := mem_assign h
    · exact .inl h
    · obtain h | ⟨name, inner, names, hmem, hleaf, hkey⟩ := mem_flattenEntries fields hu.2 h
      · cases h
      · refine .inr ⟨name :: names, ?_, hkey⟩
        rw [leafAt_cons, show (Json.obj fields).get? name = fields.lookup name from rfl,
          (lookup_eq_some_iff_mem hu.1).mpr hmem]
        exact hleaf
  | .null, _, h => leaf_of_setKey rfl (mem_setKey h)
  | .bool _, _, h => leaf_of_setKey rfl (mem_setKey h)
  | .num _ _, _, h => leaf_of_setKey rfl (mem_setKey h)
  | .str _, _, h => leaf_of_setKey rfl (mem_setKey h)
  | .arr _, _, h => leaf_of_setKey rfl (mem_setKey h)

theorem mem_flattenEntries {path key : String} {result : Fields} {v : Json} : ∀ defaults : Fields,
    uniqueKeysFields defaults = true → (key, v) ∈ flattenEntries path result defaults →
    (key, v) ∈ result ∨ ∃ name inner names, (name, inner) ∈ defaults ∧
      leafAt inner names = some v ∧ key = dotted path (name :: names)
  | [], _, h => .inl h
  | entry :: defaults, hu, h => by
    rw [uniqueKeysFields, Bool.and_eq_true] at hu
    rw [flattenEntries] at h
    obtain h | ⟨name, inner, names, hmem, hrest⟩ := mem_flattenEntries defaults hu.2 h
    · obtain h | ⟨names, hleaf, hkey⟩ := mem_flattenEntry entry hu.1 h
      · exact .inl h
      · exact .inr ⟨entry.1, entry.2, names, List.mem_cons_self, hleaf, hkey⟩
    · exact .inr ⟨name, inner, names, List.mem_cons_of_mem _ hmem, hrest⟩

theorem mem_flattenEntry {path key : String} {result : Fields} {v : Json} :
    ∀ entry : String × Json, uniqueKeysField entry = true →
    (key, v) ∈ flattenEntry path result entry →
    (key, v) ∈ result ∨
      ∃ names, leafAt entry.2 names = some v ∧ key = dotted path (entry.1 :: names)
  | (name, value), hu, h => by
    rw [uniqueKeysField] at hu
    rw [flattenEntry] at h
    exact mem_flattenValue value hu h
end

theorem flattenValue_of_not_obj {path : String} {result : Fields} {value : Json}
    (h : value.isObj = false) : flattenValue path result value = setKey path value result := by
  cases value with
  | obj fields => cases h
  | _ => rw [flattenValue.eq_def]

/-- the walk of a value keeps the keys there are -/
theorem key_flattenValue_mono {path key : String} {result : Fields} (value : Json)
    (h : key ∈ result.map Prod.fst) : key ∈ (flattenValue path result value).map Prod.fst := by
  cases hobj : value.isObj with
  | false =>
    rw [flattenValue_of_not_obj hobj, mem_map_fst_setKey]
    exact .inr h
  | true =>
    cases value with
    | obj fields =>
      rw [flattenValue, key_assign]
      exact .inl h
    | _ => cases hobj

theorem key_flattenEntries_mono {path key : String} {result : Fields} (defaults : Fields)
    (h : key ∈ result.map Prod.fst) :
    key ∈ (flattenEntries path result defaults).map Prod.fst := by
  induction defaults generalizing result with
  | nil => exact h
  | cons entry defaults ih =>
    rw [flattenEntries, flattenEntry.eq_def]
    exact ih (key_flattenValue_mono entry.2 h)

theorem flattenEntries_append {path : String} {result : Fields} (before after : Fields) :
    flattenEntries path result (before ++ after) =
      flattenEntries path (flattenEntries path result before) after := by
  induction before generalizing result with
  | nil => rfl
  | cons entry before ih =>
    rw [List.cons_append, flattenEntries, ih, flattenEntries]

/-- the walk of a value writes at each of its leaves -/
theorem key_flattenValue (path : String) (result : Fields) {value v : Json} {names : List String}
    (h : leafAt value names = some v) :
    dotted path names ∈ (flattenValue path result value).map Prod.fst := by
  induction names generalizing path result value with
  | nil =>
    obtain ⟨hv, hobj⟩ := leafAt_some.mp h
    cases Option.some.inj hv
    rw [flattenValue_of_not_obj hobj, mem_map_fst_setKey]
    exact .inl rfl
  | cons name names ih =>
    rw [leafAt_cons] at h
    cases value with
    | obj fields =>
      obtain ⟨inner, hlookup, hleaf⟩ := Option.bind_eq_some_iff.mp h
      rw [flattenValue, key_assign]
      obtain ⟨before, after, rfl⟩ := List.append_of_mem (mem_of_lookup hlookup)
      rw [flattenEntries_append, flattenEntries, flattenEntry]
      exact .inr (key_flattenEntries_mono after (ih _ _ hleaf))
    | _ => cases h

theorem leafAt_fields (value : Json) {names : List String} (h : names ≠ []) :
    leafAt value names = leafAt (.obj value.fields) names := by
  cases names with
  | nil => exact absurd rfl h
  | cons name names =>
    rw [leafAt_cons, leafAt_cons]
    cases value <;> rfl

theorem uniqueKeys_fields {value : Json} (h : uniqueKeys value = true) :
    uniqueKeys (.obj value.fields) = true := by
  cases value with
  | obj fields => exact h
  | _ => rfl

/-- **the flattened values are those at the leaves**, under a name that is that of one leaf -/
theorem lookup_flattenValues {stored : Json} (hu : uniqueKeys stored = true)
    {names : List String} (h : names ≠ [])
    (hown : ∀ names' v, leafAt stored names' = some v → names' ≠ [] →
      dotted "" names' = dotted "" names → names' = names) :
    (flattenValues stored).lookup (dotted "" names) = leafAt stored names := by
  have hsound : ∀ v, (flattenValues stored).lookup (dotted "" names) = some v →
      leafAt stored names = some v := by
    intro v hv
    have hmem := mem_of_lookup hv
    obtain hmem | ⟨name, inner, rest, hin, hleaf, hkey⟩ :=
      mem_flattenEntries _ (uniqueKeys_obj.mp (uniqueKeys_fields hu)).2 hmem
    · cases hmem
    · have hstored : leafAt stored (name :: rest) = some v := by
        rw [leafAt_fields stored (List.cons_ne_nil name rest), leafAt_cons,
          show (Json.obj stored.fields).get? name = stored.fields.lookup name from rfl,
          (lookup_eq_some_iff_mem (uniqueKeys_obj.mp (uniqueKeys_fields hu)).1).mpr hin]
        exact hleaf
      rw [← hown _ _ hstored (List.cons_ne_nil name rest) hkey.symm]
      exact hstored
  cases hl : (flattenValues stored).lookup (dotted "" names) with
  | some v => exact (hsound v hl).symm
  | none =>
    cases hleaf : leafAt stored names with
    | none => rfl
    | some v =>
      rw [leafAt_fields stored h] at hleaf
      have hkey := key_flattenValue "" [] hleaf
      rw [flattenValue, key_assign] at hkey
      exact absurd (hkey.resolve_left List.not_mem_nil) (lookup_eq_none_iff_notMem.mp hl)

/-! ## `flattenSchema` -/

theorem flattenKeywords_eq (path : String) (schema : Fields) :
    flattenKeywords path schema =
      ((schema.lookup "properties").map (flattenProperties path)).getD [] := by
  induction schema with
  | nil => rfl
  | cons keyword schema ih =>
    obtain ⟨name, value⟩ := keyword
    rw [flattenKeywords, lookup_cons_ite, ih]
    by_cases h : name = "properties"
    · rw [if_pos h, if_pos h.symm]
      rfl
    · rw [if_neg h, if_neg (Ne.symm h)]

theorem mem_flattenEach {path : String} {properties : Fields} {field : SchemaField} :
    field ∈ flattenEach path properties ↔
      ∃ property ∈ properties, field ∈ flattenProperty path property := by
  induction properties with
  | nil => simp [flattenEach]
  | cons property properties ih =>
    rw [flattenEach, List.mem_append, ih]
    simp only [List.mem_cons, or_and_right, exists_or, exists_eq_left]

/-- the fields of a schema, by its properties -/
theorem mem_flattenSchema_iff {path : String} {schema : Json} {field : SchemaField} :
    field ∈ flattenSchema path schema ↔
      ∃ properties, schema.get? "properties" = some (.obj properties) ∧
        ∃ property ∈ properties, field ∈ flattenProperty path property := by
  cases schema with
  | obj fields =>
    rw [flattenSchema, flattenKeywords_eq,
      show (Json.obj fields).get? "properties" = fields.lookup "properties" from rfl]
    cases fields.lookup "properties" with
    | none => simp
    | some value =>
      cases value with
      | obj properties => simp [flattenProperties, mem_flattenEach]
      | _ => simp [flattenProperties]
  | _ => simp [flattenSchema, Json.get?]

theorem leafSchema_cons {schema : Json} {properties : Fields} {name : String} {path : List String}
    {prop : Json} (hp : schema.get? "properties" = some (.obj properties))
    (hl : properties.lookup name = some prop) (hobj : prop.isObj = true) :
    leafSchema schema (name :: path) =
      if hasProperties prop then leafSchema prop path
      else if path = [] then some prop else none := by
  rw [leafSchema, hp, Option.bind_some,
    show (Json.obj properties).get? name = properties.lookup name from rfl, hl]
  cases prop with
  | obj fields => rfl
  | _ => cases hobj

theorem sizeOf_property {schema : Json} {properties : Fields} {property : String × Json}
    (hp : schema.get? "properties" = some (.obj properties)) (hmem : property ∈ properties) :
    sizeOf property.2 < sizeOf schema := by
  cases schema with
  | obj fields =>
    have h₁ := List.sizeOf_lt_of_mem (mem_of_lookup hp)
    have h₂ := List.sizeOf_lt_of_mem hmem
    obtain ⟨name, prop⟩ := property
    simp only [Prod.mk.sizeOf_spec, Json.obj.sizeOf_spec] at h₁ h₂ ⊢
    omega
  | _ => cases hp

theorem uniqueKeys_get {schema value : Json} {name : String} (hu : uniqueKeys schema = true)
    (h : schema.get? name = some value) : uniqueKeys value = true := by
  cases schema with
  | obj fields => exact uniqueKeys_lookup (uniqueKeys_obj.mp hu).2 h
  | _ => cases h

/-- **each field is that of a leaf property** -/
theorem mem_flattenSchema {start : String} {schema : Json} {field : SchemaField}
    (hu : uniqueKeys schema = true) (h : field ∈ flattenSchema start schema) :
    ∃ names name prop, leafSchema schema (names ++ [name]) = some prop ∧
      field = leafField (dotted start names) name prop := by
  obtain ⟨properties, hp, ⟨name, prop⟩, hmem, hfield⟩ := mem_flattenSchema_iff.mp h
  obtain ⟨hnodup, hall⟩ := uniqueKeys_obj.mp (uniqueKeys_get hu hp)
  have hlookup := (lookup_eq_some_iff_mem hnodup).mpr hmem
  rw [flattenProperty] at hfield
  split at hfield
  · rename_i hprops
    have hobj : prop.isObj = true := by
      cases prop with
      | obj fields => rfl
      | _ => cases hprops
    have hsize := sizeOf_property hp hmem
    obtain ⟨names, last, leaf, hleaf, heq⟩ :=
      mem_flattenSchema (uniqueKeysFields_iff.mp hall _ hmem) hfield
    refine ⟨name :: names, last, leaf, ?_, heq⟩
    rw [List.cons_append, leafSchema_cons hp hlookup hobj, if_pos hprops]
    exact hleaf
  · rename_i hprops
    split at hfield
    · rename_i hobj
      refine ⟨[], name, prop, ?_, List.mem_singleton.mp hfield⟩
      rw [List.nil_append, leafSchema_cons hp hlookup hobj, if_neg hprops, if_pos rfl]
    · cases hfield
termination_by sizeOf schema
decreasing_by exact hsize

/-- the property a path of two or more names, or of one, goes through -/
theorem leafSchema_some {schema prop : Json} {name : String} {path : List String}
    (h : leafSchema schema (name :: path) = some prop) :
    ∃ properties inner, schema.get? "properties" = some (.obj properties) ∧
      properties.lookup name = some inner ∧ inner.isObj = true ∧
      (if hasProperties inner then leafSchema inner path = some prop
        else path = [] ∧ inner = prop) := by
  rw [leafSchema] at h
  cases hp : schema.get? "properties" with
  | none =>
    rw [hp] at h
    cases h
  | some value =>
    rw [hp, Option.bind_some] at h
    cases value with
    | obj properties =>
      rw [show (Json.obj properties).get? name = properties.lookup name from rfl] at h
      cases hl : properties.lookup name with
      | none =>
        rw [hl] at h
        cases h
      | some inner =>
        rw [hl] at h
        cases inner with
        | obj fields =>
          refine ⟨properties, .obj fields, rfl, hl, rfl, ?_⟩
          change (if hasProperties (.obj fields) = true then leafSchema (.obj fields) path
            else if path = [] then some (.obj fields) else none) = some prop at h
          by_cases hprops : hasProperties (.obj fields) = true
          · rw [if_pos hprops] at h ⊢
            exact h
          · rw [if_neg hprops] at h ⊢
            obtain ⟨hpath, hsome⟩ := Option.ite_none_right_eq_some.mp h
            exact ⟨hpath, Option.some.inj hsome⟩
        | _ => cases h
    | _ => cases h

/-- **each leaf property has its field** -/
theorem exists_mem_flattenSchema {start name : String} {schema prop : Json} {names : List String}
    (h : leafSchema schema (names ++ [name]) = some prop) :
    leafField (dotted start names) name prop ∈ flattenSchema start schema := by
  induction names generalizing start schema with
  | nil =>
    obtain ⟨properties, inner, hp, hl, hobj, hcase⟩ := leafSchema_some h
    refine mem_flattenSchema_iff.mpr ⟨properties, hp, (name, inner), mem_of_lookup hl, ?_⟩
    rw [flattenProperty]
    split at hcase
    · cases hcase
    · rename_i hprops
      rw [if_neg hprops, if_pos hobj, hcase.2]
      exact List.mem_singleton_self _
  | cons first names ih =>
    obtain ⟨properties, inner, hp, hl, hobj, hcase⟩ := leafSchema_some h
    refine mem_flattenSchema_iff.mpr ⟨properties, hp, (first, inner), mem_of_lookup hl, ?_⟩
    rw [flattenProperty]
    split at hcase
    · rename_i hprops
      rw [if_pos hprops]
      exact ih hcase
    · exact absurd hcase.1 (List.append_ne_nil_of_right_ne_nil _ (List.cons_ne_nil _ _))

/-- no leaf property lies within another -/
theorem leafSchema_within {schema prop prop' : Json} {path rest : List String}
    (h : leafSchema schema path = some prop) (h' : leafSchema schema (path ++ rest) = some prop') :
    rest = [] := by
  induction path generalizing schema with
  | nil => cases h
  | cons name path ih =>
    obtain ⟨properties, inner, hp, hl, -, hcase⟩ := leafSchema_some h
    obtain ⟨properties', inner', hp', hl', -, hcase'⟩ := leafSchema_some h'
    cases hp.symm.trans hp'
    cases hl.symm.trans hl'
    by_cases hprops : hasProperties inner = true
    · rw [if_pos hprops] at hcase hcase'
      exact ih hcase hcase'
    · rw [if_neg hprops] at hcase'
      exact (List.append_eq_nil_iff.mp hcase'.1).2

/-! ## `unflatten` -/

theorem member_of_lookup {β : Type} {object : List (String × β)} {key : String}
    (h : key ∉ objectPrototype) : member object key = some (object.lookup key) := by
  have hproto : key ≠ "__proto__" := by
    rintro rfl
    exact h (by decide)
  unfold member
  cases object.lookup key with
  | none => exact if_neg h
  | some value => exact if_neg hproto

theorem valueAt_obj_cons (fields : Fields) (name : String) (path : List String) :
    valueAt (.obj fields) (name :: path) =
      (fields.lookup name).bind fun inner => valueAt inner path := by
  rw [valueAt, show (Json.obj fields).get? name = fields.lookup name from rfl]
  cases fields.lookup name <;> rfl

theorem valueAt_setKey (part name : String) (value : Json) (fields : Fields) (path : List String) :
    valueAt (.obj (setKey part value fields)) (name :: path) =
      if name = part then valueAt value path else valueAt (.obj fields) (name :: path) := by
  rw [valueAt_obj_cons, valueAt_obj_cons, lookup_setKey]
  split <;> rfl

/-- the way to a path: what stands on it already are objects -/
def Free (fields : Fields) (path : List String) : Prop :=
  ∀ q rest v, path = q ++ rest → q ≠ [] → rest ≠ [] → valueAt (.obj fields) q = some v →
    v.isObj = true

/-- what there is after the assignment of a value at a path -/
structure Inserted (value : Json) (path : List String) (fields fields' : Fields) : Prop where
  held (rest : List String) : valueAt (.obj fields') (path ++ rest) = valueAt value rest
  between {q rest : List String} (h : path = q ++ rest) (hne : rest ≠ []) :
    ∃ inner, valueAt (.obj fields') q = some (.obj inner)
  other {q : List String} (h : ¬ path <+: q) (h' : ¬ q <+: path) :
    valueAt (.obj fields') q = valueAt (.obj fields) q

/-- the object a part leads into -/
def innerOf (fields : Fields) (part : String) : Fields := ((fields.lookup part).getD .null).fields

theorem valueAt_innerOf {fields : Fields} {part : String} (path : List String) (h : path ≠ []) :
    valueAt (.obj (innerOf fields part)) path = valueAt (.obj fields) (part :: path) := by
  cases path with
  | nil => exact absurd rfl h
  | cons name path =>
    rw [valueAt_obj_cons, valueAt_obj_cons, innerOf]
    cases fields.lookup part with
    | none => rfl
    | some value =>
      rw [Option.getD_some, Option.bind_some]
      cases value with
      | obj inner => exact (valueAt_obj_cons inner name path).symm
      | _ => rfl

theorem insertAt_cons {value : Json} {part next : String} {rest : List String} {fields : Fields}
    (hpart : part ∉ objectPrototype) (hfree : Free fields (part :: next :: rest)) :
    insertAt value (part :: next :: rest) fields =
      (insertAt value (next :: rest) (innerOf fields part)).map fun inner =>
        setKey part (.obj inner) fields := by
  rw [insertAt, member_of_lookup hpart, innerOf]
  · cases hl : fields.lookup part with
    | none =>
      change (insertAt value (next :: rest) []).bind _ = (insertAt value (next :: rest) []).map _
      cases insertAt value (next :: rest) [] <;> rfl
    | some v =>
      have hobj := hfree [part] (next :: rest) v rfl (List.cons_ne_nil _ _) (List.cons_ne_nil _ _)
        (by rw [valueAt_obj_cons, hl]; rfl)
      cases v with
      | obj inner =>
        change (insertAt value (next :: rest) inner).bind _ =
          (insertAt value (next :: rest) inner).map _
        cases insertAt value (next :: rest) inner <;> rfl
      | _ => cases hobj
  · exact List.cons_ne_nil _ _

/-- **one assignment** -/
theorem insertAt_inserted (value : Json) {path : List String} {fields : Fields} (hne : path ≠ [])
    (hplain : ∀ part ∈ path, part ∉ objectPrototype) (hfree : Free fields path) :
    ∃ fields', insertAt value path fields = some fields' ∧ Inserted value path fields fields' := by
  induction path generalizing fields with
  | nil => exact absurd rfl hne
  | cons part path ih =>
    have hpart := hplain part List.mem_cons_self
    cases path with
    | nil =>
      have hproto : part ≠ "__proto__" := by
        rintro rfl
        exact hpart (by decide)
      refine ⟨setKey part value fields, by rw [insertAt, if_neg hproto], ?_, ?_, ?_⟩
      · intro rest
        rw [List.singleton_append, valueAt_setKey, if_pos rfl]
      · intro q rest hq hrest
        cases q with
        | nil => exact ⟨_, rfl⟩
        | cons name q =>
          obtain ⟨-, hnil⟩ := List.cons.inj hq
          exact absurd (List.append_eq_nil_iff.mp hnil.symm).2 hrest
      · intro q h h'
        cases q with
        | nil => exact absurd List.nil_prefix h'
        | cons name q =>
          have hname : name ≠ part := by
            rintro rfl
            exact h ⟨q, rfl⟩
          rw [valueAt_setKey, if_neg hname]
    | cons next rest =>
      have hinner : Free (innerOf fields part) (next :: rest) := by
        intro q rest' v hq hqne hrest hv
        rw [valueAt_innerOf q hqne] at hv
        exact hfree (part :: q) rest' v (by rw [hq]; rfl) (List.cons_ne_nil _ _) hrest hv
      obtain ⟨inner, hinsert, hheld, hbetween, hother⟩ :=
        ih (List.cons_ne_nil _ _) (fun p hp => hplain p (List.mem_cons_of_mem _ hp)) hinner
      refine ⟨setKey part (.obj inner) fields, by rw [insertAt_cons hpart hfree, hinsert]; rfl,
        ?_, ?_, ?_⟩
      · intro rest'
        rw [List.cons_append, valueAt_setKey, if_pos rfl]
        exact hheld rest'
      · intro q rest' hq hrest
        cases q with
        | nil => exact ⟨_, rfl⟩
        | cons name q =>
          obtain ⟨hname, hq⟩ := List.cons.inj hq
          rw [valueAt_setKey, if_pos hname.symm]
          exact hbetween hq hrest
      · intro q h h'
        cases q with
        | nil => exact absurd List.nil_prefix h'
        | cons name q =>
          rw [valueAt_setKey]
          by_cases hname : name = part
          · rw [List.cons_prefix_cons, hname] at h h'
            have hqne : q ≠ [] := by
              rintro rfl
              exact h' ⟨rfl, List.nil_prefix⟩
            rw [if_pos hname, hname, hother (fun hp => h ⟨rfl, hp⟩) fun hp => h' ⟨rfl, hp⟩,
              valueAt_innerOf q hqne]
          · rw [if_neg hname]

/-- what an object holds: values at paths, the objects on the way to them, and nothing else -/
structure Holds (done : List (List String × Json)) (fields : Fields) : Prop where
  held {e : List String × Json} (h : e ∈ done) (rest : List String) :
    valueAt (.obj fields) (e.1 ++ rest) = valueAt e.2 rest
  between {e : List String × Json} (h : e ∈ done) {q rest : List String} (hq : e.1 = q ++ rest)
    (hne : rest ≠ []) : ∃ inner, valueAt (.obj fields) q = some (.obj inner)
  other {q : List String} (hne : q ≠ []) (h : ∀ e ∈ done, ¬ e.1 <+: q ∧ ¬ q <+: e.1) :
    valueAt (.obj fields) q = none

theorem holds_nil : Holds [] [] where
  held h := (List.not_mem_nil h).elim
  between h := (List.not_mem_nil h).elim
  other {q} hne _ := by
    cases q with
    | nil => exact absurd rfl hne
    | cons name q => rfl

/-- neither path goes through the other -/
def Apart (path path' : List String) : Prop := ¬ path <+: path' ∧ ¬ path' <+: path

theorem Apart.symm {path path' : List String} (h : Apart path path') : Apart path' path :=
  ⟨h.2, h.1⟩

/-- **one assignment of the loop** -/
theorem Holds.insert {done : List (List String × Json)} {fields : Fields} (h : Holds done fields)
    {path : List String} (value : Json) (hne : path ≠ [])
    (hplain : ∀ part ∈ path, part ∉ objectPrototype) (hapart : ∀ e ∈ done, Apart e.1 path) :
    ∃ fields', insertAt value path fields = some fields' ∧
      Holds ((path, value) :: done) fields' := by
  have hfree : Free fields path := by
    intro q rest v hq hqne hrest hv
    by_cases hall : ∀ e ∈ done, ¬ e.1 <+: q ∧ ¬ q <+: e.1
    · rw [h.other hqne hall] at hv
      cases hv
    · push Not at hall
      obtain ⟨e, he, hcase⟩ := hall
      have hnot : ¬ e.1 <+: q := fun hp => (hapart e he).1 (hp.trans ⟨rest, hq.symm⟩)
      obtain ⟨rest', hrest'⟩ := hcase hnot
      have hne' : rest' ≠ [] := by
        rintro rfl
        rw [List.append_nil] at hrest'
        exact hnot ⟨[], by rw [List.append_nil, hrest']⟩
      obtain ⟨inner, hinner⟩ := h.between he hrest'.symm hne'
      rw [hinner] at hv
      cases hv
      rfl
  obtain ⟨fields', hinsert, hins⟩ := insertAt_inserted value hne hplain hfree
  refine ⟨fields', hinsert, ?_, ?_, ?_⟩
  · intro e he rest
    obtain rfl | he := List.mem_cons.mp he
    · exact hins.held rest
    · have hap := hapart e he
      rw [hins.other, h.held he]
      · intro hp
        obtain hp' | hp' := List.prefix_or_prefix_of_prefix hp (List.prefix_append e.1 rest)
        · exact hap.2 hp'
        · exact hap.1 hp'
      · exact fun hp => hap.1 ((List.prefix_append _ _).trans hp)
  · intro e he q rest hq hrest
    obtain rfl | he := List.mem_cons.mp he
    · exact hins.between hq hrest
    · have hap := hapart e he
      by_cases hqp : q <+: path
      · obtain ⟨rest', hrest'⟩ := hqp
        have hne' : rest' ≠ [] := by
          rintro rfl
          rw [List.append_nil] at hrest'
          exact hap.2 ⟨rest, by rw [← hrest', hq]⟩
        exact hins.between hrest'.symm hne'
      · rw [hins.other (fun hp => hap.2 (hp.trans ⟨rest, hq.symm⟩)) hqp]
        exact h.between he hq hrest
  · intro q hqne hall
    have hq := hall _ List.mem_cons_self
    rw [hins.other hq.1 hq.2]
    exact h.other hqne fun e he => hall e (List.mem_cons_of_mem _ he)

theorem insertAll_holds (todo : List (List String × Json)) {done : List (List String × Json)}
    {fields : Fields} (h : Holds done fields) (hplain : ∀ e ∈ todo, PlainPath e.1)
    (hpair : todo.Pairwise fun e e' => Apart e.1 e'.1)
    (hapart : ∀ e ∈ done, ∀ e' ∈ todo, Apart e.1 e'.1) :
    ∃ fields', todo.foldlM (fun result e => insertAt e.2 e.1 result) fields = some fields' ∧
      Holds (todo.reverse ++ done) fields' := by
  induction todo generalizing done fields with
  | nil => exact ⟨fields, rfl, h⟩
  | cons e todo ih =>
    obtain ⟨hhead, htail⟩ := List.pairwise_cons.mp hpair
    have hpe := hplain e List.mem_cons_self
    obtain ⟨next, hinsert, hnext⟩ := h.insert e.2 hpe.1 (fun part hp => (hpe.2 part hp).2.2)
      fun e' he' => hapart e' he' e List.mem_cons_self
    have hrest : ∀ d ∈ (e.1, e.2) :: done, ∀ e' ∈ todo, Apart d.1 e'.1 := by
      intro d hd e' he'
      obtain rfl | hd := List.mem_cons.mp hd
      · exact hhead e' he'
      · exact hapart d hd e' (List.mem_cons_of_mem _ he')
    obtain ⟨fields', hfold, hfields⟩ := ih hnext
      (fun e' he' => hplain e' (List.mem_cons_of_mem _ he')) htail hrest
    refine ⟨fields', ?_, ?_⟩
    · rw [List.foldlM_cons, hinsert]
      exact hfold
    · rw [List.reverse_cons, List.append_assoc]
      exact hfields

theorem entries_perm (object : Fields) : (entries object).Perm object :=
  ((List.perm_insertionSort _ _).append_right _).trans
    (List.filter_append_perm (fun e : String × Json => (arrayIndex e.1).isSome) object)

/-- **`unflatten` holds the values at the paths of their keys, and nothing else** -/
theorem unflatten_holds {values : Fields} (hplain : ∀ e ∈ values, PlainPath (parts e.1))
    (hpair : values.Pairwise fun e e' => Apart (parts e.1) (parts e'.1)) :
    ∃ fields, unflatten values = some fields ∧
      ∃ done, (∀ e, e ∈ done ↔ ∃ e' ∈ values, e = (parts e'.1, e'.2)) ∧ Holds done fields := by
  have hperm := entries_perm values
  have hmem : ∀ e, e ∈ (entries values).map (fun e => (parts e.1, e.2)) ↔
      ∃ e' ∈ values, e = (parts e'.1, e'.2) := by
    intro e
    rw [List.mem_map]
    constructor
    · rintro ⟨e', he', rfl⟩
      exact ⟨e', hperm.mem_iff.mp he', rfl⟩
    · rintro ⟨e', he', rfl⟩
      exact ⟨e', hperm.mem_iff.mpr he', rfl⟩
  have hplain' : ∀ e ∈ (entries values).map (fun e => (parts e.1, e.2)), PlainPath e.1 := by
    intro e he
    obtain ⟨e', he', rfl⟩ := (hmem e).mp he
    exact hplain e' he'
  have hpair' : ((entries values).map fun e => (parts e.1, e.2)).Pairwise
      fun e e' => Apart e.1 e'.1 :=
    List.pairwise_map.mpr ((hperm.pairwise_iff fun h => h.symm).mpr hpair)
  obtain ⟨fields, hfold, hholds⟩ :=
    insertAll_holds _ holds_nil hplain' hpair' fun e he => (List.not_mem_nil he).elim
  refine ⟨fields, ?_, _, ?_, hholds⟩
  · rw [← hfold, unflatten, List.foldlM_map]
  · intro e
    rw [List.append_nil, List.mem_reverse, hmem]

end Freepod.ValuesForm
