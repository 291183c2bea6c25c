import Freepod.Properties.FormWalks

/-!
# An untouched form keeps what is stored

* `Expected`: what the platform should hold of a property after its form was saved untouched.
* `lookup_collect`: what a loop over the fields assigns.
* `linesToList_join`: a list of lines is read back from its text.
* `untouched_kept`: what an untouched form submits.
-/

namespace Freepod.ValuesForm

open Base

/-! ## What is expected -/

/-- a property that is a var -/
def IsRuntime (path : List String) (prop : Json) : Prop :=
  path.length = 1 ∧ textIn ["runtime"] (prop.get? targetKey) = true

def Shown (hidden : List String) (path : List String) : Prop :=
  ∀ h ∈ hidden, dotted "" path ≠ h ∧ startsWith (dotted "" path) (h ++ ".") = false

/-- a chart property that is shown -/
structure ChartProperty (schema : Json) (hidden path : List String) (prop : Json) : Prop where
  leaf : leafSchema schema path = some prop
  chart : ¬ IsRuntime path prop
  shown : Shown hidden path

/-- a var that is shown and read back -/
structure VarProperty (schema : Json) (hidden : List String) (key : String) (prop : Json) :
    Prop where
  leaf : leafSchema schema [key] = some prop
  runtime : IsRuntime [key] prop
  readable : ∀ b, prop.get? sensitiveKey = some (.bool b) → b = false
  shown : Shown hidden [key]

def IsBoolean (prop : Json) : Prop := textIn ["boolean"] (prop.get? "type") = true

def IsStringList (prop : Json) : Prop :=
  textIn ["array"] (prop.get? "type") = true ∧
    textIn ["string"] ((prop.get? "items").bind (·.get? "type")) = true

/-- an item that is a line of its own -/
def IsLine (item : String) : Prop :=
  '\n' ∉ item.toList ∧ item.toList.getLast? ≠ some '\r' ∧ item.toList.all isSpace = false

/-- a value the field of a property can hold -/
structure Editable (prop v : Json) : Prop where
  boolean : IsBoolean prop → ∃ b, v = .bool b
  lines : IsStringList prop →
    ∃ items : List String, v = .arr (items.map .str) ∧ ∀ item ∈ items, IsLine item

/-- what is expected of a property: its stored value, or its default where nothing is stored -/
inductive Expected (stored : Json) (path : List String) (prop : Json) : Option Json → Prop
  | stored {v : Json} (h : leafAt stored path = some v) (he : Editable prop v) :
    Expected stored path prop (some v)
  | default {v : Json} (h : valueAt stored path = none) (hd : prop.get? "default" = some v)
    (he : Editable prop v) : Expected stored path prop (some v)
  | unchecked (h : valueAt stored path = none) (hd : prop.get? "default" = none)
    (hb : IsBoolean prop) : Expected stored path prop (some (.bool false))
  | absent (h : valueAt stored path = none) (hd : prop.get? "default" = none)
    (hb : ¬ IsBoolean prop) : Expected stored path prop none

/-- what is submitted for a property; `null` stands for values that are all empty -/
def Submitted (userValues : Option Fields) (path : List String) (v : Option Json) : Prop :=
  match userValues with
  | some values => valueAt (.obj values) path = v
  | none => ∀ x, v = some x → isValue x = false

/-! ## Lists of lines -/

theorem ofList_toList (items : List String) :
    (items.map String.toList).map String.ofList = items := by
  rw [List.map_map]
  simp

theorem dropReturn_line {line : List Char} (h : line.getLast? ≠ some '\r') :
    dropReturn line = line := if_neg h

/-- **a list of lines is read back from its text** -/
theorem linesToList_join (spell : Json → String) {items : List String}
    (h : ∀ item ∈ items, IsLine item) :
    linesToList spell (.str ("\n".intercalate items)) = items := by
  by_cases hne : items = []
  · rw [hne]
    rfl
  · have hlines : ∀ l ∈ items.map String.toList, '\n' ∉ l := by
      intro l hl
      obtain ⟨item, hitem, rfl⟩ := List.mem_map.mp hl
      exact (h item hitem).1
    have hreturn : (items.map String.toList).map dropReturn = items.map String.toList := by
      rw [List.map_map]
      apply List.map_congr_left
      intro item hitem
      exact dropReturn_line (h item hitem).2.1
    have hblank : ((items.map String.toList).filter fun line => !line.all isSpace) =
        items.map String.toList := by
      rw [List.filter_eq_self]
      intro l hl
      obtain ⟨item, hitem, rfl⟩ := List.mem_map.mp hl
      rw [(h item hitem).2.2]
      rfl
    rw [linesToList, String.toList_intercalate, show "\n".toList = ['\n'] from rfl,
      List.splitOn_intercalate '\n' hlines (by simpa using hne), hreturn, hblank, ofList_toList]

theorem linesToList_strings (spell : Json → String) (items : List String) :
    linesToList spell (.arr (items.map .str)) = items := by
  rw [linesToList, List.map_map]
  exact List.map_id'' (fun _ => rfl) items

/-! ## One field -/

/-- the field of a property -/
def fieldOf (path : List String) (prop : Json) : SchemaField :=
  leafField (dotted "" path.dropLast) (path.getLast?.getD "") prop

theorem fieldOf_concat (names : List String) (name : String) (prop : Json) :
    fieldOf (names ++ [name]) prop = leafField (dotted "" names) name prop := by
  rw [fieldOf, List.dropLast_concat, List.getLast?_concat]
  rfl

theorem path_fieldOf {path : List String} (h : path ≠ []) (prop : Json) :
    (fieldOf path prop).path = dotted "" path := by
  obtain ⟨names, name, rfl⟩ := (List.eq_nil_or_concat' path).resolve_left h
  rw [fieldOf_concat, dotted_concat]
  rfl

/-- a type is read as the schema has it, unless it is the one taken where there is none -/
theorem isType_leafField {type : String} (h : type ≠ "" ∧ type ≠ "string") (path key : String)
    (prop : Json) :
    isType (leafField path key prop) type = textIn [type] (prop.get? "type") := by
  have hdefault : textIn [type] (some (.str "string")) = false :=
    decide_eq_false (by simpa using Ne.symm h.2)
  rw [isType, leafField]
  cases prop.get? "type" with
  | none => exact hdefault
  | some t =>
    cases ht : isTruthy t with
    | true =>
      rw [Option.filter_some, if_pos ht]
      rfl
    | false =>
      rw [Option.filter_some, if_neg (by rw [ht]; exact Bool.false_ne_true), Option.getD_none,
        hdefault]
      cases t with
      | str s =>
        have hs : s = "" := by simpa [isTruthy] using ht
        rw [hs]
        exact (decide_eq_false (by simpa using Ne.symm h.1)).symm
      | _ => rfl

theorem isBoolean_fieldOf (path : List String) (prop : Json) :
    isType (fieldOf path prop) "boolean" = true ↔ IsBoolean prop := by
  rw [fieldOf, isType_leafField (by decide), IsBoolean]

theorem isStringList_fieldOf (path : List String) (prop : Json) :
    isStringList (fieldOf path prop) = true ↔ IsStringList prop := by
  rw [isStringList, Bool.and_eq_true, fieldOf, isType_leafField (by decide), IsStringList]
  rfl

/-- a path with two names or more is nested -/
theorem dotted_dropLast {path : List String} (h : PlainPath path) :
    dotted "" path.dropLast = "" ↔ path.length = 1 := by
  obtain ⟨names, name, rfl⟩ := (List.eq_nil_or_concat' path).resolve_left h.1
  rw [List.dropLast_concat, List.length_append, List.length_singleton]
  constructor
  · intro he
    by_cases hne : names = []
    · rw [hne]
      rfl
    · have hplain : PlainPath names :=
        ⟨hne, fun n hn => h.2 n (List.mem_append_left _ hn)⟩
      have hparts := parts_dotted hplain
      rw [he] at hparts
      have hempty := hplain.2 "" (by rw [← hparts]; decide)
      exact absurd rfl hempty.1
  · intro hlen
    rw [List.eq_nil_of_length_eq_zero (by omega : names.length = 0)]
    rfl

theorem runtime_fieldOf {path : List String} (h : PlainPath path) (prop : Json) :
    (fieldOf path prop).runtime = true ↔ IsRuntime path prop := by
  rw [fieldOf, leafField, Bool.and_eq_true, decide_eq_true_eq, dotted_dropLast h, IsRuntime]

theorem isShown_fieldOf {hidden path : List String} (h : path ≠ []) (prop : Json) :
    isShown hidden (fieldOf path prop) = true ↔ Shown hidden path := by
  rw [isShown, path_fieldOf h, Bool.not_eq_true', List.any_eq_false, Shown]
  apply forall₂_congr
  intro hid _
  rw [Bool.or_eq_true, decide_eq_true_eq, not_or, Bool.not_eq_true]

/-- the value that is submitted of the one a field holds -/
def chartValue (spell : Json → String) (field : SchemaField) (value : Json) : Json :=
  if isStringList field then .arr ((linesToList spell value).map .str) else value

/-- **what a field holds of a value it can hold is that value** -/
theorem chartValue_prefill (spell : Json → String) (path : List String) {prop v : Json}
    (h : Editable prop v) :
    (prefill spell (fieldOf path prop) (some v)).map (chartValue spell (fieldOf path prop)) =
      some v := by
  unfold prefill
  dsimp only
  by_cases hlist : isStringList (fieldOf path prop) = true
  · obtain ⟨items, rfl, hlines⟩ := h.lines ((isStringList_fieldOf path prop).mp hlist)
    rw [if_pos hlist, Option.map_some, chartValue, if_pos hlist, linesToList_strings,
      linesToList_join spell hlines]
  · rw [if_neg hlist]
    by_cases hbool : isType (fieldOf path prop) "boolean" = true
    · obtain ⟨b, rfl⟩ := h.boolean ((isBoolean_fieldOf path prop).mp hbool)
      rw [if_pos hbool, Option.map_some, chartValue, if_neg hlist]
      rfl
    · rw [if_neg hbool, Option.map_some, chartValue, if_neg hlist]

/-- a string list is no boolean -/
theorem not_isStringList {prop : Json} (h : IsBoolean prop) : ¬ IsStringList prop := by
  rintro ⟨harray, -⟩
  unfold IsBoolean at h
  cases ht : prop.get? "type" with
  | none =>
    rw [ht] at h
    cases h
  | some t =>
    rw [ht] at h harray
    cases t with
    | str s =>
      have h₁ := of_decide_eq_true h
      have h₂ := of_decide_eq_true harray
      rw [List.mem_singleton] at h₁ h₂
      rw [h₁] at h₂
      exact absurd h₂ (by decide)
    | _ => cases h

theorem chartValue_none (spell : Json → String) (path : List String) (prop : Json) :
    (prefill spell (fieldOf path prop) none).map (chartValue spell (fieldOf path prop)) =
      if isType (fieldOf path prop) "boolean" then some (.bool false) else none := by
  unfold prefill
  dsimp only
  split
  · rename_i hbool
    have hlist : ¬ isStringList (fieldOf path prop) = true := fun hlist =>
      not_isStringList ((isBoolean_fieldOf path prop).mp hbool)
        ((isStringList_fieldOf path prop).mp hlist)
    rw [Option.map_some, chartValue, if_neg hlist]
  · rfl

/-! ## A loop over the fields -/

theorem mem_collect {β : Type} {entry : SchemaField → Option (Option β)}
    {fields : List SchemaField} {acc data : List (String × β)}
    (h : collect entry fields acc = some data) {key : String} {v : β} (hm : (key, v) ∈ data) :
    (key, v) ∈ acc ∨ ∃ field ∈ fields, field.path = key ∧ entry field = some (some v) := by
  induction fields generalizing acc with
  | nil =>
    cases h
    exact .inl hm
  | cons field fields ih =>
    obtain ⟨value, hentry, hrest⟩ := Option.bind_eq_some_iff.mp h
    cases value with
    | none =>
      obtain h | ⟨f, hf, h⟩ := ih hrest
      · exact .inl h
      · exact .inr ⟨f, List.mem_cons_of_mem _ hf, h⟩
    | some value =>
      obtain h | ⟨f, hf, h⟩ := ih hrest
      · obtain he | h := mem_setKey h
        · obtain ⟨hkey, hv⟩ := Prod.mk.inj he
          refine .inr ⟨field, List.mem_cons_self, hkey.symm, ?_⟩
          rw [hentry, hv]
        · exact .inl h
      · exact .inr ⟨f, List.mem_cons_of_mem _ hf, h⟩

theorem key_collect {β : Type} {entry : SchemaField → Option (Option β)}
    {fields : List SchemaField} {acc data : List (String × β)}
    (h : collect entry fields acc = some data) {key : String}
    (hm : key ∈ acc.map Prod.fst ∨
      ∃ field ∈ fields, field.path = key ∧ ∃ v, entry field = some (some v)) :
    key ∈ data.map Prod.fst := by
  induction fields generalizing acc with
  | nil =>
    cases h
    exact hm.resolve_right fun ⟨_, hf, _⟩ => List.not_mem_nil hf
  | cons field fields ih =>
    obtain ⟨value, hentry, hrest⟩ := Option.bind_eq_some_iff.mp h
    cases value with
    | none =>
      have hrest : collect entry fields acc = some data := hrest
      refine ih hrest (hm.imp_right ?_)
      rintro ⟨f, hf, hkey, v, hv⟩
      obtain rfl | hf := List.mem_cons.mp hf
      · rw [hentry] at hv
        cases hv
      · exact ⟨f, hf, hkey, v, hv⟩
    | some value =>
      have hrest : collect entry fields (setKey field.path value acc) = some data := hrest
      refine ih hrest ?_
      rw [mem_map_fst_setKey]
      obtain hm | ⟨f, hf, hkey, v, hv⟩ := hm
      · exact .inl (.inr hm)
      · obtain rfl | hf := List.mem_cons.mp hf
        · exact .inl (.inl hkey.symm)
        · exact .inr ⟨f, hf, hkey, v, hv⟩

theorem nodup_collect {β : Type} {entry : SchemaField → Option (Option β)}
    {fields : List SchemaField} {acc data : List (String × β)}
    (h : collect entry fields acc = some data) (hacc : (acc.map Prod.fst).Nodup) :
    (data.map Prod.fst).Nodup := by
  induction fields generalizing acc with
  | nil =>
    cases h
    exact hacc
  | cons field fields ih =>
    obtain ⟨value, -, hrest⟩ := Option.bind_eq_some_iff.mp h
    cases value with
    | none =>
      have hrest : collect entry fields acc = some data := hrest
      exact ih hrest hacc
    | some value =>
      have hrest : collect entry fields (setKey field.path value acc) = some data := hrest
      exact ih hrest (nodup_setKey hacc)

theorem exists_collect {β : Type} {entry : SchemaField → Option (Option β)}
    {fields : List SchemaField} (acc : List (String × β))
    (h : ∀ field ∈ fields, ∃ value, entry field = some value) :
    ∃ data, collect entry fields acc = some data := by
  induction fields generalizing acc with
  | nil => exact ⟨acc, rfl⟩
  | cons field fields ih =>
    obtain ⟨value, hvalue⟩ := h field List.mem_cons_self
    have hrest := fun f hf => h f (List.mem_cons_of_mem _ hf)
    cases value with
    | none =>
      obtain ⟨data, hdata⟩ := ih acc hrest
      exact ⟨data, by rw [collect, hvalue]; exact hdata⟩
    | some value =>
      obtain ⟨data, hdata⟩ := ih (setKey field.path value acc) hrest
      exact ⟨data, by rw [collect, hvalue]; exact hdata⟩

/-- **what a loop over the fields assigns**, where a path is that of one field -/
theorem lookup_collect {β : Type} {entry : SchemaField → Option (Option β)}
    {fields : List SchemaField} {data : List (String × β)} (h : collect entry fields [] = some data)
    {field : SchemaField} (hf : field ∈ fields)
    (hone : ∀ f ∈ fields, f.path = field.path → f = field) {value : Option β}
    (hv : entry field = some value) : data.lookup field.path = value := by
  have hback : ∀ v, data.lookup field.path = some v → value = some v := by
    intro v hl
    obtain hm | ⟨f, hfm, hpath, he⟩ := mem_collect h (mem_of_lookup hl)
    · cases hm
    · rw [hone f hfm hpath, hv] at he
      exact Option.some.inj he
  cases hl : data.lookup field.path with
  | some v => exact (hback v hl).symm
  | none =>
    cases value with
    | none => rfl
    | some v =>
      exact absurd (key_collect h (.inr ⟨field, hf, rfl, v, hv⟩)) (lookup_eq_none_iff_notMem.mp hl)

/-! ## The entries of a field -/

section entries

variable {spell : Json → String} {field : SchemaField} (hpath : field.path ∉ objectPrototype)
include hpath

theorem currentVar_eq (initialVars : StoredVars) :
    currentVar initialVars field =
      some (if field.runtime && !field.sensitive then (initialVars.lookup field.path).join
        else none) := by
  unfold currentVar
  rw [member_of_lookup hpath]
  split
  · cases initialVars.lookup field.path with
    | none => rfl
    | some value => cases value <;> rfl
  · rfl

theorem initialEntry_eq (initialValues : Fields) (initialVars : StoredVars) :
    initialEntry spell initialValues initialVars field =
      some (match (if field.runtime && !field.sensitive then (initialVars.lookup field.path).join
          else none) with
        | some value =>
          some (if isType field "boolean" then .bool (decide (value = "true")) else .str value)
        | none => prefill spell field ((initialValues.lookup field.path).or field.default)) := by
  unfold initialEntry
  rw [currentVar_eq hpath, member_of_lookup hpath]
  generalize (if field.runtime && !field.sensitive then (initialVars.lookup field.path).join
    else none) = current
  cases current <;> rfl

theorem chartEntry_eq (formData : Fields) :
    chartEntry spell formData field =
      some (if field.runtime then none
        else (formData.lookup field.path).map (chartValue spell field)) := by
  unfold chartEntry
  rw [member_of_lookup hpath]
  split
  · rfl
  · cases formData.lookup field.path <;> rfl

theorem exists_varEntry (formData : Fields) (initialVars : StoredVars) (touched : List String) :
    ∃ value, varEntry spell formData initialVars touched field = some value := by
  unfold varEntry
  rw [member_of_lookup hpath, member_of_lookup hpath]
  split
  · exact ⟨_, rfl⟩
  · split
    · exact ⟨_, rfl⟩
    · simp only [Option.bind_eq_bind, Option.bind_some]
      split <;> exact ⟨_, rfl⟩

/-- the var of a field that holds a value -/
theorem varEntry_eq {formData : Fields} {initialVars : StoredVars} {value : Option String}
    (h : varEntry spell formData initialVars [] field = some value) (hv : value ≠ none) :
    field.runtime = true ∧ field.sensitive = false ∧
      ∀ raw, formData.lookup field.path = some raw → raw.isNull = false →
        value = some (textOf spell raw) := by
  unfold varEntry at h
  rw [member_of_lookup hpath, member_of_lookup hpath] at h
  split at h
  · cases h
    exact absurd rfl hv
  · rename_i hruntime
    split at h
    · cases h
      exact absurd rfl hv
    · rename_i hsensitive
      have hsens : field.sensitive = false := by simpa using hsensitive
      refine ⟨by simpa using hruntime, hsens, ?_⟩
      intro raw hraw hnull
      rw [hraw] at h
      have hfilter : (some raw).filter (fun raw => !raw.isNull) = some raw := by
        rw [Option.filter_some, hnull]
        rfl
      simp only [Option.bind_eq_bind, Option.bind_some, hfilter] at h
      split at h
      · rename_i heq
        cases heq
      · rename_i heq
        cases heq
        cases hcur : (initialVars.lookup field.path).isNone with
        | true =>
          rw [hcur] at h
          cases h
          exact absurd rfl hv
        | false =>
          rw [hcur] at h
          cases h
          rfl
      · rename_i heq
        cases heq
        cases h
        rfl

end entries

/-! ## The form -/

/-- documents whose names a dotted path keeps apart: no stored value has the dotted path of a
property it is not at, and none would be taken for a prototype -/
structure Legible (schema stored : Json) : Prop where
  schemaKeys : uniqueKeys schema = true
  storedKeys : uniqueKeys stored = true
  schemaNames {path : List String} {prop : Json} : leafSchema schema path = some prop →
    PlainPath path
  storedNames {path : List String} {v : Json} : leafAt stored path = some v → path ≠ [] →
    dotted "" path ≠ "__proto__" ∧
      ∀ path' prop, leafSchema schema path' = some prop → dotted "" path = dotted "" path' →
        path = path'

/-- two properties are apart or the same -/
theorem apart_of_ne {schema prop prop' : Json} {path path' : List String}
    (h : leafSchema schema path = some prop) (h' : leafSchema schema path' = some prop')
    (hne : path ≠ path') : Apart path path' := by
  constructor
  · rintro ⟨rest, rfl⟩
    rw [leafSchema_within h h', List.append_nil] at hne
    exact hne rfl
  · rintro ⟨rest, rfl⟩
    rw [leafSchema_within h' h, List.append_nil] at hne
    exact hne rfl

section form

variable {schema stored : Json} (hdocs : Legible schema stored) {spell : Json → String}
  {initialVars : StoredVars}
include hdocs

theorem mem_fields {field : SchemaField} :
    field ∈ flattenSchema "" schema ↔
      ∃ path prop, leafSchema schema path = some prop ∧ field = fieldOf path prop := by
  constructor
  · intro h
    obtain ⟨names, name, prop, hleaf, rfl⟩ := mem_flattenSchema hdocs.schemaKeys h
    exact ⟨names ++ [name], prop, hleaf, (fieldOf_concat names name prop).symm⟩
  · rintro ⟨path, prop, hleaf, rfl⟩
    obtain ⟨names, name, rfl⟩ :=
      (List.eq_nil_or_concat' path).resolve_left (hdocs.schemaNames hleaf).1
    rw [fieldOf_concat]
    exact exists_mem_flattenSchema hleaf

theorem path_mem {field : SchemaField} (h : field ∈ flattenSchema "" schema) :
    ∃ path prop, leafSchema schema path = some prop ∧ field = fieldOf path prop ∧
      PlainPath path ∧ field.path = dotted "" path := by
  obtain ⟨path, prop, hleaf, rfl⟩ := (mem_fields hdocs).mp h
  have hplain := hdocs.schemaNames hleaf
  exact ⟨path, prop, hleaf, rfl, hplain, path_fieldOf hplain.1 prop⟩

theorem notMem_objectPrototype {field : SchemaField} (h : field ∈ flattenSchema "" schema) :
    field.path ∉ objectPrototype := by
  obtain ⟨path, prop, -, -, hplain, hpath⟩ := path_mem hdocs h
  rw [hpath]
  exact dotted_notMem hplain

/-- a path is that of one field -/
theorem field_unique {field field' : SchemaField} (h : field ∈ flattenSchema "" schema)
    (h' : field' ∈ flattenSchema "" schema) (he : field.path = field'.path) : field = field' := by
  obtain ⟨path, prop, hleaf, rfl, hplain, hpath⟩ := path_mem hdocs h
  obtain ⟨path', prop', hleaf', rfl, hplain', hpath'⟩ := path_mem hdocs h'
  rw [hpath, hpath'] at he
  cases dotted_inj hplain hplain' he
  cases hleaf.symm.trans hleaf'
  rfl

/-- what the form holds at first -/
theorem exists_initialData (spell : Json → String) (initialVars : StoredVars) :
    ∃ formData, initialData spell (flattenSchema "" schema) (flattenValues stored) initialVars =
        some formData ∧
      ∀ field ∈ flattenSchema "" schema,
        initialEntry spell (flattenValues stored) initialVars field =
          some (formData.lookup field.path) := by
  have hentry : ∀ field ∈ flattenSchema "" schema, ∃ value,
      initialEntry spell (flattenValues stored) initialVars field = some value :=
    fun field hf => ⟨_, initialEntry_eq (notMem_objectPrototype hdocs hf) _ _⟩
  obtain ⟨formData, hdata⟩ := exists_collect [] hentry
  refine ⟨formData, hdata, ?_⟩
  intro field hf
  obtain ⟨value, hvalue⟩ := hentry field hf
  rw [lookup_collect hdata hf (fun f hfm hp => field_unique hdocs hfm hf hp) hvalue]
  exact hvalue

/-- what the shown fields, or all of them, submit -/
theorem exists_split (spell : Json → String) (initialVars : StoredVars) (formData : Fields)
    {fields : List SchemaField}
    (hsub : ∀ field ∈ fields, field ∈ flattenSchema "" schema) :
    ∃ split, splitSubmission spell fields formData initialVars [] = some split ∧
      collect (chartEntry spell formData) fields [] = some split.chartData ∧
      collect (varEntry spell formData initialVars []) fields [] = some split.vars := by
  have hchart : ∀ field ∈ fields, ∃ value, chartEntry spell formData field = some value :=
    fun field hf => ⟨_, chartEntry_eq (notMem_objectPrototype hdocs (hsub field hf)) formData⟩
  have hvars : ∀ field ∈ fields, ∃ value,
      varEntry spell formData initialVars [] field = some value :=
    fun field hf => exists_varEntry (notMem_objectPrototype hdocs (hsub field hf)) formData
      initialVars []
  obtain ⟨chartData, hchart⟩ := exists_collect [] hchart
  obtain ⟨vars, hvars⟩ := exists_collect [] hvars
  refine ⟨⟨chartData, vars⟩, ?_, hchart, hvars⟩
  unfold splitSubmission
  rw [hchart, Option.bind_eq_bind, Option.bind_some, hvars]
  rfl

/-- **the chart data of some fields as one document** -/
theorem exists_unflatten {formData chartData : Fields} {fields : List SchemaField}
    (hsub : ∀ field ∈ fields, field ∈ flattenSchema "" schema)
    (h : collect (chartEntry spell formData) fields [] = some chartData) :
    ∃ values, unflatten chartData = some values ∧
      (∀ path prop, leafSchema schema path = some prop →
        valueAt (.obj values) path = chartData.lookup (dotted "" path)) ∧
      ∀ path v, leafAt (.obj values) path = some v → ∃ field ∈ fields, field.runtime = false ∧
        ∃ path' prop, leafSchema schema path' = some prop ∧ field = fieldOf path' prop ∧
          path' <+: path := by
  have hkeys : ∀ e ∈ chartData, ∃ field ∈ fields, field.runtime = false ∧
      ∃ path prop, leafSchema schema path = some prop ∧ field = fieldOf path prop ∧
        PlainPath path ∧ e.1 = dotted "" path ∧ parts e.1 = path := by
    rintro ⟨key, v⟩ he
    obtain he | ⟨field, hf, hkey, hentry⟩ := mem_collect h he
    · cases he
    · obtain ⟨path, prop, hleaf, hfield, hplain, hpath⟩ := path_mem hdocs (hsub field hf)
      refine ⟨field, hf, ?_, path, prop, hleaf, hfield, hplain, hkey.symm.trans hpath, ?_⟩
      · rw [chartEntry_eq (notMem_objectPrototype hdocs (hsub field hf))] at hentry
        cases hruntime : field.runtime with
        | false => rfl
        | true =>
          rw [hruntime] at hentry
          cases hentry
      · rw [show key = dotted "" path from hkey.symm.trans hpath, parts_dotted hplain]
  have hnodup := nodup_collect h List.nodup_nil
  have hpair : chartData.Pairwise fun e e' => Apart (parts e.1) (parts e'.1) := by
    refine (List.pairwise_map.mp hnodup).imp_of_mem ?_
    intro e e' he he' hne
    obtain ⟨-, -, -, path, prop, hleaf, -, -, hkey, hparts⟩ := hkeys e he
    obtain ⟨-, -, -, path', prop', hleaf', -, -, hkey', hparts'⟩ := hkeys e' he'
    rw [hparts, hparts']
    apply apart_of_ne hleaf hleaf'
    rintro rfl
    exact hne (hkey.trans hkey'.symm)
  obtain ⟨values, hvalues, done, hdone, hholds⟩ := unflatten_holds
    (fun e he => by
      obtain ⟨-, -, -, path, -, -, -, hplain, -, hparts⟩ := hkeys e he
      rw [hparts]
      exact hplain) hpair
  refine ⟨values, hvalues, ?_, ?_⟩
  · intro path prop hleaf
    have hplain := hdocs.schemaNames hleaf
    cases hl : chartData.lookup (dotted "" path) with
    | some v =>
      have hmem : (path, v) ∈ done :=
        (hdone _).mpr ⟨_, mem_of_lookup hl, by rw [parts_dotted hplain]⟩
      have hheld := hholds.held hmem []
      rw [List.append_nil] at hheld
      exact hheld
    | none =>
      apply hholds.other hplain.1
      intro e he
      obtain ⟨e', he', rfl⟩ := (hdone e).mp he
      obtain ⟨-, -, -, path', prop', hleaf', -, -, hkey, hparts⟩ := hkeys e' he'
      change ¬ parts e'.1 <+: path ∧ ¬ path <+: parts e'.1
      rw [hparts]
      apply apart_of_ne hleaf' hleaf
      rintro rfl
      rw [← hkey] at hl
      exact lookup_eq_none_iff_notMem.mp hl (List.mem_map_of_mem he')
  · intro path v hv
    obtain ⟨hat, hobj⟩ := leafAt_some.mp hv
    have hne : path ≠ [] := by
      rintro rfl
      cases hat
      cases hobj
    by_cases hall : ∀ e ∈ done, ¬ e.1 <+: path ∧ ¬ path <+: e.1
    · rw [hholds.other hne hall] at hat
      cases hat
    · push Not at hall
      obtain ⟨e, he, hcase⟩ := hall
      have hwithin : e.1 <+: path := by
        by_contra hnot
        obtain ⟨rest, hrest⟩ := hcase hnot
        have hrne : rest ≠ [] := by
          rintro rfl
          rw [List.append_nil] at hrest
          exact hnot ⟨[], by rw [List.append_nil, hrest]⟩
        obtain ⟨inner, hinner⟩ := hholds.between he hrest.symm hrne
        cases hinner.symm.trans hat
        cases hobj
      obtain ⟨e', he', rfl⟩ := (hdone e).mp he
      obtain ⟨field, hf, hruntime, path', prop, hleaf, hfield, -, -, hparts⟩ := hkeys e' he'
      refine ⟨field, hf, hruntime, path', prop, hleaf, hfield, ?_⟩
      rw [← hparts]
      exact hwithin

/-- what a chart property adds to the chart data is what is expected of it -/
theorem chartEntry_expected {formData : Fields} {path : List String} {prop : Json}
    {v : Option Json} (hleaf : leafSchema schema path = some prop) (hchart : ¬ IsRuntime path prop)
    (hentry : initialEntry spell (flattenValues stored) initialVars (fieldOf path prop) =
      some (formData.lookup (fieldOf path prop).path))
    (h : Expected stored path prop v) :
    chartEntry spell formData (fieldOf path prop) = some v := by
  have hplain := hdocs.schemaNames hleaf
  have hproto := notMem_objectPrototype hdocs ((mem_fields hdocs).mpr ⟨path, prop, hleaf, rfl⟩)
  have hruntime : (fieldOf path prop).runtime = false := by
    rw [← Bool.not_eq_true, runtime_fieldOf hplain]
    exact hchart
  rw [initialEntry_eq hproto, hruntime, Bool.false_and] at hentry
  rw [chartEntry_eq hproto, hruntime, ← Option.some.inj hentry]
  have hlookup : (flattenValues stored).lookup (fieldOf path prop).path = leafAt stored path := by
    rw [path_fieldOf hplain.1]
    exact lookup_flattenValues hdocs.storedKeys hplain.1 fun _ _ hv hne =>
      (hdocs.storedNames hv hne).2 _ _ hleaf
  have hdefault : (fieldOf path prop).default = prop.get? "default" := rfl
  have hnone : valueAt stored path = none → leafAt stored path = none := by
    intro hv
    rw [leafAt, hv]
    rfl
  rw [if_neg Bool.false_ne_true, if_neg Bool.false_ne_true, hlookup, hdefault]
  congr 1
  cases h with
  | stored h he =>
    rw [h, Option.some_or]
    exact chartValue_prefill spell path he
  | default h hd he =>
    rw [hnone h, Option.none_or, hd]
    exact chartValue_prefill spell path he
  | unchecked h hd hb =>
    rw [hnone h, Option.none_or, hd]
    rw [chartValue_none, if_pos ((isBoolean_fieldOf path prop).mpr hb)]
  | absent h hd hb =>
    rw [hnone h, Option.none_or, hd]
    rw [chartValue_none, if_neg fun hbool => hb ((isBoolean_fieldOf path prop).mp hbool)]

/-- a var that is submitted is one that is read back, with the value that is stored -/
theorem varEntry_stored {formData : Fields} {path : List String} {prop : Json} {value : String}
    (hleaf : leafSchema schema path = some prop)
    (hentry : initialEntry spell (flattenValues stored) initialVars (fieldOf path prop) =
      some (formData.lookup (fieldOf path prop).path))
    (h : varEntry spell formData initialVars [] (fieldOf path prop) = some (some value)) :
    IsRuntime path prop ∧ (∀ b, prop.get? sensitiveKey = some (.bool b) → b = false) ∧
      ∀ v, initialVars.lookup (dotted "" path) = some (some v) →
        (IsBoolean prop → v = "true" ∨ v = "false") → value = v := by
  have hplain := hdocs.schemaNames hleaf
  have hproto := notMem_objectPrototype hdocs ((mem_fields hdocs).mpr ⟨path, prop, hleaf, rfl⟩)
  obtain ⟨hruntime, hsensitive, hraw⟩ := varEntry_eq hproto h (by simp)
  refine ⟨(runtime_fieldOf hplain prop).mp hruntime, ?_, ?_⟩
  · intro b hb
    have hfield : (fieldOf path prop).sensitive = ((fieldOf path prop).runtime && b) := by
      rw [fieldOf, leafField, hb]
    rw [hruntime, Bool.true_and, hsensitive] at hfield
    exact hfield.symm
  · intro v hv hbool
    rw [initialEntry_eq hproto, hruntime, hsensitive, path_fieldOf hplain.1, hv] at hentry
    have hdata := (Option.some.inj hentry).symm
    rw [← path_fieldOf hplain.1 prop] at hdata
    change List.lookup _ formData = some (if _ then _ else _) at hdata
    by_cases hb : isType (fieldOf path prop) "boolean" = true
    · rw [if_pos hb] at hdata
      have hvalue := Option.some.inj (hraw _ hdata rfl)
      obtain rfl | rfl := hbool ((isBoolean_fieldOf path prop).mp hb)
      · exact hvalue
      · exact hvalue
    · rw [if_neg hb] at hdata
      exact Option.some.inj (hraw _ hdata rfl)

end form

/-- **an untouched form keeps what is stored**, for a schema and a document whose names a dotted
path keeps apart: each shown property is submitted with its stored value, its default or `false`,
where its field can hold that, nothing else is submitted, and no var is given another value -/
theorem untouched_kept (spell : Json → String)
    (conditionals : Fields → List (String × String) → List String) (schema stored : Json)
    (initialVars : StoredVars) (hdocs : Legible schema stored) :
    ∃ s, submission spell conditionals schema stored initialVars = some s ∧
      (∀ path prop, ChartProperty schema s.hidden path prop →
        ∀ v, Expected stored path prop v → Submitted s.userValues path v) ∧
      (∀ values, s.userValues = some values → ∀ path v, leafAt (.obj values) path = some v →
        ∃ path' prop, ChartProperty schema s.hidden path' prop ∧ path' <+: path) ∧
      ∀ key value, (key, value) ∈ s.vars → ∃ prop, VarProperty schema s.hidden key prop ∧
        ∀ v, initialVars.lookup key = some (some v) →
          (IsBoolean prop → v = "true" ∨ v = "false") → value = v := by
  obtain ⟨formData, hdata, hentry⟩ := exists_initialData hdocs spell initialVars
  obtain ⟨whole, hwhole, hwholeChart, -⟩ :=
    exists_split hdocs spell initialVars formData fun _ hf => hf
  obtain ⟨document, hdocument, -, -⟩ := exists_unflatten hdocs (fun _ hf => hf) hwholeChart
  obtain ⟨hidden, hhidden⟩ : ∃ hidden, conditionals document whole.vars = hidden := ⟨_, rfl⟩
  have hsub : ∀ field ∈ (flattenSchema "" schema).filter (isShown hidden),
      field ∈ flattenSchema "" schema := fun _ hf => List.mem_of_mem_filter hf
  obtain ⟨shown, hshown, hchart, hvars⟩ := exists_split hdocs spell initialVars formData hsub
  obtain ⟨values, hvalues, hat, hwithin⟩ := exists_unflatten hdocs hsub hchart
  -- the chart data has what is expected at the path of each shown chart property
  have hexpected : ∀ path prop, ChartProperty schema hidden path prop → ∀ v,
      Expected stored path prop v → shown.chartData.lookup (dotted "" path) = v := by
    intro path prop hprop v hv
    have hmem := (mem_fields hdocs).mpr ⟨path, prop, hprop.leaf, rfl⟩
    have hne := (hdocs.schemaNames hprop.leaf).1
    rw [← path_fieldOf hne prop]
    apply lookup_collect hchart
      (List.mem_filter.mpr ⟨hmem, (isShown_fieldOf hne prop).mpr hprop.shown⟩)
    · exact fun f hf hpath => field_unique hdocs (hsub f hf) hmem hpath
    · exact chartEntry_expected hdocs hprop.leaf hprop.chart (hentry _ hmem) hv
  have hvar : ∀ key value, (key, value) ∈ shown.vars → ∃ prop, VarProperty schema hidden key prop ∧
      ∀ v, initialVars.lookup key = some (some v) →
        (IsBoolean prop → v = "true" ∨ v = "false") → value = v := by
    intro key value hmem
    obtain hmem | ⟨field, hf, hkey, hvalue⟩ := mem_collect hvars hmem
    · cases hmem
    · obtain ⟨path, prop, hleaf, rfl, hplain, hpath⟩ := path_mem hdocs (hsub field hf)
      have hshow := (isShown_fieldOf hplain.1 prop).mp (List.mem_filter.mp hf).2
      obtain ⟨hruntime, hreadable, hstored⟩ :=
        varEntry_stored hdocs hleaf (hentry _ (hsub _ hf)) hvalue
      obtain ⟨name, rfl⟩ := List.length_eq_one_iff.mp hruntime.1
      have hname : key = name := by
        rw [← hkey, hpath]
        rfl
      rw [hname]
      exact ⟨prop, ⟨hleaf, hruntime, hreadable, hshow⟩, hstored⟩
  unfold submission
  simp only [hdata, hwhole, hdocument, hhidden, hshown, hvalues, Option.bind_eq_bind,
    Option.bind_some]
  split
  · rename_i hempty
    refine ⟨_, rfl, ?_, fun _ h => (nomatch h), fun _ _ h => (nomatch h)⟩
    intro path prop hprop
    have hmem := (mem_fields hdocs).mpr ⟨path, prop, hprop.leaf, rfl⟩
    rw [List.isEmpty_iff.mp hempty] at hmem
    cases hmem
  · split
    · refine ⟨_, rfl, ?_, ?_, hvar⟩
      · intro path prop hprop v hv
        exact (hat path prop hprop.leaf).trans (hexpected path prop hprop v hv)
      · intro values' hv' path v hv
        cases hv'
        obtain ⟨field, hf, hruntime, path', prop, hleaf, rfl, hpre⟩ := hwithin path v hv
        have hplain := hdocs.schemaNames hleaf
        refine ⟨path', prop, ⟨hleaf, ?_, ?_⟩, hpre⟩
        · rw [← runtime_fieldOf hplain, hruntime]
          exact Bool.false_ne_true
        · exact (isShown_fieldOf hplain.1 prop).mp (List.mem_filter.mp hf).2
    · rename_i hnone
      refine ⟨_, rfl, ?_, fun _ h => (nomatch h), hvar⟩
      intro path prop hprop v hv x hx
      have hlookup := hexpected path prop hprop v hv
      rw [hx] at hlookup
      rw [← Bool.not_eq_true]
      intro hvalue
      exact hnone (List.any_eq_true.mpr ⟨_, mem_of_lookup hlookup, hvalue⟩)

/-- a var, a string, a list of strings, a number with a default, and a check box in an object -/
def plainSchema : Json :=
  .obj [("additionalProperties", .bool false),
    ("properties", .obj
      [("GREETING", .obj [("type", .str "string"), (targetKey, .str "runtime")]),
        ("name", .obj [("type", .str "string")]),
        ("paths", .obj [("type", .str "array"), ("items", .obj [("type", .str "string")])]),
        ("replicas", .obj [("type", .str "integer"), ("default", .num 1 0)]),
        ("auth", .obj [("properties", .obj [("enabled", .obj [("type", .str "boolean")])])])])]

/-- a stored name with a dot is that of no property here -/
def plainStored : Json :=
  .obj [("name", .str "x"), ("paths", .arr [.str "/a", .str "/b c"]), ("a.b", .num 1 0)]

def plainVars : StoredVars := [("GREETING", some "hello")]

/-- the paths of its properties, and those at which the document holds a value -/
def plainPaths : List (List String) :=
  [["GREETING"], ["name"], ["paths"], ["replicas"], ["auth", "enabled"]]

def plainLeaves : List (List String) := [["name"], ["paths"], ["a.b"]]

theorem leafSchema_plainSchema {path : List String} {prop : Json}
    (h : leafSchema plainSchema path = some prop) : path ∈ plainPaths := by
  cases path with
  | nil => cases h
  | cons name path =>
    obtain ⟨properties, inner, hp, hl, -, hcase⟩ := leafSchema_some h
    cases hp
    have hmem := mem_of_lookup hl
    simp only [List.mem_cons, Prod.mk.injEq, List.not_mem_nil, or_false] at hmem
    obtain ⟨rfl, rfl⟩ | ⟨rfl, rfl⟩ | ⟨rfl, rfl⟩ | ⟨rfl, rfl⟩ | ⟨rfl, rfl⟩ := hmem
    -- the last one is an object, and the path goes on into it
    on_goal 5 =>
      rw [if_pos (by decide)] at hcase
      cases path with
      | nil => cases hcase
      | cons name path =>
        obtain ⟨properties, inner, hp, hl, -, hcase⟩ := leafSchema_some hcase
        cases hp
        have hmem := mem_of_lookup hl
        simp only [List.mem_cons, Prod.mk.injEq, List.not_mem_nil, or_false] at hmem
        obtain ⟨rfl, rfl⟩ := hmem
        rw [if_neg (by decide)] at hcase
        rw [hcase.1]
        decide
    all_goals
      rw [if_neg (by decide)] at hcase
      rw [hcase.1]
      decide

theorem leafAt_plainStored {path : List String} {v : Json} (h : leafAt plainStored path = some v)
    (hne : path ≠ []) : path ∈ plainLeaves := by
  cases path with
  | nil => exact absurd rfl hne
  | cons name path =>
    rw [leafAt_cons] at h
    obtain ⟨inner, hl, hleaf⟩ := Option.bind_eq_some_iff.mp h
    have hmem := mem_of_lookup hl
    simp only [List.mem_cons, Prod.mk.injEq, List.not_mem_nil, or_false] at hmem
    obtain ⟨rfl, rfl⟩ | ⟨rfl, rfl⟩ | ⟨rfl, rfl⟩ := hmem
    all_goals
      cases path with
      | nil => decide
      | cons => cases hleaf

theorem legible_plain : Legible plainSchema plainStored where
  schemaKeys := by rfl
  storedKeys := by rfl
  schemaNames h := by
    have hplain : ∀ path ∈ plainPaths, PlainPath path := by
      unfold PlainPath PlainName
      decide
    exact hplain _ (leafSchema_plainSchema h)
  storedNames h hne := by
    have hstored : ∀ path ∈ plainLeaves, dotted "" path ≠ "__proto__" ∧
        ∀ path' ∈ plainPaths, dotted "" path = dotted "" path' → path = path' := by
      decide
    obtain ⟨hproto, hown⟩ := hstored _ (leafAt_plainStored h hne)
    exact ⟨hproto, fun _ _ hleaf => hown _ (leafSchema_plainSchema hleaf)⟩

/-- what is stored is kept, a default is added, a check box there is no value for is `false`, and
the var keeps its value -/
theorem untouched_kept_sample :
    ∃ s, submission (fun _ => "") (fun _ _ => []) plainSchema plainStored plainVars = some s ∧
      Submitted s.userValues ["name"] (some (.str "x")) ∧
      Submitted s.userValues ["paths"] (some (.arr [.str "/a", .str "/b c"])) ∧
      Submitted s.userValues ["replicas"] (some (.num 1 0)) ∧
      Submitted s.userValues ["auth", "enabled"] (some (.bool false)) ∧
      (s.vars ≠ [] ∧ ∀ value, ("GREETING", value) ∈ s.vars → value = "hello") := by
  obtain ⟨s, hs, hkept, -, hvars⟩ :=
    untouched_kept (fun _ => "") (fun _ _ => []) plainSchema plainStored plainVars legible_plain
  have hrun : submission (fun _ => "") (fun _ _ => []) plainSchema plainStored plainVars =
      some ⟨[], some [("name", .str "x"), ("paths", .arr [.str "/a", .str "/b c"]),
        ("replicas", .num 1 0), ("auth", .obj [("enabled", .bool false)])],
        [("GREETING", "hello")]⟩ := by
    rfl
  have hhidden : s.hidden = [] ∧ s.vars = [("GREETING", "hello")] := by
    rw [hrun] at hs
    cases hs
    exact ⟨rfl, rfl⟩
  have hshown : ∀ path, Shown s.hidden path := by
    intro path h hmem
    rw [hhidden.1] at hmem
    cases hmem
  refine ⟨s, hs, hkept ["name"] _ ⟨rfl, ?_, hshown _⟩ _ (.stored rfl ⟨?_, ?_⟩),
    hkept ["paths"] _ ⟨rfl, ?_, hshown _⟩ _ (.stored rfl ⟨?_, fun _ => ⟨["/a", "/b c"], rfl, ?_⟩⟩),
    hkept ["replicas"] _ ⟨rfl, ?_, hshown _⟩ _ (.default rfl rfl ⟨?_, ?_⟩),
    hkept ["auth", "enabled"] _ ⟨rfl, ?_, hshown _⟩ _ (.unchecked rfl rfl rfl), ?_, ?_⟩
  · exact fun h => absurd h.2 (by decide)
  · exact fun h => absurd h (by unfold IsBoolean; decide)
  · exact fun h => absurd h.1 (by decide)
  · exact fun h => absurd h.2 (by decide)
  · exact fun h => absurd h (by unfold IsBoolean; decide)
  · unfold IsLine
    decide
  · exact fun h => absurd h.2 (by decide)
  · exact fun h => absurd h (by unfold IsBoolean; decide)
  · exact fun h => absurd h.1 (by decide)
  · exact fun h => absurd h.1 (by decide)
  · rw [hhidden.2]
    exact List.cons_ne_nil _ _
  · intro value hvalue
    obtain ⟨prop, hprop, hstored⟩ := hvars _ _ hvalue
    refine hstored "hello" rfl ?_
    cases hprop.leaf
    exact fun h => absurd h (by unfold IsBoolean; decide)

/-- a map, a string and a list of strings -/
def sampleSchema : Json :=
  .obj [("type", .str "object"), ("additionalProperties", .bool false),
    ("properties", .obj
      [("env", .obj [("type", .str "object"),
          ("additionalProperties", .obj [("type", .str "string")])]),
        ("name", .obj [("type", .str "string")]),
        ("paths", .obj [("type", .str "array"), ("items", .obj [("type", .str "string")])])])]

def sampleStored : Json :=
  .obj [("env", .obj [("A", .str "1")]), ("name", .str "x"), ("paths", .arr [.str "a", .str ""])]

/-- the map is dropped, and so is the blank item of the list -/
theorem untouched_drops :
    checkVarMarkers sampleSchema = .ok () ∧
    sampleSchema.get? "additionalProperties" = some (.bool false) ∧
    leafAt sampleStored ["env", "A"] = some (.str "1") ∧
    valueAt sampleStored ["paths"] = some (.arr [.str "a", .str ""]) ∧
    ∃ values, submission (fun _ => "") (fun _ _ => []) sampleSchema sampleStored [] =
        some ⟨[], some values, []⟩ ∧
      valueAt (.obj values) ["env"] = none ∧
      valueAt (.obj values) ["paths"] = some (.arr [.str "a"]) :=
  ⟨rfl, rfl, rfl, rfl, [("name", .str "x"), ("paths", .arr [.str "a"])], rfl, rfl, rfl⟩

end Freepod.ValuesForm
