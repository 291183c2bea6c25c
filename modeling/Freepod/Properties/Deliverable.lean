import Freepod.Properties.Halves
import Freepod.Properties.VarChecks

/-!
# Whether accepted vars can be delivered

A pod receives each var as an environment variable, its text exactly as stored.  The patterns that
names and numbers are matched with end in `$`, which also matches before a line break at the end.

* `pattern_iff`: a text is of the pattern when it matches and ends in no line break.
* `vars_deliverable`: exactly when an accepted write leaves names and literals alone.
* `vars_undeliverable`: a name and a number that end in a line break are accepted.
-/

namespace Freepod
open Base

/-! ## Lines -/

/-- the text ends in a line break -/
def EndsLine (s : String) : Prop := s.toList.getLast? = some '\n'

instance (s : String) : Decidable (EndsLine s) :=
  inferInstanceAs (Decidable (s.toList.getLast? = some '\n'))

variable {pattern : List Char → Bool} {s : String} {l : List Char}

/-- **a text is of the pattern when it matches and ends in no line break** -/
theorem pattern_iff (hpattern : ∀ l, pattern l = true → '\n' ∉ l) :
    pattern s.toList = true ↔ matchesLine pattern s = true ∧ ¬ EndsLine s := by
  have hdrop : ¬ EndsLine s → dropNewline s.toList = s.toList := fun h => if_neg h
  constructor
  · intro h
    have hends : ¬ EndsLine s := fun hends =>
      hpattern _ h (List.mem_of_mem_getLast? (Option.mem_def.mpr hends))
    refine ⟨?_, hends⟩
    rw [matchesLine, hdrop hends]
    exact h
  · intro ⟨h, hends⟩
    rw [matchesLine, hdrop hends] at h
    exact h

theorem notMem_of_all {p : Char → Bool} (hp : p '\n' = false) (h : l.all p = true) : '\n' ∉ l := by
  intro hmem
  have hnewline := List.all_eq_true.mp h '\n' hmem
  rw [hp] at hnewline
  cases hnewline

theorem notMem_dropSign (h : '\n' ∉ dropSign l) : '\n' ∉ l := by
  cases l with
  | nil => exact h
  | cons c l =>
    rw [dropSign] at h
    split at h
    · rename_i hsign
      rw [List.mem_cons, not_or]
      refine ⟨?_, h⟩
      rintro rfl
      revert hsign
      decide
    · exact h

theorem namePattern_line (h : namePattern l = true) : '\n' ∉ l := by
  cases l with
  | nil => exact List.not_mem_nil
  | cons c l =>
    simp only [namePattern, Bool.and_eq_true] at h
    obtain ⟨⟨hfirst, hrest⟩, -⟩ := h
    rw [List.mem_cons, not_or]
    refine ⟨?_, notMem_of_all (by decide) hrest⟩
    rintro rfl
    revert hfirst
    decide

theorem digitsPattern_line (h : digitsPattern l = true) : '\n' ∉ l := by
  rw [digitsPattern, Bool.and_eq_true] at h
  exact notMem_of_all (by decide) h.2

theorem integerPattern_line (h : integerPattern l = true) : '\n' ∉ l :=
  notMem_dropSign (digitsPattern_line h)

theorem exponentPattern_line (h : exponentPattern l = true) : '\n' ∉ l := by
  cases l with
  | nil => exact List.not_mem_nil
  | cons c l =>
    rw [exponentPattern, Bool.and_eq_true] at h
    rw [List.mem_cons, not_or]
    refine ⟨?_, integerPattern_line h.2⟩
    rintro rfl
    exact absurd h.1 (by decide)

/-- a line break is neither among the digits at the start nor after them -/
theorem notMem_of_digits (h : '\n' ∉ l.dropWhile isDigit) : '\n' ∉ l := by
  intro hmem
  rw [← List.takeWhile_append_dropWhile (p := isDigit) (l := l), List.mem_append] at hmem
  rcases hmem with hdigits | hrest
  · exact absurd (List.mem_takeWhile_imp hdigits) (by decide)
  · exact h hrest

theorem numberPattern_line (h : numberPattern l = true) : '\n' ∉ l := by
  refine notMem_dropSign (notMem_of_digits ?_)
  unfold numberPattern at h
  cases hrest : (dropSign l).dropWhile isDigit with
  | nil => exact List.not_mem_nil
  | cons c rest =>
    by_cases hdot : c = '.'
    · subst hdot
      simp only [hrest, Bool.and_eq_true] at h
      rw [List.mem_cons, not_or]
      exact ⟨by decide, notMem_of_digits (exponentPattern_line h.2)⟩
    · have hexponent : exponentPattern (c :: rest) = true := by
        simp only [hrest] at h
        split at h
        · rename_i heq
          exact absurd (List.cons.inj heq).1 hdot
        · rw [Bool.and_eq_true] at h
          exact h.2
      exact exponentPattern_line hexponent

/-! ## Names and literals -/

def numericTypes : List String := ["integer", "number", "boolean"]

/-- a complete literal of the type -/
def Literal (type text : String) : Prop :=
  (type = "integer" → integerPattern text.toList = true) ∧
    (type = "number" → numberPattern text.toList = true) ∧
    (type = "boolean" → text = "true" ∨ text = "false")

/-- the property declares this type -/
def DeclaresType (prop : Json) (type : String) : Prop :=
  prop.get? "type" = some (.str type) ∧ type ∈ numericTypes

/-- `_coerce_var` takes the text for a value of the declared type -/
def Coerces (prop : Json) (text : String) : Prop :=
  coerceVar text (some prop) ≠ .ok (.json (.str text))

variable {prop : Json} {type text k : String}

theorem coerceVar_eq (h : prop.get? "type" = some (.str type)) : coerceVar text (some prop) =
    coerceVar text (some (.obj [("type", .str type)])) := by
  unfold coerceVar
  rw [Option.bind_some, Option.bind_some, h]
  rfl

theorem coerces_boolean :
    Coerces (.obj [("type", .str "boolean")]) text ↔ text = "true" ∨ text = "false" := by
  show ¬ (if text = "true" then _ else if text = "false" then _ else _) = _ ↔ _
  by_cases htrue : text = "true"
  · rw [if_pos htrue]
    exact ⟨fun _ => .inl htrue, fun _ h => by cases h⟩
  · by_cases hfalse : text = "false"
    · rw [if_neg htrue, if_pos hfalse]
      exact ⟨fun _ => .inr hfalse, fun _ h => by cases h⟩
    · rw [if_neg htrue, if_neg hfalse]
      exact ⟨fun h => absurd rfl h, fun h => absurd h (by simp [htrue, hfalse])⟩

theorem coerces_integer :
    Coerces (.obj [("type", .str "integer")]) text ↔ matchesLine integerPattern text = true := by
  show ¬ (if matchesLine integerPattern text = true then _ else _) = _ ↔ _
  by_cases hmatch : matchesLine integerPattern text = true
  · rw [if_pos hmatch]
    refine ⟨fun _ => hmatch, fun _ h => ?_⟩
    split at h
    · cases h
    · cases h
  · rw [if_neg hmatch]
    exact ⟨fun h => absurd rfl h, fun h => absurd h hmatch⟩

theorem coerces_number :
    Coerces (.obj [("type", .str "number")]) text ↔ matchesLine numberPattern text = true := by
  show ¬ (if matchesLine numberPattern text = true then _ else _) = _ ↔ _
  by_cases hmatch : matchesLine numberPattern text = true
  · rw [if_pos hmatch]
    exact ⟨fun _ => hmatch, fun _ h => by cases h⟩
  · rw [if_neg hmatch]
    exact ⟨fun h => absurd rfl h, fun h => absurd h hmatch⟩

/-- **a text is a literal when it coerces and ends in no line break** -/
theorem literal_iff (h : DeclaresType prop type) :
    Literal type text ↔ Coerces prop text ∧ ¬ EndsLine text := by
  obtain ⟨htype, hmem⟩ := h
  rw [Coerces, coerceVar_eq htype]
  simp only [numericTypes, List.mem_cons, List.not_mem_nil, or_false] at hmem
  rcases hmem with rfl | rfl | rfl
  · have hcoerces : Coerces (.obj [("type", .str "integer")]) text ↔
        matchesLine integerPattern text = true := coerces_integer
    rw [Coerces] at hcoerces
    rw [hcoerces, ← pattern_iff fun l => integerPattern_line]
    exact ⟨fun h => h.1 rfl, fun h => ⟨fun _ => h, fun he => absurd he (by decide),
      fun he => absurd he (by decide)⟩⟩
  · have hcoerces : Coerces (.obj [("type", .str "number")]) text ↔
        matchesLine numberPattern text = true := coerces_number
    rw [Coerces] at hcoerces
    rw [hcoerces, ← pattern_iff fun l => numberPattern_line]
    exact ⟨fun h => h.2.1 rfl, fun h => ⟨fun he => absurd he (by decide), fun _ => h,
      fun he => absurd he (by decide)⟩⟩
  · have hcoerces : Coerces (.obj [("type", .str "boolean")]) text ↔
        text = "true" ∨ text = "false" := coerces_boolean
    rw [Coerces] at hcoerces
    rw [hcoerces]
    constructor
    · intro h
      have hwords := h.2.2 rfl
      refine ⟨hwords, ?_⟩
      rcases hwords with rfl | rfl
      · decide
      · decide
    · intro h
      exact ⟨fun he => absurd he (by decide), fun he => absurd he (by decide), fun _ => h.1⟩

/-! ## What `jsonschema` is relied on for -/

/-- `jsonschema` refuses a string where a property declares a number or a boolean; a `$ref` may hide
the keywords beside it -/
def Jsonschema.AssertsTypes (js : Jsonschema) : Prop :=
  ∀ fields schema properties k prop text type, js.validate (.dict fields) schema = .ok () →
    schema.get? "$ref" = none → schema.get? "properties" = some (.obj properties) →
    properties.lookup k = some prop → prop.get? "$ref" = none → DeclaresType prop type →
    fields.lookup k ≠ some (.json (.str text))

/-- whether a `$ref` may hide the type of a property: one beside it, or, for a chart property, one
beside the properties -/
def Unjudged (schema prop : Json) : Prop :=
  prop.get? "$ref" ≠ none ∨ targetsRuntime prop = false ∧ schema.get? "$ref" ≠ none

theorem get?_withoutTarget {key : String} (h : key ≠ targetKey) :
    (withoutTarget prop).get? key = prop.get? key := by
  cases prop with
  | obj fields =>
    show (fields.filter fun field => decide (field.1 ≠ targetKey)).lookup key = fields.lookup key
    rw [lookup_filter_key (p := fun key => decide (key ≠ targetKey)), if_pos (decide_eq_true h)]
  | _ => rfl

variable {js : Jsonschema} {schema : Document} {texts : List (String × String)} {userValues : Json}

/-- a keyword that is kept of the schema for the whole document -/
theorem get?_whole (schema : Document) {key : String} (h : key ∉ keySetKeywords) :
    (Json.obj (schema.json.fields.filter fun field => field.1 ∉ keySetKeywords)).get? key =
      schema.json.get? key := by
  show (schema.json.fields.filter fun field => decide (field.1 ∉ keySetKeywords)).lookup key = _
  rw [lookup_filter_key (p := fun key => decide (key ∉ keySetKeywords)), if_pos (decide_eq_true h),
    fields_lookup]

/-- the properties of a schema that has some -/
theorem get?_properties {schema : Json} (h : (schemaProperties schema).lookup k = some prop) :
    schema.get? "properties" = some (.obj (schemaProperties schema)) := by
  unfold schemaProperties at h ⊢
  split at h
  · rename_i properties hget
    rw [hget]
  · cases h

/-- an accepted document was judged by the whole schema -/
theorem validateDocument_ok (hschema : schema.json.truthy = true)
    (h : validateDocument js .validation userValues texts schema.json = .ok ()) :
    ∃ document, fullDocument userValues texts schema.json = .ok document ∧
      js.validate (.dict document)
        (.obj (schema.json.fields.filter fun field => field.1 ∉ keySetKeywords)) = .ok () := by
  rw [validateDocument, if_neg (by rw [hschema]; exact Bool.noConfusion), bind_eq_ok] at h
  obtain ⟨document, hdocument, h⟩ := h
  refine ⟨document, hdocument, ?_⟩
  cases hv : js.validate (.dict document)
      (.obj (schema.json.fields.filter fun field => field.1 ∉ keySetKeywords)) with
  | ok u => rfl
  | error e =>
    simp only [hv] at h
    cases e with
    | schemaError message => cases h
    | validationError e => cases h

/-- **an accepted var of a judged property coerces** -/
theorem coerces_of_accepted (hjs : js.AssertsTypes) (hunique : (texts.map Prod.fst).Nodup)
    (hvars : validateVars js texts (varsProjection schema.json) = .ok ())
    (hdocument : validateDocument js .validation userValues texts schema.json = .ok ())
    (htext : texts.lookup k = some text)
    (hprop : (schemaProperties schema.json).lookup k = some prop) (htype : DeclaresType prop type)
    (hjudged : ¬ Unjudged schema.json prop) : Coerces prop text := by
  rw [Unjudged, not_or, not_not] at hjudged
  obtain ⟨href, hroot⟩ := hjudged
  have hschema : schema.json.truthy = true := by
    by_contra hnot
    rw [varsProjection, if_neg hnot, validateVars, require_eq_ok, List.isEmpty_iff] at hvars
    rw [hvars] at htext
    cases htext
  have hprojected := hvars
  rw [varsProjection, if_pos hschema] at hprojected
  intro hsame
  have hnodup := nodup_schemaProperties schema
  cases htarget : targetsRuntime prop with
  | true =>
    -- a runtime property is judged by the vars half
    have hruntime := (lookup_filter (p := targetsRuntime) hnodup k prop).mpr ⟨hprop, htarget⟩
    obtain ⟨-, document, hcoerced, hvalid⟩ := validateVars_ok hprojected
    obtain ⟨value, hvalue, hk⟩ := ((lookup_coerceVars hcoerced).2 k).2 text htext
    have hdeclared : (schemaProperties (varsProjectionOf schema.json)).lookup k =
        some (withoutTarget prop) := by
      rw [lookup_varsProjection]
      show ((runtimeProperties schema.json).lookup k).map withoutTarget = _
      rw [runtimeProperties, hruntime]
      rfl
    have htype' : DeclaresType (withoutTarget prop) type :=
      ⟨(get?_withoutTarget (by decide)).trans htype.1, htype.2⟩
    rw [hdeclared, coerceVar_eq htype'.1, ← coerceVar_eq htype.1, hsame] at hvalue
    cases hvalue
    exact hjs document _ _ k _ text type hvalid (get?_varsProjection schema.json).2.1
      (get?_properties hdeclared) hdeclared ((get?_withoutTarget (by decide)).trans href) htype' hk
  | false =>
    -- a var in the place of a chart property is judged by the whole schema
    have hchart := (lookup_filter (p := fun prop => !targetsRuntime prop) hnodup k prop).mpr
      ⟨hprop, by rw [htarget]; rfl⟩
    obtain ⟨document, hfull, hvalid⟩ := validateDocument_ok hschema hdocument
    have hmap : validateVars js (VarMap.mk texts hunique).list
        (some (varsProjectionOf schema.json)) = .ok () := hprojected
    obtain ⟨document', hfull', hlookup⟩ := lookup_fullDocument hmap userValues
    rw [hfull] at hfull'
    cases hfull'
    have hroot' : schema.json.get? "$ref" = none := by
      by_contra hnone
      exact hroot ⟨htarget, hnone⟩
    have hproperties := (get?_whole schema (by decide)).trans (get?_properties hprop)
    refine hjs document _ _ k prop text type hvalid
      ((get?_whole schema (by decide)).trans hroot') hproperties hprop href htype ?_
    rw [hlookup k, coercedVar_of_chart hchart, htext]
    rfl

/-! ## Accepted writes -/

/-- every key is the name of an environment variable that is not reserved, and every text of a
property that declares a number or a boolean is a complete literal of it -/
structure Deliverable (schema : Json) (texts : String → Option String) : Prop where
  names : ∀ k text, texts k = some text → namePattern k.toList = true ∧ k ∉ reservedVarNames ∧
    ∀ start ∈ reservedVarPrefixes, startsWith k start = false
  literals : ∀ k text prop type, texts k = some text →
    (schemaProperties schema).lookup k = some prop → DeclaresType prop type → Literal type text

/-- no key ends in a line break, and no text of a property that declares a number or a boolean does;
where a `$ref` may hide the type, the text coerces -/
structure Unbroken (schema : Json) (texts : String → Option String) : Prop where
  names : ∀ k text, texts k = some text → ¬ EndsLine k
  literals : ∀ k text prop type, texts k = some text →
    (schemaProperties schema).lookup k = some prop → DeclaresType prop type →
    ¬ EndsLine text ∧ (Unjudged schema prop → Coerces prop text)

/-- a legal name is one that ends in no line break -/
theorem name_iff (h : checkVarName k = .ok ()) : (namePattern k.toList = true ∧
    k ∉ reservedVarNames ∧ ∀ start ∈ reservedVarPrefixes, startsWith k start = false) ↔
      ¬ EndsLine k := by
  obtain ⟨hmatch, hrest⟩ := checkVarName_ok.mp h
  rw [pattern_iff fun l => namePattern_line]
  exact ⟨fun h => h.1.2, fun hends => ⟨⟨hmatch, hends⟩, hrest⟩⟩

/-- **accepted vars can be delivered** exactly when no key and no number or boolean that the write
sets or keeps ends in a line break -/
theorem vars_deliverable {cfg : Settings} {s : State} {c : Context} {d : Deployment} {actor : UserId}
    {replace : Bool} {documentError : String → Refusal} {vars : Table DeploymentVar}
    (hjs : js.AssertsTypes) (hs : (keyedPlatform cfg).Reach (checkedWrites js) .init s)
    (keyIds : List String) (hc : ChecksAs js c) (schema : Document)
    (hschema : (c.templates d.desiredTemplateId).map Template.valuesSchemaJson = some schema.json)
    (entries : VarEntries)
    (h : writeVars (cfg.withKeys keyIds) c s.now s.vars d actor entries.list replace documentError =
      .ok vars) :
    Deliverable schema.json (headText vars d.id) ↔ Unbroken schema.json fun k =>
      writtenText replace (headText s.vars d.id k) (entries.list.lookup k) := by
  have htexts := (writeVars_written entries.unique h).text
  have hlegal := (varsLegal_of_reach hs).write hc.names entries.unique h
  obtain ⟨plan, hplan, hp, hputs⟩ := puts_of_writeVars entries.unique h
  obtain ⟨-, -, template, htemplate, hvars, hdocument⟩ := planVars_checked hplan
  have hdesired : (plan.desired.map fun e => (e.1, e.2.1)).map Prod.fst =
      plan.desired.map Prod.fst := by
    rw [List.map_map]
    rfl
  have hunique : ((plan.desired.map fun e => (e.1, e.2.1)).map Prod.fst).Nodup := by
    rw [hdesired]
    exact hp.unique
  have hlookup : ∀ k, (plan.desired.map fun e => (e.1, e.2.1)).lookup k = headText vars d.id k := by
    intro k
    rw [lookup_map_snd Prod.fst, lookup_desired hp hputs]
    rfl
  rw [htemplate, Option.map_some, Option.some.injEq] at hschema
  rw [hc.vars, hc.projection, hschema] at hvars
  rw [hschema] at hdocument
  have hdocument := (hc.document _ _ _).mp hdocument
  have hname : ∀ k text, headText vars d.id k = some text → checkVarName k = .ok () := by
    intro k text hk
    rw [headText_eq, Option.bind_eq_some_iff] at hk
    obtain ⟨row, hrow, -⟩ := hk
    obtain ⟨hmem, rfl⟩ := headRow_eq_some.mp hrow
    exact hlegal.names row (mem_head.mp hmem).1
  simp only [← htexts]
  constructor
  · intro hdeliver
    refine ⟨fun k text hk => ?_, fun k text prop type hk hprop htype => ?_⟩
    · exact (name_iff (hname k text hk)).mp (hdeliver.names k text hk)
    · obtain ⟨hcoerces, hends⟩ :=
        (literal_iff htype).mp (hdeliver.literals k text prop type hk hprop htype)
      exact ⟨hends, fun _ => hcoerces⟩
  · intro hunbroken
    refine ⟨fun k text hk => ?_, fun k text prop type hk hprop htype => ?_⟩
    · exact (name_iff (hname k text hk)).mpr (hunbroken.names k text hk)
    · obtain ⟨hends, hhidden⟩ := hunbroken.literals k text prop type hk hprop htype
      refine (literal_iff htype).mpr ⟨?_, hends⟩
      by_cases hjudged : Unjudged schema.json prop
      · exact hhidden hjudged
      · exact coerces_of_accepted hjs hunique hvars hdocument ((hlookup k).trans hk) hprop htype
          hjudged

/-! ## A name and a number with a line break -/

/-- whether a string stands where the property declares a number or a boolean -/
def wrongType (field : String × Value) (prop : Option Json) : Bool :=
  match field.2 with
  | .json (.str _) => textIn numericTypes (prop.bind fun p => p.get? "type")
  | _ => false

/-- a `jsonschema` that looks at the types of the properties alone -/
def Jsonschema.typing : Jsonschema where
  validate := fun instanceValue schema =>
    match instanceValue with
    | .dict fields =>
      match fields.find? fun field => wrongType field ((schemaProperties schema).lookup field.1) with
      | some field => .error (.validationError
          ⟨"wrong type", "$." ++ field.1, [field.1], "type", [], none⟩)
      | none => .ok ()
    | _ => .ok ()

theorem assertsTypes_typing : Jsonschema.typing.AssertsTypes := by
  intro fields schema properties k prop text type hvalid _ hproperties hprop _ htype hfield
  have hdeclared : (schemaProperties schema).lookup k = some prop := by
    rw [schemaProperties, hproperties]
    exact hprop
  have hwrong : wrongType (k, .json (.str text)) ((schemaProperties schema).lookup k) = true := by
    rw [hdeclared, wrongType, Option.bind_some, htype.1]
    exact decide_eq_true htype.2
  have hvalid : (match fields.find? fun field =>
      wrongType field ((schemaProperties schema).lookup field.1) with
    | some field => Except.error (JsonschemaError.validationError
        ⟨"wrong type", "$." ++ field.1, [field.1], "type", [], none⟩)
    | none => .ok ()) = .ok () := hvalid
  split at hvalid
  · cases hvalid
  · rename_i hnone
    exact List.find?_eq_none.mp hnone _ (mem_of_lookup hfield) hwrong

/-- a schema of one integer var, open to others -/
def Document.openLevel : Document where
  json := .obj [(varsAdditionalKey, .bool true),
    ("properties", .obj [("LEVEL", .obj [("type", .str "integer"), (targetKey, .str "runtime")])])]
  stored := rfl
  unique := by decide

/-- the row a create has inserted when it writes its vars -/
def Deployment.created : Deployment :=
  (CreateRequest.sample .null none).deployment 0 1 "app-bob" .null none false

/-- a create with one var -/
def writeOne (key text : String) : Except Refusal (Table DeploymentVar) :=
  writeVars .sample (.checking .typing Document.openLevel.json) 0 .empty .created 7
    [(key, ⟨some (some text), none⟩)] false .integrity

/-- a level without a line break -/
theorem vars_deliverable_sample : ∃ vars, writeOne "LEVEL" "5" = .ok vars ∧
    Deliverable Document.openLevel.json (headText vars 1) := by
  obtain ⟨vars, hwrite⟩ : ∃ vars, writeOne "LEVEL" "5" = .ok vars := ⟨_, rfl⟩
  have hs : (keyedPlatform .sample).Reach (checkedWrites .typing) .init .init := .refl
  have hkey : ∀ k text, writtenText false (headText .empty 1 k)
      (List.lookup k [("LEVEL", (⟨some (some "5"), none⟩ : VarWrite))]) = some text →
      k = "LEVEL" ∧ text = "5" := by
    intro k text hk
    rw [lookup_cons_ite] at hk
    split at hk
    · rename_i hlevel
      cases hk
      exact ⟨hlevel, rfl⟩
    · cases hk
  refine ⟨vars, hwrite, (vars_deliverable assertsTypes_typing hs ["key-1"]
    (checksAs_checking _ _) .openLevel rfl ⟨[("LEVEL", ⟨some (some "5"), none⟩)],
      List.nodup_singleton _⟩ hwrite).mpr ⟨?_, ?_⟩⟩
  · intro k text hk
    obtain ⟨rfl, -⟩ := hkey k text hk
    decide
  · intro k text prop type hk hprop htype
    obtain ⟨rfl, rfl⟩ := hkey k text hk
    cases hprop
    refine ⟨by decide, fun hhidden => ?_⟩
    rcases hhidden with hbeside | ⟨htarget, -⟩
    · exact absurd rfl hbeside
    · cases htarget

/-- **a name and a number that end in a line break are accepted** -/
theorem vars_undeliverable : checkVarMarkers Document.openLevel.json = .ok () ∧
    (∃ vars, writeOne "NAME\n" "bob" = .ok vars ∧
      ¬ Deliverable Document.openLevel.json (headText vars 1)) ∧
    ∃ vars, writeOne "LEVEL" "5\n" = .ok vars ∧
      ¬ Deliverable Document.openLevel.json (headText vars 1) := by
  refine ⟨rfl, ⟨_, rfl, fun h => ?_⟩, ⟨_, rfl, fun h => ?_⟩⟩
  · have hname := (h.names "NAME\n" "bob" rfl).1
    exact absurd hname (by decide)
  · have hliteral := (h.literals "LEVEL" "5\n" _ "integer" rfl rfl ⟨rfl, by decide⟩).1 rfl
    exact absurd hliteral (by decide)

end Freepod
