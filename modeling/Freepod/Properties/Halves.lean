import Freepod.Platform.TemplateValues

/-!
# The two halves of a document

`validate_document` lays the coerced vars over the chart values and judges the whole by one schema.
Neither half is looked up in the other's key set, so that a half that is left open can hold a key
of the other one.

* `halves_unmasked`: exactly when every property of the document is the half's own.
* `apart_of_closed`: it is so when both halves are closed.
* `halves_masked`: an open half masks the other one.
-/

namespace Freepod
open Base

/-- vars by their names: an object has each of its keys once -/
structure VarMap where
  list : List (String × String)
  unique : (list.map Prod.fst).Nodup

/-- what a key of the coerced vars holds -/
def coercedVar (schema : Json) (vars : List (String × String)) (k : String) : Option Value :=
  (vars.lookup k).bind fun text =>
    (coerceVar text (((runtimeProperties schema).lookup k).map withoutTarget)).toOption

/-- every property of the document is the half's own: a chart property the submitted value, a
runtime property the coerced var, and absent where that half has none -/
structure Unmasked (userValues : Json) (vars : List (String × String)) (schema : Json)
    (document : List (String × Value)) : Prop where
  chart : ∀ k prop, (chartProperties schema).lookup k = some prop →
    document.lookup k = (userValues.fields.lookup k).map Value.json
  runtime : ∀ k prop, (runtimeProperties schema).lookup k = some prop →
    document.lookup k = coercedVar schema vars k

/-- no half holds a key of the other one, but a var that spells the very chart value submitted, and
a chart value under the name of a var that is submitted as well -/
structure Apart (userValues : Json) (vars : List (String × String)) (schema : Json) : Prop where
  ofVars : ∀ k prop text, (chartProperties schema).lookup k = some prop →
    vars.lookup k = some text → userValues.fields.lookup k = some (.str text)
  ofValues : ∀ k prop, (runtimeProperties schema).lookup k = some prop →
    userValues.fields.lookup k ≠ none → vars.lookup k ≠ none

variable {js : Jsonschema} {schema : Document} {userValues : Json} {vars : List (String × String)}
  {k : String} {prop : Json}

/-- the properties of a schema have each name once -/
theorem nodup_schemaProperties (schema : Document) :
    ((schemaProperties schema.json).map Prod.fst).Nodup := by
  unfold schemaProperties
  split
  · rename_i properties h
    have hfields : schema.json.fields.lookup "properties" = some (.obj properties) := by
      rcases schema.cases with hnull | hobj
      · rw [hnull] at h
        cases h
      · rw [hobj] at h
        exact h
    exact schema.nodup_lookup hfields
  · exact List.nodup_nil

/-- a property is routed to one channel -/
theorem not_runtime_of_chart (h : (chartProperties schema.json).lookup k = some prop) :
    (runtimeProperties schema.json).lookup k = none := by
  have hnodup := nodup_schemaProperties schema
  obtain ⟨hprop, hchart⟩ := (lookup_filter (p := fun prop => !targetsRuntime prop) hnodup k prop).mp h
  cases hrun : (runtimeProperties schema.json).lookup k with
  | none => rfl
  | some prop' =>
    obtain ⟨hprop', hruntime⟩ := (lookup_filter (p := targetsRuntime) hnodup k prop').mp hrun
    rw [hprop] at hprop'
    cases hprop'
    rw [hruntime] at hchart
    cases hchart

/-- what an accepted write's document holds -/
theorem lookup_fullDocument {vars : VarMap}
    (h : validateVars js vars.list (some (varsProjectionOf schema.json)) = .ok ())
    (userValues : Json) :
    ∃ document, fullDocument userValues vars.list schema.json = .ok document ∧ ∀ k,
      document.lookup k = (coercedVar schema.json vars.list k).or
        ((userValues.fields.lookup k).map Value.json) := by
  obtain ⟨-, coerced, hcoerced, -⟩ := validateVars_ok h
  obtain ⟨hkeys, hlookup⟩ := lookup_coerceVars hcoerced
  refine ⟨updateDocument (userValues.fields.map fun field => (field.1, Value.json field.2)) coerced,
    ?_, fun k => ?_⟩
  · rw [fullDocument, hcoerced]
    rfl
  · rw [lookup_updateDocument (by rw [hkeys]; exact vars.unique), lookup_map_snd]
    congr 1
    unfold coercedVar
    cases hvar : vars.list.lookup k with
    | none =>
      rw [(hlookup k).1 hvar]
      rfl
    | some text =>
      obtain ⟨value, hvalue, hk⟩ := (hlookup k).2 text hvar
      rw [lookup_varsProjection] at hvalue
      rw [hk, Option.bind_some, hvalue]
      rfl

/-- a var that is no runtime property stays the text it is -/
theorem coercedVar_of_chart (h : (chartProperties schema.json).lookup k = some prop) :
    coercedVar schema.json vars k = (vars.lookup k).map fun text => Value.json (.str text) := by
  unfold coercedVar
  rw [not_runtime_of_chart h]
  cases vars.lookup k with
  | none => rfl
  | some text => rfl

theorem coercedVar_eq_none {vars : VarMap}
    (h : validateVars js vars.list (some (varsProjectionOf schema.json)) = .ok ()) :
    coercedVar schema.json vars.list k = none ↔ vars.list.lookup k = none := by
  obtain ⟨-, coerced, hcoerced, -⟩ := validateVars_ok h
  obtain ⟨-, hlookup⟩ := lookup_coerceVars hcoerced
  unfold coercedVar
  cases hvar : vars.list.lookup k with
  | none => exact ⟨fun _ => rfl, fun _ => rfl⟩
  | some text =>
    obtain ⟨value, hvalue, -⟩ := (hlookup k).2 text hvar
    rw [lookup_varsProjection] at hvalue
    rw [Option.bind_some, hvalue]
    exact ⟨fun h => (nomatch h), fun h => (nomatch h)⟩

/-- **the halves do not mask each other** exactly when they are apart -/
theorem halves_unmasked (schema : Document) (userValues : Json) (vars : VarMap)
    (hschema : schema.json.truthy = true)
    (hvars : validateVars js vars.list (varsProjection schema.json) = .ok ()) :
    ∃ document, fullDocument userValues vars.list schema.json = .ok document ∧
      (Unmasked userValues vars.list schema.json document ↔
        Apart userValues vars.list schema.json) := by
  rw [varsProjection, if_pos hschema] at hvars
  obtain ⟨document, hdocument, hlookup⟩ := lookup_fullDocument hvars userValues
  refine ⟨document, hdocument, fun h => ⟨?_, ?_⟩, fun h => ⟨?_, ?_⟩⟩
  · intro k prop text hprop htext
    have hk := h.chart k prop hprop
    rw [hlookup, coercedVar_of_chart hprop, htext] at hk
    cases hvalue : userValues.fields.lookup k with
    | none =>
      rw [hvalue] at hk
      cases hk
    | some value =>
      rw [hvalue] at hk
      cases hk
      rfl
  · intro k prop hprop hvalue hnone
    have hk := h.runtime k prop hprop
    have hcoerced := (coercedVar_eq_none hvars (k := k)).mpr hnone
    rw [hlookup, hcoerced, Option.none_or, Option.map_eq_none_iff] at hk
    exact hvalue hk
  · intro k prop hprop
    rw [hlookup, coercedVar_of_chart hprop]
    cases htext : vars.list.lookup k with
    | none => rfl
    | some text =>
      rw [h.ofVars k prop text hprop htext]
      rfl
  · intro k prop hprop
    rw [hlookup]
    cases hvalue : userValues.fields.lookup k with
    | none => exact Option.or_none
    | some value =>
      have hvar := h.ofValues k prop hprop (by rw [hvalue]; exact Option.some_ne_none value)
      cases hcoerced : coercedVar schema.json vars.list k with
      | none => exact absurd ((coercedVar_eq_none hvars).mp hcoerced) hvar
      | some coerced => rfl

/-! ## Closed halves -/

/-- `jsonschema` refuses a key an object with `additionalProperties: false` does not declare -/
def Jsonschema.ClosesObjects (js : Jsonschema) : Prop :=
  ∀ fields schema, js.validate (.json (.obj fields)) schema = .ok () →
    schema.get? "additionalProperties" = some (.bool false) →
    schema.get? "patternProperties" = none → schema.get? "$ref" = none →
    ∀ k ∈ fields.map Prod.fst, (schemaProperties schema).lookup k ≠ none

/-- **closed halves are apart** -/
theorem apart_of_closed {vars : VarMap} (hjs : js.ClosesObjects)
    (hschema : schema.json.truthy = true)
    (hvars : validateVars js vars.list (varsProjection schema.json) = .ok ())
    (hopen : varsOpen schema.json = false) (hclosed : chartClosed schema.json)
    (hvalues : js.validate (.json userValues) (chartProjection schema.json) = .ok ()) :
    Apart userValues vars.list schema.json := by
  rw [varsProjection, if_pos hschema] at hvars
  refine ⟨fun k prop text hprop htext => ?_, fun k prop hprop hvalue => ?_⟩
  · -- a closed vars half holds the runtime properties alone
    obtain ⟨hkeys, -⟩ := validateVars_ok hvars
    rw [(get?_varsProjection schema.json).1, hopen] at hkeys
    rcases hkeys with hopen | hkeys
    · cases hopen
    · have hmem : k ∈ vars.list.map Prod.fst := by
        by_contra hnot
        rw [lookup_eq_none_iff_notMem.mpr hnot] at htext
        cases htext
      have hdeclared := hkeys k hmem
      rw [lookup_varsProjection, not_runtime_of_chart hprop] at hdeclared
      exact absurd rfl hdeclared
  · -- a closed chart half holds the chart properties alone
    exfalso
    cases userValues with
    | obj fields =>
      have hmem : k ∈ fields.map Prod.fst := by
        by_contra hnot
        exact hvalue (lookup_eq_none_iff_notMem.mpr hnot)
      obtain ⟨hadditional, hpattern, href⟩ := chartClosed_chartProjection hclosed
      have hchart := hjs fields _ hvalues hadditional hpattern href k hmem
      rw [schemaProperties_chartProjection] at hchart
      obtain ⟨prop', hprop'⟩ := Option.ne_none_iff_exists'.mp hchart
      rw [not_runtime_of_chart hprop'] at hprop
      cases hprop
    | _ => exact hvalue rfl

/-! ## Open halves -/

/-- a schema of one chart property whose vars are open -/
def Document.openVars : Document where
  json := .obj [("type", .str "object"), ("additionalProperties", .bool false),
    (varsAdditionalKey, .bool true),
    ("properties", .obj [("replicas", .obj [("type", .str "integer")])])]
  stored := rfl
  unique := by decide

/-- a schema of one runtime property whose chart half is open -/
def Document.openChart : Document where
  json := .obj [("type", .str "object"),
    ("properties", .obj [("LEVEL", .obj [("type", .str "integer"), (targetKey, .str "runtime")])])]
  stored := rfl
  unique := by decide

/-- `validate` of a plain JSON value, as `validate_user_values` calls it -/
def Jsonschema.onJson (js : Jsonschema) (instanceJson schema : Json) :
    Except SchemaFailure Unit :=
  match js.validate (.json instanceJson) schema with
  | .ok () => .ok ()
  | .error (.schemaError message) => .error (.schemaError message)
  | .error (.validationError e) => .error (.validationError e.message)

/-- the chart values of three replicas -/
def Json.replicas : Json := .obj [("replicas", .num 3 0)]

/-- one var -/
def VarMap.single (key text : String) : VarMap := ⟨[(key, text)], List.nodup_singleton _⟩

/-- a chart value and a var of another name -/
theorem halves_unmasked_sample : ∃ document,
    fullDocument .replicas (VarMap.single "LOG" "info").list Document.openVars.json =
      .ok document ∧
    Unmasked .replicas (VarMap.single "LOG" "info").list Document.openVars.json document := by
  obtain ⟨document, hdocument, hiff⟩ := @halves_unmasked .lenient .openVars .replicas
    (.single "LOG" "info") rfl rfl
  refine ⟨document, hdocument, hiff.mpr ⟨fun k prop text hprop htext => ?_, fun k prop hprop => ?_⟩⟩
  · have hk : k = "LOG" := by
      by_contra hne
      have hnone : (VarMap.single "LOG" "info").list.lookup k = none :=
        lookup_eq_none_iff_notMem.mpr (by simpa [VarMap.single] using hne)
      rw [hnone] at htext
      cases htext
    subst hk
    cases hprop
  · cases hprop

/-- **an open half masks the other one**: a var named like a chart property takes its place, and a
chart value named like a runtime property stands where no var was submitted -/
theorem halves_masked :
    (∃ document, checkVarMarkers Document.openVars.json = .ok () ∧
      validateUserValues Jsonschema.lenient.onJson .replicas Document.openVars.json = .ok () ∧
      validateVars .lenient (VarMap.single "replicas" "5").list
        (varsProjection Document.openVars.json) = .ok () ∧
      fullDocument .replicas (VarMap.single "replicas" "5").list Document.openVars.json =
        .ok document ∧
      ¬ Unmasked .replicas (VarMap.single "replicas" "5").list Document.openVars.json document) ∧
    ∃ document, checkVarMarkers Document.openChart.json = .ok () ∧
      validateUserValues Jsonschema.lenient.onJson (.obj [("LEVEL", .str "high")])
        Document.openChart.json = .ok () ∧
      validateVars .lenient [] (varsProjection Document.openChart.json) = .ok () ∧
      fullDocument (.obj [("LEVEL", .str "high")]) [] Document.openChart.json = .ok document ∧
      ¬ Unmasked (.obj [("LEVEL", .str "high")]) [] Document.openChart.json document := by
  constructor
  · refine ⟨[("replicas", .json (.str "5"))], rfl, rfl, rfl, rfl, fun h => ?_⟩
    have hchart := h.chart "replicas" (.obj [("type", .str "integer")]) rfl
    cases hchart
  · refine ⟨[("LEVEL", .json (.str "high"))], rfl, rfl, rfl, rfl, fun h => ?_⟩
    have hruntime := h.runtime "LEVEL"
      (.obj [("type", .str "integer"), (targetKey, .str "runtime")]) rfl
    cases hruntime

end Freepod
