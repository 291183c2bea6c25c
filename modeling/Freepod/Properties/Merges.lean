import Freepod.Platform.HelmValues

/-!
# What a merge of values keeps

`merge_values_scoped` (`services/template_values.py`) at the leaves of the three documents it
merges.  Objects are merged key by key at any depth; anything else replaces what it is merged over
and is replaced by it, an object included.

* `at?_mergeOver`: a leaf of the override is a leaf of the merged document.
* `at?_deepMerge`: a leaf of the base stays where the override has neither a leaf on the way to it
  nor anything at it.
* `deepMerge_mergeOver`: an override that is merged again changes nothing, the order of the keys
  included.
-/

namespace Freepod
open Base

/-- the value at a path of keys -/
def Json.at? (value : Json) : List String → Option Json
  | [] => some value
  | key :: path => (value.get? key).bind fun child => child.at? path

/-- the path ends in a value that is no object -/
def Leaf (document : Json) (path : List String) (value : Json) : Prop :=
  document.at? path = some value ∧ value.isObj = false

/-- the document has a leaf on the way to the path, or goes on to the path and beyond -/
def Overlaps (document : Json) (path : List String) : Prop :=
  (∃ p value, Leaf document p value ∧ p <+: path) ∨
    ∃ p value, document.at? p = some value ∧ path <+: p

theorem at?_cons {value v : Json} {key : String} {path : List String}
    (h : value.at? (key :: path) = some v) :
    ∃ fields child, value = .obj fields ∧ fields.lookup key = some child ∧
      child.at? path = some v := by
  obtain ⟨child, hchild, hpath⟩ := Option.bind_eq_some_iff.mp h
  cases value with
  | obj fields => exact ⟨fields, child, rfl, hchild, hpath⟩
  | _ => cases hchild

/-- an object stays one under a merge, and each of its values is merged over something -/
theorem mergeOver_obj {fields : Fields} (h : (fields.map Prod.fst).Nodup) (base : Option Json) :
    ∃ merged, mergeOver base (.obj fields) = .obj merged ∧ ∀ key value,
      fields.lookup key = some value →
        ∃ b, merged.lookup key = some (mergeOver b value) := by
  have halone : ∀ key value, fields.lookup key = some value →
      ∃ b, fields.lookup key = some (mergeOver b value) := fun key value hk => ⟨none, hk⟩
  cases base with
  | none => exact ⟨fields, rfl, halone⟩
  | some base =>
    cases base with
    | obj fields' =>
      refine ⟨mergeFields fields' fields, deepMerge_obj fields' fields, fun key value hk => ?_⟩
      rw [lookup_mergeFields h, hk]
      exact ⟨_, rfl⟩
    | _ => exact ⟨fields, deepMerge_of_not_obj (.inl rfl), halone⟩

/-! ## The leaves of a merge -/

/-- **the override's leaves** -/
theorem at?_mergeOver {path : List String} {override value : Json}
    (hu : uniqueKeys override = true) (h : Leaf override path value) (base : Option Json) :
    (mergeOver base override).at? path = some value := by
  induction path generalizing override base with
  | nil =>
    obtain ⟨hat, hleaf⟩ := h
    cases hat
    rw [mergeOver_of_not_obj hleaf]
    rfl
  | cons key path ih =>
    obtain ⟨fields, child, rfl, hchild, hpath⟩ := at?_cons h.1
    obtain ⟨hnodup, hfields⟩ := uniqueKeys_obj.mp hu
    obtain ⟨merged, hmerged, hlookup⟩ := mergeOver_obj hnodup base
    obtain ⟨b, hb⟩ := hlookup key child hchild
    rw [hmerged]
    show (merged.lookup key).bind _ = _
    rw [hb]
    exact ih (uniqueKeys_lookup hfields hchild) ⟨hpath, h.2⟩ b

/-- **the base's leaves, where the override leaves them** -/
theorem at?_deepMerge {path : List String} {override base value : Json}
    (hu : uniqueKeys override = true) (h : Leaf base path value)
    (hapart : ¬ Overlaps override path) : (deepMerge base override).at? path = some value := by
  induction path generalizing override base with
  | nil => exact absurd (.inr ⟨[], override, rfl, List.prefix_rfl⟩) hapart
  | cons key path ih =>
    obtain ⟨fields', child, rfl, hchild, hpath⟩ := at?_cons h.1
    cases override with
    | obj fields =>
      obtain ⟨hnodup, hfields⟩ := uniqueKeys_obj.mp hu
      rw [deepMerge_obj]
      show ((mergeFields fields' fields).lookup key).bind _ = _
      rw [lookup_mergeFields hnodup]
      cases hl : fields.lookup key with
      | none => exact h.1
      | some w =>
        have hdown : ∀ p, (Json.obj fields).at? (key :: p) = w.at? p := by
          intro p
          show (fields.lookup key).bind _ = _
          rw [hl]
          rfl
        show (mergeOver (fields'.lookup key) w).at? path = some value
        rw [hchild]
        refine ih (uniqueKeys_lookup hfields hl) ⟨hpath, h.2⟩ fun hover => hapart ?_
        rcases hover with ⟨p, v, hleaf, hp⟩ | ⟨p, v, hat, hp⟩
        · exact .inl ⟨key :: p, v, ⟨(hdown p).trans hleaf.1, hleaf.2⟩,
            List.cons_prefix_cons.mpr ⟨rfl, hp⟩⟩
        · exact .inr ⟨key :: p, v, (hdown p).trans hat, List.cons_prefix_cons.mpr ⟨rfl, hp⟩⟩
    | _ => exact absurd (.inl ⟨[], _, ⟨rfl, rfl⟩, List.nil_prefix⟩) hapart

/-! ## An override merged again -/

mutual
/-- **a second merge changes nothing** -/
theorem deepMerge_mergeOver : ∀ override : Json, uniqueKeys override = true →
    ∀ base : Option Json, deepMerge (mergeOver base override) override = mergeOver base override
  | .obj fields, hu, base => by
    obtain ⟨hnodup, hfields⟩ := uniqueKeys_obj.mp hu
    obtain ⟨merged, hmerged, hlookup⟩ := mergeOver_obj hnodup base
    rw [hmerged, deepMerge_obj, mergeFields_merged merged fields hfields fun e he =>
      hlookup e.1 e.2 ((lookup_eq_some_iff_mem hnodup).mpr he)]
  | .null, _, _ | .bool _, _, _ | .num _ _, _, _ | .str _, _, _ | .arr _, _, _ => by
    rw [deepMerge_of_not_obj (.inr rfl), mergeOver_of_not_obj rfl]

theorem mergeFields_merged (merged : Fields) : ∀ fields : Fields, uniqueKeysFields fields = true →
    (∀ e ∈ fields, ∃ b, merged.lookup e.1 = some (mergeOver b e.2)) →
    mergeFields merged fields = merged
  | [], _, _ => by rw [mergeFields]
  | field :: fields, hu, h => by
    rw [uniqueKeysFields, Bool.and_eq_true] at hu
    rw [mergeFields, mergeField_merged merged field hu.1 (h field List.mem_cons_self)]
    exact mergeFields_merged merged fields hu.2 fun e he => h e (List.mem_cons_of_mem _ he)

theorem mergeField_merged (merged : Fields) : ∀ field : String × Json,
    uniqueKeysField field = true → (∃ b, merged.lookup field.1 = some (mergeOver b field.2)) →
    mergeField merged field = merged
  | (key, value), hu, h => by
    obtain ⟨b, hb⟩ := h
    rw [uniqueKeysField] at hu
    rw [mergeField, hb]
    show setKey key (deepMerge (mergeOver b value) value) merged = merged
    rw [deepMerge_mergeOver value hu b]
    exact setKey_of_lookup hb
end

/-! ## The scoped merge -/

/-- a document that was given, or an empty object -/
def Document.values (d : Document) : Json := defaultValues d.json

theorem Document.values_obj (d : Document) : d.values = .obj d.json.fields := by
  rcases d.cases with h | h
  · rw [values, h]
    rfl
  · rw [values, h]
    rfl

theorem Document.unique_values (d : Document) : uniqueKeys d.values = true := by
  rcases d.cases with h | h
  · rw [values, h]
    rfl
  · have hu := d.unique
    rw [h] at hu
    rw [values, h]
    exact hu

/-- no layer is an empty one -/
theorem mergeLayer_values (fields : Fields) (layer : Document) :
    mergeLayer (.obj fields) layer.json = deepMerge (.obj fields) layer.values := by
  rcases layer.cases with h | h
  · rw [Document.values, h]
    show Json.obj fields = deepMerge (.obj fields) (.obj [])
    rw [deepMerge_obj, mergeFields]
  · rw [Document.values, h]
    rfl

theorem requireObject_document (d : Document) (name : String) :
    requireObject d.json name = .ok () := by
  unfold requireObject
  rcases d.cases with h | h
  · rw [h]
    rfl
  · rw [h]
    rfl

theorem mergeValuesScoped_documents (defaults userScopeDelta systemOverrides : Document) :
    mergeValuesScoped defaults.json userScopeDelta.json systemOverrides.json =
      .ok (deepMerge (deepMerge defaults.values userScopeDelta.values)
        systemOverrides.values) := by
  unfold mergeValuesScoped
  rw [requireObject_document, requireObject_document, requireObject_document]
  show Except.ok (mergeLayer (mergeLayer defaults.values _) _) = _
  rw [defaults.values_obj, mergeLayer_values, userScopeDelta.values_obj, deepMerge_obj,
    mergeLayer_values]

/-- **system values win and user values survive elsewhere** -/
theorem merge_precedence (defaults userScopeDelta systemOverrides : Document) :
    ∃ merged : Document,
      mergeValuesScoped defaults.json userScopeDelta.json systemOverrides.json =
        .ok merged.json ∧
      (∀ path value, Leaf systemOverrides.values path value →
        merged.json.at? path = some value) ∧
      (∀ path value, Leaf userScopeDelta.values path value →
        ¬ Overlaps systemOverrides.values path → merged.json.at? path = some value) ∧
      (∀ path value, Leaf defaults.values path value → ¬ Overlaps userScopeDelta.values path →
        ¬ Overlaps systemOverrides.values path → merged.json.at? path = some value) ∧
      mergeValuesScoped merged.json .null systemOverrides.json = .ok merged.json := by
  have huser := userScopeDelta.unique_values
  have hsystem := systemOverrides.unique_values
  obtain ⟨fields, hfields⟩ : ∃ fields, deepMerge (deepMerge defaults.values userScopeDelta.values)
      systemOverrides.values = .obj fields := by
    rw [defaults.values_obj, userScopeDelta.values_obj, systemOverrides.values_obj, deepMerge_obj,
      deepMerge_obj]
    exact ⟨_, rfl⟩
  have hunique : uniqueKeys (.obj fields) = true := by
    rw [← hfields]
    exact uniqueKeys_deepMerge _ (uniqueKeys_deepMerge _ defaults.unique_values _ huser) _ hsystem
  refine ⟨⟨.obj fields, rfl, hunique⟩, ?_, fun path value h => ?_, fun path value h hapart => ?_,
    fun path value h huser' hapart => ?_, ?_⟩
  · rw [mergeValuesScoped_documents, hfields]
  · show (Json.obj fields).at? path = some value
    rw [← hfields]
    exact at?_mergeOver hsystem h (some _)
  · show (Json.obj fields).at? path = some value
    rw [← hfields]
    exact at?_deepMerge hsystem ⟨at?_mergeOver huser h (some _), h.2⟩ hapart
  · show (Json.obj fields).at? path = some value
    rw [← hfields]
    exact at?_deepMerge hsystem ⟨at?_deepMerge huser h huser', h.2⟩ hapart
  · have hagain := mergeValuesScoped_documents ⟨.obj fields, rfl, hunique⟩ ⟨.null, rfl, rfl⟩
      systemOverrides
    refine hagain.trans ?_
    show Except.ok (deepMerge (deepMerge (.obj fields) (.obj [])) _) = Except.ok (.obj fields)
    rw [deepMerge_obj, mergeFields, ← hfields]
    exact congrArg Except.ok (deepMerge_mergeOver _ hsystem (some _))

end Freepod
