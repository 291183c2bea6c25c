import Freepod.Values.Json

/-!
# Stored documents

A JSON column holds an object or nothing at all, and an object has each of its keys once.

* `lookup_mergeFields`: what a key holds after a merge.
-/

namespace Freepod
open Base

mutual
/-- every object in the value has each of its keys once -/
def uniqueKeys : Json → Bool
  | .obj fields => decide (fields.map Prod.fst).Nodup && uniqueKeysFields fields
  | .arr items => uniqueKeysItems items
  | _ => true

def uniqueKeysItems : List Json → Bool
  | [] => true
  | item :: items => uniqueKeys item && uniqueKeysItems items

def uniqueKeysFields : Fields → Bool
  | [] => true
  | field :: fields => uniqueKeysField field && uniqueKeysFields fields

def uniqueKeysField : String × Json → Bool
  | (_, value) => uniqueKeys value
end

/-- what a JSON column holds: an object or nothing -/
structure Document where
  json : Json
  stored : (json.isObj || json.isNull) = true
  unique : uniqueKeys json = true

/-- the items of the object; none without a document -/
def Json.fields : Json → Fields
  | .obj fields => fields
  | _ => []

theorem fields_lookup (schema : Json) (key : String) :
    schema.fields.lookup key = schema.get? key := by
  cases schema with
  | obj fields => rfl
  | _ => rfl

theorem Document.cases (d : Document) : d.json = .null ∨ d.json = .obj d.json.fields := by
  obtain ⟨json, stored, unique⟩ := d
  cases json with
  | null => exact .inl rfl
  | obj fields => exact .inr rfl
  | _ => cases stored

theorem uniqueKeys_obj {fields : Fields} :
    uniqueKeys (.obj fields) = true ↔
      (fields.map Prod.fst).Nodup ∧ uniqueKeysFields fields = true := by
  rw [uniqueKeys, Bool.and_eq_true, decide_eq_true_eq]

theorem uniqueKeys_lookup {fields : Fields} {key : String} {value : Json}
    (h : uniqueKeysFields fields = true) (hl : fields.lookup key = some value) :
    uniqueKeys value = true := by
  induction fields with
  | nil => cases hl
  | cons field fields ih =>
    obtain ⟨k, v⟩ := field
    rw [uniqueKeysFields, Bool.and_eq_true, uniqueKeysField] at h
    rw [lookup_cons_ite] at hl
    split at hl
    · cases hl
      exact h.1
    · exact ih h.2 hl

theorem Document.nodup (d : Document) : (d.json.fields.map Prod.fst).Nodup := by
  obtain h | h := d.cases
  · rw [h]
    exact List.nodup_nil
  · exact (uniqueKeys_obj.1 (h ▸ d.unique)).1

theorem Document.nodup_lookup (d : Document) {key : String} {fields : Fields}
    (h : d.json.fields.lookup key = some (.obj fields)) : (fields.map Prod.fst).Nodup := by
  obtain hd | hd := d.cases
  · rw [hd] at h
    cases h
  · exact (uniqueKeys_obj.1 (uniqueKeys_lookup (uniqueKeys_obj.1 (hd ▸ d.unique)).2 h)).1

/-! ## A key after a merge -/

/-- a value over the one its key holds, if any -/
def mergeOver : Option Json → Json → Json
  | some base, value => deepMerge base value
  | none, value => value

theorem deepMerge_obj (base override : Fields) :
    deepMerge (.obj base) (.obj override) = .obj (mergeFields base override) := by
  rw [deepMerge]

theorem deepMerge_of_not_obj {base value : Json} (h : base.isObj = false ∨ value.isObj = false) :
    deepMerge base value = value := by
  cases value with
  | obj fields =>
    cases base with
    | obj base => exact absurd h (by simp [Json.isObj])
    | _ => simp only [deepMerge]
  | _ => simp only [deepMerge]

theorem mergeOver_of_not_obj {base : Option Json} {value : Json} (h : value.isObj = false) :
    mergeOver base value = value := by
  cases base with
  | none => rfl
  | some base => exact deepMerge_of_not_obj (.inr h)

theorem lookup_mergeField (merged : Fields) (key k : String) (value : Json) :
    (mergeField merged (key, value)).lookup k =
      if k = key then some (mergeOver (merged.lookup key) value) else merged.lookup k := by
  rw [mergeField]
  cases h : merged.lookup key with
  | some base => exact lookup_setKey key k _ merged
  | none =>
    rw [List.lookup_append, lookup_cons_ite, List.lookup_nil]
    by_cases hk : k = key
    · rw [if_pos hk, if_pos hk, hk, h]
      rfl
    · rw [if_neg hk, if_neg hk, Option.or_none]

/-- **a merge writes each key of the override once** -/
theorem lookup_mergeFields {override : Fields} (h : (override.map Prod.fst).Nodup)
    (merged : Fields) (k : String) :
    (mergeFields merged override).lookup k =
      match override.lookup k with
      | some value => some (mergeOver (merged.lookup k) value)
      | none => merged.lookup k := by
  induction override generalizing merged with
  | nil => rw [mergeFields, List.lookup_nil]
  | cons field fields ih =>
    obtain ⟨key, value⟩ := field
    rw [List.map_cons, List.nodup_cons] at h
    rw [mergeFields, ih h.2, lookup_mergeField, lookup_cons_ite]
    by_cases hk : k = key
    · have hnone : fields.lookup k = none := by
        rw [List.lookup_eq_none_iff]
        rintro ⟨k', v⟩ hmem
        rw [bne_iff_ne]
        rintro rfl
        exact h.1 (hk ▸ List.mem_map.2 ⟨_, hmem, rfl⟩)
      rw [hnone, if_pos hk, if_pos hk, hk]
    · rw [if_neg hk, if_neg hk]

/-- fields of other keys are written behind the ones there -/
theorem mergeFields_append {base fields : Fields} (h : ((base ++ fields).map Prod.fst).Nodup) :
    mergeFields base fields = base ++ fields := by
  induction fields generalizing base with
  | nil => rw [mergeFields, List.append_nil]
  | cons field fields ih =>
    obtain ⟨key, value⟩ := field
    have hl : base.lookup key = none := by
      refine List.lookup_eq_none_iff.mpr fun e he => bne_iff_ne.mpr fun hk => ?_
      rw [List.map_append, List.nodup_append] at h
      exact h.2.2 e.1 (List.mem_map_of_mem he) key List.mem_cons_self hk.symm
    have hfield : mergeField base (key, value) = base ++ [(key, value)] := by
      rw [mergeField, hl]
    rw [List.append_cons] at h ⊢
    rw [mergeFields, hfield]
    exact ih h

end Freepod
