import Freepod.Values.Document

/-!
# What stands at a path of a document

A document is seen through the nodes at its paths, which forgets the order of an object's keys.
`decides` says at which paths an override has the last word in a merge.

* `nodeAt_mergeOver`: a merged document shows the override where it decides, else the base.
* `uniqueKeys_deepMerge`: a merge of documents with unique keys has unique keys.
-/

namespace Freepod
open Base

/-- a step into an object or an array -/
inductive Step
  | key (key : String)
  | index (i : Nat)
  deriving DecidableEq, Repr

abbrev Path := List Step

/-- a value without its children -/
inductive Node
  | null
  | bool (b : Bool)
  | num (mantissa : Int) (scale : Nat)
  | str (s : String)
  | arr (length : Nat)
  | obj
  deriving DecidableEq, Repr

def Json.node : Json → Node
  | .null => .null
  | .bool b => .bool b
  | .num mantissa scale => .num mantissa scale
  | .str s => .str s
  | .arr items => .arr items.length
  | .obj _ => .obj

/-- the node at a path, if there is one -/
def nodeAt : Option Json → Path → Option Node
  | none, _ => none
  | some value, [] => some value.node
  | some (.obj fields), .key k :: path => nodeAt (fields.lookup k) path
  | some (.arr items), .index i :: path => nodeAt items[i]? path
  | some _, _ :: _ => none

/-- the two documents have the same nodes at the same paths -/
def SameDocument (a b : Option Json) : Prop := ∀ path, nodeAt a path = nodeAt b path

/-- merged over any base, the override alone says what stands at the path -/
def decides : Option Json → Path → Bool
  | none, _ => false
  | some (.obj _), [] => true
  | some (.obj fields), .key k :: path => decides (fields.lookup k) path
  | some _, _ => true

theorem nodeAt_none (path : Path) : nodeAt none path = none := by
  cases path with
  | nil => rfl
  | cons step path => rfl

theorem decides_none (path : Path) : decides none path = false := by
  cases path with
  | nil => rfl
  | cons step path => rfl

theorem decides_of_not_obj {value : Json} (h : value.isObj = false) (path : Path) :
    decides (some value) path = true := by
  cases value with
  | obj fields => cases h
  | _ =>
    cases path with
    | nil => rfl
    | cons step path => rfl

/-- an override that does not decide what stands at a path has nothing there -/
theorem nodeAt_of_not_decides {path : Path} {value : Option Json}
    (h : decides value path = false) : nodeAt value path = none := by
  induction path generalizing value with
  | nil =>
    cases value with
    | none => rfl
    | some value =>
      cases value with
      | obj fields => cases h
      | _ => cases h
  | cons step path ih =>
    cases value with
    | none => rfl
    | some value =>
      cases value with
      | obj fields =>
        cases step with
        | key k => exact ih h
        | index i => cases h
      | _ => cases h

/-- the path of a node an override does not decide goes through a key -/
theorem nodeAt_of_undecided {path : Path} {value base : Json}
    (h : decides (some value) path = false) (hb : base.isObj = false) :
    nodeAt (some base) path = none := by
  cases path with
  | nil =>
    cases value with
    | obj fields => cases h
    | _ => cases h
  | cons step path =>
    cases value with
    | obj fields =>
      cases step with
      | index i => cases h
      | key k =>
        cases base with
        | obj fields => cases hb
        | _ => rfl
    | _ => cases h

/-- **a merged document shows the override where it decides, else the base** -/
theorem nodeAt_mergeOver {value : Json} (hu : uniqueKeys value = true) (base : Option Json)
    (path : Path) : nodeAt (some (mergeOver base value)) path =
      if decides (some value) path = true then nodeAt (some value) path else nodeAt base path := by
  induction path generalizing value base with
  | nil =>
    cases value with
    | obj fields =>
      cases base with
      | none => rfl
      | some base =>
        cases base with
        | obj fields' =>
          rw [mergeOver, deepMerge_obj]
          rfl
        | _ =>
          rw [mergeOver, deepMerge_of_not_obj (.inl rfl)]
          rfl
    | _ =>
      rw [mergeOver_of_not_obj rfl]
      rfl
  | cons step path ih =>
    by_cases hobj : value.isObj = false
    · rw [mergeOver_of_not_obj hobj, decides_of_not_obj hobj, if_pos rfl]
    obtain ⟨fields, rfl⟩ : ∃ fields, value = .obj fields := by
      cases value with
      | obj fields => exact ⟨fields, rfl⟩
      | _ => exact absurd rfl hobj
    have hkeep : ∀ b : Json, b.isObj = false →
        nodeAt (some (mergeOver (some b) (.obj fields))) (step :: path) =
          if decides (some (.obj fields)) (step :: path) = true then
            nodeAt (some (.obj fields)) (step :: path)
          else nodeAt (some b) (step :: path) := by
      intro b hb
      rw [mergeOver, deepMerge_of_not_obj (.inl hb)]
      split
      · rfl
      · rename_i hd
        rw [Bool.not_eq_true] at hd
        rw [nodeAt_of_undecided hd hb, nodeAt_of_not_decides hd]
    cases base with
    | none =>
      show nodeAt (some (.obj fields)) (step :: path) = _
      split
      · rfl
      · rename_i hd
        rw [Bool.not_eq_true] at hd
        rw [nodeAt_of_not_decides hd]
        rfl
    | some base =>
      cases base with
      | obj fields' =>
        rw [mergeOver, deepMerge_obj]
        cases step with
        | index i => rfl
        | key k =>
          obtain ⟨hnodup, hfields⟩ := uniqueKeys_obj.mp hu
          show nodeAt ((mergeFields fields' fields).lookup k) path =
            if decides (fields.lookup k) path = true then nodeAt (fields.lookup k) path
            else nodeAt (fields'.lookup k) path
          rw [lookup_mergeFields hnodup]
          cases hl : fields.lookup k with
          | none => rw [decides_none, if_neg Bool.false_ne_true]
          | some value => exact ih (uniqueKeys_lookup hfields hl) _
      | _ =>
        refine hkeep _ ?_
        rfl

/-! ## Unique keys -/

theorem uniqueKeysFields_iff {fields : Fields} :
    uniqueKeysFields fields = true ↔ ∀ e ∈ fields, uniqueKeys e.2 = true := by
  induction fields with
  | nil => simp [uniqueKeysFields]
  | cons field fields ih =>
    obtain ⟨key, value⟩ := field
    rw [uniqueKeysFields, Bool.and_eq_true, uniqueKeysField, ih, List.forall_mem_cons]

theorem map_fst_setKey {key : String} {value base : Json} {fields : Fields}
    (h : fields.lookup key = some base) :
    (setKey key value fields).map Prod.fst = fields.map Prod.fst := by
  induction fields with
  | nil => cases h
  | cons field fields ih =>
    obtain ⟨k, v⟩ := field
    rw [lookup_cons_ite] at h
    rw [setKey]
    by_cases hk : k = key
    · rw [if_pos hk, List.map_cons, List.map_cons, hk]
    · rw [if_neg (Ne.symm hk)] at h
      rw [if_neg hk, List.map_cons, List.map_cons, ih h]

theorem uniqueKeys_setKey {key : String} {value base : Json} {fields : Fields}
    (hu : uniqueKeys (.obj fields) = true) (hv : uniqueKeys value = true)
    (h : fields.lookup key = some base) : uniqueKeys (.obj (setKey key value fields)) = true := by
  obtain ⟨hnodup, hfields⟩ := uniqueKeys_obj.mp hu
  refine uniqueKeys_obj.mpr ⟨?_, ?_⟩
  · rw [map_fst_setKey h]
    exact hnodup
  · refine uniqueKeysFields_iff.mpr fun e he => ?_
    obtain rfl | he := mem_setKey he
    · exact hv
    · exact uniqueKeysFields_iff.mp hfields e he

theorem uniqueKeys_append {key : String} {value : Json} {fields : Fields}
    (hu : uniqueKeys (.obj fields) = true) (hv : uniqueKeys value = true)
    (h : fields.lookup key = none) : uniqueKeys (.obj (fields ++ [(key, value)])) = true := by
  obtain ⟨hnodup, hfields⟩ := uniqueKeys_obj.mp hu
  refine uniqueKeys_obj.mpr ⟨?_, ?_⟩
  · rw [List.map_append, List.map_singleton]
    refine List.nodup_append.mpr ⟨hnodup, List.pairwise_singleton _ _, ?_⟩
    intro k hk k' hk'
    obtain rfl := List.mem_singleton.mp hk'
    obtain ⟨e, he, rfl⟩ := List.mem_map.mp hk
    have := List.lookup_eq_none_iff.mp h e he
    exact Ne.symm (bne_iff_ne.mp this)
  · refine uniqueKeysFields_iff.mpr fun e he => ?_
    obtain he | he := List.mem_append.mp he
    · exact uniqueKeysFields_iff.mp hfields e he
    · rw [List.mem_singleton.mp he]
      exact hv

mutual
theorem uniqueKeys_deepMerge (base : Json) (hb : uniqueKeys base = true) :
    ∀ override : Json, uniqueKeys override = true → uniqueKeys (deepMerge base override) = true
  | .obj fields, ho => by
    cases base with
    | obj merged =>
      rw [deepMerge_obj]
      exact uniqueKeys_mergeFields merged hb fields (uniqueKeys_obj.mp ho).2
    | _ =>
      rw [deepMerge_of_not_obj (.inl rfl)]
      exact ho
  | .null, ho | .bool _, ho | .num _ _, ho | .str _, ho | .arr _, ho => by
    rw [deepMerge_of_not_obj (.inr rfl)]
    exact ho

theorem uniqueKeys_mergeFields (merged : Fields) (hm : uniqueKeys (.obj merged) = true) :
    ∀ fields : Fields, uniqueKeysFields fields = true →
      uniqueKeys (.obj (mergeFields merged fields)) = true
  | [], _ => by
    rw [mergeFields]
    exact hm
  | field :: fields, ho => by
    rw [uniqueKeysFields, Bool.and_eq_true] at ho
    rw [mergeFields]
    exact uniqueKeys_mergeFields _ (uniqueKeys_mergeField merged hm field ho.1) fields ho.2

theorem uniqueKeys_mergeField (merged : Fields) (hm : uniqueKeys (.obj merged) = true) :
    ∀ field : String × Json, uniqueKeysField field = true →
      uniqueKeys (.obj (mergeField merged field)) = true
  | (key, value), ho => by
    rw [uniqueKeysField] at ho
    rw [mergeField]
    cases h : merged.lookup key with
    | none => exact uniqueKeys_append hm ho h
    | some base =>
      have hbase := uniqueKeys_lookup (uniqueKeys_obj.mp hm).2 h
      exact uniqueKeys_setKey hm (uniqueKeys_deepMerge base hbase value ho) h
end

end Freepod
