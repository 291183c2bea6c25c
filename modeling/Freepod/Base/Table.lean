import Mathlib.Data.List.Nodup
import Mathlib.Data.List.Pairwise
import Mathlib.Data.List.Basic

/-!
# Keyed tables

A table is a list of rows in insertion order under two constraints: no two rows share a primary
key, and no two entries of its unique indexes are equal.  Both are fields, so a table that breaks
a constraint cannot be built, and a write that would break one is refused:

* `Table.get?` reads the row of a key, `Table.insert?` appends a row, `Table.put?` overwrites the
  row that has the key of the given one.
* `get?_eq_some`, `get?_insert?`, `get?_put?` say what a read returns after each.
* `eq_of_entry` is what a unique index gives: two rows with a common entry are one row.
-/

namespace Freepod.Base

/-- a row type: its primary key, and its entries in the unique indexes of its table -/
class Row (α : Type*) (κ ι : outParam Type*) where
  key : α → κ
  entries : α → List ι

/-- rows in insertion order that meet the table's constraints -/
@[ext] structure Table (α : Type*) {κ ι : Type*} [Row α κ ι] where
  rows : List α
  keys : (rows.map Row.key).Nodup
  unique : (rows.flatMap Row.entries).Nodup

namespace Table

set_option linter.unusedSectionVars false

variable {α κ ι : Type*} [Row α κ ι]

/-- the table without rows -/
def empty : Table α := ⟨[], List.nodup_nil, List.nodup_nil⟩

@[simp] theorem rows_empty : (empty : Table α).rows = [] := rfl

theorem eq_of_key {t : Table α} {r r' : α} (h : r ∈ t.rows) (h' : r' ∈ t.rows)
    (hk : Row.key r = Row.key r') : r = r' :=
  List.inj_on_of_nodup_map t.keys h h' hk

/-- **two rows with a common entry in a unique index are the same row** -/
theorem eq_of_entry {t : Table α} {r r' : α} {e : ι} (h : r ∈ t.rows) (h' : r' ∈ t.rows)
    (he : e ∈ Row.entries r) (he' : e ∈ Row.entries r') : r = r' := by
  by_contra hne
  have hp := (List.nodup_flatMap.mp t.unique).2
  have : Std.Symm (Function.onFun List.Disjoint (Row.entries : α → List ι)) :=
    ⟨fun _ _ hd _ hx hy => hd hy hx⟩
  exact hp.forall h h' hne he he'

variable [DecidableEq κ] [DecidableEq ι]

/-- the row of key `k` -/
def get? (t : Table α) (k : κ) : Option α :=
  t.rows.find? fun r => decide (Row.key r = k)

/-- the table of these rows, refused when they break a constraint -/
def ofRows? (rows : List α) : Option (Table α) :=
  if h : (rows.map Row.key).Nodup ∧ (rows.flatMap Row.entries).Nodup then
    some ⟨rows, h.1, h.2⟩
  else none

/-- the rows with the one that has the key of `a` overwritten -/
def overwrite (a : α) (rows : List α) : List α :=
  rows.map fun r => if Row.key r = Row.key a then a else r

/-- `INSERT` of `a` -/
def insert? (t : Table α) (a : α) : Option (Table α) := ofRows? (t.rows ++ [a])

/-- `UPDATE` of the row with the key of `a` to `a` -/
def put? (t : Table α) (a : α) : Option (Table α) := ofRows? (overwrite a t.rows)

@[simp] theorem get?_empty (k : κ) : (empty : Table α).get? k = none := rfl

theorem mem_of_get? {t : Table α} {k : κ} {r : α} (h : t.get? k = some r) : r ∈ t.rows :=
  List.mem_of_find?_eq_some h

theorem key_of_get? {t : Table α} {k : κ} {r : α} (h : t.get? k = some r) : Row.key r = k := by
  have := List.find?_some h
  exact of_decide_eq_true this

theorem get?_of_mem {t : Table α} {r : α} (h : r ∈ t.rows) : t.get? (Row.key r) = some r := by
  cases hg : t.get? (Row.key r) with
  | none =>
    have := List.find?_eq_none.mp hg r h
    simp at this
  | some r' => rw [eq_of_key (mem_of_get? hg) h (key_of_get? hg)]

/-- **a read finds exactly the row of the table with that key** -/
theorem get?_eq_some {t : Table α} {k : κ} {r : α} :
    t.get? k = some r ↔ r ∈ t.rows ∧ Row.key r = k := by
  constructor
  · intro h
    exact ⟨mem_of_get? h, key_of_get? h⟩
  · rintro ⟨h, rfl⟩
    exact get?_of_mem h

theorem get?_eq_none {t : Table α} {k : κ} :
    t.get? k = none ↔ ∀ r ∈ t.rows, Row.key r ≠ k := by
  simp [get?, List.find?_eq_none]

theorem ofRows?_eq_some {rows : List α} {t : Table α} : ofRows? rows = some t ↔ t.rows = rows := by
  unfold ofRows?
  constructor
  · intro h
    split at h
    · rw [← Option.some.inj h]
    · cases h
  · rintro rfl
    rw [dif_pos ⟨t.keys, t.unique⟩]

theorem insert?_eq_some {t t' : Table α} {a : α} :
    t.insert? a = some t' ↔ t'.rows = t.rows ++ [a] := ofRows?_eq_some

theorem put?_eq_some {t t' : Table α} {a : α} :
    t.put? a = some t' ↔ t'.rows = overwrite a t.rows := ofRows?_eq_some

theorem get?_of_insert? {t t' : Table α} {a : α} (h : t.insert? a = some t') :
    t.get? (Row.key a) = none := by
  refine get?_eq_none.mpr fun r hr hk => ?_
  have hn := t'.keys
  rw [insert?_eq_some.mp h, List.map_append, List.nodup_append] at hn
  exact hn.2.2 _ (List.mem_map_of_mem hr) _ (List.mem_map_of_mem List.mem_cons_self) hk

theorem mem_insert? {t t' : Table α} {a r : α} (h : t.insert? a = some t') :
    r ∈ t'.rows ↔ r ∈ t.rows ∨ r = a := by
  rw [insert?_eq_some.mp h, List.mem_append, List.mem_singleton]

theorem get?_insert? {t t' : Table α} {a : α} (h : t.insert? a = some t') (k : κ) :
    t'.get? k = if k = Row.key a then some a else t.get? k := by
  by_cases hk : k = Row.key a
  · rw [if_pos hk, get?_eq_some, mem_insert? h]
    exact ⟨.inr rfl, hk.symm⟩
  · rw [if_neg hk, get?, insert?_eq_some.mp h, List.find?_append]
    have : ([a] : List α).find? (fun r => decide (Row.key r = k)) = none := by
      simp [Ne.symm hk]
    rw [this, Option.or_none]
    rfl

theorem get?_insert?_self {t t' : Table α} {a : α} (h : t.insert? a = some t') :
    t'.get? (Row.key a) = some a := by
  rw [get?_insert? h, if_pos rfl]

theorem get?_insert?_of_get? {t t' : Table α} {a r : α} {k : κ} (h : t.insert? a = some t')
    (hr : t.get? k = some r) : t'.get? k = some r := by
  rw [get?_insert? h]
  split
  · rename_i hk
    rw [hk, get?_of_insert? h] at hr
    cases hr
  · exact hr

theorem get?_put? {t t' : Table α} {a : α} (h : t.put? a = some t') (k : κ) :
    t'.get? k = if k = Row.key a then (t.get? k).map fun _ => a else t.get? k := by
  rw [get?, put?_eq_some.mp h, overwrite, List.find?_map]
  have : (fun r => decide (Row.key r = k)) ∘ (fun r : α => if Row.key r = Row.key a then a else r)
      = fun r => decide (Row.key r = k) := by
    funext r
    show decide (Row.key (if Row.key r = Row.key a then a else r) = k) = _
    by_cases hr : Row.key r = Row.key a
    · rw [if_pos hr, hr]
    · rw [if_neg hr]
  rw [this]
  show (t.get? k).map _ = _
  cases hg : t.get? k with
  | none => simp
  | some r =>
    have hk := key_of_get? hg
    by_cases hka : k = Row.key a
    · simp [hk, hka]
    · simp [hk, hka]

theorem get?_put?_self {t t' : Table α} {a r : α} (h : t.put? a = some t')
    (hr : t.get? (Row.key a) = some r) : t'.get? (Row.key a) = some a := by
  rw [get?_put? h, if_pos rfl, hr]
  rfl

theorem get?_put?_of_ne {t t' : Table α} {a : α} {k : κ} (h : t.put? a = some t')
    (hk : k ≠ Row.key a) : t'.get? k = t.get? k := by
  rw [get?_put? h, if_neg hk]

theorem mem_put? {t t' : Table α} {a r : α} (h : t.put? a = some t') (hr : r ∈ t'.rows) :
    r = a ∨ (r ∈ t.rows ∧ Row.key r ≠ Row.key a) := by
  rw [put?_eq_some.mp h, overwrite, List.mem_map] at hr
  obtain ⟨x, hx, rfl⟩ := hr
  by_cases hk : Row.key x = Row.key a
  · exact .inl (if_pos hk)
  · rw [if_neg hk]
    exact .inr ⟨hx, hk⟩

/-- an overwrite leaves alone exactly what the new row shares with the old one -/
theorem map_overwrite {β : Type*} {t : Table α} {a r : α} (f : α → β)
    (hr : t.get? (Row.key a) = some r) :
    (overwrite a t.rows).map f = t.rows.map f ↔ f a = f r := by
  rw [overwrite, List.map_map, List.map_inj_left]
  constructor
  · intro h
    have hra := h r (mem_of_get? hr)
    rwa [Function.comp_apply, if_pos (key_of_get? hr)] at hra
  · intro hf x hx
    show f (if Row.key x = Row.key a then a else x) = f x
    by_cases hk : Row.key x = Row.key a
    · rw [if_pos hk, hf, eq_of_key hx (mem_of_get? hr) (hk.trans (key_of_get? hr).symm)]
    · rw [if_neg hk]

/-- a row whose entries no other row has can be overwritten with -/
theorem put?_isSome_of_apart {t : Table α} {a r : α} (hr : t.get? (Row.key a) = some r)
    (hn : (Row.entries a).Nodup)
    (he : ∀ x ∈ t.rows, Row.key x ≠ Row.key a → ∀ e ∈ Row.entries x, e ∉ Row.entries a) :
    ∃ t', t.put? a = some t' := by
  have hk : (overwrite a t.rows).map Row.key = t.rows.map Row.key :=
    (map_overwrite Row.key hr).mpr (key_of_get? hr).symm
  obtain ⟨hentries, hapart⟩ := List.nodup_flatMap.mp t.unique
  have hkeys : t.rows.Pairwise fun x y => Row.key x ≠ Row.key y := List.pairwise_map.mp t.keys
  have hu : ((overwrite a t.rows).flatMap Row.entries).Nodup := by
    refine List.nodup_flatMap.mpr ⟨fun y hy => ?_, ?_⟩
    · obtain ⟨x, hx, rfl⟩ := List.mem_map.mp hy
      split
      · exact hn
      · exact hentries x hx
    · refine List.pairwise_map.mpr (List.Pairwise.imp_of_mem ?_ (hapart.and hkeys))
      intro x y hx hy ⟨hxy, hne⟩ e hex hey
      -- at most one of two rows is the overwritten one
      by_cases hxa : Row.key x = Row.key a
      · rw [if_pos hxa] at hex
        rw [if_neg fun hya => hne (hxa.trans hya.symm)] at hey
        exact he y hy (fun hya => hne (hxa.trans hya.symm)) e hey hex
      · rw [if_neg hxa] at hex
        by_cases hya : Row.key y = Row.key a
        · rw [if_pos hya] at hey
          exact he x hx hxa e hex hey
        · rw [if_neg hya] at hey
          exact hxy hex hey
  exact ⟨⟨overwrite a t.rows, hk ▸ t.keys, hu⟩, put?_eq_some.mpr rfl⟩

/-- overwriting a row with one that has some of its entries breaks no constraint -/
theorem put?_isSome_of_sublist {t : Table α} {a r : α} (hr : t.get? (Row.key a) = some r)
    (he : (Row.entries a).Sublist (Row.entries r)) : ∃ t', t.put? a = some t' := by
  have hmem := mem_of_get? hr
  refine put?_isSome_of_apart hr (he.nodup ((List.nodup_flatMap.mp t.unique).1 r hmem)) ?_
  intro x hx hne e hex hea
  exact hne ((congrArg Row.key (eq_of_entry hx hmem hex (he.subset hea))).trans (key_of_get? hr))

theorem put?_isSome {t : Table α} {a r : α} (hr : t.get? (Row.key a) = some r)
    (he : Row.entries a = Row.entries r) : ∃ t', t.put? a = some t' :=
  put?_isSome_of_sublist hr (he ▸ List.Sublist.refl _)

/-- a row whose key and entries are free can be inserted -/
theorem insert?_isSome {t : Table α} {a : α} (hk : ∀ r ∈ t.rows, Row.key r ≠ Row.key a)
    (he : ∀ r ∈ t.rows, ∀ e ∈ Row.entries r, e ∉ Row.entries a) (hn : (Row.entries a).Nodup) :
    ∃ t', t.insert? a = some t' := by
  refine ⟨⟨t.rows ++ [a], ?_, ?_⟩, insert?_eq_some.mpr rfl⟩
  · rw [List.map_append, List.nodup_append]
    refine ⟨t.keys, List.nodup_singleton _, fun k hmem k' hk' => ?_⟩
    obtain ⟨r, hr, rfl⟩ := List.mem_map.mp hmem
    rw [List.mem_singleton.mp hk']
    exact hk r hr
  · rw [List.flatMap_append, List.nodup_append]
    refine ⟨t.unique, ?_, fun e hmem e' he' => ?_⟩
    · rwa [List.flatMap_singleton]
    · obtain ⟨r, hr, hre⟩ := List.mem_flatMap.mp hmem
      rw [List.flatMap_singleton] at he'
      rintro rfl
      exact he r hr e hre he'

/-- the row with key `k`, if there is one, by a function that keeps its key and its entries -/
def modify (t : Table α) (k : κ) (f : α → α) (hkey : ∀ r, Row.key (f r) = Row.key r)
    (hentries : ∀ r, Row.entries (f r) = Row.entries r) : Table α where
  rows := t.rows.map fun r => if Row.key r = k then f r else r
  keys := by
    have hsame : Row.key ∘ (fun r : α => if Row.key r = k then f r else r) = Row.key := by
      funext r
      show Row.key (if Row.key r = k then f r else r) = Row.key r
      split
      · exact hkey r
      · rfl
    rw [List.map_map, hsame]
    exact t.keys
  unique := by
    have hsame : (fun r : α => Row.entries (if Row.key r = k then f r else r)) = Row.entries := by
      funext r
      split
      · exact hentries r
      · rfl
    rw [List.flatMap_map, hsame]
    exact t.unique

section
variable {k : κ} {f : α → α} {hkey : ∀ r, Row.key (f r) = Row.key r}
  {hentries : ∀ r, Row.entries (f r) = Row.entries r}

theorem filter_modify (t : Table α) {p : α → Bool} (hp : ∀ r, p (f r) = p r) :
    (t.modify k f hkey hentries).rows.filter p =
      (t.rows.filter p).map fun r => if Row.key r = k then f r else r := by
  have hsame : p ∘ (fun r : α => if Row.key r = k then f r else r) = p := by
    funext r
    show p (if Row.key r = k then f r else r) = p r
    split
    · exact hp r
    · rfl
  show (t.rows.map _).filter p = _
  rw [List.filter_map, hsame]

theorem get?_modify (t : Table α) (k' : κ) :
    (t.modify k f hkey hentries).get? k' = if k' = k then (t.get? k').map f else t.get? k' := by
  have hp : ∀ r, decide (Row.key (f r) = k') = decide (Row.key r = k') := fun r => by rw [hkey]
  have hfilter : ((t.modify k f hkey hentries).rows.filter fun r => decide (Row.key r = k')) =
      (t.rows.filter fun r => decide (Row.key r = k')).map fun r =>
        if Row.key r = k then f r else r := filter_modify t hp
  rw [get?, get?, ← List.head?_filter, ← List.head?_filter, hfilter, List.head?_map]
  cases hhead : (t.rows.filter fun r => decide (Row.key r = k')).head? with
  | none => simp
  | some r =>
    have hr : Row.key r = k' := by
      have hmem := List.mem_filter.mp (List.mem_of_mem_head? hhead)
      exact of_decide_eq_true hmem.2
    show some (if Row.key r = k then f r else r) = _
    rw [hr]
    by_cases hk : k' = k
    · rw [if_pos hk, if_pos hk]
      rfl
    · rw [if_neg hk, if_neg hk]

theorem get?_modify_self (t : Table α) {r : α} (h : t.get? k = some r) :
    (t.modify k f hkey hentries).get? k = some (f r) := by
  rw [get?_modify, if_pos rfl, h]
  rfl

end

theorem nodup_rows (t : Table α) : t.rows.Nodup := List.Nodup.of_map Row.key t.keys

/-- what can be met by one row only is met by the one that a search finds -/
theorem filter_toList (t : Table α) {p : α → Bool}
    (h : ∀ r ∈ t.rows, ∀ r' ∈ t.rows, p r = true → p r' = true → r = r') :
    t.rows.filter p = (t.rows.find? p).toList := by
  have hsub : ∀ l : List α, l.Nodup → (∀ r ∈ l, ∀ r' ∈ l, p r = true → p r' = true → r = r') →
      l.filter p = (l.find? p).toList := by
    intro l hl hone
    induction l with
    | nil => rfl
    | cons a l ih =>
      rw [List.nodup_cons] at hl
      rw [List.filter_cons, List.find?_cons]
      by_cases ha : p a = true
      · have hnone : l.filter p = [] := by
          refine List.filter_eq_nil_iff.mpr fun r hr hp => hl.1 ?_
          rwa [hone a List.mem_cons_self r (List.mem_cons_of_mem a hr) ha hp]
        rw [if_pos ha, ha, hnone]
        rfl
      · rw [if_neg ha, Bool.eq_false_iff.mpr ha]
        exact ih hl.2 fun r hr r' hr' =>
          hone r (List.mem_cons_of_mem a hr) r' (List.mem_cons_of_mem a hr')
  exact hsub t.rows t.nodup_rows h

/-- the rows with a key are the one that a read of it finds -/
theorem filter_key (t : Table α) (k : κ) :
    (t.rows.filter fun r => decide (Row.key r = k)) = (t.get? k).toList :=
  t.filter_toList fun _ hr _ hr' h h' =>
    eq_of_key hr hr' ((of_decide_eq_true h).trans (of_decide_eq_true h').symm)

end Table

theorem le_foldr_max {l : List Nat} {n : Nat} (h : n ∈ l) : n ≤ l.foldr max 0 := by
  induction l with
  | nil => cases h
  | cons x l ih =>
    rw [List.foldr_cons]
    cases h with
    | head => exact Nat.le_max_left _ _
    | tail _ h => exact Nat.le_trans (ih h) (Nat.le_max_right _ _)

/-- the next value of the sequence behind an integer key -/
def Table.nextKey {α ι : Type*} [Row α Nat ι] (t : Table α) : Nat :=
  (t.rows.map Row.key).foldr max 0 + 1

theorem Table.get?_nextKey {α ι : Type*} [Row α Nat ι] [DecidableEq ι] (t : Table α) :
    t.get? t.nextKey = none := by
  refine get?_eq_none.mpr fun r hr hk => ?_
  have := le_foldr_max (List.mem_map_of_mem (f := Row.key) hr)
  rw [hk, nextKey] at this
  omega

end Freepod.Base
