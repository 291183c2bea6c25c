import Mathlib.Data.List.Basic

/-!
# Association lists with one place for each key

`setKey k v l` is the assignment `l[k] = v` of a dictionary that keeps insertion order.
`lookup_setKey` says what a read returns after it, `mem_setKey` which entries there are, and
`nodup_setKey` that it keeps the keys distinct.
-/

namespace Freepod.Base

variable {κ β : Type*} [DecidableEq κ]

/-- `v` at key `k`, in the place of the entry it replaces or at the end -/
def setKey (k : κ) (v : β) : List (κ × β) → List (κ × β)
  | [] => [(k, v)]
  | (k', v') :: l => if k' = k then (k, v) :: l else (k', v') :: setKey k v l

theorem lookup_cons_ite (k k' : κ) (v : β) (l : List (κ × β)) :
    ((k', v) :: l).lookup k = if k = k' then some v else l.lookup k := by
  rw [List.lookup_cons]
  by_cases h : k = k'
  · rw [if_pos h, h, beq_self_eq_true]
  · rw [if_neg h, beq_eq_false_iff_ne.mpr h]

theorem lookup_setKey (k k' : κ) (v : β) (l : List (κ × β)) :
    (setKey k v l).lookup k' = if k' = k then some v else l.lookup k' := by
  induction l with
  | nil => simp [setKey, lookup_cons_ite]
  | cons e l ih =>
    obtain ⟨k₁, v₁⟩ := e
    by_cases h : k₁ = k
    · subst h
      by_cases hk : k' = k₁
      · simp [setKey, hk]
      · simp [setKey, lookup_cons_ite, hk]
    · by_cases hk : k' = k₁
      · subst hk
        simp [setKey, h]
      · simp [setKey, lookup_cons_ite, h, hk, ih]

theorem mem_setKey {k : κ} {v : β} {l : List (κ × β)} {e : κ × β}
    (h : e ∈ setKey k v l) : e = (k, v) ∨ e ∈ l := by
  induction l with
  | nil => exact .inl (List.mem_singleton.1 h)
  | cons e' l ih =>
    obtain ⟨k', v'⟩ := e'
    unfold setKey at h
    split at h
    · obtain h | h := List.mem_cons.1 h
      · exact .inl h
      · exact .inr (List.mem_cons_of_mem _ h)
    · obtain h | h := List.mem_cons.1 h
      · exact .inr (h ▸ List.mem_cons_self)
      · exact (ih h).imp_right (List.mem_cons_of_mem _)

theorem mem_map_fst_setKey {k k' : κ} {v : β} {l : List (κ × β)} :
    k' ∈ (setKey k v l).map Prod.fst ↔ k' = k ∨ k' ∈ l.map Prod.fst := by
  induction l with
  | nil => simp [setKey]
  | cons e l ih =>
    obtain ⟨k₁, v₁⟩ := e
    unfold setKey
    split
    · rename_i hk
      simp [hk]
    · rw [List.map_cons, List.mem_cons, ih, List.map_cons, List.mem_cons]
      tauto

theorem setKey_of_notMem {k : κ} {v : β} {l : List (κ × β)} (h : k ∉ l.map Prod.fst) :
    setKey k v l = l ++ [(k, v)] := by
  induction l with
  | nil => rfl
  | cons e l ih =>
    obtain ⟨k₁, v₁⟩ := e
    rw [List.map_cons, List.mem_cons, not_or] at h
    rw [setKey, if_neg fun he => h.1 he.symm, ih h.2, List.cons_append]

/-- what a key holds already -/
theorem setKey_of_lookup {k : κ} {v : β} {l : List (κ × β)} (h : l.lookup k = some v) :
    setKey k v l = l := by
  induction l with
  | nil => cases h
  | cons e l ih =>
    obtain ⟨k₁, v₁⟩ := e
    rw [lookup_cons_ite] at h
    rw [setKey]
    by_cases hk : k₁ = k
    · rw [if_pos hk.symm] at h
      rw [if_pos hk, hk, Option.some.inj h]
    · rw [if_neg fun he => hk he.symm] at h
      rw [if_neg hk, ih h]

theorem nodup_setKey {k : κ} {v : β} {l : List (κ × β)} (h : (l.map Prod.fst).Nodup) :
    ((setKey k v l).map Prod.fst).Nodup := by
  induction l with
  | nil => simp [setKey]
  | cons e l ih =>
    obtain ⟨k₁, v₁⟩ := e
    rw [List.map_cons, List.nodup_cons] at h
    unfold setKey
    split
    · rename_i hk
      rw [List.map_cons, List.nodup_cons, ← hk]
      exact h
    · rename_i hk
      rw [List.map_cons, List.nodup_cons, mem_map_fst_setKey, not_or]
      exact ⟨⟨hk, h.1⟩, ih h.2⟩

/-- an entry of a list with distinct keys is what a read of its key returns -/
theorem lookup_eq_some_iff_mem {k : κ} {v : β} {l : List (κ × β)} (h : (l.map Prod.fst).Nodup) :
    l.lookup k = some v ↔ (k, v) ∈ l := by
  induction l with
  | nil => simp
  | cons e l ih =>
    obtain ⟨k', v'⟩ := e
    rw [List.map_cons, List.nodup_cons] at h
    rw [lookup_cons_ite, List.mem_cons, Prod.mk.injEq]
    split
    · rename_i hk
      constructor
      · intro he
        exact .inl ⟨hk, (Option.some.inj he).symm⟩
      · rintro (⟨-, he⟩ | hmem)
        · rw [he]
        · exact absurd (List.mem_map_of_mem (f := Prod.fst) hmem) (hk ▸ h.1)
    · rename_i hk
      rw [ih h.2]
      constructor
      · exact .inr
      · rintro (⟨he, -⟩ | hmem)
        · exact absurd he hk
        · exact hmem

theorem lookup_eq_none_iff_notMem {k : κ} {l : List (κ × β)} :
    l.lookup k = none ↔ k ∉ l.map Prod.fst := by
  induction l with
  | nil => simp
  | cons e l ih =>
    obtain ⟨k', v'⟩ := e
    rw [lookup_cons_ite, List.map_cons, List.mem_cons, not_or]
    split
    · rename_i hk
      exact ⟨fun h => (nomatch h), fun h => absurd hk h.1⟩
    · rename_i hk
      rw [ih]
      exact ⟨fun h => ⟨hk, h⟩, fun h => h.2⟩

theorem lookup_map_snd {γ : Type*} (f : β → γ) (l : List (κ × β)) (k : κ) :
    (l.map fun e => (e.1, f e.2)).lookup k = (l.lookup k).map f := by
  induction l with
  | nil => rfl
  | cons e l ih =>
    obtain ⟨k', v⟩ := e
    rw [List.map_cons, lookup_cons_ite, lookup_cons_ite]
    split
    · rfl
    · exact ih

/-- the same where the new value depends on the key -/
theorem lookup_map_key (f : κ → β → β) (l : List (κ × β)) (k : κ) :
    (l.map fun e => (e.1, f e.1 e.2)).lookup k = (l.lookup k).map (f k) := by
  induction l with
  | nil => rfl
  | cons e l ih =>
    obtain ⟨k', v⟩ := e
    rw [List.map_cons, lookup_cons_ite, lookup_cons_ite]
    split
    · rename_i hk
      rw [hk]
      rfl
    · exact ih

theorem mem_of_lookup {k : κ} {v : β} {l : List (κ × β)} (h : l.lookup k = some v) :
    (k, v) ∈ l := by
  obtain ⟨l₁, l₂, rfl, -⟩ := List.lookup_eq_some_iff.mp h
  exact List.mem_append_right _ List.mem_cons_self

/-- what a read returns after a filter of the keys -/
theorem lookup_filter_key {p : κ → Bool} (l : List (κ × β)) (k : κ) :
    (l.filter fun e => p e.1).lookup k = if p k = true then l.lookup k else none := by
  induction l with
  | nil => simp
  | cons e l ih =>
    obtain ⟨k', v⟩ := e
    by_cases hp : p k' = true
    · rw [List.filter_cons_of_pos (p := fun e : κ × β => p e.1) hp, lookup_cons_ite, lookup_cons_ite, ih]
      by_cases hk : k = k'
      · rw [if_pos hk, if_pos hk, hk, if_pos hp]
      · rw [if_neg hk, if_neg hk]
    · rw [List.filter_cons_of_neg (p := fun e : κ × β => p e.1) hp, lookup_cons_ite, ih]
      by_cases hk : k = k'
      · rw [hk, if_neg hp, if_neg hp]
      · rw [if_neg hk]

/-- what a read returns after a filter of the values -/
theorem lookup_filter {p : β → Bool} {l : List (κ × β)} (h : (l.map Prod.fst).Nodup) (k : κ)
    (v : β) : (l.filter fun e => p e.2).lookup k = some v ↔ l.lookup k = some v ∧ p v = true := by
  rw [lookup_eq_some_iff_mem h, lookup_eq_some_iff_mem
    (h.sublist (List.filter_sublist.map Prod.fst)), List.mem_filter]

end Freepod.Base
