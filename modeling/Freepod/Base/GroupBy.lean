import Mathlib.Algebra.Order.Ring.Int
import Mathlib.Data.List.Basic
import Mathlib.Order.Basic

/-!
# Groups of a stream

`groupBy key l` cuts a list where the key changes, as a reader of a stream does: rows with one key
that are not next to each other end up in several groups.

* `mem_groupBy_iff`: a list sorted by its key has one group for each key, all the rows with it.
* `groupBy_append` and `groupBy_const`: the groups of two parts without a common key, and of rows
  with one key.
* `filter_append_filter`: rows that come first form the first part.
-/

namespace Freepod.Base

variable {α κ : Type*} [DecidableEq κ] {key : α → κ}

/-- rows next to each other that have the same key, with that key -/
def groupBy (key : α → κ) : List α → List (κ × List α)
  | [] => []
  | a :: l =>
    match groupBy key l with
    | [] => [(key a, [a])]
    | (k, g) :: groups =>
      if key a = k then (k, a :: g) :: groups else (key a, [a]) :: (k, g) :: groups

@[simp] theorem groupBy_nil : groupBy key [] = [] := rfl

/-- every key of a group is the key of a row -/
theorem mem_of_groupBy {k : κ} {g : List α} {l : List α} (h : (k, g) ∈ groupBy key l) :
    ∃ a ∈ l, key a = k := by
  induction l generalizing k g with
  | nil => cases h
  | cons a l ih =>
    rw [groupBy] at h
    match hg : groupBy key l with
    | [] =>
      rw [hg, List.mem_singleton, Prod.mk.injEq] at h
      exact ⟨a, List.mem_cons_self, h.1.symm⟩
    | (k0, g0) :: groups =>
      rw [hg] at ih h
      have hrest : (k, g) ∈ (k0, g0) :: groups → ∃ b ∈ a :: l, key b = k := by
        intro h'
        obtain ⟨b, hb, hk⟩ := ih h'
        exact ⟨b, List.mem_cons_of_mem _ hb, hk⟩
      by_cases hk : key a = k0
      · simp only [hk, if_true] at h
        obtain h | h := List.mem_cons.1 h
        · exact ⟨a, List.mem_cons_self, hk.trans (Prod.mk.inj h).1.symm⟩
        · exact hrest (List.mem_cons_of_mem _ h)
      · simp only [hk, if_false] at h
        obtain h | h := List.mem_cons.1 h
        · exact ⟨a, List.mem_cons_self, (Prod.mk.inj h).1.symm⟩
        · exact hrest h

/-- rows with one key are one group -/
theorem groupBy_const {k : κ} {l : List α} (hne : l ≠ []) (h : ∀ a ∈ l, key a = k) :
    groupBy key l = [(k, l)] := by
  induction l with
  | nil => exact absurd rfl hne
  | cons a l ih =>
    have ha := h a List.mem_cons_self
    by_cases hl : l = []
    · rw [hl, groupBy, groupBy_nil, ha]
    · rw [groupBy, ih hl fun b hb => h b (List.mem_cons_of_mem _ hb)]
      simp [ha]

/-- the groups of two parts without a common key -/
theorem groupBy_append {l m : List α} (h : ∀ a ∈ l, ∀ b ∈ m, key a ≠ key b) :
    groupBy key (l ++ m) = groupBy key l ++ groupBy key m := by
  induction l with
  | nil => rfl
  | cons a l ih =>
    have ih := ih fun b hb => h b (List.mem_cons_of_mem _ hb)
    rw [List.cons_append, groupBy, groupBy, ih]
    match hl : groupBy key l with
    | (k, g) :: groups =>
      by_cases hk : key a = k
      · simp [hk]
      · simp [hk]
    | [] =>
      rw [List.nil_append]
      match hm : groupBy key m with
      | [] => rfl
      | (k, g) :: groups =>
        obtain ⟨b, hb, hbk⟩ := mem_of_groupBy (hm ▸ List.mem_cons_self)
        have hne : key a ≠ k := hbk ▸ h a List.mem_cons_self b hb
        simp [hne]

/-- rows that come before all others form the first part -/
theorem filter_append_filter {p : α → Bool} {l : List α}
    (h : l.Pairwise fun a b => p b = true → p a = true) :
    l.filter p ++ l.filter (fun a => !p a) = l := by
  induction l with
  | nil => rfl
  | cons a l ih =>
    rw [List.pairwise_cons] at h
    have ih := ih h.2
    by_cases ha : p a = true
    · rw [List.filter_cons_of_pos ha, List.filter_cons_of_neg (by simp [ha]), List.cons_append, ih]
    · have hnone : l.filter p = [] :=
        List.filter_eq_nil_iff.2 fun b hb hpb => ha (h.1 b hb hpb)
      rw [List.filter_cons_of_neg ha, List.filter_cons_of_pos (by simp [ha])]
      rw [hnone, List.nil_append] at ih ⊢
      rw [ih]

/-- **the groups of rows sorted by their key**: each holds all the rows with its key -/
theorem mem_groupBy_iff [LinearOrder κ] {l : List α} (h : l.Pairwise fun a b => key a ≤ key b)
    {k : κ} {g : List α} :
    (k, g) ∈ groupBy key l ↔ g ≠ [] ∧ g = l.filter fun a => key a = k := by
  -- the rows below `k`, those with `k`, and those above it
  obtain ⟨low, high, hsplit, hlow, hhigh⟩ : ∃ low high,
      l = low ++ ((l.filter fun a => key a = k) ++ high) ∧ (∀ a ∈ low, key a < k) ∧
        ∀ a ∈ high, k < key a := by
    have hlow := filter_append_filter (p := fun a => decide (key a < k))
      (h.imp fun hab hb => decide_eq_true (lt_of_le_of_lt hab (of_decide_eq_true hb)))
    have hrest : ∀ {a}, a ∈ l.filter (fun a => !decide (key a < k)) → k ≤ key a := by
      intro a ha
      rw [List.mem_filter, Bool.not_eq_true', decide_eq_false_iff_not, not_lt] at ha
      exact ha.2
    have hmid := filter_append_filter (l := l.filter fun a => !decide (key a < k))
      (p := fun a => decide (key a = k)) (by
        refine (h.filter _).imp_of_mem fun ha _ hab hb => ?_
        rw [decide_eq_true_eq] at hb ⊢
        exact le_antisymm (hb ▸ hab) (hrest ha))
    have hsame : (l.filter fun a => !decide (key a < k)).filter (fun a => decide (key a = k)) =
        l.filter fun a => key a = k := by
      rw [List.filter_filter]
      refine List.filter_congr fun a _ => ?_
      by_cases ha : key a = k
      · simp [ha]
      · simp [ha]
    rw [hsame] at hmid
    refine ⟨_, _, (hmid ▸ hlow).symm, fun a ha => ?_, fun a ha => ?_⟩
    · simpa using (List.mem_filter.1 ha).2
    · rw [List.mem_filter] at ha
      exact lt_of_le_of_ne (hrest ha.1) fun hk => by simp [hk] at ha
  have hkey : ∀ a ∈ l.filter (fun a => key a = k), key a = k := fun a ha => by
    simpa using (List.mem_filter.1 ha).2
  generalize l.filter (fun a => key a = k) = same at hsplit hkey ⊢
  rw [hsplit, groupBy_append, groupBy_append, List.mem_append, List.mem_append]
  · have hnone : ∀ {rows : List α}, (∀ a ∈ rows, key a ≠ k) → (k, g) ∉ groupBy key rows := by
      intro rows hrows hmem
      obtain ⟨a, ha, hak⟩ := mem_of_groupBy hmem
      exact hrows a ha hak
    rw [or_iff_right (hnone fun a ha => ne_of_lt (hlow a ha)),
      or_iff_left (hnone fun a ha => ne_of_gt (hhigh a ha))]
    by_cases hsame : same = []
    · rw [hsame, groupBy_nil]
      exact iff_of_false List.not_mem_nil fun hg => hg.1 hg.2
    · rw [groupBy_const hsame hkey, List.mem_singleton, Prod.mk.injEq]
      constructor
      · rintro ⟨-, rfl⟩
        exact ⟨hsame, rfl⟩
      · rintro ⟨-, rfl⟩
        exact ⟨rfl, rfl⟩
  · intro a ha b hb
    rw [hkey a ha]
    exact ne_of_lt (hhigh b hb)
  · intro a ha b hb
    have ha := hlow a ha
    obtain hb | hb := List.mem_append.1 hb
    · rw [hkey b hb]
      exact ne_of_lt ha
    · exact ne_of_lt (ha.trans (hhigh b hb))

end Freepod.Base
