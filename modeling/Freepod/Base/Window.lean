import Mathlib.Data.Finset.Dedup
import Mathlib.Data.Finset.Card

/-!
# The first `n` distinct elements of a list

`window n l` walks `l` once and keeps an element when it is new and fewer than `n` are kept.

* `mem_window`: an element is kept iff fewer than `n` distinct elements stand before it.
* `mem_window_filter`: leaving elements out never pushes another one out.
* `mem_window_append`: elements put in front make up for those left out, and others come in only
  where more are left out than are put in front.
-/

namespace Freepod.Base

variable {α : Type*} [DecidableEq α]

/-- one step of the walk: `x` kept when it is new and there is room -/
def pushWindow (n : Nat) (kept : List α) (x : α) : List α :=
  if x ∉ kept ∧ kept.length < n then kept ++ [x] else kept

/-- the first `n` distinct elements of `l` -/
def window (n : Nat) (l : List α) : List α := l.foldl (pushWindow n) []

/-- the elements before the first `y` -/
def before (y : α) : List α → List α
  | [] => []
  | x :: l => if x = y then [] else x :: before y l

theorem before_append_of_mem {y : α} {l : List α} (h : y ∈ l) (m : List α) :
    before y (l ++ m) = before y l := by
  induction l with
  | nil => cases h
  | cons x l ih =>
    by_cases hx : x = y
    · simp only [List.cons_append, before, hx, if_true]
    · have hy : y ∈ l := (List.mem_cons.mp h).resolve_left (Ne.symm hx)
      simp only [List.cons_append, before, hx, if_false, ih hy]

theorem before_append_of_not_mem {y : α} {l : List α} (h : y ∉ l) (m : List α) :
    before y (l ++ m) = l ++ before y m := by
  induction l with
  | nil => rfl
  | cons x l ih =>
    rw [List.mem_cons, not_or] at h
    simp only [List.cons_append, before, Ne.symm h.1, if_false, ih h.2]

theorem before_filter {y : α} {p : α → Bool} (hp : p y = true) (l : List α) :
    before y (l.filter p) = (before y l).filter p := by
  induction l with
  | nil => rfl
  | cons x l ih =>
    by_cases hx : x = y
    · subst hx
      simp [hp, before]
    · by_cases hpx : p x = true
      · simp [hpx, before, hx, ih]
      · simp [hpx, before, hx, ih]

/-- what is not before `y` has everything before `y` before it -/
theorem before_subset {y z : α} {l : List α} (h : z ∉ before y l) :
    before y l ⊆ before z l := by
  induction l with
  | nil => exact List.Subset.refl _
  | cons x l ih =>
    by_cases hx : x = y
    · simp [before, hx]
    · simp only [before, hx, if_false, List.mem_cons, not_or] at h ⊢
      rw [if_neg (Ne.symm h.1)]
      exact List.cons_subset_cons x (ih h.2)

theorem mem_of_mem_before {y z : α} {l : List α} (h : z ∈ before y l) : z ∈ l := by
  induction l with
  | nil => cases h
  | cons x l ih =>
    by_cases hx : x = y
    · simp [before, hx] at h
    · simp only [before, hx, if_false, List.mem_cons] at h
      exact List.mem_cons.mpr (h.imp_right ih)

theorem window_append_singleton (n : Nat) (l : List α) (x : α) :
    window n (l ++ [x]) = pushWindow n (window n l) x := by
  simp [window, List.foldl_append]

theorem mem_pushWindow {n : Nat} {kept : List α} {x y : α} :
    y ∈ pushWindow n kept x ↔ y ∈ kept ∨ (y = x ∧ x ∉ kept ∧ kept.length < n) := by
  unfold pushWindow
  split
  · rename_i h
    simp [h]
  · rename_i h
    constructor
    · exact .inl
    · rintro (hy | ⟨-, hx⟩)
      · exact hy
      · exact absurd hx h

theorem nodup_window (n : Nat) (l : List α) : (window n l).Nodup := by
  induction l using List.reverseRecOn with
  | nil => exact List.nodup_nil
  | append_singleton l x ih =>
    rw [window_append_singleton, pushWindow]
    split
    · rename_i h
      exact List.nodup_append.mpr ⟨ih, List.nodup_singleton _,
        fun a ha b hb => by
          rw [List.mem_singleton] at hb
          rintro rfl
          exact h.1 (hb ▸ ha)⟩
    · exact ih

theorem mem_of_mem_window {n : Nat} {l : List α} {y : α} (h : y ∈ window n l) : y ∈ l := by
  induction l using List.reverseRecOn with
  | nil => cases h
  | append_singleton l x ih =>
    rw [window_append_singleton, mem_pushWindow] at h
    rcases h with h | ⟨rfl, -⟩
    · exact List.mem_append_left _ (ih h)
    · exact List.mem_append_right _ List.mem_cons_self

theorem length_window (n : Nat) (l : List α) : (window n l).length = min n l.toFinset.card := by
  induction l using List.reverseRecOn with
  | nil => simp [window]
  | append_singleton l x ih =>
    have hsub : (window n l).toFinset ⊆ l.toFinset := fun y hy =>
      List.mem_toFinset.mpr (mem_of_mem_window (List.mem_toFinset.mp hy))
    have hcard : (window n l).toFinset.card = (window n l).length :=
      List.toFinset_card_of_nodup (nodup_window n l)
    rw [window_append_singleton, pushWindow, List.toFinset_append]
    have hx : ([x] : List α).toFinset = {x} := rfl
    rw [hx, Finset.union_comm, ← Finset.insert_eq]
    by_cases hl : x ∈ l
    · rw [Finset.insert_eq_of_mem (List.mem_toFinset.mpr hl), ← ih]
      split
      · rename_i h
        -- with room left the walk has kept every element of `l`, so `x` is not new
        have heq : (window n l).toFinset = l.toFinset :=
          Finset.eq_of_subset_of_card_le hsub (by omega)
        exact absurd (List.mem_toFinset.mp (heq ▸ List.mem_toFinset.mpr hl)) h.1
      · rfl
    · rw [Finset.card_insert_of_notMem (by simpa using hl)]
      have hw : x ∉ window n l := fun h => hl (mem_of_mem_window h)
      split
      · rename_i h
        rw [List.length_append, List.length_singleton]
        omega
      · rename_i h
        have : ¬ (window n l).length < n := fun hlt => h ⟨hw, hlt⟩
        omega

/-- a walk that is not full has kept everything -/
theorem mem_window_of_length_lt {n : Nat} {l : List α} {y : α} (h : (window n l).length < n)
    (hy : y ∈ l) : y ∈ window n l := by
  have hsub : (window n l).toFinset ⊆ l.toFinset := fun z hz =>
    List.mem_toFinset.mpr (mem_of_mem_window (List.mem_toFinset.mp hz))
  have hcard : (window n l).toFinset.card = (window n l).length :=
    List.toFinset_card_of_nodup (nodup_window n l)
  have hlen := length_window n l
  have heq : (window n l).toFinset = l.toFinset :=
    Finset.eq_of_subset_of_card_le hsub (by omega)
  exact List.mem_toFinset.mp (heq ▸ List.mem_toFinset.mpr hy)

/-- **an element is kept iff fewer than `n` distinct ones stand before it** -/
theorem mem_window {n : Nat} {l : List α} {y : α} :
    y ∈ window n l ↔ y ∈ l ∧ (before y l).toFinset.card < n := by
  induction l using List.reverseRecOn with
  | nil => simp [window]
  | append_singleton l x ih =>
    rw [window_append_singleton, mem_pushWindow]
    by_cases hy : y ∈ l
    · rw [before_append_of_mem hy, ih]
      constructor
      · rintro (h | ⟨rfl, hx, hlt⟩)
        · exact ⟨List.mem_append_left _ hy, h.2⟩
        · exact absurd (mem_window_of_length_lt hlt hy) hx
      · rintro ⟨-, h⟩
        exact .inl ⟨hy, h⟩
    · rw [before_append_of_not_mem hy]
      have hw : y ∉ window n l := fun h => hy (mem_of_mem_window h)
      constructor
      · rintro (h | ⟨rfl, hx, hlt⟩)
        · exact absurd h hw
        · refine ⟨List.mem_append_right _ List.mem_cons_self, ?_⟩
          have := length_window n l
          simp only [before, if_true, List.append_nil]
          omega
      · rintro ⟨hm, hlt⟩
        have hyx : y = x := by simpa [hy] using hm
        subst hyx
        have := length_window n l
        simp only [before, if_true, List.append_nil] at hlt
        exact .inr ⟨rfl, hw, by omega⟩

/-- leaving elements out of the walk keeps every element that stays -/
theorem mem_window_filter {n : Nat} {l : List α} {y : α} {p : α → Bool} (h : y ∈ window n l)
    (hp : p y = true) : y ∈ window n (l.filter p) := by
  rw [mem_window] at h ⊢
  refine ⟨List.mem_filter.mpr ⟨h.1, hp⟩, ?_⟩
  rw [before_filter hp]
  refine Nat.lt_of_le_of_lt (Finset.card_le_card fun z hz => ?_) h.2
  exact List.mem_toFinset.mpr (List.mem_of_mem_filter (List.mem_toFinset.mp hz))

theorem length_window_of_not_mem {n : Nat} {l : List α} {y : α} (hy : y ∈ l)
    (h : y ∉ window n l) : (window n l).length = n := by
  have hle := length_window n l
  by_contra hne
  exact h (mem_window_of_length_lt (by omega) hy)

/-- what is kept stands before an element that is not -/
theorem window_subset_before {n : Nat} {l : List α} {y : α} (hy : y ∈ l)
    (h : y ∉ window n l) : window n l ⊆ before y l := by
  intro z hz
  by_contra hb
  have hzy : z ≠ y := fun he => h (he ▸ hz)
  have hsub := before_subset hb
  refine h (mem_window.mpr ⟨hy, ?_⟩)
  refine Nat.lt_of_le_of_lt (Finset.card_le_card fun x hx => ?_) (mem_window.mp hz).2
  exact List.mem_toFinset.mpr (hsub (List.mem_toFinset.mp hx))

/-- an element that stands in front takes no room a second time -/
theorem mem_window_append_filter {n : Nat} {m l : List α} {y : α} (hy : y ∉ m)
    (h : y ∈ window n (m ++ l)) : y ∈ window n (m ++ l.filter fun x => !decide (x ∈ m)) := by
  obtain ⟨hmem, hcard⟩ := mem_window.mp h
  have hyl : y ∈ l := (List.mem_append.mp hmem).resolve_left hy
  have hp : (!decide (y ∈ m)) = true := by simp [hy]
  refine mem_window.mpr ⟨List.mem_append_right _ (List.mem_filter.mpr ⟨hyl, hp⟩), ?_⟩
  rw [before_append_of_not_mem hy] at hcard ⊢
  rw [before_filter (p := fun x => !decide (x ∈ m)) hp]
  refine Nat.lt_of_le_of_lt (Finset.card_le_card fun x hx => ?_) hcard
  rw [List.mem_toFinset, List.mem_append] at hx ⊢
  exact hx.imp_right List.mem_of_mem_filter

/-- **what a window takes in when the elements with `p` are left out and `m` comes in front: the
elements of `m`, those it had, and as many of the rest as `p` makes more room than `m` takes** -/
theorem mem_window_append {n : Nat} {m l : List α} {y : α} {p : α → Bool}
    (hm : m.Nodup) (hd : ∀ x ∈ m, x ∉ l)
    (h : y ∈ window n (m ++ l.filter fun x => !p x)) :
    y ∈ m ∨ y ∈ window n l ∨
      y ∈ window (((window n l).filter p).length - m.length)
        (l.filter fun x => !p x && !decide (x ∈ window n l)) := by
  by_cases hym : y ∈ m
  · exact .inl hym
  by_cases hyw : y ∈ window n l
  · exact .inr (.inl hyw)
  refine .inr (.inr ?_)
  obtain ⟨hmem, hcard⟩ := mem_window.mp h
  have hyl : y ∈ l.filter fun x => !p x := (List.mem_append.mp hmem).resolve_left hym
  obtain ⟨hl, hpy⟩ := List.mem_filter.mp hyl
  have hrest : (!p y && !decide (y ∈ window n l)) = true := by simp [hpy, hyw]
  refine mem_window.mpr ⟨List.mem_filter.mpr ⟨hl, hrest⟩, ?_⟩
  rw [before_append_of_not_mem hym, before_filter (p := fun x => !p x) hpy] at hcard
  rw [before_filter (p := fun x => !p x && !decide (x ∈ window n l)) hrest]
  have hfull := length_window_of_not_mem hl hyw
  have hsub := window_subset_before hl hyw
  -- `m`, the kept elements without `p` and the rest before `y` are distinct and all before `y`
  let kept := (window n l).filter fun x => !p x
  let rest := ((before y l).filter fun x => !p x && !decide (x ∈ window n l)).dedup
  have hkept : (m ++ kept).Nodup :=
    List.nodup_append.mpr ⟨hm, (nodup_window n l).filter _, fun a ha b hb hab =>
      hd a ha (hab ▸ mem_of_mem_window (List.mem_of_mem_filter hb))⟩
  have hmemRest : ∀ x ∈ rest, x ∈ before y l ∧ (!p x) = true ∧ x ∉ window n l := fun x hx => by
    obtain ⟨hx, hpx⟩ := List.mem_filter.mp (List.mem_dedup.mp hx)
    rw [Bool.and_eq_true] at hpx
    exact ⟨hx, hpx.1, by simpa using hpx.2⟩
  have hlist : (m ++ kept ++ rest).Nodup := by
    refine List.nodup_append.mpr ⟨hkept, List.nodup_dedup _, fun a ha b hb hab => ?_⟩
    subst hab
    obtain ⟨hbefore, -, hnot⟩ := hmemRest a hb
    rcases List.mem_append.mp ha with ha | ha
    · exact hd a ha (mem_of_mem_before hbefore)
    · exact hnot (List.mem_of_mem_filter ha)
  have hle : (m ++ kept ++ rest).toFinset.card ≤
      (m ++ (before y l).filter fun x => !p x).toFinset.card := by
    refine Finset.card_le_card fun x hx => ?_
    rw [List.mem_toFinset, List.mem_append, List.mem_append] at hx
    rw [List.mem_toFinset, List.mem_append]
    rcases hx with (hx | hx) | hx
    · exact .inl hx
    · obtain ⟨hx, hpx⟩ := List.mem_filter.mp hx
      exact .inr (List.mem_filter.mpr ⟨hsub hx, hpx⟩)
    · obtain ⟨hx, hpx, -⟩ := hmemRest x hx
      exact .inr (List.mem_filter.mpr ⟨hx, hpx⟩)
  rw [List.toFinset_card_of_nodup hlist, List.length_append, List.length_append] at hle
  have hsplit := List.length_eq_length_filter_add (l := window n l) p
  have hcardRest : ((before y l).filter fun x => !p x && !decide (x ∈ window n l)).toFinset.card =
      rest.length := List.card_toFinset _
  have hkeptLength : kept.length = ((window n l).filter fun x => !p x).length := rfl
  omega

end Freepod.Base
