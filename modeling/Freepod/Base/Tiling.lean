import Mathlib.Algebra.Order.Ring.Int
import Mathlib.Data.List.Basic
import Mathlib.Order.Basic
import Mathlib.Tactic.Tauto

/-!
# Intervals laid end to end

`Tiles lo l hi`: the half-open intervals of `l` begin at `lo`, each where the one before it ends,
and end at `hi`.

* `count_tiles`: a point between `lo` and `hi` lies in exactly one of them, any other in none.
* `tiles_concat`, `tiles_suffix`: one more at the end, and what is left without the first ones.
-/

namespace Freepod.Base

variable {α : Type*} [LinearOrder α]

def Tiles : α → List (α × α) → α → Prop
  | lo, [], hi => lo = hi
  | lo, i :: l, hi => i.1 = lo ∧ i.1 < i.2 ∧ Tiles i.2 l hi

/-- the interval `i` holds `t`: its left end does not belong to it -/
def Holds (t : α) (i : α × α) : Prop := i.1 < t ∧ t ≤ i.2

instance (t : α) (i : α × α) : Decidable (Holds t i) := inferInstanceAs (Decidable (_ ∧ _))

variable {lo hi t : α} {l r : List (α × α)} {i : α × α}

theorem le_of_tiles (h : Tiles lo l hi) : lo ≤ hi := by
  induction l generalizing lo with
  | nil => exact le_of_eq h
  | cons i l ih =>
    obtain ⟨rfl, hlt, h⟩ := h
    exact hlt.le.trans (ih h)

theorem le_of_mem_tiles (h : Tiles lo l hi) (hi' : i ∈ l) : lo ≤ i.1 := by
  induction l generalizing lo with
  | nil => cases hi'
  | cons i' l ih =>
    obtain ⟨rfl, hlt, h⟩ := h
    obtain rfl | hi' := List.mem_cons.mp hi'
    · exact le_rfl
    · exact hlt.le.trans (ih h hi')

theorem tiles_append (hl : Tiles lo l t) (hr : Tiles t r hi) : Tiles lo (l ++ r) hi := by
  induction l generalizing lo with
  | nil =>
    rw [show lo = t from hl]
    exact hr
  | cons i l ih =>
    obtain ⟨he, hlt, h⟩ := hl
    exact ⟨he, hlt, ih h⟩

/-- one more interval -/
theorem tiles_concat (h : Tiles lo l t) (hlt : t < hi) : Tiles lo (l ++ [(t, hi)]) hi :=
  tiles_append h ⟨rfl, hlt, rfl⟩

/-- the last intervals tile what is left -/
theorem tiles_suffix (h : Tiles lo (l ++ r) hi) : ∃ t, Tiles t r hi := by
  induction l generalizing lo with
  | nil => exact ⟨lo, h⟩
  | cons i l ih => exact ih h.2.2

theorem tiles_head (h : Tiles lo l hi) (hi' : l.head? = some i) : i.1 = lo := by
  cases l with
  | nil => cases hi'
  | cons i' l =>
    rw [Option.some.inj hi'] at h
    exact h.1

theorem tiles_getLast (h : Tiles lo l hi) (hi' : l.getLast? = some i) : i.2 = hi := by
  obtain ⟨l, rfl⟩ := List.getLast?_eq_some_iff.mp hi'
  obtain ⟨t, ht⟩ := tiles_suffix h
  exact ht.2.2

/-- **each point is in exactly one interval** -/
theorem count_tiles (h : Tiles lo l hi) (t : α) :
    l.countP (fun i => decide (Holds t i)) = if lo < t ∧ t ≤ hi then 1 else 0 := by
  induction l generalizing lo with
  | nil =>
    rw [show lo = hi from h, List.countP_nil, if_neg]
    exact fun ht => absurd ht.1 (not_lt_of_ge ht.2)
  | cons i l ih =>
    obtain ⟨rfl, hlt, h⟩ := h
    have hle := le_of_tiles h
    rw [List.countP_cons, ih h]
    by_cases ht : t ≤ i.2
    · have hn : ¬ (i.2 < t ∧ t ≤ hi) := fun hc => absurd hc.1 (not_lt_of_ge ht)
      rw [if_neg hn]
      by_cases hlo : i.1 < t
      · simp [Holds, hlo, ht, ht.trans hle]
      · simp [Holds, hlo]
    · have hlo : i.1 < t := hlt.trans (not_le.mp ht)
      simp [Holds, ht, hlo, not_le.mp ht]

theorem exists_mem_of_tiles (h : Tiles lo l hi) (hlo : lo < t) (hhi : t ≤ hi) :
    ∃ i ∈ l, Holds t i := by
  have hc : 0 < l.countP (fun i => decide (Holds t i)) := by
    rw [count_tiles h, if_pos ⟨hlo, hhi⟩]
    exact Nat.one_pos
  obtain ⟨i, hi, ht⟩ := List.countP_pos_iff.mp hc
  exact ⟨i, hi, of_decide_eq_true ht⟩

end Freepod.Base
