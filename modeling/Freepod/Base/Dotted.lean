import Mathlib.Data.List.Basic
import Mathlib.Data.List.Infix
import Mathlib.Data.List.DropRight

/-!
# Texts as lists of labels

`l.splitOn x` reads a text as the labels between its separators.

* `splitOn_inj`: the labels determine the text.
* `suffix_splitOn`: the labels of `d` are the last labels of `n` iff `n` is `d` or ends in a
  separator and `d`.
* `rpartition_spec` and `rpartition_eq`: the split at the last separator.
-/

namespace Freepod.Base

variable {α : Type*}

theorem intercalate_append {s : List α} {ls ms : List (List α)} (hl : ls ≠ []) (hm : ms ≠ []) :
    s.intercalate (ls ++ ms) = s.intercalate ls ++ s ++ s.intercalate ms := by
  induction ls with
  | nil => exact absurd rfl hl
  | cons l ls ih =>
    by_cases hls : ls = []
    · rw [hls, List.singleton_append, List.intercalate_cons_of_ne_nil hm,
        List.intercalate_singleton]
    · rw [List.cons_append, List.intercalate_cons_of_ne_nil (List.append_ne_nil_of_left_ne_nil hls _),
        ih hls, List.intercalate_cons_of_ne_nil hls]
      simp only [List.append_assoc]

variable [DecidableEq α] {x : α}

/-- **a text is determined by its labels** -/
theorem splitOn_inj {l m : List α} : l.splitOn x = m.splitOn x ↔ l = m := by
  constructor
  · intro h
    have hl : [x].intercalate (l.splitOn x) = l := List.intercalate_splitOn x
    rw [← hl, h, List.intercalate_splitOn]
  · rintro rfl
    rfl

/-- what is no separator lies in a label -/
theorem mem_splitOn {l : List α} {a : α} (h : a ∈ l) (ha : a ≠ x) : ∃ p ∈ l.splitOn x, a ∈ p := by
  induction l with
  | nil => cases h
  | cons b l ih =>
    rw [List.splitOn_cons_eq_if_modifyHead]
    by_cases hb : b = x
    · rw [if_pos (by simpa using hb)]
      obtain rfl | h := List.mem_cons.1 h
      · exact absurd hb ha
      · obtain ⟨p, hp, hmem⟩ := ih h
        exact ⟨p, List.mem_cons_of_mem _ hp, hmem⟩
    · rw [if_neg (by simpa using hb)]
      obtain ⟨q, qs, hq⟩ := List.exists_cons_of_ne_nil (List.splitOn_ne_nil x l)
      rw [hq, List.modifyHead_cons]
      obtain rfl | h := List.mem_cons.1 h
      · exact ⟨a :: q, List.mem_cons_self, List.mem_cons_self⟩
      · obtain ⟨p, hp, hmem⟩ := ih h
        rw [hq] at hp
        obtain rfl | hp := List.mem_cons.1 hp
        · exact ⟨b :: p, List.mem_cons_self, List.mem_cons_of_mem _ hmem⟩
        · exact ⟨p, List.mem_cons_of_mem _ hp, hmem⟩

/-- **suffixes of the labels are suffixes of the text at a separator** -/
theorem suffix_splitOn {d n : List α} :
    d.splitOn x <:+ n.splitOn x ↔ d = n ∨ x :: d <:+ n := by
  constructor
  · rintro ⟨ls, hls⟩
    have hn : [x].intercalate (ls ++ d.splitOn x) = n := by
      rw [hls, List.intercalate_splitOn]
    by_cases hl : ls = []
    · rw [hl, List.nil_append, List.intercalate_splitOn] at hn
      exact .inl hn
    · rw [intercalate_append hl (List.splitOn_ne_nil x d), List.intercalate_splitOn,
        List.append_assoc, List.singleton_append] at hn
      exact .inr ⟨_, hn⟩
  · rintro (rfl | ⟨p, rfl⟩)
    · exact List.suffix_refl _
    · rw [List.splitOn_append_cons_self]
      exact List.suffix_append _ _

/-- the text before and after the last `x`; all of it is after when there is none -/
def rpartition (x : α) (l : List α) : List α × List α :=
  ((l.rdropWhile (· ≠ x)).dropLast, l.rtakeWhile (· ≠ x))

theorem rpartition_eq {p s : List α} (h : x ∉ s) : rpartition x (p ++ x :: s) = (p, s) := by
  induction s using List.reverseRecOn with
  | nil =>
    rw [rpartition, List.rdropWhile_concat_neg _ _ _ (by simp),
      List.rtakeWhile_concat_neg _ _ _ (by simp), List.dropLast_concat]
  | append_singleton s y ih =>
    rw [List.mem_append, not_or, List.mem_singleton] at h
    have ih := ih h.1
    rw [rpartition, Prod.mk.injEq] at ih ⊢
    rw [← List.cons_append, ← List.append_assoc, List.rdropWhile_concat_pos _ _ _ (by simp [Ne.symm h.2]),
      List.rtakeWhile_concat_pos _ _ _ (by simp [Ne.symm h.2]), ih.1, ih.2]
    exact ⟨rfl, rfl⟩

/-- **the split at the last separator** -/
theorem rpartition_spec {l : List α} (h : x ∈ l) :
    (rpartition x l).1 ++ x :: (rpartition x l).2 = l ∧ x ∉ (rpartition x l).2 := by
  obtain ⟨p, s, rfl, hs⟩ : ∃ p s, l = p ++ x :: s ∧ x ∉ s := by
    induction l using List.reverseRecOn with
    | nil => cases h
    | append_singleton l y ih =>
      by_cases hy : y = x
      · exact ⟨l, [], by rw [hy], List.not_mem_nil⟩
      · rw [List.mem_append, List.mem_singleton] at h
        obtain ⟨p, s, rfl, hs⟩ := ih (h.resolve_right (Ne.symm hy))
        refine ⟨p, s ++ [y], by simp, ?_⟩
        rw [List.mem_append, List.mem_singleton, not_or]
        exact ⟨hs, Ne.symm hy⟩
  rw [rpartition_eq hs]
  exact ⟨rfl, hs⟩

end Freepod.Base
