import Mathlib.Data.List.Infix
import Mathlib.Data.List.Basic

/-!
# Replacing in a text

* `replace`: every occurrence of a text, from the left and not overlapping, becomes a marker.
* `exists_pieces`: the text and the result have the same pieces, without the text that was replaced,
  between the occurrences and between the markers.
* `infix_of_infix_replace`: what does not touch the ends of a marker stood in the text already.
* `not_infix_replace`: the text that was replaced is gone.
-/

namespace Freepod.Base

variable {α : Type*}

section

variable [DecidableEq α]

def replaceFrom (v m : List α) : (skip : Nat) → List α → List α
  | _, [] => []
  | skip + 1, _ :: rest => replaceFrom v m skip rest
  | 0, c :: rest =>
    if v.isPrefixOf (c :: rest) then m ++ replaceFrom v m (v.length - 1) rest
    else c :: replaceFrom v m 0 rest

/-- `data.replace(v, m)`, for a `v` that is not empty -/
def replace (v m data : List α) : List α := replaceFrom v m 0 data

theorem replaceFrom_append {v m : List α} (l rest : List α) :
    replaceFrom v m l.length (l ++ rest) = replace v m rest := by
  induction l with
  | nil => rfl
  | cons c l ih =>
    rw [List.length_cons, List.cons_append, replaceFrom]
    exact ih

theorem replace_append {v : List α} (hv : v ≠ []) (m rest : List α) :
    replace v m (v ++ rest) = m ++ replace v m rest := by
  obtain ⟨c, l, rfl⟩ := List.exists_cons_of_ne_nil hv
  have hp : (c :: l).isPrefixOf (c :: (l ++ rest)) = true :=
    List.isPrefixOf_iff_prefix.mpr (List.prefix_append (c :: l) rest)
  rw [List.cons_append, replace, replaceFrom, if_pos hp]
  exact congrArg (m ++ ·) (replaceFrom_append l rest)

theorem replace_cons {v m rest : List α} {c : α} (h : ¬ v <+: c :: rest) :
    replace v m (c :: rest) = c :: replace v m rest := by
  have hp : ¬ v.isPrefixOf (c :: rest) = true := fun hp => h (List.isPrefixOf_iff_prefix.mp hp)
  rw [replace, replaceFrom, if_neg hp]
  rfl

end

theorem intercalate_cons_append (sep : List α) {p : List α} {ps : List (List α)} (h : ps ≠ []) :
    sep.intercalate (p :: ps) = p ++ (sep ++ sep.intercalate ps) := by
  obtain ⟨q, ps, rfl⟩ := List.exists_cons_of_ne_nil h
  simp [List.intercalate]

theorem intercalate_cons_head (sep : List α) (c : α) (p : List α) (ps : List (List α)) :
    sep.intercalate ((c :: p) :: ps) = c :: sep.intercalate (p :: ps) := by
  cases ps <;> simp [List.intercalate]

theorem prefix_intercalate (sep p : List α) (ps : List (List α)) :
    p <+: sep.intercalate (p :: ps) := by
  cases ps with
  | nil => simp [List.intercalate]
  | cons q ps =>
    rw [intercalate_cons_append sep (List.cons_ne_nil q ps)]
    exact List.prefix_append _ _

/-- **a text and what it becomes have the same pieces** -/
theorem exists_pieces [DecidableEq α] {v : List α} (hv : v ≠ []) (m data : List α) :
    ∃ ps : List (List α), ps ≠ [] ∧ data = v.intercalate ps ∧
      replace v m data = m.intercalate ps ∧ ∀ p ∈ ps, ¬ v <:+: p := by
  induction h : data.length using Nat.strongRecOn generalizing data with
  | ind n ih =>
    by_cases hp : v <+: data
    · obtain ⟨rest, rfl⟩ := hp
      have hpos := List.length_pos_of_ne_nil hv
      obtain ⟨ps, hps, hdata, hreplace, hfree⟩ :=
        ih rest.length (by rw [← h, List.length_append]; omega) rest rfl
      refine ⟨[] :: ps, List.cons_ne_nil _ _, ?_, ?_, ?_⟩
      · rw [intercalate_cons_append v hps, ← hdata, List.nil_append]
      · rw [replace_append hv, intercalate_cons_append m hps, ← hreplace, List.nil_append]
      · intro p hp
        obtain rfl | hp := List.mem_cons.mp hp
        · exact fun hi => hv (List.infix_nil.mp hi)
        · exact hfree p hp
    · cases data with
      | nil =>
        refine ⟨[[]], List.cons_ne_nil _ _, by simp [List.intercalate],
          by simp [List.intercalate, replace, replaceFrom], ?_⟩
        intro p hp
        rw [List.mem_singleton.mp hp]
        exact fun hi => hv (List.infix_nil.mp hi)
      | cons c rest =>
        obtain ⟨ps, hps, hdata, hreplace, hfree⟩ :=
          ih rest.length (by rw [← h, List.length_cons]; omega) rest rfl
        obtain ⟨p, ps, rfl⟩ := List.exists_cons_of_ne_nil hps
        refine ⟨(c :: p) :: ps, List.cons_ne_nil _ _, ?_, ?_, ?_⟩
        · rw [intercalate_cons_head, ← hdata]
        · rw [replace_cons hp, intercalate_cons_head, ← hreplace]
        · intro q hq
          obtain rfl | hq := List.mem_cons.mp hq
          · intro hi
            obtain hpre | hin := List.infix_cons_iff.mp hi
            · apply hp
              rw [hdata, ← intercalate_cons_head]
              exact hpre.trans (prefix_intercalate v (c :: p) ps)
            · exact hfree p List.mem_cons_self hin
          · exact hfree q (List.mem_cons_of_mem p hq)

/-! ## what a marker cannot make -/

theorem infix_append_cons {s l r : List α} {b : α} (hb : b ∉ s) (h : s <:+: l ++ b :: r) :
    s <:+: l ∨ s <:+: r := by
  induction l with
  | nil =>
    obtain hp | hi := List.infix_cons_iff.mp h
    · cases s with
      | nil => exact .inr (List.nil_infix)
      | cons c s =>
        obtain ⟨t, ht⟩ := hp
        exact absurd ((List.cons.inj ht).1 ▸ List.mem_cons_self) hb
    · exact .inr hi
  | cons c l ih =>
    rw [List.cons_append] at h
    obtain hp | hi := List.infix_cons_iff.mp h
    · left
      obtain ⟨t, ht⟩ := hp
      obtain ⟨x, hx, -⟩ | ⟨x, hx, hxb⟩ :=
        List.append_eq_append_iff.mp (show s ++ t = (c :: l) ++ b :: r from ht)
      · exact hx ▸ (List.prefix_append s x).isInfix
      · -- the text would reach beyond the separator
        cases x with
        | nil =>
          rw [List.append_nil] at hx
          exact hx ▸ List.infix_refl _
        | cons d x =>
          rw [hx] at hb
          rw [List.cons_append] at hxb
          exact absurd (List.mem_append_right _ ((List.cons.inj hxb).1 ▸ List.mem_cons_self)) hb
    · obtain hl | hr := ih hi
      · exact .inl (hl.trans (List.suffix_cons c l).isInfix)
      · exact .inr hr

/-- a text whose ends another does not contain -/
def EndsOutside (m s : List α) : Prop := ∃ b l b', m = b :: (l ++ [b']) ∧ b ∉ s ∧ b' ∉ s

theorem infix_intercalate {m s : List α} (hm : EndsOutside m s) {ps : List (List α)}
    (hps : ps ≠ []) (h : s <:+: m.intercalate ps) : (∃ p ∈ ps, s <:+: p) ∨ s <:+: m := by
  obtain ⟨b, l, b', rfl, hb, hb'⟩ := hm
  induction ps with
  | nil => exact absurd rfl hps
  | cons p ps ih =>
    by_cases hne : ps = []
    · rw [hne, List.intercalate] at h
      exact .inl ⟨p, List.mem_cons_self, by simpa using h⟩
    · rw [intercalate_cons_append _ hne, List.cons_append] at h
      obtain hi | hi := infix_append_cons hb h
      · exact .inl ⟨p, List.mem_cons_self, hi⟩
      · rw [List.append_assoc, List.singleton_append] at hi
        obtain hi | hi := infix_append_cons hb' hi
        · exact .inr (hi.trans ⟨[b], [b'], by simp⟩)
        · exact (ih hne hi).imp_left fun ⟨q, hq, hs⟩ => ⟨q, List.mem_cons_of_mem p hq, hs⟩

theorem infix_intercalate_of_mem {sep p : List α} {ps : List (List α)} (h : p ∈ ps) :
    p <:+: sep.intercalate ps := by
  induction ps with
  | nil => cases h
  | cons q ps ih =>
    obtain rfl | h := List.mem_cons.mp h
    · exact (prefix_intercalate sep p ps).isInfix
    · rw [intercalate_cons_append sep (List.ne_nil_of_mem h)]
      exact ((ih h).trans (List.suffix_append sep _).isInfix).trans (List.suffix_append q _).isInfix

/-- **a marker makes nothing that does not touch its ends** -/
theorem infix_of_infix_replace [DecidableEq α] {v m s data : List α} (hv : v ≠ [])
    (hm : EndsOutside m s) (h : s <:+: replace v m data) : s <:+: data ∨ s <:+: m := by
  obtain ⟨ps, hps, hdata, hreplace, -⟩ := exists_pieces hv m data
  rw [hreplace] at h
  obtain ⟨p, hp, hs⟩ | hs := infix_intercalate hm hps h
  · rw [hdata]
    exact .inl (hs.trans (infix_intercalate_of_mem hp))
  · exact .inr hs

/-- **what was replaced is gone** -/
theorem not_infix_replace [DecidableEq α] {v m : List α} (hv : v ≠ []) (hm : EndsOutside m v)
    (hmv : ¬ v <:+: m) (data : List α) : ¬ v <:+: replace v m data := by
  intro h
  obtain ⟨ps, hps, -, hreplace, hfree⟩ := exists_pieces hv m data
  rw [hreplace] at h
  obtain ⟨p, hp, hs⟩ | hs := infix_intercalate hm hps h
  · exact hfree p hp hs
  · exact hmv hs

end Freepod.Base
