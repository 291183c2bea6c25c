import Mathlib.Data.Finset.Card

/-!
# Taking turns

The members of a finite set wait in the order of a key, and the key of the one served goes up.

* `ahead S t b`: the members `b` waits for; `card_ahead_lt`: they are fewer than there are.
* `card_ahead_le`: serving another member puts nobody before `b`.
* `card_ahead_served`: serving one that `b` waits for, and putting it behind `b`, shortens the wait.
-/

namespace Freepod.Base

variable {ι κ : Type*} [LinearOrder κ]

/-- the members of `S` that come before `b` in the order of the key `t` -/
def ahead (S : Finset ι) (t : ι → κ) (b : ι) : Finset ι := S.filter fun a => t a < t b

/-- `t'` is `t` after `c` was served: it comes later, and nothing else has changed -/
structure Served (S : Finset ι) (t t' : ι → κ) (c : ι) : Prop where
  others : ∀ a ∈ S, a ≠ c → t' a = t a
  later : t c ≤ t' c

variable {S : Finset ι} {t t' : ι → κ} {b c : ι}

theorem card_ahead_lt (h : b ∈ S) : (ahead S t b).card < S.card := by
  apply Finset.card_lt_card
  refine ⟨Finset.filter_subset _ _, ?_⟩
  intro hsub
  have hb : b ∈ ahead S t b := hsub h
  exact lt_irrefl _ (Finset.mem_filter.mp hb).2

theorem ahead_congr (h : ∀ a ∈ S, t' a = t a) (hb : b ∈ S) : ahead S t' b = ahead S t b := by
  apply Finset.filter_congr
  intro a ha
  rw [h a ha, h b hb]

/-- serving another member puts nobody before `b` -/
theorem ahead_served (h : Served S t t' c) (hb : b ∈ S) (hne : b ≠ c) :
    ahead S t' b ⊆ ahead S t b := by
  intro a ha
  obtain ⟨haS, hlt⟩ := Finset.mem_filter.mp ha
  rw [h.others b hb hne] at hlt
  refine Finset.mem_filter.mpr ⟨haS, ?_⟩
  by_cases hac : a = c
  · rw [hac] at hlt ⊢
    exact lt_of_le_of_lt h.later hlt
  · rw [h.others a haS hac] at hlt
    exact hlt

theorem card_ahead_le (h : Served S t t' c) (hb : b ∈ S) (hne : b ≠ c) :
    (ahead S t' b).card ≤ (ahead S t b).card :=
  Finset.card_le_card (ahead_served h hb hne)

/-- `b` waits for one member less once one it waits for goes behind it -/
theorem card_ahead_served (h : Served S t t' c) (hb : b ∈ S) (hc : c ∈ S) (hlt : t c < t b)
    (hback : t b ≤ t' c) : (ahead S t' b).card < (ahead S t b).card := by
  have hne : b ≠ c := by
    rintro rfl
    exact lt_irrefl _ hlt
  apply Finset.card_lt_card
  refine ⟨ahead_served h hb hne, ?_⟩
  intro hsub
  have hmem : c ∈ ahead S t' b := hsub (Finset.mem_filter.mpr ⟨hc, hlt⟩)
  have hgt := (Finset.mem_filter.mp hmem).2
  rw [h.others b hb hne] at hgt
  exact absurd hgt (not_lt_of_ge hback)

end Freepod.Base
