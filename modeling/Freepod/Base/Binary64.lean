import Mathlib.Data.Nat.Log
import Mathlib.Tactic.Ring

/-!
# The integer part of a double

`roundHalfEven n d` is `n / d` rounded to the nearest integer, and `truncQuotient n d` the integer
part of the double nearest to `n / d`: the quotient is rounded to the 53 bits a double has.

* `le_truncQuotient`: rounding never takes the quotient below an integer it has reached.
* `truncQuotient_mul_lt`: nor a whole unit up.
* `truncQuotient_eq`: it reaches no further integer either, while the bits after the point tell
  every two quotients by `d` apart.
-/

namespace Freepod.Base

def roundHalfEven (n d : Nat) : Nat :=
  if 2 * (n % d) < d ∨ (2 * (n % d) = d ∧ n / d % 2 = 0) then n / d else n / d + 1

/-- how many of the 53 bits stand after the point -/
def fractionBits (n d : Nat) : Nat := 52 - Nat.log 2 (n / d)

def truncQuotient (n d : Nat) : Nat :=
  roundHalfEven (n * 2 ^ fractionBits n d) d / 2 ^ fractionBits n d

theorem le_roundHalfEven (n d : Nat) : n / d ≤ roundHalfEven n d := by
  unfold roundHalfEven
  split <;> omega

/-- it is at most half a unit above -/
theorem roundHalfEven_mul_le {n d : Nat} (hd : 0 < d) :
    2 * (roundHalfEven n d * d) ≤ 2 * n + d := by
  have hdiv := Nat.div_add_mod n d
  have hmul : n / d * d = d * (n / d) := Nat.mul_comm ..
  unfold roundHalfEven
  split
  · omega
  · rename_i h
    rw [not_or] at h
    have hlt : d ≤ 2 * (n % d) := not_lt.mp h.1
    have hstep : (n / d + 1) * d = n / d * d + d := by ring
    omega

theorem le_truncQuotient {n d : Nat} (hd : 0 < d) : n / d ≤ truncQuotient n d := by
  unfold truncQuotient
  rw [Nat.le_div_iff_mul_le (Nat.two_pow_pos _)]
  refine le_trans ?_ (le_roundHalfEven ..)
  rw [Nat.le_div_iff_mul_le hd]
  calc n / d * 2 ^ fractionBits n d * d = n / d * d * 2 ^ fractionBits n d := by ring
    _ ≤ n * 2 ^ fractionBits n d := Nat.mul_le_mul_right _ (Nat.div_mul_le_self n d)

theorem truncQuotient_mul_lt {n d : Nat} (hd : 0 < d) : truncQuotient n d * d < n + d := by
  unfold truncQuotient
  set s := 2 ^ fractionBits n d
  have hs : 0 < s := Nat.two_pow_pos _
  by_contra hge
  have hround := roundHalfEven_mul_le (n := n * s) hd
  have hmul : (n + d) * s ≤ roundHalfEven (n * s) d * d := by
    calc (n + d) * s ≤ roundHalfEven (n * s) d / s * d * s := Nat.mul_le_mul_right s (not_lt.mp hge)
      _ = roundHalfEven (n * s) d / s * s * d := by ring
      _ ≤ roundHalfEven (n * s) d * d := Nat.mul_le_mul_right d (Nat.div_mul_le_self _ s)
  have hds : d ≤ d * s := Nat.le_mul_of_pos_right d hs
  have hexp : (n + d) * s = n * s + d * s := by ring
  omega

theorem truncQuotient_eq {n d : Nat} (hd : 0 < d) (h : d < 2 * 2 ^ fractionBits n d) :
    truncQuotient n d = n / d := by
  refine le_antisymm ?_ (le_truncQuotient hd)
  unfold truncQuotient
  set s := 2 ^ fractionBits n d
  have hs : 0 < s := Nat.two_pow_pos _
  rw [← Nat.lt_succ_iff, Nat.div_lt_iff_lt_mul hs]
  by_contra hge
  -- the next integer would be a whole unit of the last bit away, and rounding moves by half of one
  have hle : 2 * ((n / d + 1) * s * d) ≤ 2 * (n * s) + d :=
    le_trans (Nat.mul_le_mul_left 2 (Nat.mul_le_mul_right d (not_lt.mp hge)))
      (roundHalfEven_mul_le hd)
  have hlt : n + 1 ≤ (n / d + 1) * d := by
    rw [Nat.mul_comm]
    exact Nat.lt_mul_div_succ n hd
  have hmul : (n + 1) * s ≤ (n / d + 1) * s * d := by
    calc (n + 1) * s ≤ (n / d + 1) * d * s := Nat.mul_le_mul_right s hlt
      _ = (n / d + 1) * s * d := by ring
  have hexp : (n + 1) * s = n * s + s := by ring
  omega

end Freepod.Base
