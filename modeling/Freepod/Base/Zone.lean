import Mathlib.Algebra.Order.Group.Abs
import Mathlib.Algebra.Order.Group.Int
import Mathlib.Data.Int.Order.Basic
import Mathlib.Order.Bounds.Basic

/-!
# Time zones

A time zone as its offset in each minute.  Instants and wall times are whole numbers of microseconds.

* `Zone.clock`: the wall time that an instant shows.
* `Zone.Shows`, `Zone.Skips`: a minute in which a wall time is shown, or at whose start the clocks
  jump over it.
* `Zone.localOffset`: the offset of a wall time.  Of the instants that show it, `fold` takes the last
  and not the first; a skipped one takes the offset after the skip and not the one before.
* `Zone.Resolves`: the first instant that shows a wall time, or the end of its skip.
* `Zone.Apart`: the clocks jump back, or around a jump back, only as far as the distance.
* `Resolves.isLeast`: there a wall time resolves to the first instant at or past it.
-/

namespace Freepod.Base

def Zone.minute : Int := 60000000

def Zone.day : Int := 1440 * Zone.minute

/-- the offset in each minute, less than a day -/
structure Zone where
  offset : Int → Int
  bounded : ∀ m, -Zone.day < offset m ∧ offset m < Zone.day

namespace Zone

variable (z : Zone)

def clock (u : Int) : Int := u + z.offset (u / minute)

/-- what the clocks show when a minute starts -/
def startsAt (m : Int) : Int := minute * m + z.offset m

/-- where the clocks are at the end of the minute before -/
def endsAt (m : Int) : Int := minute * m + z.offset (m - 1)

def Shows (wall m : Int) : Prop := (wall - z.offset m) / minute = m

def Skips (wall m : Int) : Prop := z.endsAt m ≤ wall ∧ wall < z.startsAt m

instance (wall m : Int) : Decidable (z.Shows wall m) := inferInstanceAs (Decidable (_ = _))

instance (wall m : Int) : Decidable (z.Skips wall m) := inferInstanceAs (Decidable (_ ∧ _))

/-- the minutes in which a wall time can be -/
def window (wall : Int) : List Int :=
  (List.range 2881).map fun i : Nat => (wall - day) / minute + (i : Int)

/-- the offset of a wall time -/
def localOffset (wall : Int) (fold : Bool) : Int :=
  let shown := (window wall).filter fun m => z.Shows wall m
  match if fold then shown.getLast? else shown.head? with
  | some m => z.offset m
  | none =>
    match (window wall).find? fun m => z.Skips wall m with
    | some m => z.offset (if fold then m else m - 1)
    | none => 0

/-- the first instant that shows a wall time or, when the clocks skip it, the first after the
skip -/
def Resolves (wall u : Int) : Prop :=
  IsLeast {v | z.clock v = wall} u ∨
    (∀ v, z.clock v ≠ wall) ∧ IsLeast {v | ∃ m, v = minute * m ∧ z.Skips wall m} u

/-! ## what a minute shows -/

variable {z}

theorem shows_iff {wall m : Int} :
    z.Shows wall m ↔ z.startsAt m ≤ wall ∧ wall < z.endsAt (m + 1) := by
  unfold Shows startsAt endsAt minute
  rw [Int.add_sub_cancel]
  omega

theorem clock_bounds (z : Zone) (u : Int) :
    z.startsAt (u / minute) ≤ z.clock u ∧ z.clock u < z.endsAt (u / minute + 1) := by
  unfold startsAt endsAt clock minute
  rw [Int.add_sub_cancel]
  omega

theorem clock_eq_iff {wall u : Int} :
    z.clock u = wall ↔ ∃ m, z.Shows wall m ∧ u = wall - z.offset m := by
  constructor
  · intro h
    have hu : wall - z.offset (u / minute) = u := by
      rw [← h]
      exact Int.add_sub_cancel u _
    exact ⟨u / minute, congrArg (· / minute) hu, hu.symm⟩
  · rintro ⟨m, hm, rfl⟩
    have hm : (wall - z.offset m) / minute = m := hm
    unfold clock
    rw [hm]
    omega

theorem mem_window {wall m : Int} :
    m ∈ window wall ↔ (wall - day) / minute ≤ m ∧ m ≤ (wall + day) / minute := by
  unfold window day minute
  rw [List.mem_map]
  constructor
  · rintro ⟨i, hi, rfl⟩
    have hi := List.mem_range.mp hi
    omega
  · rintro ⟨hl, hr⟩
    exact ⟨(m - (wall - 1440 * 60000000) / 60000000).toNat, List.mem_range.mpr (by omega), by omega⟩

/-- before the window the clocks are not there yet, and after it they are past -/
theorem endsAt_le {wall m : Int} (h : m < (wall - day) / minute) : z.endsAt (m + 1) ≤ wall := by
  have hb := z.bounded m
  unfold endsAt
  rw [Int.add_sub_cancel]
  unfold day minute at *
  omega

theorem lt_startsAt {wall m : Int} (h : (wall + day) / minute < m) : wall < z.startsAt m := by
  have hb := z.bounded m
  unfold startsAt
  unfold day minute at *
  omega

theorem Shows.mem_window {wall m : Int} (h : z.Shows wall m) : m ∈ window wall := by
  obtain ⟨hstart, hend⟩ := shows_iff.mp h
  rw [Zone.mem_window]
  constructor
  · by_contra hlt
    have hle := z.endsAt_le (Int.not_le.mp hlt)
    omega
  · by_contra hlt
    have hle := z.lt_startsAt (Int.not_le.mp hlt)
    omega

theorem Skips.mem_window {wall m : Int} (h : z.Skips wall m) : m ∈ window wall := by
  obtain ⟨hend, hstart⟩ := h
  have hb := z.bounded m
  have hb' := z.bounded (m - 1)
  rw [Zone.mem_window]
  unfold endsAt at hend
  unfold startsAt at hstart
  unfold day minute at *
  omega

/-- the clocks come past a wall time by showing it or by skipping it -/
theorem exists_skips {wall k : Int} (hshown : ∀ m ≤ k, ¬ z.Shows wall m)
    (hpast : wall < z.endsAt (k + 1)) : ∃ m ≤ k, z.Skips wall m := by
  by_contra hskips
  have hnone : ∀ m ≤ k, z.endsAt m ≤ wall → z.endsAt (m + 1) ≤ wall := by
    intro m hm hend
    have hstart : z.startsAt m ≤ wall := by
      by_contra hlt
      exact hskips ⟨m, hm, hend, Int.not_le.mp hlt⟩
    by_contra hlt
    exact hshown m hm (shows_iff.mpr ⟨hstart, Int.not_le.mp hlt⟩)
  have hall : ∀ n : Nat, (wall - day) / minute + n ≤ k + 1 →
      z.endsAt ((wall - day) / minute + n) ≤ wall := by
    intro n
    induction n with
    | zero =>
      intro _
      have hle : z.endsAt ((wall - day) / minute - 1 + 1) ≤ wall := endsAt_le (by omega)
      rw [Int.sub_add_cancel] at hle
      simpa using hle
    | succ n ih =>
      intro hn
      have hle := hnone _ (by omega) (ih (by omega))
      rw [Int.add_assoc] at hle
      exact hle
  by_cases hk : (wall - day) / minute ≤ k + 1
  · have hle := hall (k + 1 - (wall - day) / minute).toNat (by omega)
    rw [show (wall - day) / minute + ((k + 1 - (wall - day) / minute).toNat : Int) = k + 1 by
      omega] at hle
    omega
  · have hle : z.endsAt (k + 1) ≤ wall := endsAt_le (by omega)
    omega

theorem window_sorted (wall : Int) : (window wall).Pairwise (· < ·) := by
  unfold window
  rw [List.pairwise_map]
  apply List.pairwise_lt_range.imp
  intro i j hij
  omega

/-- the offset of a wall time that is shown gives the first instant that shows it -/
theorem localOffset_shown {wall m : Int} (h : z.Shows wall m) :
    IsLeast {v | z.clock v = wall} (wall - z.localOffset wall false) := by
  have hmem : ∀ n, z.Shows wall n → n ∈ (window wall).filter fun n => z.Shows wall n :=
    fun n hn => List.mem_filter.mpr ⟨hn.mem_window, decide_eq_true hn⟩
  have hsorted := (window_sorted wall).filter fun n => decide (z.Shows wall n)
  cases hshown : (window wall).filter fun n => z.Shows wall n with
  | nil =>
    have hm := hmem m h
    rw [hshown] at hm
    cases hm
  | cons first rest =>
    have hoffset : z.localOffset wall false = z.offset first := by
      unfold localOffset
      rw [hshown]
      rfl
    have hfirst : z.Shows wall first := by
      have hm : first ∈ (window wall).filter fun n => z.Shows wall n := by
        rw [hshown]
        exact List.mem_cons_self
      exact of_decide_eq_true (List.mem_filter.mp hm).2
    rw [hoffset]
    refine ⟨clock_eq_iff.mpr ⟨first, hfirst, rfl⟩, ?_⟩
    intro v hv
    obtain ⟨n, hn, rfl⟩ := clock_eq_iff.mp hv
    have hm := hmem n hn
    rw [hshown] at hm hsorted
    obtain rfl | hm := List.mem_cons.mp hm
    · exact Int.le_refl _
    · -- a later minute
      have hlt := (List.pairwise_cons.mp hsorted).1 n hm
      unfold Shows minute at hfirst hn
      omega

/-- that of a skipped one is the offset before the skip, or after it -/
theorem localOffset_skipped {wall : Int} (h : ∀ m, ¬ z.Shows wall m) :
    ∃ m, z.Skips wall m ∧ z.localOffset wall false = z.offset (m - 1) ∧
      z.localOffset wall true = z.offset m := by
  have hshown : ((window wall).filter fun n => z.Shows wall n) = [] :=
    List.filter_eq_nil_iff.mpr fun n _ => by rw [decide_eq_false (h n)]; exact Bool.false_ne_true
  have hpast : wall < z.endsAt ((wall + day) / minute + 1 + 1) := by
    have hlt := z.lt_startsAt (Int.lt_succ ((wall + day) / minute))
    unfold startsAt minute at hlt
    unfold endsAt minute
    rw [Int.add_sub_cancel]
    omega
  obtain ⟨m, -, hm⟩ := exists_skips (fun n _ => h n) hpast
  have hsome : ((window wall).find? fun n => z.Skips wall n).isSome := by
    rw [List.find?_isSome]
    exact ⟨m, hm.mem_window, decide_eq_true hm⟩
  obtain ⟨n, hn⟩ := Option.isSome_iff_exists.mp hsome
  have hskips := @List.find?_some _ (fun n => decide (z.Skips wall n)) _ _ hn
  refine ⟨n, of_decide_eq_true hskips, ?_, ?_⟩
  · unfold localOffset
    rw [hshown, hn]
    rfl
  · unfold localOffset
    rw [hshown, hn]
    rfl

/-! ## zones whose jumps are apart -/

variable (z)

def Jumps (m : Int) : Prop := z.offset m ≠ z.offset (m - 1)

/-- how far the clocks jump when a minute starts -/
def jump (m : Int) : Int := |z.offset m - z.offset (m - 1)|

def JumpsWithinDay : Prop := ∀ m, z.jump m ≤ day

/-- the clocks go back when a minute starts -/
def FallsBack (m : Int) : Prop := z.offset m < z.offset (m - 1)

/-- between two jumps, unless both are ahead, there is as much time as the clocks jump at either -/
def Apart : Prop := ∀ m n, m < n → z.Jumps m → z.Jumps n → z.FallsBack m ∨ z.FallsBack n →
  z.jump m ≤ minute * (n - m) ∧ z.jump n ≤ minute * (n - m)

variable {z}

theorem endsAt_startsAt (z : Zone) (m : Int) :
    z.startsAt m ≤ z.endsAt m + z.jump m ∧ z.endsAt m ≤ z.startsAt m + z.jump m := by
  have h₁ := le_abs_self (z.offset m - z.offset (m - 1))
  have h₂ := neg_le_abs (z.offset m - z.offset (m - 1))
  unfold startsAt endsAt jump
  omega

theorem Skips.jumps {wall m : Int} (h : z.Skips wall m) : z.Jumps m := by
  intro he
  have hlt := h.1.trans_lt h.2
  unfold endsAt startsAt at hlt
  omega

/-- after a jump the clocks do not come back -/
theorem startsAt_le (hapart : z.Apart) {r m : Int} (hr : z.Jumps r) (h : r ≤ m) :
    z.startsAt r ≤ z.startsAt m := by
  -- the last jump up to a minute is not before the first one
  have hlast : ∀ n : Nat, ∃ s, z.Jumps s ∧ s ≤ r + n ∧ z.offset (r + n) = z.offset s ∧
      z.startsAt r ≤ z.startsAt s := by
    intro n
    induction n with
    | zero => exact ⟨r, hr, by omega, by rw [Int.natCast_zero, Int.add_zero], Int.le_refl _⟩
    | succ n ih =>
      obtain ⟨s, hs, hle, hsame, hpast⟩ := ih
      have hprev : r + (n + 1 : Nat) - 1 = r + n := by omega
      by_cases hjump : z.Jumps (r + (n + 1 : Nat))
      · refine ⟨_, hjump, Int.le_refl _, rfl, ?_⟩
        have hend : z.endsAt (r + (n + 1 : Nat)) = minute * (r + (n + 1 : Nat)) + z.offset s := by
          unfold endsAt
          rw [hprev, hsame]
        by_cases hback : z.FallsBack (r + (n + 1 : Nat))
        · have hfar := (hapart s _ (by omega) hs hjump (.inr hback)).2
          have hstart := (z.endsAt_startsAt (r + (n + 1 : Nat))).2
          unfold startsAt minute at *
          omega
        · have hahead := Int.not_lt.mp hback
          unfold endsAt startsAt minute at *
          omega
      · have hstays : z.offset (r + (n + 1 : Nat)) = z.offset (r + n) := by
          rw [← hprev]
          exact not_not.mp hjump
        exact ⟨s, hs, by omega, hstays.trans hsame, hpast⟩
  obtain ⟨s, -, hle, hsame, hpast⟩ := hlast (m - r).toNat
  rw [show r + ((m - r).toNat : Int) = m by omega] at hle hsame
  unfold startsAt minute at *
  omega

/-- the zone with time running backwards -/
def mirror (z : Zone) : Zone where
  offset m := -z.offset (-m - 1)
  bounded m := by
    have hb := z.bounded (-m - 1)
    omega

theorem mirror_offset (z : Zone) (m : Int) :
    z.mirror.offset (-m) = -z.offset (m - 1) ∧ z.mirror.offset (-m - 1) = -z.offset m := by
  constructor
  · show -z.offset (- -m - 1) = _
    rw [Int.neg_neg]
  · show -z.offset (-(-m - 1) - 1) = _
    rw [show -(-m - 1) - 1 = m by omega]

theorem mirror_startsAt (z : Zone) (m : Int) : z.mirror.startsAt (-m) = -z.endsAt m := by
  unfold startsAt endsAt
  rw [(z.mirror_offset m).1, Int.mul_neg, Int.neg_add]

theorem mirror_jumps (z : Zone) (m : Int) : z.mirror.Jumps (-m) ↔ z.Jumps m := by
  unfold Jumps
  rw [(z.mirror_offset m).1, (z.mirror_offset m).2, not_iff_not]
  omega

theorem mirror_jump (z : Zone) (m : Int) : z.mirror.jump (-m) = z.jump m := by
  unfold jump
  rw [(z.mirror_offset m).1, (z.mirror_offset m).2]
  exact congrArg abs (by omega)

theorem mirror_fallsBack (z : Zone) (m : Int) : z.mirror.FallsBack (-m) ↔ z.FallsBack m := by
  unfold FallsBack
  rw [(z.mirror_offset m).1, (z.mirror_offset m).2]
  omega

theorem Apart.mirror (h : z.Apart) : z.mirror.Apart := by
  intro m n hmn hm hn hback
  rw [← Int.neg_neg m, mirror_jumps] at hm
  rw [← Int.neg_neg n, mirror_jumps] at hn
  rw [← Int.neg_neg m, ← Int.neg_neg n, mirror_fallsBack, mirror_fallsBack] at hback
  obtain ⟨hn', hm'⟩ := h (-n) (-m) (by omega) hn hm hback.symm
  rw [← Int.neg_neg m, ← Int.neg_neg n, mirror_jump, mirror_jump]
  unfold minute at *
  omega

/-- before a jump they have not been further -/
theorem endsAt_le_endsAt (hapart : z.Apart) {n r : Int} (hr : z.Jumps r) (h : n ≤ r) :
    z.endsAt n ≤ z.endsAt r := by
  have hle := startsAt_le hapart.mirror ((z.mirror_jumps r).mpr hr) (Int.neg_le_neg h)
  rw [mirror_startsAt, mirror_startsAt] at hle
  omega

/-- **the clocks are never more than a day behind** -/
theorem endsAt_le_startsAt (hday : z.JumpsWithinDay) (hapart : z.Apart) {n m : Int} (h : n ≤ m) :
    z.endsAt n ≤ z.startsAt m + day := by
  have hstep : ∀ k : Int, ¬ z.Jumps k → z.startsAt k = z.endsAt k := by
    intro k hk
    unfold startsAt endsAt
    rw [not_not.mp hk]
  -- up to the first jump they go forward
  have hfirst : ∀ i : Nat, z.endsAt n ≤ z.startsAt (n + i) ∨
      ∃ r, z.Jumps r ∧ r ≤ n + i ∧ z.endsAt n ≤ z.endsAt r := by
    intro i
    induction i with
    | zero =>
      rw [Int.natCast_zero, Int.add_zero]
      by_cases hn : z.Jumps n
      · exact .inr ⟨n, hn, Int.le_refl _, Int.le_refl _⟩
      · exact .inl (Int.le_of_eq (hstep n hn).symm)
    | succ i ih =>
      obtain hle | ⟨r, hr, hle, hend⟩ := ih
      · have hnext : z.endsAt n ≤ z.endsAt (n + (i + 1 : Nat)) := by
          unfold endsAt startsAt minute at *
          rw [show n + (i + 1 : Nat) - 1 = n + i by omega]
          omega
        by_cases hjump : z.Jumps (n + (i + 1 : Nat))
        · exact .inr ⟨_, hjump, Int.le_refl _, hnext⟩
        · rw [hstep _ hjump]
          exact .inl hnext
      · exact .inr ⟨r, hr, by omega, hend⟩
  have hm := hfirst (m - n).toNat
  rw [show n + ((m - n).toNat : Int) = m by omega] at hm
  obtain hle | ⟨r, hr, hle, hend⟩ := hm
  · have hpos : 0 < day := by decide
    omega
  · have hstart := startsAt_le hapart hr hle
    have hjump := (z.endsAt_startsAt r).2
    have hlen := hday r
    omega

/-- **the clocks are past a skipped wall time from the end of the skip on** -/
theorem Skips.le_clock_iff (hapart : z.Apart) {wall m : Int} (h : z.Skips wall m) {u : Int} :
    wall ≤ z.clock u ↔ minute * m ≤ u := by
  obtain ⟨hstart, hend⟩ := z.clock_bounds u
  constructor
  · intro hle
    by_contra hlt
    have hbefore : u / minute + 1 ≤ m := by
      unfold minute at *
      omega
    have hends := endsAt_le_endsAt hapart h.jumps hbefore
    have hskip := h.1
    omega
  · intro hle
    have hafter : m ≤ u / minute := by
      unfold minute at *
      omega
    have hstarts := startsAt_le hapart h.jumps hafter
    have hskip := h.2
    omega

/-- a skipped wall time is not shown -/
theorem Skips.clock_ne (hapart : z.Apart) {wall m : Int} (h : z.Skips wall m) (u : Int) :
    z.clock u ≠ wall := by
  intro hu
  obtain ⟨hstart, -⟩ := z.clock_bounds u
  have hle := (h.le_clock_iff hapart).mp (Int.le_of_eq hu.symm)
  have hafter : m ≤ u / minute := by
    unfold minute at *
    omega
  have hstarts := startsAt_le hapart h.jumps hafter
  have hskip := h.2
  omega

/-- **what a wall time resolves to is the first instant at or past it** -/
theorem Resolves.isLeast (hapart : z.Apart) {wall u : Int} (h : z.Resolves wall u) :
    IsLeast {v | wall ≤ z.clock v} u := by
  obtain ⟨hu, hleast⟩ | ⟨-, ⟨m, hm, hskip⟩, -⟩ := h
  · have hu : z.clock u = wall := hu
    refine ⟨Int.le_of_eq hu.symm, ?_⟩
    intro v hv
    have hv : wall ≤ z.clock v := hv
    by_contra hlt
    have hlt := Int.not_le.mp hlt
    -- the clocks would have skipped it
    have hshown : ∀ n ≤ v / minute, ¬ z.Shows wall n := by
      intro n hn hshows
      have hle := hleast (clock_eq_iff.mpr ⟨n, hshows, rfl⟩)
      have hn' : (wall - z.offset n) / minute = n := hshows
      unfold clock at hv
      obtain hless | heq := Int.lt_or_eq_of_le hn
      · unfold minute at *
        omega
      · rw [heq] at hle hn'
        omega
    obtain ⟨m, -, hskip⟩ := exists_skips hshown (hv.trans_lt (z.clock_bounds v).2)
    exact hskip.clock_ne hapart u hu
  · rw [hm]
    exact ⟨(hskip.le_clock_iff hapart).mpr (Int.le_refl _), fun v hv =>
      (hskip.le_clock_iff hapart).mp hv⟩

/-- a wall time that is skipped resolves to the end of the skip -/
theorem Skips.resolves (hapart : z.Apart) {wall m : Int} (h : z.Skips wall m) :
    z.Resolves wall (minute * m) := by
  refine .inr ⟨h.clock_ne hapart, ⟨m, rfl, h⟩, ?_⟩
  rintro v ⟨n, rfl, hn⟩
  exact (h.le_clock_iff hapart).mp ((hn.le_clock_iff hapart).mpr (Int.le_refl _))

end Zone

end Freepod.Base
