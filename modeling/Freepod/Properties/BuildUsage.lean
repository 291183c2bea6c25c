import Freepod.Base.Refuse
import Freepod.Base.Tiling
import Freepod.Platform.BuildUsage
import Mathlib.Algebra.BigOperators.Ring.List
import Mathlib.Tactic.FieldSimp
import Mathlib.Tactic.Linarith
import Mathlib.Tactic.Positivity

/-!
# A build's usage is conserved by windowing

* `gridPoint_le` and `lt_gridPoint_add`: where `align` puts a moment.
* `Windowed`, `windowed_of_ok`: what the loop of `window_quantities` returns.
* `conserved_iff`: the windows account for the whole run exactly where the grid point found for its
  start is not after it, and the grid around the run is made of dates.
-/

namespace Freepod.Usage

open Base

/-! ## where `align` puts a moment -/

variable {W : Int}

theorem lt_wholeSeconds (moment : Int) : moment < (wholeSeconds moment + 1) * second := by
  unfold wholeSeconds second
  split
  · have hle := le_truncQuotient (n := moment.toNat) (d := 1000000) (by decide)
    omega
  · have hlt := truncQuotient_mul_lt (n := (-moment).toNat) (d := 1000000) (by decide)
    omega

theorem wholeSeconds_le {moment : Int} (h0 : 0 ≤ moment) (h : moment < 2 ^ 34 * second) :
    wholeSeconds moment * second ≤ moment := by
  unfold wholeSeconds
  rw [if_pos h0, truncQuotient_eq (by decide)]
  · unfold second
    omega
  · -- below 2^34 seconds at least 19 bits stand after the point
    have hlog : Nat.log 2 (moment.toNat / 1000000) ≤ 33 := by
      apply Nat.le_of_lt_succ
      apply Nat.log_lt_of_lt_pow'
      · decide
      · unfold second at h
        omega
    have hbits : 19 ≤ fractionBits moment.toNat 1000000 := by
      unfold fractionBits
      omega
    calc 1000000 < 2 * 2 ^ 19 := by decide
      _ ≤ 2 * 2 ^ fractionBits moment.toNat 1000000 :=
        Nat.mul_le_mul_left 2 (Nat.pow_le_pow_right (by decide) hbits)

theorem dvd_gridPoint (moment W : Int) : W * second ∣ gridPoint moment W :=
  Int.mul_dvd_mul_right second (Int.dvd_self_sub_of_emod_eq rfl)

/-- the grid point is less than a window before the moment -/
theorem lt_gridPoint_add (hW : 0 < W) (moment : Int) :
    moment < gridPoint moment W + W * second := by
  have hlt := lt_wholeSeconds moment
  have hmod := Int.emod_lt_of_pos (wholeSeconds moment) hW
  have hle : (wholeSeconds moment + 1) * second ≤
      (wholeSeconds moment - wholeSeconds moment % W + W) * second := by
    apply Int.mul_le_mul_of_nonneg_right
    · omega
    · decide
  have hexp : (wholeSeconds moment - wholeSeconds moment % W + W) * second =
      gridPoint moment W + W * second := Int.add_mul ..
  rw [hexp] at hle
  exact lt_of_lt_of_le hlt hle

/-- from 1970 to the year 2514 it is not after it -/
theorem gridPoint_le {moment : Int} (hW : 0 < W) (h0 : 0 ≤ moment) (h : moment < 2 ^ 34 * second) :
    gridPoint moment W ≤ moment := by
  have hle := wholeSeconds_le h0 h
  have hmod := Int.emod_nonneg (wholeSeconds moment) (ne_of_gt hW)
  have hgrid : gridPoint moment W ≤ wholeSeconds moment * second := by
    apply Int.mul_le_mul_of_nonneg_right
    · omega
    · decide
  exact hgrid.trans hle

theorem checked_eq_ok {t t' : Int} :
    checked t = .ok t' ↔ (datetimeMin ≤ t ∧ t ≤ datetimeMax) ∧ t' = t := by
  unfold checked
  split
  · rename_i h
    constructor
    · intro he
      exact ⟨h, (Except.ok.inj he).symm⟩
    · rintro ⟨-, rfl⟩
      rfl
  · rename_i h
    constructor
    · intro he
      cases he
    · intro he
      exact absurd he.1 h

/-! ## the loop -/

section Loop

variable {b : Build} {start finish step : Int}

/-- the interval of a window -/
def WindowUsage.range (step : Int) (w : WindowUsage) : Int × Int :=
  (w.windowStart, w.windowStart + step)

/-- how much of the run a window holds, in microseconds -/
def overlap (start finish step windowStart : Int) : Int :=
  min finish (windowStart + step) - max start windowStart

/-- windows from a grid point to the one at or after the end of the run, each with its share -/
structure Windowed (b : Build) (start finish step lo : Int) (windows : List WindowUsage)
    (hi : Int) : Prop where
  tiles : Tiles lo (windows.map (WindowUsage.range step)) hi
  covers : finish ≤ hi
  early : ∀ w ∈ windows, w.windowStart < finish
  share : ∀ w ∈ windows, w.quantities = quantitiesOf b (seconds (finish - start))
    (seconds (overlap start finish step w.windowStart))

theorem Windowed.nil {lo : Int} (h : finish ≤ lo) : Windowed b start finish step lo [] lo where
  tiles := rfl
  covers := h
  early := fun _ hw => nomatch hw
  share := fun _ hw => nomatch hw

theorem Windowed.cons {lo hi : Int} {windows : List WindowUsage}
    (h : Windowed b start finish step (lo + step) windows hi) (hstep : 0 < step)
    (hlo : lo < finish) :
    Windowed b start finish step lo
      (⟨lo, quantitiesOf b (seconds (finish - start)) (seconds (overlap start finish step lo))⟩ ::
        windows) hi where
  tiles := ⟨rfl, Int.lt_add_of_pos_right lo hstep, h.tiles⟩
  covers := h.covers
  early := by
    intro w hw
    obtain rfl | hw := List.mem_cons.mp hw
    · exact hlo
    · exact h.early w hw
  share := by
    intro w hw
    obtain rfl | hw := List.mem_cons.mp hw
    · rfl
    · exact h.share w hw

/-- **the loop**, with as many turns as there are windows: it returns them all, the last ends at a
date -/
theorem windowed_of_ok {n : Nat} {lo : Int} {windows : List WindowUsage} (hstep : 0 < step)
    (hn : finish ≤ lo + n * step) (h : windowsFrom b start finish step n lo = .ok windows) :
    ∃ hi, Windowed b start finish step lo windows hi ∧
      (lo ≤ datetimeMax → hi ≤ datetimeMax ∨ finish ≤ lo) := by
  induction n generalizing lo windows with
  | zero =>
    cases h
    have hle : finish ≤ lo := by simpa using hn
    exact ⟨lo, .nil hle, fun _ => .inr hle⟩
  | succ n ih =>
    unfold windowsFrom at h
    split at h
    · rename_i hlo
      obtain ⟨stop, hstop, h⟩ := bind_eq_ok.mp h
      obtain ⟨rest, hrest, h⟩ := bind_eq_ok.mp h
      obtain ⟨hrange, rfl⟩ := checked_eq_ok.mp hstop
      cases h
      have hn' : finish ≤ lo + step + n * step := by
        have : ((n + 1 : Nat) : Int) * step = n * step + step := by push_cast; ring
        omega
      obtain ⟨hi, hw, hhi⟩ := ih hn' hrest
      refine ⟨hi, hw.cons hstep hlo, fun _ => .inl ?_⟩
      obtain hle | hle := hhi hrange.2
      · exact hle
      · -- the run ends in this window, and the rest is empty
        cases rest with
        | nil =>
          have hi_eq : lo + step = hi := hw.tiles
          omega
        | cons w rest =>
          have hws : w.windowStart = lo + step := hw.tiles.1
          have := hw.early w List.mem_cons_self
          omega
    · rename_i hlo
      cases h
      have hle : finish ≤ lo := not_lt.mp hlo
      exact ⟨lo, .nil hle, fun _ => .inr hle⟩

/-- the loop does not fail where its last window ends at a date -/
theorem windowsFrom_ok (b : Build) (start finish : Int) {n : Nat} {lo : Int} (hstep : 0 < step)
    (hlo : datetimeMin ≤ lo)
    (hhi : lo + n * step ≤ datetimeMax) :
    ∃ windows, windowsFrom b start finish step n lo = .ok windows := by
  induction n generalizing lo with
  | zero => exact ⟨[], rfl⟩
  | succ n ih =>
    unfold windowsFrom
    split
    · have hexp : ((n + 1 : Nat) : Int) * step = n * step + step := by push_cast; ring
      have hnn : 0 ≤ (n : Int) * step := Int.mul_nonneg (Int.natCast_nonneg n) hstep.le
      have hc : checked (lo + step) = .ok (lo + step) := by
        apply checked_eq_ok.mpr
        constructor
        · constructor <;> omega
        · rfl
      have hnext : datetimeMin ≤ lo + step := by omega
      obtain ⟨rest, hrest⟩ := ih hnext (by omega)
      rw [hc]
      refine ⟨_, bind_eq_ok.mpr ⟨_, rfl, bind_eq_ok.mpr ⟨rest, hrest, rfl⟩⟩⟩
    · exact ⟨[], rfl⟩

/-- the windows' shares of the run add up to it, but for what lies before the first window -/
theorem sum_overlap {lo hi : Int} {windows : List WindowUsage}
    (h : Windowed b start finish step lo windows hi) (hstep : 0 < step) (hs : start < lo + step) :
    (windows.map fun w => overlap start finish step w.windowStart).sum =
      if lo < finish then finish - max start lo else 0 := by
  induction windows generalizing lo with
  | nil =>
    have hle : finish ≤ lo := by
      rw [show lo = hi from h.tiles]
      exact h.covers
    rw [if_neg (not_lt.mpr hle)]
    rfl
  | cons w windows ih =>
    have hw : w.windowStart = lo := h.tiles.1
    have hlo : lo < finish := hw ▸ h.early w List.mem_cons_self
    have hrest : Windowed b start finish step (lo + step) windows hi := by
      refine ⟨?_, h.covers, fun w hw => h.early w (List.mem_cons_of_mem _ hw),
        fun w hw => h.share w (List.mem_cons_of_mem _ hw)⟩
      rw [← hw]
      exact h.tiles.2.2
    rw [List.map_cons, List.sum_cons, ih hrest (by omega), hw, if_pos hlo, overlap]
    split <;> omega

theorem tiles_length {lo hi : Int} {windows : List WindowUsage}
    (h : Tiles lo (windows.map (WindowUsage.range step)) hi) : hi = lo + windows.length * step := by
  induction windows generalizing lo with
  | nil =>
    rw [show lo = hi from h]
    simp
  | cons w windows ih =>
    obtain ⟨hw, -, h⟩ := h
    have hexp : ((windows.length + 1 : Nat) : Int) * step = windows.length * step + step := by
      push_cast
      ring
    have hr := ih h
    rw [List.length_cons, hexp]
    unfold WindowUsage.range at hw hr
    dsimp only at hw hr
    omega

theorem windowCount_spec (hstep : 0 < step) (lo : Int) :
    finish ≤ lo + windowCount finish step lo * step := by
  have hle : (lo - finish) / step * step ≤ lo - finish := Int.ediv_mul_le _ (ne_of_gt hstep)
  have hcount : -((lo - finish) / step) ≤ (windowCount finish step lo : Int) := Int.self_le_toNat _
  have hmul : -((lo - finish) / step) * step ≤ windowCount finish step lo * step :=
    Int.mul_le_mul_of_nonneg_right hcount hstep.le
  rw [Int.neg_mul] at hmul
  omega

/-- there are no more windows than it takes -/
theorem windowCount_le {n : Nat} (hstep : 0 < step) {lo : Int} (h : finish ≤ lo + n * step) :
    windowCount finish step lo ≤ n := by
  have hle : -(n : Int) ≤ (lo - finish) / step := by
    apply Int.le_ediv_of_mul_le hstep
    rw [Int.neg_mul]
    omega
  unfold windowCount
  omega

end Loop

/-! ## what the windows add up to -/

/-- a metric over all the windows -/
def total (windows : List WindowUsage) (metric : String) : ℚ :=
  (windows.map fun w => (w.quantities.lookup metric).getD 0).sum

theorem seconds_add (a b : Int) : seconds (a + b) = seconds a + seconds b := by
  unfold seconds
  push_cast
  ring

theorem seconds_nonneg {a : Int} (h : 0 ≤ a) : 0 ≤ seconds a := by
  unfold seconds
  have : (0 : ℚ) ≤ a := by exact_mod_cast h
  positivity

theorem seconds_pos {a : Int} (h : 0 < a) : 0 < seconds a := by
  unfold seconds
  have : (0 : ℚ) < a := by exact_mod_cast h
  positivity

theorem seconds_injective {a b : Int} (h : seconds a = seconds b) : a = b := by
  unfold seconds at h
  have hab : (a : ℚ) = b := by linarith
  exact_mod_cast hab

theorem seconds_sum (l : List Int) : (l.map seconds).sum = seconds l.sum := by
  induction l with
  | nil => simp [seconds]
  | cons a l ih => rw [List.map_cons, List.sum_cons, List.sum_cons, ih, seconds_add]

section Totals

variable {b : Build} {start finish step lo hi : Int} {windows : List WindowUsage}

/-- a metric in proportion to the run within each window is so in proportion to the whole -/
theorem total_of_share (h : Windowed b start finish step lo windows hi) (metric : String) (c : ℚ)
    (hc : ∀ w ∈ windows, ((quantitiesOf b (seconds (finish - start))
      (seconds (overlap start finish step w.windowStart))).lookup metric).getD 0 =
        c * seconds (overlap start finish step w.windowStart)) :
    total windows metric =
      c * seconds (windows.map fun w => overlap start finish step w.windowStart).sum := by
  have hmap : windows.map (fun w => (w.quantities.lookup metric).getD 0) =
      windows.map fun w => c * seconds (overlap start finish step w.windowStart) := by
    apply List.map_congr_left
    intro w hw
    rw [h.share w hw, hc w hw]
  rw [total, hmap, List.sum_map_mul_left, ← seconds_sum, List.map_map]
  rfl

theorem lookup_running (b : Build) (wall o : ℚ) :
    ((quantitiesOf b wall o).lookup "running_seconds").getD 0 = 1 * o := by
  rw [one_mul]
  rfl

/-- a measured build's hours: a share of what was measured, floored at the same share of what was
requested -/
theorem floored_share {request used wall o : ℚ} (ho : 0 ≤ o) :
    max (request * (o / secondsPerHour)) (used * (o / wall) / secondsPerHour) =
      max (request / secondsPerHour) (used / wall / secondsPerHour) * o := by
  rw [max_mul_of_nonneg _ _ ho]
  congr 1 <;> ring

theorem floored_whole {request used wall : ℚ} (hw : 0 < wall) :
    max (request / secondsPerHour) (used / wall / secondsPerHour) * wall =
      max (used / secondsPerHour) (request * (wall / secondsPerHour)) := by
  rw [max_mul_of_nonneg _ _ hw.le, max_comm]
  congr 1
  · have := hw.ne'
    field_simp
  · ring

theorem lookup_measured {cpu : ℚ} {memory s f : Int} (hm : measurement b = some (cpu, memory, s, f))
    (wall o : ℚ) :
    ((quantitiesOf b wall o).lookup "cpu_core_hours").getD 0 =
        max (cpuRequestCores * (o / secondsPerHour)) (cpu * (o / wall) / secondsPerHour) ∧
      ((quantitiesOf b wall o).lookup "ram_byte_hours").getD 0 =
        max (memoryRequestBytes * (o / secondsPerHour)) (memory * (o / wall) / secondsPerHour) := by
  unfold quantitiesOf
  rw [hm]
  exact ⟨rfl, rfl⟩

theorem lookup_estimated (hm : measurement b = none) (wall o : ℚ) :
    ((quantitiesOf b wall o).lookup "cpu_core_hours").getD 0 =
        cpuRequestCores / secondsPerHour * o ∧
      ((quantitiesOf b wall o).lookup "ram_byte_hours").getD 0 =
        memoryRequestBytes / secondsPerHour * o := by
  unfold quantitiesOf
  rw [hm]
  constructor
  · show cpuRequestCores * (o / secondsPerHour) = _
    ring
  · show memoryRequestBytes * (o / secondsPerHour) = _
    ring

theorem overlap_nonneg (h : Windowed b start finish step lo windows hi) (hrun : start < finish)
    (hstep : 0 < step) (hs : start < lo + step) {w : WindowUsage} (hw : w ∈ windows) :
    0 ≤ overlap start finish step w.windowStart := by
  have hlo : lo ≤ w.windowStart := le_of_mem_tiles h.tiles (List.mem_map_of_mem hw)
  have hearly := h.early w hw
  unfold overlap
  omega

end Totals

/-- the windows of a build account for its run: they lie end to end on the grid and cover it, the
running seconds are its length, and a measured build is charged the larger of what it used and what
was held for it, an estimated one what was held -/
def Conserved (b : Build) (W start finish : Int) : Prop :=
  ∃ windows, windowQuantities b W = .ok windows ∧
    (∃ lo hi, Tiles lo (windows.map (WindowUsage.range (W * second))) hi ∧ lo ≤ start ∧
      finish ≤ hi ∧ W * second ∣ lo) ∧
    (∀ w ∈ windows, w.windowStart < finish) ∧
    total windows "running_seconds" = seconds (finish - start) ∧
    match measurement b with
    | some (cpu, memory, _, _) =>
      total windows "cpu_core_hours" =
          max (cpu / secondsPerHour)
            (cpuRequestCores * (seconds (finish - start) / secondsPerHour)) ∧
        total windows "ram_byte_hours" =
          max (memory / secondsPerHour)
            (memoryRequestBytes * (seconds (finish - start) / secondsPerHour))
    | none =>
      total windows "cpu_core_hours" =
          cpuRequestCores * (seconds (finish - start) / secondsPerHour) ∧
        total windows "ram_byte_hours" =
          memoryRequestBytes * (seconds (finish - start) / secondsPerHour)

/-- the grid point found for the start is not after it, and the grid around the run is made of
dates -/
structure Fits (start finish W : Int) : Prop where
  floored : gridPoint start W ≤ start
  first : datetimeMin ≤ gridPoint start W
  last : ∃ n : Nat, finish ≤ gridPoint start W + n * (W * second) ∧
    gridPoint start W + n * (W * second) ≤ datetimeMax

theorem windowQuantities_eq {b : Build} {start finish : Int} (hrun : runOf b = some (start, finish))
    (hlt : start < finish) :
    windowQuantities b W = (align start W).bind fun windowStart =>
      windowsFrom b start finish (W * second) (windowCount finish (W * second) windowStart)
        windowStart := by
  unfold windowQuantities
  rw [hrun]
  simp only
  rw [if_neg (not_le.mpr hlt)]
  rfl

/-- what the windows add up to, where the first is not after the start -/
theorem conserved_of_windowed {b : Build} {start finish lo hi : Int} {windows : List WindowUsage}
    (hW : 0 < W) (hok : windowQuantities b W = .ok windows) (hlt : start < finish)
    (h : Windowed b start finish (W * second) lo windows hi) (hlo : lo ≤ start)
    (hs : start < lo + W * second) (hdvd : W * second ∣ lo) : Conserved b W start finish := by
  have hstep : 0 < W * second := Int.mul_pos hW (by decide)
  have hsum := sum_overlap h hstep hs
  rw [if_pos (lt_of_le_of_lt hlo hlt), max_eq_left hlo] at hsum
  have hrunning := total_of_share h "running_seconds" 1 fun w _ =>
    lookup_running b _ _
  rw [hsum, one_mul] at hrunning
  have ho : ∀ w ∈ windows, 0 ≤ seconds (overlap start finish (W * second) w.windowStart) :=
    fun w hw => seconds_nonneg (overlap_nonneg h hlt hstep hs hw)
  have hwall : 0 < seconds (finish - start) := seconds_pos (by omega)
  refine ⟨windows, hok, ⟨lo, hi, h.tiles, hlo, h.covers, hdvd⟩, h.early, hrunning, ?_⟩
  cases hm : measurement b with
  | some m =>
    obtain ⟨cpu, memory, s, f⟩ := m
    have hcpu := total_of_share h "cpu_core_hours" _ fun w hw =>
      ((lookup_measured hm _ _).1).trans (floored_share (ho w hw))
    have hram := total_of_share h "ram_byte_hours" _ fun w hw =>
      ((lookup_measured hm _ _).2).trans (floored_share (ho w hw))
    rw [hsum, floored_whole hwall] at hcpu hram
    exact ⟨hcpu, hram⟩
  | none =>
    have hcpu := total_of_share h "cpu_core_hours" _ fun w _ =>
      (lookup_estimated hm _ _).1
    have hram := total_of_share h "ram_byte_hours" _ fun w _ =>
      (lookup_estimated hm _ _).2
    rw [hsum] at hcpu hram
    refine ⟨hcpu.trans ?_, hram.trans ?_⟩ <;> ring

/-- **a build's usage is conserved exactly where `align` floors its start** -/
theorem conserved_iff {b : Build} {start finish : Int} (hrun : runOf b = some (start, finish))
    (hlt : start < finish) (hW : 0 < W) : Conserved b W start finish ↔ Fits start finish W := by
  have hstep : 0 < W * second := Int.mul_pos hW (by decide)
  have hs := lt_gridPoint_add hW start
  have heq := windowQuantities_eq (W := W) hrun hlt
  constructor
  · rintro ⟨windows, hok, -, -, hrunning, -⟩
    rw [heq] at hok
    obtain ⟨lo, halign, hloop⟩ := bind_eq_ok.mp hok
    obtain ⟨hrange, rfl⟩ := checked_eq_ok.mp halign
    obtain ⟨hi, hw, hhi⟩ := windowed_of_ok hstep (windowCount_spec hstep _) hloop
    have hsum := sum_overlap hw hstep hs
    have htotal := total_of_share hw "running_seconds" 1 fun w _ =>
      lookup_running b _ _
    rw [htotal, one_mul, hsum] at hrunning
    have hlen := seconds_injective hrunning
    refine ⟨?_, hrange.1, ?_⟩
    · by_contra hgt
      split at hlen <;> omega
    · obtain hle | hle := hhi hrange.2
      · exact ⟨windows.length, by rw [← tiles_length hw.tiles]; exact ⟨hw.covers, hle⟩⟩
      · refine ⟨0, ?_⟩
        simpa using ⟨hle, hrange.2⟩
  · rintro ⟨hfloor, hfirst, n, hcover, hlast⟩
    have hcount := windowCount_le hstep hcover
    have hend : gridPoint start W + windowCount finish (W * second) (gridPoint start W) *
        (W * second) ≤ datetimeMax := by
      have : (windowCount finish (W * second) (gridPoint start W) : Int) * (W * second) ≤
          n * (W * second) := Int.mul_le_mul_of_nonneg_right (by exact_mod_cast hcount) hstep.le
      omega
    have hnn : 0 ≤ (n : Int) * (W * second) := Int.mul_nonneg (Int.natCast_nonneg n) hstep.le
    obtain ⟨windows, hwindows⟩ := windowsFrom_ok b start finish hstep hfirst hend
    have hok : windowQuantities b W = .ok windows := by
      rw [heq]
      refine bind_eq_ok.mpr ⟨gridPoint start W, ?_, hwindows⟩
      exact checked_eq_ok.mpr ⟨⟨hfirst, by omega⟩, rfl⟩
    obtain ⟨hi, hw, -⟩ := windowed_of_ok hstep (windowCount_spec hstep _) hwindows
    exact conserved_of_windowed hW hok hlt hw hfloor hs (dvd_gridPoint start W)

end Freepod.Usage
