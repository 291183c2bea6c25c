import Freepod.Upgrader.Schedule
import Mathlib.Tactic.Linarith

/-!
# The nightly run is at the right instant

* `bisect_spec`: the loop ends within a minute after the instant that it looks for.
* `instant_resolves`: the first instant of a wall time, or the end of its skip.
* `next_run_least`: the run is the first of these, over all dates, after an instant.
* `run_missed`: not where the clocks jump ahead and right back.
-/

namespace Freepod.Upgrader

open Base

/-! ## the time of the day -/

theorem isDigit_iff {c : Char} : isDigit c = true ↔ 48 ≤ c.toNat ∧ c.toNat ≤ 57 := by
  unfold isDigit
  rw [Bool.and_eq_true, decide_eq_true_eq, decide_eq_true_eq]

theorem ne_colon {c : Char} (h : c.toNat ≤ 57) : ':' ≠ c := by
  rintro rfl
  exact absurd h (by decide)

theorem timeOf_digits {a b c d : Char} (ha : a.toNat ≤ 57) (hb : b.toNat ≤ 57) (hc : c.toNat ≤ 57)
    (hd : d.toNat ≤ 57) (hhour : 10 * (a.toNat - 48) + (b.toNat - 48) < 24)
    (hminute : 10 * (c.toNat - 48) + (d.toNat - 48) < 60) :
    ∃ time, timeOf [a, b, ':', c, d] = .ok time ∧ 0 ≤ time ∧ time < Zone.day := by
  have hsplit : [a, b, ':', c, d].splitOn ':' = [[a, b], [c, d]] := by
    have hleft : ':' ∉ [a, b] := by simp [ne_colon ha, ne_colon hb]
    have hright : ':' ∉ [c, d] := by simp [ne_colon hc, ne_colon hd]
    show ([a, b] ++ ':' :: [c, d]).splitOn ':' = _
    rw [List.splitOn_append_cons_self_of_not_mem hleft, List.splitOn_eq_singleton hright]
  have hvalue : ∀ x y : Char,
      Nat.ofDigitChars 10 [x, y] 0 = 10 * (x.toNat - 48) + (y.toNat - 48) := by
    intro x y
    show 10 * (10 * 0 + (x.toNat - 48)) + (y.toNat - 48) = _
    omega
  unfold timeOf
  rw [hsplit]
  simp only [List.map_cons, List.map_nil, hvalue]
  rw [if_pos ⟨hhour, hminute⟩]
  refine ⟨_, rfl, ?_, ?_⟩
  · unfold Zone.minute
    omega
  · unfold Zone.day Zone.minute
    omega

theorem timeOf_spec {text : List Char} (h : isHourMinute text = true) :
    ∃ time, timeOf text = .ok time ∧ 0 ≤ time ∧ time < Zone.day := by
  unfold isHourMinute at h
  split at h
  · rename_i a b c d
    simp only [Bool.and_eq_true, Bool.or_eq_true, beq_iff_eq, decide_eq_true_eq, isDigit_iff] at h
    obtain ⟨⟨hab, hc⟩, hd⟩ := h
    have hhour : a.toNat ≤ 57 ∧ b.toNat ≤ 57 ∧ 10 * (a.toNat - 48) + (b.toNat - 48) < 24 := by
      obtain ⟨rfl | rfl, hb⟩ | ⟨rfl, hb⟩ := hab
      · exact ⟨by decide, hb.2, by rw [show '0'.toNat = 48 from rfl]; omega⟩
      · exact ⟨by decide, hb.2, by rw [show '1'.toNat = 49 from rfl]; omega⟩
      · exact ⟨by decide, by omega, by rw [show '2'.toNat = 50 from rfl]; omega⟩
    exact timeOf_digits hhour.1 hhour.2.1 (by omega) hd.2 hhour.2.2 (by omega)
  · cases h

/-! ## the bracket -/

variable {zone : Zone}

theorem bisect_spec {wall t lo hi : Int} (hpast : ∀ u, wall ≤ zone.clock u ↔ t ≤ u) (hlo : lo < t)
    (hhi : t ≤ hi) :
    t ≤ bisect zone wall lo hi ∧ bisect zone wall lo hi < t + Zone.minute := by
  induction lo, hi using bisect.induct zone wall with
  | case1 lo hi hwide hmid ih =>
    rw [bisect, if_pos hwide, if_pos hmid]
    exact ih hlo ((hpast _).mp hmid)
  | case2 lo hi hwide hmid ih =>
    rw [bisect, if_pos hwide, if_neg hmid]
    rw [hpast] at hmid
    exact ih (Int.not_le.mp hmid) hhi
  | case3 lo hi hnarrow =>
    rw [bisect, if_neg hnarrow]
    omega

/-- **the instant of a wall time** -/
theorem instant_resolves (hapart : zone.Apart) (day time : Int) :
    zone.Resolves (day * Zone.day + time) (instant zone day time) := by
  unfold instant
  dsimp only
  generalize day * Zone.day + time = wall
  by_cases hshown : ∃ m, zone.Shows wall m
  · obtain ⟨m, hm⟩ := hshown
    have hfirst := Zone.localOffset_shown hm
    have hclock : zone.clock (wall - zone.localOffset wall false) = wall := hfirst.1
    rw [if_pos hclock]
    exact .inl hfirst
  · have hnone : ∀ m, ¬ zone.Shows wall m := not_exists.mp hshown
    obtain ⟨m, hskip, hbefore, hafter⟩ := Zone.localOffset_skipped hnone
    have hne : zone.clock (wall - zone.localOffset wall false) ≠ wall := by
      intro he
      obtain ⟨n, hn, -⟩ := Zone.clock_eq_iff.mp he
      exact hnone n hn
    rw [if_neg hne, hbefore, hafter]
    -- the end of the skip is in the bracket
    obtain ⟨hend, hstart⟩ := id hskip
    unfold Zone.endsAt at hend
    unfold Zone.startsAt at hstart
    have hlo : min (wall - zone.offset m) (wall - zone.offset (m - 1)) < Zone.minute * m := by
      omega
    have hhi : Zone.minute * m ≤ max (wall - zone.offset m) (wall - zone.offset (m - 1)) := by
      omega
    obtain ⟨hge, hlt⟩ := bisect_spec (fun u => Zone.Skips.le_clock_iff hapart hskip) hlo hhi
    have hcut : bisect zone wall (min (wall - zone.offset m) (wall - zone.offset (m - 1)))
        (max (wall - zone.offset m) (wall - zone.offset (m - 1))) / Zone.minute = m := by
      unfold Zone.minute at *
      omega
    rw [hcut, Int.mul_comm]
    exact hskip.resolves hapart

theorem clock_le (hday : zone.JumpsWithinDay) (hapart : zone.Apart) {u v : Int} (h : u ≤ v) :
    zone.clock u ≤ zone.clock v + Zone.day := by
  obtain ⟨-, hend⟩ := zone.clock_bounds u
  obtain ⟨hstart, -⟩ := zone.clock_bounds v
  have hpos : 0 < Zone.day := by decide
  by_cases hsame : u / Zone.minute = v / Zone.minute
  · unfold Zone.clock
    rw [hsame]
    omega
  · have hless : u / Zone.minute + 1 ≤ v / Zone.minute := by
      unfold Zone.minute at *
      omega
    have hle := Zone.endsAt_le_startsAt hday hapart hless
    omega

/-! ## the next run -/

theorem find_first {f : Int → Int} {after : Int} (h : after < f 2) :
    ∃ i, ([0, 1, 2].map f).find? (fun c => after < c) = some (f i) ∧ after < f i ∧
      ∀ j, 0 ≤ j → j < i → f j ≤ after := by
  by_cases h₀ : after < f 0
  · refine ⟨0, List.find?_cons_of_pos (decide_eq_true h₀), h₀, ?_⟩
    omega
  · by_cases h₁ : after < f 1
    · refine ⟨1, ?_, h₁, ?_⟩
      · rw [List.map_cons, List.find?_cons_of_neg (by simpa using h₀)]
        exact List.find?_cons_of_pos (decide_eq_true h₁)
      · intro j hj hlt
        rw [show j = 0 by omega]
        exact Int.not_lt.mp h₀
    · refine ⟨2, ?_, h, ?_⟩
      · rw [List.map_cons, List.find?_cons_of_neg (by simpa using h₀), List.map_cons,
          List.find?_cons_of_neg (by simpa using h₁)]
        exact List.find?_cons_of_pos (decide_eq_true h)
      · intro j hj hlt
        obtain rfl | rfl : j = 0 ∨ j = 1 := by omega
        · exact Int.not_lt.mp h₀
        · exact Int.not_lt.mp h₁

/-- the first of the dates from the local one on whose instant is later -/
theorem isLeast_instant (hapart : zone.Apart) {after time : Int} {i : Int}
    (hnonneg : 0 ≤ time) (htime : time < Zone.day)
    (hlater : after < instant zone (zone.clock after / Zone.day + i) time)
    (hfirst : ∀ j, 0 ≤ j → j < i → instant zone (zone.clock after / Zone.day + j) time ≤ after) :
    IsLeast {u | after < u ∧ ∃ date, zone.Resolves (date * Zone.day + time) u}
      (instant zone (zone.clock after / Zone.day + i) time) := by
  have hleast := fun date => (instant_resolves hapart date time).isLeast hapart
  refine ⟨⟨hlater, _, instant_resolves hapart _ time⟩, ?_⟩
  rintro u ⟨hu, date, hresolves⟩
  have hu' := hresolves.isLeast hapart
  obtain hbefore | hfrom := Int.lt_or_le date (zone.clock after / Zone.day)
  · -- a date that is over
    have hpast : date * Zone.day + time ≤ zone.clock after := by
      unfold Zone.day Zone.minute at *
      omega
    have hle := hu'.2 hpast
    omega
  · obtain hbetween | hbeyond := Int.lt_or_le date (zone.clock after / Zone.day + i)
    · have hle := hfirst (date - zone.clock after / Zone.day) (by omega) (by omega)
      rw [show zone.clock after / Zone.day + (date - zone.clock after / Zone.day) = date by
        omega] at hle
      rw [(hleast date).unique hu'] at hle
      omega
    · apply (hleast _).2
      show _ ≤ zone.clock u
      have hwall : date * Zone.day + time ≤ zone.clock u := hu'.1
      have hday : 0 ≤ Zone.day := by decide
      have hdates := Int.mul_le_mul_of_nonneg_right hbeyond hday
      omega

/-- **the next run** -/
theorem next_run_least (hday : zone.JumpsWithinDay) (hapart : zone.Apart) (after : Int)
    (t : ScheduleTime) (hon : t.text ≠ "off".toList) :
    ∃ time candidate, timeOf t.text = .ok time ∧
      nextRun after t zone = .ok (some candidate) ∧
      IsLeast {u | after < u ∧ ∃ date, zone.Resolves (date * Zone.day + time) u} candidate := by
  obtain ⟨time, htime, hnonneg, hless⟩ := timeOf_spec (t.accepted.resolve_left hon)
  have hthird : after < instant zone (zone.clock after / Zone.day + 2) time := by
    by_contra hle
    have hwall := ((instant_resolves hapart (zone.clock after / Zone.day + 2) time).isLeast hapart).1
    have hback := clock_le hday hapart (Int.not_lt.mp hle)
    have hwall : (zone.clock after / Zone.day + 2) * Zone.day + time ≤ zone.clock _ := hwall
    unfold Zone.day Zone.minute at *
    omega
  obtain ⟨i, hfind, hlater, hfirst⟩ :=
    find_first (f := fun offset => instant zone (zone.clock after / Zone.day + offset) time) hthird
  refine ⟨time, _, htime, ?_, isLeast_instant hapart hnonneg hless hlater hfirst⟩
  unfold nextRun
  rw [if_neg hon, htime]
  dsimp only [bind, Except.bind]
  rw [hfind]

section Sample

/-- the clocks go forward by an hour and, two days later, back again -/
def summerTime : Zone where
  offset m := if 1440 ≤ m ∧ m < 4320 then 120 * Zone.minute else 60 * Zone.minute
  bounded m := by
    unfold Zone.day Zone.minute
    split <;> omega

theorem summerTime_jumps {m : Int} (h : summerTime.Jumps m) : m = 1440 ∨ m = 4320 := by
  unfold Zone.Jumps summerTime at h
  dsimp only at h
  split at h <;> split at h <;> omega

theorem summerTime_jump (m : Int) : summerTime.jump m ≤ 60 * Zone.minute := by
  unfold Zone.jump summerTime
  dsimp only
  split <;> split <;> decide

theorem summerTime_withinDay : summerTime.JumpsWithinDay :=
  fun m => Int.le_trans (summerTime_jump m) (by decide)

theorem summerTime_apart : summerTime.Apart := by
  intro m n hmn hm hn _
  have hjump := fun k => summerTime_jump k
  obtain rfl | rfl := summerTime_jumps hm
  · obtain rfl | rfl := summerTime_jumps hn
    · exact absurd hmn (Int.lt_irrefl _)
    · exact ⟨Int.le_trans (hjump _) (by decide), Int.le_trans (hjump _) (by decide)⟩
  · obtain rfl | rfl := summerTime_jumps hn
    · exact absurd hmn (by decide)
    · exact absurd hmn (Int.lt_irrefl _)

def halfPastOne : ScheduleTime := ⟨"01:30".toList, .inr rfl⟩

/-- the run that follows an instant -/
def Follows (after candidate : Int) : Prop :=
  nextRun after halfPastOne summerTime = .ok (some candidate) ∧
    IsLeast {u | after < u ∧ ∃ date, summerTime.Resolves (date * Zone.day + 90 * Zone.minute) u}
      candidate

end Sample

/-- half past one is skipped when the clocks go forward, and runs at the end of the skip; when they
go back it is shown twice, and runs the first time only -/
theorem next_run_least_sample :
    Follows (1400 * Zone.minute) (1440 * Zone.minute) ∧
      Follows (4200 * Zone.minute) (4290 * Zone.minute) ∧
      Follows (4290 * Zone.minute) (5790 * Zone.minute) := by
  have htime : timeOf halfPastOne.text = .ok (90 * Zone.minute) := by decide +kernel
  have hfollows : ∀ after candidate, nextRun after halfPastOne summerTime = .ok (some candidate) →
      Follows after candidate := by
    intro after candidate h
    obtain ⟨time, candidate', ht, hnext, hleast⟩ :=
      next_run_least summerTime_withinDay summerTime_apart after halfPastOne (by decide)
    rw [htime] at ht
    rw [h] at hnext
    rw [← Option.some.inj (Except.ok.inj hnext), ← Except.ok.inj ht] at hleast
    exact ⟨h, hleast⟩
  exact ⟨hfollows _ _ (by decide +kernel), hfollows _ _ (by decide +kernel),
    hfollows _ _ (by decide +kernel)⟩

/-! ## clocks that jump ahead and right back -/

/-- two hours ahead, for ten minutes before midnight -/
def slip : Zone where
  offset m := if 1380 ≤ m ∧ m < 1390 then 120 * Zone.minute else 0
  bounded m := by
    unfold Zone.day Zone.minute
    split <;> omega

theorem slip_withinDay : slip.JumpsWithinDay := by
  intro m
  unfold Zone.jump slip
  dsimp only
  split <;> split <;> decide

/-- half past eleven is shown after the clocks went back, and only then -/
theorem slip_resolves : slip.Resolves (1410 * Zone.minute) (1410 * Zone.minute) := by
  left
  constructor
  · show slip.clock _ = _
    decide
  · intro v hv
    have hv : v + (if 1380 ≤ v / Zone.minute ∧ v / Zone.minute < 1390 then 120 * Zone.minute
      else 0) = 1410 * Zone.minute := hv
    unfold Zone.minute at *
    split at hv <;> omega

def halfPastEleven : ScheduleTime := ⟨"23:30".toList, .inr rfl⟩

/-- a run of the date before is missed while the clocks are past midnight -/
theorem run_missed :
    ¬ ∀ zone : Zone, zone.JumpsWithinDay → ∀ (after : Int) (t : ScheduleTime),
      t.text ≠ "off".toList → ∃ time candidate, timeOf t.text = .ok time ∧
        nextRun after t zone = .ok (some candidate) ∧
        IsLeast {u | after < u ∧ ∃ date, zone.Resolves (date * Zone.day + time) u} candidate := by
  intro h
  obtain ⟨time, candidate, htime, hnext, -, hleast⟩ :=
    h slip slip_withinDay (1385 * Zone.minute) halfPastEleven (by decide)
  have htime' : timeOf halfPastEleven.text = .ok (1410 * Zone.minute) := by decide +kernel
  have hnext' : nextRun (1385 * Zone.minute) halfPastEleven slip =
      .ok (some (2850 * Zone.minute)) := by decide +kernel
  rw [htime'] at htime
  rw [hnext'] at hnext
  have ht := Except.ok.inj htime
  have hc := Option.some.inj (Except.ok.inj hnext)
  have hle : candidate ≤ 1410 * Zone.minute := by
    apply hleast
    refine ⟨by decide, 0, ?_⟩
    rw [← ht, Int.zero_mul, Int.zero_add]
    exact slip_resolves
  rw [← hc] at hle
  exact absurd hle (by decide)

end Freepod.Upgrader
