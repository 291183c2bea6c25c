import Freepod.Properties.UsageLedger

/-!
# Sampling usage, over whole runs

Passes of any number of samplers run at once, fail and die at any point, next to the workers that
record builds.

* `Move`: what a step can do, said once.
* `Planned`, `pendingWindows_ok`: the windows a pass reads are the settled ones after the position.
* `read_owned`: what a source yields moves no other source's position.
* `Sampled`: the ledger is sound and has every observation of a committed window; every step keeps
  it.
-/

namespace Freepod.Usage.Sampler

open Base

/-! ## which windows a pass reads -/

section Windows

variable {W : Int}

/-- a moment on the grid is where `align` puts it -/
theorem gridPoint_of_dvd {p : Int} (hp : W * second ∣ p) (h0 : 0 ≤ p)
    (h : p < 2 ^ 34 * second) : gridPoint p W = p := by
  obtain ⟨n, rfl⟩ := hp
  have hle := wholeSeconds_le h0 h
  have hlt := lt_wholeSeconds (W * second * n)
  have hs : wholeSeconds (W * second * n) = W * n := by
    have hmul : W * second * n = W * n * second := by ring
    rw [hmul] at hle hlt ⊢
    unfold second at hle hlt ⊢
    omega
  unfold gridPoint
  rw [hs, Int.mul_emod_right, Int.sub_zero]
  ring

/-- how many whole windows a span holds -/
theorem wholeWindows {x : Int} (hW : 0 < W) (h : x < 2 ^ 34 * second) :
    max 0 (wholeSeconds x / W) * (W * second) ≤ max 0 x ∧
      x < (max 0 (wholeSeconds x / W) + 1) * (W * second) := by
  have hsecond : (0 : Int) ≤ second := by decide
  have hW' : 0 < W * second := Int.mul_pos hW (by decide)
  by_cases hx : 0 ≤ x
  · have hnonneg : 0 ≤ wholeSeconds x := by
      unfold wholeSeconds
      rw [if_pos hx]
      exact Int.natCast_nonneg _
    rw [max_eq_right (Int.ediv_nonneg hnonneg hW.le), max_eq_right hx]
    constructor
    · calc wholeSeconds x / W * (W * second) = wholeSeconds x / W * W * second := by ring
        _ ≤ wholeSeconds x * second :=
          Int.mul_le_mul_of_nonneg_right (Int.ediv_mul_le _ (ne_of_gt hW)) hsecond
        _ ≤ x := wholeSeconds_le hx h
    · calc x < (wholeSeconds x + 1) * second := lt_wholeSeconds x
        _ ≤ (wholeSeconds x / W + 1) * W * second :=
          Int.mul_le_mul_of_nonneg_right (Int.lt_ediv_add_one_mul_self _ hW) hsecond
        _ = (wholeSeconds x / W + 1) * (W * second) := by ring
  · have hle : wholeSeconds x / W ≤ 0 := by
      unfold wholeSeconds
      rw [if_neg hx]
      exact Int.ediv_nonpos_of_nonpos_of_neg (by omega) hW
    rw [max_eq_left hle]
    omega

/-- windows one after the other, from the one after `lo` -/
def Steps (step : Int) : Int → List Int → Prop
  | _, [] => True
  | lo, w :: windows => w = lo + step ∧ Steps step w windows

theorem steps_range (step lo : Int) (n : Nat) :
    Steps step lo ((List.range n).map fun i : Nat => lo + step + i * step) := by
  induction n generalizing lo with
  | zero => trivial
  | succ n ih =>
    rw [List.range_succ_eq_map, List.map_cons, List.map_map]
    refine ⟨by simp, ?_⟩
    have hfun : ((fun i : Nat => lo + step + (i : Int) * step) ∘ Nat.succ) =
        fun i : Nat => lo + step + step + (i : Int) * step := by
      funext i
      show lo + step + ((i + 1 : Nat) : Int) * step = _
      push_cast
      ring
    rw [hfun]
    have h0 : lo + step + ((0 : Nat) : Int) * step = lo + step := by simp
    rw [h0]
    exact ih (lo + step)

theorem Steps.le {step lo : Int} {windows : List Int} (h : Steps step lo windows)
    (hstep : 0 < step) : ∀ w ∈ windows, lo < w ∧ w ≤ lo + windows.length * step := by
  induction windows generalizing lo with
  | nil => exact fun w hw => absurd hw List.not_mem_nil
  | cons first windows ih =>
    obtain ⟨rfl, h⟩ := h
    have hexp : (((lo + step) :: windows).length : Int) * step = windows.length * step + step := by
      rw [List.length_cons]
      push_cast
      ring
    have hnonneg : 0 ≤ (windows.length : Int) * step :=
      Int.mul_nonneg (Int.natCast_nonneg _) hstep.le
    intro w hw
    obtain rfl | hw := List.mem_cons.mp hw
    · omega
    · have := ih h w hw
      omega

/-- what `last_recorded_window` finds -/
theorem lastRecordedWindow_eq_some {samples : List SampleRow} {metrics : List String} {p : Int} :
    lastRecordedWindow samples metrics = some p ↔
      (∃ r ∈ samples, r.metric ∈ metrics ∧ r.windowStart = p) ∧
        ∀ r ∈ samples, r.metric ∈ metrics → r.windowStart ≤ p := by
  have hposition : ∀ m w, positionOf samples m = some w ↔
      (∃ r ∈ samples, r.metric = m ∧ r.windowStart = w) ∧
        ∀ r ∈ samples, r.metric = m → r.windowStart ≤ w := by
    intro m w
    unfold positionOf
    rw [List.max?_eq_some_iff]
    simp only [List.mem_map, List.mem_filter, decide_eq_true_eq, and_assoc]
    constructor
    · rintro ⟨hmem, hle⟩
      exact ⟨hmem, fun r hr hm => hle _ ⟨r, hr, hm, rfl⟩⟩
    · rintro ⟨hmem, hle⟩
      refine ⟨hmem, ?_⟩
      rintro _ ⟨r, hr, hm, rfl⟩
      exact hle r hr hm
  have hsome : ∀ r ∈ samples, ∃ w, positionOf samples r.metric = some w ∧ r.windowStart ≤ w := by
    intro r hr
    cases hw : positionOf samples r.metric with
    | none =>
      unfold positionOf at hw
      rw [List.max?_eq_none_iff, List.map_eq_nil_iff, List.filter_eq_nil_iff] at hw
      exact absurd (decide_eq_true rfl) (hw r hr)
    | some w => exact ⟨w, rfl, ((hposition r.metric w).mp hw).2 r hr rfl⟩
  unfold lastRecordedWindow
  rw [List.max?_eq_some_iff]
  simp only [List.mem_filterMap]
  constructor
  · rintro ⟨⟨m, hm, hp⟩, hle⟩
    obtain ⟨⟨r, hr, hrm, hrp⟩, -⟩ := (hposition m p).mp hp
    refine ⟨⟨r, hr, hrm ▸ hm, hrp⟩, ?_⟩
    intro r' hr' hm'
    obtain ⟨w, hw, hrw⟩ := hsome r' hr'
    exact hrw.trans (hle w ⟨r'.metric, hm', hw⟩)
  · rintro ⟨⟨r, hr, hm, rfl⟩, hle⟩
    refine ⟨⟨r.metric, hm, (hposition _ _).mpr ⟨⟨r, hr, rfl, rfl⟩, ?_⟩⟩, ?_⟩
    · intro r' hr' hm'
      exact hle r' hr' (hm' ▸ hm)
    · rintro w ⟨m, hm', hw⟩
      obtain ⟨⟨r', hr', hrm, rfl⟩, -⟩ := (hposition m w).mp hw
      exact hle r' hr' (hrm ▸ hm')

/-- a pass that settles between 1970 and the year 2514, on windows of `W` seconds -/
def Dated (W : Int) (settings : SamplerSettings) (now : Int) : Prop :=
  settings.usageWindowSeconds = W ∧ 0 ≤ now - settings.usageSettleSeconds * second ∧
    now - settings.usageSettleSeconds * second < 2 ^ 34 * second

instance (W : Int) (settings : SamplerSettings) (now : Int) : Decidable (Dated W settings now) :=
  inferInstanceAs (Decidable (_ ∧ _))

/-- a position on the grid, between 1970 and the year 2514 -/
def OnGrid (W p : Int) : Prop := W * second ∣ p ∧ 0 ≤ p ∧ p < 2 ^ 34 * second

instance (W p : Int) : Decidable (OnGrid W p) := inferInstanceAs (Decidable (_ ∧ _))

/-- windows from the one after `lo` on: all settled, and as many as there are or a pass may read -/
structure Planned (W lo : Int) (settings : SamplerSettings) (now : Int) (windows : List Int) :
    Prop where
  steps : Steps (W * second) lo windows
  settled : ∀ w ∈ windows, OnGrid W w ∧
    w + W * second + settings.usageSettleSeconds * second ≤ now
  bounded : windows.length ≤ settings.usageMaxWindowsPerPass.toNat
  full : windows.length < settings.usageMaxWindowsPerPass.toNat →
    now < lo + (windows.length + 2) * (W * second) + settings.usageSettleSeconds * second

/-- **what a pass plans** -/
theorem pendingWindows_ok {samples : List SampleRow} {settings : SamplerSettings} {now p : Int}
    {metrics : List String} {windows : List Int} (hW : 0 < W) (hd : Dated W settings now)
    (hp : OnGrid W p) (hlast : lastRecordedWindow samples metrics = some p)
    (h : pendingWindows samples settings now metrics = .ok windows) :
    Planned W p settings now windows := by
  obtain ⟨hwindow, hnow, hnow'⟩ := hd
  obtain ⟨hgrid, h0, h34⟩ := hp
  have hW' : 0 < W * second := Int.mul_pos hW (by decide)
  obtain ⟨start, hstart, h⟩ := bind_eq_ok.mp h
  obtain ⟨stop, hstop, h⟩ := bind_eq_ok.mp h
  have hstart_eq : start = p + W * second := by
    unfold resumeFrom at hstart
    rw [hlast] at hstart
    obtain ⟨aligned, haligned, hstart⟩ := bind_eq_ok.mp hstart
    obtain ⟨-, rfl⟩ := checked_eq_ok.mp haligned
    obtain ⟨-, rfl⟩ := checked_eq_ok.mp hstart
    rw [hwindow, gridPoint_of_dvd hgrid h0 h34]
  have hstop_eq : stop = gridPoint (now - settings.usageSettleSeconds * second) W := by
    obtain ⟨moment, hmoment, hstop⟩ := bind_eq_ok.mp hstop
    obtain ⟨-, rfl⟩ := checked_eq_ok.mp hmoment
    obtain ⟨-, rfl⟩ := checked_eq_ok.mp hstop
    rw [hwindow]
  have hstop_le : stop ≤ now - settings.usageSettleSeconds * second := by
    rw [hstop_eq]
    exact gridPoint_le hW hnow hnow'
  obtain ⟨count, hcount⟩ : ∃ count, min settings.usageMaxWindowsPerPass
      (max 0 (wholeSeconds (stop - start) / settings.usageWindowSeconds)) = count := ⟨_, rfl⟩
  dsimp only at h
  rw [hcount, hwindow] at h
  have hmap : ((List.range count.toNat).map fun i : Nat =>
      p + W * second + i * (W * second)) = windows := by
    rw [← List.forall₂_eq_eq_eq]
    apply List.forall₂_map_left_iff.mpr
    refine (mapM_eq_ok.mp h).imp ?_
    intro i w hw
    obtain ⟨-, rfl⟩ := checked_eq_ok.mp hw
    rw [hstart_eq]
    ring
  have hsteps : Steps (W * second) p windows := by
    rw [← hmap]
    exact steps_range (W * second) p count.toNat
  have hlength : windows.length = count.toNat := by
    rw [← hmap, List.length_map, List.length_range]
  obtain ⟨hspan, hspan'⟩ := wholeWindows hW (x := stop - start) (by omega)
  rw [← hwindow] at hspan hspan'
  have hcount0 : 0 ≤ (count.toNat : Int) := Int.natCast_nonneg _
  have hclosed : ∀ w ∈ windows, w + W * second ≤ stop := by
    intro w hw
    have hle := hsteps.le hW' w hw
    have hpos : 0 < windows.length := List.length_pos_of_mem hw
    have hcount' : (count.toNat : Int) ≤
        max 0 (wholeSeconds (stop - start) / settings.usageWindowSeconds) := by omega
    have hmul := Int.mul_le_mul_of_nonneg_right hcount' hW'.le
    have hone : 1 * (W * second) ≤ (count.toNat : Int) * (W * second) :=
      Int.mul_le_mul_of_nonneg_right (by omega) hW'.le
    rw [hwindow] at hspan hmul
    rw [hlength] at hle
    omega
  refine ⟨hsteps, ?_, ?_, ?_⟩
  · intro w hw
    have hle := hclosed w hw
    have hlt := hsteps.le hW' w hw
    refine ⟨⟨?_, by omega, by omega⟩, by omega⟩
    rw [← hmap] at hw
    obtain ⟨i, -, rfl⟩ := List.mem_map.mp hw
    exact Int.dvd_add (Int.dvd_add hgrid (Int.dvd_refl _)) (Int.dvd_mul_left _ _)
  · rw [hlength]
    omega
  · intro hlt
    rw [hlength] at hlt ⊢
    have hcount' : max 0 (wholeSeconds (stop - start) / settings.usageWindowSeconds) =
        (count.toNat : Int) := by omega
    rw [hcount', hwindow] at hspan'
    -- both ends are on the grid, so what is left over is no whole window
    have hdvd : W * second ∣ stop - start := by
      rw [hstop_eq, hstart_eq]
      exact Int.dvd_sub (dvd_gridPoint _ _) (Int.dvd_add hgrid (Int.dvd_refl _))
    obtain ⟨n, hn⟩ := hdvd
    have hle : n ≤ count.toNat := by
      by_contra hlt
      have := Int.mul_le_mul_of_nonneg_right (show (count.toNat : Int) + 1 ≤ n by omega) hW'.le
      rw [hn, Int.mul_comm] at hspan'
      omega
    have hmul := Int.mul_le_mul_of_nonneg_right hle hW'.le
    have hbefore := lt_gridPoint_add hW (now - settings.usageSettleSeconds * second)
    rw [← hstop_eq] at hbefore
    have hexp : ((count.toNat : Int) + 2) * (W * second) =
        count.toNat * (W * second) + 2 * (W * second) := Int.add_mul ..
    rw [Int.mul_comm] at hn
    omega

end Windows

/-! ## which metrics a source records -/

/-- no other source's position is read off the metric -/
def Owned (source : Source) (metric : String) : Prop :=
  ∀ other : Source, metric ∈ other.positionMetrics → other = source

theorem owned_opencost {a : Allocation} {q : String × ℚ} (hq : q ∈ OpenCost.quantities a) :
    Owned .opencost q.1 := by
  have hname : q.1 ∈ OpenCost.fieldMetrics.map Prod.fst ++ [OpenCost.runningSeconds] := by
    obtain hq | hq := List.mem_append.mp hq
    · obtain ⟨m, hm, hmap⟩ := List.mem_filterMap.mp hq
      obtain ⟨value, -, rfl⟩ := Option.map_eq_some_iff.mp hmap
      exact List.mem_append_left _ (List.mem_map_of_mem hm)
    · rw [List.mem_singleton.mp hq]
      exact List.mem_append_right _ List.mem_cons_self
  intro other hother
  cases other with
  | opencost => rfl
  | databases =>
    rw [List.mem_singleton.mp hother] at hname
    exact absurd hname (by decide)
  | buckets =>
    rw [List.mem_singleton.mp hother] at hname
    exact absurd hname (by decide)

theorem owned_databases {settings : SamplerSettings} {size : ℚ} {allowance : Option Int}
    {q : String × ℚ} (hq : q ∈ Databases.quantities settings size allowance) :
    Owned .databases q.1 := by
  have hname : q.1 ∈ [Databases.sizeMetric, Databases.allowanceMetric] := by
    obtain rfl | hq := List.mem_cons.mp hq
    · exact List.mem_cons_self
    · split at hq
      · cases hq
      · split at hq
        · rw [List.mem_singleton.mp hq]
          exact List.mem_cons_of_mem _ List.mem_cons_self
        · cases hq
  intro other hother
  cases other with
  | databases => rfl
  | opencost =>
    simp only [Source.positionMetrics, List.mem_cons, List.not_mem_nil, or_false] at hother
    obtain h | h | h := hother <;> rw [h] at hname <;> exact absurd hname (by decide)
  | buckets =>
    rw [List.mem_singleton.mp hother] at hname
    exact absurd hname (by decide)

theorem owned_buckets : Owned .buckets Buckets.sizeMetric := by
  intro other hother
  cases other with
  | buckets => rfl
  | opencost => exact absurd hother (by decide)
  | databases => exact absurd hother (by decide)

/-- **what a source yields** moves no other source's position -/
theorem read_owned {source : Source} {settings : SamplerSettings} {outside : Outside} {w : Int}
    {observations : List Observation} (h : source.read settings outside w = some observations) :
    ∀ o ∈ observations, ∀ q ∈ o.quantities, Owned source q.1 := by
  intro o ho q hq
  cases source with
  | opencost =>
    change OpenCost.read settings outside.opencost outside.tables = some observations at h
    unfold OpenCost.read at h
    split at h
    · cases h
    · split at h
      · cases h
      · cases h
        obtain ⟨a, -, rfl⟩ := List.mem_map.mp ho
        exact owned_opencost hq
  | databases =>
    change Databases.read settings outside.databases outside.tables w = some observations at h
    unfold Databases.read at h
    split at h
    · cases h
      obtain ⟨size, -, ho⟩ := List.mem_flatMap.mp ho
      obtain ⟨row, -, ho⟩ := List.mem_flatMap.mp ho
      obtain ⟨d, -, rfl⟩ := List.mem_map.mp ho
      exact owned_databases hq
    · cases h
  | buckets =>
    change Buckets.read settings outside.buckets outside.tables w = some observations at h
    unfold Buckets.read at h
    split at h
    · cases h
      obtain ⟨size, -, ho⟩ := List.mem_flatMap.mp ho
      obtain ⟨d, -, rfl⟩ := List.mem_map.mp ho
      rw [List.mem_singleton.mp hq]
      exact owned_buckets
    · cases h

/-- a build records nothing a source's position is read off -/
theorem build_unowned {b : Build} {wall overlap : ℚ} {q : String × ℚ}
    (hq : q ∈ quantitiesOf b wall overlap) (source : Source) :
    q.1 ∉ source.positionMetrics := by
  have hname : q.1 ∈ ["cpu_request_cores_avg", "cpu_limit_cores_avg", "ram_request_bytes_avg",
      "ram_limit_bytes_avg", "running_seconds", "cpu_core_hours", "ram_byte_hours",
      "cpu_usage_cores_avg", "ram_usage_bytes_avg"] := by
    unfold quantitiesOf at hq
    split at hq <;>
      simp only [List.cons_append, List.nil_append, List.mem_cons, List.not_mem_nil, or_false] at hq
    · obtain rfl | rfl | rfl | rfl | rfl | rfl | rfl | rfl | rfl := hq <;> simp
    · obtain rfl | rfl | rfl | rfl | rfl | rfl | rfl := hq <;> simp
  intro hposition
  have hdisjoint : ∀ m ∈ source.positionMetrics, m ∉ ["cpu_request_cores_avg",
      "cpu_limit_cores_avg", "ram_request_bytes_avg", "ram_limit_bytes_avg", "running_seconds",
      "cpu_core_hours", "ram_byte_hours", "cpu_usage_cores_avg", "ram_usage_bytes_avg"] := by
    cases source <;> decide
  exact hdisjoint _ hposition hname

/-! ## the steps of the samplers -/

namespace System

/-- the transaction of each pass; one that is not there has written nothing -/
def transactions (s : System) (i : Nat) : Transaction := (s.samplings[i]?).elim .empty Sampling.tx

end System

/-- the entries of a chunk -/
def chunkEntries (window : Int) (chunk : List Observation) : List Entry :=
  chunk.map fun o => ⟨o.subject, window, o.quantities⟩

/-- a pass whose transaction is over, and with it the walk of its source -/
structure Over (p p' : Sampling) : Prop where
  now : p'.now = p.now
  settings : p'.settings = p.settings
  windows : p'.windows = none
  reading : p'.reading = none
  tx : p'.tx = .empty
  read : p'.read = []

theorem over_nextSource (p : Sampling) (result : SampleRun) : Over p (p.nextSource result) :=
  ⟨rfl, rfl, rfl, rfl, rfl, rfl⟩

/-- what a step can do -/
inductive Move (s : System) : Event → System → Prop
  | start (now : Int) (settings : SamplerSettings) (catalog : List String) :
    Move s (.start now settings catalog)
      { s with samplings := s.samplings ++ [.start now settings catalog] }
  | ended {e : Event} {i : Nat} {p p' : Sampling} (hi : s.samplings[i]? = some p) (ho : Over p p') :
    Move s e (s.set i p')
  | plan {i : Nat} {p : Sampling} {source : Source} {windows : List Int}
    (hi : s.samplings[i]? = some p) (hsource : p.sources.head? = some source)
    (hnone : p.windows = none)
    (hok : pendingWindows s.ledger.samples p.settings p.now source.positionMetrics = .ok windows) :
    Move s (.plan i) (s.set i { p with windows := some windows, planned := windows })
  | read {i : Nat} {p : Sampling} {source : Source} {window : Int} {rest : List Int}
    {outside : Outside} {observations : List Observation} (hi : s.samplings[i]? = some p)
    (hsource : p.sources.head? = some source) (hwindows : p.windows = some (window :: rest))
    (hnone : p.reading = none)
    (hread : source.read p.settings outside window = some observations) :
    Move s (.read i outside) (s.set i { p with reading := some observations, read := observations })
  | write {i : Nat} {p : Sampling} {window : Int} {rest : List Int}
    {observations : List Observation} {ledger : Ledger} {tx : Transaction}
    (hi : s.samplings[i]? = some p)
    (hwindows : p.windows = some (window :: rest)) (hreading : p.reading = some observations)
    (hfree : ∀ e ∈ chunkEntries window (observations.take chunkSize), ∀ j, j ≠ i →
      (s.transactions j).subjects e.subject.key = none)
    (hwrite : s.ledger.write p.tx p.catalog p.settings.usageWindowSeconds p.now
      (chunkEntries window (observations.take chunkSize)) = .ok (ledger, tx)) :
    Move s (.write i)
      { s.set i { p with reading := some (observations.drop chunkSize), tx := tx } with
        ledger := ledger }
  | commit {i : Nat} {p : Sampling} {source : Source} {window : Int} {rest : List Int}
    (hi : s.samplings[i]? = some p) (hsource : p.sources.head? = some source)
    (hwindows : p.windows = some (window :: rest)) (hreading : p.reading = some []) :
    Move s (.commit i)
      { s.set i (p.committed rest) with
        ledger := s.ledger.commit p.tx
        recorded := s.recorded ++ [⟨source, window, p.read, p.settings, p.now⟩] }
  | build {b : Build} {settings : SamplerSettings} {now : Int} {catalog : List String}
    {deploymentId : Option String} {windows : List WindowUsage} {ledger : Ledger}
    {tx : Transaction} (hwindows : windowQuantities b settings.usageWindowSeconds = .ok windows)
    (hfree : ∀ j, j ≠ s.samplings.length →
      (s.transactions j).subjects (.build, System.buildRef b) = none)
    (hwrite : s.ledger.write .empty catalog settings.usageWindowSeconds now
      (windows.map fun w => ⟨⟨.build, System.buildRef b, some settings.buildsNamespace,
        deploymentId⟩, w.windowStart, w.quantities⟩) = .ok (ledger, tx)) :
    Move s (.build b settings now catalog deploymentId) { s with ledger := ledger.commit tx }

section Steps

variable {s t : System} {i : Nat}

theorem lockedOut_eq_false {k : SubjectKey} (h : s.lockedOut i k = false) {j : Nat} (hj : j ≠ i) :
    (s.transactions j).subjects k = none := by
  unfold System.transactions
  cases hp : s.samplings[j]? with
  | none => rfl
  | some p =>
    have hany := List.any_eq_false.mp h (p, j)
      (List.mem_zipIdx_iff_getElem?.mpr hp)
    rw [Bool.and_eq_true, decide_eq_true_eq, not_and] at hany
    exact Option.not_isSome_iff_eq_none.mp (hany hj)

theorem step_cases {e : Event} (h : s.step e = some t) : Move s e t := by
  cases e with
  | start now settings catalog =>
    cases h
    exact .start now settings catalog
  | plan i =>
    obtain ⟨p, hi, h⟩ := Option.bind_eq_some_iff.mp h
    obtain ⟨source, hsource, h⟩ := Option.bind_eq_some_iff.mp h
    split at h
    · rename_i hnone
      split at h
      · cases h
        exact .ended hi (over_nextSource p _)
      · rename_i windows hok
        cases h
        exact .plan hi hsource (Option.isNone_iff_eq_none.mp hnone) hok
    · cases h
  | read i outside =>
    simp only [System.step, System.read, Option.bind_eq_bind, Option.bind_eq_some_iff] at h
    obtain ⟨p, hi, source, hsource, windows, hwindows, window, hwindow, h⟩ := h
    obtain ⟨rest, rfl⟩ := List.head?_eq_some_iff.mp hwindow
    split at h
    · rename_i hnone
      split at h
      · cases h
        exact .ended hi (over_nextSource p _)
      · rename_i observations hread
        cases h
        exact .read hi hsource hwindows (Option.isNone_iff_eq_none.mp hnone) hread
    · cases h
  | write i =>
    simp only [System.step, System.write, Option.bind_eq_bind, Option.bind_eq_some_iff] at h
    obtain ⟨p, hi, windows, hwindows, window, hwindow, observations, hreading, h⟩ := h
    obtain ⟨rest, rfl⟩ := List.head?_eq_some_iff.mp hwindow
    split at h
    · rename_i hfree
      split at h
      · cases h
        exact .ended hi (over_nextSource p _)
      · rename_i ledger tx hwrite
        cases h
        refine .write hi hwindows hreading ?_ hwrite
        intro entry hentry j hj
        obtain ⟨o, ho, rfl⟩ := List.mem_map.mp hentry
        exact lockedOut_eq_false (hfree.2 o ho) hj
    · cases h
  | commit i =>
    simp only [System.step, System.commit, Option.bind_eq_bind, Option.bind_eq_some_iff] at h
    obtain ⟨p, hi, source, hsource, windows, hwindows, window, hwindow, _, hreading, h⟩ := h
    obtain ⟨rest, rfl⟩ := List.head?_eq_some_iff.mp hwindow
    split at h
    · rename_i hnil
      rw [hnil] at hreading
      cases h
      exact .commit hi hsource hwindows hreading
    · cases h
  | finish i =>
    obtain ⟨p, hi, h⟩ := Option.bind_eq_some_iff.mp h
    obtain ⟨windows, -, h⟩ := Option.bind_eq_some_iff.mp h
    split at h
    · cases h
      exact .ended hi (over_nextSource p _)
    · cases h
  | raise i =>
    obtain ⟨p, hi, h⟩ := Option.bind_eq_some_iff.mp h
    cases h
    exact .ended hi (over_nextSource p _)
  | leave i =>
    obtain ⟨p, hi, h⟩ := Option.bind_eq_some_iff.mp h
    cases h
    exact .ended hi ⟨rfl, rfl, rfl, rfl, rfl, rfl⟩
  | build b settings now catalog deploymentId =>
    change s.build b settings now catalog deploymentId = some t at h
    unfold System.build at h
    split at h
    · cases h
    · rename_i windows hwindows
      split at h
      · cases h
      · rename_i hfree
        split at h
        · cases h
        · rename_i ledger tx hwrite
          cases h
          refine .build hwindows ?_ hwrite
          intro j hj
          exact lockedOut_eq_false (Bool.not_eq_true _ ▸ hfree) hj

/-! ## the ledger over a run -/

/-- what holds of a pass and what it has written -/
structure Proper (samples : List SampleRow) (p : Sampling) : Prop where
  idle : p.reading = none → p.tx = .empty
  unplanned : p.windows = none → p.reading = none
  owned : ∀ source, p.sources.head? = some source → ∀ o ∈ p.read, ∀ q ∈ o.quantities,
    Owned source q.1
  added : ∀ r ∈ p.tx.samples, ∃ source window rest, p.sources.head? = some source ∧
    p.windows = some (window :: rest) ∧ r.windowStart = window ∧ ∃ o ∈ p.read,
      ∃ q ∈ o.quantities, q.1 = r.metric
  written : ∀ rest, p.reading = some rest → ∃ source window windows before,
    p.sources.head? = some source ∧ p.windows = some (window :: windows) ∧
      p.read = before ++ rest ∧ ∀ e ∈ chunkEntries window before,
        Stored p.tx.subjects (samples ++ p.tx.samples) e

theorem Proper.mono {samples samples' : List SampleRow} {p : Sampling} (h : Proper samples p)
    (hsub : ∀ r ∈ samples, r ∈ samples') : Proper samples' p := by
  refine { h with written := ?_ }
  intro rest hrest
  obtain ⟨source, window, windows, before, hsource, hwindows, hread, hstored⟩ :=
    h.written rest hrest
  refine ⟨source, window, windows, before, hsource, hwindows, hread, ?_⟩
  intro e he
  refine (hstored e he).grown (.refl _) ?_
  intro r hr
  obtain hr | hr := List.mem_append.mp hr
  · exact List.mem_append_left _ (hsub r hr)
  · exact List.mem_append_right _ hr

/-- a pass with nothing read is proper -/
theorem proper_of_idle {samples : List SampleRow} {p : Sampling} (hreading : p.reading = none)
    (htx : p.tx = .empty) (hread : p.read = []) : Proper samples p where
  idle := fun _ => htx
  unplanned := fun _ => hreading
  owned := by
    intro _ _ o ho
    rw [hread] at ho
    cases ho
  added := by
    intro r hr
    rw [htx] at hr
    cases hr
  written := by
    intro rest hrest
    rw [hreading] at hrest
    cases hrest

/-- what holds of the samplers in every run -/
structure Sampled (s : System) : Prop where
  sound : Sound s.ledger s.transactions
  proper : ∀ p ∈ s.samplings, Proper s.ledger.samples p
  stored : ∀ r ∈ s.recorded, ∀ e ∈ chunkEntries r.window r.observations,
    Stored s.ledger.subjects s.ledger.samples e
  fresh : ∀ p ∈ s.samplings, p.reading = none → p.read = []

theorem transactions_of_getElem? {p : Sampling} (hi : s.samplings[i]? = some p) :
    s.transactions i = p.tx := by
  unfold System.transactions
  rw [hi]
  rfl

theorem transactions_set {p : Sampling} (hi : s.samplings[i]? = some p) (p' : Sampling) :
    (s.set i p').transactions = Function.update s.transactions i p'.tx := by
  obtain ⟨hlt, -⟩ := List.getElem?_eq_some_iff.mp hi
  funext j
  show ((s.samplings.set i p')[j]?).elim _ _ = _
  by_cases hj : j = i
  · subst hj
    rw [Function.update_self, List.getElem?_set_self hlt]
    rfl
  · rw [Function.update_of_ne hj, List.getElem?_set_ne (fun he => hj he.symm)]
    rfl

theorem mem_set {p p' : Sampling} (hp : p ∈ (s.set i p').samplings) :
    p ∈ s.samplings ∨ p = p' := List.mem_or_eq_of_mem_set hp

/-- a pass moves on, and the ledger stays as it is -/
theorem Sampled.set (h : Sampled s) {p p' : Sampling} (hi : s.samplings[i]? = some p)
    (htx : p'.tx = p.tx ∨ p'.tx = .empty) (hproper : Proper s.ledger.samples p')
    (hfresh : p'.reading = none → p'.read = []) :
    Sampled (s.set i p') := by
  refine ⟨?_, ?_, h.stored, ?_⟩
  · rw [transactions_set hi]
    apply h.sound.of_sub
    intro j
    by_cases hj : j = i
    · subst hj
      rw [Function.update_self, transactions_of_getElem? hi]
      exact htx
    · rw [Function.update_of_ne hj]
      exact .inl rfl
  · intro q hq
    obtain hq | rfl := mem_set hq
    · exact h.proper q hq
    · exact hproper
  · intro q hq
    obtain hq | rfl := mem_set hq
    · exact h.fresh q hq
    · exact hfresh

theorem Sampled.written (h : Sampled s) {p : Sampling} {window : Int} {rest : List Int}
    {observations : List Observation} {ledger : Ledger} {tx : Transaction}
    (hi : s.samplings[i]? = some p) (hwindows : p.windows = some (window :: rest))
    (hreading : p.reading = some observations)
    (hfree : ∀ e ∈ chunkEntries window (observations.take chunkSize), ∀ j, j ≠ i →
      (s.transactions j).subjects e.subject.key = none)
    (hwrite : s.ledger.write p.tx p.catalog p.settings.usageWindowSeconds p.now
      (chunkEntries window (observations.take chunkSize)) = .ok (ledger, tx)) :
    Sampled { s.set i { p with reading := some (observations.drop chunkSize), tx := tx } with
      ledger := ledger } := by
  have hp : p ∈ s.samplings := List.mem_of_getElem? hi
  have hproper := h.proper p hp
  rw [← transactions_of_getElem? hi] at hwrite
  obtain ⟨hsound, hw⟩ := h.sound.write hfree hwrite
  rw [transactions_of_getElem? hi] at hw
  obtain ⟨source, window', windows, before, hsource, hwindows', hread, hstored⟩ :=
    hproper.written observations hreading
  obtain ⟨rfl, rfl⟩ := List.cons.inj (Option.some.inj (hwindows'.symm.trans hwindows))
  obtain ⟨new, hnew, hadded⟩ := hw.added
  refine ⟨?_, ?_, ?_, ?_⟩
  · show Sound ledger (s.set i _).transactions
    rw [transactions_set hi]
    exact hsound
  · show ∀ q ∈ (s.set i _).samplings, Proper ledger.samples q
    rw [hw.samples]
    intro q hq
    obtain hq | rfl := mem_set hq
    · exact h.proper q hq
    · refine ⟨?_, fun hnone => ?_, hproper.owned, ?_, ?_⟩
      · intro hnone
        cases hnone
      · rw [show p.windows = none from hnone] at hwindows
        cases hwindows
      · intro r hr
        rw [show (_ : List SampleRow) = p.tx.samples ++ new from hnew] at hr
        obtain hr | hr := List.mem_append.mp hr
        · exact hproper.added r hr
        · obtain ⟨e, he, q, hq, hmetric, hstart⟩ := hadded r hr
          obtain ⟨o, ho, rfl⟩ := List.mem_map.mp he
          refine ⟨source, window', windows, hsource, hwindows', hstart, o, ?_, q, hq, hmetric.symm⟩
          show o ∈ p.read
          rw [hread]
          exact List.mem_append_right _ (List.mem_of_mem_take ho)
      · intro rest' hrest'
        cases hrest'
        refine ⟨source, window', windows, before ++ observations.take chunkSize, hsource, hwindows',
          ?_, ?_⟩
        · show p.read = _
          rw [List.append_assoc, List.take_append_drop]
          exact hread
        · intro e he
          unfold chunkEntries at he
          rw [List.map_append] at he
          obtain he | he := List.mem_append.mp he
          · refine (hstored e he).grown hw.grown ?_
            intro r hr
            rw [show (_ : List SampleRow) = p.tx.samples ++ new from hnew, ← List.append_assoc]
            exact List.mem_append_left _ hr
          · exact hw.stored e he
  · intro r hr e he
    show Stored ledger.subjects ledger.samples e
    rw [hw.subjects, hw.samples]
    exact h.stored r hr e he
  · intro q hq
    obtain hq | rfl := mem_set hq
    · exact h.fresh q hq
    · intro hnone
      cases hnone

theorem Sampled.committed (h : Sampled s) {p : Sampling} {source : Source} {window : Int}
    {rest : List Int} (hi : s.samplings[i]? = some p)
    (hwindows : p.windows = some (window :: rest)) (hreading : p.reading = some []) :
    Sampled { s.set i (p.committed rest) with
      ledger := s.ledger.commit p.tx
      recorded := s.recorded ++ [⟨source, window, p.read, p.settings, p.now⟩] } := by
  have hp : p ∈ s.samplings := List.mem_of_getElem? hi
  have hsub : ∀ r ∈ s.ledger.samples, r ∈ (s.ledger.commit p.tx).samples :=
    fun r hr => List.mem_append_left _ hr
  have hsound := h.sound.commit i
  have hgrown := h.sound.grown_commit i
  rw [transactions_of_getElem? hi] at hsound hgrown
  obtain ⟨source', window', windows, before, -, hwindows', hread, hstored⟩ :=
    (h.proper p hp).written [] hreading
  obtain ⟨rfl, rfl⟩ := List.cons.inj (Option.some.inj (hwindows'.symm.trans hwindows))
  rw [List.append_nil] at hread
  refine ⟨?_, ?_, ?_, ?_⟩
  · show Sound _ (s.set i _).transactions
    rw [transactions_set hi]
    exact hsound
  · intro q hq
    obtain hq | rfl := mem_set hq
    · exact (h.proper q hq).mono hsub
    · exact proper_of_idle rfl rfl rfl
  · intro r hr e he
    obtain hr | hr := List.mem_append.mp hr
    · exact (h.stored r hr e he).grown hgrown hsub
    · rw [List.mem_singleton.mp hr] at he
      rw [show (_ : List Observation) = before from hread] at he
      exact (hstored e he).grown (grown_commit_tx _ _) fun _ hr => hr
  · intro q hq
    obtain hq | rfl := mem_set hq
    · exact h.fresh q hq
    · exact fun _ => rfl

/-- a build's recording -/
theorem Sampled.built (h : Sampled s) {catalog : List String} {intervalSeconds now : Int}
    {entries : List Entry} {ledger : Ledger} {tx : Transaction}
    (hfree : ∀ e ∈ entries, ∀ j, j ≠ s.samplings.length →
      (s.transactions j).subjects e.subject.key = none)
    (hwrite : s.ledger.write .empty catalog intervalSeconds now entries = .ok (ledger, tx)) :
    Sampled { s with ledger := ledger.commit tx } ∧ Grown s.ledger.subjects
      (ledger.commit tx).subjects ∧ ledger.samples = s.ledger.samples ∧
      ∀ r ∈ tx.samples, ∃ e ∈ entries, ∃ q ∈ e.quantities, r.metric = q.1 := by
  -- the transaction of a pass that is not there
  have hlast : s.transactions s.samplings.length = .empty := by
    unfold System.transactions
    rw [List.getElem?_eq_none (Nat.le_refl _)]
    rfl
  rw [← hlast] at hwrite
  obtain ⟨hsound, hw⟩ := h.sound.write hfree hwrite
  rw [hlast] at hw
  have hcommit := hsound.commit s.samplings.length
  have hgrown := hsound.grown_commit s.samplings.length
  rw [Function.update_self, hw.subjects] at hgrown
  rw [Function.update_self, Function.update_idem, ← hlast, Function.update_eq_self] at hcommit
  have hsub : ∀ r ∈ s.ledger.samples, r ∈ (ledger.commit tx).samples := by
    intro r hr
    show r ∈ ledger.samples ++ tx.samples
    rw [hw.samples]
    exact List.mem_append_left _ hr
  refine ⟨⟨hcommit, ?_, ?_, h.fresh⟩, hgrown, hw.samples, ?_⟩
  · intro p hp
    exact (h.proper p hp).mono hsub
  · intro r hr e he
    exact (h.stored r hr e he).grown hgrown hsub
  · obtain ⟨new, hnew, hadded⟩ := hw.added
    intro r hr
    rw [hnew] at hr
    obtain ⟨e, he, q, hq, hmetric, -⟩ := hadded r hr
    exact ⟨e, he, q, hq, hmetric⟩

/-- **one step** -/
theorem Sampled.step (h : Sampled s) {e : Event} (hm : Move s e t) : Sampled t := by
  cases hm with
  | start now settings catalog =>
    refine ⟨?_, ?_, h.stored, ?_⟩
    · apply h.sound.of_sub
      intro j
      unfold System.transactions
      by_cases hj : j < s.samplings.length
      · rw [List.getElem?_append_left hj]
        exact .inl rfl
      · rw [List.getElem?_append_right (not_lt.mp hj)]
        refine .inr ?_
        cases j - s.samplings.length with
        | zero => rfl
        | succ k => rfl
    · intro p hp
      obtain hp | hp := List.mem_append.mp hp
      · exact h.proper p hp
      · rw [List.mem_singleton.mp hp]
        exact proper_of_idle rfl rfl rfl
    · intro p hp
      obtain hp | hp := List.mem_append.mp hp
      · exact h.fresh p hp
      · rw [List.mem_singleton.mp hp]
        exact fun _ => rfl
  | ended hi ho =>
    exact h.set hi (.inr ho.tx) (proper_of_idle ho.reading ho.tx ho.read) fun _ => ho.read
  | @plan i p source windows hi hsource hnone hok =>
    have hp := List.mem_of_getElem? hi
    have hreading := (h.proper p hp).unplanned hnone
    refine h.set hi (.inl rfl) ?_ (h.fresh p hp)
    exact proper_of_idle hreading ((h.proper p hp).idle hreading) (h.fresh p hp hreading)
  | @read i p source window rest outside observations hi hsource hwindows hnone hread =>
    have hp := List.mem_of_getElem? hi
    have htx := (h.proper p hp).idle hnone
    refine h.set hi (.inl rfl) ⟨?_, ?_, ?_, ?_, ?_⟩ ?_
    · intro he
      cases he
    · intro he
      rw [show p.windows = none from he] at hwindows
      cases hwindows
    · intro source' hsource' o ho
      obtain rfl : source = source' := Option.some.inj (hsource.symm.trans hsource')
      exact read_owned hread o ho
    · intro r hr
      rw [show p.tx = .empty from htx] at hr
      cases hr
    · intro rest' hrest'
      cases hrest'
      exact ⟨source, window, rest, [], hsource, hwindows, rfl, fun e he => by cases he⟩
    · intro he
      cases he
  | write hi hwindows hreading hfree hwrite => exact h.written hi hwindows hreading hfree hwrite
  | commit hi _ hwindows hreading => exact h.committed hi hwindows hreading
  | build hwindows hfree hwrite =>
    refine (h.built ?_ hwrite).1
    intro e he j hj
    obtain ⟨w, -, rfl⟩ := List.mem_map.mp he
    exact hfree j hj

end Steps

end Freepod.Usage.Sampler
