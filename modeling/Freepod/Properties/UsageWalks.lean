import Freepod.Properties.UsageSampler

/-!
# What a source records, over whole runs

* `Walked`: from a position on, the committed windows of a source have no gap, and its position is
  one of them.
* `windows_contiguous`, `ledger_grows`, `walk_complete`: what every run of the samplers keeps.
* `position_stalls`: with nothing of a source in the windows one pass may read, its position never
  moves again.
-/

namespace Freepod.Usage.Sampler

open Base

variable {W p₀ : Int} {source : Source} {s t : System} {i : Nat}

/-! ## the windows of a source -/

/-- the source has committed the window -/
def Committed (s : System) (source : Source) (w : Int) : Prop :=
  ∃ r ∈ s.recorded, r.source = source ∧ r.window = w

/-- the source has committed the window, or its walk began after it -/
def Reached (s : System) (source : Source) (p₀ w : Int) : Prop := w = p₀ ∨ Committed s source w

/-- what holds of a source whose position was `p₀` when the run began -/
structure Walked (source : Source) (W p₀ : Int) (s : System) : Prop where
  dated : ∀ p ∈ s.samplings, Dated W p.settings p.now
  /-- a committed window was closed and had settled, and the one before it is committed too -/
  before : ∀ r ∈ s.recorded, r.source = source → OnGrid W r.window ∧ p₀ < r.window ∧
    Reached s source p₀ (r.window - W * second) ∧
    r.window + W * second + r.settings.usageSettleSeconds * second ≤ r.now
  rows : ∀ row ∈ s.ledger.samples, row.metric ∈ source.positionMetrics →
    row.windowStart ≤ p₀ ∨ Committed s source row.windowStart
  base : ∃ row ∈ s.ledger.samples, row.metric ∈ source.positionMetrics ∧ row.windowStart = p₀
  /-- the windows still planned follow a committed one -/
  planned : ∀ p ∈ s.samplings, p.sources.head? = some source → ∀ windows, p.windows = some windows →
    ∃ lo first, Reached s source p₀ lo ∧ p₀ ≤ lo ∧ Planned W first p.settings p.now p.planned ∧
      Reached s source p₀ first ∧ Steps (W * second) lo windows ∧ (∀ w ∈ windows, w ∈ p.planned) ∧
      ∀ w ∈ p.planned, w ∈ windows ∨ Committed s source w

theorem Committed.mono {w : Int} (h : Committed s source w)
    (hsub : ∀ r ∈ s.recorded, r ∈ t.recorded) : Committed t source w := by
  obtain ⟨r, hr, hrest⟩ := h
  exact ⟨r, hsub r hr, hrest⟩

theorem Reached.mono {w : Int} (h : Reached s source p₀ w)
    (hsub : ∀ r ∈ s.recorded, r ∈ t.recorded) : Reached t source p₀ w :=
  h.imp_right fun hc => hc.mono hsub

/-- the position is where the walk began, or a committed window -/
theorem Walked.position (h : Walked source W p₀ s) (hp₀ : OnGrid W p₀) :
    ∃ p, lastRecordedWindow s.ledger.samples source.positionMetrics = some p ∧
      Reached s source p₀ p ∧ p₀ ≤ p ∧ OnGrid W p := by
  obtain ⟨row₀, hrow₀, hm₀, hw₀⟩ := h.base
  cases hlast : lastRecordedWindow s.ledger.samples source.positionMetrics with
  | none =>
    unfold lastRecordedWindow at hlast
    rw [List.max?_eq_none_iff, List.filterMap_eq_nil_iff] at hlast
    have hnone := hlast _ hm₀
    unfold positionOf at hnone
    rw [List.max?_eq_none_iff, List.map_eq_nil_iff, List.filter_eq_nil_iff] at hnone
    exact absurd (decide_eq_true rfl) (hnone row₀ hrow₀)
  | some p =>
    obtain ⟨⟨row, hrow, hm, rfl⟩, hle⟩ := lastRecordedWindow_eq_some.mp hlast
    have hge : p₀ ≤ row.windowStart := hw₀ ▸ hle row₀ hrow₀ hm₀
    obtain hold | hcommitted := h.rows row hrow hm
    · have heq : row.windowStart = p₀ := by omega
      rw [heq]
      exact ⟨p₀, rfl, .inl rfl, Int.le_refl _, hp₀⟩
    · obtain ⟨r, hr, hsource, hwindow⟩ := hcommitted
      have hgrid := (h.before r hr hsource).1
      rw [hwindow] at hgrid
      exact ⟨_, rfl, .inr ⟨r, hr, hsource, hwindow⟩, hge, hgrid⟩

/-- **no gap**: behind a committed window, every window back to where the walk began -/
theorem Walked.contiguous (h : Walked source W p₀ s) (hW : 0 < W) {r : Recorded}
    (hr : r ∈ s.recorded) (hsource : r.source = source) :
    ∃ n : Nat, r.window = p₀ + (n + 1) * (W * second) ∧
      ∀ m < n, Committed s source (p₀ + (m + 1) * (W * second)) := by
  have hW' : 0 < W * second := Int.mul_pos hW (by decide)
  -- on the distance from where the walk began
  have hdistance : ∀ k : Nat, ∀ r ∈ s.recorded, r.source = source → r.window ≤ p₀ + k →
      ∃ n : Nat, r.window = p₀ + (n + 1) * (W * second) ∧
        ∀ m < n, Committed s source (p₀ + (m + 1) * (W * second)) := by
    intro k
    induction k with
    | zero =>
      intro r hr hsource hle
      have hlt := (h.before r hr hsource).2.1
      omega
    | succ k ih =>
      intro r hr hsource hle
      obtain ⟨-, hlt, hreached, -⟩ := h.before r hr hsource
      obtain hfirst | ⟨r', hr', hsource', hwindow'⟩ := hreached
      · refine ⟨0, ?_, fun m hm => absurd hm (Nat.not_lt_zero m)⟩
        rw [Nat.cast_zero, Int.zero_add, Int.one_mul]
        omega
      · obtain ⟨n, hn, hall⟩ := ih r' hr' hsource' (by omega)
        have hexp : ((n + 1 : Nat) + 1 : Int) * (W * second) =
            (n + 1) * (W * second) + W * second := by push_cast; ring
        refine ⟨n + 1, ?_, ?_⟩
        · rw [hexp]
          omega
        · intro m hm
          obtain hlt | heq := Nat.lt_succ_iff_lt_or_eq.mp hm
          · exact hall m hlt
          · rw [heq, ← hn]
            exact ⟨r', hr', hsource', rfl⟩
  have hlt := (h.before r hr hsource).2.1
  exact hdistance (r.window - p₀).toNat r hr hsource (by omega)

/-! ## one step -/

/-- every pass of a run settles between 1970 and the year 2514, on windows of `W` seconds -/
def DatedStart (W : Int) (_ : System) : Event → Prop
  | .start now settings _ => Dated W settings now
  | _ => True

theorem write_keeps {l l' : Ledger} {tx tx' : Transaction} {catalog : List String}
    {intervalSeconds observedAt : Int} {entries : List Entry}
    (h : l.write tx catalog intervalSeconds observedAt entries = .ok (l', tx')) :
    l'.samples = l.samples := by
  unfold Ledger.write at h
  obtain ⟨visible, -, h⟩ := bind_eq_ok.mp h
  cases h
  rfl

theorem windowQuantities_share {b : Build} {intervalSeconds : Int} {windows : List WindowUsage}
    (h : windowQuantities b intervalSeconds = .ok windows) :
    ∀ w ∈ windows, ∃ wall share, w.quantities = quantitiesOf b wall share := by
  have hloop : ∀ (start finish step : Int) (n : Nat) (lo : Int) (windows : List WindowUsage),
      windowsFrom b start finish step n lo = .ok windows →
      ∀ w ∈ windows, ∃ wall share, w.quantities = quantitiesOf b wall share := by
    intro start finish step n
    induction n with
    | zero =>
      intro lo windows h w hw
      cases h
      cases hw
    | succ n ih =>
      intro lo windows h w hw
      unfold windowsFrom at h
      split at h
      · obtain ⟨stop, -, h⟩ := bind_eq_ok.mp h
        obtain ⟨rest, hrest, h⟩ := bind_eq_ok.mp h
        cases h
        obtain rfl | hw := List.mem_cons.mp hw
        · exact ⟨_, _, rfl⟩
        · exact ih stop rest hrest w hw
      · cases h
        cases hw
  unfold windowQuantities at h
  split at h
  · cases h
    exact fun w hw => absurd hw List.not_mem_nil
  · split at h
    · cases h
      exact fun w hw => absurd hw List.not_mem_nil
    · obtain ⟨lo, -, h⟩ := bind_eq_ok.mp h
      exact hloop _ _ _ _ _ _ h

/-- the walk of a pass that moves on, with nothing committed -/
theorem Walked.set (h : Walked source W p₀ s) {p p' : Sampling} (hi : s.samplings[i]? = some p)
    (hsettings : p'.settings = p.settings) (hnow : p'.now = p.now)
    (hplanned : p'.sources.head? = some source → ∀ windows, p'.windows = some windows →
      ∃ lo first, Reached s source p₀ lo ∧ p₀ ≤ lo ∧ Planned W first p.settings p.now p'.planned ∧
        Reached s source p₀ first ∧ Steps (W * second) lo windows ∧
        (∀ w ∈ windows, w ∈ p'.planned) ∧ ∀ w ∈ p'.planned, w ∈ windows ∨ Committed s source w) :
    Walked source W p₀ (s.set i p') := by
  refine { h with dated := ?_, planned := ?_ }
  · intro q hq
    obtain hq | rfl := mem_set hq
    · exact h.dated q hq
    · rw [hsettings, hnow]
      exact h.dated p (List.mem_of_getElem? hi)
  · intro q hq
    obtain hq | rfl := mem_set hq
    · exact h.planned q hq
    · rw [hsettings, hnow]
      exact hplanned

theorem Walked.committed (h : Walked source W p₀ s) (hs : Sampled s) (hW : 0 < W) {p : Sampling}
    {current : Source} {window : Int} {rest : List Int} (hi : s.samplings[i]? = some p)
    (hsource : p.sources.head? = some current) (hwindows : p.windows = some (window :: rest)) :
    Walked source W p₀ { s.set i (p.committed rest) with
      ledger := s.ledger.commit p.tx
      recorded := s.recorded ++ [⟨current, window, p.read, p.settings, p.now⟩] } := by
  have hp : p ∈ s.samplings := List.mem_of_getElem? hi
  have hW' : 0 < W * second := Int.mul_pos hW (by decide)
  obtain ⟨t, ht⟩ : ∃ t : System, { s.set i (p.committed rest) with
      ledger := s.ledger.commit p.tx
      recorded := s.recorded ++ [⟨current, window, p.read, p.settings, p.now⟩] } = t := ⟨_, rfl⟩
  have hrecorded : t.recorded = s.recorded ++ [⟨current, window, p.read, p.settings, p.now⟩] :=
    ht ▸ rfl
  have hsub : ∀ r ∈ s.recorded, r ∈ t.recorded := by
    intro r hr
    rw [hrecorded]
    exact List.mem_append_left _ hr
  have hnew : ∀ {w : Int}, current = source → window = w → Committed t source w := by
    intro w hcurrent hw
    refine ⟨⟨current, window, p.read, p.settings, p.now⟩, ?_, hcurrent, hw⟩
    rw [hrecorded]
    exact List.mem_append_right _ List.mem_cons_self
  rw [ht]
  constructor
  · rw [← ht]
    intro q hq
    obtain hq | rfl := mem_set hq
    · exact h.dated q hq
    · exact h.dated p hp
  · intro r hr hcurrent
    rw [hrecorded] at hr
    obtain hr | hr := List.mem_append.mp hr
    · obtain ⟨hgrid, hlt, hreached, hsettled⟩ := h.before r hr hcurrent
      exact ⟨hgrid, hlt, hreached.mono hsub, hsettled⟩
    · rw [List.mem_singleton.mp hr] at hcurrent ⊢
      subst hcurrent
      obtain ⟨lo, first, hlo, hle, hplanned, -, ⟨hstep, -⟩, hin, -⟩ :=
        h.planned p hp hsource _ hwindows
      obtain ⟨hgrid, hsettled⟩ := hplanned.settled window (hin window List.mem_cons_self)
      refine ⟨hgrid, ?_, ?_, hsettled⟩
      · show p₀ < window
        omega
      · show Reached t current p₀ (window - W * second)
        rw [hstep, Int.add_sub_cancel]
        exact hlo.mono hsub
  · intro row hrow hmetric
    rw [← ht] at hrow
    obtain hrow | hrow := List.mem_append.mp hrow
    · exact (h.rows row hrow hmetric).imp_right fun hc => hc.mono hsub
    · obtain ⟨current', window', rest', hsource', hwindows', hstart, o, ho, q, hq, hqm⟩ :=
        (hs.proper p hp).added row hrow
      obtain ⟨rfl, rfl⟩ := List.cons.inj (Option.some.inj (hwindows'.symm.trans hwindows))
      have howned := (hs.proper p hp).owned current hsource o ho q hq source (hqm ▸ hmetric)
      exact .inr (hnew howned.symm hstart.symm)
  · obtain ⟨row, hrow, hrest⟩ := h.base
    rw [← ht]
    exact ⟨row, List.mem_append_left _ hrow, hrest⟩
  · rw [← ht]
    intro q hq
    rw [ht]
    obtain hq | rfl := mem_set hq
    · intro hhead windows hwindows'
      obtain ⟨lo, first, hlo, hle, hplanned, hfirst, hsteps, hin, hdone⟩ :=
        h.planned q hq hhead windows hwindows'
      refine ⟨lo, first, hlo.mono hsub, hle, hplanned, hfirst.mono hsub, hsteps, hin, ?_⟩
      intro w hw
      exact (hdone w hw).imp_right fun hc => hc.mono hsub
    · intro hhead windows hwindows'
      obtain rfl : current = source := Option.some.inj (hsource.symm.trans hhead)
      obtain rfl : rest = windows := Option.some.inj hwindows'
      obtain ⟨lo, first, hlo, hle, hplanned, hfirst, ⟨hstep, hsteps⟩, hin, hdone⟩ :=
        h.planned p hp hsource _ hwindows
      refine ⟨window, first, .inr (hnew rfl rfl), by omega, hplanned, hfirst.mono hsub, hsteps, ?_,
        ?_⟩
      · intro w hw
        exact hin w (List.mem_cons_of_mem _ hw)
      · intro w hw
        obtain hw | hc := hdone w hw
        · obtain rfl | hw := List.mem_cons.mp hw
          · exact .inr (hnew rfl rfl)
          · exact .inl hw
        · exact .inr (hc.mono hsub)

/-- **one step** -/
theorem Walked.step (h : Walked source W p₀ s) (hs : Sampled s) (hW : 0 < W) (hp₀ : OnGrid W p₀)
    {e : Event} (hok : DatedStart W s e) (hm : Move s e t) : Walked source W p₀ t := by
  cases hm with
  | start now settings catalog =>
    refine { h with dated := ?_, planned := ?_ }
    · intro p hp
      obtain hp | hp := List.mem_append.mp hp
      · exact h.dated p hp
      · rw [List.mem_singleton.mp hp]
        exact hok
    · intro p hp
      obtain hp | hp := List.mem_append.mp hp
      · exact h.planned p hp
      · rw [List.mem_singleton.mp hp]
        intro _ windows hwindows
        cases hwindows
  | ended hi ho =>
    refine h.set hi ho.settings ho.now ?_
    intro _ windows hwindows
    rw [ho.windows] at hwindows
    cases hwindows
  | @plan i p current windows hi hsource hnone hplan =>
    refine h.set hi rfl rfl ?_
    intro hhead windows' hwindows'
    obtain rfl : current = source := Option.some.inj (hsource.symm.trans hhead)
    obtain rfl : windows = windows' := Option.some.inj hwindows'
    obtain ⟨pos, hlast, hreached, hle, hgrid⟩ := h.position hp₀
    have hplanned := pendingWindows_ok hW (h.dated p (List.mem_of_getElem? hi)) hgrid hlast hplan
    exact ⟨pos, pos, hreached, hle, hplanned, hreached, hplanned.steps, fun _ hw => hw,
      fun _ hw => .inl hw⟩
  | @read i p current window rest outside observations hi _ _ _ _ =>
    refine h.set hi rfl rfl ?_
    exact h.planned p (List.mem_of_getElem? hi)
  | @write i p window rest observations ledger tx hi hwindows hreading hfree hwrite =>
    have hset : Walked source W p₀
        (s.set i { p with reading := some (observations.drop chunkSize), tx := tx }) := by
      refine h.set hi rfl rfl ?_
      exact h.planned p (List.mem_of_getElem? hi)
    have hsamples := write_keeps hwrite
    refine { hset with rows := ?_, base := ?_ }
    · show ∀ row ∈ ledger.samples, _
      rw [hsamples]
      exact hset.rows
    · show ∃ row ∈ ledger.samples, _
      rw [hsamples]
      exact hset.base
  | commit hi hsource hwindows => exact h.committed hs hW hi hsource hwindows
  | @build b settings now catalog deploymentId windows ledger tx hwindows hfree hwrite =>
    obtain ⟨-, -, hsamples, hrows⟩ := hs.built (by
      intro e he j hj
      obtain ⟨w, -, rfl⟩ := List.mem_map.mp he
      exact hfree j hj) hwrite
    refine { h with rows := ?_, base := ?_ }
    · intro row hrow hmetric
      obtain hrow | hrow := List.mem_append.mp hrow
      · rw [hsamples] at hrow
        exact h.rows row hrow hmetric
      · obtain ⟨e, he, q, hq, hqm⟩ := hrows row hrow
        obtain ⟨w, hw, rfl⟩ := List.mem_map.mp he
        obtain ⟨wall, share, hquantities⟩ := windowQuantities_share hwindows w hw
        rw [hqm] at hmetric
        rw [show _ = quantitiesOf b wall share from hquantities] at hq
        exact absurd hmetric (build_unowned hq source)
    · obtain ⟨row, hrow, hrest⟩ := h.base
      refine ⟨row, ?_, hrest⟩
      show row ∈ ledger.samples ++ tx.samples
      rw [hsamples]
      exact List.mem_append_left _ hrow

/-! ## every run -/

/-- no pass is under way, and what is committed is sound -/
structure Resting (s : System) : Prop where
  samplings : s.samplings = []
  recorded : s.recorded = []
  sound : Sound s.ledger fun _ => .empty

variable {s₀ : System}

theorem Resting.sampled (h : Resting s₀) : Sampled s₀ where
  sound := by
    have htransactions : s₀.transactions = fun _ => .empty := by
      funext j
      unfold System.transactions
      rw [h.samplings]
      rfl
    rw [htransactions]
    exact h.sound
  proper := by
    intro p hp
    rw [h.samplings] at hp
    cases hp
  stored := by
    intro r hr
    rw [h.recorded] at hr
    cases hr
  fresh := by
    intro p hp
    rw [h.samplings] at hp
    cases hp

theorem Resting.walked (h : Resting s₀)
    (hlast : lastRecordedWindow s₀.ledger.samples source.positionMetrics = some p₀) :
    Walked source W p₀ s₀ := by
  obtain ⟨hbase, hle⟩ := lastRecordedWindow_eq_some.mp hlast
  refine ⟨?_, ?_, fun row hrow hm => .inl (hle row hrow hm), hbase, ?_⟩
  · intro p hp
    rw [h.samplings] at hp
    cases hp
  · intro r hr
    rw [h.recorded] at hr
    cases hr
  · intro p hp
    rw [h.samplings] at hp
    cases hp

theorem sampled_of_reach {ok : System → Event → Prop} (h₀ : Sampled s₀)
    (h : System.machine.Reach ok s₀ s) : Sampled s :=
  h.invariant h₀ fun _ _ _ hs _ ht => hs.step (step_cases ht)

theorem walked_of_reach (h₀ : Sampled s₀) (hw₀ : Walked source W p₀ s₀) (hW : 0 < W)
    (hp₀ : OnGrid W p₀) (h : System.machine.Reach (DatedStart W) s₀ s) :
    Sampled s ∧ Walked source W p₀ s := by
  refine h.invariant (P := fun s => Sampled s ∧ Walked source W p₀ s) ⟨h₀, hw₀⟩ ?_
  rintro s e t ⟨hs, hw⟩ hok ht
  have hm := step_cases ht
  exact ⟨hs.step hm, hw.step hs hW hp₀ hok hm⟩

namespace Sample

/-- the hours from one in November 2025 on -/
def hour (n : Int) : Int := (490000 + n) * 3600 * second

def limits : SamplerSettings where
  usageWindowSeconds := 3600
  usageSettleSeconds := 300
  usageFirstRunLookbackSeconds := 21600
  usageMaxWindowsPerPass := 2
  environment := "dev"
  buildsNamespace := ""
  usageTenantDbNamespace := "caelus-tenant-db-dev"
  usageBucketNamespace := ""

def catalog : List String := [Databases.sizeMetric, Databases.allowanceMetric]

def databaseKey : SubjectKey := (.database, "dep_a")

def database : SubjectRow := ⟨7, some "caelus-tenant-db-dev", some "a", hour 1, hour 1⟩

/-- one database, measured in one hour -/
def ledger : Ledger where
  subjects := fun k => if k = databaseKey then some database else none
  samples := [⟨7, Databases.sizeMetric, hour 0, 3600, 2 ^ 30, hour 1⟩]
  nextId := 8

def first : System := ⟨ledger, [], []⟩

/-- OpenCost does not answer, and Prometheus has the sizes of some databases -/
def sizes (series : List (Option String × ℚ)) : Outside where
  opencost := ⟨.error "OpenCost request failed", .ok []⟩
  databases := ⟨.ok true, .ok series⟩
  buckets := ⟨.ok true, .ok []⟩
  tables := ⟨[⟨"a", "tenant-a", none, none⟩], [("dep_a", "a")], [], []⟩

/-- two passes at once, until the first of them has recorded an hour -/
def begun : List Event :=
  [.start (hour 5) limits catalog, .start (hour 5) limits catalog, .plan 0, .read 0 (sizes []),
    .plan 0, .plan 1, .read 0 (sizes [(some "dep_a", 2 ^ 31)]), .write 0, .read 1 (sizes []),
    .commit 0]

/-- both go on to the next hour.  The first pass waits for the row the second has locked, and finds
its sample recorded; the last hour has no database. -/
def ended : List Event :=
  [.plan 1, .read 1 (sizes [(some "dep_a", 2 ^ 32)]), .read 0 (sizes [(some "dep_a", 2 ^ 31)]),
    .write 1, .commit 1, .write 0, .read 1 (sizes []), .commit 0, .commit 1]

theorem resting : Resting first where
  samplings := rfl
  recorded := rfl
  sound := by
    have hkey : ∀ k row, Names ledger (fun _ => .empty) k row → k = databaseKey ∧ row.id = 7 := by
      intro k row hk
      obtain hk | ⟨_, hk⟩ := hk
      · change (if k = databaseKey then _ else none) = some row at hk
        split at hk
        · rename_i he
          cases hk
          exact ⟨he, rfl⟩
        · cases hk
      · cases hk
    constructor
    · intro k k' row row' hk hk' _
      rw [(hkey k row hk).1, (hkey k' row' hk').1]
    · intro k row hk
      rw [(hkey k row hk).2]
      decide
    · intro _ _ _ _ _ h
      cases h
    · intro _ _ _ _ _ h
      cases h
    · intro r hr
      rw [List.mem_singleton.mp hr]
      refine ⟨databaseKey, database, ?_, rfl⟩
      show (if databaseKey = databaseKey then some database else none) = some database
      exact if_pos rfl
    · intro _ r hr
      cases hr
    · intro _
      exact List.nodup_singleton _

theorem position : lastRecordedWindow first.ledger.samples Source.databases.positionMetrics =
    some (hour 0) := by
  refine lastRecordedWindow_eq_some.mpr ⟨⟨_, List.mem_cons_self, List.mem_cons_self, rfl⟩, ?_⟩
  intro r hr _
  rw [List.mem_singleton.mp hr]

theorem onGrid : OnGrid 3600 (hour 0) := by decide +kernel

/-- a run of which a check accepts every step -/
theorem exists_run {k : System → Event → Prop} (check : System → Event → Bool)
    (hcheck : ∀ s e, check s e = true → k s e) (s₀ : System) (events : List Event)
    (p : System → Bool) (h : (System.machine.runIf check s₀ events).any p = true) :
    ∃ s, System.machine.Reach k s₀ s ∧ p s = true := by
  obtain ⟨s, hs, -, hp⟩ := Machine.exists_reach_of_runIf (M := System.machine) (k := k)
    (P := fun _ => True) (fun _ _ _ _ _ _ => trivial) (fun s e _ => hcheck s e) trivial h
  exact ⟨s, hs, hp⟩

def dated (_ : System) : Event → Bool
  | .start now settings _ => decide (Dated 3600 settings now)
  | _ => true

theorem of_dated (s : System) (e : Event) (h : dated s e = true) : DatedStart 3600 s e := by
  cases e with
  | start now settings catalog => exact of_decide_eq_true (p := Dated 3600 settings now) h
  | _ => trivial

end Sample

/-- **a source records without a gap**.  From a ledger whose newest window of the source is `p₀`,
in every run of any number of samplers, whatever the sources answer, fail and die: behind a window
the source has committed, all windows back to `p₀` are committed; each had closed and settled when
it was read, and every observation it was read to hold is in the ledger, under its subject's id and
attributed where the source could attribute it; and the source's position is `p₀` or one of them. -/
theorem windows_contiguous (h₀ : Resting s₀) (hW : 0 < W) (hp₀ : OnGrid W p₀)
    (hlast : lastRecordedWindow s₀.ledger.samples source.positionMetrics = some p₀)
    (h : System.machine.Reach (DatedStart W) s₀ s) :
    (∀ r ∈ s.recorded, r.source = source →
      (∃ n : Nat, r.window = p₀ + (n + 1) * (W * second) ∧
        ∀ m < n, Committed s source (p₀ + (m + 1) * (W * second))) ∧
      r.window + W * second + r.settings.usageSettleSeconds * second ≤ r.now ∧
      ∀ o ∈ r.observations,
        Stored s.ledger.subjects s.ledger.samples ⟨o.subject, r.window, o.quantities⟩) ∧
    ∃ p, lastRecordedWindow s.ledger.samples source.positionMetrics = some p ∧
      Reached s source p₀ p := by
  obtain ⟨hs, hw⟩ := walked_of_reach h₀.sampled (h₀.walked hlast) hW hp₀ h
  constructor
  · intro r hr hsource
    refine ⟨hw.contiguous hW hr hsource, (hw.before r hr hsource).2.2.2, ?_⟩
    intro o ho
    exact hs.stored r hr _ (List.mem_map_of_mem ho)
  · obtain ⟨p, hp, hreached, -, -⟩ := hw.position hp₀
    exact ⟨p, hp, hreached⟩

theorem windows_contiguous_two : ∃ s : System, s.samplings.length = 2 ∧ s.recorded.length = 4 ∧
    (∀ r ∈ s.recorded, r.source = .databases →
      r.window + 3600 * second + r.settings.usageSettleSeconds * second ≤ r.now) ∧
    ∃ p, lastRecordedWindow s.ledger.samples Source.databases.positionMetrics = some p ∧
      Reached s .databases (Sample.hour 0) p := by
  obtain ⟨s, hs, hfour⟩ := Sample.exists_run Sample.dated Sample.of_dated Sample.first
    (Sample.begun ++ Sample.ended)
    (fun s => decide (s.samplings.length = 2 ∧ s.recorded.length = 4)) (by decide +kernel)
  obtain ⟨htwo, hfour⟩ := of_decide_eq_true hfour
  obtain ⟨hrecorded, hposition⟩ :=
    windows_contiguous Sample.resting (by decide) Sample.onGrid Sample.position hs
  exact ⟨s, htwo, hfour, fun r hr hsource => (hrecorded r hr hsource).2.1, hposition⟩

/-! ## what is never taken back -/

/-- a step adds to the ledger -/
theorem Sampled.grown (h : Sampled s) {e : Event} (hm : Move s e t) :
    s.ledger.samples <+: t.ledger.samples ∧ Grown s.ledger.subjects t.ledger.subjects := by
  cases hm with
  | start => exact ⟨List.prefix_rfl, .refl _⟩
  | ended => exact ⟨List.prefix_rfl, .refl _⟩
  | plan => exact ⟨List.prefix_rfl, .refl _⟩
  | read => exact ⟨List.prefix_rfl, .refl _⟩
  | @write i p window rest observations ledger tx hi hwindows hreading hfree hwrite =>
    rw [← transactions_of_getElem? hi] at hwrite
    obtain ⟨-, hw⟩ := h.sound.write hfree hwrite
    show s.ledger.samples <+: ledger.samples ∧ Grown s.ledger.subjects ledger.subjects
    rw [hw.samples, hw.subjects]
    exact ⟨List.prefix_rfl, .refl _⟩
  | @commit i p source window rest hi hsource hwindows hreading =>
    have hgrown := h.sound.grown_commit i
    rw [transactions_of_getElem? hi] at hgrown
    exact ⟨List.prefix_append _ _, hgrown⟩
  | @build b settings now catalog deploymentId windows ledger tx hwindows hfree hwrite =>
    obtain ⟨-, hgrown, hsamples, -⟩ := h.built (by
      intro e he j hj
      obtain ⟨w, -, rfl⟩ := List.mem_map.mp he
      exact hfree j hj) hwrite
    refine ⟨?_, hgrown⟩
    show s.ledger.samples <+: ledger.samples ++ tx.samples
    rw [hsamples]
    exact List.prefix_append _ _

/-- **the ledger is append-only**.  However passes interleave with each other and with the
recording of builds, fail and die: a committed sample stays as it is, there is one for a subject, a
metric and a window, and its subject is one row, found by one kind and reference; a committed
subject keeps its id, and its attribution once it has one. -/
theorem ledger_grows (h₀ : Resting s₀) (h : System.machine.Reach (fun _ _ => True) s₀ s)
    (h' : System.machine.Reach (fun _ _ => True) s t) :
    s.ledger.samples <+: t.ledger.samples ∧ Grown s.ledger.subjects t.ledger.subjects ∧
      (t.ledger.samples.map SampleRow.key).Nodup ∧
      ∀ r ∈ t.ledger.samples, ∃ k, (∃ row, t.ledger.subjects k = some row ∧ row.id = r.subject) ∧
        ∀ k' row, t.ledger.subjects k' = some row → row.id = r.subject → k' = k := by
  have hs := sampled_of_reach h₀.sampled h
  have ht := sampled_of_reach hs h'
  have hadd : s.ledger.samples <+: t.ledger.samples ∧
      Grown s.ledger.subjects t.ledger.subjects := by
    refine h'.along (P := Sampled) (R := fun s t => s.ledger.samples <+: t.ledger.samples ∧
      Grown s.ledger.subjects t.ledger.subjects) hs ?_ ⟨List.prefix_rfl, .refl _⟩ ?_
    · intro u e v hu _ hv
      exact hu.step (step_cases hv)
    · rintro u e v hu ⟨hsamples, hsubjects⟩ _ hv
      obtain ⟨hsamples', hsubjects'⟩ := hu.grown (step_cases hv)
      exact ⟨hsamples.trans hsamples', hsubjects.trans hsubjects'⟩
  refine ⟨hadd.1, hadd.2, ?_, ?_⟩
  · have hkeys := ht.sound.keys t.samplings.length
    rw [List.map_append] at hkeys
    exact (List.nodup_append.mp hkeys).1
  · intro r hr
    obtain ⟨k, row, hk, hid⟩ := ht.sound.rows r hr
    refine ⟨k, ⟨row, hk, hid⟩, ?_⟩
    intro k' row' hk' hid'
    exact ht.sound.ids k' k row' row (.inl hk') (.inl hk) (hid'.trans hid.symm)

/-- the state is one in the middle of two passes -/
theorem ledger_grows_two : ∃ s t : System, s.ledger.samples.length = 2 ∧
    t.ledger.samples.length = 3 ∧ s.ledger.samples <+: t.ledger.samples ∧
      Grown s.ledger.subjects t.ledger.subjects ∧ (t.ledger.samples.map SampleRow.key).Nodup := by
  obtain ⟨s, hs, hmid⟩ := Sample.exists_run (k := fun _ _ => True) (fun _ _ => true)
    (fun _ _ _ => trivial) Sample.first Sample.begun
    (fun s => decide (s.ledger.samples.length = 2) &&
      (System.machine.runIf (fun _ _ => true) s Sample.ended).any fun t : System =>
        decide (t.ledger.samples.length = 3)) (by decide +kernel)
  obtain ⟨htwo, hrest⟩ := (Bool.and_eq_true _ _).mp hmid
  obtain ⟨t, ht, hthree⟩ := Sample.exists_run (k := fun _ _ => True) (fun _ _ => true)
    (fun _ _ _ => trivial) s Sample.ended _ hrest
  obtain ⟨hsamples, hgrown, hkeys, -⟩ := ledger_grows Sample.resting hs ht
  exact ⟨s, t, of_decide_eq_true htwo, of_decide_eq_true hthree, hsamples, hgrown, hkeys⟩

/-! ## what moves the position -/

/-- the observations have one the source's position is read off -/
def Telling (source : Source) (observations : List Observation) : Prop :=
  ∃ o ∈ observations, ∃ q ∈ o.quantities, q.1 ∈ source.positionMetrics

instance (source : Source) (observations : List Observation) :
    Decidable (Telling source observations) :=
  inferInstanceAs (Decidable (∃ o ∈ observations, ∃ q ∈ o.quantities, q.1 ∈ source.positionMetrics))

/-- a database's or a bucket's observation always is one -/
theorem telling_of_read {settings : SamplerSettings} {outside : Outside} {w : Int}
    {observations : List Observation} (hsource : source ≠ .opencost)
    (h : source.read settings outside w = some observations) (hne : observations ≠ []) :
    Telling source observations := by
  obtain ⟨o, ho⟩ := List.exists_mem_of_ne_nil observations hne
  cases source with
  | opencost => exact absurd rfl hsource
  | databases =>
    change Databases.read settings outside.databases outside.tables w = some observations at h
    unfold Databases.read at h
    split at h
    · cases h
      obtain ⟨size, hsize, ho'⟩ := List.mem_flatMap.mp ho
      obtain ⟨row, hrow, ho'⟩ := List.mem_flatMap.mp ho'
      obtain ⟨d, -, rfl⟩ := List.mem_map.mp ho'
      exact ⟨_, ho, _, List.mem_cons_self, List.mem_cons_self⟩
    · cases h
  | buckets =>
    change Buckets.read settings outside.buckets outside.tables w = some observations at h
    unfold Buckets.read at h
    split at h
    · cases h
      obtain ⟨size, -, ho'⟩ := List.mem_flatMap.mp ho
      obtain ⟨d, -, rfl⟩ := List.mem_map.mp ho'
      exact ⟨_, ho, _, List.mem_cons_self, List.mem_cons_self⟩
    · cases h

/-- **a walk that reaches its end** has committed all it planned: the settled windows from a
committed one on, as many as there are or a pass may read.  And the position is not before any
committed window that told it. -/
theorem walk_complete (h₀ : Resting s₀) (hW : 0 < W) (hp₀ : OnGrid W p₀)
    (hlast : lastRecordedWindow s₀.ledger.samples source.positionMetrics = some p₀)
    (h : System.machine.Reach (DatedStart W) s₀ s) :
    (∀ p ∈ s.samplings, p.sources.head? = some source → p.windows = some [] →
      ∃ first, Reached s source p₀ first ∧ Planned W first p.settings p.now p.planned ∧
        ∀ w ∈ p.planned, Committed s source w) ∧
    ∃ position, lastRecordedWindow s.ledger.samples source.positionMetrics = some position ∧
      ∀ r ∈ s.recorded, Telling source r.observations → r.window ≤ position := by
  obtain ⟨hs, hw⟩ := walked_of_reach h₀.sampled (h₀.walked hlast) hW hp₀ h
  constructor
  · intro p hp hsource hwindows
    obtain ⟨-, first, -, -, hplanned, hfirst, -, -, hdone⟩ := hw.planned p hp hsource [] hwindows
    refine ⟨first, hfirst, hplanned, ?_⟩
    intro w hmem
    obtain hnil | hc := hdone w hmem
    · cases hnil
    · exact hc
  · obtain ⟨position, hposition, -, -, -⟩ := hw.position hp₀
    refine ⟨position, hposition, ?_⟩
    rintro r hr ⟨o, ho, q, hq, hmetric⟩
    obtain ⟨row, -, -, hkeys⟩ := hs.stored r hr _ (List.mem_map_of_mem ho)
    obtain ⟨sample, hsample, hkey⟩ := List.mem_map.mp (hkeys q hq)
    have hm : sample.metric = q.1 := congrArg (fun k => k.2.1) hkey
    have hstart : sample.windowStart = r.window := congrArg (fun k => k.2.2) hkey
    rw [← hstart]
    exact (lastRecordedWindow_eq_some.mp hposition).2 sample hsample (hm ▸ hmetric)

/-- the second pass plans from the hour on that the first has committed -/
theorem walk_complete_two : ∃ s : System, ∃ p ∈ s.samplings, ∃ p' ∈ s.samplings,
    p.planned = [Sample.hour 1, Sample.hour 2] ∧ p'.planned = [Sample.hour 2, Sample.hour 3] ∧
    Committed s .databases (Sample.hour 1) ∧ Committed s .databases (Sample.hour 3) := by
  obtain ⟨s, hs, hend⟩ := Sample.exists_run Sample.dated Sample.of_dated Sample.first
    (Sample.begun ++ Sample.ended)
    (fun s => (s.samplings.any fun p => decide (p.sources.head? = some .databases ∧
        p.windows = some [] ∧ p.planned = [Sample.hour 1, Sample.hour 2])) &&
      s.samplings.any fun p => decide (p.sources.head? = some .databases ∧
        p.windows = some [] ∧ p.planned = [Sample.hour 2, Sample.hour 3])) (by decide +kernel)
  obtain ⟨hfirst, hsecond⟩ := (Bool.and_eq_true _ _).mp hend
  obtain ⟨p, hp, hdec⟩ := List.any_eq_true.mp hfirst
  obtain ⟨hsource, hwindows, hplanned⟩ := of_decide_eq_true hdec
  obtain ⟨p', hp', hdec'⟩ := List.any_eq_true.mp hsecond
  obtain ⟨hsource', hwindows', hplanned'⟩ := of_decide_eq_true hdec'
  obtain ⟨hwalks, -⟩ :=
    walk_complete Sample.resting (by decide) Sample.onGrid Sample.position hs
  obtain ⟨-, -, -, hall⟩ := hwalks p hp hsource hwindows
  obtain ⟨-, -, -, hall'⟩ := hwalks p' hp' hsource' hwindows'
  rw [hplanned] at hall
  rw [hplanned'] at hall'
  exact ⟨s, p, hp, p', hp', hplanned, hplanned', hall _ List.mem_cons_self,
    hall' _ (List.mem_cons_of_mem _ List.mem_cons_self)⟩

/-! ## the position that never moves again -/

/-- what the source is read to hold in the `M` windows after `p₀` tells no position, and no pass may
read more than `M` windows -/
def QuietRead (source : Source) (W p₀ : Int) (M : Nat) (s : System) : Event → Prop
  | .start now settings _ => Dated W settings now ∧ settings.usageMaxWindowsPerPass ≤ M
  | .read i outside => ∀ p w rest observations, s.samplings[i]? = some p →
      p.sources.head? = some source → p.windows = some (w :: rest) → w ≤ p₀ + M * (W * second) →
      source.read p.settings outside w = some observations → ¬ Telling source observations
  | _ => True

structure Stalled (source : Source) (W p₀ : Int) (M : Nat) (s : System) : Prop where
  dated : ∀ p ∈ s.samplings, Dated W p.settings p.now ∧ p.settings.usageMaxWindowsPerPass ≤ M
  position : lastRecordedWindow s.ledger.samples source.positionMetrics = some p₀
  planned : ∀ p ∈ s.samplings, p.sources.head? = some source → ∀ windows, p.windows = some windows →
    ∀ w ∈ windows, w ≤ p₀ + M * (W * second)
  silent : ∀ p ∈ s.samplings, p.sources.head? = some source → ¬ Telling source p.read
  recorded : ∀ r ∈ s.recorded, r.source = source → r.window ≤ p₀ + M * (W * second)

theorem not_telling_nil : ¬ Telling source [] := by
  rintro ⟨o, ho, -⟩
  cases ho

theorem Stalled.set {M : Nat} (h : Stalled source W p₀ M s) {p p' : Sampling}
    (hi : s.samplings[i]? = some p) (hsettings : p'.settings = p.settings) (hnow : p'.now = p.now)
    (hplanned : p'.sources.head? = some source → ∀ windows, p'.windows = some windows →
      ∀ w ∈ windows, w ≤ p₀ + M * (W * second))
    (hsilent : p'.sources.head? = some source → ¬ Telling source p'.read) :
    Stalled source W p₀ M (s.set i p') := by
  refine { h with dated := ?_, planned := ?_, silent := ?_ }
  · intro q hq
    obtain hq | rfl := mem_set hq
    · exact h.dated q hq
    · rw [hsettings, hnow]
      exact h.dated p (List.mem_of_getElem? hi)
  · intro q hq
    obtain hq | rfl := mem_set hq
    · exact h.planned q hq
    · exact hplanned
  · intro q hq
    obtain hq | rfl := mem_set hq
    · exact h.silent q hq
    · exact hsilent

/-- rows of other metrics leave the position where it is -/
theorem position_append {samples rows : List SampleRow} {metrics : List String}
    (hrows : ∀ r ∈ rows, r.metric ∉ metrics)
    (h : lastRecordedWindow samples metrics = some p₀) :
    lastRecordedWindow (samples ++ rows) metrics = some p₀ := by
  obtain ⟨⟨row, hrow, hrest⟩, hle⟩ := lastRecordedWindow_eq_some.mp h
  refine lastRecordedWindow_eq_some.mpr ⟨⟨row, List.mem_append_left _ hrow, hrest⟩, ?_⟩
  intro r hr hm
  obtain hr | hr := List.mem_append.mp hr
  · exact hle r hr hm
  · exact absurd hm (hrows r hr)

theorem Stalled.step {M : Nat} (h : Stalled source W p₀ M s) (hs : Sampled s) (hW : 0 < W)
    (hp₀ : OnGrid W p₀) {e : Event} (hok : QuietRead source W p₀ M s e) (hm : Move s e t) :
    Stalled source W p₀ M t := by
  have hW' : 0 < W * second := Int.mul_pos hW (by decide)
  cases hm with
  | start now settings catalog =>
    refine { h with dated := ?_, planned := ?_, silent := ?_ }
    · intro p hp
      obtain hp | hp := List.mem_append.mp hp
      · exact h.dated p hp
      · rw [List.mem_singleton.mp hp]
        exact hok
    · intro p hp
      obtain hp | hp := List.mem_append.mp hp
      · exact h.planned p hp
      · rw [List.mem_singleton.mp hp]
        intro _ windows hwindows
        cases hwindows
    · intro p hp
      obtain hp | hp := List.mem_append.mp hp
      · exact h.silent p hp
      · rw [List.mem_singleton.mp hp]
        exact fun _ => not_telling_nil
  | ended hi ho =>
    refine h.set hi ho.settings ho.now ?_ ?_
    · intro _ windows hwindows
      rw [ho.windows] at hwindows
      cases hwindows
    · intro _
      rw [ho.read]
      exact not_telling_nil
  | @plan i p current windows hi hsource hnone hplan =>
    have hp := List.mem_of_getElem? hi
    refine h.set hi rfl rfl ?_ (h.silent p hp)
    intro hhead windows' hwindows'
    obtain rfl : current = source := Option.some.inj (hsource.symm.trans hhead)
    obtain rfl : windows = windows' := Option.some.inj hwindows'
    obtain ⟨hdated, hmax⟩ := h.dated p hp
    have hplanned := pendingWindows_ok hW hdated hp₀ h.position hplan
    intro w hw
    have hle := (hplanned.steps.le hW' w hw).2
    have hbound := hplanned.bounded
    have hlength : (windows.length : Int) ≤ M := by omega
    have hmul := Int.mul_le_mul_of_nonneg_right hlength hW'.le
    omega
  | @read i p current window rest outside observations hi hsource hwindows hnone hread =>
    have hp := List.mem_of_getElem? hi
    refine h.set hi rfl rfl (h.planned p hp) ?_
    intro hhead
    obtain rfl : current = source := Option.some.inj (hsource.symm.trans hhead)
    have hle := h.planned p hp hsource _ hwindows window List.mem_cons_self
    exact hok p window rest observations hi hsource hwindows hle hread
  | @write i p window rest observations ledger tx hi hwindows hreading hfree hwrite =>
    have hp := List.mem_of_getElem? hi
    have hset : Stalled source W p₀ M
        (s.set i { p with reading := some (observations.drop chunkSize), tx := tx }) :=
      h.set hi rfl rfl (h.planned p hp) (h.silent p hp)
    refine { hset with position := ?_ }
    show lastRecordedWindow ledger.samples _ = _
    rw [write_keeps hwrite]
    exact hset.position
  | @commit i p current window rest hi hsource hwindows hreading =>
    have hp := List.mem_of_getElem? hi
    have hset : Stalled source W p₀ M (s.set i (p.committed rest)) := by
      refine h.set hi rfl rfl ?_ fun _ => not_telling_nil
      intro hhead windows hwindows' w hw
      obtain rfl : rest = windows := Option.some.inj hwindows'
      exact h.planned p hp hhead _ hwindows w (List.mem_cons_of_mem _ hw)
    refine { hset with position := ?_, recorded := ?_ }
    · apply position_append _ h.position
      intro row hrow hmetric
      obtain ⟨current', _, _, hsource', -, -, o, ho, q, hq, hqm⟩ := (hs.proper p hp).added row hrow
      have howned := (hs.proper p hp).owned current hsource o ho q hq source (hqm ▸ hmetric)
      exact h.silent p hp (howned ▸ hsource) ⟨o, ho, q, hq, hqm ▸ hmetric⟩
    · intro r hr hcurrent
      obtain hr | hr := List.mem_append.mp hr
      · exact h.recorded r hr hcurrent
      · rw [List.mem_singleton.mp hr] at hcurrent ⊢
        subst hcurrent
        exact h.planned p hp hsource _ hwindows window List.mem_cons_self
  | @build b settings now catalog deploymentId windows ledger tx hwindows hfree hwrite =>
    obtain ⟨-, -, hsamples, hrows⟩ := hs.built (by
      intro e he j hj
      obtain ⟨w, -, rfl⟩ := List.mem_map.mp he
      exact hfree j hj) hwrite
    refine { h with position := ?_ }
    show lastRecordedWindow (ledger.samples ++ tx.samples) _ = _
    rw [hsamples]
    apply position_append _ h.position
    intro row hrow hmetric
    obtain ⟨e, he, q, hq, hqm⟩ := hrows row hrow
    obtain ⟨w, hw, rfl⟩ := List.mem_map.mp he
    obtain ⟨wall, share, hquantities⟩ := windowQuantities_share hwindows w hw
    rw [show _ = quantitiesOf b wall share from hquantities] at hq
    exact build_unowned hq source (hqm ▸ hmetric)

/-- **a source can stall for good**.  When the windows a single pass may read after the position are
read to hold nothing that tells a position, the position never moves again, and no window after
them is ever planned or recorded, whatever it holds and however many passes run. -/
theorem position_stalls {M : Nat} (h₀ : Resting s₀) (hW : 0 < W) (hp₀ : OnGrid W p₀)
    (hlast : lastRecordedWindow s₀.ledger.samples source.positionMetrics = some p₀)
    (h : System.machine.Reach (QuietRead source W p₀ M) s₀ s) :
    lastRecordedWindow s.ledger.samples source.positionMetrics = some p₀ ∧
      (∀ p ∈ s.samplings, p.sources.head? = some source → ∀ windows, p.windows = some windows →
        ∀ w ∈ windows, w ≤ p₀ + M * (W * second)) ∧
      ∀ r ∈ s.recorded, r.source = source → r.window ≤ p₀ + M * (W * second) := by
  have hstart : Stalled source W p₀ M s₀ := by
    refine ⟨?_, hlast, ?_, ?_, ?_⟩
    · intro p hp
      rw [h₀.samplings] at hp
      cases hp
    · intro p hp
      rw [h₀.samplings] at hp
      cases hp
    · intro p hp
      rw [h₀.samplings] at hp
      cases hp
    · intro r hr
      rw [h₀.recorded] at hr
      cases hr
  have hboth : Sampled s ∧ Stalled source W p₀ M s := by
    refine h.invariant (P := fun s => Sampled s ∧ Stalled source W p₀ M s) ⟨h₀.sampled, hstart⟩ ?_
    rintro s e t ⟨hs, hst⟩ hok ht
    have hm := step_cases ht
    exact ⟨hs.step hm, hst.step hs hW hp₀ hok hm⟩
  exact ⟨hboth.2.position, hboth.2.planned, hboth.2.recorded⟩

namespace Sample

/-- two passes, an hour apart, over the same two hours without a database -/
def twoPasses : List Event :=
  [.start (hour 5) limits catalog, .plan 0, .read 0 (sizes []), .plan 0, .read 0 (sizes []),
    .commit 0, .read 0 (sizes []), .commit 0, .finish 0, .leave 0,
    .start (hour 6) limits catalog, .plan 1, .read 1 (sizes []), .plan 1, .read 1 (sizes []),
    .commit 1, .read 1 (sizes []), .commit 1]

def quiet (s : System) : Event → Bool
  | .start now settings _ => decide (Dated 3600 settings now ∧ settings.usageMaxWindowsPerPass ≤ 2)
  | .read i outside => (s.samplings[i]?).all fun p => p.windows.all fun windows =>
    windows.head?.all fun w => (Source.databases.read p.settings outside w).all fun observations =>
      decide (¬ Telling .databases observations)
  | _ => true

theorem of_quiet (s : System) (e : Event) (h : quiet s e = true) :
    QuietRead .databases 3600 (hour 0) 2 s e := by
  cases e with
  | start now settings catalog =>
    exact of_decide_eq_true (p := Dated 3600 settings now ∧ settings.usageMaxWindowsPerPass ≤ 2) h
  | read i outside =>
    intro p w rest observations hi _ hwindows _ hread
    change (s.samplings[i]?).all _ = true at h
    rw [hi, Option.all_some, hwindows, Option.all_some, List.head?_cons, Option.all_some, hread,
      Option.all_some] at h
    exact of_decide_eq_true h
  | _ => trivial

end Sample

theorem position_stalls_two : ∃ s : System, s.recorded.length = 4 ∧
    lastRecordedWindow s.ledger.samples Source.databases.positionMetrics = some (Sample.hour 0) ∧
    ∀ r ∈ s.recorded, r.source = .databases → r.window ≤ Sample.hour 2 := by
  obtain ⟨s, hs, hfour⟩ := Sample.exists_run Sample.quiet Sample.of_quiet Sample.first
    Sample.twoPasses (fun s => decide (s.recorded.length = 4)) (by decide +kernel)
  obtain ⟨hposition, -, hrecorded⟩ :=
    position_stalls Sample.resting (by decide) Sample.onGrid Sample.position hs
  exact ⟨s, of_decide_eq_true hfour, hposition, hrecorded⟩

end Freepod.Usage.Sampler
