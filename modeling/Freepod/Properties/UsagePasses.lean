import Freepod.Properties.BuildUsage

/-!
# Recording a build's usage

Passes over the finished builds run at once, fail and die at any point.

* `recordSamples_fresh`: recording a build the ledger has no rows of appends all its rows.
* `Ledgered`: what holds of a system; `Ledgered.step` keeps it in every step.
* `usage_conserved`: a build's windows account for its run exactly where its start is floored, and
  in every run of the passes a build is recorded at most once, after every window of its run has
  settled, with all its windows.
-/

namespace Freepod.Usage

open Base

/-! ## the rows of a build -/

theorem metrics_nodup (b : Build) (wall o : ℚ) :
    ((quantitiesOf b wall o).map Prod.fst).Nodup := by
  unfold quantitiesOf
  cases measurement b with
  | none => simp
  | some m => simp

theorem pairwise_windowStart {lo hi step : Int} {windows : List WindowUsage}
    (h : Tiles lo (windows.map (WindowUsage.range step)) hi) :
    windows.Pairwise fun w w' => w.windowStart < w'.windowStart := by
  induction windows generalizing lo with
  | nil => exact List.Pairwise.nil
  | cons w windows ih =>
    obtain ⟨-, hlt, h⟩ := h
    refine List.pairwise_cons.mpr ⟨?_, ih h⟩
    intro w' hw'
    have hle := le_of_mem_tiles h (List.mem_map_of_mem hw')
    exact lt_of_lt_of_le hlt hle

/-- no two rows of a build have one key -/
theorem sampleRows_keys_nodup {b : Build} {settings : Settings} {now start finish step lo hi : Int}
    {windows : List WindowUsage} (h : Windowed b start finish step lo windows hi) :
    ((sampleRows b settings now windows).map SampleRow.key).Nodup := by
  unfold sampleRows
  rw [List.map_flatMap]
  refine List.nodup_flatMap.mpr ⟨?_, ?_⟩
  · intro w hw
    rw [List.map_map, h.share w hw]
    have hn := metrics_nodup b (seconds (finish - start))
      (seconds (overlap start finish step w.windowStart))
    refine List.Nodup.map_on ?_ (List.Nodup.of_map Prod.fst hn)
    intro q hq q' hq' he
    exact List.inj_on_of_nodup_map hn hq hq' (congrArg (fun k => k.2.1) he)
  · refine (pairwise_windowStart h.tiles).imp ?_
    intro w w' hlt
    show List.Disjoint _ _
    intro k hk hk'
    obtain ⟨r, hr, rfl⟩ := List.mem_map.mp hk
    obtain ⟨q, -, rfl⟩ := List.mem_map.mp hr
    obtain ⟨r', hr', he⟩ := List.mem_map.mp hk'
    obtain ⟨q', -, rfl⟩ := List.mem_map.mp hr'
    have : w'.windowStart = w.windowStart := congrArg (fun k => k.2.2) he
    omega

theorem foldl_insertSample {samples rows : List SampleRow}
    (hn : ((samples ++ rows).map SampleRow.key).Nodup) :
    rows.foldl insertSample samples = samples ++ rows := by
  induction rows generalizing samples with
  | nil => simp
  | cons r rows ih =>
    have hr : r.key ∉ samples.map SampleRow.key := by
      intro hmem
      rw [List.map_append, List.map_cons] at hn
      exact (List.nodup_append.mp hn).2.2 _ hmem _ List.mem_cons_self rfl
    rw [List.foldl_cons, insertSample, if_neg hr, ih]
    · simp
    · simpa using hn

theorem recordSamples_eq {catalog : List String} {samples rows samples' : List SampleRow}
    (h : recordSamples catalog samples rows = .ok samples') :
    samples' = rows.foldl insertSample samples := by
  unfold recordSamples at h
  split at h
  · exact (Except.ok.inj h).symm
  · cases h

theorem subject_sampleRows {b : Build} {settings : Settings} {now : Int}
    {windows : List WindowUsage} {r : SampleRow} (h : r ∈ sampleRows b settings now windows) :
    r.subject = b.id := by
  obtain ⟨w, -, hr⟩ := List.mem_flatMap.mp h
  obtain ⟨q, -, rfl⟩ := List.mem_map.mp hr
  rfl

/-- the windows of a build that has a run, as the loop returns them -/
theorem windowed_of_windowQuantities {b : Build} {W : Int} {windows : List WindowUsage} (hW : 0 < W)
    (h : windowQuantities b W = .ok windows) :
    windows = [] ∨ ∃ start finish lo hi, Windowed b start finish (W * second) lo windows hi := by
  unfold windowQuantities at h
  split at h
  · exact .inl (Except.ok.inj h).symm
  · rename_i start finish hrun
    split at h
    · exact .inl (Except.ok.inj h).symm
    · obtain ⟨lo, -, hloop⟩ := bind_eq_ok.mp h
      have hstep : 0 < W * second := Int.mul_pos hW (by decide)
      obtain ⟨hi, hw, -⟩ := windowed_of_ok hstep (windowCount_spec hstep lo) hloop
      exact .inr ⟨start, finish, lo, hi, hw⟩

/-- **all the rows or none**: a build without rows in the ledger gets all of them -/
theorem recordSamples_fresh {b : Build} {settings : Settings} {now : Int} {catalog : List String}
    {samples samples' : List SampleRow} {windows : List WindowUsage}
    (hW : 0 < settings.usageWindowSeconds)
    (hwindows : windowQuantities b settings.usageWindowSeconds = .ok windows)
    (hkeys : (samples.map SampleRow.key).Nodup) (hfresh : ∀ r ∈ samples, r.subject ≠ b.id)
    (h : recordSamples catalog samples (sampleRows b settings now windows) = .ok samples') :
    samples' = samples ++ sampleRows b settings now windows ∧
      (samples'.map SampleRow.key).Nodup := by
  have hrows : ((sampleRows b settings now windows).map SampleRow.key).Nodup := by
    obtain rfl | ⟨start, finish, lo, hi, hw⟩ := windowed_of_windowQuantities hW hwindows
    · exact List.nodup_nil
    · exact sampleRows_keys_nodup hw
  have hall : ((samples ++ sampleRows b settings now windows).map SampleRow.key).Nodup := by
    rw [List.map_append]
    refine List.nodup_append.mpr ⟨hkeys, hrows, ?_⟩
    intro k hk k' hk' he
    obtain ⟨r, hr, rfl⟩ := List.mem_map.mp hk
    obtain ⟨r', hr', rfl⟩ := List.mem_map.mp hk'
    have hs : r.subject = r'.subject := congrArg Prod.fst he
    exact hfresh r hr (hs.trans (subject_sampleRows hr'))
  have heq := (recordSamples_eq h).trans (foldl_insertSample hall)
  rw [heq]
  exact ⟨rfl, hall⟩

/-! ## when the windows of a run have settled -/

/-- every window of the grid that begins before the run has ended has closed, and settled since -/
def Settled (b : Build) (settings : Settings) (now : Int) : Prop :=
  ∀ start finish, runOf b = some (start, finish) →
    ∀ w, settings.usageWindowSeconds * second ∣ w → w < finish →
      w + settings.usageWindowSeconds * second + settings.usageSettleSeconds * second ≤ now

/-- the grid point a pass settles on is not after the moment it floors -/
def Floored (settings : Settings) (now : Int) : Prop :=
  0 < settings.usageWindowSeconds ∧
    gridPoint (now - settings.usageSettleSeconds * second) settings.usageWindowSeconds ≤
      now - settings.usageSettleSeconds * second

instance (settings : Settings) (now : Int) : Decidable (Floored settings now) :=
  inferInstanceAs (Decidable (_ ∧ _))

theorem le_greatest {b : Build} {start finish t : Int} (hrun : runOf b = some (start, finish))
    (hg : greatest b.finishedAt b.usageFinishedAt = some t) : finish ≤ t := by
  unfold runOf measurement at hrun
  split at hrun
  · rename_i cpu memory s f hm
    split at hm
    · rename_i hf
      cases hm
      cases hrun
      rw [hf] at hg
      cases hfin : b.finishedAt with
      | none =>
        rw [hfin] at hg
        exact (Option.some.inj hg).le
      | some u =>
        rw [hfin] at hg
        exact (le_max_right u _).trans (Option.some.inj hg).le
    · cases hm
  · split at hrun
    · rename_i hs hf
      cases hrun
      rw [hf] at hg
      cases hu : b.usageFinishedAt with
      | none =>
        rw [hu] at hg
        exact (Option.some.inj hg).le
      | some u =>
        rw [hu] at hg
        exact (le_max_left _ u).trans (Option.some.inj hg).le
    · cases hrun

/-- what `_next_pending` asks of a row -/
theorem pending_iff {settledBefore : Int} {b : Build} :
    pending settledBefore b = true ↔ (b.status = .succeeded ∨ b.status = .failed) ∧
      b.jobId.isSome = true ∧ b.usageRecordedAt = none ∧
      ∃ t, greatest b.finishedAt b.usageFinishedAt = some t ∧ t < settledBefore := by
  unfold pending
  cases greatest b.finishedAt b.usageFinishedAt <;> simp [and_assoc]

/-- **the later of the two ends before an aligned instant**: then every window of the run has ended
by that instant -/
theorem settled_of_pending {b : Build} {settings : Settings} {now : Int}
    (hf : Floored settings now)
    (h : pending (gridPoint (now - settings.usageSettleSeconds * second)
      settings.usageWindowSeconds) b = true) : Settled b settings now := by
  obtain ⟨-, -, -, t, ht, hlt⟩ := pending_iff.mp h
  intro start finish hrun w hw hfinish
  have hle := le_greatest hrun ht
  have hgrid := dvd_gridPoint (now - settings.usageSettleSeconds * second)
    settings.usageWindowSeconds
  have hstep := Int.le_of_dvd (by omega) (Int.dvd_sub hgrid hw)
  have := hf.2
  omega

/-! ## the ledger of a system -/

/-- a build recorded by `r`: a terminal build that started a job, after its windows had settled, and
with all its rows -/
def Recorded (s : System) (r : Record) : Prop :=
  ∃ b ∈ s.builds, b.id = r.build ∧ (b.status = .succeeded ∨ b.status = .failed) ∧
    b.jobId.isSome = true ∧ b.usageRecordedAt = some r.now ∧ Settled b r.settings r.now ∧
    ∃ windows, windowQuantities b r.settings.usageWindowSeconds = .ok windows ∧
      (s.samples.filter fun row => decide (row.subject = r.build)) =
        sampleRows b r.settings r.now windows

/-- what holds of a system in every run -/
structure Ledgered (s : System) : Prop where
  distinct : (s.builds.map Build.id).Nodup
  unique : s.locked.Nodup
  passes : ∀ p ∈ s.passes, Floored p.settings p.now ∧
    p.settledBefore = gridPoint (p.now - p.settings.usageSettleSeconds * second)
      p.settings.usageWindowSeconds
  held : ∀ p ∈ s.passes, ∀ id, p.holding = some id →
    ∃ b ∈ s.builds, b.id = id ∧ pending p.settledBefore b = true
  keys : (s.samples.map SampleRow.key).Nodup
  once : (s.records.map Record.build).Nodup
  recorded : ∀ r ∈ s.records, Recorded s r
  unmarked : ∀ b ∈ s.builds, b.usageRecordedAt = none → b.id ∉ s.records.map Record.build
  rows : ∀ row ∈ s.samples, row.subject ∈ s.records.map Record.build

theorem ledgered_empty : Ledgered .empty where
  distinct := List.nodup_nil
  unique := List.nodup_nil
  passes := fun _ h => nomatch h
  held := fun _ h => nomatch h
  keys := List.nodup_nil
  once := List.nodup_nil
  recorded := fun _ h => nomatch h
  unmarked := fun _ h => nomatch h
  rows := fun _ h => nomatch h

variable {s t : System}

/-- a record stands while its row and its samples do -/
theorem Recorded.frame {r : Record} (h : Recorded s r)
    (hb : ∀ b ∈ s.builds, b.id = r.build → (b.status = .succeeded ∨ b.status = .failed) →
      b ∈ t.builds)
    (hs : (t.samples.filter fun row => decide (row.subject = r.build)) =
      s.samples.filter fun row => decide (row.subject = r.build)) : Recorded t r := by
  obtain ⟨b, hmem, hid, hstatus, hjob, hmark, hsettled, windows, hw, hrows⟩ := h
  exact ⟨b, hb b hmem hid hstatus, hid, hstatus, hjob, hmark, hsettled, windows, hw, hs.trans hrows⟩

theorem exists_split {α : Type*} {l : List α} {i : Nat} {a : α} (h : l[i]? = some a) :
    ∃ l₁ l₂, l = l₁ ++ a :: l₂ ∧ ∀ a', l.set i a' = l₁ ++ a' :: l₂ := by
  induction l generalizing i with
  | nil => cases h
  | cons x l ih =>
    cases i with
    | zero =>
      rw [List.getElem?_cons_zero] at h
      cases h
      exact ⟨[], l, rfl, fun _ => rfl⟩
    | succ i =>
      obtain ⟨l₁, l₂, hl, hset⟩ := ih (by simpa using h)
      exact ⟨x :: l₁, l₂, by rw [hl]; rfl, fun a' => by rw [List.set_cons_succ, hset a']; rfl⟩

theorem locked_split {p : Pass} {l r : List Pass} (h : s.passes = l ++ p :: r) :
    s.locked = (l.filterMap Pass.holding) ++ p.holding.toList ++ r.filterMap Pass.holding := by
  unfold System.locked
  rw [h, List.filterMap_append, List.filterMap_cons]
  cases p.holding <;> simp

/-- what a pass has let go is locked no more -/
theorem notMem_locked_setPass (h : s.locked.Nodup) {i id : Nat} {p p' : Pass}
    (hi : s.passes[i]? = some p) (hold : p.holding = some id) (hn : p'.holding = none) :
    id ∉ (s.setPass i p').locked := by
  obtain ⟨l, r, hl, hset⟩ := exists_split hi
  rw [locked_split hl, hold, List.append_assoc] at h
  have hl' : (s.setPass i p').passes = l ++ p' :: r := hset p'
  rw [locked_split hl', hn, Option.toList_none, List.append_nil]
  exact (List.nodup_cons.mp (List.nodup_middle.mp h)).1

/-- a pass has changed what it holds and nothing else of the system: it lets its build go, or has
taken one that was not locked -/
theorem Ledgered.setPass (h : Ledgered s) {i : Nat} {p p' : Pass} (hi : s.passes[i]? = some p)
    (hnow : p'.now = p.now) (hsettings : p'.settings = p.settings)
    (hbefore : p'.settledBefore = p.settledBefore)
    (hhold : p'.holding = none ∨ (p.holding = none ∧ ∃ b ∈ s.builds, p'.holding = some b.id ∧
      b.id ∉ s.locked ∧ pending p.settledBefore b = true)) : Ledgered (s.setPass i p') := by
  obtain ⟨l, r, hl, hset⟩ := exists_split hi
  have hpasses : (s.setPass i p').passes = l ++ p' :: r := hset p'
  have hlocked := locked_split hl
  have hlocked' := locked_split hpasses
  have hmem : ∀ q ∈ (s.setPass i p').passes, q = p' ∨ q ∈ s.passes := by
    intro q hq
    rw [hpasses] at hq
    rw [hl]
    obtain hq | hq := List.mem_append.mp hq
    · exact .inr (List.mem_append_left _ hq)
    · obtain hq | hq := List.mem_cons.mp hq
      · exact .inl hq
      · exact .inr (List.mem_append_right _ (List.mem_cons_of_mem _ hq))
  have hp : p ∈ s.passes := by
    rw [hl]
    exact List.mem_append_right _ List.mem_cons_self
  refine { h with unique := ?_, passes := ?_, held := ?_ }
  · have hu := h.unique
    rw [hlocked] at hu
    rw [hlocked']
    obtain hnone | ⟨hnone, b, -, hsome, hfree, -⟩ := hhold
    · rw [hnone]
      refine hu.sublist ?_
      exact ((List.nil_sublist _).append_left _).append_right _
    · rw [hnone] at hu hlocked
      rw [hsome]
      simp only [Option.toList_none, List.append_nil, Option.toList_some] at hu hlocked ⊢
      rw [List.append_assoc, List.singleton_append]
      rw [hlocked] at hfree
      exact List.nodup_middle.mpr (List.nodup_cons.mpr ⟨hfree, hu⟩)
  · intro q hq
    obtain rfl | hq := hmem q hq
    · rw [hnow, hsettings, hbefore]
      exact h.passes p hp
    · exact h.passes q hq
  · intro q hq id hid
    obtain rfl | hq := hmem q hq
    · obtain hnone | ⟨-, b, hb, hsome, -, hpend⟩ := hhold
      · rw [hnone] at hid
        cases hid
      · rw [hsome] at hid
        rw [hbefore]
        exact ⟨b, hb, Option.some.inj hid, hpend⟩
    · exact h.held q hq id hid

theorem beginPass_eq_ok {now maxBuilds : _} {settings : Settings} {catalog : List String} {p : Pass}
    (h : beginPass now settings catalog maxBuilds = .ok p) :
    p.now = now ∧ p.settings = settings ∧ p.holding = none ∧
      p.settledBefore = gridPoint (now - settings.usageSettleSeconds * second)
        settings.usageWindowSeconds := by
  obtain ⟨moment, hm, h⟩ := bind_eq_ok.mp h
  obtain ⟨before, hb, h⟩ := bind_eq_ok.mp h
  cases h
  obtain ⟨-, rfl⟩ := checked_eq_ok.mp hm
  obtain ⟨-, rfl⟩ := checked_eq_ok.mp hb
  exact ⟨rfl, rfl, rfl, rfl⟩

theorem Ledgered.start (h : Ledgered s) {p : Pass} (hf : Floored p.settings p.now)
    (hb : p.settledBefore = gridPoint (p.now - p.settings.usageSettleSeconds * second)
      p.settings.usageWindowSeconds) (hn : p.holding = none) :
    Ledgered { s with passes := s.passes ++ [p] } := by
  refine { h with unique := ?_, passes := ?_, held := ?_ }
  · have hu := h.unique
    unfold System.locked at hu ⊢
    rw [List.filterMap_append, List.filterMap_cons, hn]
    simpa using hu
  · intro q hq
    obtain hq | hq := List.mem_append.mp hq
    · exact h.passes q hq
    · rw [List.mem_singleton.mp hq]
      exact ⟨hf, hb⟩
  · intro q hq id hid
    obtain hq | hq := List.mem_append.mp hq
    · exact h.held q hq id hid
    · rw [List.mem_singleton.mp hq, hn] at hid
      cases hid

/-! ## the rows of the build table -/

theorem mem_of_find {id : Nat} {b : Build} (h : s.find id = some b) : b ∈ s.builds ∧ b.id = id :=
  ⟨List.mem_of_find?_eq_some h, of_decide_eq_true (List.find?_some (p := fun b : Build =>
    decide (b.id = id)) h)⟩

/-- the row of a build -/
theorem Ledgered.eq_of_id (h : Ledgered s) {b b' : Build} (hb : b ∈ s.builds) (hb' : b' ∈ s.builds)
    (he : b.id = b'.id) : b = b' :=
  List.inj_on_of_nodup_map h.distinct hb hb' he

theorem mem_setBuild_of_ne {b b' : Build} (h : b' ∈ s.builds) (hne : b'.id ≠ b.id) :
    b' ∈ (s.setBuild b).builds := by
  refine List.mem_map.mpr ⟨b', h, ?_⟩
  rw [if_neg hne]

theorem mem_setBuild_self {b b' : Build} (h : b' ∈ s.builds) (he : b'.id = b.id) :
    b ∈ (s.setBuild b).builds := by
  refine List.mem_map.mpr ⟨b', h, ?_⟩
  rw [if_pos he]

theorem mem_setBuild {b b' : Build} (h : b' ∈ (s.setBuild b).builds) :
    b' = b ∨ (b' ∈ s.builds ∧ b'.id ≠ b.id) := by
  obtain ⟨b₀, hb₀, he⟩ := List.mem_map.mp h
  split at he
  · exact .inl he.symm
  · rename_i hne
    rw [← he]
    exact .inr ⟨hb₀, hne⟩

theorem ids_setBuild (b : Build) : (s.setBuild b).builds.map Build.id = s.builds.map Build.id := by
  unfold System.setBuild
  rw [List.map_map]
  apply List.map_congr_left
  intro b' _
  show (if b'.id = b.id then b else b').id = b'.id
  split
  · rename_i he
    exact he.symm
  · rfl

theorem Ledgered.create (h : Ledgered s) {b : Build} (hid : b.id ∉ s.builds.map Build.id) :
    Ledgered { s with builds := s.builds ++ [b] } := by
  refine { h with distinct := ?_, held := ?_, recorded := ?_, unmarked := ?_ }
  · rw [List.map_append]
    refine List.nodup_append.mpr ⟨h.distinct, List.nodup_singleton _, ?_⟩
    intro k hk k' hk' he
    rw [List.mem_singleton.mp hk'] at he
    exact hid (he ▸ hk)
  · intro p hp id hhold
    obtain ⟨b', hb', hrest⟩ := h.held p hp id hhold
    exact ⟨b', List.mem_append_left _ hb', hrest⟩
  · intro r hr
    exact (h.recorded r hr).frame (fun b' hb' _ _ => List.mem_append_left _ hb') rfl
  · intro b' hb' hnone
    obtain hb' | hb' := List.mem_append.mp hb'
    · exact h.unmarked b' hb' hnone
    · rw [List.mem_singleton.mp hb']
      intro hmem
      obtain ⟨r, hr, he⟩ := List.mem_map.mp hmem
      obtain ⟨b₀, hb₀, hid₀, -⟩ := h.recorded r hr
      exact hid (List.mem_map.mpr ⟨b₀, hb₀, hid₀.trans he⟩)

/-- a row that is not terminal is held by no pass and named by no record -/
theorem Ledgered.advance (h : Ledgered s) {old b : Build} (hold : old ∈ s.builds)
    (hid : old.id = b.id) (hstatus : ¬ (old.status = .succeeded ∨ old.status = .failed))
    (hmark : b.usageRecordedAt = old.usageRecordedAt) : Ledgered (s.setBuild b) := by
  have hstays : ∀ b' ∈ s.builds, (b'.status = .succeeded ∨ b'.status = .failed) →
      b' ∈ (s.setBuild b).builds := by
    intro b' hb' hterminal
    apply mem_setBuild_of_ne hb'
    intro he
    rw [h.eq_of_id hb' hold (he.trans hid.symm)] at hterminal
    exact hstatus hterminal
  refine { h with distinct := ?_, held := ?_, recorded := ?_, unmarked := ?_ }
  · rw [ids_setBuild]
    exact h.distinct
  · intro p hp id hhold
    obtain ⟨b', hb', hid', hpend⟩ := h.held p hp id hhold
    exact ⟨b', hstays b' hb' (pending_iff.mp hpend).1, hid', hpend⟩
  · intro r hr
    exact (h.recorded r hr).frame (fun b' hb' _ hterminal => hstays b' hb' hterminal) rfl
  · intro b' hb' hnone
    obtain rfl | ⟨hb', -⟩ := mem_setBuild hb'
    · rw [← hid]
      exact h.unmarked old hold (hmark ▸ hnone)
    · exact h.unmarked b' hb' hnone

/-! ## recording a build -/

theorem windowsFrom_congr {b b' : Build} (h : measurement b' = measurement b)
    (start finish step : Int) (n : Nat) (lo : Int) :
    windowsFrom b' start finish step n lo = windowsFrom b start finish step n lo := by
  have hq : ∀ wall o, quantitiesOf b' wall o = quantitiesOf b wall o := by
    intro wall o
    unfold quantitiesOf
    rw [h]
  induction n generalizing lo with
  | zero => rfl
  | succ n ih => simp only [windowsFrom, ih, hq]

/-- the mark is no part of the usage -/
theorem windowQuantities_mark (b : Build) (mark : Option Int) (W : Int) :
    windowQuantities { b with usageRecordedAt := mark } W = windowQuantities b W := by
  unfold windowQuantities
  rw [show runOf { b with usageRecordedAt := mark } = runOf b from rfl]
  have hm : measurement { b with usageRecordedAt := mark } = measurement b := rfl
  simp only [windowsFrom_congr hm]

theorem recordBuild_eq_ok {catalog : List String} {samples samples' : List SampleRow} {b b' : Build}
    {settings : Settings} {now : Int}
    (h : recordBuild catalog samples b settings now = .ok (b', samples')) :
    b' = { b with usageRecordedAt := some now } ∧
      ∃ windows, windowQuantities b settings.usageWindowSeconds = .ok windows ∧
        recordSamples catalog samples (sampleRows b settings now windows) = .ok samples' := by
  obtain ⟨windows, hw, h⟩ := bind_eq_ok.mp h
  obtain ⟨rows, hr, h⟩ := bind_eq_ok.mp h
  cases h
  exact ⟨rfl, windows, hw, hr⟩

/-- the system after the transaction of `record` -/
def recordedSystem (s : System) (b' : Build) (samples : List SampleRow) (r : Record) : System :=
  { s.setBuild b' with samples := samples, records := s.records ++ [r] }

theorem filter_append_of_subject {samples rows : List SampleRow} {id : Nat}
    (hs : ∀ row ∈ samples, row.subject ≠ id) (hr : ∀ row ∈ rows, row.subject = id) :
    ((samples ++ rows).filter fun row => decide (row.subject = id)) = rows := by
  rw [List.filter_append, List.filter_eq_nil_iff.mpr fun row h => by simp [hs row h],
    List.filter_eq_self.mpr fun row h => by simp [hr row h], List.nil_append]

/-- **one transaction**: the build is marked and all its rows are in the ledger -/
theorem Ledgered.record (h : Ledgered s) {b b' : Build} {settings : Settings} {now : Int}
    {catalog : List String} {samples : List SampleRow} (hb : b ∈ s.builds)
    (hfree : b.id ∉ s.locked) (hf : Floored settings now)
    (hpend : pending (gridPoint (now - settings.usageSettleSeconds * second)
      settings.usageWindowSeconds) b = true)
    (hrec : recordBuild catalog s.samples b settings now = .ok (b', samples)) :
    Ledgered (recordedSystem s b' samples ⟨b.id, now, settings⟩) := by
  obtain ⟨rfl, windows, hw, hsamples⟩ := recordBuild_eq_ok hrec
  obtain ⟨hstatus, hjob, hnone, -⟩ := pending_iff.mp hpend
  have hnew : b.id ∉ s.records.map Record.build := h.unmarked b hb hnone
  have hfresh : ∀ row ∈ s.samples, row.subject ≠ b.id := by
    intro row hrow he
    exact hnew (he ▸ h.rows row hrow)
  obtain ⟨heq, hkeys⟩ := recordSamples_fresh hf.1 hw h.keys hfresh hsamples
  have hrows : ∀ row ∈ sampleRows b settings now windows, row.subject = b.id :=
    fun _ hrow => subject_sampleRows hrow
  refine ⟨?_, h.unique, h.passes, ?_, hkeys, ?_, ?_, ?_, ?_⟩
  · show (s.setBuild _).builds.map Build.id |>.Nodup
    rw [ids_setBuild]
    exact h.distinct
  · intro p hp id hhold
    obtain ⟨b₀, hb₀, hid, hpend₀⟩ := h.held p hp id hhold
    refine ⟨b₀, mem_setBuild_of_ne hb₀ ?_, hid, hpend₀⟩
    -- the build of another pass
    intro he
    exact hfree (List.mem_filterMap.mpr ⟨p, hp, hhold.trans (congrArg some (hid.symm.trans he))⟩)
  · show ((s.records ++ [_]).map Record.build).Nodup
    rw [List.map_append]
    refine List.nodup_append.mpr ⟨h.once, List.nodup_singleton _, ?_⟩
    intro k hk k' hk' he
    have hk'' : k' = b.id := List.mem_singleton.mp hk'
    rw [hk''] at he
    exact hnew (he ▸ hk)
  · intro r hr
    obtain hr | hr := List.mem_append.mp hr
    · have hne : r.build ≠ b.id := fun he => hnew (he ▸ List.mem_map_of_mem hr)
      refine (h.recorded r hr).frame ?_ ?_
      · intro b₀ hb₀ hid _
        exact mem_setBuild_of_ne hb₀ fun he => hne (hid.symm.trans he)
      · show samples.filter _ = _
        have hnil : ((sampleRows b settings now windows).filter
            fun row => decide (row.subject = r.build)) = [] := by
          apply List.filter_eq_nil_iff.mpr
          intro row hrow
          simp [hrows row hrow, hne.symm]
        rw [heq, List.filter_append, hnil, List.append_nil]
    · rw [List.mem_singleton.mp hr]
      have hsettled : Settled b settings now := settled_of_pending hf hpend
      refine ⟨_, mem_setBuild_self hb rfl, rfl, hstatus, hjob, rfl, hsettled, windows,
        (windowQuantities_mark b _ _).trans hw, ?_⟩
      show samples.filter _ = _
      rw [heq]
      exact filter_append_of_subject hfresh hrows
  · intro b₀ hb₀ hmark
    obtain rfl | ⟨hb₀, hne⟩ := mem_setBuild hb₀
    · cases hmark
    · show b₀.id ∉ (s.records ++ [_]).map Record.build
      rw [List.map_append, List.mem_append, not_or]
      exact ⟨h.unmarked b₀ hb₀ hmark, fun he => hne (List.mem_singleton.mp he)⟩
  · intro row hrow
    show row.subject ∈ (s.records ++ [_]).map Record.build
    rw [List.map_append, List.mem_append]
    rw [show (recordedSystem s _ samples _).samples = samples from rfl, heq] at hrow
    obtain hrow | hrow := List.mem_append.mp hrow
    · exact .inl (h.rows row hrow)
    · exact .inr (List.mem_singleton.mpr (hrows row hrow))

/-! ## the runs -/

/-- every pass of a run settles on a floored moment -/
def FlooredStart (_ : System) : Event → Prop
  | .start now settings _ _ => Floored settings now
  | _ => True

theorem Ledgered.take (h : Ledgered s) {i id : Nat} (ht : s.take i id = some t) : Ledgered t := by
  obtain ⟨p, hi, ht⟩ := Option.bind_eq_some_iff.mp ht
  obtain ⟨b, hb, ht⟩ := Option.bind_eq_some_iff.mp ht
  split at ht
  · rename_i hc
    cases ht
    have hid : b.id = id :=
      of_decide_eq_true (List.find?_some (p := fun b : Build => decide (b.id = id)) hb)
    obtain ⟨hmem, hpend⟩ := List.mem_filter.mp (List.mem_of_find?_eq_some hb)
    simp only [Bool.and_eq_true, decide_eq_true_eq] at hpend
    refine h.setPass hi rfl rfl rfl (.inr ⟨hc.2.1, b, hmem, ?_, hpend.1.2, hpend.1.1⟩)
    rw [hid]
  · cases ht

theorem Ledgered.recordStep (h : Ledgered s) {i : Nat} (ht : s.record i = some t) : Ledgered t := by
  obtain ⟨p, hi, ht⟩ := Option.bind_eq_some_iff.mp ht
  obtain ⟨id, hold, ht⟩ := Option.bind_eq_some_iff.mp ht
  obtain ⟨b, hfind, ht⟩ := Option.bind_eq_some_iff.mp ht
  split at ht
  · cases ht
  · rename_i b' samples hrec
    cases ht
    obtain ⟨hb, hid⟩ := mem_of_find hfind
    have hp : p ∈ s.passes := List.mem_of_getElem? hi
    obtain ⟨hf, hbefore⟩ := h.passes p hp
    obtain ⟨b₀, hb₀, hid₀, hpend⟩ := h.held p hp id hold
    rw [h.eq_of_id hb₀ hb (hid₀.trans hid.symm), hbefore] at hpend
    have hfree : id ∉ (s.setPass i { p with left := p.left - 1, holding := none }).locked :=
      notMem_locked_setPass h.unique hi hold rfl
    have hset : Ledgered (s.setPass i { p with left := p.left - 1, holding := none }) :=
      h.setPass hi rfl rfl rfl (.inl rfl)
    rw [← hid] at hfree ⊢
    exact hset.record hb hfree hf hpend hrec

/-- **one step** -/
theorem Ledgered.step (h : Ledgered s) {e : Event} (hok : FlooredStart s e)
    (ht : System.machine.step s e = some t) : Ledgered t := by
  change s.step e = some t at ht
  cases e with
  | start now settings catalog maxBuilds =>
    simp only [System.step] at ht
    split at ht
    · cases ht
    · rename_i p hp
      cases ht
      obtain ⟨hnow, hsettings, hnone, hbefore⟩ := beginPass_eq_ok hp
      rw [← hnow, ← hsettings] at hbefore
      refine h.start ?_ hbefore hnone
      rw [hnow, hsettings]
      exact hok
  | take i id => exact h.take ht
  | record i => exact h.recordStep ht
  | fail i =>
    obtain ⟨p, hi, ht⟩ := Option.bind_eq_some_iff.mp ht
    obtain ⟨id, -, ht⟩ := Option.bind_eq_some_iff.mp ht
    cases ht
    exact h.setPass hi rfl rfl rfl (.inl rfl)
  | leave i =>
    obtain ⟨p, hi, ht⟩ := Option.bind_eq_some_iff.mp ht
    cases ht
    exact h.setPass hi rfl rfl rfl (.inl rfl)
  | create b =>
    simp only [System.step, System.create] at ht
    split at ht
    · rename_i hc
      cases ht
      exact h.create hc.1
    · cases ht
  | advance b =>
    obtain ⟨old, hfind, ht⟩ := Option.bind_eq_some_iff.mp ht
    obtain ⟨hold, hid⟩ := mem_of_find hfind
    split at ht
    · rename_i hstatus
      split at ht
      · rename_i hmark
        cases ht
        refine h.advance hold hid ?_ hmark
        obtain hq | hq := hstatus <;> rw [hq] <;> simp
      · cases ht
    · cases ht

/-- every run -/
theorem ledgered_of_reach (h : System.machine.Reach FlooredStart .empty s) : Ledgered s :=
  h.invariant ledgered_empty fun _ _ _ hs hok ht => hs.step hok ht

/-- **a build's usage is conserved by windowing**.  Its windows account for its run exactly where
`align` floors its start to a date, which it does for every start from 1970 on to the year 2514.
And in every run of passes that settle on a floored moment, however they interleave, fail and die: a
build is recorded at most once, a terminal build that started a job, once every window its run
touches has settled; and the ledger has all the rows of a recorded build and none of another. -/
theorem usage_conserved (b : Build) (W start finish moment : Int) (s : System) :
    (runOf b = some (start, finish) → start < finish → 0 < W →
      (Conserved b W start finish ↔ Fits start finish W)) ∧
    (0 < W → 0 ≤ moment → moment < 2 ^ 34 * second → gridPoint moment W ≤ moment) ∧
    (System.machine.Reach FlooredStart .empty s →
      (s.records.map Record.build).Nodup ∧ (∀ r ∈ s.records, Recorded s r) ∧
      ∀ row ∈ s.samples, row.subject ∈ s.records.map Record.build) := by
  refine ⟨fun hrun hlt hW => conserved_iff hrun hlt hW,
    fun hW h0 h => gridPoint_le hW h0 h, ?_⟩
  intro hs
  have h := ledgered_of_reach hs
  exact ⟨h.once, h.recorded, h.rows⟩

/-- a build that ran over an hour's end: two minutes, and 400 CPU seconds -/
def sampleBuild : Build :=
  ⟨1, .succeeded, some "build-x", some 0, some (3665 * second), some 400, some (2 ^ 30),
    some (3540 * second), some (3660 * second), none⟩

/-- recorded by the second of two passes, after the first has failed -/
def samplePasses : List Event :=
  [.create sampleBuild, .start (7500 * second) ⟨3600, 300⟩ [] 100, .take 0 1, .fail 0,
    .start (7500 * second) ⟨3600, 300⟩
      ["cpu_request_cores_avg", "cpu_limit_cores_avg", "ram_request_bytes_avg",
        "ram_limit_bytes_avg", "running_seconds", "cpu_core_hours", "ram_byte_hours",
        "cpu_usage_cores_avg", "ram_usage_bytes_avg"] 100,
    .take 1 1, .record 1]

theorem usage_conserved_sample :
    Conserved sampleBuild 3600 (3540 * second) (3660 * second) ∧
    gridPoint (3540 * second) 3600 ≤ 3540 * second ∧
    ∃ s, s.records.length = 1 ∧ s.samples.length = 18 ∧
      (s.records.map Record.build).Nodup ∧ (∀ r ∈ s.records, Recorded s r) := by
  refine ⟨?_, ?_, ?_⟩
  · obtain ⟨hiff, -, -⟩ := usage_conserved sampleBuild 3600 (3540 * second) (3660 * second) 0 .empty
    refine (hiff rfl (by decide) (by decide)).mpr ⟨?_, ?_, 2, ?_, ?_⟩
    all_goals decide +kernel
  · obtain ⟨-, hfloor, -⟩ := usage_conserved sampleBuild 3600 0 0 (3540 * second) .empty
    exact hfloor (by decide) (by decide) (by decide)
  · obtain ⟨s, hreach, -, hs⟩ := Machine.exists_reach_of_runIf (M := System.machine)
      (P := fun _ => True) (k := FlooredStart)
      (c := fun _ e => match e with
        | .start now settings _ _ => decide (Floored settings now)
        | _ => true)
      (p := fun s => decide (s.records.length = 1 ∧ s.samples.length = 18))
      (l := samplePasses) (s := .empty) (fun _ _ _ _ _ _ => trivial)
      (by
        intro s e _ he
        cases e with
        | start now settings catalog maxBuilds =>
          exact of_decide_eq_true (p := Floored settings now) he
        | _ => trivial)
      trivial (by decide +kernel)
    obtain ⟨hone, hlen⟩ := of_decide_eq_true hs
    obtain ⟨-, -, hrun⟩ := usage_conserved sampleBuild 3600 0 0 0 s
    obtain ⟨honce, hrecorded, -⟩ := hrun hreach
    exact ⟨s, hone, hlen, honce, hrecorded⟩

/-- a run from half a second before 1970 to half a second after it: the start is cut off toward
zero, so the first window begins after it and half of the run is in none -/
theorem unfloored_start :
    ∃ b start finish, runOf b = some (start, finish) ∧ start < finish ∧
      ¬ Conserved b 3600 start finish := by
  refine ⟨{ sampleBuild with usageStartedAt := some (-500000), usageFinishedAt := some 500000 },
    -500000, 500000, rfl, by decide, ?_⟩
  intro h
  have hfits := (conserved_iff rfl (by decide) (by decide)).mp h
  exact absurd hfits.floored (by decide +kernel)

end Freepod.Usage
