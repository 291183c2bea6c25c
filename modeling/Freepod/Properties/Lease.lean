import Freepod.Runs.Orderly

/-!
# A worker that lost its lease

The completion of a job is conditional on the lease, the commit of a reconcile's outcome is not.

* `lostLease_writes_nothing`: in orderly runs a worker whose job is no longer leased to it writes
  nothing.
* `lostLease_overwrites`: once a job is taken from a live worker, that worker can still overwrite
  what the new holder recorded.
-/

namespace Freepod
open Base

variable {cfg : Settings} {s t : State} {a : Action} {w : WorkerId}

/-- the worker is on a job that is leased to it no more -/
def LostLease (s : State) (w : WorkerId) : Prop :=
  ∃ turn j, s.workers w = some turn ∧ s.jobs.get? turn.job = some j ∧ j.lockedBy ≠ some w

instance (s : State) (w : WorkerId) : Decidable (LostLease s w) :=
  decidable_of_iff ((s.workers w).any fun turn : Turn => (s.jobs.get? turn.job).any
    fun j : ReconcileJob => decide (j.lockedBy ≠ some w)) (by
      simp only [LostLease, Option.any_eq_true, decide_eq_true_eq]
      constructor
      · rintro ⟨turn, hw, j, hj, hl⟩
        exact ⟨turn, j, hw, hj, hl⟩
      · rintro ⟨turn, j, hw, hj, hl⟩
        exact ⟨turn, hw, j, hj, hl⟩)

/-- the jobs, the deployments, the two ledgers and the cluster are as they were -/
structure SameLedgers (s t : State) : Prop where
  jobs : t.jobs = s.jobs
  deployments : t.deployments = s.deployments
  releases : t.releases = s.releases
  powers : t.powers = s.powers
  cluster : t.cluster = s.cluster

/-- before its commit a worker holds its lease -/
theorem Ordered.recorded_of_lostLease (ho : Ordered s) (hl : LostLease s w) :
    ∃ turn result, s.workers w = some turn ∧ turn.stage = .recorded result := by
  obtain ⟨turn, j, hw, hj, hlost⟩ := hl
  cases hstage : turn.stage with
  | recorded result => exact ⟨turn, result, hw, hstage⟩
  | _ =>
    obtain ⟨j', hj', -, hl⟩ := (ho.turns w turn hw (by rw [hstage]; rfl)).lease
    rw [hj] at hj'
    cases hj'
    exact absurd hl hlost

/-- **a worker that lost its lease writes nothing** in orderly runs -/
theorem lostLease_writes_nothing (hs : (platform cfg).Reach (orderly cfg) .init s)
    (hl : LostLease s w) (ha : a.worker = some w) (h : step cfg s a = some t) :
    SameLedgers s t := by
  have ho := ordered_of_reach ordered_init (fun _ _ h => h) hs
  obtain ⟨⟨job, id, stage⟩, result, hw, rfl⟩ := ho.recorded_of_lostLease hl
  -- the outcome is recorded, so the worker can complete the job or die
  cases a with
  | claimJob w skipped =>
    cases ha
    obtain ⟨hidle, -⟩ := claimJob_ok h
    rw [hw] at hidle
    cases hidle
  | claimRelease w =>
    cases ha
    obtain ⟨_, _, _, _, _, hw', -⟩ := claimRelease_ok h
    rw [hw] at hw'
    cases hw'
  | claimPower w x =>
    cases ha
    obtain ⟨_, _, _, _, _, _, _, _, hw', -⟩ := claimPower_ok h
    rw [hw] at hw'
    cases hw'
  | applyRelease w x =>
    cases ha
    obtain ⟨_, _, _, _, _, _, _, _, hw', -⟩ := applyRelease_ok h
    rw [hw] at hw'
    cases hw'
  | recordOutcome w =>
    cases ha
    obtain ⟨_, _, _, _, _, _, _, _, _, _, hw', -⟩ := recordOutcome_ok h
    rw [hw] at hw'
    cases hw'
  | markJob w =>
    cases ha
    obtain ⟨job', id', result', status, error, jobs, hw', -, -, hdone, rfl⟩ := markJob_ok h
    rw [hw] at hw'
    cases hw'
    obtain ⟨turn, j, hturn, hj, hlost⟩ := hl
    rw [hw] at hturn
    cases hturn
    obtain ⟨j', hj', ⟨hlock, -⟩ | ⟨-, rfl⟩⟩ := completeJob_ok hdone
    · rw [hj] at hj'
      cases hj'
      exact absurd hlock hlost
    · exact ⟨rfl, rfl, rfl, rfl, rfl⟩
  | crash w =>
    rw [crash_ok h]
    exact ⟨rfl, rfl, rfl, rfl, rfl⟩
  | _ => cases ha

/-- a pass that outlives its lease, over the pass of the worker that reclaimed the job -/
def lateRun : List Action :=
  [.create .sample (.sample .null none), .claimJob "w1" [], .claimRelease "w1",
    .claimPower "w1" .clean, .tick 601] ++ Action.turn "w2" .clean ++
    [.applyRelease "w1" (.raising .helmUpgradeInstall)]

theorem lostLease_overwrites :
    ¬ ∀ s t w a, (platform .sample).Reach (fun _ _ => True) .init s → LostLease s w →
      a.worker = some w → step .sample s a = some t → SameLedgers s t := by
  intro hall
  obtain ⟨s, hs, hp⟩ := Machine.exists_reach_of_run (M := platform .sample) (s := .init)
    (l := lateRun) (p := fun s : State => decide (LostLease s "w1" ∧ s.status 1 = some .ready) &&
      (step .sample s (.recordOutcome "w1")).any fun t : State =>
        decide (t.status 1 = some .error)) (by decide)
  simp only [Bool.and_eq_true, Option.any_eq_true, decide_eq_true_eq] at hp
  obtain ⟨⟨hl, hready⟩, t, ht, herror⟩ := hp
  have hsame := hall s t "w1" (.recordOutcome "w1") hs hl rfl ht
  rw [State.status, hsame.deployments, ← State.status, hready] at herror
  cases herror

/-- a worker that dawdles after its commit completes a job that another has reclaimed -/
theorem lostLease_writes_nothing_late : ∃ s t, LostLease s "w1" ∧
    step .sample s (.markJob "w1") = some t ∧ SameLedgers s t := by
  obtain ⟨s, hs, -, hp⟩ := exists_orderly_of_runIf .sample
    (c := fun _ _ => true) (k := fun _ _ => True) (fun _ _ _ => trivial)
    (l := .create .sample (.sample .null none) :: Action.reconcile "w1" .clean ++
      [.tick 601, .claimJob "w2" []]) (p := fun s : State =>
      decide (LostLease s "w1") && (step .sample s (.markJob "w1")).isSome) (onlyAmong_init ["w1", "w2"])
    (by decide)
  simp only [Bool.and_eq_true, decide_eq_true_eq, Option.isSome_iff_exists] at hp
  obtain ⟨hl, t, ht⟩ := hp
  exact ⟨s, t, hl, ht, lostLease_writes_nothing (hs.mono fun _ _ h => h.1) hl rfl ht⟩

end Freepod
