import Mathlib.Data.List.Sort
import Freepod.Platform.State

/-!
# The reconcile job queue

`services/jobs.py`: a job is enqueued in the transaction of the request that asks for it, claimed
under a lease, and completed only by the worker that still holds the lease.

* `enqueueJob_ok`, `claimNextJob_ok` and `completeJob_ok` say what each writes.
* `openJob_unique`: the partial unique index allows a deployment one open job.
-/

namespace Freepod
open Base

def ReconcileJob.isOpen (j : ReconcileJob) : Bool := j.status.isOpen

/-- `enqueue_job` -/
def enqueueJob (now : Time) (jobs : Table ReconcileJob) (deploymentId : DeploymentId)
    (reason : JobReason) : Except Refusal (Table ReconcileJob) :=
  found
    (jobs.insert?
      { id := jobs.nextKey
        deploymentId := deploymentId
        reason := reason
        status := .queued
        runAfter := now
        attempt := 0
        lockedBy := none
        lockedAt := none
        lastError := none
        updatedAt := now })
    (.inProgress "A deployment job is already queued or running")

/-- `_claimable_clause`: queued and due, or running under an expired lease -/
def ReconcileJob.claimable (now leaseCutoff : Time) (j : ReconcileJob) : Bool :=
  match j.status with
  | .queued => decide (j.runAfter ≤ now)
  | .running =>
    match j.lockedAt with
    | none => true
    | some lockedAt => decide (lockedAt < leaseCutoff)
  | _ => false

/-- `order_by(run_after, id)` -/
def ReconcileJob.before (a b : ReconcileJob) : Prop :=
  a.runAfter < b.runAfter ∨ (a.runAfter = b.runAfter ∧ a.id ≤ b.id)

instance : DecidableRel ReconcileJob.before := fun a b => by
  unfold ReconcileJob.before
  infer_instance

/-- the row `claim_next_job` selects; `skipped` are the rows other transactions have locked -/
def nextJob (cfg : Settings) (now : Time) (jobs : Table ReconcileJob) (skipped : List JobId) :
    Option ReconcileJob :=
  ((jobs.rows.filter fun j =>
      j.claimable now (now - cfg.reconcileJobLease) && !skipped.contains j.id).insertionSort
    ReconcileJob.before).head?

/-- the claimed row: leased to the worker, with the attempt counted when it was reclaimed -/
def ReconcileJob.claim (j : ReconcileJob) (now : Time) (worker : WorkerId) : ReconcileJob :=
  { j with
    status := .running
    lockedBy := some worker
    lockedAt := some now
    updatedAt := now
    attempt := if j.status = .running then j.attempt + 1 else j.attempt }

/-- `claim_next_job` -/
def claimNextJob (cfg : Settings) (now : Time) (jobs : Table ReconcileJob) (worker : WorkerId)
    (skipped : List JobId) : Option (ReconcileJob × Table ReconcileJob) := do
  let j ← nextJob cfg now jobs skipped
  let jobs ← jobs.put? (j.claim now worker)
  pure (j, jobs)

/-- the completed row -/
def ReconcileJob.complete (j : ReconcileJob) (now : Time) (status : JobStatus)
    (error : Option String) : ReconcileJob :=
  { j with
    status := status
    lastError := error
    lockedBy := none
    lockedAt := none
    updatedAt := now }

/-- `_complete_job` by a worker: conditional on the lease -/
def completeJob (now : Time) (jobs : Table ReconcileJob) (jobId : JobId) (status : JobStatus)
    (error : Option String) (worker : WorkerId) : Option (Table ReconcileJob) :=
  match jobs.get? jobId with
  | none => none
  | some j =>
    if j.lockedBy = some worker then jobs.put? (j.complete now status error) else some jobs

/-- some job of the deployment is queued or running -/
def hasOpenJob (jobs : Table ReconcileJob) (id : DeploymentId) : Prop :=
  ∃ j ∈ jobs.rows, j.isOpen = true ∧ j.deploymentId = id

instance (jobs : Table ReconcileJob) (id : DeploymentId) : Decidable (hasOpenJob jobs id) :=
  inferInstanceAs (Decidable (∃ j ∈ jobs.rows, j.isOpen = true ∧ j.deploymentId = id))

/-! ## What each operation writes -/

section
variable {now : Time} {jobs jobs' : Table ReconcileJob} {d : DeploymentId} {reason : JobReason}

theorem ReconcileJob.entries_of_open (j : ReconcileJob) (ho : j.isOpen = true) :
    Row.entries j = [j.deploymentId] :=
  if_pos (show j.status.isOpen = true from ho)

/-- **the partial unique index: one open job for each deployment** -/
theorem openJob_unique {j j' : ReconcileJob} (hj : j ∈ jobs.rows) (hj' : j' ∈ jobs.rows)
    (ho : j.isOpen = true) (ho' : j'.isOpen = true) (hd : j.deploymentId = j'.deploymentId) :
    j = j' := by
  refine Table.eq_of_entry (e := j.deploymentId) hj hj' ?_ ?_
  · rw [j.entries_of_open ho]
    exact List.mem_singleton.mpr rfl
  · rw [j'.entries_of_open ho', hd]
    exact List.mem_singleton.mpr rfl

/-- an accepted enqueue appends one queued, unlocked job to the deployment's closed ones -/
theorem enqueueJob_ok (h : enqueueJob now jobs d reason = .ok jobs') :
    ¬ hasOpenJob jobs d ∧
    ∃ j, jobs.insert? j = some jobs' ∧ j.deploymentId = d ∧ j.status = .queued ∧
      j.lockedBy = none ∧ j.id = jobs.nextKey := by
  have h := found_eq_ok.mp h
  refine ⟨?_, _, h, rfl, rfl, rfl, rfl⟩
  rintro ⟨j, hj, ho, hd⟩
  have hne := Table.get?_of_insert? h
  have := openJob_unique (Table.mem_insert? h |>.mpr (.inl hj))
    (Table.mem_insert? h |>.mpr (.inr rfl)) ho rfl hd
  rw [← this, Table.get?_of_mem hj] at hne
  cases hne

/-- `jobs'` is `jobs` with one queued job more for each deployment of `ids`, none of which had an
open one -/
structure Enqueued (jobs jobs' : Table ReconcileJob) (ids : DeploymentId → Prop) : Prop where
  kept : ∀ j ∈ jobs.rows, j ∈ jobs'.rows
  fresh : ∀ j ∈ jobs'.rows, j ∈ jobs.rows ∨
    (j.status = .queued ∧ j.lockedBy = none ∧ ids j.deploymentId)
  opened : ∀ id, ids id → ¬ hasOpenJob jobs id ∧ hasOpenJob jobs' id

theorem Enqueued.refl (jobs : Table ReconcileJob) : Enqueued jobs jobs fun _ => False where
  kept := fun _ h => h
  fresh := fun _ h => .inl h
  opened := fun _ h => h.elim

theorem enqueued_of_ok (h : enqueueJob now jobs d reason = .ok jobs') :
    Enqueued jobs jobs' (· = d) := by
  obtain ⟨hno, j, hi, hd, hs, hl, -⟩ := enqueueJob_ok h
  refine ⟨fun x hx => (Table.mem_insert? hi).mpr (.inl hx), fun x hx => ?_, ?_⟩
  · rcases (Table.mem_insert? hi).mp hx with hx | rfl
    · exact .inl hx
    · exact .inr ⟨hs, hl, hd⟩
  · rintro _ rfl
    refine ⟨hno, j, (Table.mem_insert? hi).mpr (.inr rfl), ?_, hd⟩
    rw [ReconcileJob.isOpen, hs]
    rfl

theorem Enqueued.hasOpenJob {ids : DeploymentId → Prop} (h : Enqueued jobs jobs' ids)
    {id : DeploymentId} (ho : hasOpenJob jobs id) : hasOpenJob jobs' id := by
  obtain ⟨j, hj, ho, hd⟩ := ho
  exact ⟨j, h.kept j hj, ho, hd⟩

theorem Enqueued.trans {jobs'' : Table ReconcileJob} {ids ids' : DeploymentId → Prop}
    (h : Enqueued jobs jobs' ids) (h' : Enqueued jobs' jobs'' ids') :
    Enqueued jobs jobs'' fun id => ids id ∨ ids' id where
  kept := fun j hj => h'.kept j (h.kept j hj)
  fresh := fun j hj => by
    rcases h'.fresh j hj with hj | ⟨hs, hl, hd⟩
    · rcases h.fresh j hj with hj | ⟨hs, hl, hd⟩
      · exact .inl hj
      · exact .inr ⟨hs, hl, .inl hd⟩
    · exact .inr ⟨hs, hl, .inr hd⟩
  opened := fun id hid => by
    rcases hid with hid | hid
    · exact ⟨(h.opened id hid).1, h'.hasOpenJob (h.opened id hid).2⟩
    · exact ⟨fun ho => (h'.opened id hid).1 (h.hasOpenJob ho), (h'.opened id hid).2⟩

theorem Enqueued.congr {ids ids' : DeploymentId → Prop} (h : Enqueued jobs jobs' ids)
    (hids : ∀ id, ids id ↔ ids' id) : Enqueued jobs jobs' ids' := by
  have : ids = ids' := funext fun id => propext (hids id)
  exact this ▸ h

/-- an open job after an enqueue was open before it or is the one enqueued -/
theorem Enqueued.hasOpenJob_cases {ids : DeploymentId → Prop} (h : Enqueued jobs jobs' ids)
    {id : DeploymentId} (ho : Freepod.hasOpenJob jobs' id) : Freepod.hasOpenJob jobs id ∨ ids id := by
  obtain ⟨j, hj, ho, rfl⟩ := ho
  rcases h.fresh j hj with hj | ⟨-, -, hd⟩
  · exact .inl ⟨j, hj, ho, rfl⟩
  · exact .inr hd

theorem nextJob_mem {cfg : Settings} {skipped : List JobId} {j : ReconcileJob}
    (h : nextJob cfg now jobs skipped = some j) :
    j ∈ jobs.rows ∧ j.claimable now (now - cfg.reconcileJobLease) = true := by
  have hm := List.mem_of_mem_head? h
  rw [List.mem_insertionSort, List.mem_filter, Bool.and_eq_true] at hm
  exact ⟨hm.1, hm.2.1⟩

theorem ReconcileJob.isOpen_of_claimable {j : ReconcileJob} {t : Time}
    (h : j.claimable now t = true) : j.isOpen = true := by
  unfold ReconcileJob.claimable at h
  unfold ReconcileJob.isOpen
  cases hs : j.status with
  | queued => rfl
  | running => rfl
  | done => rw [hs] at h; cases h
  | failed => rw [hs] at h; cases h

/-- a claim leases an open job of the table to the worker -/
theorem claimNextJob_ok {cfg : Settings} {w : WorkerId} {skipped : List JobId} {j : ReconcileJob}
    (h : claimNextJob cfg now jobs w skipped = some (j, jobs')) :
    j ∈ jobs.rows ∧ j.isOpen = true ∧ j.claimable now (now - cfg.reconcileJobLease) = true ∧
      jobs.put? (j.claim now w) = some jobs' := by
  obtain ⟨j', hn, h⟩ := Option.bind_eq_some_iff.mp h
  obtain ⟨jobs'', hp, h⟩ := Option.bind_eq_some_iff.mp h
  cases h
  obtain ⟨hm, hc⟩ := nextJob_mem hn
  exact ⟨hm, ReconcileJob.isOpen_of_claimable hc, hc, hp⟩

/-- a completion writes the row the worker still holds, and nothing otherwise -/
theorem completeJob_ok {id : JobId} {status : JobStatus} {error : Option String} {w : WorkerId}
    (h : completeJob now jobs id status error w = some jobs') :
    ∃ j, jobs.get? id = some j ∧
      (j.lockedBy = some w ∧ jobs.put? (j.complete now status error) = some jobs' ∨
        j.lockedBy ≠ some w ∧ jobs' = jobs) := by
  unfold completeJob at h
  cases hg : jobs.get? id with
  | none =>
    rw [hg] at h
    cases h
  | some j =>
    rw [hg] at h
    refine ⟨j, rfl, ?_⟩
    by_cases hl : j.lockedBy = some w
    · exact .inl ⟨hl, by simpa only [hl, if_true] using h⟩
    · simp only [hl, if_false, Option.some.injEq] at h
      exact .inr ⟨hl, h.symm⟩

end

end Freepod
