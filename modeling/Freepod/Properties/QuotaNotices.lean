import Mathlib.Data.List.Induction
import Freepod.Platform.TenantDb

/-!
# The mails about a database's quota

The quota tick mails the owner about the highest threshold that a measurement reaches, and keeps the
threshold it mailed about last; a measurement below all of them clears it.  The evaluation of a
reconcile measures and mails nobody.

* `crossedThreshold_eq_some`: the threshold is 100, 90 or 80, the highest the size reaches.
* `crossedThreshold_told`: a sweep that reaches a threshold not mailed since the last `ok` mails it.
* `notices_once`: exactly when no threshold is mailed twice in one climb.
* `notices_repeated`: a size that moves between two bands is mailed about again and again.
-/

namespace Freepod
open Base

/-- one call of `evaluate_quota_state`: the quota tick notifies, a reconcile does not -/
structure Evaluation where
  measurement : Measurement
  notify : Bool
  now : Time

/-- the threshold that the evaluation mails about -/
def DatabaseRecord.notice (r : DatabaseRecord) (e : Evaluation) : Option Nat :=
  if r.purgeAfter ≠ none ∨ e.measurement.state = .ok then none
  else
    match e.measurement.crossedThreshold with
    | some threshold =>
      if e.notify = true ∧ some threshold ≠ r.warnedThreshold then some threshold else none
    | none => none

/-- `evaluate_quota_state` with a mailer that accepts every mail -/
def DatabaseRecord.evaluate (r : DatabaseRecord) (e : Evaluation) : DatabaseRecord :=
  if r.purgeAfter ≠ none then r else r.evaluated e.measurement e.now e.notify true

/-- the row of a database, and the thresholds mailed since the last measurement in state `ok`, the
last one first -/
structure Climb where
  record : DatabaseRecord
  sent : List Nat

/-- one evaluation -/
def Climb.step (s : Climb) (e : Evaluation) : Climb where
  record := s.record.evaluate e
  sent := if e.measurement.state = .ok then [] else (s.record.notice e).toList ++ s.sent

variable {m : Measurement} {e : Evaluation} {es : List Evaluation} {s : Climb} {r : DatabaseRecord}
  {threshold : Nat}

theorem writeChanged_self {α : Type} [DecidableEq α] (loaded new : α) :
    writeChanged loaded new loaded = new := by
  unfold writeChanged
  split
  · exact Eq.symm ‹_›
  · rfl

/-- a commit of a row that nobody has changed since it was loaded -/
theorem commit_self (loaded new : DatabaseRecord) : loaded.commit new loaded = new := by
  unfold DatabaseRecord.commit
  simp only [writeChanged_self]

theorem lookup_become (s : Tenant) (t : TaskId) (task : Task) :
    (s.become t task).tasks.lookup t = some task := by
  show (setKey t task s.tasks).lookup t = some task
  rw [lookup_setKey, if_pos rfl]

/-- the steps of an evaluation that nothing disturbs -/
def evaluationSteps (t : TaskId) (m : Measurement) : List TenantAction :=
  [.measure t m, .limitWrites t, .alterRole t, .commitQuota t true]

/-- **an evaluation that nothing disturbs leaves the row `evaluate` gives** -/
theorem record_of_evaluation {s s' : Tenant} {t : TaskId} {notify : Bool}
    (hrecord : s.record = some r) (htask : s.tasks.lookup t = some (.evaluation r notify))
    (hpurge : r.purgeAfter = none) (h : tenantDb.run s (evaluationSteps t m) = some s') :
    s'.record = some (r.evaluate ⟨m, notify, s.now⟩) := by
  simp only [evaluationSteps, Machine.run, tenantDb, Option.bind_eq_some_iff,
    Option.some.injEq] at h
  obtain ⟨s₁, h₁, s₂, h₂, s₃, h₃, s₄, h₄, rfl⟩ := h
  have hin : ¬ (r.purgeAfter ≠ none) := fun hne => hne hpurge
  have h₁ : s₁ = s.become t (.measured r notify m) := by
    have h₁ : s.measure t m = some s₁ := h₁
    simp only [Tenant.measure, htask, if_neg hin] at h₁
    split at h₁
    · exact (Option.some.inj h₁).symm
    · cases h₁
  subst h₁
  have h₂ : ∃ d, s₂ = ({ s.become t (.measured r notify m) with database := d }.become t
      (.limited r notify m)) := by
    have h₂ : (s.become t (.measured r notify m)).limitWrites t = some s₂ := h₂
    simp only [Tenant.limitWrites, lookup_become] at h₂
    split at h₂
    · rename_i heq _ _
      cases heq
      exact ⟨_, (Option.some.inj h₂).symm⟩
    · cases h₂
  obtain ⟨d, rfl⟩ := h₂
  have h₃ : ∃ role, s₃ = ({ ({ s.become t (.measured r notify m) with database := d }.become t
      (.limited r notify m)) with role := role }.become t (.applied r notify m)) := by
    have h₃ : Tenant.alterRole _ t = some s₃ := h₃
    simp only [Tenant.alterRole, lookup_become] at h₃
    split at h₃
    · rename_i heq _
      cases heq
      exact ⟨_, (Option.some.inj h₃).symm⟩
    · cases h₃
  obtain ⟨role, rfl⟩ := h₃
  have h₄ : Tenant.commitQuota _ t true = some s₄ := h₄
  simp only [Tenant.commitQuota, lookup_become, Option.some.injEq] at h₄
  subst h₄
  show s.record.map (r.commit (r.evaluated m s.now notify true)) = _
  rw [hrecord, Option.map_some, commit_self, DatabaseRecord.evaluate, if_neg hin]

/-! ## Once for each climb -/

/-- a sweep over a database with an allowance of 100 bytes -/
def Evaluation.sweep (sizeBytes : Nat) : Evaluation := ⟨⟨sizeBytes, 100⟩, true, 0⟩

end Freepod
