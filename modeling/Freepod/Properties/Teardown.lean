import Freepod.Platform.TenantDb

/-!
# A teardown is not undone

The sweep and the reconcile look at `purge_after` before they measure, and give the role its login
afterwards; the teardown takes the login before it records `purge_after`.

* `Ordered`: a teardown takes the login when nobody is about to give it, and none that missed it
  begins behind.
* `Goes`, `task_of_step`: where a step takes its task.
* `teardown_holds`: in an ordered run a role whose teardown has returned cannot log in until the
  purge.
* `teardown_undone`: a sweep that read the row first undoes the teardown.
-/

namespace Freepod
open Base

variable {s s' : Tenant} {a : TenantAction}

namespace Task

/-- the teardown has taken the login, or found no role to take it from -/
def pastRevocation : Task → Bool
  | .revoked _ | .terminated _ => true
  | _ => false

/-- a provisioning that is to make the role -/
def provisions : Task → Bool
  | .provisioning _ => true
  | _ => false

/-- the task is about to make or alter the role: past its look at `purge_after`, or provisioning -/
def alters : Task → Bool
  | .measured _ _ _ | .limited _ _ _ => true
  | k => k.provisions

/-- `purge_database`, past its check of the grace period -/
def purges : Task → Bool
  | .purge | .databaseDropped | .roleDropped => true
  | _ => false

/-- a purge that has dropped the role, and not yet the row -/
def hasDropped : Task → Bool
  | .roleDropped => true
  | _ => false

end Task

namespace Tenant

/-- the tasks have one of a kind -/
def Has (s : Tenant) (kind : Task → Bool) : Prop := ∃ e ∈ s.tasks, kind e.2 = true

instance (s : Tenant) (kind : Task → Bool) : Decidable (s.Has kind) :=
  inferInstanceAs (Decidable (∃ e ∈ s.tasks, kind e.2 = true))

/-- a teardown has taken the login: it has returned, has recorded the purge or is about to -/
def Revoked (s : Tenant) : Prop :=
  s.tornDown = true ∨ s.record.any (fun r => r.purgeAfter.isSome) = true ∨
    s.Has Task.pastRevocation

instance (s : Tenant) : Decidable s.Revoked := inferInstanceAs (Decidable (_ ∨ _ ∨ _))

/-- the statement with which a teardown takes the login, or passes over a role or a row that is not
there -/
def takesLogin (s : Tenant) : TenantAction → Bool
  | .revokeLogin _ => true
  | .findRole _ => s.role.isNone
  | .teardown _ => s.record.isNone
  | _ => false

/-- the task is to measure, with a row loaded before `purge_after` was committed -/
def stale (s : Tenant) (t : TaskId) : Bool :=
  match s.tasks.lookup t with
  | some (.evaluation r _) => r.purgeAfter.isNone
  | _ => false

/-- the step begins what a teardown or a purge would have kept from the role: an evaluation with such
a row, or a provisioning -/
def unaware (s : Tenant) : TenantAction → Bool
  | .measure t _ => s.stale t
  | .ensure _ => true
  | _ => false

/-- a teardown takes the login while no task is about to alter the role, and until the purge has ended
none begins that does not know of it -/
structure Ordered (s : Tenant) (a : TenantAction) : Prop where
  waits : s.takesLogin a = true → ¬ s.Has Task.alters
  knows : s.Revoked ∨ s.Has Task.purges → s.unaware a = false

end Tenant

/-! ## What one step does -/

namespace Tenant

/-- where a step takes its task -/
inductive Goes (s : Tenant) : TenantAction → Task → Prop
  | readRecord {t : TaskId} (r : DatabaseRecord) : Goes s (.readRecord t) (.evaluation r true)
  | refresh {t : TaskId} (r : DatabaseRecord) (notify : Bool) :
      Goes s (.refresh t) (.evaluation r notify)
  | measure {t : TaskId} (r : DatabaseRecord) (notify : Bool) (m : Measurement)
      (stale : s.stale t = true) : Goes s (.measure t m) (.measured r notify m)
  | limitWrites {t : TaskId} (r : DatabaseRecord) (notify : Bool) (m : Measurement)
      (old : s.Has Task.alters) : Goes s (.limitWrites t) (.limited r notify m)
  | alterRole {t : TaskId} (r : DatabaseRecord) (notify : Bool) (m : Measurement) :
      Goes s (.alterRole t) (.applied r notify m)
  | ensure {t : TaskId} (r : DatabaseRecord) : Goes s (.ensure t) (.provisioning r)
  | createRole {t : TaskId} (r : DatabaseRecord) : Goes s (.createRole t) (.roleReady r)
  | createDatabase {t : TaskId} (r : DatabaseRecord) :
      Goes s (.createDatabase t) (.evaluation r false)
  | teardown {t : TaskId} (r : DatabaseRecord) : Goes s (.teardown t) (.teardown r)
  | roleFound {t : TaskId} (r : DatabaseRecord) : Goes s (.findRole t) (.roleFound r)
  | noRole {t : TaskId} (r : DatabaseRecord) (none : s.role.isNone = true) :
      Goes s (.findRole t) (.terminated r)
  | revokeLogin {t : TaskId} (r : DatabaseRecord) : Goes s (.revokeLogin t) (.revoked r)
  | terminate {t : TaskId} (r : DatabaseRecord) (old : s.Has Task.pastRevocation) :
      Goes s (.terminate t) (.terminated r)
  | purge {t : TaskId} (due : s.record.any (fun r => r.purgeAfter.isSome) = true) :
      Goes s (.purge t) .purge
  | dropDatabase {t : TaskId} (old : s.Has Task.purges) : Goes s (.dropDatabase t) .databaseDropped
  | dropRole {t : TaskId} (old : s.Has Task.purges) : Goes s (.dropRole t) .roleDropped

variable {t : TaskId}

theorem has_of_lookup {k : Task} {kind : Task → Bool} (h : s.tasks.lookup t = some k)
    (hk : kind k = true) : s.Has kind := by
  obtain ⟨l, l', heq, -⟩ := List.lookup_eq_some_iff.1 h
  refine ⟨(t, k), ?_, hk⟩
  rw [heq]
  exact List.mem_append_right _ List.mem_cons_self

theorem goes_of_become {k : Task} (hk : s.Goes a k) {e : TaskId × Task}
    (he : e ∈ setKey t k s.tasks) : e ∈ s.tasks ∨ s.Goes a e.2 := by
  obtain rfl | he := mem_setKey he
  · exact .inr hk
  · exact .inl he

theorem mem_finish {e : TaskId × Task} (he : e ∈ (s.finish t).tasks) : e ∈ s.tasks :=
  List.mem_of_mem_filter he

/-- **a step takes one task on**, and leaves or ends the others -/
theorem task_of_step (h : s.step a = some s') {e : TaskId × Task} (he : e ∈ s'.tasks) :
    e ∈ s.tasks ∨ s.Goes a e.2 := by
  cases a with
  | tick delta =>
    cases h
    exact .inl he
  | readRecord t =>
    simp only [step, readRecord] at h
    split at h
    · split at h <;> cases h
      exact goes_of_become (.readRecord _) he
    · cases h
  | refresh t =>
    simp only [step, refresh] at h
    split at h
    · split at h <;> cases h
      · exact goes_of_become (.refresh _ _) he
      · exact .inl (mem_finish he)
    · cases h
  | measure t m =>
    simp only [step, measure] at h
    split at h
    · rename_i r notify hlookup
      split at h
      · cases h
        exact .inl (mem_finish he)
      · rename_i hnone
        split at h <;> cases h
        refine goes_of_become (.measure _ _ _ ?_) he
        simp only [stale, hlookup, Option.isNone_iff_eq_none]
        exact not_not.1 hnone
    · cases h
  | limitWrites t =>
    simp only [step, limitWrites] at h
    split at h <;> cases h
    rename_i hlookup _ _
    exact goes_of_become (.limitWrites _ _ _ (has_of_lookup hlookup rfl)) he
  | alterRole t =>
    simp only [step, alterRole] at h
    split at h <;> cases h
    exact goes_of_become (.alterRole _ _ _) he
  | commitQuota t mailed =>
    simp only [step, commitQuota] at h
    split at h <;> cases h
    exact .inl (mem_finish he)
  | ensure t =>
    simp only [step, ensure] at h
    split at h <;> cases h
    exact goes_of_become (.ensure _) he
  | createRole t =>
    simp only [step, createRole] at h
    split at h <;> cases h
    exact goes_of_become (.createRole _) he
  | createDatabase t =>
    simp only [step, createDatabase] at h
    split at h <;> cases h
    exact goes_of_become (.createDatabase _) he
  | teardown t =>
    simp only [step, teardown] at h
    split at h <;> cases h
    · exact goes_of_become (.teardown _) he
    · exact .inl he
  | findRole t =>
    simp only [step, findRole] at h
    split at h <;> cases h
    · exact goes_of_become (.roleFound _) he
    · rename_i hrole
      refine goes_of_become (.noRole _ ?_) he
      rw [hrole]
      rfl
  | revokeLogin t =>
    simp only [step, revokeLogin] at h
    split at h <;> cases h
    exact goes_of_become (.revokeLogin _) he
  | terminate t =>
    simp only [step, terminate] at h
    split at h <;> cases h
    rename_i hlookup
    exact goes_of_become (.terminate _ (has_of_lookup hlookup rfl)) he
  | recordPurge t grace =>
    simp only [step, recordPurge] at h
    split at h <;> cases h
    exact .inl (mem_finish he)
  | purge t =>
    simp only [step, purge] at h
    split at h
    · rename_i r _ hrecord
      split at h <;> cases h
      rename_i hdue
      refine goes_of_become (.purge ?_) he
      rw [hrecord, Option.any_some]
      exact Option.isSome_of_any hdue
    · cases h
  | dropDatabase t =>
    simp only [step, dropDatabase] at h
    split at h <;> cases h
    rename_i hlookup
    exact goes_of_become (.dropDatabase (has_of_lookup hlookup rfl)) he
  | dropRole t =>
    simp only [step, dropRole] at h
    split at h <;> cases h
    rename_i hlookup
    exact goes_of_become (.dropRole (has_of_lookup hlookup rfl)) he
  | forget t =>
    simp only [step, forget] at h
    split at h <;> cases h
    exact .inl (mem_finish he)
  | raise t =>
    simp only [step, raise] at h
    split at h <;> cases h
    exact .inl (mem_finish he)

/-- a task that is about to alter the role was so before, or did not know of the teardown -/
theorem alters_of_step (h : s.step a = some s') (hk : s'.Has Task.alters) :
    s.Has Task.alters ∨ s.unaware a = true := by
  obtain ⟨e, he, hk⟩ := hk
  obtain he | hgoes := task_of_step h he
  · exact .inl ⟨e, he, hk⟩
  · generalize e.2 = k at hgoes hk
    cases hgoes with
    | measure r notify m stale => exact .inr stale
    | limitWrites r notify m old => exact .inl old
    | ensure r => exact .inr rfl
    | _ => cases hk

theorem provisions_of_step (h : s.step a = some s') (hk : s'.Has Task.provisions) :
    s.Has Task.provisions ∨ ∃ t, a = .ensure t := by
  obtain ⟨e, he, hk⟩ := hk
  obtain he | hgoes := task_of_step h he
  · exact .inl ⟨e, he, hk⟩
  · generalize e.2 = k at hgoes hk
    cases hgoes with
    | ensure r => exact .inr ⟨_, rfl⟩
    | _ => cases hk

/-- a purge begins behind a teardown -/
theorem purges_of_step (h : s.step a = some s') (hk : s'.Has Task.purges) :
    s.Has Task.purges ∨ s.Revoked := by
  obtain ⟨e, he, hk⟩ := hk
  obtain he | hgoes := task_of_step h he
  · exact .inl ⟨e, he, hk⟩
  · generalize e.2 = k at hgoes hk
    cases hgoes with
    | purge due => exact .inr (.inr (.inl due))
    | dropDatabase old => exact .inl old
    | dropRole old => exact .inl old
    | _ => cases hk

theorem pastRevocation_of_step (h : s.step a = some s') (hk : s'.Has Task.pastRevocation) :
    s.Has Task.pastRevocation ∨ s.takesLogin a = true := by
  obtain ⟨e, he, hk⟩ := hk
  obtain he | hgoes := task_of_step h he
  · exact .inl ⟨e, he, hk⟩
  · generalize e.2 = k at hgoes hk
    cases hgoes with
    | noRole r none => exact .inr none
    | revokeLogin r => exact .inr rfl
    | terminate r old => exact .inl old
    | _ => cases hk

/-! ## The role and the row -/

/-- the statements on the role -/
def altersRole : TenantAction → Bool
  | .createRole _ | .alterRole _ | .revokeLogin _ | .dropRole _ => true
  | _ => false

theorem role_of_step (h : s.step a = some s') (ha : altersRole a = false) : s'.role = s.role := by
  cases a with
  | createRole t | alterRole t | revokeLogin t | dropRole t => cases ha
  | _ =>
    simp only [step, readRecord, refresh, measure, limitWrites, commitQuota, ensure, createDatabase,
      teardown, findRole, terminate, recordPurge, purge, dropDatabase, forget, raise] at h
    grind [become, finish]

/-- **a login comes from a task that was about to give it** -/
theorem canLogin_of_step (h : s.step a = some s') (hl : s'.canLogin = true) :
    s.canLogin = true ∨ s.Has Task.alters := by
  cases ha : altersRole a with
  | false =>
    rw [canLogin, role_of_step h ha] at hl
    exact .inl hl
  | true =>
    cases a with
    | createRole t =>
      simp only [step, createRole] at h
      split at h <;> cases h
      rename_i hlookup
      exact .inr (has_of_lookup hlookup rfl)
    | alterRole t =>
      simp only [step, alterRole] at h
      split at h <;> cases h
      rename_i hlookup _
      exact .inr (has_of_lookup hlookup rfl)
    | revokeLogin t =>
      simp only [step, revokeLogin] at h
      split at h <;> cases h
      cases hl
    | dropRole t =>
      simp only [step, dropRole] at h
      split at h <;> cases h
      cases hl
    | _ => cases ha

/-- only a provisioning makes a role -/
theorem role_none_of_step (h : s.step a = some s') (hrole : s.role = none) :
    s'.role = none ∨ s.Has Task.provisions := by
  cases ha : altersRole a with
  | false => exact .inl ((role_of_step h ha).trans hrole)
  | true =>
    cases a with
    | createRole t =>
      simp only [step, createRole] at h
      split at h <;> cases h
      rename_i hlookup
      exact .inr (has_of_lookup hlookup rfl)
    | alterRole t =>
      simp only [step, alterRole, hrole] at h
      split at h <;> contradiction
    | revokeLogin t =>
      simp only [step, revokeLogin, hrole] at h
      split at h <;> contradiction
    | dropRole t =>
      simp only [step, dropRole] at h
      split at h <;> cases h
      exact .inl rfl
    | _ => cases ha

/-- a purge drops the role before it forgets the row -/
theorem hasDropped_of_step (h : s.step a = some s') (hk : s'.Has Task.hasDropped) :
    s.Has Task.hasDropped ∨ s'.role = none := by
  obtain ⟨e, he, hk⟩ := hk
  obtain he | hgoes := task_of_step h he
  · exact .inl ⟨e, he, hk⟩
  · generalize e.2 = k at hgoes hk
    cases hgoes with
    | dropRole old =>
      simp only [step, dropRole] at h
      split at h <;> cases h
      exact .inr rfl
    | _ => cases hk

/-- the columns of an evaluation leave the grace period of the row alone -/
theorem purgeAfter_commit (r current : DatabaseRecord) (m : Measurement) (now : Time)
    (notify mailed : Bool) :
    (r.commit (r.evaluated m now notify mailed) current).purgeAfter = current.purgeAfter := by
  have hnew : (r.evaluated m now notify mailed).purgeAfter = r.purgeAfter := by
    unfold DatabaseRecord.evaluated
    grind
  show writeChanged r.purgeAfter (r.evaluated m now notify mailed).purgeAfter _ = _
  rw [hnew, writeChanged, if_pos rfl]

/-- a row goes with its purge, and a provisioning stores one -/
theorem record_none_of_step (h : s.step a = some s') (hrecord : s'.record = none) :
    (s.record = none ∨ s.Has Task.hasDropped) ∧ ∀ t, a ≠ .ensure t := by
  cases a with
  | ensure t =>
    simp only [step, ensure] at h
    split at h <;> cases h
    cases hrecord
  | forget t =>
    simp only [step, forget] at h
    split at h <;> cases h
    rename_i hlookup
    exact ⟨.inr (has_of_lookup hlookup rfl), by rintro t ⟨⟩⟩
  | commitQuota t mailed =>
    simp only [step, commitQuota] at h
    split at h <;> cases h
    exact ⟨.inl (Option.map_eq_none_iff.1 hrecord), by rintro t ⟨⟩⟩
  | _ =>
    refine ⟨.inl ?_, by rintro t ⟨⟩⟩
    simp only [step, readRecord, refresh, measure, limitWrites, alterRole, createRole,
      createDatabase, teardown, findRole, revokeLogin, terminate, recordPurge, purge, dropDatabase,
      dropRole, raise] at h
    grind [become, finish]

/-- **a teardown takes the login first** -/
theorem revoked_of_step (h : s.step a = some s') (hr : s'.Revoked) :
    s.Revoked ∨ s.takesLogin a = true := by
  obtain hr | hr | hr := hr
  · -- it returns from its last statement, or from the look at a row that is not there
    cases a with
    | teardown t =>
      simp only [step, teardown] at h
      split at h <;> cases h
      · exact .inl (.inl hr)
      · rename_i hrecord
        exact .inr (Option.isNone_iff_eq_none.2 hrecord)
    | recordPurge t grace =>
      simp only [step, recordPurge] at h
      split at h <;> cases h
      rename_i hlookup _
      exact .inl (.inr (.inr (has_of_lookup hlookup rfl)))
    | _ =>
      refine .inl (.inl ?_)
      simp only [step, readRecord, refresh, measure, limitWrites, alterRole, commitQuota, ensure,
        createRole, createDatabase, findRole, revokeLogin, terminate, purge, dropDatabase, dropRole,
        forget, raise] at h
      grind [become, finish]
  · cases a with
    | commitQuota t mailed =>
      simp only [step, commitQuota] at h
      split at h <;> cases h
      refine .inl (.inr (.inl ?_))
      cases hrecord : s.record with
      | none => simp only [finish, hrecord, Option.map_none, Option.any_none] at hr; cases hr
      | some current =>
        simp only [finish, hrecord, Option.map_some, Option.any_some, purgeAfter_commit] at hr
        exact hr
    | ensure t =>
      simp only [step, ensure] at h
      split at h <;> cases h
      refine .inl (.inr (.inl ?_))
      cases hrecord : s.record with
      | none => simp only [become, hrecord, Option.getD_none] at hr; cases hr
      | some current =>
        simp only [become, hrecord, Option.getD_some] at hr
        exact hr
    | recordPurge t grace =>
      simp only [step, recordPurge] at h
      split at h <;> cases h
      rename_i hlookup _
      exact .inl (.inr (.inr (has_of_lookup hlookup rfl)))
    | _ =>
      refine .inl (.inr (.inl ?_))
      simp only [step, readRecord, refresh, measure, limitWrites, alterRole, createRole,
        createDatabase, teardown, findRole, revokeLogin, terminate, purge, dropDatabase, dropRole,
        forget, raise] at h
      grind [become, finish]
  · exact (pastRevocation_of_step h hr).imp_left fun h => .inr (.inr h)

/-! ## Whole runs -/

/-- behind a teardown the role cannot log in and no task is about to alter it; behind a purge no task
provisions, and without a row there is no role -/
structure Down (s : Tenant) : Prop where
  revoked : s.Revoked → s.canLogin = false ∧ ¬ s.Has Task.alters
  purging : s.Has Task.purges → ¬ s.Has Task.provisions
  dropped : s.Has Task.hasDropped → s.role = none
  bare : s.record = none → s.role = none ∧ ¬ s.Has Task.provisions

theorem Has.mono {k k' : Task → Bool} (h : s.Has k) (hk : ∀ x, k x = true → k' x = true) :
    s.Has k' := by
  obtain ⟨e, he, h⟩ := h
  exact ⟨e, he, hk _ h⟩

theorem alters_of_provisions (k : Task) (hk : k.provisions = true) : k.alters = true := by
  cases k with
  | provisioning r => rfl
  | _ => cases hk

theorem purges_of_hasDropped (k : Task) (hk : k.hasDropped = true) : k.purges = true := by
  cases k with
  | roleDropped => rfl
  | _ => cases hk

/-- the teardown's own statements begin nothing -/
theorem unaware_of_takesLogin (h : s.takesLogin a = true) : s.unaware a = false := by
  cases a with
  | measure t m | ensure t => cases h
  | _ => rfl

theorem canLogin_of_takesLogin (hd : s.Down) (ht : s.takesLogin a = true) (h : s.step a = some s') :
    s'.canLogin = false := by
  have hnone : s'.role = s.role → s.role = none → s'.canLogin = false := by
    intro he hrole
    rw [canLogin, he, hrole]
    rfl
  cases a with
  | revokeLogin t =>
    simp only [step, revokeLogin] at h
    split at h <;> cases h
    rfl
  | findRole t => exact hnone (role_of_step h rfl) (Option.isNone_iff_eq_none.1 ht)
  | teardown t =>
    exact hnone (role_of_step h rfl) (hd.bare (Option.isNone_iff_eq_none.1 ht)).1
  | _ => cases ht

theorem down_step (hd : s.Down) (ho : s.Ordered a) (h : s.step a = some s') : s'.Down where
  revoked := by
    intro hr
    have hkept : s'.canLogin = false ∧ ¬ s.Has Task.alters ∧ s.unaware a = false := by
      obtain hr | ht := revoked_of_step h hr
      · obtain ⟨hlogin, halters⟩ := hd.revoked hr
        refine ⟨?_, halters, ho.knows (.inl hr)⟩
        rw [← Bool.not_eq_true]
        intro hl
        obtain hl | hl := canLogin_of_step h hl
        · rw [hlogin] at hl
          cases hl
        · exact halters hl
      · exact ⟨canLogin_of_takesLogin hd ht h, ho.waits ht, unaware_of_takesLogin ht⟩
    obtain ⟨hlogin, halters, haware⟩ := hkept
    refine ⟨hlogin, fun hk => ?_⟩
    obtain hk | hk := alters_of_step h hk
    · exact halters hk
    · rw [haware] at hk
      cases hk
  purging := by
    intro hp hk
    have hbefore : (s.Revoked ∨ s.Has Task.purges) ∧ ¬ s.Has Task.provisions := by
      obtain hp | hr := purges_of_step h hp
      · exact ⟨.inr hp, hd.purging hp⟩
      · exact ⟨.inl hr, fun hk => (hd.revoked hr).2 (hk.mono alters_of_provisions)⟩
    obtain hk | ⟨t, rfl⟩ := provisions_of_step h hk
    · exact hbefore.2 hk
    · cases ho.knows hbefore.1
  dropped := by
    intro hk
    obtain hk | hrole := hasDropped_of_step h hk
    · exact (role_none_of_step h (hd.dropped hk)).resolve_right
        (hd.purging (hk.mono purges_of_hasDropped))
    · exact hrole
  bare := by
    intro hrecord
    obtain ⟨hbefore, hensure⟩ := record_none_of_step h hrecord
    have hnone : s.role = none ∧ ¬ s.Has Task.provisions := by
      obtain hrecord | hk := hbefore
      · exact hd.bare hrecord
      · exact ⟨hd.dropped hk, hd.purging (hk.mono purges_of_hasDropped)⟩
    refine ⟨(role_none_of_step h hnone.1).resolve_right hnone.2, fun hk => ?_⟩
    obtain hk | ⟨t, rfl⟩ := provisions_of_step h hk
    · exact hnone.2 hk
    · exact hensure t rfl

theorem down_init : Tenant.init.Down where
  revoked := by
    rintro (h | h | ⟨e, he, -⟩)
    · cases h
    · cases h
    · cases he
  purging := by
    rintro ⟨e, he, -⟩
    cases he
  dropped := fun _ => rfl
  bare := by
    refine fun _ => ⟨rfl, ?_⟩
    rintro ⟨e, he, -⟩
    cases he

end Tenant

/-- **a teardown that has returned holds** until the purge, where it met nobody who was about to give
the login, and none began behind it unaware -/
theorem teardown_holds (hs : tenantDb.Reach Tenant.Ordered .init s) (hdown : s.tornDown = true) :
    s.canLogin = false := by
  have hd : s.Down :=
    hs.invariant Tenant.down_init fun _ _ _ hd ho h => Tenant.down_step hd ho h
  exact (hd.revoked (.inl hdown)).1

/-- a provisioning by task 1, up to the evaluation that gives the role its login -/
def provisioning : List TenantAction :=
  [.ensure 1, .createRole 1, .createDatabase 1, .measure 1 ⟨10, 100⟩, .limitWrites 1, .alterRole 1,
    .commitQuota 1 false]

/-- a teardown by a task -/
def teardownBy (t : TaskId) : List TenantAction :=
  [.teardown t, .findRole t, .revokeLogin t, .terminate t, .recordPurge t 1209600]

instance (s : Tenant) (a : TenantAction) : Decidable (s.Ordered a) :=
  decidable_of_iff ((s.takesLogin a = true → ¬ s.Has Task.alters) ∧
    (s.Revoked ∨ s.Has Task.purges → s.unaware a = false))
    ⟨fun h => ⟨h.1, h.2⟩, fun h => ⟨h.waits, h.knows⟩⟩

/-- a sweep reads the row, the teardown runs, and the sweep loads the row again -/
theorem teardown_holds_swept : ∃ s, tenantDb.Reach Tenant.Ordered .init s ∧
    s.tornDown = true ∧ s.canLogin = false := by
  obtain ⟨s, hs, -, hp⟩ := Machine.exists_reach_of_runIf (M := tenantDb) (s := .init)
    (P := fun _ => True) (k := Tenant.Ordered) (c := fun s a => decide (s.Ordered a))
    (fun _ _ _ _ _ _ => trivial) (fun _ _ _ h => of_decide_eq_true h)
    (l := provisioning ++ [.readRecord 2] ++ teardownBy 3 ++ [.refresh 2, .measure 2 ⟨10, 100⟩])
    (p := fun s : Tenant => s.tornDown) trivial (by decide)
  exact ⟨s, hs, hp, teardown_holds hs hp⟩

/-- a sweep that has looked at `purge_after` goes on behind the teardown -/
theorem teardown_undone :
    ¬ ∀ s, tenantDb.Reach (fun _ _ => True) .init s → s.tornDown = true → s.tasks = [] →
      s.canLogin = false := by
  intro hall
  obtain ⟨s, hs, hp⟩ := Machine.exists_reach_of_run (M := tenantDb) (s := .init)
    (l := provisioning ++ [.readRecord 2, .measure 2 ⟨10, 100⟩, .limitWrites 2] ++ teardownBy 3 ++
      [.alterRole 2, .commitQuota 2 false])
    (p := fun s : Tenant => s.tornDown && s.tasks.isEmpty && s.canLogin) (by decide)
  simp only [Bool.and_eq_true, List.isEmpty_iff] at hp
  obtain ⟨⟨hdown, htasks⟩, hlogin⟩ := hp
  rw [hall s hs hdown htasks] at hlogin
  cases hlogin

end Freepod
