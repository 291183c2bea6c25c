import Freepod.Runs.BuildPasses

/-!
# The Jobs of the builds

* `Left`: a build has been started, and what is left of its Job meets a condition.  No Job is started
  again, so it goes on doing so.
* `Booked`: what the rows and the calls that were made say of each other; `booked_of_reach` shows it of
  every run.
* `JobRead`: no read of a Job that is there fails.  `Accounted`: what holds of a run that meets it.
-/

set_option linter.unusedSectionVars false

namespace Freepod.BuildWorker
open Base

variable [Python] {cfg : Config} {settings : Settings} {s t : Store} {id : BuildId} {b b' : Build}
  {tr : Trace} {c : Outcome} {x : Base.Call Ret}

/-! ## What is left of a Job -/

/-- the build is running, and no Job is recorded -/
def Bare (s : Store) (id : BuildId) : Prop :=
  ∃ b, s.state.builds.get? id = some b ∧ b.status = .running ∧ b.jobId = none

/-- the build has not been started, or the last call has claimed it -/
def Unborn (s : Store) (tr : Trace) (id : BuildId) : Prop :=
  (∀ b, s.state.builds.get? id = some b → b.status = .queued) ∨
    ∃ (e : Entry Ret Unit Time) (older : Trace) (now : Time), tr = e :: older ∧
      e.call = ⟨.claim now, some id⟩

/-- the build's Job is not to be created any more, and if it is still there it meets the condition -/
structure Left (cfg : Config) (φ : Job → Prop) (s : Store) (tr : Trace) (id : BuildId) : Prop where
  born : ¬ Unborn s tr id
  job : ∀ j, s.cluster.jobs (cfg.jobName id) = some j → φ j

/-- a condition that a Job goes on to meet -/
def Steady (φ : Job → Prop) : Prop :=
  ∀ j j', (j.isFinished = true → j'.isFinished = true) → φ j → φ j'

theorem steady_finished : Steady fun j => j.isFinished = true := fun _ _ h hj => h hj

theorem steady_false : Steady fun _ => False := fun _ _ _ hj => hj

theorem steady_since (j : Job) :
    Steady fun j' => j.isFinished = true → j'.isFinished = true :=
  fun _ _ h hj hfin => h (hj hfin)

theorem Unborn.of_aside (h : Unborn t tr id) (ha : Aside s t) : Unborn s tr id :=
  h.imp_left fun hq b hb => hq b (ha.get? hb)

/-- a row that is queued after a call was so before it -/
theorem Moves.queued (h : Moves cfg x b b') (hb : b'.status = .queued) : b.status = .queued := by
  cases h with
  | stays => exact hb
  | claimed now call queued => exact queued
  | recorded call => exact hb
  | finished y now call row =>
    rw [row.status] at hb
    split at hb <;> cases hb

/-- **a build that has been started stays so** -/
theorem Unborn.of_call {i : Nat} {req : Unit} {now : Time} (hd : Does cfg s c x t)
    (h : Unborn t (⟨i, req, x, now⟩ :: tr) id) : Unborn s tr id := by
  rcases h with hq | ⟨e, older, now', heq, hcall⟩
  · refine .inl fun b hb => ?_
    obtain ⟨b', hb', hmove⟩ := hd.moves hb
    exact hmove.queued (hq b' hb')
  · obtain ⟨rfl, -⟩ := List.cons.inj heq
    have hcall : x = ⟨.claim now', some id⟩ := hcall
    subst hcall
    cases hd with
    | looks found => cases found
    | claims next done =>
      obtain ⟨r, builds, hr, hq, -⟩ := claim_ok next done
      refine .inl fun b hb => ?_
      rw [hr] at hb
      exact Option.some.inj hb ▸ hq

theorem Left.aside {φ : Job → Prop} (h : Left cfg φ s tr id) (hφ : Steady φ) (ha : Aside s t) :
    Left cfg φ t tr id where
  born := fun hu => h.born (hu.of_aside ha)
  job := by
    intro j hj
    obtain ⟨old, hold, hfin⟩ := ha.jobs _ _ hj
    exact hφ old j hfin (h.job old hold)

/-- a Job after a call was there before it, or has been created by it -/
theorem Does.jobs (hd : Does cfg s c x t) {name : String} {j : Job}
    (hj : t.cluster.jobs name = some j) :
    s.cluster.jobs name = some j ∨ ∃ id, x.1 = .createJob id ∧ name = cfg.jobName id := by
  cases hd with
  | looks found => exact .inl hj
  | mirrors clean => exact .inl hj
  | @deletes name' =>
    by_cases hn : name = name'
    · subst hn
      have hj : Function.update s.cluster.jobs name none name = some j := hj
      rw [Function.update_self] at hj
      cases hj
    · exact .inl ((Function.update_of_ne hn _ _).symm.trans hj)
  | finishes clean done =>
    obtain ⟨-, -, hcluster, -⟩ := finish_ok done
    rw [hcluster] at hj
    exact .inl hj
  | claims next done => exact .inl hj
  | @creates id y free =>
    by_cases hn : name = cfg.jobName id
    · exact .inr ⟨id, rfl, hn⟩
    · exact .inl ((Function.update_of_ne hn _ _).symm.trans hj)
  | records done => exact .inl hj

/-- **no Job is started again** -/
theorem Left.call {φ : Job → Prop} {i : Nat} {req : Unit} {now : Time} (h : Left cfg φ s tr id)
    (hd : Does cfg s c x t) (hnew : ∀ id, x.1 = .createJob id → Unborn s tr id) :
    Left cfg φ t (⟨i, req, x, now⟩ :: tr) id where
  born := fun hu => h.born (hu.of_call hd)
  job := by
    intro j hj
    rcases hd.jobs hj with hold | ⟨id', hx, heq⟩
    · exact h.job j hold
    · obtain rfl := cfg.jobName_injective heq
      exact absurd (hnew id hx) h.born

/-! ## Rows and calls -/

/-- the last call has claimed the build, or the one before it has and the last one created the Job -/
inductive Claiming (id : BuildId) : Trace → Prop
  | claimed {e : Entry Ret Unit Time} {older : Trace} {now : Time}
      (call : e.call = ⟨.claim now, some id⟩) : Claiming id (e :: older)
  | created {e e' : Entry Ret Unit Time} {older : Trace} {now : Time} {y : Bool}
      (call' : e'.call = ⟨.createJob id, y⟩) (call : e.call = ⟨.claim now, some id⟩) :
      Claiming id (e' :: e :: older)

/-- what a row that has ended was finished with -/
structure EndedWith (b : Build) (y : Finish) : Prop where
  status : b.status = if y.image.isSome then .succeeded else .failed
  image : ∀ i, y.image = some i → b.image = some i ∧ i ≠ ""

structure Booked (cfg : Config) (s : Store) (tr : Trace) : Prop where
  job : ∀ id b, s.state.builds.get? id = some b →
    b.jobId = none ∨ b.jobId = some (cfg.jobName id)
  queued : ∀ id b, s.state.builds.get? id = some b → b.status = .queued → b.jobId = none
  claiming : ∀ id, Claiming id tr → Bare s id
  /-- a build that has not been started has no Job -/
  free : ∀ id, Unborn s tr id → s.cluster.jobs (cfg.jobName id) = none
  /-- a Job that was read from a row is the build's -/
  loaded : ∀ e ∈ tr, ∀ id b name, e.call = ⟨.load id, some b⟩ → b.jobId = some name →
    name = cfg.jobName id ∧ ¬ Unborn s tr id
  /-- a Job that was found to have finished has not started again -/
  looked : ∀ e ∈ tr, ∀ name j, e.call = ⟨.getJob name, some (some j)⟩ →
    ∃ id, name = cfg.jobName id ∧
      Left cfg (fun j' => j.isFinished = true → j'.isFinished = true) s tr id
  ended : ∀ id b, s.state.builds.get? id = some b → b.status.isTerminal = true →
    ∃ e ∈ tr, ∃ y now, e.call = ⟨.finish id y now, .done⟩ ∧ EndedWith b y
  finished : ∀ e ∈ tr, ∀ id y now, e.call = ⟨.finish id y now, .done⟩ →
    ∃ b, s.state.builds.get? id = some b ∧ b.status.isTerminal = true

theorem booked_init : Booked cfg .init [] where
  job := fun _ _ h => nomatch h
  queued := fun _ _ h => nomatch h
  claiming := fun _ h => nomatch h
  free := fun _ _ => rfl
  loaded := fun _ h => nomatch h
  looked := fun _ h => nomatch h
  ended := fun _ _ h => nomatch h
  finished := fun _ h => nomatch h

theorem Bare.aside (h : Bare s id) (ha : Aside s t) : Bare t id := by
  obtain ⟨b, hb, hrow⟩ := h
  exact ⟨b, ha.get? hb, hrow⟩

theorem Booked.aside (h : Booked cfg s tr) (ha : Aside s t) : Booked cfg t tr where
  job := by
    intro id b hb
    rcases ha.back hb with hold | ⟨-, -, hj⟩
    · exact h.job id b hold
    · exact .inl hj
  queued := by
    intro id b hb hq
    rcases ha.back hb with hold | ⟨-, -, hj⟩
    · exact h.queued id b hold hq
    · exact hj
  claiming := fun id hc => (h.claiming id hc).aside ha
  free := by
    intro id hu
    cases hj : t.cluster.jobs (cfg.jobName id) with
    | none => rfl
    | some j =>
      obtain ⟨old, hold, -⟩ := ha.jobs _ _ hj
      rw [h.free id (hu.of_aside ha)] at hold
      cases hold
  loaded := by
    intro e he id b name hcall hj
    obtain ⟨hn, hborn⟩ := h.loaded e he id b name hcall hj
    exact ⟨hn, fun hu => hborn (hu.of_aside ha)⟩
  looked := by
    intro e he name j hcall
    obtain ⟨id, hn, hl⟩ := h.looked e he name j hcall
    exact ⟨id, hn, hl.aside (steady_since j) ha⟩
  ended := by
    intro id b hb he
    rcases ha.back hb with hold | ⟨-, hq, -⟩
    · exact h.ended id b hold he
    · rw [hq] at he
      cases he
  finished := by
    intro e he id y now hcall
    obtain ⟨b, hb, hend⟩ := h.finished e he id y now hcall
    exact ⟨b, ha.get? hb, hend⟩

/-! ## One call -/

/-- a build whose Job is created or recorded has just been claimed -/
theorem claiming_of_deed {i : Nat} (hser : Serial tr) (hi : IsLast i tr)
    (hdeed : deed cfg (logOf i tr) (.createJob id) ∨ deed cfg (logOf i tr) (.recordJob id)) :
    Claiming id tr := by
  rcases hdeed with ⟨now, log, hlog⟩ | ⟨now, log, hlog⟩
  · obtain ⟨e, older, rfl, -, hcall, -⟩ := hser.head hi hlog
    exact .claimed hcall
  · obtain ⟨e', older, rfl, rfl, hcall', hlog'⟩ := hser.head hi hlog
    have hsuf : older <:+ e' :: older := List.suffix_cons _ _
    obtain ⟨e, older', rfl, -, hcall, -⟩ := (hser.older hsuf).head (hi.older hsuf) hlog'
    exact .created hcall' hcall

theorem Booked.bare {i : Nat} (h : Booked cfg s tr) (hser : Serial tr) (hi : IsLast i tr)
    (hdeed : deed cfg (logOf i tr) (.createJob id) ∨ deed cfg (logOf i tr) (.recordJob id)) :
    Bare s id := h.claiming id (claiming_of_deed hser hi hdeed)

theorem unborn_of_create {i : Nat} (hser : Serial tr) (hi : IsLast i tr)
    (hdeed : deed cfg (logOf i tr) (.createJob id)) : Unborn s tr id := by
  obtain ⟨now, log, hlog⟩ := hdeed
  obtain ⟨e, older, rfl, -, hcall, -⟩ := hser.head hi hlog
  exact .inr ⟨e, older, now, rfl, hcall⟩

/-- the row of a build that has been claimed and not recorded -/
theorem Bare.call (h : Bare s id) (hd : Does cfg s c x t)
    (hrec : x ≠ ⟨.recordJob id, .done⟩) (hfin : ∀ y now, x ≠ ⟨.finish id y now, .done⟩) :
    Bare t id := by
  obtain ⟨b, hb, hr, hj⟩ := h
  obtain ⟨b', hb', hmove⟩ := hd.moves hb
  have hid : b.id = id := Table.key_of_get? hb
  subst hid
  refine ⟨b', hb', ?_⟩
  cases hmove with
  | stays => exact ⟨hr, hj⟩
  | claimed now call queued => exact ⟨rfl, hj⟩
  | recorded call => exact absurd call hrec
  | finished y now call row => exact absurd call (hfin y now)

/-- a read that found a Job -/
theorem jobs_of_kubectl {j : Job} {y : Option Job} (h : some (some j) = kubectl c y none) :
    y = some j := by
  cases c with
  | ok => exact (Option.some.inj h).symm
  | fails => cases h
  | raises => cases h
  | lost => cases h

/-- the row that a pass has read belongs to the Job it looks for -/
theorem Booked.named {i : Nat} {name : String} (h : Booked cfg s tr)
    (hdeed : deed cfg (logOf i tr) (.getJob name)) :
    ∃ id, name = cfg.jobName id ∧ ¬ Unborn s tr id := by
  obtain ⟨id, b, older, hlog, hrow⟩ := hdeed
  have hmem : (⟨.load id, some b⟩ : Base.Call Ret) ∈ logOf i tr := hlog ▸ List.mem_cons_self
  obtain ⟨e, l, he, -, hcall⟩ := entry_of_mem_logOf hmem
  exact ⟨id, h.loaded e (mem_of_cons_suffix he) id b name hcall hrow⟩

section
variable {i : Nat} {req : Unit} {now : Time}

theorem Booked.call (h : Booked cfg s tr) (hser : Serial tr) (hi : IsLast i tr)
    (hdeed : deed cfg (logOf i tr) x.1) (hd : Does cfg s c x t) :
    Booked cfg t (⟨i, req, x, now⟩ :: tr) where
  job := by
    intro id b' hb'
    obtain ⟨b, hb, hmove⟩ := hd.back hb'
    have hold := h.job id b hb
    have hid : b.id = id := Table.key_of_get? hb
    cases hmove with
    | stays => exact hold
    | claimed now call queued => exact hold
    | recorded call => exact .inr (hid ▸ rfl)
    | finished y now call row => exact row.job ▸ hold
  queued := by
    intro id b' hb' hq
    obtain ⟨b, hb, hmove⟩ := hd.back hb'
    have hid : b.id = id := Table.key_of_get? hb
    subst hid
    cases hmove with
    | stays => exact h.queued _ _ hb hq
    | claimed now call queued => cases hq
    | recorded call =>
      subst call
      obtain ⟨r, hr, hrun, -⟩ := h.bare hser hi (.inr hdeed)
      rw [hb] at hr
      cases hr
      exact absurd (hq.symm.trans hrun) (fun heq => nomatch heq)
    | finished y now call row =>
      rw [row.status] at hq
      split at hq <;> cases hq
  claiming := by
    intro id hc
    cases hc with
    | claimed call =>
      have call : x = ⟨.claim _, some id⟩ := call
      subst call
      cases hd with
      | looks found => cases found
      | claims next done =>
        obtain ⟨b, builds, hb, hq, hput, rfl⟩ := claim_ok next done
        have hid : b.id = id := Table.key_of_get? hb
        subst hid
        have hrow := Table.get?_put?_self hput hb
        exact ⟨_, hrow, rfl, h.queued _ b hb hq⟩
    | created call' call =>
      have call' : x = ⟨.createJob id, _⟩ := call'
      subst call'
      refine (h.claiming id (.claimed call)).call hd (fun heq => ?_) (fun y now heq => ?_)
      · cases heq
      · cases heq
  free := by
    intro id hu
    have hold := h.free id (hu.of_call hd)
    cases hj : t.cluster.jobs (cfg.jobName id) with
    | none => rfl
    | some j =>
      rcases hd.jobs hj with hjob | ⟨id', hx, heq⟩
      · rw [hold] at hjob
        cases hjob
      · -- the build whose Job has been created is running
        obtain rfl := cfg.jobName_injective heq
        have hbare := h.bare hser hi (.inl (hx ▸ hdeed))
        obtain ⟨b, hb, hrun, -⟩ : Bare t id := by
          refine hbare.call hd (fun heq => ?_) (fun y now heq => ?_)
          · subst heq
            cases hx
          · subst heq
            cases hx
        rcases hu with hq | ⟨e, older, now', heq, hcall⟩
        · rw [hq b hb] at hrun
          cases hrun
        · obtain ⟨rfl, -⟩ := List.cons.inj heq
          have hcall : x = ⟨.claim now', some id⟩ := hcall
          subst hcall
          cases hx
  loaded := by
    intro e he id b name hcall hj
    rcases List.mem_cons.mp he with rfl | he
    · have hcall : x = ⟨.load id, some b⟩ := hcall
      subst hcall
      cases hd with
      | looks found =>
        have found : some b = s.state.builds.get? id := found
        have hname : name = cfg.jobName id := by
          rcases h.job id b found.symm with hnone | hsome
          · rw [hj] at hnone
            cases hnone
          · rw [hj] at hsome
            exact Option.some.inj hsome
        refine ⟨hname, fun hu => ?_⟩
        rcases hu with hq | ⟨e, older, now', heq, hcall⟩
        · rw [h.queued id b found.symm (hq b found.symm)] at hj
          cases hj
        · obtain ⟨rfl, -⟩ := List.cons.inj heq
          cases hcall
    · obtain ⟨hn, hborn⟩ := h.loaded e he id b name hcall hj
      exact ⟨hn, fun hu => hborn (hu.of_call hd)⟩
  looked := by
    intro e he name j hcall
    rcases List.mem_cons.mp he with rfl | he
    · have hcall : x = ⟨.getJob name, some (some j)⟩ := hcall
      subst hcall
      obtain ⟨id, rfl, hborn⟩ := h.named hdeed
      refine ⟨id, rfl, fun hu => hborn (hu.of_call hd), fun j' hj' hfin => ?_⟩
      cases hd with
      | looks found =>
        rw [jobs_of_kubectl found] at hj'
        exact Option.some.inj hj' ▸ hfin
    · obtain ⟨id, hn, hl⟩ := h.looked e he name j hcall
      refine ⟨id, hn, hl.call hd fun id hx => ?_⟩
      exact unborn_of_create hser hi (hx ▸ hdeed)
  ended := by
    intro id b' hb' he
    obtain ⟨b, hb, hmove⟩ := hd.back hb'
    have hid : b.id = id := Table.key_of_get? hb
    have hold : b.status.isTerminal = true → ∃ e ∈ tr, ∃ y now,
        e.call = ⟨.finish id y now, .done⟩ ∧ EndedWith b y := h.ended id b hb
    cases hmove with
    | stays =>
      obtain ⟨e, hmem, y, now', hcall, hend⟩ := hold he
      exact ⟨e, List.mem_cons_of_mem _ hmem, y, now', hcall, hend⟩
    | claimed now call queued => cases he
    | recorded call =>
      obtain ⟨e, hmem, y, now', hcall, hend⟩ := hold he
      exact ⟨e, List.mem_cons_of_mem _ hmem, y, now', hcall, hend.status, hend.image⟩
    | finished y now' call row =>
      exact ⟨_, List.mem_cons_self, y, now', hid ▸ call, row.status, row.image⟩
  finished := by
    intro e he id y now' hcall
    rcases List.mem_cons.mp he with rfl | he
    · have hcall : x = ⟨.finish id y now', .done⟩ := hcall
      subst hcall
      cases hd with
      | looks found =>
        rcases found with heq | ⟨heq, -⟩
        · cases heq
        · cases heq
      | finishes clean done =>
        obtain ⟨-, ⟨r, r', builds, hr, hfin, hput, ht⟩, -⟩ := finish_ok done
        have hid : r.id = id := Table.key_of_get? hr
        subst hid
        rw [← hfin.key] at hr
        refine ⟨r', ?_, ?_⟩
        · rw [ht, ← hfin.key]
          exact Table.get?_put?_self hput hr
        · rw [hfin.status]
          split <;> rfl
    · obtain ⟨b, hb, hend⟩ := h.finished e he id y now' hcall
      obtain ⟨b', hb', hmove⟩ := hd.moves hb
      exact ⟨b', hb', (hmove.ended hend).symm ▸ hend⟩

end

/-! ## Builds without a Job on record -/

/-- the build has been started, and its Job is not to be recorded any more -/
structure Unrecorded (s : Store) (tr : Trace) (id : BuildId) : Prop where
  row : ∃ b, s.state.builds.get? id = some b ∧ b.jobId = none ∧ b.status ≠ .queued
  past : ¬ Claiming id tr

theorem Unrecorded.aside (h : Unrecorded s tr id) (ha : Aside s t) : Unrecorded t tr id where
  row := by
    obtain ⟨b, hb, hrow⟩ := h.row
    exact ⟨b, ha.get? hb, hrow⟩
  past := h.past

theorem Unrecorded.call {i : Nat} {req : Unit} {now : Time} (h : Unrecorded s tr id)
    (hser : Serial tr) (hi : IsLast i tr) (hdeed : deed cfg (logOf i tr) x.1)
    (hd : Does cfg s c x t) : Unrecorded t (⟨i, req, x, now⟩ :: tr) id where
  row := by
    obtain ⟨b, hb, hj, hq⟩ := h.row
    obtain ⟨b', hb', hmove⟩ := hd.moves hb
    have hid : b.id = id := Table.key_of_get? hb
    subst hid
    refine ⟨b', hb', ?_⟩
    cases hmove with
    | stays => exact ⟨hj, hq⟩
    | claimed now call queued => exact absurd queued hq
    | recorded call =>
      subst call
      exact absurd (claiming_of_deed hser hi (.inr hdeed)) h.past
    | finished y now' call row =>
      refine ⟨row.job.trans hj, ?_⟩
      rw [row.status]
      split <;> exact fun heq => nomatch heq
  past := by
    intro hc
    obtain ⟨b, hb, -, hq⟩ := h.row
    cases hc with
    | claimed call =>
      have call : x = ⟨.claim _, some id⟩ := call
      subst call
      cases hd with
      | looks found => cases found
      | claims next done =>
        obtain ⟨r, builds, hr, hqueued, -⟩ := claim_ok next done
        rw [hb] at hr
        exact hq (Option.some.inj hr ▸ hqueued)
    | created call' call => exact h.past (.claimed call)

/-! ## Reads that fail -/

/-- a condition on each call: the store, what the pass has done, and what becomes of the call -/
def AtCalls (P : Store → Log Ret → Outcome → Op → Prop) (p : WorkerPool) (ev : WorkerEvent) : Prop :=
  ∀ i c req o k, ev = .run i c → p.threads[i]? = some ⟨req, .call o k⟩ →
    P p.store (logOf i p.trace) c o

/-- a read of a Job raises, succeeds, or looks for one that is not there -/
def readsJob (s : Store) (_ : Log Ret) (c : Outcome) (o : Op) : Prop :=
  ∀ name, o = .getJob name → c = .raises ∨ c = .ok ∨ s.cluster.jobs name = none

/-- no read of a Job that is there fails -/
abbrev JobRead : WorkerPool → WorkerEvent → Prop := AtCalls readsJob

/-- the deletion of the Job has been asked for -/
def Asked (tr : Trace) (name : String) : Prop := ∃ e ∈ tr, e.call = ⟨.deleteJob name, some ()⟩

/-- what is so of every run whose reads of Jobs tell what is there -/
structure Accounted (cfg : Config) (s : Store) (tr : Trace) : Prop where
  absent : ∀ e ∈ tr, ∀ name, e.call = ⟨.getJob name, some none⟩ →
    ∃ id, name = cfg.jobName id ∧ Left cfg (fun _ => False) s tr id
  left : ∀ id b, s.state.builds.get? id = some b → b.status.isTerminal = true →
    ∀ j, s.cluster.jobs (cfg.jobName id) = some j → j.isFinished = true ∨ Asked tr (cfg.jobName id)

theorem accounted_init : Accounted cfg .init [] where
  absent := fun _ h => nomatch h
  left := fun _ _ h => nomatch h

theorem Accounted.aside (h : Accounted cfg s tr) (ha : Aside s t) : Accounted cfg t tr where
  absent := by
    intro e he name hcall
    obtain ⟨id, hn, hl⟩ := h.absent e he name hcall
    exact ⟨id, hn, hl.aside steady_false ha⟩
  left := by
    intro id b hb he j hj
    obtain ⟨old, hold, hfin⟩ := ha.jobs _ _ hj
    rcases ha.back hb with hrow | ⟨-, hq, -⟩
    · exact (h.left id b hrow he old hold).imp_left hfin
    · rw [hq] at he
      cases he

/-- a call of the pass at work -/
theorem asked_of_made {i : Nat} {name : String} (h : Made (logOf i tr) (.deleteJob name) (some ())) :
    Asked tr name := by
  obtain ⟨e, older, he, -, hcall⟩ := entry_of_mem_logOf h
  exact ⟨e, mem_of_cons_suffix he, hcall⟩

/-- a name that was read from a row is that of the build's Job -/
theorem Booked.name_of_row {i : Nat} {name : String} (h : Booked cfg s tr)
    (hm : Made (logOf i tr) (.load id) (some b)) (hrow : b.jobId = some name) :
    name = cfg.jobName id := by
  obtain ⟨e, older, hsuf, -, hcall⟩ := entry_of_mem_logOf hm
  exact (h.loaded e (mem_of_cons_suffix hsuf) id b name hcall hrow).1

/-- **what is left of a Job whose build is finished** -/
theorem Evidence.left {i : Nat} {y : Finish} {now : Time} (h : Booked cfg s tr)
    (ha : Accounted cfg s tr) (he : Evidence cfg now id (logOf i tr) y) {j : Job}
    (hj : s.cluster.jobs (cfg.jobName id) = some j) :
    j.isFinished = true ∨ Asked tr (cfg.jobName id) := by
  have named : ∀ b name, Made (logOf i tr) (.load id) (some b) → b.jobId = some name →
      name = cfg.jobName id := fun _ _ hm hrow => h.name_of_row hm hrow
  have looked : ∀ name j', Made (logOf i tr) (.getJob name) (some (some j')) →
      name = cfg.jobName id → j'.isFinished = true → j.isFinished = true := by
    intro name j' hm hname hfin
    obtain ⟨e, older, hsuf, -, hcall⟩ := entry_of_mem_logOf hm
    obtain ⟨id', heq, hl⟩ := h.looked e (mem_of_cons_suffix hsuf) name j' hcall
    rw [hname] at heq
    obtain rfl := cfg.jobName_injective heq
    exact hl.job j hj hfin
  generalize hlog : logOf i tr = log at he
  cases he with
  | unrecorded row => exact .inr (asked_of_made (i := i) (hlog ▸ made_head _ _ _))
  | @gone b name older row =>
    have hname := named b name (hlog ▸ (made_head _ _ _).cons _) row
    have hm : Made (logOf i tr) (.getJob name) (some none) := hlog ▸ made_head _ _ _
    obtain ⟨e, older, hsuf, -, hcall⟩ := entry_of_mem_logOf hm
    obtain ⟨id', heq, hl⟩ := ha.absent e (mem_of_cons_suffix hsuf) name hcall
    rw [hname] at heq
    obtain rfl := cfg.jobName_injective heq
    exact (hl.job j hj).elim
  | @complete b name j' m image usage older row job reported used =>
    have hname := named b name (hlog ▸ ((made_head _ _ _).cons _).cons _) row
    refine .inl (looked name j' (hlog ▸ (made_head _ _ _).cons _) hname ?_)
    rw [Job.isFinished, job, Bool.true_or]
  | @failed b name j' m line usage newer older row job used =>
    have hin : Made (logOf i tr) (.load id) (some b) := by
      rw [hlog]
      refine List.mem_cons_of_mem _ (List.mem_append_right newer ?_)
      exact List.mem_cons_of_mem _ List.mem_cons_self
    have hget : Made (logOf i tr) (.getJob name) (some (some j')) := by
      rw [hlog]
      exact List.mem_cons_of_mem _ (List.mem_append_right newer List.mem_cons_self)
    refine .inl (looked name j' hget (named b name hin row) ?_)
    rw [Job.isFinished, job, Bool.or_true]
  | @overdue b name j' older row job late clock =>
    have hname := named b name (hlog ▸ ((made_head _ _ _).cons _).cons _) row
    exact .inr (hname ▸ asked_of_made (i := i) (hlog ▸ made_head _ _ _))

/-- a read that found nothing -/
theorem absent_of_kubectl {name : String} (hread : readsJob s [] c (.getJob name))
    (h : some none = kubectl c (s.cluster.jobs name) none) : s.cluster.jobs name = none := by
  rcases hread name rfl with rfl | rfl | hnone
  · cases h
  · exact (Option.some.inj h).symm
  · exact hnone

theorem Accounted.call {i : Nat} {req : Unit} {now : Time} (h : Accounted cfg s tr)
    (hb : Booked cfg s tr) (hser : Serial tr) (hi : IsLast i tr) (hdeed : deed cfg (logOf i tr) x.1)
    (hread : readsJob s [] c x.1) (hd : Does cfg s c x t) :
    Accounted cfg t (⟨i, req, x, now⟩ :: tr) where
  absent := by
    intro e he name hcall
    rcases List.mem_cons.mp he with rfl | he
    · have hcall : x = ⟨.getJob name, some none⟩ := hcall
      subst hcall
      obtain ⟨id, rfl, hborn⟩ := hb.named hdeed
      refine ⟨id, rfl, fun hu => hborn (hu.of_call hd), fun j hj => ?_⟩
      cases hd with
      | looks found =>
        rw [absent_of_kubectl hread found] at hj
        cases hj
    · obtain ⟨id, hn, hl⟩ := h.absent e he name hcall
      refine ⟨id, hn, hl.call hd fun id hx => ?_⟩
      exact unborn_of_create hser hi (hx ▸ hdeed)
  left := by
    intro id b' hrow' he j hj
    obtain ⟨b, hrow, hmove⟩ := hd.back hrow'
    have hid : b.id = id := Table.key_of_get? hrow
    rcases hd.jobs hj with hold | ⟨id', hx, heq⟩
    · have grow : Asked tr (cfg.jobName id) → Asked (⟨i, req, x, now⟩ :: tr) (cfg.jobName id) := by
        rintro ⟨e, hmem, hcall⟩
        exact ⟨e, List.mem_cons_of_mem _ hmem, hcall⟩
      have hsettled : b.status.isTerminal = true →
          j.isFinished = true ∨ Asked (⟨i, req, x, now⟩ :: tr) (cfg.jobName id) :=
        fun he => (h.left id b hrow he j hold).imp_right grow
      cases hmove with
      | stays => exact hsettled he
      | claimed now call queued => cases he
      | recorded call => exact hsettled he
      | finished y now' call row =>
        subst call
        subst hid
        exact (hdeed.2.left hb h hold).imp_right grow
    · -- the build whose Job is created is running
      obtain rfl := cfg.jobName_injective heq
      obtain ⟨r, hr, hrun, -⟩ := hb.bare hser hi (.inl (hx ▸ hdeed))
      rw [hrow] at hr
      cases hr
      cases hmove with
      | finished y now' call row =>
        subst call
        cases hx
      | stays =>
        rw [hrun] at he
        cases he
      | claimed now call queued => cases he
      | recorded call =>
        subst call
        cases hx

section
variable {ok : WorkerPool → WorkerEvent → Prop} {p q : WorkerPool}

/-- a call of the pass at work, in a state of a run -/
structure PassCall (cfg : Config) (settings : Settings) (ok : WorkerPool → WorkerEvent → Prop)
    (r : WorkerPool) (i : Nat) (c : Outcome) (o : Op) : Prop where
  reach : (service cfg settings).machine.Reach ok (Service.start .init) r
  serial : Serial r.trace
  last : IsLast i r.trace
  deed : deed cfg (logOf i r.trace) o
  thread : ok r (.run i c) ∧ ∃ req k, r.threads[i]? = some ⟨req, .call o k⟩

/-- **the rule for a run of passes**: what the rest of the platform and every call of the pass at work
keep is kept -/
theorem along_passes (hok : ∀ p ev, ok p ev → OneAtATime p ev) {I : Store → Trace → Prop}
    (haside : ∀ s t tr, I s tr → Aside s t → I t tr)
    (hcall : ∀ r i c req (x : Base.Call Ret) now t, PassCall cfg settings ok r i c x.1 →
      Does cfg r.store c x t → I r.store r.trace → I t (⟨i, req, x, now⟩ :: r.trace))
    (h : (service cfg settings).machine.Reach ok (Service.start .init) p)
    (h' : (service cfg settings).machine.Reach ok p q) (h0 : I p.store p.trace) :
    I q.store q.trace := by
  have hinv : (service cfg settings).machine.Reach ok (Service.start .init) q ∧
      I q.store q.trace := by
    refine h'.invariant (P := fun q => (service cfg settings).machine.Reach ok (Service.start .init) q ∧
      I q.store q.trace) ⟨h, h0⟩ ?_
    rintro r ev r' ⟨hr, hi⟩ hev hs
    refine ⟨hr.tail hev hs, ?_⟩
    obtain ⟨req, rfl, rfl⟩ | ⟨i, c, req, o, k, x, s, rfl, hth, hp, rfl⟩ | ⟨w, s, rfl, hw, rfl⟩ :=
      step_cases hs
    · exact hi
    · have hg := (busy_of_reach hok hr).1
      have hwork : PassCall cfg settings ok r i c o := ⟨hr, hr.serial hok,
        hg.isLast (hok _ _ hev i c rfl), hg.next (meets_runPass cfg) hth, hev, req, k, hth⟩
      exact hcall r i c req ⟨o, x⟩ _ s hwork (does_of_perform hp) hi
    · exact haside _ _ _ hi (aside_of_change hw)
  exact hinv.2

section
variable (hok : ∀ p ev, ok p ev → OneAtATime p ev)
include hok

/-- **what every run knows of its rows and calls** -/
theorem booked_of_reach (h : (service cfg settings).machine.Reach ok (Service.start .init) p) :
    Booked cfg p.store p.trace :=
  along_passes (I := Booked cfg) hok (fun _ _ _ hb ha => hb.aside ha)
    (fun _ _ _ _ _ _ _ hw hd hb => hb.call hw.serial hw.last hw.deed hd) .refl h booked_init

/-- **and where no read of a Job that is there fails** -/
theorem accounted_of_reach (hread : ∀ p ev, ok p ev → JobRead p ev)
    (h : (service cfg settings).machine.Reach ok (Service.start .init) p) :
    Accounted cfg p.store p.trace := by
  refine along_passes (I := Accounted cfg) hok (fun _ _ _ hb ha => hb.aside ha) ?_ .refl h
    accounted_init
  intro r i c req x now t hw hd ha
  obtain ⟨hev, req', k, hth⟩ := hw.thread
  exact ha.call (booked_of_reach hok hw.reach) hw.serial hw.last hw.deed
    (hread _ _ hev i c req' _ k rfl hth) hd

/-- **what is left of a Job stays so** -/
theorem left_of_reach {φ : Job → Prop} (hφ : Steady φ)
    (h : (service cfg settings).machine.Reach ok (Service.start .init) p)
    (h' : (service cfg settings).machine.Reach ok p q) (hl : Left cfg φ p.store p.trace id) :
    Left cfg φ q.store q.trace id := by
  refine along_passes (I := fun s tr => Left cfg φ s tr id) hok (fun _ _ _ hl ha => hl.aside hφ ha) ?_
    h h' hl
  intro r i c req x now t hw hd hl
  exact hl.call hd fun id' hx => unborn_of_create hw.serial hw.last (hx ▸ hw.deed)

/-- a build that was started without a Job on record never has one -/
theorem unrecorded_of_reach (h : (service cfg settings).machine.Reach ok (Service.start .init) p)
    (h' : (service cfg settings).machine.Reach ok p q) (hu : Unrecorded p.store p.trace id) :
    Unrecorded q.store q.trace id :=
  along_passes (I := fun s tr => Unrecorded s tr id) hok (fun _ _ _ hu ha => hu.aside ha)
    (fun _ _ _ _ _ _ _ hw hd hu => hu.call hw.serial hw.last hw.deed hd) h h' hu

end

end

end Freepod.BuildWorker
