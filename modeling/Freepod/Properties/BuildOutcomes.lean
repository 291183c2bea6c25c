import Freepod.Runs.BuildJobs

/-!
# What becomes of a build

A read that fails looks like one that found nothing, and some reports raise or do not fit their
columns.

* `Truthful`: what a step must meet.
* `Earned`, `Deserved`: the grounds of an outcome, as facts of the run.
* `TrueOutcomes`, `build_outcomes`: the run-level result.
* `outcome_from_failure`: an outcome that a failed read decides, and a report that no pass gets past.
-/

set_option linter.unusedSectionVars false

namespace Freepod.BuildWorker
open Base

/-! ## What the steps must meet -/

section
variable [Python]

/-- the Job of the build whose message is read has been found to be there, and to have completed -/
def AtComplete (log : Log Ret) : Prop :=
  ∃ name j older, log = ⟨.getJob name, some (some j)⟩ :: older

/-- a read of the message of a complete Job raises, succeeds, or misses no image -/
def readsMessage (s : Store) (log : Log Ret) (c : Outcome) (o : Op) : Prop :=
  ∀ id, o = .readTerminationMessage id → AtComplete log →
    c = .raises ∨ c = .ok ∨ parseImage (terminationMessage (s.cluster.pods id)) = some none

/-- a message that is read is parsed without an exception, into values that fit their columns -/
def readsReport (s : Store) (log : Log Ret) (c : Outcome) (o : Op) : Prop :=
  ∀ id, o = .readTerminationMessage id → c = .ok →
    ∃ image usage, parseImage (terminationMessage (s.cluster.pods id)) = some image ∧
      parseUsage (terminationMessage (s.cluster.pods id)) = some usage ∧
      storable none usage = true ∧ (AtComplete log → storable image usage = true)

/-- what a step must meet -/
structure Truthful (p : WorkerPool) (ev : WorkerEvent) : Prop where
  serial : OneAtATime p ev
  job : JobRead p ev
  message : AtCalls readsMessage p ev
  report : AtCalls readsReport p ev

/-! ## Statuses -/

/-- the statuses that a build goes through -/
def Onward : BuildStatus → BuildStatus → Prop :=
  Relation.ReflTransGen fun a b => canTransition a b = true

variable {cfg : Config} {settings : Settings} {ok : WorkerPool → WorkerEvent → Prop}
  {p q : WorkerPool} {ev : WorkerEvent} {id : BuildId} {b b' : Build} {x : Base.Call Ret}

theorem Moves.onward (h : Moves cfg x b b') : Onward b.status b'.status := by
  cases h with
  | stays => exact .refl
  | claimed now call queued => exact queued ▸ .single rfl
  | recorded call => exact .refl
  | finished y now call row =>
    rw [row.running, row.status]
    refine .single ?_
    split <;> rfl

/-- what has ended keeps its image -/
theorem Moves.image (h : Moves cfg x b b') (hb : b.status.isTerminal = true) :
    b'.image = b.image := by
  cases h with
  | stays => rfl
  | claimed now call queued => rfl
  | recorded call => rfl
  | finished y now call row =>
    rw [row.running] at hb
    cases hb

/-- a build's status goes on, from queued, until it has ended -/
structure GoesOn (p q : WorkerPool) : Prop where
  moves : ∀ id b, p.store.state.builds.get? id = some b →
    ∃ b', q.store.state.builds.get? id = some b' ∧ Onward b.status b'.status
  final : ∀ id b, p.store.state.builds.get? id = some b → b.status.isTerminal = true →
    ∃ b', q.store.state.builds.get? id = some b' ∧ b'.status = b.status ∧ b'.image = b.image
  born : ∀ id b', p.store.state.builds.get? id = none → q.store.state.builds.get? id = some b' →
    Onward .queued b'.status

theorem goesOn_refl (p : WorkerPool) : GoesOn p p where
  moves := fun _ b hb => ⟨b, hb, .refl⟩
  final := fun _ b hb _ => ⟨b, hb, rfl, rfl⟩
  born := by
    intro id b' hnone hb
    rw [hnone] at hb
    cases hb

/-- a row after a step was there before it, or is queued -/
theorem origin_of_step (h : (service cfg settings).step p ev = some q)
    (hb : q.store.state.builds.get? id = some b') :
    (∃ b, p.store.state.builds.get? id = some b) ∨ b'.status = .queued := by
  obtain ⟨req, rfl, rfl⟩ | ⟨i, c, req, o, k, x, s, rfl, hth, hp, rfl⟩ | ⟨w, s, rfl, hw, rfl⟩ :=
    step_cases h
  · exact .inl ⟨b', hb⟩
  · exact .inl ((does_of_perform hp).origin hb)
  · rcases (aside_of_change hw).back hb with hold | ⟨-, hq, -⟩
    · exact .inl ⟨b', hold⟩
    · exact .inr hq

theorem GoesOn.step {r : WorkerPool} (h : GoesOn p q)
    (hs : (service cfg settings).step q ev = some r) : GoesOn p r where
  moves := by
    intro id b hb
    obtain ⟨b', hb', hon⟩ := h.moves id b hb
    obtain ⟨b'', x, hb'', hmove⟩ := moves_of_step hs hb'
    exact ⟨b'', hb'', hon.trans hmove.onward⟩
  final := by
    intro id b hb he
    obtain ⟨b', hb', hst, himage⟩ := h.final id b hb he
    obtain ⟨b'', x, hb'', hmove⟩ := moves_of_step hs hb'
    have he' : b'.status.isTerminal = true := hst ▸ he
    exact ⟨b'', hb'', (hmove.ended he').trans hst, (hmove.image he').trans himage⟩
  born := by
    intro id b'' hnone hb''
    rcases origin_of_step hs hb'' with ⟨b', hb'⟩ | hq
    · obtain ⟨b, x, hb, hmove⟩ := moves_of_step hs hb'
      rw [hb''] at hb
      cases hb
      exact (h.born id b' hnone hb').trans hmove.onward
    · exact hq ▸ .refl

theorem goesOn_of_reach (h : (service cfg settings).machine.Reach ok p q) : GoesOn p q :=
  h.invariant (P := GoesOn p) (goesOn_refl p) fun _ _ _ hr _ hs => hr.step hs

/-! ## The grounds of an outcome -/

/-- it was so in a state of the run -/
def Was (cfg : Config) (settings : Settings) (ok : WorkerPool → WorkerEvent → Prop) (q : WorkerPool)
    (P : WorkerPool → Prop) : Prop :=
  ∃ r, (service cfg settings).machine.Reach ok (Service.start .init) r ∧
    (service cfg settings).machine.Reach ok r q ∧ P r

/-- the build's Job is there, and meets the condition -/
def HasJob (cfg : Config) (id : BuildId) (P : Job → Bool) (p : WorkerPool) : Prop :=
  ∃ j, p.store.cluster.jobs (cfg.jobName id) = some j ∧ P j = true

/-- what the build's message reports -/
def Reports (id : BuildId) (image : Option String) (p : WorkerPool) : Prop :=
  parseImage (terminationMessage (p.store.cluster.pods id)) = some image

section
variable (cfg settings ok q id)

/-- the running build's message reported the image, and before that its Job was complete -/
def Earned (b : Build) : Prop :=
  ∃ i, i ≠ "" ∧ b.image = some i ∧ Was cfg settings ok q fun r => Running r.store id ∧
    Reports id (some i) r ∧ Was cfg settings ok r (HasJob cfg id Job.isComplete)

/-- what a build is failed for -/
inductive Deserved (b : Build) : Prop
  /-- no Job was recorded -/
  | unrecorded (row : b.jobId = none)
  /-- its Job was recorded, and not there -/
  | gone (job : Was cfg settings ok q fun r => Running r.store id ∧
      (∃ b, r.store.state.builds.get? id = some b ∧ b.jobId = some (cfg.jobName id)) ∧
      r.store.cluster.jobs (cfg.jobName id) = none)
  /-- it was running, and before that its Job had failed -/
  | failed (job : Was cfg settings ok q fun r => Running r.store id ∧
      Was cfg settings ok r (HasJob cfg id Job.isFailed))
  /-- its message reported no image, and before that its Job was complete -/
  | unreported (message : Was cfg settings ok q fun r => Running r.store id ∧ Reports id none r ∧
      Was cfg settings ok r (HasJob cfg id Job.isComplete))
  /-- its Job was at work, and before that its deadline and the grace were over -/
  | overdue (b : Build) (now : Time) (late : overdue cfg now b = true)
      (job : Was cfg settings ok q fun r => Running r.store id ∧
        HasJob cfg id (fun j => !j.isFinished) r ∧
        Was cfg settings ok r fun r => r.store.state.builds.get? id = some b ∧
          Was cfg settings ok r fun r => r.store.state.now = now)

end

variable {log : Log Ret} {i : Nat}

theorem suffix_of_eq {α : Type} {l l' : List α} (h : l = l') : l' <:+ l := h ▸ List.suffix_refl _

/-- a build that a pass has listed was so before a call of another kind -/
theorem Listed.older {c : Base.Call Ret} (h : Listed (c :: log) id)
    (hc : ∀ ids, c ≠ ⟨.running, ids⟩) : Listed log id := by
  obtain ⟨ids, hm, hid, hn⟩ := h
  rcases List.mem_cons.mp hm with heq | hm
  · exact absurd heq.symm (hc ids)
  · exact ⟨ids, hm, hid, fun hnd x now r hmade => hn hnd x now r (hmade.cons _)⟩

section
variable (hok : ∀ p ev, ok p ev → OneAtATime p ev)
  (h : (service cfg settings).machine.Reach ok (Service.start .init) q)
include h

/-- the state in which a Job was found -/
theorem was_of_getJob {name : String} {j : Job} {older : Log Ret}
    (hl : (⟨.getJob name, some (some j)⟩ : Base.Call Ret) :: older <:+ logOf i q.trace) :
    Was cfg settings ok q fun r => r.store.cluster.jobs name = some j ∧ logOf i r.trace = older := by
  obtain ⟨r, c, req, k, s, hr, hrq, hlog, -, -, hp⟩ := h.at_call hl
  obtain ⟨hx, -⟩ := Prod.mk.inj (Option.some.inj hp)
  exact ⟨r, hr, hrq, jobs_of_kubectl hx.symm, hlog⟩

/-- the state in which a row was read -/
theorem was_of_load {older : Log Ret}
    (hl : (⟨.load id, some b⟩ : Base.Call Ret) :: older <:+ logOf i q.trace) :
    Was cfg settings ok q fun r =>
      r.store.state.builds.get? id = some b ∧ logOf i r.trace = older := by
  obtain ⟨r, c, req, k, s, hr, hrq, hlog, -, -, hp⟩ := h.at_call hl
  obtain ⟨hx, -⟩ := Prod.mk.inj (Option.some.inj hp)
  exact ⟨r, hr, hrq, hx, hlog⟩

/-- what the clock showed -/
theorem was_of_now {now : Time} (hl : Made (logOf i q.trace) .now now) :
    Was cfg settings ok q fun r => r.store.state.now = now := by
  obtain ⟨older, hsuf⟩ := exists_suffix_of_mem hl
  obtain ⟨r, c, req, k, s, hr, hrq, -, -, -, hp⟩ := h.at_call hsuf
  obtain ⟨hx, -⟩ := Prod.mk.inj (Option.some.inj hp)
  exact ⟨r, hr, hrq, hx⟩

include hok

/-- **what an outcome rests on** -/
theorem evidence_of_ended (hb : q.store.state.builds.get? id = some b)
    (he : b.status.isTerminal = true) : ∃ r i y now,
      (service cfg settings).machine.Reach ok (Service.start .init) r ∧
      (service cfg settings).machine.Reach ok r q ∧ EndedWith b y ∧ Running r.store id ∧
      Listed (logOf i r.trace) id ∧ Evidence cfg now id (logOf i r.trace) y := by
  obtain ⟨e, hmem, y, now, hcall, hend⟩ := (booked_of_reach hok h).ended id b hb he
  have hmade := mem_logOf hmem
  rw [hcall] at hmade
  obtain ⟨older, hsuf⟩ := exists_suffix_of_mem hmade
  obtain ⟨r, c, req, k, s, hr, hrq, hlog, hev, hth, hp⟩ := h.at_call hsuf
  obtain ⟨hg, hbusy⟩ := busy_of_reach hok hr
  have hdeed := hg.next (meets_runPass cfg) hth
  exact ⟨r, e.who, y, now, hr, hrq, hend,
    hbusy.listed (hg.isLast (hok _ _ hev e.who c rfl)) hdeed.1, hdeed⟩

/-- **the build was running when the pass that had listed it made the call** -/
theorem listed_call {older : Log Ret} {o : Op} {x : Ret o} (hl : Listed older id)
    (hsuf : ⟨o, x⟩ :: older <:+ logOf i q.trace) :
    ∃ r c req k s, (service cfg settings).machine.Reach ok (Service.start .init) r ∧
      (service cfg settings).machine.Reach ok r q ∧ logOf i r.trace = older ∧
      ok r (.run i c) ∧ r.threads[i]? = some ⟨req, .call o k⟩ ∧
      perform cfg r.store o c = some (x, s) ∧ Running r.store id := by
  obtain ⟨r, c, req, k, s, hr, hrq, hlog, hev, hth, hp⟩ := h.at_call hsuf
  obtain ⟨hg, hbusy⟩ := busy_of_reach hok hr
  exact ⟨r, c, req, k, s, hr, hrq, hlog, hev, hth, hp,
    hbusy.listed (hg.isLast (hok _ _ hev i c rfl)) (hlog ▸ hl)⟩

/-- an image that was read was reported -/
theorem was_of_image {m : Option String} {image : String} {older : Log Ret} (hl : Listed older id)
    (hsuf : (⟨.readTerminationMessage id, some m⟩ : Base.Call Ret) :: older <:+ logOf i q.trace)
    (himage : parseImage m = some (some image)) : Was cfg settings ok q fun r =>
      Running r.store id ∧ Reports id (some image) r ∧ logOf i r.trace = older := by
  obtain ⟨r, c, req, k, s, hr, hrq, hlog, -, -, hp, hrun⟩ := listed_call hok h hl hsuf
  obtain ⟨hx, -⟩ := Prod.mk.inj (Option.some.inj hp)
  refine ⟨r, hr, hrq, hrun, ?_, hlog⟩
  cases c with
  | ok =>
    show parseImage _ = _
    rw [Option.some.inj hx]
    exact himage
  | fails =>
    obtain rfl := Option.some.inj hx
    cases himage
  | raises => cases hx
  | lost =>
    obtain rfl := Option.some.inj hx
    cases himage

/-- and where no read of a complete Job's message fails, none was reported if none was read -/
theorem was_of_no_image (hmessage : ∀ p ev, ok p ev → AtCalls readsMessage p ev)
    {m : Option String} {name : String} {j : Job} {older : Log Ret}
    (hl : Listed (⟨.getJob name, some (some j)⟩ :: older) id)
    (hsuf : (⟨.readTerminationMessage id, some m⟩ : Base.Call Ret) ::
      ⟨.getJob name, some (some j)⟩ :: older <:+ logOf i q.trace)
    (himage : parseImage m = some none) : Was cfg settings ok q fun r => Running r.store id ∧
      Reports id none r ∧ logOf i r.trace = ⟨.getJob name, some (some j)⟩ :: older := by
  obtain ⟨r, c, req, k, s, hr, hrq, hlog, hev, hth, hp, hrun⟩ := listed_call hok h hl hsuf
  obtain ⟨hx, -⟩ := Prod.mk.inj (Option.some.inj hp)
  refine ⟨r, hr, hrq, hrun, ?_, hlog⟩
  rcases hmessage r _ hev i c req _ k rfl hth id rfl ⟨name, j, older, hlog⟩ with rfl | rfl | hnone
  · cases hx
  · show parseImage _ = _
    rw [Option.some.inj hx]
    exact himage
  · exact hnone

/-- a running build that a pass finds without a Job on record never has one -/
theorem unrecorded_of_load {older : Log Ret} (hl : Listed older id) (hj : b.jobId = none)
    (hsuf : (⟨.load id, some b⟩ : Base.Call Ret) :: older <:+ logOf i q.trace) :
    Unrecorded q.store q.trace id := by
  obtain ⟨r, c, req, k, s, hr, hrq, hlog, hev, hth, hp, b', hb', hrun⟩ := listed_call hok h hl hsuf
  obtain ⟨hx, -⟩ := Prod.mk.inj (Option.some.inj hp)
  have hg := (busy_of_reach hok hr).1
  have heq : some b' = some b := hb'.symm.trans hx
  obtain rfl := Option.some.inj heq
  refine unrecorded_of_reach hok hr hrq ⟨⟨b', hb', hj, ?_⟩, fun hc => ?_⟩
  · rw [hrun]
    exact fun heq => nomatch heq
  · -- the last call of all is the one before the row was read
    obtain ⟨fresh, y, log, hlast⟩ : ∃ fresh y log, logOf i r.trace = ⟨.mirror id fresh, y⟩ :: log :=
      hg.next (meets_runPass cfg) hth
    obtain ⟨e, l, htrace, -, hcall, -⟩ :=
      (hr.serial hok).head (hg.isLast (hok _ _ hev i c rfl)) hlast
    rw [htrace] at hc
    cases hc with
    | claimed call =>
      rw [hcall] at call
      cases call
    | created call' call =>
      rw [hcall] at call'
      cases call'

end

/-- **a build is succeeded only if its Job completed and reported the image that is stored** -/
theorem earned_of_reach (hok : ∀ p ev, ok p ev → OneAtATime p ev)
    (h : (service cfg settings).machine.Reach ok (Service.start .init) q)
    (hb : q.store.state.builds.get? id = some b) (hs : b.status = .succeeded) :
    Earned cfg settings ok q id b := by
  obtain ⟨r, i, y, now, hr, hrq, hend, -, hlisted, hev⟩ := evidence_of_ended hok h hb (hs ▸ rfl)
  have himage : y.image.isSome = true := by
    have hst := hend.status
    rw [hs] at hst
    split at hst
    · assumption
    · cases hst
  have hbook := booked_of_reach hok hr
  generalize hlog : logOf i r.trace = log at hev hlisted
  cases hev with
  | @complete b' name j m image usage older row job reported used =>
    have hname : name = cfg.jobName id :=
      hbook.name_of_row (hlog ▸ ((made_head _ _ _).cons _).cons _) row
    obtain ⟨image, rfl⟩ := Option.isSome_iff_exists.mp himage
    obtain ⟨hstored, hne⟩ := hend.image image rfl
    obtain ⟨r1, h1, h1r, hrun, hreport, hlog1⟩ :=
      was_of_image hok hr (hlisted.older fun _ heq => nomatch heq) (suffix_of_eq hlog) reported
    obtain ⟨r2, h2, h21, hjob, -⟩ := was_of_getJob h1 (suffix_of_eq hlog1)
    exact ⟨image, hne, hstored, r1, h1, h1r.trans hrq, hrun, hreport, r2, h2, h21, j,
      hname ▸ hjob, job⟩
  | unrecorded row => cases himage
  | gone row => cases himage
  | failed row job used => cases himage
  | overdue row job late clock => cases himage

/-- **where no read fails, a build is failed only for what has become of its Job** -/
theorem deserved_of_reach (hok : ∀ p ev, ok p ev → OneAtATime p ev)
    (hread : ∀ p ev, ok p ev → JobRead p ev)
    (hmessage : ∀ p ev, ok p ev → AtCalls readsMessage p ev)
    (h : (service cfg settings).machine.Reach ok (Service.start .init) q)
    (hb : q.store.state.builds.get? id = some b) (hf : b.status = .failed) :
    Deserved cfg settings ok q id b := by
  obtain ⟨r, i, y, now, hr, hrq, hend, hrun, hlisted, hev⟩ :=
    evidence_of_ended hok h hb (hf ▸ rfl)
  have himage : y.image = none := by
    have hst := hend.status
    rw [hf] at hst
    split at hst
    · cases hst
    · rename_i hnone
      exact Option.not_isSome_iff_eq_none.mp hnone
  have hbook := booked_of_reach hok hr
  generalize hlog : logOf i r.trace = log at hev hlisted
  cases hev with
  | unrecorded row =>
    have hl := (hlisted.older fun _ heq => nomatch heq).older fun _ heq => nomatch heq
    have hun := unrecorded_of_load hok hr hl row (hlog ▸ List.suffix_cons _ _)
    obtain ⟨b', hb', hj, -⟩ := (unrecorded_of_reach hok hr hrq hun).row
    rw [hb] at hb'
    exact .unrecorded (Option.some.inj hb' ▸ hj)
  | @gone b' name older row =>
    have hname : name = cfg.jobName id := hbook.name_of_row (hlog ▸ (made_head _ _ _).cons _) row
    subst hname
    obtain ⟨r1, c, req, k, s, h1, h1r, hlog1, hev1, hth, hp, hrun⟩ :=
      listed_call hok hr (hlisted.older fun _ heq => nomatch heq) (suffix_of_eq hlog)
    obtain ⟨hx, -⟩ := Prod.mk.inj (Option.some.inj hp)
    have hnone := absent_of_kubectl (hread r1 _ hev1 i c req _ k rfl hth) hx.symm
    obtain ⟨r2, h2, h21, hrow, -⟩ := was_of_load h1 (suffix_of_eq hlog1)
    exact .gone ⟨r1, h1, h1r.trans hrq, hrun, recorded_of_reach h21 hrow row, hnone⟩
  | @complete b' name j m image usage older row job reported used =>
    have himage : image = none := himage
    subst himage
    have hname : name = cfg.jobName id :=
      hbook.name_of_row (hlog ▸ ((made_head _ _ _).cons _).cons _) row
    obtain ⟨r1, h1, h1r, hrun, hreport, hlog1⟩ := was_of_no_image hok hr hmessage
      (hlisted.older fun _ heq => nomatch heq) (suffix_of_eq hlog) reported
    obtain ⟨r2, h2, h21, hjob, -⟩ := was_of_getJob h1 (suffix_of_eq hlog1)
    exact .unreported ⟨r1, h1, h1r.trans hrq, hrun, hreport, r2, h2, h21, j, hname ▸ hjob, job⟩
  | @failed b' name j m line usage newer older row job used =>
    have hl : (⟨.getJob name, some (some j)⟩ : Base.Call Ret) :: ⟨.load id, some b'⟩ :: older <:+
        logOf i r.trace := ⟨_ :: newer, hlog.symm⟩
    have hname : name = cfg.jobName id :=
      hbook.name_of_row (hl.subset (List.mem_cons_of_mem _ List.mem_cons_self)) row
    obtain ⟨r1, h1, h1r, hjob, -⟩ := was_of_getJob hr hl
    exact .failed ⟨r, hr, hrq, hrun, r1, h1, h1r, j, hname ▸ hjob, job⟩
  | @overdue b' name j older row job late clock =>
    have hname : name = cfg.jobName id :=
      hbook.name_of_row (hlog ▸ ((made_head _ _ _).cons _).cons _) row
    have hl := (hlisted.older fun _ heq => nomatch heq).older fun _ heq => nomatch heq
    obtain ⟨r1, c, req, k, s, h1, h1r, hlog1, -, -, hp, hrun⟩ :=
      listed_call hok hr hl (hlog ▸ List.suffix_cons _ _)
    obtain ⟨hx, -⟩ := Prod.mk.inj (Option.some.inj hp)
    obtain ⟨r2, h2, h21, hrow, hlog2⟩ := was_of_load h1 (suffix_of_eq hlog1)
    have hactive : (!j.isFinished) = true := by
      rw [job]
      rfl
    exact .overdue b' now late ⟨r1, h1, h1r.trans hrq, hrun,
      ⟨j, hname ▸ jobs_of_kubectl hx.symm, hactive⟩, r2, h2, h21, hrow, was_of_now h2 (hlog2 ▸ clock)⟩

/-! ## A finished Job -/

/-- a pass that comes later, and that nothing disturbs, ends the build -/
def Prompt (cfg : Config) (p q : WorkerPool) : Prop :=
  ∀ id b, p.store.state.builds.get? id = some b → b.status = .running →
    HasJob cfg id Job.isFinished p → ∀ i t u, p.threads.length ≤ i → q.threads[i]? = some t →
    t.prog.answer? = some u → ¬ Disturbed cfg (logOf i q.trace) id →
    ∃ b', q.store.state.builds.get? id = some b' ∧ b'.status.isTerminal = true

theorem Moves.running_or_ended (h : Moves cfg x b b')
    (hb : b.status = .running ∨ b.status.isTerminal = true) :
    b'.status = .running ∨ b'.status.isTerminal = true := by
  cases h with
  | stays => exact hb
  | claimed now call queued => exact .inl rfl
  | recorded call => exact hb
  | finished y now call row =>
    rw [row.status]
    split
    · exact .inr rfl
    · exact .inr rfl

/-- a running build goes on running until it has ended -/
theorem running_or_ended (h : (service cfg settings).machine.Reach ok p q)
    (hb : p.store.state.builds.get? id = some b) (hr : b.status = .running) :
    ∃ b', q.store.state.builds.get? id = some b' ∧
      (b'.status = .running ∨ b'.status.isTerminal = true) := by
  refine h.invariant (P := fun q => ∃ b', q.store.state.builds.get? id = some b' ∧
    (b'.status = .running ∨ b'.status.isTerminal = true)) ⟨b, hb, .inl hr⟩ ?_
  rintro r ev r' ⟨b', hb', hs⟩ - hstep
  obtain ⟨b'', x, hb'', hmove⟩ := moves_of_step hstep hb'
  exact ⟨b'', hb'', hmove.running_or_ended hs⟩

/-- nothing is read where there is no message -/
theorem parse_none : parseImage none = some none ∧ parseUsage none = some none := ⟨rfl, rfl⟩

section
variable (hreport : ∀ p ev, ok p ev → AtCalls readsReport p ev)
  (h : (service cfg settings).machine.Reach ok (Service.start .init) q)
include hreport h

/-- **a message that was read was parsed** -/
theorem parsed_of_read {m : Option String} {older : Log Ret}
    (hl : (⟨.readTerminationMessage id, some m⟩ : Base.Call Ret) :: older <:+ logOf i q.trace) :
    ∃ image usage, parseImage m = some image ∧ parseUsage m = some usage ∧
      storable none usage = true ∧ (AtComplete older → storable image usage = true) := by
  obtain ⟨r, c, req, k, s, hr, hrq, hlog, hev, hth, hp⟩ := h.at_call hl
  obtain ⟨hx, -⟩ := Prod.mk.inj (Option.some.inj hp)
  have hnone : m = none → ∃ image usage, parseImage m = some image ∧ parseUsage m = some usage ∧
      storable none usage = true ∧ (AtComplete older → storable image usage = true) := by
    rintro rfl
    exact ⟨none, none, parse_none.1, parse_none.2, rfl, fun _ => rfl⟩
  cases c with
  | ok =>
    have hread := hreport r _ hev i .ok req _ k rfl hth id rfl rfl
    rw [Option.some.inj hx, hlog] at hread
    exact hread
  | fails => exact hnone (Option.some.inj hx).symm
  | raises => cases hx
  | lost => exact hnone (Option.some.inj hx).symm

/-- what a pass finishes a build with fits its columns -/
theorem Evidence.storable {y : Finish} {now : Time}
    (he : Evidence cfg now id (logOf i q.trace) y) : storable y.image y.usage = true := by
  generalize hlog : logOf i q.trace = log at he
  cases he with
  | unrecorded row => rfl
  | gone row => rfl
  | overdue row job late clock => rfl
  | @complete b name j m image usage older row job reported used =>
    obtain ⟨image', usage', himage, husage, -, hstore⟩ :=
      parsed_of_read hreport h (suffix_of_eq hlog)
    rw [reported] at himage
    rw [used] at husage
    cases himage
    cases husage
    exact hstore ⟨name, j, _, rfl⟩
  | @failed b name j m line usage newer older row job used =>
    obtain ⟨image', usage', -, husage, hstore, -⟩ :=
      parsed_of_read hreport h (suffix_of_eq hlog)
    rw [used] at husage
    cases husage
    exact hstore

end

/-- no end of a build is refused -/
theorem not_refused (hok : ∀ p ev, ok p ev → OneAtATime p ev)
    (hreport : ∀ p ev, ok p ev → AtCalls readsReport p ev)
    (h : (service cfg settings).machine.Reach ok (Service.start .init) q) {y : Finish} {now : Time} :
    ¬ Made (logOf i q.trace) (.finish id y now) .refused := by
  intro hmade
  obtain ⟨older, hsuf⟩ := exists_suffix_of_mem hmade
  obtain ⟨r, c, req, k, s, hr, hrq, -, hev, hth, hp⟩ := h.at_call hsuf
  obtain ⟨hg, hbusy⟩ := busy_of_reach hok hr
  obtain ⟨hlisted, hevidence⟩ := hg.next (meets_runPass cfg) hth
  obtain ⟨b, hb, hrun⟩ := hbusy.listed (hg.isLast (hok _ _ hev i c rfl)) hlisted
  obtain ⟨t, ht⟩ := exists_finish now hb hrun hevidence.image_ne
    (hevidence.storable hreport hr)
  have hd : Does cfg r.store c ⟨.finish id y now, .refused⟩ s := does_of_perform hp
  generalize hx : (⟨.finish id y now, .refused⟩ : Base.Call Ret) = x at hd
  cases hd with
  | looks found =>
    subst hx
    rcases found with heq | ⟨-, hnone⟩
    · cases heq
    · rw [ht] at hnone
      cases hnone
  | mirrors => cases hx
  | deletes => cases hx
  | finishes => cases hx
  | claims => cases hx
  | creates => cases hx
  | records => cases hx

/-- **where no report raises, the next pass that nothing disturbs ends a build whose Job has
finished** -/
theorem prompt_of_reach (hok : ∀ p ev, ok p ev → OneAtATime p ev)
    (hreport : ∀ p ev, ok p ev → AtCalls readsReport p ev)
    (h : (service cfg settings).machine.Reach ok (Service.start .init) p)
    (h' : (service cfg settings).machine.Reach ok p q) : Prompt cfg p q := by
  rintro id b hb hrun ⟨j, hj, hfin⟩ i t u hi ht hans hcalm
  have hq := h.trans h'
  have hbook := booked_of_reach hok hq
  obtain ⟨ids, hmade, hall⟩ := (busy_of_reach hok hq).1.answered (meets_runPass cfg) ht hans
  -- the pass lists what is running
  obtain ⟨older, hsuf⟩ := exists_suffix_of_mem hmade
  obtain ⟨r, c, req, k, s, hpr, hrq, -, -, -, hperf⟩ := h.at_call_after h' hi hsuf
  obtain ⟨b1, hb1, hstatus⟩ := running_or_ended hpr hb hrun
  rcases hstatus with hrun1 | hend
  swap
  · obtain ⟨b2, hb2, hst⟩ := ended_of_reach hrq hb1 hend
    exact ⟨b2, hb2, hst.symm ▸ hend⟩
  obtain ⟨hids, -⟩ := Prod.mk.inj (Option.some.inj hperf)
  have hin : id ∈ ids := hids ▸ mem_runningBuilds.mpr ⟨b1, hb1, hrun1⟩
  cases hall id hin with
  | finished made =>
    obtain ⟨e, l, he, -, hcall⟩ := entry_of_mem_logOf made
    exact hbook.finished e (mem_of_cons_suffix he) id _ _ hcall
  | refused made => exact absurd made (not_refused hok hreport hq)
  | @active b' name j' older' row seen job =>
    -- the Job has not started again
    obtain ⟨r1, c1, req1, k1, s1, hpr1, -, hlog1, -, -, hp1⟩ := h.at_call_after h' hi seen
    obtain ⟨hx, -⟩ := Prod.mk.inj (Option.some.inj hp1)
    have hname : name = cfg.jobName id :=
      (booked_of_reach hok (h.trans hpr1)).name_of_row (hlog1 ▸ made_head _ _ _) row
    have hborn : ¬ Unborn p.store p.trace id := by
      intro hu
      rw [(booked_of_reach hok h).free id hu] at hj
      cases hj
    have hleft : Left cfg (fun j => j.isFinished = true) p.store p.trace id := by
      refine ⟨hborn, fun j0 hj0 => ?_⟩
      rw [hj] at hj0
      exact Option.some.inj hj0 ▸ hfin
    have hover := (left_of_reach hok steady_finished h hpr1 hleft).job j'
      (hname ▸ jobs_of_kubectl hx.symm)
    rw [job] at hover
    cases hover
  | missing made =>
    obtain ⟨l, hl⟩ := exists_suffix_of_mem made
    obtain ⟨r1, c1, req1, k1, s1, hpr1, -, -, -, -, hp1⟩ := h.at_call_after h' hi hl
    obtain ⟨hx, -⟩ := Prod.mk.inj (Option.some.inj hp1)
    obtain ⟨b2, hb2, -⟩ := running_or_ended hpr1 hb hrun
    have hnone : none = some b2 := hx.symm.trans hb2
    cases hnone
  | @unreadable m made bad =>
    obtain ⟨l, hl⟩ := exists_suffix_of_mem made
    obtain ⟨-, usage, -, husage, -⟩ := parsed_of_read hreport hq hl
    rw [bad] at husage
    cases husage
  | disturbed call => exact absurd call hcalm

/-! ## The claim -/

/-- what is promised of the outcomes in a run from `p` to `q` -/
structure TrueOutcomes (cfg : Config) (settings : Settings) (ok : WorkerPool → WorkerEvent → Prop)
    (p q : WorkerPool) : Prop where
  onward : GoesOn p q
  succeeded : ∀ id b, q.store.state.builds.get? id = some b → b.status = .succeeded →
    Earned cfg settings ok q id b
  failed : ∀ id b, q.store.state.builds.get? id = some b → b.status = .failed →
    Deserved cfg settings ok q id b
  prompt : Prompt cfg p q
  deleted : ∀ id b, q.store.state.builds.get? id = some b → b.status = .failed →
    HasJob cfg id (fun j => !j.isFinished) q → Asked q.trace (cfg.jobName id)

/-- **where no read of what is there fails, and every report can be parsed and stored, outcomes are
true and final** -/
theorem build_outcomes (cfg : Config) (settings : Settings) {ok : WorkerPool → WorkerEvent → Prop}
    (hok : ∀ p ev, ok p ev → Truthful p ev) {p q : WorkerPool}
    (h : (service cfg settings).machine.Reach ok (Service.start .init) p)
    (h' : (service cfg settings).machine.Reach ok p q) : TrueOutcomes cfg settings ok p q := by
  have hserial : ∀ p ev, ok p ev → OneAtATime p ev := fun p ev hev => (hok p ev hev).serial
  have hread : ∀ p ev, ok p ev → JobRead p ev := fun p ev hev => (hok p ev hev).job
  have hmessage : ∀ p ev, ok p ev → AtCalls readsMessage p ev := fun p ev hev => (hok p ev hev).message
  have hreport : ∀ p ev, ok p ev → AtCalls readsReport p ev := fun p ev hev => (hok p ev hev).report
  refine ⟨goesOn_of_reach h', ?_, ?_, prompt_of_reach hserial hreport h h', ?_⟩
  · intro id b hb hs
    exact earned_of_reach hserial (h.trans h') hb hs
  · intro id b hb hf
    exact deserved_of_reach hserial hread hmessage (h.trans h') hb hf
  · rintro id b hb hf ⟨j, hj, hactive⟩
    have hactive : (!j.isFinished) = true := hactive
    rcases (accounted_of_reach hserial hread (h.trans h')).left id b hb (hf ▸ rfl) j hj with hfin | hasked
    · rw [hfin] at hactive
      cases hactive
    · exact hasked

end

/-! ## Outcomes at work -/

local instance outcomePython : Python := Sample.python

variable {ok : WorkerPool → WorkerEvent → Prop} {p q : WorkerPool} {ev : WorkerEvent} {id : BuildId}

namespace Sample

/-- a check of a call and of what becomes of it, of the request that arrived last -/
def passes (check : Store → Outcome → Op → Bool) (p : WorkerPool) : WorkerEvent → Bool
  | .run i c => decide (i + 1 = p.threads.length) &&
    match p.threads[i]? with
    | some ⟨_, .call o _⟩ => check p.store c o
    | _ => true
  | _ => true

theorem late_of_passes {check : Store → Outcome → Op → Bool} (h : passes check p ev = true) :
    OneAtATime p ev := by
  rintro i c rfl
  exact of_decide_eq_true ((Bool.and_eq_true _ _).mp h).1

theorem atCalls_of_passes {check : Store → Outcome → Op → Bool}
    {P : Store → Log Ret → Outcome → Op → Prop}
    (hP : ∀ s log c o, check s c o = true → P s log c o) (h : passes check p ev = true) :
    AtCalls P p ev := by
  rintro i c req o k rfl hth
  have hcheck := ((Bool.and_eq_true _ _).mp h).2
  rw [hth] at hcheck
  exact hP _ _ _ _ hcheck

/-- no read of a Job fails -/
def jobCheck (_ : Store) (c : Outcome) : Op → Bool
  | .getJob _ => decide (c = .ok)
  | _ => true

/-- no read of a message fails -/
def messageCheck (_ : Store) (c : Outcome) : Op → Bool
  | .readTerminationMessage _ => decide (c = .ok)
  | _ => true

/-- a message that is read can be parsed and stored -/
def reportCheck (s : Store) (_ : Outcome) : Op → Bool
  | .readTerminationMessage id =>
    match parseImage (terminationMessage (s.cluster.pods id)),
      parseUsage (terminationMessage (s.cluster.pods id)) with
    | some image, some usage => storable image usage
    | _, _ => false
  | _ => true

theorem job_read (s : Store) (log : Log Ret) (c : Outcome) (o : Op) (h : jobCheck s c o = true) :
    readsJob s log c o := by
  rintro name rfl
  exact .inr (.inl (of_decide_eq_true h))

theorem message_read (s : Store) (log : Log Ret) (c : Outcome) (o : Op)
    (h : messageCheck s c o = true) : readsMessage s log c o := by
  rintro id rfl -
  exact .inr (.inl (of_decide_eq_true h))

theorem storable_usage {image : Option String} {usage : Option BuildUsage}
    (h : storable image usage = true) : storable none usage = true := by
  unfold storable at h ⊢
  exact (Bool.and_eq_true _ _).mpr ⟨rfl, ((Bool.and_eq_true _ _).mp h).2⟩

theorem report_read (s : Store) (log : Log Ret) (c : Outcome) (o : Op)
    (h : reportCheck s c o = true) : readsReport s log c o := by
  rintro id rfl -
  simp only [reportCheck] at h
  split at h
  · rename_i image usage himage husage
    exact ⟨image, usage, himage, husage, storable_usage h, fun _ => h⟩
  · cases h

/-- the container of the build has ended with a message -/
def ended (message : String) : WorkerEvent :=
  .world (.pods 2 [⟨none, none, [], [⟨"build", some ⟨0, some message, none⟩⟩]⟩])

def truthfulCheck (s : Store) (c : Outcome) (o : Op) : Bool :=
  jobCheck s c o && messageCheck s c o && reportCheck s c o

theorem truthful (h : passes truthfulCheck p ev = true) : Truthful p ev := by
  have hall : ∀ s c o, truthfulCheck s c o = true →
      (jobCheck s c o = true ∧ messageCheck s c o = true) ∧ reportCheck s c o = true := by
    intro s c o h
    simpa only [truthfulCheck, Bool.and_eq_true] using h
  exact ⟨late_of_passes h,
    atCalls_of_passes (fun s log c o h => job_read s log c o (hall s c o h).1.1) h,
    atCalls_of_passes (fun s log c o h => message_read s log c o (hall s c o h).1.2) h,
    atCalls_of_passes (fun s log c o h => report_read s log c o (hall s c o h).2) h⟩

def imageOf (p : WorkerPool) : Option String := (p.store.state.builds.get? 2).bind Build.image

end Sample

/-- a pass breaks off while the build's Job completes, and the next one stores its image -/
theorem build_outcomes_succeeded : ∃ p q, Sample.statusOf p = some .running ∧
    Sample.statusOf q = some .succeeded ∧ Sample.imageOf q = some Sample.image ∧
    TrueOutcomes (Sample.config 100) .sample Truthful p q := by
  obtain ⟨p, h, -, hp⟩ := Machine.exists_reach_of_runIf
    (M := (service (Sample.config 100) .sample).machine) (k := Truthful)
    (P := fun _ => True) (c := Sample.passes Sample.truthfulCheck) (fun _ _ _ _ _ _ => trivial)
    (fun _ _ _ h => Sample.truthful h) trivial
    (l := Sample.started ++ .arrive () :: Sample.quiet 1 5 ++ [Sample.ended Sample.report,
      Sample.job 1 0])
    (p := fun p => decide (Sample.statusOf p = some .running) &&
      ((service (Sample.config 100) .sample).machine.runIf (Sample.passes Sample.truthfulCheck) p
        (.arrive () :: Sample.quiet 2 10)).any fun q =>
          decide (Sample.statusOf q = some .succeeded ∧ Sample.imageOf q = some Sample.image))
    (s := Service.start .init) (by decide +kernel)
  obtain ⟨hrun, hq⟩ := (Bool.and_eq_true _ _).mp hp
  obtain ⟨q, h', -, hq⟩ := Machine.exists_reach_of_runIf
    (M := (service (Sample.config 100) .sample).machine) (k := Truthful)
    (P := fun _ => True) (c := Sample.passes Sample.truthfulCheck) (fun _ _ _ _ _ _ => trivial)
    (fun _ _ _ h => Sample.truthful h) trivial hq
  obtain ⟨hsucceeded, himage⟩ := of_decide_eq_true hq
  exact ⟨p, q, of_decide_eq_true hrun, hsucceeded, himage,
    build_outcomes (Sample.config 100) .sample (fun _ _ h => h) h h'⟩

/-! ## Failures and reports that decide -/

namespace Sample

/-- no deletion of a Job has been asked for -/
def neverAsked (p : WorkerPool) : Bool :=
  p.trace.all fun e => match e.call with
    | ⟨.deleteJob _, _⟩ => false
    | _ => true

theorem not_asked {name : String} (h : neverAsked p = true) : ¬ Asked p.trace name := by
  rintro ⟨e, he, hcall⟩
  have hall := List.all_eq_true.mp h e he
  rw [hcall] at hall
  cases hall

/-- the Job of the build is at work -/
def jobActive (p : WorkerPool) : Bool :=
  (p.store.cluster.jobs ((config 100).jobName 2)).any fun j => !j.isFinished

theorem status_of {status : BuildStatus} (h : statusOf p = some status) :
    ∃ b, p.store.state.builds.get? 2 = some b ∧ b.status = status := Option.map_eq_some_iff.mp h

/-- the call was neither an exception nor rolled back -/
def undisturbed : Base.Call Ret → Bool
  | ⟨.readLog _, x⟩ => x.isSome
  | ⟨.mirror _ _, x⟩ => decide (x = .done)
  | ⟨.getJob _, x⟩ => x.isSome
  | ⟨.deleteJob _, x⟩ => x.isSome
  | ⟨.readTerminationMessage _, x⟩ => x.isSome
  | ⟨.readGateFailure _, x⟩ => x.isSome
  | ⟨.readEviction _, x⟩ => x.isSome
  | ⟨.finish _ _ _, x⟩ => decide (x ≠ .rolledBack)
  | _ => true

theorem calm {cfg : Config} {log : Log Ret} (h : log.all undisturbed = true) :
    ¬ Disturbed cfg log id := by
  have hall : ∀ c ∈ log, undisturbed c = true := List.all_eq_true.mp h
  rintro (⟨made⟩ | ⟨made, undone⟩ | ⟨-, made⟩ | ⟨-, made⟩ | ⟨made⟩ | ⟨made⟩ | ⟨made⟩ | ⟨made⟩)
  · cases hall _ made
  · exact undone (of_decide_eq_true (hall _ made))
  · cases hall _ made
  · cases hall _ made
  · cases hall _ made
  · cases hall _ made
  · cases hall _ made
  · cases hall _ made

/-- it is no later than at the start, and the Job has not failed, and is there once it is recorded; the
container of the build has reported an image -/
def reported (p : WorkerPool) : Bool :=
  decide (p.store.state.now = 0) &&
  ((p.store.cluster.jobs ((config 100).jobName 2)).all fun j => !j.isFailed) &&
  (p.store.state.builds.get? 2).all fun b =>
    (decide (b.jobId = none) || (p.store.cluster.jobs ((config 100).jobName 2)).isSome) &&
      decide (parseImage (terminationMessage (p.store.cluster.pods 2)) = some (some image))

/-- what a step meets that starts in such a state -/
def whileReported (check : Store → Outcome → Op → Bool) (p : WorkerPool) (ev : WorkerEvent) : Bool :=
  passes check p ev && reported p

/-- every state on the way was such a state -/
theorem reported_of_reach {check : Store → Outcome → Op → Bool} {cfg : Config}
    (hok : ∀ p ev, ok p ev → whileReported check p ev = true) (hq : reported q = true)
    (h : (service cfg .sample).machine.Reach ok p q) : reported p = true := by
  rcases Relation.ReflTransGen.cases_head h with rfl | ⟨r, ⟨ev, hev, -⟩, -⟩
  · exact hq
  · exact ((Bool.and_eq_true _ _).mp (hok p ev hev)).2

/-- **a build whose Job is there and has not failed does not deserve to be failed** -/
theorem undeserved {check : Store → Outcome → Op → Bool} {b : Build}
    (hok : ∀ p ev, ok p ev → whileReported check p ev = true) (hq : reported q = true)
    (hb : b.jobId ≠ none) : ¬ Deserved (config 100) .sample ok q 2 b := by
  have parts : ∀ r, reported r = true → r.store.state.now = 0 ∧
      (∀ j, r.store.cluster.jobs ((config 100).jobName 2) = some j → j.isFailed = false) ∧
      ∀ b, r.store.state.builds.get? 2 = some b →
        (b.jobId = none ∨ (r.store.cluster.jobs ((config 100).jobName 2)).isSome = true) ∧
          Reports 2 (some image) r := by
    intro r hr
    simp only [reported, Bool.and_eq_true, decide_eq_true_eq] at hr
    obtain ⟨⟨hnow, hjob⟩, hrow⟩ := hr
    refine ⟨hnow, fun j hj => ?_, fun b hb => ?_⟩
    · rw [hj] at hjob
      exact (Bool.not_eq_true' _).mp hjob
    · rw [hb] at hrow
      unfold Reports
      simpa only [Option.all_some, Bool.and_eq_true, Bool.or_eq_true, decide_eq_true_eq] using hrow
  have far : ∀ r, (service (config 100) .sample).machine.Reach ok r q → reported r = true :=
    fun r h => reported_of_reach hok hq h
  rintro (hnone | ⟨r, -, hr, -, ⟨b', hb', hj⟩, hgone⟩ | ⟨r, -, hr, -, r1, -, h1, j, hj, hf⟩ |
    ⟨r, -, hr, ⟨b', hb', -⟩, hnone, -⟩ | ⟨b', now, late, r, -, hr, -, -, r1, -, h1, -, r2, -, h2, hnow⟩)
  · exact hb hnone
  · rcases ((parts r (far r hr)).2.2 b' hb').1 with hnone | hsome
    · rw [hj] at hnone
      cases hnone
    · rw [hgone] at hsome
      cases hsome
  · rw [(parts r1 (far r1 (h1.trans hr))).2.1 j hj] at hf
    cases hf
  · have heq := ((parts r (far r hr)).2.2 b' hb').2.symm.trans hnone
    cases heq
  · have hzero := (parts r2 (far r2 (h2.trans (h1.trans hr)))).1
    rw [hzero] at hnow
    subst hnow
    unfold BuildWorker.overdue at late
    obtain ⟨started, -, hlate⟩ := (Option.any_eq_true _ _).mp late
    exact Nat.not_lt_zero _ (of_decide_eq_true hlate)

def jobFinished (p : WorkerPool) : Bool :=
  (p.store.cluster.jobs ((config 100).jobName 2)).any fun j => j.isFinished

/-- the pass has come to its end, and nothing has disturbed it -/
def passedBy (i : Nat) (p : WorkerPool) : Bool :=
  (p.threads[i]?).any (fun t => t.prog.answer?.isSome) && (logOf i p.trace).all undisturbed

theorem passed {cfg : Config} {i : Nat} (h : passedBy i p = true) : ∃ t u, p.threads[i]? = some t ∧
    t.prog.answer? = some u ∧ ¬ Disturbed cfg (logOf i p.trace) id := by
  obtain ⟨hend, hcalm⟩ := (Bool.and_eq_true _ _).mp h
  obtain ⟨t, ht, hans⟩ := (Option.any_eq_true _ _).mp hend
  obtain ⟨u, hu⟩ := Option.isSome_iff_exists.mp hans
  exact ⟨t, u, ht, hu, calm hcalm⟩

/-- the build has failed, and its Job is on record -/
def failedOnRecord (p : WorkerPool) : Bool :=
  (p.store.state.builds.get? 2).any fun b => decide (b.status = .failed ∧ b.jobId ≠ none)

end Sample

/-- a read of a Job that fails fails its build and leaves the Job alone; a read of a message that fails
fails a build that has succeeded; and no pass gets past a report that raises -/
theorem outcome_from_failure :
    (¬ ∀ [Python] (cfg : Config) (settings : Settings) (ok : WorkerPool → WorkerEvent → Prop)
      (p q : WorkerPool), (∀ p ev, ok p ev →
        OneAtATime p ev ∧ AtCalls readsMessage p ev ∧ AtCalls readsReport p ev) →
      (service cfg settings).machine.Reach ok (Service.start .init) p →
      (service cfg settings).machine.Reach ok p q → TrueOutcomes cfg settings ok p q) ∧
    (¬ ∀ [Python] (cfg : Config) (settings : Settings) (ok : WorkerPool → WorkerEvent → Prop)
      (p q : WorkerPool), (∀ p ev, ok p ev →
        OneAtATime p ev ∧ JobRead p ev ∧ AtCalls readsReport p ev) →
      (service cfg settings).machine.Reach ok (Service.start .init) p →
      (service cfg settings).machine.Reach ok p q → TrueOutcomes cfg settings ok p q) ∧
    ¬ ∀ [Python] (cfg : Config) (settings : Settings) (ok : WorkerPool → WorkerEvent → Prop)
      (p q : WorkerPool), (∀ p ev, ok p ev →
        OneAtATime p ev ∧ JobRead p ev ∧ AtCalls readsMessage p ev) →
      (service cfg settings).machine.Reach ok (Service.start .init) p →
      (service cfg settings).machine.Reach ok p q → TrueOutcomes cfg settings ok p q := by
  refine ⟨fun hall => ?_, fun hall => ?_, fun hall => ?_⟩
  · let check := fun (s : Store) (c : Outcome) (o : Op) =>
      Sample.messageCheck s c o && Sample.reportCheck s c o
    obtain ⟨q, h, -, hq⟩ := Machine.exists_reach_of_runIf
      (M := (service (Sample.config 100) .sample).machine)
      (k := fun p ev => Sample.passes check p ev = true) (P := fun _ => True)
      (c := Sample.passes check) (fun _ _ _ _ _ _ => trivial) (fun _ _ _ h => h) trivial
      (l := Sample.started ++ .arrive () :: Sample.quiet 1 5 ++ Sample.calls 1 [.fails, .ok])
      (p := fun q => decide (Sample.statusOf q = some .failed) && Sample.jobActive q &&
        Sample.neverAsked q) (s := Service.start .init) (by decide +kernel)
    simp only [Bool.and_eq_true, decide_eq_true_eq] at hq
    obtain ⟨⟨hfailed, hactive⟩, hasked⟩ := hq
    obtain ⟨b, hb, hf⟩ := Sample.status_of hfailed
    have htrue := hall (Sample.config 100) .sample _ _ q ?_ h .refl
    · exact Sample.not_asked hasked (htrue.deleted 2 b hb hf ((Option.any_eq_true _ _).mp hactive))
    · intro p ev hev
      have hboth : ∀ s c o, check s c o = true →
          Sample.messageCheck s c o = true ∧ Sample.reportCheck s c o = true :=
        fun s c o h => (Bool.and_eq_true _ _).mp h
      exact ⟨Sample.late_of_passes hev,
        Sample.atCalls_of_passes (fun s l c o h => Sample.message_read s l c o (hboth s c o h).1) hev,
        Sample.atCalls_of_passes (fun s l c o h => Sample.report_read s l c o (hboth s c o h).2) hev⟩
  · let check := fun (s : Store) (c : Outcome) (o : Op) =>
      Sample.jobCheck s c o && Sample.reportCheck s c o
    obtain ⟨q, h, -, hq⟩ := Machine.exists_reach_of_runIf
      (M := (service (Sample.config 100) .sample).machine)
      (k := fun p ev => Sample.whileReported check p ev = true) (P := fun _ => True)
      (c := Sample.whileReported check) (fun _ _ _ _ _ _ => trivial) (fun _ _ _ h => h) trivial
      (l := Sample.ended Sample.report :: Sample.started ++ Sample.job 1 0 :: .arrive () ::
        Sample.quiet 1 6 ++ Sample.calls 1 [.fails, .ok])
      (p := fun q => Sample.failedOnRecord q && Sample.reported q)
      (s := Service.start .init) (by decide +kernel)
    obtain ⟨hrow, hreported⟩ := (Bool.and_eq_true _ _).mp hq
    obtain ⟨b, hb, hrow⟩ := (Option.any_eq_true _ _).mp hrow
    obtain ⟨hf, hj⟩ := of_decide_eq_true hrow
    have htrue := hall (Sample.config 100) .sample _ _ q ?_ h .refl
    · exact Sample.undeserved (fun _ _ h => h) hreported hj (htrue.failed 2 b hb hf)
    · intro p ev hev
      have hev := ((Bool.and_eq_true _ _).mp hev).1
      have hboth : ∀ s c o, check s c o = true →
          Sample.jobCheck s c o = true ∧ Sample.reportCheck s c o = true :=
        fun s c o h => (Bool.and_eq_true _ _).mp h
      exact ⟨Sample.late_of_passes hev,
        Sample.atCalls_of_passes (fun s l c o h => Sample.job_read s l c o (hboth s c o h).1) hev,
        Sample.atCalls_of_passes (fun s l c o h => Sample.report_read s l c o (hboth s c o h).2) hev⟩
  · let check := fun (s : Store) (c : Outcome) (o : Op) =>
      Sample.jobCheck s c o && Sample.messageCheck s c o
    obtain ⟨p, h, -, hp⟩ := Machine.exists_reach_of_runIf
      (M := (service (Sample.config 100) .sample).machine)
      (k := fun p ev => Sample.passes check p ev = true) (P := fun _ => True)
      (c := Sample.passes check) (fun _ _ _ _ _ _ => trivial) (fun _ _ _ h => h) trivial
      (l := Sample.started ++ [Sample.ended Sample.boundlessReport, Sample.job 1 0])
      (p := fun p => decide (Sample.statusOf p = some .running) && Sample.jobFinished p &&
        ((service (Sample.config 100) .sample).machine.runIf (Sample.passes check) p
          (.arrive () :: Sample.quiet 1 8)).any fun q =>
            Sample.passedBy p.threads.length q && decide (Sample.statusOf q = some .running))
      (s := Service.start .init) (by decide +kernel)
    simp only [Bool.and_eq_true, decide_eq_true_eq] at hp
    obtain ⟨⟨hrun, hfinished⟩, hq⟩ := hp
    obtain ⟨q, h', -, hq⟩ := Machine.exists_reach_of_runIf
      (M := (service (Sample.config 100) .sample).machine)
      (k := fun p ev => Sample.passes check p ev = true) (P := fun _ => True)
      (c := Sample.passes check) (fun _ _ _ _ _ _ => trivial) (fun _ _ _ h => h) trivial hq
    obtain ⟨hpassed, hstill⟩ := (Bool.and_eq_true _ _).mp hq
    obtain ⟨b, hb, hr⟩ := Sample.status_of hrun
    obtain ⟨b', hb', hr'⟩ := Sample.status_of (of_decide_eq_true hstill)
    obtain ⟨t, u, ht, hans, hcalm⟩ := Sample.passed hpassed
    have htrue := hall (Sample.config 100) .sample _ p q ?_ h h'
    · obtain ⟨b'', hb'', hend⟩ := htrue.prompt 2 b hb hr ((Option.any_eq_true _ _).mp hfinished)
        p.threads.length t u (Nat.le_refl _) ht hans hcalm
      rw [hb'] at hb''
      obtain rfl := Option.some.inj hb''
      rw [hr'] at hend
      cases hend
    · intro p ev hev
      have hboth : ∀ s c o, check s c o = true →
          Sample.jobCheck s c o = true ∧ Sample.messageCheck s c o = true :=
        fun s c o h => (Bool.and_eq_true _ _).mp h
      exact ⟨Sample.late_of_passes hev,
        Sample.atCalls_of_passes (fun s l c o h => Sample.job_read s l c o (hboth s c o h).1) hev,
        Sample.atCalls_of_passes (fun s l c o h => Sample.message_read s l c o (hboth s c o h).2) hev⟩

end Freepod.BuildWorker
