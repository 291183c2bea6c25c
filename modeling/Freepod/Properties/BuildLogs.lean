import Freepod.Runs.BuildPasses

/-!
# A build's log

A merge tests the length of a read and not its bytes, and the platform's own line is appended past
the cap.

* `ReadsContinue`, `LineFits`: what a step must meet.  `kept_iff` shows of one step that it keeps the
  logs exactly if it does.
* `build_log_kept`: the run-level result, with what a polling client has read of it.
* `build_log_replaced`: two runs that do not keep the log.
-/

set_option linter.unusedSectionVars false

namespace Freepod.BuildWorker
open Base

variable {cfg : Config} {settings : Settings} {ok : WorkerPool → WorkerEvent → Prop}
  {p q : WorkerPool} {ev : WorkerEvent} {id : BuildId}

/-! ## What a step does to the logs -/

/-- the step makes the call, and no exception undoes it -/
def Calls (p : WorkerPool) (ev : WorkerEvent) (o : Op) : Prop :=
  ∃ i c req k, ev = .run i c ∧ c ≠ .raises ∧ p.threads[i]? = some ⟨req, .call o k⟩

/-- a read that is merged goes on where the stored log ends -/
def ReadsContinue (cfg : Config) (p : WorkerPool) (ev : WorkerEvent) : Prop :=
  ∀ id fresh, Calls p ev (.mirror id fresh) →
    Continues (p.store.logs id) fresh cfg.buildLogMaxBytes

/-- the cap leaves room for a line of the platform -/
def LineFits (cfg : Config) (p : WorkerPool) (ev : WorkerEvent) : Prop :=
  ∀ id x now line, Calls p ev (.finish id x now) → storable x.image x.usage = true →
    x.line = some line →
    (p.store.logs id).length + (separator (p.store.logs id)).length + line.length ≤
      cfg.buildLogMaxBytes

/-- what a step must meet -/
def KeepsLogs (cfg : Config) (p : WorkerPool) (ev : WorkerEvent) : Prop :=
  OneAtATime p ev ∧ ReadsContinue cfg p ev ∧ LineFits cfg p ev

inductive Logs (cfg : Config) (p : WorkerPool) (ev : WorkerEvent) (q : WorkerPool) : Prop
  | same (logs : q.store.logs = p.store.logs)
  | mirrored {id : BuildId} {fresh : Option Bytes} (running : Running p.store id)
      (call : Calls p ev (.mirror id fresh))
      (logs : q.store.logs = Function.update p.store.logs id
        (mergeLog (p.store.logs id) fresh cfg.buildLogMaxBytes))
  | appended {id : BuildId} {x : Finish} {now : Time} {line : Bytes} (running : Running p.store id)
      (call : Calls p ev (.finish id x now)) (stored : storable x.image x.usage = true)
      (text : x.line = some line)
      (logs : q.store.logs = Function.update p.store.logs id (appendLogLine (p.store.logs id) line))

section
variable [Python]

/-- **what a step does to the logs** -/
theorem logs_of_step (hok : ∀ p ev, ok p ev → OneAtATime p ev)
    (h : (service cfg settings).machine.Reach ok (Service.start .init) p) (hev : ok p ev)
    (hs : (service cfg settings).step p ev = some q) : Logs cfg p ev q := by
  obtain ⟨hg, hb⟩ := busy_of_reach hok h
  obtain ⟨req, rfl, rfl⟩ | ⟨i, c, req, o, k, x, s, rfl, hth, hp, rfl⟩ | ⟨w, s, rfl, hw, rfl⟩ :=
    step_cases hs
  · exact .same rfl
  · have hi := hg.isLast (hok _ _ hev i c rfl)
    have hcall := hg.next (meets_runPass cfg) hth
    have hd := does_of_perform hp
    cases hd with
    | looks found => exact .same rfl
    | mirrors clean => exact .mirrored (hb.listed hi hcall) ⟨i, c, req, k, rfl, clean, hth⟩ rfl
    | deletes => exact .same rfl
    | finishes clean done =>
      obtain ⟨hstored, -, -, ⟨-, hl⟩ | ⟨line, htext, hl⟩⟩ := finish_ok done
      · exact .same hl
      · exact .appended (hb.listed hi hcall.1) ⟨i, c, req, k, rfl, clean, hth⟩ hstored htext hl
    | claims next done => exact .same rfl
    | creates free => exact .same rfl
    | records done => exact .same rfl
  · exact .same (aside_of_change hw).logs

/-- every log is within the cap -/
def Bounded (cfg : Config) (p : WorkerPool) : Prop :=
  ∀ id, (p.store.logs id).length ≤ cfg.buildLogMaxBytes

/-- every log goes on where it ended -/
def Extends (p q : WorkerPool) : Prop := ∀ id, p.store.logs id <+: q.store.logs id

theorem Extends.refl (p : WorkerPool) : Extends p p := fun _ => List.prefix_refl _

theorem Extends.trans {r : WorkerPool} (h : Extends p q) (h' : Extends q r) : Extends p r :=
  fun id => (h id).trans (h' id)

/-- a change of one log -/
theorem kept_update_iff {log : Bytes} (hp : Bounded cfg p)
    (hq : q.store.logs = Function.update p.store.logs id log) :
    (Extends p q ∧ Bounded cfg q) ↔ p.store.logs id <+: log ∧ log.length ≤ cfg.buildLogMaxBytes := by
  have hself : q.store.logs id = log := by rw [hq, Function.update_self]
  have hother : ∀ id', id' ≠ id → q.store.logs id' = p.store.logs id' := by
    intro id' hne
    rw [hq, Function.update_of_ne hne]
  constructor
  · rintro ⟨he, hb⟩
    exact ⟨hself ▸ he id, hself ▸ hb id⟩
  · rintro ⟨he, hb⟩
    refine ⟨fun id' => ?_, fun id' => ?_⟩
    · by_cases hid : id' = id
      · rw [hid, hself]
        exact he
      · rw [hother id' hid]
    · by_cases hid : id' = id
      · rw [hid, hself]
        exact hb
      · rw [hother id' hid]
        exact hp id'

theorem length_appendLogLine (stored line : Bytes) : (appendLogLine stored line).length =
    stored.length + (separator stored).length + line.length := by
  rw [appendLogLine, List.length_append, List.length_append]

/-- a merge that the step makes -/
theorem mirrored_of_call {fresh : Option Bytes} (hs : (service cfg settings).step p ev = some q)
    (hc : Calls p ev (.mirror id fresh)) : q.store.logs =
      Function.update p.store.logs id (mergeLog (p.store.logs id) fresh cfg.buildLogMaxBytes) := by
  obtain ⟨i, c, req, k, rfl, hclean, hth⟩ := hc
  have hp : (service cfg settings).perform p.store (.mirror id fresh) c = some (.done, { p.store with
      logs := Function.update p.store.logs id
        (mergeLog (p.store.logs id) fresh cfg.buildLogMaxBytes) }) := if_neg hclean
  have heq := (step_of_perform hth hp).symm.trans hs
  rw [← Option.some.inj heq]

/-- an end that the step stores, with its line -/
theorem appended_of_call {x : Finish} {now : Time} {line : Bytes} {b : Build}
    (hs : (service cfg settings).step p ev = some q) (hc : Calls p ev (.finish id x now))
    (hb : p.store.state.builds.get? id = some b) (hr : b.status = .running) (hi : x.image ≠ some "")
    (hx : storable x.image x.usage = true) (hl : x.line = some line) :
    q.store.logs = Function.update p.store.logs id (appendLogLine (p.store.logs id) line) := by
  obtain ⟨i, c, req, k, rfl, hclean, hth⟩ := hc
  obtain ⟨t, ht⟩ := exists_finish now hb hr hi hx
  have hp : (service cfg settings).perform p.store (.finish id x now) c = some (.done, t) := by
    show (if c = .raises then _ else _) = _
    rw [if_neg hclean, ht]
  have heq := (step_of_perform hth hp).symm.trans hs
  rw [← Option.some.inj heq]
  obtain ⟨-, -, -, ⟨hnone, -⟩ | ⟨line', hline, hlogs⟩⟩ := finish_ok ht
  · rw [hl] at hnone
    cases hnone
  · rw [hl] at hline
    cases hline
    exact hlogs

/-- **a step keeps the logs exactly if what it merges continues them and what it appends fits** -/
theorem kept_iff (hok : ∀ p ev, ok p ev → OneAtATime p ev)
    (h : (service cfg settings).machine.Reach ok (Service.start .init) p) (hev : ok p ev)
    (hs : (service cfg settings).step p ev = some q) (hb : Bounded cfg p) :
    (Extends p q ∧ Bounded cfg q) ↔ ReadsContinue cfg p ev ∧ LineFits cfg p ev := by
  constructor
  · intro hkept
    refine ⟨fun id fresh hc => ?_, fun id x now line hc hx hl => ?_⟩
    · have hlogs := mirrored_of_call hs hc
      exact (prefix_mergeLog_iff (hb id) fresh).mp ((kept_update_iff hb hlogs).mp hkept).1
    · obtain ⟨i, c, req, k, rfl, hclean, hth⟩ := hc
      obtain ⟨hg, hbusy⟩ := busy_of_reach hok h
      have hcall := hg.next (meets_runPass cfg) hth
      obtain ⟨b, hrow, hr⟩ := hbusy.listed (hg.isLast (hok _ _ hev i c rfl)) hcall.1
      have hlogs := appended_of_call hs ⟨i, c, req, k, rfl, hclean, hth⟩ hrow hr hcall.2.image_ne hx hl
      rw [← length_appendLogLine]
      exact ((kept_update_iff hb hlogs).mp hkept).2
  · rintro ⟨hread, hfit⟩
    cases logs_of_step hok h hev hs with
    | same logs =>
      refine ⟨fun id => ?_, fun id => ?_⟩
      · rw [logs]
      · rw [logs]
        exact hb id
    | mirrored running call logs =>
      refine (kept_update_iff hb logs).mpr ⟨?_, length_mergeLog_le (hb _) _⟩
      exact (prefix_mergeLog_iff (hb _) _).mpr (hread _ _ call)
    | appended running call stored text logs =>
      refine (kept_update_iff hb logs).mpr ⟨prefix_appendLogLine _ _, ?_⟩
      rw [length_appendLogLine]
      exact hfit _ _ _ _ call stored text

/-- the log of a build that has ended stays -/
theorem log_of_ended (hok : ∀ p ev, ok p ev → OneAtATime p ev)
    (h : (service cfg settings).machine.Reach ok (Service.start .init) p) (hev : ok p ev)
    (hs : (service cfg settings).step p ev = some q) {b : Build}
    (hb : p.store.state.builds.get? id = some b) (he : b.status.isTerminal = true) :
    q.store.logs id = p.store.logs id := by
  have hother : ∀ id', Running p.store id' → id ≠ id' := by
    rintro id' ⟨b', hb', hr⟩ rfl
    rw [hb] at hb'
    cases hb'
    rw [hr] at he
    cases he
  cases logs_of_step hok h hev hs with
  | same logs => rw [logs]
  | mirrored running call logs => rw [logs, Function.update_of_ne (hother _ running)]
  | appended running call stored text logs => rw [logs, Function.update_of_ne (hother _ running)]

/-! ## The runs -/

/-- a log is within the cap, goes on where it ended, and is final once its build has ended -/
structure LogsKept (cfg : Config) (p q : WorkerPool) : Prop where
  bounded : Bounded cfg q
  grows : Extends p q
  final : ∀ id b, p.store.state.builds.get? id = some b → b.status.isTerminal = true →
    q.store.logs id = p.store.logs id

/-- what a client has that polls from the end of it, in the course of a run -/
inductive Polled (cfg : Config) (settings : Settings) (ok : WorkerPool → WorkerEvent → Prop)
    (id : BuildId) : WorkerPool → Bytes → Prop
  | start {p : WorkerPool} (h : (service cfg settings).machine.Reach ok (Service.start .init) p) :
      Polled cfg settings ok id p []
  | poll {p q : WorkerPool} {seen : Bytes} (before : Polled cfg settings ok id p seen)
      (h : (service cfg settings).machine.Reach ok p q) : Polled cfg settings ok id q
        (seen ++ (getBuildLog (q.store.logs id) (some seen.length) none).data)

section
variable (hok : ∀ p ev, ok p ev → KeepsLogs cfg p ev)
include hok

theorem bounded_of_reach (h : (service cfg settings).machine.Reach ok (Service.start .init) p) :
    Bounded cfg p := by
  have hinv : (service cfg settings).machine.Reach ok (Service.start .init) p ∧ Bounded cfg p := by
    refine h.invariant (P := fun p =>
      (service cfg settings).machine.Reach ok (Service.start .init) p ∧ Bounded cfg p)
      ⟨.refl, fun _ => Nat.zero_le _⟩ ?_
    rintro r ev r' ⟨hr, hb⟩ hev hs
    exact ⟨hr.tail hev hs, ((kept_iff (fun p ev h => (hok p ev h).1) hr hev hs hb).mpr
      (hok r ev hev).2).2⟩
  exact hinv.2

theorem extends_of_reach (h : (service cfg settings).machine.Reach ok (Service.start .init) p)
    (h' : (service cfg settings).machine.Reach ok p q) : Extends p q := by
  refine h'.along (P := (service cfg settings).machine.Reach ok (Service.start .init)) (R := Extends)
    h (fun _ _ _ hr hev hs => hr.tail hev hs) (.refl p) ?_
  intro r ev r' hr hext hev hs
  exact hext.trans ((kept_iff (fun p ev h => (hok p ev h).1) hr hev hs (bounded_of_reach hok hr)).mpr
    (hok r ev hev).2).1

/-- **a poll completes what the client has** -/
theorem complete_of_polled {seen : Bytes} (h : Polled cfg settings ok id p seen)
    (h' : (service cfg settings).machine.Reach ok p q) :
    seen ++ (getBuildLog (q.store.logs id) (some seen.length) none).data = q.store.logs id := by
  have hpre : (service cfg settings).machine.Reach ok (Service.start .init) p ∧
      seen <+: p.store.logs id := by
    clear h'
    induction h with
    | start h => exact ⟨h, List.nil_prefix⟩
    | poll before h ih =>
      refine ⟨ih.1.trans h, ?_⟩
      rw [getBuildLog_from (ih.2.trans (extends_of_reach hok ih.1 h _))]
  exact getBuildLog_from (hpre.2.trans (extends_of_reach hok hpre.1 h' id))

end

/-- the log of a build that has ended is final -/
theorem final_of_reach (hok : ∀ p ev, ok p ev → OneAtATime p ev)
    (h : (service cfg settings).machine.Reach ok (Service.start .init) p)
    (h' : (service cfg settings).machine.Reach ok p q) {b : Build}
    (hb : p.store.state.builds.get? id = some b) (he : b.status.isTerminal = true) :
    q.store.logs id = p.store.logs id := by
  have hinv : q.store.logs id = p.store.logs id ∧ (service cfg settings).machine.Reach ok p q := by
    refine h'.invariant (P := fun r => r.store.logs id = p.store.logs id ∧
      (service cfg settings).machine.Reach ok p r) ⟨rfl, .refl⟩ ?_
    rintro r ev r' ⟨hlog, hr⟩ hev hs
    obtain ⟨b', hb', hst⟩ := ended_of_reach hr hb he
    exact ⟨(log_of_ended hok (h.trans hr) hev hs hb' (hst ▸ he)).trans hlog, hr.tail hev hs⟩
  exact hinv.1

/-- **where every read goes on where the stored log ends, and every line of the platform fits, a log
is within the cap, only grows, and is final once its build has ended, so that a client that polls
from the end of what it has reads exactly the log** -/
theorem build_log_kept (cfg : Config) (settings : Settings) {p q : WorkerPool}
    (h : (service cfg settings).machine.Reach (KeepsLogs cfg) (Service.start .init) p)
    (h' : (service cfg settings).machine.Reach (KeepsLogs cfg) p q) :
    LogsKept cfg p q ∧ ∀ id seen, Polled cfg settings (KeepsLogs cfg) id p seen →
      seen ++ (getBuildLog (q.store.logs id) (some seen.length) none).data = q.store.logs id := by
  have hok : ∀ p ev, KeepsLogs cfg p ev → KeepsLogs cfg p ev := fun _ _ h => h
  refine ⟨⟨bounded_of_reach hok (h.trans h'), extends_of_reach hok h h', fun id b hb he => ?_⟩,
    fun id seen hseen => complete_of_polled hok hseen h'⟩
  exact final_of_reach (fun p ev h => h.1) h h' hb he

end

/-! ## Logs at work -/

local instance logPython : Python := Sample.python

namespace Sample

/-- the call that the event makes, of the request that arrived last -/
def isLate (p : WorkerPool) : WorkerEvent → Bool
  | .run i _ => decide (i + 1 = p.threads.length)
  | _ => true

theorem oneAtATime (h : isLate p ev = true) : OneAtATime p ev := by
  rintro i c rfl
  exact of_decide_eq_true h

/-- a check of the call that the event makes -/
def checked (check : Store → Op → Bool) (p : WorkerPool) : WorkerEvent → Bool
  | .run i _ =>
    match p.threads[i]? with
    | some ⟨_, .call o _⟩ => check p.store o
    | _ => true
  | _ => true

theorem checked_of_calls {check : Store → Op → Bool} {o : Op} (h : checked check p ev = true)
    (hc : Calls p ev o) : check p.store o = true := by
  obtain ⟨i, c, req, k, rfl, -, hth⟩ := hc
  simp only [checked, hth] at h
  exact h

/-- a check of a read against what is stored -/
def reads (check : Bytes → Bytes → Bool) (s : Store) : Op → Bool
  | .mirror id (some data) => check (s.logs id) data
  | _ => true

/-- a read within the cap begins with what is stored -/
def readsOn (cap : Nat) : Store → Op → Bool :=
  reads fun stored data => decide (data.length ≤ cap) && stored.isPrefixOf data

/-- a line fits, with the separator -/
def lineFits (cap : Nat) (s : Store) : Op → Bool
  | .finish id x _ => x.line.all fun line => decide ((s.logs id).length + 1 + line.length ≤ cap)
  | _ => true

theorem readsContinue {cap : Nat} (h : checked (readsOn cap) p ev = true) :
    ReadsContinue (config cap) p ev := by
  rintro id _ hc data rfl -
  have hcheck := checked_of_calls h hc
  simp only [readsOn, reads, Bool.and_eq_true, decide_eq_true_eq, List.isPrefixOf_iff_prefix] at hcheck
  have hle : data.length ≤ (config cap).buildLogMaxBytes := hcheck.1
  rw [if_pos hle]
  exact .inr hcheck.2

theorem length_separator_le (stored : Bytes) : (separator stored).length ≤ 1 := by
  unfold separator
  split
  · exact Nat.le_refl 1
  · exact Nat.zero_le 1

theorem line_fits {cap : Nat} (h : checked (lineFits cap) p ev = true) :
    LineFits (config cap) p ev := by
  intro id x now line hc _ hl
  have hcheck := checked_of_calls h hc
  simp only [lineFits, hl, Option.all_some, decide_eq_true_eq] at hcheck
  have hsep := length_separator_le (p.store.logs id)
  show _ ≤ cap
  omega

def keepsLogs (cap : Nat) (p : WorkerPool) (ev : WorkerEvent) : Bool :=
  isLate p ev && checked (readsOn cap) p ev && checked (lineFits cap) p ev

theorem keeps_logs {cap : Nat} (h : keepsLogs cap p ev = true) : KeepsLogs (config cap) p ev := by
  simp only [keepsLogs, Bool.and_eq_true] at h
  exact ⟨oneAtATime h.1.1, readsContinue h.1.2, line_fits h.2⟩

/-- the log as the platform ends it -/
def evictedLog : Bytes := [1, 2, 3, newline] ++ evictionLogLine "Evicted"

end Sample

/-- a client polls while a build is at work, and again when it has been evicted -/
theorem build_log_kept_evicted : ∃ p q,
    Polled (Sample.config 100) .sample (KeepsLogs (Sample.config 100)) 2 p [1, 2] ∧
    Sample.statusOf q = some .failed ∧ q.store.logs 2 = Sample.evictedLog ∧
    LogsKept (Sample.config 100) p q ∧
    [1, 2] ++ (getBuildLog (q.store.logs 2) (some 2) none).data = q.store.logs 2 := by
  obtain ⟨p, h, -, hp⟩ := Machine.exists_reach_of_runIf
    (M := (service (Sample.config 100) .sample).machine) (k := KeepsLogs (Sample.config 100))
    (P := fun _ => True) (c := Sample.keepsLogs 100) (fun _ _ _ _ _ _ => trivial)
    (fun _ _ _ h => Sample.keeps_logs h) trivial
    (l := Sample.started ++ Sample.output [1, 2] :: Sample.watched 1)
    (p := fun p => decide (p.store.logs 2 = [1, 2]) &&
      ((service (Sample.config 100) .sample).machine.runIf (Sample.keepsLogs 100) p
        (Sample.output [1, 2, 3] :: Sample.watched 2 ++ Sample.evicted ++ Sample.buried 3)).any
        fun q => decide (Sample.statusOf q = some .failed ∧ q.store.logs 2 = Sample.evictedLog))
    (s := Service.start .init) (by decide +kernel)
  obtain ⟨hlog, hq⟩ := (Bool.and_eq_true _ _).mp hp
  obtain ⟨q, h', -, hq⟩ := Machine.exists_reach_of_runIf
    (M := (service (Sample.config 100) .sample).machine) (k := KeepsLogs (Sample.config 100))
    (P := fun _ => True) (c := Sample.keepsLogs 100) (fun _ _ _ _ _ _ => trivial)
    (fun _ _ _ h => Sample.keeps_logs h) trivial hq
  obtain ⟨hfailed, hend⟩ := of_decide_eq_true hq
  have hseen : Polled (Sample.config 100) .sample (KeepsLogs (Sample.config 100)) 2 p [1, 2] := by
    have hstart : Polled (Sample.config 100) .sample (KeepsLogs (Sample.config 100)) 2 p [] := .start h
    have hpoll := hstart.poll .refl
    rw [of_decide_eq_true hlog] at hpoll
    exact hpoll
  obtain ⟨hkept, hread⟩ := build_log_kept (Sample.config 100) .sample h h'
  exact ⟨p, q, hseen, hfailed, hend, hkept, hread 2 _ hseen⟩

/-- each read that is merged compares so with what is stored -/
def Reads (P : Bytes → Bytes → Prop) (p : WorkerPool) (ev : WorkerEvent) : Prop :=
  ∀ id data, Calls p ev (.mirror id (some data)) → P (p.store.logs id) data

namespace Sample

theorem reads_of_check {check : Bytes → Bytes → Bool} {P : Bytes → Bytes → Prop}
    (hP : ∀ stored data, check stored data = true → P stored data)
    (h : checked (reads check) p ev = true) : Reads P p ev :=
  fun _ _ hc => hP _ _ (checked_of_calls h hc)

/-- lines that fit, and reads that pass a check -/
def readsPass (cap : Nat) (check : Bytes → Bytes → Bool) (p : WorkerPool) (ev : WorkerEvent) : Bool :=
  isLate p ev && checked (lineFits cap) p ev && checked (reads check) p ev

theorem reads_pass (cap : Nat) (check : Bytes → Bytes → Bool) {P : Bytes → Bytes → Prop}
    (hP : ∀ stored data, check stored data = true → P stored data) (p : WorkerPool)
    (ev : WorkerEvent) (h : readsPass cap check p ev = true) :
    OneAtATime p ev ∧ LineFits (config cap) p ev ∧ Reads P p ev := by
  simp only [readsPass, Bool.and_eq_true] at h
  exact ⟨oneAtATime h.1.1, line_fits h.1.2, reads_of_check hP h.2⟩

/-- a run that breaks off, or outgrows the cap -/
theorem not_kept (cap : Nat) {check : WorkerPool → WorkerEvent → Bool}
    (hcheck : ∀ p ev, check p ev = true → ok p ev) (l l' : List WorkerEvent)
    (h : ((service (config cap) .sample).machine.runIf check (Service.start .init) l).any
      (fun p => ((service (config cap) .sample).machine.runIf check p l').any fun q =>
        !((p.store.logs 2).isPrefixOf (q.store.logs 2) &&
          decide ((q.store.logs 2).length ≤ cap))) = true) :
    ∃ p q, (service (config cap) .sample).machine.Reach ok (Service.start .init) p ∧
      (service (config cap) .sample).machine.Reach ok p q ∧ ¬ LogsKept (config cap) p q := by
  obtain ⟨p, h, -, hp⟩ := Machine.exists_reach_of_runIf (k := ok) (P := fun _ => True)
    (fun _ _ _ _ _ _ => trivial) (fun p ev _ h => hcheck p ev h) trivial h
  obtain ⟨q, h', -, hq⟩ := Machine.exists_reach_of_runIf (k := ok) (P := fun _ => True)
    (fun _ _ _ _ _ _ => trivial) (fun p ev _ h => hcheck p ev h) trivial hp
  refine ⟨p, q, h, h', fun hkept => ?_⟩
  have hle : (q.store.logs 2).length ≤ cap := hkept.bounded 2
  rw [List.isPrefixOf_iff_prefix.mpr (hkept.grows 2), decide_eq_true hle] at hq
  cases hq

end Sample

/-- a read that has lost its beginning replaces what was stored if it is longer; a read that goes on
past the cap replaces it by the marker; and the line of an eviction is appended past the cap -/
theorem build_log_replaced :
    (¬ ∀ [Python] (cfg : Config) (settings : Settings) (p q : WorkerPool),
      let ok := fun p ev => OneAtATime p ev ∧ LineFits cfg p ev ∧
        Reads (fun _ data => data.length ≤ cfg.buildLogMaxBytes) p ev
      (service cfg settings).machine.Reach ok (Service.start .init) p →
      (service cfg settings).machine.Reach ok p q → LogsKept cfg p q) ∧
    (¬ ∀ [Python] (cfg : Config) (settings : Settings) (p q : WorkerPool),
      let ok := fun p ev => OneAtATime p ev ∧ LineFits cfg p ev ∧
        Reads (fun stored data => stored <+: data) p ev
      (service cfg settings).machine.Reach ok (Service.start .init) p →
      (service cfg settings).machine.Reach ok p q → LogsKept cfg p q) ∧
    ¬ ∀ [Python] (cfg : Config) (settings : Settings) (p q : WorkerPool),
      let ok := fun p ev => OneAtATime p ev ∧ ReadsContinue cfg p ev
      (service cfg settings).machine.Reach ok (Service.start .init) p →
      (service cfg settings).machine.Reach ok p q → LogsKept cfg p q := by
  refine ⟨fun hall => ?_, fun hall => ?_, fun hall => ?_⟩
  · have hcheck := Sample.reads_pass 100 (fun _ data => decide (data.length ≤ 100))
      (P := fun _ data => data.length ≤ 100) fun _ _ h => of_decide_eq_true h
    obtain ⟨p, q, h, h', hnot⟩ := Sample.not_kept 100 hcheck
      (Sample.started ++ Sample.output [1, 2] :: Sample.watched 1)
      (Sample.output [3, 4, 5] :: Sample.watched 2) (by decide +kernel)
    exact hnot (hall (Sample.config 100) .sample p q h h')
  · have hcheck := Sample.reads_pass 100 (fun stored data => stored.isPrefixOf data)
      (P := fun stored data => stored <+: data) fun _ _ h => List.isPrefixOf_iff_prefix.mp h
    obtain ⟨p, q, h, h', hnot⟩ := Sample.not_kept 100 hcheck
      (Sample.started ++ Sample.output (List.replicate 90 1) :: Sample.watched 1)
      (Sample.output (List.replicate 110 1) :: Sample.watched 2) (by decide +kernel)
    exact hnot (hall (Sample.config 100) .sample p q h h')
  · have hcheck : ∀ p ev, (Sample.isLate p ev && Sample.checked (Sample.readsOn 80) p ev) = true →
        OneAtATime p ev ∧ ReadsContinue (Sample.config 80) p ev := by
      intro p ev hc
      obtain ⟨hlate, hreads⟩ := (Bool.and_eq_true _ _).mp hc
      exact ⟨Sample.oneAtATime hlate, Sample.readsContinue hreads⟩
    obtain ⟨p, q, h, h', hnot⟩ := Sample.not_kept 80 hcheck
      (Sample.started ++ Sample.output [1, 2] :: Sample.watched 1)
      (Sample.evicted ++ Sample.buried 2) (by decide +kernel)
    exact hnot (hall (Sample.config 80) .sample p q h h')

end Freepod.BuildWorker
