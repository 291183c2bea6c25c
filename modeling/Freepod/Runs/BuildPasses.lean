import Freepod.Platform.BuildWorker
import Freepod.Runs.Releases

/-!
# What the steps of a build's life do

* `Moves`: what one commit makes of a build's row; `Does.moves` and `Does.origin` show it of every call
  of a pass, `aside_of_change` says what the rest of the platform does.
* `Evidence`: what a pass has in hand when it finishes a build.  `Settled`: what has become of a
  build that it set out to advance.
* `meets_runPass`: a pass keeps to that.
-/

set_option linter.unusedSectionVars false

namespace Freepod.BuildWorker
open Base

/-! ## The rest of the platform -/

/-- a new build is queued and has no Job -/
theorem createBuild_queued {c : Context} {s t : State} {r : BuildRequest}
    (h : createBuild c s r = .ok t) :
    t.builds = s.builds ∨
      ∃ b, s.builds.insert? b = some t.builds ∧ b.status = .queued ∧ b.jobId = none := by
  simp only [createBuild, bind_eq_ok] at h
  obtain ⟨-, -, d, -, -, -, h⟩ := h
  split at h
  · simp only [bind_eq_ok, pure_eq_ok] at h
    obtain ⟨-, -, rfl⟩ := h
    exact .inl rfl
  · simp only [bind_eq_ok, found_eq_ok, pure_eq_ok] at h
    obtain ⟨-, -, builds, hb, rfl⟩ := h
    exact .inr ⟨_, hb, rfl, rfl⟩

theorem builds_of_rest {settings : Settings} {s t : State} {a : Action}
    (h : step settings s a = some t) (ha : rest a = true) :
    t.builds = s.builds ∨
      ∃ b, s.builds.insert? b = some t.builds ∧ b.status = .queued ∧ b.jobId = none := by
  cases hb : a.ofBuilds with
  | false => exact .inl (builds_of_other h hb).1
  | true =>
    cases a with
    | createBuild c r => exact createBuild_queued (toOption_eq_some.mp h)
    | claimBuild => cases ha
    | recordBuildJob => cases ha
    | finishBuild => cases ha
    | _ => cases hb

variable [Python] {cfg : Config} {settings : Settings} {s t : Store} {id : BuildId} {b b' : Build}

/-- the builds and the Jobs after something else has happened: a build may be new, a Job may be gone,
and none comes back or starts again -/
structure Aside (s t : Store) : Prop where
  builds : t.state.builds = s.state.builds ∨ ∃ b, s.state.builds.insert? b = some t.state.builds ∧
    b.status = .queued ∧ b.jobId = none
  logs : t.logs = s.logs
  jobs : ∀ name j, t.cluster.jobs name = some j → ∃ old, s.cluster.jobs name = some old ∧
    (old.isFinished = true → j.isFinished = true)

/-- **what the rest of the platform and the cluster do** -/
theorem aside_of_change {w : Change} (h : change settings s w = some t) : Aside s t := by
  have same : ∀ name j, s.cluster.jobs name = some j → ∃ old, s.cluster.jobs name = some old ∧
      (old.isFinished = true → j.isFinished = true) := fun name j hj => ⟨j, hj, id⟩
  cases w with
  | platform a =>
    simp only [change] at h
    split at h
    · rename_i ha
      obtain ⟨x, hx, rfl⟩ := Option.map_eq_some_iff.mp h
      exact ⟨builds_of_rest hx ha, rfl, same⟩
    · cases h
  | job name j =>
    simp only [change] at h
    split at h
    · rename_i hold
      obtain rfl := Option.some.inj h
      refine ⟨.inl rfl, rfl, fun name' j' hj' => ?_⟩
      obtain ⟨old, hget, hfin⟩ := (Option.any_eq_true _ _).mp hold
      by_cases hn : name' = name
      · subst hn
        have hj' : Function.update s.cluster.jobs name' (some j) name' = some j' := hj'
        rw [Function.update_self] at hj'
        obtain rfl := Option.some.inj hj'
        refine ⟨old, hget, fun ho => ?_⟩
        rw [ho] at hfin
        exact hfin
      · exact same name' j' ((Function.update_of_ne hn _ _).symm.trans hj')
    · cases h
  | reap name =>
    obtain rfl := Option.some.inj h
    refine ⟨.inl rfl, rfl, fun name' j' hj' => ?_⟩
    by_cases hn : name' = name
    · subst hn
      have hj' : Function.update s.cluster.jobs name' none name' = some j' := hj'
      rw [Function.update_self] at hj'
      cases hj'
    · exact same name' j' ((Function.update_of_ne hn _ _).symm.trans hj')
  | pods id pods =>
    obtain rfl := Option.some.inj h
    exact ⟨.inl rfl, rfl, same⟩
  | output id output =>
    obtain rfl := Option.some.inj h
    exact ⟨.inl rfl, rfl, same⟩

/-! ## One call -/

/-- the row of a build that has been finished -/
structure Finished (b b' : Build) (image : Option String) : Prop where
  running : b.status = .running
  key : b'.id = b.id
  job : b'.jobId = b.jobId
  status : b'.status = if image.isSome then .succeeded else .failed
  image : ∀ i, image = some i → b'.image = some i ∧ i ≠ ""

theorem finished_of_transition {image : Option String} {now : Time}
    (h : b.transitionTo (if image.isSome then .succeeded else .failed) image now = .ok b') :
    Finished b b' image := by
  have hrun : ∀ st, canTransition b.status st = true → st = .succeeded ∨ st = .failed →
      b.status = .running := by
    intro st hc hst
    rcases hst with rfl | rfl
    · revert hc
      cases b.status <;> decide
    · revert hc
      cases b.status <;> decide
  cases image with
  | none =>
    simp only [Build.transitionTo, Option.isSome_none, Bool.false_eq_true, if_false, bind_eq_ok,
      require_eq_ok] at h
    obtain ⟨-, hc, -, -, rfl⟩ := h
    refine ⟨hrun _ hc (.inr rfl), rfl, rfl, rfl, fun _ hi => ?_⟩
    cases hi
  | some i =>
    simp only [Build.transitionTo, Option.isSome_some, if_true, bind_eq_ok, require_eq_ok,
      pure_eq_ok] at h
    obtain ⟨-, hc, -, ⟨-, hne⟩, rfl⟩ := h
    refine ⟨hrun _ hc (.inl rfl), rfl, rfl, rfl, ?_⟩
    rintro _ ⟨⟩
    exact ⟨rfl, fun he => hne (congrArg some he)⟩

/-- what a call makes of a row -/
inductive Moves (cfg : Config) (c : Base.Call Ret) (b : Build) : Build → Prop
  | stays : Moves cfg c b b
  | claimed (now : Time) (call : c = ⟨.claim now, some b.id⟩) (queued : b.status = .queued) :
      Moves cfg c b { b with status := .running, startedAt := some now }
  | recorded (call : c = ⟨.recordJob b.id, .done⟩) :
      Moves cfg c b { b with jobId := some (cfg.jobName b.id) }
  | finished {b' : Build} (x : Finish) (now : Time) (call : c = ⟨.finish b.id x now, .done⟩)
      (row : Finished b b' x.image) : Moves cfg c b b'

/-- what a call that writes nothing found, by what became of it -/
def Looks (s : Store) (c : Outcome) : Base.Call Ret → Prop
  | ⟨.running, ids⟩ => ids = runningBuilds s.state
  | ⟨.load id, row⟩ => row = s.state.builds.get? id
  | ⟨.getJob name, x⟩ => x = kubectl c (s.cluster.jobs name) none
  | ⟨.readTerminationMessage id, x⟩ => x = kubectl c (terminationMessage (s.cluster.pods id)) none
  | ⟨.mirror _ _, x⟩ => x ≠ .done
  | ⟨.finish id x now, y⟩ => y = .rolledBack ∨ y = .refused ∧ finish s id x now = none
  | ⟨.claim _, x⟩ => x = none
  | ⟨.recordJob _, x⟩ => x ≠ .done
  | _ => True

/-- the store with a Job in place, or gone -/
def withJob (s : Store) (name : String) (j : Option Job) : Store :=
  { s with cluster := { s.cluster with jobs := Function.update s.cluster.jobs name j } }

inductive Does (cfg : Config) (s : Store) (c : Outcome) : Base.Call Ret → Store → Prop
  | looks {x : Base.Call Ret} (found : Looks s c x) : Does cfg s c x s
  | mirrors {id : BuildId} {fresh : Option Bytes} (clean : c ≠ .raises) :
      Does cfg s c ⟨.mirror id fresh, .done⟩ { s with
        logs := Function.update s.logs id (mergeLog (s.logs id) fresh cfg.buildLogMaxBytes) }
  | deletes {name : String} : Does cfg s c ⟨.deleteJob name, some ()⟩ (withJob s name none)
  | finishes {id : BuildId} {x : Finish} {now : Time} {t : Store} (clean : c ≠ .raises)
      (done : finish s id x now = some t) : Does cfg s c ⟨.finish id x now, .done⟩ t
  | claims {now : Time} {id : BuildId} {u : State} (next : nextBuild s.state = some id)
      (done : (atTime s.state now fun t => claimNextBuild t []) = some u) :
      Does cfg s c ⟨.claim now, some id⟩ { s with state := u }
  | creates {id : BuildId} {x : Bool} (free : s.cluster.jobs (cfg.jobName id) = none) :
      Does cfg s c ⟨.createJob id, x⟩ (withJob s (cfg.jobName id) (some ⟨0, 0⟩))
  | records {id : BuildId} {u : State} (done : recordBuildJob s.state id (cfg.jobName id) = some u) :
      Does cfg s c ⟨.recordJob id, .done⟩ { s with state := u }

/-- **what one call does** -/
theorem does_of_perform {o : Op} {x : Ret o} {c : Outcome} (h : perform cfg s o c = some (x, t)) :
    Does cfg s c ⟨o, x⟩ t := by
  cases o with
  | mirror id fresh =>
    simp only [perform] at h
    split at h
    · cases h
      exact .looks (fun h => nomatch h)
    · rename_i hc
      cases h
      exact .mirrors hc
  | deleteJob name =>
    cases c with
    | ok =>
      cases h
      exact .deletes
    | fails =>
      cases h
      exact .looks trivial
    | raises =>
      cases h
      exact .looks trivial
    | lost =>
      cases h
      exact .looks trivial
  | finish id x now =>
    simp only [perform] at h
    split at h
    · cases h
      exact .looks (.inl rfl)
    · rename_i hc
      split at h
      · rename_i u hu
        cases h
        exact .finishes hc hu
      · rename_i hu
        cases h
        exact .looks (.inr ⟨rfl, hu⟩)
  | claim now =>
    simp only [perform] at h
    split at h
    · cases h
      exact .looks rfl
    · rename_i id hid
      obtain ⟨u, hu, he⟩ := Option.map_eq_some_iff.mp h
      cases he
      exact .claims hid hu
  | createJob id =>
    simp only [perform] at h
    split at h
    · cases h
      exact .looks trivial
    · rename_i hfree
      have hfree := Option.not_isSome_iff_eq_none.mp hfree
      cases c with
      | ok =>
        cases h
        exact .creates hfree
      | lost =>
        cases h
        exact .creates hfree
      | fails =>
        cases h
        exact .looks trivial
      | raises =>
        cases h
        exact .looks trivial
  | recordJob id =>
    simp only [perform] at h
    split at h
    · cases h
      exact .looks (fun h => nomatch h)
    · obtain ⟨u, hu, he⟩ := Option.map_eq_some_iff.mp h
      cases he
      exact .records hu
  | running | load | getJob | readTerminationMessage =>
    obtain ⟨rfl, rfl⟩ := Prod.mk.inj (Option.some.inj h)
    exact .looks rfl
  | _ =>
    obtain ⟨rfl, rfl⟩ := Prod.mk.inj (Option.some.inj h)
    exact .looks trivial

/-- what `_finish` writes -/
theorem finish_ok {x : Finish} {now : Time} (h : finish s id x now = some t) :
    storable x.image x.usage = true ∧ (∃ b b' builds, s.state.builds.get? id = some b ∧
      Finished b b' x.image ∧ s.state.builds.put? b' = some builds ∧
      t.state = { s.state with builds := builds }) ∧ t.cluster = s.cluster ∧
      (x.line = none ∧ t.logs = s.logs ∨ ∃ line, x.line = some line ∧
        t.logs = Function.update s.logs id (appendLogLine (s.logs id) line)) := by
  unfold finish at h
  split at h
  · rename_i hs
    obtain ⟨u, hu, rfl⟩ := Option.map_eq_some_iff.mp h
    obtain ⟨v, hv, rfl⟩ := Option.map_eq_some_iff.mp hu
    obtain ⟨b, b', builds, hb, htrans, hput, rfl⟩ := finishBuild_ok (toOption_eq_some.mp hv)
    refine ⟨hs, ⟨b, b', builds, hb, finished_of_transition htrans, hput, rfl⟩, rfl, ?_⟩
    cases hline : x.line with
    | none => exact .inl ⟨rfl, rfl⟩
    | some line => exact .inr ⟨line, rfl, rfl⟩
  · cases h

/-- a running build can be finished -/
theorem transitionTo_of_running {image : Option String} (now : Time) (hb : b.status = .running)
    (hi : image ≠ some "") :
    ∃ b', b.transitionTo (if image.isSome then .succeeded else .failed) image now = .ok b' := by
  cases image with
  | none =>
    simp only [Build.transitionTo, hb, canTransition, Option.isSome_none, Bool.false_eq_true, if_false]
    exact ⟨_, rfl⟩
  | some i =>
    simp only [Build.transitionTo, hb, canTransition, Option.isSome_some, if_true, require, ne_eq, hi,
      reduceCtorEq, not_false_eq_true, and_self]
    exact ⟨_, rfl⟩

/-- **a running build is finished by values that fit their columns** -/
theorem exists_finish {x : Finish} (now : Time) (hb : s.state.builds.get? id = some b)
    (hr : b.status = .running) (hi : x.image ≠ some "") (hs : storable x.image x.usage = true) :
    ∃ t, finish s id x now = some t := by
  obtain ⟨b', htrans⟩ := transitionTo_of_running now hr hi
  obtain ⟨hid, -, hst, -⟩ := transitionTo_ok htrans
  have hopen : b'.status.isOpen = false := by
    rw [hst]
    split <;> rfl
  have hkey : Row.key b' = id := hid.trans (Table.key_of_get? hb)
  have hsub : (Row.entries b').Sublist (Row.entries b) := by
    show (if b'.status.isOpen = true then [b'.artifactId] else []).Sublist _
    rw [hopen]
    exact List.nil_sublist _
  obtain ⟨builds, hput⟩ := Table.put?_isSome_of_sublist (t := s.state.builds) (hkey ▸ hb) hsub
  have hdone : finishBuild { s.state with now := now } id x.image =
      .ok { s.state with now := now, builds := builds } := by
    simp only [finishBuild, bind_eq_ok, found_eq_ok, pure_eq_ok]
    exact ⟨b, hb, b', htrans, builds, hput, rfl⟩
  unfold finish atTime
  dsimp only
  rw [if_pos hs, hdone]
  exact ⟨_, rfl⟩

/-- the row that a claim takes -/
theorem claim_ok {now : Time} {u : State} (hid : nextBuild s.state = some id)
    (h : (atTime s.state now fun t => claimNextBuild t []) = some u) :
    ∃ b builds, s.state.builds.get? id = some b ∧ b.status = .queued ∧
      s.state.builds.put? { b with status := .running, startedAt := some now } = some builds ∧
      u = { s.state with builds := builds } := by
  obtain ⟨v, hv, rfl⟩ := Option.map_eq_some_iff.mp h
  obtain ⟨b, hb, hv⟩ := Option.bind_eq_some_iff.mp hv
  obtain ⟨builds, hput, hv⟩ := Option.bind_eq_some_iff.mp hv
  cases hv
  have hm := List.mem_of_mem_head? hb
  rw [List.mem_insertionSort, List.mem_filter, Bool.and_eq_true, decide_eq_true_eq] at hm
  have hall : (fun b : Build => decide (b.status = .queued) && !([] : List BuildId).contains b.id) =
      fun b => decide (b.status = .queued) := by
    funext b
    simp
  rw [hall] at hb
  have hbid : some b.id = some id := by
    rw [← hid]
    show _ = Option.map _ _
    rw [hb]
    rfl
  refine ⟨b, builds, ?_, hm.2.1, hput, rfl⟩
  rw [← Option.some.inj hbid]
  exact Table.get?_of_mem hm.1

/-- a row after an overwrite of the row of one build -/
theorem moves_of_put? {c : Base.Call Ret} {builds builds' : Table Build} {r r' : Build}
    (hput : builds.put? r' = some builds') (hr : builds.get? r'.id = some r)
    (hmove : Moves cfg c r r') (hb : builds.get? id = some b) :
    ∃ b', builds'.get? id = some b' ∧ Moves cfg c b b' := by
  refine ⟨_, get?_put?_cases hput hb, ?_⟩
  split
  · rename_i hk
    rw [hk, key_build, hr] at hb
    obtain rfl := Option.some.inj hb
    exact hmove
  · exact .stays

/-- **what becomes of a row** -/
theorem Does.moves {c : Outcome} {x : Base.Call Ret} (h : Does cfg s c x t)
    (hb : s.state.builds.get? id = some b) :
    ∃ b', t.state.builds.get? id = some b' ∧ Moves cfg x b b' := by
  cases h with
  | looks found => exact ⟨b, hb, .stays⟩
  | mirrors clean => exact ⟨b, hb, .stays⟩
  | deletes => exact ⟨b, hb, .stays⟩
  | creates free => exact ⟨b, hb, .stays⟩
  | @finishes id' y now t clean done =>
    obtain ⟨-, ⟨r, r', builds, hr, hfin, hput, ht⟩, -⟩ := finish_ok done
    have hid : r.id = id' := Table.key_of_get? hr
    subst hid
    rw [← hfin.key] at hr
    rw [ht]
    exact moves_of_put? hput hr (.finished y now rfl hfin) hb
  | @claims now id' u next done =>
    obtain ⟨r, builds, hr, hq, hput, rfl⟩ := claim_ok next done
    have hid : r.id = id' := Table.key_of_get? hr
    subst hid
    exact moves_of_put? hput hr (.claimed now rfl hq) hb
  | records done =>
    obtain ⟨r, builds, hr, hput, rfl⟩ := recordBuildJob_ok done
    have hid : r.id = _ := Table.key_of_get? hr
    subst hid
    exact moves_of_put? hput hr (.recorded rfl) hb

/-- a row that a call leaves was there before it -/
theorem Does.origin {c : Outcome} {x : Base.Call Ret} (h : Does cfg s c x t)
    (hb : t.state.builds.get? id = some b') : ∃ b, s.state.builds.get? id = some b := by
  have put : ∀ {builds' : Table Build} {r : Build}, s.state.builds.put? r = some builds' →
      builds'.get? id = some b' → ∃ b, s.state.builds.get? id = some b := by
    intro builds' r hput hb
    rw [Table.get?_put? hput] at hb
    split at hb
    · obtain ⟨b, hb, -⟩ := Option.map_eq_some_iff.mp hb
      exact ⟨b, hb⟩
    · exact ⟨b', hb⟩
  cases h with
  | looks found => exact ⟨b', hb⟩
  | mirrors clean => exact ⟨b', hb⟩
  | deletes => exact ⟨b', hb⟩
  | creates free => exact ⟨b', hb⟩
  | finishes clean done =>
    obtain ⟨-, ⟨r, r', builds, -, -, hput, ht⟩, -⟩ := finish_ok done
    rw [ht] at hb
    exact put hput hb
  | claims next done =>
    obtain ⟨r, builds, -, -, hput, rfl⟩ := claim_ok next done
    exact put hput hb
  | records done =>
    obtain ⟨r, builds, -, hput, rfl⟩ := recordBuildJob_ok done
    exact put hput hb

/-- **a row after a call is a row before it, moved** -/
theorem Does.back {c : Outcome} {x : Base.Call Ret} (h : Does cfg s c x t)
    (hb : t.state.builds.get? id = some b') :
    ∃ b, s.state.builds.get? id = some b ∧ Moves cfg x b b' := by
  obtain ⟨b, hold⟩ := h.origin hb
  obtain ⟨b'', hb'', hmove⟩ := h.moves hold
  rw [hb] at hb''
  exact ⟨b, hold, Option.some.inj hb'' ▸ hmove⟩

/-! ## What a pass has in hand -/

section
variable {log : Log Ret} {now : Time}

/-- the pass set out to advance the build, and has not finished it -/
def Listed (log : Log Ret) (id : BuildId) : Prop :=
  ∃ ids, Made log .running ids ∧ id ∈ ids ∧
    (ids.Nodup → ∀ x now r, ¬ Made log (.finish id x now) r)

/-- what a pass has just found when it finishes a build -/
inductive Evidence (cfg : Config) (now : Time) (id : BuildId) : Log Ret → Finish → Prop
  | unrecorded {b : Build} {older : Log Ret} (row : b.jobId = none) :
      Evidence cfg now id
        (⟨.deleteJob (cfg.jobName id), some ()⟩ :: ⟨.load id, some b⟩ :: older) .plain
  | gone {b : Build} {name : String} {older : Log Ret} (row : b.jobId = some name) :
      Evidence cfg now id (⟨.getJob name, some none⟩ :: ⟨.load id, some b⟩ :: older) .plain
  | complete {b : Build} {name : String} {j : Job} {m image : Option String}
      {usage : Option BuildUsage} {older : Log Ret} (row : b.jobId = some name)
      (job : j.isComplete = true) (reported : parseImage m = some image)
      (used : parseUsage m = some usage) :
      Evidence cfg now id (⟨.readTerminationMessage id, some m⟩ ::
        ⟨.getJob name, some (some j)⟩ :: ⟨.load id, some b⟩ :: older) ⟨image, none, usage⟩
  | failed {b : Build} {name : String} {j : Job} {m : Option String} {line : Option Bytes}
      {usage : Option BuildUsage} {newer older : Log Ret} (row : b.jobId = some name)
      (job : j.isFailed = true) (used : parseUsage m = some usage) :
      Evidence cfg now id (⟨.readTerminationMessage id, some m⟩ :: newer ++
        ⟨.getJob name, some (some j)⟩ :: ⟨.load id, some b⟩ :: older) ⟨none, line, usage⟩
  | overdue {b : Build} {name : String} {j : Job} {older : Log Ret} (row : b.jobId = some name)
      (job : j.isFinished = false) (late : overdue cfg now b = true) (clock : Made older .now now) :
      Evidence cfg now id (⟨.deleteJob name, some ()⟩ ::
        ⟨.getJob name, some (some j)⟩ :: ⟨.load id, some b⟩ :: older) .plain

/-- the name is that of the build's Job -/
def Named (cfg : Config) (log : Log Ret) (id : BuildId) (name : String) : Prop :=
  name = cfg.jobName id ∨ ∃ b, Made log (.load id) (some b) ∧ b.jobId = some name

/-- a call about the build has raised, or its commit was rolled back -/
inductive Disturbed (cfg : Config) (log : Log Ret) (id : BuildId) : Prop
  | log (made : Made log (.readLog id) none)
  | mirror {fresh : Option Bytes} {r : Commit} (made : Made log (.mirror id fresh) r)
      (undone : r ≠ .done)
  | job {name : String} (named : Named cfg log id name) (made : Made log (.getJob name) none)
  | delete {name : String} (named : Named cfg log id name) (made : Made log (.deleteJob name) none)
  | message (made : Made log (.readTerminationMessage id) none)
  | gate (made : Made log (.readGateFailure id) none)
  | eviction (made : Made log (.readEviction id) none)
  | finish {x : Finish} {now : Time} (made : Made log (.finish id x now) .rolledBack)

/-- what has become of a build that a pass set out to advance -/
inductive Settled (cfg : Config) (log : Log Ret) (id : BuildId) : Prop
  | finished {x : Finish} {now : Time} (made : Made log (.finish id x now) .done)
  | refused {x : Finish} {now : Time} (made : Made log (.finish id x now) .refused)
  | active {b : Build} {name : String} {j : Job} {older : Log Ret} (row : b.jobId = some name)
      (seen : (⟨.getJob name, some (some j)⟩ : Base.Call Ret) :: ⟨.load id, some b⟩ :: older <:+ log)
      (job : j.isFinished = false)
  | missing (made : Made log (.load id) none)
  | unreadable {m : Option String} (made : Made log (.readTerminationMessage id) (some m))
      (bad : parseUsage m = none)
  | disturbed (call : Disturbed cfg log id)

/-- what the log of a pass holds when it writes, and when it looks for a Job -/
def deed (cfg : Config) (log : Log Ret) : Op → Prop
  | .mirror id _ => Listed log id
  | .load id => ∃ fresh r older, log = ⟨.mirror id fresh, r⟩ :: older
  | .getJob name => ∃ id b older, log = ⟨.load id, some b⟩ :: older ∧ b.jobId = some name
  | .finish id x now => Listed log id ∧ Evidence cfg now id log x
  | .createJob id => ∃ now older, log = ⟨.claim now, some id⟩ :: older
  | .recordJob id => ∃ now older, log = ⟨.createJob id, true⟩ :: ⟨.claim now, some id⟩ :: older
  | _ => True

/-- what it holds when the pass has ended -/
def reply (cfg : Config) (log : Log Ret) : Prop :=
  ∃ ids, Made log .running ids ∧ ∀ id ∈ ids, Settled cfg log id

def contract (cfg : Config) : Contract Ret Unit := ⟨deed cfg, fun log _ => reply cfg log⟩

/-- the log has grown by calls about one build -/
structure About (log l : Log Ret) (id : BuildId) : Prop where
  grown : log <:+ l
  finish : ∀ id' x now r, Made l (.finish id' x now) r → id' = id ∨ Made log (.finish id' x now) r

theorem About.refl (log : Log Ret) (id : BuildId) : About log log id :=
  ⟨List.suffix_refl _, fun _ _ _ _ h => .inr h⟩

theorem About.cons {l : Log Ret} {c : Base.Call Ret} (h : About log l id)
    (hf : ∀ id' x now r, c = ⟨.finish id' x now, r⟩ → id' = id) : About log (c :: l) id where
  grown := h.grown.trans (List.suffix_cons _ _)
  finish := by
    intro id' x now r hm
    rcases List.mem_cons.mp hm with heq | hm
    · exact .inl (hf _ _ _ _ heq.symm)
    · exact h.finish id' x now r hm

theorem Named.mono {l : Log Ret} {name : String} (h : Named cfg log id name) (hl : log <:+ l) :
    Named cfg l id name := by
  rcases h with rfl | ⟨b, hb, hn⟩
  · exact .inl rfl
  · exact .inr ⟨b, hb.mono hl, hn⟩

theorem Disturbed.mono {l : Log Ret} (h : Disturbed cfg log id) (hl : log <:+ l) :
    Disturbed cfg l id := by
  cases h with
  | log made => exact .log (made.mono hl)
  | mirror made undone => exact .mirror (made.mono hl) undone
  | job named made => exact .job (named.mono hl) (made.mono hl)
  | delete named made => exact .delete (named.mono hl) (made.mono hl)
  | message made => exact .message (made.mono hl)
  | gate made => exact .gate (made.mono hl)
  | eviction made => exact .eviction (made.mono hl)
  | finish made => exact .finish (made.mono hl)

theorem Settled.mono {l : Log Ret} (h : Settled cfg log id) (hl : log <:+ l) :
    Settled cfg l id := by
  cases h with
  | finished made => exact .finished (made.mono hl)
  | refused made => exact .refused (made.mono hl)
  | active row seen job => exact .active row (seen.trans hl) job
  | missing made => exact .missing (made.mono hl)
  | unreadable made bad => exact .unreadable (made.mono hl) bad
  | disturbed call => exact .disturbed (call.mono hl)

/-- a message whose payload raises has no usage either -/
theorem parseUsage_of_parseImage {m : Option String} (h : parseImage m = none) :
    parseUsage m = none := by
  cases hp : terminationPayload m with
  | none =>
    unfold parseUsage
    rw [hp]
    rfl
  | some payload =>
    unfold parseImage at h
    rw [hp] at h
    simp only [Option.bind_eq_bind, Option.bind_some] at h
    split at h <;> cases h

/-- an image that is reported has a name -/
theorem parseImage_ne {m image : Option String} (h : parseImage m = some image) :
    image ≠ some "" := by
  cases hp : terminationPayload m with
  | none =>
    unfold parseImage at h
    rw [hp] at h
    cases h
  | some payload =>
    unfold parseImage at h
    rw [hp] at h
    simp only [Option.bind_eq_bind, Option.bind_some] at h
    split at h
    · split at h
      · cases h
        exact fun h => nomatch h
      · rename_i hne
        cases h
        exact fun h => hne (Option.some.inj h)
    · cases h
      exact fun h => nomatch h

theorem Evidence.image_ne {x : Finish} (h : Evidence cfg now id log x) : x.image ≠ some "" := by
  cases h with
  | complete row job reported used => exact parseImage_ne reported
  | unrecorded row => exact fun h => nomatch h
  | gone row => exact fun h => nomatch h
  | failed row job used => exact fun h => nomatch h
  | overdue row job late => exact fun h => nomatch h

/-! ## One build -/

/-- the contract of a part of a pass that advances a build -/
def partContract (cfg : Config) (log : Log Ret) (id : BuildId) : Contract Ret Unit :=
  ⟨deed cfg, fun l _ => About log l id ∧ Settled cfg l id⟩

section
variable {log0 : Log Ret}

/-- the part has ended with the build settled -/
abbrev Done (cfg : Config) (log0 : Log Ret) (id : BuildId) {α : Type} (l : Log Ret) (_ : α) : Prop :=
  About log0 l id ∧ Settled cfg l id

/-- the end of a build's turn -/
theorem meets_finishWith {x : Finish} {l : Log Ret} (ha : About log0 l id) (hl : Listed l id)
    (he : Evidence cfg now id l x) :
    Meets (partContract cfg log0 id) (Done cfg log0 id) l (finishWith now id x) := by
  refine Meets.ask ⟨hl, he⟩ fun r => ?_
  have hmade := made_head l (.finish id x now) r
  have ha' : About log0 (⟨.finish id x now, r⟩ :: l) id := by
    refine ha.cons ?_
    rintro id' x' now' r' h
    cases h
    rfl
  cases r with
  | done => exact ⟨ha', .finished hmade⟩
  | refused => exact ⟨ha', .refused hmade⟩
  | rolledBack => exact ⟨ha', .disturbed (.finish hmade)⟩

/-- a call that may raise -/
theorem meets_raising {α β : Type} {l : Log Ret} {x : Raising α} {f : α → Part β}
    {Q : Log Ret → β → Prop} (ha : About log0 l id) (hx : x = none → Settled cfg l id)
    (hf : ∀ a, x = some a → Meets (partContract cfg log0 id) Q l (f a)) :
    Meets (partContract cfg log0 id) Q l (orRaise x >>= f) := by
  cases x with
  | none => exact ⟨ha, hx rfl⟩
  | some a => exact hf a rfl

/-- a build that its pass has set out to advance, before any call of a kind -/
structure Going (log0 l : Log Ret) (id : BuildId) : Prop where
  about : About log0 l id
  listed : Listed l id

/-- a call that is not an end -/
def Plain : Op → Bool
  | .finish _ _ _ => false
  | _ => true

theorem Going.cons {l : Log Ret} {o : Op} {r : Ret o} (h : Going log0 l id) (ho : Plain o = true) :
    Going log0 (⟨o, r⟩ :: l) id := by
  have hf : ∀ id' x now r', (⟨o, r⟩ : Base.Call Ret) ≠ ⟨.finish id' x now, r'⟩ := by
    intro id' x now r' heq
    cases heq
    cases ho
  refine ⟨h.about.cons fun id' x now r' heq => absurd heq (hf _ _ _ _), ?_⟩
  obtain ⟨ids, hm, hid, hn⟩ := h.listed
  refine ⟨ids, hm.cons _, hid, fun hnd x now r' hm' => ?_⟩
  rcases List.mem_cons.mp hm' with heq | hm'
  · exact hf _ _ _ _ heq.symm
  · exact hn hnd x now r' hm'

theorem meets_advanceComplete {b : Build} {name : String} {j : Job} {l older : Log Ret}
    (hg : Going log0 l id) (hl : l = ⟨.getJob name, some (some j)⟩ :: ⟨.load id, some b⟩ :: older)
    (row : b.jobId = some name) (job : j.isComplete = true) :
    Meets (partContract cfg log0 id) (Done cfg log0 id) l (advanceComplete now id) := by
  refine Meets.ask trivial fun m => ?_
  have hg' := hg.cons (o := .readTerminationMessage id) (r := m) rfl
  have hmade := made_head l (.readTerminationMessage id) m
  refine meets_raising hg'.about (fun h => .disturbed (.message (h ▸ hmade))) fun m' hm => ?_
  subst hm
  refine meets_raising hg'.about (fun h => .unreadable hmade (parseUsage_of_parseImage h))
    fun image himage => ?_
  refine meets_raising hg'.about (fun h => .unreadable hmade h) fun usage husage => ?_
  exact meets_finishWith hg'.about hg'.listed (hl ▸ .complete row job himage husage)

theorem meets_advanceFailed {b : Build} {name : String} {j : Job} {l older : Log Ret}
    (hg : Going log0 l id) (hl : l = ⟨.getJob name, some (some j)⟩ :: ⟨.load id, some b⟩ :: older)
    (row : b.jobId = some name) (job : j.isFailed = true) :
    Meets (partContract cfg log0 id) (Done cfg log0 id) l (advanceFailed now id) := by
  -- whatever the line, the reads for it come between the Job and the message
  have hline : ∀ newer line, Going log0 (newer ++ l) id →
      Meets (partContract cfg log0 id) (Done cfg log0 id) (newer ++ l) (do
        let message ← Ask.readTerminationMessage id
        let message ← orRaise message
        let usage ← orRaise (parseUsage message)
        finishWith now id ⟨none, line, usage⟩) := by
    intro newer line hg
    refine Meets.ask trivial fun m => ?_
    have hg' := hg.cons (o := .readTerminationMessage id) (r := m) rfl
    have hmade := made_head (newer ++ l) (.readTerminationMessage id) m
    refine meets_raising hg'.about (fun h => .disturbed (.message (h ▸ hmade))) fun m' hm => ?_
    subst hm
    refine meets_raising hg'.about (fun h => .unreadable hmade h) fun usage husage => ?_
    exact meets_finishWith hg'.about hg'.listed (hl ▸ .failed row job husage)
  refine Meets.seq (R := fun l' _ => ∃ newer, l' = newer ++ l ∧ Going log0 l' id) ?_ ?_
  · refine Meets.ask trivial fun gate => ?_
    have hg' := hg.cons (o := .readGateFailure id) (r := gate) rfl
    refine meets_raising hg'.about (fun h => .disturbed (.gate (h ▸ made_head _ _ _)))
      fun gate' _ => ?_
    cases gate' with
    | some text => exact ⟨[_], rfl, hg'⟩
    | none =>
      refine Meets.ask trivial fun evicted => ?_
      have hg'' := hg'.cons (o := .readEviction id) (r := evicted) rfl
      refine meets_raising hg''.about (fun h => .disturbed (.eviction (h ▸ made_head _ _ _)))
        fun evicted' _ => ?_
      exact ⟨[_, _], rfl, hg''⟩
  · rintro l' line - ⟨newer, rfl, hg'⟩
    exact hline newer line hg'

theorem meets_advanceJob {b : Build} {name : String} {job : Option Job} {l older : Log Ret}
    (hg : Going log0 l id) (hl : l = ⟨.getJob name, some job⟩ :: ⟨.load id, some b⟩ :: older)
    (row : b.jobId = some name) (hnow : Made older .now now) :
    Meets (partContract cfg log0 id) (Done cfg log0 id) l (advanceJob cfg now id b name job) := by
  cases job with
  | none => exact meets_finishWith hg.about hg.listed (hl ▸ .gone row)
  | some j =>
    show Meets _ _ _ (if j.isComplete = true then _ else if j.isFailed = true then _
      else if overdue cfg now b = true then _ else _)
    cases hc : j.isComplete with
    | true =>
      rw [if_pos rfl]
      exact meets_advanceComplete hg hl row hc
    | false =>
      rw [if_neg Bool.false_ne_true]
      cases hf : j.isFailed with
      | true =>
        rw [if_pos rfl]
        exact meets_advanceFailed hg hl row hf
      | false =>
        have hfin : j.isFinished = false := by rw [Job.isFinished, hc, hf, Bool.or_false]
        rw [if_neg Bool.false_ne_true]
        cases ho : overdue cfg now b with
        | true =>
          rw [if_pos rfl]
          refine Meets.ask trivial fun deleted => ?_
          have hg' := hg.cons (o := .deleteJob name) (r := deleted) rfl
          have hload : Made l (.load id) (some b) := hl ▸ (made_head _ _ _).cons _
          refine meets_raising hg'.about
            (fun h => .disturbed (.delete (.inr ⟨b, hload.cons _, row⟩) (h ▸ made_head _ _ _)))
            fun deleted' hd => ?_
          subst hd
          exact meets_finishWith hg'.about hg'.listed (hl ▸ .overdue row hfin ho hnow)
        | false =>
          rw [if_neg Bool.false_ne_true]
          have hseen : (⟨.getJob name, some (some j)⟩ : Base.Call Ret) :: ⟨.load id, some b⟩ :: older <:+
              l := by
            rw [hl]
          exact ⟨hg.about, .active row hseen hfin⟩

theorem meets_advanceBuild (hl : Listed log0 id) (hnow : Made log0 .now now) :
    Meets (partContract cfg log0 id) (Done cfg log0 id) log0 (advanceBuild cfg now id) := by
  have hg : Going log0 log0 id := ⟨.refl log0 id, hl⟩
  refine Meets.ask trivial fun fresh => ?_
  have hg := hg.cons (o := .readLog id) (r := fresh) rfl
  refine meets_raising hg.about (fun h => .disturbed (.log (h ▸ made_head _ _ _)))
    fun fresh' _ => ?_
  refine Meets.ask hg.listed fun stored => ?_
  have hg := hg.cons (o := .mirror id fresh') (r := stored) rfl
  have hmirror := made_head (⟨.readLog id, fresh⟩ :: log0) (.mirror id fresh') stored
  cases stored with
  | refused =>
    refine ⟨hg.about, .disturbed (.mirror hmirror fun h => ?_)⟩
    cases h
  | rolledBack =>
    refine ⟨hg.about, .disturbed (.mirror hmirror fun h => ?_)⟩
    cases h
  | done =>
    refine Meets.ask ⟨fresh', .done, _, rfl⟩ fun row => ?_
    have hg := hg.cons (o := .load id) (r := row) rfl
    refine meets_raising hg.about (fun h => .missing (h ▸ made_head _ _ _)) fun b hb => ?_
    subst hb
    split
    · rename_i hnone
      refine Meets.ask trivial fun deleted => ?_
      have hg := hg.cons (o := .deleteJob (cfg.jobName id)) (r := deleted) rfl
      refine meets_raising hg.about
        (fun h => .disturbed (.delete (.inl rfl) (h ▸ made_head _ _ _))) fun deleted' hd => ?_
      subst hd
      exact meets_finishWith hg.about hg.listed (.unrecorded hnone)
    · rename_i name hname
      refine Meets.ask ⟨id, b, _, rfl, hname⟩ fun job => ?_
      have hg := hg.cons (o := .getJob name) (r := job) rfl
      refine meets_raising hg.about (fun h => .disturbed
        (.job (.inr ⟨b, (made_head _ _ _).cons _, hname⟩) (h ▸ made_head _ _ _))) fun job' hj => ?_
      subst hj
      exact meets_advanceJob hg rfl hname ((hnow.cons _).cons _)

end

/-! ## The pass -/

theorem meets_advanceAll {ids : List BuildId} (hm : Made log .running ids)
    (hnow : Made log .now now) (rest : List BuildId)
    (hin : ∀ id ∈ rest, id ∈ ids) (hnd : ids.Nodup → rest.Nodup)
    (hn : ids.Nodup → ∀ id ∈ rest, ∀ x now r, ¬ Made log (.finish id x now) r) :
    Meets (contract cfg) (fun l _ => ∀ id ∈ rest, Settled cfg l id) log (advanceAll cfg now rest) := by
  induction rest generalizing log with
  | nil => exact fun _ h => nomatch h
  | cons id rest ih =>
    have hlisted : Listed log id :=
      ⟨ids, hm, hin id List.mem_cons_self, fun h => hn h id List.mem_cons_self⟩
    refine Meets.seq (R := fun l _ => About log l id ∧ Settled cfg l id) ?_ ?_
    · exact (meets_attempt _).mpr (meets_advanceBuild hlisted hnow)
    · rintro l r hsuf ⟨ha, hs⟩
      have hrest := ih (hm.mono hsuf) (hnow.mono hsuf) (fun x hx => hin x (List.mem_cons_of_mem id hx))
        (fun h => (List.nodup_cons.mp (hnd h)).2) ?_
      · refine hrest.mono fun l' u hsuf' hq x hx => ?_
        rcases List.mem_cons.mp hx with rfl | hx
        · exact hs.mono hsuf'
        · exact hq x hx
      · intro h x hx y now' r' hmade
        have hne : x ≠ id := fun he => (List.nodup_cons.mp (hnd h)).1 (he ▸ hx)
        rcases ha.finish x y now' r' hmade with he | hold
        · exact hne he
        · exact hn h x (List.mem_cons_of_mem id hx) y now' r' hold

/-- claiming leaves what was settled alone -/
theorem meets_claimBuilds (rounds : Nat) {Q : Log Ret → Prop}
    (hQ : ∀ l c, Q l → Q (c :: l)) (h : Q log) :
    Meets (contract cfg) (fun l _ => Q l) log (claimBuilds cfg now rounds) := by
  induction rounds generalizing log with
  | zero => exact h
  | succ rounds ih =>
    refine Meets.ask trivial fun count => ?_
    have h := hQ log ⟨.runningCount, count⟩ h
    by_cases hc : count < cfg.buildMaxInFlight
    · rw [if_pos hc]
      refine Meets.ask trivial fun claimed => ?_
      have h := hQ _ ⟨.claim now, claimed⟩ h
      cases claimed with
      | none => exact h
      | some id =>
        refine Meets.ask ⟨now, _, rfl⟩ fun created => ?_
        have h := hQ _ ⟨.createJob id, created⟩ h
        cases created with
        | false => exact h
        | true =>
          refine Meets.ask ⟨now, _, rfl⟩ fun recorded => ?_
          have h := hQ _ ⟨.recordJob id, recorded⟩ h
          show Meets _ _ _ (if decide (recorded = .done) = true then _ else _)
          split
          · exact ih h
          · exact h
    · rw [if_neg hc]
      exact h

/-- **a pass keeps to that** -/
theorem meets_runPass (cfg : Config) (req : Unit) :
    Meets (contract cfg) (contract cfg).answer [] ((service cfg settings).handler req) := by
  refine Meets.ask trivial fun now => Meets.ask trivial fun ids => ?_
  have hmade : Made (⟨.running, ids⟩ :: [⟨.now, now⟩] : Log Ret) .running ids := made_head _ _ _
  have hnow : Made (⟨.running, ids⟩ :: [⟨.now, now⟩] : Log Ret) .now now := (made_head _ _ _).cons _
  refine Meets.seq (meets_advanceAll hmade hnow ids (fun _ h => h) (fun h => h) ?_) ?_
  · intro _ id _ x now' r hm
    rcases List.mem_cons.mp hm with h | h
    · cases h
    · rcases List.mem_cons.mp h with h | h
      · cases h
      · cases h
  · intro l u hsuf hs
    refine (meets_claimBuilds (Q := fun l => Made l .running ids ∧ ∀ id ∈ ids, Settled cfg l id) _
      ?_ ?_).mono ?_
    · rintro l c ⟨hm, hs⟩
      exact ⟨hm.cons _, fun id hid => (hs id hid).mono (List.suffix_cons _ _)⟩
    · exact ⟨hmade.mono hsuf, hs⟩
    · exact fun l' u' _ hq => ⟨ids, hq⟩

end

/-! ## The pass at work -/

theorem mem_runningBuilds {x : State} :
    id ∈ runningBuilds x ↔ ∃ b, x.builds.get? id = some b ∧ b.status = .running := by
  simp only [runningBuilds, List.mem_map, List.mem_insertionSort, List.mem_filter, decide_eq_true_eq]
  constructor
  · rintro ⟨b, ⟨hb, hs⟩, rfl⟩
    exact ⟨b, Table.get?_of_mem hb, hs⟩
  · rintro ⟨b, hb, hs⟩
    exact ⟨b, ⟨Table.mem_of_get? hb, hs⟩, Table.key_of_get? hb⟩

theorem nodup_runningBuilds (x : State) : (runningBuilds x).Nodup := by
  have hperm := (List.perm_insertionSort startedBefore
    (x.builds.rows.filter fun b => decide (b.status = .running))).map Build.id
  exact hperm.nodup_iff.mpr ((List.Sublist.map _ List.filter_sublist).nodup x.builds.keys)

theorem Aside.get? (h : Aside s t) (hb : s.state.builds.get? id = some b) :
    t.state.builds.get? id = some b := by
  rcases h.builds with he | ⟨x, hx, -⟩
  · rw [he, hb]
  · exact Table.get?_insert?_of_get? hx hb

theorem Aside.back (h : Aside s t) (hb : t.state.builds.get? id = some b) :
    s.state.builds.get? id = some b ∨
      s.state.builds.get? id = none ∧ b.status = .queued ∧ b.jobId = none := by
  rcases h.builds with he | ⟨x, hx, hq, hj⟩
  · exact .inl (he ▸ hb)
  · rcases get?_of_insert hx hb with ⟨hid, rfl⟩ | ⟨-, hb⟩
    · exact .inr ⟨hid ▸ Table.get?_of_insert? hx, hq, hj⟩
    · exact .inl hb

/-- the build's row is running -/
def Running (s : Store) (id : BuildId) : Prop :=
  ∃ b, s.state.builds.get? id = some b ∧ b.status = .running

abbrev Trace := List (Entry Ret Unit Time)

/-- what the pass at work has set out to advance is still running, unless it has finished it -/
structure Busy (s : Store) (tr : Trace) : Prop where
  nodup : ∀ e ∈ tr, ∀ ids, e.call = ⟨.running, ids⟩ → ids.Nodup
  running : ∀ i, IsLast i tr → ∀ ids id, Made (logOf i tr) .running ids → id ∈ ids →
    (∀ x now, ¬ Made (logOf i tr) (.finish id x now) .done) → Running s id

theorem Busy.aside {tr : Trace} (h : Busy s tr) (ha : Aside s t) : Busy t tr where
  nodup := h.nodup
  running := by
    intro i hi ids id hm hid hn
    obtain ⟨b, hb, hs⟩ := h.running i hi ids id hm hid hn
    exact ⟨b, ha.get? hb, hs⟩

/-- a running row stays so, or is finished -/
theorem Moves.running {c : Base.Call Ret} (h : Moves cfg c b b') (hs : b.status = .running) :
    b'.status = .running ∨ ∃ x now, c = ⟨.finish b.id x now, .done⟩ := by
  cases h with
  | stays => exact .inl hs
  | claimed now call queued =>
    rw [hs] at queued
    cases queued
  | recorded call => exact .inl hs
  | finished x now call row => exact .inr ⟨x, now, call⟩

theorem Busy.call {tr : Trace} {c : Outcome} {i : Nat} {req : Unit} {x : Base.Call Ret} {now : Time}
    (h : Busy s tr) (hi : IsLast i tr) (hd : Does cfg s c x t) :
    Busy t (⟨i, req, x, now⟩ :: tr) where
  nodup := by
    intro e he ids hcall
    rcases List.mem_cons.mp he with rfl | he
    · cases hcall
      cases hd with
      | looks found =>
        have found : ids = runningBuilds s.state := found
        exact found ▸ nodup_runningBuilds s.state
    · exact h.nodup e he ids hcall
  running := by
    intro j hj ids id hm hid hn
    have hge : i ≤ j := hj ⟨i, req, x, now⟩ List.mem_cons_self
    by_cases hij : i = j
    · subst hij
      have hlog : logOf i ((⟨i, req, x, now⟩ : Entry Ret Unit Time) :: tr) = x :: logOf i tr :=
        logOf_self _ _
      rw [hlog] at hm hn
      have hold : Made (logOf i tr) .running ids → Running t id := by
        intro hm
        obtain ⟨b, hb, hs⟩ := h.running i hi ids id hm hid fun x now hmade => hn x now (hmade.cons _)
        obtain ⟨b', hb', hmove⟩ := hd.moves hb
        rcases hmove.running hs with hs' | ⟨y, now', rfl⟩
        · exact ⟨b', hb', hs'⟩
        · have hkey : b.id = id := Table.key_of_get? hb
          exact absurd (hkey ▸ made_head _ _ _) (hn y now')
      rcases List.mem_cons.mp hm with heq | hm
      · subst heq
        cases hd with
        | looks found =>
          have found : ids = runningBuilds s.state := found
          exact mem_runningBuilds.mp (found ▸ hid)
      · exact hold hm
    · -- a later pass has made no call yet
      have hlog : logOf j ((⟨i, req, x, now⟩ : Entry Ret Unit Time) :: tr) = logOf j tr := by
        rw [logOf_cons, if_neg hij]
      rw [hlog] at hm
      obtain ⟨e, l, he, hwho, -⟩ := entry_of_mem_logOf hm
      have hle := hi e (mem_of_cons_suffix he)
      omega

/-- a Job that is recorded stays so -/
theorem Moves.jobId {c : Base.Call Ret} (h : Moves cfg c b b')
    (hb : b.jobId = some (cfg.jobName b.id)) : b'.jobId = some (cfg.jobName b.id) := by
  cases h with
  | stays => exact hb
  | claimed now call queued => exact hb
  | recorded call => rfl
  | finished y now call row => exact row.job.trans hb

/-- a row that has ended stays as it has ended -/
theorem Moves.ended {c : Base.Call Ret} (h : Moves cfg c b b') (hb : b.status.isTerminal = true) :
    b'.status = b.status := by
  cases h with
  | stays => rfl
  | claimed now call queued =>
    rw [queued] at hb
    cases hb
  | recorded call => rfl
  | finished x now call row =>
    rw [row.running] at hb
    cases hb

/-- **a build that the pass at work may write is running** -/
theorem Busy.listed {tr : Trace} {i : Nat} (h : Busy s tr) (hi : IsLast i tr)
    (hl : Listed (logOf i tr) id) : Running s id := by
  obtain ⟨ids, hm, hid, hn⟩ := hl
  obtain ⟨e, l, he, -, hcall⟩ := entry_of_mem_logOf hm
  have hnd := h.nodup e (mem_of_cons_suffix he) ids hcall
  exact h.running i hi ids id hm hid fun x now => hn hnd x now .done

theorem busy_init : Busy .init [] where
  nodup := fun _ h => nomatch h
  running := by
    intro i _ ids id hm
    cases hm

section
variable {ok : WorkerPool → WorkerEvent → Prop} {p q : WorkerPool}

/-- what a step makes of a row -/
theorem moves_of_step {ev : WorkerEvent} (h : (service cfg settings).step p ev = some q)
    (hb : p.store.state.builds.get? id = some b) :
    ∃ b' x, q.store.state.builds.get? id = some b' ∧ Moves cfg x b b' := by
  obtain ⟨req, rfl, rfl⟩ | ⟨i, c, req, o, k, x, s, rfl, hth, hp, rfl⟩ | ⟨w, s, rfl, hw, rfl⟩ :=
    step_cases h
  · exact ⟨b, ⟨.runningCount, 0⟩, hb, .stays⟩
  · obtain ⟨b', hb', hmove⟩ := (does_of_perform hp).moves hb
    exact ⟨b', _, hb', hmove⟩
  · exact ⟨b, ⟨.runningCount, 0⟩, (aside_of_change hw).get? hb, .stays⟩

/-- a recorded Job stays on record -/
theorem recorded_of_reach (h : (service cfg settings).machine.Reach ok p q)
    (hb : p.store.state.builds.get? id = some b) (hj : b.jobId = some (cfg.jobName id)) :
    ∃ b', q.store.state.builds.get? id = some b' ∧ b'.jobId = some (cfg.jobName id) := by
  refine h.invariant (P := fun q => ∃ b', q.store.state.builds.get? id = some b' ∧
    b'.jobId = some (cfg.jobName id)) ⟨b, hb, hj⟩ ?_
  rintro r ev r' ⟨b', hb', hj⟩ - hstep
  obtain ⟨b'', x, hb'', hmove⟩ := moves_of_step hstep hb'
  have hid : b'.id = id := Table.key_of_get? hb'
  subst hid
  exact ⟨b'', hb'', hmove.jobId hj⟩

/-- **what has ended stays so** -/
theorem ended_of_reach (h : (service cfg settings).machine.Reach ok p q)
    (hb : p.store.state.builds.get? id = some b) (he : b.status.isTerminal = true) :
    ∃ b', q.store.state.builds.get? id = some b' ∧ b'.status = b.status := by
  refine h.invariant (P := fun q => ∃ b', q.store.state.builds.get? id = some b' ∧
    b'.status = b.status) ⟨b, hb, rfl⟩ ?_
  rintro r ev r' ⟨b', hb', hs⟩ - hstep
  obtain ⟨b'', x, hb'', hmove⟩ := moves_of_step hstep hb'
  exact ⟨b'', hb'', (hmove.ended (hs ▸ he)).trans hs⟩

theorem busy_of_reach (hok : ∀ p ev, ok p ev → OneAtATime p ev)
    (h : (service cfg settings).machine.Reach ok (Service.start .init) p) :
    Grounded (service cfg settings) p ∧ Busy p.store p.trace := by
  have hist : Grounded (service cfg settings) p ∧ Busy p.store p.trace ∧
      ∀ e older, e :: older <:+ p.trace → True := by
    refine Machine.Reach.history (C := fun _ => contract cfg) (I := Busy)
      (F := fun _ _ => True) (meets_runPass cfg) busy_init ?_ ?_ h
    · intro p w s _ hb hw
      exact hb.aside (aside_of_change hw)
    · intro p i c req o k x s hok' hg hb _ hth _ hp
      exact ⟨hb.call (hg.isLast (hok _ _ hok' i c rfl)) (does_of_perform hp), trivial⟩
  exact ⟨hist.1, hist.2.1⟩

end

/-! ## A worker to run -/

namespace Sample

def image : String := "7@sha256:" ++ String.ofList (List.replicate 64 'a')

/-- the report of an image -/
def report : String := "\x7b\"image\": \"" ++ image ++ "\"\x7d"

def zeros : String := String.ofList (List.replicate 309 '0')

/-- a report with more CPU seconds than a float holds -/
def boundlessReport : String :=
  "\x7b\"image\": \"" ++ image ++ "\", \"usage\": \x7b\"cpu_seconds\": 1" ++ zeros ++ "\x7d\x7d"

/-- the integers as numbers, and the reports above as JSON -/
@[reducible] def python : Python where
  Num := Int
  loads := fun s =>
    if s = report then .value (.obj [("image", .str image)])
    else if s = boundlessReport then
      .value (.obj [("image", .str image), ("usage", .obj [("cpu_seconds", .num (10 ^ 309))])])
    else .decodeError
  isfinite := fun x => if x.natAbs < 2 ^ 1024 - 2 ^ 970 then some true else none
  nonneg := fun x => decide (0 ≤ x)
  round := fun x => x
  Moment := Time
  fromisoformat := fun _ => none
  hasZone := fun _ => true
  toUTC := some
  strip := fun s =>
    String.ofList ((s.toList.dropWhile Char.isWhitespace).reverse.dropWhile Char.isWhitespace).reverse

def config (cap : Nat) : Config where
  buildLogMaxBytes := cap
  buildDeadlineSeconds := 3600
  buildDeadlineGraceSeconds := 300
  buildMaxInFlight := 1
  uuid := fun id => String.ofList (List.replicate id 'b')
  uuid_injective := by
    intro a b h
    have hl := congrArg (fun s : String => s.toList.length) h
    simpa using hl

/-- the next calls of the pass `i` -/
def calls (i : Nat) (cs : List Outcome) : List WorkerEvent := cs.map fun c => .run i c

/-- `n` calls that nothing disturbs -/
def quiet (i n : Nat) : List WorkerEvent := calls i (List.replicate n .ok)

/-- a build is queued, and the first pass starts it -/
def started : List WorkerEvent :=
  let platform : List Action := .create .sample (.sample .null none) :: Action.turn "w1" .clean ++
    [.createBuild .sample ⟨7, 1, "artifact", 2⟩]
  (platform.map fun a => .world (.platform a)) ++ .arrive () :: quiet 0 7

/-- a pass over a build whose Job is at work -/
def watched (i : Nat) : List WorkerEvent := .arrive () :: quiet i 7

def output (data : Bytes) : WorkerEvent := .world (.output 2 (some data))

/-- the Job of the build as it stands now -/
def job (succeeded failed : Nat) : WorkerEvent :=
  .world (.job ((config 0).jobName 2) ⟨succeeded, failed⟩)

/-- the pod of the build has been evicted, and its Job has failed -/
def evicted : List WorkerEvent :=
  [.world (.pods 2 [⟨some "Evicted", none, [], []⟩]), job 0 1]

/-- the pass that finishes an evicted build, and finds no other -/
def buried (i : Nat) : List WorkerEvent := .arrive () :: quiet i 12

def statusOf (p : WorkerPool) : Option BuildStatus := (p.store.state.builds.get? 2).map Build.status

end Sample

end Freepod.BuildWorker
