import Freepod.Runs.Results

/-!
# The status a release shows

`DeploymentReleaseORM.status` derives the status of a release from three columns the final commit
of a reconcile writes.  `Agrees` compares it with the result the reconcile returned.

* `release_status_agrees`: exactly when the two agree, for every reconcile of a release, whatever
  its steps raise and whatever other sessions do meanwhile.
* `release_status_orderly`: in orderly runs all that counts is the text of the exception.
* `release_status_masked`: an exception without a text leaves a release that shows success.
-/

namespace Freepod
open Base

variable {cfg : Settings} {s t : State} {a : Action} {w : WorkerId}

/-- `ReleaseStatus` -/
inductive ReleaseStatus
  | queued | inFlight | abandoned | failed | succeeded
  deriving DecidableEq, Repr

/-- whether Python takes an optional text for true -/
def truthy : Option String → Bool
  | none => false
  | some e => e ≠ ""

/-- `DeploymentReleaseORM.status` -/
def DeploymentRelease.status (cfg : Settings) (now : Time) (r : DeploymentRelease) :
    ReleaseStatus :=
  match r.startedAt with
  | none => .queued
  | some started =>
    match r.endedAt with
    | none => if now - started > cfg.reconcileJobLease then .abandoned else .inFlight
    | some _ => if truthy r.error then .failed else .succeeded

/-- the status of a release that has ended -/
theorem DeploymentRelease.status_ended {r : DeploymentRelease} {now : Time}
    (hs : r.startedAt ≠ none) (he : r.endedAt ≠ none) :
    r.status cfg now = if truthy r.error then .failed else .succeeded := by
  obtain ⟨started, hs⟩ := Option.ne_none_iff_exists'.mp hs
  obtain ⟨ended, he⟩ := Option.ne_none_iff_exists'.mp he
  simp only [DeploymentRelease.status, hs, he]

/-! ## A claimed release has started -/

/-- what is marked on one row is marked on the other -/
structure Marks (r r' : DeploymentRelease) : Prop where
  started : r.startedAt ≠ none → r'.startedAt ≠ none
  ended : r.endedAt ≠ none → r'.endedAt ≠ none

theorem Marks.refl (r : DeploymentRelease) : Marks r r := ⟨id, id⟩

theorem Marks.trans {r r' r'' : DeploymentRelease} (h : Marks r r') (h' : Marks r' r'') :
    Marks r r'' :=
  ⟨fun hs => h'.started (h.started hs), fun he => h'.ended (h.ended he)⟩

theorem marks_recordRelease (now : Time) (result : ReconcileResult) (r row : DeploymentRelease) :
    Marks row (recordRelease now result r row) := by
  refine ⟨id, fun he => ?_⟩
  show flush r.endedAt _ row.endedAt ≠ none
  unfold flush
  split
  · exact he
  · exact Option.some_ne_none _

/-- no step takes a mark off a release -/
theorem marks_of_step {k : ReleaseId} {r : DeploymentRelease} (h : step cfg s a = some t)
    (hr : s.releases.get? k = some r) : ∃ r', t.releases.get? k = some r' ∧ Marks r r' := by
  -- where a row is written over one it has the marks of
  have hput : ∀ old new : DeploymentRelease, s.releases.get? old.id = some old →
      new.id = old.id → Marks old new → s.releases.put? new = some t.releases →
      ∃ r', t.releases.get? k = some r' ∧ Marks r r' := by
    intro old new hold hid hmarks hput
    have hget := get?_put?_cases hput hr
    split at hget
    · rename_i hkey
      have hkey : k = old.id := hkey.trans hid
      rw [hkey, hold] at hr
      cases hr
      exact ⟨new, hget, hmarks⟩
    · exact ⟨r, hget, .refl r⟩
  cases ha : a.worker with
  | none =>
    have hw := written_of_step h ha
    cases hw with
    | create x ns values hostname isPaid deployments releases =>
      exact ⟨r, Table.get?_insert?_of_get? releases hr, .refl r⟩
    | update u d values hostname buildId row settled deployments releases =>
      exact ⟨r, Table.get?_insert?_of_get? releases hr, .refl r⟩
    | aside deployments releases => exact ⟨r, by rw [releases]; exact hr, .refl r⟩
    | delete d row leaving deployments releases => exact ⟨r, by rw [releases]; exact hr, .refl r⟩
    | power x d row ready changes powers deployments releases =>
      exact ⟨r, by rw [releases]; exact hr, .refl r⟩
    | paid n info p sub action fetched status payment named first subscription deployments
        releases => exact ⟨r, by rw [releases]; exact hr, .refl r⟩
  | some w =>
    cases a with
    | claimJob w skipped =>
      obtain ⟨-, j, jobs, -, rfl⟩ := claimJob_ok h
      exact ⟨r, hr, .refl r⟩
    | claimRelease w =>
      obtain ⟨job, id, d, stage, releases, -, -, hclaim, rfl⟩ := claimRelease_ok h
      cases hclaim with
      | first x live row differs queued releases put =>
        have hid : x.id = d.desiredReleaseId := Table.key_of_get? row
        exact hput x { x with startedAt := some s.now } (hid ▸ row) rfl
          ⟨fun _ => Option.some_ne_none s.now, fun he => he⟩ put
      | _ => exact ⟨r, hr, .refl r⟩
    | claimPower w x =>
      obtain ⟨job, id, session, values, release, d, stage, powers, -, -, -, rfl⟩ := claimPower_ok h
      exact ⟨r, hr, .refl r⟩
    | applyRelease w x =>
      obtain ⟨job, id, session, values, release, power, d, text, -, -, rfl⟩ := applyRelease_ok h
      exact ⟨r, hr, .refl r⟩
    | recordOutcome w =>
      obtain ⟨job, id, d, release, power, result, drow, releases, powers, deployments, -, -, hrec, -,
        -, rfl⟩ := recordOutcome_ok h
      rcases recordRow_ok hrec with ⟨-, rfl⟩ | ⟨x, row, -, hrow, put⟩
      · exact ⟨r, hr, .refl r⟩
      · have hid : row.id = x.id := Table.key_of_get? hrow
        exact hput row (recordRelease s.now result x row) (hid ▸ hrow) rfl
          (marks_recordRelease _ _ _ _) put
    | markJob w =>
      obtain ⟨job, id, result, status, error, jobs, -, -, -, -, rfl⟩ := markJob_ok h
      exact ⟨r, hr, .refl r⟩
    | crash w =>
      rw [crash_ok h]
      exact ⟨r, hr, .refl r⟩
    | _ => cases ha

/-- the release is in the table, and marked as started -/
def Started (s : State) (k : ReleaseId) : Prop :=
  ∃ r, s.releases.get? k = some r ∧ r.startedAt ≠ none

/-- a row that was read as started, and what is marked on it is marked on the table's -/
def Seen (s : State) (r : DeploymentRelease) : Prop :=
  r.startedAt ≠ none ∧ ∃ row, s.releases.get? r.id = some row ∧ Marks r row

theorem Started.kept {k : ReleaseId} (h : step cfg s a = some t) (hk : Started s k) :
    Started t k := by
  obtain ⟨r, hr, hs⟩ := hk
  obtain ⟨r', hr', hm⟩ := marks_of_step h hr
  exact ⟨r', hr', hm.started hs⟩

theorem Seen.kept {r : DeploymentRelease} (h : step cfg s a = some t) (hr : Seen s r) :
    Seen t r := by
  obtain ⟨hs, row, hrow, hm⟩ := hr
  obtain ⟨row', hrow', hm'⟩ := marks_of_step h hrow
  exact ⟨hs, row', hrow', hm.trans hm'⟩

/-- what a session read of a release it claimed -/
structure SessionStarted (s : State) (session : Session) (values release : Option ReleaseId) :
    Prop where
  values : ∀ k, release = some k → values = some k
  started : ∀ k, release = some k → Started s k
  seen : ∀ k r, release = some k → session.release = some r → r.id = k ∧ Seen s r

/-- what a turn read of a release it claimed is marked as started -/
def StageStarted (s : State) : Stage → Prop
  | .claimed => True
  | .releaseClaimed session values release => SessionStarted s session values release
  | .powerClaimed session values release _ => SessionStarted s session values release
  | .applied _ release _ _ => ∀ r, release = some r → Seen s r
  | .recorded _ => True

theorem sessionStarted_none (s : State) (session : Session) (values : Option ReleaseId) :
    SessionStarted s session values none where
  values := fun _ hk => nomatch hk
  started := fun _ hk => nomatch hk
  seen := fun _ _ hk => nomatch hk

theorem SessionStarted.kept {session : Session} {values release : Option ReleaseId}
    (h : step cfg s a = some t) (hs : SessionStarted s session values release) :
    SessionStarted t session values release :=
  ⟨hs.values, fun k hk => (hs.started k hk).kept h,
    fun k r hk hr => ⟨(hs.seen k r hk hr).1, (hs.seen k r hk hr).2.kept h⟩⟩

theorem StageStarted.kept {stage : Stage} (h : step cfg s a = some t) (hs : StageStarted s stage) :
    StageStarted t stage := by
  cases stage with
  | claimed => trivial
  | releaseClaimed session values release => exact SessionStarted.kept h hs
  | powerClaimed session values release power => exact SessionStarted.kept h hs
  | applied d release power result => exact fun r hr => (hs r hr).kept h
  | recorded result => trivial

/-- a release a session claimed, as the session reads it -/
theorem SessionStarted.read {session : Session} {values release : Option ReleaseId} {k : ReleaseId}
    {r : DeploymentRelease} (hs : SessionStarted s session values release) (hk : release = some k)
    (h : readRow session.release s.releases k = some r) : Seen s r := by
  unfold readRow at h
  split at h
  · rename_i x hx
    cases h
    exact (hs.seen k r hk hx).2
  · obtain ⟨x, hx, hstarted⟩ := hs.started k hk
    rw [hx] at h
    cases h
    have hid : r.id = k := Table.key_of_get? hx
    exact ⟨hstarted, r, hid ▸ hx, .refl r⟩

/-- the releases the turns have claimed are started -/
def Marked (s : State) : Prop :=
  ∀ w turn, s.workers w = some turn → StageStarted s turn.stage

theorem marked_init : Marked .init := fun _ _ h => nomatch h

theorem setStage_self (s : State) (w : WorkerId) (turn : Turn) (stage : Stage) :
    (s.setStage w turn stage).workers w = some { turn with stage := stage } :=
  Function.update_self ..

/-- the row and the text of a turn whose power row is missing -/
theorem applied_of_claimPower {x : Effects} {job : JobId} {id : DeploymentId} {d : Deployment}
    {release : Option DeploymentRelease} {power : Option DeploymentPower} {result : ReconcileResult}
    (h : claimPower s w x = some t)
    (ht : t.workers w = some ⟨job, id, .applied d release power result⟩) :
    ∃ session values claimed,
      s.workers w = some ⟨job, id, .releaseClaimed session values claimed⟩ ∧
      release = claimed.bind (fun k => readRow session.release s.releases k) ∧
      result = failure s.now d (failureText x "Deployment's desired power is missing"
        (values.bind fun k => readRow session.release s.releases k) release none) := by
  unfold claimPower at h
  split at h
  · rename_i job' id' session values claimed hw
    obtain ⟨d', hd, h⟩ := Option.bind_eq_some_iff.mp h
    split at h
    · cases h
      rw [setStage_self] at ht
      cases ht
    · split at h
      · cases h
        rw [setStage_self] at ht
        cases ht
        exact ⟨session, values, claimed, hw, rfl, rfl⟩
      · split at h
        · obtain ⟨powers, -, h⟩ := Option.bind_eq_some_iff.mp h
          cases h
          rw [setStage_self] at ht
          cases ht
        · cases h
          rw [setStage_self] at ht
          cases ht
  · cases h

theorem turn_of_update {workers : WorkerId → Option Turn} {new : Option Turn} {turn : Turn}
    (h : Function.update workers w new w = some turn) : new = some turn :=
  (Function.update_self w new workers).symm.trans h

/-- the stage a worker's own step leaves it in -/
theorem stageStarted_of_worker (hm : Marked s) (h : step cfg s a = some t) (ha : a.worker = some w)
    {turn : Turn} (hw : t.workers w = some turn) : StageStarted t turn.stage := by
  cases a with
  | claimJob w skipped =>
    cases ha
    obtain ⟨-, j, jobs, -, rfl⟩ := claimJob_ok h
    cases turn_of_update hw
    trivial
  | claimRelease w =>
    cases ha
    obtain ⟨job, id, d, stage, releases, -, -, hclaim, rfl⟩ := claimRelease_ok h
    cases turn_of_update hw
    cases hclaim with
    | deleted => exact sessionStarted_none _ _ _
    | missing => exact fun r hr => nomatch hr
    | current r => exact sessionStarted_none _ _ _
    | again r live row differs started =>
      have hid : r.id = d.desiredReleaseId := Table.key_of_get? row
      have hrow : s.releases.get? r.id = some r := hid ▸ row
      refine ⟨fun k hk => hk, ?_, ?_⟩
      · intro k hk
        cases hk
        exact ⟨r, hrow, started⟩
      · intro k x hk hx
        cases hk
        cases hx
        exact ⟨rfl, started, r, hrow, .refl r⟩
    | first r live row differs queued releases put =>
      have hid : r.id = d.desiredReleaseId := Table.key_of_get? row
      have hget := Table.get?_put?_self put (by rw [key_release, hid]; exact row)
      refine ⟨fun k hk => hk, ?_, fun k x hk hx => nomatch hx⟩
      intro k hk
      cases hk
      exact ⟨_, hget, Option.some_ne_none s.now⟩
  | claimPower w x =>
    cases ha
    obtain ⟨job, id, session, values, release, d, stage, powers, hturn, -, hclaim, ht⟩ :=
      claimPower_ok h
    have hold : SessionStarted s session values release := hm w _ hturn
    have hnew := hold.kept h
    have hstage := hw
    rw [ht] at hw
    cases turn_of_update hw
    cases hclaim with
    | none | again => exact ⟨hnew.values, hnew.started, hnew.seen⟩
    | first => exact ⟨hnew.values, hnew.started, fun k r hk hr => nomatch hr⟩
    | missing =>
      obtain ⟨session', values', claimed, hturn', hrow, -⟩ := applied_of_claimPower h hstage
      rw [hturn] at hturn'
      cases hturn'
      intro r hr
      rw [hr] at hrow
      obtain ⟨k, hk, hread⟩ := Option.bind_eq_some_iff.mp hrow.symm
      exact (hold.read hk hread).kept h
  | applyRelease w x =>
    cases ha
    obtain ⟨job, id, session, values, release, power, d, text, hturn, -, ht⟩ := applyRelease_ok h
    have hold : SessionStarted s session values release := hm w _ hturn
    rw [ht] at hw
    cases turn_of_update hw
    intro r hr
    obtain ⟨k, hk, hread⟩ := Option.bind_eq_some_iff.mp hr
    exact (hold.read hk hread).kept h
  | recordOutcome w =>
    cases ha
    obtain ⟨job, id, d, release, power, result, row, releases, powers, deployments, -, -, -, -, -,
      rfl⟩ := recordOutcome_ok h
    cases turn_of_update hw
    trivial
  | markJob w =>
    cases ha
    obtain ⟨job, id, result, status, error, jobs, -, -, -, -, rfl⟩ := markJob_ok h
    cases turn_of_update hw
  | crash w =>
    cases ha
    rw [crash_ok h] at hw
    cases turn_of_update hw
  | _ => cases ha

theorem marked_step (hm : Marked s) (h : step cfg s a = some t) : Marked t := by
  intro w turn hw
  by_cases ha : a.worker = some w
  · exact stageStarted_of_worker hm h ha hw
  · rw [workers_of_step h ha] at hw
    exact (hm w turn hw).kept h

theorem marked_of_reach {ok : State → Action → Prop} (hm : Marked s)
    (h : (platform cfg).Reach ok s t) : Marked t :=
  h.invariant hm fun _ _ _ hm _ h => marked_step hm h

/-! ## The result of the work -/

/-- the text of the exception that ends the work of a worker's turn, when one does -/
def thrown (s : State) (w : WorkerId) (x : Effects) : Option String :=
  match s.workers w with
  | some ⟨_, _, .releaseClaimed _ _ _⟩ => some "Deployment's desired power is missing"
  | some ⟨_, id, .powerClaimed session values _ _⟩ =>
    match readRow session.deployment s.deployments id with
    | none => none
    | some d =>
      match (provision s.now x s.powers (s.cluster id) d values).2 with
      | .ok _ => none
      | .error e => some e
  | _ => none

/-- the log store has lines of the failed release to append -/
def Effects.prints (x : Effects) : Bool :=
  match x.entries with
  | none => false
  | some lines => !lines.isEmpty

/-- what is appended leaves no text empty -/
theorem withReleaseOutput_empty (e : String) (number : Nat) (x : Effects) :
    withReleaseOutput e number x.entries = "" ↔ e = "" ∧ x.prints = false := by
  unfold withReleaseOutput Effects.prints
  split
  · rename_i h
    rw [h]
    simp
  · rename_i h
    rw [h]
    simp
  · rename_i lines hne h
    rw [h]
    cases lines with
    | nil => exact absurd rfl hne
    | cons line lines => simp

/-- the text of a failure of a release that has started -/
theorem failureText_started {x : Effects} {e : String} {r : DeploymentRelease}
    {power : Option DeploymentPower} (hs : r.startedAt ≠ none) :
    failureText x e (some r) (some r) power = withReleaseOutput e r.number x.entries := by
  obtain ⟨started, hs⟩ := Option.ne_none_iff_exists'.mp hs
  simp only [failureText, hs]

/-- how the work of a turn ends, by the exception that ends it and the rows it read -/
inductive Worked (x : Effects) (d : Deployment) (r : DeploymentRelease) (result : ReconcileResult) :
    Option String → Prop
  | ready (status : result.status = .ready) (live : d.deletedAt = none)
      (error : result.lastError = none) : Worked x d r result none
  | deleted (status : result.status = .deleted) (gone : d.deletedAt ≠ none)
      (error : result.lastError = none) : Worked x d r result none
  | raised (e : String) (status : result.status = .error)
      (error : result.lastError = some (withReleaseOutput e r.number x.entries)) :
      Worked x d r result (some e)

theorem applied_of_applyRelease {x : Effects} {job : JobId} {id : DeploymentId} {d : Deployment}
    {release : Option DeploymentRelease} {power : Option DeploymentPower} {result : ReconcileResult}
    (h : applyRelease s w x = some t)
    (ht : t.workers w = some ⟨job, id, .applied d release power result⟩) :
    ∃ session values claimed claimedPower,
      s.workers w = some ⟨job, id, .powerClaimed session values claimed claimedPower⟩ ∧
      readRow session.deployment s.deployments id = some d ∧
      release = claimed.bind (fun k => readRow session.release s.releases k) ∧
      result = reconcileResult s.now d
        (fun e => failureText x e (values.bind fun k => readRow session.release s.releases k)
          release power)
        (provision s.now x s.powers (s.cluster id) d values).2 := by
  unfold applyRelease at h
  split at h
  · rename_i job' id' session values claimed claimedPower hw
    obtain ⟨d', hd, h⟩ := Option.bind_eq_some_iff.mp h
    cases h
    rw [setStage_self] at ht
    cases ht
    exact ⟨session, values, claimed, claimedPower, hw, hd, rfl, rfl⟩
  · cases h

/-- **the result of the work on a release** -/
theorem worked_of_step (hm : Marked s) {x : Effects} {job : JobId} {id : DeploymentId}
    {d : Deployment} {r : DeploymentRelease} {power : Option DeploymentPower}
    {result : ReconcileResult} (h : step cfg s a = some t)
    (ha : a = .claimPower w x ∨ a = .applyRelease w x)
    (ht : t.workers w = some ⟨job, id, .applied d (some r) power result⟩) :
    Worked x d r result (thrown s w x) := by
  rcases ha with rfl | rfl
  · obtain ⟨session, values, claimed, hw, hrow, rfl⟩ := applied_of_claimPower h ht
    obtain ⟨k, rfl, hread⟩ := Option.bind_eq_some_iff.mp hrow.symm
    have hs : SessionStarted s session values (some k) := hm w _ hw
    have hmark := (hs.read rfl hread).1
    obtain rfl := hs.values k rfl
    have hthrown : thrown s w x = some "Deployment's desired power is missing" := by
      simp only [thrown, hw]
    rw [hthrown]
    refine .raised _ rfl ?_
    show some (failureText x _ _ (some r) none) = _
    rw [Option.bind_some, hread, failureText_started hmark]
  · obtain ⟨session, values, claimed, claimedPower, hw, hd, hrow, rfl⟩ :=
      applied_of_applyRelease h ht
    obtain ⟨k, rfl, hread⟩ := Option.bind_eq_some_iff.mp hrow.symm
    have hs : SessionStarted s session values (some k) := hm w _ hw
    have hmark := (hs.read rfl hread).1
    obtain rfl := hs.values k rfl
    cases hp : (provision s.now x s.powers (s.cluster id) d (some k)).2 with
    | ok answer =>
      have hthrown : thrown s w x = none := by
        simp only [thrown, hw, hd, hp]
      rw [hthrown]
      cases resultOf_provision hp with
      | ready status live error => exact .ready status live error
      | deleted status gone error => exact .deleted status gone error
      | failed status => rcases provision_ok hp with ⟨hs, -⟩ | ⟨hs, -⟩ <;> cases hs.symm.trans status
    | error e =>
      have hthrown : thrown s w x = some e := by
        simp only [thrown, hw, hd, hp]
      rw [hthrown]
      refine .raised e rfl ?_
      show some (failureText x e _ (some r) power) = _
      rw [Option.bind_some, hread, failureText_started hmark]

/-! ## The commit of the outcome -/

/-- after the commit the status of the release and the applied pointer say what the result says -/
def Agrees (cfg : Settings) (s : State) (id : DeploymentId) (k : ReleaseId)
    (result : ReconcileResult) : Prop :=
  ∃ d r, s.deployments.get? id = some d ∧ s.releases.get? k = some r ∧
    ∀ now, (r.status cfg now = .succeeded ↔
        result.status = .ready ∧ d.appliedReleaseId = some k) ∧
      (r.status cfg now = .failed ↔ result.status = .error)

/-- when they do, by the exception that ended the work, the rows `d` and `r` the work read, and
the rows `drow` and `row` the commit finds.  A column is written when its value is not the one that
was read, so that what another session left in one that is not written counts -/
def Tells (x : Effects) (d drow : Deployment) (r row : DeploymentRelease) : Option String → Prop
  | none => d.deletedAt = none ∧ (r.error = none → truthy row.error = false) ∧
      (d.appliedReleaseId = some r.id → drow.appliedReleaseId = some r.id)
  | some e =>
    if r.error = some (withReleaseOutput e r.number x.entries) then truthy row.error = true
    else e ≠ "" ∨ x.prints = true

/-- the same of the rows of the state before the commit -/
def Shows (x : Effects) (s : State) (id : DeploymentId) (d : Deployment) (r : DeploymentRelease)
    (e : Option String) : Prop :=
  ∃ drow row, s.deployments.get? id = some drow ∧ s.releases.get? r.id = some row ∧
    Tells x d drow r row e

theorem shows_iff {x : Effects} {id : DeploymentId} {d drow : Deployment}
    {r row : DeploymentRelease} {e : Option String} (hd : s.deployments.get? id = some drow)
    (hr : s.releases.get? r.id = some row) : Shows x s id d r e ↔ Tells x d drow r row e := by
  constructor
  · rintro ⟨drow', row', hd', hr', htells⟩
    rw [hd] at hd'
    cases hd'
    rw [hr] at hr'
    cases hr'
    exact htells
  · exact fun htells => ⟨drow, row, hd, hr, htells⟩

/-- the two rows before and after the commit -/
theorem rows_of_recordOutcome {job : JobId} {id : DeploymentId} {d : Deployment}
    {r : DeploymentRelease} {power : Option DeploymentPower} {result : ReconcileResult}
    (h : recordOutcome s w = some t)
    (hw : s.workers w = some ⟨job, id, .applied d (some r) power result⟩) :
    ∃ drow row, s.deployments.get? id = some drow ∧ s.releases.get? r.id = some row ∧
      t.releases.get? r.id = some (recordRelease s.now result r row) ∧
      t.deployments.get? id = some (recordDeployment result (some r.id)
        (power.map DeploymentPower.id) d drow) := by
  obtain ⟨job', id', d', release, power', result', drow, releases, powers, deployments, hw', hdrow,
    hrec, -, hput, rfl⟩ := recordOutcome_ok h
  rw [hw] at hw'
  cases hw'
  rcases recordRow_ok hrec with ⟨hnone, -⟩ | ⟨x, row, hx, hrow, hreleases⟩
  · cases hnone
  cases hx
  have hid : row.id = r.id := Table.key_of_get? hrow
  have hdid : drow.id = id := Table.key_of_get? hdrow
  refine ⟨drow, row, hdrow, hrow, ?_, ?_⟩
  · have hself := Table.get?_put?_self hreleases (by
      show s.releases.get? row.id = _
      rw [hid]
      exact hrow)
    have hself : releases.get? row.id = some (recordRelease s.now result r row) := hself
    rwa [hid] at hself
  · have hself := Table.get?_put?_self hput (by
      show s.deployments.get? drow.id = _
      rw [hdid]
      exact hdrow)
    have hself : deployments.get? drow.id = some (recordDeployment result (some r.id)
      (power.map DeploymentPower.id) d drow) := hself
    rwa [hdid] at hself

/-- the status of a release after its commit, by the text that is then in its column -/
theorem status_recordRelease {now now' : Time} {result : ReconcileResult}
    {r row : DeploymentRelease} (hs : row.startedAt ≠ none) (hm : Marks r row) :
    (recordRelease now result r row).status cfg now' =
      if truthy (flush r.error result.lastError row.error) then .failed else .succeeded := by
  have he : (recordRelease now result r row).endedAt ≠ none := by
    show flush r.endedAt _ row.endedAt ≠ none
    unfold flush
    split
    · rename_i hsame
      exact hm.ended (by rw [← hsame]; exact Option.some_ne_none _)
    · exact Option.some_ne_none _
  exact DeploymentRelease.status_ended hs he

/-- the agreement at the commit, by the text that is then in the release's column -/
theorem agrees_iff {job : JobId} {id : DeploymentId} {d drow : Deployment}
    {r row : DeploymentRelease} {power : Option DeploymentPower} {result : ReconcileResult}
    (hs : row.startedAt ≠ none) (hm : Marks r row)
    (hw : s.workers w = some ⟨job, id, .applied d (some r) power result⟩)
    (hdrow : s.deployments.get? id = some drow) (hrow : s.releases.get? r.id = some row)
    (h : recordOutcome s w = some t) :
    Agrees cfg t id r.id result ↔
      (truthy (flush r.error result.lastError row.error) = false ↔ result.status = .ready ∧
        (recordDeployment result (some r.id) (power.map DeploymentPower.id) d drow).appliedReleaseId
          = some r.id) ∧
      (truthy (flush r.error result.lastError row.error) = true ↔ result.status = .error) := by
  obtain ⟨drow', row', hdrow', hrow', hr, hd⟩ := rows_of_recordOutcome h hw
  rw [hdrow] at hdrow'
  cases hdrow'
  rw [hrow] at hrow'
  cases hrow'
  have hstatus : ∀ now, (recordRelease s.now result r row).status cfg now =
      if truthy (flush r.error result.lastError row.error) then .failed else .succeeded :=
    fun now => status_recordRelease hs hm
  constructor
  · rintro ⟨d', r', hd', hr', hall⟩
    rw [hd] at hd'
    cases hd'
    rw [hr] at hr'
    cases hr'
    have hall := hall s.now
    rw [hstatus] at hall
    cases ht : truthy (flush r.error result.lastError row.error) with
    | false => simpa [ht] using hall
    | true => simpa [ht] using hall
  · intro hall
    refine ⟨_, _, hd, hr, fun now => ?_⟩
    rw [hstatus]
    cases ht : truthy (flush r.error result.lastError row.error) with
    | false => simpa [ht] using hall
    | true => simpa [ht] using hall

/-- **the agreement after the commit of one reconcile** -/
theorem agrees_of_commit {x : Effects} {job : JobId} {id : DeploymentId} {d : Deployment}
    {r : DeploymentRelease} {power : Option DeploymentPower} {result : ReconcileResult}
    {e : Option String} (hseen : Seen s r) (hworked : Worked x d r result e)
    (hw : s.workers w = some ⟨job, id, .applied d (some r) power result⟩)
    (h : recordOutcome s w = some t) : Agrees cfg t id r.id result ↔ Shows x s id d r e := by
  obtain ⟨drow, row, hdrow, hrow, -, -⟩ := rows_of_recordOutcome h hw
  obtain ⟨hstarted, row₀, hrow₀, hmarks⟩ := hseen
  rw [hrow] at hrow₀
  cases hrow₀
  rw [agrees_iff (hmarks.started hstarted) hmarks hw hdrow hrow h, shows_iff hdrow hrow]
  cases hworked with
  | ready status live error =>
    have happlied : (recordDeployment result (some r.id) (power.map DeploymentPower.id) d
        drow).appliedReleaseId = flush d.appliedReleaseId (some r.id) drow.appliedReleaseId :=
      if_pos ⟨rfl, status⟩
    rw [status, error, happlied]
    show _ ↔ d.deletedAt = none ∧ _
    have hflush : truthy (flush r.error none row.error) = false ↔
        (r.error = none → truthy row.error = false) := by
      unfold flush
      split
      · rename_i hsame
        simp [← hsame]
      · rename_i hdiff
        simp [truthy, Ne.symm hdiff]
    have hpointer : flush d.appliedReleaseId (some r.id) drow.appliedReleaseId = some r.id ↔
        (d.appliedReleaseId = some r.id → drow.appliedReleaseId = some r.id) := by
      unfold flush
      split
      · rename_i hsame
        simp [← hsame]
      · rename_i hdiff
        simp [Ne.symm hdiff]
    rw [← hflush, ← hpointer]
    cases truthy (flush r.error none row.error) <;> simp [live]
  | deleted status gone error =>
    rw [status, error]
    show _ ↔ d.deletedAt = none ∧ _
    cases truthy (flush r.error none row.error) <;> simp [gone]
  | raised e status error =>
    rw [status, error]
    show _ ↔ if _ then _ else _
    have hflush : truthy (flush r.error (some (withReleaseOutput e r.number x.entries)) row.error)
        = true ↔ if r.error = some (withReleaseOutput e r.number x.entries) then
          truthy row.error = true else e ≠ "" ∨ x.prints = true := by
      unfold flush
      split
      · rename_i hsame
        rw [if_pos hsame.symm]
      · rename_i hdiff
        rw [if_neg (Ne.symm hdiff)]
        simp only [truthy, decide_eq_true_eq]
        rw [Ne, withReleaseOutput_empty, not_and_or, Bool.not_eq_false]
    rw [← hflush]
    cases truthy (flush r.error (some (withReleaseOutput e r.number x.entries)) row.error) <;> simp

/-! ## Reconciles -/

/-- the steps that are not the worker's leave its turn alone -/
theorem turn_of_reach {turn : Option Turn}
    (h : (platform cfg).Reach (fun _ a => a.worker ≠ some w) s t) (hw : s.workers w = turn) :
    t.workers w = turn :=
  h.invariant (P := fun s => s.workers w = turn) hw fun _ _ _ hw hok h =>
    (workers_of_step h hok).trans hw

/-- **a release's status agrees with its reconcile** exactly where `Shows` holds: for every
reconcile of a release, whatever its steps raise and whatever happens between its work and the
commit of its outcome -/
theorem release_status_agrees {s₁ s₂ s₃ s₄ : State} {x : Effects} {job : JobId} {id : DeploymentId}
    {d : Deployment} {r : DeploymentRelease} {power : Option DeploymentPower}
    {result : ReconcileResult} (h₀ : (platform cfg).Reach (fun _ _ => True) .init s₁)
    (ha : a = .claimPower w x ∨ a = .applyRelease w x) (hwork : step cfg s₁ a = some s₂)
    (hturn : s₂.workers w = some ⟨job, id, .applied d (some r) power result⟩)
    (hrest : (platform cfg).Reach (fun _ a => a.worker ≠ some w) s₂ s₃)
    (hrec : step cfg s₃ (.recordOutcome w) = some s₄) :
    Agrees cfg s₄ id r.id result ↔ Shows x s₃ id d r (thrown s₁ w x) := by
  have hm₁ : Marked s₁ := marked_of_reach marked_init h₀
  have hm₃ : Marked s₃ := marked_of_reach (marked_step hm₁ hwork) hrest
  have hturn₃ := turn_of_reach hrest hturn
  have hseen : Seen s₃ r := hm₃ w _ hturn₃ r rfl
  exact agrees_of_commit hseen (worked_of_step hm₁ hwork ha hturn) hturn₃ hrec

/-- the release whose outcome a turn is about to commit -/
def Turn.release (turn : Turn) : Option DeploymentRelease :=
  match turn.stage with
  | .applied _ r _ _ => r
  | _ => none

theorem Turn.release_eq {turn : Turn} {r : DeploymentRelease} (h : turn.release = some r) :
    ∃ d power result, turn = ⟨turn.job, turn.deployment, .applied d (some r) power result⟩ := by
  obtain ⟨job, id, stage⟩ := turn
  unfold Turn.release at h
  split at h
  · rename_i d release power result hstage
    have hstage : stage = .applied d release power result := hstage
    subst hstage h
    exact ⟨d, power, result, rfl⟩
  · cases h

/-- a first release that Helm times out on -/
theorem release_status_agrees_failed :
    ∃ s id k result, result.status = .error ∧ Agrees .sample s id k result := by
  obtain ⟨s₁, h₀, hp⟩ := Machine.exists_reach_of_run (M := platform .sample) (s := .init)
    (l := [.create .sample (.sample .null none), .claimJob "w1" [], .claimRelease "w1",
      .claimPower "w1" .clean])
    (p := fun s₁ => decide (thrown s₁ "w1" (.raising .helmUpgradeInstall) = some "timed out") &&
      (step .sample s₁ (.applyRelease "w1" (.raising .helmUpgradeInstall))).any fun s₂ =>
        ((s₂.workers "w1").any fun turn => turn.release.any fun r => decide (r.error = none)) &&
          (step .sample s₂ (.recordOutcome "w1")).isSome)
    (by decide +kernel)
  rw [Bool.and_eq_true, decide_eq_true_eq] at hp
  obtain ⟨s₂, hwork, hp₂⟩ := (Option.any_eq_true _ _).mp hp.2
  rw [Bool.and_eq_true] at hp₂
  obtain ⟨turn, hturn, hrelease⟩ := (Option.any_eq_true _ _).mp hp₂.1
  obtain ⟨r, hr, herror⟩ := (Option.any_eq_true _ _).mp hrelease
  have herror : r.error = none := of_decide_eq_true herror
  obtain ⟨d, power, result, hstage⟩ := Turn.release_eq hr
  rw [hstage] at hturn
  obtain ⟨s₄, hrec⟩ := Option.isSome_iff_exists.mp hp₂.2
  have hm : Marked s₁ := marked_of_reach marked_init h₀
  have hstatus : result.status = .error := by
    have hworked := worked_of_step hm hwork (.inr rfl) hturn
    rw [hp.1] at hworked
    cases hworked with
    | raised e status => exact status
  refine ⟨s₄, turn.deployment, r.id, result, hstatus, ?_⟩
  refine (release_status_agrees h₀ (.inr rfl) hwork hturn .refl hrec).mpr ?_
  obtain ⟨drow, row, hdrow, hrow, -, -⟩ := rows_of_recordOutcome hrec hturn
  rw [hp.1, shows_iff hdrow hrow]
  show if _ then _ else _
  rw [if_neg (by rw [herror]; exact fun h => nomatch h)]
  exact .inl (by decide)

/-- one call of the reconcile raises an exception without a text -/
def Effects.silent (call : Call) : Effects :=
  ⟨fun c => if c = call then some "" else none, none, none⟩

/-- the status of a release, a second after the clock started -/
def State.releaseStatus (cfg : Settings) (s : State) (k : ReleaseId) : Option ReleaseStatus :=
  (s.releases.get? k).map fun r => r.status cfg 1

/-- **a rollout that failed without a text shows success** -/
theorem release_status_masked :
    ∃ s₁ s₂ s₄ job d r power result, (platform .sample).Reach (fun _ _ => True) .init s₁ ∧
      step .sample s₁ (.applyRelease "w1" (.silent .helmUpgradeInstall)) = some s₂ ∧
      s₂.workers "w1" = some ⟨job, 1, .applied d (some r) power result⟩ ∧
      step .sample s₂ (.recordOutcome "w1") = some s₄ ∧ result.status = .error ∧
      s₄.releaseStatus .sample r.id = some .succeeded ∧ ¬ Agrees .sample s₄ 1 r.id result := by
  obtain ⟨s₁, h₀, hp⟩ := Machine.exists_reach_of_run (M := platform .sample) (s := .init)
    (l := [.create .sample (.sample .null none), .claimJob "w1" [], .claimRelease "w1",
      .claimPower "w1" .clean])
    (p := fun s₁ => decide (thrown s₁ "w1" (.silent .helmUpgradeInstall) = some "") &&
      (step .sample s₁ (.applyRelease "w1" (.silent .helmUpgradeInstall))).any fun s₂ =>
        (s₂.workers "w1").any fun turn => decide (turn.deployment = 1) &&
          turn.release.any fun r => (step .sample s₂ (.recordOutcome "w1")).any fun s₄ =>
            decide (s₄.releaseStatus .sample r.id = some .succeeded))
    (by decide +kernel)
  rw [Bool.and_eq_true, decide_eq_true_eq] at hp
  obtain ⟨s₂, hwork, hp₂⟩ := (Option.any_eq_true _ _).mp hp.2
  obtain ⟨turn, hturn, hp₂⟩ := (Option.any_eq_true _ _).mp hp₂
  rw [Bool.and_eq_true, decide_eq_true_eq] at hp₂
  obtain ⟨r, hr, hp₄⟩ := (Option.any_eq_true _ _).mp hp₂.2
  obtain ⟨s₄, hrec, hshown⟩ := (Option.any_eq_true _ _).mp hp₄
  have hshown : s₄.releaseStatus .sample r.id = some .succeeded := of_decide_eq_true hshown
  obtain ⟨d, power, result, hstage⟩ := Turn.release_eq hr
  rw [hstage, hp₂.1] at hturn
  have hstatus : result.status = .error := by
    have hworked := worked_of_step (marked_of_reach marked_init h₀) hwork (.inr rfl) hturn
    rw [hp.1] at hworked
    cases hworked with
    | raised e status => exact status
  refine ⟨s₁, s₂, s₄, turn.job, d, r, power, result, h₀, hwork, hturn, hrec, hstatus, hshown, ?_⟩
  rintro ⟨d', r', -, hr', hagrees⟩
  rw [State.releaseStatus, hr', Option.map_some, Option.some.injEq] at hshown
  have hready := ((hagrees 1).1.mp hshown).1
  rw [hstatus] at hready
  cases hready

/-! ## Orderly runs -/

/-- the checks of `_validate_input_state` all have a text to raise -/
theorem validateInputState_silent {x : Effects} {d : Deployment}
    (h : validateInputState x d = some "") : ∃ call, x.raises call = some "" := by
  unfold validateInputState at h
  split at h
  · exact absurd (Option.some.inj h) (by decide)
  split at h
  · exact absurd (Option.some.inj h) (by decide)
  split at h
  · exact absurd (Option.some.inj h) (by decide)
  · exact ⟨_, h⟩

theorem firstRaise_silent {x : Effects} {calls : List Call} (h : x.firstRaise calls = some "") :
    ∃ call, x.raises call = some "" := by
  obtain ⟨l₁, call, l₂, -, hraise, -⟩ := List.findSome?_eq_some_iff.mp h
  exact ⟨call, hraise⟩

/-- an exception without a text comes from one of the calls of the reconcile -/
theorem provision_silent {now : Time} {x : Effects} {powers : Table DeploymentPower}
    {cluster : Option Rendered} {d : Deployment}
    (h : (provision now x powers cluster d d.valuesRelease).2 = .error "") :
    ∃ call, x.raises call = some "" := by
  unfold provision at h
  split at h
  · rename_i e he
    cases h
    exact validateInputState_silent he
  split at h
  · unfold reconcileDelete at h
    split at h
    · rename_i e he
      cases h
      exact firstRaise_silent he
    split at h
    · rename_i e he
      cases h
      exact ⟨_, he⟩
    split at h
    · rename_i e he
      cases h
      exact ⟨_, he⟩
    · cases h
  · rename_i hlive hnone
    -- a live deployment has a release to take its values from
    rw [Deployment.valuesRelease, if_pos hlive] at hnone
    cases hnone
  · unfold reconcileApply at h
    split at h
    · rename_i e he
      cases h
      exact firstRaise_silent he
    split at h
    · rename_i e he
      cases h
      exact ⟨_, he⟩
    unfold finishApply at h
    split at h
    · rename_i e he
      cases h
      split at he
      · exact ⟨_, he⟩
      · cases he
    · cases h

theorem orderly_of_work {x : Effects} (ha : a = .claimPower w x ∨ a = .applyRelease w x) :
    orderly cfg s a := by
  intro w' skipped j jobs hclaim
  rcases ha with rfl | rfl
  · cases hclaim
  · cases hclaim

/-- **in an orderly run** all that counts is that the exception, when there is one, has a text, or
that there is output to append to it -/
theorem release_status_orderly {s₁ s₂ s₃ s₄ : State} {x : Effects} {job : JobId} {id : DeploymentId}
    {d : Deployment} {r : DeploymentRelease} {power : Option DeploymentPower}
    {result : ReconcileResult} (h₀ : (platform cfg).Reach (orderly cfg) .init s₁)
    (ha : a = .claimPower w x ∨ a = .applyRelease w x) (hwork : step cfg s₁ a = some s₂)
    (hturn : s₂.workers w = some ⟨job, id, .applied d (some r) power result⟩)
    (hrest : (platform cfg).Reach (fun s a => orderly cfg s a ∧ a.worker ≠ some w) s₂ s₃)
    (hrec : step cfg s₃ (.recordOutcome w) = some s₄) :
    Agrees cfg s₄ id r.id result ↔
      ∀ e, thrown s₁ w x = some e → e ≠ "" ∨ x.prints = true := by
  have hany : (platform cfg).Reach (fun _ _ => True) .init s₁ := h₀.mono fun _ _ _ => trivial
  have hothers : (platform cfg).Reach (fun _ a => a.worker ≠ some w) s₂ s₃ :=
    hrest.mono fun _ _ h => h.2
  have hm₁ : Marked s₁ := marked_of_reach marked_init hany
  have hm₃ : Marked s₃ := marked_of_reach (marked_step hm₁ hwork) hothers
  have hturn₃ := turn_of_reach hothers hturn
  have hseen : Seen s₃ r := hm₃ w _ hturn₃ r rfl
  rw [agrees_of_commit hseen (worked_of_step hm₁ hwork ha hturn) hturn₃ hrec]
  have ho₁ : Ordered s₁ := ordered_of_reach ordered_init (fun _ _ h => h) h₀
  have ho₂ : Ordered s₂ := ordered_step ho₁ (orderly_of_work ha) hwork
  have ho₃ : Ordered s₃ := ordered_of_reach ho₂ (fun _ _ h => h.1) hrest
  -- the rows the work read are the ones the commit finds
  obtain ⟨d', hd', rfl, hr, -⟩ := (ho₃.turns w _ hturn₃ rfl).row
  have hd' : s₃.deployments.get? id = some d := hd'
  obtain ⟨k, hclaim, hk⟩ := Option.bind_eq_some_iff.mp hr.symm
  have hid : r.id = k := Table.key_of_get? hk
  rw [shows_iff hd' (hid ▸ hk)]
  have hlive : d.deletedAt = none := by
    by_contra hdel
    rw [Deployment.releaseToClaim, if_neg (fun h => hdel h.1)] at hclaim
    cases hclaim
  cases thrown s₁ w x with
  | none =>
    constructor
    · intro _ e he
      cases he
    · intro _
      refine ⟨hlive, fun hnone => ?_, fun h => h⟩
      rw [hnone]
      rfl
  | some e =>
    have htext : (truthy (some (withReleaseOutput e r.number x.entries)) = true) ↔
        e ≠ "" ∨ x.prints = true := by
      simp only [truthy, decide_eq_true_eq]
      rw [Ne, withReleaseOutput_empty, not_and_or, Bool.not_eq_false]
    show (if _ then _ else _) ↔ _
    constructor
    · intro h e' he'
      cases he'
      split at h
      · rename_i hsame
        rw [hsame] at h
        exact htext.mp h
      · exact h
    · intro h
      split
      · rename_i hsame
        rw [hsame]
        exact htext.mpr (h e rfl)
      · exact h e rfl

/-- an exception without a text in an orderly run is raised by one of the calls -/
theorem thrown_silent {s₁ s₂ : State} {x : Effects} {job : JobId} {id : DeploymentId}
    {d : Deployment} {release : Option DeploymentRelease} {power : Option DeploymentPower}
    {result : ReconcileResult} (h₀ : (platform cfg).Reach (orderly cfg) .init s₁)
    (hwork : step cfg s₁ (.applyRelease w x) = some s₂)
    (hturn : s₂.workers w = some ⟨job, id, .applied d release power result⟩)
    (h : thrown s₁ w x = some "") : ∃ call, x.raises call = some "" := by
  have ho₁ : Ordered s₁ := ordered_of_reach ordered_init (fun _ _ h => h) h₀
  rcases applied_of_step ho₁ hwork hturn with ⟨hne, -⟩ | ⟨y, session, text, ha, hw, hd, -, -⟩
  · exact absurd rfl hne
  obtain ⟨session', values, claimed, claimedPower, hw', hread, -, -⟩ :=
    applied_of_applyRelease hwork hturn
  rw [hw] at hw'
  cases hw'
  simp only [thrown, hw, hread] at h
  split at h
  · cases h
  · rename_i e he
    cases h
    exact provision_silent he

end Freepod
