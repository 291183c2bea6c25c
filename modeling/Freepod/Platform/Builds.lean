import Mathlib.Data.List.Sort
import Freepod.Platform.State

/-!
# Builds

Creating a build (`services/builds.py`) and what the build worker writes of one
(`build_worker.py`): it claims the oldest queued build, records its Kubernetes Job, and moves it
to a terminal status once (`BuildORM.transition_to`).
-/

namespace Freepod
open Base

def BuildStatus.text : BuildStatus → String
  | queued => "queued"
  | running => "running"
  | succeeded => "succeeded"
  | failed => "failed"
  | canceled => "canceled"

def BuildStatus.isTerminal : BuildStatus → Bool
  | succeeded | failed | canceled => true
  | _ => false

/-- `BUILD_TRANSITIONS` -/
def canTransition : BuildStatus → BuildStatus → Bool
  | .queued, .running => true
  | .running, .succeeded => true
  | .running, .failed => true
  | _, _ => false

/-- `transition_to` -/
def Build.transitionTo (b : Build) (status : BuildStatus) (image : Option String) (now : Time) :
    Except Refusal Build := do
  require (canTransition b.status status = true)
    (.invalid ("illegal build transition: " ++ b.status.text ++ " -> " ++ status.text))
  if status = .succeeded then
    require (image ≠ none ∧ image ≠ some "")
      (.invalid "transition to succeeded requires an image reference")
  else
    require (image = none)
      (.invalid ("image may only be set when succeeding, not on " ++ status.text))
  pure { b with
    status := status
    startedAt := if status = .running then some now else b.startedAt
    finishedAt := if status.isTerminal then some now else b.finishedAt
    image := if image = none then b.image else image }

structure BuildRequest where
  userId : UserId
  deploymentId : DeploymentId
  artifactId : String
  buildId : BuildId

/-- `create_build`; a retry of an open build of the same artifact changes nothing -/
def createBuild (c : Context) (s : State) (r : BuildRequest) : Except Refusal State := do
  c.validateArtifactId r.artifactId
  let d ← s.owned r.userId r.deploymentId
  require (d.status ≠ .deleting ∧ d.status ≠ .deleted)
    (.validation ("Deployment " ++ toString r.deploymentId ++ " is " ++ d.status.text ++
      " and takes no builds"))
  let owner := fun b : Build => (s.deployments.get? b.deploymentId).map Deployment.userId
  let existing := (s.builds.rows.find? fun b =>
    decide (b.artifactId = r.artifactId) && b.status.isOpen).filter fun b =>
      decide (owner b = some d.userId)
  match existing with
  | some b =>
    require (b.deploymentId = d.id)
      (.integrity "This artifact is already being built for another deployment")
    pure s
  | none => do
    require (c.artifactExists d.userId r.artifactId = true)
      (.validation ("Artifact " ++ r.artifactId ++
        " was not found; upload it before creating a build"))
    let builds ← found (s.builds.insert?
      { id := r.buildId
        deploymentId := r.deploymentId
        artifactId := r.artifactId
        status := .queued
        createdAt := s.now
        startedAt := none
        finishedAt := none
        jobId := none
        image := none }) (.integrity "A build for this artifact is already in flight")
    pure { s with builds := builds }

/-- `order_by(created_at, id)` -/
def Build.before (a b : Build) : Prop :=
  a.createdAt < b.createdAt ∨ (a.createdAt = b.createdAt ∧ a.id ≤ b.id)

instance : DecidableRel Build.before := fun a b => by
  unfold Build.before
  infer_instance

/-- `_claim_next_build`; `skipped` are the rows other transactions have locked -/
def claimNextBuild (s : State) (skipped : List BuildId) : Option State := do
  let b ← ((s.builds.rows.filter fun b =>
      decide (b.status = .queued) && !skipped.contains b.id).insertionSort Build.before).head?
  let builds ← s.builds.put? { b with status := .running, startedAt := some s.now }
  pure { s with builds := builds }

/-- `_start_build` once the Job exists -/
def recordBuildJob (s : State) (id : BuildId) (jobId : String) : Option State := do
  let b ← s.builds.get? id
  let builds ← s.builds.put? { b with jobId := some jobId }
  pure { s with builds := builds }

/-- `_finish`: succeeded with the image the Job reported, failed without one -/
def finishBuild (s : State) (id : BuildId) (image : Option String) : Except Refusal State := do
  let b ← found (s.builds.get? id) (.notFound "Build not found")
  let b ← b.transitionTo (if image.isSome then .succeeded else .failed) image s.now
  let builds ← found (s.builds.put? b) constraintViolated
  pure { s with builds := builds }

/-! ## What an accepted step writes -/

theorem transitionTo_ok {b b' : Build} {status : BuildStatus} {image : Option String} {now : Time}
    (h : b.transitionTo status image now = .ok b') :
    b'.id = b.id ∧ b'.deploymentId = b.deploymentId ∧ b'.status = status ∧
      (status = .succeeded → b'.image = image) := by
  simp only [Build.transitionTo, bind_eq_ok] at h
  obtain ⟨-, -, h⟩ := h
  split at h
  · simp only [bind_eq_ok, require_eq_ok, pure_eq_ok] at h
    obtain ⟨-, ⟨himage, -⟩, rfl⟩ := h
    exact ⟨rfl, rfl, rfl, fun _ => if_neg himage⟩
  · rename_i hs
    simp only [bind_eq_ok, pure_eq_ok] at h
    obtain ⟨-, -, rfl⟩ := h
    exact ⟨rfl, rfl, rfl, fun h => absurd h hs⟩

/-- a new build is of a deployment of the caller and has no image -/
theorem createBuild_ok {c : Context} {s t : State} {r : BuildRequest}
    (h : createBuild c s r = .ok t) :
    t = s ∨ ∃ b builds, s.builds.insert? b = some builds ∧ b.image = none ∧
      (∃ d, s.deployments.get? b.deploymentId = some d) ∧ t = { s with builds := builds } := by
  simp only [createBuild, State.owned, bind_eq_ok, found_eq_ok, pure_eq_ok] at h
  obtain ⟨-, -, d, ⟨_, hd, -, -, -⟩, -, -, h⟩ := h
  split at h
  · simp only [bind_eq_ok, pure_eq_ok] at h
    obtain ⟨-, -, rfl⟩ := h
    exact .inl rfl
  · simp only [bind_eq_ok, found_eq_ok, pure_eq_ok] at h
    obtain ⟨-, -, builds, hb, rfl⟩ := h
    exact .inr ⟨_, builds, hb, rfl, ⟨_, hd⟩, rfl⟩

theorem claimNextBuild_ok {s t : State} {skipped : List BuildId}
    (h : claimNextBuild s skipped = some t) :
    ∃ b builds, b ∈ s.builds.rows ∧ b.status = .queued ∧
      s.builds.put? { b with status := .running, startedAt := some s.now } = some builds ∧
      t = { s with builds := builds } := by
  obtain ⟨b, hb, h⟩ := Option.bind_eq_some_iff.mp h
  obtain ⟨builds, hput, h⟩ := Option.bind_eq_some_iff.mp h
  cases h
  have hm := List.mem_of_mem_head? hb
  rw [List.mem_insertionSort, List.mem_filter, Bool.and_eq_true, decide_eq_true_eq] at hm
  exact ⟨b, builds, hm.1, hm.2.1, hput, rfl⟩

theorem recordBuildJob_ok {s t : State} {id : BuildId} {jobId : String}
    (h : recordBuildJob s id jobId = some t) :
    ∃ b builds, s.builds.get? id = some b ∧
      s.builds.put? { b with jobId := some jobId } = some builds ∧
      t = { s with builds := builds } := by
  obtain ⟨b, hb, h⟩ := Option.bind_eq_some_iff.mp h
  obtain ⟨builds, hput, h⟩ := Option.bind_eq_some_iff.mp h
  cases h
  exact ⟨b, builds, hb, hput, rfl⟩

theorem finishBuild_ok {s t : State} {id : BuildId} {image : Option String}
    (h : finishBuild s id image = .ok t) :
    ∃ b b' builds, s.builds.get? id = some b ∧
      b.transitionTo (if image.isSome then .succeeded else .failed) image s.now = .ok b' ∧
      s.builds.put? b' = some builds ∧ t = { s with builds := builds } := by
  simp only [finishBuild, bind_eq_ok, found_eq_ok, pure_eq_ok] at h
  obtain ⟨b, hb, b', hb', builds, hput, rfl⟩ := h
  exact ⟨b, b', builds, hb, hb', hput, rfl⟩

end Freepod
