import Mathlib.Data.List.Dedup
import Mathlib.Data.List.Sort
import Freepod.Base.Assoc
import Freepod.Base.Window
import Freepod.Platform.State

/-!
# Image retention

Which of an owner's registry images the platform keeps (`services/image_retention.py`), computed
from the release ledger and the builds.  For each live deployment the walk takes the applied and
the desired release first and then the others, newest first, and keeps the images of the first
`past` distinct ones that are not current.

* `walkRows_current` and `walkRows_earlier`: the walk's result is the set of the current images
  and the `window` of the others.
* `retains_iff`: an image is retained iff it is current or earlier in a live deployment of the
  owner, or the image of one of the owner's fresh builds.
-/

namespace Freepod
open Base

/-- why an image is retained -/
inductive RetentionReason
  | applied | desired | earlier | fresh
  deriving DecidableEq, Repr

/-- `_RANK` -/
def RetentionReason.rank : RetentionReason → Nat
  | applied => 3
  | desired => 2
  | earlier => 1
  | fresh => 0

/-- one owner's retained images with their reasons, the builds whose tags are kept, and the image
each build recorded -/
structure Retention where
  images : List (String × RetentionReason)
  freshBuilds : List BuildId
  buildImages : List (BuildId × String)

def Retention.empty : Retention := ⟨[], [], []⟩

def Retention.retains (r : Retention) (image : String) : Bool :=
  (r.images.lookup image).isSome

/-- `[a-f0-9]` -/
def isLowerHex (c : Char) : Bool :=
  (decide ('a' ≤ c) && decide (c ≤ 'f')) || (decide ('0' ≤ c) && decide (c ≤ '9'))

/-- a full match of `<owner>@sha256:[a-f0-9]{64}` -/
def isOwnerImage (owner : UserId) (s : String) : Bool :=
  let head := (toString owner).toList ++ "@sha256:".toList
  let digest := s.toList.drop head.length
  head.isPrefixOf s.toList && digest.length == 64 && digest.all isLowerHex

/-- `owner_images`, a set -/
def ownerImages (owner : UserId) (values : Json) : List String :=
  ((strings values).filter (isOwnerImage owner)).dedup

/-- `sorted(owner_images(..))` -/
def sortedImages (owner : UserId) (values : Json) : List String :=
  (ownerImages owner values).insertionSort (· ≤ ·)

/-- `_label`: the strongest reason is recorded -/
def label (images : List (String × RetentionReason)) (image : String)
    (reason : RetentionReason) : List (String × RetentionReason) :=
  match images.lookup image with
  | none => setKey image reason images
  | some r => if r.rank < reason.rank then setKey image reason images else images

/-- what the stream selects of a release -/
structure ReleaseRow where
  id : ReleaseId
  number : Nat
  values : Json

def DeploymentRelease.row (r : DeploymentRelease) : ReleaseRow := ⟨r.id, r.number, r.valuesJson⟩

/-- `case when r.id = d.applied_release_id then 2 when r.id = d.desired_release_id then 1 else 0` -/
def Deployment.current (d : Deployment) (id : ReleaseId) : Nat :=
  if d.appliedReleaseId = some id then 2 else if d.desiredReleaseId = id then 1 else 0

/-- a deployment's releases, `order by number desc` -/
def releasesByNumber (releases : Table DeploymentRelease) (id : DeploymentId) : List ReleaseRow :=
  ((releases.rows.filter fun r => r.deploymentId = id).map DeploymentRelease.row).insertionSort
    fun a b => b.number ≤ a.number

/-- a deployment's group of the stream, `order by current desc, number desc` -/
def releaseGroup (releases : Table DeploymentRelease) (d : Deployment) : List ReleaseRow :=
  let rows := releasesByNumber releases d.id
  (rows.filter fun r => d.current r.id = 2) ++ (rows.filter fun r => d.current r.id = 1) ++
    rows.filter fun r => d.current r.id = 0

/-- the walk over one deployment's group -/
structure Walk where
  images : List (String × RetentionReason)
  current : List String
  earlier : List String

/-- one image of a current release -/
def Walk.addCurrent (reason : RetentionReason) (w : Walk) (image : String) : Walk :=
  { w with current := image :: w.current, images := label w.images image reason }

/-- one image of an earlier release -/
def Walk.addEarlier (past : Nat) (w : Walk) (image : String) : Walk :=
  if image ∉ w.current ∧ image ∉ w.earlier ∧ w.earlier.length < past then
    { w with earlier := w.earlier ++ [image] }
  else w

/-- one row of the group -/
def Walk.row (owner : UserId) (past : Nat) (d : Deployment) (w : Walk) (r : ReleaseRow) : Walk :=
  let current := d.current r.id
  if current ≠ 0 then
    (ownerImages owner r.values).foldl
      (Walk.addCurrent (if current = 2 then .applied else .desired)) w
  else if past ≤ w.earlier.length then w
  else (sortedImages owner r.values).foldl (Walk.addEarlier past) w

/-- the walk over rows of a group -/
def walkRows (owner : UserId) (past : Nat) (d : Deployment) (w : Walk) (rows : List ReleaseRow) :
    Walk :=
  rows.foldl (Walk.row owner past d) w

/-- a group of releases: the walk, then its earlier images labelled -/
def retentionGroup (owner : UserId) (past : Nat) (releases : Table DeploymentRelease)
    (r : Retention) (d : Deployment) : Retention :=
  let w := walkRows owner past d ⟨r.images, [], []⟩ (releaseGroup releases d)
  { r with images := w.earlier.foldl (fun images i => label images i .earlier) w.images }

/-- `_is_fresh`, and `is_fresh` at `since = now - grace` -/
def Build.isFresh (since : Time) (b : Build) : Bool :=
  b.status.isOpen ||
    (decide (b.status = .succeeded) &&
      match b.finishedAt with
      | none => false
      | some finishedAt => decide (since ≤ finishedAt))

/-- the image of a build row, when it has one -/
def Build.imageText (b : Build) : Option String :=
  match b.image with
  | none => none
  | some image => if image = "" then none else some image

/-- one row of the group of builds -/
def retentionBuild (since : Time) (r : Retention) (b : Build) : Retention :=
  let buildImages := match b.imageText with
    | none => r.buildImages
    | some image => setKey b.id image r.buildImages
  if b.isFresh since then
    { images := match b.imageText with
        | none => r.images
        | some image => label r.images image .fresh
      freshBuilds := b.id :: r.freshBuilds
      buildImages := buildImages }
  else { r with buildImages := buildImages }

/-- `_grace_start` -/
def graceStart (cfg : Settings) (now : Time) : Time := now - cfg.registryPruneGrace

/-- the owner's live deployments, `order by deployment_id` -/
def liveDeployments (s : State) (owner : UserId) : List Deployment :=
  (s.deployments.rows.filter fun d => d.userId = owner ∧ d.deletedAt = none).insertionSort
    fun a b => a.id ≤ b.id

/-- the builds of the owner's deployments, deleted ones included -/
def ownerBuilds (s : State) (owner : UserId) : List Build :=
  s.builds.rows.filter fun b =>
    s.deployments.rows.any fun d => decide (d.id = b.deploymentId) && decide (d.userId = owner)

/-- `owner_retention`: the fresh builds only -/
def ownerRetention (cfg : Settings) (s : State) (owner : UserId) : Retention :=
  let since := graceStart cfg s.now
  ((ownerBuilds s owner).filter (Build.isFresh since)).foldl (retentionBuild since)
    ((liveDeployments s owner).foldl
      (retentionGroup owner cfg.registryRetainedPastImages s.releases) .empty)

/-- the image is among the owner's retained ones -/
def retained (cfg : Settings) (s : State) (owner : UserId) (image : String) : Prop :=
  (ownerRetention cfg s owner).retains image = true

/-! ## The images of one deployment -/

/-- the images of a deployment's applied and desired releases -/
def currentImages (owner : UserId) (releases : Table DeploymentRelease) (d : Deployment) :
    List String :=
  ((releasesByNumber releases d.id).filter fun r => d.current r.id ≠ 0).flatMap fun r =>
    ownerImages owner r.values

/-- the images the walk of a deployment's earlier releases passes that are not current -/
def walkedImages (owner : UserId) (releases : Table DeploymentRelease) (d : Deployment) :
    List String :=
  (((releasesByNumber releases d.id).filter fun r => d.current r.id = 0).flatMap fun r =>
    sortedImages owner r.values).filter fun i => i ∉ currentImages owner releases d

/-- the images kept for a deployment's earlier releases -/
def earlierImages (owner : UserId) (past : Nat) (releases : Table DeploymentRelease)
    (d : Deployment) : List String :=
  window past (walkedImages owner releases d)

/-! ## What the walk keeps -/

theorem mem_sortedImages {owner : UserId} {values : Json} {i : String} :
    i ∈ sortedImages owner values ↔ i ∈ ownerImages owner values := by
  rw [sortedImages, List.mem_insertionSort]

theorem lookup_label (images : List (String × RetentionReason)) (i j : String)
    (reason : RetentionReason) :
    ((label images i reason).lookup j).isSome ↔ j = i ∨ (images.lookup j).isSome := by
  unfold label
  cases h : images.lookup i with
  | none =>
    simp only [lookup_setKey]
    by_cases hj : j = i
    · simp [hj]
    · simp [hj]
  | some r =>
    by_cases hr : r.rank < reason.rank
    · simp only [hr, if_true, lookup_setKey]
      by_cases hj : j = i
      · simp [hj]
      · simp [hj]
    · simp only [hr, if_false]
      constructor
      · exact .inr
      · rintro (rfl | hj)
        · rw [h]
          rfl
        · exact hj

theorem lookup_foldl_label (reason : RetentionReason) (l : List String)
    (images : List (String × RetentionReason)) (j : String) :
    ((l.foldl (fun images i => label images i reason) images).lookup j).isSome ↔
      j ∈ l ∨ (images.lookup j).isSome := by
  induction l generalizing images with
  | nil => simp
  | cons i l ih =>
    rw [List.foldl_cons, ih, lookup_label, List.mem_cons]
    tauto

section
variable {owner : UserId} {past : Nat} {d : Deployment}

theorem foldl_addCurrent (reason : RetentionReason) (l : List String) (w : Walk) :
    let w' := l.foldl (Walk.addCurrent reason) w
    (∀ i, i ∈ w'.current ↔ i ∈ l ∨ i ∈ w.current) ∧ w'.earlier = w.earlier ∧
      (∀ i, (w'.images.lookup i).isSome ↔ i ∈ l ∨ (w.images.lookup i).isSome) := by
  induction l generalizing w with
  | nil => simp
  | cons x l ih =>
    obtain ⟨h1, h2, h3⟩ := ih (Walk.addCurrent reason w x)
    refine ⟨fun i => ?_, h2, fun i => ?_⟩
    · rw [List.foldl_cons, h1 i]
      simp only [Walk.addCurrent, List.mem_cons]
      tauto
    · rw [List.foldl_cons, h3 i]
      simp only [Walk.addCurrent, List.mem_cons, lookup_label]
      tauto

/-- the images of a release that is not current are pushed onto the window -/
theorem foldl_addEarlier (l : List String) (w : Walk) :
    l.foldl (Walk.addEarlier past) w =
      { w with
        earlier := (l.filter fun i => i ∉ w.current).foldl (pushWindow past) w.earlier } := by
  induction l generalizing w with
  | nil => rfl
  | cons x l ih =>
    rw [List.foldl_cons, ih]
    by_cases hx : x ∈ w.current
    · simp [Walk.addEarlier, hx]
    · by_cases hp : x ∉ w.earlier ∧ w.earlier.length < past
      · simp [Walk.addEarlier, hx, hp, pushWindow]
      · simp [Walk.addEarlier, hx, hp, pushWindow]

/-- a full window stays as it is -/
theorem foldl_pushWindow_full {kept : List String} (h : past ≤ kept.length) (l : List String) :
    l.foldl (pushWindow past) kept = kept := by
  induction l with
  | nil => rfl
  | cons x l ih =>
    have : pushWindow past kept x = kept := if_neg fun hx => by omega
    rw [List.foldl_cons, this, ih]

theorem walkRows_current (owner : UserId) (past : Nat) (rows : List ReleaseRow) (h : ∀ r ∈ rows, d.current r.id ≠ 0) (w : Walk) :
    let w' := walkRows owner past d w rows
    let images := rows.flatMap fun r => ownerImages owner r.values
    (∀ i, i ∈ w'.current ↔ i ∈ images ∨ i ∈ w.current) ∧ w'.earlier = w.earlier ∧
      (∀ i, (w'.images.lookup i).isSome ↔ i ∈ images ∨ (w.images.lookup i).isSome) := by
  induction rows generalizing w with
  | nil => simp [walkRows]
  | cons r rows ih =>
    have hr := h r List.mem_cons_self
    obtain ⟨h1, h2, h3⟩ := ih (fun x hx => h x (List.mem_cons_of_mem _ hx))
      (Walk.row owner past d w r)
    have hrow : Walk.row owner past d w r = (ownerImages owner r.values).foldl
        (Walk.addCurrent (if d.current r.id = 2 then .applied else .desired)) w := if_pos hr
    obtain ⟨g1, g2, g3⟩ := foldl_addCurrent
      (if d.current r.id = 2 then .applied else .desired) (ownerImages owner r.values) w
    rw [← hrow] at g1 g2 g3
    refine ⟨fun i => ?_, h2.trans g2, fun i => ?_⟩
    · show i ∈ (walkRows owner past d (Walk.row owner past d w r) rows).current ↔ _
      rw [h1, g1, List.flatMap_cons, List.mem_append]
      tauto
    · show ((walkRows owner past d (Walk.row owner past d w r) rows).images.lookup i).isSome ↔ _
      rw [h3, g3, List.flatMap_cons, List.mem_append]
      tauto

theorem walkRows_earlier (rows : List ReleaseRow) (h : ∀ r ∈ rows, d.current r.id = 0) (w : Walk) :
    walkRows owner past d w rows =
      { w with
        earlier := ((rows.flatMap fun r => sortedImages owner r.values).filter fun i =>
          i ∉ w.current).foldl (pushWindow past) w.earlier } := by
  induction rows generalizing w with
  | nil => rfl
  | cons r rows ih =>
    have hr := h r List.mem_cons_self
    have ih := ih fun x hx => h x (List.mem_cons_of_mem _ hx)
    show walkRows owner past d (Walk.row owner past d w r) rows = _
    have hrow : Walk.row owner past d w r =
        { w with
          earlier := ((sortedImages owner r.values).filter fun i => i ∉ w.current).foldl
            (pushWindow past) w.earlier } := by
      rw [Walk.row]
      simp only [hr, ne_eq, not_true_eq_false, if_false]
      split
      · rename_i hfull
        rw [foldl_pushWindow_full hfull]
      · exact foldl_addEarlier _ _
    rw [hrow, ih, List.flatMap_cons, List.filter_append, List.foldl_append]

theorem mem_currentRows {releases : Table DeploymentRelease} {i : String} :
    i ∈ (((releasesByNumber releases d.id).filter fun r => d.current r.id = 2) ++
        (releasesByNumber releases d.id).filter fun r => d.current r.id = 1).flatMap
          (fun r => ownerImages owner r.values) ↔
      i ∈ currentImages owner releases d := by
  have hcur : ∀ id, d.current id = 2 ∨ d.current id = 1 ↔ d.current id ≠ 0 := by
    intro id
    unfold Deployment.current
    split
    · simp
    · split
      · simp
      · simp
  simp only [currentImages, List.mem_flatMap, List.mem_append, List.mem_filter, decide_eq_true_eq]
  constructor
  · rintro ⟨r, hr, hi⟩
    exact ⟨r, ⟨hr.elim And.left And.left, (hcur r.id).mp (hr.imp And.right And.right)⟩, hi⟩
  · rintro ⟨r, ⟨hr, hc⟩, hi⟩
    exact ⟨r, ((hcur r.id).mpr hc).imp (fun h => ⟨hr, h⟩) fun h => ⟨hr, h⟩, hi⟩

/-- a group of releases adds its current and its earlier images -/
theorem retains_retentionGroup (releases : Table DeploymentRelease) (r : Retention) (i : String) :
    (retentionGroup owner past releases r d).retains i = true ↔
      (i ∈ currentImages owner releases d ∨ i ∈ earlierImages owner past releases d) ∨
        r.retains i = true := by
  let rows := releasesByNumber releases d.id
  let first := (rows.filter fun x => d.current x.id = 2) ++ rows.filter fun x => d.current x.id = 1
  let rest := rows.filter fun x => d.current x.id = 0
  have hfirst : ∀ x ∈ first, d.current x.id ≠ 0 := by
    intro x hx
    rcases List.mem_append.mp hx with hx | hx
    · have := of_decide_eq_true (List.mem_filter.mp hx).2
      omega
    · have := of_decide_eq_true (List.mem_filter.mp hx).2
      omega
  have hrest : ∀ x ∈ rest, d.current x.id = 0 := fun x hx =>
    of_decide_eq_true (List.mem_filter.mp hx).2
  have hsplit : walkRows owner past d ⟨r.images, [], []⟩ (releaseGroup releases d) =
      walkRows owner past d (walkRows owner past d ⟨r.images, [], []⟩ first) rest :=
    List.foldl_append
  obtain ⟨h1, h2, h3⟩ := walkRows_current owner past first hfirst
    ⟨r.images, [], []⟩
  have hcur : ∀ j, j ∈ (walkRows owner past d ⟨r.images, [], []⟩ first).current ↔
      j ∈ currentImages owner releases d := by
    intro j
    rw [h1]
    exact (or_iff_left List.not_mem_nil).trans mem_currentRows
  rw [walkRows_earlier rest hrest, h2] at hsplit
  have hwalked : ((rest.flatMap fun x => sortedImages owner x.values).filter fun j =>
      j ∉ (walkRows owner past d ⟨r.images, [], []⟩ first).current) =
        walkedImages owner releases d :=
    List.filter_congr fun j _ => decide_eq_decide.mpr (not_congr (hcur j))
  rw [hwalked] at hsplit
  show (((walkRows owner past d ⟨r.images, [], []⟩ (releaseGroup releases d)).earlier.foldl
    (fun images i => label images i .earlier)
      (walkRows owner past d ⟨r.images, [], []⟩ (releaseGroup releases d)).images).lookup
        i).isSome = true ↔ _
  rw [hsplit, lookup_foldl_label, h3, mem_currentRows]
  show i ∈ earlierImages owner past releases d ∨ _ ∨ r.retains i = true ↔ _
  tauto

end

theorem retains_foldl_groups {owner : UserId} {past : Nat} {releases : Table DeploymentRelease}
    {i : String} (l : List Deployment) (r : Retention) :
    (l.foldl (retentionGroup owner past releases) r).retains i = true ↔
      (∃ d ∈ l, i ∈ currentImages owner releases d ∨ i ∈ earlierImages owner past releases d) ∨
        r.retains i = true := by
  induction l generalizing r with
  | nil => simp
  | cons d l ih =>
    rw [List.foldl_cons, ih, retains_retentionGroup]
    simp only [List.mem_cons, exists_eq_or_imp]
    exact or_left_comm.trans or_assoc.symm

theorem retains_foldl_builds {since : Time} {i : String} (l : List Build) (r : Retention)
    (hl : ∀ b ∈ l, b.isFresh since = true) :
    (l.foldl (retentionBuild since) r).retains i = true ↔
      (∃ b ∈ l, b.imageText = some i) ∨ r.retains i = true := by
  induction l generalizing r with
  | nil => simp
  | cons b l ih =>
    have hb := hl b List.mem_cons_self
    have hrow : (retentionBuild since r b).retains i = true ↔
        b.imageText = some i ∨ r.retains i = true := by
      unfold retentionBuild
      rw [if_pos hb]
      cases himg : b.imageText with
      | none =>
        show r.retains i = true ↔ _
        simp
      | some image =>
        show ((label r.images image .fresh).lookup i).isSome = true ↔ _
        rw [lookup_label, Option.some.injEq]
        exact or_congr_left eq_comm
    rw [List.foldl_cons, ih _ fun x hx => hl x (List.mem_cons_of_mem _ hx), hrow]
    simp only [List.mem_cons, exists_eq_or_imp]
    exact or_left_comm.trans or_assoc.symm

theorem mem_liveDeployments {s : State} {owner : UserId} {d : Deployment} :
    d ∈ liveDeployments s owner ↔
      d ∈ s.deployments.rows ∧ d.userId = owner ∧ d.deletedAt = none := by
  rw [liveDeployments, List.mem_insertionSort, List.mem_filter, decide_eq_true_eq]

theorem mem_ownerBuilds {s : State} {owner : UserId} {b : Build} :
    b ∈ ownerBuilds s owner ↔
      b ∈ s.builds.rows ∧ ∃ d ∈ s.deployments.rows, d.id = b.deploymentId ∧ d.userId = owner := by
  simp [ownerBuilds, List.mem_filter]

/-- **what retention keeps** -/
theorem retains_iff {cfg : Settings} {s : State} {owner : UserId} {i : String} :
    retained cfg s owner i ↔
      (∃ d ∈ s.deployments.rows, (d.userId = owner ∧ d.deletedAt = none) ∧
        (i ∈ currentImages owner s.releases d ∨
          i ∈ earlierImages owner cfg.registryRetainedPastImages s.releases d)) ∨
      (∃ b ∈ s.builds.rows, (∃ d ∈ s.deployments.rows, d.id = b.deploymentId ∧ d.userId = owner) ∧
        b.isFresh (graceStart cfg s.now) = true ∧ b.imageText = some i) := by
  unfold retained ownerRetention
  rw [retains_foldl_builds _ _ fun b hb => (List.mem_filter.mp hb).2, retains_foldl_groups]
  have hempty : (Retention.empty.retains i = true) = False := by
    simp [Retention.empty, Retention.retains]
  simp only [hempty, or_false, mem_liveDeployments, List.mem_filter, mem_ownerBuilds]
  constructor
  · rintro (⟨b, ⟨⟨hb, hd⟩, hf⟩, hi⟩ | ⟨d, ⟨hd, hl⟩, hi⟩)
    · exact .inr ⟨b, hb, hd, hf, hi⟩
    · exact .inl ⟨d, hd, hl, hi⟩
  · rintro (⟨d, hd, hl, hi⟩ | ⟨b, hb, hd, hf, hi⟩)
    · exact .inr ⟨d, ⟨hd, hl⟩, hi⟩
    · exact .inl ⟨b, ⟨⟨hb, hd⟩, hf⟩, hi⟩

end Freepod
