import Freepod.Runs.Releases

/-!
# Leaving retention is permanent

A write that references an image is checked against the retention, so an image that has left it
comes back by no request's own reference.  What the check does not see is the window of a
deployment's earlier images: an update that submits one of them makes it current, and the walk then
goes on to older ones.  `freedImages` are the images it then takes in.

* `retention_permanent`: in orderly runs whose updates take no image in that is not retained, an
  image that is not retained stays so until a build records it.
* `retention_returns`: after an update with an earlier image an older one is retained again.
-/

namespace Freepod
open Base

variable {cfg : Settings} {s t : State} {a : Action} {id : DeploymentId} {d d' : Deployment}
  {owner : UserId} {past : Nat} {i : String} {releases releases' : Table DeploymentRelease}

/-- the owner's images in the values of a release -/
def releaseImages (owner : UserId) (releases : Table DeploymentRelease)
    (id : Option ReleaseId) : List String :=
  match id.bind releases.get? with
  | none => []
  | some r => sortedImages owner r.valuesJson

/-- the images of the desired release that an update leaves to the earlier ones: those that neither
it submits nor the applied release has -/
def outgoingImages (releases : Table DeploymentRelease) (d : Deployment) (values : Json) :
    List String :=
  (releaseImages d.userId releases (some d.desiredReleaseId)).filter fun i =>
    i ∉ ownerImages d.userId values ∧ i ∉ releaseImages d.userId releases d.appliedReleaseId

/-- the images beyond the window that the walk takes in after an update with these values: as many
as it makes more earlier images current than it leaves to the earlier ones -/
def freedImages (past : Nat) (releases : Table DeploymentRelease) (d : Deployment)
    (values : Json) : List String :=
  let earlier := earlierImages d.userId past releases d
  let submitted := fun i => decide (i ∈ ownerImages d.userId values)
  window ((earlier.filter submitted).length - (outgoingImages releases d values).length)
    ((walkedImages d.userId releases d).filter fun i => !submitted i && !decide (i ∈ earlier))

/-- the images an update takes in are retained for another reason -/
def keepsWindow (cfg : Settings) (s : State) (a : Action) : Prop :=
  ∀ c u d values, a = .update c u → s.deployments.get? u.id = some d →
    u.normalized c d = some values →
    ∀ i ∈ freedImages cfg.registryRetainedPastImages s.releases d values,
      retained cfg s d.userId i

/-! ## The images of a deployment over one step -/

theorem current_ne_zero (k : ReleaseId) :
    d.current k ≠ 0 ↔ d.appliedReleaseId = some k ∨ d.desiredReleaseId = k := by
  unfold Deployment.current
  split
  · rename_i h
    exact iff_of_true (by decide) (.inl h)
  · rename_i h
    split
    · rename_i h'
      exact iff_of_true (by decide) (.inr h')
    · rename_i h'
      exact iff_of_false (by decide) (not_or.mpr ⟨h, h'⟩)

theorem mem_currentImages : i ∈ currentImages owner releases d ↔
    ∃ z ∈ releasesByNumber releases d.id,
      (d.appliedReleaseId = some z.id ∨ d.desiredReleaseId = z.id) ∧
        i ∈ ownerImages owner z.values := by
  simp only [currentImages, List.mem_flatMap, List.mem_filter, decide_eq_true_eq, current_ne_zero,
    and_assoc]

theorem mem_releaseImages {key : Option ReleaseId}
    (hkey : ∀ k, key = some k → ∃ r, releases.get? k = some r ∧ r.deploymentId = id) :
    i ∈ releaseImages owner releases key ↔
      ∃ z ∈ releasesByNumber releases id, key = some z.id ∧ i ∈ ownerImages owner z.values := by
  unfold releaseImages
  cases key with
  | none => simp
  | some k =>
    obtain ⟨r, hr, hd⟩ := hkey k rfl
    have hid : r.id = k := Table.key_of_get? hr
    rw [Option.bind_some, hr]
    simp only [mem_sortedImages]
    constructor
    · intro hi
      refine ⟨r.row, mem_releasesByNumber.mpr (List.mem_map.mpr ⟨r, Table.mem_of_get? hr, ?_⟩),
        congrArg some hid.symm, hi⟩
      rw [DeploymentRelease.entry, hd]
    · rintro ⟨z, hz, hk, hi⟩
      obtain ⟨r', hr', he⟩ := List.mem_map.mp (mem_releasesByNumber.mp hz)
      rw [DeploymentRelease.entry, Prod.mk.injEq] at he
      obtain ⟨-, rfl⟩ := he
      have hsame : r' = r :=
        Table.eq_of_key hr' (Table.mem_of_get? hr) ((Option.some.inj hk).symm.trans hid.symm)
      exact hsame ▸ hi

/-- the current images are those of the applied and the desired release -/
theorem mem_currentImages_iff (hp : Pointed s d) :
    i ∈ currentImages owner s.releases d ↔
      i ∈ releaseImages owner s.releases d.appliedReleaseId ∨
        i ∈ releaseImages owner s.releases (some d.desiredReleaseId) := by
  obtain ⟨r, hr, hd, -⟩ := hp.desired
  have hdes : ∀ k, some d.desiredReleaseId = some k →
      ∃ r, s.releases.get? k = some r ∧ r.deploymentId = d.id :=
    fun k hk => Option.some.inj hk ▸ ⟨r, hr, hd⟩
  rw [mem_currentImages, mem_releaseImages hp.applied, mem_releaseImages hdes]
  simp only [or_and_right, and_or_left, exists_or, Option.some.injEq]

/-- images depend on the order of the releases and the two pointers alone -/
theorem images_congr (owner : UserId) (past : Nat) (hid : d'.id = d.id)
    (hrows : releasesByNumber releases' d.id = releasesByNumber releases d.id)
    (ha : d'.appliedReleaseId = d.appliedReleaseId)
    (hdes : d'.desiredReleaseId = d.desiredReleaseId) :
    currentImages owner releases' d' = currentImages owner releases d ∧
      earlierImages owner past releases' d' = earlierImages owner past releases d := by
  have hcur : d'.current = d.current := by
    funext k
    rw [Deployment.current, Deployment.current, ha, hdes]
  have hc : currentImages owner releases' d' = currentImages owner releases d := by
    rw [currentImages, currentImages, hid, hrows, hcur]
  refine ⟨hc, ?_⟩
  rw [earlierImages, earlierImages, walkedImages, walkedImages, hc, hid, hrows, hcur]

/-- the images of a deployment with one release -/
theorem images_single {x : ReleaseRow} (hrows : releasesByNumber releases d.id = [x])
    (hdes : d.desiredReleaseId = x.id)
    (hi : i ∈ currentImages owner releases d ∨ i ∈ earlierImages owner past releases d) :
    i ∈ ownerImages owner x.values := by
  rcases hi with hi | hi
  · rw [mem_currentImages, hrows] at hi
    obtain ⟨z, hz, -, hi⟩ := hi
    exact List.mem_singleton.mp hz ▸ hi
  · have hi := List.mem_of_mem_filter (mem_of_mem_window hi)
    have hx : decide (d.current x.id = 0) = false :=
      decide_eq_false ((current_ne_zero x.id).mpr (.inr hdes))
    rw [hrows, List.filter_singleton, hx] at hi
    cases hi

/-- leaving out rows whose elements are filtered out anyway -/
theorem filter_flatMap_filter {α β : Type} {f : α → List β} {p : β → Bool} {q q' : α → Bool}
    (l : List α) (h : ∀ x ∈ l, q x = true → q' x = true)
    (h' : ∀ x ∈ l, q' x = true → q x = false → ∀ y ∈ f x, p y = false) :
    ((l.filter q').flatMap f).filter p = ((l.filter q).flatMap f).filter p := by
  induction l with
  | nil => rfl
  | cons x l ih =>
    have ih := ih (fun y hy => h y (List.mem_cons_of_mem _ hy))
      fun y hy => h' y (List.mem_cons_of_mem _ hy)
    by_cases hq' : q' x = true
    · by_cases hq : q x = true
      · rw [List.filter_cons_of_pos hq', List.filter_cons_of_pos hq, List.flatMap_cons,
          List.flatMap_cons, List.filter_append, List.filter_append, ih]
      · have hnone : (f x).filter p = [] := List.filter_eq_nil_iff.mpr fun y hy => by
          rw [h' x List.mem_cons_self hq' (Bool.not_eq_true _ ▸ hq) y hy]
          exact Bool.false_ne_true
        rw [List.filter_cons_of_pos hq', List.filter_cons_of_neg hq, List.flatMap_cons,
          List.filter_append, hnone, List.nil_append, ih]
    · have hq : ¬ q x = true := fun hq => hq' (h x List.mem_cons_self hq)
      rw [List.filter_cons_of_neg hq', List.filter_cons_of_neg hq, ih]

/-- when the desired release becomes the applied one, the walk takes in images of the release that
was applied, and no other -/
theorem images_applied (hid : d'.id = d.id)
    (hrows : releasesByNumber releases' d.id = releasesByNumber releases d.id)
    (ha : d'.appliedReleaseId = some d.desiredReleaseId)
    (hdes : d'.desiredReleaseId = d.desiredReleaseId)
    (hi : i ∈ currentImages owner releases' d' ∨ i ∈ earlierImages owner past releases' d') :
    i ∈ currentImages owner releases d ∨ i ∈ earlierImages owner past releases d := by
  have hcur : ∀ k, d'.current k ≠ 0 → d.current k ≠ 0 := fun k hk => by
    rw [current_ne_zero] at hk ⊢
    rw [ha, hdes, Option.some.injEq, or_self] at hk
    exact .inr hk
  have hsub : ∀ j, j ∈ currentImages owner releases' d' → j ∈ currentImages owner releases d := by
    intro j hj
    simp only [currentImages, List.mem_flatMap, List.mem_filter, decide_eq_true_eq, hid,
      hrows] at hj ⊢
    obtain ⟨z, ⟨hz, hc⟩, hj⟩ := hj
    exact ⟨z, ⟨hz, hcur _ hc⟩, hj⟩
  by_cases hc : i ∈ currentImages owner releases d
  · exact .inl hc
  refine .inr ?_
  have hi : i ∈ window past (walkedImages owner releases' d') := hi.resolve_left (hc ∘ hsub i)
  have hi := mem_window_filter (p := fun j => decide (j ∉ currentImages owner releases d)) hi
    (decide_eq_true hc)
  have hwalked : (walkedImages owner releases' d').filter
      (fun j => decide (j ∉ currentImages owner releases d)) = walkedImages owner releases d := by
    rw [walkedImages, walkedImages, List.filter_filter, hid, hrows]
    have hboth : (fun j => decide (j ∉ currentImages owner releases d) &&
        decide (j ∉ currentImages owner releases' d')) =
        fun j => decide (j ∉ currentImages owner releases d) := by
      funext j
      by_cases hj : j ∈ currentImages owner releases d
      · simp [hj]
      · simp [hj, mt (hsub j) hj]
    rw [hboth]
    refine filter_flatMap_filter _ (fun z _ hz => ?_) fun z hzrow hz hz' j hj => ?_
    · have hz := of_decide_eq_true hz
      refine decide_eq_true ?_
      by_contra hne
      exact hcur _ hne hz
    · have hz' := of_decide_eq_false hz'
      refine decide_eq_false (not_not.mpr ?_)
      exact List.mem_flatMap.mpr ⟨z, List.mem_filter.mpr ⟨hzrow, decide_eq_true hz'⟩,
        mem_sortedImages.mp hj⟩
  rw [hwalked] at hi
  exact hi

theorem nodup_sortedImages (owner : UserId) (values : Json) : (sortedImages owner values).Nodup :=
  (List.perm_insertionSort _ _).nodup_iff.mpr (List.nodup_dedup _)

/-- the earlier releases before an update that puts `x` in front of the desired `y`: the others but
the applied one -/
theorem filter_earlier {y : ReleaseRow} {l : List ReleaseRow} (hdes : d.desiredReleaseId = y.id)
    (hn : ((y :: l).map ReleaseRow.id).Nodup) :
    (y :: l).filter (fun z => d.current z.id = 0) =
      l.filter fun z => decide (d.appliedReleaseId ≠ some z.id) := by
  have hy : ¬ (fun z : ReleaseRow => decide (d.current z.id = 0)) y = true := by
    rw [decide_eq_true_eq]
    exact (current_ne_zero y.id).mpr (.inr hdes)
  rw [List.filter_cons_of_neg (p := fun z : ReleaseRow => decide (d.current z.id = 0)) hy]
  refine List.filter_congr fun z hz => decide_eq_decide.mpr ?_
  rw [← not_iff_not, ← ne_eq, current_ne_zero, hdes, not_not]
  refine or_iff_left fun he => ?_
  exact (List.nodup_cons.mp hn).1 (List.mem_map.mpr ⟨z, hz, he.symm⟩)

/-- **what the walk takes in after an update: what the update submits, what was retained of the
deployment already, and the freed images** -/
theorem images_update {x y : ReleaseRow} {l : List ReleaseRow} {values : Json} (hp : Pointed s d)
    (hid : d'.id = d.id) (hrows : releasesByNumber s.releases d.id = y :: l)
    (hrows' : releasesByNumber releases' d.id = x :: y :: l)
    (hdes : d.desiredReleaseId = y.id) (hdes' : d'.desiredReleaseId = x.id)
    (ha : d'.appliedReleaseId = d.appliedReleaseId) (hnew : d.appliedReleaseId ≠ some x.id)
    (hx : x.values = values)
    (hi : i ∈ currentImages d.userId releases' d' ∨ i ∈ earlierImages d.userId past releases' d') :
    i ∈ ownerImages d.userId values ∨ i ∈ currentImages d.userId s.releases d ∨
      i ∈ earlierImages d.userId past s.releases d ∨ i ∈ freedImages past s.releases d values := by
  have hn := nodup_releasesByNumber releases' d.id
  rw [hrows'] at hn
  have hC : ∀ j, j ∈ currentImages d.userId s.releases d ↔
      j ∈ releaseImages d.userId s.releases d.appliedReleaseId ∨
        j ∈ releaseImages d.userId s.releases (some d.desiredReleaseId) :=
    fun _ => mem_currentImages_iff hp
  -- the images of the applied release, by its row in the order
  have hA : ∀ j, j ∈ releaseImages d.userId s.releases d.appliedReleaseId ↔
      ∃ z ∈ releasesByNumber s.releases d.id, d.appliedReleaseId = some z.id ∧
        j ∈ ownerImages d.userId z.values := fun _ => mem_releaseImages hp.applied
  rw [hrows] at hA
  have hY : releaseImages d.userId s.releases (some d.desiredReleaseId) =
      sortedImages d.userId y.values := by
    have hy : y ∈ releasesByNumber s.releases d.id := hrows ▸ List.mem_cons_self
    obtain ⟨r, hr, he⟩ := List.mem_map.mp (mem_releasesByNumber.mp hy)
    rw [DeploymentRelease.entry, Prod.mk.injEq] at he
    obtain ⟨-, rfl⟩ := he
    have hget : s.releases.get? d.desiredReleaseId = some r := hdes ▸ Table.get?_of_mem hr
    rw [releaseImages, Option.bind_some, hget]
    rfl
  have hC' : ∀ j, j ∈ currentImages d.userId releases' d' ↔
      j ∈ ownerImages d.userId values ∨ j ∈ releaseImages d.userId s.releases d.appliedReleaseId := by
    intro j
    rw [mem_currentImages, hid, hrows', hA]
    constructor
    · rintro ⟨z, hz, hptr, hj⟩
      rcases List.mem_cons.mp hz with rfl | hz
      · exact .inl (hx ▸ hj)
      · refine .inr ⟨z, hz, ?_, hj⟩
        rcases hptr with hptr | hptr
        · exact ha ▸ hptr
        · rw [hdes'] at hptr
          exact absurd (List.mem_map.mpr ⟨z, hz, hptr.symm⟩) (List.nodup_cons.mp hn).1
    · rintro (hj | ⟨z, hz, hptr, hj⟩)
      · exact ⟨x, List.mem_cons_self, .inr hdes', hx ▸ hj⟩
      · exact ⟨z, List.mem_cons_of_mem _ hz, .inl (ha.trans hptr), hj⟩
  rcases hi with hi | hi
  · rcases (hC' i).mp hi with hi | hi
    · exact .inl hi
    · exact .inr (.inl ((hC i).mpr (.inl hi)))
  let base := (l.filter fun z => decide (d.appliedReleaseId ≠ some z.id)).flatMap fun z =>
    sortedImages d.userId z.values
  let out := outgoingImages s.releases d values
  have hout : out = (sortedImages d.userId y.values).filter fun j =>
      decide (j ∉ currentImages d.userId releases' d') := by
    show List.filter _ (releaseImages d.userId s.releases (some d.desiredReleaseId)) = _
    rw [hY]
    refine List.filter_congr fun j _ => decide_eq_decide.mpr ?_
    rw [hC', not_or]
  have hwalked : walkedImages d.userId s.releases d =
      base.filter fun j => decide (j ∉ currentImages d.userId s.releases d) := by
    rw [walkedImages, hrows, filter_earlier hdes (List.nodup_cons.mp hn).2]
  have hwalked' : walkedImages d.userId releases' d' =
      out ++ base.filter fun j => decide (j ∉ currentImages d.userId releases' d') := by
    rw [walkedImages, hid, hrows', filter_earlier hdes' hn, ha, hout]
    by_cases hy : d.appliedReleaseId = some y.id
    · -- the outgoing release is the applied one: its images are current as before
      have hnone : (sortedImages d.userId y.values).filter
          (fun j => decide (j ∉ currentImages d.userId releases' d')) = [] := by
        refine List.filter_eq_nil_iff.mpr fun j hj => ?_
        rw [decide_eq_true_eq, not_not, hC', hA]
        exact .inr ⟨y, List.mem_cons_self, hy, mem_sortedImages.mp hj⟩
      rw [List.filter_cons_of_neg (by simp [hy]), hnone, List.nil_append]
    · rw [List.filter_cons_of_pos (by simp [hy]), List.flatMap_cons, List.filter_append]
  rw [earlierImages, hwalked'] at hi
  by_cases him : i ∈ out
  · rw [hout] at him
    exact .inr (.inl ((hC i).mpr (.inr (hY ▸ List.mem_of_mem_filter him))))
  have hi := mem_window_append_filter him hi
  have hrest : (base.filter fun j => decide (j ∉ currentImages d.userId releases' d')).filter
      (fun j => !decide (j ∈ out)) =
        (walkedImages d.userId s.releases d).filter fun j =>
          !decide (j ∈ ownerImages d.userId values) := by
    rw [hwalked, List.filter_filter, List.filter_filter]
    refine List.filter_congr fun j _ => ?_
    have hmem : j ∈ out ↔ j ∈ releaseImages d.userId s.releases (some d.desiredReleaseId) ∧
        j ∉ currentImages d.userId releases' d' := by
      rw [hout, List.mem_filter, decide_eq_true_eq, hY]
    by_cases hA : j ∈ releaseImages d.userId s.releases d.appliedReleaseId
    · simp [hmem, hC, hC', hA]
    · by_cases hS : j ∈ ownerImages d.userId values
      · simp [hmem, hC, hC', hA, hS]
      · simp [hmem, hC, hC', hA, hS]
  rw [hrest] at hi
  have hnodup : out.Nodup := hout ▸ (nodup_sortedImages _ _).filter _
  have hdisjoint : ∀ j ∈ out, j ∉ walkedImages d.userId s.releases d := fun j hj hw => by
    rw [hwalked, List.mem_filter, decide_eq_true_eq, hC] at hw
    rw [hout] at hj
    exact hw.2 (.inr (hY ▸ List.mem_of_mem_filter hj))
  rcases mem_window_append hnodup hdisjoint hi with hi | hi | hi
  · exact absurd hi him
  · exact .inr (.inr (.inl hi))
  · exact .inr (.inr (.inr hi))

/-! ## What a write submits -/

theorem mem_deploymentImages {x : Option Deployment} :
    i ∈ deploymentImages s owner x ↔ ∃ d, x = some d ∧
      (i ∈ releaseImages owner s.releases (some d.desiredReleaseId) ∨
        i ∈ releaseImages owner s.releases d.appliedReleaseId) := by
  cases x with
  | none => simp [deploymentImages]
  | some d =>
    have himages : ∀ key : Option ReleaseId, i ∈ releaseImages owner s.releases key ↔
        ∃ r, key.bind s.releases.get? = some r ∧ i ∈ ownerImages owner r.valuesJson := by
      intro key
      unfold releaseImages
      cases key.bind s.releases.get? with
      | none => simp
      | some r => simp [mem_sortedImages]
    simp only [deploymentImages, List.mem_flatMap, List.mem_append, Option.mem_toList,
      or_and_right, exists_or, Option.some.injEq, himages, Option.bind_some, exists_eq_left']

/-- the images a write need not ask retention for are the deployment's or a fresh build's -/
theorem referencedImages_spec (cfg : Settings) (s : State) (owner : UserId)
    (build : Option Build) (values : Json) (x : Option Deployment) :
    (∀ i ∈ ownerImages owner values, i ∈ (referencedImages cfg s owner build values x).1) ∧
      ∀ i ∈ (referencedImages cfg s owner build values x).2,
        i ∈ deploymentImages s owner x ∨
          ∃ b, build = some b ∧ b.isFresh (graceStart cfg s.now) = true ∧ b.imageText = some i := by
  simp only [referencedImages]
  split
  · exact ⟨fun _ hi => hi, fun _ hi => .inl hi⟩
  · rename_i b image hbuild
    obtain ⟨b', hb', hmap⟩ := Option.bind_eq_some_iff.mp hbuild
    obtain ⟨image', himage, he⟩ := Option.map_eq_some_iff.mp hmap
    rw [Prod.mk.injEq] at he
    obtain ⟨rfl, rfl⟩ := he
    split
    · rename_i hfresh
      refine ⟨fun _ hi => hi, fun i hi => ?_⟩
      rcases List.mem_cons.mp hi with rfl | hi
      · exact .inr ⟨b', hb', hfresh, himage⟩
      · exact .inl hi
    · exact ⟨fun _ hi => List.mem_cons_of_mem _ hi, fun _ hi => .inl hi⟩

/-- **an accepted write submits images of the deployment, of its fresh build, or retained ones** -/
theorem submitted_of_validate {buildId : Option BuildId} {values : Json} {x : Option Deployment}
    (h : validateRetainedImages cfg s owner buildId values x = .ok ())
    (hi : i ∈ ownerImages owner values) :
    i ∈ deploymentImages s owner x ∨
      (∃ b, buildId.bind s.builds.get? = some b ∧ b.isFresh (graceStart cfg s.now) = true ∧
        b.imageText = some i) ∨
      retained cfg s owner i := by
  obtain ⟨hsubmitted, hcurrent⟩ := referencedImages_spec cfg s owner
    (buildId.bind s.builds.get?) values x
  by_cases hc : i ∈ (referencedImages cfg s owner (buildId.bind s.builds.get?) values x).2
  · exact or_assoc.mp (.inl (hcurrent i hc))
  refine .inr (.inr ?_)
  have hunknown : i ∈ unknownImages cfg s owner (buildId.bind s.builds.get?) values x :=
    List.mem_filter.mpr ⟨hsubmitted i hi, decide_eq_true hc⟩
  simp only [validateRetainedImages] at h
  split at h
  · rename_i hempty
    rw [List.isEmpty_iff.mp hempty] at hunknown
    cases hunknown
  split at h
  · cases h
  split at h
  · cases h
  · rename_i hall
    by_contra hnot
    refine hall (List.any_eq_true.mpr ⟨i, hunknown, ?_⟩)
    rw [Bool.not_eq_true', ← Bool.not_eq_true]
    exact hnot

/-- an update names a build of its own deployment -/
theorem deployment_of_validate {buildId : Option BuildId} {x : Option DeploymentId} {b : Build}
    (h : validateBuildReference s x buildId = .ok ())
    (hb : buildId.bind s.builds.get? = some b) : x = some b.deploymentId ∧ b ∈ s.builds.rows := by
  obtain ⟨k, rfl, hrow⟩ := Option.bind_eq_some_iff.mp hb
  simp only [validateBuildReference, hrow] at h
  exact ⟨require_eq_ok.mp h, Table.mem_of_get? hrow⟩

theorem retained_of_images (hd : s.deployments.get? id = some d) (hlive : d.deletedAt = none)
    (hi : i ∈ currentImages d.userId s.releases d ∨
      i ∈ earlierImages d.userId cfg.registryRetainedPastImages s.releases d) :
    retained cfg s d.userId i :=
  retains_iff.mpr (.inl ⟨d, Table.mem_of_get? hd, ⟨rfl, hlive⟩, hi⟩)

/-- the images a write of the deployment submits were retained -/
theorem retained_of_submitted (hp : Pointed s d) (hd : s.deployments.get? id = some d)
    (hlive : d.deletedAt = none) {buildId : Option BuildId} {values : Json}
    (hbuild : validateBuildReference s (some d.id) buildId = .ok ())
    (himages : validateRetainedImages cfg s d.userId buildId values (some d) = .ok ())
    (hi : i ∈ ownerImages d.userId values) : retained cfg s d.userId i := by
  rcases submitted_of_validate himages hi with hi | ⟨b, hb, hfresh, himage⟩ | hi
  · obtain ⟨x, hx, hi⟩ := mem_deploymentImages.mp hi
    cases hx
    exact retained_of_images hd hlive (.inl ((mem_currentImages_iff hp).mpr hi.symm))
  · obtain ⟨hid, hm⟩ := deployment_of_validate hbuild hb
    exact retains_iff.mpr (.inr ⟨b, hm, ⟨d, Table.mem_of_get? hd, Option.some.inj hid, rfl⟩,
      hfresh, himage⟩)
  · exact hi

/-! ## Runs -/

/-- an image a deployment keeps after a step was retained before it -/
theorem images_of_step (hl : Ledgered s) (hok : keepsWindow cfg s a) (h : step cfg s a = some t)
    (hd' : t.deployments.get? id = some d') (hlive : d'.deletedAt = none)
    (hi : i ∈ currentImages d'.userId t.releases d' ∨
      i ∈ earlierImages d'.userId cfg.registryRetainedPastImages t.releases d') :
    retained cfg s d'.userId i := by
  have hid' : d'.id = id := Table.key_of_get? hd'
  have same : ∀ d, s.deployments.get? id = some d → d.deletedAt = none → d'.userId = d.userId →
      releasesByNumber t.releases id = releasesByNumber s.releases id →
      d'.appliedReleaseId = d.appliedReleaseId → d'.desiredReleaseId = d.desiredReleaseId →
      retained cfg s d'.userId i := by
    intro d hd hlive huser hrows ha hdes
    have hid : d.id = id := Table.key_of_get? hd
    obtain ⟨hc, he⟩ := images_congr d'.userId cfg.registryRetainedPastImages
      (hid'.trans hid.symm) (hid.symm ▸ hrows) ha hdes
    rw [hc, he] at hi
    rw [huser] at hi ⊢
    exact retained_of_images hd hlive hi
  rcases deploymentStep_of_step hl.ordered h id with hreq | hw
  · cases hreq with
    | untouched x => exact same d' (x.deployment ▸ hd') hlive rfl (releasesByNumber_untouched x) rfl rfl
    | create r sub ns values hostname isPaid named before after releases powers cluster action =>
      obtain ⟨c, rfl⟩ := action
      subst named
      rw [after, Option.some.injEq] at hd'
      obtain ⟨values', hostname', ns', isPaid', subscriptions, deployments, releases', vars, price,
        payments, jobs, himages, -, hins, -, -, rfl⟩ := createDeployment_ok (toOption_eq_some.mp h)
      have hvalues : values' = values := by
        have hself : deployments.get? r.deploymentId = some _ := Table.get?_insert?_self hins
        exact congrArg Deployment.userValuesJson (Option.some.inj (hself.symm.trans after))
      subst hvalues hd'
      have hnone := hl.releasesByNumber_none before
      have hrows : releasesByNumber releases' r.deploymentId =
          _ :: releasesByNumber s.releases r.deploymentId :=
        releasesByNumber_insert? releases fun x hx => by
          have hx : x ∈ releasesByNumber s.releases r.deploymentId := hx
          rw [hnone] at hx
          cases hx
      rw [hnone] at hrows
      have hi := images_single (d := r.deployment s.now sub ns values' hostname isPaid) hrows rfl hi
      rcases submitted_of_validate himages hi with hi | ⟨b, hb, -⟩ | hi
      · cases hi
      · cases hb
      · exact hi
    | update u d values hostname buildId before settled closed opened after releases powers cluster
        action named =>
      obtain ⟨c, rfl⟩ := action
      subst named
      rw [after, Option.some.injEq] at hd'
      obtain ⟨x, values', hx, hnorm, hbuild, himages, hvalues⟩ :=
        updateDeployment_images (toOption_eq_some.mp h)
      rw [before, Option.some.injEq] at hx
      subst hx
      have hvalues : values = values' := by
        rw [after] at hvalues
        exact Option.some.inj hvalues
      subst hvalues hd'
      have hid : d.id = u.id := Table.key_of_get? before
      have hp := hl.ordered.pointed _ d before
      have hrows' := releasesByNumber_insert? releases fun x hx => lt_nextReleaseNumber hx
      obtain ⟨y, l, hrows, hy⟩ : ∃ y l, releasesByNumber s.releases u.id = y :: l ∧
          d.desiredReleaseId = y.id := by
        have hnew := hl.newest _ d before
        cases hl : releasesByNumber s.releases u.id with
        | nil =>
          rw [hl] at hnew
          cases hnew
        | cons y l =>
          rw [hl] at hnew
          exact ⟨y, l, rfl, (Option.some.inj hnew).symm⟩
      have hnew : d.appliedReleaseId ≠ some u.releaseId := fun ha => by
        obtain ⟨r, hr, -⟩ := hp.applied _ ha
        have hnone : s.releases.get? u.releaseId = none := Table.get?_of_insert? releases
        rw [hnone] at hr
        cases hr
      have himages' := images_update hp
        (show (u.deployment d values hostname).id = d.id from rfl) (hid.symm ▸ hrows)
        (hid.symm ▸ hrows'.trans (congrArg _ hrows)) hy rfl rfl hnew rfl hi
      rcases himages' with hi | hi | hi | hi
      · exact retained_of_submitted (d := d) hp before hlive hbuild himages hi
      · exact retained_of_images (d := d) before hlive (.inl hi)
      · exact retained_of_images (d := d) before hlive (.inr hi)
      · exact hok c u d values rfl before hnorm i hi
    | delete d before leaving closed opened after releases =>
      rw [after, Option.some.injEq] at hd'
      subst hd'
      cases hlive
    | power r d before ready changes closed opened after releases =>
      rw [after, Option.some.injEq] at hd'
      subst hd'
      exact same d before hlive rfl (by rw [releases]) rfl rfl
    | provision d before pending after releases =>
      rw [after, Option.some.injEq] at hd'
      subst hd'
      exact same d before hlive rfl (by rw [releases]) rfl rfl
  · cases hw with
    | untouched x => exact same d' (x.deployment ▸ hd') hlive rfl (releasesByNumber_untouched x) rfl rfl
    | claimRelease w job d r turn before claimed row queued releases deployments =>
      exact same d' (deployments ▸ hd') hlive rfl (releasesByNumber_put? releases row rfl id) rfl rfl
    | claimPower w job session values release d p turn before claimed row queued powers deployments
        releases =>
      exact same d' (deployments ▸ hd') hlive rfl (by rw [releases]) rfl rfl
    | applyRelease w x job session d text action turn before cluster stage deployments releases =>
      exact same d' (deployments ▸ hd') hlive rfl (by rw [releases]) rfl rfl
    | recordOutcome w job d release power result turn before releases powers after =>
      rw [after, Option.some.injEq] at hd'
      subst hd'
      have hrows : releasesByNumber t.releases id = releasesByNumber s.releases id := by
        rcases releases with ⟨-, he⟩ | ⟨r, -, row, hput⟩
        · rw [he]
        · exact releasesByNumber_put? hput row rfl id
      by_cases hc : d.releaseToClaim.isSome ∧ result.status = .ready
      · obtain ⟨k, hk⟩ := Option.isSome_iff_exists.mp hc.1
        have hdes := desired_of_releaseToClaim hk
        have ha : (d.outcome result).appliedReleaseId = some d.desiredReleaseId :=
          (if_pos hc).trans (hk.trans (congrArg some hdes.symm))
        have hid : d.id = id := hid'
        exact retained_of_images (d := d) before hlive
          (images_applied (show (d.outcome result).id = d.id from rfl) (hid.symm ▸ hrows) ha rfl hi)
      · exact same d before hlive rfl hrows (if_neg hc) rfl

/-- a build that is fresh now was fresh before -/
theorem isFresh_mono {since since' : Time} {b : Build} (h : since' ≤ since)
    (hf : b.isFresh since = true) : b.isFresh since' = true := by
  simp only [Build.isFresh, Bool.or_eq_true, Bool.and_eq_true] at hf ⊢
  refine hf.imp_right fun hf => ⟨hf.1, ?_⟩
  cases hfin : b.finishedAt with
  | none =>
    rw [hfin] at hf
    cases hf.2
  | some finishedAt =>
    rw [hfin] at hf
    exact decide_eq_true (Nat.le_trans h (of_decide_eq_true hf.2))

/-- an image retained after a step was so before it, or the step recorded it -/
theorem retained_of_step (hl : Ledgered s) (hok : keepsWindow cfg s a) (h : step cfg s a = some t)
    (hi : retained cfg t owner i) :
    retained cfg s owner i ∨ ∃ k, a = .finishBuild k (some i) := by
  rcases retains_iff.mp hi with ⟨d, hd, ⟨rfl, hlive⟩, hi⟩ | ⟨b, hb, ⟨d, hd, hbd, rfl⟩, hfresh, himage⟩
  · exact .inl (images_of_step hl hok h (Table.get?_of_mem hd) hlive hi)
  rcases build_of_step h hb with ⟨b₀, hb₀, hid, hkept⟩ | ⟨hnone, -⟩
  · rcases hkept _ i hfresh himage with ⟨hfresh, himage⟩ | hfinish
    · refine .inl ?_
      obtain ⟨d₀, hd₀⟩ := hl.builds b₀ hb₀
      obtain ⟨d', hd', huser, -⟩ := (kept_of_step h).deployments _ d₀ hd₀
      have hsame : d' = d := by
        rw [hid, ← hbd, show d.id = Row.key d from rfl, Table.get?_of_mem hd] at hd'
        exact (Option.some.inj hd').symm
      refine retains_iff.mpr (.inr ⟨b₀, hb₀, ⟨d₀, Table.mem_of_get? hd₀, Table.key_of_get? hd₀,
        by rw [← huser, hsame]⟩, ?_, himage⟩)
      exact isFresh_mono (Nat.sub_le_sub_right (now_of_step h) _) hfresh
    · exact .inr hfinish
  · rw [Build.imageText, hnone] at himage
    cases himage

/-- **leaving retention is permanent** in orderly runs whose updates take nothing in that has left
it, until a build records the image -/
theorem retention_permanent
    (hs : (platform cfg).Reach (fun s a => orderly cfg s a ∧ keepsWindow cfg s a) .init s)
    (ht : (platform cfg).Reach (fun s a => (orderly cfg s a ∧ keepsWindow cfg s a) ∧
      ∀ k, a ≠ .finishBuild k (some i)) s t)
    (hi : ¬ retained cfg s owner i) : ¬ retained cfg t owner i := by
  have hl : Ledgered s := hs.invariant ledgered_init fun _ _ _ hl hok h => ledgered_step hl hok.1 h
  have hrun : Ledgered t ∧ ¬ retained cfg t owner i := by
    refine ht.invariant (P := fun u => Ledgered u ∧ ¬ retained cfg u owner i) ⟨hl, hi⟩ ?_
    rintro u a v ⟨hu, hi⟩ ⟨hok, hnot⟩ h
    refine ⟨ledgered_step hu hok.1 h, fun hv => ?_⟩
    rcases retained_of_step hu hok.2 h hv with hu | ⟨k, rfl⟩
    · exact hi hu
    · exact hnot k rfl
  exact hrun.2

/-- the check that decides `keepsWindow` -/
def keepsWindowCheck (cfg : Settings) (s : State) (a : Action) : Bool :=
  match a with
  | .update c u =>
    (s.deployments.get? u.id).all fun d => (u.normalized c d).all fun values =>
      (freedImages cfg.registryRetainedPastImages s.releases d values).all fun i =>
        (ownerRetention cfg s d.userId).retains i
  | _ => true

theorem keepsWindow_of_check (h : keepsWindowCheck cfg s a = true) : keepsWindow cfg s a := by
  rintro c u d values rfl hd hnorm i hi
  simp only [keepsWindowCheck, hd, hnorm, Option.all_some, List.all_eq_true] at h
  exact h i hi

/-- an image of user 7 -/
def imageSample (c : Char) : String := "7@sha256:" ++ String.ofList (List.replicate 64 c)

def valuesSample (c : Char) : Json := .obj [("image", .str (imageSample c))]

/-- a build of an image, and the update that deploys it -/
def deploySample (n : Nat) (c : Char) : List Action :=
  [.createBuild .sample ⟨7, 1, "artifact", n⟩, .claimBuild [],
    .finishBuild n (some (imageSample c)),
    .update .sample (.sample (some (valuesSample c)) n)] ++ Action.turn "w1" .clean

/-- four images deployed one after the other, and the grace of their builds over -/
def retentionRun : List Action :=
  .create .sample (.sample .null none) :: Action.turn "w1" .clean ++
    (deploySample 2 'a' ++ (deploySample 3 'b' ++ (deploySample 4 'c' ++ (deploySample 5 'd' ++
      [.tick 90000]))))

/-- the latest image is deployed again, and the one that has left retention stays out -/
theorem retention_permanent_again : ∃ s t, ¬ retained .sample s 7 (imageSample 'a') ∧
    ¬ retained .sample t 7 (imageSample 'a') ∧ t.status 1 = some .ready := by
  let again : List Action :=
    .update .sample (.sample (some (valuesSample 'd')) 6) :: Action.turn "w1" .clean
  let check := fun (s : State) (a : Action) => keepsWindowCheck .sample s a && !a.ofBuilds
  have hcheck : ∀ s a, check s a = true → keepsWindow .sample s a ∧ a.ofBuilds = false := by
    intro s a h
    rw [Bool.and_eq_true, Bool.not_eq_true'] at h
    exact ⟨keepsWindow_of_check h.1, h.2⟩
  obtain ⟨s, hs, hidle, hp⟩ := exists_orderly_of_runIf .sample (k := keepsWindow .sample)
    (c := keepsWindowCheck .sample) (fun _ _ => keepsWindow_of_check) (l := retentionRun)
    (p := fun s : State => !(ownerRetention .sample s 7).retains (imageSample 'a') &&
      ((platform .sample).runIf (fun s a => orderlyAmong .sample ["w1"] s a && check s a) s
        again).any fun t : State => decide (t.status 1 = some .ready))
    (onlyAmong_init ["w1"]) (by decide +kernel)
  rw [Bool.and_eq_true, Bool.not_eq_true'] at hp
  obtain ⟨t, ht, -, hready⟩ := exists_orderly_of_runIf .sample hcheck hidle hp.2
  have hi : ¬ retained .sample s 7 (imageSample 'a') := by
    rw [retained, hp.1]
    exact Bool.false_ne_true
  refine ⟨s, t, hi, retention_permanent hs (ht.mono fun s a h => ?_) hi, of_decide_eq_true hready⟩
  refine ⟨⟨h.1, h.2.1⟩, fun k he => ?_⟩
  rw [he] at h
  cases h.2.2

/-- an earlier image is deployed again, and an older one comes back with it -/
theorem retention_returns :
    ¬ ∀ s t owner i, (platform .sample).Reach (orderly .sample) .init s →
      (platform .sample).Reach (fun s a => orderly .sample s a ∧ a.ofBuilds = false) s t →
      ¬ retained .sample s owner i → ¬ retained .sample t owner i := by
  intro hall
  let u : UpdateRequest := .sample (some (valuesSample 'b')) 6
  obtain ⟨s, hs, -, hp⟩ := exists_orderly_of_runIf .sample (k := fun _ _ => True)
    (c := fun _ _ => true) (fun _ _ _ => trivial) (l := retentionRun)
    (p := fun s : State => !(ownerRetention .sample s 7).retains (imageSample 'a') &&
      (step .sample s (.update .sample u)).any fun t : State =>
        (ownerRetention .sample t 7).retains (imageSample 'a'))
    (onlyAmong_init ["w1"]) (by decide +kernel)
  rw [Bool.and_eq_true, Bool.not_eq_true', Option.any_eq_true] at hp
  obtain ⟨hi, t, ht, hback⟩ := hp
  refine hall s t 7 (imageSample 'a') (hs.mono fun _ _ h => h.1)
    (.tail (a := .update .sample u) .refl ⟨fun _ _ _ _ h => (nomatch h), rfl⟩ ht) ?_ hback
  rw [retained, hi]
  exact Bool.false_ne_true

end Freepod
