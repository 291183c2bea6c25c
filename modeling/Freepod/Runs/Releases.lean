import Freepod.Runs.Orderly

/-!
# The releases of a deployment, newest first

Retention reads a deployment's releases in the order of their numbers.  A step that inserts one
puts it in front, every other step leaves the order as it is; so the desired release is always the
first.

* `releasesByNumber_congr`: the order is determined by which rows there are.
* `releasesByNumber_insert?`: a release with the next number comes first.
* `build_of_step`: what a step does to the builds that keep an image.
* `ledgered_step`: the desired release is the newest, and every row is of a deployment.
-/

namespace Freepod
open Base

variable {cfg : Settings} {s t : State} {a : Action} {id : DeploymentId} {d : Deployment}
  {releases releases' : Table DeploymentRelease}

/-- what a release is to retention -/
def DeploymentRelease.entry (r : DeploymentRelease) : DeploymentId × ReleaseRow :=
  (r.deploymentId, r.row)

theorem mem_releasesByNumber {x : ReleaseRow} :
    x ∈ releasesByNumber releases id ↔ (id, x) ∈ releases.rows.map DeploymentRelease.entry := by
  simp only [releasesByNumber, List.mem_insertionSort, List.mem_map, List.mem_filter,
    decide_eq_true_eq, DeploymentRelease.entry, Prod.mk.injEq]
  constructor
  · rintro ⟨r, ⟨hr, hid⟩, hx⟩
    exact ⟨r, hr, hid, hx⟩
  · rintro ⟨r, hr, hid, hx⟩
    exact ⟨r, ⟨hr, hid⟩, hx⟩

theorem nodup_releasesByNumber (releases : Table DeploymentRelease) (id : DeploymentId) :
    ((releasesByNumber releases id).map ReleaseRow.id).Nodup := by
  have hperm := List.perm_insertionSort (fun a b : ReleaseRow => b.number ≤ a.number)
    ((releases.rows.filter fun r => r.deploymentId = id).map DeploymentRelease.row)
  refine (hperm.map ReleaseRow.id).nodup_iff.mpr ?_
  rw [List.map_map]
  exact (List.Sublist.map _ List.filter_sublist).nodup releases.keys

/-- no two releases of a deployment have the same number -/
theorem sorted_releasesByNumber (releases : Table DeploymentRelease) (id : DeploymentId) :
    (releasesByNumber releases id).Pairwise fun a b => b.number < a.number := by
  have htotal : Std.Total fun a b : ReleaseRow => b.number ≤ a.number :=
    ⟨fun a b => Nat.le_total b.number a.number⟩
  have htrans : IsTrans ReleaseRow fun a b => b.number ≤ a.number :=
    ⟨fun a b c h h' => Nat.le_trans h' h⟩
  have hsorted := List.pairwise_insertionSort (fun a b : ReleaseRow => b.number ≤ a.number)
    ((releases.rows.filter fun r => r.deploymentId = id).map DeploymentRelease.row)
  have hids : (releasesByNumber releases id).Pairwise fun a b => a.id ≠ b.id :=
    List.pairwise_map.mp (nodup_releasesByNumber releases id)
  refine (hsorted.and hids).imp_of_mem fun {x y} hx hy h => ?_
  refine Nat.lt_of_le_of_ne h.1 fun hnumber => h.2 ?_
  obtain ⟨r, hr, he⟩ := List.mem_map.mp (mem_releasesByNumber.mp hx)
  obtain ⟨r', hr', he'⟩ := List.mem_map.mp (mem_releasesByNumber.mp hy)
  rw [DeploymentRelease.entry, Prod.mk.injEq] at he he'
  obtain ⟨hd, rfl⟩ := he
  obtain ⟨hd', rfl⟩ := he'
  have hentry : (r.deploymentId, r.number) = (r'.deploymentId, r'.number) :=
    Prod.ext (hd.trans hd'.symm) hnumber.symm
  rw [Table.eq_of_entry hr hr' (List.mem_singleton.mpr rfl) (List.mem_singleton.mpr hentry)]

/-- **the order is determined by the rows** -/
theorem releasesByNumber_congr (h : ∀ x, (id, x) ∈ releases.rows.map DeploymentRelease.entry ↔
    (id, x) ∈ releases'.rows.map DeploymentRelease.entry) :
    releasesByNumber releases id = releasesByNumber releases' id := by
  have hirrefl : Std.Irrefl fun a b : ReleaseRow => b.number < a.number :=
    ⟨fun a => Nat.lt_irrefl a.number⟩
  have hasymm : Std.Asymm fun a b : ReleaseRow => b.number < a.number :=
    ⟨fun a b h h' => Nat.lt_asymm h h'⟩
  refine (sorted_releasesByNumber releases id).eq_of_mem_iff
    (sorted_releasesByNumber releases' id) fun {x} => ?_
  rw [mem_releasesByNumber, mem_releasesByNumber, h]

theorem releasesByNumber_untouched (h : Untouched s t id) :
    releasesByNumber t.releases id = releasesByNumber s.releases id := by
  refine releasesByNumber_congr fun x => ?_
  simp only [List.mem_map, DeploymentRelease.entry, Prod.mk.injEq]
  constructor
  · rintro ⟨r, hr, hd, hx⟩
    exact ⟨r, Table.mem_of_get? ((h.release _ r hd).mp (Table.get?_of_mem hr)), hd, hx⟩
  · rintro ⟨r, hr, hd, hx⟩
    exact ⟨r, Table.mem_of_get? ((h.release _ r hd).mpr (Table.get?_of_mem hr)), hd, hx⟩

/-- an overwrite of the columns the reconciler writes -/
theorem releasesByNumber_put? {r r' : DeploymentRelease}
    (hput : releases.put? r' = some releases') (hr : releases.get? r'.id = some r)
    (he : r'.entry = r.entry) (id : DeploymentId) :
    releasesByNumber releases' id = releasesByNumber releases id := by
  have hmap : releases'.rows.map DeploymentRelease.entry =
      releases.rows.map DeploymentRelease.entry := by
    rw [Table.put?_eq_some.mp hput]
    exact (Table.map_overwrite DeploymentRelease.entry hr).mpr he
  exact releasesByNumber_congr fun x => by rw [hmap]

/-- **a release with a number above the others comes first** -/
theorem releasesByNumber_insert? {r : DeploymentRelease}
    (hins : releases.insert? r = some releases')
    (hnumber : ∀ x ∈ releasesByNumber releases r.deploymentId, x.number < r.number) :
    releasesByNumber releases' r.deploymentId =
      r.row :: releasesByNumber releases r.deploymentId := by
  have hirrefl : Std.Irrefl fun a b : ReleaseRow => b.number < a.number :=
    ⟨fun a => Nat.lt_irrefl a.number⟩
  have hasymm : Std.Asymm fun a b : ReleaseRow => b.number < a.number :=
    ⟨fun a b h h' => Nat.lt_asymm h h'⟩
  refine (sorted_releasesByNumber releases' _).eq_of_mem_iff
    (List.pairwise_cons.mpr ⟨hnumber, sorted_releasesByNumber releases _⟩) fun {x} => ?_
  rw [mem_releasesByNumber, List.mem_cons, mem_releasesByNumber, Table.insert?_eq_some.mp hins,
    List.map_append, List.mem_append, List.map_singleton, List.mem_singleton, or_comm]
  refine or_congr_left ?_
  rw [DeploymentRelease.entry, Prod.mk.injEq]
  exact and_iff_right rfl

/-- the next number is read off the newest release -/
theorem nextReleaseNumber_eq (releases : Table DeploymentRelease) (id : DeploymentId) :
    nextReleaseNumber releases id =
      ((releasesByNumber releases id).map ReleaseRow.number).foldr max 0 + 1 := by
  have hcomm : LeftCommutative (max : Nat → Nat → Nat) := ⟨Nat.max_left_comm⟩
  have hperm := (List.perm_insertionSort (fun a b : ReleaseRow => b.number ≤ a.number)
    ((releases.rows.filter fun r => r.deploymentId = id).map DeploymentRelease.row)).map
      ReleaseRow.number
  rw [List.map_map] at hperm
  exact congrArg (· + 1) (hperm.foldr_eq 0).symm

theorem lt_nextReleaseNumber {x : ReleaseRow} (hx : x ∈ releasesByNumber releases id) :
    x.number < nextReleaseNumber releases id := by
  rw [nextReleaseNumber_eq]
  exact Nat.lt_succ_of_le (le_foldr_max (List.mem_map_of_mem hx))

/-! ## The invariant -/

/-- every release and build is of a deployment, and the desired release is the newest -/
structure Ledgered (s : State) : Prop where
  ordered : Ordered s
  releases : ∀ r ∈ s.releases.rows, ∃ d, s.deployments.get? r.deploymentId = some d
  builds : ∀ b ∈ s.builds.rows, ∃ d, s.deployments.get? b.deploymentId = some d
  newest : ∀ id d, s.deployments.get? id = some d →
    (releasesByNumber s.releases id).head?.map ReleaseRow.id = some d.desiredReleaseId

theorem ledgered_init : Ledgered .init where
  ordered := ordered_init
  releases := fun _ h => nomatch h
  builds := fun _ h => nomatch h
  newest := fun _ _ h => nomatch h

/-- a deployment that does not exist has no releases -/
theorem Ledgered.releasesByNumber_none (hl : Ledgered s) (hd : s.deployments.get? id = none) :
    releasesByNumber s.releases id = [] := by
  refine List.eq_nil_iff_forall_not_mem.mpr fun x hx => ?_
  obtain ⟨r, hr, he⟩ := List.mem_map.mp (mem_releasesByNumber.mp hx)
  rw [DeploymentRelease.entry, Prod.mk.injEq] at he
  obtain ⟨d, hrow⟩ := hl.releases r hr
  rw [he.1, hd] at hrow
  cases hrow

/-- the releases of a deployment after a step: as they were, or with the next one in front -/
theorem releasesByNumber_of_step (hl : Ledgered s) (h : step cfg s a = some t)
    (hd : t.deployments.get? id = some d) :
    (∃ x, s.deployments.get? id = some x ∧ d.desiredReleaseId = x.desiredReleaseId ∧
        releasesByNumber t.releases id = releasesByNumber s.releases id) ∨
      ∃ x : ReleaseRow, d.desiredReleaseId = x.id ∧ x.number = nextReleaseNumber s.releases id ∧
        releasesByNumber t.releases id = x :: releasesByNumber s.releases id := by
  rcases deploymentStep_of_step hl.ordered h id with hr | hw
  · cases hr with
    | untouched same =>
      exact .inl ⟨d, same.deployment ▸ hd, rfl, releasesByNumber_untouched same⟩
    | create r sub ns values hostname isPaid named before after releases =>
      rw [after, Option.some.injEq] at hd
      subst hd
      have hnone := hl.releasesByNumber_none before
      refine .inr ⟨_, rfl, ?_, releasesByNumber_insert? releases fun x hx => ?_⟩
      · rw [nextReleaseNumber_eq, hnone]
        rfl
      · have hx : x ∈ releasesByNumber s.releases id := hx
        rw [hnone] at hx
        cases hx
    | update u x values hostname buildId before settled closed opened after releases =>
      rw [after, Option.some.injEq] at hd
      subst hd
      exact .inr ⟨_, rfl, rfl, releasesByNumber_insert? releases fun x hx => lt_nextReleaseNumber hx⟩
    | delete x before leaving closed opened after releases =>
      rw [after, Option.some.injEq] at hd
      subst hd
      exact .inl ⟨x, before, rfl, by rw [releases]⟩
    | power r x before ready changes closed opened after releases =>
      rw [after, Option.some.injEq] at hd
      subst hd
      exact .inl ⟨x, before, rfl, by rw [releases]⟩
    | provision x before pending after releases =>
      rw [after, Option.some.injEq] at hd
      subst hd
      exact .inl ⟨x, before, rfl, by rw [releases]⟩
  · cases hw with
    | untouched same =>
      exact .inl ⟨d, same.deployment ▸ hd, rfl, releasesByNumber_untouched same⟩
    | claimRelease w job x r turn before claimed row queued releases deployments =>
      exact .inl ⟨d, deployments ▸ hd, rfl, releasesByNumber_put? releases row rfl id⟩
    | claimPower w job session values release x p turn before claimed row queued powers deployments
        releases =>
      exact .inl ⟨d, deployments ▸ hd, rfl, by rw [releases]⟩
    | applyRelease w x job session y text action turn before cluster stage deployments releases =>
      exact .inl ⟨d, deployments ▸ hd, rfl, by rw [releases]⟩
    | recordOutcome w job x release power result turn before releases powers after =>
      rw [after, Option.some.injEq] at hd
      subst hd
      refine .inl ⟨x, before, rfl, ?_⟩
      rcases releases with ⟨-, he⟩ | ⟨r, -, row, hput⟩
      · rw [he]
      · exact releasesByNumber_put? hput row rfl id

/-! ## Builds -/

/-- the steps that are not the builds' leave them alone, and the clock does not go back -/
theorem builds_of_other (h : step cfg s a = some t) (ha : a.ofBuilds = false) :
    t.builds = s.builds ∧ s.now ≤ t.now := by
  by_cases hc : a.isCore = true
  · have hsame := aside_of_core h hc
    exact ⟨hsame.builds, Nat.le_of_eq hsame.now.symm⟩
  cases a with
  | tick delta =>
    cases h
    exact ⟨rfl, Nat.le_add_right _ _⟩
  | create c r =>
    obtain ⟨values, hostname, ns, isPaid, subscriptions, deployments, releases, vars, price,
      payments, jobs, -, -, -, -, -, rfl⟩ := createDeployment_ok (toOption_eq_some.mp h)
    exact ⟨rfl, Nat.le_refl _⟩
  | webhook n =>
    obtain ⟨-, hbuilds, hnow⟩ := aside_of_webhook (toOption_eq_some.mp h)
    exact ⟨hbuilds, Nat.le_of_eq hnow.symm⟩
  | createBuild | claimBuild | recordBuildJob | finishBuild => cases ha
  | _ => exact absurd rfl hc

theorem now_of_step (h : step cfg s a = some t) : s.now ≤ t.now := by
  cases ha : a.ofBuilds with
  | false => exact (builds_of_other h ha).2
  | true =>
    obtain ⟨builds, rfl⟩ := builds_of_step h ha
    exact Nat.le_refl _

/-- the build has the image it keeps from `b₀`, or the step recorded it -/
def KeptBuild (a : Action) (b₀ b : Build) : Prop :=
  b₀.deploymentId = b.deploymentId ∧
    ∀ since i, b.isFresh since = true → b.imageText = some i →
      b₀.isFresh since = true ∧ b₀.imageText = some i ∨ ∃ k, a = .finishBuild k (some i)

theorem KeptBuild.refl (a : Action) (b : Build) : KeptBuild a b b :=
  ⟨rfl, fun _ _ hf hi => .inl ⟨hf, hi⟩⟩

/-- a build after a step was there, or is new and has no image -/
theorem build_of_step (h : step cfg s a = some t) {b : Build} (hb : b ∈ t.builds.rows) :
    (∃ b₀ ∈ s.builds.rows, KeptBuild a b₀ b) ∨
      b.image = none ∧ ∃ d, s.deployments.get? b.deploymentId = some d := by
  cases a with
  | createBuild c r =>
    rcases createBuild_ok (toOption_eq_some.mp h) with rfl | ⟨x, builds, hins, himage, hd, rfl⟩
    · exact .inl ⟨b, hb, .refl _ b⟩
    · rcases (Table.mem_insert? hins).mp hb with hb | rfl
      · exact .inl ⟨b, hb, .refl _ b⟩
      · exact .inr ⟨himage, hd⟩
  | claimBuild skipped =>
    obtain ⟨x, builds, hx, hqueued, hput, rfl⟩ := claimNextBuild_ok h
    rcases Table.mem_put? hput hb with rfl | ⟨hb, -⟩
    · refine .inl ⟨x, hx, rfl, fun since i _ hi => .inl ⟨?_, hi⟩⟩
      rw [Build.isFresh, hqueued]
      rfl
    · exact .inl ⟨b, hb, .refl _ b⟩
  | recordBuildJob id jobId =>
    obtain ⟨x, builds, hx, hput, rfl⟩ := recordBuildJob_ok h
    rcases Table.mem_put? hput hb with rfl | ⟨hb, -⟩
    · exact .inl ⟨x, Table.mem_of_get? hx, rfl, fun since i hf hi => .inl ⟨hf, hi⟩⟩
    · exact .inl ⟨b, hb, .refl _ b⟩
  | finishBuild k image =>
    obtain ⟨x, x', builds, hx, htrans, hput, rfl⟩ := finishBuild_ok (toOption_eq_some.mp h)
    rcases Table.mem_put? hput hb with rfl | ⟨hb, -⟩
    · obtain ⟨-, hd, hstatus, himage⟩ := transitionTo_ok htrans
      refine .inl ⟨x, Table.mem_of_get? hx, hd.symm, fun since i hf hi => .inr ⟨k, ?_⟩⟩
      cases image with
      | none =>
        -- a failed build is not fresh
        have hstatus : b.status = .failed := hstatus
        rw [Build.isFresh, hstatus] at hf
        cases hf
      | some j =>
        rw [Build.imageText, himage rfl] at hi
        simp only at hi
        split at hi
        · cases hi
        · rw [Option.some.inj hi]
    · exact .inl ⟨b, hb, .refl _ b⟩
  | _ => exact .inl ⟨b, (builds_of_other h rfl).1 ▸ hb, .refl _ b⟩

theorem ledgered_step (hl : Ledgered s) (hok : orderly cfg s a) (h : step cfg s a = some t) :
    Ledgered t where
  ordered := ordered_step hl.ordered hok h
  releases := fun r hr => by
    have hold : ∀ d, s.deployments.get? r.deploymentId = some d →
        ∃ d', t.deployments.get? r.deploymentId = some d' := fun d hd =>
      ((kept_of_step h).deployments _ d hd).imp fun _ hd' => hd'.1
    have hsame : Untouched s t r.deploymentId →
        ∃ d', t.deployments.get? r.deploymentId = some d' := fun same => by
      obtain ⟨d, hd⟩ := hl.releases r
        (Table.mem_of_get? ((same.release _ r rfl).mp (Table.get?_of_mem hr)))
      exact hold d hd
    rcases deploymentStep_of_step hl.ordered h r.deploymentId with hreq | hw
    · cases hreq with
      | untouched same => exact hsame same
      | create r sub ns values hostname isPaid named before after => exact ⟨_, after⟩
      | update u d values hostname buildId before => exact hold d before
      | delete d before => exact hold d before
      | power r d before => exact hold d before
      | provision d before => exact hold d before
    · cases hw with
      | untouched same => exact hsame same
      | claimRelease w job d r turn before => exact hold d before
      | claimPower w job session values release d p turn before => exact hold d before
      | applyRelease w x job session d text action turn before => exact hold d before
      | recordOutcome w job d release power result turn before => exact hold d before
  builds := fun b hb => by
    have hold : ∀ d, s.deployments.get? b.deploymentId = some d →
        ∃ d', t.deployments.get? b.deploymentId = some d' := fun d hd =>
      ((kept_of_step h).deployments _ d hd).imp fun _ hd' => hd'.1
    rcases build_of_step h hb with ⟨b₀, hb₀, he, -⟩ | ⟨-, d, hd⟩
    · obtain ⟨d, hd⟩ := hl.builds b₀ hb₀
      exact hold d (he ▸ hd)
    · exact hold d hd
  newest := fun id d hd => by
    rcases releasesByNumber_of_step hl h hd with ⟨x, hx, hdes, he⟩ | ⟨x, hdes, -, he⟩
    · rw [he, hdes]
      exact hl.newest id x hx
    · rw [he, hdes]
      rfl

end Freepod
