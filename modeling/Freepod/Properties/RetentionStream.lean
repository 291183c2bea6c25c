import Freepod.Platform.RetentionStream

/-!
# The write check and the prune apply one rule

The check reads one owner's fresh builds, the prune all builds of any owners, and the database
orders ties as it likes.

* `retention_split`: the walk over an owner's rows is the walk over the releases, and then over the
  builds.
* `lookup_foldl_buildRow`: what builds add, whatever their order.
* `retentions_agree`: both paths keep the same images for the same reasons, and the same builds.
-/

namespace Freepod
open Base

variable {l : Ledger} {owner : UserId} {owners : List UserId} {since : Time} {past : Nat}
  {freshOnly : Option Time} {rows : List StreamRow}

/-! ## What the query selects -/

def StreamRow.isRelease (r : StreamRow) : Bool := r.kind == 0

/-- the SQL and the Python test of a build are one -/
theorem freshOnly_eq_isFresh (b : Build) : b.freshOnly since = b.isFresh since := by
  unfold Build.freshOnly Build.isFresh
  cases b.finishedAt with
  | none => rfl
  | some t => rfl

theorem mem_releaseRows {row : StreamRow} : row ∈ l.releaseRows owners ↔
    ∃ d ∈ l.deployments.rows, (d.deletedAt = none ∧ d.userId ∈ owners) ∧
      ∃ r ∈ l.releases.rows, r.deploymentId = d.id ∧
        row = .release d.userId d.id (d.current r.id) r.number r.valuesJson := by
  simp only [Ledger.releaseRows, List.mem_flatMap, List.mem_filter, List.mem_map,
    decide_eq_true_eq]
  constructor
  · rintro ⟨d, ⟨hd, hlive⟩, r, ⟨hr, hrd⟩, rfl⟩
    exact ⟨d, hd, hlive, r, hr, hrd, rfl⟩
  · rintro ⟨d, hd, hlive, r, hr, hrd, rfl⟩
    exact ⟨d, ⟨hd, hlive⟩, r, ⟨hr, hrd⟩, rfl⟩

/-- a build of one of the owner's deployments, deleted ones included -/
def Ledger.ownBuild (l : Ledger) (owner : UserId) (b : Build) : Prop :=
  b ∈ l.builds.rows ∧ ∃ d ∈ l.deployments.rows, d.id = b.deploymentId ∧ d.userId = owner

theorem mem_buildRows {row : StreamRow} : row ∈ l.buildRows owners freshOnly ↔
    ∃ o ∈ owners, ∃ b, l.ownBuild o b ∧ (∀ since ∈ freshOnly, b.isFresh since = true) ∧
      row = .build o b := by
  have hall : ∀ b : Build, (freshOnly.all fun since => b.freshOnly since) = true ↔
      ∀ since ∈ freshOnly, b.isFresh since = true := by
    intro b
    simp [Option.all_eq_true, freshOnly_eq_isFresh]
  simp only [Ledger.buildRows, List.mem_flatMap, List.mem_filter, List.mem_map, hall,
    decide_eq_true_eq, Ledger.ownBuild]
  constructor
  · rintro ⟨b, ⟨hb, hf⟩, d, ⟨hd, hid, ho⟩, rfl⟩
    exact ⟨d.userId, ho, b, ⟨hb, d, hd, hid, rfl⟩, hf, rfl⟩
  · rintro ⟨o, ho, b, ⟨hb, d, hd, hid, rfl⟩, hf, rfl⟩
    exact ⟨b, ⟨hb, hf⟩, d, ⟨hd, hid, ho⟩, rfl⟩

theorem filter_isRelease_stream :
    (l.stream owners freshOnly).filter StreamRow.isRelease = l.releaseRows owners := by
  rw [Ledger.stream, List.filter_append, List.filter_eq_self.2, List.filter_eq_nil_iff.2,
    List.append_nil]
  · intro row hrow
    obtain ⟨o, -, b, -, -, rfl⟩ := mem_buildRows.1 hrow
    exact Bool.false_ne_true
  · intro row hrow
    obtain ⟨d, -, -, r, -, -, rfl⟩ := mem_releaseRows.1 hrow
    rfl

/-- the releases of one owner, of those of several -/
theorem filter_owner_releaseRows (h : owner ∈ owners) :
    (l.releaseRows owners).filter (fun r => r.owner = owner) = l.releaseRows [owner] := by
  unfold Ledger.releaseRows
  generalize l.deployments.rows = deployments
  induction deployments with
  | nil => rfl
  | cons d deployments ih =>
    have hown : ∀ rows : List DeploymentRelease, ∀ row ∈ rows.map fun r =>
        StreamRow.release d.userId d.id (d.current r.id) r.number r.valuesJson,
        row.owner = d.userId := by
      intro rows row hrow
      obtain ⟨r, -, rfl⟩ := List.mem_map.1 hrow
      rfl
    by_cases hd : d.deletedAt = none ∧ d.userId ∈ owners
    · rw [List.filter_cons_of_pos (by simpa using hd), List.flatMap_cons, List.filter_append, ih]
      by_cases ho : d.userId = owner
      · rw [List.filter_cons_of_pos (by simp [hd.1, ho]), List.flatMap_cons,
          List.filter_eq_self.2 fun row hrow => by simpa [ho] using hown _ row hrow]
      · rw [List.filter_cons_of_neg (by simp [ho]), List.filter_eq_nil_iff.2 fun row hrow => by
          simpa [hown _ row hrow] using ho, List.nil_append]
    · have hd' : ¬(d.deletedAt = none ∧ d.userId ∈ [owner]) := by
        intro h'
        exact hd ⟨h'.1, List.mem_singleton.1 h'.2 ▸ h⟩
      rw [List.filter_cons_of_neg (by simpa using hd), List.filter_cons_of_neg (by simpa using hd'),
        ih]

/-- releases that sort alike are one -/
theorem eq_of_sortKey {a b : StreamRow} (ha : a ∈ l.releaseRows owners)
    (hb : b ∈ l.releaseRows owners) (h : a.sortKey = b.sortKey) : a = b := by
  obtain ⟨d, hd, -, r, hr, hrd, rfl⟩ := mem_releaseRows.1 ha
  obtain ⟨d', hd', -, r', hr', hrd', rfl⟩ := mem_releaseRows.1 hb
  simp only [StreamRow.sortKey, toLex_inj, Prod.mk.injEq, OrderDual.toDual_inj, true_and] at h
  obtain ⟨-, hid, -, hnumber⟩ := h
  have hdd : d = d' := Table.eq_of_key hd hd' hid
  have hrr : r = r' := by
    refine Table.eq_of_entry (e := (r.deploymentId, r.number)) hr hr' List.mem_cons_self ?_
    rw [hrd, hid, ← hrd', hnumber]
    exact List.mem_cons_self
  rw [hdd, hrr]

/-! ## Rows in order -/

/-- the first two columns of the order -/
theorem sortKey_columns {a b : StreamRow} (h : a.sortKey ≤ b.sortKey) :
    a.owner < b.owner ∨ a.owner = b.owner ∧ a.kind ≤ b.kind := by
  have hkind : ∀ {k k' : Nat} {x y : DeploymentId ×ₗ Natᵒᵈ ×ₗ Natᵒᵈ},
      toLex (k, x) ≤ toLex (k', y) → k ≤ k' := by
    intro k k' x y hle
    rw [Prod.Lex.toLex_le_toLex] at hle
    obtain hlt | ⟨heq, -⟩ := hle
    · exact le_of_lt hlt
    · exact le_of_eq heq
  cases a with
  | release =>
    cases b with
    | release => exact (Prod.Lex.toLex_le_toLex.1 h).imp_right (And.imp_right hkind)
    | build => exact (Prod.Lex.toLex_le_toLex.1 h).imp_right (And.imp_right hkind)
  | build =>
    cases b with
    | release => exact (Prod.Lex.toLex_le_toLex.1 h).imp_right (And.imp_right hkind)
    | build => exact (Prod.Lex.toLex_le_toLex.1 h).imp_right (And.imp_right hkind)

theorem owner_le_of_sortKey {a b : StreamRow} (h : a.sortKey ≤ b.sortKey) : a.owner ≤ b.owner := by
  obtain hlt | ⟨heq, -⟩ := sortKey_columns h
  · exact le_of_lt hlt
  · exact le_of_eq heq

/-- an owner's releases come before the builds -/
theorem isRelease_of_sortKey {a b : StreamRow} (h : a.sortKey ≤ b.sortKey)
    (ho : a.owner = b.owner) (hb : b.isRelease = true) : a.isRelease = true := by
  have hkind : a.kind ≤ b.kind := by
    obtain hlt | ⟨-, hle⟩ := sortKey_columns h
    · exact absurd ho (ne_of_lt hlt)
    · exact hle
  rw [StreamRow.isRelease, beq_iff_eq] at hb ⊢
  omega

/-! ## The walk over an owner's rows -/

namespace Stream

/-- **first the releases, then the builds** -/
theorem retention_split (hrows : rows.Pairwise fun a b => b.isRelease = true → a.isRelease = true) :
    retention owner rows past since =
      (rows.filter fun r => !r.isRelease).foldl (buildRow since)
        (retention owner (rows.filter StreamRow.isRelease) past since) := by
  have hrelease : ∀ r ∈ rows.filter StreamRow.isRelease, r.kind = 0 := by
    intro r hr
    simpa [StreamRow.isRelease] using (List.mem_filter.1 hr).2
  have hbuild : ∀ r ∈ rows.filter (fun r => !r.isRelease), (r.kind, r.deploymentId) = (1, none) := by
    intro r hr
    have hr := (List.mem_filter.1 hr).2
    cases r with
    | release => exact absurd hr Bool.false_ne_true
    | build => rfl
  conv_lhs => rw [← filter_append_filter hrows]
  rw [retention, retention, groupBy_append, List.foldl_append]
  · by_cases hne : (rows.filter fun r => !r.isRelease) = []
    · rw [hne]
      rfl
    · rw [groupBy_const hne hbuild]
      rfl
  · intro a ha b hb heq
    rw [hbuild b hb, Prod.mk.injEq, hrelease a ha] at heq
    exact absurd heq.1 (by decide)

/-- the releases keep no build -/
theorem freshBuilds_releases (h : ∀ r ∈ rows, r.isRelease = true) :
    (retention owner rows past since).freshBuilds = [] := by
  unfold retention
  have hkind : ∀ g ∈ groupBy (fun r : StreamRow => (r.kind, r.deploymentId)) rows, g.1.1 = 0 := by
    intro g hg
    obtain ⟨r, hr, hk⟩ := mem_of_groupBy hg
    rw [← hk]
    simpa [StreamRow.isRelease] using h r hr
  suffices hfold : ∀ gs : List ((Nat × Option DeploymentId) × List StreamRow),
      (∀ g ∈ gs, g.1.1 = 0) → ∀ r : Retention, (gs.foldl (group owner past since) r).freshBuilds =
        r.freshBuilds from hfold _ hkind _
  intro gs
  induction gs with
  | nil => exact fun _ _ => rfl
  | cons g gs ih =>
    intro hg r
    rw [List.foldl_cons, ih fun x hx => hg x (List.mem_cons_of_mem _ hx), group,
      if_neg (by rw [hg g List.mem_cons_self]; decide)]

/-- some of the rows is a fresh build that recorded the image -/
def FreshImage (since : Time) (rows : List StreamRow) (i : String) : Prop :=
  ∃ o b, .build o b ∈ rows ∧ b.isFresh since = true ∧ b.imageText = some i

/-- a fresh build labels an image that has no stronger reason -/
theorem lookup_label_fresh (images : List (String × RetentionReason)) (image i : String) :
    (label images image .fresh).lookup i =
      if image = i then (images.lookup i).or (some .fresh) else images.lookup i := by
  unfold label
  cases h : images.lookup image with
  | none =>
    simp only [lookup_setKey, eq_comm (a := i)]
    by_cases hi : image = i
    · rw [if_pos hi, if_pos hi, ← hi, h, Option.none_or]
    · rw [if_neg hi, if_neg hi]
  | some reason =>
    simp only [RetentionReason.rank, Nat.not_lt_zero, if_false]
    by_cases hi : image = i
    · rw [if_pos hi, ← hi, h, Option.some_or]
    · rw [if_neg hi]

open Classical in
/-- **what builds add to the images** -/
theorem lookup_foldl_buildRow (rows : List StreamRow) (r : Retention) (i : String) :
    (rows.foldl (buildRow since) r).images.lookup i =
      if FreshImage since rows i then (r.images.lookup i).or (some .fresh)
      else r.images.lookup i := by
  induction rows generalizing r with
  | nil =>
    rw [if_neg]
    · rfl
    · rintro ⟨o, b, hmem, -⟩
      cases hmem
  | cons row rows ih =>
    rw [List.foldl_cons, ih]
    have hcons : FreshImage since (row :: rows) i ↔
        FreshImage since [row] i ∨ FreshImage since rows i := by
      simp only [FreshImage, List.mem_cons, List.not_mem_nil, or_false, or_and_right, exists_or]
    have hrow : (buildRow since r row).images.lookup i =
        if FreshImage since [row] i then (r.images.lookup i).or (some .fresh)
        else r.images.lookup i := by
      cases row with
      | release =>
        rw [if_neg]
        · rfl
        · rintro ⟨o, b, hmem, -⟩
          cases List.mem_singleton.1 hmem
      | build o b =>
        have hfresh : FreshImage since [.build o b] i ↔
            b.isFresh since = true ∧ b.imageText = some i := by
          simp [FreshImage]
        simp only [hfresh]
        show (retentionBuild since r b).images.lookup i = _
        unfold retentionBuild
        by_cases hb : b.isFresh since = true
        · rw [if_pos hb]
          cases himage : b.imageText with
          | none => simp
          | some image =>
            simp only [lookup_label_fresh, hb, true_and, Option.some.injEq]
        · simp [hb]
    rw [hrow]
    by_cases h1 : FreshImage since [row] i
    · by_cases h2 : FreshImage since rows i
      · simp [hcons, h1, h2]
      · simp [hcons, h1, h2]
    · by_cases h2 : FreshImage since rows i
      · simp [hcons, h1, h2]
      · simp [hcons, h1, h2]

/-- **the builds that are kept** -/
theorem mem_freshBuilds_foldl (rows : List StreamRow) (r : Retention) (id : BuildId) :
    id ∈ (rows.foldl (buildRow since) r).freshBuilds ↔
      id ∈ r.freshBuilds ∨ ∃ o b, .build o b ∈ rows ∧ b.isFresh since = true ∧ b.id = id := by
  induction rows generalizing r with
  | nil => simp
  | cons row rows ih =>
    rw [List.foldl_cons, ih]
    cases row with
    | release => simp [buildRow]
    | build o b =>
      have hbuild : id ∈ (buildRow since r (.build o b)).freshBuilds ↔
          b.isFresh since = true ∧ b.id = id ∨ id ∈ r.freshBuilds := by
        show id ∈ (retentionBuild since r b).freshBuilds ↔ _
        unfold retentionBuild
        by_cases hb : b.isFresh since = true
        · simp [hb, eq_comm]
        · simp [hb]
      rw [hbuild]
      simp only [List.mem_cons, StreamRow.build.injEq, or_and_right, exists_or, and_assoc,
        exists_and_left, exists_eq_left]
      tauto

/-! ## One answer, and two -/

/-- the rows of one owner -/
def ownRows (owner : UserId) (rows : List StreamRow) : List StreamRow :=
  rows.filter fun r => r.owner = owner

section
variable (h : Answers l owners freshOnly rows)
include h

theorem ownRows_releasesFirst :
    (ownRows owner rows).Pairwise fun a b => b.isRelease = true → a.isRelease = true := by
  refine (h.sorted.filter _).imp_of_mem fun {a b} ha hb hab hrel => ?_
  have ho : ∀ {r}, r ∈ ownRows owner rows → r.owner = owner := fun hr => by
    simpa using (List.mem_filter.1 hr).2
  exact isRelease_of_sortKey hab ((ho ha).trans (ho hb).symm) hrel

theorem ownRows_releases (howner : owner ∈ owners) :
    ((ownRows owner rows).filter StreamRow.isRelease).Perm (l.releaseRows [owner]) := by
  rw [ownRows, List.filter_comm, ← filter_owner_releaseRows howner,
    ← @filter_isRelease_stream l owners freshOnly]
  exact (h.perm.filter _).filter _

theorem mem_ownRows_build {o : UserId} {b : Build} :
    .build o b ∈ ownRows owner rows ↔
      o = owner ∧ owner ∈ owners ∧ l.ownBuild owner b ∧
        ∀ since ∈ freshOnly, b.isFresh since = true := by
  rw [ownRows, List.mem_filter, h.perm.mem_iff, Ledger.stream, List.mem_append, mem_buildRows,
    decide_eq_true_eq]
  constructor
  · rintro ⟨hmem | ⟨o', ho', b', hb', hf, heq⟩, ho⟩
    · obtain ⟨d, -, -, r, -, -, heq⟩ := mem_releaseRows.1 hmem
      cases heq
    · cases heq
      have ho : o = owner := ho
      rw [ho] at ho' hb'
      exact ⟨ho, ho', hb', hf⟩
  · rintro ⟨rfl, ho, hb, hf⟩
    exact ⟨.inr ⟨o, ho, b, hb, hf, rfl⟩, rfl⟩

/-- the fresh builds among the rows are all of the owner's -/
theorem mem_ownRows_fresh (howner : owner ∈ owners) (hsince : ∀ t ∈ freshOnly, t = since)
    {p : Build → Prop} :
    (∃ o b, .build o b ∈ (ownRows owner rows).filter (fun r => !r.isRelease) ∧
        b.isFresh since = true ∧ p b) ↔
      ∃ b, l.ownBuild owner b ∧ b.isFresh since = true ∧ p b := by
  constructor
  · rintro ⟨o, b, hmem, hf, hp⟩
    obtain ⟨-, -, hb, -⟩ := (mem_ownRows_build h).1 (List.mem_filter.1 hmem).1
    exact ⟨b, hb, hf, hp⟩
  · rintro ⟨b, hb, hf, hp⟩
    refine ⟨owner, b, List.mem_filter.2 ⟨(mem_ownRows_build h).2 ⟨rfl, howner, hb, ?_⟩, rfl⟩, hf, hp⟩
    intro t ht
    rw [hsince t ht]
    exact hf

open Classical in
/-- **the images of an owner**: what the walk over the releases keeps, and the fresh builds' -/
theorem lookup_retention_ownRows (howner : owner ∈ owners) (hsince : ∀ t ∈ freshOnly, t = since)
    (i : String) :
    (retention owner (ownRows owner rows) past since).images.lookup i =
      if ∃ b, l.ownBuild owner b ∧ b.isFresh since = true ∧ b.imageText = some i then
        ((retention owner ((ownRows owner rows).filter StreamRow.isRelease) past
          since).images.lookup i).or (some .fresh)
      else
        (retention owner ((ownRows owner rows).filter StreamRow.isRelease) past
          since).images.lookup i := by
  rw [retention_split (ownRows_releasesFirst h), lookup_foldl_buildRow, FreshImage,
    ← mem_ownRows_fresh h howner hsince]

/-- **the fresh builds of an owner** -/
theorem mem_retention_ownRows (howner : owner ∈ owners) (hsince : ∀ t ∈ freshOnly, t = since)
    (id : BuildId) :
    id ∈ (retention owner (ownRows owner rows) past since).freshBuilds ↔
      ∃ b, l.ownBuild owner b ∧ b.isFresh since = true ∧ b.id = id := by
  rw [retention_split (ownRows_releasesFirst h), mem_freshBuilds_foldl,
    freshBuilds_releases fun r hr => (List.mem_filter.1 hr).2, ← mem_ownRows_fresh h howner hsince]
  exact or_iff_right List.not_mem_nil

end

/-- the releases of an owner come in one order only -/
theorem ownRows_releases_unique {owners' : List UserId} {freshOnly' : Option Time}
    {rows' : List StreamRow} (h : Answers l owners freshOnly rows)
    (h' : Answers l owners' freshOnly' rows') (howner : owner ∈ owners) (howner' : owner ∈ owners') :
    (ownRows owner rows).filter StreamRow.isRelease =
      (ownRows owner rows').filter StreamRow.isRelease := by
  have hp := ownRows_releases h howner
  have hp' := ownRows_releases h' howner'
  refine List.Perm.eq_of_pairwise (fun a b ha hb hab hba => ?_) ((h.sorted.filter _).filter _)
    ((h'.sorted.filter _).filter _) (hp.trans hp'.symm)
  exact eq_of_sortKey (hp.subset ha) (hp'.subset hb) (le_antisymm hab hba)

/-! ## The two callers -/

variable {cfg : Settings} {now : Time}

theorem owner_mem_of_answers (h : Answers l owners freshOnly rows) {r : StreamRow}
    (hr : r ∈ rows) : r.owner ∈ owners := by
  obtain hr | hr := List.mem_append.1 (h.perm.subset hr)
  · obtain ⟨d, -, ⟨-, ho⟩, x, -, -, rfl⟩ := mem_releaseRows.1 hr
    exact ho
  · obtain ⟨o, ho, b, -, -, rfl⟩ := mem_buildRows.1 hr
    exact ho

theorem mem_allRetentions (h : Answers l owners freshOnly rows) {r : Retention} :
    (owner, r) ∈ allRetentions cfg owners rows now ↔
      ownRows owner rows ≠ [] ∧
        r = retention owner (ownRows owner rows) cfg.registryRetainedPastImages
          (graceStart cfg now) := by
  have hgroup : ∀ g, (owner, g) ∈ groupBy StreamRow.owner rows ↔
      g ≠ [] ∧ g = ownRows owner rows := fun g =>
    mem_groupBy_iff (h.sorted.imp owner_le_of_sortKey)
  unfold allRetentions
  by_cases hnil : owners = []
  · rw [if_pos hnil]
    refine iff_of_false List.not_mem_nil fun hr => hr.1 ?_
    refine List.filter_eq_nil_iff.2 fun x hx => ?_
    have ho := owner_mem_of_answers h hx
    rw [hnil] at ho
    cases ho
  · rw [if_neg hnil, List.mem_map]
    constructor
    · rintro ⟨⟨o, g⟩, hg, heq⟩
      obtain ⟨ho, hr⟩ : o = owner ∧
          retention o g cfg.registryRetainedPastImages (graceStart cfg now) = r :=
        Prod.mk.inj heq
      rw [ho] at hg hr
      obtain ⟨hne, hg⟩ := (hgroup g).1 hg
      rw [hg] at hr hne
      exact ⟨hne, hr.symm⟩
    · rintro ⟨hne, rfl⟩
      exact ⟨(owner, ownRows owner rows), (hgroup _).2 ⟨hne, rfl⟩, rfl⟩

/-- the check's own query answers for one owner -/
theorem ownerRetention_eq (h : Answers l [owner] freshOnly rows) :
    ownerRetention cfg owner rows now =
      retention owner (ownRows owner rows) cfg.registryRetainedPastImages (graceStart cfg now) := by
  have hown : ∀ r ∈ rows, r.owner = owner := fun r hr =>
    List.mem_singleton.1 (owner_mem_of_answers h hr)
  have hrows : ownRows owner rows = rows :=
    List.filter_eq_self.2 fun r hr => by simpa using hown r hr
  rw [hrows, ownerRetention, allRetentions, if_neg (by simp)]
  by_cases hne : rows = []
  · rw [hne]
    rfl
  · rw [groupBy_const hne hown]
    rfl

/-- the same images for the same reasons, and the same builds -/
structure Agree (r r' : Retention) : Prop where
  images : ∀ i, r.images.lookup i = r'.images.lookup i
  freshBuilds : ∀ id, id ∈ r.freshBuilds ↔ id ∈ r'.freshBuilds

/-- **the write check and the prune apply the same rule** -/
theorem retentions_agree {rows' : List StreamRow}
    (hcheck : Answers l [owner] (some (graceStart cfg now)) rows)
    (hprune : Answers l owners none rows') :
    (∀ r, (owner, r) ∈ retentions cfg owners rows' now →
      Agree (ownerRetention cfg owner rows now) r) ∧
    (owner ∈ owners → (∀ r, (owner, r) ∉ retentions cfg owners rows' now) →
      ownerRetention cfg owner rows now = .empty) ∧
    ∀ b, l.ownBuild owner b → (b.isFresh (graceStart cfg now) = true ↔
      b.id ∈ (ownerRetention cfg owner rows now).freshBuilds) := by
  have hone : owner ∈ [owner] := List.mem_singleton_self owner
  have hsome : ∀ t ∈ some (graceStart cfg now), t = graceStart cfg now := fun t ht =>
    (Option.mem_some_iff.1 ht).symm
  have hnone : ∀ t ∈ (none : Option Time), t = graceStart cfg now := fun t ht => nomatch ht
  rw [ownerRetention_eq hcheck]
  refine ⟨fun r hr => ?_, fun howner hno => ?_, fun b hb => ?_⟩
  · obtain ⟨hne, rfl⟩ := (mem_allRetentions hprune).1 hr
    obtain ⟨x, hx⟩ := List.exists_mem_of_ne_nil _ hne
    have howner : owner ∈ owners := by
      rw [ownRows, List.mem_filter, decide_eq_true_eq] at hx
      exact hx.2 ▸ owner_mem_of_answers hprune hx.1
    constructor
    · intro i
      rw [lookup_retention_ownRows hcheck hone hsome,
        lookup_retention_ownRows hprune howner hnone,
        ownRows_releases_unique hcheck hprune hone howner]
    · intro id
      rw [mem_retention_ownRows hcheck hone hsome, mem_retention_ownRows hprune howner hnone]
  · -- no group was streamed, so the owner has no row, and the check's answer is empty too
    have hnil : ownRows owner rows' = [] := by
      by_contra hne
      exact hno _ ((mem_allRetentions hprune).2 ⟨hne, rfl⟩)
    have hrows : ownRows owner rows = [] := by
      refine List.eq_nil_iff_forall_not_mem.2 fun x hx => ?_
      cases x with
      | release o d c n v =>
        have hx := List.mem_filter.2 ⟨hx, (rfl : StreamRow.isRelease (.release o d c n v) = true)⟩
        rw [ownRows_releases_unique hcheck hprune hone howner, hnil] at hx
        cases hx
      | build o b =>
        obtain ⟨-, -, hb, -⟩ := (mem_ownRows_build hcheck).1 hx
        have hmem := (mem_ownRows_build hprune).2 ⟨rfl, howner, hb, fun t ht => nomatch ht⟩
        rw [hnil] at hmem
        cases hmem
    rw [hrows]
    rfl
  · rw [mem_retention_ownRows hcheck hone hsome]
    constructor
    · intro hf
      exact ⟨b, hb, hf, rfl⟩
    · rintro ⟨b', hb', hf, hid⟩
      rw [← Table.eq_of_key hb'.1 hb.1 hid]
      exact hf

/-! ## A ledger -/

/-- one way the database may order the rows -/
def sortedStream (l : Ledger) (owners : List UserId) (freshOnly : Option Time) : List StreamRow :=
  (l.stream owners freshOnly).insertionSort fun a b => a.sortKey ≤ b.sortKey

theorem answers_sortedStream (l : Ledger) (owners : List UserId) (freshOnly : Option Time) :
    Answers l owners freshOnly (sortedStream l owners freshOnly) := by
  have htotal : Std.Total fun a b : StreamRow => a.sortKey ≤ b.sortKey := ⟨fun _ _ => le_total _ _⟩
  have htrans : IsTrans StreamRow fun a b => a.sortKey ≤ b.sortKey := ⟨fun _ _ _ => le_trans⟩
  exact ⟨List.perm_insertionSort _ _, List.pairwise_insertionSort _ _⟩

def sampleDeployment : Deployment where
  id := 1
  userId := 7
  subscriptionId := 1
  name := "notes"
  ns := "notes-1"
  hostname := none
  status := .ready
  desiredTemplateId := 1
  appliedTemplateId := some 1
  desiredReleaseId := 1
  appliedReleaseId := some 1
  desiredPowerId := none
  appliedPowerId := none
  userValuesJson := .null
  generation := 1
  lastError := none
  lastReconcileAt := none
  createdAt := 0
  deletedAt := none

def sampleRelease : DeploymentRelease where
  id := 1
  number := 1
  deploymentId := 1
  templateId := 1
  buildId := none
  valuesJson := .obj [("image", .str ("7@sha256:" ++ String.ofList (List.replicate 64 'a')))]
  createdAt := 0
  startedAt := none
  endedAt := none
  error := none
  helmRevision := none

def sampleBuild (id : BuildId) (finishedAt : Time) : Build where
  id := id
  deploymentId := 1
  artifactId := toString id
  status := .succeeded
  createdAt := 0
  startedAt := none
  finishedAt := some finishedAt
  jobId := none
  image := some "7@sha256:b"

/-- an owner with one release, a build of today and one of long ago -/
def sampleLedger : Ledger where
  deployments := ⟨[sampleDeployment], by decide, by decide⟩
  releases := ⟨[sampleRelease], by decide, by decide⟩
  builds := ⟨[sampleBuild 1 900, sampleBuild 2 10], by decide, by decide⟩

def sampleSettings : Settings where
  reconcileJobLease := 60
  registryRetainedPastImages := 3
  registryPruneGrace := 200
  varKeyIds := []

theorem retentions_agree_sample :
    ∃ r, (7, r) ∈ retentions sampleSettings [3, 7] (sortedStream sampleLedger [3, 7] none) 1000 ∧
      Agree (ownerRetention sampleSettings 7 (sortedStream sampleLedger [7] (some 800)) 1000) r := by
  have hprune := answers_sortedStream sampleLedger [3, 7] none
  have h := @retentions_agree _ _ _ _ sampleSettings 1000 _
    (answers_sortedStream sampleLedger [7] (some 800)) hprune
  have hrows : ownRows 7 (sortedStream sampleLedger [3, 7] none) ≠ [] := by decide +kernel
  have hmem := (@mem_allRetentions _ _ _ _ _ sampleSettings 1000 hprune _).2 ⟨hrows, rfl⟩
  exact ⟨_, hmem, h.1 _ hmem⟩

end Stream

end Freepod
