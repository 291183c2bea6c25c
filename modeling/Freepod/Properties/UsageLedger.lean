import Freepod.Platform.UsageSampler
import Freepod.Properties.UsagePasses

/-!
# The usage ledger under concurrent transactions

* `Sound`: a subject has one id, in the ledger and in every transaction that has written it, and no
  two transactions have written one subject.
* `Sound.write` and `Sound.commit` keep it, so a commit never meets a sample of the same key, and
  never takes back what another transaction has committed.
-/

namespace Freepod.Usage.Sampler

open Base

/-- what an upsert may do to a row: the attribution is filled in, never cleared -/
def SubjectRow.Kept (row row' : SubjectRow) : Prop :=
  row'.id = row.id ∧ row'.ns = row.ns ∧ row'.firstSeenAt = row.firstSeenAt ∧
    ∀ d, row.deploymentId = some d → row'.deploymentId = some d

theorem SubjectRow.Kept.refl (row : SubjectRow) : row.Kept row := ⟨rfl, rfl, rfl, fun _ h => h⟩

theorem SubjectRow.Kept.trans {row row' row'' : SubjectRow} (h : row.Kept row')
    (h' : row'.Kept row'') : row.Kept row'' :=
  ⟨h'.1.trans h.1, h'.2.1.trans h.2.1, h'.2.2.1.trans h.2.2.1,
    fun d hd => h'.2.2.2 d (h.2.2.2 d hd)⟩

/-- a row the ledger or a transaction has for a subject -/
def Names (l : Ledger) (txs : Nat → Transaction) (k : SubjectKey) (row : SubjectRow) : Prop :=
  l.subjects k = some row ∨ ∃ i, (txs i).subjects k = some row

/-- what holds of the ledger and the transactions under way -/
structure Sound (l : Ledger) (txs : Nat → Transaction) : Prop where
  ids : ∀ k k' row row', Names l txs k row → Names l txs k' row' → row.id = row'.id → k = k'
  bound : ∀ k row, Names l txs k row → row.id < l.nextId
  locks : ∀ i j k row row', (txs i).subjects k = some row → (txs j).subjects k = some row' → i = j
  kept : ∀ i k row row', l.subjects k = some row → (txs i).subjects k = some row' → row.Kept row'
  rows : ∀ r ∈ l.samples, ∃ k row, l.subjects k = some row ∧ row.id = r.subject
  held : ∀ i, ∀ r ∈ (txs i).samples, ∃ k row, (txs i).subjects k = some row ∧ row.id = r.subject
  keys : ∀ i, ((l.samples ++ (txs i).samples).map SampleRow.key).Nodup

variable {l : Ledger} {txs txs' : Nat → Transaction} {i : Nat}

/-- a transaction that has ended, and one that has not begun, has written nothing -/
theorem Sound.of_sub (h : Sound l txs) (hsub : ∀ i, txs' i = txs i ∨ txs' i = .empty) :
    Sound l txs' := by
  have hsubject : ∀ i k row, (txs' i).subjects k = some row → (txs i).subjects k = some row := by
    intro i k row hk
    obtain he | he := hsub i
    · rw [← he]
      exact hk
    · rw [he] at hk
      cases hk
  have hnames : ∀ k row, Names l txs' k row → Names l txs k row := by
    intro k row hk
    obtain hk | ⟨i, hk⟩ := hk
    · exact .inl hk
    · exact .inr ⟨i, hsubject i k row hk⟩
  constructor
  · intro k k' row row' hk hk' he
    exact h.ids k k' row row' (hnames k row hk) (hnames k' row' hk') he
  · intro k row hk
    exact h.bound k row (hnames k row hk)
  · intro i j k row row' hi hj
    exact h.locks i j k row row' (hsubject i k row hi) (hsubject j k row' hj)
  · intro i k row row' hk hi
    exact h.kept i k row row' hk (hsubject i k row' hi)
  · exact h.rows
  · intro i r hr
    obtain he | he := hsub i
    · rw [he] at hr ⊢
      exact h.held i r hr
    · rw [he] at hr
      cases hr
  · intro i
    obtain he | he := hsub i
    · rw [he]
      exact h.keys i
    · rw [he]
      show ((l.samples ++ []).map SampleRow.key).Nodup
      rw [List.append_nil]
      have hk := h.keys i
      rw [List.map_append] at hk
      exact (List.nodup_append.mp hk).1

/-! ## the subjects of a chunk -/

/-- the row an upsert leaves for its subject -/
def upserted (l : Ledger) (tx : Transaction) (observedAt : Int) (spec : SubjectSpec) : SubjectRow :=
  match (tx.subjects spec.key).or (l.subjects spec.key) with
  | some row => { row with
      lastSeenAt := observedAt
      deploymentId := row.deploymentId.or spec.deploymentId }
  | none => ⟨l.nextId, spec.ns, spec.deploymentId, observedAt, observedAt⟩

/-- the transaction after one upsert -/
def upsertedTx (l : Ledger) (tx : Transaction) (observedAt : Int) (spec : SubjectSpec) :
    Transaction :=
  ⟨Function.update tx.subjects spec.key (some (upserted l tx observedAt spec)), tx.samples⟩

theorem upserted_kept {tx : Transaction} (observedAt : Int) {spec : SubjectSpec}
    {row : SubjectRow} (h : (tx.subjects spec.key).or (l.subjects spec.key) = some row) :
    row.Kept (upserted l tx observedAt spec) := by
  unfold upserted
  rw [h]
  refine ⟨rfl, rfl, rfl, ?_⟩
  intro d hd
  show row.deploymentId.or spec.deploymentId = some d
  rw [hd]
  rfl

theorem upserted_fresh {tx : Transaction} {observedAt : Int} {spec : SubjectSpec}
    (h : (tx.subjects spec.key).or (l.subjects spec.key) = none) :
    (upserted l tx observedAt spec).id = l.nextId := by
  unfold upserted
  rw [h]

theorem upserted_deployment (l : Ledger) (tx : Transaction) (observedAt : Int) {spec : SubjectSpec}
    (h : spec.deploymentId.isSome = true) :
    (upserted l tx observedAt spec).deploymentId.isSome = true := by
  unfold upserted
  split
  · show (Option.or _ _).isSome = true
    rw [Option.isSome_or, h, Bool.or_true]
  · exact h

/-- **one upsert**, of a subject no other transaction has locked -/
theorem Sound.upsert (h : Sound l txs) (observedAt : Int) {spec : SubjectSpec}
    (hfree : ∀ j, j ≠ i → (txs j).subjects spec.key = none) :
    Sound { l with nextId := l.nextId + 1 }
      (Function.update txs i (upsertedTx l (txs i) observedAt spec)) := by
  have hother : ∀ j k row,
      (Function.update txs i (upsertedTx l (txs i) observedAt spec) j).subjects k = some row →
      (j = i ∧ k = spec.key ∧ row = upserted l (txs i) observedAt spec) ∨
        (txs j).subjects k = some row := by
    intro j k row hk
    by_cases hj : j = i
    · subst hj
      rw [Function.update_self] at hk
      by_cases hkey : k = spec.key
      · subst hkey
        change Function.update (txs j).subjects spec.key _ spec.key = some row at hk
        rw [Function.update_self] at hk
        exact .inl ⟨rfl, rfl, (Option.some.inj hk).symm⟩
      · change Function.update (txs j).subjects spec.key _ k = some row at hk
        rw [Function.update_of_ne hkey] at hk
        exact .inr hk
    · rw [Function.update_of_ne hj] at hk
      exact .inr hk
  have hnames : ∀ k row, Names { l with nextId := l.nextId + 1 }
      (Function.update txs i (upsertedTx l (txs i) observedAt spec)) k row →
      (k = spec.key ∧ row = upserted l (txs i) observedAt spec) ∨ Names l txs k row := by
    intro k row hk
    obtain hk | ⟨j, hk⟩ := hk
    · exact .inr (.inl hk)
    · obtain ⟨-, hkey, hrow⟩ | hk := hother j k row hk
      · exact .inl ⟨hkey, hrow⟩
      · exact .inr (.inr ⟨j, hk⟩)
  -- the row of the upsert has the id its subject had, or a fresh one
  have hid : (upserted l (txs i) observedAt spec).id = l.nextId ∨
      ∃ row, Names l txs spec.key row ∧ row.id = (upserted l (txs i) observedAt spec).id := by
    cases hrow : ((txs i).subjects spec.key).or (l.subjects spec.key) with
    | none => exact .inl (upserted_fresh hrow)
    | some row =>
      refine .inr ⟨row, ?_, (upserted_kept observedAt hrow).1.symm⟩
      obtain hk | ⟨-, hk⟩ := Option.or_eq_some_iff.mp hrow
      · exact .inr ⟨i, hk⟩
      · exact .inl hk
  have hnew : ∀ k row, Names l txs k row → row.id = (upserted l (txs i) observedAt spec).id →
      k = spec.key := by
    intro k row hk he
    obtain hfresh | ⟨row', hrow', he'⟩ := hid
    · have := h.bound k row hk
      omega
    · exact h.ids k spec.key row row' hk hrow' (he.trans he'.symm)
  constructor
  · intro k k' row row' hk hk' he
    obtain ⟨rfl, rfl⟩ | hk := hnames k row hk
    · obtain ⟨rfl, -⟩ | hk' := hnames k' row' hk'
      · rfl
      · exact (hnew k' row' hk' he.symm).symm
    · obtain ⟨rfl, rfl⟩ | hk' := hnames k' row' hk'
      · exact hnew k row hk he
      · exact h.ids k k' row row' hk hk' he
  · intro k row hk
    show row.id < l.nextId + 1
    obtain ⟨rfl, rfl⟩ | hk := hnames k row hk
    · obtain hfresh | ⟨row', hrow', he'⟩ := hid
      · omega
      · have := h.bound spec.key row' hrow'
        omega
    · have := h.bound k row hk
      omega
  · intro j j' k row row' hj hj'
    obtain ⟨hji, hk, -⟩ | hold := hother j k row hj
    · obtain ⟨hji', -, -⟩ | hold := hother j' k row' hj'
      · exact hji.trans hji'.symm
      · by_contra hne
        rw [hk, hfree j' (fun he => hne (hji.trans he.symm))] at hold
        cases hold
    · obtain ⟨hji', hk, -⟩ | hold' := hother j' k row' hj'
      · by_contra hne
        rw [hk, hfree j (fun he => hne (he.trans hji'.symm))] at hold
        cases hold
      · exact h.locks j j' k row row' hold hold'
  · intro j k row row' hk hj
    obtain ⟨rfl, rfl, rfl⟩ | hj := hother j k row' hj
    · cases hi : (txs j).subjects spec.key with
      | none =>
        apply upserted_kept observedAt
        rw [hi]
        exact hk
      | some prior =>
        refine (h.kept j spec.key row prior hk hi).trans (upserted_kept observedAt ?_)
        rw [hi]
        rfl
    · exact h.kept j k row row' hk hj
  · exact h.rows
  · intro j r hr
    by_cases hj : j = i
    · subst hj
      rw [Function.update_self] at hr ⊢
      obtain ⟨k, row, hk, he⟩ := h.held j r hr
      by_cases hkey : k = spec.key
      · subst hkey
        refine ⟨spec.key, _, Function.update_self .., ?_⟩
        rw [← he]
        refine (upserted_kept observedAt ?_).1
        rw [hk]
        rfl
      · exact ⟨k, row, (Function.update_of_ne hkey ..).trans hk, he⟩
    · rw [Function.update_of_ne hj] at hr ⊢
      exact h.held j r hr
  · intro j
    by_cases hj : j = i
    · subst hj
      rw [Function.update_self]
      exact h.keys j
    · rw [Function.update_of_ne hj]
      exact h.keys j

/-- every row is still there, as an upsert leaves it -/
def Grown (subjects subjects' : SubjectKey → Option SubjectRow) : Prop :=
  ∀ k row, subjects k = some row → ∃ row', subjects' k = some row' ∧ row.Kept row'

theorem Grown.refl (subjects : SubjectKey → Option SubjectRow) : Grown subjects subjects :=
  fun _ row h => ⟨row, h, .refl row⟩

theorem Grown.trans {subjects subjects' subjects'' : SubjectKey → Option SubjectRow}
    (h : Grown subjects subjects') (h' : Grown subjects' subjects'') :
    Grown subjects subjects'' := by
  intro k row hk
  obtain ⟨row', hk', hkept⟩ := h k row hk
  obtain ⟨row'', hk'', hkept'⟩ := h' k row' hk'
  exact ⟨row'', hk'', hkept.trans hkept'⟩

theorem grown_upsert (l : Ledger) (tx : Transaction) (observedAt : Int) (spec : SubjectSpec) :
    Grown tx.subjects (upsertedTx l tx observedAt spec).subjects := by
  intro k row hk
  by_cases hkey : k = spec.key
  · subst hkey
    refine ⟨_, Function.update_self .., upserted_kept observedAt ?_⟩
    rw [hk]
    rfl
  · exact ⟨row, (Function.update_of_ne hkey ..).trans hk, .refl row⟩

/-- a subject is there, attributed where the spec names a deployment -/
def Present (subjects : SubjectKey → Option SubjectRow) (spec : SubjectSpec) : Prop :=
  ∃ row, subjects spec.key = some row ∧
    (spec.deploymentId.isSome = true → row.deploymentId.isSome = true)

theorem Present.grown {subjects subjects' : SubjectKey → Option SubjectRow} {spec : SubjectSpec}
    (h : Present subjects spec) (hg : Grown subjects subjects') : Present subjects' spec := by
  obtain ⟨row, hk, hdeployment⟩ := h
  obtain ⟨row', hk', -, -, -, hkept⟩ := hg _ row hk
  refine ⟨row', hk', ?_⟩
  intro hspec
  obtain ⟨d, hd⟩ := Option.isSome_iff_exists.mp (hdeployment hspec)
  rw [hkept d hd]
  rfl

/-- **the upserts of a chunk** -/
theorem Sound.upserts (h : Sound l txs) (observedAt : Int) {specs : List SubjectSpec}
    (hfree : ∀ spec ∈ specs, ∀ j, j ≠ i → (txs j).subjects spec.key = none)
    {w : (SubjectKey → Option SubjectRow) × Nat}
    (hw : specs.foldl (upsertSubject l.subjects observedAt) ((txs i).subjects, l.nextId) = w) :
    Sound { l with nextId := w.2 } (Function.update txs i ⟨w.1, (txs i).samples⟩) ∧
      Grown (txs i).subjects w.1 ∧ ∀ spec ∈ specs, Present w.1 spec := by
  induction specs generalizing l txs with
  | nil =>
    subst hw
    refine ⟨?_, .refl _, fun _ hspec => absurd hspec List.not_mem_nil⟩
    show Sound l (Function.update txs i (txs i))
    rw [Function.update_eq_self]
    exact h
  | cons spec specs ih =>
    have hself : Function.update txs i (upsertedTx l (txs i) observedAt spec) i =
        upsertedTx l (txs i) observedAt spec := Function.update_self ..
    have hstep := h.upsert observedAt (hfree spec List.mem_cons_self)
    obtain ⟨hsound, hgrown, hpresent⟩ := ih hstep
      (by
        intro spec' hspec' j hj
        rw [Function.update_of_ne hj]
        exact hfree spec' (List.mem_cons_of_mem _ hspec') j hj)
      (by
        rw [hself]
        exact hw)
    rw [hself] at hsound hgrown
    rw [Function.update_idem] at hsound
    refine ⟨hsound, (grown_upsert l (txs i) observedAt spec).trans hgrown, ?_⟩
    intro spec' hspec'
    obtain rfl | hspec' := List.mem_cons.mp hspec'
    · refine Present.grown ⟨_, Function.update_self .., ?_⟩ hgrown
      exact upserted_deployment l (txs i) observedAt
    · exact hpresent spec' hspec'

/-! ## one spec for each subject -/

theorem mem_mergeSpec {acc : List SubjectSpec} {spec m : SubjectSpec} (h : m ∈ mergeSpec acc spec) :
    m.key = spec.key ∨ ∃ m' ∈ acc, m'.key = m.key := by
  unfold mergeSpec at h
  split at h
  · obtain ⟨prior, hprior, rfl⟩ := List.mem_map.mp h
    refine .inr ⟨prior, hprior, ?_⟩
    split <;> rfl
  · obtain h | h := List.mem_append.mp h
    · exact .inr ⟨m, h, rfl⟩
    · rw [List.mem_singleton.mp h]
      exact .inl rfl

/-- a spec stands for another of its subject when it names a deployment wherever that does -/
def Covers (m spec : SubjectSpec) : Prop :=
  m.key = spec.key ∧ (spec.deploymentId.isSome = true → m.deploymentId.isSome = true)

theorem covers_mergeSpec {acc : List SubjectSpec} {spec m : SubjectSpec} (h : m ∈ acc) :
    ∃ m' ∈ mergeSpec acc spec, Covers m' m := by
  unfold mergeSpec
  split
  · refine ⟨_, List.mem_map_of_mem h, ?_⟩
    split
    · rename_i hnone
      refine ⟨rfl, ?_⟩
      intro hsome
      rw [hnone.2] at hsome
      cases hsome
    · exact ⟨rfl, id⟩
  · exact ⟨m, List.mem_append_left _ h, rfl, id⟩

theorem covers_mergeSpec_self (acc : List SubjectSpec) (spec : SubjectSpec) :
    ∃ m ∈ mergeSpec acc spec, Covers m spec := by
  unfold mergeSpec
  split
  · rename_i hmem
    obtain ⟨prior, hprior, hkey⟩ := List.mem_map.mp hmem
    refine ⟨_, List.mem_map_of_mem hprior, ?_⟩
    split
    · exact ⟨hkey, id⟩
    · rename_i hsome
      refine ⟨hkey, fun _ => ?_⟩
      rw [Option.isSome_iff_ne_none]
      intro hnone
      exact hsome ⟨hkey, hnone⟩
  · exact ⟨spec, List.mem_append_right _ List.mem_cons_self, rfl, id⟩

theorem Covers.trans {m m' m'' : SubjectSpec} (h : Covers m m') (h' : Covers m' m'') :
    Covers m m'' := ⟨h.1.trans h'.1, fun hd => h.2 (h'.2 hd)⟩

/-- what a chunk names is what its merged specs name -/
theorem merged_spec (specs : List SubjectSpec) :
    (∀ spec ∈ specs, ∃ m ∈ merged specs, Covers m spec) ∧
      ∀ m ∈ merged specs, ∃ spec ∈ specs, spec.key = m.key := by
  have hfold : ∀ acc : List SubjectSpec,
      (∀ spec, spec ∈ acc ∨ spec ∈ specs → ∃ m ∈ specs.foldl mergeSpec acc, Covers m spec) ∧
        ∀ m ∈ specs.foldl mergeSpec acc,
          ∃ spec, (spec ∈ acc ∨ spec ∈ specs) ∧ spec.key = m.key := by
    induction specs with
    | nil =>
      intro acc
      refine ⟨?_, fun m hm => ⟨m, .inl hm, rfl⟩⟩
      rintro spec (hspec | hspec)
      · exact ⟨spec, hspec, rfl, id⟩
      · cases hspec
    | cons first specs ih =>
      intro acc
      obtain ⟨hcovers, hnames⟩ := ih (mergeSpec acc first)
      refine ⟨?_, ?_⟩
      · intro spec hspec
        have hstep : spec ∈ specs ∨ ∃ m ∈ mergeSpec acc first, Covers m spec := by
          obtain hspec | hspec := hspec
          · exact .inr (covers_mergeSpec hspec)
          · obtain rfl | hspec := List.mem_cons.mp hspec
            · exact .inr (covers_mergeSpec_self acc spec)
            · exact .inl hspec
        obtain hspec | ⟨m, hm, hcover⟩ := hstep
        · exact hcovers spec (.inr hspec)
        · obtain ⟨m', hm', hcover'⟩ := hcovers m (.inl hm)
          exact ⟨m', hm', hcover'.trans hcover⟩
      · intro m hm
        obtain ⟨spec, hspec, hkey⟩ := hnames m hm
        obtain hspec | hspec := hspec
        · obtain hfirst | ⟨m', hm', hkey'⟩ := mem_mergeSpec hspec
          · exact ⟨first, .inr List.mem_cons_self, hfirst.symm.trans hkey⟩
          · exact ⟨m', .inl hm', hkey'.trans hkey⟩
        · exact ⟨spec, .inr (List.mem_cons_of_mem _ hspec), hkey⟩
  obtain ⟨hcovers, hnames⟩ := hfold []
  refine ⟨fun spec hspec => hcovers spec (.inr hspec), ?_⟩
  intro m hm
  obtain ⟨spec, hspec | hspec, hkey⟩ := hnames m hm
  · cases hspec
  · exact ⟨spec, hspec, hkey⟩

/-! ## the samples of a chunk -/

theorem foldl_insert (samples rows : List SampleRow) :
    ∃ new, rows.foldl insertSample samples = samples ++ new ∧ (∀ r ∈ new, r ∈ rows) ∧
      ((samples.map SampleRow.key).Nodup → ((samples ++ new).map SampleRow.key).Nodup) ∧
      ∀ r ∈ rows, r.key ∈ (samples ++ new).map SampleRow.key := by
  induction rows generalizing samples with
  | nil => exact ⟨[], by simp⟩
  | cons r rows ih =>
    rw [List.foldl_cons]
    unfold insertSample
    split
    · rename_i hmem
      obtain ⟨new, heq, hnew, hnodup, hkeys⟩ := ih samples
      refine ⟨new, heq, fun x hx => List.mem_cons_of_mem _ (hnew x hx), hnodup, ?_⟩
      intro x hx
      obtain rfl | hx := List.mem_cons.mp hx
      · rw [List.map_append]
        exact List.mem_append_left _ hmem
      · exact hkeys x hx
    · rename_i hmem
      obtain ⟨new, heq, hnew, hnodup, hkeys⟩ := ih (samples ++ [r])
      rw [List.append_assoc] at heq hnodup hkeys
      refine ⟨r :: new, heq, ?_, ?_, ?_⟩
      · intro x hx
        obtain rfl | hx := List.mem_cons.mp hx
        · exact List.mem_cons_self
        · exact List.mem_cons_of_mem _ (hnew x hx)
      · intro hs
        apply hnodup
        rw [List.map_append]
        refine List.nodup_append.mpr ⟨hs, List.nodup_singleton _, ?_⟩
        intro k hk k' hk' he
        rw [List.mem_singleton.mp hk'] at he
        exact hmem (he ▸ hk)
      · intro x hx
        obtain rfl | hx := List.mem_cons.mp hx
        · rw [List.map_append]
          exact List.mem_append_right _ List.mem_cons_self
        · exact hkeys x hx

/-- the rows of an entry are there, under the id of its subject -/
def Stored (subjects : SubjectKey → Option SubjectRow) (samples : List SampleRow) (e : Entry) :
    Prop :=
  ∃ row, subjects e.subject.key = some row ∧
    (e.subject.deploymentId.isSome = true → row.deploymentId.isSome = true) ∧
    ∀ q ∈ e.quantities, (row.id, q.1, e.windowStart) ∈ samples.map SampleRow.key

theorem Stored.grown {subjects subjects' : SubjectKey → Option SubjectRow}
    {samples samples' : List SampleRow} {e : Entry} (h : Stored subjects samples e)
    (hg : Grown subjects subjects') (hsub : ∀ r ∈ samples, r ∈ samples') :
    Stored subjects' samples' e := by
  obtain ⟨row, hrow, hdeployment, hkeys⟩ := h
  obtain ⟨row', hrow', hid, -, -, hkept⟩ := hg _ row hrow
  refine ⟨row', hrow', ?_, ?_⟩
  · intro hspec
    obtain ⟨d, hd⟩ := Option.isSome_iff_exists.mp (hdeployment hspec)
    rw [hkept d hd]
    rfl
  · intro q hq
    obtain ⟨r, hr, hkey⟩ := List.mem_map.mp (hkeys q hq)
    rw [hid]
    exact List.mem_map.mpr ⟨r, hsub r hr, hkey⟩

/-- a row of a chunk is one of its entries' -/
theorem mem_entryRows {subjects : SubjectKey → Option SubjectRow} {W observedAt : Int}
    {entries : List Entry} {r : SampleRow} (h : r ∈ entryRows subjects W observedAt entries) :
    ∃ e ∈ entries, ∃ row, subjects e.subject.key = some row ∧ row.id = r.subject ∧
      ∃ q ∈ e.quantities, r.metric = q.1 ∧ r.windowStart = e.windowStart := by
  obtain ⟨e, he, hr⟩ := List.mem_flatMap.mp h
  split at hr
  · cases hr
  · rename_i row hrow
    obtain ⟨q, hq, rfl⟩ := List.mem_map.mp hr
    exact ⟨e, he, row, hrow, rfl, q, hq, rfl, rfl⟩

/-- and all of them are -/
theorem entryRows_mem {subjects : SubjectKey → Option SubjectRow} {W observedAt : Int}
    {entries : List Entry} {e : Entry} {row : SubjectRow} {q : String × ℚ} (he : e ∈ entries)
    (hrow : subjects e.subject.key = some row) (hq : q ∈ e.quantities) :
    ⟨row.id, q.1, e.windowStart, W, q.2, observedAt⟩ ∈ entryRows subjects W observedAt entries := by
  refine List.mem_flatMap.mpr ⟨e, he, ?_⟩
  rw [hrow]
  exact List.mem_map.mpr ⟨q, hq, rfl⟩

/-- what a chunk has done to its transaction -/
structure Written (l : Ledger) (tx : Transaction) (entries : List Entry) (l' : Ledger)
    (tx' : Transaction) : Prop where
  subjects : l'.subjects = l.subjects
  samples : l'.samples = l.samples
  grown : Grown tx.subjects tx'.subjects
  added : ∃ new, tx'.samples = tx.samples ++ new ∧ ∀ r ∈ new, ∃ e ∈ entries, ∃ q ∈ e.quantities,
    r.metric = q.1 ∧ r.windowStart = e.windowStart
  stored : ∀ e ∈ entries, Stored tx'.subjects (l.samples ++ tx'.samples) e

/-- **a chunk** whose subjects no other transaction has locked -/
theorem Sound.write (h : Sound l txs) {catalog : List String} {W observedAt : Int}
    {entries : List Entry} {l' : Ledger} {tx' : Transaction}
    (hfree : ∀ e ∈ entries, ∀ j, j ≠ i → (txs j).subjects e.subject.key = none)
    (hw : l.write (txs i) catalog W observedAt entries = .ok (l', tx')) :
    Sound l' (Function.update txs i tx') ∧ Written l (txs i) entries l' tx' := by
  obtain ⟨w, hfold⟩ : ∃ w, (merged (entries.map Entry.subject)).foldl
      (upsertSubject l.subjects observedAt) ((txs i).subjects, l.nextId) = w := ⟨_, rfl⟩
  unfold Ledger.write at hw
  rw [hfold] at hw
  obtain ⟨visible, hvisible, hw⟩ := bind_eq_ok.mp hw
  cases hw
  obtain ⟨hcovers, hnames⟩ := merged_spec (entries.map Entry.subject)
  obtain ⟨hsound, hgrown, hpresent⟩ := h.upserts (i := i) observedAt
    (by
      intro m hm j hj
      obtain ⟨spec, hspec, hkey⟩ := hnames m hm
      obtain ⟨e, he, rfl⟩ := List.mem_map.mp hspec
      rw [← hkey]
      exact hfree e he j hj) hfold
  obtain ⟨new, hnew, hrows, hnodup, hkeys⟩ := foldl_insert (l.samples ++ (txs i).samples)
    (entryRows w.1 W observedAt entries)
  have hvisible : visible = l.samples ++ ((txs i).samples ++ new) := by
    unfold recordSamples at hvisible
    split at hvisible
    · rw [← List.append_assoc, ← hnew]
      exact (Except.ok.inj hvisible).symm
    · cases hvisible
  have hdrop : visible.drop l.samples.length = (txs i).samples ++ new := by
    rw [hvisible, List.drop_left]
  rw [hdrop]
  rw [List.append_assoc] at hnodup hkeys
  have hself : Function.update txs i ⟨w.1, (txs i).samples⟩ i = ⟨w.1, (txs i).samples⟩ :=
    Function.update_self ..
  have hof : ∀ j, j ≠ i → Function.update txs i ⟨w.1, (txs i).samples ++ new⟩ j =
      Function.update txs i ⟨w.1, (txs i).samples⟩ j := by
    intro j hj
    rw [Function.update_of_ne hj, Function.update_of_ne hj]
  -- the subjects are as after the upserts
  have hsubjects : ∀ j, (Function.update txs i ⟨w.1, (txs i).samples ++ new⟩ j).subjects =
      (Function.update txs i ⟨w.1, (txs i).samples⟩ j).subjects := by
    intro j
    by_cases hj : j = i
    · subst hj
      rw [Function.update_self, Function.update_self]
    · rw [hof j hj]
  refine ⟨⟨?_, ?_, ?_, ?_, h.rows, ?_, ?_⟩, rfl, rfl, hgrown, ⟨new, rfl, ?_⟩, ?_⟩
  · intro k k' row row' hk hk' he
    refine hsound.ids k k' row row' ?_ ?_ he
    · simpa only [Names, hsubjects] using hk
    · simpa only [Names, hsubjects] using hk'
  · intro k row hk
    refine hsound.bound k row ?_
    simpa only [Names, hsubjects] using hk
  · intro j j' k row row' hj hj'
    rw [hsubjects] at hj hj'
    exact hsound.locks j j' k row row' hj hj'
  · intro j k row row' hk hj
    rw [hsubjects] at hj
    exact hsound.kept j k row row' hk hj
  · intro j r hr
    by_cases hj : j = i
    · subst hj
      rw [Function.update_self] at hr ⊢
      obtain hr | hr := List.mem_append.mp hr
      · have hheld := hsound.held j
        rw [hself] at hheld
        exact hheld r hr
      · obtain ⟨e, -, row, hrow, hid, -⟩ := mem_entryRows (hrows r hr)
        exact ⟨e.subject.key, row, hrow, hid⟩
    · rw [hof j hj] at hr ⊢
      exact hsound.held j r hr
  · intro j
    by_cases hj : j = i
    · subst hj
      rw [Function.update_self]
      exact hnodup (h.keys j)
    · rw [hof j hj]
      exact hsound.keys j
  · intro r hr
    obtain ⟨e, he, -, -, -, hq⟩ := mem_entryRows (hrows r hr)
    exact ⟨e, he, hq⟩
  · intro e he
    obtain ⟨m, hm, hcover⟩ := hcovers e.subject (List.mem_map_of_mem he)
    obtain ⟨row, hrow, hdeployment⟩ := hpresent m hm
    rw [hcover.1] at hrow
    refine ⟨row, hrow, fun hd => hdeployment (hcover.2 hd), ?_⟩
    intro q hq
    exact hkeys _ (entryRows_mem he hrow hq)

/-! ## the commit -/

theorem Sound.grown_commit (h : Sound l txs) (i : Nat) :
    Grown l.subjects (l.commit (txs i)).subjects := by
  intro k row hk
  cases htx : (txs i).subjects k with
  | none =>
    refine ⟨row, ?_, .refl row⟩
    show ((txs i).subjects k).or (l.subjects k) = some row
    rw [htx, hk]
    rfl
  | some row' =>
    refine ⟨row', ?_, h.kept i k row row' hk htx⟩
    show ((txs i).subjects k).or (l.subjects k) = some row'
    rw [htx]
    rfl

/-- what a transaction has written is what its commit leaves -/
theorem grown_commit_tx (l : Ledger) (tx : Transaction) :
    Grown tx.subjects (l.commit tx).subjects := by
  intro k row hk
  refine ⟨row, ?_, .refl row⟩
  show (tx.subjects k).or (l.subjects k) = some row
  rw [hk]
  rfl

/-- **the commit** -/
theorem Sound.commit (h : Sound l txs) (i : Nat) :
    Sound (l.commit (txs i)) (Function.update txs i .empty) := by
  have hempty : ∀ j k row, (Function.update txs i .empty j).subjects k = some row →
      j ≠ i ∧ (txs j).subjects k = some row := by
    intro j k row hk
    by_cases hj : j = i
    · subst hj
      rw [Function.update_self] at hk
      cases hk
    · rw [Function.update_of_ne hj] at hk
      exact ⟨hj, hk⟩
  have hnames : ∀ k row, Names (l.commit (txs i)) (Function.update txs i .empty) k row →
      Names l txs k row := by
    intro k row hk
    obtain hk | ⟨j, hk⟩ := hk
    · obtain hk | ⟨-, hk⟩ := Option.or_eq_some_iff.mp hk
      · exact .inr ⟨i, hk⟩
      · exact .inl hk
    · exact .inr ⟨j, (hempty j k row hk).2⟩
  constructor
  · intro k k' row row' hk hk' he
    exact h.ids k k' row row' (hnames k row hk) (hnames k' row' hk') he
  · intro k row hk
    exact h.bound k row (hnames k row hk)
  · intro j j' k row row' hj hj'
    exact h.locks j j' k row row' (hempty j k row hj).2 (hempty j' k row' hj').2
  · intro j k row row' hk hj
    obtain ⟨hne, hj⟩ := hempty j k row' hj
    obtain hk | ⟨-, hk⟩ := Option.or_eq_some_iff.mp hk
    · exact absurd (h.locks j i k row' row hj hk) hne
    · exact h.kept j k row row' hk hj
  · intro r hr
    obtain hr | hr := List.mem_append.mp hr
    · obtain ⟨k, row, hk, hid⟩ := h.rows r hr
      obtain ⟨row', hk', hkept⟩ := h.grown_commit i k row hk
      exact ⟨k, row', hk', hkept.1.trans hid⟩
    · obtain ⟨k, row, hk, hid⟩ := h.held i r hr
      obtain ⟨row', hk', hkept⟩ := grown_commit_tx l (txs i) k row hk
      exact ⟨k, row', hk', hkept.1.trans hid⟩
  · intro j r hr
    by_cases hj : j = i
    · subst hj
      rw [Function.update_self] at hr
      cases hr
    · rw [Function.update_of_ne hj] at hr ⊢
      exact h.held j r hr
  · intro j
    show ((l.samples ++ (txs i).samples ++ _).map SampleRow.key).Nodup
    by_cases hj : j = i
    · subst hj
      rw [Function.update_self]
      show ((l.samples ++ (txs j).samples ++ []).map SampleRow.key).Nodup
      rw [List.append_nil]
      exact h.keys j
    · rw [Function.update_of_ne hj, List.map_append, List.map_append]
      have hi := h.keys i
      have hj' := h.keys j
      rw [List.map_append] at hi hj'
      obtain ⟨hl, htx, hdisjoint⟩ := List.nodup_append.mp hi
      obtain ⟨-, htx', hdisjoint'⟩ := List.nodup_append.mp hj'
      refine List.nodup_append.mpr ⟨hi, htx', ?_⟩
      intro key hkey key' hkey' he
      obtain hkey | hkey := List.mem_append.mp hkey
      · exact hdisjoint' key hkey key' hkey' he
      · -- two transactions have written one subject
        obtain ⟨r, hr, rfl⟩ := List.mem_map.mp hkey
        obtain ⟨r', hr', rfl⟩ := List.mem_map.mp hkey'
        obtain ⟨k, row, hk, hid⟩ := h.held i r hr
        obtain ⟨k', row', hk', hid'⟩ := h.held j r' hr'
        have hsubject : r.subject = r'.subject := congrArg Prod.fst he
        have hkk : k = k' := h.ids k k' row row' (.inr ⟨i, hk⟩) (.inr ⟨j, hk'⟩)
          (hid.trans (hsubject.trans hid'.symm))
        subst hkk
        exact hj (h.locks j i k row' row hk' hk)

end Freepod.Usage.Sampler
