import Mathlib.Algebra.Order.Ring.Int
import Mathlib.Algebra.Order.Group.Nat
import Mathlib.Algebra.Order.BigOperators.Group.List
import Freepod.Platform.Rotation
import Freepod.Runs.VarHeads

/-!
# A rotation of the keys

Each batch of a sweep is one transaction, so that what an interrupted sweep leaves is what the next
one starts from.

* `rewriteRow_spec`: one row is encrypted again, and still says what it said.
* `Sweeping`: what holds at each point of a sweep; `go_spec`: each step keeps it and there are fewer
  steps left.
* `rotation_resumes`: after any number of interruptions nothing is lost, and the next sweep ends with
  every row under the current key.
-/

namespace Freepod
open Base

section
variable {β : Type} {keyring : Keyring} {current : String} {t t' t'' : Table (EncryptedRow β)}
  {r row : EncryptedRow β}

/-! ## One table -/

/-- a row with the plaintext in the place of its token -/
def EncryptedRow.opened (keyring : Keyring) (r : EncryptedRow β) :
    Nat × Option (Option String) × β :=
  (r.id, r.token.map fun token => (keyring.decrypt token).toOption, r.rest)

/-- the tables hold the same rows with the same plaintexts -/
def SameSecrets (keyring : Keyring) (t t' : Table (EncryptedRow β)) : Prop :=
  t'.rows.map (EncryptedRow.opened keyring) = t.rows.map (EncryptedRow.opened keyring)

theorem SameSecrets.trans (h : SameSecrets keyring t t') (h' : SameSecrets keyring t' t'') :
    SameSecrets keyring t t'' := Eq.trans h' h

/-- every token of the table can be decrypted -/
def Legible (keyring : Keyring) (t : Table (EncryptedRow β)) : Prop :=
  ∀ r ∈ t.rows, ∀ token, r.token = some token → ∃ text, keyring.decrypt token = .ok text

theorem Legible.same (hl : Legible keyring t) (h : SameSecrets keyring t t') :
    Legible keyring t' := by
  intro r hr token htoken
  have hmem : r.opened keyring ∈ t.rows.map (EncryptedRow.opened keyring) :=
    h ▸ List.mem_map_of_mem hr
  obtain ⟨x, hx, he⟩ := List.mem_map.mp hmem
  simp only [EncryptedRow.opened, Prod.mk.injEq] at he
  obtain ⟨-, hopened, -⟩ := he
  rw [htoken, Option.map_some, Option.map_eq_some_iff] at hopened
  obtain ⟨token', htoken', hsame⟩ := hopened
  obtain ⟨text, htext⟩ := hl x hx token' htoken'
  refine ⟨text, toOption_eq_some.mp ?_⟩
  rw [← hsame, htext]
  rfl

theorem mem_stale : r ∈ stale current t ↔
    r ∈ t.rows ∧ ∃ token, r.token = some token ∧ token.keyId ≠ current := by
  rw [stale, List.mem_filter, Option.any_eq_true]
  simp only [decide_eq_true_eq]

theorem nodup_stale (current : String) (t : Table (EncryptedRow β)) :
    (stale current t).Nodup :=
  (List.Nodup.of_map Row.key t.keys).filter _

/-- what an overwrite of a row of the table leaves -/
theorem mem_overwrite (hrow : row ∈ t.rows) {token : Option Token}
    (h : t'.rows = Table.overwrite { row with token := token } t.rows) :
    r ∈ t'.rows ↔ r = { row with token := token } ∨ r ∈ t.rows ∧ r ≠ row := by
  rw [h, Table.overwrite, List.mem_map]
  constructor
  · rintro ⟨x, hx, rfl⟩
    split
    · exact .inl rfl
    · rename_i hkey
      exact .inr ⟨hx, fun he => hkey (he ▸ rfl)⟩
  · rintro (rfl | ⟨hr, hne⟩)
    · exact ⟨row, hrow, if_pos rfl⟩
    · exact ⟨r, hr, if_neg fun hkey => hne (Table.eq_of_key hr hrow hkey)⟩

/-- **one row is encrypted again**: it leaves the stale rows and says what it said -/
theorem rewriteRow_spec (hcurrent : keyring.currentKeyId = .ok current) (hl : Legible keyring t)
    (hrow : row ∈ stale current t) (nonce : Nat) :
    ∃ t', rewriteRow keyring nonce t row = .ok t' ∧ SameSecrets keyring t t' ∧
      (stale current t).Perm (row :: stale current t') ∧
      ∀ r ∈ t.rows, r ≠ row → r ∈ t'.rows := by
  obtain ⟨hmem, token, htoken, hkey⟩ := mem_stale.mp hrow
  obtain ⟨text, hplain⟩ := hl row hmem token htoken
  obtain ⟨token', hencrypt⟩ : ∃ token', keyring.encrypt nonce text = .ok token' := by
    unfold Keyring.currentKeyId at hcurrent
    unfold Keyring.encrypt
    cases hfernets : keyring.fernets with
    | nil =>
      rw [hfernets] at hcurrent
      cases hcurrent
    | cons e later => exact ⟨_, rfl⟩
  obtain ⟨hdecrypt, hnames⟩ := Keyring.decrypt_encrypt hencrypt
  have hget : t.get? (Row.key { row with token := some token' }) = some row :=
    Table.get?_of_mem hmem
  obtain ⟨t', hput⟩ := Table.put?_isSome hget rfl
  have hrows := Table.put?_eq_some.mp hput
  have hcurrentKey : token'.keyId = current := by
    rw [hnames] at hcurrent
    exact Except.ok.inj hcurrent
  refine ⟨t', ?_, ?_, ?_, fun r hr hne => (mem_overwrite hmem hrows).mpr (.inr ⟨hr, hne⟩)⟩
  · simp only [rewriteRow, bind_eq_ok, found_eq_ok]
    exact ⟨token, htoken, text, hplain, token', hencrypt, hput⟩
  · rw [SameSecrets, hrows]
    refine (Table.map_overwrite (EncryptedRow.opened keyring) hget).mpr ?_
    rw [EncryptedRow.opened, EncryptedRow.opened, htoken, Option.map_some, Option.map_some, hplain,
      hdecrypt]
  · have hnew : row ∉ stale current t' := by
      intro hstale
      rcases (mem_overwrite hmem hrows).mp (mem_stale.mp hstale).1 with he | ⟨-, hne⟩
      · have htoken' := congrArg EncryptedRow.token he
        rw [htoken] at htoken'
        cases htoken'
        exact hkey hcurrentKey
      · exact hne rfl
    refine (List.perm_ext_iff_of_nodup (nodup_stale _ _)
      (List.nodup_cons.mpr ⟨hnew, nodup_stale _ _⟩)).mpr fun r => ?_
    rw [List.mem_cons, mem_stale, mem_stale, mem_overwrite hmem hrows]
    constructor
    · rintro ⟨hr, htokens⟩
      by_cases he : r = row
      · exact .inl he
      · exact .inr ⟨.inr ⟨hr, he⟩, htokens⟩
    · rintro (rfl | ⟨rfl | ⟨hr, -⟩, htokens⟩)
      · exact ⟨hmem, token, htoken, hkey⟩
      · obtain ⟨x, hx, hne⟩ := htokens
        cases hx
        exact absurd hcurrentKey hne
      · exact ⟨hr, htokens⟩

/-- the rows of a batch are stale rows, each of them once; there are none only when none is stale -/
theorem nextBatch_spec {batchSize : Nat} (hsize : 1 ≤ batchSize) :
    (nextBatch current batchSize t).Nodup ∧
      (∀ r ∈ nextBatch current batchSize t, r ∈ stale current t) ∧
      (nextBatch current batchSize t = [] → stale current t = []) := by
  have hperm := List.perm_insertionSort (fun a b : EncryptedRow β => a.id ≤ b.id) (stale current t)
  refine ⟨?_, fun r hr => hperm.mem_iff.mp (List.mem_of_mem_take hr), fun h => ?_⟩
  · exact (hperm.nodup_iff.mpr (nodup_stale _ _)).sublist (List.take_sublist _ _)
  · have hlength := congrArg List.length h
    rw [nextBatch, List.length_take, hperm.length_eq, List.length_nil] at hlength
    refine List.length_eq_zero_iff.mp ?_
    omega

end

/-! ## What holds at each point of a sweep -/

section
variable {keyring : Keyring} {current : String} {batchSize : Nat} {σ : Store} {s t : Sweep}

/-- how many rows of a column are under another key -/
def staleCount (current : String) (σ : Store) (column : EncryptedColumn) : Nat :=
  (stale current (σ column)).length

/-- how many rows are under another key -/
def staleTotal (current : String) (σ : Store) : Nat :=
  (encryptedColumns.map (staleCount current σ)).sum

/-- the columns before these are swept -/
def SweptBefore (current : String) (σ : Store) (later : List EncryptedColumn) : Prop :=
  ∃ swept, encryptedColumns = swept ++ later ∧ ∀ column ∈ swept, stale current (σ column) = []

/-- what holds at a point of the sweep -/
def AtPoint (current : String) (s : Sweep) : SweepPoint → Prop
  | .checks => s.session = s.stored
  | .query current' column later =>
    current' = current ∧ s.session = s.stored ∧ SweptBefore current s.stored (column :: later)
  | .batch current' column later rows size =>
    current' = current ∧ SweptBefore current s.stored (column :: later) ∧
      (∀ c, c ≠ column → s.session c = s.stored c) ∧ rows.Nodup ∧
      (∀ r ∈ rows, r ∈ stale current (s.session column)) ∧
      staleCount current s.session column + size =
        staleCount current s.stored column + rows.length
  | .returned => s.session = s.stored ∧ ∀ column, stale current (s.stored column) = []
  | .raised _ => False

/-- what holds throughout a sweep that began with the store `σ` -/
structure Sweeping (keyring : Keyring) (current : String) (σ : Store) (s : Sweep) : Prop where
  stored : ∀ column, SameSecrets keyring (σ column) (s.stored column)
  session : ∀ column, SameSecrets keyring (σ column) (s.session column)
  kept : ∀ column, ∀ r ∈ (σ column).rows, r ∉ stale current (σ column) →
    r ∈ (s.stored column).rows ∧ r ∈ (s.session column).rows
  counted : s.rotated + staleTotal current s.stored = staleTotal current σ
  point : AtPoint current s s.point

theorem sweeping_start (keyring : Keyring) (current : String) (σ : Store) :
    Sweeping keyring current σ (.start σ) where
  stored := fun _ => rfl
  session := fun _ => rfl
  kept := fun _ _ hr _ => ⟨hr, hr⟩
  counted := Nat.zero_add _
  point := rfl

theorem mem_encryptedColumns (column : EncryptedColumn) : column ∈ encryptedColumns := by
  cases column
  · decide
  · decide

/-- the next column is due when those before it are swept -/
theorem atPoint_columns {later : List EncryptedColumn} (hsession : s.session = s.stored)
    (hswept : SweptBefore current s.stored later) :
    AtPoint current s (.columns current later) := by
  cases later with
  | nil =>
    obtain ⟨swept, hcolumns, hempty⟩ := hswept
    rw [List.append_nil] at hcolumns
    exact ⟨hsession, fun column => hempty column (hcolumns ▸ mem_encryptedColumns column)⟩
  | cons column later => exact ⟨rfl, hsession, hswept⟩

/-- the steps a column may take -/
def budget (current : String) (σ : Store) (column : EncryptedColumn) : Nat :=
  3 * staleCount current σ column + 1

/-- a bound on the steps that are left -/
def Sweep.left (current : String) (s : Sweep) : SweepPoint → Nat
  | .checks => (encryptedColumns.map (budget current s.stored)).sum + 1
  | .query _ column later => ((column :: later).map (budget current s.stored)).sum
  | .batch _ column later rows _ =>
    3 * staleCount current s.session column + 2 - 2 * rows.length +
      (later.map (budget current s.stored)).sum
  | .returned | .raised _ => 0

theorem left_columns (current : String) (s : Sweep) (later : List EncryptedColumn) :
    s.left current (.columns current later) = (later.map (budget current s.stored)).sum := by
  cases later with
  | nil => rfl
  | cons column later => rfl

/-- the next step is taken, keeps what holds, and leaves fewer steps -/
def Advances (keyring : Keyring) (current : String) (batchSize nonce : Nat) (σ : Store)
    (s : Sweep) : Prop :=
  ∃ t, s.go keyring batchSize nonce = some t ∧ Sweeping keyring current σ t ∧
    t.left current t.point < s.left current s.point

variable {nonce rotated size : Nat} {stored session : Store} {column : EncryptedColumn}
  {later : List EncryptedColumn}

theorem advances_checks (hcurrent : keyring.currentKeyId = .ok current) (hsize : 1 ≤ batchSize)
    (h : Sweeping keyring current σ ⟨stored, session, .checks, rotated⟩) :
    Advances keyring current batchSize nonce σ ⟨stored, session, .checks, rotated⟩ := by
  have hsession : session = stored := h.point
  refine ⟨⟨stored, session, .columns current encryptedColumns, rotated⟩, ?_, ?_, ?_⟩
  · show (if batchSize < 1 then _ else _) = _
    rw [if_neg (Nat.not_lt_of_le hsize), hcurrent]
  · exact ⟨h.stored, h.session, h.kept, h.counted,
      atPoint_columns hsession ⟨[], rfl, fun _ hc => nomatch hc⟩⟩
  · show Sweep.left _ _ _ < _
    rw [left_columns]
    exact Nat.lt_succ_self _

theorem advances_query (hsize : 1 ≤ batchSize)
    (h : Sweeping keyring current σ ⟨stored, session, .query current column later, rotated⟩) :
    Advances keyring current batchSize nonce σ
      ⟨stored, session, .query current column later, rotated⟩ := by
  obtain ⟨-, hsession, swept, hcolumns, hswept⟩ := h.point
  have hsession : session = stored := hsession
  subst hsession
  obtain ⟨hnodup, hrows, hempty⟩ : (nextBatch current batchSize (session column)).Nodup ∧
      (∀ r ∈ nextBatch current batchSize (session column), r ∈ stale current (session column)) ∧
      (nextBatch current batchSize (session column) = [] → stale current (session column) = []) :=
    nextBatch_spec hsize
  cases hbatch : nextBatch current batchSize (session column) with
  | nil =>
    refine ⟨⟨session, session, .columns current later, rotated⟩, ?_, ?_, ?_⟩
    · dsimp only [Sweep.go]
      rw [hbatch]
    · refine ⟨h.stored, h.session, h.kept, h.counted, atPoint_columns rfl ⟨swept ++ [column], ?_, ?_⟩⟩
      · rw [List.append_assoc]
        exact hcolumns
      · intro c hc
        rcases List.mem_append.mp hc with hc | hc
        · exact hswept c hc
        · rw [List.mem_singleton.mp hc]
          exact hempty hbatch
    · show Sweep.left _ _ _ < _
      rw [left_columns, Sweep.left, List.map_cons, List.sum_cons]
      exact Nat.lt_add_of_pos_left (Nat.succ_pos _)
  | cons row rows =>
    refine ⟨⟨session, session, .batch current column later (row :: rows) (row :: rows).length,
      rotated⟩, ?_, ?_, ?_⟩
    · dsimp only [Sweep.go]
      rw [hbatch]
    · refine ⟨h.stored, h.session, h.kept, h.counted, rfl, ⟨swept, hcolumns, hswept⟩,
        fun _ _ => rfl, ?_, ?_, rfl⟩
      · rw [← hbatch]
        exact hnodup
      · rw [← hbatch]
        exact hrows
    · show 3 * staleCount current session column + 2 - 2 * (rows.length + 1) +
        (later.map (budget current session)).sum <
          budget current session column + (later.map (budget current session)).sum
      rw [budget]
      omega

theorem advances_row {row : EncryptedRow column.Rest} {rows : List (EncryptedRow column.Rest)}
    (hcurrent : keyring.currentKeyId = .ok current)
    (hlegible : ∀ column, Legible keyring (σ column))
    (h : Sweeping keyring current σ
      ⟨stored, session, .batch current column later (row :: rows) size, rotated⟩) :
    Advances keyring current batchSize nonce σ
      ⟨stored, session, .batch current column later (row :: rows) size, rotated⟩ := by
  obtain ⟨-, hswept, hothers, hnodup, hrows, hcount⟩ := h.point
  rw [List.nodup_cons] at hnodup
  obtain ⟨t', hrewrite, hsame, hperm, hkept⟩ := rewriteRow_spec hcurrent
    ((hlegible column).same (h.session column)) (hrows row List.mem_cons_self) nonce
  have hstale : ∀ r ∈ rows, r ∈ stale current t' := by
    intro r hr
    rcases List.mem_cons.mp (hperm.mem_iff.mp (hrows r (List.mem_cons_of_mem _ hr))) with rfl | hr'
    · exact absurd hr hnodup.1
    · exact hr'
  have hlength : staleCount current session column = (stale current t').length + 1 :=
    hperm.length_eq
  have hfew : rows.length ≤ (stale current t').length :=
    (hnodup.2.subperm hstale).length_le
  refine ⟨⟨stored, Function.update session column t', .batch current column later rows size,
    rotated⟩, ?_, ⟨h.stored, fun c => ?_, fun c r hr hfresh => ?_, h.counted, rfl, hswept,
      fun c hc => ?_, hnodup.2, ?_, ?_⟩, ?_⟩
  · dsimp only [Sweep.go]
    rw [hrewrite]
  · show SameSecrets keyring (σ c) (Function.update session column t' c)
    by_cases hc : c = column
    · subst hc
      rw [Function.update_self]
      exact (h.session c).trans hsame
    · rw [Function.update_of_ne hc]
      exact h.session c
  · refine ⟨(h.kept c r hr hfresh).1, ?_⟩
    show r ∈ (Function.update session column t' c).rows
    have hr' := (h.kept c r hr hfresh).2
    by_cases hc : c = column
    · subst hc
      rw [Function.update_self]
      refine hkept r hr' fun he => hfresh (mem_stale.mpr ⟨hr, ?_⟩)
      rw [he]
      exact (mem_stale.mp (hrows row List.mem_cons_self)).2
    · rw [Function.update_of_ne hc]
      exact hr'
  · show Function.update session column t' c = stored c
    rw [Function.update_of_ne hc]
    exact hothers c hc
  · show ∀ r ∈ rows, r ∈ stale current (Function.update session column t' column)
    rw [Function.update_self]
    exact hstale
  · show (stale current (Function.update session column t' column)).length + size =
      staleCount current stored column + rows.length
    have hcount : staleCount current session column + size =
        staleCount current stored column + (rows.length + 1) := hcount
    rw [Function.update_self]
    omega
  · show 3 * (stale current (Function.update session column t' column)).length + 2 -
      2 * rows.length + (later.map (budget current stored)).sum <
        3 * staleCount current session column + 2 - 2 * (rows.length + 1) +
          (later.map (budget current stored)).sum
    rw [Function.update_self]
    omega

theorem advances_commit
    (h : Sweeping keyring current σ
      ⟨stored, session, .batch current column later [] size, rotated⟩) :
    Advances keyring current batchSize nonce σ
      ⟨stored, session, .batch current column later [] size, rotated⟩ := by
  obtain ⟨-, ⟨swept, hcolumns, hswept⟩, hothers, -, -, hcount⟩ := h.point
  have hothers : ∀ c, c ≠ column → session c = stored c := hothers
  have hcount : staleCount current session column + size = staleCount current stored column := hcount
  have hfewer : ∀ c, staleCount current session c ≤ staleCount current stored c := by
    intro c
    by_cases hc : c = column
    · subst hc
      omega
    · rw [staleCount, hothers c hc]
      exact Nat.le_refl _
  have htotal : staleTotal current session + size = staleTotal current stored := by
    have hfirst : column ≠ .valueEncrypted →
        staleCount current session .valueEncrypted = staleCount current stored .valueEncrypted :=
      fun hne => by rw [staleCount, hothers _ hne.symm, staleCount]
    have hsecond : column ≠ .passwordEncrypted →
        staleCount current session .passwordEncrypted =
          staleCount current stored .passwordEncrypted :=
      fun hne => by rw [staleCount, hothers _ hne.symm, staleCount]
    simp only [staleTotal, encryptedColumns, List.map_cons, List.map_nil, List.sum_cons,
      List.sum_nil]
    cases column with
    | valueEncrypted =>
      have := hsecond (by decide)
      omega
    | passwordEncrypted =>
      have := hfirst (by decide)
      omega
  refine ⟨⟨session, session, .query current column later, rotated + size⟩, rfl,
    ⟨h.session, h.session, fun c r hr hfresh => ?_, ?_, rfl, rfl, swept, hcolumns, fun c hc => ?_⟩,
    ?_⟩
  · exact ⟨(h.kept c r hr hfresh).2, (h.kept c r hr hfresh).2⟩
  · have hcounted : rotated + staleTotal current stored = staleTotal current σ := h.counted
    show rotated + size + staleTotal current session = staleTotal current σ
    omega
  · have hempty : staleCount current stored c = 0 := List.length_eq_zero_iff.mpr (hswept c hc)
    have hle := hfewer c
    refine List.length_eq_zero_iff.mp (?_ : staleCount current session c = 0)
    omega
  · have hlater : (later.map (budget current session)).sum ≤ (later.map (budget current stored)).sum :=
      List.sum_le_sum fun c _ => by
        have hle := hfewer c
        rw [budget, budget]
        omega
    show budget current session column + (later.map (budget current session)).sum <
      3 * staleCount current session column + 2 - 2 * 0 + (later.map (budget current stored)).sum
    rw [budget]
    omega

/-- **each step of a sweep keeps what holds, and leaves fewer steps** -/
theorem go_spec (hcurrent : keyring.currentKeyId = .ok current) (hsize : 1 ≤ batchSize)
    (hlegible : ∀ column, Legible keyring (σ column)) (h : Sweeping keyring current σ s)
    (hpoint : s.point ≠ .returned) (nonce : Nat) :
    Advances keyring current batchSize nonce σ s := by
  obtain ⟨stored, session, point, rotated⟩ := s
  cases point with
  | checks => exact advances_checks hcurrent hsize h
  | query current' column later =>
    obtain rfl : current' = current := h.point.1
    exact advances_query hsize h
  | batch current' column later rows size =>
    obtain rfl : current' = current := h.point.1
    cases rows with
    | nil => exact advances_commit h
    | cons row rows => exact advances_row hcurrent hlegible h
  | returned => exact absurd rfl hpoint
  | raised e => exact absurd h.point id

/-! ## Interrupted and uninterrupted runs -/

/-- the steps of one sweep -/
def uninterrupted (_ : Sweep) : SweepAction → Prop
  | .go _ => True
  | .interrupt => False

theorem sweeping_of_reach (hcurrent : keyring.currentKeyId = .ok current) (hsize : 1 ≤ batchSize)
    (hlegible : ∀ column, Legible keyring (σ column))
    (h : (rotation keyring batchSize).Reach uninterrupted (.start σ) s) :
    Sweeping keyring current σ s := by
  refine h.invariant (sweeping_start keyring current σ) fun s a t hs ha hstep => ?_
  cases a with
  | interrupt => cases ha
  | go nonce =>
    have hstep : s.go keyring batchSize nonce = some t := hstep
    have hpoint : s.point ≠ .returned := by
      intro hp
      rw [Sweep.go, hp] at hstep
      cases hstep
    obtain ⟨t', ht', hsweeping, -⟩ := go_spec hcurrent hsize hlegible hs hpoint nonce
    rw [hstep] at ht'
    cases ht'
    exact hsweeping

/-- **an interrupted run is a sweep from a store that earlier ones have left** -/
theorem lastStart (hcurrent : keyring.currentKeyId = .ok current) (hsize : 1 ≤ batchSize)
    (hlegible : ∀ column, Legible keyring (σ column))
    (h : (rotation keyring batchSize).Reach (fun _ _ => True) (.start σ) s) :
    ∃ began, (∀ column, SameSecrets keyring (σ column) (began column)) ∧
      (rotation keyring batchSize).Reach (fun _ _ => True) (.start σ) (.start began) ∧
      (rotation keyring batchSize).Reach uninterrupted (.start began) s := by
  induction h with
  | refl => exact ⟨σ, fun _ => rfl, .refl, .refl⟩
  | @tail s t hrun hnext ih =>
    obtain ⟨a, -, hstep⟩ := hnext
    obtain ⟨began, hsame, hstart, hsweep⟩ := ih
    cases a with
    | go nonce => exact ⟨began, hsame, hstart, hsweep.tail (a := .go nonce) trivial hstep⟩
    | interrupt =>
      cases hstep
      have hsweeping := sweeping_of_reach hcurrent hsize
        (fun column => (hlegible column).same (hsame column)) hsweep
      refine ⟨s.stored, fun column => (hsame column).trans (hsweeping.stored column), ?_, .refl⟩
      exact Machine.Reach.tail (a := .interrupt) hrun trivial rfl

/-- **a sweep that is not interrupted returns** -/
theorem returns (hcurrent : keyring.currentKeyId = .ok current) (hsize : 1 ≤ batchSize)
    (hlegible : ∀ column, Legible keyring (σ column)) (n : Nat) :
    ∀ s, Sweeping keyring current σ s → s.left current s.point ≤ n → ∀ nonces : Nat → Nat,
      ∃ m t, (rotation keyring batchSize).run s ((List.range m).map fun i => .go (nonces i)) =
        some t ∧ t.point = .returned := by
  induction n with
  | zero =>
    intro s hs hn nonces
    by_cases hpoint : s.point = .returned
    · exact ⟨0, s, rfl, hpoint⟩
    · obtain ⟨t, -, -, hleft⟩ := go_spec hcurrent hsize hlegible hs hpoint (nonces 0)
      omega
  | succ n ih =>
    intro s hs hn nonces
    by_cases hpoint : s.point = .returned
    · exact ⟨0, s, rfl, hpoint⟩
    · obtain ⟨t, hgo, ht, hleft⟩ := go_spec hcurrent hsize hlegible hs hpoint (nonces 0)
      obtain ⟨m, u, hrun, hu⟩ := ih t ht (by omega) fun i => nonces (i + 1)
      refine ⟨m + 1, u, ?_, hu⟩
      rw [List.range_succ_eq_map, List.map_cons, List.map_map]
      show (s.go keyring batchSize (nonces 0)).bind _ = some u
      rw [hgo]
      exact hrun

/-! ## What a rotation leaves -/

/-- the rows whose token is another one than before -/
def rewritten (σ σ' : Store) : Nat :=
  (encryptedColumns.map fun column => ((σ column).rows.filter fun r =>
    decide (((σ' column).get? r.id).bind EncryptedRow.token ≠ r.token)).length).sum

/-- every row names the current key -/
def AllCurrent (current : String) (σ : Store) : Prop :=
  ∀ column, ∀ r ∈ (σ column).rows, ∀ token, r.token = some token → token.keyId = current

/-- every token is the encryption of a text under a configured key, the one it names -/
def Configured (keyring : Keyring) (σ : Store) : Prop :=
  ∀ column, ∀ r ∈ (σ column).rows, ∀ token, r.token = some token → ∃ fernet nonce text,
    keyring.fernets.lookup token.keyId = some fernet ∧ token.ciphertext = fernet.encrypt nonce text

theorem legible_of_configured (h : Configured keyring σ) (column : EncryptedColumn) :
    Legible keyring (σ column) := by
  intro r hr token htoken
  obtain ⟨fernet, nonce, text, hfernet, hcipher⟩ := h column r hr token htoken
  refine ⟨text, ?_⟩
  unfold Keyring.decrypt
  rw [hfernet, hcipher]
  show found (fernet.decrypt (fernet.encrypt nonce text)) _ = _
  rw [fernet.inverse]
  rfl

/-- **a sweep that returns has left every row under the current key, and counted those it rewrote** -/
theorem returned_spec (h : Sweeping keyring current σ s) (hpoint : s.point = .returned) :
    AllCurrent current s.stored ∧ s.rotated = rewritten σ s.stored := by
  have hpoint' := h.point
  rw [hpoint] at hpoint'
  obtain ⟨-, hempty⟩ := hpoint'
  have hall : AllCurrent current s.stored := by
    intro column r hr token htoken
    by_contra hne
    have hmem : r ∈ stale current (s.stored column) := mem_stale.mpr ⟨hr, token, htoken, hne⟩
    rw [hempty column] at hmem
    cases hmem
  refine ⟨hall, ?_⟩
  have hnone : staleTotal current s.stored = 0 := by
    simp only [staleTotal, staleCount, encryptedColumns, List.map_cons, List.map_nil, hempty]
    rfl
  have hcounted := h.counted
  rw [hnone, Nat.add_zero] at hcounted
  rw [hcounted, staleTotal, rewritten]
  congr 1
  refine List.map_congr_left fun column _ => ?_
  rw [staleCount, stale]
  congr 1
  refine List.filter_congr fun r hr => ?_
  have hiff : ((s.stored column).get? r.id).bind EncryptedRow.token ≠ r.token ↔
      r ∈ stale current (σ column) := by
    constructor
    · intro hdiff
      by_contra hfresh
      have hget : (s.stored column).get? r.id = some r :=
        Table.get?_of_mem (h.kept column r hr hfresh).1
      rw [hget] at hdiff
      exact hdiff rfl
    · intro hstale hsame
      obtain ⟨-, token, htoken, hne⟩ := mem_stale.mp hstale
      rw [htoken, Option.bind_eq_some_iff] at hsame
      obtain ⟨x, hx, htoken'⟩ := hsame
      exact hne (hall column x (Table.mem_of_get? hx) token htoken')
  rw [mem_stale] at hiff
  rw [Bool.eq_iff_iff, decide_eq_true_eq, hiff, Option.any_eq_true]
  simp only [decide_eq_true_eq]
  exact ⟨fun ⟨token, htoken⟩ => ⟨hr, token, htoken⟩, fun ⟨_, token, htoken⟩ => ⟨token, htoken⟩⟩

/-! ## The vars as the platform reads them -/

/-- a row of `deployment_var` as the platform reads it -/
def varOfRow (keyring : Keyring) (r : EncryptedRow VarColumns) : DeploymentVar where
  id := r.id
  deploymentId := r.rest.deploymentId
  key := r.rest.key
  value := r.token.map fun token =>
    ⟨token.keyId, (keyring.decrypt token).toOption.getD ""⟩
  sensitive := r.rest.sensitive
  createdBy := r.rest.createdBy
  createdAt := r.rest.createdAt

/-- `deployment_var` as the platform reads it -/
def varTable (keyring : Keyring) (t : Table (EncryptedRow VarColumns)) : Table DeploymentVar where
  rows := t.rows.map (varOfRow keyring)
  keys := by
    rw [List.map_map]
    exact t.keys
  unique := by
    have hnone : (t.rows.map (varOfRow keyring)).flatMap Row.entries = [] :=
      List.flatMap_eq_nil_iff.mpr fun _ _ => rfl
    rw [hnone]
    exact List.nodup_nil

theorem samePlain_of_secrets {t t' : Table (EncryptedRow VarColumns)}
    (h : SameSecrets keyring t t') : SamePlain (varTable keyring t) (varTable keyring t') := by
  have hplain : ∀ t : Table (EncryptedRow VarColumns),
      (varTable keyring t).rows.map DeploymentVar.plain =
        (t.rows.map (EncryptedRow.opened keyring)).map fun r : Nat × Option (Option String) × VarColumns =>
          (r.1, r.2.2.deploymentId, r.2.2.key, r.2.1.map fun text => text.getD "",
            r.2.2.sensitive) := by
    intro t
    rw [varTable, List.map_map, List.map_map]
    refine List.map_congr_left fun r _ => ?_
    simp only [Function.comp_apply, DeploymentVar.plain, varOfRow, DeploymentVar.text,
      EncryptedRow.opened, Option.map_map]
    rfl
  rw [SamePlain, hplain, hplain, h]

end

/-- a rotation moves nothing: each row says what it said, and so do head, the snapshots and
`pending` of a platform that reads the vars of the store -/
structure Unmoved (keyring : Keyring) (σ σ' : Store) : Prop where
  rows : ∀ column, SameSecrets keyring (σ column) (σ' column)
  legible : ∀ column, Legible keyring (σ' column)
  head : ∀ id, (head (varTable keyring (σ' .valueEncrypted)) id).map DeploymentVar.plain =
    (head (varTable keyring (σ .valueEncrypted)) id).map DeploymentVar.plain
  snapshot : ∀ p : State, p.vars = varTable keyring (σ .valueEncrypted) → ∀ r,
    (snapshot { p with vars := varTable keyring (σ' .valueEncrypted) } r).map DeploymentVar.plain =
      (snapshot p r).map DeploymentVar.plain
  pending : ∀ p : State, p.vars = varTable keyring (σ .valueEncrypted) → ∀ d,
    pending { p with vars := varTable keyring (σ' .valueEncrypted) } d = pending p d

theorem unmoved_of_secrets {keyring : Keyring} {σ σ' : Store}
    (hlegible : ∀ column, Legible keyring (σ column))
    (h : ∀ column, SameSecrets keyring (σ column) (σ' column)) : Unmoved keyring σ σ' := by
  have hplain := samePlain_of_secrets (h .valueEncrypted)
  refine ⟨h, fun column => (hlegible column).same (h column), head_samePlain hplain,
    fun p hp r => ?_, fun p hp d => ?_⟩
  · rw [← hp] at hplain
    exact snapshot_samePlain hplain r
  · rw [← hp] at hplain
    exact pending_samePlain hplain d

/-- **a key rotation preserves every secret and is resumable**: at whatever points sweeps were
interrupted nothing has moved, the next one returns when it is left alone, and one that returns has
left every row under the current key and counted those it rewrote -/
theorem rotation_resumes {keyring : Keyring} {current : String} {batchSize : Nat} {σ : Store}
    {s : Sweep} (hcurrent : keyring.currentKeyId = .ok current) (hsize : 1 ≤ batchSize)
    (hσ : Configured keyring σ)
    (hs : (rotation keyring batchSize).Reach (fun _ _ => True) (.start σ) s) :
    Unmoved keyring σ s.stored ∧
      (∀ nonces : Nat → Nat, ∃ m t,
        (rotation keyring batchSize).run s ((List.range m).map fun i => .go (nonces i)) = some t ∧
          t.point = .returned) ∧
      (s.point = .returned → AllCurrent current s.stored ∧ ∃ began,
        (rotation keyring batchSize).Reach (fun _ _ => True) (.start σ) (.start began) ∧
        (rotation keyring batchSize).Reach uninterrupted (.start began) s ∧
        s.rotated = rewritten began s.stored) := by
  have hlegible := legible_of_configured hσ
  obtain ⟨began, hsame, hstart, hsweep⟩ := lastStart hcurrent hsize hlegible hs
  have hbegan : ∀ column, Legible keyring (began column) := fun column =>
    (hlegible column).same (hsame column)
  have hsweeping := sweeping_of_reach hcurrent hsize hbegan hsweep
  refine ⟨?_, ?_, fun hpoint => ?_⟩
  · exact unmoved_of_secrets hlegible fun column =>
      (hsame column).trans (hsweeping.stored column)
  · exact returns hcurrent hsize hbegan _ s hsweeping (Nat.le_refl _)
  · obtain ⟨hall, hcounted⟩ := returned_spec hsweeping hpoint
    exact ⟨hall, began, hstart, hsweep, hcounted⟩

/-! ## A small store -/

/-- a Fernet key that marks what it encrypts -/
def Fernet.marking (mark : Char) : Fernet where
  encrypt := fun _ text => String.ofList (mark :: text.toList)
  decrypt := fun token =>
    match token.toList with
    | c :: text => if c = mark then some (String.ofList text) else none
    | [] => none
  inverse := fun nonce text => by simp

/-- a new key before an old one -/
def Keyring.sample : Keyring where
  fernets := [("new", .marking 'n'), ("old", .marking 'o')]
  unique := by decide

/-- a var and a password under the old key, and a tombstone -/
def Store.sample : Store
  | .valueEncrypted =>
    { rows := [⟨1, some ⟨"oinfo", "old"⟩, ⟨1, "LOG", false, 7, 0⟩⟩, ⟨2, none, ⟨1, "TOKEN", false, 7, 5⟩⟩]
      keys := by decide
      unique := by decide }
  | .passwordEncrypted =>
    { rows := [⟨1, some ⟨"os3cret", "old"⟩, ⟨1, "dpl_1", "dpl_1", {}⟩⟩]
      keys := by decide
      unique := by decide }

theorem configured_sample : Configured .sample .sample := by
  intro column r hr token htoken
  cases column with
  | valueEncrypted =>
    simp only [Store.sample, List.mem_cons, List.not_mem_nil, or_false] at hr
    rcases hr with rfl | rfl
    · cases htoken
      exact ⟨.marking 'o', 0, "info", rfl, rfl⟩
    · cases htoken
  | passwordEncrypted =>
    simp only [Store.sample, List.mem_cons, List.not_mem_nil, or_false] at hr
    subst hr
    cases htoken
    exact ⟨.marking 'o', 0, "s3cret", rfl, rfl⟩

/-- whether a sweep has returned -/
def Sweep.hasReturned (s : Sweep) : Bool :=
  match s.point with
  | .returned => true
  | _ => false

/-- a sweep that is interrupted after its first commit, and another one -/
theorem rotation_resumes_sample : ∃ s, (rotation .sample 1).Reach (fun _ _ => True)
    (.start .sample) s ∧ s.point = .returned ∧ s.rotated = 1 ∧
      Unmoved .sample .sample s.stored ∧ AllCurrent "new" s.stored := by
  obtain ⟨s, hs, hp⟩ := Machine.exists_reach_of_run (M := rotation .sample 1) (s := .start .sample)
    (p := fun s => s.hasReturned && decide (s.rotated = 1))
    (l := [.go 0, .go 1, .go 2, .go 3, .interrupt, .go 4, .go 5, .go 6, .go 7, .go 8, .go 9])
    (by decide +kernel)
  rw [Bool.and_eq_true, decide_eq_true_eq] at hp
  have hpoint : s.point = .returned := by
    have hreturned := hp.1
    unfold Sweep.hasReturned at hreturned
    split at hreturned
    · assumption
    · cases hreturned
  obtain ⟨hunmoved, -, hreturned⟩ := rotation_resumes rfl (Nat.le_refl 1) configured_sample hs
  exact ⟨s, hs, hpoint, hp.2, hunmoved, (hreturned hpoint).1⟩

end Freepod
