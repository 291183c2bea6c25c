import Mathlib.Data.Finset.Dedup
import Freepod.Platform.Step

/-!
# What a rollout would change

`pending` of `services/vars.py` with the snapshots it reads, and the rotation of the keys of
`services/var_crypto.py`.  `pending` compares rows; the environment a set of rows puts into a pod
maps each key to its plaintext.

* `keyedPlatform` is the platform whose processes hold any key rings, with the rotation's batches.
* `writeVars_new`: a row an accepted write adds is a tombstone, or an entry that head does not hold
  already.
* `rotateBatch_same`: a rotation changes the token of a row and nothing else.
-/

namespace Freepod
open Base

/-- the plaintext of a row; none of a tombstone -/
def DeploymentVar.text (v : DeploymentVar) : Option String := v.value.map Sealed.plaintext

theorem text_isSome (v : DeploymentVar) : v.text.isSome = v.value.isSome := Option.isSome_map

/-- `snapshot`: the rows a release was created with, by key -/
def snapshot (s : State) (releaseId : ReleaseId) : List DeploymentVar :=
  (s.vars.rows.filter fun v => (⟨releaseId, v.id⟩ : ReleaseVar) ∈ s.releaseVars).insertionSort
    fun a b => a.key ≤ b.key

/-- `pending` -/
def pending (s : State) (d : Deployment) : Bool :=
  let headIds := ((head s.vars d.id).map DeploymentVar.id).toFinset
  match d.appliedReleaseId with
  | none => !decide (headIds = ∅)
  | some r =>
    let appliedIds :=
      ((s.releaseVars.filter fun b => b.releaseId = r).map ReleaseVar.varId).toFinset
    decide (headIds ≠ appliedIds)

/-- the environment a set of rows puts into a pod -/
def environment (rows : List DeploymentVar) (key : String) : Option String :=
  (rows.find? fun v => v.key = key).bind DeploymentVar.text

/-- the rows bound to the applied release; none when there is none -/
def appliedRows (s : State) (d : Deployment) : List DeploymentVar :=
  d.appliedReleaseId.elim [] (snapshot s)

/-! ## Rotation -/

/-- one row of a batch, encrypted again under the current key -/
def reencrypt (cfg : Settings) (vars : Table DeploymentVar) (row : DeploymentVar) :
    Except Refusal (Table DeploymentVar) := do
  let value ← found row.value (.invalid "")
  let plaintext ← decrypt cfg value
  let token ← encrypt cfg plaintext
  found (vars.put? { row with value := some token }) constraintViolated

/-- one committed batch of `rotate_encrypted_values` over the vars -/
def rotateBatch (cfg : Settings) (batchSize : Nat) (vars : Table DeploymentVar) :
    Except Refusal (Table DeploymentVar) := do
  require (1 ≤ batchSize) (.varEncryption "batch_size must be >= 1")
  match cfg.varKeyIds with
  | [] => .error (.varEncryption
      "no encryption key is configured (CAELUS_VAR_ENCRYPTION_KEYS is empty)")
  | current :: _ =>
    let rows := vars.rows.filter fun v => v.value.any fun x => decide (x.keyId ≠ current)
    ((rows.insertionSort fun a b => a.id ≤ b.id).take batchSize).foldlM (reencrypt cfg) vars

/-- a step of a process with this key ring, or a batch of a rotation with it -/
inductive KeyedAction
  | platform (keyIds : List String) (a : Action)
  | rotate (keyIds : List String) (batchSize : Nat)

/-- the settings of a process with this key ring -/
def Settings.withKeys (cfg : Settings) (keyIds : List String) : Settings :=
  { cfg with varKeyIds := keyIds }

def keyedStep (cfg : Settings) (s : State) : KeyedAction → Option State
  | .platform keyIds a => step (cfg.withKeys keyIds) s a
  | .rotate keyIds batchSize =>
    (rotateBatch (cfg.withKeys keyIds) batchSize s.vars).toOption.map fun vars =>
      { s with vars := vars }

/-- the platform whose processes hold any key rings -/
def keyedPlatform (cfg : Settings) : Machine State KeyedAction := ⟨keyedStep cfg⟩

/-! ## Head and snapshots as sets of rows -/

section
variable {vars vars' : Table DeploymentVar} {id : DeploymentId} {v : DeploymentVar} {s : State}
  {r : ReleaseId}

theorem mem_head : v ∈ head vars id ↔ v ∈ vars.rows ∧ v.deploymentId = id ∧
    v.value.isSome = true ∧
    ∀ x ∈ vars.rows, x.deploymentId = id → x.key = v.key → x.id ≤ v.id := by
  simp only [head, List.mem_insertionSort, List.mem_filter, Bool.and_eq_true, List.all_eq_true,
    Bool.or_eq_true, Bool.not_eq_true', decide_eq_false_iff_not, decide_eq_true_eq, and_imp]
  constructor
  · intro ⟨⟨hv, hid⟩, hall, hsome⟩
    exact ⟨hv, hid, hsome, fun x hx hxid hk => (hall x hx hxid).resolve_left fun h => h hk⟩
  · intro ⟨hv, hid, hsome, hall⟩
    refine ⟨⟨hv, hid⟩, fun x hx hxid => ?_, hsome⟩
    by_cases hk : x.key = v.key
    · exact .inr (hall x hx hxid hk)
    · exact .inl hk

theorem mem_snapshot :
    v ∈ snapshot s r ↔ v ∈ s.vars.rows ∧ (⟨r, v.id⟩ : ReleaseVar) ∈ s.releaseVars := by
  simp only [snapshot, List.mem_insertionSort, List.mem_filter, decide_eq_true_eq]

/-- no two rows of a table have the same id -/
theorem eq_of_varId {x : DeploymentVar} (hv : v ∈ vars.rows) (hx : x ∈ vars.rows)
    (h : v.id = x.id) : v = x :=
  Table.eq_of_key hv hx h

/-- head has one row of each key -/
theorem head_unique {x : DeploymentVar} (hv : v ∈ head vars id) (hx : x ∈ head vars id)
    (h : v.key = x.key) : v = x := by
  obtain ⟨hv, hvid, -, hvn⟩ := mem_head.mp hv
  obtain ⟨hx, hxid, -, hxn⟩ := mem_head.mp hx
  have hle : v.id ≤ x.id := hxn v hv hvid h
  have hge : x.id ≤ v.id := hvn x hx hxid h.symm
  exact eq_of_varId hv hx (Nat.le_antisymm hle hge)

end

/-- a search for what one element at most satisfies -/
theorem find?_eq_some_iff_of_unique {α : Type} {l : List α} {p : α → Bool} {a : α}
    (h : ∀ x ∈ l, ∀ y ∈ l, p x = true → p y = true → x = y) :
    l.find? p = some a ↔ a ∈ l ∧ p a = true := by
  constructor
  · intro hf
    exact ⟨List.mem_of_find?_eq_some hf, List.find?_some hf⟩
  · intro ⟨ha, hp⟩
    cases hf : l.find? p with
    | none => exact absurd hp (List.find?_eq_none.mp hf a ha)
    | some b =>
      rw [h b (List.mem_of_find?_eq_some hf) a ha (List.find?_some hf) hp]

/-- one row for each key -/
def KeyedOnce (rows : List DeploymentVar) : Prop :=
  ∀ a ∈ rows, ∀ b ∈ rows, a.key = b.key → a = b

theorem keyedOnce_head (vars : Table DeploymentVar) (id : DeploymentId) :
    KeyedOnce (head vars id) := fun _ ha _ hb h => head_unique ha hb h

theorem KeyedOnce.find? {rows : List DeploymentVar} (h : KeyedOnce rows) {key : String}
    {v : DeploymentVar} :
    (rows.find? fun v => v.key = key) = some v ↔ v ∈ rows ∧ v.key = key := by
  rw [find?_eq_some_iff_of_unique]
  · simp
  · intro a ha b hb hka hkb
    simp only [decide_eq_true_eq] at hka hkb
    exact h a ha b hb (hka.trans hkb.symm)

theorem environment_eq_some {rows : List DeploymentVar} (h : KeyedOnce rows) {key x : String} :
    environment rows key = some x ↔ ∃ v ∈ rows, v.key = key ∧ v.text = some x := by
  rw [environment, Option.bind_eq_some_iff]
  constructor
  · intro ⟨v, hv, hx⟩
    obtain ⟨hmem, hkey⟩ := h.find?.mp hv
    exact ⟨v, hmem, hkey, hx⟩
  · intro ⟨v, hmem, hkey, hx⟩
    exact ⟨v, h.find?.mpr ⟨hmem, hkey⟩, hx⟩

/-! ## The rows a write adds -/

/-- the text an entry of a write leaves its key with: the one it gives, or the one head has -/
def VarWrite.text (entry : VarWrite) (existing : Option DeploymentVar) : Option String :=
  match entry.value with
  | some value => value
  | none => existing.bind DeploymentVar.text

/-- the vars the projection of a template declares -/
def declaredVars (c : Context) (templateId : TemplateId) : Fields :=
  match ((c.templates templateId).bind fun t => c.varsProjection t.valuesSchemaJson).bind
      fun p => p.get? "properties" with
  | some (.obj fields) => fields
  | _ => []

theorem declaredVars_eq {c : Context} {id : TemplateId} {template : Template}
    (h : c.templates id = some template) :
    declaredVars c id = match (c.varsProjection template.valuesSchemaJson).bind
        fun p => p.get? "properties" with
      | some (.obj fields) => fields
      | _ => [] := by
  rw [declaredVars, h]
  rfl

/-- head already holds what the entry writes -/
def Held (current : List DeploymentVar) (declared : Fields) (key : String) (entry : VarWrite) :
    Prop :=
  ∃ row, (current.find? fun v => v.key = key) = some row ∧ row.text = entry.text (some row) ∧
    resolveSensitive key entry declared (some row) = .ok row.sensitive

section
variable {cfg : Settings} {c : Context} {current : List DeploymentVar} {declared : Fields}
  {plan plan' : VarPlan} {entries : List (String × VarWrite)}

/-- a planned var is what an entry writes -/
def FromEntry (current : List DeploymentVar) (declared : Fields)
    (entries : List (String × VarWrite)) (e : String × String × Bool) : Prop :=
  ∃ entry, (e.1, entry) ∈ entries ∧
    entry.text (current.find? fun v => v.key = e.1) = some e.2.1 ∧
    resolveSensitive e.1 entry declared (current.find? fun v => v.key = e.1) = .ok e.2.2

/-- a planned var is what head has -/
def FromHead (current : List DeploymentVar) (e : String × String × Bool) : Prop :=
  ∃ row ∈ current, row.key = e.1 ∧ row.text = some e.2.1 ∧ row.sensitive = e.2.2

theorem text_of_plaintext {row : DeploymentVar} {x : String} (h : plaintext cfg row = .ok x) :
    row.text = some x := by
  simp only [plaintext, decrypt, bind_eq_ok, found_eq_ok, require_eq_ok, pure_eq_ok] at h
  obtain ⟨value, hv, -, -, rfl⟩ := h
  rw [DeploymentVar.text, hv]
  rfl

theorem planEntry_from {e : String × VarWrite} (he : e ∈ entries)
    (hp : ∀ x ∈ plan.desired, FromEntry current declared entries x)
    (h : planEntry cfg c current declared plan e = .ok plan') :
    ∀ x ∈ plan'.desired, FromEntry current declared entries x := by
  obtain ⟨key, entry⟩ := e
  simp only [planEntry, bind_eq_ok] at h
  obtain ⟨-, -, h⟩ := h
  have hset : ∀ {value : String} {sensitive : Bool},
      entry.text (current.find? fun v => v.key = key) = some value →
      resolveSensitive key entry declared (current.find? fun v => v.key = key) = .ok sensitive →
      ∀ x ∈ setKey key (value, sensitive) plan.desired, FromEntry current declared entries x := by
    intro value sensitive ht hs x hx
    obtain rfl | hx := mem_setKey hx
    · exact ⟨entry, he, ht, hs⟩
    · exact hp x hx
  cases hvalue : entry.value with
  | none =>
    simp only [hvalue, bind_eq_ok, found_eq_ok, require_eq_ok, pure_eq_ok] at h
    obtain ⟨row, hrow, value, hplain, sensitive, hs, -, -, rfl⟩ := h
    refine hset ?_ hs
    rw [VarWrite.text, hvalue, hrow]
    exact text_of_plaintext hplain
  | some value =>
    cases value with
    | none =>
      simp only [hvalue, pure_eq_ok] at h
      obtain rfl := h
      exact hp
    | some value =>
      simp only [hvalue, bind_eq_ok, pure_eq_ok] at h
      obtain ⟨sensitive, hs, rfl⟩ := h
      exact hset (by rw [VarWrite.text, hvalue]) hs

theorem planRest_from {replace : Bool} {row : DeploymentVar} (hr : row ∈ current)
    (hp : ∀ x ∈ plan.desired, FromEntry current declared entries x ∨ FromHead current x)
    (h : planRest cfg replace plan row = .ok plan') :
    ∀ x ∈ plan'.desired, FromEntry current declared entries x ∨ FromHead current x := by
  unfold planRest at h
  split at h
  · cases h
    exact hp
  · split at h
    · cases h
      exact hp
    · simp only [bind_eq_ok, pure_eq_ok] at h
      obtain ⟨value, hplain, rfl⟩ := h
      intro x hx
      obtain rfl | hx := mem_setKey hx
      · exact .inr ⟨row, hr, rfl, text_of_plaintext hplain, rfl⟩
      · exact hp x hx

theorem unchangedVar_false {key value : String} {sensitive : Bool}
    (h : unchangedVar cfg current key value sensitive = .ok false) {row : DeploymentVar}
    (hr : (current.find? fun v => v.key = key) = some row) (ht : row.text = some value) :
    row.sensitive ≠ sensitive := by
  intro hs
  simp only [unchangedVar, hr, if_pos hs, bind_eq_ok, pure_eq_ok, decide_eq_false_iff_not] at h
  obtain ⟨old, hplain, hne⟩ := h
  rw [text_of_plaintext hplain, Option.some.injEq] at ht
  exact hne ht

end

/-- what a row that was not there before the write is -/
def AddedRow (vars : Table DeploymentVar) (id : DeploymentId) (declared : Fields)
    (entries : List (String × VarWrite)) (v : DeploymentVar) : Prop :=
  v.deploymentId = id ∧ (v.value = none ∨ ∃ entry, (v.key, entry) ∈ entries ∧
    v.value.isSome = true ∧
    v.text = entry.text ((head vars id).find? fun x => x.key = v.key) ∧
    ¬ Held (head vars id) declared v.key entry)

/-- **a row an accepted write adds is a tombstone, or an entry head does not hold already** -/
theorem writeVars_new {cfg : Settings} {c : Context} {now : Time} {d : Deployment}
    {actor : UserId} {entries : List (String × VarWrite)} {replace : Bool}
    {documentError : String → Refusal} {vars vars' : Table DeploymentVar}
    (h : writeVars cfg c now vars d actor entries replace documentError = .ok vars') :
    ∀ v ∈ vars'.rows, v ∈ vars.rows ∨
      AddedRow vars d.id (declaredVars c d.desiredTemplateId) entries v := by
  simp only [writeVars, bind_eq_ok, found_eq_ok] at h
  obtain ⟨template, htemplate, -, -, plan₀, hplan₀, plan, hplan, -, -, h⟩ := h
  have hplan₀ : entries.foldlM (planEntry cfg c (head vars d.id)
      (declaredVars c d.desiredTemplateId)) ⟨[], []⟩ = .ok plan₀ := by
    rw [declaredVars_eq htemplate]
    exact hplan₀
  split at h
  · cases h
  simp only [bind_eq_ok] at h
  obtain ⟨-, -, middle, hmiddle, h⟩ := h
  -- every planned var is what an entry writes or what head has
  have hfrom₀ : ∀ x ∈ plan₀.desired,
      FromEntry (head vars d.id) (declaredVars c d.desiredTemplateId) entries x :=
    foldlM_ok_mem (P := fun plan : VarPlan => ∀ x ∈ plan.desired, FromEntry (head vars d.id)
      (declaredVars c d.desiredTemplateId) entries x)
      (fun _ _ _ he hp => planEntry_from he hp) (fun _ hx => absurd hx List.not_mem_nil) hplan₀
  have hfrom : ∀ x ∈ plan.desired,
      FromEntry (head vars d.id) (declaredVars c d.desiredTemplateId) entries x ∨
        FromHead (head vars d.id) x :=
    foldlM_ok_mem (P := fun plan : VarPlan => ∀ x ∈ plan.desired, FromEntry (head vars d.id)
      (declaredVars c d.desiredTemplateId) entries x ∨ FromHead (head vars d.id) x)
      (fun _ _ _ he hp => planRest_from he hp) (fun x hx => .inl (hfrom₀ x hx)) hplan
  have hrows : ∀ v ∈ middle.rows, v ∈ vars.rows ∨
      AddedRow vars d.id (declaredVars c d.desiredTemplateId) entries v := by
    refine foldlM_ok_mem (P := fun t : Table DeploymentVar => ∀ v ∈ t.rows, v ∈ vars.rows ∨
      AddedRow vars d.id (declaredVars c d.desiredTemplateId) entries v) ?_
      (fun v hv => .inl hv) hmiddle
    intro t e t' he ht hi
    have he := (List.mem_insertionSort _).mp he
    simp only [insertVar, bind_eq_ok] at hi
    obtain ⟨unchanged, hunchanged, hi⟩ := hi
    cases unchanged with
    | true =>
      cases hi
      exact ht
    | false =>
      simp only [Bool.false_eq_true, if_false, bind_eq_ok, found_eq_ok] at hi
      obtain ⟨token, htoken, hi⟩ := hi
      have htext : token.plaintext = e.2.1 := by
        unfold encrypt at htoken
        split at htoken
        · cases htoken
        · cases htoken
          rfl
      intro v hv
      obtain hv | rfl := (Table.mem_insert? hi).mp hv
      · exact ht v hv
      refine .inr ⟨rfl, .inr ?_⟩
      obtain ⟨entry, hentry, hwrites, hs⟩ | ⟨row, hrow, hkey, hwrites, hs⟩ := hfrom e he
      · refine ⟨entry, hentry, rfl, ?_, ?_⟩
        · show some token.plaintext = _
          rw [hwrites, htext]
        · rintro ⟨row, hrow, hheld, hsensitive⟩
          have hrow : ((head vars d.id).find? fun x => x.key = e.1) = some row := hrow
          rw [hrow] at hwrites hs
          have hsensitive : resolveSensitive e.1 entry (declaredVars c d.desiredTemplateId)
            (some row) = .ok row.sensitive := hsensitive
          rw [hsensitive, Except.ok.injEq] at hs
          exact unchangedVar_false hunchanged hrow (hheld.trans hwrites) hs
      · have hfind := (keyedOnce_head vars d.id).find?.mpr ⟨hrow, hkey⟩
        exact absurd hs (unchangedVar_false hunchanged hfind hwrites)
  refine foldlM_ok (P := fun t : Table DeploymentVar => ∀ v ∈ t.rows, v ∈ vars.rows ∨
    AddedRow vars d.id (declaredVars c d.desiredTemplateId) entries v) ?_ hrows h
  intro t key t' ht hi
  unfold insertTombstone at hi
  split at hi
  · intro v hv
    obtain hv | rfl := (Table.mem_insert? (found_eq_ok.mp hi)).mp hv
    · exact ht v hv
    · exact .inr ⟨rfl, .inl rfl⟩
  · cases hi
    exact ht

/-! ## What the requests write -/

/-- an accepted create wrote the vars and bound head to the first release -/
theorem createDeployment_bound {cfg : Settings} {c : Context} {s t : State} {r : CreateRequest}
    (h : createDeployment cfg c s r = .ok t) :
    VarsAppended s.vars t.vars r.deploymentId ∧
      t.releaseVars = snapshotRelease t.vars s.releaseVars r.releaseId r.deploymentId := by
  refine ⟨createDeployment_vars h, ?_⟩
  obtain ⟨values, hostname, ns, isPaid, subscriptions, deployments, releases, vars, price,
    payments, jobs, -, -, -, -, -, rfl⟩ := createDeployment_ok h
  rfl

/-- an accepted update wrote the vars and bound head to the new release -/
theorem updateDeployment_bound {cfg : Settings} {c : Context} {s t : State} {u : UpdateRequest}
    (h : updateDeployment cfg c s u = .ok t) :
    t.releaseVars = snapshotRelease t.vars s.releaseVars u.releaseId u.id ∧
      VarsAppended s.vars t.vars u.id ∧ ∀ v ∈ t.vars.rows, v ∈ s.vars.rows ∨
        AddedRow s.vars u.id (declaredVars c u.desiredTemplateId) u.vars v := by
  have happended := updateDeployment_vars h
  simp only [updateDeployment, State.owned, bind_eq_ok, require_eq_ok, found_eq_ok,
    pure_eq_ok] at h
  obtain ⟨d, ⟨x, hd, -, -, hx⟩, -, -, target, -, -, -, ⟨values, hostname⟩, -, -, -, _, -, _, -, -, -,
    deployments, -, releases, -, vars, hv, jobs, -, rfl⟩ := h
  have hid : d.id = u.id := hx ▸ Table.key_of_get? hd
  refine ⟨by rw [← hid], happended, fun v hv' => ?_⟩
  rw [← hid]
  exact writeVars_new hv v hv'

/-- an accepted write of the vars endpoints -/
theorem writeVarsRequest_new {cfg : Settings} {c : Context} {s t : State} {r : VarsRequest}
    (h : writeVarsRequest cfg c s r = .ok t) :
    ∃ d vars, s.deployments.get? r.deploymentId = some d ∧ t = { s with vars := vars } ∧
      VarsAppended s.vars vars r.deploymentId ∧ ∀ v ∈ vars.rows, v ∈ s.vars.rows ∨
        AddedRow s.vars r.deploymentId (declaredVars c d.desiredTemplateId) r.entries v := by
  simp only [writeVarsRequest, readableDeployment, assertWritable, bind_eq_ok, require_eq_ok,
    found_eq_ok, pure_eq_ok] at h
  obtain ⟨-, -, d, ⟨x, hd, -, -, -, -, hx⟩, -, -, vars, hv, rfl⟩ := h
  subst hx
  have hid : x.id = r.deploymentId := Table.key_of_get? hd
  refine ⟨x, vars, hd, rfl, hid ▸ writeVars_rows hv, fun v hv' => ?_⟩
  rw [← hid]
  exact writeVars_new hv v hv'

/-! ## What a rotation changes -/

/-- a row without its token -/
def DeploymentVar.plain (v : DeploymentVar) :
    VarId × DeploymentId × String × Option String × Bool :=
  (v.id, v.deploymentId, v.key, v.text, v.sensitive)

/-- the tables hold the same rows but for their tokens -/
def SamePlain (vars vars' : Table DeploymentVar) : Prop :=
  vars'.rows.map DeploymentVar.plain = vars.rows.map DeploymentVar.plain

theorem reencrypt_same {cfg : Settings} {vars vars' vars'' : Table DeploymentVar}
    {row : DeploymentVar} (hrow : row ∈ vars.rows) (hsame : SamePlain vars vars')
    (h : reencrypt cfg vars' row = .ok vars'') : SamePlain vars vars'' := by
  simp only [reencrypt, bind_eq_ok, found_eq_ok] at h
  obtain ⟨value, hvalue, plaintext, hplain, token, htoken, hput⟩ := h
  have htext : token.plaintext = value.plaintext := by
    simp only [decrypt, bind_eq_ok, require_eq_ok, pure_eq_ok] at hplain
    obtain ⟨-, -, rfl⟩ := hplain
    unfold encrypt at htoken
    split at htoken
    · cases htoken
    · cases htoken
      rfl
  have hmem : row.plain ∈ vars'.rows.map DeploymentVar.plain :=
    hsame ▸ List.mem_map_of_mem hrow
  obtain ⟨row', hrow', he⟩ := List.mem_map.mp hmem
  have hid : row'.id = row.id := congrArg Prod.fst he
  have hget : vars'.get? (Row.key { row with value := some token }) = some row' := by
    show vars'.get? row.id = some row'
    exact hid ▸ Table.get?_of_mem hrow'
  have hsame' : DeploymentVar.plain { row with value := some token } = row'.plain := by
    rw [he, DeploymentVar.plain, DeploymentVar.plain, DeploymentVar.text, DeploymentVar.text,
      hvalue, Option.map_some, Option.map_some, htext]
  rw [SamePlain, Table.put?_eq_some.mp hput]
  exact ((Table.map_overwrite DeploymentVar.plain hget).mpr hsame').trans hsame

/-- **a rotation changes the token of a row and nothing else** -/
theorem rotateBatch_same {cfg : Settings} {batchSize : Nat} {vars vars' : Table DeploymentVar}
    (h : rotateBatch cfg batchSize vars = .ok vars') : SamePlain vars vars' := by
  simp only [rotateBatch, bind_eq_ok] at h
  obtain ⟨-, -, h⟩ := h
  split at h
  · cases h
  · refine foldlM_ok_mem (P := SamePlain vars) ?_ rfl h
    intro t row t' hrow ht hr
    have hmem := (List.mem_insertionSort _).mp (List.mem_of_mem_take hrow)
    exact reencrypt_same (List.mem_of_mem_filter hmem) ht hr

end Freepod
