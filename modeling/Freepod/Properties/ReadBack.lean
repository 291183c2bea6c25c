import Freepod.Properties.VarChecks

/-!
# Sending back what was read

A client that reads the vars of a deployment and submits them again, as a merge or as a replace,
changes nothing: a sensitive var comes back without its value, and every other one with the text it
has.

* `planVars_writeBack`: the plan of such a write is head itself.
* `read_back_unchanged`: the write is accepted and stores nothing.
-/

namespace Freepod
open Base

/-- the plaintexts of head, as they are validated -/
def headTexts (cfg : Settings) (vars : Table DeploymentVar) (id : DeploymentId) :
    Except Refusal (List (String × String)) :=
  (head vars id).mapM fun row => do
    let text ← plaintext cfg row
    pure (row.key, text)

/-- whether the schema of a declared var says that it is sensitive -/
def schemaSensitive (property : Fields) : Bool :=
  ((Json.obj property).get? sensitiveKey).elim false Json.truthy

/-- head is valid under the current template: the checks of the vars and of the whole document pass,
and each declared var is stored as sensitive as its schema says -/
structure HeadValid (cfg : Settings) (c : Context) (vars : Table DeploymentVar) (d : Deployment) :
    Prop where
  checked : ∃ template texts, c.templates d.desiredTemplateId = some template ∧
    headTexts cfg vars d.id = .ok texts ∧
    c.validateVars texts (c.varsProjection template.valuesSchemaJson) = .ok () ∧
    c.validateDocument d.userValuesJson texts template.valuesSchemaJson = none
  sensitive : ∀ row ∈ head vars d.id, ∀ property,
    (declaredVars c d.desiredTemplateId).lookup row.key = some (.obj property) →
    row.sensitive = schemaSensitive property

variable {cfg : Settings} {c : Context} {vars : Table DeploymentVar} {d : Deployment}
  {current rows : List DeploymentVar} {declared : Fields} {plan : VarPlan} {row : DeploymentVar}

/-- the entries that send back what was read of these rows -/
def writeBacks (rows : List DeploymentVar) : List (String × VarWrite) :=
  rows.map fun row => (row.key, writeBack row)

/-- what a plan has of these rows when it keeps them -/
def targetsOf (rows : List DeploymentVar) : List (String × String × Bool) :=
  rows.map fun row => (row.key, row.content, row.sensitive)

/-- the texts of rows that are all decrypted -/
theorem texts_of_mapM {texts : List (String × String)}
    (h : (rows.mapM fun row => do
      let text ← plaintext cfg row
      pure (row.key, text)) = Except.ok texts) :
    (∀ row ∈ rows, Decrypts cfg row) ∧ texts = rows.map fun row => (row.key, row.content) := by
  induction rows generalizing texts with
  | nil =>
    cases h
    exact ⟨fun row hrow => absurd hrow List.not_mem_nil, rfl⟩
  | cons row rows ih =>
    rw [List.mapM_cons] at h
    simp only [bind_eq_ok, pure_eq_ok] at h
    obtain ⟨_, ⟨text, hplain, rfl⟩, rest, hrest, rfl⟩ := h
    obtain ⟨hdecrypts, rfl⟩ := ih hrest
    obtain ⟨hrow, rfl⟩ := decrypts_of_plaintext hplain
    refine ⟨fun x hx => ?_, rfl⟩
    rcases List.mem_cons.mp hx with rfl | hx
    · exact hrow
    · exact hdecrypts x hx

/-! ## The plan -/

/-- the sensitivity a read reports is the one the write settles on -/
theorem resolveSensitive_writeBack (h : ∀ property,
      declared.lookup row.key = some (.obj property) → row.sensitive = schemaSensitive property)
    (existing : Option DeploymentVar) :
    resolveSensitive row.key (writeBack row) declared existing = .ok row.sensitive := by
  unfold resolveSensitive
  split
  · rename_i property hproperty
    have hs := h property hproperty
    show (if row.sensitive = schemaSensitive property then _ else _) = _
    rw [if_pos hs, hs]
    rfl
  · rfl

/-- **an entry that sends a row back plans the row itself** -/
theorem planEntry_writeBack (hname : c.checkVarName row.key = .ok ())
    (hrow : (current.find? fun v => v.key = row.key) = some row) (hdecrypts : Decrypts cfg row)
    (hs : ∀ property, declared.lookup row.key = some (.obj property) →
      row.sensitive = schemaSensitive property)
    (hfresh : row.key ∉ plan.desired.map Prod.fst) :
    planEntry cfg c current declared plan (row.key, writeBack row) =
      .ok { plan with desired := plan.desired ++ targetsOf [row] } := by
  have hset : setKey row.key (row.content, row.sensitive) plan.desired =
      plan.desired ++ targetsOf [row] := setKey_of_notMem hfresh
  have hresolve := resolveSensitive_writeBack hs (some row)
  have hplain : plaintext cfg row = .ok row.content := hdecrypts
  unfold planEntry
  cases hsensitive : row.sensitive with
  | true =>
    have hvalue : (writeBack row).value = none := by
      rw [writeBack, hsensitive]
      rfl
    simp only [hname, hvalue, hrow, found, Transaction.ok_bind, hplain, hresolve, hsensitive, ← hset]
    rfl
  | false =>
    have hvalue : (writeBack row).value = some (some row.content) := by
      rw [writeBack, hsensitive]
      rfl
    simp only [hname, hvalue, hrow, hresolve, ← hset]
    rfl

/-- the entries that send rows back plan the rows -/
theorem planEntries_writeBack (hunique : (rows.map DeploymentVar.key).Nodup)
    (hname : ∀ row ∈ rows, c.checkVarName row.key = .ok ())
    (hrow : ∀ row ∈ rows, (current.find? fun v => v.key = row.key) = some row)
    (hdecrypts : ∀ row ∈ rows, Decrypts cfg row)
    (hs : ∀ row ∈ rows, ∀ property, declared.lookup row.key = some (.obj property) →
      row.sensitive = schemaSensitive property)
    (hfresh : ∀ row ∈ rows, row.key ∉ plan.desired.map Prod.fst) :
    (writeBacks rows).foldlM (planEntry cfg c current declared) plan =
      .ok { plan with desired := plan.desired ++ targetsOf rows } := by
  induction rows generalizing plan with
  | nil =>
    show Except.ok plan = _
    rw [targetsOf, List.map_nil, List.append_nil]
  | cons row rows ih =>
    have htail : ∀ x ∈ rows, x ∈ row :: rows := fun x hx => List.mem_cons_of_mem _ hx
    rw [List.map_cons, List.nodup_cons] at hunique
    have hfirst := planEntry_writeBack (hname row List.mem_cons_self) (hrow row List.mem_cons_self)
      (hdecrypts row List.mem_cons_self) (hs row List.mem_cons_self)
      (hfresh row List.mem_cons_self)
    show ((row.key, writeBack row) :: writeBacks rows).foldlM _ _ = _
    rw [List.foldlM_cons, hfirst]
    show (writeBacks rows).foldlM _ _ = _
    rw [ih hunique.2 (fun x hx => hname x (htail x hx)) (fun x hx => hrow x (htail x hx))
      (fun x hx => hdecrypts x (htail x hx)) (fun x hx => hs x (htail x hx)) ?_]
    · show Except.ok _ = Except.ok _
      rw [List.append_assoc]
      rfl
    · intro x hx hmem
      rw [List.map_append, List.mem_append] at hmem
      rcases hmem with hmem | hmem
      · exact hfresh x (htail x hx) hmem
      · have hkey : x.key = row.key := List.mem_singleton.mp hmem
        exact hunique.1 (hkey ▸ List.mem_map_of_mem hx)

/-- a row the plan has already is left as planned -/
theorem planRest_planned {replace : Bool} (h : (plan.desired.lookup row.key).isSome = true) :
    planRest cfg replace plan row = .ok plan := by
  rw [planRest, if_pos (.inl h)]

/-- **the plan of a write that sends head back is head itself** -/
theorem planVars_writeBack {js : Jsonschema} (hlegal : VarsLegal vars) (hc : ChecksAs js c)
    (hvalid : HeadValid cfg c vars d) (replace : Bool) (documentError : String → Refusal) :
    planVars cfg c vars d (writeBacks (head vars d.id)) replace documentError =
      .ok ⟨headTargets vars d.id, []⟩ := by
  obtain ⟨template, texts, htemplate, htexts, hvars, hdocument⟩ := hvalid.checked
  obtain ⟨hdecrypts, rfl⟩ := texts_of_mapM htexts
  have hsupported : (writeBacks (head vars d.id)).isEmpty = true ∨
      (c.varsProjection template.valuesSchemaJson).isSome = true := by
    cases hprojection : c.varsProjection template.valuesSchemaJson with
    | some projection => exact .inr rfl
    | none =>
      rw [hc.vars, hprojection, validateVars, require_eq_ok, List.isEmpty_map] at hvars
      left
      rw [writeBacks, List.isEmpty_map]
      exact hvars
  have hfirst : (writeBacks (head vars d.id)).foldlM (planEntry cfg c (head vars d.id)
      (declaredVars c d.desiredTemplateId)) ⟨[], []⟩ = .ok ⟨headTargets vars d.id, []⟩ :=
    planEntries_writeBack (nodup_head vars d.id)
      (fun row hrow => by
        rw [hc.names]
        exact hlegal.names row (mem_head.mp hrow).1)
      (fun row hrow => (keyedOnce_head vars d.id).find?.mpr ⟨hrow, rfl⟩) hdecrypts
      (fun row hrow => hvalid.sensitive row hrow) (fun _ _ => List.not_mem_nil)
  have hrest : (head vars d.id).foldlM (planRest cfg replace) ⟨headTargets vars d.id, []⟩ =
      .ok ⟨headTargets vars d.id, []⟩ := by
    refine foldlM_same fun row hrow => planRest_planned ?_
    obtain ⟨text, -, hshown⟩ := shown_of_mem_head hrow
    rw [lookup_headTargets, shows, headRow_eq_some.mpr ⟨hrow, rfl⟩, Option.bind_some, hshown]
    rfl
  have hplain : (headTargets vars d.id).map (fun e => (e.1, e.2.1)) =
      (head vars d.id).map fun row => (row.key, row.content) := by
    rw [headTargets, List.map_map]
    rfl
  rw [declaredVars_eq htemplate] at hfirst
  rw [← hplain] at hvars hdocument
  have hrequire : require ((writeBacks (head vars d.id)).isEmpty = true ∨
      (c.varsProjection template.valuesSchemaJson).isSome = true)
      (Refusal.validation "vars are not supported on this product template") = .ok () :=
    require_eq_ok.mpr hsupported
  simp only [planVars, bind_eq_ok, found_eq_ok]
  refine ⟨template, htemplate, (), hrequire, _, hfirst, _, hrest, (), hvars, ?_⟩
  rw [hdocument]
  show checkLimits (headTargets vars d.id) >>= _ = _
  rw [hlegal.limits d.id]
  rfl

/-! ## The rows -/

/-- a var that head holds already gets no row -/
theorem insertVar_same {now : Time} {actor : UserId} {id : DeploymentId}
    (hrow : row ∈ head vars id) (hdecrypts : Decrypts cfg row) :
    insertVar cfg now id actor (head vars id) vars (row.key, row.content, row.sensitive) =
      .ok vars := by
  have hfind : ((head vars id).find? fun v => v.key = row.key) = some row :=
    (keyedOnce_head vars id).find?.mpr ⟨hrow, rfl⟩
  have hplain : plaintext cfg row = .ok row.content := hdecrypts
  have hunchanged : unchangedVar cfg (head vars id) row.key row.content row.sensitive =
      .ok true := by
    rw [unchangedVar, hfind]
    show (if row.sensitive = row.sensitive then _ else _) = _
    rw [if_pos rfl, hplain]
    show Except.ok (decide (row.content = row.content)) = _
    rw [decide_eq_true rfl]
  rw [insertVar, hunchanged]
  rfl

/-- **a write that sends head back leaves every row** -/
theorem writeVars_writeBack {js : Jsonschema} (hlegal : VarsLegal vars) (hc : ChecksAs js c)
    (hvalid : HeadValid cfg c vars d) (now : Time) (actor : UserId) (replace : Bool)
    (documentError : String → Refusal) :
    writeVars cfg c now vars d actor (writeBacks (head vars d.id)) replace documentError =
      .ok vars := by
  obtain ⟨template, texts, -, htexts, -, -⟩ := hvalid.checked
  obtain ⟨hdecrypts, -⟩ := texts_of_mapM htexts
  rw [writeVars_eq, planVars_writeBack hlegal hc hvalid]
  have hinsert : ((headTargets vars d.id).insertionSort fun a b => a.1 ≤ b.1).foldlM
      (insertVar cfg now d.id actor (head vars d.id)) vars = .ok vars := by
    refine foldlM_same fun e he => ?_
    rw [List.mem_insertionSort, headTargets, List.mem_map] at he
    obtain ⟨row, hrow, rfl⟩ := he
    exact insertVar_same hrow (hdecrypts row hrow)
  simp only [Transaction.ok_bind, hinsert]
  rfl

/-- **reading the vars and writing the result back is a no-op**, as a merge and as a replace -/
theorem read_back_unchanged {js : Jsonschema} {s : State}
    (hs : (keyedPlatform cfg).Reach (checkedWrites js) .init s) (keyIds : List String)
    (hc : ChecksAs js c) (hvalid : HeadValid (cfg.withKeys keyIds) c s.vars d)
    (emails : UserId → Option String) (isoformat : Time → String) (actor : UserId) (replace : Bool)
    (documentError : String → Refusal) :
    ∃ read entries, readVars (cfg.withKeys keyIds) emails s d = .ok read ∧
      read.entries isoformat = some entries ∧
      (writeVarsTransaction (cfg.withKeys keyIds) c d actor entries replace documentError).exec s =
        (.ok (), s) := by
  obtain ⟨template, texts, -, htexts, -, -⟩ := hvalid.checked
  obtain ⟨hdecrypts, -⟩ := texts_of_mapM htexts
  obtain ⟨read, hread, hentries⟩ := entries_of_read hdecrypts emails isoformat
  refine ⟨read, _, hread, hentries, ?_⟩
  have hwrite := writeVars_writeBack (varsLegal_of_reach hs) hc hvalid s.now actor replace
    documentError
  have hcommits := writeVarsTransaction_commits (cfg.withKeys keyIds) c d actor
    (writeBacks (head s.vars d.id)) replace documentError
  rcases Transaction.exec_of_commits hcommits s with ⟨t, ht, hexec⟩ | ⟨e, he, -⟩
  · rw [hwrite] at ht
    cases ht
    exact hexec
  · rw [hwrite] at he
    cases he

/-! ## A head with a secret -/

/-- a schema that declares a sensitive var and is open to others -/
def Json.withToken : Json :=
  .obj [(varsAdditionalKey, .bool true),
    ("properties", .obj [("TOKEN", .obj [("type", .str "string"), (targetKey, .str "runtime"),
      (sensitiveKey, .bool true)])])]

/-- user 7 creates deployment 1 with these vars -/
def Action.createWith (js : Jsonschema) (schema : Json) (vars : List (String × VarWrite)) : Action :=
  .create (.checking js schema) { CreateRequest.sample .null none with vars := vars }

/-- a secret and a plain var are read and sent back as a replace -/
theorem read_back_unchanged_sample : ∃ s d,
    (keyedPlatform .sample).Reach (checkedWrites .lenient) .init s ∧
    s.deployments.get? 1 = some d ∧
    (head s.vars 1).map (fun v => (v.key, v.value, v.sensitive)) =
      [("LOG", some ⟨"key-1", "info"⟩, false), ("TOKEN", some ⟨"key-1", "s3cret"⟩, true)] ∧
    ∃ read entries, readVars .sample (fun _ => none) s d = .ok read ∧
      read.entries (fun _ => "") = some entries ∧
      (writeVarsTransaction .sample (.checking .lenient .withToken) d 7 entries true
        .validation).exec s = (.ok (), s) := by
  obtain ⟨s, hstep, hp⟩ := (Option.any_eq_true
    (fun s : State => (s.deployments.get? 1).isSome &&
      decide ((head s.vars 1).map (fun v => (v.key, v.value, v.sensitive)) =
        [("LOG", some ⟨"key-1", "info"⟩, false), ("TOKEN", some ⟨"key-1", "s3cret"⟩, true)]))
    ((keyedPlatform .sample).step .init (.platform ["key-1"] (.createWith .lenient .withToken
      [("TOKEN", ⟨some (some "s3cret"), none⟩), ("LOG", ⟨some (some "info"), none⟩)])))).mp
    (by decide +kernel)
  rw [Bool.and_eq_true, decide_eq_true_eq] at hp
  obtain ⟨hsome, hhead⟩ := hp
  obtain ⟨d, hd⟩ := Option.isSome_iff_exists.mp hsome
  have hid : d.id = 1 := Table.key_of_get? hd
  have hs : (keyedPlatform .sample).Reach (checkedWrites .lenient) .init s := by
    refine Machine.Reach.tail .refl ?_ hstep
    intro c entries h
    cases h
    exact ⟨checksAs_checking _ _, by decide⟩
  refine ⟨s, d, hs, hd, hhead, ?_⟩
  refine read_back_unchanged hs ["key-1"] (checksAs_checking _ _) ⟨?_, ?_⟩ _ _ 7 true .validation
  · refine ⟨_, [("LOG", "info"), ("TOKEN", "s3cret")], rfl, ?_, by decide, rfl⟩
    rw [headTexts, hid]
    generalize head s.vars 1 = rows at hhead ⊢
    rcases rows with _ | ⟨log, _ | ⟨token, _ | ⟨_, _⟩⟩⟩
    · exact absurd (congrArg List.length hhead) (by simp)
    · exact absurd (congrArg List.length hhead) (by simp)
    · simp only [List.map_cons, List.map_nil, List.cons.injEq, Prod.mk.injEq, and_true] at hhead
      obtain ⟨⟨hlog, hlogValue, -⟩, htoken, htokenValue, -⟩ := hhead
      simp only [List.mapM_cons, List.mapM_nil, plaintext, hlogValue, htokenValue, hlog, htoken]
      rfl
    · exact absurd (congrArg List.length hhead) (by simp)
  · intro row hrow property hproperty
    rw [hid] at hrow
    have hmem := List.mem_map_of_mem (f := fun v : DeploymentVar => (v.key, v.value, v.sensitive)) hrow
    rw [hhead, List.mem_cons, List.mem_singleton, Prod.mk.injEq, Prod.mk.injEq, Prod.mk.injEq,
      Prod.mk.injEq] at hmem
    rcases hmem with ⟨hkey, -, hsensitive⟩ | ⟨hkey, -, hsensitive⟩
    · rw [hkey] at hproperty
      cases hproperty
    · rw [hkey] at hproperty
      rw [hsensitive]
      cases hproperty
      rfl

end Freepod
