import Freepod.Platform.VarReads
import Freepod.Properties.VarWrites
import Freepod.Runs.Environments

/-!
# What every stored var has passed

A write checks the names of its entries and the size of the head it leaves; the vars it keeps were
checked by the writes before it.  The contexts of a run answer as `services/template_values.py` does
(`ChecksAs`).

* `write_of_step`: a step leaves the vars alone or is an accepted write.
* `planVars_checked`: what an accepted write has passed.
* `varsLegal_of_reach`: in every reachable state all names are legal and all heads are within the
  limits.
-/

namespace Freepod
open Base

/-- the context answers as `services/template_values.py` does -/
structure ChecksAs (js : Jsonschema) (c : Context) : Prop where
  names : c.checkVarName = checkVarName
  projection : c.varsProjection = varsProjection
  vars : c.validateVars = validateVars js
  document : ∀ values texts schema, c.validateDocument values texts schema = none ↔
    validateDocument js .validation values texts schema = .ok ()

/-- a catalog of one template whose checks are those of `services/template_values.py` -/
def Context.checking (js : Jsonschema) (schema : Json) : Context :=
  { Context.sample with
    templates := fun _ => some ⟨1, true, schema, .null⟩
    checkVarName := Freepod.checkVarName
    varsProjection := Freepod.varsProjection
    validateVars := Freepod.validateVars js
    validateDocument := fun values texts schema =>
      match Freepod.validateDocument js .validation values texts schema with
      | .ok () => none
      | .error _ => some "the document does not fit" }

theorem checksAs_checking (js : Jsonschema) (schema : Json) :
    ChecksAs js (.checking js schema) where
  names := rfl
  projection := rfl
  vars := rfl
  document := fun values texts schema => by
    show (match validateDocument js .validation values texts schema with
      | .ok () => none
      | .error _ => some "the document does not fit") = none ↔ _
    cases validateDocument js .validation values texts schema with
    | ok u => exact ⟨fun _ => rfl, fun _ => rfl⟩
    | error e => exact ⟨fun h => (nomatch h), fun h => (nomatch h)⟩

/-! ## Which steps write vars -/

/-- the var write an action asks for -/
def Action.varWrite : Action → Option (Context × List (String × VarWrite))
  | .create c r => some (c, r.vars)
  | .update c u => some (c, u.vars)
  | .writeVars c r => some (c, r.entries)
  | _ => none

variable {cfg : Settings} {s t : State} {a : Action}

/-- the step is an accepted write of the vars -/
def Writes (cfg : Settings) (a : Action) (s t : State) : Prop :=
  ∃ c entries d actor replace documentError, a.varWrite = some (c, entries) ∧
    writeVars cfg c s.now s.vars d actor entries replace documentError = .ok t.vars

/-- **a step leaves the vars alone or is an accepted write** -/
theorem write_of_step (h : step cfg s a = some t) : t.vars = s.vars ∨ Writes cfg a s t := by
  cases a with
  | create c r =>
    have h := toOption_eq_some.mp h
    simp only [createDeployment, bind_eq_ok, require_eq_ok, found_eq_ok, pure_eq_ok] at h
    obtain ⟨user, -, -, -, template, -, -, -, -, -, ⟨values, hostname⟩, -, -, -, plan, -, -, -, -, -,
      _, -, subscriptions, -, ns, -, deployments, -, releases, -, vars, hv, -, -, rfl⟩ := h
    exact .inr ⟨c, r.vars, _, _, _, _, rfl, hv⟩
  | update c u =>
    have h := toOption_eq_some.mp h
    simp only [updateDeployment, State.owned, bind_eq_ok, require_eq_ok, found_eq_ok,
      pure_eq_ok] at h
    obtain ⟨d, ⟨x, -, -, -, hx⟩, -, -, target, -, -, -, ⟨values, hostname⟩, -, -, -, _, -, _, -, -, -,
      deployments, -, releases, -, vars, hv, jobs, -, rfl⟩ := h
    exact .inr ⟨c, u.vars, _, _, _, _, rfl, hv⟩
  | writeVars c r =>
    have h := toOption_eq_some.mp h
    simp only [writeVarsRequest, bind_eq_ok, pure_eq_ok] at h
    obtain ⟨-, -, d, -, -, -, vars, hv, rfl⟩ := h
    exact .inr ⟨c, r.entries, d, _, _, _, rfl, hv⟩
  | _ =>
    left
    cases varsStep_of_step h with
    | same vars => exact vars
    | release id k makes =>
      rcases makes with ⟨c, r, h, -⟩ | ⟨c, u, h, -⟩
      · cases h
      · cases h
    | write c r d action => cases action

/-! ## What an accepted write has passed -/

section
variable {c : Context} {vars vars' : Table DeploymentVar} {d : Deployment} {id : DeploymentId}
  {declared : Fields} {entries : List (String × VarWrite)} {replace : Bool}
  {documentError : String → Refusal} {plan : VarPlan} {k : String}

theorem checkVarName_of_planEntry {current : List DeploymentVar} {plan' : VarPlan}
    {e : String × VarWrite} (h : planEntry cfg c current declared plan e = .ok plan') :
    c.checkVarName e.1 = .ok () := by
  simp only [planEntry, bind_eq_ok] at h
  obtain ⟨_, hname, -⟩ := h
  exact hname

/-- **what an accepted write has passed** -/
theorem planVars_checked
    (h : planVars cfg c vars d entries replace documentError = .ok plan) :
    (∀ e ∈ entries, c.checkVarName e.1 = .ok ()) ∧ checkLimits plan.desired = .ok () ∧
      ∃ template, c.templates d.desiredTemplateId = some template ∧
        c.validateVars (plan.desired.map fun e => (e.1, e.2.1))
          (c.varsProjection template.valuesSchemaJson) = .ok () ∧
        c.validateDocument d.userValuesJson (plan.desired.map fun e => (e.1, e.2.1))
          template.valuesSchemaJson = none := by
  simp only [planVars, bind_eq_ok, found_eq_ok] at h
  obtain ⟨template, htemplate, -, -, plan₁, h₁, plan₂, -, _, hvars, h⟩ := h
  split at h
  · cases h
  · rename_i hdocument
    simp only [bind_eq_ok, pure_eq_ok] at h
    obtain ⟨_, hlimits, rfl⟩ := h
    refine ⟨fun e he => ?_, hlimits, template, htemplate, hvars, hdocument⟩
    obtain ⟨b, b', hentry⟩ := foldlM_each h₁ he
    exact checkVarName_of_planEntry hentry

/-- what a plan leaves alone is not in head -/
theorem headRow_of_unplanned (hp : Planned declared vars id entries replace plan)
    (h : Unplanned plan k) : headRow vars id k = none := by
  cases hentry : entries.lookup k with
  | some entry =>
    rcases hp.entry k entry hentry with ⟨-, hd⟩ | ⟨-, target, hset, -⟩
    · exact absurd hd.2 h.2
    · have hset := hset.1
      rw [h.1] at hset
      cases hset
  | none =>
    cases hrow : headRow vars id k with
    | none => rfl
    | some row =>
      rcases hp.row k row hentry hrow with ⟨-, hd⟩ | ⟨-, target, -, hset⟩
      · exact absurd hd.2 h.2
      · have hset := hset.1
        rw [h.1] at hset
        cases hset

/-- **after the write head shows what was planned** and nothing else -/
theorem lookup_desired (hp : Planned declared vars id entries replace plan)
    (h : PutsAll (shows vars id) id vars plan.targets vars') (k : String) :
    plan.desired.lookup k = shows vars' id k := by
  obtain ⟨hunplanned, hdeleted, hsets⟩ := shows_of_puts hp h k
  rcases hp.disjoint k with hu | hd | ⟨target, hset⟩
  · rw [hu.1, shows, hunplanned hu, headRow_of_unplanned hp hu, Option.bind_none]
  · rw [hd.1, hdeleted hd]
  · rw [hset.1, hsets target hset]

/-- what head holds, as the plan of a write has it -/
def headTargets (vars : Table DeploymentVar) (id : DeploymentId) : List (String × String × Bool) :=
  (head vars id).map fun row => (row.key, row.content, row.sensitive)

theorem nodup_headTargets (vars : Table DeploymentVar) (id : DeploymentId) :
    ((headTargets vars id).map Prod.fst).Nodup := by
  rw [headTargets, List.map_map]
  exact nodup_head vars id

theorem lookup_headTargets (vars : Table DeploymentVar) (id : DeploymentId) (k : String) :
    (headTargets vars id).lookup k = shows vars id k := by
  apply Option.ext
  intro target
  rw [lookup_eq_some_iff_mem (nodup_headTargets vars id), headTargets, List.mem_map, shows,
    Option.bind_eq_some_iff]
  constructor
  · rintro ⟨row, hrow, he⟩
    obtain ⟨text, htext, hshown⟩ := shown_of_mem_head hrow
    cases he
    refine ⟨row, headRow_eq_some.mpr ⟨hrow, rfl⟩, ?_⟩
    rw [hshown, DeploymentVar.content, htext]
    rfl
  · rintro ⟨row, hrow, hshown⟩
    obtain ⟨hmem, rfl⟩ := headRow_eq_some.mp hrow
    obtain ⟨text, htext, hshown'⟩ := shown_of_mem_head hmem
    rw [hshown'] at hshown
    cases hshown
    refine ⟨row, hmem, ?_⟩
    rw [DeploymentVar.content, htext]
    rfl

/-- two lists with each key once and the same lookups hold the same -/
theorem perm_of_lookup {l l' : List (String × String × Bool)} (h : (l.map Prod.fst).Nodup)
    (h' : (l'.map Prod.fst).Nodup) (hlookup : ∀ k, l.lookup k = l'.lookup k) : l.Perm l' := by
  refine (List.perm_ext_iff_of_nodup (List.Nodup.of_map _ h) (List.Nodup.of_map _ h')).mpr ?_
  rintro ⟨k, target⟩
  rw [← lookup_eq_some_iff_mem h, ← lookup_eq_some_iff_mem h', hlookup k]

/-- **after the write head is what was planned** -/
theorem perm_headTargets (hp : Planned declared vars id entries replace plan)
    (h : PutsAll (shows vars id) id vars plan.targets vars') :
    plan.desired.Perm (headTargets vars' id) :=
  perm_of_lookup hp.unique (nodup_headTargets vars' id) fun k =>
    (lookup_desired hp h k).trans (lookup_headTargets vars' id k).symm

/-! ## Names and limits -/

theorem checkLimits_ok {desired : List (String × String × Bool)} : checkLimits desired = .ok () ↔
    desired.length ≤ maxVarsPerDeployment ∧
      (∀ e ∈ desired, e.2.1.utf8ByteSize ≤ maxVarValueBytes) ∧
      (desired.map fun e => e.2.1.utf8ByteSize).sum ≤ maxVarsTotalBytes := by
  simp only [checkLimits, bind_eq_ok, require_eq_ok]
  cases hfind : desired.find? fun e => decide (maxVarValueBytes < e.2.1.utf8ByteSize) with
  | none =>
    have hall : ∀ e ∈ desired, e.2.1.utf8ByteSize ≤ maxVarValueBytes := by
      simpa using List.find?_eq_none.mp hfind
    simp only [require_eq_ok]
    constructor
    · intro h
      obtain ⟨-, hlength, htotal⟩ := h
      exact ⟨hlength, hall, htotal⟩
    · intro h
      exact ⟨(), h.1, h.2.2⟩
  | some e =>
    have hlarge := of_decide_eq_true
      (List.find?_some (p := fun e : String × String × Bool =>
        decide (maxVarValueBytes < e.2.1.utf8ByteSize)) hfind)
    constructor
    · rintro ⟨-, -, h⟩
      cases h
    · rintro ⟨-, hall, -⟩
      exact absurd (hall e (List.mem_of_find?_eq_some hfind)) (Nat.not_le_of_lt hlarge)

theorem checkLimits_perm {l l' : List (String × String × Bool)} (h : l.Perm l')
    (hl : checkLimits l = .ok ()) : checkLimits l' = .ok () := by
  obtain ⟨hlength, hall, htotal⟩ := checkLimits_ok.mp hl
  refine checkLimits_ok.mpr ⟨h.length_eq ▸ hlength, fun e he => hall e (h.mem_iff.mpr he), ?_⟩
  rw [← (h.map fun e => e.2.1.utf8ByteSize).sum_nat]
  exact htotal

/-- every name is legal and every head is within the limits -/
structure VarsLegal (vars : Table DeploymentVar) : Prop where
  names : ∀ v ∈ vars.rows, checkVarName v.key = .ok ()
  limits : ∀ id, checkLimits (headTargets vars id) = .ok ()

theorem varsLegal_empty : VarsLegal Table.empty where
  names := fun _ hv => nomatch hv
  limits := fun _ => rfl

/-- rows of other deployments are not in head -/
theorem head_append {added : List DeploymentVar} (hrows : vars'.rows = vars.rows ++ added)
    (hadded : ∀ v ∈ added, v.deploymentId ≠ id) : head vars' id = head vars id := by
  have hnone : added.filter (fun v => decide (v.deploymentId = id)) = [] := by
    rw [List.filter_eq_nil_iff]
    intro v hv
    simpa using hadded v hv
  rw [head, head, hrows, List.filter_append, hnone, List.append_nil]

/-- **an accepted write keeps the vars legal** -/
theorem VarsLegal.write {now : Time} {actor : UserId} (hlegal : VarsLegal vars)
    (hnames : c.checkVarName = checkVarName) (hunique : (entries.map Prod.fst).Nodup)
    (h : writeVars cfg c now vars d actor entries replace documentError = .ok vars') :
    VarsLegal vars' := by
  obtain ⟨plan, hplan, hp, hputs⟩ := puts_of_writeVars hunique h
  obtain ⟨hchecked, hlimits, -⟩ := planVars_checked hplan
  obtain ⟨added, hrows, hown, -, hkeys⟩ := (writeVars_written hunique h).rows
  constructor
  · intro v hv
    rw [hrows, List.mem_append] at hv
    rcases hv with hv | hv
    · exact hlegal.names v hv
    · cases hentry : entries.lookup v.key with
      | some entry =>
        rw [← hnames]
        exact hchecked (v.key, entry) ((lookup_eq_some_iff_mem hunique).mp hentry)
      | none =>
        cases hrow : headRow vars d.id v.key with
        | some row =>
          obtain ⟨hmem, hkey⟩ := headRow_eq_some.mp hrow
          rw [← hkey]
          exact hlegal.names row (mem_head.mp hmem).1
        | none =>
          -- a key that neither the write nor head knows gets no row
          have hdiff := (hkeys v.key).mp (List.mem_map_of_mem hv)
          have hkept := (shows_of_puts hp hputs v.key).1 (hp.rest v.key hentry hrow)
          rw [shows, shows, hkept] at hdiff
          exact absurd rfl hdiff
  · intro id
    by_cases hid : id = d.id
    · subst hid
      exact checkLimits_perm (perm_headTargets hp hputs) hlimits
    · rw [headTargets, head_append hrows fun v hv he => hid (he.symm.trans (hown v hv))]
      exact hlegal.limits id

theorem VarsLegal.rotate (hlegal : VarsLegal vars) (h : SamePlain vars vars') :
    VarsLegal vars' := by
  constructor
  · intro v hv
    obtain ⟨x, hx, hplain⟩ :=
      List.mem_map.mp (h ▸ List.mem_map_of_mem (f := DeploymentVar.plain) hv)
    simp only [DeploymentVar.plain, Prod.mk.injEq] at hplain
    rw [← hplain.2.2.1]
    exact hlegal.names x hx
  · intro id
    refine checkLimits_perm (perm_of_lookup (nodup_headTargets _ _) (nodup_headTargets _ _)
      fun k => ?_) (hlegal.limits id)
    rw [lookup_headTargets, lookup_headTargets, shows_samePlain h]

end

/-! ## Runs -/

/-- the writes of a run are checked as `services/template_values.py` does, and the entries of each
have their keys once -/
def checkedWrites (js : Jsonschema) (_ : State) : KeyedAction → Prop
  | .platform _ a => ∀ c entries, a.varWrite = some (c, entries) →
      ChecksAs js c ∧ (entries.map Prod.fst).Nodup
  | .rotate _ _ => True

theorem varsLegal_keyedStep {js : Jsonschema} {x : KeyedAction} (hlegal : VarsLegal s.vars)
    (hok : checkedWrites js s x) (h : keyedStep cfg s x = some t) : VarsLegal t.vars := by
  cases x with
  | platform keyIds a =>
    rcases write_of_step h with hsame | ⟨c, entries, d, actor, replace, documentError, ha, hwrite⟩
    · rw [hsame]
      exact hlegal
    · obtain ⟨hchecks, hunique⟩ := hok c entries ha
      exact hlegal.write hchecks.names hunique hwrite
  | rotate keyIds batchSize =>
    obtain ⟨vars, hvars, rfl⟩ := Option.map_eq_some_iff.mp h
    exact hlegal.rotate (rotateBatch_same (toOption_eq_some.mp hvars))

/-- **in every reachable state all names are legal and all heads are within the limits** -/
theorem varsLegal_of_reach {js : Jsonschema}
    (hs : (keyedPlatform cfg).Reach (checkedWrites js) .init s) : VarsLegal s.vars :=
  hs.invariant (P := fun s => VarsLegal s.vars) varsLegal_empty fun _ _ _ hlegal hok h =>
    varsLegal_keyedStep hlegal hok h

end Freepod
