import Freepod.Platform.HostnameValues
import Freepod.Platform.Step
import Freepod.Properties.Hostnames

/-!
# The hostnames a chart is given

A create or an update that is accepted stores the values Helm is run with.  Of the places that the
template's schema titles a hostname, it writes the deployment's own name to one.

* `Reading.titles`: the places a schema titles, by the walk's paths or by JSON Schema's own rules.
* `ValuesRequest`, `Submission`: the request, and what it reads of the schema and the values.
* `hostname_placed`: the first titled place holds the deployment's own name; when all of them do.
-/

namespace Freepod
open Base

/-! ## The places a schema titles -/

/-- a step that a key of a path stands for, a star being every element of a list -/
def Step.fits (key : String) (step : Step) : Prop :=
  if key = "*" then ∃ i, step = .index i else step = .key key

/-- the places whose schemas JSON Schema applies the title of; `resolve` is what `jsonschema` makes
of a reference -/
inductive Annotated (resolve : String → Option Json) : Json → Path → Prop
  | title {fields : Fields} (h : isHostnameTitle (fields.lookup "title") = true) :
    Annotated resolve (.obj fields) []
  | property {fields properties : Fields} {key : String} {schema : Json} {q : Path}
    (hproperties : fields.lookup "properties" = some (.obj properties))
    (hschema : properties.lookup key = some schema) (h : Annotated resolve schema q) :
    Annotated resolve (.obj fields) (.key key :: q)
  | additional {fields : Fields} {key : String} {schema : Json} {q : Path}
    (hschema : fields.lookup "additionalProperties" = some schema)
    (hother : ∀ properties, fields.lookup "properties" = some (.obj properties) →
      properties.lookup key = none) (h : Annotated resolve schema q) :
    Annotated resolve (.obj fields) (.key key :: q)
  | item {fields : Fields} {schema : Json} {q : Path} (i : Nat)
    (hschema : fields.lookup "items" = some schema) (h : Annotated resolve schema q) :
    Annotated resolve (.obj fields) (.index i :: q)
  | tuple {fields : Fields} {name : String} {schemas : List Json} {schema : Json} {i : Nat} {q : Path}
    (hname : name = "items" ∨ name = "prefixItems")
    (hschemas : fields.lookup name = some (.arr schemas)) (hschema : schemas[i]? = some schema)
    (h : Annotated resolve schema q) : Annotated resolve (.obj fields) (.index i :: q)
  | variant {fields : Fields} {name : String} {schemas : List Json} {schema : Json} {q : Path}
    (hname : name = "allOf" ∨ name = "anyOf" ∨ name = "oneOf")
    (hschemas : fields.lookup name = some (.arr schemas)) (hschema : schema ∈ schemas)
    (h : Annotated resolve schema q) : Annotated resolve (.obj fields) q
  | reference {fields : Fields} {ref : String} {schema : Json} {q : Path}
    (href : fields.lookup "$ref" = some (.str ref)) (hschema : resolve ref = some schema)
    (h : Annotated resolve schema q) : Annotated resolve (.obj fields) q

/-- how the titles of a schema are read -/
inductive Reading
  /-- as paths of `_iter_hostname_paths` -/
  | walk
  | jsonSchema (resolve : String → Option Json)

/-- the place below the whole document is one that the schema titles a hostname -/
def Reading.titles : Reading → Json → Path → Prop
  | .walk, schema, q => ∃ path ∈ iterHostnamePaths [] schema, List.Forall₂ Step.fits path q
  | .jsonSchema resolve, schema, q => q ≠ [] ∧ Annotated resolve schema q

/-! ## The requests -/

/-- a request that stores user values -/
inductive ValuesRequest
  | create (r : CreateRequest)
  | update (u : UpdateRequest)

def ValuesRequest.accept (cfg : Settings) (c : Context) (s : State) :
    ValuesRequest → Except Refusal State
  | .create r => createDeployment cfg c s r
  | .update u => updateDeployment cfg c s u

/-- what a request submits: an update without values submits the stored ones -/
structure Submission where
  id : DeploymentId
  schema : Json
  values : Json
  handle : Option Handle
  exclude : Option DeploymentId

def ValuesRequest.submission (c : Context) (s : State) : ValuesRequest → Option Submission
  | .create r => do
    let template ← c.templates r.desiredTemplateId
    pure ⟨r.deploymentId, template.valuesSchemaJson, r.userValuesJson,
      ((c.users r.userId).bind User.handle).bind storedHandle, none⟩
  | .update u => do
    let template ← c.templates u.desiredTemplateId
    let d ← s.deployments.get? u.id
    pure ⟨u.id, template.valuesSchemaJson, u.userValuesJson.getD d.userValuesJson,
      ((c.users d.userId).bind User.handle).bind storedHandle, some u.id⟩

/-- the value the walk's first path leads to -/
def Submission.first (x : Submission) : Json :=
  match firstHostnamePath x.schema with
  | some path => valueForPath x.values path
  | none => .null

/-- the place the walk's first path leads to -/
def Submission.place (x : Submission) : Option Path := (firstHostnamePath x.schema).map location

/-- a hostname as the value of a place, null when there is none -/
def hostnameNode : Option String → Node
  | some hostname => .str hostname
  | none => .null

/-- the first value as `complete_hostname` completes it -/
def Submission.completed (x : Submission) (py : Printer) (settings : HostnameSettings) :
    Option String :=
  if x.first.isNull = true then none
  else (completeHostname settings (lower (py.text x.first)) x.handle).toOption

/-- what is stored is what was submitted, but for the hostname at the first path's place -/
def Submission.Written (x : Submission) (stored : Json) (hostname : Option String) : Prop :=
  ∀ q, nodeAt (some stored) q =
    if hostname.isSome = true ∧ some q = x.place then some (hostnameNode hostname)
    else nodeAt (some x.values) q

/-- every value at a titled place is the hostname -/
def Placed (reading : Reading) (schema values : Json) (hostname : Option String) : Prop :=
  ∀ q n, reading.titles schema q → nodeAt (some values) q = some n → n = hostnameNode hostname

/-- every value submitted at a titled place, the one the name is written to apart, is already the
completed name -/
def Submission.Agrees (x : Submission) (reading : Reading) (py : Printer)
    (settings : HostnameSettings) : Prop :=
  ∀ q n, reading.titles x.schema q → some q ≠ x.place → nodeAt (some x.values) q = some n →
    n = hostnameNode (x.completed py settings)

/-! ## What a completed name says of its value -/

variable {py : Printer} {dns : Dns} {settings : HostnameSettings} {deployments : List Deployment}
  {handle : Option Handle} {exclude : Option DeploymentId}

theorem mem_lower {s : String} {c : Char} (h : c ∈ s.toList) : lowerChar c ∈ (lower s).toList := by
  rw [lower, String.toList_ofList]
  exact List.mem_map_of_mem h

theorem mem_completeHostname {value name : String} {c : Char} (hc : c ∈ (lower value).toList)
    (h : completeHostname settings value handle = .ok name) : c ∈ name.toList := by
  unfold completeHostname at h
  simp only at h
  split at h
  · rw [← Except.ok.inj h]
    exact hc
  · cases handle with
    | none => cases h
    | some handle =>
      rw [← Except.ok.inj h]
      simp only [String.toList_append, List.mem_append]
      exact .inl (.inl (.inl (.inl hc)))

/-- a name with a bracket is not in the required format -/
theorem requireValidHostname_of_mem {text name : String} {c : Char} (hc : c ∈ text.toList)
    (hlower : lowerChar c = c)
    (hnot : isAlnum c = false ∧ c ≠ '-' ∧ c ≠ '\n' ∧ c ≠ '.') :
    requireValidHostname dns settings deployments (lower text) handle exclude ≠ .ok name := by
  intro h
  obtain ⟨hname, hf, -⟩ := requireValidHostname_ok h
  have hmem : c ∈ (lower (lower text)).toList := by
    have h := mem_lower (mem_lower hc)
    rwa [hlower, hlower] at h
  obtain halnum | hdash | hline | hdot := chars_of_checkFormat hf c (mem_completeHostname hmem hname)
  · rw [hnot.1] at halnum
    cases halnum
  · exact hnot.2.1 hdash
  · exact hnot.2.2.1 hline
  · exact hnot.2.2.2 hdot

/-- a list or an object is never completed to a hostname -/
theorem isLeaf_of_requireValidHostname {value : Json} {name : String}
    (h : requireValidHostname dns settings deployments (lower (py.text value)) handle exclude =
      .ok name) : value.isLeaf = true := by
  cases value with
  | arr items =>
    refine absurd h (requireValidHostname_of_mem (c := '[') ?_ (by decide) (by decide))
    simp [Printer.text, Printer.repr]
  | obj fields =>
    refine absurd h (requireValidHostname_of_mem (c := '\x7b') ?_ (by decide) (by decide))
    simp [Printer.text, Printer.repr]
  | _ => rfl

/-! ## What a request stores -/

theorem ne_nil_of_first {schema : Json} {path : List String}
    (h : firstHostnamePath schema = some path) : path ≠ [] := by
  unfold firstHostnamePath at h
  split at h
  · exact ne_nil_of_iterHostnamePaths _ (List.mem_of_head? h)
  · cases h

/-- what stands at the first path's place when the path leads to no value -/
theorem node_of_first_null {x : Submission} {q : Path} {n : Node} (hq : some q = x.place)
    (hnull : x.first.isNull = true) (hn : nodeAt (some x.values) q = some n) : n = .null := by
  unfold Submission.place at hq
  unfold Submission.first at hnull
  cases hpath : firstHostnamePath x.schema with
  | none =>
    rw [hpath] at hq
    cases hq
  | some path =>
    rw [hpath] at hq hnull
    rw [Option.some.inj hq] at hn
    exact nodeAt_of_valueForPath (ne_nil_of_first hpath) hnull hn

/-- **the name is written to one place**: the others hold what they held -/
theorem written_of_normalize {x : Submission} {stored : Json} {hostname : Option String}
    (h : normalizeAndReturnHostname py x.schema x.values (some fun text =>
      requireValidHostname dns settings deployments text x.handle x.exclude) =
        .ok (stored, hostname)) :
    (∀ name, hostname = some name → requireValidHostname dns settings deployments
      (lower (py.text x.first)) x.handle x.exclude = .ok name) ∧
    (hostname = none ↔ x.first.isNull = true) ∧ x.Written stored hostname := by
  unfold normalizeAndReturnHostname at h
  cases hpath : firstHostnamePath x.schema with
  | none =>
    simp only [hpath, Except.ok.injEq, Prod.mk.injEq] at h
    obtain ⟨rfl, rfl⟩ := h
    have hfirst : x.first = .null := by rw [Submission.first, hpath]
    exact ⟨fun name h => (nomatch h), iff_of_true rfl (by rw [hfirst]; rfl), fun q => rfl⟩
  | some path =>
    have hplace : x.place = some (location path) := by rw [Submission.place, hpath]; rfl
    have hfirst : x.first = valueForPath x.values path := by rw [Submission.first, hpath]
    simp only [hpath, ← hfirst] at h
    split at h
    · -- the first path leads to no value
      rename_i hnull
      obtain ⟨rfl, rfl⟩ := Prod.mk.inj (Except.ok.inj h)
      exact ⟨fun name h => (nomatch h), iff_of_true rfl hnull, fun q => rfl⟩
    · rename_i hvalue
      rw [Bool.not_eq_true] at hvalue
      simp only [bind_eq_ok, pure_eq_ok, Prod.mk.injEq] at h
      obtain ⟨name, hname, rfl, rfl⟩ := h
      refine ⟨fun name' h => ?_, iff_of_false (Option.some_ne_none name) (by simp [hvalue]),
        fun q => ?_⟩
      · rw [← Option.some.inj h]
        exact hname
      · have hnode : nodeAt (some (setValueAtPath x.values path (.str name))) q =
            if q = location path then some (.str name) else nodeAt (some x.values) q :=
          nodeAt_setValueAtPath rfl (ne_nil_of_first hpath) (hfirst ▸ hvalue)
            (hfirst ▸ isLeaf_of_requireValidHostname hname) q
        simp only [hnode, hplace, Option.isSome_some, true_and, Option.some.injEq]
        rfl

/-- **every titled place holds the name** when the places it is not written to did -/
theorem placed_iff_agrees {x : Submission} {stored : Json} {hostname : Option String}
    (reading : Reading)
    (hvalid : ∀ name, hostname = some name → requireValidHostname dns settings deployments
      (lower (py.text x.first)) x.handle x.exclude = .ok name)
    (hnone : hostname = none ↔ x.first.isNull = true) (hwritten : x.Written stored hostname) :
    Placed reading x.schema stored hostname ↔ x.Agrees reading py settings := by
  have hcompleted : x.completed py settings = hostname := by
    unfold Submission.completed
    cases hostname with
    | none => rw [if_pos (hnone.mp rfl)]
    | some name =>
      rw [if_neg (mt hnone.mpr (Option.some_ne_none name)), (requireValidHostname_ok
        (hvalid name rfl)).1]
      rfl
  constructor
  · intro hall q n htitle hq hn
    rw [hcompleted]
    refine hall q n htitle ?_
    rw [hwritten, if_neg fun h => hq h.2]
    exact hn
  · intro hall q n htitle hn
    rw [hwritten] at hn
    split at hn
    · exact (Option.some.inj hn).symm
    · rename_i hnot
      by_cases hq : some q = x.place
      · -- nothing is written, so that the first path leads to no value
        have hnull : hostname = none := by
          cases hostname with
          | none => rfl
          | some name => exact absurd ⟨rfl, hq⟩ hnot
        rw [hnull]
        exact node_of_first_null hq (hnone.mp hnull) hn
      · rw [← hcompleted]
        exact hall q n htitle hq hn

/-- the deployment after an accepted request: its values and its hostname, and the release that
Helm is given the values of -/
structure Stored (t : State) (id : DeploymentId) (stored : Json) (name : Option String)
    (d : Deployment) : Prop where
  deployment : t.deployments.get? id = some d
  values : d.userValuesJson = stored
  hostname : d.hostname = name
  release : ∃ r, t.releases.get? d.desiredReleaseId = some r ∧ r.valuesJson = stored

theorem stored_of_create {cfg : Settings} {c : Context} {s t : State} {r : CreateRequest}
    (h : createDeployment cfg (c.naming py dns settings s) s r = .ok t) :
    ∃ x stored hostname d, (ValuesRequest.create r).submission c s = some x ∧
      normalizeAndReturnHostname py x.schema x.values (some fun text =>
        requireValidHostname dns settings s.deployments.rows text x.handle x.exclude) =
          .ok (stored, hostname) ∧
      Stored t x.id stored hostname d := by
  simp only [createDeployment, bind_eq_ok, require_eq_ok, found_eq_ok, pure_eq_ok] at h
  obtain ⟨user, huser, -, -, template, htemplate, -, -, -, -, ⟨values, hostname⟩, hnorm, -, -, plan,
    -, -, -, -, -, _, -, subscriptions, -, ns, -, deployments, hd, releases, hr, vars, -, ⟨_, _⟩, -,
    rfl⟩ := h
  refine ⟨⟨r.deploymentId, template.valuesSchemaJson, r.userValuesJson,
    user.handle.bind storedHandle, none⟩, values, hostname, _, ?_, hnorm,
    Table.get?_insert?_self hd, rfl, rfl, _, Table.get?_insert?_self hr, rfl⟩
  have huser : c.users r.userId = some user := huser
  have htemplate : c.templates r.desiredTemplateId = some template := htemplate
  simp only [ValuesRequest.submission, htemplate, huser]
  rfl

theorem stored_of_update {cfg : Settings} {c : Context} {s t : State} {u : UpdateRequest}
    (h : updateDeployment cfg (c.naming py dns settings s) s u = .ok t) :
    ∃ x stored hostname d, (ValuesRequest.update u).submission c s = some x ∧
      normalizeAndReturnHostname py x.schema x.values (some fun text =>
        requireValidHostname dns settings s.deployments.rows text x.handle x.exclude) =
          .ok (stored, hostname) ∧
      Stored t x.id stored hostname d := by
  simp only [updateDeployment, State.owned, bind_eq_ok, require_eq_ok, found_eq_ok,
    pure_eq_ok] at h
  obtain ⟨_, ⟨d, hd, -, -, rfl⟩, -, -, target, htarget, -, -, ⟨values, hostname⟩, hnorm, -, -, -, -,
    -, -, -, -, deployments, hput, releases, hr, -, -, -, -, rfl⟩ := h
  have hid : d.id = u.id := Table.key_of_get? hd
  refine ⟨⟨u.id, target.valuesSchemaJson, u.userValuesJson.getD d.userValuesJson,
    ((c.users d.userId).bind User.handle).bind storedHandle, some u.id⟩, values, hostname,
    u.deployment d values hostname, ?_, hid ▸ hnorm, ?_, rfl, rfl, _,
    Table.get?_insert?_self hr, rfl⟩
  · have htarget : c.templates u.desiredTemplateId = some target := htarget
    simp only [ValuesRequest.submission, htarget, hd]
    rfl
  · exact hid ▸ Table.get?_put?_self (a := u.deployment d values hostname) hput (hid ▸ hd)

/-- **the deployment's own hostname stands at the first titled place**, the rest is stored as it was
submitted; and it stands at every titled place exactly when the values submitted at the others are
that name already -/
theorem hostname_placed {cfg : Settings} {c : Context} {s t : State} {request : ValuesRequest}
    (reading : Reading) (h : request.accept cfg (c.naming py dns settings s) s = .ok t) :
    ∃ x d, request.submission c s = some x ∧ t.deployments.get? x.id = some d ∧
      (∃ r, t.releases.get? d.desiredReleaseId = some r ∧ r.valuesJson = d.userValuesJson) ∧
      (∀ name, d.hostname = some name → requireValidHostname dns settings s.deployments.rows
        (lower (py.text x.first)) x.handle x.exclude = .ok name) ∧
      (d.hostname = none ↔ x.first.isNull = true) ∧ x.Written d.userValuesJson d.hostname ∧
      (Placed reading x.schema d.userValuesJson d.hostname ↔ x.Agrees reading py settings) := by
  have hstored : ∃ x stored hostname d, request.submission c s = some x ∧
      normalizeAndReturnHostname py x.schema x.values (some fun text =>
        requireValidHostname dns settings s.deployments.rows text x.handle x.exclude) =
          .ok (stored, hostname) ∧
      Stored t x.id stored hostname d := by
    cases request with
    | create r => exact stored_of_create h
    | update u => exact stored_of_update h
  obtain ⟨x, stored, hostname, d, hx, hnorm, hd⟩ := hstored
  obtain ⟨hvalid, hnone, hwritten⟩ := written_of_normalize hnorm
  have hplaced := placed_iff_agrees reading hvalid hnone hwritten
  obtain ⟨hdeployment, rfl, rfl, hrelease⟩ := hd
  exact ⟨x, d, hx, hdeployment, hrelease, hvalid, hnone, hwritten, hplaced⟩

namespace Sample

/-- a chart that takes any number of hostnames -/
def hostsSchema : Json :=
  .obj [("properties", .obj [("hosts", .obj [("items", .obj [("title", .str "Hostname")])])])]

def hostsContext : Context :=
  { Context.sample with templates := fun _ => some ⟨1, true, hostsSchema, .null⟩ }

def printer : Printer := ⟨fun mantissa _ => toString mantissa, fun s => "'" ++ s ++ "'"⟩

/-- user 7 asks for these hosts -/
def hosts (names : List String) : CreateRequest :=
  .sample (.obj [("hosts", .arr (names.map Json.str))]) none

/-- the request is accepted -/
def accepted (names : List String) : Except Refusal State :=
  (ValuesRequest.create (hosts names)).accept .sample
    (hostsContext.naming printer .wildcard .sample .init) .init

/-- what the new deployment holds: its hostname, and one of its hosts -/
def host (names : List String) (i : Nat) : Option (Option String × Option Node) :=
  (accepted names).toOption.bind fun t => (t.deployments.get? 1).map fun d =>
    (d.hostname, nodeAt (some d.userValuesJson) [.key "hosts", .index i])

theorem deployment_of_host {names : List String} {i : Nat} {hostname : Option String}
    {n : Option Node} (h : host names i = some (hostname, n)) :
    ∃ t d, accepted names = .ok t ∧ t.deployments.get? 1 = some d ∧ d.hostname = hostname ∧
      nodeAt (some d.userValuesJson) [.key "hosts", .index i] = n := by
  obtain ⟨t, ht, h⟩ := Option.bind_eq_some_iff.1 h
  obtain ⟨d, hd, h⟩ := Option.map_eq_some_iff.1 h
  exact ⟨t, d, toOption_eq_some.1 ht, hd, (Prod.mk.inj h).1, (Prod.mk.inj h).2⟩

end Sample

/-- the second host of a chart is stored as it was submitted -/
theorem hostname_foreign :
    ∃ t d, Sample.accepted ["notes", "www.bank.example"] = .ok t ∧
      t.deployments.get? 1 = some d ∧
      ¬ Placed .walk Sample.hostsSchema d.userValuesJson d.hostname ∧
      ∀ resolve, ¬ Placed (.jsonSchema resolve) Sample.hostsSchema d.userValuesJson d.hostname := by
  have h : Sample.host ["notes", "www.bank.example"] 1 =
      some (some "notes-bob.freepod.app", some (.str "www.bank.example")) := by decide +kernel
  obtain ⟨t, d, ht, hd, hhost, hn⟩ := Sample.deployment_of_host h
  have hne : Node.str "www.bank.example" ≠ hostnameNode d.hostname := by
    rw [hhost]
    decide
  refine ⟨t, d, ht, hd, fun hall => hne (hall _ _ ?_ hn), fun resolve hall => hne (hall _ _ ?_ hn)⟩
  · exact ⟨["hosts", "*"], by decide, .cons rfl (.cons ⟨1, rfl⟩ .nil)⟩
  · exact ⟨by simp, .property rfl rfl (.item 1 rfl (.title (by decide)))⟩

/-- with one host the chart is given the deployment's own; with two, its own and the one submitted -/
theorem hostname_placed_hosts :
    (∃ t d, Sample.accepted ["notes"] = .ok t ∧ t.deployments.get? 1 = some d ∧
      d.hostname = some "notes-bob.freepod.app" ∧
      Placed .walk Sample.hostsSchema d.userValuesJson d.hostname) ∧
    ∃ t d, Sample.accepted ["notes", "www.bank.example"] = .ok t ∧
      t.deployments.get? 1 = some d ∧ d.hostname = some "notes-bob.freepod.app" ∧
      nodeAt (some d.userValuesJson) [.key "hosts", .index 0] =
        some (.str "notes-bob.freepod.app") ∧
      nodeAt (some d.userValuesJson) [.key "hosts", .index 1] = some (.str "www.bank.example") := by
  constructor
  · have h : Sample.host ["notes"] 0 =
        some (some "notes-bob.freepod.app", some (.str "notes-bob.freepod.app")) := by
      decide +kernel
    obtain ⟨t, d, ht, hd, hhost, -⟩ := Sample.deployment_of_host h
    obtain ⟨x, d', hx, hd', -, -, -, -, hiff⟩ := hostname_placed .walk ht
    cases Option.some.inj hx
    cases hd.symm.trans hd'
    refine ⟨t, d, ht, hd, hhost, hiff.2 fun q n htitle hq hn => ?_⟩
    -- the only titled place with a value is the one the name is written to
    obtain ⟨path, hpath, hfits⟩ := htitle
    have hpaths : iterHostnamePaths [] Sample.hostsSchema = [["hosts", "*"]] := by decide
    have hpath : path = ["hosts", "*"] := List.mem_singleton.1 (hpaths ▸ hpath)
    subst hpath
    obtain ⟨_, _, hkey, hrest, rfl⟩ := List.forall₂_cons_left_iff.1 hfits
    obtain ⟨_, _, ⟨i, rfl⟩, hnil, rfl⟩ := List.forall₂_cons_left_iff.1 hrest
    cases List.forall₂_nil_left_iff.1 hnil
    cases (hkey : _ = Step.key "hosts")
    cases i with
    | zero => exact absurd rfl hq
    | succ i => cases hn
  · have h : (Sample.host ["notes", "www.bank.example"] 0).map Prod.fst =
        some (some "notes-bob.freepod.app") := by decide +kernel
    obtain ⟨⟨hostname, n⟩, hh, rfl⟩ := Option.map_eq_some_iff.mp h
    obtain ⟨t, d, ht, hd, hhost, -⟩ := Sample.deployment_of_host hh
    obtain ⟨x, d', hx, hd', -, -, -, hwritten, -⟩ := hostname_placed .walk ht
    cases Option.some.inj hx
    cases hd.symm.trans hd'
    rw [hhost] at hwritten
    exact ⟨t, d, ht, hd, hhost, hwritten [.key "hosts", .index 0],
      hwritten [.key "hosts", .index 1]⟩

end Freepod
