import Mathlib.Algebra.Order.Ring.Int
import Freepod.Platform.Hostnames
import Freepod.Platform.SignIn
import Freepod.Values.Paths
import Freepod.Values.Text

/-!
# The values of a Helm release

`_build_merged_values` of `services/reconcile.py`: the template's system values, the deployment's
user values over them, and over both the system overrides, which the platform builds out of
eleven fragments of the `caelus` namespace.  `validate_user_values` checks the user values against
the chart half of the template's schema.

* `buildSystemOverrides_eq`: the overrides are the namespace of the fragments' fields.
* `uniqueKeys_buildSystemOverrides`: whatever fragments there are, the overrides have unique keys.
* `nodeAt_mergeValuesScoped`: what stands at a path of the merged values.
-/

namespace Freepod
open Base

/-! ## The user values -/

def targetKey : String := "x-caelus-target"

/-- `DOCUMENT_KEYWORDS` -/
def documentKeywords : List String :=
  ["allOf", "anyOf", "oneOf", "not", "if", "then", "else", "dependentRequired",
    "dependentSchemas", "dependencies"]

/-- `_target(prop) == TARGET_RUNTIME` -/
def targetsRuntime (prop : Json) : Bool :=
  match prop.get? targetKey with
  | some (.str target) => decide (target = "runtime")
  | _ => false

/-- whether the schema routes the key of a `required` list to the chart -/
def requiredOfChart (properties : Fields) : Json → Bool
  | .str key => !((properties.lookup key).any targetsRuntime)
  | _ => true

/-- `derive_projections(schema).chart`, of a schema that says something -/
def chartProjection (schema : Json) : Json :=
  let properties := match schema.get? "properties" with
    | some (.obj properties) => properties
    | _ => []
  let required := match schema.get? "required" with
    | some (.arr required) => required
    | _ => []
  let kept := schema.fields.filter fun field =>
    field.1 ∉ ["properties", "required"] ∧ field.1 ∉ documentKeywords
  .obj (kept ++ [("properties", .obj (properties.filter fun field => !targetsRuntime field.2)),
    ("required", .arr (required.filter (requiredOfChart properties)))])

/-- `values_schema_json.get("properties")`, when it is an object -/
def schemaProperties (schema : Json) : Fields :=
  match schema.get? "properties" with
  | some (.obj properties) => properties
  | _ => []

/-- the properties a schema routes to the chart -/
def chartProperties (schema : Json) : Fields :=
  (schemaProperties schema).filter fun field => !targetsRuntime field.2

/-- the chart half of a schema is closed -/
def chartClosed (schema : Json) : Prop :=
  schema.get? "additionalProperties" = some (.bool false) ∧
    schema.get? "patternProperties" = none ∧ schema.get? "$ref" = none

/-- a keyword of the schema that the chart half keeps -/
theorem get?_chartProjection (schema : Json) {key : String}
    (hkey : key ∉ ["properties", "required"] ∧ key ∉ documentKeywords) :
    (chartProjection schema).get? key = schema.get? key := by
  show List.lookup key (_ ++ _) = _
  rw [List.lookup_append, lookup_filter_key (p := fun key =>
    decide (key ∉ ["properties", "required"] ∧ key ∉ documentKeywords)),
    if_pos (decide_eq_true hkey)]
  obtain ⟨hproperties, hrequired⟩ : key ≠ "properties" ∧ key ≠ "required" := by
    simpa using hkey.1
  rw [lookup_cons_ite, if_neg hproperties, lookup_cons_ite, if_neg hrequired]
  exact Option.or_none.trans (fields_lookup schema key)

/-- the chart half declares the chart properties -/
theorem schemaProperties_chartProjection (schema : Json) :
    schemaProperties (chartProjection schema) = chartProperties schema := by
  have hget : (chartProjection schema).get? "properties" = some (.obj (chartProperties schema)) := by
    show List.lookup "properties" (_ ++ _) = _
    rw [List.lookup_append, lookup_filter_key (p := fun key =>
      decide (key ∉ ["properties", "required"] ∧ key ∉ documentKeywords)), if_neg (by decide),
      lookup_cons_ite, if_pos rfl]
    rfl
  rw [schemaProperties, hget]

/-- the chart half of a closed schema is closed -/
theorem chartClosed_chartProjection {schema : Json} (h : chartClosed schema) :
    chartClosed (chartProjection schema) := by
  rw [chartClosed, get?_chartProjection schema (by decide), get?_chartProjection schema (by decide),
    get?_chartProjection schema (by decide)]
  exact h

/-- what `jsonschema.validate` raises -/
inductive SchemaFailure
  | schemaError (message : String)
  | validationError (message : String)

/-- `validate_user_values` -/
def validateUserValues (jsonschemaValidate : (instanceJson schema : Json) →
    Except SchemaFailure Unit) (userValues schema : Json) : Except Refusal Unit :=
  if schema.truthy = false ∧ userValues.truthy = false then .ok ()
  else if schema.truthy = false then
    .error (.integrity "user_values_json not supported on this product template")
  else
    match jsonschemaValidate userValues (chartProjection schema) with
    | .ok () => .ok ()
    | .error (.schemaError message) => .error (.integrity
        ("product template has an invalid values_schema_json: " ++ message))
    | .error (.validationError message) => .error (.integrity
        ("user_values_json is invalid: " ++ message))

/-! ## The fragments -/

structure HelmSettings where
  tenantDomain : String
  tlsClusterIssuer : String
  appAuthVerifyUrl : String
  appAuthOidcIssuer : String
  sftpPlatformPublicKey : String
  s3EndpointUrl : String
  s3Region : String
  registryHost : String

structure HelmUser where
  email : Option String
  id : Option Nat
  keycloakSubject : Option String

structure HelmPlan where
  storageBytes : Option Int

/-- a deployment with the rows its relationships load; `subscription` holds its plan -/
structure HelmDeployment where
  id : String
  name : String
  hostname : Option String
  user : Option HelmUser
  subscription : Option (Option HelmPlan)

structure HelmRelease where
  id : String
  number : Nat

structure DatabaseCredentials where
  host : String
  port : Nat
  database : String
  user : String

/-- what the steps before the merge made: the bucket, the database and the Secrets' names -/
structure HelmResources where
  storage : Option String
  database : Option DatabaseCredentials
  varsSecret : Option String
  pullSecret : Option String
  oidcSecret : Option String

/-- the units of `bytes_to_k8s_size` -/
def sizeUnits : List (String × Int) :=
  [("Ti", 2 ^ 40), ("Gi", 2 ^ 30), ("Mi", 2 ^ 20), ("Ki", 2 ^ 10)]

/-- `bytes_to_k8s_size` -/
def bytesToK8sSize (n : Int) : String :=
  if n = 0 then "0"
  else
    match sizeUnits.find? fun u => u.2 ≤ n ∧ n % u.2 = 0 with
    | some (unit, divisor) => toString (n / divisor) ++ unit
    | none => toString n

def integer (n : Int) : Json := .num n 0

/-- a fragment of the platform's namespace -/
def caelus (fields : Fields) : Json := .obj [("caelus", .obj fields)]

/-- `_build_plan_overrides` -/
def buildPlanOverrides (d : HelmDeployment) : Option Json :=
  match d.subscription.join with
  | none => none
  | some plan =>
    let planValues := match plan.storageBytes with
      | none => []
      | some storageBytes =>
        if storageBytes = 0 then []
        else [("storageBytes", integer storageBytes),
          ("storageSize", .str (bytesToK8sSize storageBytes))]
    some (caelus [("plan", .obj planValues)])

/-- `_build_ingress_overrides` -/
def buildIngressOverrides (cfg : HelmSettings) (d : HelmDeployment) : Option Json :=
  match d.hostname with
  | none => none
  | some hostname =>
    if hostname = "" then none
    else
      let host := lower hostname
      let isWildcard := under host cfg.tenantDomain
      let tls := ("wildcard", Json.bool isWildcard) ::
        if isWildcard then []
        else [("issuer", .str cfg.tlsClusterIssuer), ("secretName", .str (d.name ++ "-tls"))]
      some (caelus [("ingress", .obj [("enabled", .bool true), ("host", .str host),
        ("tls", .obj tls)])])

/-- a field of the owner's, when the text is there and not empty -/
def textField (key : String) : Option String → Fields
  | some text => if text = "" then [] else [(key, .str text)]
  | none => []

/-- the fields of the owner that are there -/
def ownerFields (user : HelmUser) : Fields :=
  textField "email" user.email ++ (user.id.elim [] fun id => [("id", integer id)]) ++
    textField "subject" user.keycloakSubject

/-- `_build_owner_overrides` -/
def buildOwnerOverrides (d : HelmDeployment) : Option Json :=
  match d.user with
  | none => none
  | some user =>
    let owner := ownerFields user
    if owner.isEmpty then none else some (caelus [("owner", .obj owner)])

/-- `_build_object_storage_overrides` -/
def buildObjectStorageOverrides (cfg : HelmSettings) (d : HelmDeployment)
    (storage : Option String) : Option Json :=
  storage.map fun bucket => caelus [("objectStorage", .obj [("bucket", .str bucket),
    ("endpoint", .str cfg.s3EndpointUrl), ("region", .str cfg.s3Region),
    ("secretName", .str (d.name ++ "-object-storage"))])]

/-- `_build_database_overrides` -/
def buildDatabaseOverrides (d : HelmDeployment) (database : Option DatabaseCredentials) :
    Option Json :=
  database.map fun database => caelus [("database", .obj [("host", .str database.host),
    ("port", integer database.port), ("name", .str database.database),
    ("user", .str database.user), ("secretName", .str (d.name ++ "-database"))])]

/-- `_build_vars_overrides` -/
def buildVarsOverrides (varsSecret : Option String) : Option Json :=
  varsSecret.map fun name => caelus [("vars", .obj [("secretName", .str name)])]

/-- `_build_release_overrides` -/
def buildReleaseOverrides (release : HelmRelease) : Json :=
  caelus [("releaseId", .str release.id), ("releaseNumber", .str (toString release.number))]

/-- `_build_ssh_overrides` -/
def buildSshOverrides (cfg : HelmSettings) : Option Json :=
  let key := strip cfg.sftpPlatformPublicKey
  if key = "" then none else some (caelus [("ssh", .obj [("platformPublicKey", .str key)])])

/-- `_build_app_auth_overrides` -/
def buildAppAuthOverrides (cfg : HelmSettings) : Option Json :=
  let url := strip cfg.appAuthVerifyUrl
  if url = "" then none else some (caelus [("appAuth", .obj [("verifyUrl", .str url)])])

/-- `_build_registry_overrides` -/
def buildRegistryOverrides (cfg : HelmSettings) (pullSecret : Option String) : Option Json :=
  pullSecret.map fun name => caelus [("registry", .obj [
    ("prefix", .str (cfg.registryHost ++ "/u")), ("pullSecret", .str name)])]

/-- `_build_oidc_overrides` -/
def buildOidcOverrides (cfg : HelmSettings) (d : HelmDeployment) (oidcSecret : Option String) :
    Option Json :=
  oidcSecret.map fun name => caelus [("oidc", .obj [
    ("issuer", .str (strip cfg.appAuthOidcIssuer)), ("clientId", .str d.id),
    ("secretName", .str name)])]

/-- the contributors of `_build_system_overrides`, in its order -/
def systemFragments (cfg : HelmSettings) (d : HelmDeployment) (release : HelmRelease)
    (x : HelmResources) : List (Option Json) :=
  [buildPlanOverrides d, buildIngressOverrides cfg d, buildOwnerOverrides d,
    buildObjectStorageOverrides cfg d x.storage, buildDatabaseOverrides d x.database,
    buildVarsOverrides x.varsSecret, some (buildReleaseOverrides release), buildSshOverrides cfg,
    buildAppAuthOverrides cfg, buildRegistryOverrides cfg x.pullSecret,
    buildOidcOverrides cfg d x.oidcSecret]

/-- one contributor merged over the others -/
def addFragment (overrides : Json) (part : Option Json) : Json :=
  match part with
  | none => overrides
  | some part => if part.truthy then deepMerge overrides part else overrides

/-- `_build_system_overrides` -/
def buildSystemOverrides (cfg : HelmSettings) (d : HelmDeployment) (release : HelmRelease)
    (x : HelmResources) : Json :=
  let overrides := (systemFragments cfg d release x).foldl addFragment (.obj [])
  if overrides.truthy then overrides else .null

/-- the columns of a template version the merge reads -/
structure HelmTemplate where
  systemValuesJson : Document
  valuesSchemaJson : Json

/-- `_build_merged_values` -/
def buildMergedValues (jsonschemaValidate : (instanceJson schema : Json) →
    Except SchemaFailure Unit) (cfg : HelmSettings) (template : HelmTemplate)
    (d : HelmDeployment) (userValuesJson : Document) (release : HelmRelease)
    (x : HelmResources) : Except Refusal Json := do
  validateUserValues jsonschemaValidate userValuesJson.json template.valuesSchemaJson
  mergeValuesScoped template.systemValuesJson.json userValuesJson.json
    (buildSystemOverrides cfg d release x)

/-! ## The namespace, field by field -/

theorem uniqueKeys_single {key : String} {value : Json} (h : uniqueKeys value = true) :
    uniqueKeys (.obj [(key, value)]) = true := by
  simp only [uniqueKeys, uniqueKeysFields, uniqueKeysField, List.map_cons, List.map_nil,
    List.nodup_cons, List.not_mem_nil, not_false_eq_true, List.nodup_nil, and_self, decide_true,
    Bool.true_and, Bool.and_true]
  exact h

theorem textField_eq (key : String) (text : Option String) :
    textField key text = [] ∨ ∃ x, textField key text = [(key, .str x)] := by
  cases text with
  | none => exact .inl rfl
  | some x =>
    unfold textField
    dsimp only
    split
    · exact .inl rfl
    · exact .inr ⟨x, rfl⟩

theorem uniqueKeys_owner (user : HelmUser) : uniqueKeys (.obj (ownerFields user)) = true := by
  unfold ownerFields
  obtain hemail | ⟨email, hemail⟩ := textField_eq "email" user.email
  · obtain hsubject | ⟨subject, hsubject⟩ := textField_eq "subject" user.keycloakSubject
    · rw [hemail, hsubject]
      cases user.id with
      | none => rfl
      | some id => rfl
    · rw [hemail, hsubject]
      cases user.id with
      | none => rfl
      | some id => rfl
  · obtain hsubject | ⟨subject, hsubject⟩ := textField_eq "subject" user.keycloakSubject
    · rw [hemail, hsubject]
      cases user.id with
      | none => rfl
      | some id => rfl
    · rw [hemail, hsubject]
      cases user.id with
      | none => rfl
      | some id => rfl

/-- a fragment is absent or gives the namespace the fields of the keys -/
def Fragment (keys : List String) (part : Option Json) : Prop :=
  part = none ∨ ∃ fields, part = some (caelus fields) ∧ fields.map Prod.fst = keys ∧
    uniqueKeys (.obj fields) = true

/-- the keys of the fragments of `_build_system_overrides`, in its order -/
def systemKeys : List (List String) :=
  [["plan"], ["ingress"], ["owner"], ["objectStorage"], ["database"], ["vars"],
    ["releaseId", "releaseNumber"], ["ssh"], ["appAuth"], ["registry"], ["oidc"]]

theorem fragment_single {key : String} {inner : Fields} (h : uniqueKeys (.obj inner) = true) :
    Fragment [key] (some (caelus [(key, .obj inner)])) :=
  .inr ⟨_, rfl, rfl, uniqueKeys_single h⟩

/-- **every contributor is a fragment of its own keys** -/
theorem fragment_systemFragments (cfg : HelmSettings) (d : HelmDeployment) (release : HelmRelease)
    (x : HelmResources) : List.Forall₂ Fragment systemKeys (systemFragments cfg d release x) := by
  refine .cons ?plan (.cons ?ingress (.cons ?owner (.cons ?storage (.cons ?database (.cons ?vars
    (.cons ?release (.cons ?ssh (.cons ?appAuth (.cons ?registry (.cons ?oidc .nil))))))))))
  case plan =>
    unfold buildPlanOverrides
    split
    · exact .inl rfl
    · refine fragment_single ?_
      split
      · rfl
      · split
        · rfl
        · rfl
  case ingress =>
    unfold buildIngressOverrides
    split
    · exact .inl rfl
    · split
      · exact .inl rfl
      · refine fragment_single ?_
        split
        · rfl
        · rfl
  case owner =>
    unfold buildOwnerOverrides
    split
    · exact .inl rfl
    · rename_i user _
      dsimp only
      split
      · exact .inl rfl
      · exact fragment_single (uniqueKeys_owner user)
  case storage =>
    cases x.storage with
    | none => exact .inl rfl
    | some bucket => exact fragment_single rfl
  case database =>
    cases x.database with
    | none => exact .inl rfl
    | some database => exact fragment_single rfl
  case vars =>
    cases x.varsSecret with
    | none => exact .inl rfl
    | some name => exact fragment_single rfl
  case release => exact .inr ⟨_, rfl, rfl, rfl⟩
  case ssh =>
    unfold buildSshOverrides
    dsimp only
    split
    · exact .inl rfl
    · exact fragment_single rfl
  case appAuth =>
    unfold buildAppAuthOverrides
    dsimp only
    split
    · exact .inl rfl
    · exact fragment_single rfl
  case registry =>
    cases x.pullSecret with
    | none => exact .inl rfl
    | some name => exact fragment_single rfl
  case oidc =>
    cases x.oidcSecret with
    | none => exact .inl rfl
    | some name => exact fragment_single rfl

/-- what a fragment gives the platform's namespace -/
def fragmentFields (part : Option Json) : Fields :=
  match part with
  | some (.obj [("caelus", .obj fields)]) => fields
  | _ => []

/-- the fields of the platform's namespace, fragment after fragment -/
def systemFields (cfg : HelmSettings) (d : HelmDeployment) (release : HelmRelease)
    (x : HelmResources) : Fields := (systemFragments cfg d release x).flatMap fragmentFields

theorem Fragment.keys_sublist {keys : List String} {part : Option Json} (h : Fragment keys part) :
    ((fragmentFields part).map Prod.fst).Sublist keys := by
  obtain rfl | ⟨fields, rfl, rfl, -⟩ := h
  · exact List.nil_sublist _
  · exact List.Sublist.refl _

theorem keys_flatMap_sublist {keys : List (List String)} {parts : List (Option Json)}
    (h : List.Forall₂ Fragment keys parts) :
    ((parts.flatMap fragmentFields).map Prod.fst).Sublist keys.flatten := by
  induction h with
  | nil => exact List.Sublist.refl _
  | cons hp _ ih =>
    rw [List.flatMap_cons, List.map_append, List.flatten_cons]
    exact hp.keys_sublist.append ih

theorem fragment_of_mem {keys : List (List String)} {parts : List (Option Json)} {part : Option Json}
    (h : List.Forall₂ Fragment keys parts) (hp : part ∈ parts) : ∃ k, Fragment k part := by
  induction h with
  | nil => cases hp
  | cons hf _ ih =>
    obtain rfl | hp := List.mem_cons.mp hp
    · exact ⟨_, hf⟩
    · exact ih hp

theorem nodup_systemFields (cfg : HelmSettings) (d : HelmDeployment) (release : HelmRelease)
    (x : HelmResources) : ((systemFields cfg d release x).map Prod.fst).Nodup :=
  List.Nodup.sublist (keys_flatMap_sublist (fragment_systemFragments cfg d release x))
    (by decide : systemKeys.flatten.Nodup)

/-- the document of a namespace, empty while no fragment has written -/
def namespaceOf (fields : Fields) : Json := if fields = [] then .obj [] else caelus fields

theorem addFragment_namespaceOf {keys : List String} {fields : Fields} {part : Option Json}
    (hp : Fragment keys part) (hk : keys ≠ [])
    (h : ((fields ++ fragmentFields part).map Prod.fst).Nodup) :
    addFragment (namespaceOf fields) part = namespaceOf (fields ++ fragmentFields part) := by
  obtain rfl | ⟨given, rfl, rfl, -⟩ := hp
  · rw [show fragmentFields none = [] from rfl, List.append_nil]
    rfl
  · have hg : fragmentFields (some (caelus given)) = given := rfl
    have hne : given ≠ [] := fun hnil => hk (by rw [hnil, List.map_nil])
    rw [hg] at h ⊢
    rw [show addFragment (namespaceOf fields) (some (caelus given)) =
      deepMerge (namespaceOf fields) (caelus given) from rfl, namespaceOf, namespaceOf,
      if_neg (List.append_ne_nil_of_right_ne_nil fields hne)]
    split
    · rename_i hnil
      rw [hnil, List.nil_append, caelus, deepMerge_obj, mergeFields_append (by simp)]
      rfl
    · have hc : mergeField [("caelus", .obj fields)] ("caelus", .obj given) =
          setKey "caelus" (deepMerge (.obj fields) (.obj given)) [("caelus", .obj fields)] := by
        rw [mergeField]
        rfl
      rw [caelus, caelus, deepMerge_obj, mergeFields, mergeFields, hc, deepMerge_obj,
        mergeFields_append h]
      rfl

theorem foldl_addFragment {keys : List (List String)} {parts : List (Option Json)} {fields : Fields}
    (hp : List.Forall₂ Fragment keys parts) (hk : [] ∉ keys)
    (h : ((fields ++ parts.flatMap fragmentFields).map Prod.fst).Nodup) :
    parts.foldl addFragment (namespaceOf fields) =
      namespaceOf (fields ++ parts.flatMap fragmentFields) := by
  induction hp generalizing fields with
  | nil => rw [List.flatMap_nil, List.append_nil, List.foldl_nil]
  | @cons k part keys parts hp _ ih =>
    rw [List.mem_cons, not_or] at hk
    rw [List.flatMap_cons, ← List.append_assoc] at h ⊢
    have hpart : ((fields ++ fragmentFields part).map Prod.fst).Nodup := by
      rw [List.map_append] at h
      exact h.of_append_left
    rw [List.foldl_cons, addFragment_namespaceOf hp (Ne.symm hk.1) hpart, ih hk.2 h]

/-- **the overrides are the namespace of the fragments' fields** -/
theorem buildSystemOverrides_eq (cfg : HelmSettings) (d : HelmDeployment) (release : HelmRelease)
    (x : HelmResources) :
    buildSystemOverrides cfg d release x = caelus (systemFields cfg d release x) := by
  have hf := fragment_systemFragments cfg d release x
  have hne : systemFields cfg d release x ≠ [] := by
    intro hnil
    have hr : ("releaseId", Json.str release.id) ∈ systemFields cfg d release x :=
      List.mem_flatMap.mpr ⟨some (buildReleaseOverrides release), by simp [systemFragments],
        List.mem_cons_self⟩
    rw [hnil] at hr
    cases hr
  have hfold : (systemFragments cfg d release x).foldl addFragment (.obj []) =
      caelus (systemFields cfg d release x) := by
    refine (@foldl_addFragment systemKeys _ [] hf (by decide)
      (nodup_systemFields cfg d release x)).trans ?_
    rw [List.nil_append, namespaceOf]
    exact if_neg hne
  rw [buildSystemOverrides, hfold]
  rfl

/-- **whatever fragments there are, the overrides have unique keys** -/
theorem uniqueKeys_buildSystemOverrides (cfg : HelmSettings) (d : HelmDeployment)
    (release : HelmRelease) (x : HelmResources) :
    uniqueKeys (buildSystemOverrides cfg d release x) = true := by
  rw [buildSystemOverrides_eq]
  refine uniqueKeys_single (uniqueKeys_obj.mpr ⟨nodup_systemFields cfg d release x, ?_⟩)
  refine uniqueKeysFields_iff.mpr fun e he => ?_
  obtain ⟨part, hpart, he⟩ := List.mem_flatMap.mp he
  obtain ⟨keys, hf⟩ := fragment_of_mem (fragment_systemFragments cfg d release x) hpart
  obtain rfl | ⟨fields, rfl, -, hu⟩ := hf
  · cases he
  · exact uniqueKeysFields_iff.mp (uniqueKeys_obj.mp hu).2 e he

/-! ## What stands at a path of the merged values -/

/-- the layer says what stands at the path, whatever it is merged over -/
def writes (layer : Json) (path : Path) : Bool := !layer.isNull && decides (some layer) path

/-- the template's layer, an empty object when there is none -/
def defaultValues (defaults : Json) : Json := if defaults.isNull then .obj [] else defaults

/-- what the user values leave at the path over the template's -/
def userNode (defaults userScopeDelta : Json) (path : Path) : Option Node :=
  if writes userScopeDelta path = true then nodeAt (some userScopeDelta) path
  else nodeAt (some (defaultValues defaults)) path

theorem nodeAt_mergeLayer {layer : Json} (hu : uniqueKeys layer = true) (merged : Json)
    (path : Path) : nodeAt (some (mergeLayer merged layer)) path =
      if writes layer path = true then nodeAt (some layer) path else nodeAt (some merged) path := by
  unfold mergeLayer writes
  cases hn : layer.isNull with
  | true => rfl
  | false => exact nodeAt_mergeOver hu (some merged) path

/-- **what stands at a path of the merged values**: the overrides where they decide, then the user
values, then the template's -/
theorem nodeAt_mergeValuesScoped {defaults userScopeDelta systemOverrides merged : Json}
    (hu : uniqueKeys userScopeDelta = true) (hs : uniqueKeys systemOverrides = true)
    (h : mergeValuesScoped defaults userScopeDelta systemOverrides = .ok merged) (path : Path) :
    nodeAt (some merged) path =
      if writes systemOverrides path = true then nodeAt (some systemOverrides) path
      else userNode defaults userScopeDelta path := by
  simp only [mergeValuesScoped, bind_eq_ok, pure_eq_ok] at h
  obtain ⟨-, -, -, -, -, -, rfl⟩ := h
  rw [nodeAt_mergeLayer hs, nodeAt_mergeLayer hu]
  rfl

end Freepod
