import Freepod.Platform.HelmValues

/-!
# The platform's namespace of the Helm values

What the platform gives its `caelus` subtree depends on the deployment, the settings and what was
made for it: `reserves` lists it.  Everywhere else in the subtree the tenant has a say.

* `writes_iff_reserved`: the fragments write exactly at the reserved paths.
* `caelus_same_iff`: two admitted documents give the same subtree exactly when they say the same
  at every path of it that is not reserved.
* `caelus_closed`: a chart schema that is closed and names no `caelus` admits no difference.
* `namespace_kept`: both.
* `verifier_named`: an open schema and no verifier configured, and a tenant names its own.
-/

namespace Freepod
open Base

variable {jsonschemaValidate : Json → Json → Except SchemaFailure Unit} {cfg : HelmSettings}
  {template : HelmTemplate} {d : HelmDeployment} {release : HelmRelease} {x : HelmResources}
  {u v : Document} {a b : Json}

/-- a path of the platform's namespace -/
def caelusPath (path : Path) : Path := .key "caelus" :: path

/-! ## What the platform reserves -/

/-- an object of the namespace and the values in it that the platform gives, and when it does -/
structure Reserve where
  given : Bool
  object : List String
  values : List String

/-- the path comes to the object and, if it goes on by a key, to one of the values -/
def Reserve.Covers (r : Reserve) (path : Path) : Prop :=
  r.given = true ∧ ∃ rest, path = r.object.map Step.key ++ rest ∧
    ∀ key, rest.head? = some (.key key) → key ∈ r.values

/-- a text that is there and not empty -/
def given (text : Option String) : Bool := text.any (· ≠ "")

/-- what the platform reserves of its namespace, for a deployment, its settings and resources -/
def reserves (cfg : HelmSettings) (d : HelmDeployment) (x : HelmResources) : List Reserve :=
  let storage := d.subscription.join.bind HelmPlan.storageBytes
  let ownCertificate := given d.hostname && !under (lower (d.hostname.getD "")) cfg.tenantDomain
  [⟨true, [], ["releaseId", "releaseNumber"]⟩,
    ⟨d.subscription.join.isSome, ["plan"], []⟩,
    ⟨storage.any (· ≠ 0), ["plan"], ["storageBytes", "storageSize"]⟩,
    ⟨given d.hostname, ["ingress"], ["enabled", "host"]⟩,
    ⟨given d.hostname, ["ingress", "tls"], ["wildcard"]⟩,
    ⟨ownCertificate, ["ingress", "tls"], ["issuer", "secretName"]⟩,
    ⟨given (d.user.bind HelmUser.email), ["owner"], ["email"]⟩,
    ⟨(d.user.bind HelmUser.id).isSome, ["owner"], ["id"]⟩,
    ⟨given (d.user.bind HelmUser.keycloakSubject), ["owner"], ["subject"]⟩,
    ⟨x.storage.isSome, ["objectStorage"], ["bucket", "endpoint", "region", "secretName"]⟩,
    ⟨x.database.isSome, ["database"], ["host", "port", "name", "user", "secretName"]⟩,
    ⟨x.varsSecret.isSome, ["vars"], ["secretName"]⟩,
    ⟨strip cfg.sftpPlatformPublicKey ≠ "", ["ssh"], ["platformPublicKey"]⟩,
    ⟨strip cfg.appAuthVerifyUrl ≠ "", ["appAuth"], ["verifyUrl"]⟩,
    ⟨x.pullSecret.isSome, ["registry"], ["prefix", "pullSecret"]⟩,
    ⟨x.oidcSecret.isSome, ["oidc"], ["issuer", "clientId", "secretName"]⟩]

/-- the platform says what stands at the path of its namespace -/
def Reserved (cfg : HelmSettings) (d : HelmDeployment) (x : HelmResources) (path : Path) : Prop :=
  ∃ r ∈ reserves cfg d x, r.Covers path

/-! ## The fragments write what is reserved -/

section Cover

variable {object : List String} {key : String} {values more : List String} {path : Path}
  {inner fields : Fields}

theorem not_covers_false : ¬ Reserve.Covers ⟨false, object, values⟩ path :=
  fun h => Bool.false_ne_true h.1

theorem covers_given (g : Bool) : Reserve.Covers ⟨g, object, values⟩ path ↔
    g = true ∧ Reserve.Covers ⟨true, object, values⟩ path := by
  cases g with
  | true => exact ⟨fun h => ⟨rfl, h⟩, And.right⟩
  | false => exact iff_of_false not_covers_false fun h => Bool.false_ne_true h.1

theorem covers_nil {rest : Path} : Reserve.Covers ⟨true, [], values⟩ rest ↔
    ∀ k, rest.head? = some (.key k) → k ∈ values :=
  ⟨fun ⟨_, _, h, hv⟩ => h ▸ hv, fun h => ⟨rfl, rest, rfl, h⟩⟩

theorem covers_cons {g : Bool} : Reserve.Covers ⟨g, key :: object, values⟩ path ↔
    ∃ rest, path = .key key :: rest ∧ Reserve.Covers ⟨g, object, values⟩ rest := by
  constructor
  · rintro ⟨hg, rest, rfl, hv⟩
    exact ⟨object.map Step.key ++ rest, rfl, hg, rest, rfl, hv⟩
  · rintro ⟨_, rfl, hg, rest, rfl, hv⟩
    exact ⟨hg, rest, rfl, hv⟩

theorem covers_append : Reserve.Covers ⟨true, object, values ++ more⟩ path ↔
    Reserve.Covers ⟨true, object, values⟩ path ∨ Reserve.Covers ⟨true, object, more⟩ path := by
  constructor
  · rintro ⟨-, rest, rfl, hv⟩
    by_cases hk : ∀ k, rest.head? = some (.key k) → k ∈ values
    · exact .inl ⟨rfl, rest, rfl, hk⟩
    · refine .inr ⟨rfl, rest, rfl, fun k h => ?_⟩
      refine (List.mem_append.mp (hv k h)).resolve_left fun hmem => hk fun k' h' => ?_
      rw [h] at h'
      cases h'
      exact hmem
  · rintro (⟨-, rest, rfl, hv⟩ | ⟨-, rest, rfl, hv⟩)
    · exact ⟨rfl, rest, rfl, fun k h => List.mem_append_left _ (hv k h)⟩
    · exact ⟨rfl, rest, rfl, fun k h => List.mem_append_right _ (hv k h)⟩

/-- the path enters one of the fields and comes to what the field decides -/
def Enters (fields : Fields) (path : Path) : Prop :=
  ∃ e ∈ fields, ∃ rest, path = .key e.1 :: rest ∧ decides (some e.2) rest = true

theorem not_enters_none : ¬ Enters (fragmentFields none) path :=
  fun ⟨_, he, _⟩ => List.not_mem_nil he

theorem enters_append {more : Fields} :
    Enters (fields ++ more) path ↔ Enters fields path ∨ Enters more path := by
  simp only [Enters, List.mem_append, or_and_right, exists_or]

theorem enters_single {value : Json} : Enters [(key, value)] path ↔
    ∃ rest, path = .key key :: rest ∧ decides (some value) rest = true := by
  simp only [Enters, List.mem_singleton, exists_eq_left]

/-- a path stops at an object, going no further or into a list, or it goes on by a key -/
theorem stops_or_key (path : Path) :
    (∀ k, path.head? ≠ some (.key k)) ∨ ∃ k rest, path = .key k :: rest := by
  cases path with
  | nil =>
    refine .inl fun k h => ?_
    cases h
  | cons step rest =>
    cases step with
    | key k => exact .inr ⟨k, rest, rfl⟩
    | index i =>
      refine .inl fun k h => ?_
      cases h

theorem decides_of_stops (h : ∀ k, path.head? ≠ some (.key k)) :
    decides (some (.obj fields)) path = true := by
  cases path with
  | nil => rfl
  | cons step rest =>
    cases step with
    | key k => exact absurd rfl (h k)
    | index i => rfl

/-- an object decides at itself, and wherever one of its fields does -/
theorem decides_obj (h : (fields.map Prod.fst).Nodup) : decides (some (.obj fields)) path = true ↔
    Reserve.Covers ⟨true, [], []⟩ path ∨ Enters fields path := by
  rw [covers_nil]
  obtain hstop | ⟨k, rest, rfl⟩ := stops_or_key path
  · exact ⟨fun _ => .inl fun k h => absurd h (hstop k), fun _ => decides_of_stops hstop⟩
  · show decides (fields.lookup k) rest = true ↔ _
    constructor
    · intro hd
      cases hv : fields.lookup k with
      | none =>
        rw [hv, decides_none] at hd
        cases hd
      | some value =>
        rw [hv] at hd
        exact .inr ⟨(k, value), mem_of_lookup hv, rest, rfl, hd⟩
    · rintro (hnil | ⟨⟨k, value⟩, he, rest, heq, hd⟩)
      · exact absurd (hnil k rfl) List.not_mem_nil
      · cases heq
        rw [(lookup_eq_some_iff_mem h).mpr he]
        exact hd

/-- the fields that hold no object decide at their keys and below -/
theorem enters_of_flat (hflat : ∀ e ∈ fields, e.2.isObj = false) :
    Reserve.Covers ⟨true, [], []⟩ path ∨ Enters fields path ↔
      Reserve.Covers ⟨true, [], fields.map Prod.fst⟩ path := by
  rw [covers_nil, covers_nil]
  constructor
  · rintro (hnil | ⟨e, he, rest, rfl, -⟩)
    · exact fun k h => absurd (hnil k h) List.not_mem_nil
    · rintro _ ⟨⟩
      exact List.mem_map_of_mem he
  · intro hk
    obtain hstop | ⟨k, rest, rfl⟩ := stops_or_key path
    · exact .inl fun k h => absurd h (hstop k)
    · obtain ⟨e, he, rfl⟩ := List.mem_map.mp (hk k rfl)
      exact .inr ⟨e, he, rest, rfl, decides_of_not_obj (hflat e he) rest⟩

/-- an object of values under a key is reserved with all of its values -/
theorem enters_flat (hn : (inner.map Prod.fst).Nodup) (hflat : ∀ e ∈ inner, e.2.isObj = false) :
    Enters [(key, .obj inner)] path ↔
      Reserve.Covers ⟨true, [key], inner.map Prod.fst⟩ path := by
  simp only [enters_single, covers_cons, decides_obj hn, enters_of_flat hflat]

/-- an object of values under a key, made of what may be there -/
theorem enters_map {α : Type} {part : Option α} {make : α → Fields} {keys : List String}
    (hkeys : ∀ v, (make v).map Prod.fst = keys) (hn : keys.Nodup)
    (hflat : ∀ v, ∀ e ∈ make v, e.2.isObj = false) :
    Enters (fragmentFields (part.map fun v => caelus [(key, .obj (make v))])) path ↔
      Reserve.Covers ⟨part.isSome, [key], keys⟩ path := by
  cases part with
  | none => exact iff_of_false not_enters_none not_covers_false
  | some v =>
    have hv : Enters [(key, .obj (make v))] path ↔
        Reserve.Covers ⟨true, [key], (make v).map Prod.fst⟩ path :=
      enters_flat (hkeys v ▸ hn) (hflat v)
    rw [hkeys v] at hv
    exact hv

/-- a text under a key of its own object, when it is not empty -/
theorem enters_text {text name : String} :
    Enters (fragmentFields (if text = "" then none
      else some (caelus [(key, .obj [(name, .str text)])]))) path ↔
      Reserve.Covers ⟨text ≠ "", [key], [name]⟩ path := by
  rw [covers_given, decide_eq_true_iff]
  by_cases h : text = ""
  · rw [if_pos h]
    exact iff_of_false not_enters_none fun hc => hc.1 h
  · rw [if_neg h]
    have ht : Enters [(key, .obj [(name, .str text)])] path ↔
        Reserve.Covers ⟨true, [key], [name]⟩ path := by
      refine enters_flat (List.nodup_singleton name) fun e he => ?_
      rw [List.mem_singleton.mp he]
      rfl
    exact ht.trans ⟨fun hc => ⟨h, hc⟩, And.right⟩

end Cover

theorem enters_plan {path : Path} : Enters (fragmentFields (buildPlanOverrides d)) path ↔
    Reserve.Covers ⟨d.subscription.join.isSome, ["plan"], []⟩ path ∨
    Reserve.Covers ⟨(d.subscription.join.bind HelmPlan.storageBytes).any (· ≠ 0), ["plan"],
      ["storageBytes", "storageSize"]⟩ path := by
  rw [buildPlanOverrides]
  cases d.subscription.join with
  | none => exact iff_of_false not_enters_none (not_or.mpr ⟨not_covers_false, not_covers_false⟩)
  | some plan =>
    have hempty : Enters [("plan", .obj [])] path ↔ Reserve.Covers ⟨true, ["plan"], []⟩ path :=
      enters_flat List.nodup_nil fun e he => absurd he List.not_mem_nil
    cases hb : plan.storageBytes with
    | none => simpa [hb, fragmentFields, caelus, not_covers_false] using hempty
    | some bytes =>
      by_cases h0 : bytes = 0
      · simpa [hb, h0, fragmentFields, caelus, not_covers_false] using hempty
      · have hgiven : Enters [("plan", .obj [("storageBytes", integer bytes),
            ("storageSize", .str (bytesToK8sSize bytes))])] path ↔
            Reserve.Covers ⟨true, ["plan"], [] ++ ["storageBytes", "storageSize"]⟩ path :=
          enters_flat (by simp) (by simp [Json.isObj, integer])
        rw [covers_append] at hgiven
        simpa [hb, h0, fragmentFields, caelus] using hgiven

theorem enters_tls {wildcard : Bool} {issuer secretName : String} {path : Path} :
    Enters [("tls", .obj (("wildcard", .bool wildcard) ::
      if wildcard then [] else [("issuer", .str issuer), ("secretName", .str secretName)]))] path ↔
      Reserve.Covers ⟨true, ["tls"], ["wildcard"]⟩ path ∨
      Reserve.Covers ⟨!wildcard, ["tls"], ["issuer", "secretName"]⟩ path := by
  cases wildcard with
  | true =>
    refine (enters_flat ?_ ?_).trans (or_iff_left not_covers_false).symm
    · exact List.nodup_singleton _
    · simp [Json.isObj]
  | false =>
    have happ : Reserve.Covers ⟨true, ["tls"], ["wildcard"] ++ ["issuer", "secretName"]⟩ path ↔ _ :=
      covers_append
    refine (enters_flat ?_ ?_).trans happ
    · simp
    · simp [Json.isObj]

theorem enters_ingress {path : Path} :
    Enters (fragmentFields (buildIngressOverrides cfg d)) path ↔
    Reserve.Covers ⟨given d.hostname, ["ingress"], ["enabled", "host"]⟩ path ∨
    Reserve.Covers ⟨given d.hostname, ["ingress", "tls"], ["wildcard"]⟩ path ∨
    Reserve.Covers ⟨given d.hostname && !under (lower (d.hostname.getD "")) cfg.tenantDomain,
      ["ingress", "tls"], ["issuer", "secretName"]⟩ path := by
  rw [buildIngressOverrides]
  cases d.hostname with
  | none =>
    exact iff_of_false not_enters_none (by simp [given, not_covers_false])
  | some hostname =>
    by_cases h0 : hostname = ""
    · simp [h0, not_enters_none, given, not_covers_false]
    · have hg : given (some hostname) = true := by simp [given, h0]
      rw [hg, Bool.true_and]
      dsimp only
      rw [if_neg h0, Option.getD_some]
      generalize under (lower hostname) cfg.tenantDomain = wildcard
      generalize htls : (("wildcard", Json.bool wildcard) :: if wildcard then [] else
        [("issuer", .str cfg.tlsClusterIssuer), ("secretName", .str (d.name ++ "-tls"))]) = tls
      have hrest : ∀ rest, decides (some (.obj [("enabled", .bool true),
          ("host", .str (lower hostname)), ("tls", .obj tls)])) rest = true ↔
          Reserve.Covers ⟨true, [], ["enabled", "host"]⟩ rest ∨
          Reserve.Covers ⟨true, ["tls"], ["wildcard"]⟩ rest ∨
          Reserve.Covers ⟨!wildcard, ["tls"], ["issuer", "secretName"]⟩ rest := by
        intro rest
        have hflat : Reserve.Covers ⟨true, [], []⟩ rest ∨ Enters [("enabled", .bool true),
            ("host", .str (lower hostname))] rest ↔
            Reserve.Covers ⟨true, [], ["enabled", "host"]⟩ rest :=
          enters_of_flat (by simp [Json.isObj])
        have happ : [("enabled", Json.bool true), ("host", .str (lower hostname)),
            ("tls", .obj tls)] = [("enabled", .bool true), ("host", .str (lower hostname))] ++
              [("tls", .obj tls)] := rfl
        rw [decides_obj (by simp), happ, enters_append, ← or_assoc, hflat, ← htls, enters_tls]
      simp only [fragmentFields, caelus, enters_single, hrest, covers_cons, and_or_left, exists_or]

/-- the path comes to the object of the fields, which is there when it has any -/
def Reaches (fields : Fields) (path : Path) : Prop :=
  fields ≠ [] ∧ (Reserve.Covers ⟨true, [], []⟩ path ∨ Enters fields path)

theorem reaches_append {fields more : Fields} {path : Path} :
    Reaches (fields ++ more) path ↔ Reaches fields path ∨ Reaches more path := by
  have hne : ∀ {fs : Fields}, Enters fs path → fs ≠ [] := fun ⟨_, he, _⟩ => List.ne_nil_of_mem he
  constructor
  · rintro ⟨h, hc | he⟩
    · by_cases hf : fields = []
      · exact .inr ⟨fun hm => h (by rw [hf, hm, List.append_nil]), .inl hc⟩
      · exact .inl ⟨hf, .inl hc⟩
    · obtain he | he := enters_append.mp he
      · exact .inl ⟨hne he, .inr he⟩
      · exact .inr ⟨hne he, .inr he⟩
  · rintro (⟨h, hc⟩ | ⟨h, hc⟩)
    · exact ⟨fun hn => h (List.append_eq_nil_iff.mp hn).1, hc.imp_right fun he =>
        enters_append.mpr (.inl he)⟩
    · exact ⟨fun hn => h (List.append_eq_nil_iff.mp hn).2, hc.imp_right fun he =>
        enters_append.mpr (.inr he)⟩

theorem not_reaches_nil {path : Path} : ¬ Reaches [] path := fun h => h.1 rfl

theorem reaches_single {key : String} {value : Json} {path : Path} (h : value.isObj = false) :
    Reaches [(key, value)] path ↔ Reserve.Covers ⟨true, [], [key]⟩ path := by
  refine (and_iff_right (List.cons_ne_nil _ _)).trans (enters_of_flat fun e he => ?_)
  rw [List.mem_singleton.mp he]
  exact h

theorem reaches_textField {key : String} {text : Option String} {path : Path} :
    Reaches (textField key text) path ↔ Reserve.Covers ⟨given text, [], [key]⟩ path := by
  cases text with
  | none => exact iff_of_false not_reaches_nil not_covers_false
  | some text =>
    by_cases h : text = ""
    · rw [h]
      exact iff_of_false not_reaches_nil not_covers_false
    · have hg : given (some text) = true := by simp [given, h]
      rw [textField, if_neg h, hg]
      exact reaches_single rfl

theorem enters_owner {path : Path} : Enters (fragmentFields (buildOwnerOverrides d)) path ↔
    Reserve.Covers ⟨given (d.user.bind HelmUser.email), ["owner"], ["email"]⟩ path ∨
    Reserve.Covers ⟨(d.user.bind HelmUser.id).isSome, ["owner"], ["id"]⟩ path ∨
    Reserve.Covers ⟨given (d.user.bind HelmUser.keycloakSubject), ["owner"], ["subject"]⟩ path := by
  rw [buildOwnerOverrides]
  cases d.user with
  | none =>
    exact iff_of_false not_enters_none (by simp [given, not_covers_false])
  | some user =>
    have hid : ∀ rest, Reaches (user.id.elim [] fun id => [("id", integer id)]) rest ↔
        Reserve.Covers ⟨user.id.isSome, [], ["id"]⟩ rest := by
      intro rest
      cases user.id with
      | none => exact iff_of_false not_reaches_nil not_covers_false
      | some id => exact reaches_single rfl
    have hreach : ∀ rest, Reaches (ownerFields user) rest ↔
        Reserve.Covers ⟨given user.email, [], ["email"]⟩ rest ∨
        Reserve.Covers ⟨user.id.isSome, [], ["id"]⟩ rest ∨
        Reserve.Covers ⟨given user.keycloakSubject, [], ["subject"]⟩ rest := by
      intro rest
      rw [ownerFields, reaches_append, reaches_append, reaches_textField, reaches_textField, hid,
        or_assoc]
    have hpart : Enters (fragmentFields (if (ownerFields user).isEmpty then none
        else some (caelus [("owner", .obj (ownerFields user))]))) path ↔
        ∃ rest, path = .key "owner" :: rest ∧ Reaches (ownerFields user) rest := by
      by_cases hn : ownerFields user = []
      · rw [hn]
        exact iff_of_false not_enters_none fun ⟨_, _, hr⟩ => hr.1 rfl
      · have he : (ownerFields user).isEmpty = false := by
          rw [List.isEmpty_eq_false_iff]
          exact hn
        rw [he]
        refine enters_single.trans (exists_congr fun rest => and_congr_right fun _ => ?_)
        rw [decides_obj (uniqueKeys_obj.mp (uniqueKeys_owner user)).1, Reaches, and_iff_right hn]
    refine hpart.trans ?_
    simp only [hreach, Option.bind_some, covers_cons, and_or_left, exists_or]

/-- **the fragments write exactly what is reserved** -/
theorem writes_iff_reserved {path : Path} :
    writes (buildSystemOverrides cfg d release x) (caelusPath path) = true ↔
      Reserved cfg d x path := by
  have hdec : writes (buildSystemOverrides cfg d release x) (caelusPath path) =
      decides (some (.obj (systemFields cfg d release x))) path := by
    rw [buildSystemOverrides_eq]
    rfl
  have hsplit : Enters (systemFields cfg d release x) path ↔
      ∃ part ∈ systemFragments cfg d release x, Enters (fragmentFields part) path := by
    simp only [Enters, systemFields, List.mem_flatMap]
    exact ⟨fun ⟨e, ⟨part, hp, he⟩, hr⟩ => ⟨part, hp, e, he, hr⟩,
      fun ⟨part, hp, e, he, hr⟩ => ⟨e, ⟨part, hp, he⟩, hr⟩⟩
  have hrelease : Reserve.Covers ⟨true, [], []⟩ path ∨
      Enters (fragmentFields (some (buildReleaseOverrides release))) path ↔
      Reserve.Covers ⟨true, [], ["releaseId", "releaseNumber"]⟩ path := by
    refine enters_of_flat fun e he => ?_
    obtain rfl | he := List.mem_cons.mp he
    · rfl
    · rw [List.mem_singleton.mp he]
      rfl
  have hstorage : Enters (fragmentFields (buildObjectStorageOverrides cfg d x.storage)) path ↔
      Reserve.Covers ⟨x.storage.isSome, ["objectStorage"],
        ["bucket", "endpoint", "region", "secretName"]⟩ path :=
    enters_map (fun _ => rfl) (by decide) (by simp [Json.isObj])
  have hdatabase : Enters (fragmentFields (buildDatabaseOverrides d x.database)) path ↔
      Reserve.Covers ⟨x.database.isSome, ["database"],
        ["host", "port", "name", "user", "secretName"]⟩ path :=
    enters_map (fun _ => rfl) (by decide) (by simp [Json.isObj, integer])
  have hvars : Enters (fragmentFields (buildVarsOverrides x.varsSecret)) path ↔
      Reserve.Covers ⟨x.varsSecret.isSome, ["vars"], ["secretName"]⟩ path :=
    enters_map (fun _ => rfl) (by decide) (by simp [Json.isObj])
  have hregistry : Enters (fragmentFields (buildRegistryOverrides cfg x.pullSecret)) path ↔
      Reserve.Covers ⟨x.pullSecret.isSome, ["registry"], ["prefix", "pullSecret"]⟩ path :=
    enters_map (fun _ => rfl) (by decide) (by simp [Json.isObj])
  have hoidc : Enters (fragmentFields (buildOidcOverrides cfg d x.oidcSecret)) path ↔
      Reserve.Covers ⟨x.oidcSecret.isSome, ["oidc"], ["issuer", "clientId", "secretName"]⟩ path :=
    enters_map (fun _ => rfl) (by decide) (by simp [Json.isObj])
  have hssh : Enters (fragmentFields (buildSshOverrides cfg)) path ↔ _ := enters_text
  have hauth : Enters (fragmentFields (buildAppAuthOverrides cfg)) path ↔ _ := enters_text
  rw [hdec, decides_obj (nodup_systemFields cfg d release x), hsplit]
  simp only [systemFragments, Reserved, reserves, List.mem_cons, List.not_mem_nil, or_false,
    exists_eq_or_imp, exists_eq_left]
  rw [← hrelease, enters_plan, enters_ingress, enters_owner, hstorage, hdatabase, hvars, hssh,
    hauth, hregistry, hoidc]
  exact iff_of_eq (by ac_rfl)

/-! ## What a tenant controls -/

theorem nodeAt_get? (a : Json) (key : String) (path : Path) :
    nodeAt (a.get? key) path = nodeAt (some a) (.key key :: path) := by
  cases a with
  | obj fields => rfl
  | _ => exact nodeAt_none path

/-- what stands at a path of the namespace, for an admitted document -/
theorem nodeAt_caelus
    (h : buildMergedValues jsonschemaValidate cfg template d u release x = .ok a) (path : Path) :
    nodeAt (a.get? "caelus") path =
      if writes (buildSystemOverrides cfg d release x) (caelusPath path) = true then
        nodeAt (some (buildSystemOverrides cfg d release x)) (caelusPath path)
      else userNode template.systemValuesJson.json u.json (caelusPath path) := by
  rw [buildMergedValues, bind_eq_ok] at h
  obtain ⟨-, -, h⟩ := h
  rw [nodeAt_get?]
  exact nodeAt_mergeValuesScoped u.unique (uniqueKeys_buildSystemOverrides cfg d release x) h _

/-- the two documents say the same wherever the platform reserves nothing: a document's own node
where it has a value or an object, else the template's -/
def SameUnreserved (cfg : HelmSettings) (template : HelmTemplate) (d : HelmDeployment)
    (x : HelmResources) (u v : Document) : Prop :=
  ∀ path, ¬ Reserved cfg d x path →
    userNode template.systemValuesJson.json u.json (caelusPath path) =
      userNode template.systemValuesJson.json v.json (caelusPath path)

/-- **what of the namespace a tenant controls**: two admitted documents give the same subtree
exactly when they say the same where nothing is reserved -/
theorem caelus_same_iff
    (hu : buildMergedValues jsonschemaValidate cfg template d u release x = .ok a)
    (hv : buildMergedValues jsonschemaValidate cfg template d v release x = .ok b) :
    SameDocument (a.get? "caelus") (b.get? "caelus") ↔ SameUnreserved cfg template d x u v := by
  constructor
  · intro h path hr
    have hp := h path
    rw [nodeAt_caelus hu, nodeAt_caelus hv, if_neg (mt writes_iff_reserved.mp hr),
      if_neg (mt writes_iff_reserved.mp hr)] at hp
    exact hp
  · intro h path
    rw [nodeAt_caelus hu, nodeAt_caelus hv]
    by_cases hr : Reserved cfg d x path
    · rw [if_pos (writes_iff_reserved.mpr hr), if_pos (writes_iff_reserved.mpr hr)]
    · rw [if_neg (mt writes_iff_reserved.mp hr), if_neg (mt writes_iff_reserved.mp hr)]
      exact h path hr

/-- a document without the key leaves the namespace to the template -/
theorem userNode_of_absent {defaults : Json} (h : u.json.fields.lookup "caelus" = none)
    (path : Path) : userNode defaults u.json (caelusPath path) =
      nodeAt (some (defaultValues defaults)) (caelusPath path) := by
  have hw : writes u.json (caelusPath path) = false := by
    obtain hn | ho := u.cases
    · rw [hn]
      rfl
    · rw [ho]
      show decides (u.json.fields.lookup "caelus") path = false
      rw [h, decides_none]
  rw [userNode, hw]
  rfl

/-- **without the key in either document the subtree is the platform's**, whatever fragments there
are -/
theorem caelus_reserved (hu : u.json.fields.lookup "caelus" = none)
    (hv : v.json.fields.lookup "caelus" = none)
    (ha : buildMergedValues jsonschemaValidate cfg template d u release x = .ok a)
    (hb : buildMergedValues jsonschemaValidate cfg template d v release x = .ok b) :
    SameDocument (a.get? "caelus") (b.get? "caelus") := by
  refine (caelus_same_iff ha hb).mpr fun path _ => ?_
  rw [userNode_of_absent hu, userNode_of_absent hv]

/-- a closed schema admits no key that it does not declare -/
def RefusesOthers (jsonschemaValidate : Json → Json → Except SchemaFailure Unit) : Prop :=
  ∀ instanceJson schema, jsonschemaValidate instanceJson schema = .ok () → chartClosed schema →
    ∀ key, (schemaProperties schema).lookup key = none → instanceJson.fields.lookup key = none

/-- a document that a closed schema admits has no key the chart half does not declare -/
theorem absent_of_closed {key : String} (hvalid : RefusesOthers jsonschemaValidate)
    (hclosed : chartClosed template.valuesSchemaJson)
    (hkey : (chartProperties template.valuesSchemaJson).lookup key = none)
    (h : buildMergedValues jsonschemaValidate cfg template d u release x = .ok a) :
    u.json.fields.lookup key = none := by
  rw [buildMergedValues, bind_eq_ok] at h
  obtain ⟨_, hadmitted, -⟩ := h
  unfold validateUserValues at hadmitted
  split at hadmitted
  · -- a document that says nothing needs no schema
    rename_i hempty
    obtain hnull | hobj := u.cases
    · rw [hnull]
      rfl
    · have hfields : u.json.fields = [] := by
        rw [hobj] at hempty
        simpa [Json.truthy] using hempty.2
      rw [hfields]
      rfl
  · split at hadmitted
    · cases hadmitted
    · split at hadmitted
      · rename_i hjs
        refine hvalid _ _ hjs (chartClosed_chartProjection hclosed) key ?_
        rw [schemaProperties_chartProjection]
        exact hkey
      · cases hadmitted
      · cases hadmitted

/-- **a closed schema whose chart half does not declare `caelus` keeps the namespace the
platform's** -/
theorem caelus_closed (hvalid : RefusesOthers jsonschemaValidate)
    (hclosed : chartClosed template.valuesSchemaJson)
    (hkey : (chartProperties template.valuesSchemaJson).lookup "caelus" = none)
    (ha : buildMergedValues jsonschemaValidate cfg template d u release x = .ok a)
    (hb : buildMergedValues jsonschemaValidate cfg template d v release x = .ok b) :
    SameDocument (a.get? "caelus") (b.get? "caelus") :=
  caelus_reserved (absent_of_closed hvalid hclosed hkey ha)
    (absent_of_closed hvalid hclosed hkey hb) ha hb

/-- **the namespace of two admitted documents is the same** exactly when they say the same where
nothing is reserved; and always, if the schema is closed and its chart half declares no `caelus` -/
theorem namespace_kept
    (hu : buildMergedValues jsonschemaValidate cfg template d u release x = .ok a)
    (hv : buildMergedValues jsonschemaValidate cfg template d v release x = .ok b) :
    (SameDocument (a.get? "caelus") (b.get? "caelus") ↔ SameUnreserved cfg template d x u v) ∧
      (RefusesOthers jsonschemaValidate → chartClosed template.valuesSchemaJson →
        (chartProperties template.valuesSchemaJson).lookup "caelus" = none →
        SameDocument (a.get? "caelus") (b.get? "caelus")) :=
  ⟨caelus_same_iff hu hv, fun hvalid hclosed hkey => caelus_closed hvalid hclosed hkey hu hv⟩

/-! ## A tenant that names the verifier -/

/-- the validator on a schema that asks for an object and nothing else -/
def anyObject (instanceJson _schema : Json) : Except SchemaFailure Unit :=
  if instanceJson.isObj then .ok () else .error (.validationError "is not of type 'object'")

def HelmTemplate.sample : HelmTemplate where
  systemValuesJson := ⟨.obj [], rfl, rfl⟩
  valuesSchemaJson := .obj [("type", .str "object")]

/-- settings without a verifier -/
def HelmSettings.sample : HelmSettings where
  tenantDomain := "freepod.app"
  tlsClusterIssuer := "letsencrypt-http"
  appAuthVerifyUrl := ""
  appAuthOidcIssuer := ""
  sftpPlatformPublicKey := ""
  s3EndpointUrl := ""
  s3Region := "garage"
  registryHost := "registry.freepod.eu"

def HelmDeployment.sample : HelmDeployment where
  id := "9f2c7a3e-0000-4000-8000-000000000001"
  name := "notes"
  hostname := some "notes-bob.freepod.app"
  user := some ⟨some "bob@example.org", some 7, none⟩
  subscription := some (some ⟨some 1073741824⟩)

def HelmResources.sample : HelmResources := ⟨none, none, none, none, none⟩

def HelmRelease.sample : HelmRelease := ⟨"9f2c7a3e-0000-4000-8000-000000000002", 1⟩

/-- user values that name a verifier -/
def ownVerifier : Document where
  json := .obj [("caelus", .obj [("appAuth", .obj [("verifyUrl", .str "https://own.example")])])]
  stored := rfl
  unique := by decide

/-- user values under a path the plan's fragment decides -/
def ownPlan : Document where
  json := .obj [("caelus", .obj [("plan", .obj [("storageSize", .str "999Ti")])])]
  stored := rfl
  unique := by decide

def emptyValues : Document := ⟨.obj [], rfl, rfl⟩

/-- the merged values of the sample deployment -/
def sampleValues (u : Document) : Except Refusal Json :=
  buildMergedValues anyObject .sample .sample .sample u .sample .sample

/-- what is reserved for the plan is all that `ownPlan` says -/
theorem sameUnreserved_ownPlan :
    SameUnreserved .sample .sample .sample .sample emptyValues ownPlan := by
  intro path hr
  have hw : writes (buildSystemOverrides .sample .sample .sample .sample) (caelusPath path) =
      false := Bool.eq_false_iff.mpr (mt writes_iff_reserved.mp hr)
  have hundecided : ∀ rest, writes ownPlan.json (caelusPath rest) = false →
      userNode (.obj []) ownPlan.json (caelusPath rest) =
        userNode (.obj []) emptyValues.json (caelusPath rest) := by
    intro rest hr
    rw [userNode, hr, userNode_of_absent (u := emptyValues) rfl]
    rfl
  refine (hundecided path ?_).symm
  cases path with
  | nil => cases hw
  | cons step rest =>
    cases step with
    | index i => cases hw
    | key k =>
      by_cases hk : k = "plan"
      · subst hk
        cases rest with
        | nil => cases hw
        | cons step rest =>
          cases step with
          | index i => cases hw
          | key k =>
            by_cases hk : k = "storageSize"
            · subst hk
              have hd : decides (some (.str "1Gi")) rest = false := hw
              rw [decides_of_not_obj rfl] at hd
              cases hd
            · show decides (([("storageSize", Json.str "999Ti")] : Fields).lookup k) rest = false
              rw [lookup_cons_ite, if_neg hk, List.lookup_nil, decides_none]
      · show decides (([("plan", Json.obj [("storageSize", .str "999Ti")])] : Fields).lookup k)
          rest = false
        rw [lookup_cons_ite, if_neg hk, List.lookup_nil, decides_none]

/-- a tenant's own plan over the platform's changes nothing -/
theorem caelus_same_ownPlan : ∃ a b, sampleValues emptyValues = .ok a ∧
    sampleValues ownPlan = .ok b ∧ SameDocument (a.get? "caelus") (b.get? "caelus") := by
  obtain ⟨a, ha⟩ : ∃ a, sampleValues emptyValues = .ok a := ⟨_, rfl⟩
  obtain ⟨b, hb⟩ : ∃ b, sampleValues ownPlan = .ok b := ⟨_, rfl⟩
  exact ⟨a, b, ha, hb, (namespace_kept (u := emptyValues) (v := ownPlan) ha hb).1.mpr
    sameUnreserved_ownPlan⟩

theorem sampleValues_ok : ∃ a b, sampleValues emptyValues = .ok a ∧
    sampleValues ownVerifier = .ok b ∧
    nodeAt (a.get? "caelus") [.key "appAuth", .key "verifyUrl"] = none ∧
    nodeAt (b.get? "caelus") [.key "appAuth", .key "verifyUrl"] =
      some (.str "https://own.example") :=
  ⟨_, _, rfl, rfl, by decide +kernel, by decide +kernel⟩

/-- **a tenant names its verifier** where the schema is open and none is configured -/
theorem verifier_named : ∃ a b, sampleValues emptyValues = .ok a ∧
    sampleValues ownVerifier = .ok b ∧ ¬ SameDocument (a.get? "caelus") (b.get? "caelus") := by
  obtain ⟨a, b, ha, hb, hna, hnb⟩ := sampleValues_ok
  refine ⟨a, b, ha, hb, fun h => ?_⟩
  have hp := h [.key "appAuth", .key "verifyUrl"]
  rw [hna, hnb] at hp
  cases hp

end Freepod
