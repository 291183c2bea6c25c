import Freepod.Platform.SignIn

/-!
# One sign-in policy

The API merges the release's values over the template's and inspects the result; app-auth takes the
first text of the two documents and casts it.

* `signIn_agrees`: both read the same policy iff the documents read alike.
* `signIn_disagrees`: they part on a switch that is the string `true`.
-/

namespace Freepod
open Base

/-! ## The two readings -/

structure SignInPolicy where
  header : Bool
  oidc : Bool
  listed : Bool
  deriving DecidableEq, Repr

def AuthSettings.policy (a : AuthSettings) : SignInPolicy :=
  { header := a.header, oidc := a.oidc, listed := a.listed }

/-- the policy the two queries of app-auth enforce -/
def appAuthPolicy (release template : Json) : Except SqlError SignInPolicy := do
  let header ← eligible release template
  let oidc ← ssoClient release template
  pure { header := header.isSome, oidc := oidc.isSome, listed := (header.or oidc).getD false }

/-- both services read the documents, and read one policy -/
def SamePolicy (template release : Document) : Prop :=
  ∃ settings, authSettings template.json release.json = .ok settings ∧
    appAuthPolicy release.json template.json = .ok settings.policy

/-! ## When the documents read alike -/

/-- the value of a key of `auth`, none for a null -/
def authValue (document : Json) (key : String) : Option Json :=
  ((document.get? "auth").bind (·.get? key)).filter (!·.isNull)

/-- the release's value, else the template's -/
def firstValue (template release : Document) (key : String) : Option Json :=
  (authValue release.json key).or (authValue template.json key)

/-- a null in the release, or an `auth` that is no object, hides the template's value from the
merge -/
def hidden (release : Document) (key : String) : Bool :=
  match release.json.get? "auth" with
  | none => false
  | some (.obj auth) => (auth.lookup key).any Json.isNull
  | some _ => true

/-- the queries read the template only where the release has no value -/
def Readable (template release : Document) (key : String) : Prop :=
  nulFree release.json = true ∧
    (authValue release.json key = none → nulFree template.json = true)

def isWord (word : String) (value : Option Json) : Bool := value.any (Json.isStr word)

/-- the default of the contract, stated or left out -/
def isDefault (word : String) (value : Option Json) : Bool := value.isNone || isWord word value

/-- what the switch says when its text is cast -/
def spelledAs : Option Json → Option Bool
  | none => some false
  | some value => parseBoolean value.text

def knownProtocol (value : Option Json) : Bool := isDefault "header" value || isWord "oidc" value

/-- app-auth finds sign-in switched on, with a protocol it knows -/
def SignsIn (template release : Document) : Prop :=
  spelledAs (firstValue template release "enabled") = some true ∧
    knownProtocol (firstValue template release "protocol") = true

structure ReadAlike (template release : Document) : Prop where
  enabled : Readable template release "enabled"
  protocol : Readable template release "protocol"
  access : SignsIn template release → Readable template release "access"
  spelled : ∃ b, spelledAs (firstValue template release "enabled") = some b
  /-- where app-auth lets people in, the switch is a boolean and nothing that matters is hidden -/
  on : SignsIn template release →
    isTrue (firstValue template release "enabled") = true ∧ hidden release "enabled" = false ∧
    (hidden release "protocol" = true →
      isDefault "header" (firstValue template release "protocol") = true) ∧
    (hidden release "access" = true →
      isDefault "anyone" (firstValue template release "access") = true)
  /-- where the switch is on, an unknown protocol is not hidden -/
  off : isTrue (firstValue template release "enabled") = true → hidden release "enabled" = false →
    hidden release "protocol" = true →
      knownProtocol (firstValue template release "protocol") = true

/-- a policy from the switch, the protocol and the access -/
def policyOf (on : Bool) (protocol access : Option Json) : SignInPolicy where
  header := on && isDefault "header" protocol
  oidc := on && isWord "oidc" protocol
  listed := on && knownProtocol protocol && !isDefault "anyone" access

/-! ## The API -/

/-- equal, or two objects, which the settings do not tell apart -/
def Alike (v w : Option Json) : Prop := v = w ∨ ∃ f g, v = some (.obj f) ∧ w = some (.obj g)

theorem Alike.isTrue {v w : Option Json} (h : Alike v w) : Freepod.isTrue v = Freepod.isTrue w := by
  obtain rfl | ⟨f, g, rfl, rfl⟩ := h <;> rfl

theorem Alike.isWord {v w : Option Json} (h : Alike v w) (word : String) :
    Freepod.isWord word v = Freepod.isWord word w := by
  obtain rfl | ⟨f, g, rfl, rfl⟩ := h <;> rfl

theorem Alike.isDefault {v w : Option Json} (h : Alike v w) (word : String) :
    Freepod.isDefault word v = Freepod.isDefault word w := by
  obtain rfl | ⟨f, g, rfl, rfl⟩ := h <;> rfl

theorem Alike.policyOf {p q a b : Option Json} (hp : Alike p q) (ha : Alike a b) (on : Bool) :
    Freepod.policyOf on p a = Freepod.policyOf on q b := by
  simp only [Freepod.policyOf, knownProtocol, hp.isDefault, hp.isWord, ha.isDefault]

theorem mergeValuesScoped_ok (template release : Document) :
    mergeValuesScoped template.json release.json .null =
      .ok (.obj (mergeFields template.json.fields release.json.fields)) := by
  obtain ht | ht := template.cases <;> obtain hr | hr := release.cases <;> rw [ht, hr] <;>
    simp [mergeValuesScoped, requireObject, require, mergeLayer, Json.isNull, Json.isObj,
      Json.fields, deepMerge_obj, mergeFields] <;> rfl

/-- the fields of `auth` after the merge -/
theorem get?_merged (template release : Document) (key : String) :
    (Json.obj (mergeFields template.json.fields release.json.fields)).get? key =
      match release.json.fields.lookup key with
      | some value => some (mergeOver (template.json.fields.lookup key) value)
      | none => template.json.fields.lookup key :=
  lookup_mergeFields release.nodup _ _

theorem Document.get? (d : Document) (key : String) : d.json.get? key = d.json.fields.lookup key := by
  obtain h | h := d.cases <;> rw [h] <;> rfl

theorem authValue_eq {document : Json} {auth : Option Json} (h : document.get? "auth" = auth)
    (key : String) : authValue document key = (auth.bind (·.get? key)).filter (!·.isNull) := by
  rw [authValue, h]

theorem get?_of_not_obj {value : Json} (h : value.isObj = false) (key : String) :
    value.get? key = none := by
  cases value with
  | obj fields => cases h
  | _ => rfl

/-- a value over another one, up to the fields of an object -/
theorem mergeOver_alike (base : Option Json) (value : Json) :
    Alike (some (mergeOver base value)) (some value) := by
  cases hv : value.isObj with
  | false => exact .inl (by rw [mergeOver_of_not_obj hv])
  | true =>
    cases value with
    | obj fields =>
      obtain _ | base := base
      · exact .inl rfl
      cases hb : base.isObj with
      | false => exact .inl (by rw [mergeOver, deepMerge_of_not_obj (.inl hb)])
      | true =>
        cases base with
        | obj base => exact .inr ⟨mergeFields base fields, fields, congrArg _ (deepMerge_obj _ _), rfl⟩
        | _ => cases hb
    | _ => cases hv

/-- an `auth` of the release over one of the template -/
theorem get?_mergeOver_auth (base : Option Json) {auth : Fields} (h : (auth.map Prod.fst).Nodup)
    (key : String) : (mergeOver base (.obj auth)).get? key =
      match auth.lookup key with
      | some value => some (mergeOver (base.bind (·.get? key)) value)
      | none => base.bind (·.get? key) := by
  obtain _ | base := base
  · show auth.lookup key = _
    cases auth.lookup key <;> rfl
  cases hb : base.isObj with
  | false =>
    rw [mergeOver, deepMerge_of_not_obj (.inl hb), Option.bind_some, get?_of_not_obj hb]
    show auth.lookup key = _
    cases auth.lookup key <;> rfl
  | true =>
    cases base with
    | obj base =>
      rw [mergeOver, deepMerge_obj]
      exact lookup_mergeFields h base key
    | _ => cases hb

/-- **what the merge leaves of a key of `auth`** -/
theorem authValue_merged (template release : Document) (key : String) :
    Alike (authValue (.obj (mergeFields template.json.fields release.json.fields)) key)
      (if hidden release key = true then none else firstValue template release key) := by
  have hm := get?_merged template release "auth"
  have ht := template.get? "auth"
  have hr := release.get? "auth"
  rw [authValue_eq hm, firstValue, authValue_eq ht, authValue_eq hr, hidden, hr]
  cases hauth : release.json.fields.lookup "auth" with
  | none => exact .inl rfl
  | some value =>
    cases hv : value.isObj with
    | false =>
      have hnone : (value.get? key).filter (!·.isNull) = none := by rw [get?_of_not_obj hv]; rfl
      refine .inl ?_
      simp only [mergeOver_of_not_obj hv, Option.bind_some, hnone]
      cases value with
      | obj auth => cases hv
      | _ => rfl
    | true =>
      cases value with
      | obj auth =>
        simp only [Option.bind_some, get?_mergeOver_auth _ (release.nodup_lookup hauth)]
        show Alike _ (if (auth.lookup key).any Json.isNull = true then none else
          ((auth.lookup key).filter (!·.isNull)).or _)
        cases hkey : auth.lookup key with
        | none => exact .inl rfl
        | some value =>
          cases hnull : value.isNull with
          | true =>
            cases value with
            | null =>
              refine .inl ?_
              simp only [mergeOver_of_not_obj (show Json.null.isObj = false from rfl)]
              rfl
            | _ => cases hnull
          | false =>
            have hfilter : (some value).filter (!·.isNull) = some value := by
              rw [Option.filter_some, hnull]
              rfl
            have halike := mergeOver_alike
              ((template.json.fields.lookup "auth").bind (·.get? key)) value
            obtain h | ⟨f, g, h, hw⟩ := halike
            · refine .inl ?_
              simp only [Option.some_inj.1 h, Option.any_some, hnull, hfilter, Option.some_or]
              rfl
            · refine .inr ⟨f, g, ?_, ?_⟩
              · simp only [Option.some_inj.1 h]
                rfl
              · simp only [Option.any_some, hnull, hfilter, Option.some_or]
                exact hw
      | _ => cases hv

theorem authObject_get? (auth : Option Json) (key : String) :
    (authObject auth).get? key = auth.bind (·.get? key) := by
  cases auth with
  | none => rfl
  | some auth => cases auth <;> rfl

/-- the protocol the settings inspect, in terms of a value that is not null -/
theorem isStr_orHeader (value : Option Json) (word : String) :
    (if (orNone value).isNull = true then Json.str "header" else orNone value).isStr word =
      (decide ("header" = word) && (value.filter (!·.isNull)).isNone ||
        isWord word (value.filter (!·.isNull))) := by
  cases value with
  | none =>
    show decide ("header" = word) = (decide ("header" = word) && true || false)
    rw [Bool.and_true, Bool.or_false]
  | some value =>
    cases value with
    | null =>
      show decide ("header" = word) = (decide ("header" = word) && true || false)
      rw [Bool.and_true, Bool.or_false]
    | str s =>
      show decide (s = word) = (decide ("header" = word) && false || decide (s = word))
      rw [Bool.and_false, Bool.false_or]
    | _ =>
      show false = (decide ("header" = word) && false || false)
      rw [Bool.and_false, Bool.false_or]

theorem isDefault_orNone (value : Option Json) (word : String) :
    ((orNone value).isNull || (orNone value).isStr word) =
      isDefault word (value.filter (!·.isNull)) := by
  cases value with
  | none => rfl
  | some value => cases value <;> rfl

theorem isTrue_filter (value : Option Json) :
    isTrue (value.filter (!·.isNull)) = isTrue value := by
  cases value with
  | none => rfl
  | some value => cases value <;> rfl

/-- **the settings of the API** are those of the merged values -/
theorem authSettings_ok (template release : Document) : ∃ settings,
    authSettings template.json release.json = .ok settings ∧
    settings.policy =
      let value := authValue (.obj (mergeFields template.json.fields release.json.fields))
      policyOf (isTrue (value "enabled")) (value "protocol") (value "access") := by
  refine ⟨_, by rw [authSettings, mergeValuesScoped_ok]; rfl, ?_⟩
  simp only [AuthSettings.policy, AuthSettings.header, AuthSettings.oidc, AuthSettings.listed,
    authObject_get?, isStr_orHeader, isDefault_orNone, authValue, isTrue_filter, policyOf,
    knownProtocol]
  generalize (Json.obj _).get? "auth" = auth
  generalize (auth.bind (·.get? "protocol")).filter (!·.isNull) = protocol
  generalize (auth.bind (·.get? "access")).filter (!·.isNull) = access
  generalize isTrue (auth.bind (·.get? "enabled")) = on
  rw [decide_true, Bool.true_and, ← isDefault, show decide ("header" = "oidc") = false from rfl,
    Bool.false_and, Bool.false_or]
  cases on <;> cases isDefault "header" protocol <;> cases isWord "oidc" protocol <;>
    cases isDefault "anyone" access <;> rfl

/-! ## app-auth -/

theorem extractText_auth (document : Json) (key : String) :
    extractText document ["auth", key] = (authValue document key).map Json.text := by
  have hpath : extract document ["auth", key] = (document.get? "auth").bind (·.get? key) := by
    simp only [extract, Option.bind_fun_some]
  rw [extractText, hpath, authValue]
  cases (document.get? "auth").bind (·.get? key) with
  | none => rfl
  | some value => cases value <;> rfl

theorem toJsonb_eq_ok {document values : Json} :
    toJsonb document = .ok values ↔ nulFree document = true ∧ document = values := by
  unfold toJsonb
  split
  · simp [*]
  · simp [*]

/-- **one key of `auth`**, where the documents it needs can be read -/
theorem effective_eq_ok {template release : Document} {key fallback text : String} :
    effective release.json template.json key fallback = .ok text ↔
      Readable template release key ∧
        ((firstValue template release key).map Json.text).getD fallback = text := by
  rw [effective, bind_eq_ok, Readable, firstValue]
  simp only [toJsonb_eq_ok, extractText_auth]
  cases hr : authValue release.json key with
  | some value =>
    constructor
    · rintro ⟨_, ⟨hnul, rfl⟩, h⟩
      rw [hr] at h
      exact ⟨⟨hnul, (nomatch ·)⟩, pure_eq_ok.1 h⟩
    · rintro ⟨⟨hnul, -⟩, h⟩
      refine ⟨_, ⟨hnul, rfl⟩, ?_⟩
      rw [hr]
      exact pure_eq_ok.2 h
  | none =>
    constructor
    · rintro ⟨_, ⟨hnul, rfl⟩, h⟩
      rw [hr] at h
      obtain ⟨_, ht, h⟩ := bind_eq_ok.1 h
      obtain ⟨hnul', rfl⟩ := toJsonb_eq_ok.1 ht
      exact ⟨⟨hnul, fun _ => hnul'⟩, pure_eq_ok.1 h⟩
    · rintro ⟨⟨hnul, ht⟩, h⟩
      refine ⟨_, ⟨hnul, rfl⟩, ?_⟩
      rw [hr]
      exact bind_eq_ok.2 ⟨_, toJsonb_eq_ok.2 ⟨ht rfl, rfl⟩, pure_eq_ok.2 h⟩

/-- a word of the contract is the text of that string, or of nothing where it is the fallback -/
theorem getD_eq_iff {word fallback : String} {c : Char} (hw : word.toList.head? = some c)
    (hc : startsValue c = false) (value : Option Json) :
    (value.map Json.text).getD fallback = word ↔
      (fallback = word ∧ value = none) ∨ isWord word value = true := by
  cases value with
  | none => simp [isWord]
  | some value =>
    have hstr : value.isStr word = true ↔ value = .str word := by
      cases value <;> simp [Json.isStr]
    simp [isWord, text_eq_iff hw hc, hstr]

theorem castBoolean_eq_ok {value : Option Json} {b : Bool} :
    castBoolean ((value.map Json.text).getD "false") = .ok b ↔ spelledAs value = some b := by
  cases value with
  | none =>
    show castBoolean "false" = .ok b ↔ some false = some b
    rw [show castBoolean "false" = .ok false by decide +kernel]
    simp
  | some value =>
    rw [Option.map_some, Option.getD_some, castBoolean, spelledAs]
    cases parseBoolean value.text <;> simp

theorem authEnabled_eq_ok {template release : Document} {on : Bool} :
    authEnabled release.json template.json = .ok on ↔ Readable template release "enabled" ∧
      spelledAs (firstValue template release "enabled") = some on := by
  rw [authEnabled, bind_eq_ok]
  constructor
  · rintro ⟨text, htext, h⟩
    obtain ⟨hr, rfl⟩ := effective_eq_ok.1 htext
    exact ⟨hr, castBoolean_eq_ok.1 h⟩
  · rintro ⟨hr, h⟩
    exact ⟨_, effective_eq_ok.2 ⟨hr, rfl⟩, castBoolean_eq_ok.2 h⟩

/-- the word a query compares the protocol with -/
def speaks (word : String) (protocol : Option Json) : Bool :=
  decide ((protocol.map Json.text).getD "header" = word)

theorem speaks_header (protocol : Option Json) :
    speaks "header" protocol = isDefault "header" protocol := by
  rw [Bool.eq_iff_iff, speaks, decide_eq_true_eq,
    getD_eq_iff (c := 'h') (by decide) (by decide), isDefault, Bool.or_eq_true,
    Option.isNone_iff_eq_none]
  simp

theorem speaks_oidc (protocol : Option Json) : speaks "oidc" protocol = isWord "oidc" protocol := by
  rw [Bool.eq_iff_iff, speaks, decide_eq_true_eq, getD_eq_iff (c := 'o') (by decide) (by decide)]
  simp

theorem access_eq_iff (access : Option Json) :
    (access.map Json.text).getD "anyone" = "anyone" ↔ isDefault "anyone" access = true := by
  rw [getD_eq_iff (c := 'a') (by decide) (by decide), isDefault, Bool.or_eq_true,
    Option.isNone_iff_eq_none]
  simp

/-- **the row of a query** -/
theorem signInRow_eq_ok {template release : Document} {word : String} {row : Option Bool} :
    signInRow word release.json template.json = .ok row ↔
      Readable template release "enabled" ∧ Readable template release "protocol" ∧
      ∃ on, spelledAs (firstValue template release "enabled") = some on ∧
        (on && speaks word (firstValue template release "protocol")) = row.isSome ∧
        (row.isSome = true → Readable template release "access" ∧
          row = some (!isDefault "anyone" (firstValue template release "access"))) := by
  rw [signInRow, bind_eq_ok]
  constructor
  · rintro ⟨on, hon, h⟩
    obtain ⟨protocol, hprotocol, h⟩ := bind_eq_ok.1 h
    obtain ⟨hre, hon⟩ := authEnabled_eq_ok.1 hon
    obtain ⟨hrp, rfl⟩ := effective_eq_ok.1 hprotocol
    refine ⟨hre, hrp, on, hon, ?_⟩
    split at h
    · rename_i hrow
      obtain ⟨access, haccess, h⟩ := bind_eq_ok.1 h
      obtain ⟨hra, rfl⟩ := effective_eq_ok.1 haccess
      cases pure_eq_ok.1 h
      refine ⟨by simp [speaks, hrow], fun _ => ⟨hra, ?_⟩⟩
      rw [Option.some_inj, Bool.eq_iff_iff, decide_eq_true_eq, Bool.not_eq_true', ne_eq,
        access_eq_iff, Bool.not_eq_true]
    · rename_i hrow
      cases pure_eq_ok.1 h
      refine ⟨?_, fun h => nomatch h⟩
      rw [Option.isSome_none, Bool.and_eq_false_iff, speaks, decide_eq_false_iff_not]
      by_contra hn
      rw [not_or, not_not, Bool.not_eq_false] at hn
      exact hrow hn
  · rintro ⟨hre, hrp, on, hon, hrow, haccess⟩
    refine ⟨on, authEnabled_eq_ok.2 ⟨hre, hon⟩, bind_eq_ok.2 ⟨_, effective_eq_ok.2 ⟨hrp, rfl⟩, ?_⟩⟩
    cases row with
    | none =>
      rw [if_neg]
      · rfl
      · rintro ⟨rfl, hp⟩
        simp [speaks, hp] at hrow
    | some listed =>
      obtain ⟨hra, hlisted⟩ := haccess rfl
      rw [Option.isSome_some, Bool.and_eq_true, speaks, decide_eq_true_eq] at hrow
      rw [if_pos hrow]
      refine bind_eq_ok.2 ⟨_, effective_eq_ok.2 ⟨hra, rfl⟩, pure_eq_ok.2 ?_⟩
      rw [hlisted, Option.some_inj, Bool.eq_iff_iff, decide_eq_true_eq, Bool.not_eq_true', ne_eq,
        access_eq_iff, Bool.not_eq_true]

/-- a protocol is one word only -/
theorem isWord_oidc_of_isDefault {protocol : Option Json} (h : isDefault "header" protocol = true) :
    isWord "oidc" protocol = false := by
  obtain _ | protocol := protocol
  · rfl
  cases protocol with
  | str s =>
    have hs : s = "header" := by simpa [isDefault, isWord, Json.isStr] using h
    rw [hs]
    rfl
  | _ => rfl

/-- **the policy of app-auth** -/
theorem appAuthPolicy_eq_ok {template release : Document} {policy : SignInPolicy} :
    appAuthPolicy release.json template.json = .ok policy ↔
      Readable template release "enabled" ∧ Readable template release "protocol" ∧
      ∃ on, spelledAs (firstValue template release "enabled") = some on ∧
        (on = true → knownProtocol (firstValue template release "protocol") = true →
          Readable template release "access") ∧
        policy = policyOf on (firstValue template release "protocol")
          (firstValue template release "access") := by
  rw [appAuthPolicy, bind_eq_ok]
  constructor
  · rintro ⟨header, hheader, h⟩
    obtain ⟨oidc, hoidc, h⟩ := bind_eq_ok.1 h
    cases pure_eq_ok.1 h
    obtain ⟨hre, hrp, on, hon, hrow, haccess⟩ := signInRow_eq_ok.1 hheader
    obtain ⟨-, -, on', hon', hrow', haccess'⟩ := signInRow_eq_ok.1 hoidc
    obtain rfl := Option.some_inj.1 (hon.symm.trans hon')
    rw [speaks_header] at hrow
    rw [speaks_oidc] at hrow'
    refine ⟨hre, hrp, on, hon, ?_, ?_⟩
    · rintro rfl hknown
      rw [Bool.true_and] at hrow hrow'
      rw [knownProtocol, Bool.or_eq_true, hrow, hrow'] at hknown
      obtain hknown | hknown := hknown
      · exact (haccess hknown).1
      · exact (haccess' hknown).1
    · rw [policyOf, hrow, hrow', SignInPolicy.mk.injEq, knownProtocol]
      refine ⟨rfl, rfl, ?_⟩
      rw [Bool.and_or_distrib_left, hrow, hrow']
      cases header with
      | some listed => rw [(haccess rfl).2]; rfl
      | none =>
        cases oidc with
        | some listed => rw [(haccess' rfl).2]; rfl
        | none => rfl
  · rintro ⟨hre, hrp, on, hon, haccess, rfl⟩
    have hrow : ∀ word, (speaks word (firstValue template release "protocol") = true →
        knownProtocol (firstValue template release "protocol") = true) →
        signInRow word release.json template.json =
          .ok (if (on && speaks word (firstValue template release "protocol")) = true
            then some (!isDefault "anyone" (firstValue template release "access")) else none) := by
      intro word hword
      refine signInRow_eq_ok.2 ⟨hre, hrp, on, hon, ?_⟩
      split
      · rename_i h
        rw [Bool.and_eq_true] at h
        exact ⟨by rw [h.1, h.2]; rfl, fun _ => ⟨haccess h.1 (hword h.2), rfl⟩⟩
      · rename_i h
        exact ⟨Bool.eq_false_iff.2 h, fun h => nomatch h⟩
    have hh := hrow "header" fun h => by rw [knownProtocol, ← speaks_header, h, Bool.true_or]
    have ho := hrow "oidc" fun h => by rw [knownProtocol, ← speaks_oidc, h, Bool.or_true]
    refine ⟨_, hh, bind_eq_ok.2 ⟨_, ho, pure_eq_ok.2 ?_⟩⟩
    rw [speaks_header, speaks_oidc, policyOf, SignInPolicy.mk.injEq, knownProtocol]
    cases on <;> cases isDefault "header" (firstValue template release "protocol") <;>
      cases isWord "oidc" (firstValue template release "protocol") <;>
      exact ⟨rfl, rfl, rfl⟩

/-! ## Agreement -/

theorem isTrue_hidden (h : Bool) (value : Option Json) :
    isTrue (if h = true then none else value) = (!h && isTrue value) := by
  cases h <;> rfl

theorem isWord_hidden (h : Bool) (word : String) (value : Option Json) :
    isWord word (if h = true then none else value) = (!h && isWord word value) := by
  cases h <;> rfl

theorem isDefault_hidden (h : Bool) (word : String) (value : Option Json) :
    isDefault word (if h = true then none else value) = (h || isDefault word value) := by
  cases h <;> rfl

/-- what the two policies have to agree on, with what is hidden from the merge -/
theorem policyOf_hidden_iff {he hp ha spelled : Bool} {enabled protocol access : Option Json}
    (htrue : isTrue enabled = true → spelled = true) :
    policyOf spelled protocol access =
        policyOf (isTrue (if he = true then none else enabled))
          (if hp = true then none else protocol) (if ha = true then none else access) ↔
      (spelled = true → knownProtocol protocol = true → isTrue enabled = true ∧ he = false ∧
        (hp = true → isDefault "header" protocol = true) ∧
        (ha = true → isDefault "anyone" access = true)) ∧
      (isTrue enabled = true → he = false → hp = true → knownProtocol protocol = true) := by
  have hone : isDefault "header" protocol = true → isWord "oidc" protocol = false :=
    isWord_oidc_of_isDefault
  simp only [policyOf, SignInPolicy.mk.injEq, knownProtocol, isTrue_hidden, isWord_hidden,
    isDefault_hidden]
  generalize isTrue enabled = t at *
  generalize isDefault "header" protocol = header at *
  generalize isWord "oidc" protocol = oidc at *
  generalize isDefault "anyone" access = anyone at *
  cases spelled <;> cases t <;> cases he <;> cases hp <;> cases ha <;> grind

/-- the policy of the API, in terms of the value app-auth reads and of what is hidden -/
theorem authSettings_policy (template release : Document) : ∃ settings,
    authSettings template.json release.json = .ok settings ∧
    settings.policy =
      let value key := if hidden release key = true then none else firstValue template release key
      policyOf (isTrue (value "enabled")) (value "protocol") (value "access") := by
  obtain ⟨settings, hok, hpolicy⟩ := authSettings_ok template release
  refine ⟨settings, hok, hpolicy.trans ?_⟩
  dsimp only
  rw [(authValue_merged template release "enabled").isTrue,
    (authValue_merged template release "protocol").policyOf
      (authValue_merged template release "access")]

theorem spelledAs_of_isTrue {value : Option Json} (h : isTrue value = true) :
    spelledAs value = some true := by
  obtain _ | value := value
  · cases h
  cases value with
  | bool b =>
    cases b
    · cases h
    · decide +kernel
  | _ => cases h

/-- **the API and app-auth enforce one policy** iff the documents read alike -/
theorem signIn_agrees (template release : Document) :
    SamePolicy template release ↔ ReadAlike template release := by
  obtain ⟨settings, hok, hpolicy⟩ := authSettings_policy template release
  have htrue : ∀ on, spelledAs (firstValue template release "enabled") = some on →
      isTrue (firstValue template release "enabled") = true → on = true := by
    intro on hon h
    rw [spelledAs_of_isTrue h] at hon
    exact (Option.some_inj.1 hon).symm
  constructor
  · rintro ⟨settings', hok', happ⟩
    cases hok.symm.trans hok'
    obtain ⟨hre, hrp, on, hon, haccess, hsame⟩ := appAuthPolicy_eq_ok.1 happ
    rw [hpolicy] at hsame
    obtain ⟨hon', hoff⟩ := (policyOf_hidden_iff (htrue on hon)).1 hsame.symm
    have hsigns : SignsIn template release → on = true := by
      rintro ⟨h, -⟩
      exact Option.some_inj.1 (hon.symm.trans h)
    exact ⟨hre, hrp, fun h => haccess (hsigns h) h.2, ⟨on, hon⟩, fun h => hon' (hsigns h) h.2, hoff⟩
  · intro h
    obtain ⟨on, hon⟩ := h.spelled
    refine ⟨settings, hok, appAuthPolicy_eq_ok.2 ⟨h.enabled, h.protocol, on, hon, ?_, ?_⟩⟩
    · rintro rfl hknown
      exact h.access ⟨hon, hknown⟩
    · rw [hpolicy]
      refine ((policyOf_hidden_iff (htrue on hon)).2 ⟨?_, h.off⟩).symm
      rintro rfl hknown
      exact h.on ⟨hon, hknown⟩

/-- a switch that is the string `true`, on a template without values -/
def Document.stringSwitch : Document where
  json := .obj [("auth", .obj [("enabled", .str "true")])]
  stored := by decide
  unique := by decide

/-- no document -/
def Document.none : Document where
  json := .null
  stored := by decide
  unique := by decide

theorem signIn_disagrees : ¬ ∀ template release, SamePolicy template release := by
  intro hall
  obtain ⟨settings, hok, happ⟩ := hall .none .stringSwitch
  have hheader : appAuthPolicy Document.stringSwitch.json Document.none.json =
      .ok { header := true, oidc := false, listed := false } := by decide +kernel
  have hoff : (authSettings Document.none.json Document.stringSwitch.json).toOption.map
      AuthSettings.policy = some { header := false, oidc := false, listed := false } := by
    decide +kernel
  rw [hok] at hoff
  rw [happ, Except.ok.injEq, Option.some_inj.1 hoff] at hheader
  cases hheader

end Freepod
