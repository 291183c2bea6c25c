import Freepod.Auth.Access
import Freepod.Base.Lists
import Freepod.Properties.Hostnames

/-!
# Previews beside deployments

`preview-<label>.<tenant domain>` is the live preview of the app at `<label>.<tenant domain>`.  The
hostname checks refuse an application part that begins with `preview-`, and the broker strips that
prefix from a whole label.

* `previews_apart`: the preview of an accepted tenant hostname leads back to it and is accepted for
  nobody; an accepted name leads to a base only where its application part is `preview`, and that
  base is accepted for nobody.
* `previews_overlap`: such a name is accepted, and a tenant domain in capitals is not read back.
-/

namespace Freepod
open Base Auth

/-! ## Names in ASCII -/

def IsAscii (s : String) : Prop := ∀ c ∈ s.toList, c.toNat < 128

/-- lower case, of ASCII -/
def asciiLower (s : String) : String := String.ofList (s.toList.map Char.toLower)

/-- `strings.ToLower` of ASCII changes the capitals alone -/
def LowersAscii (cfg : Config) : Prop := ∀ s, IsAscii s → cfg.toLower s = asciiLower s

/-- the hostname of the live preview of the app at `name` -/
def previewName (name : String) : String := previewPrefix ++ name

/-- no check accepts the name, whoever asks for it and whatever else is deployed -/
def NeverAccepted (settings : HostnameSettings) (name : String) : Prop :=
  ∀ dns deployments value handle exclude,
    requireValidHostname dns settings deployments value handle exclude ≠ .ok name

/-- a name in the required format is ASCII -/
theorem isAscii_of_checkFormat {name : String} (h : checkFormat name = .ok ()) : IsAscii name := by
  intro c hc
  obtain h | h := chars_of_checkFormat h c hc
  · simp only [isAlnum, Bool.or_eq_true, isLowerAlnum_iff, Bool.and_eq_true, decide_eq_true_eq,
      Char.le_def, UInt32.le_iff_toNat_le] at h
    have hz : ('Z' : Char).val.toNat = 90 := rfl
    have htoNat : c.toNat = c.val.toNat := rfl
    omega
  · obtain rfl | rfl | rfl := h
    · decide
    · decide
    · decide

/-! ## An accepted tenant hostname -/

variable {cfg : Config} {settings : HostnameSettings} {name : String}

/-- a tenant hostname: the application part and the handle in one label beneath the tenant domain -/
structure TenantName (settings : HostnameSettings) (name : String) (app : List Char)
    (h : Handle) : Prop where
  domain : settings.tenantDomain ≠ ""
  spelled : name.toList = (app ++ '-' :: h.text.toList) ++ '.' :: settings.tenantDomain.toList
  legal : LegalApp app
  ascii : IsAscii name

/-- **what the checks accept beneath the tenant domain** -/
theorem tenantName_of_accepted {dns : Dns} {deployments : List Deployment} {value : String}
    {handle : Option Handle} {exclude : Option DeploymentId}
    (h : requireValidHostname dns settings deployments value handle exclude = .ok name)
    (hunder : under name settings.tenantDomain = true) :
    ∃ owner app, handle = some owner ∧ TenantName settings name app owner := by
  obtain ⟨-, hformat, hdomains, -⟩ := requireValidHostname_ok h
  obtain ⟨owner, app, hh, happ, hname⟩ := own_of_checkDomains hformat hunder hdomains
  exact ⟨owner, app, hh, (under_iff.1 hunder).1, hname, happ, isAscii_of_checkFormat hformat⟩

/-- a label beneath the tenant domain that is no application part and handle -/
theorem neverAccepted_of_label {label : List Char} (hdomain : settings.tenantDomain ≠ "")
    (hname : name.toList = label ++ '.' :: settings.tenantDomain.toList)
    (hlabel : ∀ app (h : Handle), LegalApp app → label ≠ app ++ '-' :: h.text.toList) :
    NeverAccepted settings name := by
  intro dns deployments value handle exclude h
  have hunder : under name settings.tenantDomain = true :=
    under_iff.2 ⟨hdomain, .inr ⟨label, hname.symm⟩⟩
  obtain ⟨owner, app, -, htenant⟩ := tenantName_of_accepted h hunder
  refine hlabel app owner htenant.legal ?_
  exact List.append_cancel_right (hname.symm.trans htenant.spelled)

/-! ## The broker's reading -/

theorem toLower_eq_self {c : Char} (h : isLowerAlnum c = true ∨ c = '-') : c.toLower = c := by
  obtain h | rfl := h
  · exact toLower_of_isLowerAlnum h
  · rfl

/-- **the base of a name beneath the tenant domain**, by its first label -/
theorem previewBase_eq {label : List Char} (hlower : LowersAscii cfg)
    (hcfg : cfg.tenantDomain = settings.tenantDomain) (hdomain : settings.tenantDomain ≠ "")
    (hname : name.toList = label ++ '.' :: settings.tenantDomain.toList) (hascii : IsAscii name)
    (hlabel : ∀ c ∈ label, isLowerAlnum c = true ∨ c = '-') :
    previewBase cfg name =
      if previewPrefix.toList <+: label ∧ label ≠ previewPrefix.toList then
        some (String.ofList (label.drop previewPrefix.length) ++ "." ++
          asciiLower settings.tenantDomain)
      else none := by
  have hascii' : IsAscii settings.tenantDomain := by
    intro c hc
    refine hascii c ?_
    rw [hname]
    exact List.mem_append_right _ (List.mem_cons_of_mem _ hc)
  have hdot : ∀ c ∈ label, (c != '.') = true := by
    intro c hc
    obtain h | rfl := hlabel c hc
    · rw [bne_iff_ne]
      rintro rfl
      exact absurd h (by decide)
    · decide
  have hmap : label.map Char.toLower = label := by
    rw [List.map_congr_left fun c hc => toLower_eq_self (hlabel c hc), List.map_id']
  have hlow : (cfg.toLower name).toList =
      label ++ '.' :: (asciiLower settings.tenantDomain).toList := by
    rw [hlower name hascii, asciiLower, asciiLower, String.toList_ofList, String.toList_ofList,
      hname, List.map_append, List.map_cons, hmap]
    rfl
  have htake : (label ++ '.' :: (asciiLower settings.tenantDomain).toList).takeWhile (· != '.') =
      label := by
    rw [List.takeWhile_append_of_pos hdot]
    simp
  have hbase : String.ofList (label.drop previewPrefix.length ++
      '.' :: (asciiLower settings.tenantDomain).toList) =
      String.ofList (label.drop previewPrefix.length) ++ "." ++
        asciiLower settings.tenantDomain := by
    rw [← String.toList_inj]
    simp
  simp only [previewBase, hlow, htake, List.drop_left, String.ofList_toList, hcfg,
    hlower _ hascii', hdomain, hbase, false_or, ne_eq, not_true_eq_false,
    List.isPrefixOf_iff_prefix]
  by_cases hp : previewPrefix.toList <+: label ∧ label ≠ previewPrefix.toList
  · rw [if_pos hp, if_neg]
    rintro (h | h)
    · exact h hp.1
    · exact hp.2 h
  · rw [if_neg hp, if_pos]
    by_cases h : previewPrefix.toList <+: label
    · exact .inr (by_contra fun hne => hp ⟨h, hne⟩)
    · exact .inl h

/-- the prefix of a label is the prefix of its application part, or all of that part and a hyphen -/
theorem prefix_label {app owner : List Char} (hfree : ¬ previewPrefix.toList <+: app) :
    previewPrefix.toList <+: app ++ '-' :: owner ↔ app = "preview".toList := by
  constructor
  · rintro ⟨t, ht⟩
    obtain ⟨a, ha, -⟩ | ⟨c, hc, hct⟩ := List.append_eq_append_iff.1 ht
    · exact absurd ⟨a, ha.symm⟩ hfree
    · -- the part ends within the prefix, whose only hyphen is its last character
      cases c with
      | nil => exact absurd ⟨[], by rw [List.append_nil, hc, List.append_nil]⟩ hfree
      | cons x c =>
        rw [List.cons_append, List.cons.injEq] at hct
        obtain ⟨rfl, -⟩ := hct
        have hsplit : "preview".toList ++ '-' :: [] = app ++ '-' :: c := hc
        rw [List.append_cons_inj_of_notMem (by decide) (by decide)] at hsplit
        exact hsplit.1.symm
  · rintro rfl
    exact ⟨owner, rfl⟩

theorem resolveHeaderApp_of_noBase {host : String} (h : previewBase cfg host = none) :
    resolveHeaderApp cfg host = Ask.eligible host := by
  unfold resolveHeaderApp
  rw [h]
  show Base.Prog.call _ _ = Base.Prog.call _ _
  congr 1
  funext r
  match r with
  | .error _ => rfl
  | .ok none => rfl
  | .ok (some _) => rfl

/-! ## Names of previews and of deployments -/

variable {app : List Char} {owner : Handle}

theorem TenantName.chars (h : TenantName settings name app owner) :
    ∀ c ∈ app ++ '-' :: owner.text.toList, isLowerAlnum c = true ∨ c = '-' := by
  intro c hc
  rw [List.mem_append, List.mem_cons] at hc
  obtain hc | rfl | hc := hc
  · exact h.legal.chars c hc
  · exact .inr rfl
  · exact .inl (owner.chars c hc)

theorem TenantName.preview (h : TenantName settings name app owner) :
    (previewName name).toList =
      (previewPrefix.toList ++ (app ++ '-' :: owner.text.toList)) ++
        '.' :: settings.tenantDomain.toList := by
  rw [previewName, String.toList_append, h.spelled, ← List.append_assoc]

theorem Handle.length_le (h : Handle) : h.text.toList.length ≤ handleMaxLength := by
  have hl := h.legal.1
  simp only [isHandle, dropNewline_of_notMem h.legal.2, Bool.and_eq_true, decide_eq_true_eq] at hl
  exact hl.1.2

/-- the preview label is a label within the limit of DNS -/
theorem TenantName.previewLabel (h : TenantName settings name app owner) :
    isLabel (previewPrefix.toList ++ (app ++ '-' :: owner.text.toList)) = true := by
  have hchars : ∀ c ∈ previewPrefix.toList ++ (app ++ '-' :: owner.text.toList),
      isLowerAlnum c = true ∨ c = '-' := by
    intro c hc
    rw [List.mem_append] at hc
    obtain hc | hc := hc
    · revert c
      exact forall_mem_of_all (by decide)
    · exact h.chars c hc
  have hnl : '\n' ∉ previewPrefix.toList ++ (app ++ '-' :: owner.text.toList) := by
    intro hmem
    exact absurd (hchars _ hmem) (by decide)
  have hlength : (previewPrefix.toList ++ (app ++ '-' :: owner.text.toList)).length ≤ 63 := by
    have happ := h.legal.length
    have howner := owner.length_le
    have hprefix : previewPrefix.toList.length = 8 := rfl
    simp only [appLabelMaxLength, handleMaxLength] at happ howner
    simp only [List.length_append, List.length_cons, hprefix]
    omega
  -- the label ends where the handle does
  obtain ⟨e, he, hlast⟩ : ∃ e ∈ owner.text.toList,
      (previewPrefix.toList ++ (app ++ '-' :: owner.text.toList)).getLast? = some e := by
    have hne := isHandle_ne_nil owner.legal.1
    refine ⟨_, List.getLast_mem hne, ?_⟩
    rw [List.getLast?_append, List.getLast?_append, List.getLast?_cons,
      List.getLast?_eq_some_getLast hne]
    rfl
  rw [isLabel, dropNewline_of_notMem hnl]
  simp only [isHyphenated, hlast, hlength, decide_true, Bool.and_true, Option.any_some,
    Bool.and_eq_true, List.all_eq_true, Bool.or_eq_true, beq_iff_eq]
  have halnum : ∀ {c}, isLowerAlnum c = true → isAlnum c = true := by
    intro c hc
    rw [isAlnum, hc, Bool.true_or]
  refine ⟨⟨rfl, halnum (owner.chars e he)⟩, fun c hc => ?_⟩
  exact (hchars c hc).imp_left halnum

/-- the preview of a tenant hostname leads back to it -/
theorem TenantName.base_preview (h : TenantName settings name app owner)
    (hlower : LowersAscii cfg) (hcfg : cfg.tenantDomain = settings.tenantDomain) :
    previewBase cfg (previewName name) =
      some (String.ofList (app ++ '-' :: owner.text.toList) ++ "." ++
        asciiLower settings.tenantDomain) := by
  have hascii : IsAscii (previewName name) := by
    intro c hc
    rw [previewName, String.toList_append, List.mem_append] at hc
    obtain hc | hc := hc
    · revert c
      exact forall_mem_of_all (by decide)
    · exact h.ascii c hc
  rw [previewBase_eq hlower hcfg h.domain h.preview hascii, if_pos]
  · have hdrop : (previewPrefix.toList ++ (app ++ '-' :: owner.text.toList)).drop
        previewPrefix.length = app ++ '-' :: owner.text.toList := List.drop_left
    rw [hdrop]
  · refine ⟨⟨_, rfl⟩, fun heq => ?_⟩
    simp at heq
  · intro c hc
    rw [List.mem_append] at hc
    obtain hc | hc := hc
    · revert c
      exact forall_mem_of_all (by decide)
    · exact h.chars c hc

/-- an accepted name has a base only as the bare `preview` of its owner -/
theorem TenantName.base (h : TenantName settings name app owner) (hlower : LowersAscii cfg)
    (hcfg : cfg.tenantDomain = settings.tenantDomain) :
    previewBase cfg name =
      if app = "preview".toList then
        some (owner.text ++ "." ++ asciiLower settings.tenantDomain)
      else none := by
  rw [previewBase_eq hlower hcfg h.domain h.spelled h.ascii h.chars]
  have hp := @prefix_label app owner.text.toList h.legal.free
  by_cases happ : app = "preview".toList
  · have hne : app ++ '-' :: owner.text.toList ≠ previewPrefix.toList := by
      rw [happ]
      intro heq
      have hnil : owner.text.toList = [] :=
        @List.append_cancel_left _ previewPrefix.toList _ _
          (heq.trans (List.append_nil _).symm)
      exact isHandle_ne_nil owner.legal.1 hnil
    have hdrop : (app ++ '-' :: owner.text.toList).drop previewPrefix.length =
        owner.text.toList := by
      rw [happ]
      exact @List.drop_left _ previewPrefix.toList _
    rw [if_pos happ, if_pos ⟨hp.2 happ, hne⟩, hdrop, String.ofList_toList]
  · rw [if_neg happ, if_neg fun h' => happ (hp.1 h'.1)]

theorem TenantName.preview_never (h : TenantName settings name app owner) :
    NeverAccepted settings (previewName name) := by
  refine neverAccepted_of_label h.domain h.preview fun app' owner' hlegal heq => ?_
  rw [← List.append_assoc] at heq
  have hsplit := congrArg (rpartition '-') heq
  rw [rpartition_eq (owner.notMem (by decide)), rpartition_eq (owner'.notMem (by decide)),
    Prod.mk.injEq] at hsplit
  exact hlegal.free ⟨app, hsplit.1⟩

/-- a handle alone is nobody's deployment -/
theorem neverAccepted_handle (hdomain : settings.tenantDomain ≠ "") :
    NeverAccepted settings (owner.text ++ "." ++ settings.tenantDomain) := by
  have hname : (owner.text ++ "." ++ settings.tenantDomain).toList =
      owner.text.toList ++ '.' :: settings.tenantDomain.toList := by simp
  refine neverAccepted_of_label hdomain hname ?_
  intro app h _ heq
  refine owner.notMem (c := '-') (by decide) ?_
  rw [heq, List.mem_append]
  exact .inr List.mem_cons_self

/-- a label of the tenant pattern is lower case already -/
theorem TenantName.asciiLower_eq (h : TenantName settings name app owner) :
    asciiLower name = String.ofList (app ++ '-' :: owner.text.toList) ++ "." ++
      asciiLower settings.tenantDomain := by
  rw [← String.toList_inj, asciiLower, h.spelled, String.toList_ofList, List.map_append,
    List.map_congr_left fun c hc => toLower_eq_self (h.chars c hc), List.map_id']
  simp only [asciiLower, String.toList_append, String.toList_ofList, List.append_assoc]
  rfl

/-- **previews and deployments have names of their own** -/
theorem previews_apart {dns : Dns} {deployments : List Deployment} {value : String}
    {handle : Option Handle} {exclude : Option DeploymentId} (hlower : LowersAscii cfg)
    (hcfg : cfg.tenantDomain = settings.tenantDomain)
    (h : requireValidHostname dns settings deployments value handle exclude = .ok name)
    (hunder : under name settings.tenantDomain = true) :
    ∃ owner app, handle = some owner ∧ TenantName settings name app owner ∧
      isLabel (previewPrefix.toList ++ (app ++ '-' :: owner.text.toList)) = true ∧
      NeverAccepted settings (previewName name) ∧
      previewBase cfg (previewName name) = some (asciiLower name) ∧
      (app ≠ "preview".toList →
        previewBase cfg name = none ∧ resolveHeaderApp cfg name = Ask.eligible name) ∧
      (app = "preview".toList →
        previewBase cfg name = some (owner.text ++ "." ++ asciiLower settings.tenantDomain)) ∧
      (asciiLower settings.tenantDomain = settings.tenantDomain → asciiLower name = name ∧
        ∀ base, previewBase cfg name = some base → NeverAccepted settings base) := by
  obtain ⟨owner, app, hh, htenant⟩ := tenantName_of_accepted h hunder
  have hbase := htenant.base hlower hcfg
  have hname := htenant.asciiLower_eq
  refine ⟨owner, app, hh, htenant, htenant.previewLabel, htenant.preview_never, ?_,
    fun happ => ?_, fun happ => ?_, fun hcase => ⟨?_, fun base hsome => ?_⟩⟩
  · rw [htenant.base_preview hlower hcfg, hname]
  · rw [if_neg happ] at hbase
    exact ⟨hbase, resolveHeaderApp_of_noBase hbase⟩
  · rw [hbase, if_pos happ]
  · rw [hname, hcase, ← String.toList_inj, htenant.spelled]
    simp
  · rw [hbase, hcase] at hsome
    split at hsome
    · rw [← Option.some.inj hsome]
      exact neverAccepted_handle htenant.domain
    · cases hsome

namespace Preview

/-- the broker at the tenant domain, over the lower case of ASCII -/
def config (tenantDomain : String) : Config where
  loginURL := "https://login.freepod.app"
  tenantDomain := tenantDomain
  sha256Bytes := fun _ => []
  encodeBase64 := fun _ => ""
  decodeBase64 := fun _ => none
  deriveSID := fun _ _ _ => ""
  verifyClientSecret := fun _ _ => false
  equalFold := fun a b => asciiLower a == asciiLower b
  toLower := asciiLower
  trimSpace := id
  splitHostPort := fun _ => none
  parsesAsPath := fun _ => true
  queryUnescape := some
  publicPath := fun _ _ => false

theorem config_lowersAscii (tenantDomain : String) : LowersAscii (config tenantDomain) :=
  fun _ _ => rfl

/-- the settings of a tenant domain spelled with capitals -/
def capitals : HostnameSettings := { HostnameSettings.sample with tenantDomain := "Freepod.App" }

end Preview

/-- `preview` itself is an application part, and its name is read as the preview of the handle; and
the capitals of a tenant domain are lost -/
theorem previews_overlap :
    (¬ ∀ cfg settings dns deployments value handle exclude name, LowersAscii cfg →
      cfg.tenantDomain = settings.tenantDomain →
      requireValidHostname dns settings deployments value handle exclude = .ok name →
      under name settings.tenantDomain = true → previewBase cfg name = none) ∧
    ¬ ∀ cfg settings dns deployments value handle exclude name, LowersAscii cfg →
      cfg.tenantDomain = settings.tenantDomain →
      requireValidHostname dns settings deployments value handle exclude = .ok name →
      under name settings.tenantDomain = true →
      previewBase cfg (previewName name) = some name := by
  constructor
  · intro hall
    have h := hall (Preview.config "freepod.app") .sample .wildcard [] "preview" (some .sample) none
      "preview-mallory.freepod.app" (Preview.config_lowersAscii _) rfl (by decide +kernel)
      (by decide +kernel)
    exact absurd h (by decide +kernel)
  · intro hall
    have h := hall (Preview.config "Freepod.App") Preview.capitals .wildcard [] "notes"
      (some .sample) none "notes-mallory.Freepod.App" (Preview.config_lowersAscii _) rfl
      (by decide +kernel) (by decide +kernel)
    exact absurd h (by decide +kernel)

/-- a name without a base, that its preview leads back to -/
theorem previews_apart_notes :
    previewBase (Preview.config "freepod.app") "notes-mallory.freepod.app" = none ∧
      NeverAccepted .sample "preview-notes-mallory.freepod.app" := by
  have h := previews_apart (Preview.config_lowersAscii "freepod.app") rfl
    (show requireValidHostname .wildcard .sample [] "Notes" (some .sample) none =
      .ok "notes-mallory.freepod.app" by decide +kernel) (by decide +kernel)
  obtain ⟨-, -, -, -, -, hnever, -⟩ := h
  exact ⟨by decide +kernel, hnever⟩

end Freepod
