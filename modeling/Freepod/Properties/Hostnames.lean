import Freepod.Platform.Hostnames

/-!
# Who owns a hostname

DNS reads a name without regard to case and ignores the root dot at its end; the domains, the label
and the stored hostnames are compared as they are spelled.

* `Hidden`: a name that DNS reads beneath a domain, and the suffix test does not.
* `Canonical`: the request, the domains and the stored hostnames are spelled as DNS compares them.
* `hostname_owned`: then an accepted name is the caller's, in the eyes of DNS; and it is iff nothing
  that concerns another is hidden from the checks by a spelling.
* `hostname_evades`: a root dot evades the tenant pattern and the platform domains.
-/

namespace Freepod
open Base

/-! ## Names as DNS reads them -/

/-- the spelling DNS compares: lower case, and no dot at the end -/
def canonical (s : String) : String :=
  String.ofList ((rstripDots s).toList.map Char.toLower)

/-- the labels of a name -/
def dnsName (s : String) : List (List Char) := (canonical s).toList.splitOn '.'

/-- the domain itself or a name beneath it; an unset domain has none -/
def LiesUnder (name domain : String) : Prop :=
  canonical domain ≠ "" ∧ dnsName domain <:+ dnsName name

/-- the application part of a tenant label -/
structure LegalApp (app : List Char) : Prop where
  nonempty : app ≠ []
  length : app.length ≤ appLabelMaxLength
  chars : ∀ c ∈ app, isLowerAlnum c = true ∨ c = '-'
  first : app.head? ≠ some '-'
  last : app.getLast? ≠ some '-'
  single : ¬ ['-', '-'] <:+: app
  free : ¬ previewLabelPrefix.toList <+: app

/-- under the tenant domain a name is `<app>-<handle>`, elsewhere it is under no platform domain,
and no other deployment that is not deleted holds it -/
structure Owned (settings : HostnameSettings) (deployments : List Deployment)
    (handle : Option Handle) (exclude : Option DeploymentId) (name : String) : Prop where
  tenant : LiesUnder name settings.tenantDomain → ∃ h app, handle = some h ∧ LegalApp app ∧
    dnsName name = (app ++ '-' :: h.text.toList) :: dnsName settings.tenantDomain
  platform : ¬ LiesUnder name settings.tenantDomain →
    ∀ domain ∈ settings.platformDomains, ¬ LiesUnder name domain
  unique : ∀ d ∈ deployments, ∀ host, d.hostname = some host → d.status ≠ .deleted →
    exclude ≠ some d.id → dnsName host ≠ dnsName name

/-! ## What a spelling hides -/

/-- DNS reads the name beneath the domain, and the suffix test does not -/
def Hidden (name domain : String) : Prop := LiesUnder name domain ∧ under name domain = false

/-- a spelling hides nothing of another's from the checks: a name hidden beneath the tenant domain
is the caller's own, one hidden beneath a platform domain lies beneath the tenant domain, and no
live deployment holds it in another spelling -/
structure VisibleName (settings : HostnameSettings) (deployments : List Deployment)
    (handle : Option Handle) (exclude : Option DeploymentId) (name : String) : Prop where
  tenant : Hidden name settings.tenantDomain → ∃ h app, handle = some h ∧ LegalApp app ∧
    dnsName name = (app ++ '-' :: h.text.toList) :: dnsName settings.tenantDomain
  platform : ∀ domain ∈ settings.platformDomains, Hidden name domain →
    LiesUnder name settings.tenantDomain
  unique : ∀ d ∈ deployments, ∀ host, d.hostname = some host → d.status ≠ .deleted →
    exclude ≠ some d.id → host ≠ name → dnsName host ≠ dnsName name

/-- the same of a request, whose name is completed first -/
def Visible (settings : HostnameSettings) (deployments : List Deployment) (value : String)
    (handle : Option Handle) (exclude : Option DeploymentId) : Prop :=
  ∀ name, completeHostname settings value handle = .ok name →
    VisibleName settings deployments handle exclude name

/-- the completed request, the domains and the stored hostnames are spelled as DNS compares them -/
structure Canonical (settings : HostnameSettings) (deployments : List Deployment) (value : String)
    (handle : Option Handle) : Prop where
  request : ∀ name, completeHostname settings value handle = .ok name → canonical name = name
  tenant : canonical settings.tenantDomain = settings.tenantDomain
  platform : ∀ domain ∈ settings.platformDomains, canonical domain = domain
  stored : ∀ d ∈ deployments, ∀ host, d.hostname = some host → canonical host = host

/-! ## Characters and labels -/

theorem lowerChar_of_isLowerAlnum {c : Char} (h : isLowerAlnum c = true) : lowerChar c = c := by
  have hk : c ≠ '\u212a' := by
    rintro rfl
    revert h
    decide
  rw [lowerChar, if_neg hk, toLower_of_isLowerAlnum h]

theorem isLabel_newline {l : List Char} (h : isLabel l = true) : '\n' ∉ l.dropLast := by
  have hall : ∀ c ∈ dropNewline l, (isAlnum c || c == '-') = true := by
    simp only [isLabel, isHyphenated, Bool.and_eq_true, List.all_eq_true] at h
    exact h.1.2
  have hsub : ∀ c ∈ l.dropLast, c ∈ dropNewline l := by
    intro c hc
    unfold dropNewline
    split
    · exact hc
    · exact List.mem_of_mem_dropLast hc
  intro hmem
  exact absurd (hall _ (hsub _ hmem)) (by decide)

theorem chars_of_isLabel {l : List Char} (h : isLabel l = true) :
    ∀ c ∈ l, isAlnum c = true ∨ c = '-' ∨ c = '\n' := by
  have hall : ∀ c ∈ dropNewline l, (isAlnum c || c == '-') = true := by
    simp only [isLabel, isHyphenated, Bool.and_eq_true, List.all_eq_true] at h
    exact h.1.2
  intro c hc
  obtain hc | rfl := mem_dropNewline hc
  · have h := hall c hc
    rw [Bool.or_eq_true, beq_iff_eq] at h
    exact h.imp_right .inl
  · exact .inr (.inr rfl)

/-- the characters of a name in the required format -/
theorem chars_of_checkFormat {name : String} (h : checkFormat name = .ok ()) :
    ∀ c ∈ name.toList, isAlnum c = true ∨ c = '-' ∨ c = '\n' ∨ c = '.' := by
  simp only [checkFormat, bind_eq_ok, require_eq_ok] at h
  obtain ⟨-, -, -, -, hlabels⟩ := h
  intro c hc
  rw [← List.rdropWhile_append_rtakeWhile (l := name.toList) (p := (· = '.')),
    List.mem_append] at hc
  obtain hc | hc := hc
  · by_cases hdot : c = '.'
    · exact .inr (.inr (.inr hdot))
    · obtain ⟨l, hl, hcl⟩ := mem_splitOn hc hdot
      have hlabel : isLabel l = true := by
        refine (hlabels l ?_).2
        rw [rstripDots, String.toList_ofList]
        exact hl
      obtain h | h | h := chars_of_isLabel hlabel c hcl
      · exact .inl h
      · exact .inr (.inl h)
      · exact .inr (.inr (.inl h))
  · have hdot : c = '.' := by simpa using List.mem_rtakeWhile_imp hc
    exact .inr (.inr (.inr hdot))

theorem dropNewline_of_notMem {l : List Char} (h : '\n' ∉ l) : dropNewline l = l := by
  refine if_neg fun hlast => h ?_
  exact List.mem_of_getLast? hlast

theorem isHyphenated_iff {l : List Char} : isHyphenated isLowerAlnum l = true ↔
    l ≠ [] ∧ (∀ c ∈ l, isLowerAlnum c = true ∨ c = '-') ∧ l.head? ≠ some '-' ∧
      l.getLast? ≠ some '-' := by
  simp only [isHyphenated, Bool.and_eq_true, Option.any_eq_true, List.all_eq_true, Bool.or_eq_true,
    beq_iff_eq]
  constructor
  · rintro ⟨⟨⟨c, hc, hlc⟩, e, he, hle⟩, hall⟩
    refine ⟨?_, hall, ?_, ?_⟩
    · rintro rfl
      cases hc
    · rw [hc]
      rintro ⟨⟩
      exact absurd hlc (by decide)
    · rw [he]
      rintro ⟨⟩
      exact absurd hle (by decide)
  · rintro ⟨hne, hall, hfirst, hlast⟩
    refine ⟨⟨⟨l.head hne, List.head?_eq_some_head hne, ?_⟩, l.getLast hne,
      List.getLast?_eq_some_getLast hne, ?_⟩, hall⟩
    · refine (hall _ (List.head_mem hne)).resolve_right fun h => hfirst ?_
      rw [List.head?_eq_some_head hne, h]
    · refine (hall _ (List.getLast_mem hne)).resolve_right fun h => hlast ?_
      rw [List.getLast?_eq_some_getLast hne, h]

theorem isHandle_ne_nil {l : List Char} (h : isHandle l = true) : l ≠ [] := by
  rintro rfl
  exact absurd h (by decide)

theorem Handle.chars (h : Handle) : ∀ c ∈ h.text.toList, isLowerAlnum c = true := by
  have hl := h.legal.1
  simp only [isHandle, dropNewline_of_notMem h.legal.2, Bool.and_eq_true, List.all_eq_true] at hl
  exact hl.2

theorem Handle.notMem (h : Handle) {c : Char} (hc : isLowerAlnum c = false) :
    c ∉ h.text.toList := by
  intro hmem
  rw [h.chars c hmem] at hc
  cases hc

theorem Handle.lower (h : Handle) : Freepod.lower h.text = h.text := by
  unfold Freepod.lower
  rw [List.map_congr_left fun c hc => lowerChar_of_isLowerAlnum (h.chars c hc), List.map_id',
    String.ofList_toList]

theorem LegalApp.notMem {app : List Char} (h : LegalApp app) {c : Char}
    (hc : isLowerAlnum c = false) (hne : c ≠ '-') : c ∉ app := by
  intro hmem
  obtain h | h := h.chars c hmem
  · rw [h] at hc
    cases hc
  · exact hne h

theorem LegalApp.label {app : List Char} (happ : LegalApp app) (h : Handle) :
    '.' ∉ app ++ '-' :: h.text.toList := by
  rw [List.mem_append, List.mem_cons]
  rintro (hm | hm | hm)
  · exact happ.notMem (by decide) (by decide) hm
  · exact absurd hm (by decide)
  · exact h.notMem (by decide) hm

/-! ## Names and domains -/

theorem canonical_inj {a b : String} : dnsName a = dnsName b ↔ canonical a = canonical b :=
  splitOn_inj.trans String.toList_inj

/-- **the suffix test sees what DNS sees**, in canonical spelling -/
theorem under_canonical {name domain : String} :
    under (canonical name) (canonical domain) = true ↔ LiesUnder name domain := by
  rw [LiesUnder, dnsName, dnsName, suffix_splitOn, String.toList_inj,
    eq_comm (a := canonical domain) (b := canonical name)]
  simp only [under, Bool.and_eq_true, Bool.or_eq_true, decide_eq_true_eq,
    List.isSuffixOf_iff_suffix]

theorem under_iff {name domain : String} : under name domain = true ↔
    domain ≠ "" ∧ (name = domain ∨ '.' :: domain.toList <:+ name.toList) := by
  simp only [under, Bool.and_eq_true, Bool.or_eq_true, decide_eq_true_eq,
    List.isSuffixOf_iff_suffix]

theorem rdropWhile_append {label rest : List Char} (h : rest.rdropWhile (· = '.') ≠ []) :
    (label ++ '.' :: rest).rdropWhile (· = '.') = label ++ '.' :: rest.rdropWhile (· = '.') := by
  have he : (rest.reverse.dropWhile (· = '.')).isEmpty = false := by
    rw [List.isEmpty_eq_false_iff]
    intro hnil
    exact h (by rw [List.rdropWhile, hnil, List.reverse_nil])
  simp only [List.rdropWhile, List.reverse_append, List.reverse_cons, List.append_assoc,
    List.dropWhile_append, he]
  simp

/-- a label before a domain that is no dots alone, as DNS reads them -/
theorem dnsName_append {name domain : String} {label : List Char} (hdomain : canonical domain ≠ "")
    (hname : name.toList = label ++ '.' :: domain.toList) :
    (canonical name).toList = label.map Char.toLower ++ '.' :: (canonical domain).toList := by
  have hne : domain.toList.rdropWhile (· = '.') ≠ [] := by
    intro hnil
    exact hdomain (by rw [canonical, rstripDots, hnil]; rfl)
  simp only [canonical, rstripDots, String.toList_ofList, hname, rdropWhile_append hne,
    List.map_append, List.map_cons]
  rfl

/-- the suffix test sees no more than DNS -/
theorem liesUnder_of_under {name domain : String} (hdomain : canonical domain ≠ "")
    (h : under name domain = true) : LiesUnder name domain := by
  refine ⟨hdomain, ?_⟩
  obtain ⟨-, rfl | ⟨label, hname⟩⟩ := under_iff.1 h
  · exact List.suffix_refl _
  · refine suffix_splitOn.2 (.inr ⟨label.map Char.toLower, ?_⟩)
    exact (dnsName_append hdomain hname.symm).symm

theorem labelUnder_eq {name domain : String} {label : List Char}
    (h : name.toList = label ++ '.' :: domain.toList) : labelUnder name domain = label := by
  have hlen : name.length = label.length + (domain.length + 1) := by
    rw [← String.length_toList, h, List.length_append, List.length_cons, String.length_toList]
  have hne : name ≠ domain := by
    rintro rfl
    omega
  rw [labelUnder, if_neg hne, hlen, Nat.add_sub_cancel, h, List.take_left]

/-- what follows the first label of a name in the required format is no dots alone -/
theorem rest_of_checkFormat {name : String} {label rest : List Char}
    (h : checkFormat name = .ok ()) (hname : name.toList = label ++ '.' :: rest)
    (hlabel : '.' ∉ label) : rest.rdropWhile (· = '.') ≠ [] := by
  simp only [checkFormat, bind_eq_ok, require_eq_ok, rstripDots, String.toList_ofList, hname] at h
  obtain ⟨-, -, -, htwo, -⟩ := h
  intro hnil
  -- one label only would be left of the name
  have hdrop : (label ++ '.' :: rest).rdropWhile (· = '.') = label.rdropWhile (· = '.') := by
    have he : rest.reverse.dropWhile (· = '.') = [] := List.reverse_eq_nil_iff.mp hnil
    simp only [List.rdropWhile, List.reverse_append, List.reverse_cons, List.append_assoc,
      List.dropWhile_append, he]
    simp
  have hnot : '.' ∉ label.rdropWhile (· = '.') := fun hmem =>
    hlabel (List.IsPrefix.subset (List.rdropWhile_prefix _ _) hmem)
  rw [hdrop, List.splitOn_eq_singleton hnot] at htwo
  simp at htwo

/-- the first label of a name in the required format -/
theorem isLabel_of_checkFormat {name : String} {label rest : List Char}
    (h : checkFormat name = .ok ()) (hname : name.toList = label ++ '.' :: rest)
    (hlabel : '.' ∉ label) : isLabel label = true := by
  have hrest := rest_of_checkFormat h hname hlabel
  simp only [checkFormat, bind_eq_ok, require_eq_ok, rstripDots, String.toList_ofList, hname,
    rdropWhile_append hrest, List.splitOn_append_cons_self_of_not_mem hlabel] at h
  obtain ⟨-, -, -, -, hlabels⟩ := h
  exact (hlabels label List.mem_cons_self).2

/-! ## The tenant label -/

variable {settings : HostnameSettings} {fqdn : String} {handle : Option Handle}

theorem legal_of_checkTenantLabel {label : List Char}
    (hlabel : labelUnder fqdn settings.tenantDomain = label)
    (hnl : '.' ∉ label → '\n' ∉ label.dropLast)
    (h : checkTenantLabel settings fqdn handle = .ok ()) :
    ∃ h app, handle = some h ∧ LegalApp app ∧ label = app ++ '-' :: h.text.toList := by
  simp only [checkTenantLabel, bind_eq_ok, require_eq_ok, hlabel] at h
  obtain ⟨-, ⟨-, hdot, hhyphen⟩, -, ⟨howner, hlen, happ, hsingle⟩, -, hown, hfree⟩ := h
  obtain ⟨heq, -⟩ := rpartition_spec hhyphen
  generalize rpartition '-' label = parts at *
  obtain ⟨app, owner⟩ := parts
  dsimp only at *
  -- an owner text is not empty, so the caller holds a handle
  cases handle with
  | none => exact absurd hown (isHandle_ne_nil howner)
  | some h =>
    rw [Option.map_some, Option.getD_some, h.lower] at hown
    have happnl : '\n' ∉ app := by
      intro hmem
      refine hnl hdot ?_
      rw [← heq, List.dropLast_append_of_ne_nil (List.cons_ne_nil _ _)]
      exact List.mem_append_left _ hmem
    rw [isAppLabel, dropNewline_of_notMem happnl, isHyphenated_iff] at happ
    obtain ⟨hne, hchars, hfirst, hlast⟩ := happ
    refine ⟨h, app, rfl, ⟨hne, hlen, hchars, hfirst, hlast, hsingle, hfree⟩, ?_⟩
    rw [← hown, heq]

/-- **what the checks accept beneath the tenant domain** -/
theorem own_of_checkDomains (hf : checkFormat fqdn = .ok ())
    (hu : under fqdn settings.tenantDomain = true)
    (h : checkDomains settings fqdn handle = .ok ()) : ∃ h app, handle = some h ∧ LegalApp app ∧
      fqdn.toList = (app ++ '-' :: h.text.toList) ++ '.' :: settings.tenantDomain.toList := by
  rw [checkDomains, if_pos hu] at h
  obtain ⟨hne, heq | ⟨label, hname⟩⟩ := under_iff.1 hu
  · rw [checkTenantLabel, labelUnder, if_pos heq] at h
    simp [bind_eq_ok, require_eq_ok] at h
  · obtain ⟨owner, app, hh, happ, rfl⟩ := legal_of_checkTenantLabel (labelUnder_eq hname.symm)
      (fun hdot => isLabel_newline (isLabel_of_checkFormat hf hname.symm hdot)) h
    exact ⟨owner, app, hh, happ, hname.symm⟩

/-! ## Ownership -/

variable {deployments : List Deployment} {exclude : Option DeploymentId} {name : String}

theorem LegalApp.toLower {app : List Char} (happ : LegalApp app) (h : Handle) :
    (app ++ '-' :: h.text.toList).map Char.toLower = app ++ '-' :: h.text.toList := by
  refine (List.map_congr_left fun c hc => ?_).trans (List.map_id' _)
  have hchar : isLowerAlnum c = true ∨ c = '-' := by
    rcases List.mem_append.1 hc with hc | hc
    · exact happ.chars c hc
    · rcases List.mem_cons.1 hc with rfl | hc
      · exact .inr rfl
      · exact .inl (h.chars c hc)
  rcases hchar with hlow | rfl
  · exact toLower_of_isLowerAlnum hlow
  · rfl

/-- the same as DNS reads it -/
theorem dnsName_of_checkDomains (hf : checkFormat name = .ok ())
    (hu : under name settings.tenantDomain = true)
    (h : checkDomains settings name handle = .ok ()) :
    LiesUnder name settings.tenantDomain ∧ ∃ h app, handle = some h ∧ LegalApp app ∧
      dnsName name = (app ++ '-' :: h.text.toList) :: dnsName settings.tenantDomain := by
  obtain ⟨owner, app, hh, happ, hname⟩ := own_of_checkDomains hf hu h
  have hdomain : canonical settings.tenantDomain ≠ "" := by
    intro hempty
    refine rest_of_checkFormat hf hname (happ.label owner) ?_
    simpa [canonical, rstripDots] using hempty
  refine ⟨liesUnder_of_under hdomain hu, owner, app, hh, happ, ?_⟩
  unfold dnsName
  rw [dnsName_append hdomain hname, happ.toLower owner,
    List.splitOn_append_cons_self_of_not_mem (happ.label owner)]

theorem requireValidHostname_ok {dns : Dns} {value : String}
    (h : requireValidHostname dns settings deployments value handle exclude = .ok name) :
    completeHostname settings value handle = .ok name ∧ checkFormat name = .ok () ∧
      checkDomains settings name handle = .ok () ∧
      checkAvailable deployments name exclude = .ok () := by
  simp only [requireValidHostname, bind_eq_ok, pure_eq_ok] at h
  obtain ⟨fqdn, hname, ⟨⟩, hf, ⟨⟩, hdomains, ⟨⟩, havailable, ⟨⟩, -, rfl⟩ := h
  exact ⟨hname, hf, hdomains, havailable⟩

/-- **the checks see to what they see** -/
theorem owned_of_visible (hf : checkFormat name = .ok ())
    (hdomains : checkDomains settings name handle = .ok ())
    (havailable : checkAvailable deployments name exclude = .ok ())
    (hv : VisibleName settings deployments handle exclude name) :
    Owned settings deployments handle exclude name where
  tenant := by
    intro hlies
    cases hu : under name settings.tenantDomain with
    | true => exact (dnsName_of_checkDomains hf hu hdomains).2
    | false => exact hv.tenant ⟨hlies, hu⟩
  platform := by
    intro hnot domain hmem hlies
    cases hu : under name settings.tenantDomain with
    | true => exact hnot (dnsName_of_checkDomains hf hu hdomains).1
    | false =>
      rw [checkDomains, if_neg (Bool.eq_false_iff.1 hu), require_eq_ok] at hdomains
      exact hnot (hv.platform domain hmem ⟨hlies, hdomains domain hmem⟩)
  unique := by
    intro d hd host hhost hlive hother
    by_cases heq : host = name
    · rw [checkAvailable, require_eq_ok] at havailable
      exact absurd (havailable d hd (heq ▸ hhost) hlive) hother
    · exact hv.unique d hd host hhost hlive hother heq

theorem visible_of_owned (h : Owned settings deployments handle exclude name) :
    VisibleName settings deployments handle exclude name where
  tenant := fun hhidden => h.tenant hhidden.1
  platform := by
    intro domain hmem hhidden
    by_contra hnot
    exact h.platform hnot domain hmem hhidden.1
  unique := fun d hd host hhost hlive hother _ => h.unique d hd host hhost hlive hother

/-- **nothing is hidden in canonical spelling** -/
theorem Canonical.visible {value : String} (h : Canonical settings deployments value handle) :
    Visible settings deployments value handle exclude := by
  intro name hname
  have hcanonical := h.request name hname
  have hseen : ∀ domain, canonical domain = domain → ¬ Hidden name domain := by
    rintro domain hdomain ⟨hlies, hunder⟩
    rw [← under_canonical, hcanonical, hdomain, hunder] at hlies
    cases hlies
  refine ⟨fun hhidden => absurd hhidden (hseen _ h.tenant),
    fun domain hmem hhidden => absurd hhidden (hseen domain (h.platform domain hmem)), ?_⟩
  intro d hmem host hhost _ _ hne heq
  rw [canonical_inj, h.stored d hmem host hhost, hcanonical] at heq
  exact hne heq

/-- **an accepted name is the caller's** in canonical spelling, and in any spelling iff it hides
nothing of another's from the checks -/
theorem hostname_owned {dns : Dns} {value : String}
    (h : requireValidHostname dns settings deployments value handle exclude = .ok name) :
    (Canonical settings deployments value handle →
      Owned settings deployments handle exclude name) ∧
    (Owned settings deployments handle exclude name ↔
      Visible settings deployments value handle exclude) := by
  obtain ⟨hname, hf, hdomains, havailable⟩ := requireValidHostname_ok h
  have howned : Visible settings deployments value handle exclude →
      Owned settings deployments handle exclude name :=
    fun hv => owned_of_visible hf hdomains havailable (hv name hname)
  refine ⟨fun hcanonical => howned hcanonical.visible, ?_, howned⟩
  intro howned fqdn hfqdn
  rw [hname] at hfqdn
  exact Except.ok.inj hfqdn ▸ visible_of_owned howned

def HostnameSettings.sample : HostnameSettings where
  domain := "freepod.eu"
  tenantDomain := "freepod.app"
  platformDomains := ["freepod.eu", "freepod.app"]

/-- name servers that answer for every name with the platform's own address -/
def Dns.wildcard : Dns where
  cname _ := .ok []
  addresses _ := .ok [⟨4, 1⟩]

def Handle.sample : Handle := ⟨"mallory", by decide⟩

/-- a bare label is completed beneath the caller's handle -/
theorem hostname_owned_bare :
    Owned .sample [] (some .sample) none "notes-mallory.freepod.app" := by
  have h : requireValidHostname .wildcard .sample [] "Notes" (some .sample) none =
      .ok "notes-mallory.freepod.app" := by decide +kernel
  refine (hostname_owned h).1 ⟨?_, by decide +kernel, by decide +kernel, ?_⟩
  · intro name hname
    have heq : completeHostname .sample "Notes" (some .sample) =
        .ok "notes-mallory.freepod.app" := by
      decide +kernel
    rw [heq] at hname
    exact Except.ok.inj hname ▸ by decide +kernel
  · intro d hd
    cases hd

/-- a root dot at the end of another's tenant hostname -/
theorem hostname_evades :
    ¬ ∀ dns settings deployments value handle exclude name,
      requireValidHostname dns settings deployments value handle exclude = .ok name →
        Owned settings deployments handle exclude name := by
  intro hall
  have h := hall .wildcard .sample [] "notes-bob.freepod.app." (some .sample) none
    "notes-bob.freepod.app." (by decide +kernel)
  have hlies : LiesUnder "notes-bob.freepod.app." HostnameSettings.sample.tenantDomain :=
    ⟨by decide +kernel, by decide +kernel⟩
  obtain ⟨owner, app, hh, -, heq⟩ := h.tenant hlies
  cases hh
  have hdns : dnsName "notes-bob.freepod.app." =
      "notes-bob".toList :: dnsName HostnameSettings.sample.tenantDomain := by decide +kernel
  rw [hdns, List.cons.injEq] at heq
  have hlast := congrArg List.getLast? heq.1
  rw [List.getLast?_append_cons] at hlast
  exact absurd hlast (by decide +kernel)

end Freepod
