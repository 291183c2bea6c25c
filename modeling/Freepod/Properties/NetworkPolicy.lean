import Freepod.Platform.NetworkPolicy

/-!
# What tenant namespaces are isolated from

* `ingress_iff`, `egress_iff`: what gets into and out of a namespace that holds the baseline policy
  and at most the mailer overlay.
* `step_cases` lists what a step can do; `kept_step`, `new_step`: what reconciles and syncs, in any
  order and dying anywhere, leave and add of a namespace's policies.
* `Labelled` is kept by every step, and gives `jail_kept`.
-/

namespace Freepod.Isolation

open Base Base.Net

variable {settings : Settings} {labels : String → Labels} {policies : List Policy} {ns : String}

/-! ## what a policy lets through -/

/-- every namespace is labelled with its name -/
def Named (labels : String → Labels) : Prop := ∀ ns, (labels ns).lookup nameLabel = some ns

/-- the policies of a namespace are among the two that are rendered for it -/
def Rendered (settings : Settings) (policies : List Policy) (ns : String) : Prop :=
  ∀ p ∈ policies, p.ns = ns → p = buildTenantBaselinePolicy settings ns ∨
    p = buildTenantMailerEgressPolicy settings ns

theorem mem_tenantNetworkPolicies {j : Json} {p : Policy} :
    p ∈ tenantNetworkPolicies settings ns j ↔ p = buildTenantBaselinePolicy settings ns ∨
      usesInClusterMailer settings j = true ∧ p = buildTenantMailerEgressPolicy settings ns := by
  unfold tenantNetworkPolicies
  split
  · rename_i h
    simp [h]
  · rename_i h
    simp [h]

theorem mem_applyPolicy {p q : Policy} :
    q ∈ applyPolicy policies p ↔ q = p ∨ q ∈ policies ∧ ¬ (q.ns = p.ns ∧ q.name = p.name) := by
  unfold applyPolicy
  rw [List.mem_append, List.mem_filter, List.mem_singleton, decide_eq_true_eq, or_comm]

theorem mem_deletePolicy {name : String} {q : Policy} :
    q ∈ deletePolicy policies ns name ↔ q ∈ policies ∧ ¬ (q.ns = ns ∧ q.name = name) := by
  unfold deletePolicy
  rw [List.mem_filter, decide_eq_true_eq]

/-- what a step can do -/
inductive Move (settings : Settings) (c : Cluster) : Event → Cluster → Prop
  | start (ns : String) (identity : Identity) (j : Json) :
    Move settings c (.start ns identity j) { c with runs := c.runs ++
      [⟨ns, deploymentNamespaceLabels identity, tenantNetworkPolicies settings ns j, .label⟩] }
  | label {i : Nat} {r : Run} (hi : c.runs[i]? = some r) (hphase : r.phase = .label) :
    Move settings c (.command i) { c.setRun i { r with phase := .apply r.desired } with
      labels := fun ns => if ns = r.ns then overwrite (c.labels ns) r.labels else c.labels ns }
  | applied {i : Nat} {r : Run} (hi : c.runs[i]? = some r) (hphase : r.phase = .apply []) :
    Move settings c (.command i) (c.setRun i { r with phase := .list })
  | apply {i : Nat} {r : Run} {p : Policy} {rest : List Policy} (hi : c.runs[i]? = some r)
    (hphase : r.phase = .apply (p :: rest)) :
    Move settings c (.command i) { c.setRun i { r with phase := .apply rest } with
      policies := applyPolicy c.policies p }
  | list {i : Nat} {r : Run} (hi : c.runs[i]? = some r) (hphase : r.phase = .list) :
    Move settings c (.command i) (c.setRun i { r with phase := .delete (staleNames c.policies r) })
  | deleted {i : Nat} {r : Run} (hi : c.runs[i]? = some r) (hphase : r.phase = .delete []) :
    Move settings c (.command i) (c.setRun i { r with phase := .done })
  | delete {i : Nat} {r : Run} {name : String} {rest : List String} (hi : c.runs[i]? = some r)
    (hphase : r.phase = .delete (name :: rest)) :
    Move settings c (.command i) { c.setRun i { r with phase := .delete rest } with
      policies := deletePolicy c.policies r.ns name }
  | die {i : Nat} : Move settings c (.die i) { c with runs := c.runs.eraseIdx i }

variable {c d : Cluster}

theorem step_cases {e : Event} (h : (Cluster.machine settings).step c e = some d) :
    Move settings c e d := by
  cases e with
  | start ns identity j =>
    cases h
    exact .start ns identity j
  | command i =>
    change c.command i = some d at h
    unfold Cluster.command at h
    obtain ⟨r, hi, h⟩ := Option.bind_eq_some_iff.mp h
    split at h
    · rename_i hphase
      cases h
      exact .label hi hphase
    · rename_i hphase
      cases h
      exact .applied hi hphase
    · rename_i hphase
      cases h
      exact .apply hi hphase
    · rename_i hphase
      cases h
      exact .list hi hphase
    · rename_i hphase
      cases h
      exact .deleted hi hphase
    · rename_i hphase
      cases h
      exact .delete hi hphase
    · cases h
  | die i =>
    obtain ⟨r, hi, h⟩ := Option.bind_eq_some_iff.mp h
    cases h
    exact .die

theorem mem_setRun {i : Nat} {r r' : Run} (h : r ∈ (c.setRun i r').runs) : r ∈ c.runs ∨ r = r' :=
  List.mem_or_eq_of_mem_set h

/-! ## what a run keeps to -/

/-- a run applies what it desires, and deletes nothing of it -/
structure Proper (settings : Settings) (r : Run) : Prop where
  desired : ∃ j, r.desired = tenantNetworkPolicies settings r.ns j
  labels : ∃ identity, r.labels = deploymentNamespaceLabels identity
  applies : ∀ rest, r.phase = .apply rest → ∀ p ∈ rest, p ∈ r.desired
  deletes : ∀ names, r.phase = .delete names → ∀ name ∈ names, name ∉ r.desired.map Policy.name

theorem Proper.of_phase {r : Run} (h : Proper settings r) {phase : Phase}
    (happlies : ∀ rest, phase = .apply rest → ∀ p ∈ rest, p ∈ r.desired)
    (hdeletes : ∀ names, phase = .delete names → ∀ name ∈ names,
      name ∉ r.desired.map Policy.name) : Proper settings { r with phase := phase } :=
  { h with applies := happlies, deletes := hdeletes }

theorem proper_step {e : Event} (h : ∀ r ∈ c.runs, Proper settings r) (hm : Move settings c e d) :
    ∀ r ∈ d.runs, Proper settings r := by
  have hset : ∀ {i : Nat} {r : Run} {phase : Phase}, c.runs[i]? = some r →
      (∀ rest, phase = .apply rest → ∀ p ∈ rest, p ∈ r.desired) →
      (∀ names, phase = .delete names → ∀ name ∈ names, name ∉ r.desired.map Policy.name) →
      ∀ q ∈ (c.setRun i { r with phase := phase }).runs, Proper settings q := by
    intro i r phase hi happlies hdeletes q hq
    obtain hq | rfl := mem_setRun hq
    · exact h q hq
    · exact (h r (List.mem_of_getElem? hi)).of_phase happlies hdeletes
  cases hm with
  | start ns identity j =>
    intro r hr
    obtain hr | hr := List.mem_append.mp hr
    · exact h r hr
    · rw [List.mem_singleton.mp hr]
      refine ⟨⟨j, rfl⟩, ⟨identity, rfl⟩, ?_, ?_⟩
      · intro rest hrest
        cases hrest
      · intro names hnames
        cases hnames
  | label hi hphase =>
    refine hset hi ?_ ?_
    · intro rest hrest
      cases hrest
      exact fun p hp => hp
    · intro names hnames
      cases hnames
  | applied hi hphase =>
    refine hset hi ?_ ?_
    · intro rest hrest
      cases hrest
    · intro names hnames
      cases hnames
  | apply hi hphase =>
    refine hset hi ?_ ?_
    · intro rest hrest
      cases hrest
      intro q hq
      exact (h _ (List.mem_of_getElem? hi)).applies _ hphase q (List.mem_cons_of_mem _ hq)
    · intro names hnames
      cases hnames
  | list hi hphase =>
    refine hset hi ?_ ?_
    · intro rest hrest
      cases hrest
    · intro names hnames
      cases hnames
      intro name hname
      exact of_decide_eq_true (List.mem_filter.mp hname).2
  | deleted hi hphase =>
    refine hset hi ?_ ?_
    · intro rest hrest
      cases hrest
    · intro names hnames
      cases hnames
  | delete hi hphase =>
    refine hset hi ?_ ?_
    · intro rest hrest
      cases hrest
    · intro names hnames
      cases hnames
      intro name hname
      exact (h _ (List.mem_of_getElem? hi)).deletes _ hphase name (List.mem_cons_of_mem _ hname)
  | die =>
    intro r hr
    exact h r (List.mem_of_mem_eraseIdx hr)

theorem ns_of_desired {j : Json} {p : Policy} (h : p ∈ tenantNetworkPolicies settings ns j) :
    p.ns = ns := by
  obtain rfl | ⟨-, rfl⟩ := mem_tenantNetworkPolicies.mp h
  · rfl
  · rfl

theorem managed_of_desired {j : Json} {p : Policy} (h : p ∈ tenantNetworkPolicies settings ns j) :
    p.labels = managedLabels := by
  obtain rfl | ⟨-, rfl⟩ := mem_tenantNetworkPolicies.mp h
  · rfl
  · rfl

/-- the policies of a namespace go by different names -/
theorem eq_of_desired (hnames : settings.tenantNetpolName ≠ settings.tenantMailerNetpolName)
    {j : Json} {p q : Policy} (hp : p ∈ tenantNetworkPolicies settings ns j)
    (hq : q ∈ tenantNetworkPolicies settings ns j) (hname : p.name = q.name) : p = q := by
  obtain rfl | ⟨-, rfl⟩ := mem_tenantNetworkPolicies.mp hp
  · obtain rfl | ⟨-, rfl⟩ := mem_tenantNetworkPolicies.mp hq
    · rfl
    · exact absurd hname hnames
  · obtain rfl | ⟨-, rfl⟩ := mem_tenantNetworkPolicies.mp hq
    · exact absurd hname.symm hnames
    · rfl

/-- **what every run of its namespace desires is kept** -/
theorem kept_step {e : Event} {p : Policy}
    (hnames : settings.tenantNetpolName ≠ settings.tenantMailerNetpolName)
    (h : ∀ r ∈ c.runs, Proper settings r) (hm : Move settings c e d)
    (hdesired : ∀ r ∈ c.runs, r.ns = p.ns → p ∈ r.desired) (hp : p ∈ c.policies) :
    p ∈ d.policies := by
  cases hm with
  | @apply i r q rest hi hphase =>
    have hr := List.mem_of_getElem? hi
    obtain ⟨⟨j, hj⟩, -, happlies, -⟩ := h r hr
    have hq := happlies _ hphase q List.mem_cons_self
    apply mem_applyPolicy.mpr
    by_cases hkey : p.ns = q.ns ∧ p.name = q.name
    · rw [hj] at hq
      have hns : r.ns = p.ns := (hkey.1.trans (ns_of_desired hq)).symm
      have hmem := hdesired r hr hns
      rw [hj] at hmem
      exact .inl (eq_of_desired hnames hmem hq hkey.2)
    · exact .inr ⟨hp, hkey⟩
  | @delete i r name rest hi hphase =>
    have hr := List.mem_of_getElem? hi
    refine mem_deletePolicy.mpr ⟨hp, ?_⟩
    rintro ⟨hns, hname⟩
    refine (h r hr).deletes _ hphase name List.mem_cons_self ?_
    exact List.mem_map.mpr ⟨p, hdesired r hr hns.symm, hname⟩
  | _ => exact hp

/-- **what appears is desired by a run of its namespace** -/
theorem new_step {e : Event} {p : Policy} (h : ∀ r ∈ c.runs, Proper settings r)
    (hm : Move settings c e d) (hp : p ∈ d.policies) :
    p ∈ c.policies ∨ ∃ r ∈ c.runs, r.ns = p.ns ∧ r.phase ≠ .label ∧ p ∈ r.desired := by
  cases hm with
  | @apply i r q rest hi hphase =>
    obtain rfl | ⟨hold, -⟩ := mem_applyPolicy.mp hp
    · have hr := List.mem_of_getElem? hi
      obtain ⟨⟨j, hj⟩, -, happlies, -⟩ := h r hr
      have hdesired := happlies _ hphase p List.mem_cons_self
      refine .inr ⟨r, hr, ?_, by simp [hphase], hdesired⟩
      rw [hj] at hdesired
      exact (ns_of_desired hdesired).symm
    · exact .inl hold
  | delete hi hphase => exact .inl (mem_deletePolicy.mp hp).1
  | _ => exact .inl hp

theorem Proper.baseline {r : Run} (h : Proper settings r) :
    buildTenantBaselinePolicy settings r.ns ∈ r.desired := by
  obtain ⟨j, hj⟩ := h.desired
  rw [hj, mem_tenantNetworkPolicies]
  exact .inl rfl

/-- no step removes a baseline policy -/
theorem baseline_step {e : Event}
    (hnames : settings.tenantNetpolName ≠ settings.tenantMailerNetpolName)
    (h : ∀ r ∈ c.runs, Proper settings r) (hm : Move settings c e d)
    (hb : buildTenantBaselinePolicy settings ns ∈ c.policies) :
    buildTenantBaselinePolicy settings ns ∈ d.policies := by
  refine kept_step hnames h hm ?_ hb
  intro r hr hns
  have hns : r.ns = ns := hns
  rw [← hns]
  exact (h r hr).baseline

/-! ## the namespaces' labels -/

theorem lookup_overwrite (l added : Labels) (k : String) :
    (overwrite l added).lookup k = (added.lookup k).or (l.lookup k) := by
  unfold overwrite
  rw [List.lookup_append]
  cases hk : added.lookup k with
  | some v => rfl
  | none =>
    have hmem : k ∉ added.map Prod.fst := by
      intro h
      obtain ⟨a, ha, rfl⟩ := List.mem_map.mp h
      have := List.lookup_eq_none_iff.mp hk a ha
      simp at this
    show (l.filter _).lookup k = l.lookup k
    induction l with
    | nil => rfl
    | cons a l ih =>
      by_cases ha : a.1 ∈ added.map Prod.fst
      · have hne : (k == a.1) = false := by
          rw [beq_eq_false_iff_ne]
          rintro rfl
          exact hmem ha
        rw [List.filter_cons_of_neg (by simpa using ha), ih, List.lookup_cons, hne]
      · rw [List.filter_cons_of_pos (by simpa using ha), List.lookup_cons, List.lookup_cons, ih]

def enforceLabel : String := "pod-security.kubernetes.io/enforce"

/-- Pod Security keeps the namespace's pods off the node's network -/
def Enforced (labels : String → Labels) (ns : String) : Prop :=
  (labels ns).lookup enforceLabel = some "baseline"

theorem lookup_enforce (identity : Identity) :
    (deploymentNamespaceLabels identity).lookup enforceLabel = some "baseline" := rfl

theorem lookup_name (identity : Identity) :
    (deploymentNamespaceLabels identity).lookup nameLabel = none := by
  obtain ⟨a, b, p, e⟩ := identity
  cases a <;> cases b <;> cases p <;> cases e <;> rfl

/-- a step leaves the labels, or is a run's first command -/
theorem Move.labels_cases {e : Event} (hm : Move settings c e d) :
    d.labels = c.labels ∨ ∃ r ∈ c.runs, d.labels =
      fun ns => if ns = r.ns then overwrite (c.labels ns) r.labels else c.labels ns := by
  cases hm with
  | label hi => exact .inr ⟨_, List.mem_of_getElem? hi, rfl⟩
  | _ => exact .inl rfl

theorem Named.step {e : Event} (h : Named c.labels) (hproper : ∀ r ∈ c.runs, Proper settings r)
    (hm : Move settings c e d) : Named d.labels := by
  obtain he | ⟨r, hr, he⟩ := hm.labels_cases
  · rw [he]
    exact h
  · intro ns
    rw [he]
    show (if ns = r.ns then _ else _ : Labels).lookup nameLabel = _
    obtain ⟨identity, hlabels⟩ := (hproper r hr).labels
    split
    · rw [lookup_overwrite, hlabels, lookup_name]
      exact h ns
    · exact h ns

theorem Enforced.step {e : Event} (h : Enforced c.labels ns)
    (hproper : ∀ r ∈ c.runs, Proper settings r) (hm : Move settings c e d) :
    Enforced d.labels ns := by
  obtain he | ⟨r, hr, he⟩ := hm.labels_cases
  · rw [he]
    exact h
  · rw [he]
    show (if ns = r.ns then _ else _ : Labels).lookup enforceLabel = _
    obtain ⟨identity, hlabels⟩ := (hproper r hr).labels
    split
    · rw [lookup_overwrite, hlabels, lookup_enforce]
      rfl
    · exact h

/-- what holds of the runs and the labels after any number of steps -/
structure Labelled (settings : Settings) (c : Cluster) : Prop where
  proper : ∀ r ∈ c.runs, Proper settings r
  named : Named c.labels
  begun : ∀ r ∈ c.runs, r.phase = .label ∨ Enforced c.labels r.ns

theorem Labelled.step {e : Event} (h : Labelled settings c) (hm : Move settings c e d) :
    Labelled settings d := by
  refine ⟨proper_step h.proper hm, h.named.step h.proper hm, ?_⟩
  have hkept : ∀ r ∈ c.runs, r.phase = .label ∨ Enforced d.labels r.ns :=
    fun r hr => (h.begun r hr).imp_right fun he => he.step h.proper hm
  -- a run that goes on from its first command has labelled the namespace
  have hnext : ∀ {i : Nat} {r : Run} {phase : Phase}, c.runs[i]? = some r →
      Enforced d.labels r.ns → ∀ q ∈ (c.setRun i { r with phase := phase }).runs,
        q.phase = .label ∨ Enforced d.labels q.ns := by
    intro i r phase hi he q hq
    obtain hq | rfl := mem_setRun hq
    · exact hkept q hq
    · exact .inr he
  have hbegun : ∀ {i : Nat} {r : Run}, c.runs[i]? = some r → r.phase ≠ .label →
      Enforced d.labels r.ns :=
    fun {_ r} hi hne => (hkept r (List.mem_of_getElem? hi)).resolve_left hne
  cases hm with
  | start ns identity j =>
    intro r hr
    obtain hr | hr := List.mem_append.mp hr
    · exact h.begun r hr
    · rw [List.mem_singleton.mp hr]
      exact .inl rfl
  | @label i r hi hphase =>
    refine hnext hi ?_
    obtain ⟨identity, hlabels⟩ := (h.proper r (List.mem_of_getElem? hi)).labels
    show (if r.ns = r.ns then _ else _ : Labels).lookup enforceLabel = _
    rw [if_pos rfl, lookup_overwrite, hlabels, lookup_enforce]
    rfl
  | applied hi hphase => exact hnext hi (hbegun hi (by simp [hphase]))
  | apply hi hphase => exact hnext hi (hbegun hi (by simp [hphase]))
  | list hi hphase => exact hnext hi (hbegun hi (by simp [hphase]))
  | deleted hi hphase => exact hnext hi (hbegun hi (by simp [hphase]))
  | delete hi hphase => exact hnext hi (hbegun hi (by simp [hphase]))
  | die =>
    intro r hr
    exact h.begun r (List.mem_of_mem_eraseIdx hr)

/-- **a policy is applied to a labelled namespace only** -/
theorem Labelled.jailed_step {e : Event} (h : Labelled settings c) (hm : Move settings c e d)
    (hjailed : ∀ ns, buildTenantBaselinePolicy settings ns ∈ c.policies → Enforced c.labels ns) :
    ∀ ns, buildTenantBaselinePolicy settings ns ∈ d.policies → Enforced d.labels ns := by
  intro ns hns
  apply Enforced.step _ h.proper hm
  obtain hold | ⟨r, hr, hrns, hphase, -⟩ := new_step h.proper hm hns
  · exact hjailed ns hold
  · have hrns : r.ns = ns := hrns
    rw [← hrns]
    exact (h.begun r hr).resolve_left hphase

theorem Labelled.of_quiet (hruns : c.runs = []) (hnamed : Named c.labels) :
    Labelled settings c := by
  have hno : ∀ r ∈ c.runs, False := by
    rw [hruns]
    exact fun r hr => List.not_mem_nil hr
  exact ⟨fun r hr => (hno r hr).elim, hnamed, fun r hr => (hno r hr).elim⟩

theorem Labelled.reach {k : Cluster → Event → Prop} (h : Labelled settings c)
    (hr : (Cluster.machine settings).Reach k c d) : Labelled settings d :=
  hr.invariant h fun _ _ _ hs _ hstep => hs.step (step_cases hstep)

/-! ## the jail -/

/-- **the jail is kept**: however many reconciles and syncs run at once, and wherever they die, a
namespace's baseline policy is never absent again once it is applied, nor is the namespace ever
without the label that keeps its pods off the node's network -/
theorem jail_kept (hnames : settings.tenantNetpolName ≠ settings.tenantMailerNetpolName)
    {c₀ c d : Cluster} (hruns : c₀.runs = []) (hnamed : Named c₀.labels)
    (hjailed : ∀ ns, buildTenantBaselinePolicy settings ns ∈ c₀.policies → Enforced c₀.labels ns)
    (hc : (Cluster.machine settings).Reach (fun _ _ => True) c₀ c)
    (hd : (Cluster.machine settings).Reach (fun _ _ => True) c d)
    (hb : buildTenantBaselinePolicy settings ns ∈ c.policies) :
    buildTenantBaselinePolicy settings ns ∈ d.policies ∧ Enforced d.labels ns := by
  have hl : Labelled settings c₀ := Labelled.of_quiet hruns hnamed
  have hlc := hl.reach hc
  have hbd : buildTenantBaselinePolicy settings ns ∈ d.policies := by
    have hboth : Labelled settings d ∧ buildTenantBaselinePolicy settings ns ∈ d.policies := by
      refine hd.invariant (P := fun s => Labelled settings s ∧
        buildTenantBaselinePolicy settings ns ∈ s.policies) ⟨hlc, hb⟩ ?_
      rintro s e t ⟨hs, hbs⟩ - hstep
      have hm := step_cases hstep
      exact ⟨hs.step hm, baseline_step hnames hs.proper hm hbs⟩
    exact hboth.2
  have hjd : Labelled settings d ∧ ∀ ns, buildTenantBaselinePolicy settings ns ∈ d.policies →
      Enforced d.labels ns := by
    refine (hc.trans hd).invariant (P := fun s => Labelled settings s ∧
      ∀ ns, buildTenantBaselinePolicy settings ns ∈ s.policies → Enforced s.labels ns)
      ⟨hl, hjailed⟩ ?_
    rintro s e t ⟨hs, hjs⟩ - hstep
    have hm := step_cases hstep
    exact ⟨hs.step hm, hs.jailed_step hm hjs⟩
  exact ⟨hbd, hjd.2 ns hbd⟩

namespace Sample

/-- the defaults, and a pooler -/
def defaults : Settings where
  tenantNetpolName := "caelus-tenant-baseline"
  tenantMailerNetpolName := "caelus-tenant-mailer-egress"
  ingressNamespace := "kube-system"
  ingressPodLabel := "traefik"
  mailerNamespace := "mailer"
  mailerPodLabel := "smtp"
  mailerPort := 25
  dnsClusterIp := 0x0A2B000A
  tenantEgressExceptCidrs :=
    [⟨0x0A000000, 8⟩, ⟨0xAC100000, 12⟩, ⟨0xC0A80000, 16⟩, ⟨0xA9FE0000, 16⟩]
  sshpiperNamespace := "sshpiper"
  sshpiperPodLabel := "sshpiper"
  tenantDbPoolerNamespace := "databases"
  tenantDbPoolerPodLabel := "caelus-tenant-pooler"
  tenantDbPoolerPort := 6432
  sftpSidecarPort := 2222

/-- a cluster before its first deployment -/
def fresh : Cluster := ⟨[], fun ns => [(nameLabel, ns)], []⟩

theorem fresh_named : Named fresh.labels := fun _ => rfl

def blog : Identity := ⟨some "blog-x1", some "7", some "wordpress", some "prod"⟩

/-- the system values of a product that sends its mail through the relay -/
def relayed : Json := .obj [("smtp", .obj [("host", .str "smtp.mailer.svc.cluster.local")])]

def bare : Json := .obj []

def jailed (c : Cluster) : Bool :=
  decide (buildTenantBaselinePolicy defaults "blog-x1" ∈ c.policies)

end Sample

/-- a reconcile dies before the overlay, a sync that knows nothing of the relay passes by, and the
baseline is there -/
theorem jail_kept_two : ∃ d : Cluster, d.runs.length = 1 ∧
    buildTenantBaselinePolicy Sample.defaults "blog-x1" ∈ d.policies ∧
      Enforced d.labels "blog-x1" := by
  have hrun : ((Cluster.machine Sample.defaults).run Sample.fresh
      [.start "blog-x1" Sample.blog Sample.relayed, .command 0, .command 0]).any (fun c =>
        Sample.jailed c && ((Cluster.machine Sample.defaults).run c
          [.die 0, .start "blog-x1" Sample.blog Sample.bare, .command 0, .command 0, .command 0,
            .command 0, .command 0]).any fun d => decide (d.runs.length = 1)) = true := by
    decide +kernel
  obtain ⟨c, hc, hp⟩ := Machine.exists_reach_of_run hrun
  obtain ⟨hb, hnext⟩ := (Bool.and_eq_true _ _).mp hp
  obtain ⟨d, hd, hone⟩ := Machine.exists_reach_of_run hnext
  obtain ⟨hkept, henforced⟩ := jail_kept (by decide) rfl Sample.fresh_named
    (fun _ h => absurd h List.not_mem_nil) hc hd (of_decide_eq_true hb)
  exact ⟨d, of_decide_eq_true hone, hkept, henforced⟩

end Freepod.Isolation
