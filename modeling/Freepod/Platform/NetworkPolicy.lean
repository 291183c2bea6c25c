import Freepod.Base.Machine
import Freepod.Base.NetworkPolicy
import Freepod.Values.Json

/-!
# The network isolation of tenant namespaces

`network_policy.py` and `Provisioner.ensure_tenant_network_policies`.

* `buildTenantBaselinePolicy` and `buildTenantMailerEgressPolicy` render the two policies, and
  `tenantNetworkPolicies` the set a namespace should hold.
* `Cluster` runs any number of reconciles and fleet syncs at once, one `kubectl` command at a time;
  a run may die between any two commands.
-/

namespace Freepod.Isolation

open Base Base.Net

/-! ## the policies -/

structure Settings where
  tenantNetpolName : String
  tenantMailerNetpolName : String
  ingressNamespace : String
  ingressPodLabel : String
  mailerNamespace : String
  mailerPodLabel : String
  mailerPort : Nat
  dnsClusterIp : Nat
  tenantEgressExceptCidrs : List Cidr
  sshpiperNamespace : String
  sshpiperPodLabel : String
  tenantDbPoolerNamespace : String
  tenantDbPoolerPodLabel : String
  tenantDbPoolerPort : Nat
  sftpSidecarPort : Nat

/-- the label every namespace has its name under -/
def nameLabel : String := "kubernetes.io/metadata.name"

def managedLabels : Labels := [("app.kubernetes.io/managed-by", "caelus")]

/-- the pods of a namespace that have a label -/
def podsOf (ns key value : String) : Peer := .pods (some [(nameLabel, ns)]) [(key, value)]

/-- all pods of the policy's namespace -/
def ownPods : Peer := .pods none []

def dnsPorts : List Port := [⟨53, .udp⟩, ⟨53, .tcp⟩]

variable (settings : Settings)

/-- `build_tenant_baseline_policy` -/
def buildTenantBaselinePolicy (ns : String) : Policy where
  name := settings.tenantNetpolName
  ns := ns
  labels := managedLabels
  podSelector := []
  ingress := some
    [⟨[podsOf settings.ingressNamespace "app.kubernetes.io/name" settings.ingressPodLabel], []⟩,
      ⟨[podsOf settings.sshpiperNamespace "app" settings.sshpiperPodLabel],
        [⟨settings.sftpSidecarPort, .tcp⟩]⟩,
      ⟨[ownPods], []⟩]
  egress := some
    [⟨[ownPods], []⟩,
      ⟨[podsOf "kube-system" "k8s-app" "kube-dns"], dnsPorts⟩,
      ⟨[.ipBlock ⟨settings.dnsClusterIp, 32⟩ []], dnsPorts⟩,
      ⟨[podsOf settings.tenantDbPoolerNamespace "app" settings.tenantDbPoolerPodLabel],
        [⟨settings.tenantDbPoolerPort, .tcp⟩]⟩,
      ⟨[.ipBlock ⟨0, 0⟩ settings.tenantEgressExceptCidrs], []⟩]

/-- `_build_tenant_mailer_egress_policy` -/
def buildTenantMailerEgressPolicy (ns : String) : Policy where
  name := settings.tenantMailerNetpolName
  ns := ns
  labels := managedLabels
  podSelector := []
  ingress := none
  egress := some [⟨[podsOf settings.mailerNamespace "app" settings.mailerPodLabel],
    [⟨settings.mailerPort, .tcp⟩]⟩]

/-- `_uses_in_cluster_mailer` -/
def usesInClusterMailer (systemValuesJson : Json) : Bool :=
  match systemValuesJson.get? "smtp" with
  | some (.obj fields) =>
    match fields.lookup "host" with
    | some (.str host) =>
      ("smtp." ++ settings.mailerNamespace ++ ".svc").toList.isPrefixOf host.toList
    | _ => false
  | _ => false

/-- `tenant_network_policies` -/
def tenantNetworkPolicies (ns : String) (systemValuesJson : Json) : List Policy :=
  buildTenantBaselinePolicy settings ns ::
    if usesInClusterMailer settings systemValuesJson then
      [buildTenantMailerEgressPolicy settings ns]
    else []

/-! ## the namespace's labels -/

/-- `TENANT_NAMESPACE_LABELS` -/
def tenantNamespaceLabels : Labels :=
  [("caelus.dev/tenant", "true"), ("pod-security.kubernetes.io/enforce", "baseline"),
    ("pod-security.kubernetes.io/enforce-version", "latest")]

/-- what is left of each name of a deployment as a label value -/
structure Identity where
  deploymentId : Option String
  ownerId : Option String
  product : Option String
  environment : Option String

/-- `deployment_namespace_labels`; with nothing left of any name, `TENANT_NAMESPACE_LABELS` -/
def deploymentNamespaceLabels (d : Identity) : Labels :=
  tenantNamespaceLabels ++
    ([("caelus.dev/deployment-id", d.deploymentId), ("caelus.dev/owner-id", d.ownerId),
      ("caelus.dev/product", d.product), ("caelus.dev/environment", d.environment)].filterMap
        fun l => l.2.map fun value => (l.1, value))

/-! ## the cluster -/

/-- what a run of `ensure_tenant_network_policies` does next -/
inductive Phase where
  | label
  | apply (rest : List Policy)
  | list
  | delete (names : List String)
  | done
  deriving DecidableEq

structure Run where
  ns : String
  labels : Labels
  desired : List Policy
  phase : Phase

structure Cluster where
  policies : List Policy
  labels : String → Labels
  runs : List Run

/-- `kubectl label --overwrite` -/
def overwrite (labels added : Labels) : Labels :=
  added ++ labels.filter fun l => decide (l.1 ∉ added.map Prod.fst)

/-- `kubectl apply`: the object of the name is replaced -/
def applyPolicy (policies : List Policy) (p : Policy) : List Policy :=
  (policies.filter fun q => decide (¬ (q.ns = p.ns ∧ q.name = p.name))) ++ [p]

/-- `kubectl delete --ignore-not-found` -/
def deletePolicy (policies : List Policy) (ns name : String) : List Policy :=
  policies.filter fun q => decide (¬ (q.ns = ns ∧ q.name = name))

/-- `list_object_names` of the managed policies -/
def managedNames (policies : List Policy) (ns : String) : List String :=
  (policies.filter fun q => decide (q.ns = ns) && Selector.selects managedLabels q.labels).map
    Policy.name

/-- the managed policies of a namespace that it should not hold -/
def staleNames (policies : List Policy) (r : Run) : List String :=
  (managedNames policies r.ns).filter fun name => decide (name ∉ r.desired.map Policy.name)

inductive Event where
  /-- a reconcile, or a sync of the fleet, comes to a namespace -/
  | start (ns : String) (identity : Identity) (systemValuesJson : Json)
  /-- the next command of a run -/
  | command (i : Nat)
  /-- a command fails, or the run's process dies -/
  | die (i : Nat)

namespace Cluster

variable {settings}

def setRun (c : Cluster) (i : Nat) (r : Run) : Cluster := { c with runs := c.runs.set i r }

/-- one `kubectl` command of `ensure_tenant_network_policies` -/
def command (c : Cluster) (i : Nat) : Option Cluster := do
  let r ← c.runs[i]?
  match r.phase with
  | .label =>
    some { c.setRun i { r with phase := .apply r.desired } with
      labels := fun ns => if ns = r.ns then overwrite (c.labels ns) r.labels else c.labels ns }
  | .apply [] => some (c.setRun i { r with phase := .list })
  | .apply (p :: rest) =>
    some { c.setRun i { r with phase := .apply rest } with policies := applyPolicy c.policies p }
  | .list => some (c.setRun i { r with phase := .delete (staleNames c.policies r) })
  | .delete [] => some (c.setRun i { r with phase := .done })
  | .delete (name :: rest) =>
    some { c.setRun i { r with phase := .delete rest } with
      policies := deletePolicy c.policies r.ns name }
  | .done => none

def die (c : Cluster) (i : Nat) : Option Cluster := do
  let _ ← c.runs[i]?
  some { c with runs := c.runs.eraseIdx i }

variable (settings) in
def step (c : Cluster) : Event → Option Cluster
  | .start ns identity systemValuesJson =>
    some { c with runs := c.runs ++ [⟨ns, deploymentNamespaceLabels identity,
      tenantNetworkPolicies settings ns systemValuesJson, .label⟩] }
  | .command i => c.command i
  | .die i => c.die i

variable (settings) in
def machine : Machine Cluster Event := ⟨step settings⟩

end Cluster

end Freepod.Isolation
