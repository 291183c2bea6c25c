import Freepod.Platform.Step

/-!
# What a request may write

The reconcile workers read and write the deployments, the two ledgers, the jobs, the cluster and
their own turns: the core of the state.  `Written a s t` lists what a step that is not a worker's
can do to the core: nothing, or one of five writes.  `written_of_step` is the inversion every
invariant of the workers starts from.
-/

namespace Freepod
open Base

/-- the core but the deployments, the releases and the jobs is as it was -/
structure SameRest (s t : State) : Prop where
  powers : t.powers = s.powers
  cluster : t.cluster = s.cluster
  workers : t.workers = s.workers

/-- what a step outside the workers writes of the core -/
inductive Written (a : Action) (s t : State) : Prop
  | aside (deployments : t.deployments = s.deployments) (releases : t.releases = s.releases)
      (jobs : t.jobs = s.jobs) (rest : SameRest s t)
  | create (r : CreateRequest) (ns : String) (values : Json) (hostname : Option String)
      (isPaid : Bool)
      (deployments : s.deployments.insert?
        (r.deployment s.now s.subscriptions.nextKey ns values hostname isPaid) =
          some t.deployments)
      (releases : s.releases.insert? (newRelease r.releaseId 1 r.deploymentId r.desiredTemplateId
        r.buildId values s.now) = some t.releases)
      (jobs : isPaid = true ∧ t.jobs = s.jobs ∨
        isPaid = false ∧ Enqueued s.jobs t.jobs (· = r.deploymentId))
      (rest : SameRest s t) (action : ∃ c, a = .create c r)
  | update (u : UpdateRequest) (d : Deployment) (values : Json) (hostname : Option String)
      (buildId : Option BuildId) (row : s.deployments.get? u.id = some d)
      (settled : d.status = .ready ∨ d.status = .error)
      (deployments : s.deployments.put? (u.deployment d values hostname) = some t.deployments)
      (releases : s.releases.insert? (newRelease u.releaseId (nextReleaseNumber s.releases d.id)
        d.id u.desiredTemplateId buildId values s.now) = some t.releases)
      (jobs : Enqueued s.jobs t.jobs (· = d.id)) (rest : SameRest s t)
      (action : ∃ c, a = .update c u)
  | delete (d : Deployment) (row : s.deployments.get? d.id = some d)
      (leaving : ¬ (d.status = .deleting ∨ d.status = .deleted))
      (deployments : s.deployments.put? (d.markDeleting s.now) = some t.deployments)
      (releases : t.releases = s.releases) (jobs : Enqueued s.jobs t.jobs (· = d.id))
      (rest : SameRest s t)
  | power (r : PowerRequest) (d : Deployment) (row : s.deployments.get? d.id = some d)
      (ready : d.status = .ready) (changes : powerState s.powers d.desiredPowerId ≠ r.target)
      (powers : s.powers.insert? (r.row s d) = some t.powers)
      (deployments : s.deployments.put? { d with desiredPowerId := some s.powers.nextKey } =
        some t.deployments)
      (releases : t.releases = s.releases) (jobs : Enqueued s.jobs t.jobs (· = d.id))
      (cluster : t.cluster = s.cluster) (workers : t.workers = s.workers)
  | paid (n : Notification) (info : PaymentInfo) (p : MolliePayment) (sub : Subscription)
      (action : a = .webhook n) (fetched : n.info = some info) (status : info.status = .paid)
      (payment : p ∈ s.payments.rows) (named : p.molliePaymentId = n.id)
      (first : p.sequenceType = .first)
      (subscription : s.subscriptions.get? p.subscriptionId = some sub)
      (deployments : ∀ id, t.deployments.get? id =
        (s.deployments.get? id).map (Deployment.provisioned sub.id))
      (releases : t.releases = s.releases)
      (jobs : sub.paymentStatus = .pending ∧
          Enqueued s.jobs t.jobs (fun id => ∃ d ∈ subDeployments t.deployments sub.id,
            d.status = .provisioning ∧ d.id = id) ∨
        sub.paymentStatus ≠ .pending ∧ t.jobs = s.jobs)
      (rest : SameRest s t)

theorem SameRest.refl (s : State) : SameRest s s := ⟨rfl, rfl, rfl⟩

theorem written_refl (a : Action) (s : State) : Written a s s := .aside rfl rfl rfl (.refl s)

theorem written_of_create {cfg : Settings} {c : Context} {s t : State} {r : CreateRequest}
    (h : createDeployment cfg c s r = .ok t) : Written (.create c r) s t := by
  obtain ⟨values, hostname, ns, isPaid, subscriptions, deployments, releases, vars, price, payments,
    jobs, -, -, hd, hr, hpj, rfl⟩ := createDeployment_ok h
  refine .create r ns values hostname isPaid hd hr ?_ ⟨rfl, rfl, rfl⟩ ⟨c, rfl⟩
  rcases createPaymentOrJob_ok hpj with ⟨hp, hj, -⟩ | ⟨hp, -, hj⟩
  · exact .inl ⟨hp, hj⟩
  · exact .inr ⟨hp, enqueued_of_ok hj⟩

theorem written_of_update {cfg : Settings} {c : Context} {s t : State} {u : UpdateRequest}
    (h : updateDeployment cfg c s u = .ok t) : Written (.update c u) s t := by
  obtain ⟨d, values, hostname, buildId, deployments, releases, vars, jobs, hd, -, hstatus, -, -, hput,
    hr, hj, rfl⟩ := updateDeployment_ok h
  exact .update u d values hostname buildId hd hstatus hput hr (enqueued_of_ok hj) ⟨rfl, rfl, rfl⟩
    ⟨c, rfl⟩

theorem written_of_delete {s t : State} {userId : UserId} {id : DeploymentId} {a : Action}
    (h : deleteDeployment s userId id = .ok t) : Written a s t := by
  obtain ⟨d, hd, -, h⟩ := deleteDeployment_ok h
  have hid : d.id = id := Table.key_of_get? hd
  rcases h with ⟨-, rfl⟩ | ⟨hin, deployments, jobs, hput, hj, rfl⟩
  · exact written_refl a t
  · exact .delete d (hid ▸ hd) hin hput rfl (enqueued_of_ok hj) ⟨rfl, rfl, rfl⟩

theorem written_of_power {s t : State} {r : PowerRequest} {a : Action}
    (h : changePower s r = .ok t) : Written a s t := by
  obtain ⟨d, hd, -, -, h⟩ := changePower_ok h
  have hid : d.id = r.deploymentId := Table.key_of_get? hd
  rcases h with ⟨-, rfl⟩ | ⟨hdiff, hready, powers, deployments, jobs, hp, hput, hj, rfl⟩
  · exact written_refl a t
  · exact .power r d (hid ▸ hd) hready hdiff hp hput rfl (enqueued_of_ok hj) rfl rfl

theorem written_of_webhook {s t : State} {n : Notification} (h : mollieWebhook s n = .ok t) :
    Written (.webhook n) s t := by
  rcases mollieWebhook_ok h with rfl | ⟨info, p, sub, s₀, hinfo, hid, h, hrow⟩
  · exact written_refl _ t
  obtain ⟨payments, -, h⟩ := processPayment_ok h
  -- the state the handler starts from differs from `s` in the payments alone
  have hs₀ : ∃ payments₀, s₀ = { s with payments := payments₀ } := by
    rcases hrow with ⟨-, -, rfl⟩ | ⟨payments₀, -, -, -, -, rfl⟩
    · exact ⟨_, rfl⟩
    · exact ⟨payments₀, rfl⟩
  obtain ⟨payments₀, rfl⟩ := hs₀
  rcases h with ⟨hfirst, hpaid, h⟩ | ⟨-, h⟩ | ⟨-, -, h⟩ | ⟨-, -, rfl⟩
  · rcases hrow with ⟨hp, hsub, -⟩ | ⟨-, -, hrec, -⟩
    · obtain ⟨deployments, jobs, subscriptions, mollieId, hd, hj, -, rfl⟩ :=
        handleFirstPaymentPaid_ok h
      exact .paid n info p sub rfl hinfo hpaid hp hid hfirst hsub hd rfl hj ⟨rfl, rfl, rfl⟩
    · rw [hfirst] at hrec
      cases hrec
  · obtain ⟨subscriptions, -, rfl⟩ := setPaymentStatus_ok h
    exact .aside rfl rfl rfl ⟨rfl, rfl, rfl⟩
  · obtain ⟨subscriptions, -, rfl⟩ := setPaymentStatus_ok h
    exact .aside rfl rfl rfl ⟨rfl, rfl, rfl⟩
  · exact .aside rfl rfl rfl ⟨rfl, rfl, rfl⟩

/-- a step of the builds writes their table alone -/
theorem builds_of_step {cfg : Settings} {s t : State} {a : Action} (h : step cfg s a = some t)
    (ha : a.ofBuilds = true) : ∃ builds, t = { s with builds := builds } := by
  cases a with
  | createBuild c r =>
    rcases createBuild_ok (toOption_eq_some.mp h) with rfl | ⟨-, builds, -, -, -, rfl⟩
    · exact ⟨_, rfl⟩
    · exact ⟨builds, rfl⟩
  | claimBuild skipped =>
    obtain ⟨-, builds, -, -, -, rfl⟩ := claimNextBuild_ok h
    exact ⟨builds, rfl⟩
  | recordBuildJob id jobId =>
    obtain ⟨-, builds, -, -, rfl⟩ := recordBuildJob_ok h
    exact ⟨builds, rfl⟩
  | finishBuild id image =>
    obtain ⟨-, -, builds, -, -, -, rfl⟩ := finishBuild_ok (toOption_eq_some.mp h)
    exact ⟨builds, rfl⟩
  | _ => cases ha

theorem written_of_builds {cfg : Settings} {s t : State} {a : Action} (h : step cfg s a = some t)
    (ha : a.ofBuilds = true) : Written a s t := by
  obtain ⟨builds, rfl⟩ := builds_of_step h ha
  exact .aside rfl rfl rfl ⟨rfl, rfl, rfl⟩

/-- **what a step outside the workers writes of the core** -/
theorem written_of_step {cfg : Settings} {s t : State} {a : Action} (h : step cfg s a = some t)
    (ha : a.worker = none) : Written a s t := by
  cases a with
  | tick delta =>
    cases h
    exact .aside rfl rfl rfl ⟨rfl, rfl, rfl⟩
  | create c r => exact written_of_create (toOption_eq_some.mp h)
  | update c u => exact written_of_update (toOption_eq_some.mp h)
  | delete userId id => exact written_of_delete (toOption_eq_some.mp h)
  | power r => exact written_of_power (toOption_eq_some.mp h)
  | writeVars c r =>
    have h := toOption_eq_some.mp h
    simp only [writeVarsRequest, bind_eq_ok, pure_eq_ok] at h
    obtain ⟨-, -, d, -, -, -, vars, -, rfl⟩ := h
    exact .aside rfl rfl rfl ⟨rfl, rfl, rfl⟩
  | webhook n => exact written_of_webhook (toOption_eq_some.mp h)
  | createBuild c r => exact written_of_builds h rfl
  | claimBuild skipped => exact written_of_builds h rfl
  | recordBuildJob id jobId => exact written_of_builds h rfl
  | finishBuild id image => exact written_of_builds h rfl
  | claimJob w skipped => cases ha
  | claimRelease w => cases ha
  | claimPower w x => cases ha
  | applyRelease w x => cases ha
  | recordOutcome w => cases ha
  | markJob w => cases ha
  | crash w => cases ha

/-- a delivery leaves the vars, the builds and the clock alone -/
theorem aside_of_webhook {s t : State} {n : Notification} (h : mollieWebhook s n = .ok t) :
    t.vars = s.vars ∧ t.builds = s.builds ∧ t.now = s.now := by
  rcases mollieWebhook_ok h with rfl | ⟨info, p, sub, s₀, -, -, h, hrow⟩
  · exact ⟨rfl, rfl, rfl⟩
  have hs₀ : s₀.vars = s.vars ∧ s₀.builds = s.builds ∧ s₀.now = s.now := by
    rcases hrow with ⟨-, -, rfl⟩ | ⟨payments₀, -, -, -, -, rfl⟩
    · exact ⟨rfl, rfl, rfl⟩
    · exact ⟨rfl, rfl, rfl⟩
  obtain ⟨payments, -, h⟩ := processPayment_ok h
  rcases h with ⟨-, -, h⟩ | ⟨-, h⟩ | ⟨-, -, h⟩ | ⟨-, -, rfl⟩
  · obtain ⟨deployments, jobs, subscriptions, mollieId, -, -, -, rfl⟩ := handleFirstPaymentPaid_ok h
    exact hs₀
  · obtain ⟨subscriptions, -, rfl⟩ := setPaymentStatus_ok h
    exact hs₀
  · obtain ⟨subscriptions, -, rfl⟩ := setPaymentStatus_ok h
    exact hs₀
  · exact hs₀

end Freepod
