import Freepod.Platform.Jobs

/-!
# Mollie payment notifications

`api/webhooks.py`.  A notification names a payment; the handler fetches the payment from Mollie
and acts on the fetched status alone.  A payment without a row is a recurring one and is found
through its Mollie subscription.
-/

namespace Freepod
open Base

/-- the payment as Mollie reports it -/
structure PaymentInfo where
  status : MolliePaymentStatus
  subscriptionId : Option MollieId
  mandateId : Option String
  payload : Json

/-- a delivery: the payment it names, what the fetch returned, the price of the subscription's
plan, and what the provider answers when a recurring subscription is asked for -/
structure Notification where
  id : String
  info : Option PaymentInfo
  priceCents : Nat
  createSubscription : Except String MollieId

/-- `TERMINAL_FAILURE_STATUSES` -/
def MolliePaymentStatus.isFailed : MolliePaymentStatus → Bool
  | failed | expired | canceled => true
  | _ => false

/-- `one_or_none()` -/
def oneOrNone {α : Type} : List α → Except Refusal (Option α)
  | [] => .ok none
  | [a] => .ok (some a)
  | _ => .error (.invalid "Multiple rows were found when one or none was required")

/-- `sub.deployments` -/
def subDeployments (deployments : Table Deployment) (sub : SubscriptionId) : List Deployment :=
  deployments.rows.filter fun d => d.subscriptionId = sub

/-- `pending → provisioning` for one deployment of the subscription -/
def provisionPending (deployments : Table Deployment) (d : Deployment) :
    Except Refusal (Table Deployment) :=
  if d.status = .pending then
    found (deployments.put? { d with status := .provisioning }) constraintViolated
  else .ok deployments

/-- the create job of one deployment of the subscription -/
def enqueueProvisioning (now : Time) (jobs : Table ReconcileJob) (d : Deployment) :
    Except Refusal (Table ReconcileJob) :=
  if d.status = .provisioning then enqueueJob now jobs d.id .create else .ok jobs

/-- the create jobs, on the pending → current transition only -/
def enqueueWhenPending (now : Time) (jobs : Table ReconcileJob) (deployments : List Deployment)
    (status : PaymentStatus) : Except Refusal (Table ReconcileJob) :=
  if status = .pending then deployments.foldlM (enqueueProvisioning now) jobs else .ok jobs

/-- the recurring subscription, asked for once -/
def ensureSubscription (s : State) (sub : Subscription) (n : Notification) :
    Except Refusal MollieId :=
  match sub.mollieSubscriptionId with
  | some id => .ok id
  | none => do
    require ((subDeployments s.deployments sub.id).isEmpty = false)
      (.invalid "list index out of range")
    match n.createSubscription with
    | .ok id => .ok id
    | .error message => .error (.provider message)

/-- `_handle_first_payment_paid` -/
def handleFirstPaymentPaid (s : State) (sub : Subscription) (info : PaymentInfo)
    (n : Notification) : Except Refusal State := do
  let deployments ←
    (subDeployments s.deployments sub.id).foldlM provisionPending s.deployments
  let jobs ← enqueueWhenPending s.now s.jobs (subDeployments deployments sub.id) sub.paymentStatus
  let subscriptionId ← ensureSubscription s sub n
  let subscriptions ← found (s.subscriptions.put?
    { sub with
      paymentStatus := .current
      mollieMandateId := info.mandateId
      mollieSubscriptionId := some subscriptionId }) constraintViolated
  pure { s with deployments := deployments, jobs := jobs, subscriptions := subscriptions }

/-- the other handlers: they write the payment status alone -/
def setPaymentStatus (s : State) (sub : Subscription) (status : PaymentStatus) :
    Except Refusal State := do
  let subscriptions ← found
    (s.subscriptions.put? { sub with paymentStatus := status }) constraintViolated
  pure { s with subscriptions := subscriptions }

/-- the rest of the handler, once the payment's row and subscription are known -/
def processPayment (s : State) (p : MolliePayment) (sub : Subscription) (info : PaymentInfo)
    (n : Notification) : Except Refusal State := do
  let payments ← found
    (s.payments.put? { p with status := info.status, payload := info.payload }) constraintViolated
  let s : State := { s with payments := payments }
  if p.sequenceType = .first ∧ info.status = .paid then handleFirstPaymentPaid s sub info n
  else if p.sequenceType = .first ∧ info.status.isFailed = true then
    setPaymentStatus s sub .arrears
  else if p.sequenceType = .recurring ∧ info.status = .paid then
    setPaymentStatus s sub .current
  else if p.sequenceType = .recurring ∧ info.status.isFailed = true then
    setPaymentStatus s sub .arrears
  else pure s

/-- `mollie_webhook` -/
def mollieWebhook (s : State) (n : Notification) : Except Refusal State :=
  match n.info with
  | none => .ok s
  | some info => do
    match ← oneOrNone (s.payments.rows.filter fun p => p.molliePaymentId = n.id) with
    | some p =>
      let sub ← found (s.subscriptions.get? p.subscriptionId)
        (.invalid "'NoneType' object has no attribute 'id'")
      processPayment s p sub info n
    | none =>
      match info.subscriptionId with
      | none => pure s
      | some subscriptionId =>
        match ← oneOrNone
            (s.subscriptions.rows.filter fun x => x.mollieSubscriptionId = some subscriptionId) with
        | none => pure s
        | some sub => do
          let p : MolliePayment :=
            { id := s.payments.nextKey
              subscriptionId := sub.id
              molliePaymentId := n.id
              status := info.status
              sequenceType := .recurring
              amountCents := n.priceCents
              payload := .null }
          let payments ← found (s.payments.insert? p) constraintViolated
          processPayment { s with payments := payments } p sub info n

/-! ## What a paid first payment writes -/

/-- the row of a deployment after its subscription's first payment -/
def Deployment.provisioned (sub : SubscriptionId) (d : Deployment) : Deployment :=
  if d.subscriptionId = sub ∧ d.status = .pending then { d with status := .provisioning } else d

@[simp] theorem Deployment.provisioned_id (sub : SubscriptionId) (d : Deployment) :
    (d.provisioned sub).id = d.id := by
  unfold Deployment.provisioned
  split <;> rfl

theorem mem_subDeployments {deployments : Table Deployment} {sub : SubscriptionId}
    {d : Deployment} :
    d ∈ subDeployments deployments sub ↔ d ∈ deployments.rows ∧ d.subscriptionId = sub := by
  rw [subDeployments, List.mem_filter, decide_eq_true_eq]

theorem foldlM_provisionPending {l : List Deployment} {t t' : Table Deployment}
    (hn : (l.map Deployment.id).Nodup) (hl : ∀ d ∈ l, t.get? d.id = some d)
    (h : l.foldlM provisionPending t = .ok t') (id : DeploymentId) :
    t'.get? id = (t.get? id).map fun d =>
      if id ∈ l.map Deployment.id ∧ d.status = .pending then { d with status := .provisioning }
      else d := by
  induction l generalizing t with
  | nil =>
    cases h
    simp
  | cons x l ih =>
    rw [List.foldlM_cons, bind_eq_ok] at h
    obtain ⟨t₁, hx, h⟩ := h
    rw [List.map_cons, List.nodup_cons] at hn
    have hxl : ∀ d ∈ l, d.id ≠ x.id := fun d hd he =>
      hn.1 (he ▸ List.mem_map_of_mem hd)
    have htx := hl x List.mem_cons_self
    unfold provisionPending at hx
    by_cases hp : x.status = .pending
    · rw [if_pos hp, found_eq_ok] at hx
      have hl₁ : ∀ d ∈ l, t₁.get? d.id = some d := fun d hd => by
        rw [Table.get?_put?_of_ne hx (hxl d hd)]
        exact hl d (List.mem_cons_of_mem _ hd)
      rw [ih hn.2 hl₁ h]
      by_cases hid : id = x.id
      · subst hid
        rw [Table.get?_put? hx, key_deployment, if_pos rfl, htx]
        simp [hp]
      · rw [Table.get?_put?_of_ne hx hid, List.map_cons]
        simp [hid]
    · rw [if_neg hp] at hx
      cases hx
      rw [ih hn.2 (fun d hd => hl d (List.mem_cons_of_mem _ hd)) h]
      by_cases hid : id = x.id
      · subst hid
        rw [htx]
        simp [hp]
      · simp [hid]

/-- every row of the subscription that was pending is provisioning, the others are as they were -/
theorem get?_provisioned {t t' : Table Deployment} {sub : SubscriptionId}
    (h : (subDeployments t sub).foldlM provisionPending t = .ok t') (id : DeploymentId) :
    t'.get? id = (t.get? id).map (Deployment.provisioned sub) := by
  have hn : ((subDeployments t sub).map Deployment.id).Nodup :=
    (List.Sublist.map Deployment.id List.filter_sublist).nodup t.keys
  have hl : ∀ d ∈ subDeployments t sub, t.get? d.id = some d := fun d hd =>
    Table.get?_of_mem (mem_subDeployments.mp hd).1
  rw [foldlM_provisionPending hn hl h]
  cases hg : t.get? id with
  | none => rfl
  | some d =>
    have hm : id ∈ (subDeployments t sub).map Deployment.id ↔ d.subscriptionId = sub := by
      rw [List.mem_map]
      constructor
      · rintro ⟨x, hx, rfl⟩
        have := hl x hx
        rw [hg, Option.some.injEq] at this
        exact this ▸ (mem_subDeployments.mp hx).2
      · intro hs
        exact ⟨d, mem_subDeployments.mpr ⟨Table.mem_of_get? hg, hs⟩, Table.key_of_get? hg⟩
    simp only [Option.map_some, hm]
    rfl

/-- each provisioning deployment of the list gets its job -/
theorem foldlM_enqueueProvisioning {now : Time} {l : List Deployment}
    {jobs jobs' : Table ReconcileJob}
    (h : l.foldlM (enqueueProvisioning now) jobs = .ok jobs') :
    Enqueued jobs jobs' fun id => ∃ d ∈ l, d.status = .provisioning ∧ d.id = id := by
  induction l generalizing jobs with
  | nil =>
    cases h
    exact (Enqueued.refl _).congr fun id => by simp
  | cons x l ih =>
    rw [List.foldlM_cons, bind_eq_ok] at h
    obtain ⟨jobs₁, hx, h⟩ := h
    have ih := ih h
    unfold enqueueProvisioning at hx
    by_cases hp : x.status = .provisioning
    · rw [if_pos hp] at hx
      refine ((enqueued_of_ok hx).trans ih).congr fun id => ?_
      simp only [List.mem_cons, exists_eq_or_imp, hp, true_and]
      exact or_congr_left eq_comm
    · rw [if_neg hp] at hx
      cases hx
      exact ih.congr fun id => by simp [hp]

/-- what the handler of a paid first payment writes -/
theorem handleFirstPaymentPaid_ok {s t : State} {sub : Subscription} {info : PaymentInfo}
    {n : Notification} (h : handleFirstPaymentPaid s sub info n = .ok t) :
    ∃ deployments jobs subscriptions mollieId,
      (∀ id, deployments.get? id = (s.deployments.get? id).map (Deployment.provisioned sub.id)) ∧
      (sub.paymentStatus = .pending ∧
          Enqueued s.jobs jobs (fun id => ∃ d ∈ subDeployments deployments sub.id,
            d.status = .provisioning ∧ d.id = id) ∨
        sub.paymentStatus ≠ .pending ∧ jobs = s.jobs) ∧
      s.subscriptions.put?
        { sub with
          paymentStatus := .current
          mollieMandateId := info.mandateId
          mollieSubscriptionId := some mollieId } = some subscriptions ∧
      t = { s with deployments := deployments, jobs := jobs, subscriptions := subscriptions } := by
  simp only [handleFirstPaymentPaid, bind_eq_ok, found_eq_ok, pure_eq_ok] at h
  obtain ⟨deployments, hd, jobs, hj, mollieId, -, subscriptions, hs, rfl⟩ := h
  refine ⟨deployments, jobs, subscriptions, mollieId, get?_provisioned hd, ?_, hs, rfl⟩
  unfold enqueueWhenPending at hj
  by_cases hp : sub.paymentStatus = .pending
  · rw [if_pos hp] at hj
    exact .inl ⟨hp, foldlM_enqueueProvisioning hj⟩
  · rw [if_neg hp] at hj
    cases hj
    exact .inr ⟨hp, rfl⟩

theorem setPaymentStatus_ok {s t : State} {sub : Subscription} {status : PaymentStatus}
    (h : setPaymentStatus s sub status = .ok t) :
    ∃ subscriptions, s.subscriptions.put? { sub with paymentStatus := status } =
      some subscriptions ∧ t = { s with subscriptions := subscriptions } := by
  simp only [setPaymentStatus, bind_eq_ok, found_eq_ok, pure_eq_ok] at h
  obtain ⟨subscriptions, hs, rfl⟩ := h
  exact ⟨subscriptions, hs, rfl⟩

/-- a processed payment has its row updated; then one of the handlers ran, or none -/
theorem processPayment_ok {s t : State} {p : MolliePayment} {sub : Subscription}
    {info : PaymentInfo} {n : Notification} (h : processPayment s p sub info n = .ok t) :
    ∃ payments, s.payments.put? { p with status := info.status, payload := info.payload } =
        some payments ∧
      (p.sequenceType = .first ∧ info.status = .paid ∧
          handleFirstPaymentPaid { s with payments := payments } sub info n = .ok t ∨
        info.status.isFailed = true ∧
          setPaymentStatus { s with payments := payments } sub .arrears = .ok t ∨
        p.sequenceType = .recurring ∧ info.status = .paid ∧
          setPaymentStatus { s with payments := payments } sub .current = .ok t ∨
        info.status ≠ .paid ∧ info.status.isFailed = false ∧
          t = { s with payments := payments }) := by
  simp only [processPayment, bind_eq_ok, found_eq_ok] at h
  obtain ⟨payments, hp, h⟩ := h
  refine ⟨payments, hp, ?_⟩
  have hseq : p.sequenceType = .first ∨ p.sequenceType = .recurring := by
    cases p.sequenceType with
    | first => exact .inl rfl
    | recurring => exact .inr rfl
  split at h
  · rename_i hc
    exact .inl ⟨hc.1, hc.2, h⟩
  split at h
  · rename_i hc
    exact .inr (.inl ⟨hc.2, h⟩)
  split at h
  · rename_i hc
    exact .inr (.inr (.inl ⟨hc.1, hc.2, h⟩))
  split at h
  · rename_i hc
    exact .inr (.inl ⟨hc.2, h⟩)
  · rename_i h1 h2 h3 h4
    rw [pure_eq_ok] at h
    refine .inr (.inr (.inr ⟨fun hpaid => ?_, ?_, h.symm⟩))
    · exact hseq.elim (fun hs => h1 ⟨hs, hpaid⟩) fun hs => h3 ⟨hs, hpaid⟩
    · refine Bool.eq_false_iff.mpr fun hf => ?_
      exact hseq.elim (fun hs => h2 ⟨hs, hf⟩) fun hs => h4 ⟨hs, hf⟩

theorem oneOrNone_ok {α : Type} {l : List α} {o : Option α} (h : oneOrNone l = .ok o) :
    o = none ∧ l = [] ∨ ∃ a, o = some a ∧ l = [a] := by
  match l, h with
  | [], h =>
    cases h
    exact .inl ⟨rfl, rfl⟩
  | [a], h =>
    cases h
    exact .inr ⟨a, rfl, rfl⟩

/-- **a delivery changes nothing, or processes the payment it names: one with a row, or a new
recurring one of the subscription it was charged for** -/
theorem mollieWebhook_ok {s t : State} {n : Notification} (h : mollieWebhook s n = .ok t) :
    t = s ∨ ∃ info p sub s₀, n.info = some info ∧ p.molliePaymentId = n.id ∧
      processPayment s₀ p sub info n = .ok t ∧
      (p ∈ s.payments.rows ∧ s.subscriptions.get? p.subscriptionId = some sub ∧ s₀ = s ∨
        ∃ payments, s.payments.insert? p = some payments ∧ p.sequenceType = .recurring ∧
          p.status = info.status ∧ s.subscriptions.get? p.subscriptionId = some sub ∧
          s₀ = { s with payments := payments }) := by
  unfold mollieWebhook at h
  cases hinfo : n.info with
  | none =>
    rw [hinfo] at h
    cases h
    exact .inl rfl
  | some info =>
    rw [hinfo] at h
    simp only [bind_eq_ok] at h
    obtain ⟨o, ho, h⟩ := h
    rcases oneOrNone_ok ho with ⟨rfl, -⟩ | ⟨p, rfl, hl⟩
    · simp only at h
      cases hsid : info.subscriptionId with
      | none =>
        rw [hsid] at h
        cases h
        exact .inl rfl
      | some sid =>
        rw [hsid] at h
        simp only [bind_eq_ok] at h
        obtain ⟨o, ho, h⟩ := h
        rcases oneOrNone_ok ho with ⟨rfl, -⟩ | ⟨sub, rfl, hsub⟩
        · cases h
          exact .inl rfl
        · simp only [bind_eq_ok, found_eq_ok] at h
          obtain ⟨payments, hp, h⟩ := h
          have hm : sub ∈ s.subscriptions.rows := by
            have : sub ∈ [sub] := List.mem_singleton.mpr rfl
            rw [← hsub] at this
            exact List.mem_of_mem_filter this
          exact .inr ⟨info, _, sub, _, rfl, rfl, h, .inr ⟨payments, hp, rfl, rfl,
            Table.get?_of_mem hm, rfl⟩⟩
    · simp only [bind_eq_ok, found_eq_ok] at h
      obtain ⟨sub, hsub, h⟩ := h
      have hm : p ∈ s.payments.rows.filter fun p => p.molliePaymentId = n.id := by
        rw [hl]
        exact List.mem_singleton.mpr rfl
      rw [List.mem_filter, decide_eq_true_eq] at hm
      exact .inr ⟨info, p, sub, s, rfl, hm.2, h, .inl ⟨hm.1, hsub, rfl⟩⟩

end Freepod
