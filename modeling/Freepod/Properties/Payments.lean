import Freepod.Runs.Frame

/-!
# Redelivered payment notifications

Mollie delivers a notification until it is answered, so a delivery may be repeated after any number
of others.  The handlers act on the fetched status and not on a change of it: the statuses of two
payments of one subscription write the same column, and the later delivery wins.

* `redelivery_idempotent`: a repeated delivery leaves the billing alone exactly when the
  subscription still has the payment status that the repeated one writes.
* `redelivery_reverts`: an old paid payment delivered again takes the subscription out of arrears.
-/

namespace Freepod
open Base

variable {cfg : Settings} {s t : State} {a : Action} {p : MolliePayment} {sub : Subscription}
  {info : PaymentInfo} {n : Notification}

/-- a subscription without its mandate -/
def Subscription.billing (x : Subscription) : Subscription := { x with mollieMandateId := none }

/-- a payment without what Mollie reported of it beside the status -/
def MolliePayment.billing (p : MolliePayment) : MolliePayment := { p with payload := .null }

/-- what the deliveries are about -/
structure Billing where
  subscriptions : List Subscription
  payments : List MolliePayment
  deployments : Table Deployment
  jobs : Table ReconcileJob

def State.billing (s : State) : Billing where
  subscriptions := s.subscriptions.rows.map Subscription.billing
  payments := s.payments.rows.map MolliePayment.billing
  deployments := s.deployments
  jobs := s.jobs

/-- the payment status that a delivery with this status writes -/
def MolliePaymentStatus.outcome : MolliePaymentStatus → Option PaymentStatus
  | .paid => some .current
  | .failed | .expired | .canceled => some .arrears
  | _ => none

/-- the subscription has been paid for: it is billed at Mollie and none of its deployments waits -/
def Activated (s : State) (id : SubscriptionId) : Prop :=
  ∃ sub, s.subscriptions.get? id = some sub ∧ sub.paymentStatus ≠ .pending ∧
    sub.mollieSubscriptionId ≠ none ∧ ∀ d ∈ subDeployments s.deployments id, d.status ≠ .pending

/-- what the rows of the payments say of their subscriptions -/
structure Billed (s : State) : Prop where
  sound : Sound s
  owner : ∀ p ∈ s.payments.rows, ∃ sub, s.subscriptions.get? p.subscriptionId = some sub
  paid : ∀ p ∈ s.payments.rows, p.sequenceType = .first → p.status = .paid →
    Activated s p.subscriptionId

theorem billed_init : Billed .init where
  sound := sound_init
  owner := fun _ h => nomatch h
  paid := fun _ h => nomatch h

/-! ## Subscriptions, payments and waiting deployments over one step -/

/-- creates and deliveries are the only steps that write subscriptions and payments -/
theorem billing_of_step (h : step cfg s a = some t) (hc : ∀ c r, a ≠ .create c r)
    (hw : ∀ n, a ≠ .webhook n) : t.subscriptions = s.subscriptions ∧ t.payments = s.payments := by
  by_cases ha : a.isCore = true
  · have := aside_of_core h ha
    exact ⟨this.subscriptions, this.payments⟩
  by_cases hb : a.ofBuilds = true
  · obtain ⟨builds, rfl⟩ := builds_of_step h hb
    exact ⟨rfl, rfl⟩
  cases a with
  | tick delta =>
    cases h
    exact ⟨rfl, rfl⟩
  | create c r => exact absurd rfl (hc c r)
  | webhook n => exact absurd rfl (hw n)
  | createBuild | claimBuild | recordBuildJob | finishBuild => exact absurd rfl hb
  | _ => exact absurd rfl ha

/-- a deployment that waits for its payment waited before, or came with its subscription -/
theorem pending_of_step (hs : Sound s) (h : step cfg s a = some t) {id : SubscriptionId}
    {d : Deployment} (hd : d ∈ subDeployments t.deployments id) (hp : d.status = .pending) :
    (∃ x ∈ subDeployments s.deployments id, x.status = .pending) ∨
      id = s.subscriptions.nextKey := by
  obtain ⟨hm, rfl⟩ := mem_subDeployments.mp hd
  have hrow := Table.get?_of_mem hm
  -- the row of the same deployment before the step has the same subscription
  have old : ∀ x, s.deployments.get? (Row.key d) = some x → x.status = .pending →
      ∃ x ∈ subDeployments s.deployments d.subscriptionId, x.status = .pending := by
    intro x hx hxp
    obtain ⟨x', hx', -, hsub⟩ := (kept_of_step h).deployments _ x hx
    rw [hrow] at hx'
    cases hx'
    exact ⟨x, mem_subDeployments.mpr ⟨Table.mem_of_get? hx, hsub.symm⟩, hxp⟩
  cases ha : a.worker with
  | none =>
    rcases (written_of_step h ha).pending hrow hp with ⟨x, hx, hxp⟩ | ⟨-, hnew⟩
    · exact .inl (old x hx hxp)
    · exact .inr hnew
  | some w =>
    obtain ⟨x, hx, hst | hst⟩ := status_of_worker hs h ha hrow
    · exact .inl (old x hx (hst.symm.trans hp))
    · rw [hp] at hst
      cases hst

/-- what a step keeps of a subscription: it is not pending again, nor without its subscription
at Mollie -/
def Subscription.Kept (x y : Subscription) : Prop :=
  (x.paymentStatus ≠ .pending → y.paymentStatus ≠ .pending) ∧
    (x.mollieSubscriptionId ≠ none → y.mollieSubscriptionId ≠ none)

theorem Subscription.Kept.refl (x : Subscription) : x.Kept x := ⟨fun h => h, fun h => h⟩

/-- an overwrite keeps what the new row keeps of the old one -/
theorem subscriptions_of_put? {x y : Subscription} {subscriptions subscriptions' : Table Subscription}
    (hput : subscriptions.put? y = some subscriptions') (hx : subscriptions.get? y.id = some x)
    (hk : x.Kept y) {id : SubscriptionId} {r : Subscription} (hr : subscriptions.get? id = some r) :
    ∃ r', subscriptions'.get? id = some r' ∧ r.Kept r' := by
  refine ⟨_, get?_put?_cases hput hr, ?_⟩
  split
  · rename_i hid
    rw [show id = y.id from hid, hx] at hr
    cases hr
    exact hk
  · exact .refl r

theorem processPayment_payments (h : processPayment s p sub info n = .ok t) :
    s.payments.put? { p with status := info.status, payload := info.payload } =
      some t.payments := by
  obtain ⟨payments, hput, h⟩ := processPayment_ok h
  rcases h with ⟨-, -, h⟩ | ⟨-, h⟩ | ⟨-, -, h⟩ | ⟨-, -, rfl⟩
  · obtain ⟨deployments, jobs, subscriptions, mollieId, -, -, -, rfl⟩ := handleFirstPaymentPaid_ok h
    exact hput
  · obtain ⟨subscriptions, -, rfl⟩ := setPaymentStatus_ok h
    exact hput
  · obtain ⟨subscriptions, -, rfl⟩ := setPaymentStatus_ok h
    exact hput
  · exact hput

theorem processPayment_kept (h : processPayment s p sub info n = .ok t)
    (hsub : s.subscriptions.get? sub.id = some sub) {id : SubscriptionId} {x : Subscription}
    (hx : s.subscriptions.get? id = some x) :
    ∃ y, t.subscriptions.get? id = some y ∧ x.Kept y := by
  obtain ⟨payments, -, h⟩ := processPayment_ok h
  rcases h with ⟨-, -, h⟩ | ⟨-, h⟩ | ⟨-, -, h⟩ | ⟨-, -, rfl⟩
  · obtain ⟨deployments, jobs, subscriptions, mollieId, -, -, hput, rfl⟩ :=
      handleFirstPaymentPaid_ok h
    exact subscriptions_of_put? hput hsub ⟨fun _ => nofun, fun _ => nofun⟩ hx
  · obtain ⟨subscriptions, hput, rfl⟩ := setPaymentStatus_ok h
    exact subscriptions_of_put? hput hsub ⟨fun _ => nofun, fun h => h⟩ hx
  · obtain ⟨subscriptions, hput, rfl⟩ := setPaymentStatus_ok h
    exact subscriptions_of_put? hput hsub ⟨fun _ => nofun, fun h => h⟩ hx
  · exact ⟨x, hx, .refl x⟩

/-- a first payment taken as paid activates its subscription -/
theorem processPayment_activates (h : processPayment s p sub info n = .ok t)
    (hsub : s.subscriptions.get? sub.id = some sub) (hfirst : p.sequenceType = .first)
    (hpaid : info.status = .paid) : Activated t sub.id := by
  obtain ⟨payments, -, h⟩ := processPayment_ok h
  rcases h with ⟨-, -, h⟩ | ⟨hf, -⟩ | ⟨hrec, -⟩ | ⟨hn, -⟩
  · obtain ⟨deployments, jobs, subscriptions, mollieId, hd, -, hput, rfl⟩ :=
      handleFirstPaymentPaid_ok h
    refine ⟨_, Table.get?_put?_self (a := { sub with
      paymentStatus := .current
      mollieMandateId := info.mandateId
      mollieSubscriptionId := some mollieId }) hput hsub,
      show PaymentStatus.current ≠ .pending from nofun, show some mollieId ≠ none from nofun,
      fun d hm hp => ?_⟩
    obtain ⟨hm, hds⟩ := mem_subDeployments.mp hm
    have hrow := Table.get?_of_mem hm
    rw [hd] at hrow
    obtain ⟨x, -, hx⟩ := Option.map_eq_some_iff.mp hrow
    -- a row that was pending is provisioning now
    unfold Deployment.provisioned at hx
    split at hx
    · rw [← hx] at hp
      cases hp
    · rename_i hnot
      exact hnot ⟨hx ▸ hds, hx ▸ hp⟩
  · rw [hpaid] at hf
    cases hf
  · rw [hfirst] at hrec
    cases hrec
  · exact absurd hpaid hn

/-- no step loses a subscription or what is kept of it -/
theorem subscriptions_of_step (hs : Billed s) (h : step cfg s a = some t) {id : SubscriptionId}
    {x : Subscription} (hx : s.subscriptions.get? id = some x) :
    ∃ y, t.subscriptions.get? id = some y ∧ x.Kept y := by
  by_cases hc : ∃ c r, a = .create c r
  · obtain ⟨c, r, rfl⟩ := hc
    obtain ⟨values, hostname, ns, isPaid, subscriptions, deployments, releases, vars, price,
      payments, jobs, -, hsub, -, -, -, rfl⟩ := createDeployment_ok (toOption_eq_some.mp h)
    exact ⟨x, Table.get?_insert?_of_get? hsub hx, .refl x⟩
  by_cases hw : ∃ n, a = .webhook n
  · obtain ⟨n, rfl⟩ := hw
    rcases mollieWebhook_ok (toOption_eq_some.mp h) with rfl | ⟨info, p, sub, s₀, -, -, h, hrow⟩
    · exact ⟨x, hx, .refl x⟩
    · have hsub : s₀.subscriptions = s.subscriptions ∧
          s.subscriptions.get? p.subscriptionId = some sub := by
        rcases hrow with ⟨-, hsub, rfl⟩ | ⟨payments, -, -, -, hsub, rfl⟩
        · exact ⟨rfl, hsub⟩
        · exact ⟨rfl, hsub⟩
      have hid : sub.id = p.subscriptionId := Table.key_of_get? hsub.2
      exact processPayment_kept h (by rw [hsub.1, hid, hsub.2]) (hsub.1 ▸ hx)
  · obtain ⟨hsub, -⟩ := billing_of_step h (fun c r he => hc ⟨c, r, he⟩) fun n he => hw ⟨n, he⟩
    exact ⟨x, hsub ▸ hx, .refl x⟩

theorem Activated.step (hs : Billed s) (h : step cfg s a = some t) {id : SubscriptionId}
    (ha : Activated s id) : Activated t id := by
  obtain ⟨x, hx, hst, hm, hd⟩ := ha
  obtain ⟨y, hy, hyst, hym⟩ := subscriptions_of_step hs h hx
  refine ⟨y, hy, hyst hst, hym hm, fun d hmem hp => ?_⟩
  rcases pending_of_step hs.sound h hmem hp with ⟨x, hx, hxp⟩ | rfl
  · exact hd x hx hxp
  · rw [Table.get?_nextKey] at hx
    cases hx

/-- a payment after a step was there before it, or is of a subscription that is activated as soon
as the payment is recorded as a paid first one -/
theorem payments_of_step (hs : Billed s) (h : step cfg s a = some t) {p' : MolliePayment}
    (hp : p' ∈ t.payments.rows) :
    (∃ p ∈ s.payments.rows, p'.subscriptionId = p.subscriptionId ∧
        p'.sequenceType = p.sequenceType ∧ p'.status = p.status) ∨
      (∃ sub, t.subscriptions.get? p'.subscriptionId = some sub) ∧
        (p'.sequenceType = .first → p'.status = .paid → Activated t p'.subscriptionId) := by
  by_cases hc : ∃ c r, a = .create c r
  · obtain ⟨c, r, rfl⟩ := hc
    obtain ⟨values, hostname, ns, isPaid, subscriptions, deployments, releases, vars, price,
      payments, jobs, -, hsub, -, -, hpj, rfl⟩ := createDeployment_ok (toOption_eq_some.mp h)
    rcases createPaymentOrJob_ok hpj with ⟨-, -, hpay | ⟨p, hins, hid, hopen, -⟩⟩ | ⟨-, hpay, -⟩
    · have hpay : payments = s.payments := hpay
      exact .inl ⟨p', hpay ▸ hp, rfl, rfl, rfl⟩
    · rcases (Table.mem_insert? hins).mp hp with hp | rfl
      · exact .inl ⟨p', hp, rfl, rfl, rfl⟩
      · refine .inr ⟨⟨_, hid ▸ Table.get?_insert?_self hsub⟩, fun _ hpaid => ?_⟩
        rw [hopen] at hpaid
        cases hpaid
    · have hpay : payments = s.payments := hpay
      exact .inl ⟨p', hpay ▸ hp, rfl, rfl, rfl⟩
  by_cases hw : ∃ n, a = .webhook n
  · obtain ⟨n, rfl⟩ := hw
    have kept : ∀ id x, s.subscriptions.get? id = some x →
        ∃ y, t.subscriptions.get? id = some y ∧ x.Kept y :=
      fun _ _ hx => subscriptions_of_step hs h hx
    rcases mollieWebhook_ok (toOption_eq_some.mp h) with rfl | ⟨info, p, sub, s₀, -, -, h, hrow⟩
    · exact .inl ⟨p', hp, rfl, rfl, rfl⟩
    have hput := processPayment_payments h
    have hsub : s.subscriptions.get? p.subscriptionId = some sub := by
      rcases hrow with ⟨-, hsub, -⟩ | ⟨payments, -, -, -, hsub, -⟩
      · exact hsub
      · exact hsub
    have hid : sub.id = p.subscriptionId := Table.key_of_get? hsub
    rcases Table.mem_put? hput hp with rfl | ⟨hp, hne⟩
    · -- the payment the delivery names
      obtain ⟨y, hy, -⟩ := kept _ _ hsub
      refine .inr ⟨⟨y, hy⟩, fun hfirst hpaid => ?_⟩
      have hs₀ : s₀.subscriptions.get? sub.id = some sub := by
        rcases hrow with ⟨-, -, rfl⟩ | ⟨payments, -, -, -, -, rfl⟩
        · exact hid ▸ hsub
        · exact hid ▸ hsub
      have hact := processPayment_activates h hs₀ hfirst hpaid
      rwa [hid] at hact
    · rcases hrow with ⟨-, -, rfl⟩ | ⟨payments, hins, -, -, -, rfl⟩
      · exact .inl ⟨p', hp, rfl, rfl, rfl⟩
      · rcases (Table.mem_insert? hins).mp hp with hp | rfl
        · exact .inl ⟨p', hp, rfl, rfl, rfl⟩
        · exact absurd rfl hne
  · obtain ⟨-, hpay⟩ := billing_of_step h (fun c r he => hc ⟨c, r, he⟩) fun n he => hw ⟨n, he⟩
    exact .inl ⟨p', hpay ▸ hp, rfl, rfl, rfl⟩

theorem billed_step (hs : Billed s) (h : step cfg s a = some t) : Billed t where
  sound := sound_step hs.sound h
  owner := fun p' hp => by
    rcases payments_of_step hs h hp with ⟨p, hp, hid, -, -⟩ | ⟨howner, -⟩
    · obtain ⟨x, hx⟩ := hs.owner p hp
      obtain ⟨y, hy, -⟩ := subscriptions_of_step hs h hx
      exact ⟨y, hid ▸ hy⟩
    · exact howner
  paid := fun p' hp hfirst hpaid => by
    rcases payments_of_step hs h hp with ⟨p, hp, hid, hseq, hst⟩ | ⟨-, hnew⟩
    · rw [hid]
      exact (hs.paid p hp (hseq ▸ hfirst) (hst ▸ hpaid)).step hs h
    · exact hnew hfirst hpaid

/-! ## A repeated delivery -/

theorem foldlM_provisionPending_none {l : List Deployment} (h : ∀ d ∈ l, d.status ≠ .pending)
    (deployments : Table Deployment) :
    l.foldlM provisionPending deployments = .ok deployments := by
  induction l with
  | nil => rfl
  | cons d l ih =>
    rw [List.foldlM_cons, provisionPending, if_neg (h d List.mem_cons_self)]
    exact ih fun x hx => h x (List.mem_cons_of_mem _ hx)

/-- the first payment's handler on an activated subscription writes its row alone -/
theorem handleFirstPaymentPaid_activated (hsub : s.subscriptions.get? sub.id = some sub)
    (ha : Activated s sub.id) : ∃ y subscriptions,
      y.id = sub.id ∧ y.billing = { sub with paymentStatus := .current }.billing ∧
      s.subscriptions.put? y = some subscriptions ∧
      handleFirstPaymentPaid s sub info n = .ok { s with subscriptions := subscriptions } := by
  obtain ⟨x, hx, hst, hm, hd⟩ := ha
  rw [hsub, Option.some.injEq] at hx
  subst hx
  obtain ⟨mollieId, hm⟩ := Option.ne_none_iff_exists'.mp hm
  let y : Subscription := { sub with
    paymentStatus := .current
    mollieMandateId := info.mandateId
    mollieSubscriptionId := some mollieId }
  obtain ⟨subscriptions, hput⟩ := Table.put?_isSome (a := y) hsub rfl
  have hy : y.billing = { sub with paymentStatus := .current }.billing := by
    simp only [Subscription.billing, hm, y]
  refine ⟨y, subscriptions, rfl, hy, hput, ?_⟩
  simp only [handleFirstPaymentPaid, bind_eq_ok, found_eq_ok, pure_eq_ok]
  refine ⟨s.deployments, foldlM_provisionPending_none hd _, s.jobs, if_neg hst, mollieId, ?_,
    subscriptions, hput, rfl⟩
  rw [ensureSubscription, hm]

theorem setPaymentStatus_eq (hsub : s.subscriptions.get? sub.id = some sub)
    (status : PaymentStatus) : ∃ y subscriptions,
      y.id = sub.id ∧ y.billing = { sub with paymentStatus := status }.billing ∧
      s.subscriptions.put? y = some subscriptions ∧
      setPaymentStatus s sub status = .ok { s with subscriptions := subscriptions } := by
  let y : Subscription := { sub with paymentStatus := status }
  obtain ⟨subscriptions, hput⟩ := Table.put?_isSome (a := y) hsub rfl
  refine ⟨y, subscriptions, rfl, rfl, hput, ?_⟩
  simp only [setPaymentStatus, bind_eq_ok, found_eq_ok, pure_eq_ok]
  exact ⟨subscriptions, hput, rfl⟩

/-- a delivery with this outcome takes one of the branches of the handler -/
theorem processPayment_eq {payments : Table MolliePayment}
    (hput : s.payments.put? { p with status := info.status, payload := info.payload } =
      some payments) :
    processPayment s p sub info n =
      match info.status.outcome with
      | none => .ok { s with payments := payments }
      | some status =>
        if p.sequenceType = .first ∧ info.status = .paid then
          handleFirstPaymentPaid { s with payments := payments } sub info n
        else setPaymentStatus { s with payments := payments } sub status := by
  rw [processPayment, hput]
  cases hst : info.status <;> cases hseq : p.sequenceType <;> rfl

/-- a delivery for a recorded payment is accepted and writes, beside its row, the payment status of
its outcome -/
theorem processPayment_recorded (hp : p ∈ s.payments.rows)
    (hsub : s.subscriptions.get? sub.id = some sub)
    (ha : p.sequenceType = .first → info.status = .paid → Activated s sub.id) :
    ∃ payments, s.payments.put? { p with status := info.status, payload := info.payload } =
        some payments ∧
      (info.status.outcome = none ∧
          processPayment s p sub info n = .ok { s with payments := payments } ∨
        ∃ status y subscriptions, info.status.outcome = some status ∧ y.id = sub.id ∧
          y.billing = { sub with paymentStatus := status }.billing ∧
          s.subscriptions.put? y = some subscriptions ∧
          processPayment s p sub info n =
            .ok { s with payments := payments, subscriptions := subscriptions }) := by
  obtain ⟨payments, hput⟩ := Table.put?_isSome (t := s.payments) (r := p)
    (a := { p with status := info.status, payload := info.payload }) (Table.get?_of_mem hp) rfl
  refine ⟨payments, hput, ?_⟩
  rw [processPayment_eq hput]
  cases hout : info.status.outcome with
  | none => exact .inl ⟨rfl, rfl⟩
  | some status =>
    refine .inr ⟨status, ?_⟩
    by_cases hf : p.sequenceType = .first ∧ info.status = .paid
    · obtain ⟨y, subscriptions, hid, hy, hput, he⟩ :=
        handleFirstPaymentPaid_activated (s := { s with payments := payments })
          (n := n) hsub (ha hf.1 hf.2)
      have hstatus : status = .current := by
        rw [hf.2] at hout
        cases hout
        rfl
      exact ⟨y, subscriptions, rfl, hid, hstatus ▸ hy, hput, (if_pos hf).trans he⟩
    · obtain ⟨y, subscriptions, hid, hy, hput, he⟩ :=
        setPaymentStatus_eq (s := { s with payments := payments }) hsub status
      exact ⟨y, subscriptions, rfl, hid, hy, hput, (if_neg hf).trans he⟩

/-- the row of a payment is the one its identifier finds -/
theorem oneOrNone_payment (payments : Table MolliePayment) (hp : p ∈ payments.rows) :
    oneOrNone (payments.rows.filter fun x => x.molliePaymentId = p.molliePaymentId) =
      .ok (some p) := by
  have hmem : p ∈ payments.rows.filter fun x => x.molliePaymentId = p.molliePaymentId :=
    List.mem_filter.mpr ⟨hp, decide_eq_true rfl⟩
  have hn : (payments.rows.filter fun x => x.molliePaymentId = p.molliePaymentId).Nodup :=
    (List.Nodup.of_map _ payments.keys).filter _
  have hall : ∀ x ∈ payments.rows.filter fun x => x.molliePaymentId = p.molliePaymentId,
      x = p := by
    intro x hx
    obtain ⟨hx, hid⟩ := List.mem_filter.mp hx
    exact Table.eq_of_entry hx hp (List.mem_singleton.mpr rfl)
      (List.mem_singleton.mpr (of_decide_eq_true hid))
  generalize payments.rows.filter (fun x => x.molliePaymentId = p.molliePaymentId) = l at *
  match l, hmem, hn, hall with
  | [x], _, _, hall => rw [hall x List.mem_cons_self, oneOrNone]
  | x :: y :: l, _, hn, hall =>
    have hxy : x = y := (hall x List.mem_cons_self).trans
      (hall y (List.mem_cons_of_mem _ List.mem_cons_self)).symm
    rw [hxy] at hn
    exact absurd List.mem_cons_self (List.nodup_cons.mp hn).1

/-- **a repeated delivery is accepted, and leaves the billing alone exactly when the subscription
has the payment status it writes** -/
theorem redelivery_idempotent (hs : (platform cfg).Reach (fun _ _ => True) .init s)
    (hp : p ∈ s.payments.rows) (hn : p.molliePaymentId = n.id) (hinfo : n.info = some info)
    (hstatus : info.status = p.status) :
    ∃ sub t, s.subscriptions.get? p.subscriptionId = some sub ∧
      step cfg s (.webhook n) = some t ∧
      (t.billing = s.billing ↔
        ∀ status, p.status.outcome = some status → sub.paymentStatus = status) := by
  have hb : Billed s := hs.invariant billed_init fun _ _ _ hs _ h => billed_step hs h
  obtain ⟨sub, hsub⟩ := hb.owner p hp
  have hid : sub.id = p.subscriptionId := Table.key_of_get? hsub
  have hweb : mollieWebhook s n = processPayment s p sub info n := by
    rw [mollieWebhook, hinfo]
    simp only [← hn, oneOrNone_payment s.payments hp]
    show (found (s.subscriptions.get? p.subscriptionId) _ >>= fun sub =>
      processPayment s p sub info n) = _
    rw [hsub]
    rfl
  obtain ⟨payments, hput, hrest⟩ := processPayment_recorded (n := n) hp (hid ▸ hsub)
    fun hfirst hpaid => hid ▸ hb.paid p hp hfirst (hstatus ▸ hpaid)
  have hpay : payments.rows.map MolliePayment.billing = s.payments.rows.map MolliePayment.billing := by
    rw [Table.put?_eq_some.mp hput]
    have hrow : s.payments.get? (Row.key { p with
        status := info.status
        payload := info.payload }) = some p := Table.get?_of_mem hp
    refine (Table.map_overwrite MolliePayment.billing hrow).mpr ?_
    rw [MolliePayment.billing, MolliePayment.billing, hstatus]
  refine ⟨sub, ?_⟩
  rw [show step cfg s (.webhook n) = (mollieWebhook s n).toOption from rfl, hweb]
  rcases hrest with ⟨hout, he⟩ | ⟨status, y, subscriptions, hout, hyid, hy, hputsub, he⟩
  · refine ⟨_, hsub, congrArg Except.toOption he, ?_⟩
    rw [← hstatus, hout]
    refine iff_of_true ?_ fun status h => ?_
    · rw [State.billing, State.billing, hpay]
    · cases h
  · refine ⟨_, hsub, congrArg Except.toOption he, ?_⟩
    rw [← hstatus, hout]
    have hrow : s.subscriptions.get? (Row.key y) = some sub :=
      (congrArg s.subscriptions.get? (hyid.trans hid)).trans hsub
    have hmap := Table.map_overwrite Subscription.billing hrow
    rw [← Table.put?_eq_some.mp hputsub, hy] at hmap
    constructor
    · intro h status' hst
      cases hst
      have hbill := hmap.mp (congrArg Billing.subscriptions h)
      exact (congrArg Subscription.paymentStatus hbill).symm
    · intro h
      have hsame := hmap.mpr (by rw [← h status rfl])
      rw [State.billing, State.billing, hpay, hsame]

/-- the first payment is paid, a recurring one is paid and the next one fails -/
def billingRun : List Action :=
  [.create .sample (.sample .null (some (.ok "tr_1"))), .webhook (.sample "tr_1" .paid none),
    .webhook (.sample "tr_2" .paid (some .sample)),
    .webhook (.sample "tr_3" .failed (some .sample))]

/-- the run has a payment under this id, recorded with the status the delivery reports -/
def State.records (s : State) (id : String) (status : MolliePaymentStatus) : Bool :=
  s.payments.rows.any fun p => decide (p.molliePaymentId = id ∧ p.status = status)

theorem exists_payment {id : String} {status : MolliePaymentStatus}
    (h : s.records id status = true) :
    ∃ p ∈ s.payments.rows, p.molliePaymentId = id ∧ p.status = status := by
  obtain ⟨p, hp, h⟩ := List.any_eq_true.mp h
  exact ⟨p, hp, of_decide_eq_true h⟩

theorem redelivery_idempotent_failed : ∃ s p sub t, p ∈ s.payments.rows ∧
    s.subscriptions.get? p.subscriptionId = some sub ∧
    step .sample s (.webhook (.sample "tr_3" .failed none)) = some t ∧
    (t.billing = s.billing ↔
      ∀ status, p.status.outcome = some status → sub.paymentStatus = status) := by
  obtain ⟨s, hs, hp⟩ := Machine.exists_reach_of_run (M := platform .sample) (s := .init)
    (l := billingRun) (p := fun s => s.records "tr_3" .failed) (by decide +kernel)
  obtain ⟨p, hp, hid, hst⟩ := exists_payment hp
  obtain ⟨sub, t, h⟩ := redelivery_idempotent (n := .sample "tr_3" .failed none) hs hp hid rfl
    hst.symm
  exact ⟨s, p, sub, t, hp, h⟩

/-- the old paid payment takes the subscription out of arrears -/
theorem redelivery_reverts :
    ¬ ∀ s t n info p, (platform .sample).Reach (fun _ _ => True) .init s →
      p ∈ s.payments.rows → p.molliePaymentId = n.id → n.info = some info →
      info.status = p.status → step .sample s (.webhook n) = some t → t.billing = s.billing := by
  intro hall
  let n : Notification := .sample "tr_2" .paid (some .sample)
  obtain ⟨s, hs, hp⟩ := Machine.exists_reach_of_run (M := platform .sample) (s := .init)
    (l := billingRun) (p := fun s : State => s.records "tr_2" .paid &&
      (s.subscriptions.rows.all fun sub : Subscription => decide (sub.paymentStatus = .arrears)) &&
      (step .sample s (.webhook n)).any fun t : State =>
        t.subscriptions.rows.any fun sub : Subscription => decide (sub.paymentStatus = .current))
    (by decide +kernel)
  simp only [Bool.and_eq_true, Option.any_eq_true, List.any_eq_true, List.all_eq_true,
    decide_eq_true_eq] at hp
  obtain ⟨⟨hrec, harrears⟩, t, ht, y, hy, hcurrent⟩ := hp
  obtain ⟨p, hp, hid, hst⟩ := exists_payment hrec
  have hbill : t.subscriptions.rows.map Subscription.billing =
      s.subscriptions.rows.map Subscription.billing :=
    congrArg Billing.subscriptions (hall s t n _ p hs hp hid rfl hst.symm ht)
  have hmem : y.billing ∈ s.subscriptions.rows.map Subscription.billing :=
    hbill ▸ List.mem_map_of_mem hy
  obtain ⟨x, hx, hxy⟩ := List.mem_map.mp hmem
  have hsame : x.billing.paymentStatus = y.billing.paymentStatus := by rw [hxy]
  have hsame : x.paymentStatus = y.paymentStatus := hsame
  rw [harrears x hx, hcurrent] at hsame
  cases hsame

end Freepod
