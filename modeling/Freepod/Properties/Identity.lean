import Freepod.Accounts.Runs

/-!
# Who a request is resolved to

A caller's record is read and then written, with nothing but the unique indexes and one retry
between two requests for one address or one subject.

* `Unraced`: no other commit comes between an adoption, or a second attempt, and what it read.
* `bindable_of_adopting`, `fits_of_retry`: what a request read then still stands when it writes.
* `Remembered`: what a request found bound, or bound itself, stays bound.
* `window`: a record is adopted with the address it was found by.
* `identity_resolution`: the run-level result.  `rebound`: a record that two requests adopt.
-/

namespace Freepod.Accounts
open Base

set_option linter.unusedSectionVars false

section
variable [Database] {cfg : Config} {t t' : Table User} {p q r : AccountPool}

/-! ## The runs -/

/-- no account is deleted -/
def NoDeletion (p : AccountPool) (ev : AccountEvent) : Prop :=
  ∀ i c req id time k, ev = .run i c →
    p.threads[i]? ≠ some ⟨req, .call (.update id (.deletedAt time)) k⟩

/-- since a request read the record that it is about to adopt, no other bound it to another subject -/
def AdoptsAlone (p : AccountPool) (ev : AccountEvent) : Prop :=
  ∀ i c req id s k, ev = .run i c →
    p.threads[i]? = some ⟨req, .call (.update id (.keycloakSubject s)) k⟩ →
    Fits p.store (.update id (.keycloakSubject s)) →
    ∀ e ∈ since i 0 p.trace, ∀ s', e.call = ⟨.update id (.keycloakSubject s'), true⟩ → s' = s

/-- when the second attempt of a request is about to write, no other has been given its address or its
subject since that attempt began to read, and the address is one that the database's `lower()` leaves -/
def RetriesAlone (cfg : Config) (p : AccountPool) (ev : AccountEvent) : Prop :=
  ∀ i c req o k e s, ev = .run i c → p.threads[i]? = some ⟨req, .call o k⟩ → o.resolves = true →
    (∃ c' ∈ logOf i p.trace, Refused c') → req.identity cfg = some (e, some s) →
    Database.lower e = e ∧ ∀ en ∈ since i 1 p.trace,
      .email (Database.lower e) ∉ gives en.call ∧ .keycloakSubject s ∉ gives en.call

/-- no account is deleted, and no other request's commit comes between an adoption, or a second
attempt, and what it read -/
def Unraced (cfg : Config) (p : AccountPool) (ev : AccountEvent) : Prop :=
  NoDeletion p ev ∧ AdoptsAlone p ev ∧ RetriesAlone cfg p ev

/-! ## What stays -/

/-- the call shows that a record is bound to a subject -/
inductive Binds : Base.Call Ret → UserId → String → Prop where
  | reads {s : String} (u : User) : Binds ⟨.bySubject s, some u⟩ u.id s
  | adopts {s : String} (id : UserId) : Binds ⟨.update id (.keycloakSubject s), true⟩ id s
  | inserts {e s : String} (id : UserId) : Binds ⟨.insertUser e (some s), some id⟩ id s

/-- the call shows that a record is live -/
inductive Shows : Base.Call Ret → UserId → Prop where
  | bySubject {s : String} (u : User) : Shows ⟨.bySubject s, some u⟩ u.id
  | byEmail {e : String} (u : User) : Shows ⟨.byEmail e, some u⟩ u.id
  | inserts {e : String} {s : Option String} (id : UserId) : Shows ⟨.insertUser e s, some id⟩ id

/-- what the calls of a trace have shown is still so -/
structure Remembered (t : Table User) (tr : AccountTrace) : Prop where
  bound : ∀ e ∈ tr, ∀ id s, Binds e.call id s → BoundTo t id s
  live : ∀ e ∈ tr, ∀ id, Shows e.call id → LiveAt t id

/-- the call overwrites no binding, and deletes no record -/
def Keeps (t : Table User) (c : Base.Call Ret) : Prop :=
  match c with
  | ⟨.update id (.keycloakSubject s), true⟩ =>
    ∀ u, t.get? id = some u → u.keycloakSubject = none ∨ u.keycloakSubject = some s
  | ⟨.update _ (.deletedAt _), _⟩ => False
  | _ => True

section
variable {c : Base.Call Ret} {id : UserId} {s : String} (hd : Does t c t')
include hd

theorem LiveAt.step (h : LiveAt t id) (hk : Keeps t c) : LiveAt t' id := by
  obtain ⟨u, hu, hl⟩ := h
  rcases hd.get? hu with hu' | ⟨column, rfl, hu'⟩
  · exact ⟨u, hu', hl⟩
  · refine ⟨_, hu', ?_⟩
    cases column with
    | deletedAt d => exact hk.elim
    | _ => exact hl

theorem BoundTo.step (h : BoundTo t id s) (hk : Keeps t c) : BoundTo t' id s := by
  obtain ⟨u, hu, hs⟩ := h
  rcases hd.get? hu with hu' | ⟨column, rfl, hu'⟩
  · exact ⟨u, hu', hs⟩
  · refine ⟨_, hu', ?_⟩
    cases column with
    | keycloakSubject s' =>
      rcases hk u hu with hn | hs'
      · rw [hn] at hs
        cases hs
      · exact hs'.symm.trans hs
    | _ => exact hs

end

section
variable {o : Op} {x : Ret o} {clock : Time} {id : UserId} (hp : perform t o clock = some (x, t'))
include hp

/-- a record that a call shows to be bound is bound once the call is made -/
theorem Binds.now {s : String} (h : Binds ⟨o, x⟩ id s) : BoundTo t' id s := by
  have hd := does_of_perform hp
  cases h with
  | reads u =>
    obtain ⟨hu, -, hs⟩ := of_bySubject hp rfl
    cases hd
    exact ⟨u, hu, hs⟩
  | adopts =>
    cases hd with
    | nothing h => cases h
    | updates hu ht => exact ⟨_, get?_of_update hu ht, rfl⟩
  | inserts =>
    cases hd with
    | nothing h => cases h
    | inserts ht => exact ⟨_, Table.get?_insert?_self ht, rfl⟩

theorem Shows.now (h : Shows ⟨o, x⟩ id) : LiveAt t' id := by
  have hd := does_of_perform hp
  cases h with
  | bySubject u =>
    obtain ⟨hu, hl, -⟩ := of_bySubject hp rfl
    cases hd
    exact ⟨u, hu, hl⟩
  | byEmail u =>
    obtain ⟨hu, hl, -⟩ := of_byEmail hp rfl
    cases hd
    exact ⟨u, hu, hl⟩
  | inserts =>
    cases hd with
    | nothing h => cases h
    | inserts ht => exact ⟨_, Table.get?_insert?_self ht, rfl⟩

/-- **what was shown stays so** along a step that overwrites no binding -/
theorem Remembered.step {tr : AccountTrace} (h : Remembered t tr) (hk : Keeps t ⟨o, x⟩) (i : Nat)
    (req : Request) : Remembered t' (⟨i, req, ⟨o, x⟩, ()⟩ :: tr) := by
  have hd := does_of_perform hp
  refine ⟨fun e he id s hb => ?_, fun e he id hs => ?_⟩
  · rcases List.mem_cons.mp he with rfl | he
    · exact hb.now hp
    · exact (h.bound e he id s hb).step hd hk
  · rcases List.mem_cons.mp he with rfl | he
    · exact hs.now hp
    · exact (h.live e he id hs).step hd hk
end

/-! ## What a request read -/

/-- the record is bound to no other subject -/
def BindableTo (id : UserId) (s : String) (t : Table User) : Prop :=
  ∃ u, t.get? id = some u ∧ (u.keycloakSubject = none ∨ u.keycloakSubject = some s)

theorem BindableTo.step {c : Base.Call Ret} {id : UserId} {s : String} (h : BindableTo id s t)
    (hd : Does t c t') (hc : ∀ s', c = ⟨.update id (.keycloakSubject s'), true⟩ → s' = s) :
    BindableTo id s t' := by
  obtain ⟨u, hu, hs⟩ := h
  rcases hd.get? hu with hu' | ⟨column, rfl, hu'⟩
  · exact ⟨u, hu', hs⟩
  · refine ⟨_, hu', ?_⟩
    cases column with
    | keycloakSubject s' => exact .inr (congrArg some (hc s' rfl))
    | _ => exact hs

section
variable {ok : Condition} {t0 : Table User}
  (hr : (service cfg).machine.Reach ok (Service.start t0) p) {i : Nat}
include hr

/-- **a record that is being adopted is bound to no other subject**, as when it was read -/
theorem bindable_of_adopting {req : Request} {id : UserId} {s : String} {c : Time}
    {k : Ret (.update id (.keycloakSubject s)) → Handler Response} (ho : AdoptsAlone p (.run i c))
    (hth : p.threads[i]? = some ⟨req, .call (.update id (.keycloakSubject s)) k⟩)
    (hfit : Fits p.store (.update id (.keycloakSubject s))) : BindableTo id s p.store := by
  obtain ⟨e, u, older, -, hlog, rfl, hnone⟩ :=
    ((hr.grounded (.start t0)).next (meets_handler cfg) hth :
      deed cfg req (logOf i p.trace) (.update id (.keycloakSubject s)))
  refine hr.kept_since (P := BindableTo u.id s) (l := []) hlog ?_ ?_ ?_
  · intro r c' t _ hp
    have hp : perform r.store (.byEmail e) c' = some (some u, t) := hp
    obtain ⟨hu, -⟩ := of_byEmail hp rfl
    rw [← (does_of_perform hp).unwritten trivial] at hu
    exact ⟨u, hu, .inl hnone⟩
  · exact fun _ w _ _ _ _ _ => nomatch w
  · intro r j c' req' o' k' x' t _ he _ _ hp hb
    exact hb.step (does_of_perform hp) (ho i c req u.id s k rfl hth hfit _ he)

/-- an entry that was free when a request looked is free while no call gives it -/
theorem indexFree_since {o : Op} {x : Ret o} {l log : Log Ret} {y : IndexEntry}
    (hlog : logOf i p.trace = l ++ ⟨o, x⟩ :: log)
    (hread : ∀ {t c t'}, perform t o c = some (x, t') → IndexFree y t')
    (hsince : ∀ en ∈ since i l.length p.trace, y ∉ gives en.call) : IndexFree y p.store := by
  refine hr.kept_since (P := IndexFree y) hlog ?_ ?_ ?_
  · exact fun _ _ _ _ hp => hread hp
  · exact fun _ w _ _ _ _ _ => nomatch w
  · intro r j c' req' o' k' x' t _ he _ _ hp hf
    exact hf.step (does_of_perform hp) (hsince _ he)

end

/-! ## Runs -/

section
variable {t0 : Table User}

theorem keeps_of_unraced {i : Nat} {c : Time} {req : Request} {o : Op}
    {k : Ret o → Handler Response} (h0 : (service cfg).machine.Reach (Unraced cfg) (Service.start t0) p)
    (hok : Unraced cfg p (.run i c)) (hth : p.threads[i]? = some ⟨req, .call o k⟩) {x : Ret o}
    (hp : perform p.store o c = some (x, t)) : Keeps p.store ⟨o, x⟩ := by
  obtain ⟨hdel, hadopt, -⟩ := hok
  cases o with
  | update id column =>
    cases column with
    | keycloakSubject s =>
      cases x with
      | true =>
        intro u hu
        obtain ⟨v, hv, hs⟩ := bindable_of_adopting h0 hadopt hth (fits_of_update hp)
        rw [hu] at hv
        exact Option.some.inj hv ▸ hs
      | false => trivial
    | deletedAt d => exact hdel i c req id d k rfl hth
    | _ => trivial
  | _ => trivial

theorem remembered_nil (t : Table User) : Remembered t [] where
  bound := fun e he => by cases he
  live := fun e he => by cases he

/-- what every run from an idle service knows -/
theorem remembered (h : (service cfg).machine.Reach (Unraced cfg) (Service.start t0) p) :
    Grounded (service cfg) p ∧ Remembered p.store p.trace := by
  obtain ⟨hg, hr, -⟩ := h.reached.history (C := contract cfg) (meets_handler cfg)
    (I := Remembered) (F := fun _ _ => True)
    (remembered_nil t0)
    (fun _ w _ _ _ => nomatch w)
    (fun p i c req o k x s hok _ hinv _ hth _ hp =>
      ⟨hinv.step hp (keeps_of_unraced hok.2 hok.1 hth hp) i req, trivial⟩)
  exact ⟨hg, hr⟩

/-- **a binding is permanent** -/
theorem bound_stays {id : UserId} {s : String}
    (h0 : (service cfg).machine.Reach (Unraced cfg) (Service.start t0) p)
    (h : (service cfg).machine.Reach (Unraced cfg) p q) (hb : BoundTo p.store id s) :
    BoundTo q.store id s := by
  refine h.reached.invariant (P := fun q => BoundTo q.store id s) hb fun q a q' hb hok hstep => ?_
  rcases does_of_step hstep with heq | ⟨i, c, req, o, k, x, rfl, hth, hp⟩
  · exact heq ▸ hb
  · exact hb.step (does_of_perform hp) (keeps_of_unraced (h0.trans hok.2) hok.1 hth hp)

theorem live_stays {id : UserId}
    (h0 : (service cfg).machine.Reach (Unraced cfg) (Service.start t0) p)
    (h : (service cfg).machine.Reach (Unraced cfg) p q) (hl : LiveAt p.store id) :
    LiveAt q.store id := by
  refine h.reached.invariant (P := fun q => LiveAt q.store id) hl fun q a q' hl hok hstep => ?_
  rcases does_of_step hstep with heq | ⟨i, c, req, o, k, x, rfl, hth, hp⟩
  · exact heq ▸ hl
  · exact hl.step (does_of_perform hp) (keeps_of_unraced (h0.trans hok.2) hok.1 hth hp)

end

/-! ## One request -/

section
variable {t0 : Table User} (h : (service cfg).machine.Reach (Unraced cfg) (Service.start t0) p)
include h

/-- a record whose address is about to be updated is bound -/
theorem bound_of_renaming {i : Nat} {req : Request} {id : UserId} {e : String}
    {k : Ret (.update id (.email e)) → Handler Response}
    (hth : p.threads[i]? = some ⟨req, .call (.update id (.email e)) k⟩) :
    ∃ s, BoundTo p.store id s := by
  obtain ⟨hg, hr⟩ := remembered h
  obtain ⟨s, u, older, -, hlog, rfl⟩ :=
    (hg.next (meets_handler cfg) hth : deed cfg req (logOf i p.trace) (.update id (.email e)))
  have hm : (⟨.bySubject s, some u⟩ : Base.Call Ret) ∈ logOf i p.trace := by
    rw [hlog]
    exact List.mem_cons_of_mem _ List.mem_cons_self
  obtain ⟨e', older', hsuf, -, hc⟩ := entry_of_mem_logOf hm
  exact ⟨s, hr.bound e' (mem_of_cons_suffix hsuf) u.id s (hc ▸ .reads u)⟩

/-- **an unbound record keeps its address until it is bound** -/
theorem window {id : UserId} {u : User} (hu : p.store.get? id = some u)
    (hn : u.keycloakSubject = none) (h' : (service cfg).machine.Reach (Unraced cfg) p q) :
    (∃ v, q.store.get? id = some v ∧ v.email = u.email ∧ v.keycloakSubject = none) ∨
      ∃ m s v, (service cfg).machine.Reach (Unraced cfg) p m ∧
        (service cfg).machine.Reach (Unraced cfg) m q ∧ m.store.get? id = some v ∧ v.email = u.email ∧ v.keycloakSubject = some s := by
  refine (h'.invariant (P := fun q => (service cfg).machine.Reach (Unraced cfg) p q ∧
    ((∃ v, q.store.get? id = some v ∧ v.email = u.email ∧ v.keycloakSubject = none) ∨
      ∃ m s v, (service cfg).machine.Reach (Unraced cfg) p m ∧
        (service cfg).machine.Reach (Unraced cfg) m q ∧ m.store.get? id = some v ∧ v.email = u.email ∧ v.keycloakSubject = some s))
    ⟨.refl, .inl ⟨u, hu, rfl, hn⟩⟩ ?_).2
  rintro q a q' ⟨hq, hwin⟩ hok hstep
  have hq' := hq.tail hok hstep
  refine ⟨hq', ?_⟩
  rcases hwin with ⟨v, hv, he, hnone⟩ | ⟨m, s, v, hm, hmq, hv⟩
  · obtain ⟨req, rfl, rfl⟩ | ⟨i, c, req, o, k, x, t, rfl, hth, hp, rfl⟩ | ⟨w, t, rfl, hc, rfl⟩ :=
      step_cases hstep
    · exact .inl ⟨v, hv, he, hnone⟩
    · have hd := does_of_perform hp
      rcases hd.get? hv with hv' | ⟨column, heq, hv'⟩
      · exact .inl ⟨v, hv', he, hnone⟩
      · cases heq
        cases column with
        | email e =>
          -- only a bound record is renamed
          obtain ⟨s, w, hw, hs⟩ := bound_of_renaming (h.trans hq) hth
          rw [hv] at hw
          obtain rfl := Option.some.inj hw
          rw [hnone] at hs
          cases hs
        | keycloakSubject s => exact .inr ⟨_, s, _, hq', .refl, hv', he, rfl⟩
        | handle a => exact .inl ⟨_, hv', he, hnone⟩
        | deletedAt d => exact absurd hth (hok.1 i c req id d k rfl)
    · exact nomatch w
  · exact .inr ⟨m, s, v, hm, hmq.tail hok hstep, hv⟩

end

/-! ## The claim -/

/-- the record is live, bound to the subject, and carries the address, ignoring case -/
def IsCallers (cfg : Config) (e s : String) (u : User) : Prop :=
  u.deletedAt = none ∧ u.keycloakSubject = some s ∧
    (u.email = e ∨ cfg.lower u.email = e ∨ Database.lower u.email = e)

/-- the record is bound to the subject, and while the request was at work it was the caller's -/
def Returned (cfg : Config) (ok : Condition) (p0 p : AccountPool) (i : Nat) (e s : String)
    (caller : Caller) : Prop :=
  BoundTo p.store caller.id s ∧
    (∀ u, caller.row = some u → u.id = caller.id ∧ u.keycloakSubject = some s) ∧
    ∃ r u, (service cfg).machine.Reach ok p0 r ∧ (service cfg).machine.Reach ok r p ∧ AtWork r i ∧
      r.store.get? caller.id = some u ∧ IsCallers cfg e s u

/-- no step of the request changed a record -/
def LeftAlone (cfg : Config) (ok : Condition) (p0 p : AccountPool) (i : Nat) : Prop :=
  ∀ r c r', (service cfg).machine.Reach ok p0 r → ok r (.run i c) →
    (service cfg).step r (.run i c) = some r' → (service cfg).machine.Reach ok r' p →
    r'.store = r.store

/-- what identity resolution promises of a run from `p0` to `p` -/
structure IdentityHeld (cfg : Config) (ok : Condition) (p0 p : AccountPool) : Prop where
  email : ∀ a ∈ p.store.rows, ∀ b ∈ p.store.rows, a.deletedAt = none → b.deletedAt = none →
    Database.lower a.email = Database.lower b.email → a = b
  subject : ∀ a ∈ p.store.rows, ∀ b ∈ p.store.rows, a.deletedAt = none → b.deletedAt = none →
    ∀ s, a.keycloakSubject = some s → b.keycloakSubject = some s → a = b
  permanent : ∀ r, (service cfg).machine.Reach ok p0 r → (service cfg).machine.Reach ok r p →
    ∀ id s, BoundTo r.store id s → BoundTo p.store id s
  answers : ∀ (i : Nat) t a e s, p.threads[i]? = some t → t.req.isCurrentUser = true →
    t.req.identity cfg = some (e, some s) → t.prog.answer? = some a →
    (∃ caller, a = .user caller ∧ Returned cfg ok p0 p i e s caller) ∨
      (a = addressTaken ∧ LeftAlone cfg ok p0 p i)

section
variable {t0 : Table User} {i : Nat} {e s : String}
  (h : (service cfg).machine.Reach (Unraced cfg) (Service.start t0) p)
include h

theorem returned_of_bound {u : User} {log : Log Ret}
    (hlog : logOf i p.trace = ⟨.bySubject s, some u⟩ :: log) (hemail : cfg.lower u.email = e) :
    Returned cfg (Unraced cfg) (Service.start t0) p i e s ⟨u.id, some u⟩ := by
  obtain ⟨r, p', c, req, k, hr, -, -, hth, hp, -, hrp, hafter⟩ := last_call h hlog
  obtain ⟨hu, hl, hs⟩ := of_bySubject hp rfl
  have hreach := hrp.trans hafter
  refine ⟨bound_stays hr hreach ⟨u, hu, hs⟩, ?_, r, u, hr, hreach, atWork_of_call hth, hu, hl, hs,
    .inr (.inl hemail)⟩
  rintro _ ⟨⟩
  exact ⟨rfl, hs⟩

theorem returned_of_renamed {u : User} {log : Log Ret} (hlog : logOf i p.trace =
      ⟨.update u.id (.email e), true⟩ :: ⟨.byEmail e, none⟩ :: ⟨.bySubject s, some u⟩ :: log) :
    Returned cfg (Unraced cfg) (Service.start t0) p i e s ⟨u.id, none⟩ := by
  obtain ⟨r, p', c, req, k, hr, hlog', -, hth, hp, hwork, hrp, hafter⟩ := last_call h hlog
  obtain ⟨-, hrem⟩ := remembered hr
  have hm : (⟨.bySubject s, some u⟩ : Base.Call Ret) ∈ logOf i r.trace := by
    rw [hlog']
    exact List.mem_cons_of_mem _ List.mem_cons_self
  obtain ⟨e', older, hsuf, -, hc⟩ := entry_of_mem_logOf hm
  -- what the subject led to is still bound to it, and live
  obtain ⟨v, hv, hs⟩ := hrem.bound e' (mem_of_cons_suffix hsuf) u.id s (hc ▸ .reads u)
  obtain ⟨v', hv', hl⟩ := hrem.live e' (mem_of_cons_suffix hsuf) u.id (hc ▸ .bySubject u)
  rw [hv] at hv'
  obtain rfl := Option.some.inj hv'
  have hnow := row_of_update hp hv
  exact ⟨bound_stays (hr.trans hrp) hafter ⟨_, hnow, hs⟩, fun _ hrow => (nomatch hrow), p', _,
    hr.trans hrp, hafter, hwork, hnow, hl, hs, .inl rfl⟩

theorem returned_of_adopted {u : User} {log : Log Ret} (hlog : logOf i p.trace =
      ⟨.update u.id (.keycloakSubject s), true⟩ :: ⟨.byEmail e, some u⟩ :: log)
    (hnone : u.keycloakSubject = none) :
    Returned cfg (Unraced cfg) (Service.start t0) p i e s ⟨u.id, none⟩ := by
  obtain ⟨r, p', c, req, k, hr, hlog', hok, hth, hp, hwork, hrp, hafter⟩ := last_call h hlog
  obtain ⟨r0, r1, c0, req0, k0, hr0, -, -, hth0, hp0, hwork0, hr01, hr1⟩ := last_call hr hlog'
  obtain ⟨hu, hl, hemail⟩ := of_byEmail hp0 rfl
  -- the read leaves the table as it is
  obtain ⟨t1, ht1, -⟩ := hwork0
  have hu1 : r1.store.get? u.id = some u := by
    rw [(does_of_perform hp0).unwritten trivial]
    exact hu
  have hlive : ∀ m, (service cfg).machine.Reach (Unraced cfg) r1 m → ∀ v,
      m.store.get? u.id = some v → v.deletedAt = none := by
    intro m hm v hv
    obtain ⟨v', hv', hl'⟩ := live_stays (hr0.trans hr01) hm ⟨u, hu1, hl⟩
    rw [hv] at hv'
    exact (Option.some.inj hv') ▸ hl'
  rcases window (hr0.trans hr01) hu1 hnone hr1 with ⟨v, hv, hve, -⟩ | ⟨m, s', v, hm, hmr, hv, hve, hs⟩
  · have hnow := row_of_update hp hv
    exact ⟨bound_stays (hr.trans hrp) hafter ⟨_, hnow, rfl⟩, fun _ hrow => (nomatch hrow), p', _,
      hr.trans hrp, hafter, hwork, hnow, hlive r hr1 v hv, rfl,
      .inr (.inr ((congrArg _ hve).trans hemail))⟩
  · -- another request bound it meanwhile, to the same subject
    obtain ⟨w, hw, hsw⟩ := bound_stays ((hr0.trans hr01).trans hm) hmr ⟨v, hv, hs⟩
    obtain rfl : s' = s := by
      obtain ⟨w', hw', hs'⟩ := bindable_of_adopting hr hok.2.1 hth (fits_of_update hp)
      rw [hw] at hw'
      obtain rfl := Option.some.inj hw'
      rcases hs' with hn | hs'
      · rw [hn] at hsw
        cases hsw
      · exact Option.some.inj (hsw.symm.trans hs')
    have hmp : (service cfg).machine.Reach (Unraced cfg) m p := (hmr.trans hrp).trans hafter
    obtain ⟨tm, htm, -⟩ := hm.thread_stays ht1
    exact ⟨bound_stays ((hr0.trans hr01).trans hm) hmp ⟨v, hv, hs⟩, fun _ hrow => (nomatch hrow),
      m, v, (hr0.trans hr01).trans hm, hmp, hmr.atWork htm hth, hv, hlive m hm v hv, hs,
      .inr (.inr ((congrArg _ hve).trans hemail))⟩

theorem returned_of_created {u : User} {id : UserId} {log : Log Ret} (hlog : logOf i p.trace =
      ⟨.load id, some u⟩ :: ⟨.insertUser e (some s), some id⟩ :: log) :
    Returned cfg (Unraced cfg) (Service.start t0) p i e s ⟨id, some u⟩ := by
  obtain ⟨r, p', c, req, k, hr, hlog', -, hth, hp, -, hrp, hafter⟩ := last_call h hlog
  obtain ⟨r0, r1, c0, req0, k0, hr0, -, -, -, hp0, hwork0, hr01, hr1⟩ := last_call hr hlog'
  have hnew := row_of_insert hp0
  have hbound : BoundTo r1.store id s := ⟨_, hnew, rfl⟩
  have hr1p : (service cfg).machine.Reach (Unraced cfg) r1 p := hr1.trans (hrp.trans hafter)
  refine ⟨bound_stays (hr0.trans hr01) hr1p hbound, ?_, r1, _, hr0.trans hr01, hr1p, hwork0, hnew,
    rfl, rfl, .inl rfl⟩
  rintro _ ⟨⟩
  have hu : r.store.get? id = some u := by
    obtain ⟨hx, -⟩ := Prod.mk.inj (Option.some.inj hp)
    exact hx
  obtain ⟨v, hv, hs⟩ := bound_stays (hr0.trans hr01) hr1 hbound
  rw [hu] at hv
  obtain rfl := Option.some.inj hv
  exact ⟨Table.key_of_get? hu, hs⟩

/-- **every way to a caller's record is right** -/
theorem returned_of_resolvedTo {caller : Caller}
    (hres : ResolvedTo cfg e (some s) (logOf i p.trace) caller) :
    Returned cfg (Unraced cfg) (Service.start t0) p i e s caller := by
  generalize hlog : logOf i p.trace = log at hres
  cases hres with
  | bound hemail => exact returned_of_bound h hlog hemail
  | renamed => exact returned_of_renamed h hlog
  | adopted hnone => exact returned_of_adopted h hlog hnone
  | created => exact returned_of_created h hlog

/-- a request that called nothing but reads, and writes that were refused, changed no record -/
theorem leftAlone_of_unwritten (hall : ∀ c ∈ logOf i p.trace, Unwritten c) :
    LeftAlone cfg (Unraced cfg) (Service.start t0) p i := by
  intro r c r' _ _ hstep hafter
  obtain ⟨req, o, k, x, -, hd, hm, -⟩ := call_of_step hstep hafter
  exact hd.unwritten (hall _ hm)

/-- a record that a request has read is there -/
theorem there_of_shown {c : Base.Call Ret} {id : UserId} (hm : c ∈ logOf i p.trace)
    (hs : Shows c id) : ∃ u, p.store.get? id = some u := by
  obtain ⟨en, older, hsuf, -, rfl⟩ := entry_of_mem_logOf hm
  obtain ⟨u, hu, -⟩ := (remembered h).2.live en (mem_of_cons_suffix hsuf) id hs
  exact ⟨u, hu⟩

/-- **a second attempt's write violates no index**: what it looked for is still nobody's -/
theorem fits_of_retry {req : Request} {o : Op} {k : Ret o → Handler Response} {c : Time}
    (hok : RetriesAlone cfg p (.run i c)) (hth : p.threads[i]? = some ⟨req, .call o k⟩)
    (hres : o.resolves = true) (hagain : ∃ c' ∈ logOf i p.trace, Refused c')
    (hid : req.identity cfg = some (e, some s)) : Fits p.store o := by
  obtain ⟨hlower, hsince⟩ := hok i c req o k e s rfl hth hres hagain hid
  have haddress : ∀ {log}, logOf i p.trace = ⟨.byEmail e, none⟩ :: log →
      IndexFree (.email (Database.lower e)) p.store := by
    intro log hlog
    refine indexFree_since h (l := []) hlog (fun hp => indexFree_of_byEmail hp hlower) ?_
    exact fun en hen => (hsince en (since_subset (Nat.zero_le 1) _ hen)).1
  have hsubject : ∀ {x log}, logOf i p.trace = ⟨.byEmail e, x⟩ :: ⟨.bySubject s, none⟩ :: log →
      IndexFree (.keycloakSubject s) p.store := by
    intro x log hlog
    exact indexFree_since h (l := [⟨.byEmail e, x⟩]) hlog (fun hp => indexFree_of_bySubject hp)
      fun en hen => (hsince en hen).2
  have hdeed : deed cfg req (logOf i p.trace) o :=
    (remembered h).1.next (meets_handler cfg) hth
  cases o with
  | update id column =>
    cases column with
    | email e' =>
      obtain ⟨s', u, older, hid', hlog, rfl⟩ := hdeed
      rw [hid] at hid'
      cases hid'
      obtain ⟨v, hv⟩ := there_of_shown h (hlog ▸ List.mem_cons_of_mem _ List.mem_cons_self)
        (.bySubject u)
      refine fits_of_free hv ?_
      rintro x ⟨⟩
      exact haddress hlog
    | keycloakSubject s' =>
      obtain ⟨e', u, older, hid', hlog, rfl, -⟩ := hdeed
      rw [hid] at hid'
      cases hid'
      obtain ⟨v, hv⟩ := there_of_shown h (hlog ▸ List.mem_cons_self) (.byEmail u)
      refine fits_of_free hv ?_
      rintro x ⟨⟩
      exact hsubject hlog
    | handle a => cases hres
    | deletedAt d => cases hres
  | insertUser e' s' =>
    rcases hdeed with ⟨hid', older, hlog, holder⟩ | rfl
    · rw [hid] at hid'
      cases hid'
      obtain ⟨oldest, rfl⟩ := holder s rfl
      refine fits_of_free_insert fun x hx => ?_
      rcases List.mem_cons.mp hx with rfl | hx
      · exact haddress hlog
      · obtain rfl := List.mem_singleton.mp hx
        exact hsubject hlog
    · cases hid
  | _ => cases hres

theorem not_refusedTwice {t : Thread Ret Request Response} (ht : p.threads[i]? = some t)
    (hid : t.req.identity cfg = some (e, some s)) : ¬ RefusedTwice (logOf i p.trace) := by
  rintro ⟨⟨o, x⟩, older, hlog, href, hagain⟩
  obtain ⟨r, p', c, req, k, hr, hlog', hok, hth, hp, -, hrp, hafter⟩ := last_call h hlog
  obtain ⟨t', ht', hreq⟩ := (hrp.trans hafter).thread_stays hth
  rw [ht] at ht'
  obtain rfl := Option.some.inj ht'
  exact not_refused_of_fits hp
    (fits_of_retry hr hok.2.2 hth href.1 (hlog' ▸ hagain) (hreq ▸ hid)) href

end

/-- **who a request is resolved to**, in every run without deletions in which no other request's
commit comes between what an adoption, or a second attempt, read and its write: one live record for an
address and for a subject, bindings for good, and every request gets its subject's record with its
address, or a conflict and nothing changed -/
theorem identity_resolution (cfg : Config) {t0 : Table User} {p : AccountPool}
    (h : (service cfg).machine.Reach (Unraced cfg) (Service.start t0) p) :
    IdentityHeld cfg (Unraced cfg) (Service.start t0) p where
  email := fun _ ha _ hb hda hdb he => eq_of_email ha hb hda hdb he
  subject := fun _ ha _ hb hda hdb _ hsa hsb => eq_of_subject ha hb hda hdb hsa hsb
  permanent := fun r hr hrp id s hb => bound_stays hr hrp hb
  answers := by
    intro i t a e s ht hreq hid ha
    obtain ⟨hg, -⟩ := remembered h
    have hreply : reply cfg t.req (logOf i p.trace) a := hg.answered (meets_handler cfg) ht ha
    cases a with
    | user caller =>
      obtain ⟨e', s', hid', hres⟩ := hreply
      rw [hid] at hid'
      cases hid'
      exact .inl ⟨caller, rfl, returned_of_resolvedTo h hres⟩
    | error status code detail =>
      obtain ⟨hun, hnone | htaken⟩ := hreply.2 hreq
      · rw [hid] at hnone
        cases hnone
      · exact .inr ⟨htaken, leftAlone_of_unwritten h hun⟩
    | serverError =>
      rcases hreply with hlost | ⟨-, htwice⟩
      · exact absurd hlost (not_lost h)
      · exact absurd (htwice hreq) (not_refusedTwice h ht hid)
    | _ =>
      have hno : t.req.isCurrentUser = false := hreply
      rw [hreq] at hno
      cases hno

end

/-! ## Two requests at once -/

local instance identityDatabase : Database := Sample.database

namespace Sample

/-- one record from before subjects were recorded -/
def table : Table User :=
  (Table.ofRows? [⟨1, "Grace@freepod.example", none, none, none⟩]).getD Table.empty

/-- a request with an address and a subject -/
def ask (email subject : String) : AccountEvent := .arrive (.currentUser (some email) (some subject))

def refused (c : Base.Call Ret) : Bool :=
  c.1.resolves && match c with
    | ⟨.update _ _, x⟩ => !x
    | ⟨.insertUser _ _, x⟩ => x.isNone
    | _ => true

def noDeletion (p : AccountPool) : AccountEvent → Bool
  | .run i _ =>
    match p.threads[i]? with
    | some ⟨_, .call (.update _ (.deletedAt _)) _⟩ => false
    | _ => true
  | _ => true

/-- the call binds the record to no other subject -/
def bindsTo (id : UserId) (s : String) : Base.Call Ret → Bool
  | ⟨.update id' (.keycloakSubject s'), true⟩ => decide (id' = id → s' = s)
  | _ => true

def adoptsAlone (p : AccountPool) : AccountEvent → Bool
  | .run i _ =>
    match p.threads[i]? with
    | some ⟨_, .call (.update id (.keycloakSubject s)) _⟩ =>
      (setColumn p.store id (.keycloakSubject s)).isNone ||
        (since i 0 p.trace).all fun en => bindsTo id s en.call
    | _ => true
  | _ => true

def retriesAlone (p : AccountPool) : AccountEvent → Bool
  | .run i _ =>
    match p.threads[i]? with
    | some ⟨req, .call o _⟩ =>
      !o.resolves || (logOf i p.trace).all (fun c => !refused c) ||
        match req.identity config with
        | some (e, some s) => decide (Database.lower e = e) && (since i 1 p.trace).all fun en =>
          decide (.email (Database.lower e) ∉ gives en.call ∧ .keycloakSubject s ∉ gives en.call)
        | _ => true
    | _ => true
  | _ => true

def unraced (p : AccountPool) (ev : AccountEvent) : Bool :=
  noDeletion p ev && adoptsAlone p ev && retriesAlone p ev

/-- request `i` was this one, and answered so -/
def answered (p : AccountPool) (i : Nat) (email subject : String) (a : Response) : Bool :=
  p.threads[i]?.any fun t =>
    decide (t.req = .currentUser (some email) (some subject) ∧ t.prog.answer? = some a)

/-- request `i` was answered with a record of this id -/
def found (p : AccountPool) (i : Nat) (id : UserId) : Bool :=
  p.threads[i]?.any fun t =>
    match t.prog.answer? with
    | some (.user ⟨k, some _⟩) => decide (k = id)
    | _ => false

/-- the record is bound to the subject -/
def boundTo (p : AccountPool) (id : UserId) (s : String) : Bool :=
  (p.store.get? id).any fun u => decide (u.keycloakSubject = some s)

end Sample

theorem Sample.no_deletion {p : AccountPool} {ev : AccountEvent} (h : Sample.noDeletion p ev = true) :
    NoDeletion p ev := by
  rintro i c req id time k rfl hth
  simp only [Sample.noDeletion, hth] at h
  cases h

theorem Sample.adopts_alone {p : AccountPool} {ev : AccountEvent}
    (h : Sample.adoptsAlone p ev = true) : AdoptsAlone p ev := by
  rintro i c req id s k rfl hth ⟨t, ht⟩ e he s' heq
  simp only [Sample.adoptsAlone, hth, ht, Option.isNone_some, Bool.false_or, List.all_eq_true] at h
  have hbinds := h e he
  rw [heq] at hbinds
  exact of_decide_eq_true hbinds rfl

theorem Sample.refused_of {c : Base.Call Ret} (h : Refused c) : Sample.refused c = true := by
  obtain ⟨hres, hun⟩ := h
  obtain ⟨o, x⟩ := c
  cases o with
  | update id column =>
    have hx : x = false := hun
    rw [hx]
    exact (Bool.and_true _).trans hres
  | insertUser email subject =>
    have hx : x = none := hun
    rw [hx]
    exact (Bool.and_true _).trans hres
  | _ => cases hres

theorem Sample.retries_alone {p : AccountPool} {ev : AccountEvent}
    (h : Sample.retriesAlone p ev = true) : RetriesAlone Sample.config p ev := by
  rintro i c req o k e s rfl hth hres ⟨c', hc', href⟩ hid
  simp only [Sample.retriesAlone, hth, hres, hid, Bool.not_true, Bool.false_or, Bool.or_eq_true,
    Bool.and_eq_true, List.all_eq_true, decide_eq_true_eq, Bool.not_eq_true'] at h
  rcases h with hnone | h
  · have hfalse := hnone c' hc'
    rw [Sample.refused_of href] at hfalse
    cases hfalse
  · exact h

theorem Sample.unraced_of {p : AccountPool} {ev : AccountEvent} (h : Sample.unraced p ev = true) :
    Unraced Sample.config p ev := by
  simp only [Sample.unraced, Bool.and_eq_true] at h
  exact ⟨Sample.no_deletion h.1.1, Sample.adopts_alone h.1.2, Sample.retries_alone h.2⟩

/-- a record is adopted, two first requests of one caller arrive together, and the operator creates an
account for a caller whose second attempt adopts it -/
theorem identity_resolution_together : ∃ p,
    (service Sample.config).machine.Reach (Unraced Sample.config) (Service.start Sample.table) p ∧
      (∃ t u, p.threads[2]? = some t ∧ t.prog.answer? = some (.user ⟨2, some u⟩)) ∧
      (∃ t, p.threads[3]? = some t ∧ t.prog.answer? = some (.user ⟨3, none⟩)) ∧
      IdentityHeld Sample.config (Unraced Sample.config) (Service.start Sample.table) p := by
  obtain ⟨p, h, -, hp⟩ := Machine.exists_reach_of_runIf (M := (service Sample.config).machine)
    (P := fun _ => True) (c := Sample.unraced) (fun _ _ _ _ _ _ => trivial)
    (fun _ _ _ h => Sample.unraced_of h) trivial
    (l := Sample.ask "grace@freepod.example" "g" :: Sample.runs 0 3 ++
      Sample.ask "Ada@freepod.example" "a" :: Sample.ask "Ada@freepod.example" "a" ::
      Sample.runs 1 2 ++ Sample.runs 2 2 ++ Sample.runs 1 2 ++ Sample.runs 2 2 ++
      Sample.ask "bob@freepod.example" "b" :: Sample.runs 3 2 ++
      .arrive (.createUser "bob@freepod.example") :: Sample.runs 4 2 ++ Sample.runs 3 4)
    (p := fun p => Sample.found p 2 2 &&
      Sample.answered p 3 "bob@freepod.example" "b" (.user ⟨3, none⟩))
    (s := Service.start Sample.table) (by decide +kernel)
  obtain ⟨htogether, hretried⟩ := (Bool.and_eq_true _ _).mp hp
  refine ⟨p, h, ?_, ?_, identity_resolution Sample.config h⟩
  · obtain ⟨t, ht, hans⟩ := (Option.any_eq_true _ _).mp htogether
    split at hans
    · rename_i k u ha
      rw [of_decide_eq_true hans] at ha
      exact ⟨t, u, ht, ha⟩
    · cases hans
  · obtain ⟨t, ht, hans⟩ := (Option.any_eq_true _ _).mp hretried
    exact ⟨t, ht, (of_decide_eq_true hans).2⟩

/-- without the two conditions neither holds: two requests adopt one record, the second for good;
and a request whose second attempt is overtaken as well is answered with neither -/
theorem rebound : (¬ ∀ [Database] (cfg : Config) (t0 : Table User) (p : AccountPool),
      (service cfg).machine.Reach NoDeletion (Service.start t0) p →
      IdentityHeld cfg NoDeletion (Service.start t0) p) ∧
    ¬ ∀ [Database] (cfg : Config) (t0 : Table User) (p : AccountPool),
      (service cfg).machine.Reach (fun p ev => NoDeletion p ev ∧ AdoptsAlone p ev)
        (Service.start t0) p →
      IdentityHeld cfg (fun p ev => NoDeletion p ev ∧ AdoptsAlone p ev) (Service.start t0) p := by
  constructor
  · intro hall
    obtain ⟨p, h, -, hp⟩ := Machine.exists_reach_of_runIf (M := (service Sample.config).machine)
      (P := fun _ => True) (c := Sample.noDeletion) (fun _ _ _ _ _ _ => trivial)
      (fun _ _ _ h => Sample.no_deletion h) trivial
      (l := Sample.ask "grace@freepod.example" "a" :: Sample.ask "grace@freepod.example" "b" ::
        Sample.runs 0 2 ++ Sample.runs 1 2 ++ Sample.runs 0 1 ++ Sample.runs 1 1)
      (p := fun p => Sample.answered p 0 "grace@freepod.example" "a" (.user ⟨1, none⟩) &&
        Sample.boundTo p 1 "b")
      (s := Service.start Sample.table) (by decide +kernel)
    obtain ⟨hans, hsub⟩ := (Bool.and_eq_true _ _).mp hp
    obtain ⟨t, ht, hans⟩ := (Option.any_eq_true _ _).mp hans
    obtain ⟨u, hu, hsub⟩ := (Option.any_eq_true _ _).mp hsub
    obtain ⟨hreq, hans⟩ := of_decide_eq_true hans
    rcases (hall Sample.config _ p h).answers 0 t _ "grace@freepod.example" "a" ht
      (by rw [hreq]; rfl) (by rw [hreq]; decide) hans with ⟨caller, heq, hret, -⟩ | ⟨heq, -⟩
    · cases heq
      obtain ⟨v, hv, hs⟩ := hret
      rw [hu] at hv
      obtain rfl := Option.some.inj hv
      rw [of_decide_eq_true hsub] at hs
      exact absurd hs (by decide)
    · cases heq
  · intro hall
    obtain ⟨p, h, -, hp⟩ := Machine.exists_reach_of_runIf (M := (service Sample.config).machine)
      (k := fun p ev => NoDeletion p ev ∧ AdoptsAlone p ev) (P := fun _ => True)
      (c := fun p ev => Sample.noDeletion p ev && Sample.adoptsAlone p ev)
      (fun _ _ _ _ _ _ => trivial)
      (fun _ _ _ h => ⟨Sample.no_deletion ((Bool.and_eq_true _ _).mp h).1,
        Sample.adopts_alone ((Bool.and_eq_true _ _).mp h).2⟩) trivial
      (l := Sample.ask "ada@freepod.example" "a" :: Sample.runs 0 2 ++
        Sample.ask "old@freepod.example" "a" :: Sample.runs 1 4 ++ Sample.runs 0 3 ++
        Sample.ask "ada@freepod.example" "c" :: Sample.runs 2 4 ++ Sample.runs 0 1)
      (p := fun p => Sample.answered p 0 "ada@freepod.example" "a" .serverError)
      (s := Service.start Sample.table) (by decide +kernel)
    obtain ⟨t, ht, hans⟩ := (Option.any_eq_true _ _).mp hp
    obtain ⟨hreq, hans⟩ := of_decide_eq_true hans
    rcases (hall Sample.config _ p h).answers 0 t _ "ada@freepod.example" "a" ht
      (by rw [hreq]; rfl) (by rw [hreq]; decide) hans with ⟨caller, heq, -⟩ | ⟨heq, -⟩
    · cases heq
    · cases heq

end Freepod.Accounts
