import Freepod.Accounts.Runs

/-!
# Handles

A handle is claimed once and never released, by the word of `claim_handle`.  What a claim checks it
reads before it writes, and the only index over handles leaves the deleted accounts out.

* `ClaimsAlone`: no other claim comes between a claim's reads and its commit.
* `stillUnclaimed`, `stillFree`: what it checked then still stands.
* `HoldsHandle.step`, `HandlesUnique.step`: what the commit of such a claim keeps.
* `handles_permanent`: the run-level result.  `handle_changed`: two claims by one account, and a
  claim for the handle of an account that is deleted meanwhile.
-/

namespace Freepod.Accounts
open Base

set_option linter.unusedSectionVars false

section
variable [Database] {cfg : Config} {t t' : Table User} {p q : AccountPool}

/-! ## The runs -/

/-- since a claim read the record that it is about to give a handle, the account was given no other -/
def OneClaim (p : AccountPool) (ev : AccountEvent) : Prop :=
  ∀ i c req id h k, ev = .run i c →
    p.threads[i]? = some ⟨req, .call (.update id (.handle h)) k⟩ →
    Fits p.store (.update id (.handle h)) →
    ∀ e ∈ since i 1 p.trace, ∀ h', e.call = ⟨.update id (.handle h'), true⟩ → h' = h

/-- since it found the handle free, no other account was given it -/
def OneClaimant (p : AccountPool) (ev : AccountEvent) : Prop :=
  ∀ i c req id h k, ev = .run i c →
    p.threads[i]? = some ⟨req, .call (.update id (.handle h)) k⟩ →
    Fits p.store (.update id (.handle h)) →
    ∀ e ∈ since i 0 p.trace, ∀ id' h', e.call = ⟨.update id' (.handle h'), true⟩ → id' ≠ id →
      Database.lower h' ≠ Database.lower h

/-- no other claim comes between a claim's reads and a commit of it that violates no index -/
def ClaimsAlone (p : AccountPool) (ev : AccountEvent) : Prop :=
  OneClaim p ev ∧ OneClaimant p ev

/-! ## One call -/

/-- the call overwrites no handle, and takes none -/
def Keeper (t : Table User) (c : Base.Call Ret) : Prop :=
  match c with
  | ⟨.update id (.handle h), true⟩ =>
    (∀ u, t.get? id = some u → u.handle = none ∨ u.handle = some h) ∧
      ∀ v y, t.get? v.id = some v → v.id ≠ id → v.handle = some y →
        Database.lower y ≠ Database.lower h
  | _ => True

/-- no two accounts, live or deleted, hold one handle, ignoring case -/
def HandlesUnique (t : Table User) : Prop :=
  ∀ id id' x y, HoldsHandle t id x → HoldsHandle t id' y → Database.lower x = Database.lower y →
    id = id'

section
variable {c : Base.Call Ret} {id : UserId} {h : String} (hd : Does t c t')
include hd

theorem HoldsHandle.step (hk : Keeper t c) (hh : HoldsHandle t id h) : HoldsHandle t' id h := by
  obtain ⟨u, hu, hx⟩ := hh
  rcases hd.get? hu with hu' | ⟨column, rfl, hu'⟩
  · exact ⟨u, hu', hx⟩
  · refine ⟨_, hu', ?_⟩
    cases column with
    | handle h' =>
      rcases hk.1 u hu with hn | hs
      · rw [hn] at hx
        cases hx
      · exact hs.symm.trans hx
    | _ => exact hx

/-- a handle was held before, or the call has given it -/
theorem HoldsHandle.origin (hh : HoldsHandle t' id h) :
    HoldsHandle t id h ∨ c = ⟨.update id (.handle h), true⟩ := by
  obtain ⟨v, hv, hx⟩ := hh
  obtain ⟨u, hu⟩ | ⟨e, s, -, rfl⟩ := hd.origin hv
  · rcases hd.get? hu with hu' | ⟨column, rfl, hu'⟩
    · rw [hv] at hu'
      obtain rfl := Option.some.inj hu'
      exact .inl ⟨v, hu, hx⟩
    · rw [hv] at hu'
      obtain rfl := Option.some.inj hu'
      cases column with
      | handle h' =>
        have hx : some h' = some h := hx
        exact .inr (by rw [Option.some.inj hx])
      | _ => exact .inl ⟨u, hu, hx⟩
  · cases hx

/-- the account that has just been given a handle is the only one to hold it -/
theorem only_holder (hk : Keeper t c) (hc : c = ⟨.update id (.handle h), true⟩) {id' : UserId}
    {y : String} (hy : HoldsHandle t id' y) (he : Database.lower y = Database.lower h) : id' = id := by
  by_contra hne
  subst hc
  obtain ⟨v, hv, hvy⟩ := hy
  have hid : v.id = id' := Table.key_of_get? hv
  subst hid
  exact hk.2 v y hv hne hvy he

/-- **handles stay unique** -/
theorem HandlesUnique.step (hk : Keeper t c) (hu : HandlesUnique t) : HandlesUnique t' := by
  intro id id' x y hx hy he
  rcases hx.origin hd with hx | hcx
  · rcases hy.origin hd with hy | hcy
    · exact hu id id' x y hx hy he
    · exact only_holder hd hk hcy hx he
  · rcases hy.origin hd with hy | hcy
    · exact (only_holder hd hk hcx hy he.symm).symm
    · rw [hcx] at hcy
      cases hcy
      rfl

end

/-! ## What a claim checked -/

/-- an account that is about to be given a handle holds none, or that one -/
def StillUnclaimed (p : AccountPool) (ev : AccountEvent) : Prop :=
  ∀ i c req id h k, ev = .run i c →
    p.threads[i]? = some ⟨req, .call (.update id (.handle h)) k⟩ →
    Fits p.store (.update id (.handle h)) →
    ∀ u, p.store.get? id = some u → u.handle = none ∨ u.handle = some h

/-- and no other account holds it -/
def StillFree (p : AccountPool) (ev : AccountEvent) : Prop :=
  ∀ i c req id h k, ev = .run i c →
    p.threads[i]? = some ⟨req, .call (.update id (.handle h)) k⟩ →
    Fits p.store (.update id (.handle h)) →
    ∀ v y, p.store.get? v.id = some v → v.id ≠ id → v.handle = some y →
      Database.lower y ≠ Database.lower h

/-- every claim still stands when it is committed -/
def ClaimsStand (p : AccountPool) (ev : AccountEvent) : Prop :=
  StillUnclaimed p ev ∧ StillFree p ev

/-- the record that a statement read is the account's -/
theorem get?_of_readsRow {o : Op} {x : Ret o} {clock : Time} {u : User}
    (hp : perform t o clock = some (x, t')) (hr : ReadsRow u ⟨o, x⟩) : t'.get? u.id = some u := by
  cases o with
  | bySubject s =>
    obtain ⟨hu, -⟩ := of_bySubject hp hr
    cases hp
    exact hu
  | byEmail e =>
    obtain ⟨hu, -⟩ := of_byEmail hp hr
    cases hp
    exact hu
  | load id =>
    obtain ⟨rfl, rfl⟩ := Prod.mk.inj (Option.some.inj hp)
    have hu : t.get? id = some u := hr
    rwa [show u.id = id from Table.key_of_get? hu]
  | _ => exact hr.elim

/-- the account holds no handle, or this one -/
def Unclaimed (id : UserId) (h : String) (t : Table User) : Prop :=
  ∀ u, t.get? id = some u → u.handle = none ∨ u.handle = some h

theorem Unclaimed.step {c : Base.Call Ret} {id : UserId} {h : String} (hd : Does t c t')
    (hu : Unclaimed id h t) (hc : ∀ h', c = ⟨.update id (.handle h'), true⟩ → h' = h) :
    Unclaimed id h t' := by
  intro v hv
  obtain ⟨u, hget⟩ | ⟨e, s, -, rfl⟩ := hd.origin hv
  · rcases hd.get? hget with hget' | ⟨column, rfl, hget'⟩
    · rw [hv] at hget'
      exact Option.some.inj hget' ▸ hu u hget
    · rw [hv] at hget'
      obtain rfl := Option.some.inj hget'
      cases column with
      | handle h' => exact .inr (congrArg some (hc h' rfl))
      | _ => exact hu u hget
  · exact .inl rfl

/-- no other account holds the handle -/
def Free (id : UserId) (h : String) (t : Table User) : Prop :=
  ∀ v y, t.get? v.id = some v → v.id ≠ id → v.handle = some y →
    Database.lower y ≠ Database.lower h

theorem Free.step {c : Base.Call Ret} {id : UserId} {h : String} (hd : Does t c t')
    (hf : Free id h t) (hc : ∀ id' h', c = ⟨.update id' (.handle h'), true⟩ → id' ≠ id →
      Database.lower h' ≠ Database.lower h) : Free id h t' := by
  intro v y hv hne hy
  rcases HoldsHandle.origin hd ⟨v, hv, hy⟩ with ⟨u, hu, huy⟩ | heq
  · have hid : u.id = v.id := Table.key_of_get? hu
    exact hf u y (hid.symm ▸ hu) (hid.symm ▸ hne) huy
  · exact hc v.id y heq hne

section
variable {ok : Condition} {t0 : Table User}
  (hr : (service cfg).machine.Reach ok (Service.start t0) p) {ev : AccountEvent}
include hr

/-- **a claim's account is still without another handle**, as when its record was read -/
theorem stillUnclaimed (hone : OneClaim p ev) : StillUnclaimed p ev := by
  intro i c req id h k hrun hth hfit
  obtain ⟨-, -, u, older, hlog, ⟨⟨o, x⟩, oldest, rfl, hread⟩, rfl, hnone⟩ :=
    ((hr.grounded (.start t0)).next (meets_handler cfg) hth :
      deed cfg req (logOf i p.trace) (.update id (.handle h)))
  refine hr.kept_since (P := Unclaimed u.id h) (l := [⟨.handleHeld h, false⟩]) hlog ?_ ?_ ?_
  · intro r c' s _ hp v hv
    rw [get?_of_readsRow hp hread] at hv
    exact .inl (Option.some.inj hv ▸ hnone)
  · exact fun _ w _ _ _ _ _ => nomatch w
  · intro r j c' req' o' k' x' s _ he _ _ hp hu
    exact hu.step (does_of_perform hp) (hone i c req u.id h k hrun hth hfit _ he)

/-- **its handle is still free**, as when it was looked up -/
theorem stillFree (hlower : ∀ h, isHandle h.toList = true → Database.lower h = h)
    (hone : OneClaimant p ev) : StillFree p ev := by
  intro i c req id h k hrun hth hfit
  obtain ⟨hlegal, -, u, older, hlog, -⟩ :=
    ((hr.grounded (.start t0)).next (meets_handler cfg) hth :
      deed cfg req (logOf i p.trace) (.update id (.handle h)))
  refine hr.kept_since (P := Free id h) (l := []) hlog ?_ ?_ ?_
  · intro r c' s _ hp v y hv _ hy heq
    have hheld : perform r.store (.handleHeld h) c' = some (false, s) := hp
    obtain ⟨hnone, rfl⟩ := Prod.mk.inj (Option.some.inj hheld)
    rw [List.any_eq_false] at hnone
    refine hnone v (Table.mem_of_get? hv) (decide_eq_true ?_)
    rw [hy, Option.map_some, heq, hlower h hlegal]
  · exact fun _ w _ _ _ _ _ => nomatch w
  · intro r j c' req' o' k' x' s _ he _ _ hp hf
    exact hf.step (does_of_perform hp) (hone i c req id h k hrun hth hfit _ he)

end

/-! ## Runs -/

theorem keeper_of_claimsStand {i : Nat} {c : Time} {req : Request} {o : Op}
    {k : Ret o → Handler Response} (hok : ClaimsStand p (.run i c))
    (hth : p.threads[i]? = some ⟨req, .call o k⟩) {x : Ret o}
    (hp : perform p.store o c = some (x, t)) : Keeper p.store ⟨o, x⟩ := by
  cases o with
  | update id column =>
    cases column with
    | handle h =>
      cases x with
      | true =>
        exact ⟨hok.1 i c req id h k rfl hth (fits_of_update hp),
          hok.2 i c req id h k rfl hth (fits_of_update hp)⟩
      | false => trivial
    | _ => trivial
  | _ => trivial

/-- **a handle is held for good** -/
theorem handle_stays {id : UserId} {h : String}
    (hr : (service cfg).machine.Reach ClaimsStand p q) (hh : HoldsHandle p.store id h) :
    HoldsHandle q.store id h := by
  refine hr.invariant (P := fun q => HoldsHandle q.store id h) hh fun p a q hh hok hstep => ?_
  rcases does_of_step hstep with heq | ⟨i, c, req, o, k, x, rfl, hth, hp⟩
  · exact heq ▸ hh
  · exact hh.step (does_of_perform hp) (keeper_of_claimsStand hok hth hp)

theorem unique_stays (hr : (service cfg).machine.Reach ClaimsStand p q)
    (hu : HandlesUnique p.store) : HandlesUnique q.store := by
  refine hr.invariant (P := fun q => HandlesUnique q.store) hu fun p a q hu hok hstep => ?_
  rcases does_of_step hstep with heq | ⟨i, c, req, o, k, x, rfl, hth, hp⟩
  · exact heq ▸ hu
  · exact hu.step (does_of_perform hp) (keeper_of_claimsStand hok hth hp)

/-! ## Refusals -/

/-- is the request a claim? -/
def Request.claims : Request → Bool
  | .claimMyHandle _ _ _ _ => true
  | .claimHandle _ _ => true
  | _ => false

def Response.refuses : Response → Bool
  | .error _ _ _ => true
  | .serverError => true
  | _ => false

/-- no step of the request wrote anything, except to find out who is asking -/
def StoredNothing (cfg : Config) (ok : Condition) (p0 p : AccountPool) (i : Nat) (req : Request) :
    Prop :=
  ∀ r c r', (service cfg).machine.Reach ok p0 r → (service cfg).step r (.run i c) = some r' →
    (service cfg).machine.Reach ok r' p → r'.store = r.store ∨
      (req.identity cfg ≠ none ∧ ∃ o k, r.threads[i]? = some ⟨req, .call o k⟩ ∧ o.resolves = true)

/-- **a refused claim stores nothing** -/
theorem storedNothing_of_refused {ok : Condition} {t0 : Table User} {i : Nat}
    {th : Thread Ret Request Response} {a : Response}
    (h : (service cfg).machine.Reach ok (Service.start t0) p) (ht : p.threads[i]? = some th)
    (hclaim : th.req.claims = true) (ha : th.prog.answer? = some a) (href : a.refuses = true) :
    StoredNothing cfg ok (Service.start t0) p i th.req := by
  have hreply : reply cfg th.req (logOf i p.trace) a :=
    (h.grounded (.start t0)).answered (meets_handler cfg) ht ha
  have hno : NoHandle (logOf i p.trace) := by
    cases a with
    | error status code detail => exact hreply.1
    | serverError =>
      rcases hreply with hlost | ⟨hno, -⟩
      · exact absurd hlost (not_lost h)
      · exact hno
    | _ => cases href
  intro r c r' hr hstep hafter
  obtain ⟨req, o, k, x, hth, hd, hm, th', ht', hreq⟩ := call_of_step hstep hafter
  rw [ht] at ht'
  obtain rfl := Option.some.inj ht'
  have hdeed : deed cfg req (logOf i r.trace) o :=
    (hr.grounded (.start t0)).next (meets_handler cfg) hth
  rw [← hreq] at hdeed
  rw [← hreq] at hth
  generalize hs : r'.store = t1 at hd
  cases hd with
  | nothing _ => exact .inl rfl
  | @updates id column u _ hu hput =>
    cases column with
    | email e =>
      obtain ⟨s, v, older, hid, -⟩ := hdeed
      exact .inr ⟨by rw [hid]; exact Option.some_ne_none _, _, k, hth, rfl⟩
    | keycloakSubject s =>
      obtain ⟨e, v, older, hid, -⟩ := hdeed
      exact .inr ⟨by rw [hid]; exact Option.some_ne_none _, _, k, hth, rfl⟩
    | handle v => exact absurd hm (hno id v)
    | deletedAt d =>
      obtain ⟨id', hdel⟩ := hdeed
      rw [hdel] at hclaim
      cases hclaim
  | @inserts e s _ hins =>
    rcases hdeed with ⟨hid, -⟩ | hcreate
    · exact .inr ⟨by rw [hid]; exact Option.some_ne_none _, _, k, hth, rfl⟩
    · rw [hcreate] at hclaim
      cases hclaim

/-! ## The claim -/

/-- what is promised of handles in a run from `p0` to `p` -/
structure HandlesHeld (cfg : Config) (ok : Condition) (p0 p : AccountPool) : Prop where
  permanent : ∀ r, (service cfg).machine.Reach ok p0 r → (service cfg).machine.Reach ok r p →
    ∀ id h, HoldsHandle r.store id h → HoldsHandle p.store id h
  unique : HandlesUnique p.store
  refused : ∀ (i : Nat) t a, p.threads[i]? = some t → t.req.claims = true →
    t.prog.answer? = some a → a.refuses = true → StoredNothing cfg ok p0 p i t.req

/-- **handles are permanent and never reused**, in every run in which no other claim of the account or
of the handle comes between a claim's reads and its commit -/
theorem handles_permanent (cfg : Config) (hlower : ∀ h, isHandle h.toList = true →
    Database.lower h = h) {t0 : Table User} (h0 : HandlesUnique t0) {p : AccountPool}
    (h : (service cfg).machine.Reach ClaimsAlone (Service.start t0) p) :
    HandlesHeld cfg ClaimsAlone (Service.start t0) p := by
  -- what a claim checked still stands at its commit, in every state of the run
  have hstands : ∀ {p q}, (service cfg).machine.Reach ClaimsAlone (Service.start t0) p →
      (service cfg).machine.Reach ClaimsAlone p q → (service cfg).machine.Reach ClaimsStand p q :=
    fun hp hq => hq.strengthen hp (fun _ _ _ hr hok hs => hr.tail hok hs)
      fun _ _ hr hok => ⟨stillUnclaimed hr hok.1, stillFree hr hlower hok.2⟩
  exact
    { permanent := fun _ hr hrp _ _ hh => handle_stays (hstands hr hrp) hh
      unique := unique_stays (hstands .refl h) h0
      refused := fun _ _ _ ht hclaim ha href => storedNothing_of_refused h ht hclaim ha href }

end

/-! ## Two claims at once -/

local instance handleDatabase : Database := Sample.database

namespace Sample

/-- two accounts without a handle -/
def accounts : Table User :=
  (Table.ofRows? [⟨1, "ada@freepod.example", some "a", none, none⟩,
    ⟨2, "bob@freepod.example", some "b", none, none⟩]).getD Table.empty

def claim (id : UserId) (handle : String) : AccountEvent := .arrive (.claimHandle id handle)

/-- the account is not given another handle by the call -/
def keepsTo (id : UserId) (h : String) : Base.Call Ret → Bool
  | ⟨.update id' (.handle h'), true⟩ => decide (id' = id → h' = h)
  | _ => true

/-- the handle is not given to another account by the call -/
def leaves (id : UserId) (h : String) : Base.Call Ret → Bool
  | ⟨.update id' (.handle h'), true⟩ => decide (id' ≠ id → Database.lower h' ≠ Database.lower h)
  | _ => true

def oneClaim (p : AccountPool) : AccountEvent → Bool
  | .run i _ =>
    match p.threads[i]? with
    | some ⟨_, .call (.update id (.handle h)) _⟩ =>
      (setColumn p.store id (.handle h)).isNone || (since i 1 p.trace).all fun e => keepsTo id h e.call
    | _ => true
  | _ => true

def oneClaimant (p : AccountPool) : AccountEvent → Bool
  | .run i _ =>
    match p.threads[i]? with
    | some ⟨_, .call (.update id (.handle h)) _⟩ =>
      (setColumn p.store id (.handle h)).isNone || (since i 0 p.trace).all fun e => leaves id h e.call
    | _ => true
  | _ => true

def claimsAlone (p : AccountPool) (ev : AccountEvent) : Bool := oneClaim p ev && oneClaimant p ev

/-- the last call of request `i` gave account `id` the handle -/
def gave (p : AccountPool) (i : Nat) (id : UserId) (h : String) : Bool :=
  match logOf i p.trace with
  | ⟨.update id' (.handle h'), true⟩ :: _ => decide (id' = id ∧ h' = h)
  | _ => false

def taken (p : AccountPool) (i : Nat) : Bool :=
  p.threads[i]?.any fun t => decide (t.prog.answer? = some handleTaken)

def holds (p : AccountPool) (id : UserId) (h : String) : Bool :=
  (p.store.get? id).any fun u => decide (u.handle = some h)

end Sample

theorem Sample.one_claim {p : AccountPool} {ev : AccountEvent} (h : Sample.oneClaim p ev = true) :
    OneClaim p ev := by
  rintro i c req id a k rfl hth ⟨t, ht⟩ e he a' heq
  simp only [Sample.oneClaim, hth, ht, Option.isNone_some, Bool.false_or, List.all_eq_true] at h
  have hkeeps := h e he
  rw [heq] at hkeeps
  exact of_decide_eq_true hkeeps rfl

theorem Sample.one_claimant {p : AccountPool} {ev : AccountEvent}
    (h : Sample.oneClaimant p ev = true) : OneClaimant p ev := by
  rintro i c req id a k rfl hth ⟨t, ht⟩ e he id' a' heq
  simp only [Sample.oneClaimant, hth, ht, Option.isNone_some, Bool.false_or, List.all_eq_true] at h
  have hleaves := h e he
  rw [heq] at hleaves
  exact of_decide_eq_true hleaves

theorem Sample.lower_handle (h : String) (hlegal : isHandle h.toList = true) :
    Sample.lower h = h := by
  simp only [isHandle, Bool.and_eq_true, List.all_eq_true] at hlegal
  have hchar : ∀ c ∈ h.toList, c.toLower = c := by
    intro c hc
    obtain hc | rfl := mem_dropNewline hc
    · exact toLower_of_isLowerAlnum (hlegal.2 c hc)
    · rfl
  unfold Sample.lower
  rw [List.map_congr_left hchar, List.map_id', String.ofList_toList]

theorem Sample.holds_handle {p : AccountPool} {id : UserId} {h : String}
    (hp : Sample.holds p id h = true) : HoldsHandle p.store id h := by
  obtain ⟨u, hu, hh⟩ := (Option.any_eq_true _ _).mp hp
  exact ⟨u, hu, of_decide_eq_true hh⟩

theorem Sample.accounts_unique : HandlesUnique Sample.accounts := by
  rintro id id' x y ⟨u, hu, hx⟩ -
  have hall : (Sample.accounts.rows.all fun u => decide (u.handle = none)) = true := by
    decide +kernel
  have hnone := of_decide_eq_true (List.all_eq_true.mp hall u (Table.mem_of_get? hu))
  rw [hx] at hnone
  cases hnone

/-- two accounts are told that one handle is free, and the second is refused -/
theorem handles_permanent_raced : ∃ p,
    (service Sample.config).machine.Reach ClaimsAlone (Service.start Sample.accounts) p ∧
      (∃ t, p.threads[1]? = some t ∧ t.prog.answer? = some handleTaken) ∧
      HandlesHeld Sample.config ClaimsAlone (Service.start Sample.accounts) p := by
  obtain ⟨p, h, -, hp⟩ := Machine.exists_reach_of_runIf (M := (service Sample.config).machine)
    (k := ClaimsAlone) (P := fun _ => True) (c := Sample.claimsAlone) (fun _ _ _ _ _ _ => trivial)
    (fun _ _ _ h => ⟨Sample.one_claim ((Bool.and_eq_true _ _).mp h).1,
      Sample.one_claimant ((Bool.and_eq_true _ _).mp h).2⟩) trivial
    (l := Sample.claim 1 "Ada" :: Sample.claim 2 "ada" :: Sample.runs 0 2 ++ Sample.runs 1 2 ++
      Sample.runs 0 2 ++ Sample.runs 1 1)
    (p := fun p => Sample.taken p 1)
    (s := Service.start Sample.accounts) (by decide +kernel)
  obtain ⟨t, ht, hans⟩ := (Option.any_eq_true _ _).mp hp
  exact ⟨p, h, ⟨t, ht, of_decide_eq_true hans⟩,
    handles_permanent Sample.config Sample.lower_handle Sample.accounts_unique h⟩

/-- an account that claims twice at once holds the second handle in the end; and where that is ruled
out, the handle of an account that is deleted goes to one that had asked for it before -/
theorem handle_changed : (¬ ∀ [Database] (cfg : Config) (t0 : Table User) (p : AccountPool),
      (∀ h, isHandle h.toList = true → Database.lower h = h) → HandlesUnique t0 →
      (service cfg).machine.Reach (fun _ _ => True) (Service.start t0) p →
      HandlesHeld cfg (fun _ _ => True) (Service.start t0) p) ∧
    ¬ ∀ [Database] (cfg : Config) (t0 : Table User) (p : AccountPool),
      (∀ h, isHandle h.toList = true → Database.lower h = h) → HandlesUnique t0 →
      (service cfg).machine.Reach OneClaim (Service.start t0) p →
      HandlesHeld cfg OneClaim (Service.start t0) p := by
  constructor
  · intro hall
    obtain ⟨p, h, hp⟩ := Machine.exists_reach_of_run (M := (service Sample.config).machine)
      (l := Sample.claim 1 "ada" :: Sample.claim 1 "lovelace" :: Sample.runs 0 2 ++
        Sample.runs 1 2 ++ Sample.runs 0 1 ++ Sample.runs 1 1)
      (p := fun p => Sample.gave p 0 1 "ada" && Sample.holds p 1 "lovelace")
      (s := Service.start Sample.accounts) (by decide +kernel)
    obtain ⟨hgave, hholds⟩ := (Bool.and_eq_true _ _).mp hp
    unfold Sample.gave at hgave
    split at hgave
    · rename_i id a log hlog
      obtain ⟨rfl, rfl⟩ := of_decide_eq_true hgave
      obtain ⟨r, p', c, req, k, hr, -, -, -, hperf, -, hrp, hafter⟩ := last_call h hlog
      have hheld : HoldsHandle p'.store 1 "ada" := by
        generalize p'.store = t' at hperf
        cases does_of_perform hperf with
        | nothing hq => cases hq
        | updates hu ht => exact ⟨_, get?_of_update hu ht, rfl⟩
      obtain ⟨u, hu, hh⟩ :=
        (hall Sample.config _ p Sample.lower_handle Sample.accounts_unique h).permanent p'
          (hr.trans hrp) hafter 1 "ada" hheld
      obtain ⟨v, hv, hh'⟩ := Sample.holds_handle hholds
      rw [hu] at hv
      obtain rfl := Option.some.inj hv
      rw [hh] at hh'
      exact absurd hh' (by decide)
    · cases hgave
  · intro hall
    obtain ⟨p, h, -, hp⟩ := Machine.exists_reach_of_runIf (M := (service Sample.config).machine)
      (k := OneClaim) (P := fun _ => True) (c := Sample.oneClaim)
      (fun _ _ _ _ _ _ => trivial) (fun _ _ _ h => Sample.one_claim h) trivial
      (l := Sample.claim 1 "ada" :: Sample.claim 2 "ada" :: Sample.runs 0 2 ++ Sample.runs 1 2 ++
        Sample.runs 0 2 ++ .arrive (.deleteUser 1) :: Sample.runs 2 4 ++ Sample.runs 1 1)
      (p := fun p => Sample.holds p 1 "ada" && Sample.holds p 2 "ada")
      (s := Service.start Sample.accounts) (by decide +kernel)
    obtain ⟨h1, h2⟩ := (Bool.and_eq_true _ _).mp hp
    have heq :=
      (hall Sample.config _ p Sample.lower_handle Sample.accounts_unique h).unique 1 2 "ada" "ada"
        (Sample.holds_handle h1) (Sample.holds_handle h2) rfl
    cases heq

end Freepod.Accounts
