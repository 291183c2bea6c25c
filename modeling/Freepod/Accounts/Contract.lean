import Freepod.Accounts.Requests

/-!
# Accounts: what a request knows

A request knows the answers to its own statements only, and by the time it writes they may be old.

* `deed`: what its log holds whenever it writes.
* `ResolvedTo`: the ways in which a caller was found.
* `reply`: what its log holds when it answers.  An account's request that is refused has written
  nothing, and a claim that is refused has written no handle.
* `meets_handler`: every request keeps to `deed` and `reply`, whatever its statements answer.
-/

set_option linter.unusedSectionVars false

namespace Freepod.Accounts
open Base

variable [Database] (cfg : Config)

/-- the statements with which `_resolve_user` writes -/
def Op.resolves : Op → Bool
  | .update _ (.email _) => true
  | .update _ (.keycloakSubject _) => true
  | .insertUser _ _ => true
  | _ => false

/-- a write that violated an index -/
def Refused (c : Base.Call Ret) : Prop := c.1.resolves = true ∧ Unwritten c

/-- no handle was written -/
def NoHandle (log : Log Ret) : Prop := ∀ id h, ¬ Made log (.update id (.handle h)) true

/-- two writes violated an index, the second of them just now -/
def RefusedTwice (log : Log Ret) : Prop :=
  ∃ c older, log = c :: older ∧ Refused c ∧ ∃ c' ∈ older, Refused c'

/-- a record that was written is not there any more -/
def Lost (log : Log Ret) : Prop :=
  ∃ id older, log = ⟨.load id, none⟩ :: older ∧
    ((∃ c, Made older (.update id c) true) ∨ ∃ e s, Made older (.insertUser e s) (some id))

/-- whom a request is from: its address and its subject -/
def Request.identity : Request → Option (String × Option String)
  | .currentUser email subject => Accounts.identity cfg email subject
  | .claimMyHandle email subject _ _ => Accounts.identity cfg email subject
  | _ => none

/-- is the request's answer the caller's record? -/
def Request.isCurrentUser : Request → Bool
  | .currentUser _ _ => true
  | _ => false

/-- **the ways to a caller's record**, each with the statements that end it -/
inductive ResolvedTo (e : String) : Option String → Log Ret → Caller → Prop where
  | bound {s : String} {u : User} {older : Log Ret} (h : cfg.lower u.email = e) :
      ResolvedTo e (some s) (⟨.bySubject s, some u⟩ :: older) ⟨u.id, some u⟩
  | renamed {s : String} {u : User} {older : Log Ret} :
      ResolvedTo e (some s) (⟨.update u.id (.email e), true⟩ :: ⟨.byEmail e, none⟩ ::
        ⟨.bySubject s, some u⟩ :: older) ⟨u.id, none⟩
  | adopted {s : String} {u : User} {older : Log Ret} (h : u.keycloakSubject = none) :
      ResolvedTo e (some s) (⟨.update u.id (.keycloakSubject s), true⟩ :: ⟨.byEmail e, some u⟩ ::
        ⟨.bySubject s, none⟩ :: older) ⟨u.id, none⟩
  | created {s : Option String} {id : UserId} {u : User} {older : Log Ret} :
      ResolvedTo e s (⟨.load id, some u⟩ :: ⟨.insertUser e s, some id⟩ :: older) ⟨id, some u⟩
  | found {u : User} {older : Log Ret} :
      ResolvedTo e none (⟨.byEmail e, some u⟩ :: older) ⟨u.id, some u⟩

/-- the call read this record -/
def ReadsRow (u : User) : Base.Call Ret → Prop
  | ⟨.bySubject _, x⟩ => x = some u
  | ⟨.byEmail _, x⟩ => x = some u
  | ⟨.load _, x⟩ => x = some u
  | _ => False

/-- the record was read just now -/
def HasRead (u : User) (log : Log Ret) : Prop := ∃ c older, log = c :: older ∧ ReadsRow u c

/-- what a request's log holds when it writes -/
def deed (req : Request) (log : Log Ret) : Op → Prop
  | .update id (.email e) => ∃ s u older, req.identity cfg = some (e, some s) ∧
      log = ⟨.byEmail e, none⟩ :: ⟨.bySubject s, some u⟩ :: older ∧ u.id = id
  | .update id (.keycloakSubject s) => ∃ e u older, req.identity cfg = some (e, some s) ∧
      log = ⟨.byEmail e, some u⟩ :: ⟨.bySubject s, none⟩ :: older ∧ u.id = id ∧
      u.keycloakSubject = none
  | .update id (.handle h) => isHandle h.toList = true ∧ h ∉ cfg.reservedHandles ∧
      ∃ u older, log = ⟨.handleHeld h, false⟩ :: older ∧ HasRead u older ∧ u.id = id ∧
        u.handle = none
  | .update _ (.deletedAt _) => ∃ id, req = .deleteUser id
  | .insertUser e s => (req.identity cfg = some (e, s) ∧ ∃ older, log = ⟨.byEmail e, none⟩ :: older ∧
      ∀ s', s = some s' → ∃ oldest, older = ⟨.bySubject s', none⟩ :: oldest) ∨ req = .createUser e
  | _ => True

/-- what its log holds when it answers -/
def reply (req : Request) (log : Log Ret) : Response → Prop
  | .user caller => ∃ e s, req.identity cfg = some (e, s) ∧ ResolvedTo cfg e s log caller
  | .error status code detail => NoHandle log ∧ (req.isCurrentUser = true →
      (∀ c ∈ log, Unwritten c) ∧
        (req.identity cfg = none ∨ Response.error status code detail = addressTaken))
  | .serverError => Lost log ∨ (NoHandle log ∧ (req.isCurrentUser = true → RefusedTwice log))
  | _ => req.isCurrentUser = false

def contract (req : Request) : Contract Ret Response := ⟨deed cfg req, reply cfg req⟩

variable {cfg} {req : Request} {log : Log Ret}

/-! ## Logs that wrote nothing -/

theorem noHandle_of_unwritten (h : ∀ c ∈ log, Unwritten c) : NoHandle log := by
  intro id v hm
  have hu : Unwritten (⟨.update id (.handle v), true⟩ : Base.Call Ret) := h _ hm
  cases hu

theorem NoHandle.cons {c : Base.Call Ret} (h : NoHandle log)
    (hc : ∀ id v, c ≠ ⟨.update id (.handle v), true⟩) : NoHandle (c :: log) := by
  intro id v hm
  rcases List.mem_cons.mp hm with heq | hm
  · exact hc id v heq.symm
  · exact h id v hm

theorem unwritten_cons {c : Base.Call Ret} (h : ∀ c ∈ log, Unwritten c) (hc : Unwritten c) :
    ∀ c' ∈ c :: log, Unwritten c' := by
  intro c' hm
  rcases List.mem_cons.mp hm with rfl | hm
  · exact hc
  · exact h c' hm

/-! ## The ladder -/

/-- what is known once the ladder was climbed, from a log in which nothing was written -/
structure Climbed (cfg : Config) (e : String) (s : Option String) (log0 log : Log Ret)
    (r : Option Caller) : Prop where
  noHandle : NoHandle log
  caller : ∀ caller, r = some caller → ResolvedTo cfg e s log caller
  refused : r = none → ∃ c older, log = c :: older ∧ Refused c ∧ log0 <:+ older
  unwritten : r = none → ∀ c ∈ log, Unwritten c

section
variable {e : String} {s : Option String} {log0 : Log Ret}

theorem Climbed.of_caller {caller : Caller} (h : NoHandle log)
    (hc : ResolvedTo cfg e s log caller) : Climbed cfg e s log0 log (some caller) where
  noHandle := h
  caller := by
    rintro _ ⟨⟩
    exact hc
  refused := fun h => nomatch h
  unwritten := fun h => nomatch h

theorem Climbed.of_refused {c : Base.Call Ret} (h : ∀ c ∈ log, Unwritten c) (hc : Refused c)
    (hl : log0 <:+ log) : Climbed cfg e s log0 (c :: log) none where
  noHandle := noHandle_of_unwritten (unwritten_cons h hc.2)
  caller := fun _ h => nomatch h
  refused := fun _ => ⟨c, log, rfl, hc, hl⟩
  unwritten := fun _ => unwritten_cons h hc.2

/-- a conflict keeps the contract while nothing was written -/
theorem addressTaken_of_unwritten (h : ∀ c ∈ log, Unwritten c) :
    (contract cfg req).answer log addressTaken :=
  ⟨noHandle_of_unwritten h, fun _ => ⟨h, .inr rfl⟩⟩

theorem meets_followSubject {s : String} {u : User} {older : Log Ret}
    (hid : req.identity cfg = some (e, some s)) (hlog : log = ⟨.bySubject s, some u⟩ :: older)
    (h : ∀ c ∈ log, Unwritten c) (h0 : log0 <:+ log) :
    Meets (contract cfg req) (Climbed cfg e (some s) log0) log (followSubject cfg e u) := by
  unfold followSubject
  by_cases hemail : cfg.lower u.email ≠ e
  · rw [if_pos hemail]
    refine Meets.ask trivial fun x => ?_
    cases x with
    | some v =>
      exact addressTaken_of_unwritten (unwritten_cons (c := ⟨.byEmail e, some v⟩) h trivial)
    | none =>
      refine Meets.ask ⟨s, u, older, hid, hlog ▸ rfl, rfl⟩ fun x => ?_
      have h' := unwritten_cons (c := ⟨.byEmail e, none⟩) h trivial
      cases x with
      | true =>
        refine .of_caller ((noHandle_of_unwritten h').cons ?_) (hlog ▸ .renamed)
        intro id v hc
        cases hc
      | false => exact .of_refused h' ⟨rfl, rfl⟩ (h0.trans (List.suffix_cons _ _))
  · rw [if_neg hemail]
    exact .of_caller (noHandle_of_unwritten h) (hlog ▸ .bound (not_not.mp hemail))

theorem meets_resolveByEmail (hid : req.identity cfg = some (e, s))
    (hlog : ∀ s', s = some s' → ∃ older, log = ⟨.bySubject s', none⟩ :: older)
    (h : ∀ c ∈ log, Unwritten c) (h0 : log0 <:+ log) :
    Meets (contract cfg req) (Climbed cfg e s log0) log (resolveByEmail e s) := by
  refine Meets.ask trivial fun x => ?_
  have h' := unwritten_cons (c := ⟨.byEmail e, x⟩) h trivial
  have h0' : log0 <:+ ⟨.byEmail e, x⟩ :: log := h0.trans (List.suffix_cons _ _)
  cases x with
  | some user =>
    cases s with
    | none => exact .of_caller (noHandle_of_unwritten h') .found
    | some subject =>
      obtain ⟨older, hlog⟩ := hlog subject rfl
      show Meets _ _ _ (if user.keycloakSubject ≠ none then _ else _)
      by_cases hs : user.keycloakSubject ≠ none
      · rw [if_pos hs]
        exact addressTaken_of_unwritten h'
      · rw [if_neg hs]
        have hs := not_not.mp hs
        refine Meets.ask ⟨e, user, older, hid, hlog ▸ rfl, rfl, hs⟩ fun x => ?_
        cases x with
        | true =>
          refine .of_caller ((noHandle_of_unwritten h').cons ?_) (hlog ▸ .adopted hs)
          intro id v hc
          cases hc
        | false => exact .of_refused h' ⟨rfl, rfl⟩ h0'
  | none =>
    refine Meets.ask (.inl ⟨hid, log, rfl, hlog⟩) fun x => ?_
    cases x with
    | none => exact .of_refused h' ⟨rfl, rfl⟩ h0'
    | some id =>
      refine Meets.ask trivial fun x => ?_
      cases x with
      | none => exact .inl ⟨id, _, rfl, .inr ⟨e, s, made_head _ _ _⟩⟩
      | some user =>
        refine .of_caller (((noHandle_of_unwritten h').cons ?_).cons ?_) .created
        · intro id v hc
          cases hc
        · intro id v hc
          cases hc

theorem meets_resolveUser (hid : req.identity cfg = some (e, s)) (h : ∀ c ∈ log, Unwritten c) :
    Meets (contract cfg req) (Climbed cfg e s log) log (resolveUser cfg e s) := by
  cases s with
  | none => exact meets_resolveByEmail hid (fun _ h => nomatch h) h (List.suffix_refl _)
  | some subject =>
    refine Meets.ask trivial fun x => ?_
    have h' := unwritten_cons (c := ⟨.bySubject subject, x⟩) h trivial
    cases x with
    | some user => exact meets_followSubject hid rfl h' (List.suffix_cons _ _)
    | none =>
      refine meets_resolveByEmail hid ?_ h' (List.suffix_cons _ _)
      rintro _ ⟨⟩
      exact ⟨log, rfl⟩

end

/-- the caller's record was found, and no handle was written on the way -/
structure Called (cfg : Config) (req : Request) (log : Log Ret) (caller : Caller) : Prop where
  noHandle : NoHandle log
  caller : ∃ e s, req.identity cfg = some (e, s) ∧ ResolvedTo cfg e s log caller

theorem meets_getCurrentUser {email subject : Option String}
    (hid : req.identity cfg = Accounts.identity cfg email subject) :
    Meets (contract cfg req) (Called cfg req) [] (getCurrentUser cfg email subject) := by
  have h0 : ∀ c ∈ ([] : Log Ret), Unwritten c := fun c hc => nomatch hc
  unfold getCurrentUser
  cases hi : Accounts.identity cfg email subject with
  | none => exact ⟨noHandle_of_unwritten h0, fun _ => ⟨h0, .inl (hid.trans hi)⟩⟩
  | some es =>
    obtain ⟨e, s⟩ := es
    rw [hi] at hid
    refine (meets_resolveUser hid h0).seq fun l r _ hc => ?_
    cases r with
    | some caller => exact ⟨hc.noHandle, e, s, hid, hc.caller caller rfl⟩
    | none =>
      obtain ⟨c, older, hl, href, -⟩ := hc.refused rfl
      refine (meets_resolveUser hid (hc.unwritten rfl)).seq fun l' r' _ hc' => ?_
      cases r' with
      | some caller => exact ⟨hc'.noHandle, e, s, hid, hc'.caller caller rfl⟩
      | none =>
        obtain ⟨c', older', hl', href', hsuf⟩ := hc'.refused rfl
        refine .inr ⟨hc'.noHandle, fun _ => ⟨c', older', hl', href', c, ?_, href⟩⟩
        exact hsuf.subset (hl ▸ List.mem_cons_self)

/-! ## Claims -/

/-- a refusal of anything but a caller -/
theorem error_of_noHandle (h : NoHandle log) (hreq : req.isCurrentUser = false) (status : Nat)
    (code : Option String) (detail : String) :
    (contract cfg req).answer log (.error status code detail) :=
  ⟨h, fun he => by rw [hreq] at he; cases he⟩

theorem meets_checkHandle {candidate : String} (h : NoHandle log)
    (hreq : req.isCurrentUser = false) :
    Meets (contract cfg req) (fun l _ => NoHandle l ∧ isHandle candidate.toList = true ∧
      candidate ∉ cfg.reservedHandles ∧ l = ⟨.handleHeld candidate, false⟩ :: log) log
      (checkHandle cfg candidate) := by
  unfold checkHandle
  by_cases hlegal : isHandle candidate.toList = false
  · rw [if_pos hlegal]
    exact error_of_noHandle h hreq _ _ _
  · rw [if_neg hlegal]
    by_cases hres : candidate ∈ cfg.reservedHandles
    · rw [if_pos hres]
      exact error_of_noHandle h hreq _ _ _
    · rw [if_neg hres]
      refine Meets.ask trivial fun held => ?_
      have h' : NoHandle (⟨.handleHeld candidate, held⟩ :: log) := h.cons fun id v hc => nomatch hc
      cases held with
      | true => exact error_of_noHandle h' hreq _ _ _
      | false => exact ⟨h', (Bool.not_eq_false _).mp hlegal, hres, rfl⟩

theorem meets_claimHandle {user : User} {handle : String} {dryRun : Bool} (h : NoHandle log)
    (hread : HasRead user log) (hreq : req.isCurrentUser = false) :
    Meets (contract cfg req) (fun _ _ => True) log (claimHandle cfg user handle dryRun) := by
  unfold claimHandle
  cases hhandle : user.handle with
  | some held =>
    show Meets _ _ _ (if _ then _ else _)
    by_cases hc : cfg.lower (cfg.strip handle) = held
    · rw [if_pos hc]
      trivial
    · rw [if_neg hc]
      exact error_of_noHandle h hreq _ _ _
  | none =>
    refine (meets_checkHandle h hreq).seq fun l _ _ hchecked => ?_
    obtain ⟨hl, hlegal, hres, hheld⟩ := hchecked
    cases dryRun with
    | true => trivial
    | false =>
      refine Meets.ask ⟨hlegal, hres, user, log, hheld, hread, rfl, hhandle⟩ fun stored => ?_
      cases stored with
      | false =>
        refine error_of_noHandle (hl.cons ?_) hreq _ _ _
        intro id v hc
        cases hc
      | true =>
        refine Meets.ask trivial fun x => ?_
        cases x with
        | none => exact .inl ⟨user.id, _, rfl, .inl ⟨_, made_head _ _ _⟩⟩
        | some _ => trivial

/-- a caller whose record has expired wrote to it -/
theorem ResolvedTo.written {e : String} {s : Option String} {caller : Caller}
    (h : ResolvedTo cfg e s log caller) (hrow : caller.row = none) :
    ∃ c, Made log (.update caller.id c) true := by
  cases h with
  | renamed => exact ⟨_, made_head _ _ _⟩
  | adopted _ => exact ⟨_, made_head _ _ _⟩
  | bound _ => cases hrow
  | created => cases hrow
  | found => cases hrow

/-- a caller with a row has just read it -/
theorem ResolvedTo.hasRead {e : String} {s : Option String} {caller : Caller} {user : User}
    (h : ResolvedTo cfg e s log caller) (hrow : caller.row = some user) : HasRead user log := by
  cases h with
  | bound _ | created | found =>
    cases hrow
    exact ⟨_, _, rfl, rfl⟩
  | renamed => cases hrow
  | adopted _ => cases hrow

theorem meets_reload {caller : Caller} (h : Called cfg req log caller) :
    Meets (contract cfg req) (fun l user => NoHandle l ∧ HasRead user l) log (reload caller) := by
  unfold reload
  cases hrow : caller.row with
  | some user =>
    obtain ⟨e, s, -, hres⟩ := h.caller
    exact ⟨h.noHandle, hres.hasRead hrow⟩
  | none =>
    obtain ⟨e, s, -, hres⟩ := h.caller
    refine Meets.ask trivial fun x => ?_
    cases x with
    | none => exact .inl ⟨caller.id, log, rfl, .inl (hres.written hrow)⟩
    | some user =>
      refine ⟨h.noHandle.cons ?_, _, _, rfl, rfl⟩
      intro id v hc
      cases hc

/-! ## Every request -/

variable (cfg) in
/-- **every request keeps its contract**, whatever its statements answer -/
theorem meets_handler (req : Request) :
    Meets (contract cfg req) (contract cfg req).answer [] (handler cfg req) := by
  have h0 : NoHandle [] := noHandle_of_unwritten fun c hc => nomatch hc
  cases req with
  | currentUser email subject =>
    refine (meets_getCurrentUser rfl).seq fun l caller _ hc => ?_
    exact hc.caller
  | claimMyHandle email subject handle dryRun =>
    refine (meets_getCurrentUser rfl).seq fun l caller _ hc => ?_
    refine (meets_reload hc).seq fun l user _ hl => ?_
    refine (meets_claimHandle hl.1 hl.2 rfl).seq fun _ _ _ _ => ?_
    rfl
  | claimHandle userId handle =>
    refine Meets.ask trivial fun x => ?_
    have h1 : NoHandle (⟨.load userId, x⟩ :: []) := h0.cons fun id v hc => nomatch hc
    cases x with
    | none => exact error_of_noHandle h1 rfl _ _ _
    | some user =>
      show Meets _ _ _ (if user.deletedAt ≠ none then _ else _)
      by_cases hd : user.deletedAt ≠ none
      · rw [if_pos hd]
        exact error_of_noHandle h1 rfl _ _ _
      · rw [if_neg hd]
        refine (meets_claimHandle h1 ⟨_, _, rfl, rfl⟩ rfl).seq fun _ _ _ _ => ?_
        rfl
  | createUser email =>
    refine Meets.ask (.inr rfl) fun x => ?_
    cases x with
    | none =>
      refine error_of_noHandle (h0.cons ?_) rfl _ _ _
      intro id v hc
      cases hc
    | some id =>
      refine Meets.ask trivial fun x => ?_
      cases x with
      | none => exact .inl ⟨id, _, rfl, .inr ⟨email, none, made_head _ _ _⟩⟩
      | some user => rfl
  | deleteUser userId =>
    refine Meets.ask trivial fun x => ?_
    have h1 : NoHandle (⟨.byId userId, x⟩ :: []) := h0.cons fun id v hc => nomatch hc
    cases x with
    | none => exact error_of_noHandle h1 rfl _ _ _
    | some user =>
      refine Meets.ask trivial fun now => ?_
      refine Meets.ask ⟨userId, rfl⟩ fun stored => ?_
      cases stored with
      | false =>
        refine .inr ⟨(h1.cons ?_).cons ?_, fun h => nomatch h⟩
        · intro id v hc
          cases hc
        · intro id v hc
          cases hc
      | true =>
        refine Meets.ask trivial fun x => ?_
        cases x with
        | none => exact .inl ⟨user.id, _, rfl, .inl ⟨_, made_head _ _ _⟩⟩
        | some _ => rfl

end Freepod.Accounts
