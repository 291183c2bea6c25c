import Freepod.Auth.Deeds
import Freepod.Auth.Effects

/-!
# App authentication: the verifier's access lists over time

Any number of requests ask `accessCache.admits` at once, and share the lists it holds.  The daemon's
other parts and the platform are the world: it may do anything but turn the clock back or touch
those lists.

* `verifier`: the requests, the store and the world; `Prompt` bounds a load by its timeout.
* `Resolved`, `Loaded`, `FailedLoad`, `Looked`: what a request's own log says of its load.
* `Verdict`: the four ways a request can end; `meets_accessAdmits_verdict`: there are no others.
-/

namespace Freepod.Auth
open Base

/-- a request of someone signed in to a listed host -/
structure Visit where
  host : String
  session : Session
  deriving DecidableEq

/-- time passes, or anything but the clock and the lists held changes -/
inductive VerifierWorld
  | pass (d : Nat)
  | edit (s : Store)

def verifierChange (s : Store) : VerifierWorld → Option Store
  | .pass d => some { s with now := s.now + d }
  | .edit t => some { t with now := s.now, access := s.access }

abbrev VerifierPool := Pool Ret Visit (Except Response Bool) Store Time
abbrev VerifierEvent := Event Visit Choice VerifierWorld
abbrev VerifierEntry := Entry Ret Visit Time

/-- the requests that ask for access, all against one map of lists -/
def verifier (cfg : Config) :
    Service Ret Visit (Except Response Bool) Store Time Choice VerifierWorld where
  handler := fun v => (accessAdmits cfg v.host v.session).attempt
  perform := perform cfg
  change := verifierChange
  clock := Store.now

/-! ## The clock -/

/-- the timeout of a load -/
def loadTimeout : Nat := 3 * second

/-- the calls that do not leave the daemon -/
def Op.isLocal : Op → Bool
  | .now | .accessCached _ | .accessKeep _ _ => true
  | _ => false

/-- a load takes no longer than its timeout: what follows a read comes that soon after the request's
last call that did not leave the daemon -/
def Prompt (p : VerifierPool) : VerifierEvent → Prop
  | .run i _ => (logOf i p.trace).head?.any (!·.1.isLocal) = true →
      ∀ t, lastTime Op.isLocal i p.trace = some t → p.store.now ≤ t + loadTimeout
  | _ => True

/-! ## The log of a load -/

variable (cfg : Config) (host : String)

/-- the header app that a load found at `host`, after what its request did before -/
inductive Resolved (before : Log Ret) : Option HeaderApp → Log Ret → Prop
  | own (app : HeaderApp) :
      Resolved before (some app) (⟨.eligible host, .ok (some app)⟩ :: before)
  | preview (base : String) (app : Option HeaderApp) (h : previewBase cfg host = some base) :
      Resolved before app (⟨.eligible base, .ok app⟩ :: ⟨.eligible host, .ok none⟩ :: before)
  | noBase (h : previewBase cfg host = none) :
      Resolved before none (⟨.eligible host, .ok none⟩ :: before)

/-- the list that a load read -/
inductive Loaded (before : Log Ret) : AccessList → Log Ret → Prop
  | gone (log : Log Ret) (h : Resolved cfg host before none log) : Loaded before ⟨"", "", []⟩ log
  | listed (app : HeaderApp) (l : AccessList) (log : Log Ret)
      (h : Resolved cfg host before (some app) log) :
      Loaded before l (⟨.accessList app.id, .ok l⟩ :: log)

/-- a load that a failed read ends -/
inductive FailedLoad (before : Log Ret) : Log Ret → Prop
  | eligible (e : Failure) : FailedLoad before (⟨.eligible host, .error e⟩ :: before)
  | base (base : String) (e : Failure) (h : previewBase cfg host = some base) :
      FailedLoad before (⟨.eligible base, .error e⟩ :: ⟨.eligible host, .ok none⟩ :: before)
  | list (app : HeaderApp) (e : Failure) (log : Log Ret)
      (h : Resolved cfg host before (some app) log) :
      FailedLoad before (⟨.accessList app.id, .error e⟩ :: log)

variable (v : Visit)

/-- a read of the store that failed -/
def failedRead : Call Ret → Bool
  | ⟨.eligible _, .error _⟩ | ⟨.accessList _, .error _⟩ => true
  | _ => false

/-- the copy admits the visitor -/
def Visit.heldAdmits (held : Option CachedAccess) : Bool := Auth.heldAdmits cfg held v.session

/-- what a request looked at before its load: no copy, one too old, or one that refuses and is not
fresh -/
inductive Looked : Log Ret → Prop
  | nothing : Looked [⟨.accessCached v.host, none⟩]
  | stale (h : CachedAccess) (now : Time) (hage : accessTTL ≤ now - h.loaded) :
      Looked [⟨.now, now⟩, ⟨.accessCached v.host, some h⟩]
  | unsure (h : CachedAccess) (now now' : Time) (hage : now - h.loaded < accessTTL)
      (hno : v.heldAdmits cfg (some h) = false) (hage' : accessRecheck < now' - h.loaded) :
      Looked [⟨.now, now'⟩, ⟨.now, now⟩, ⟨.accessCached v.host, some h⟩]

/-- the ways a request ends -/
inductive Verdict : Bool → Log Ret → Prop
  | held (h : CachedAccess) (now : Time) (hage : now - h.loaded < accessTTL)
      (hyes : v.heldAdmits cfg (some h) = true) :
      Verdict true [⟨.now, now⟩, ⟨.accessCached v.host, some h⟩]
  | fresh (h : CachedAccess) (now now' : Time) (hno : v.heldAdmits cfg (some h) = false)
      (hage : now' - h.loaded ≤ accessRecheck) :
      Verdict false [⟨.now, now'⟩, ⟨.now, now⟩, ⟨.accessCached v.host, some h⟩]
  | loaded (before log : Log Ret) (l : AccessList) (c : CachedAccess) (hlook : Looked cfg v before)
      (hload : Loaded cfg v.host before l log) :
      Verdict (v.heldAdmits cfg (some c)) (⟨.accessKeep v.host l, c⟩ :: log)
  | failed (before log : Log Ret) (held : Option CachedAccess) (hlook : Looked cfg v before)
      (hload : FailedLoad cfg v.host before log) :
      Verdict (v.heldAdmits cfg held) (⟨.accessCached v.host, held⟩ :: log)

/-- a copy is stored only of a list that was read for its host, and the answer is a verdict -/
def visits : Contract Ret (Except Response Bool) where
  call := fun log o => ∀ host l, o = .accessKeep host l → host = v.host ∧
    ∃ before, Looked cfg v before ∧ Loaded cfg v.host before l log
  answer := fun log r => ∃ b, r = .ok b ∧ Verdict cfg v b log

variable {cfg v host} {log before : Log Ret}

/-! ## Reads -/

theorem Resolved.failedRead_eq {app : Option HeaderApp} (h : Resolved cfg host before app log)
    (hb : ∀ c ∈ before, failedRead c = false) : ∀ c ∈ log, failedRead c = false := by
  cases h with
  | own app => exact List.forall_mem_cons.mpr ⟨rfl, hb⟩
  | preview base app h =>
    exact List.forall_mem_cons.mpr ⟨rfl, List.forall_mem_cons.mpr ⟨rfl, hb⟩⟩
  | noBase h => exact List.forall_mem_cons.mpr ⟨rfl, hb⟩

/-- a load that read a list had no failed read -/
theorem Loaded.failedRead_eq {l : AccessList} (h : Loaded cfg host before l log)
    (hb : ∀ c ∈ before, failedRead c = false) : ∀ c ∈ log, failedRead c = false := by
  cases h with
  | gone log h => exact h.failedRead_eq hb
  | listed app l log h => exact List.forall_mem_cons.mpr ⟨rfl, h.failedRead_eq hb⟩

theorem FailedLoad.failedRead (h : FailedLoad cfg host before log) :
    ∃ c ∈ log, failedRead c = true := by
  cases h with
  | eligible e => exact ⟨_, List.mem_cons_self, rfl⟩
  | base base e h => exact ⟨_, List.mem_cons_self, rfl⟩
  | list app e log h => exact ⟨_, List.mem_cons_self, rfl⟩

/-- what a load does leaves the daemon, but for what its request did before -/
theorem Resolved.reads {app : Option HeaderApp} (h : Resolved cfg host before app log) :
    ∃ c reads, log = c :: reads ++ before ∧ ∀ c' ∈ c :: reads, c'.1.isLocal = false := by
  cases h with
  | own app => exact ⟨_, [], rfl, by simp [Op.isLocal]⟩
  | preview base app h => exact ⟨_, [_], rfl, by simp [Op.isLocal]⟩
  | noBase h => exact ⟨_, [], rfl, by simp [Op.isLocal]⟩

theorem Loaded.reads {l : AccessList} (h : Loaded cfg host before l log) :
    ∃ c reads, log = c :: reads ++ before ∧ ∀ c' ∈ c :: reads, c'.1.isLocal = false := by
  cases h with
  | gone log h => exact h.reads
  | listed app l log h =>
    obtain ⟨c, reads, rfl, hreads⟩ := h.reads
    exact ⟨_, c :: reads, rfl, List.forall_mem_cons.mpr ⟨rfl, hreads⟩⟩

theorem Resolved.before_suffix {app : Option HeaderApp} (h : Resolved cfg host before app log) :
    before <:+ log := by
  obtain ⟨c, reads, rfl, -⟩ := h.reads
  exact List.suffix_append _ _

theorem Looked.failedRead_eq (h : Looked cfg v log) : ∀ c ∈ log, failedRead c = false := by
  cases h with
  | nothing => exact List.forall_mem_cons.mpr ⟨rfl, by simp⟩
  | stale h now hage => simp [failedRead]
  | unsure h now now' hage hno hage' => simp [failedRead]

/-- the last thing a request looked at did not leave the daemon -/
theorem Looked.head (h : Looked cfg v log) :
    ∃ c older, log = c :: older ∧ c.1.isLocal = true := by
  cases h with
  | nothing => exact ⟨_, _, rfl, rfl⟩
  | stale h now hage => exact ⟨_, _, rfl, rfl⟩
  | unsure h now now' hage hno hage' => exact ⟨_, _, rfl, rfl⟩

/-! ## Every request ends so -/

/-- the contract of a request while it has not ended -/
abbrev visiting (cfg : Config) (v : Visit) : Contract Ret Response :=
  ⟨(visits cfg v).call, fun l r => (visits cfg v).answer l (.error r)⟩

theorem visits_call {o : Op} (h : ∀ host l, o ≠ .accessKeep host l) : (visits cfg v).call log o :=
  fun host l ho => absurd ho (h host l)

theorem meets_resolveHeaderApp_resolved :
    Meets (visiting cfg v) (fun l x => match x with
      | .error _ => FailedLoad cfg v.host log l
      | .ok app => Resolved cfg v.host log app l) log (resolveHeaderApp cfg v.host) := by
  have hask : ∀ l name, (visits cfg v).call l (.eligible name) := by
    intro l name
    refine visits_call fun _ _ h => ?_
    cases h
  refine Meets.ask (hask _ _) fun x => ?_
  cases x with
  | error e => exact .eligible e
  | ok found =>
    cases found with
    | some app => exact .own app
    | none =>
      dsimp only
      cases hb : previewBase cfg v.host with
      | none => exact .noBase hb
      | some base =>
        refine meets_ask_last (hask _ _) fun y => ?_
        cases y with
        | error e => exact .base base e hb
        | ok app => exact .preview base app hb

/-- **a load stores what it read, or looks again** -/
theorem meets_loadAccess_verdict (hlook : Looked cfg v before) :
    Meets (visiting cfg v) (fun l held => Verdict cfg v (v.heldAdmits cfg held) l) before
      (loadAccess cfg v.host) := by
  have hlocal : ∀ l, (visits cfg v).call l (.accessCached v.host) := by
    intro l
    exact visits_call fun _ _ h => nomatch h
  refine Meets.seq meets_resolveHeaderApp_resolved fun l x _ hx => ?_
  cases x with
  | error e => exact meets_ask_last (hlocal _) fun held => .failed _ _ held hlook hx
  | ok found =>
    cases found with
    | none =>
      have hload : Loaded cfg v.host before ⟨"", "", []⟩ l := .gone l hx
      refine Meets.ask ?_ fun c => .loaded _ _ _ c hlook hload
      rintro host list ⟨⟩
      exact ⟨rfl, before, hlook, hload⟩
    | some app =>
      refine Meets.ask (visits_call fun _ _ h => nomatch h) fun y => ?_
      cases y with
      | error e =>
        exact meets_ask_last (hlocal _) fun held => .failed _ _ held hlook (.list app e l hx)
      | ok list =>
        have hload : Loaded cfg v.host before list (⟨.accessList app.id, .ok list⟩ :: l) :=
          .listed app list l hx
        refine Meets.ask ?_ fun c => .loaded _ _ _ c hlook hload
        rintro host list' ⟨⟩
        exact ⟨rfl, before, hlook, hload⟩

/-- **every request ends in one of the four ways**, whatever its calls answer -/
theorem meets_accessAdmits_verdict :
    Meets (visiting cfg v) (fun l b => Verdict cfg v b l) []
      (accessAdmits cfg v.host v.session) := by
  have hload : ∀ l, Looked cfg v l → Meets (visiting cfg v) (fun l b => Verdict cfg v b l) l
      (loadAccess cfg v.host >>= fun held => pure (heldAdmits cfg held v.session)) := by
    intro l hl
    exact Meets.seq (meets_loadAccess_verdict hl) fun _ _ _ h => h
  have hnow : ∀ l, (visits cfg v).call l .now := by
    intro l
    exact visits_call fun _ _ h => nomatch h
  refine Meets.ask (visits_call fun _ _ h => nomatch h) fun held => ?_
  cases held with
  | none => exact hload _ .nothing
  | some h =>
    refine Meets.ask (hnow _) fun now => ?_
    show Meets _ _ _ (if decide (accessTTL ≤ now - h.loaded) = true then _ else _)
    by_cases hage : accessTTL ≤ now - h.loaded
    · rw [if_pos (decide_eq_true hage)]
      exact hload _ (.stale h now hage)
    · rw [if_neg (by simpa using hage)]
      have hage : now - h.loaded < accessTTL := Nat.lt_of_not_le hage
      show Meets _ _ _ (if heldAdmits cfg (some h) v.session = true then _ else _)
      by_cases hyes : heldAdmits cfg (some h) v.session = true
      · rw [if_pos hyes]
        exact .held h now hage hyes
      · rw [if_neg hyes]
        have hno : v.heldAdmits cfg (some h) = false := Bool.eq_false_iff.mpr hyes
        refine Meets.ask (hnow _) fun now' => ?_
        show Meets _ _ _ (if decide (accessRecheck + 1 ≤ now' - h.loaded) = true then _ else _)
        by_cases hage' : accessRecheck + 1 ≤ now' - h.loaded
        · rw [if_pos (decide_eq_true hage')]
          exact hload _ (.unsure h now now' hage hno hage')
        · rw [if_neg (by simpa using hage')]
          exact .fresh h now now' hno (Nat.le_of_lt_succ (Nat.lt_of_not_le hage'))

theorem meets_verifier (cfg : Config) (v : Visit) :
    Meets (visits cfg v) (visits cfg v).answer [] ((verifier cfg).handler v) := by
  show Meets _ _ _ (accessAdmits cfg v.host v.session).attempt
  rw [meets_attempt]
  exact meets_accessAdmits_verdict.mono fun l b _ h => ⟨b, rfl, h⟩

end Freepod.Auth
