import Freepod.Auth.Verifier
import Freepod.Properties.Integrity

/-!
# A change of an access list reaches the verifier in time

A copy of a list is stamped when its load ends, and may have been read a timeout before.  Of two
loads of one host the one that stores last may have read first.  Neither matters: every copy carries
a stamp at most a timeout later than the instant since which all of it was read.

* `Copied`: every copy held was stored by a call of the trace, and stamped with its time.
* `Since`, `Fetched`: a list read at one instant or later; `fetched_of_keep` shows it of every copy.
* `Delisted`, `Listed`: whom the host's lists turn away, and whom they admit.
* `revoked_on_time`: the bounds, and what a failed read comes to.  `revoked_overlap`: it may turn
  away someone whom the copy held before admits, where another load has ended meanwhile.
-/

namespace Freepod.Auth
open Base

variable {cfg : Config} {ok : VerifierPool → VerifierEvent → Prop} {s0 s t : Store}
variable {p q : VerifierPool} {tr older : List VerifierEntry} {host : String} {v : Visit}

/-! ## What the calls do to the copies -/

/-- a copy is held because it was held before, or because it has just been stored -/
theorem access_of_does {o : Op} {x : Ret o} (h : Does cfg s o x t) {p : String × CachedAccess}
    (hp : p ∈ t.access) : p ∈ s.access ∨
      (⟨o, x⟩ : Base.Call Ret) = ⟨.accessKeep p.1 p.2.list, p.2⟩ := by
  cases h with
  | keeps host list =>
    rcases List.mem_cons.mp hp with rfl | hp
    · exact .inr rfl
    · have hheld := List.mem_of_mem_filter hp
      split at hheld
      · exact absurd hheld List.not_mem_nil
      · exact .inl hheld
  | binds e sub name x h =>
    rw [bindEntry_frame] at hp
    exact .inl hp
  | purges table x => cases table <;> exact .inl hp
  | _ => exact .inl hp

theorem keep_of_perform {list : AccessList} {c : Choice} {x : CachedAccess}
    (h : perform cfg s (.accessKeep host list) c = some (x, t)) :
    x = ⟨list, s.now⟩ ∧ t = (s.accessKeep host list).2 := by
  cases c with
  | ok =>
    cases h
    exact ⟨rfl, rfl⟩
  | _ => cases h

/-- the copy held of a host's list -/
def held (s : Store) (host : String) : Option CachedAccess :=
  (s.access.find? fun p => p.1 == host).map (·.2)

theorem cached_of_perform {c : Choice} {x : Option CachedAccess}
    (h : perform cfg s (.accessCached host) c = some (x, t)) : x = held s host ∧ t = s := by
  cases c with
  | ok =>
    cases h
    exact ⟨rfl, rfl⟩
  | _ => cases h

theorem mem_of_held {c : CachedAccess} (h : held s host = some c) : (host, c) ∈ s.access := by
  obtain ⟨p, hp, rfl⟩ := Option.map_eq_some_iff.mp h
  have hhost : p.1 = host := by simpa using List.find?_some hp
  exact hhost ▸ List.mem_of_find?_eq_some hp

/-! ## Copies and the trace -/

/-- the trace is not ahead of the clock, and every copy held was stored by one of its calls -/
structure Copied (s : Store) (tr : List VerifierEntry) : Prop where
  times : ∀ e ∈ tr, e.time ≤ s.now
  copies : ∀ p ∈ s.access, ∃ e ∈ tr, e.call = ⟨.accessKeep p.1 p.2.list, p.2⟩

/-- **the copies held are those the trace stored** -/
theorem copied_of_reach (h0 : s0.access = [])
    (h : (verifier cfg).machine.Reach ok (Service.start s0) p) : Copied p.store p.trace := by
  refine h.invariant (P := fun p => Copied p.store p.trace) ⟨?_, ?_⟩ ?_
  · intro e he
    exact absurd he List.not_mem_nil
  · intro p hp
    rw [show (Service.start s0 : VerifierPool).store.access = [] from h0] at hp
    exact absurd hp List.not_mem_nil
  · rintro p ev q ⟨htimes, hcopies⟩ _ hs
    obtain ⟨v, rfl, rfl⟩ | ⟨i, c, v, o, k, x, s, rfl, hth, hperf, rfl⟩ | ⟨w, s, rfl, hc, rfl⟩ :=
      step_cases hs
    · exact ⟨htimes, hcopies⟩
    · have hd := does_of_perform hperf
      refine ⟨fun e he => ?_, fun p' hp' => ?_⟩
      · show e.time ≤ s.now
        rw [hd.now_eq]
        rcases List.mem_cons.mp he with rfl | he
        · exact Nat.le_refl _
        · exact htimes e he
      · rcases access_of_does hd hp' with hp' | hcall
        · obtain ⟨e, he, hcall⟩ := hcopies p' hp'
          exact ⟨e, List.mem_cons_of_mem _ he, hcall⟩
        · exact ⟨_, List.mem_cons_self, hcall⟩
    · cases w with
      | pass d =>
        cases hc
        exact ⟨fun e he => Nat.le_trans (htimes e he) (Nat.le_add_right _ _), hcopies⟩
      | edit s' =>
        cases hc
        exact ⟨htimes, hcopies⟩

/-- what is known of a call of the trace: the state it was made in, and that nothing before it was
later -/
structure MadeIn (cfg : Config) (ok : VerifierPool → VerifierEvent → Prop) (s0 : Store)
    (r : VerifierPool) (e : VerifierEntry) (older : List VerifierEntry) : Prop where
  reach : (verifier cfg).machine.Reach ok (Service.start s0) r
  trace : r.trace = older
  time : e.time = r.store.now
  before : ∀ e' ∈ older, e'.time ≤ e.time
  copies : Copied r.store older
  thread : ∃ k, r.threads[e.who]? = some ⟨e.req, .call e.call.1 k⟩
  meets : ∃ c s, ok r (.run e.who c) ∧ perform cfg r.store e.call.1 c = some (e.call.2, s)

theorem madeIn (h0 : s0.access = []) (h : (verifier cfg).machine.Reach ok (Service.start s0) q)
    {e : VerifierEntry} (he : e :: older <:+ q.trace) : ∃ r, MadeIn cfg ok s0 r e older := by
  obtain ⟨r, i, c, v, o, k, x, s, rfl, rfl, hr, hok, hth, hperf, -⟩ := h.made he List.nil_suffix
  have hcop := copied_of_reach h0 hr
  exact ⟨r, hr, rfl, rfl, hcop.times, hcop, ⟨k, hth⟩, c, s, hok, hperf⟩

/-- **the last call of a request** comes after all its others -/
theorem last_call (h0 : s0.access = [])
    (h : (verifier cfg).machine.Reach ok (Service.start s0) q) {i : Nat} {c : Base.Call Ret}
    {log : Log Ret} (hlog : logOf i q.trace = c :: log) :
    ∃ e older, e :: older <:+ q.trace ∧ e.who = i ∧ e.call = c ∧ logOf i older = log ∧
      ∀ e' ∈ q.trace, e'.who = i → e'.time ≤ e.time := by
  obtain ⟨e, older, he, hw, hc, hl⟩ :=
    entry_of_suffix_logOf (hlog ▸ List.suffix_refl _ : c :: log <:+ logOf i q.trace)
  refine ⟨e, older, he, hw, hc, hl, fun e' hmem hw' => ?_⟩
  obtain ⟨r, hr⟩ := madeIn h0 h he
  obtain ⟨o', he'⟩ := exists_suffix_of_mem hmem
  rcases suffix_or_suffix he' he with hsuf | hsuf | ⟨rfl, -⟩
  · exact hr.before e' (mem_of_cons_suffix hsuf)
  · -- the request would have made more calls than its log holds
    have h1 := (logOf_suffix i hsuf).length_le
    have h2 := (logOf_suffix i he').length_le
    rw [← hw, logOf_self, hw, hl, List.length_cons] at h1
    rw [← hw', logOf_self, hw', hlog, List.length_cons, List.length_cons] at h2
    omega
  · exact Nat.le_refl _

/-! ## Reading after an instant -/

/-- there was a state of the run, no earlier than `T`, in which this held -/
def Seen (ok : VerifierPool → VerifierEvent → Prop) (T : Time) (P : Store → Prop) : Prop :=
  ∃ p ev, ok p ev ∧ T ≤ p.store.now ∧ P p.store

/-- every call of the log after `before` was answered at `T` or later -/
def Since (cfg : Config) (ok : VerifierPool → VerifierEvent → Prop) (T : Time)
    (before log : Log Ret) : Prop :=
  ∀ o x rest, (⟨o, x⟩ : Base.Call Ret) :: rest <:+ log → before <:+ rest →
    Seen ok T fun s => Told cfg s o x

/-- a list of the host, all read at `T` or later -/
def Fetched (cfg : Config) (ok : VerifierPool → VerifierEvent → Prop) (host : String)
    (l : AccessList) (T : Time) : Prop :=
  ∃ before log, Loaded cfg host before l log ∧ Since cfg ok T before log

/-- what a request read after its last look at the copies, it read since then -/
theorem since_of_reach (h0 : s0.access = [])
    (h : (verifier cfg).machine.Reach ok (Service.start s0) q) {i : Nat} {c : Base.Call Ret}
    {before reads : Log Ret} (hlog : logOf i q.trace = reads ++ c :: before)
    (hc : c.1.isLocal = true) (hreads : ∀ c ∈ reads, c.1.isLocal = false) :
    ∃ e ∈ q.trace, e.who = i ∧ lastTime Op.isLocal i q.trace = some e.time ∧
      Since cfg ok e.time (c :: before) (logOf i q.trace) := by
  have hsuf : c :: before <:+ logOf i q.trace := hlog ▸ List.suffix_append _ _
  obtain ⟨e, older, he, rfl, rfl, rfl⟩ := entry_of_suffix_logOf hsuf
  rw [← logOf_self] at hlog ⊢
  refine ⟨e, mem_of_cons_suffix he, rfl, lastTime_eq he hc hlog hreads, ?_⟩
  intro o x rest hrest hbefore
  obtain ⟨e', older', he', hw', hcall', hlog'⟩ := entry_of_suffix_logOf hrest
  -- the call came after the look
  have hafter : e :: older <:+ older' := by
    rcases suffix_or_suffix he he' with hs | hs | ⟨rfl, rfl⟩
    · exact hs
    · have h1 := (logOf_suffix e.who hs).length_le
      have h2 := hbefore.length_le
      rw [← hw', logOf_self, hw', hlog', List.length_cons] at h1
      rw [logOf_self, List.length_cons] at h2
      omega
    · have h2 := hbefore.length_le
      rw [← hlog', logOf_self, List.length_cons] at h2
      omega
  obtain ⟨r, hr⟩ := madeIn h0 h he'
  obtain ⟨ch, s, hok, hperf⟩ := hr.meets
  rw [hcall'] at hperf
  refine ⟨r, _, hok, ?_, told_of_perform hperf⟩
  rw [← hr.time]
  exact hr.before e (mem_of_cons_suffix hafter)

/-- **every copy is stamped at most a timeout after the instant since which it was read** -/
theorem fetched_of_keep (h0 : s0.access = []) (hok : ∀ p ev, ok p ev → Prompt p ev)
    (h : (verifier cfg).machine.Reach ok (Service.start s0) q) {e : VerifierEntry} {l : AccessList}
    {c : CachedAccess} (he : e :: older <:+ q.trace) (hcall : e.call = ⟨.accessKeep host l, c⟩) :
    c = ⟨l, e.time⟩ ∧ ∃ e' ∈ older, e'.who = e.who ∧ e.time ≤ e'.time + loadTimeout ∧
      Fetched cfg ok host l e'.time := by
  obtain ⟨r, hr⟩ := madeIn h0 h he
  obtain ⟨ch, s, hokr, hperf⟩ := hr.meets
  have hg := h.grounded (Grounded.start s0)
  have hallowed := hg.called (meets_verifier cfg) he
  rw [hcall] at hperf hallowed
  obtain ⟨hc, -⟩ := keep_of_perform hperf
  obtain ⟨rfl, before, hlook, hload⟩ := hallowed host l rfl
  obtain ⟨c', rest, rfl, hlocal⟩ := hlook.head
  obtain ⟨c1, reads, hlog, hreads⟩ := hload.reads
  rw [← hr.trace] at hlog hload ⊢
  obtain ⟨e', he', hw', hlast, hsince⟩ := since_of_reach h0 hr.reach hlog hlocal hreads
  refine ⟨hr.time ▸ hc, e', he', hw', ?_, _, _, hload, hsince⟩
  rw [hr.time]
  refine hok r _ hokr ?_ _ hlast
  rw [hlog]
  simp [hreads c1 List.mem_cons_self]

/-- the same for a copy that a request looked at -/
theorem fetched_of_cached (h0 : s0.access = []) (hok : ∀ p ev, ok p ev → Prompt p ev)
    (h : (verifier cfg).machine.Reach ok (Service.start s0) q) {e : VerifierEntry}
    {c : CachedAccess} (he : e :: older <:+ q.trace)
    (hcall : e.call = ⟨.accessCached host, some c⟩) :
    (∃ e' ∈ q.trace, e'.call = ⟨.accessKeep host c.list, c⟩) ∧
      ∃ T, c.loaded ≤ T + loadTimeout ∧ Fetched cfg ok host c.list T := by
  obtain ⟨r, hr⟩ := madeIn h0 h he
  obtain ⟨ch, s, hokr, hperf⟩ := hr.meets
  rw [hcall] at hperf
  obtain ⟨hheld, -⟩ := cached_of_perform hperf
  obtain ⟨e', he', hcall'⟩ := hr.copies.copies _ (mem_of_held hheld.symm)
  have hmem : e' ∈ q.trace := ((List.suffix_cons _ _).trans he).subset he'
  obtain ⟨o', hsuf'⟩ := exists_suffix_of_mem hmem
  obtain ⟨hc, e'', -, -, htime, hfetched⟩ := fetched_of_keep h0 hok h hsuf' hcall'
  have hloaded : c.loaded = e'.time := congrArg CachedAccess.loaded hc
  exact ⟨⟨e', hmem, hcall'⟩, e''.time, hloaded ▸ htime, hfetched⟩

/-- the clock tells the time of the call -/
theorem time_of_now (h0 : s0.access = [])
    (h : (verifier cfg).machine.Reach ok (Service.start s0) q) {e : VerifierEntry} {now : Time}
    (he : e :: older <:+ q.trace) (hcall : e.call = ⟨.now, now⟩) : now = e.time := by
  obtain ⟨r, hr⟩ := madeIn h0 h he
  obtain ⟨ch, s, hokr, hperf⟩ := hr.meets
  rw [hcall] at hperf
  exact (told_of_perform hperf).trans hr.time.symm

/-! ## Whom the lists admit -/

/-- the list admits the visitor -/
def AccessList.admits (l : AccessList) (cfg : Config) (v : Visit) : Prop :=
  ( l.admit cfg v.session.sub v.session.email).1 = true

/-- whatever deployment is found at the visitor's host, or at the one it previews, is one of `D`,
and none of their lists admits the visitor -/
structure Delisted (cfg : Config) (v : Visit) (D : String → Prop) (s : Store) : Prop where
  served : ∀ name app, (name = v.host ∨ previewBase cfg v.host = some name) →
    s.platform.eligible name = some app → D app.id
  lists : ∀ d l, D d → s.accessList d = .ok (l, s) → ¬ AccessList.admits l cfg v

/-- the visitor's host is served under `name` by one of `D`, and all their lists admit the
visitor -/
structure Listed (cfg : Config) (v : Visit) (name : String) (D : String → Prop) (s : Store) :
    Prop where
  named : name = v.host ∨
    (s.platform.eligible v.host = none ∧ previewBase cfg v.host = some name)
  served : ∃ app, s.platform.eligible name = some app ∧ D app.id
  lists : ∀ d l, D d → s.accessList d = .ok (l, s) → AccessList.admits l cfg v

/-- after `t`, in every state of the run -/
def After (ok : VerifierPool → VerifierEvent → Prop) (t : Time) (P : Store → Prop) : Prop :=
  ∀ p ev, ok p ev → t < p.store.now → P p.store

theorem Seen.after {t T : Time} {P Q : Store → Prop} (h : Seen ok T Q) (hP : After ok t P)
    (ht : t < T) : ∃ s, P s ∧ Q s := by
  obtain ⟨p, ev, hok, hT, hq⟩ := h
  exact ⟨p.store, hP p ev hok (Nat.lt_of_lt_of_le ht hT), hq⟩

/-- nobody is on the list of a host that is not served -/
theorem not_admits_empty (hfold : ∀ a, cfg.equalFold a "" = true → a = "") :
    ¬ AccessList.admits ⟨"", "", []⟩ cfg v := by
  intro h
  unfold AccessList.admits AccessList.admit at h
  rw [if_neg (by simp)] at h
  split at h
  · rename_i hc
    exact hc.2.1 (hfold _ hc.2.2)
  · simp at h

/-- **a list read after someone was removed does not admit them** -/
theorem Fetched.not_admits {t T : Time} {D : String → Prop} {l : AccessList}
    (hfold : ∀ a, cfg.equalFold a "" = true → a = "") (h : Fetched cfg ok v.host l T)
    (hD : After ok t (Delisted cfg v D)) (ht : t < T) : ¬ AccessList.admits l cfg v := by
  obtain ⟨before, log, hload, hsince⟩ := h
  cases hload with
  | gone log hres => exact not_admits_empty hfold
  | listed app l log hres =>
    -- the deployment found was one of them
    have hd : D app.id := by
      cases hres with
      | own app =>
        have hseen := hsince _ _ _ (List.suffix_cons _ _) (List.suffix_refl _)
        obtain ⟨s, hs, htold⟩ := hseen.after hD ht
        exact hs.served _ _ (.inl rfl) (htold _ rfl).symm
      | preview base app hb =>
        have hseen := hsince _ _ _ (List.suffix_cons _ _) (List.suffix_cons _ _)
        obtain ⟨s, hs, htold⟩ := hseen.after hD ht
        exact hs.served _ _ (.inr hb) (htold _ rfl).symm
    obtain ⟨s, hs, htold⟩ := (hsince _ _ _ (List.suffix_refl _) hres.before_suffix).after hD ht
    exact hs.lists _ _ hd (htold _ rfl)

/-- **a list read after someone was added admits them** -/
theorem Fetched.admits {t T : Time} {D : String → Prop} {name : String} {l : AccessList}
    (h : Fetched cfg ok v.host l T) (hL : After ok t (Listed cfg v name D)) (ht : t < T) :
    AccessList.admits l cfg v := by
  obtain ⟨before, log, hload, hsince⟩ := h
  -- where the host has no deployment of its own, it is served under the name it previews
  have hpreview : (Seen ok T fun s => Told cfg s (.eligible v.host) (.ok none)) →
      previewBase cfg v.host = some name := by
    intro hseen
    obtain ⟨s, hs, htold⟩ := hseen.after hL ht
    have hnone : s.platform.eligible v.host = none := (htold _ rfl).symm
    rcases hs.named with rfl | ⟨-, hname⟩
    · obtain ⟨app, happ, -⟩ := hs.served
      rw [hnone] at happ
      cases happ
    · exact hname
  -- and what is found under that name is one of them
  have hserved : ∀ x, (Seen ok T fun s => Told cfg s (.eligible name) (.ok x)) →
      ∃ app, x = some app ∧ D app.id := by
    intro x hseen
    obtain ⟨s, hs, htold⟩ := hseen.after hL ht
    obtain ⟨app, happ, hd⟩ := hs.served
    exact ⟨app, (htold _ rfl).trans happ, hd⟩
  cases hload with
  | gone log hres =>
    cases hres with
    | preview base app hb =>
      have hname := hpreview (hsince _ _ _ (List.suffix_cons _ _) (List.suffix_refl _))
      rw [hb] at hname
      obtain rfl := Option.some.inj hname
      obtain ⟨app, happ, -⟩ := hserved _ (hsince _ _ _ (List.suffix_refl _) (List.suffix_cons _ _))
      cases happ
    | noBase hb =>
      have hname := hpreview (hsince _ _ _ (List.suffix_refl _) (List.suffix_refl _))
      rw [hb] at hname
      cases hname
  | listed app l log hres =>
    have hd : D app.id := by
      cases hres with
      | own app =>
        have hseen := hsince _ _ _ (List.suffix_cons _ _) (List.suffix_refl _)
        obtain ⟨s, hs, htold⟩ := hseen.after hL ht
        have hsome : s.platform.eligible v.host = some app := (htold _ rfl).symm
        rcases hs.named with rfl | ⟨hnone, -⟩
        · obtain ⟨app', happ, hd⟩ := hserved _ hseen
          obtain rfl := Option.some.inj happ
          exact hd
        · rw [hnone] at hsome
          cases hsome
      | preview base app hb =>
        have hname := hpreview (hsince _ _ _
          ((List.suffix_cons _ _).trans (List.suffix_cons _ _)) (List.suffix_refl _))
        rw [hb] at hname
        obtain rfl := Option.some.inj hname
        obtain ⟨app', happ, hd⟩ :=
          hserved _ (hsince _ _ _ (List.suffix_cons _ _) (List.suffix_cons _ _))
        obtain rfl := Option.some.inj happ
        exact hd
    obtain ⟨s, hs, htold⟩ := (hsince _ _ _ (List.suffix_refl _) hres.before_suffix).after hL ht
    exact hs.lists _ _ hd (htold _ rfl)

/-! ## The answers -/

/-- the request has been answered so -/
def Answered (p : VerifierPool) (i : Nat) (v : Visit) (b : Bool) : Prop :=
  ∃ prog, p.threads[i]? = some ⟨v, prog⟩ ∧ prog.answer? = some (.ok b)

/-- none of the request's reads failed -/
def ReadsSucceed (p : VerifierPool) (i : Nat) : Prop :=
  ∀ c ∈ logOf i p.trace, failedRead c = false

/-- a load of the host is about to store its copy, or one of any host at the limit -/
def Replaces (host : String) (p : VerifierPool) (ev : VerifierEvent) : Prop :=
  ∃ i c v host' l k, ev = .run i c ∧ p.threads[i]? = some ⟨v, .call (.accessKeep host' l) k⟩ ∧
    (host' = host ∨ accessLimit ≤ p.store.access.length)

theorem verdict_of_answered {i : Nat} {b : Bool}
    (h : (verifier cfg).machine.Reach ok (Service.start s0) q) (hb : Answered q i v b) :
    Verdict cfg v b (logOf i q.trace) := by
  obtain ⟨prog, hth, hr⟩ := hb
  obtain ⟨b', hb', hv⟩ := (h.grounded (Grounded.start s0)).answered (meets_verifier cfg) hth hr
  obtain rfl := Except.ok.inj hb'
  exact hv

theorem heldAdmits_some {c : CachedAccess} :
    v.heldAdmits cfg (some c) = true ↔ AccessList.admits c.list cfg v := Iff.rfl

/-- a request whose last look was the fallback of a load had a failed read, and no other did -/
theorem not_readsSucceed {i : Nat} {before log : Log Ret} {h : Option CachedAccess}
    (hlog : logOf i q.trace = ⟨.accessCached v.host, h⟩ :: log)
    (hload : FailedLoad cfg v.host before log) : ¬ ReadsSucceed q i := by
  intro hreads
  obtain ⟨c, hc, hfail⟩ := hload.failedRead
  have := hreads c (hlog ▸ List.mem_cons_of_mem _ hc)
  rw [hfail] at this
  cases this

/-- a copy of an age less than a lifetime is no older than that -/
theorem le_of_age {time last loaded T t age timeout : Nat} (hlast : time ≤ last)
    (hage : last - loaded < age) (hstamp : loaded ≤ T + timeout) (hT : T ≤ t) :
    time ≤ t + age + timeout := by
  omega

/-- and one read before `t` is no longer fresh where a recheck and a timeout have passed -/
theorem age_lt_of_late {now loaded T t age timeout : Nat} (hlate : t + age + timeout < now)
    (hstamp : loaded ≤ T + timeout) (hT : T ≤ t) : age < now - loaded := by
  omega

/-- **someone removed is admitted no later than a lifetime and a timeout** after it -/
theorem admitted_until (hfold : ∀ a, cfg.equalFold a "" = true → a = "") (h0 : s0.access = [])
    (hok : ∀ p ev, ok p ev → Prompt p ev)
    (h : (verifier cfg).machine.Reach ok (Service.start s0) q) {i : Nat}
    (hb : Answered q i v true) {t : Time} {D : String → Prop} (hD : After ok t (Delisted cfg v D))
    (hreads : ReadsSucceed q i) :
    ∀ e ∈ q.trace, e.who = i → e.time ≤ t + accessTTL + loadTimeout := by
  -- a copy that admits them was read no later than `t`
  have hearly : ∀ l T, AccessList.admits l cfg v → Fetched cfg ok v.host l T → T ≤ t := by
    intro l T hadmits hf
    by_contra hlt
    exact hf.not_admits hfold hD (Nat.lt_of_not_le hlt) hadmits
  have hv := verdict_of_answered h hb
  generalize hlog : logOf i q.trace = log at hv
  generalize hbv : true = b at hv
  cases hv with
  | held c now hage hyes =>
    obtain ⟨e, o, he, hw, hcall, hrest, hlast⟩ := last_call h0 h hlog
    obtain ⟨e', o', he', -, hcall', -⟩ := entry_of_suffix_logOf (hrest ▸ List.suffix_refl _ :
      [⟨.accessCached v.host, some c⟩] <:+ logOf i o)
    have hsuf := he'.trans ((List.suffix_cons _ _).trans he)
    obtain ⟨-, T, hstamp, hf⟩ := fetched_of_cached h0 hok h hsuf hcall'
    have hT := hearly _ _ hyes hf
    have hnow := time_of_now h0 h he hcall
    intro e'' hmem hwho
    exact le_of_age (hlast e'' hmem hwho) (hnow ▸ hage) hstamp hT
  | fresh c now now' hno hage => cases hbv
  | loaded before log l c hlook hload =>
    obtain ⟨e, o, he, hw, hcall, -, hlast⟩ := last_call h0 h hlog
    obtain ⟨rfl, e', -, -, htime, hf⟩ := fetched_of_keep h0 hok h he hcall
    have hT := hearly _ _ (heldAdmits_some.mp hbv.symm) hf
    intro e'' hmem hwho
    calc e''.time ≤ e.time := hlast e'' hmem hwho
      _ ≤ e'.time + loadTimeout := htime
      _ ≤ t + accessTTL + loadTimeout :=
        Nat.add_le_add_right (Nat.le_trans hT (Nat.le_add_right _ _)) _
  | failed before log c hlook hload => exact absurd hreads (not_readsSucceed hlog hload)

/-- **someone added is admitted by every request that starts later than a recheck and a timeout**
after it -/
theorem admitted_from (h0 : s0.access = []) (hok : ∀ p ev, ok p ev → Prompt p ev)
    (h : (verifier cfg).machine.Reach ok (Service.start s0) q) {i : Nat} {b : Bool}
    (hb : Answered q i v b) {t : Time} {name : String} {D : String → Prop}
    (hL : After ok t (Listed cfg v name D)) (hreads : ReadsSucceed q i)
    (hstart : ∀ e ∈ q.trace, e.who = i → t + accessRecheck + loadTimeout < e.time) : b = true := by
  have hv := verdict_of_answered h hb
  generalize hlog : logOf i q.trace = log at hv
  cases hv with
  | held c now hage hyes => rfl
  | fresh c now now' hno hage =>
    -- a copy that refuses them was read no later than `t`, so it is not fresh
    obtain ⟨e, o, he, hw, hcall, hrest, -⟩ := last_call h0 h hlog
    have hcached : (⟨.accessCached v.host, some c⟩ : Base.Call Ret) ∈ logOf i o := by
      rw [hrest]
      exact List.mem_cons_of_mem _ List.mem_cons_self
    obtain ⟨e', o', he', -, hcall'⟩ := entry_of_mem_logOf hcached
    have hsuf := he'.trans ((List.suffix_cons _ _).trans he)
    obtain ⟨-, T, hstamp, hf⟩ := fetched_of_cached h0 hok h hsuf hcall'
    have hT : T ≤ t := by
      by_contra hlt
      have hadmits := hf.admits hL (Nat.lt_of_not_le hlt)
      rw [heldAdmits_some.mpr hadmits] at hno
      cases hno
    have hnow := time_of_now h0 h he hcall
    have hlate := hstart e (mem_of_cons_suffix he) hw
    rw [hnow] at hage
    exact absurd (age_lt_of_late hlate hstamp hT) (Nat.not_lt.mpr hage)
  | loaded before log l c hlook hload =>
    obtain ⟨e, o, he, hw, hcall, -, -⟩ := last_call h0 h hlog
    obtain ⟨rfl, e', he', hwho, htime, hf⟩ := fetched_of_keep h0 hok h he hcall
    have hmem : e' ∈ q.trace := ((List.suffix_cons _ _).trans he).subset he'
    have hlate := hstart e' hmem (hwho.trans hw)
    have hlt : t < e'.time :=
      Nat.lt_of_le_of_lt (Nat.le_trans (Nat.le_add_right _ _) (Nat.le_add_right _ _)) hlate
    exact heldAdmits_some.mpr (hf.admits hL hlt)
  | failed before log c hlook hload => exact absurd hreads (not_readsSucceed hlog hload)

/-- **whoever is admitted is admitted by a copy that was read** -/
theorem admitted_by_copy (h0 : s0.access = []) (hok : ∀ p ev, ok p ev → Prompt p ev)
    (h : (verifier cfg).machine.Reach ok (Service.start s0) q) {i : Nat}
    (hb : Answered q i v true) :
    ∃ e ∈ q.trace, ∃ c, e.call = ⟨.accessKeep v.host c.list, c⟩ ∧
      AccessList.admits c.list cfg v := by
  have hv := verdict_of_answered h hb
  have hcached : ∀ c log, ⟨.accessCached v.host, some c⟩ :: log <:+ logOf i q.trace →
      ∃ e ∈ q.trace, e.call = ⟨.accessKeep v.host c.list, c⟩ := by
    intro c log hsuf
    obtain ⟨e, o, he, -, hcall, -⟩ := entry_of_suffix_logOf hsuf
    exact (fetched_of_cached h0 hok h he hcall).1
  generalize hlog : logOf i q.trace = log at hv
  generalize hbv : true = b at hv
  cases hv with
  | held c now hage hyes =>
    obtain ⟨e, he, hcall⟩ := hcached c [] (hlog ▸ List.suffix_cons _ _)
    exact ⟨e, he, c, hcall, heldAdmits_some.mp hyes⟩
  | fresh c now now' hno hage => cases hbv
  | loaded before log l c hlook hload =>
    obtain ⟨e, o, he, hw, hcall, -, -⟩ := last_call h0 h hlog
    obtain ⟨rfl, -⟩ := fetched_of_keep h0 hok h he hcall
    exact ⟨e, mem_of_cons_suffix he, _, hcall, heldAdmits_some.mp hbv.symm⟩
  | failed before log held hlook hload =>
    cases held with
    | none => cases hbv
    | some c =>
      obtain ⟨e, he, hcall⟩ := hcached c log (hlog ▸ List.suffix_refl _)
      exact ⟨e, he, c, hcall, heldAdmits_some.mp hbv.symm⟩

/-! ## Failed reads -/

/-- a copy stays while nothing replaces it -/
theorem held_of_step {ev : VerifierEvent} (hs : (verifier cfg).step p ev = some q)
    (hno : ¬ Replaces host p ev) : held q.store host = held p.store host := by
  obtain ⟨v, rfl, rfl⟩ | ⟨i, c, v, o, k, x, s, rfl, hth, hperf, rfl⟩ | ⟨w, s, rfl, hc, rfl⟩ :=
    step_cases hs
  · rfl
  · show held s host = _
    have hd := does_of_perform hperf
    cases hd with
    | keeps host' list =>
      have hother : host' ≠ host := by
        rintro rfl
        exact hno ⟨i, c, v, host', list, k, rfl, hth, .inl rfl⟩
      have hroom : ¬ accessLimit ≤ p.store.access.length := by
        intro hle
        exact hno ⟨i, c, v, host', list, k, rfl, hth, .inr hle⟩
      unfold held Store.accessKeep
      rw [if_neg hroom, List.find?_cons_of_neg (by simpa using hother), List.find?_filter]
      congr 2
      funext a
      by_cases ha : a.1 = host
      · simp [ha, hother.symm]
      · simp [ha]
    | binds e sub name x h =>
      unfold held
      rw [bindEntry_frame]
    | purges table x => cases table <;> rfl
    | _ => rfl
  · cases w with
    | pass d =>
      cases hc
      rfl
    | edit s' =>
      cases hc
      rfl

/-- **a failed read is answered by the copy held**, where nothing has replaced it -/
theorem admitted_by_held (h0 : s0.access = []) {r : VerifierPool}
    (hr : (verifier cfg).machine.Reach ok (Service.start s0) r)
    (h : (verifier cfg).machine.Reach (fun p ev => ok p ev ∧ ¬ Replaces v.host p ev) r q) {i : Nat}
    {b : Bool} {o : Op} {k : Ret o → Prog Ret (Except Response Bool) (Except Response Bool)}
    (hth : r.threads[i]? = some ⟨v, .call o k⟩) (hb : Answered q i v b)
    (hreads : ¬ ReadsSucceed q i) : b = v.heldAdmits cfg (held r.store v.host) := by
  have hrun : (verifier cfg).machine.Reach ok (Service.start s0) q :=
    hr.trans (h.mono fun _ _ h => h.1)
  have hv := verdict_of_answered hrun hb
  obtain ⟨prog, hq, hans⟩ := hb
  have hlonger := h.called_since hth hq hans
  generalize hlog : logOf i q.trace = log at hv
  -- a request that stored a copy had no failed read, nor one that made none
  have hsucceed : (∀ c ∈ log, failedRead c = false) → False := by
    intro hall
    exact hreads fun c hc => hall c (hlog ▸ hc)
  cases hv with
  | held c now hage hyes => exact (hsucceed (by simp [failedRead])).elim
  | fresh c now now' hno hage => exact (hsucceed (by simp [failedRead])).elim
  | loaded before log l c hlook hload =>
    refine (hsucceed ?_).elim
    exact List.forall_mem_cons.mpr ⟨rfl, hload.failedRead_eq hlook.failedRead_eq⟩
  | failed before log c hlook hload =>
    obtain ⟨e, older, he, hw, hcall, hrest, -⟩ := last_call h0 hrun hlog
    -- the last look came after `r`
    have hafter : r.trace <:+ older := by
      rcases List.suffix_or_suffix_of_suffix h.trace_suffix he with hs | hs
      · rcases List.suffix_cons_iff.mp hs with heq | hs
        · rw [heq, ← hw, logOf_self, hw, hrest, hlog, List.length_cons] at hlonger
          exact absurd hlonger (Nat.lt_irrefl _)
        · exact hs
      · have hle := (logOf_suffix i hs).length_le
        rw [← hw, logOf_self, hw, hrest, List.length_cons] at hle
        rw [hlog, List.length_cons] at hlonger
        omega
    obtain ⟨u, j, ch, req, o', k', x, s, rfl, rfl, hu, hoku, hthu, hperf, -⟩ := h.made he hafter
    cases hcall
    obtain ⟨rfl, -⟩ := cached_of_perform hperf
    have hsame : held u.store v.host = held r.store v.host := by
      refine hu.invariant (P := fun u => held u.store v.host = held r.store v.host) rfl ?_
      intro a ev b ha hstep hs
      exact (held_of_step hs hstep.2).trans ha
    rw [hsame]

/-- **revoked access ends on time** -/
theorem revoked_on_time (cfg : Config) (hfold : ∀ a, cfg.equalFold a "" = true → a = "")
    {s0 : Store} (h0 : s0.access = []) {ok : VerifierPool → VerifierEvent → Prop}
    (hok : ∀ p ev, ok p ev → Prompt p ev) {q : VerifierPool}
    (h : (verifier cfg).machine.Reach ok (Service.start s0) q) {i : Nat} {v : Visit} {b : Bool}
    (hb : Answered q i v b) :
    (∀ t D, After ok t (Delisted cfg v D) → ReadsSucceed q i → b = true →
      ∀ e ∈ q.trace, e.who = i → e.time ≤ t + accessTTL + loadTimeout) ∧
    (∀ t name D, After ok t (Listed cfg v name D) → ReadsSucceed q i →
      (∀ e ∈ q.trace, e.who = i → t + accessRecheck + loadTimeout < e.time) → b = true) ∧
    (b = true → ∃ e ∈ q.trace, ∃ c, e.call = ⟨.accessKeep v.host c.list, c⟩ ∧
      AccessList.admits c.list cfg v) ∧
    (∀ r o k, (verifier cfg).machine.Reach ok (Service.start s0) r →
      (verifier cfg).machine.Reach (fun p ev => ok p ev ∧ ¬ Replaces v.host p ev) r q →
      r.threads[i]? = some ⟨v, .call o k⟩ → v.heldAdmits cfg (held r.store v.host) = true →
      ¬ ReadsSucceed q i → b = true) := by
  refine ⟨?_, ?_, ?_, ?_⟩
  · rintro t D hD hreads rfl
    exact admitted_until hfold h0 hok h hb hD hreads
  · intro t name D hL hreads hstart
    exact admitted_from h0 hok h hb hL hreads hstart
  · rintro rfl
    exact admitted_by_copy h0 hok h hb
  · intro r o k hr hrq hth hyes hreads
    rw [admitted_by_held h0 hr hrq hth hb hreads]
    exact hyes

/-! ## Two requests, and a third between them -/

/-- `Prompt`, evaluated -/
def promptCheck (p : VerifierPool) : VerifierEvent → Bool
  | .run i _ => !(logOf i p.trace).head?.any (!·.1.isLocal) ||
      (lastTime Op.isLocal i p.trace).all fun t => decide (p.store.now ≤ t + loadTimeout)
  | _ => true

theorem prompt_of_check {ev : VerifierEvent} (h : promptCheck p ev = true) : Prompt p ev := by
  cases ev with
  | run i c =>
    intro hread t ht
    simp only [promptCheck, hread, ht, Bool.not_true, Bool.false_or, Option.all_some] at h
    exact of_decide_eq_true h
  | _ => exact trivial

/-- `Delisted` for one deployment and a host that previews none, evaluated -/
def delistedCheck (cfg : Config) (v : Visit) (d : String) (s : Store) : Bool :=
  (s.platform.eligible v.host).all (fun app => app.id == d) && match s.accessList d with
    | .ok (l, _) => !( l.admit cfg v.session.sub v.session.email).1
    | .error _ => true

theorem delisted_of_check {d : String} (hbase : previewBase cfg v.host = none)
    (h : delistedCheck cfg v d s = true) : Delisted cfg v (· = d) s := by
  obtain ⟨happ, hlist⟩ := Bool.and_eq_true_iff.mp h
  refine ⟨?_, ?_⟩
  · rintro name app (rfl | hname) hsome
    · rw [hsome] at happ
      simpa using happ
    · rw [hbase] at hname
      cases hname
  · rintro d' l rfl hl hadmits
    rw [hl] at hlist
    unfold AccessList.admits at hadmits
    simp [hadmits] at hlist

namespace Revocation

/-- a visitor of the sample app -/
def visit (sub email : String) : Visit := ⟨Sample.host, ⟨sub, email, "", Sample.host, ""⟩⟩

def bea : Visit := visit "bea" "bea@example.com"

/-- the owner and nobody else -/
def unlisted : Store := Store.fresh (1000 * second) Sample.platform []

/-- and an entry of one more -/
def store : Store :=
  { unlisted with entries := [⟨"e1", Sample.deployment, "bea@example.com", none, none, none⟩] }

def calls (i : Nat) (cs : List Choice) : List VerifierEvent := cs.map (.run i)

/-- a request that finds no copy and reads the list -/
def loads (v : Visit) : List VerifierEvent := .arrive v :: calls 0 [.ok, .ok, .ok, .ok]

def admits (i : Nat) (v : Visit) (b : Bool) (p : VerifierPool) : Bool :=
  match p.threads[i]? with
  | some ⟨v', .pure (.ok b')⟩ => v' == v && b' == b
  | _ => false

theorem answered_of_admits {i : Nat} {b : Bool} (h : admits i v b p = true) : Answered p i v b := by
  unfold admits at h
  split at h
  · rename_i v' b' hth
    obtain ⟨hv, hb⟩ := Bool.and_eq_true_iff.mp h
    obtain rfl := eq_of_beq hv
    obtain rfl := eq_of_beq hb
    exact ⟨_, hth, rfl⟩
  · cases h

def readsSucceed (p : VerifierPool) (i : Nat) : Bool := (logOf i p.trace).all (!failedRead ·)

theorem readsSucceed_iff {i : Nat} : readsSucceed p i = true ↔ ReadsSucceed p i := by
  unfold readsSucceed ReadsSucceed
  simp

/-- from `t` on, the visitor is on no list -/
def removedCheck (t : Time) (v : Visit) (p : VerifierPool) (ev : VerifierEvent) : Bool :=
  promptCheck p ev && (decide (p.store.now ≤ t) ||
    delistedCheck Sample.config v Sample.deployment p.store)

def Removed (t : Time) (v : Visit) (p : VerifierPool) (ev : VerifierEvent) : Prop :=
  Prompt p ev ∧ (t < p.store.now → Delisted Sample.config v (· = Sample.deployment) p.store)

theorem removed_of_check {t : Time} {ev : VerifierEvent}
    (hbase : previewBase Sample.config v.host = none) (h : removedCheck t v p ev = true) :
    Removed t v p ev := by
  obtain ⟨hprompt, hor⟩ := Bool.and_eq_true_iff.mp h
  refine ⟨prompt_of_check hprompt, fun ht => delisted_of_check hbase ?_⟩
  rcases Bool.or_eq_true_iff.mp hor with hle | hc
  · exact absurd (of_decide_eq_true hle) (Nat.not_le.mpr ht)
  · exact hc

end Revocation

/-- twenty-nine seconds after a removal, the copy read before it still admits, and no longer than
the bound -/
theorem revoked_on_time_bea :
    ∃ q, (verifier Sample.config).machine.Reach (Revocation.Removed (1000 * second) Revocation.bea)
        (Service.start Revocation.store) q ∧ Answered q 1 Revocation.bea true ∧
      ∀ e ∈ q.trace, e.who = 1 → e.time ≤ 1000 * second + accessTTL + loadTimeout := by
  obtain ⟨q, hq, -, hp⟩ := Machine.exists_reach_of_runIf (P := fun _ => True)
    (M := (verifier Sample.config).machine)
    (c := Revocation.removedCheck (1000 * second) Revocation.bea)
    (k := Revocation.Removed (1000 * second) Revocation.bea)
    (s := Service.start Revocation.store)
    (l := Revocation.loads Revocation.bea ++ [.world (.edit Revocation.unlisted),
      .world (.pass (29 * second)), .arrive Revocation.bea] ++ Revocation.calls 1 [.ok, .ok])
    (p := fun q => Revocation.admits 1 Revocation.bea true q && Revocation.readsSucceed q 1)
    (fun _ _ _ _ _ _ => trivial)
    (fun _ _ _ h => Revocation.removed_of_check (by decide +kernel) h) trivial (by decide +kernel)
  obtain ⟨hadmits, hreads⟩ := Bool.and_eq_true_iff.mp hp
  have hb := Revocation.answered_of_admits hadmits
  refine ⟨q, hq, hb, ?_⟩
  exact (revoked_on_time Sample.config (fun a h => eq_of_beq h) rfl (fun _ _ h => h.1) hq hb).1 _
    (· = Sample.deployment) (fun _ _ h => h.2) (Revocation.readsSucceed_iff.mp hreads) rfl

namespace Revocation

def ann : Visit := visit "ann" "ann@example.com"

/-- the request is about to read the list of its host, and the copy held admits it -/
def readsNext (i : Nat) (v : Visit) (p : VerifierPool) : Bool :=
  match p.threads[i]? with
  | some ⟨v', .call (.eligible h) _⟩ =>
    v' == v && h == v.host && v.heldAdmits Sample.config (held p.store v.host)
  | _ => false

theorem call_of_readsNext {i : Nat} (h : readsNext i v p = true) :
    (∃ k, p.threads[i]? = some ⟨v, .call (.eligible v.host) k⟩) ∧
      v.heldAdmits Sample.config (held p.store v.host) = true := by
  unfold readsNext at h
  split at h
  · rename_i v' name k hth
    obtain ⟨h, hadmits⟩ := Bool.and_eq_true_iff.mp h
    obtain ⟨hv, hname⟩ := Bool.and_eq_true_iff.mp h
    obtain rfl := eq_of_beq hv
    obtain rfl := eq_of_beq hname
    exact ⟨⟨k, hth⟩, hadmits⟩
  · cases h

/-- another request loads the list after the removal, before the read of the first fails -/
def overlap : List VerifierEvent :=
  .arrive ann :: calls 2 [.ok, .ok] ++ .world (.edit unlisted) :: calls 2 [.ok, .ok, .ok] ++
    calls 1 [.fails, .ok]

end Revocation

/-- a failed read turns away someone whom the copy held before it admits -/
theorem revoked_overlap :
    ¬ ∀ (cfg : Config) (s0 : Store) (r q : VerifierPool) (i : Nat) (v : Visit) (b : Bool),
      s0.access = [] → (verifier cfg).machine.Reach Prompt (Service.start s0) r →
      (verifier cfg).machine.Reach Prompt r q →
      (∃ k, r.threads[i]? = some ⟨v, .call (.eligible v.host) k⟩) →
      v.heldAdmits cfg (held r.store v.host) = true → Answered q i v b → ¬ ReadsSucceed q i →
      b = true := by
  intro hall
  obtain ⟨r, hr, -, hp⟩ := Machine.exists_reach_of_runIf (P := fun _ => True)
    (M := (verifier Sample.config).machine) (c := promptCheck) (k := Prompt)
    (s := Service.start Revocation.store)
    (l := Revocation.loads Revocation.bea ++ [.world (.pass (30 * second)),
      .arrive Revocation.bea] ++ Revocation.calls 1 [.ok, .ok])
    (p := fun r => Revocation.readsNext 1 Revocation.bea r &&
      ((verifier Sample.config).machine.runIf promptCheck r Revocation.overlap).any fun q =>
        Revocation.admits 1 Revocation.bea false q && !Revocation.readsSucceed q 1)
    (fun _ _ _ _ _ _ => trivial) (fun _ _ _ h => prompt_of_check h) trivial (by decide +kernel)
  obtain ⟨hnext, hrest⟩ := Bool.and_eq_true_iff.mp hp
  obtain ⟨q, hq, -, hend⟩ := Machine.exists_reach_of_runIf (P := fun _ => True) (c := promptCheck)
    (k := Prompt) (fun _ _ _ _ _ _ => trivial) (fun _ _ _ h => prompt_of_check h) trivial hrest
  obtain ⟨hanswer, hreads⟩ := Bool.and_eq_true_iff.mp hend
  obtain ⟨hcall, hadmits⟩ := Revocation.call_of_readsNext hnext
  have hfail : ¬ ReadsSucceed q 1 := by
    rw [← Revocation.readsSucceed_iff]
    simpa using hreads
  have h := hall Sample.config Revocation.store r q 1 Revocation.bea false rfl hr hq hcall hadmits
    (Revocation.answered_of_admits hanswer) hfail
  cases h

end Freepod.Auth
