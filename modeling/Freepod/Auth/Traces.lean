import Freepod.Auth.Deeds
import Freepod.Auth.Effects

/-!
# App authentication: what a trace tells

Everything app authentication holds was put there by a call of its trace: a value opens because it
was sealed, a code is redeemed because it was issued, a session has ended because it was ended.

* `Recorded`: the store against the trace before it, and `Found`: each answer against the calls
  before it.  `history` shows both of every run.
* `drawn_same`, `drawn_once`: a random token is drawn by one call only, so what is made from it is
  made once.
* `insertOIDCCode_once`: a client's code is issued once.
-/

namespace Freepod.Auth
open Base

variable (cfg : Config)

abbrev Trace := List AuthEntry

/-! ## Stores and traces -/

/-- the store holds what the trace put there -/
structure Recorded (s : Store) (tr : Trace) : Prop where
  times : ∀ e ∈ tr, e.time ≤ s.now
  drawn : ∀ e ∈ tr, ∀ t, e.call = ⟨.random, t⟩ → t ∈ s.drawn
  sealed : ∀ r ∈ s.sealed, ∃ e ∈ tr, ∃ ttl, e.call = ⟨.seal r.value ttl, .ok r.handle⟩ ∧
    r.exp = unix (e.time + ttl)
  consents : ∀ r ∈ s.consents, ∃ e ∈ tr, ∃ x,
    e.call = ⟨.recordConsent r.subject r.deploymentID r.claims, x⟩
  codes : ∀ r ∈ s.codes, ∃ e ∈ tr, ∃ x, e.call = ⟨.insertCode r.codeHash r.code, x⟩ ∧
    r.expiresAt = e.time + codeTTL
  codesLeft : ∀ r ∈ s.codes, ∀ e ∈ tr, ∀ p, e.call ≠ ⟨.redeemCode r.codeHash, .ok (some p)⟩
  oidcCodes : ∀ r ∈ s.oidcCodes, ∃ e ∈ tr, ∃ c ksid x,
    e.call = ⟨.insertOIDCCode r.codeHash c ksid, x⟩ ∧ r.code = { c with sid := r.code.sid } ∧
      r.expiresAt = e.time + codeTTL
  oidcCodesLeft : ∀ r ∈ s.oidcCodes, ∀ e ∈ tr, ∀ p,
    e.call ≠ ⟨.redeemOIDCCode r.codeHash, .ok (some p)⟩
  ended : ∀ r ∈ s.ended, ∃ e ∈ tr, ∃ x, e.call = ⟨.endSession r.id, x⟩ ∧ r.endedAt = e.time

/-- `raw` was sealed from `v`, and still opened at `time` -/
def Unsealed (older : Trace) (time : Time) (raw : String) (v : Sealed) : Prop :=
  ∃ e ∈ older, ∃ ttl, e.call = ⟨.seal v ttl, .ok raw⟩ ∧ unix time < unix (e.time + ttl)

/-- the subject's consent to the deployment, for all that the consent page lists, was recorded -/
def ConsentRecorded (tr : Trace) (d sub : String) : Prop :=
  ∃ e ∈ tr, ∃ claims x, e.call = ⟨.recordConsent sub d claims, x⟩ ∧ disclosedClaims ⊆ claims

/-- what an answer says about the calls before it -/
def Found (older : Trace) (e : AuthEntry) : Prop :=
  match e.call with
  | ⟨.random, t⟩ =>
    ∀ e' ∈ older, ∀ t', e'.call = ⟨.random, t'⟩ → cfg.sha256Bytes t' ≠ cfg.sha256Bytes t
  | ⟨.openFlow raw, x⟩ => ∀ f, x = some f → Unsealed older e.time raw (.flow f)
  | ⟨.openConsent raw, x⟩ => ∀ pc, x = some pc → Unsealed older e.time raw (.consent pc)
  | ⟨.openSession raw, x⟩ => ∀ s, x = some s → Unsealed older e.time raw (.session s)
  | ⟨.ssoClient d, x⟩ => ∀ c, x = .ok (some c) → c.id = d
  | ⟨.hasConsent sub d claims, x⟩ => x = .ok true → ∃ e' ∈ older, ∃ claims' y,
      e'.call = ⟨.recordConsent sub d claims', y⟩ ∧ claims ⊆ claims'
  | ⟨.redeemCode h, x⟩ => ∀ rec fresh, x = .ok (some (rec, fresh)) →
      (∃ e' ∈ older, ∃ y, e'.call = ⟨.insertCode h rec, y⟩ ∧
        (fresh = true → e.time < e'.time + codeTTL)) ∧
      ∀ e' ∈ older, ∀ p, e'.call ≠ ⟨.redeemCode h, .ok (some p)⟩
  | ⟨.redeemOIDCCode h, x⟩ => ∀ rec fresh, x = .ok (some (rec, fresh)) →
      (∃ e' ∈ older, ∃ c ksid y, e'.call = ⟨.insertOIDCCode h c ksid, y⟩ ∧
        rec = { c with sid := rec.sid } ∧ (fresh = true → e.time < e'.time + codeTTL)) ∧
      ∀ e' ∈ older, ∀ p, e'.call ≠ ⟨.redeemOIDCCode h, .ok (some p)⟩
  | ⟨.endedSessions _, x⟩ => ∀ rows, x = .ok rows → ∀ r ∈ rows,
      ∃ e' ∈ older, ∃ y, e'.call = ⟨.endSession r.id, y⟩ ∧ r.endedAt = e'.time
  | _ => True

variable {cfg} {s t : Store} {tr : Trace} {e : AuthEntry}

/-! ## Random tokens -/

/-- **a token is drawn once**: two calls made after tokens with one digest were drawn are made by
one handler, after the same draw -/
theorem drawn_same (hf : ∀ e older, e :: older <:+ tr → Found cfg older e) {e1 e2 : AuthEntry}
    {o1 o2 : Trace} (h1 : e1 :: o1 <:+ tr) (h2 : e2 :: o2 <:+ tr) {a b l1 l2 : Log Ret}
    {t1 t2 : String} (hl1 : logOf e1.who o1 = a ++ (⟨.random, t1⟩ : Base.Call Ret) :: l1)
    (hl2 : logOf e2.who o2 = b ++ (⟨.random, t2⟩ : Base.Call Ret) :: l2)
    (ht : cfg.sha256Bytes t1 = cfg.sha256Bytes t2) : e1.who = e2.who ∧ l1 = l2 := by
  have hsuf1 : (⟨.random, t1⟩ : Base.Call Ret) :: l1 <:+ logOf e1.who o1 :=
    hl1 ▸ List.suffix_append a _
  have hsuf2 : (⟨.random, t2⟩ : Base.Call Ret) :: l2 <:+ logOf e2.who o2 :=
    hl2 ▸ List.suffix_append b _
  obtain ⟨r1, q1, hq1, hw1, hc1, hlog1⟩ := entry_of_suffix_logOf hsuf1
  obtain ⟨r2, q2, hq2, hw2, hc2, hlog2⟩ := entry_of_suffix_logOf hsuf2
  have hs1 : r1 :: q1 <:+ tr := hq1.trans ((List.suffix_cons _ _).trans h1)
  have hs2 : r2 :: q2 <:+ tr := hq2.trans ((List.suffix_cons _ _).trans h2)
  have hsame : r1 = r2 ∧ q1 = q2 := by
    rcases suffix_or_suffix hs1 hs2 with h | h | h
    · have := hf r2 q2 hs2
      rw [Found, hc2] at this
      exact absurd ht (this r1 (mem_of_cons_suffix h) t1 hc1)
    · have := hf r1 q1 hs1
      rw [Found, hc1] at this
      exact absurd ht.symm (this r2 (mem_of_cons_suffix h) t2 hc2)
    · exact h
  obtain ⟨rfl, rfl⟩ := hsame
  have hwho : e1.who = e2.who := hw1.symm.trans hw2
  refine ⟨hwho, ?_⟩
  rw [← hlog1, ← hlog2, hwho]

/-- two calls that each follow such a draw at the same distance are the same call -/
theorem drawn_once (hf : ∀ e older, e :: older <:+ tr → Found cfg older e) {e1 e2 : AuthEntry}
    {o1 o2 : Trace} (h1 : e1 :: o1 <:+ tr) (h2 : e2 :: o2 <:+ tr) {a b l1 l2 : Log Ret}
    {t1 t2 : String} (hl1 : logOf e1.who o1 = a ++ (⟨.random, t1⟩ : Base.Call Ret) :: l1)
    (hl2 : logOf e2.who o2 = b ++ (⟨.random, t2⟩ : Base.Call Ret) :: l2)
    (hn : a.length = b.length) (ht : cfg.sha256Bytes t1 = cfg.sha256Bytes t2) :
    e1 = e2 ∧ o1 = o2 := by
  obtain ⟨hwho, rfl⟩ := drawn_same hf h1 h2 hl1 hl2 ht
  refine same_call h1 h2 hwho ?_
  rw [hl1, hl2, List.length_append, List.length_append, List.length_cons, List.length_cons, hn]

/-! ## Issuing -/

section
variable {p : AuthPool} (hg : Grounded (service cfg) p)
include hg

theorem called {e : AuthEntry} {older : Trace} (he : e :: older <:+ p.trace) :
    deed cfg e.req (logOf e.who older) e.call.1 := hg.called (meets_handler cfg) he

variable (hf : ∀ e older, e :: older <:+ p.trace → Found cfg older e)
include hf

/-- a client's code is issued once -/
theorem insertOIDCCode_once {e1 e2 : AuthEntry} {o1 o2 : Trace} (h1 : e1 :: o1 <:+ p.trace)
    (h2 : e2 :: o2 <:+ p.trace) {h : Bytes} {c1 c2 : OidcCode} {k1 k2 : String}
    {x1 x2 : Except Failure Unit} (hc1 : e1.call = ⟨.insertOIDCCode h c1 k1, x1⟩)
    (hc2 : e2.call = ⟨.insertOIDCCode h c2 k2, x2⟩) : e1 = e2 ∧ o1 = o2 := by
  have hd1 := called hg h1
  have hd2 := called hg h2
  rw [hc1] at hd1
  rw [hc2] at hd2
  obtain ⟨⟨sid1, t1, l1, hl1, ht1⟩, -⟩ := hd1
  obtain ⟨⟨sid2, t2, l2, hl2, ht2⟩, -⟩ := hd2
  exact drawn_once hf h1 h2 (a := [⟨.appSID c1.deploymentID k1, sid1⟩])
    (b := [⟨.appSID c2.deploymentID k2, sid2⟩]) hl1 hl2 rfl (ht1.symm.trans ht2)

/-- no code is issued to a header app and to a client -/
theorem not_insertCode_insertOIDCCode {e1 e2 : AuthEntry} {o1 o2 : Trace}
    (h1 : e1 :: o1 <:+ p.trace) (h2 : e2 :: o2 <:+ p.trace) {h : Bytes} {c1 : CodeRecord}
    {c2 : OidcCode} {ksid : String} {x1 x2 : Except Failure Unit}
    (hc1 : e1.call = ⟨.insertCode h c1, x1⟩) (hc2 : e2.call = ⟨.insertOIDCCode h c2 ksid, x2⟩) :
    False := by
  have hd1 := called hg h1
  have hd2 := called hg h2
  rw [hc1] at hd1
  rw [hc2] at hd2
  obtain ⟨⟨t1, l1, hl1, ht1⟩, -⟩ := hd1
  obtain ⟨⟨sid, t2, l2, hl2, ht2⟩, -⟩ := hd2
  obtain ⟨hw, rfl⟩ := drawn_same hf h1 h2 (a := []) (b := [⟨.appSID c2.deploymentID ksid, sid⟩]) hl1
    hl2 (ht1.symm.trans ht2)
  -- the call after the draw would be the issue of the one code, and the sid of the other
  have hlog1 := logOf_suffix e1.who h1
  have hlog2 := (logOf_suffix e2.who ((List.suffix_cons _ _).trans h2))
  rw [logOf_self, hl1, hc1, hw] at hlog1
  rw [hl2] at hlog2
  have heq := List.suffix_of_suffix_length_le hlog1 hlog2 (by simp)
  have hcons := heq.eq_of_length (by simp)
  cases hcons

end

/-! ## What a call leaves behind -/

theorem not_cons_suffix {α : Type} {a : α} {l : List α} : ¬ a :: l <:+ l := by
  intro h
  have := h.length_le
  rw [List.length_cons] at this
  omega

/-- a call that draws no token and redeems no code -/
@[simp] def Plain : Base.Call Ret → Prop
  | ⟨.random, _⟩ => False
  | ⟨.redeemCode _, .ok (some _)⟩ => False
  | ⟨.redeemOIDCCode _, .ok (some _)⟩ => False
  | _ => True

theorem plain_of_quiet {o : Op} {x : Ret o} (h : Quiet o x) : Plain ⟨o, x⟩ := by
  cases o with
  | random => exact h
  | redeemCode hash =>
    cases x with
    | error e => exact trivial
    | ok p => exact h.elim
  | redeemOIDCCode hash =>
    cases x with
    | error e => exact trivial
    | ok p => exact h.elim
  | _ => exact trivial

/-- one more call in the trace, of a store that accounts for it -/
theorem Recorded.push (hr : Recorded s tr) (ht : e.time = s.now)
    (hd : ∀ t, e.call = ⟨.random, t⟩ → t ∈ s.drawn)
    (hc : ∀ r ∈ s.codes, ∀ p, e.call ≠ ⟨.redeemCode r.codeHash, .ok (some p)⟩)
    (ho : ∀ r ∈ s.oidcCodes, ∀ p, e.call ≠ ⟨.redeemOIDCCode r.codeHash, .ok (some p)⟩) :
    Recorded s (e :: tr) where
  times := by
    intro e' he'
    rcases List.mem_cons.mp he' with rfl | he'
    · exact ht.le
    · exact hr.times e' he'
  drawn := by
    intro e' he' t hcall
    rcases List.mem_cons.mp he' with rfl | he'
    · exact hd t hcall
    · exact hr.drawn e' he' t hcall
  sealed := by
    intro r h
    obtain ⟨e', he', h⟩ := hr.sealed r h
    exact ⟨e', List.mem_cons_of_mem _ he', h⟩
  consents := by
    intro r h
    obtain ⟨e', he', h⟩ := hr.consents r h
    exact ⟨e', List.mem_cons_of_mem _ he', h⟩
  codes := by
    intro r h
    obtain ⟨e', he', h⟩ := hr.codes r h
    exact ⟨e', List.mem_cons_of_mem _ he', h⟩
  codesLeft := by
    intro r h e' he' p
    rcases List.mem_cons.mp he' with rfl | he'
    · exact hc r h p
    · exact hr.codesLeft r h e' he' p
  oidcCodes := by
    intro r h
    obtain ⟨e', he', h⟩ := hr.oidcCodes r h
    exact ⟨e', List.mem_cons_of_mem _ he', h⟩
  oidcCodesLeft := by
    intro r h e' he' p
    rcases List.mem_cons.mp he' with rfl | he'
    · exact ho r h p
    · exact hr.oidcCodesLeft r h e' he' p
  ended := by
    intro r h
    obtain ⟨e', he', h⟩ := hr.ended r h
    exact ⟨e', List.mem_cons_of_mem _ he', h⟩

theorem Recorded.push_plain (hr : Recorded s tr) (ht : e.time = s.now) (hp : Plain e.call) :
    Recorded s (e :: tr) := by
  refine hr.push ht (fun t h => ?_) (fun r _ p h => ?_) fun r _ p h => ?_
  · rw [h] at hp
    exact hp.elim
  · rw [h] at hp
    exact hp.elim
  · rw [h] at hp
    exact hp.elim

/-- the records of a store whose tables have lost rows -/
theorem Recorded.subset (hr : Recorded s tr) (hn : t.now = s.now) (hd : s.drawn ⊆ t.drawn)
    (hs : t.sealed = s.sealed) (hk : t.consents ⊆ s.consents) (hc : t.codes ⊆ s.codes) (ho : t.oidcCodes ⊆ s.oidcCodes)
    (he : t.ended ⊆ s.ended) : Recorded t tr where
  times := hn ▸ hr.times
  drawn := fun e he r h => hd (hr.drawn e he r h)
  sealed := hs ▸ hr.sealed
  consents := fun r h => hr.consents r (hk h)
  codes := fun r h => hr.codes r (hc h)
  codesLeft := fun r h => hr.codesLeft r (hc h)
  oidcCodes := fun r h => hr.oidcCodes r (ho h)
  oidcCodesLeft := fun r h => hr.oidcCodesLeft r (ho h)
  ended := fun r h => hr.ended r (he h)

theorem purge_ended (s : Store) (table : AuthTable) :
    (s.purge table).2.now = s.now ∧ s.drawn ⊆ (s.purge table).2.drawn ∧
      (s.purge table).2.sealed = s.sealed ∧ (s.purge table).2.consents = s.consents ∧
      (s.purge table).2.codes ⊆ s.codes ∧
      (s.purge table).2.oidcCodes ⊆ s.oidcCodes ∧ (s.purge table).2.ended ⊆ s.ended := by
  cases table with
  | code =>
    exact ⟨rfl, fun _ h => h, rfl, rfl, fun _ h => List.mem_of_mem_filter h, fun _ h => h,
      fun _ h => h⟩
  | oidcCode =>
    exact ⟨rfl, fun _ h => h, rfl, rfl, fun _ h => h, fun _ h => List.mem_of_mem_filter h,
      fun _ h => h⟩
  | signIn => exact ⟨rfl, fun _ h => h, rfl, rfl, fun _ h => h, fun _ h => h, fun _ h => h⟩
  | endedSession =>
    exact ⟨rfl, fun _ h => h, rfl, rfl, fun _ h => h, fun _ h => h,
      fun _ h => List.mem_of_mem_filter h⟩

/-- the records after a call, where a code it stores was not redeemed before -/
theorem Recorded.call {o : Op} {x : Ret o} (hr : Recorded s tr) (hd : Does cfg s o x t)
    (hcall : e.call = ⟨o, x⟩) (ht : e.time = s.now)
    (hnew : ∀ h rec, o = .insertCode h rec → ∀ e ∈ tr, ∀ p, e.call ≠ ⟨.redeemCode h, .ok (some p)⟩)
    (hnewO : ∀ h c ksid, o = .insertOIDCCode h c ksid →
      ∀ e ∈ tr, ∀ p, e.call ≠ ⟨.redeemOIDCCode h, .ok (some p)⟩) :
    Recorded t (e :: tr) := by
  have hpush : Plain ⟨o, x⟩ → Recorded s (e :: tr) := fun h => hr.push_plain ht (hcall ▸ h)
  cases hd with
  | nothing h => exact hpush (plain_of_quiet h)
  | draws r h =>
    have hr' : Recorded { s with drawn := r :: s.drawn } tr :=
      hr.subset rfl (fun _ h => List.mem_cons_of_mem _ h) rfl (fun _ h => h) (fun _ h => h)
        (fun _ h => h) fun _ h => h
    refine hr'.push ht (fun u hu => ?_) (fun _ _ p hc => ?_) fun _ _ p hc => ?_
    · rw [hcall] at hu
      cases hu
      exact List.mem_cons_self
    · rw [hcall] at hc
      cases hc
    · rw [hcall] at hc
      cases hc
  | seals v ttl handle h =>
    refine { hpush trivial with sealed := fun r hmem => ?_ }
    rcases List.mem_append.mp hmem with hmem | hmem
    · exact (hpush trivial).sealed r hmem
    · obtain rfl := List.mem_singleton.mp hmem
      exact ⟨e, List.mem_cons_self, ttl, hcall, by rw [ht]⟩
  | binds b sub name x h =>
    rw [bindEntry_frame]
    exact { hpush trivial with }
  | consents sub d claims x =>
    refine { hpush trivial with consents := fun r hmem => ?_ }
    rcases List.mem_append.mp hmem with hmem | hmem
    · exact (hpush trivial).consents r (List.mem_of_mem_filter hmem)
    · obtain rfl := List.mem_singleton.mp hmem
      exact ⟨e, List.mem_cons_self, x, hcall⟩
  | insertsCode h rec x =>
    refine { hpush trivial with codes := fun r hmem => ?_, codesLeft := fun r hmem e' he' p hc => ?_ }
    · rcases List.mem_append.mp hmem with hmem | hmem
      · exact (hpush trivial).codes r hmem
      · obtain rfl := List.mem_singleton.mp hmem
        exact ⟨e, List.mem_cons_self, x, hcall, by rw [ht]⟩
    · rcases List.mem_append.mp hmem with hmem | hmem
      · exact (hpush trivial).codesLeft r hmem e' he' p hc
      · obtain rfl := List.mem_singleton.mp hmem
        rcases List.mem_cons.mp he' with rfl | he'
        · rw [hcall] at hc
          cases hc
        · exact hnew h rec rfl e' he' p hc
  | redeemsCode h x hx =>
    have hr' : Recorded (s.redeemCode h).2 tr :=
      hr.subset rfl (fun _ h => h) rfl (fun _ h => h) (fun _ h => List.mem_of_mem_filter h)
        (fun _ h => h) fun _ h => h
    refine hr'.push ht (fun u hu => ?_) (fun r hmem p hc => ?_) fun _ _ p hc => ?_
    · rw [hcall] at hu
      cases hu
    · rw [hcall] at hc
      cases hc
      simp [Store.redeemCode] at hmem
    · rw [hcall] at hc
      cases hc
  | insertsOIDCCode h c ksid x =>
    refine { hpush trivial with
      oidcCodes := fun r hmem => ?_, oidcCodesLeft := fun r hmem e' he' p hc => ?_ }
    · rcases List.mem_append.mp hmem with hmem | hmem
      · exact (hpush trivial).oidcCodes r hmem
      · obtain rfl := List.mem_singleton.mp hmem
        exact ⟨e, List.mem_cons_self, c, ksid, x, hcall, rfl, by rw [ht]⟩
    · rcases List.mem_append.mp hmem with hmem | hmem
      · exact (hpush trivial).oidcCodesLeft r hmem e' he' p hc
      · obtain rfl := List.mem_singleton.mp hmem
        rcases List.mem_cons.mp he' with rfl | he'
        · rw [hcall] at hc
          cases hc
        · exact hnewO h c ksid rfl e' he' p hc
  | redeemsOIDCCode h x hx =>
    have hr' : Recorded (s.redeemOIDCCode h).2 tr :=
      hr.subset rfl (fun _ h => h) rfl (fun _ h => h) (fun _ h => h)
        (fun _ h => List.mem_of_mem_filter h) fun _ h => h
    refine hr'.push ht (fun u hu => ?_) (fun _ _ p hc => ?_) fun r hmem p hc => ?_
    · rw [hcall] at hu
      cases hu
    · rw [hcall] at hc
      cases hc
    · rw [hcall] at hc
      cases hc
      simp [Store.redeemOIDCCode] at hmem
  | endsSession ksid x hx =>
    refine { hpush trivial with ended := fun r hmem => ?_ }
    have hmem : r ∈ if s.ended.any fun e => e.id == ksid then s.ended
      else s.ended ++ [⟨ksid, s.now⟩] := hmem
    split at hmem
    · exact (hpush trivial).ended r hmem
    · rcases List.mem_append.mp hmem with hmem | hmem
      · exact (hpush trivial).ended r hmem
      · obtain rfl := List.mem_singleton.mp hmem
        exact ⟨e, List.mem_cons_self, x, hcall, ht.symm⟩
  | purges table x =>
    obtain ⟨h1, h2, h3, h4, h5, h6, h7⟩ := purge_ended s table
    exact (hpush trivial).subset h1 h2 h3 (fun _ h => h4 ▸ h) h5 h6 h7
  | merges rows => exact { hpush trivial with }
  | keeps host list => exact { hpush trivial with }

/-! ## What an answer says -/

theorem unsealed_of_openSealed (hr : Recorded s tr) {raw : String} {v : Sealed}
    (h : s.openSealed raw = some v) : Unsealed tr s.now raw v := by
  obtain ⟨r, hr', rfl⟩ := Option.map_eq_some_iff.mp h
  obtain ⟨hfind, hexp⟩ := Option.filter_eq_some_iff.mp hr'
  have hraw : r.handle = raw := by simpa using List.find?_some hfind
  obtain ⟨e, he, ttl, hcall, hx⟩ := hr.sealed r (List.mem_of_find?_eq_some hfind)
  exact ⟨e, he, ttl, hraw ▸ hcall, hx ▸ of_decide_eq_true hexp⟩

theorem openFlow_eq {raw : String} {f : Flow} (h : s.openFlow raw = some f) :
    s.openSealed raw = some (.flow f) := by
  unfold Store.openFlow at h
  split at h
  · rename_i f' hf
    rw [hf, Option.some.inj h]
  · cases h

theorem openConsent_eq {raw : String} {pc : PendingConsent} (h : s.openConsent raw = some pc) :
    s.openSealed raw = some (.consent pc) := by
  unfold Store.openConsent at h
  split at h
  · rename_i pc' hf
    rw [hf, Option.some.inj h]
  · cases h

theorem openSession_eq {raw : String} {x : Session} (h : s.openSession raw = some x) :
    s.openSealed raw = some (.session x) := by
  unfold Store.openSession at h
  split at h
  · rename_i x' hf
    rw [hf, Option.some.inj h]
  · cases h

theorem redeemCode_eq {h : Bytes} {rec : CodeRecord} {fresh : Bool}
    (hx : (s.redeemCode h).1 = some (rec, fresh)) :
    ∃ r ∈ s.codes, r.codeHash = h ∧ r.code = rec ∧ (fresh = true → s.now < r.expiresAt) := by
  obtain ⟨r, hfind, hp⟩ := Option.map_eq_some_iff.mp hx
  obtain ⟨hc, hfresh⟩ := Prod.mk.inj hp
  have hhash : r.codeHash = h := by simpa using List.find?_some hfind
  exact ⟨r, List.mem_of_find?_eq_some hfind, hhash, hc, fun h => of_decide_eq_true (hfresh.trans h)⟩

theorem redeemOIDCCode_eq {h : Bytes} {rec : OidcCode} {fresh : Bool}
    (hx : (s.redeemOIDCCode h).1 = some (rec, fresh)) :
    ∃ r ∈ s.oidcCodes, r.codeHash = h ∧ r.code = rec ∧ (fresh = true → s.now < r.expiresAt) := by
  obtain ⟨r, hfind, hp⟩ := Option.map_eq_some_iff.mp hx
  obtain ⟨hc, hfresh⟩ := Prod.mk.inj hp
  have hhash : r.codeHash = h := by simpa using List.find?_some hfind
  exact ⟨r, List.mem_of_find?_eq_some hfind, hhash, hc, fun h => of_decide_eq_true (hfresh.trans h)⟩

theorem hasConsent_eq {sub d : String} {claims : List String}
    (h : s.hasConsent sub d claims = true) :
    ∃ r ∈ s.consents, r.subject = sub ∧ r.deploymentID = d ∧ claims ⊆ r.claims := by
  obtain ⟨r, hmem, hr⟩ := List.any_eq_true.mp h
  simp only [Bool.and_eq_true, beq_iff_eq, List.all_eq_true, List.contains_iff_mem] at hr
  exact ⟨r, hmem, hr.1.1, hr.1.2, fun c hc => hr.2 c hc⟩

/-- each answer is accounted for by the calls before it -/
theorem found_of_perform {o : Op} {x : Ret o} {c : Choice} (hr : Recorded s tr)
    (hp : perform cfg s o c = some (x, t)) (hcall : e.call = ⟨o, x⟩) (ht : e.time = s.now) :
    Found cfg tr e := by
  have hd := does_of_perform hp
  have htold := told_of_perform hp
  unfold Found
  rw [hcall, ht]
  cases o with
  | random =>
    cases hd with
    | nothing h => exact h.elim
    | draws r h => exact fun e' he' t' hc => h t' (hr.drawn e' he' t' hc)
  | openFlow raw =>
    intro f hf
    exact unsealed_of_openSealed hr (openFlow_eq (htold.symm.trans hf))
  | openConsent raw =>
    intro pc hpc
    exact unsealed_of_openSealed hr (openConsent_eq (htold.symm.trans hpc))
  | openSession raw =>
    intro x' hx'
    exact unsealed_of_openSealed hr (openSession_eq (htold.symm.trans hx'))
  | ssoClient d =>
    intro client hx
    obtain ⟨a, -, ha⟩ := Option.map_eq_some_iff.mp (htold _ hx).symm
    rw [← ha]
  | hasConsent sub d claims =>
    intro hx
    obtain ⟨r, hmem, rfl, rfl, hsub⟩ := hasConsent_eq (htold true hx).symm
    obtain ⟨e', he', y, hc⟩ := hr.consents r hmem
    exact ⟨e', he', r.claims, y, hc, hsub⟩
  | redeemCode h =>
    intro rec fresh hx
    cases hd with
    | nothing hq =>
      rw [hx] at hq
      exact hq.elim
    | redeemsCode h x harr =>
      obtain harr | harr := harr
      · obtain ⟨r, hmem, rfl, rfl, hfresh⟩ := redeemCode_eq (Except.ok.inj (harr.symm.trans hx))
        obtain ⟨e', he', y, hc, hexp⟩ := hr.codes r hmem
        exact ⟨⟨e', he', y, hc, fun h => hexp ▸ hfresh h⟩, hr.codesLeft r hmem⟩
      · rw [harr] at hx
        cases hx
  | redeemOIDCCode h =>
    intro rec fresh hx
    cases hd with
    | nothing hq =>
      rw [hx] at hq
      exact hq.elim
    | redeemsOIDCCode h x harr =>
      obtain harr | harr := harr
      · obtain ⟨r, hmem, rfl, rfl, hfresh⟩ :=
          redeemOIDCCode_eq (Except.ok.inj (harr.symm.trans hx))
        obtain ⟨e', he', c', ksid, y, hc, hcode, hexp⟩ := hr.oidcCodes r hmem
        exact ⟨⟨e', he', c', ksid, y, hc, hcode, fun h => hexp ▸ hfresh h⟩,
          hr.oidcCodesLeft r hmem⟩
      · rw [harr] at hx
        cases hx
  | endedSessions since =>
    intro rows hx r hmem
    rw [htold rows hx] at hmem
    exact hr.ended r (List.mem_of_mem_filter hmem)
  | _ => trivial

/-! ## The history of a run -/

theorem recorded_fresh (now : Time) (platform : Platform) (entries : List AccessEntryRow) :
    Recorded (Store.fresh now platform entries) [] where
  times := fun _ he => nomatch he
  drawn := fun _ he => nomatch he
  sealed := fun _ h => nomatch h
  consents := fun _ h => nomatch h
  codes := fun _ h => nomatch h
  codesLeft := fun _ h => nomatch h
  oidcCodes := fun _ h => nomatch h
  oidcCodesLeft := fun _ h => nomatch h
  ended := fun _ h => nomatch h

theorem Recorded.change {w : World} (hr : Recorded s tr) (h : change s w = some t) :
    Recorded t tr := by
  cases w with
  | pass d =>
    cases h
    exact { hr with times := fun e he => (hr.times e he).trans (Nat.le_add_right _ _) }
  | platform p =>
    cases h
    exact { hr with }
  | addEntry id d email =>
    have h : s.addEntry id d email = some t := h
    unfold Store.addEntry at h
    split at h
    · cases h
    · cases h
      exact { hr with }
  | dropEntry id =>
    cases h
    exact { hr with }
  | dropDeployment d =>
    cases h
    exact hr.subset rfl (fun _ h => h) rfl (fun _ h => List.mem_of_mem_filter h) (fun _ h => h)
      (fun _ h => List.mem_of_mem_filter h) fun _ h => h
  | rotate key =>
    cases h
    exact { hr with }

/-- the run was asked nothing at its start -/
def Started (p : AuthPool) : Prop :=
  ∃ now platform entries, p = Service.start (Store.fresh now platform entries)

/-- **the history of a run**: its store holds what its calls put there, and each answer is accounted
for by the calls before it -/
theorem history {ok : AuthPool → AuthEvent → Prop} {p0 p : AuthPool} (h0 : Started p0)
    (h : (service cfg).machine.Reach ok p0 p) :
    Grounded (service cfg) p ∧ Recorded p.store p.trace ∧
      ∀ e older, e :: older <:+ p.trace → Found cfg older e := by
  obtain ⟨now, platform, entries, rfl⟩ := h0
  refine Machine.Reach.history (meets_handler cfg) (recorded_fresh now platform entries) ?_ ?_ h
  · intro p w s _ hr hc
    exact hr.change hc
  · intro p i c req o k x s _ hg hr hf _ hdeed hp
    have hfound : Found cfg p.trace ⟨i, req, ⟨o, x⟩, p.store.now⟩ :=
      found_of_perform hr hp rfl rfl
    have hf' : ∀ e older, e :: older <:+ (⟨i, req, ⟨o, x⟩, p.store.now⟩ : AuthEntry) :: p.trace →
        Found cfg older e := by
      intro e older he
      rcases List.suffix_cons_iff.mp he with heq | hsuf
      · obtain ⟨rfl, rfl⟩ := List.cons.inj heq
        exact hfound
      · exact hf e older hsuf
    -- what is made from a token that was just drawn was not there before
    refine ⟨hr.call (does_of_perform hp) rfl rfl ?_ ?_, hfound⟩
    · rintro h rec rfl e he q hc
      obtain ⟨older, hsuf⟩ := exists_suffix_of_mem he
      have hfe := hf e older hsuf
      unfold Found at hfe
      rw [hc] at hfe
      obtain ⟨⟨e', he', y, hc', -⟩, -⟩ := hfe q.1 q.2 rfl
      obtain ⟨older', hsuf'⟩ := exists_suffix_of_mem he'
      have hs' := hsuf'.trans ((List.suffix_cons _ _).trans hsuf)
      have hd' := called hg hs'
      rw [hc'] at hd'
      obtain ⟨⟨t1, l1, hl1, ht1⟩, -⟩ := hdeed
      obtain ⟨⟨t2, l2, hl2, ht2⟩, -⟩ := hd'
      obtain ⟨-, rfl⟩ := drawn_once hf' (List.suffix_refl _) (hs'.trans (List.suffix_cons _ _))
        (a := []) (b := []) hl1 hl2 rfl (ht1.symm.trans ht2)
      exact not_cons_suffix hs'
    · rintro h rec ksid rfl e he q hc
      obtain ⟨older, hsuf⟩ := exists_suffix_of_mem he
      have hfe := hf e older hsuf
      unfold Found at hfe
      rw [hc] at hfe
      obtain ⟨⟨e', he', c', ksid', y, hc', -⟩, -⟩ := hfe q.1 q.2 rfl
      obtain ⟨older', hsuf'⟩ := exists_suffix_of_mem he'
      have hs' := hsuf'.trans ((List.suffix_cons _ _).trans hsuf)
      have hd' := called hg hs'
      rw [hc'] at hd'
      obtain ⟨⟨sid1, t1, l1, hl1, ht1⟩, -⟩ := hdeed
      obtain ⟨⟨sid2, t2, l2, hl2, ht2⟩, -⟩ := hd'
      obtain ⟨-, rfl⟩ := drawn_once hf' (List.suffix_refl _) (hs'.trans (List.suffix_cons _ _))
        (a := [⟨.appSID rec.deploymentID ksid, sid1⟩])
        (b := [⟨.appSID c'.deploymentID ksid', sid2⟩]) hl1 hl2 rfl (ht1.symm.trans ht2)
      exact not_cons_suffix hs'

/-- what is known of every state of a run -/
structure Known (cfg : Config) (p : AuthPool) : Prop where
  grounded : Grounded (service cfg) p
  recorded : Recorded p.store p.trace
  found : ∀ e older, e :: older <:+ p.trace → Found cfg older e

theorem known {ok : AuthPool → AuthEvent → Prop} {p0 p : AuthPool} (h0 : Started p0)
    (h : (service cfg).machine.Reach ok p0 p) : Known cfg p :=
  have ⟨hg, hr, hf⟩ := history h0 h
  ⟨hg, hr, hf⟩

/-- it may be assumed at each step -/
theorem reach_known {ok : AuthPool → AuthEvent → Prop} {p0 p : AuthPool} (h0 : Started p0)
    (h : (service cfg).machine.Reach ok p0 p) :
    (service cfg).machine.Reach (fun p ev => ok p ev ∧ Known cfg p) p0 p := by
  refine h.strengthen (P := (service cfg).machine.Reach ok p0) .refl ?_ ?_
  · intro s a t hs ha hstep
    exact hs.tail ha hstep
  · intro s a hs ha
    exact ⟨ha, known h0 hs⟩

end Freepod.Auth
