import Mathlib.Data.List.Find
import Freepod.Properties.Ended

/-!
# Sign-ins and their sign-out

When Keycloak ends a session, `endSession` returns the clients that were signed in from it, each
with the `sid` its tokens carry.

* `Settled`: nothing made from the session is pending.  `Settled.step` keeps it once the session has
  ended, so then no code is issued from it and none is redeemed for tokens.
* `SidsKept`: before the end, the sign-in of every code from the session is on record with its sid.
* `sign_outs_find_sign_ins`: the two together.
* A consent page that is open when the session ends still signs in: `sign_in_not_found`.
-/

namespace Freepod.Auth
open Base

variable {cfg : Config} {s t : Store} {tr : Trace} {p q : AuthPool} {ksid : String}

/-! ## What is pending -/

/-- a request with this log has an identity from `ksid`, to sign it in to a client -/
def Holds (log : Log Ret) (ksid : String) : Prop :=
  (∃ raw f code v t, Made log (.openFlow raw) (some f) ∧ f.oidc ≠ none ∧
    Made log (.idToken code v) (some t) ∧ t.sid = ksid) ∨
  ∃ raw pc, Made log (.openConsent raw) (some pc) ∧ pc.oidc ≠ none ∧ pc.keycloakSID = ksid

/-- nothing made from `ksid` for a client is pending: every consent page and every code has expired,
and every request that has an identity has been answered -/
structure Settled (p : AuthPool) (ksid : String) : Prop where
  pages : ∀ e ∈ p.trace, ∀ pc ttl handle, e.call = ⟨.seal (.consent pc) ttl, .ok handle⟩ →
    pc.oidc ≠ none → pc.keycloakSID = ksid → unix (e.time + ttl) ≤ unix p.store.now
  codes : ∀ e ∈ p.trace, ∀ h c x, e.call = ⟨.insertOIDCCode h c ksid, x⟩ →
    ∀ r ∈ p.store.oidcCodes, r.codeHash = h → r.expiresAt ≤ p.store.now
  requests : ∀ (i : Nat) t, p.threads[i]? = some t → t.prog.answer? = none →
    ¬ Holds (logOf i p.trace) ksid

/-- an identity for a client's code comes with what the request holds -/
theorem holds_of_flow {log : Log Ret} {oidc : Option OidcRequest} {sub email : String} {f : Flow}
    (h : FromFlow cfg log oidc sub email ksid f) (ho : oidc ≠ none) : Holds log ksid := by
  obtain ⟨hoidc, id, ⟨⟨raw, hraw⟩, code, t, ht, hid⟩, -, -, hksid⟩ := h
  cases t with
  | none => cases hid
  | some t =>
    refine .inl ⟨raw, f, code, f.verifier, t, hraw, hoidc ▸ ho, ht, ?_⟩
    unfold identityOf at hid
    simp only at hid
    split at hid
    · cases hid
    · split at hid
      · cases hid
      · split at hid
        · cases hid
        · rw [← hksid, ← Except.ok.inj hid]

theorem holds_of_insert {log : Log Ret} {h : Bytes} {c : OidcCode}
    (hd : InsertsOIDCCode cfg log h c ksid) : Holds log ksid := by
  obtain ⟨-, r, client, -, -, -, -, -, -, -, ⟨f, hf⟩ | ⟨pc, hpc⟩⟩ := hd
  · exact holds_of_flow hf (Option.some_ne_none r)
  · obtain ⟨raw, hraw⟩ := hpc.opened
    exact .inr ⟨raw, pc, hraw, hpc.oidc ▸ Option.some_ne_none r, hpc.ksid⟩

/-- one more call gives a request nothing, unless it is an identity or a consent page of `ksid` -/
theorem not_holds_cons {c : Base.Call Ret} {log : Log Ret} (h : ¬ Holds log ksid)
    (hflow : ∀ raw f, c = ⟨.openFlow raw, some f⟩ → NoToken log)
    (htoken : ∀ code v t, c = ⟨.idToken code v, some t⟩ → t.sid ≠ ksid)
    (hpage : ∀ raw pc, c = ⟨.openConsent raw, some pc⟩ → pc.oidc ≠ none → pc.keycloakSID ≠ ksid) :
    ¬ Holds (c :: log) ksid := by
  rintro (⟨raw, f, code, v, t, hf, ho, ht, hsid⟩ | ⟨raw, pc, hpc, ho, hsid⟩)
  · rcases List.mem_cons.mp ht with heq | ht
    · exact htoken code v t heq.symm hsid
    · rcases List.mem_cons.mp hf with heq | hf
      · exact hflow raw f heq.symm code v (some t) ht
      · exact h (.inl ⟨raw, f, code, v, t, hf, ho, ht, hsid⟩)
  · rcases List.mem_cons.mp hpc with heq | hpc
    · exact hpage raw pc heq.symm ho hsid
    · exact h (.inr ⟨raw, pc, hpc, ho, hsid⟩)

theorem not_holds_nil : ¬ Holds [] ksid := by
  rintro (⟨raw, f, code, v, t, hf, -⟩ | ⟨raw, pc, hpc, -⟩)
  · cases hf
  · cases hpc

/-! ## Once nothing is pending -/

/-- Keycloak makes no token for a session it has ended -/
def NoTokenAfterEnd (p : AuthPool) (ev : AuthEvent) : Prop :=
  ∀ i t, ev = .run i (.keycloak (some t)) → ∀ e ∈ p.trace, ∀ x, e.call ≠ ⟨.endSession t.sid, x⟩

theorem change_codes {w : World} (h : change s w = some t) :
    s.now ≤ t.now ∧ t.oidcCodes ⊆ s.oidcCodes := by
  cases w with
  | pass d =>
    cases h
    exact ⟨Nat.le_add_right _ _, fun _ h => h⟩
  | addEntry id d email =>
    have h : s.addEntry id d email = some t := h
    unfold Store.addEntry at h
    split at h
    · cases h
    · cases h
      exact ⟨Nat.le_refl _, fun _ h => h⟩
  | dropDeployment d =>
    cases h
    exact ⟨Nat.le_refl _, fun _ h => List.mem_of_mem_filter h⟩
  | _ =>
    cases h
    exact ⟨Nat.le_refl _, fun _ h => h⟩

/-- **nothing becomes pending again** -/
theorem Settled.step {a : AuthEvent} (hs : Settled p ksid) (hk : Known cfg p) (hq : Known cfg q)
    (htoken : ∀ i t, a = .run i (.keycloak (some t)) → t.sid ≠ ksid)
    (hstep : (service cfg).step p a = some q) : Settled q ksid := by
  obtain ⟨req, rfl, rfl⟩ | ⟨i, c, req, o, k, x, s, rfl, hth, hp, rfl⟩ | ⟨w, s, rfl, hc, rfl⟩ :=
    step_cases hstep
  · refine ⟨hs.pages, hs.codes, fun i t ht hun => ?_⟩
    rcases thread_of_arrive ht with ht | ⟨rfl, rfl⟩
    · exact hs.requests i t ht hun
    · show ¬ Holds (logOf p.threads.length p.trace) ksid
      rw [hk.grounded.logOf_eq_nil (Nat.le_refl _)]
      exact not_holds_nil
  · have hdeed := hk.grounded.next (meets_handler cfg) hth
    have hdeed : deed cfg req (logOf i p.trace) o := hdeed
    have hp : perform cfg p.store o c = some (x, s) := hp
    have hdoes := does_of_perform hp
    have hfree : ¬ Holds (logOf i p.trace) ksid := hs.requests i _ hth rfl
    refine ⟨?_, ?_, ?_⟩
    · intro e he pc ttl handle hcall ho hsid
      show unix (e.time + ttl) ≤ unix s.now
      rw [hdoes.now_eq]
      rcases List.mem_cons.mp he with rfl | he
      · cases hcall
        obtain ⟨-, f, hf, -⟩ := hdeed
        exact absurd (hsid ▸ holds_of_flow hf ho) hfree
      · exact hs.pages e he pc ttl handle hcall ho hsid
    · intro e he h c' x' hcall r hr hhash
      show r.expiresAt ≤ s.now
      rw [hdoes.now_eq]
      rcases List.mem_cons.mp he with rfl | hmem
      · cases hcall
        exact absurd (holds_of_insert hdeed) hfree
      · rcases hdoes.oidcCodes_mem hr with hr | ⟨c2, ksid2, rfl, -⟩
        · exact hs.codes e hmem h c' x' hcall r hr hhash
        · -- a code is issued once
          obtain ⟨older, hsuf⟩ := exists_suffix_of_mem hmem
          subst hhash
          obtain ⟨-, rfl⟩ := insertOIDCCode_once hq.grounded hq.found
            (hsuf.trans (List.suffix_cons _ _)) (List.suffix_refl _) hcall rfl
          exact absurd hsuf not_cons_suffix
    · intro j t ht hun
      show ¬ Holds (logOf j (_ :: p.trace)) ksid
      rw [logOf_cons]
      by_cases hj : i = j
      · subst hj
        rw [if_pos rfl]
        refine not_holds_cons hfree ?_ ?_ ?_
        · intro raw f hcall
          cases hcall
          exact hdeed
        · intro code v t hcall
          cases hcall
          cases c with
          | keycloak t' =>
            cases hp
            exact htoken i t rfl
          | _ => cases hp
        · intro raw pc hcall ho hsid
          cases hcall
          obtain ⟨e, he, ttl, hc, hlt⟩ := hq.found _ _ (List.suffix_refl _) pc rfl
          have hle := hs.pages e he pc ttl raw hc ho hsid
          exact absurd hlt (Nat.not_lt.mpr hle)
      · rw [if_neg hj]
        have ht : (p.threads.set i ⟨req, k x⟩)[j]? = some t := ht
        rw [List.getElem?_set_ne hj] at ht
        exact hs.requests j t ht hun
  · obtain ⟨hnow, hcodes⟩ := change_codes hc
    refine ⟨fun e he pc ttl handle hcall ho hsid => ?_, fun e he h c x hcall r hr hhash => ?_,
      hs.requests⟩
    · exact (hs.pages e he pc ttl handle hcall ho hsid).trans (unix_mono hnow)
    · exact (hs.codes e he h c x hcall r (hcodes hr) hhash).trans hnow

/-! ## The sid of a sign-in -/

/-- the sid of the sign-in on record -/
def Store.signedIn (s : Store) (ksid d : String) : Option String :=
  (s.signIns.find? fun r => r.keycloakSID == ksid && r.deploymentID == d).map (·.sid)

theorem sidOf_eq (s : Store) (ksid d sid : String) :
    s.sidOf ksid d sid = (s.signedIn ksid d).getD sid := rfl

/-- what is looked up is found among the rows that a filter keeps -/
theorem find_filter {α : Type} {rows : List α} {sought keep : α → Bool}
    (h : ∀ r ∈ rows, sought r = true → keep r = true) :
    (rows.filter keep).find? sought = rows.find? sought := by
  rw [List.find?_filter]
  refine List.find?_congr fun r hr => ?_
  cases hs : sought r with
  | false => simp
  | true => simp [h r hr hs]

/-- a sign-in keeps the sid it has -/
theorem signedIn_upsert (s : Store) (ksid d sub sid ksid' d' : String) :
    (s.upsertSignIn ksid d sub sid).signedIn ksid' d' =
      if ksid = ksid' ∧ d = d' then some (s.sidOf ksid d sid) else s.signedIn ksid' d' := by
  unfold Store.signedIn Store.upsertSignIn
  rw [List.find?_append]
  split
  · rename_i heq
    obtain ⟨rfl, rfl⟩ := heq
    have hnone : ((s.signIns.filter fun r => !(r.keycloakSID == ksid && r.deploymentID == d)).find?
        fun r => r.keycloakSID == ksid && r.deploymentID == d) = none := by
      rw [List.find?_eq_none]
      intro r hr hsought
      have hkeep := (List.mem_filter.mp hr).2
      rw [hsought] at hkeep
      cases hkeep
    rw [hnone, Option.none_or, List.find?_cons_of_pos (by simp)]
    rfl
  · rename_i hne
    rw [find_filter, List.find?_cons_of_neg, List.find?_nil, Option.or_none]
    · simpa using fun h => fun h' => hne ⟨h, h'⟩
    · intro r hr hsought
      have heq : r.keycloakSID = ksid' ∧ r.deploymentID = d' := by simpa using hsought
      simp only [Bool.not_eq_true', Bool.and_eq_false_iff, beq_eq_false_iff_ne]
      by_cases hk : r.keycloakSID = ksid
      · exact .inr fun hd => hne ⟨hk ▸ heq.1, hd ▸ heq.2⟩
      · exact .inl hk

theorem signedIn_endSession (s : Store) {ksid ksid' : String} (h : ksid ≠ ksid') (d : String) :
    (s.endSession ksid).2.signedIn ksid' d = s.signedIn ksid' d := by
  show ((s.signIns.filter _).find? _).map _ = _
  rw [find_filter]
  · rfl
  · intro r hr hsought
    have heq : r.keycloakSID = ksid' ∧ r.deploymentID = d := by simpa using hsought
    simpa using fun hk => h (hk.symm.trans heq.1)

/-- what `endSession` returns are the sign-ins on record -/
theorem mem_endSession {d sid : String} (h : s.signedIn ksid d = some sid) :
    ∃ sub, (⟨d, sub, sid⟩ : SignIn) ∈ (s.endSession ksid).1 := by
  obtain ⟨r, hfind, rfl⟩ := Option.map_eq_some_iff.mp h
  have hr : r.keycloakSID = ksid ∧ r.deploymentID = d := by simpa using List.find?_some hfind
  obtain ⟨rfl, rfl⟩ := hr
  refine ⟨r.subject, List.mem_map.mpr ⟨r, List.mem_filter.mpr ⟨?_, by simp⟩, rfl⟩⟩
  exact List.mem_of_find?_eq_some hfind

theorem ended_endSession (s : Store) (ksid : String) :
    ∃ r ∈ (s.endSession ksid).2.ended, r.id = ksid := by
  show ∃ r ∈ if s.ended.any fun e => e.id == ksid then s.ended
    else s.ended ++ [⟨ksid, s.now⟩], r.id = ksid
  split
  · rename_i h
    obtain ⟨r, hr, hid⟩ := List.any_eq_true.mp h
    exact ⟨r, hr, by simpa using hid⟩
  · exact ⟨_, List.mem_append_right _ (List.mem_singleton.mpr rfl), rfl⟩

section
variable {o : Op} {x : Ret o}

/-- the sid of a sign-in stays until its session has ended -/
theorem Does.signedIn_keep (h : Does cfg s o x t) (hended : ∀ r ∈ t.ended, r.id ≠ ksid)
    (hpurge : o ≠ .purge .signIn) {d v : String} (hv : s.signedIn ksid d = some v) :
    t.signedIn ksid d = some v := by
  cases h with
  | insertsOIDCCode hash c ksid' x =>
    show (s.upsertSignIn ksid' c.deploymentID c.subject c.sid).signedIn ksid d = some v
    rw [signedIn_upsert]
    split
    · rename_i heq
      obtain ⟨rfl, rfl⟩ := heq
      rw [sidOf_eq, hv]
      rfl
    · exact hv
  | endsSession ksid' x hx =>
    by_cases hk : ksid' = ksid
    · subst hk
      obtain ⟨r, hr, hid⟩ := ended_endSession s ksid'
      exact absurd hid (hended r hr)
    · rw [signedIn_endSession s hk]
      exact hv
  | binds e sub name x h =>
    rw [bindEntry_frame]
    exact hv
  | purges table x =>
    cases table with
    | signIn => exact absurd rfl hpurge
    | _ => exact hv
  | _ => exact hv

/-- ends stay on record, but for a purge -/
theorem Does.ended_subset (h : Does cfg s o x t) (hpurge : o ≠ .purge .endedSession) :
    s.ended ⊆ t.ended := by
  cases h with
  | endsSession ksid x hx =>
    show s.ended ⊆ if s.ended.any fun e => e.id == ksid then s.ended
      else s.ended ++ [⟨ksid, s.now⟩]
    split
    · exact fun _ h => h
    · exact fun _ h => List.mem_append_left _ h
  | binds e sub name x h =>
    rw [bindEntry_frame]
    exact fun _ h => h
  | purges table x =>
    cases table with
    | endedSession => exact absurd rfl hpurge
    | _ => exact fun _ h => h
  | _ => exact fun _ h => h

/-- an end is put on record by `endSession` -/
theorem Does.ended_mem (h : Does cfg s o x t) {r : EndedSession} (hr : r ∈ t.ended) :
    r ∈ s.ended ∨ o = .endSession r.id := by
  cases h with
  | endsSession ksid x hx =>
    have hr : r ∈ if s.ended.any fun e => e.id == ksid then s.ended
      else s.ended ++ [⟨ksid, s.now⟩] := hr
    split at hr
    · exact .inl hr
    · rcases List.mem_append.mp hr with hr | hr
      · exact .inl hr
      · obtain rfl := List.mem_singleton.mp hr
        exact .inr rfl
  | binds e sub name x h =>
    rw [bindEntry_frame] at hr
    exact .inl hr
  | purges table x =>
    cases table with
    | endedSession => exact .inl (List.mem_of_mem_filter hr)
    | _ => exact .inl hr
  | _ => exact .inl hr

/-- a code that was redeemed was in the table -/
theorem Does.redeemed_mem {h : Bytes} {rec : OidcCode} {fresh : Bool}
    (hd : Does cfg s (.redeemOIDCCode h) (.ok (some (rec, fresh))) t) :
    ∃ r ∈ s.oidcCodes, r.codeHash = h ∧ r.code = rec ∧ (fresh = true → s.now < r.expiresAt) := by
  cases hd with
  | nothing hq => exact hq.elim
  | redeemsOIDCCode h x hx =>
    obtain hx | hx := hx
    · exact redeemOIDCCode_eq (Except.ok.inj hx).symm
    · cases hx

end

/-! ## Before the end -/

/-- a code with this digest was issued for a sign-in made from `ksid` -/
def IssuedFrom (tr : Trace) (h : Bytes) (ksid : String) : Prop :=
  ∃ e ∈ tr, ∃ c x, e.call = ⟨.insertOIDCCode h c ksid, x⟩

/-- the sign-in of every code from `ksid`, also of one redeemed, is on record with the code's sid -/
structure SidsKept (p : AuthPool) (ksid : String) : Prop where
  codes : ∀ r ∈ p.store.oidcCodes, IssuedFrom p.trace r.codeHash ksid →
    p.store.signedIn ksid r.code.deploymentID = some r.code.sid
  redeemed : ∀ e ∈ p.trace, ∀ h rec fresh, e.call = ⟨.redeemOIDCCode h, .ok (some (rec, fresh))⟩ →
    IssuedFrom p.trace h ksid → p.store.signedIn ksid rec.deploymentID = some rec.sid

/-- two issues of one code are for one session -/
theorem issuedFrom_eq (hk : Known cfg p) {h : Bytes} {c1 c2 : OidcCode} {k1 k2 : String}
    {x1 x2 : Except Failure Unit} {e1 e2 : AuthEntry} (h1 : e1 ∈ p.trace) (h2 : e2 ∈ p.trace)
    (hc1 : e1.call = ⟨.insertOIDCCode h c1 k1, x1⟩) (hc2 : e2.call = ⟨.insertOIDCCode h c2 k2, x2⟩) :
    e1 = e2 ∧ k1 = k2 := by
  obtain ⟨o1, hs1⟩ := exists_suffix_of_mem h1
  obtain ⟨o2, hs2⟩ := exists_suffix_of_mem h2
  obtain ⟨rfl, -⟩ := insertOIDCCode_once hk.grounded hk.found hs1 hs2 hc1 hc2
  rw [hc1] at hc2
  cases hc2
  exact ⟨rfl, rfl⟩

/-- a code that was issued earlier was issued there for the session it is known to be from -/
theorem IssuedFrom.earlier (hk : Known cfg p) {older : Trace} (hs : older <:+ p.trace) {h : Bytes}
    (hi : IssuedFrom p.trace h ksid) {e : AuthEntry} (he : e ∈ older) {c : OidcCode} {k : String}
    {x : Except Failure Unit} (hc : e.call = ⟨.insertOIDCCode h c k, x⟩) : IssuedFrom older h ksid := by
  obtain ⟨e', he', c', x', hc'⟩ := hi
  obtain ⟨rfl, rfl⟩ := issuedFrom_eq hk he' (hs.subset he) hc' hc
  exact ⟨e', he, c', x', hc'⟩

/-- **until the end every sign-in stays on record** -/
theorem SidsKept.step {i : Nat} {req : Request} {o : Op} {x : Ret o} {c : Choice} {p' : AuthPool}
    (hs : SidsKept p ksid) (hk : Known cfg p) (hk' : Known cfg p')
    (hp : perform cfg p.store o c = some (x, p'.store))
    (htrace : p'.trace = ⟨i, req, ⟨o, x⟩, p.store.now⟩ :: p.trace)
    (hended : ∀ r ∈ p'.store.ended, r.id ≠ ksid) (hpurge : o ≠ .purge .signIn) :
    SidsKept p' ksid := by
  have hdoes := does_of_perform hp
  have hsuf : p.trace <:+ p'.trace := htrace ▸ List.suffix_cons _ _
  refine ⟨fun r hr hi => ?_, fun e he h rec fresh hc hi => ?_⟩
  · rcases hdoes.oidcCodes_mem hr with hmem | ⟨c', k, rfl, hcode, hsigned⟩
    · obtain ⟨e, he, c', k, y, hc, -⟩ := hk.recorded.oidcCodes r hmem
      have hold := hs.codes r hmem (hi.earlier hk' hsuf he hc)
      exact hdoes.signedIn_keep hended hpurge hold
    · -- the code that is being issued
      obtain ⟨e, he, c2, y, hc2⟩ := hi
      have hnew : (⟨i, req, ⟨.insertOIDCCode r.codeHash c' k, x⟩, p.store.now⟩ : AuthEntry) ∈
          p'.trace := htrace ▸ List.mem_cons_self
      obtain ⟨-, rfl⟩ := issuedFrom_eq hk' he hnew hc2 rfl
      have hupsert := signedIn_upsert p.store ksid c'.deploymentID c'.subject c'.sid ksid
        c'.deploymentID
      rw [if_pos ⟨rfl, rfl⟩] at hupsert
      unfold Store.signedIn at hupsert ⊢
      rw [hsigned, hcode]
      exact hupsert
  · have hold : ∀ r ∈ p.store.oidcCodes, r.codeHash = h → p'.store.signedIn ksid r.code.deploymentID =
        some r.code.sid := by
      rintro r hmem rfl
      obtain ⟨e', he', c', k, y, hc', -⟩ := hk.recorded.oidcCodes r hmem
      exact hdoes.signedIn_keep hended hpurge (hs.codes r hmem (hi.earlier hk' hsuf he' hc'))
    rw [htrace] at he
    rcases List.mem_cons.mp he with rfl | hmem
    · cases hc
      obtain ⟨r, hmem, hhash, rfl, -⟩ := hdoes.redeemed_mem
      exact hold r hmem hhash
    · obtain ⟨older, hse⟩ := exists_suffix_of_mem hmem
      have hfe := hk.found e older hse
      rw [Found, hc] at hfe
      obtain ⟨⟨e', he', c', k, y, hc', -⟩, -⟩ := hfe rec fresh rfl
      have hin : e' ∈ p.trace := hse.subset (List.mem_cons_of_mem _ he')
      exact hdoes.signedIn_keep hended hpurge
        (hs.redeemed e hmem h rec fresh hc (hi.earlier hk' hsuf hin hc'))

/-! ## Runs -/

/-- sign-outs are not purged, and no deployment goes -/
def KeepsSignOuts (p : AuthPool) (ev : AuthEvent) : Prop :=
  (∀ d, ev ≠ .world (.dropDeployment d)) ∧
  ∀ i c req table k, ev = .run i c → p.threads[i]? = some ⟨req, .call (.purge table) k⟩ →
    table ≠ .signIn ∧ table ≠ .endedSession

/-- the sign-ins and sign-outs of clients, with Keycloak as it is -/
def SignsInAndOut (p : AuthPool) (ev : AuthEvent) : Prop :=
  NoTokenAfterEnd p ev ∧ KeepsSignOuts p ev

/-- `ksid` is ended when nothing made from it is pending -/
def EndsSettled (ksid : String) (p : AuthPool) (ev : AuthEvent) : Prop :=
  ∀ i c req k, ev = .run i c → c ≠ .fails →
    p.threads[i]? = some ⟨req, .call (.endSession ksid) k⟩ → Settled p ksid

/-- the end of `ksid` is on record -/
def EndRecorded (s : Store) (ksid : String) : Prop := ∃ r ∈ s.ended, r.id = ksid

/-- what a run keeps of `ksid`, before its end and after -/
structure Tracked (ksid : String) (p : AuthPool) : Prop where
  kept : ¬ EndRecorded p.store ksid → SidsKept p ksid
  settled : EndRecorded p.store ksid → Settled p ksid
  called : EndRecorded p.store ksid → ∃ e ∈ p.trace, ∃ x, e.call = ⟨.endSession ksid, x⟩

theorem change_ends {w : World} (hd : ∀ d, w ≠ .dropDeployment d) (h : change s w = some t) :
    t.ended = s.ended ∧ t.signIns = s.signIns ∧ t.oidcCodes = s.oidcCodes := by
  cases w with
  | dropDeployment d => exact absurd rfl (hd d)
  | addEntry id d email =>
    have h : s.addEntry id d email = some t := h
    unfold Store.addEntry at h
    split at h
    · cases h
    · cases h
      exact ⟨rfl, rfl, rfl⟩
  | _ =>
    cases h
    exact ⟨rfl, rfl, rfl⟩

theorem Tracked.step {a : AuthEvent} (ht : Tracked ksid p) (hk : Known cfg p) (hq : Known cfg q)
    (hok : SignsInAndOut p a) (hend : EndsSettled ksid p a) (hstep : (service cfg).step p a = some q) :
    Tracked ksid q := by
  have htoken : EndRecorded p.store ksid → ∀ i t, a = .run i (.keycloak (some t)) → t.sid ≠ ksid := by
    rintro hr i t rfl rfl
    obtain ⟨e, he, x, hc⟩ := ht.called hr
    exact hok.1 i t rfl e he x hc
  have hsettled : EndRecorded p.store ksid → Settled q ksid := fun hr =>
    (ht.settled hr).step hk hq (htoken hr) hstep
  obtain ⟨req, rfl, rfl⟩ | ⟨i, c, req, o, k, x, s, rfl, hth, hp, rfl⟩ | ⟨w, s, rfl, hc, rfl⟩ :=
    step_cases hstep
  · exact ⟨fun hn => ⟨(ht.kept hn).codes, (ht.kept hn).redeemed⟩, hsettled, ht.called⟩
  · have hp : perform cfg p.store o c = some (x, s) := hp
    have hdoes := does_of_perform hp
    have hpurge : ∀ table, o = .purge table → table ≠ .signIn ∧ table ≠ .endedSession := by
      rintro table rfl
      exact hok.2.2 i c req table k rfl hth
    have hsub : p.store.ended ⊆ s.ended :=
      hdoes.ended_subset fun h => (hpurge _ h).2 rfl
    refine ⟨fun hn => ?_, ?_, ?_⟩
    · have hold : ¬ EndRecorded p.store ksid := fun ⟨r, hr, hid⟩ => hn ⟨r, hsub hr, hid⟩
      exact (ht.kept hold).step hk hq hp rfl (fun r hr hid => hn ⟨r, hr, hid⟩)
        fun h => (hpurge _ h).1 rfl
    · rintro ⟨r, hr, rfl⟩
      rcases hdoes.ended_mem hr with hmem | rfl
      · exact hsettled ⟨r, hmem, rfl⟩
      · -- this call records the end
        cases c with
        | ok =>
          exact (hend i .ok req k rfl (fun h => nomatch h) hth).step hk hq
            (fun _ _ h => by cases h) hstep
        | lost =>
          exact (hend i .lost req k rfl (fun h => nomatch h) hth).step hk hq
            (fun _ _ h => by cases h) hstep
        | fails =>
          cases hp
          exact hsettled ⟨r, hr, rfl⟩
        | _ => cases hp
    · rintro ⟨r, hr, rfl⟩
      rcases hdoes.ended_mem hr with hmem | rfl
      · obtain ⟨e, he, y, hc⟩ := ht.called ⟨r, hmem, rfl⟩
        exact ⟨e, List.mem_cons_of_mem _ he, y, hc⟩
      · exact ⟨_, List.mem_cons_self, x, rfl⟩
  · obtain ⟨he, hs, ho⟩ := change_ends (fun d h => hok.2.1 d (h ▸ rfl)) hc
    have hrec : EndRecorded s ksid → EndRecorded p.store ksid := by
      rintro ⟨r, hr, hid⟩
      exact ⟨r, he ▸ hr, hid⟩
    refine ⟨fun hn => ?_, fun hr => hsettled (hrec hr), fun hr => ht.called (hrec hr)⟩
    have hold := ht.kept fun ⟨r, hr, hid⟩ => hn ⟨r, he ▸ hr, hid⟩
    have hsigned : ∀ d, s.signedIn ksid d = p.store.signedIn ksid d := by
      intro d
      unfold Store.signedIn
      rw [hs]
    refine ⟨fun r hr hi => ?_, fun e hmem h rec fresh hcall hi => ?_⟩
    · show s.signedIn ksid _ = _
      rw [hsigned]
      exact hold.codes r (ho ▸ hr) hi
    · show s.signedIn ksid _ = _
      rw [hsigned]
      exact hold.redeemed e hmem h rec fresh hcall hi

theorem tracked_start {p0 : AuthPool} (h0 : Started p0) : Tracked ksid p0 := by
  obtain ⟨now, platform, entries, rfl⟩ := h0
  refine ⟨fun _ => ⟨fun r hr => (nomatch hr), fun e he => (nomatch he)⟩, ?_, ?_⟩
  · rintro ⟨r, hr, -⟩
    cases hr
  · rintro ⟨r, hr, -⟩
    cases hr

/-- **what every run keeps** -/
theorem tracked {p0 : AuthPool} (h0 : Started p0)
    (h : (service cfg).machine.Reach (fun p ev => SignsInAndOut p ev ∧ EndsSettled ksid p ev) p0 p) :
    Tracked ksid p := by
  refine (h.invariant (P := fun p => (service cfg).machine.Reach
    (fun p ev => SignsInAndOut p ev ∧ EndsSettled ksid p ev) p0 p ∧ Tracked ksid p)
    ⟨.refl, tracked_start h0⟩ ?_).2
  rintro s a t ⟨hr, ht⟩ ⟨hok, hend⟩ hstep
  have hr' := hr.tail ⟨hok, hend⟩ hstep
  exact ⟨hr', ht.step (known h0 hr) (known h0 hr') hok hend hstep⟩

/-! ## Sign-outs find sign-ins -/

/-- after `p1` no sign-in from `ksid` is put on record, and no code from it redeemed for tokens -/
def QuietAfter (p1 p : AuthPool) (ksid : String) : Prop :=
  ∀ e older, e :: older <:+ p.trace → p1.trace <:+ older →
    (∀ h c x, e.call ≠ ⟨.insertOIDCCode h c ksid, x⟩) ∧
    ∀ h rec, IssuedFrom p.trace h ksid → e.call ≠ ⟨.redeemOIDCCode h, .ok (some (rec, true))⟩

/-- every client that got tokens for a sign-in from `ksid` is among those its end returned, with the
sid of its tokens -/
def FoundBySignOut (cfg : Config) (p : AuthPool) (ksid : String) : Prop :=
  ∀ e older rows, e :: older <:+ p.trace → e.call = ⟨.endSession ksid, .ok rows⟩ →
    (∀ e' ∈ older, ∀ x, e'.call ≠ ⟨.endSession ksid, x⟩) →
    ∀ (i : Nat) t claims h, p.threads[i]? = some t → GaveTokens t claims → Presents cfg t.req h →
      IssuedFrom p.trace h ksid → ∃ sub, (⟨claims.aud, sub, claims.sid⟩ : SignIn) ∈ rows

section
variable {p0 p1 : AuthPool} (h0 : Started p0)
  (h1 : (service cfg).machine.Reach (fun p ev => SignsInAndOut p ev ∧ EndsSettled ksid p ev) p0 p1)
  (h : (service cfg).machine.Reach (fun p ev => SignsInAndOut p ev ∧ EndsSettled ksid p ev) p1 p)
include h0 h1 h

omit h0 h1 in
theorem endRecorded_stays (hr : EndRecorded p1.store ksid) : EndRecorded p.store ksid := by
  refine h.invariant (P := fun p => EndRecorded p.store ksid) hr ?_
  rintro s a t ⟨r, hr, hid⟩ ⟨hok, -⟩ hstep
  obtain ⟨_, rfl, rfl⟩ | ⟨i, c, req, o, k, x, s', rfl, hth, hp, rfl⟩ | ⟨w, s', rfl, hc, rfl⟩ :=
    step_cases hstep
  · exact ⟨r, hr, hid⟩
  · refine ⟨r, (does_of_perform hp).ended_subset ?_ hr, hid⟩
    rintro rfl
    exact (hok.2.2 i c req _ k rfl hth).2 rfl
  · obtain ⟨he, -⟩ := change_ends (fun d h => hok.2.1 d (h ▸ rfl)) hc
    exact ⟨r, he ▸ hr, hid⟩

/-- **after its end nothing signs in from a session** -/
theorem quiet_after (hr : EndRecorded p1.store ksid) : QuietAfter p1 p ksid := by
  intro e older he hlater
  obtain ⟨r, i, c, req, o, k, x, s, rfl, rfl, hreach, -, hth, hp, -⟩ := h.made he hlater
  have hk := known h0 (h1.trans hreach)
  have hkp := known h0 (h1.trans h)
  have hset := (tracked h0 (h1.trans hreach)).settled (endRecorded_stays hreach hr)
  have hp : perform cfg r.store o c = some (x, s) := hp
  have hdeed : deed cfg req (logOf i r.trace) o := hk.grounded.next (meets_handler cfg) hth
  refine ⟨fun hash rec y hc => ?_, fun hash rec hi hc => ?_⟩
  · cases hc
    exact hset.requests _ _ hth rfl (holds_of_insert hdeed)
  · cases hc
    obtain ⟨row, hmem, hhash, -, hfresh⟩ := (does_of_perform hp).redeemed_mem
    -- it was issued before, so it has expired
    obtain ⟨e', he', c', k', y, hc', -⟩ := hk.recorded.oidcCodes row hmem
    rw [hhash] at hc'
    have hsuf : r.trace <:+ p.trace := (List.suffix_cons _ _).trans he
    obtain ⟨e2, he2, c2, y2, hc2⟩ := hi.earlier hkp hsuf he' hc'
    have hexp := hset.codes e2 he2 hash c2 y2 hc2 row hmem hhash
    exact absurd (hfresh rfl) (Nat.not_lt.mpr hexp)

end

/-- the first `endSession` returns whoever has redeemed a code by then -/
theorem found_by_signOut {p0 : AuthPool} (h0 : Started p0)
    (h : (service cfg).machine.Reach (fun p ev => SignsInAndOut p ev ∧ EndsSettled ksid p ev) p0 p) :
    FoundBySignOut cfg p ksid := by
  intro e older rows he hc hfirst j t claims hash ht hgave hpres hi
  have hkp := known h0 h
  have hstart : p0.trace <:+ older := by
    obtain ⟨now, platform, entries, rfl⟩ := h0
    exact List.nil_suffix
  obtain ⟨r, i, c, req, o, k, x, s, rfl, rfl, hreach, hok, hth, hp, hafter⟩ := h.made he hstart
  have hp : perform cfg r.store o c = some (x, s) := hp
  have hdoes := does_of_perform hp
  have htracked := tracked h0 hreach
  cases hc
  have hnot : ¬ EndRecorded r.store ksid := fun hr => by
    obtain ⟨e', he', y, hc'⟩ := htracked.called hr
    exact hfirst e' he' y hc'
  have hrows : rows = (r.store.endSession ksid).1 ∧ s = (r.store.endSession ksid).2 := by
    cases hdoes with
    | nothing hq => exact hq.elim
    | endsSession _ _ hx =>
      obtain hx | hx := hx
      · exact ⟨Except.ok.inj hx, rfl⟩
      · cases hx
  -- the tokens are for a code that was redeemed, before the end or after it
  obtain ⟨form, basic, _, _, _, rec, now, hreq, -, -, -, hm, -, -, -, rfl⟩ :=
    redeemed_of_tokens hkp.grounded ht hgave
  rw [hreq] at hpres
  obtain ⟨e2, o2, hs2, -, hc2⟩ := entry_of_mem_logOf hm
  have hpres : hash = cfg.sha256Bytes (form.get "code") := hpres
  rw [← hpres] at hc2
  rcases suffix_or_suffix he hs2 with hs | hs | ⟨heq, -⟩
  · have hrec : EndRecorded s ksid := hrows.2 ▸ ended_endSession r.store ksid
    have hreach' := hreach.tail hok (step_of_perform (S := service cfg) hth hp)
    exact absurd hc2 ((quiet_after h0 hreach' hafter hrec e2 o2 hs2 hs).2 hash rec hi)
  · have hmem2 : e2 ∈ r.trace := mem_of_cons_suffix hs
    have hk := known h0 hreach
    have hfe := hkp.found e2 o2 hs2
    rw [Found, hc2] at hfe
    obtain ⟨⟨e', he', c', k', y, hc', -⟩, -⟩ := hfe rec true rfl
    have hsuf : r.trace <:+ p.trace := (List.suffix_cons _ _).trans he
    have hin : e' ∈ r.trace := hs.subset (List.mem_cons_of_mem _ he')
    have hkept := (htracked.kept hnot).redeemed e2 hmem2 hash rec true hc2
      (hi.earlier hkp hsuf hin hc')
    rw [hrows.1]
    exact mem_endSession hkept
  · rw [← heq] at hc2
    cases hc2

/-- **every sign-in is found by its sign-out**, in every run in which `ksid` ends when nothing made
from it is pending: the end returns every client that gets tokens, with the sid of its tokens, and
after it nothing signs in from `ksid` -/
theorem sign_outs_find_sign_ins (cfg : Config) (ksid : String) {p0 p1 p : AuthPool} (h0 : Started p0)
    (h1 : (service cfg).machine.Reach (fun p ev => SignsInAndOut p ev ∧ EndsSettled ksid p ev) p0 p1)
    (h : (service cfg).machine.Reach (fun p ev => SignsInAndOut p ev ∧ EndsSettled ksid p ev) p1 p) :
    FoundBySignOut cfg p ksid ∧ (EndRecorded p1.store ksid → QuietAfter p1 p ksid) :=
  ⟨found_by_signOut h0 (h1.trans h), quiet_after h0 h1 h⟩

/-! ## A client's sign-in -/

namespace Sample

def redirectURI : String := "https://notes.apps.freepod.example/cb"

/-- one client that is open to everybody -/
def clientPlatform : Platform where
  eligible := fun _ => none
  ssoClient := fun d => if d = deployment then
    some ⟨deployment, host, [redirectURI], [], "", false, false⟩ else none
  owner := fun _ => none

def clientStore : Store := Store.fresh (63900000000 * second) clientPlatform []

/-- somebody signs in to the client, up to the consent page -/
def toClientConsent : List AuthEvent :=
  .arrive (.authorize (some [("client_id", deployment), ("redirect_uri", redirectURI),
      ("response_type", "code"), ("scope", "openid")])) ::
    runs 0 [.ok, .text state, .text oidcNonce, .text verifier, .text "flow", .text "keycloak"] ++
  .world (.pass (30 * second)) ::
  .arrive (.callback [("state", state), ("code", "kc")] [(flowCookie ++ firstChars 16 state, "flow")]) ::
    runs 1 [.ok, .ok, .keycloak (some token), .ok, .text csrf, .text "consent"]

/-- allows it in request `i`, and the client redeems the code in the next -/
def allowClient (i : Nat) : List AuthEvent :=
  .arrive (.consent (some [("decision", "allow"), ("csrf", csrf)]) [(consentCookie, "consent")]) ::
    runs i [.ok, .ok, .ok, .text code, .ok, .ok] ++
  .arrive (.token (some [("grant_type", "authorization_code"), ("code", code),
      ("redirect_uri", redirectURI), ("client_id", deployment), ("client_secret", clientSecret)]) none) ::
    runs (i + 1) [.ok, .ok, .ok, .ok, .text "access"]

/-- Keycloak ends the session in request `i`, at `iat` seconds -/
def logout (i iat : Nat) : List AuthEvent :=
  .arrive (.backchannelLogout (some [("logout_token", "t")])) ::
    runs i [.ok, .logout (some ⟨some (iat * second), keycloakSID, true, none⟩), .ok]

/-- the call ends a session -/
def ends? (c : Base.Call Ret) : Bool :=
  match c with
  | ⟨.endSession _, _⟩ => true
  | _ => false

/-- the step is no deletion, and no token of Keycloak's after a session has ended -/
def signsInAndOut (p : AuthPool) : AuthEvent → Bool
  | .world (.dropDeployment _) => false
  | .run i c =>
    (match c with
      | .keycloak (some _) => p.trace.all fun e => !ends? e.call
      | _ => true) &&
    match p.threads[i]? with
    | some ⟨_, .call (.purge _) _⟩ => false
    | _ => true
  | _ => true

/-- what a session ends with: no codes, no consent page, and no unfinished sign-in -/
def settled (p : AuthPool) : Bool :=
  p.store.oidcCodes.isEmpty && p.trace.all fun e =>
    match e.call with
    | ⟨.seal (.consent _) ttl, _⟩ => decide (unix (e.time + ttl) ≤ unix p.store.now)
    | ⟨.idToken _ _, _⟩ => p.threads[e.who]?.all fun t => t.prog.answer?.isSome
    | ⟨.openConsent _, _⟩ => p.threads[e.who]?.all fun t => t.prog.answer?.isSome
    | _ => true

/-- and every session ends so -/
def endsSettled (p : AuthPool) (ev : AuthEvent) : Bool :=
  signsInAndOut p ev &&
    match ev with
    | .run i _ =>
      match p.threads[i]? with
      | some ⟨_, .call (.endSession _) _⟩ => settled p
      | _ => true
    | _ => true

/-- the last call has ended a session that had signed in -/
def endsSignIn (p : AuthPool) : Bool :=
  match p.trace with
  | ⟨_, _, ⟨.endSession k, .ok (_ :: _)⟩, _⟩ :: older =>
    decide (k = keycloakSID) && older.all fun e => !ends? e.call
  | _ => false

/-- the last request got tokens, for a code issued after a session had ended with no sign-in -/
def tokensLate (p : AuthPool) : Bool :=
  match p.trace, p.threads[4]? with
  | _ :: _ :: _ :: _ :: _ :: ⟨_, _, ⟨.insertOIDCCode h _ k, _⟩, _⟩ :: _ :: _ :: _ :: _ :: _ ::
      ⟨_, _, ⟨.endSession k', .ok []⟩, _⟩ :: older,
    some (⟨.token (some form) _, .pure ⟨_, _, .tokens _ _ _ _⟩⟩ : Thread Ret Request Response) =>
      decide (k = keycloakSID ∧ k' = keycloakSID ∧ h = config.sha256Bytes (form.get "code")) &&
        older.all fun e => !ends? e.call
  | _, _ => false

end Sample

theorem Sample.not_ends {c : Base.Call Ret} (h : (!Sample.ends? c) = true) {k : String}
    {x : Except Failure (List SignIn)} : c ≠ ⟨.endSession k, x⟩ := by
  rintro rfl
  cases h

theorem Sample.signs_in_and_out {p : AuthPool} {ev : AuthEvent}
    (h : Sample.signsInAndOut p ev = true) : SignsInAndOut p ev := by
  refine ⟨?_, ?_, ?_⟩
  · rintro i t rfl e he x
    simp only [Sample.signsInAndOut, Bool.and_eq_true, List.all_eq_true] at h
    exact Sample.not_ends (h.1 e he)
  · rintro d rfl
    cases h
  · rintro i c req table k rfl hth
    simp only [Sample.signsInAndOut, hth, Bool.and_eq_true] at h
    cases h.2

theorem Sample.settled_of {p : AuthPool} {k : String} (h : Sample.settled p = true) :
    Settled p k := by
  simp only [Sample.settled, Bool.and_eq_true, List.isEmpty_iff, List.all_eq_true] at h
  obtain ⟨hcodes, hall⟩ := h
  have hdone : ∀ i t, p.threads[i]? = some t → t.prog.answer? = none → ∀ e ∈ p.trace, e.who = i →
      (p.threads[e.who]?.all fun t => t.prog.answer?.isSome) = true → False := by
    rintro i t ht hun e - rfl hd
    rw [ht] at hd
    simp [hun] at hd
  refine ⟨fun e he pc ttl handle hc _ _ => ?_, fun e he hash c x hc r hr => ?_, fun i t ht hun => ?_⟩
  · have hexp := hall e he
    rw [hc] at hexp
    exact of_decide_eq_true hexp
  · rw [hcodes] at hr
    cases hr
  · rintro (⟨raw, f, code, v, tok, -, -, hmade, -⟩ | ⟨raw, pc, hmade, -⟩)
    · obtain ⟨e, older, hs, hw, hc⟩ := entry_of_mem_logOf hmade
      have he := mem_of_cons_suffix hs
      have hd := hall e he
      rw [hc] at hd
      exact hdone i t ht hun e he hw hd
    · obtain ⟨e, older, hs, hw, hc⟩ := entry_of_mem_logOf hmade
      have he := mem_of_cons_suffix hs
      have hd := hall e he
      rw [hc] at hd
      exact hdone i t ht hun e he hw hd

theorem Sample.ends_settled {p : AuthPool} {ev : AuthEvent} {k : String}
    (h : Sample.endsSettled p ev = true) : SignsInAndOut p ev ∧ EndsSettled k p ev := by
  obtain ⟨hdom, hend⟩ := (Bool.and_eq_true _ _).mp h
  refine ⟨Sample.signs_in_and_out hdom, ?_⟩
  rintro i c req k' rfl - hth
  simp only [hth] at hend
  exact Sample.settled_of hend

/-- a client redeems its code, and the session ends when the consent page has expired -/
theorem sign_outs_find_sign_ins_later : ∃ p,
    (service Sample.config).machine.Reach (fun p ev => SignsInAndOut p ev ∧
      EndsSettled Sample.keycloakSID p ev) (Service.start Sample.clientStore) p ∧
    (∃ e older row rows, e :: older <:+ p.trace ∧
      e.call = ⟨.endSession Sample.keycloakSID, .ok (row :: rows)⟩) ∧
    FoundBySignOut Sample.config p Sample.keycloakSID := by
  obtain ⟨p, h, -, hp⟩ := Machine.exists_reach_of_runIf (M := (service Sample.config).machine)
    (P := fun _ => True) (c := Sample.endsSettled) (fun _ _ _ _ _ _ => trivial)
    (fun _ _ _ h => Sample.ends_settled h) trivial
    (l := Sample.toClientConsent ++ Sample.allowClient 2 ++ .world (.pass (20 * minute)) ::
      Sample.logout 4 63900001230)
    (p := Sample.endsSignIn) (s := Service.start Sample.clientStore) (by decide +kernel)
  obtain ⟨hfound, -⟩ := sign_outs_find_sign_ins Sample.config Sample.keycloakSID ⟨_, _, _, rfl⟩ h .refl
  unfold Sample.endsSignIn at hp
  split at hp
  · rename_i w req k row rows time older htrace
    obtain ⟨hk, -⟩ := (Bool.and_eq_true _ _).mp hp
    obtain rfl := of_decide_eq_true hk
    have hsuf : ⟨w, req, ⟨.endSession Sample.keycloakSID, .ok (row :: rows)⟩, time⟩ :: older <:+
        p.trace := by rw [htrace]
    exact ⟨p, h, ⟨_, older, row, rows, hsuf, rfl⟩, hfound⟩
  · cases hp

/-- a client gets tokens for a session that ended with the consent page open, and is not told -/
theorem sign_in_not_found : ¬ ∀ (cfg : Config) (ksid : String) (p0 p1 p : AuthPool), Started p0 →
    (service cfg).machine.Reach SignsInAndOut p0 p1 →
    (service cfg).machine.Reach SignsInAndOut p1 p →
    FoundBySignOut cfg p ksid ∧ (EndRecorded p1.store ksid → QuietAfter p1 p ksid) := by
  intro hall
  obtain ⟨p, h, -, hp⟩ := Machine.exists_reach_of_runIf (M := (service Sample.config).machine)
    (P := fun _ => True) (c := Sample.signsInAndOut) (fun _ _ _ _ _ _ => trivial)
    (fun _ _ _ h => Sample.signs_in_and_out h) trivial
    (l := Sample.toClientConsent ++ .world (.pass (30 * second)) :: Sample.logout 2 63900000060 ++
      Sample.allowClient 3)
    (p := Sample.tokensLate) (s := Service.start Sample.clientStore) (by decide +kernel)
  obtain ⟨hfound, -⟩ := hall Sample.config Sample.keycloakSID _ p p ⟨_, _, _, rfl⟩ h .refl
  unfold Sample.tokensLate at hp
  split at hp
  · rename_i a1 a2 a3 a4 a5 w1 q1 hash c k x1 t1 b1 b2 b3 b4 b5 w2 q2 k' t2 older form basic status
      cookies access n claims scope htrace hth
    obtain ⟨hd, hold⟩ := (Bool.and_eq_true _ _).mp hp
    obtain ⟨rfl, rfl, rfl⟩ := of_decide_eq_true hd
    have hsuf : ⟨w2, q2, ⟨.endSession Sample.keycloakSID, .ok []⟩, t2⟩ :: older <:+ p.trace := by
      rw [htrace]
      exact ⟨[a1, a2, a3, a4, a5, _, b1, b2, b3, b4, b5], rfl⟩
    obtain ⟨sub, hmem⟩ := hfound _ older [] hsuf rfl
      (fun e he x => Sample.not_ends (List.all_eq_true.mp hold e he)) 4 _ claims _ hth
      ⟨_, access, n, scope, rfl, rfl⟩ rfl
      ⟨⟨w1, q1, ⟨.insertOIDCCode _ c _, x1⟩, t1⟩, htrace ▸ by simp, c, x1, rfl⟩
    cases hmem
  · cases hp

end Freepod.Auth
