import Freepod.Auth.Contract

/-!
# App authentication: every handler keeps its contract

One lemma for each part of a handler, which says what the part leaves in the log, and
`meets_handler` for all requests.
-/

namespace Freepod.Auth
open Base

variable {cfg : Config} {req : Request} {log : Log Ret} {α β : Type}

/-! ## Checks -/

section
variable {C : Contract Ret Response}

theorem meets_answerIf {c : Prop} [Decidable c] {r : Response} {f : Unit → Handler β}
    {Q : Log Ret → β → Prop} (hr : c → C.answer log r) (hf : ¬ c → Meets C Q log (f ())) :
    Meets C Q log (answerIf c r >>= f) := by
  unfold answerIf
  by_cases h : c
  · rw [if_pos h]
    exact hr h
  · rw [if_neg h]
    exact hf h

theorem meets_granted {e r : Response} (he : C.answer log e) (hr : C.answer log r)
    (x : Except Failure Bool) : Meets C (fun _ _ => x = .ok true) log (granted e r x) := by
  cases x with
  | error _ => exact he
  | ok b =>
    cases b with
    | false => exact hr
    | true => rfl

/-- a call after which the handler answers or goes on -/
theorem meets_ask_last {o : Op} {Q : Log Ret → Ret o → Prop} (h : C.call log o)
    (hQ : ∀ x, Q (⟨o, x⟩ :: log) x) : Meets C Q log (ask o) := ⟨h, hQ⟩

end

/-! ## Evidence stays in a log that grows -/

theorem Served.mono {l : Log Ret} {host : String} {app : HeaderApp} (h : Served cfg log host app)
    (hl : log <:+ l) : Served cfg l host app := by
  obtain h | ⟨base, hb, h1, h2⟩ := h
  · exact .inl (h.mono hl)
  · exact .inr ⟨base, hb, h1.mono hl, h2.mono hl⟩

theorem Bound.mono {l : Log Ret} {d sub email : String} (h : Bound cfg log d sub email)
    (hl : log <:+ l) : Bound cfg l d sub email := by
  obtain ⟨list, hlist, h | ⟨e, name, he, hb⟩⟩ := h
  · exact ⟨list, hlist.mono hl, .inl h⟩
  · exact ⟨list, hlist.mono hl, .inr ⟨e, name, he, hb.mono hl⟩⟩

theorem Consented.mono {l : Log Ret} {d sub : String} (h : Consented log d sub)
    (hl : log <:+ l) : Consented l d sub :=
  h.imp (fun h => h.mono hl) (fun h => h.mono hl)

theorem Authenticated.mono {l : Log Ret} {f : Flow} {id : Identity}
    (h : Authenticated cfg log f id) (hl : log <:+ l) : Authenticated cfg l f id := by
  obtain ⟨⟨raw, hraw⟩, code, t, ht, hid⟩ := h
  exact ⟨⟨raw, hraw.mono hl⟩, code, t, ht.mono hl, hid⟩

theorem FromFlow.mono {l : Log Ret} {o : Option OidcRequest} {sub email ksid : String} {f : Flow}
    (h : FromFlow cfg log o sub email ksid f) (hl : log <:+ l) :
    FromFlow cfg l o sub email ksid f := by
  obtain ⟨ho, id, ha, hid⟩ := h
  exact ⟨ho, id, ha.mono hl, hid⟩

theorem FromConsent.mono {l : Log Ret} {o : Option OidcRequest} {sub email ksid : String}
    {pc : PendingConsent} (h : FromConsent log o sub email ksid pc) (hl : log <:+ l) :
    FromConsent l o sub email ksid pc := by
  obtain ⟨raw, hraw⟩ := h.opened
  exact { h with opened := ⟨raw, hraw.mono hl⟩ }

/-! ## Access lists and apps -/

theorem meets_admitted (d : String) (id : Identity) (bind : Bool) :
    Meets (deeds cfg req)
      (fun l x => x = .ok true → bind = true → Bound cfg l d id.sub id.email) log
      (admitted cfg d id bind) := by
  unfold admitted
  refine Meets.ask trivial fun x => ?_
  cases x with
  | error e => exact fun h => nomatch h
  | ok list =>
    show Meets _ _ _ (if !( list.admit cfg id.sub id.email).1 || !bind ||
      ( list.admit cfg id.sub id.email).2 == "" then _ else _)
    by_cases hc : (!( list.admit cfg id.sub id.email).1 || !bind ||
        ( list.admit cfg id.sub id.email).2 == "") = true
    · rw [if_pos hc]
      intro hok hbind
      have hadm : ( list.admit cfg id.sub id.email).1 = true := Except.ok.inj hok
      have hentry : ( list.admit cfg id.sub id.email).2 = "" := by
        simpa [hadm, hbind] using hc
      exact ⟨list, made_head _ _ _, .inl (Prod.ext hadm hentry)⟩
    · rw [if_neg hc]
      simp only [Bool.or_eq_true, Bool.not_eq_true', beq_iff_eq, not_or, Bool.not_eq_false] at hc
      obtain ⟨⟨hadm, hbind⟩, hentry⟩ := hc
      have hadm' : list.admit cfg id.sub id.email =
          (true, ( list.admit cfg id.sub id.email).2) := Prod.ext hadm rfl
      refine Meets.ask ⟨d, list, id.email, made_head _ _ _, hadm', hentry⟩ fun x => ?_
      cases x with
      | error e => exact fun h => nomatch h
      | ok bound =>
        cases bound with
        | true =>
          intro _ _
          exact ⟨list, (made_head _ _ _).cons _, .inr ⟨_, id.name, hadm', made_head _ _ _⟩⟩
        | false =>
          refine Meets.ask trivial fun x => ?_
          cases x with
          | error e => exact fun h => nomatch h
          | ok again =>
            intro hok _
            have hb := Except.ok.inj hok
            simp only [Bool.and_eq_true, beq_iff_eq] at hb
            exact ⟨again, made_head _ _ _, .inl (Prod.ext hb.1 hb.2)⟩

theorem meets_resolveHeaderApp (host : String) :
    Meets (deeds cfg req) (fun l x => ∀ app, x = .ok (some app) → Served cfg l host app) log
      (resolveHeaderApp cfg host) := by
  unfold resolveHeaderApp
  refine Meets.ask trivial fun x => ?_
  cases x with
  | error e =>
    intro app h
    cases h
  | ok found =>
    cases found with
    | some app =>
      intro app' h
      obtain rfl := Option.some.inj (Except.ok.inj h)
      exact .inl (made_head _ _ _)
    | none =>
      dsimp only
      cases hb : previewBase cfg host with
      | none =>
        intro app h
        cases h
      | some base =>
        refine meets_ask_last trivial fun x app h => ?_
        rw [h]
        exact .inr ⟨base, hb, (made_head _ _ _).cons _, made_head _ _ _⟩

theorem meets_eligible (w : List Cookie) (host : String) :
    Meets (deeds cfg req) (fun l app => Served cfg l host app) log (eligible cfg w host) := by
  refine Meets.seq (meets_resolveHeaderApp host) fun l x _ hx => ?_
  cases x with
  | error e => exact trivial
  | ok found =>
    cases found with
    | none => exact trivial
    | some app => exact hx app rfl

theorem meets_admits (w : List Cookie) (app : HeaderApp) (host : String) (id : Identity)
    (bind : Bool) :
    Meets (deeds cfg req)
      (fun l _ => app.listed = true → bind = true → Bound cfg l app.id id.sub id.email) log
      (admits cfg w app host id bind) := by
  unfold admits
  split
  · refine Meets.seq (meets_admitted app.id id bind) fun l x _ hx => ?_
    exact (meets_granted trivial trivial x).mono fun l' _ hl hok _ hb => (hx hok hb).mono hl
  · rename_i hl
    exact fun h => absurd h hl

/-! ## The Keycloak leg -/

theorem meets_exchange (w : List Cookie) (code : String) {f : Flow}
    (hf : ∃ raw, Made log (.openFlow raw) (some f)) :
    Meets (deeds cfg req) (fun l id => Authenticated cfg l f id) log (exchange cfg w code f) := by
  obtain ⟨raw, hraw⟩ := hf
  refine Meets.ask trivial fun t => ?_
  cases hid : identityOf cfg f.oidcNonce t with
  | ok id => exact ⟨⟨raw, hraw.cons _⟩, code, t, made_head _ _ _, hid⟩
  | error e =>
    cases e with
    | failed => exact trivial
    | emailUnverified => exact trivial
    | noSession => exact trivial

/-! ## Codes of header apps -/

/-- what a code record says comes from the flow or the consent page of its request -/
def HeaderOrigin (cfg : Config) (log : Log Ret) (host nonceHash : String) (id : Identity) : Prop :=
  (∃ f, FromFlow cfg log none id.sub id.email id.keycloakSID f ∧ f.host = host ∧
      f.nonceHash = nonceHash) ∨
    ∃ pc, FromConsent log none id.sub id.email id.keycloakSID pc ∧ pc.host = host ∧
      pc.nonceHash = nonceHash

theorem HeaderOrigin.mono {l : Log Ret} {host nonceHash : String} {id : Identity}
    (h : HeaderOrigin cfg log host nonceHash id) (hl : log <:+ l) :
    HeaderOrigin cfg l host nonceHash id := by
  obtain ⟨f, hf, h⟩ | ⟨pc, hpc, h⟩ := h
  · exact .inl ⟨f, hf.mono hl, h⟩
  · exact .inr ⟨pc, hpc.mono hl, h⟩

theorem meets_issueCode (w : List Cookie) {app : HeaderApp} {host nonceHash : String} (rd : String)
    {id : Identity} (hs : Served cfg log host app) (hc : Consented log app.id id.sub)
    (ho : HeaderOrigin cfg log host nonceHash id) :
    Meets (deeds cfg req) (reply cfg req) log (issueCode cfg w app host rd nonceHash id) := by
  unfold issueCode
  cases hd : decodeNonceHash cfg nonceHash with
  | none => exact trivial
  | some digest =>
    refine Meets.seq (meets_admits w app host id true) fun l _ hl hb => ?_
    refine Meets.ask trivial fun code => ?_
    have hl' : log <:+ ⟨Op.random, code⟩ :: l := hl.trans (List.suffix_cons _ _)
    refine Meets.ask ⟨⟨code, l, rfl, rfl⟩, ⟨app, hs.mono hl', ?_, hc.mono hl'⟩, ?_⟩ fun x => ?_
    · intro hlisted
      exact (hb hlisted rfl).mono (List.suffix_cons _ _)
    · obtain ⟨f, hf, hh, hn⟩ | ⟨pc, hpc, hh, hn⟩ := ho.mono hl'
      · exact .inl ⟨f, hf, hh, hn ▸ hd⟩
      · exact .inr ⟨pc, hpc, hh, hn ▸ hd⟩
    · cases x with
      | error e => exact trivial
      | ok _ => exact trivial

/-! ## The start of a sign-in -/

theorem meets_sendToKeycloak (w : List Cookie) {f : Flow} (prompt maxAge : String)
    {unavailable : Response} (hf : SealsFlow cfg req log f)
    (hu : ∀ l, reply cfg req l unavailable) :
    Meets (deeds cfg req) (reply cfg req) log
      (sendToKeycloak w f prompt maxAge unavailable) := by
  refine Meets.ask hf fun x => ?_
  cases x with
  | error e => exact trivial
  | ok sealed =>
    refine Meets.ask trivial fun x => ?_
    cases x with
    | error e => exact hu _
    | ok target => exact trivial

theorem meets_start (q : Values) :
    Meets (deeds cfg (.start q)) (reply cfg (.start q)) log (start cfg q) := by
  refine meets_answerIf (fun _ => trivial) fun _ => ?_
  refine Meets.seq (meets_eligible [] _) fun l _ _ _ => ?_
  refine Meets.ask trivial fun state => ?_
  refine Meets.ask trivial fun oidcNonce => ?_
  refine Meets.ask trivial fun verifier => ?_
  exact meets_sendToKeycloak [] "" "" ⟨q, rfl, rfl, rfl⟩ fun _ => trivial

/-! ## The OpenID Provider -/

theorem meets_ssoClient (clientID : String) :
    Meets (deeds cfg req)
      (fun l x => ∀ c, x = .ok (some c) → Made l (.ssoClient clientID) (.ok (some c))) log
      (ssoClient clientID) := by
  unfold ssoClient
  split
  · refine meets_ask_last trivial fun x c h => ?_
    rw [h]
    exact made_head _ _ _
  · exact fun c h => nomatch h

theorem meets_oidcClient (w : List Cookie) (clientID redirectURI : String) :
    Meets (deeds cfg req)
      (fun l c => Made l (.ssoClient clientID) (.ok (some c)) ∧
        c.allowsRedirect redirectURI = true) log
      (oidcClient w clientID redirectURI) := by
  refine Meets.seq (meets_ssoClient clientID) fun l x _ hx => ?_
  cases x with
  | error e => exact trivial
  | ok found =>
    cases found with
    | none => exact trivial
    | some c =>
      refine meets_answerIf (fun _ => trivial) fun h => ?_
      exact ⟨hx c rfl, by simpa using h⟩

theorem meets_oidcAdmits (w : List Cookie) (client : SsoClient) (r : OidcRequest) (id : Identity)
    (bind : Bool) :
    Meets (deeds cfg req)
      (fun l _ => client.listed = true → bind = true → Bound cfg l client.id id.sub id.email) log
      (oidcAdmits cfg w client r id bind) := by
  unfold oidcAdmits
  split
  · refine Meets.seq (meets_admitted client.id id bind) fun l x _ hx => ?_
    refine (meets_granted trivial ?_ x).mono fun l' _ hl hok _ hb => (hx hok hb).mono hl
    split
    · exact trivial
    · exact trivial
  · rename_i hl
    exact fun h => absurd h hl

theorem meets_authorize (params : Option Values) :
    Meets (deeds cfg (.authorize params)) (reply cfg (.authorize params)) log
      (authorize params) := by
  unfold authorize
  cases params with
  | none => exact trivial
  | some q =>
    refine meets_answerIf (fun _ => trivial) fun _ => ?_
    refine Meets.seq (meets_oidcClient [] _ _) fun l client _ hc => ?_
    obtain ⟨hmade, hallows⟩ := hc
    cases checkRequest q client with
    | error e => exact trivial
    | ok prompts =>
      refine Meets.ask trivial fun kcState => ?_
      refine Meets.ask trivial fun oidcNonce => ?_
      refine Meets.ask trivial fun verifier => ?_
      refine meets_sendToKeycloak [] _ _ ?_ fun _ => trivial
      exact ⟨q, client, rfl, ((hmade.cons _).cons _).cons _, rfl, hallows, rfl, rfl⟩

/-- what a client's code says comes from the flow or the consent page of its request -/
def ClientOrigin (cfg : Config) (log : Log Ret) (r : OidcRequest) (id : Identity) : Prop :=
  (∃ f, FromFlow cfg log (some r) id.sub id.email id.keycloakSID f) ∨
    ∃ pc, FromConsent log (some r) id.sub id.email id.keycloakSID pc

theorem ClientOrigin.mono {l : Log Ret} {r : OidcRequest} {id : Identity}
    (h : ClientOrigin cfg log r id) (hl : log <:+ l) : ClientOrigin cfg l r id := by
  obtain ⟨f, hf⟩ | ⟨pc, hpc⟩ := h
  · exact .inl ⟨f, hf.mono hl⟩
  · exact .inr ⟨pc, hpc.mono hl⟩

theorem meets_issueOIDCCode (w : List Cookie) {client : SsoClient} {r : OidcRequest} {id : Identity}
    (hm : Made log (.ssoClient r.clientID) (.ok (some client)))
    (ha : client.allowsRedirect r.redirectURI = true) (hc : Consented log client.id id.sub)
    (ho : ClientOrigin cfg log r id) :
    Meets (deeds cfg req) (reply cfg req) log (issueOIDCCode cfg w client r id) := by
  refine Meets.seq (meets_oidcAdmits w client r id true) fun l _ hl hb => ?_
  refine Meets.ask trivial fun code => ?_
  refine Meets.ask trivial fun sid => ?_
  have hl1 : l <:+ ⟨Op.appSID r.clientID id.keycloakSID, sid⟩ :: ⟨Op.random, code⟩ :: l :=
    (List.suffix_cons _ _).trans (List.suffix_cons _ _)
  have hl2 := hl.trans hl1
  refine Meets.ask ⟨⟨sid, code, l, rfl, rfl⟩, r, client, rfl, rfl, rfl, hm.mono hl2, ha, ?_,
    hc.mono hl2, ho.mono hl2⟩ fun x => ?_
  · exact fun hlisted => (hb hlisted rfl).mono hl1
  · cases x with
    | error e => exact trivial
    | ok _ => exact trivial

theorem meets_oidcCallback (w : List Cookie) (q : Values) {f : Flow} {r : OidcRequest}
    (hr : f.oidc = some r) (hf : ∃ raw, Made log (.openFlow raw) (some f)) :
    Meets (deeds cfg req) (reply cfg req) log (oidcCallback cfg w q f r) := by
  obtain ⟨raw, hraw⟩ := hf
  refine Meets.seq (meets_oidcClient w _ _) fun l1 client hl1 hc => ?_
  obtain ⟨hm, ha⟩ := hc
  refine meets_answerIf (fun _ => trivial) fun _ => ?_
  refine Meets.seq (meets_exchange w _ ⟨raw, hraw.mono hl1⟩) fun l2 id hl2 hauth => ?_
  refine Meets.seq (meets_oidcAdmits w client r id false) fun l3 _ hl3 _ => ?_
  have hm3 := hm.mono (hl2.trans hl3)
  have hflow : ∀ l, l3 <:+ l → FromFlow cfg l (some r) id.sub id.email id.keycloakSID f :=
    fun l hl => ⟨hr, id, hauth.mono (hl3.trans hl), rfl, rfl, rfl⟩
  refine Meets.ask trivial fun x => ?_
  cases x with
  | error e => exact trivial
  | ok consented =>
    show Meets _ _ _ (if (consented && !r.forceConsent) = true then _ else _)
    by_cases hc : (consented && !r.forceConsent) = true
    · rw [if_pos hc]
      have htrue : consented = true := (Bool.and_eq_true _ _ ▸ hc).1
      subst htrue
      exact meets_issueOIDCCode w (hm3.cons _) ha (.inl (made_head _ _ _))
        (.inl ⟨f, hflow _ (List.suffix_cons _ _)⟩)
    · rw [if_neg hc]
      split
      · exact trivial
      · refine Meets.ask trivial fun csrf => ?_
        refine Meets.ask ⟨rfl, f, ?_, fun h => nomatch h⟩ fun x => ?_
        · exact hflow _ ((List.suffix_cons _ _).trans (List.suffix_cons _ _))
        · cases x with
          | error e => exact trivial
          | ok sealed => exact trivial

theorem meets_oidcConsent (w : List Cookie) (form : Values) {pc : PendingConsent} {r : OidcRequest}
    (hr : pc.oidc = some r) (hpc : ∃ raw, Made log (.openConsent raw) (some pc)) :
    Meets (deeds cfg req) (reply cfg req) log (oidcConsent cfg w form pc r) := by
  obtain ⟨raw, hraw⟩ := hpc
  refine Meets.seq (meets_oidcClient w _ _) fun l1 client hl1 hc => ?_
  obtain ⟨hm, ha⟩ := hc
  refine meets_answerIf (fun _ => trivial) fun _ => ?_
  refine Meets.seq (meets_oidcAdmits w client r _ false) fun l2 _ hl2 _ => ?_
  refine Meets.ask trivial fun x => ?_
  cases x with
  | error e => exact trivial
  | ok _ =>
    have hmade := (hraw.mono (hl1.trans hl2)).cons
      ⟨Op.recordConsent pc.sub client.id disclosedClaims, .ok ()⟩
    exact meets_issueOIDCCode w ((hm.mono hl2).cons _) ha (.inr (made_head _ _ _))
      (.inr ⟨pc, hr, ⟨raw, hmade⟩, rfl, rfl, rfl⟩)

/-! ## The token endpoint -/

theorem meets_releaseTokens {client : SsoClient} {rec : OidcCode}
    (h : ∀ l now, log <:+ l → GivesTokens cfg req l (idTokenClaims cfg rec now)) :
    Meets (deeds cfg req) (reply cfg req) log (releaseTokens cfg client rec) := by
  refine Meets.ask trivial fun now => ?_
  refine Meets.ask trivial fun x => ?_
  cases x with
  | error e => exact trivial
  | ok _ =>
    refine Meets.ask trivial fun x => ?_
    cases x with
    | error e => exact trivial
    | ok access =>
      exact h _ now (((List.suffix_cons _ _).trans (List.suffix_cons _ _)).trans
        (List.suffix_cons _ _))

theorem meets_tokenAdmits (client : SsoClient) (rec : OidcCode) :
    Meets (deeds cfg req) (fun _ _ => True) log (tokenAdmits cfg client rec) := by
  unfold tokenAdmits
  split
  · refine Meets.seq (meets_admitted client.id _ false) fun l x _ _ => ?_
    exact (meets_granted trivial trivial x).mono fun _ _ _ _ => trivial
  · exact trivial

theorem meets_redeem {form : Values} {basic : Option (String × String)} {client : SsoClient}
    {clientID secret : String} (hreq : req = .token (some form) basic)
    (hid : clientOf cfg form basic = .ok (clientID, secret))
    (hs : cfg.verifyClientSecret clientID secret = true)
    (hm : Made log (.ssoClient clientID) (.ok (some client))) :
    Meets (deeds cfg req) (reply cfg req) log (redeem cfg form client) := by
  refine meets_answerIf (fun _ => trivial) fun _ => ?_
  refine meets_answerIf (fun _ => trivial) fun _ => ?_
  refine Meets.ask ⟨form, basic, hreq, rfl⟩ fun x => ?_
  cases x with
  | error e => exact trivial
  | ok found =>
    cases found with
    | none => exact trivial
    | some p =>
      obtain ⟨rec, fresh⟩ := p
      refine meets_answerIf (fun _ => trivial) fun hok => ?_
      simp only [not_or, Decidable.not_not, ne_eq] at hok
      obtain ⟨hfresh, hdep, huri⟩ := hok
      subst hfresh
      refine Meets.seq (meets_tokenAdmits client rec) fun l _ hl _ => ?_
      refine meets_answerIf (fun _ => trivial) fun hpkce => ?_
      refine meets_releaseTokens fun l' now hl' => ?_
      exact ⟨form, basic, clientID, secret, client, rec, now, hreq, hid, hs,
        (hm.cons _).mono (hl.trans hl'), (made_head _ _ _).mono (hl.trans hl'), hdep, huri.symm,
        Decidable.not_not.mp hpkce, rfl⟩

theorem meets_token (form : Option Values) (basic : Option (String × String)) :
    Meets (deeds cfg (.token form basic)) (reply cfg (.token form basic)) log
      (token cfg form basic) := by
  unfold token
  cases form with
  | none => exact trivial
  | some form =>
    refine meets_answerIf (fun _ => trivial) fun _ => ?_
    cases hid : clientOf cfg form basic with
    | error r => exact trivial
    | ok p =>
      obtain ⟨clientID, secret⟩ := p
      refine meets_answerIf (fun _ => trivial) fun hok => ?_
      simp only [not_or, Decidable.not_not] at hok
      refine Meets.seq (meets_ssoClient clientID) fun l x _ hx => ?_
      cases x with
      | error e => exact trivial
      | ok found =>
        cases found with
        | none => exact trivial
        | some client => exact meets_redeem rfl hid hok.2.2 (hx client rfl)

/-! ## The broker's requests -/

theorem NoToken.cons {raw : String} {x : Option Flow} (h : NoToken log) :
    NoToken ((⟨.openFlow raw, x⟩ : Base.Call Ret) :: log) := by
  intro code v t hm
  rcases List.mem_cons.mp hm with heq | hm
  · cases heq
  · exact h code v t hm

theorem meets_firstFlow (raws : List String) (hno : NoToken log) :
    Meets (deeds cfg req) (fun l x => ∀ f, x = some f → ∃ raw, Made l (.openFlow raw) (some f)) log
      (firstFlow raws) := by
  induction raws generalizing log with
  | nil => exact fun f h => nomatch h
  | cons raw rest ih =>
    refine Meets.ask hno fun x => ?_
    cases x with
    | none => exact ih hno.cons
    | some f =>
      intro f' h
      obtain rfl := Option.some.inj h
      exact ⟨raw, made_head _ _ _⟩

theorem meets_firstConsent (raws : List String) :
    Meets (deeds cfg req)
      (fun l x => ∀ pc, x = some pc → ∃ raw, Made l (.openConsent raw) (some pc)) log
      (firstConsent raws) := by
  induction raws generalizing log with
  | nil => exact fun f h => nomatch h
  | cons raw rest ih =>
    refine Meets.ask trivial fun x => ?_
    cases x with
    | none => exact ih
    | some pc =>
      intro pc' h
      obtain rfl := Option.some.inj h
      exact ⟨raw, made_head _ _ _⟩

theorem meets_headerCallback (w : List Cookie) (q : Values) {f : Flow} (hnone : f.oidc = none)
    (hf : ∃ raw, Made log (.openFlow raw) (some f)) :
    Meets (deeds cfg req) (reply cfg req) log (headerCallback cfg w q f) := by
  refine meets_answerIf (fun _ => trivial) fun _ => ?_
  refine Meets.seq (meets_exchange w _ hf) fun l1 id _ hauth => ?_
  refine Meets.seq (meets_eligible w f.host) fun l2 app hl2 hs => ?_
  refine Meets.seq (meets_admits w app f.host id false) fun l3 _ hl3 _ => ?_
  have hflow : ∀ l, l3 <:+ l → FromFlow cfg l none id.sub id.email id.keycloakSID f :=
    fun l hl => ⟨hnone, id, hauth.mono (hl2.trans (hl3.trans hl)), rfl, rfl, rfl⟩
  refine Meets.ask trivial fun x => ?_
  cases x with
  | error e => exact trivial
  | ok consented =>
    cases consented with
    | true =>
      exact meets_issueCode w f.rd ((hs.mono hl3).mono (List.suffix_cons _ _))
        (.inl (made_head _ _ _)) (.inl ⟨f, hflow _ (List.suffix_cons _ _), rfl, rfl⟩)
    | false =>
      refine Meets.ask trivial fun csrf => ?_
      refine Meets.ask ⟨rfl, f, ?_, fun _ => ⟨rfl, rfl⟩⟩ fun x => ?_
      · exact hflow _ ((List.suffix_cons _ _).trans (List.suffix_cons _ _))
      · cases x with
        | error e => exact trivial
        | ok sealed => exact trivial

theorem meets_callback (q : Values) (cookies : Cookies) :
    Meets (deeds cfg req) (reply cfg req) [] (callback cfg q cookies) := by
  refine meets_answerIf (fun _ => trivial) fun _ => ?_
  refine Meets.seq (meets_firstFlow _ fun _ _ _ h => nomatch h) fun l x _ hx => ?_
  cases hf : x.filter fun f => f.state == q.get "state" with
  | none =>
    exact trivial
  | some f =>
    obtain ⟨rfl, -⟩ := Option.filter_eq_some_iff.mp hf
    cases ho : f.oidc with
    | some r =>
      simp only [ho]
      exact meets_oidcCallback _ q ho (hx f rfl)
    | none =>
      simp only [ho]
      exact meets_headerCallback _ q ho (hx f rfl)

theorem meets_headerConsent (w : List Cookie) (form : Values) {pc : PendingConsent}
    (hnone : pc.oidc = none) (hpc : ∃ raw, Made log (.openConsent raw) (some pc)) :
    Meets (deeds cfg req) (reply cfg req) log (headerConsent cfg w form pc) := by
  obtain ⟨raw, hraw⟩ := hpc
  refine meets_answerIf (fun _ => trivial) fun _ => ?_
  refine Meets.seq (meets_eligible w pc.host) fun l1 app hl1 hs => ?_
  refine meets_answerIf (fun _ => trivial) fun _ => ?_
  refine Meets.seq (meets_admits w app pc.host _ false) fun l2 _ hl2 _ => ?_
  refine Meets.ask trivial fun x => ?_
  cases x with
  | error e => exact trivial
  | ok _ =>
    have hmade := (hraw.mono (hl1.trans hl2)).cons
      ⟨Op.recordConsent pc.sub app.id disclosedClaims, .ok ()⟩
    exact meets_issueCode w pc.rd ((hs.mono hl2).mono (List.suffix_cons _ _))
      (.inr (made_head _ _ _)) (.inr ⟨pc, ⟨hnone, ⟨raw, hmade⟩, rfl, rfl, rfl⟩, rfl, rfl⟩)

theorem meets_consent (form : Option Values) (cookies : Cookies) :
    Meets (deeds cfg req) (reply cfg req) log (consent cfg form cookies) := by
  unfold consent
  cases form with
  | none => exact trivial
  | some form =>
    refine Meets.seq (meets_firstConsent _) fun l x _ hx => ?_
    cases hf : x.filter fun pc => pc.csrf == form.get "csrf" && pc.keycloakSID != "" with
    | none =>
      exact trivial
    | some pc =>
      obtain ⟨rfl, -⟩ := Option.filter_eq_some_iff.mp hf
      cases ho : pc.oidc with
      | some r =>
        simp only [ho]
        exact meets_oidcConsent _ form ho (hx pc rfl)
      | none =>
        simp only [ho]
        exact meets_headerConsent _ form ho (hx pc rfl)

theorem verifyLogout_ne {t : LogoutToken} {now : Time} {sid : String}
    (h : verifyLogout t now = some sid) : sid ≠ "" := by
  unfold verifyLogout at h
  cases hi : t.issuedAt with
  | none =>
    rw [hi] at h
    cases h
  | some iat =>
    simp only [hi] at h
    split at h
    · cases h
    · split at h
      · cases h
      · rename_i hc
        cases h
        exact fun he => hc (.inr (.inr he))

theorem meets_backchannelLogout (form : Option Values) :
    Meets (deeds cfg req) (reply cfg req) log (backchannelLogout form) := by
  unfold backchannelLogout
  cases form with
  | none => exact trivial
  | some form =>
    refine Meets.ask trivial fun now => ?_
    refine Meets.seq (R := fun _ _ => True) ?_ fun l x _ _ => ?_
    · split
      · exact trivial
      · exact meets_ask_last trivial fun _ => trivial
    · cases x with
      | none => exact trivial
      | some t =>
        dsimp only
        cases hv : verifyLogout t now with
        | none => exact trivial
        | some sid =>
          refine Meets.ask (verifyLogout_ne hv) fun x => ?_
          cases x with
          | error e => exact trivial
          | ok rows => exact trivial

/-! ## The verifier -/

theorem meets_startLogin (w : List Cookie) (host rd : String) :
    Meets (deeds cfg req) (reply cfg req) log (startLogin cfg w host rd) :=
  Meets.ask trivial fun _ => trivial

theorem meets_sessionFor (host : String) (raws : List String) :
    Meets (deeds cfg req)
      (fun l x => ∀ s, x = some s → ∃ raw ∈ raws, Made l (.openSession raw) (some s)) log
      (sessionFor host raws) := by
  induction raws generalizing log with
  | nil => exact fun s h => nomatch h
  | cons raw rest ih =>
    have hrest : ∀ l, Meets (deeds cfg req)
        (fun l x => ∀ s, x = some s → ∃ r ∈ raw :: rest, Made l (.openSession r) (some s)) l
        (sessionFor host rest) := by
      intro l
      refine ih.mono fun l' x _ hx s hs => ?_
      obtain ⟨r, hr, hm⟩ := hx s hs
      exact ⟨r, List.mem_cons_of_mem _ hr, hm⟩
    refine Meets.ask trivial fun x => ?_
    cases x with
    | none => exact hrest _
    | some s =>
      show Meets _ _ _ (if s.host = host ∧ s.sub ≠ "" then _ else _)
      split
      · intro s' h
        obtain rfl := Option.some.inj h
        exact ⟨raw, List.mem_cons_self, made_head _ _ _⟩
      · exact hrest _

theorem meets_appCallback {r : ForwardAuth} {target : Target} (hreq : req = .verify r)
    (ht : r.target = some target) :
    Meets (deeds cfg req) (reply cfg req) log
      (appCallback cfg r.cookies (normalizeHost cfg r.host) (target.query.get "code")) := by
  refine meets_answerIf (fun _ => trivial) fun _ => ?_
  refine Meets.ask trivial fun x => ?_
  cases x with
  | error e => exact trivial
  | ok found =>
    cases found with
    | none => exact trivial
    | some p =>
      obtain ⟨rec, fresh⟩ := p
      refine meets_answerIf (fun _ => trivial) fun hok => ?_
      simp only [not_or, Decidable.not_not, ne_eq] at hok
      obtain ⟨hfresh, hhost, hnonce⟩ := hok
      subst hfresh
      rw [← hhost]
      refine Meets.ask ⟨rfl, r, target, rec, log, hreq, ht, rfl, hhost, hnonce, rfl⟩ fun x => ?_
      cases x with
      | error e => exact trivial
      | ok value => exact trivial

theorem meets_reserved {r : ForwardAuth} {target : Target} (hreq : req = .verify r)
    (ht : r.target = some target) :
    Meets (deeds cfg req) (reply cfg req) log
      (reserved cfg r.cookies (normalizeHost cfg r.host) target) := by
  unfold reserved
  split
  · exact meets_startLogin _ _ _
  · split
    · exact trivial
    · split
      · exact meets_appCallback hreq ht
      · exact trivial

theorem reply_refuse (r : ForwardAuth) (host email : String) :
    reply cfg req log (refuse r host email) := by
  unfold refuse
  split
  · exact trivial
  · exact trivial

theorem meets_identify {r : ForwardAuth} (hreq : req = .verify r) (host : String) :
    Meets (deeds cfg req) (fun l x => ∀ s, x = some s → Identifies req l s) log
      (identify cfg r host) := by
  refine Meets.seq (meets_sessionFor host _) fun l x _ hx => ?_
  cases x with
  | none => exact fun s h => nomatch h
  | some s =>
    obtain ⟨raw, hraw, hm⟩ := hx s rfl
    refine Meets.ask trivial fun p => ?_
    obtain ⟨ended, ready⟩ := p
    refine meets_answerIf (fun _ => trivial) fun hready => ?_
    intro s' hs'
    split at hs'
    · cases hs'
    · rename_i hok
      obtain rfl := Option.some.inj hs'
      have hended : ended = false := by
        cases ended with
        | false => rfl
        | true => exact absurd (.inl rfl) hok
      obtain rfl := Decidable.not_not.mp hready
      subst hended
      exact ⟨r, raw, l, hreq, hraw, List.suffix_refl _, hm⟩

theorem meets_loadAccess (host : String) :
    Meets (deeds cfg req) (fun _ _ => True) log (loadAccess cfg host) := by
  refine Meets.seq (meets_resolveHeaderApp host) fun l x _ _ => ?_
  cases x with
  | error e => exact meets_ask_last trivial fun _ => trivial
  | ok found =>
    cases found with
    | none => exact Meets.ask trivial fun _ => trivial
    | some app =>
      refine Meets.ask trivial fun x => ?_
      cases x with
      | error e => exact meets_ask_last trivial fun _ => trivial
      | ok list => exact Meets.ask trivial fun _ => trivial

theorem meets_olderThan (held : Option CachedAccess) (age : Nat) :
    Meets (deeds cfg req) (fun _ _ => True) log (olderThan held age) := by
  cases held with
  | none => exact trivial
  | some h => exact Meets.ask trivial fun _ => trivial

theorem meets_accessAdmits (host : String) (s : Session) :
    Meets (deeds cfg req) (fun _ _ => True) log (accessAdmits cfg host s) := by
  have hload : ∀ l, Meets (deeds cfg req) (fun _ _ => True) l
      (loadAccess cfg host >>= fun held => pure (heldAdmits cfg held s)) :=
    fun l => Meets.seq (meets_loadAccess host) fun _ _ _ _ => trivial
  refine Meets.ask trivial fun held => ?_
  refine Meets.seq (meets_olderThan held _) fun l1 old _ _ => ?_
  cases old with
  | true => exact hload _
  | false =>
    show Meets _ _ _ (if heldAdmits cfg held s = true then _ else _)
    split
    · exact trivial
    · refine Meets.seq (meets_olderThan held _) fun l2 old _ _ => ?_
      cases old with
      | true => exact hload _
      | false => exact trivial

theorem meets_checkAccess (r : ForwardAuth) (host : String) (sess : Option Session) :
    Meets (deeds cfg req) (fun _ _ => True) log (checkAccess cfg r host sess) := by
  cases sess with
  | none => exact trivial
  | some s =>
    show Meets _ _ _ (if r.edge.has "l" = true then _ else _)
    split
    · refine meets_answerIf (fun _ => reply_refuse r host s.email) fun _ => ?_
      refine Meets.seq (meets_accessAdmits host s) fun l ok _ _ => ?_
      unfold answerIf
      split
      · exact reply_refuse r host s.email
      · exact trivial
    · exact trivial

theorem Identifies.mono {l : Log Ret} {s : Session} (h : Identifies req log s) (hl : log <:+ l) :
    Identifies req l s := by
  obtain ⟨r, raw, older, hreq, hraw, hs, hm⟩ := h
  exact ⟨r, raw, older, hreq, hraw, hs.trans hl, hm⟩

theorem meets_verifyRequest {r : ForwardAuth} (hreq : req = .verify r) (host : String)
    (target : Target) :
    Meets (deeds cfg req) (reply cfg req) log (verifyRequest cfg r host target) := by
  refine Meets.seq (meets_identify hreq host) fun l1 sess _ hs => ?_
  refine Meets.seq (meets_checkAccess r host sess) fun l2 _ hl2 _ => ?_
  show Meets _ _ _ (if sess.isSome = true ∨ _ then _ else _)
  split
  · cases sess with
    | none => exact trivial
    | some s => exact (hs s rfl).mono hl2
  · split
    · exact meets_startLogin _ _ _
    · exact trivial

theorem meets_verify (r : ForwardAuth) :
    Meets (deeds cfg (.verify r)) (reply cfg (.verify r)) log (verify cfg r) := by
  refine meets_answerIf (fun _ => trivial) fun _ => ?_
  cases ht : r.target with
  | none => exact trivial
  | some target =>
    show Meets _ _ _ (if _ then _ else _)
    split
    · exact meets_reserved rfl ht
    · exact meets_verifyRequest rfl _ _

/-! ## The loops -/

theorem meets_refreshEnded :
    Meets (deeds cfg req) (reply cfg req) log refreshEnded := by
  refine Meets.ask trivial fun since => ?_
  refine Meets.ask trivial fun x => ?_
  cases x with
  | error e => exact trivial
  | ok rows => exact Meets.ask ⟨since, made_head _ _ _⟩ fun _ => trivial

theorem meets_purgeTables (tables : List AuthTable) :
    Meets (deeds cfg .purgeLoop) (fun _ _ => True) log (purgeTables tables) := by
  induction tables generalizing log with
  | nil => exact trivial
  | cons table rest ih =>
    refine Meets.ask rfl fun x => ?_
    cases x with
    | error e => exact trivial
    | ok n => exact ih

theorem meets_purgeRound :
    Meets (deeds cfg .purgeLoop) (reply cfg .purgeLoop) log purgeRound := by
  refine Meets.seq (meets_purgeTables _) fun l1 _ _ _ => ?_
  exact Meets.seq (meets_purgeTables _) fun l2 _ _ _ => trivial

/-- **every handler keeps its contract**, whatever its calls answer -/
theorem meets_handler (cfg : Config) (req : Request) :
    Meets (deeds cfg req) (deeds cfg req).answer [] ((service cfg).handler req) := by
  cases req with
  | verify r => exact meets_verify r
  | start q => exact meets_start q
  | callback q cookies => exact meets_callback q cookies
  | consent form cookies => exact meets_consent form cookies
  | authorize params => exact meets_authorize params
  | token form basic => exact meets_token form basic
  | backchannelLogout form => exact meets_backchannelLogout form
  | refreshEnded => exact meets_refreshEnded
  | purgeLoop => exact meets_purgeRound

end Freepod.Auth
