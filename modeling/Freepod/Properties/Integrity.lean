import Freepod.Auth.Traces

/-!
# The integrity of a sign-in

A sign-in takes up to six requests of a browser and of the app it signs in to, and any of them may
be made by anybody, at any time, with any cookies.  What is proved of every run are correspondences:
each session that was sealed, and each answer that gave tokens out, was preceded by the calls that
earn it.

* `one_session_per_code`, `one_answer_per_code`, `session_or_tokens`: a code is spent once.
* `earned_session`: a session was issued to the subject who authenticated for its host, was admitted
  and consented, and is given to the browser that started the sign-in.
* `earned_tokens`: tokens go to the client, redirect URI and challenge of the code.
-/

namespace Freepod.Auth
open Base

variable (cfg : Config)

/-! ## What earns a session -/

/-- the request presents a code with this digest -/
def Presents (req : Request) (h : Bytes) : Prop :=
  match req with
  | .verify r => ∃ target, r.target = some target ∧ h = cfg.sha256Bytes (target.query.get "code")
  | .token (some form) _ => h = cfg.sha256Bytes (form.get "code")
  | _ => False

/-- the request comes from a browser that holds a nonce with this digest -/
def HoldsNonce (req : Request) (digest : Bytes) : Prop :=
  ∃ r, req = .verify r ∧ ∃ nonce ∈ cookieValues r.cookies loginCookie,
    cfg.sha256Bytes nonce = digest

/-- a start request with the digest began a sign-in to `host`, and `sub` authenticated for it -/
def AuthenticatedFor (tr : Trace) (host sub : String) (digest : Bytes) : Prop :=
  ∃ f q, (∃ e ∈ tr, e.req = .start q ∧ ∃ ttl x, e.call = ⟨.seal (.flow f) ttl, x⟩) ∧
    f.host = host ∧ normalizeHost cfg (q.get "host") = host ∧
    decodeNonceHash cfg (q.get "n") = some digest ∧
    ∃ e ∈ tr, ∃ code t id, e.call = ⟨.idToken code f.verifier, t⟩ ∧
      identityOf cfg f.oidcNonce t = .ok id ∧ id.sub = sub

/-- the `i`th handler found the header app of `host`, and `sub` admitted by its access list if it
is listed; and the consent of `sub` to it was recorded -/
def AdmittedTo (tr : Trace) (i : Nat) (host sub email : String) : Prop :=
  ∃ app, Served cfg (logOf i tr) host app ∧
    (app.listed = true → Bound cfg (logOf i tr) app.id sub email) ∧ ConsentRecorded tr app.id sub

/-- the calls before the sealing of a session that earn it -/
def EarnsSession (older : Trace) (e : AuthEntry) (s : Session) : Prop :=
  ∃ issue before h rec x, issue :: before <:+ older ∧ issue.call = ⟨.insertCode h rec, x⟩ ∧
    Presents cfg e.req h ∧ rec.host = s.host ∧ rec.subject = s.sub ∧
    AuthenticatedFor cfg before s.host s.sub rec.nonceHash ∧
    AdmittedTo cfg before issue.who s.host s.sub rec.email ∧
    HoldsNonce cfg e.req rec.nonceHash

/-- the calls before an answer with tokens that earn it -/
def EarnsTokens (tr : Trace) (req : Request) (claims : IDTokenClaims) : Prop :=
  ∃ form basic clientID secret, req = .token (some form) basic ∧
    clientOf cfg form basic = .ok (clientID, secret) ∧
    cfg.verifyClientSecret clientID secret = true ∧
    ∃ e ∈ tr, ∃ c ksid x,
      e.call = ⟨.insertOIDCCode (cfg.sha256Bytes (form.get "code")) c ksid, x⟩ ∧
      c.deploymentID = clientID ∧ c.redirectURI = form.get "redirect_uri" ∧
      pkceMatches cfg c.codeChallenge (form.get "code_verifier") = true ∧
      claims.aud = clientID ∧ claims.sub = c.subject

/-- a handler has answered with tokens -/
def GaveTokens (t : Thread Ret Request Response) (claims : IDTokenClaims) : Prop :=
  ∃ r access n scope, t.prog.answer? = some r ∧ r.body = .tokens access n claims scope

variable {cfg} {p : AuthPool} {ok : AuthPool → AuthEvent → Prop}

theorem AuthenticatedFor.mono {tr tr' : Trace} {host sub : String} {digest : Bytes}
    (h : AuthenticatedFor cfg tr host sub digest) (htr : tr <:+ tr') :
    AuthenticatedFor cfg tr' host sub digest := by
  obtain ⟨f, q, ⟨e, he, h1⟩, h2, h3, h4, e', he', h5⟩ := h
  exact ⟨f, q, ⟨e, htr.subset he, h1⟩, h2, h3, h4, e', htr.subset he', h5⟩

/-! ## A code is spent once -/

section
variable (hf : ∀ e older, e :: older <:+ p.trace → Found cfg older e)
include hf

theorem redeemCode_once {e1 e2 : AuthEntry} {o1 o2 : Trace} (h1 : e1 :: o1 <:+ p.trace)
    (h2 : e2 :: o2 <:+ p.trace) {h : Bytes} {c1 c2 : CodeRecord × Bool}
    (hc1 : e1.call = ⟨.redeemCode h, .ok (some c1)⟩)
    (hc2 : e2.call = ⟨.redeemCode h, .ok (some c2)⟩) : e1 = e2 ∧ o1 = o2 := by
  rcases suffix_or_suffix h1 h2 with hs | hs | hs
  · have hfe := hf e2 o2 h2
    rw [Found, hc2] at hfe
    exact absurd hc1 ((hfe c2.1 c2.2 rfl).2 e1 (mem_of_cons_suffix hs) c1)
  · have hfe := hf e1 o1 h1
    rw [Found, hc1] at hfe
    exact absurd hc2 ((hfe c1.1 c1.2 rfl).2 e2 (mem_of_cons_suffix hs) c2)
  · exact hs

theorem redeemOIDCCode_once {e1 e2 : AuthEntry} {o1 o2 : Trace} (h1 : e1 :: o1 <:+ p.trace)
    (h2 : e2 :: o2 <:+ p.trace) {h : Bytes} {c1 c2 : OidcCode × Bool}
    (hc1 : e1.call = ⟨.redeemOIDCCode h, .ok (some c1)⟩)
    (hc2 : e2.call = ⟨.redeemOIDCCode h, .ok (some c2)⟩) : e1 = e2 ∧ o1 = o2 := by
  rcases suffix_or_suffix h1 h2 with hs | hs | hs
  · have hfe := hf e2 o2 h2
    rw [Found, hc2] at hfe
    exact absurd hc1 ((hfe c2.1 c2.2 rfl).2 e1 (mem_of_cons_suffix hs) c1)
  · have hfe := hf e1 o1 h1
    rw [Found, hc1] at hfe
    exact absurd hc2 ((hfe c1.1 c1.2 rfl).2 e2 (mem_of_cons_suffix hs) c2)
  · exact hs

end

section
variable (hg : Grounded (service cfg) p)
include hg

/-- the sealing of a session follows the redemption of the code its request presents -/
theorem redeemed_of_session {e : AuthEntry} {older : Trace} (he : e :: older <:+ p.trace)
    {s : Session} {ttl : Nat} {x : Except Failure String}
    (hc : e.call = ⟨.seal (.session s) ttl, x⟩) {h : Bytes} (hp : Presents cfg e.req h) :
    ∃ r before rec, r :: before <:+ older ∧ r.who = e.who ∧
      r.call = ⟨.redeemCode h, .ok (some (rec, true))⟩ ∧
      logOf e.who older = r.call :: logOf e.who before ∧ rec.host = s.host ∧
      rec.subject = s.sub ∧ rec.keycloakSID = s.keycloakSID ∧ HoldsNonce cfg e.req rec.nonceHash := by
  have hd := called hg he
  rw [hc] at hd
  obtain ⟨-, r, target, rec, log, hreq, ht, hlog, hhost, hnonce, rfl⟩ := hd
  rw [hreq] at hp
  obtain ⟨target', ht', rfl⟩ := hp
  obtain rfl := Option.some.inj (ht.symm.trans ht')
  have hsuf : (⟨.redeemCode (cfg.sha256Bytes (target.query.get "code")), .ok (some (rec, true))⟩ :
      Base.Call Ret) :: log <:+ logOf e.who older := by
    rw [hlog]
  obtain ⟨e1, o1, hs1, hw, hc1, hlog1⟩ := entry_of_suffix_logOf hsuf
  obtain ⟨nonce, hmem, hn⟩ := List.any_eq_true.mp hnonce
  refine ⟨e1, o1, rec, hs1, hw, hc1, ?_, rfl, rfl, rfl, r, hreq, nonce, hmem, ?_⟩
  · rw [hlog, hc1, hlog1]
  · simpa using hn

/-- the tokens a handler gave are for the code its request presents -/
theorem redeemed_of_tokens {i : Nat} {t : Thread Ret Request Response}
    (ht : p.threads[i]? = some t) {claims : IDTokenClaims} (hgave : GaveTokens t claims) :
    GivesTokens cfg t.req (logOf i p.trace) claims := by
  obtain ⟨r, access, n, scope, hr, hb⟩ := hgave
  have ha : reply cfg t.req (logOf i p.trace) r := hg.answered (meets_handler cfg) ht hr
  unfold reply at ha
  rw [hb] at ha
  exact ha

variable (hf : ∀ e older, e :: older <:+ p.trace → Found cfg older e)
include hf

/-- **a code yields one session at most** -/
theorem one_session_per_code {e1 e2 : AuthEntry} {o1 o2 : Trace} (h1 : e1 :: o1 <:+ p.trace)
    (h2 : e2 :: o2 <:+ p.trace) {h : Bytes} (hp1 : Presents cfg e1.req h)
    (hp2 : Presents cfg e2.req h) {s1 s2 : Session} {ttl1 ttl2 : Nat}
    {x1 x2 : Except Failure String} (hc1 : e1.call = ⟨.seal (.session s1) ttl1, x1⟩)
    (hc2 : e2.call = ⟨.seal (.session s2) ttl2, x2⟩) : e1 = e2 ∧ o1 = o2 := by
  obtain ⟨r1, b1, rec1, hs1, hw1, hr1, hl1, -⟩ := redeemed_of_session hg h1 hc1 hp1
  obtain ⟨r2, b2, rec2, hs2, hw2, hr2, hl2, -⟩ := redeemed_of_session hg h2 hc2 hp2
  obtain ⟨rfl, rfl⟩ := redeemCode_once hf (hs1.trans ((List.suffix_cons _ _).trans h1))
    (hs2.trans ((List.suffix_cons _ _).trans h2)) hr1 hr2
  have hw := hw1.symm.trans hw2
  refine same_call h1 h2 hw ?_
  rw [hl1, hl2, List.length_cons, List.length_cons, hw]

/-- **a code yields one answer with tokens at most** -/
theorem one_answer_per_code {i j : Nat} {ti tj : Thread Ret Request Response}
    (hi : p.threads[i]? = some ti) (hj : p.threads[j]? = some tj) {h : Bytes}
    (hpi : Presents cfg ti.req h) (hpj : Presents cfg tj.req h) {ci cj : IDTokenClaims}
    (hgi : GaveTokens ti ci) (hgj : GaveTokens tj cj) : i = j := by
  obtain ⟨formi, _, _, _, _, reci, _, hreqi, _, _, _, hmi, -⟩ := redeemed_of_tokens hg hi hgi
  obtain ⟨formj, _, _, _, _, recj, _, hreqj, _, _, _, hmj, -⟩ := redeemed_of_tokens hg hj hgj
  rw [hreqi] at hpi
  rw [hreqj] at hpj
  have hpi : h = cfg.sha256Bytes (formi.get "code") := hpi
  have hpj : h = cfg.sha256Bytes (formj.get "code") := hpj
  obtain ⟨ei, oi, hsi, hwi, hci⟩ := entry_of_mem_logOf hmi
  obtain ⟨ej, oj, hsj, hwj, hcj⟩ := entry_of_mem_logOf hmj
  rw [← hpi] at hci
  rw [← hpj] at hcj
  obtain ⟨rfl, -⟩ := redeemOIDCCode_once hf hsi hsj hci hcj
  exact hwi.symm.trans hwj

/-- **a code yields a session or tokens, not both** -/
theorem session_or_tokens {e : AuthEntry} {older : Trace} (he : e :: older <:+ p.trace)
    {s : Session} {ttl : Nat} {x : Except Failure String}
    (hc : e.call = ⟨.seal (.session s) ttl, x⟩) {h : Bytes} (hp : Presents cfg e.req h) {i : Nat}
    {t : Thread Ret Request Response} (ht : p.threads[i]? = some t) (hpt : Presents cfg t.req h)
    {claims : IDTokenClaims} (hgave : GaveTokens t claims) : False := by
  obtain ⟨r1, b1, rec1, hs1, -, hr1, -⟩ := redeemed_of_session hg he hc hp
  have hs1p := hs1.trans ((List.suffix_cons _ _).trans he)
  have hf1 := hf r1 b1 hs1p
  rw [Found, hr1] at hf1
  obtain ⟨⟨i1, hi1, y1, hci1, -⟩, -⟩ := hf1 rec1 true rfl
  obtain ⟨oi1, hsi1⟩ := exists_suffix_of_mem hi1
  obtain ⟨form, _, _, _, _, rec2, _, hreq, _, _, _, hm, -⟩ := redeemed_of_tokens hg ht hgave
  rw [hreq] at hpt
  have hpt : h = cfg.sha256Bytes (form.get "code") := hpt
  obtain ⟨r2, b2, hs2, -, hr2⟩ := entry_of_mem_logOf hm
  have hf2 := hf r2 b2 hs2
  rw [Found, hr2] at hf2
  obtain ⟨⟨i2, hi2, c, ksid, y2, hci2, -⟩, -⟩ := hf2 rec2 true rfl
  obtain ⟨oi2, hsi2⟩ := exists_suffix_of_mem hi2
  rw [← hpt] at hci2
  exact not_insertCode_insertOIDCCode hg hf (hsi1.trans ((List.suffix_cons _ _).trans hs1p))
    (hsi2.trans ((List.suffix_cons _ _).trans hs2)) hci1 hci2

/-! ## What precedes a session -/

/-- a flow of a header app that a handler opened began with a start request, and whoever that
handler authenticated for it did so in the trace -/
theorem authenticatedFor_of_flow {i : Nat} {tr : Trace} (htr : tr <:+ p.trace)
    {sub email ksid : String} {f : Flow}
    (h : FromFlow cfg (logOf i tr) none sub email ksid f) {digest : Bytes}
    (hn : decodeNonceHash cfg f.nonceHash = some digest) :
    AuthenticatedFor cfg tr f.host sub digest := by
  obtain ⟨ho, id, ⟨⟨raw, hraw⟩, code, t, ht, hid⟩, hsub, -, -⟩ := h
  obtain ⟨e1, o1, hs1, -, hc1⟩ := entry_of_mem_logOf hraw
  have hfe := hf e1 o1 (hs1.trans htr)
  rw [Found, hc1] at hfe
  obtain ⟨e2, he2, ttl, hc2, -⟩ := hfe f rfl
  obtain ⟨o2, hs2⟩ := exists_suffix_of_mem he2
  have hd := called hg (hs2.trans ((List.suffix_cons _ _).trans (hs1.trans htr)))
  rw [hc2] at hd
  have hd : SealsFlow cfg e2.req (logOf e2.who o2) f := hd
  unfold SealsFlow at hd
  rw [ho] at hd
  obtain ⟨q, hreq, hhost, hnonce⟩ := hd
  obtain ⟨e3, o3, hs3, -, hc3⟩ := entry_of_mem_logOf ht
  have hmem2 : e2 ∈ tr := hs1.subset (List.mem_cons_of_mem _ he2)
  exact ⟨f, q, ⟨e2, hmem2, hreq, ttl, _, hc2⟩, rfl, hhost.symm, hnonce ▸ hn, e3,
    mem_of_cons_suffix hs3, code, t, id, hc3, hid, hsub⟩

/-- the subject of a header app's code authenticated for its host and digest -/
theorem authenticatedFor_of_issue {e : AuthEntry} {older : Trace} (he : e :: older <:+ p.trace)
    {h : Bytes} {rec : CodeRecord} (hd : InsertsCode cfg (logOf e.who older) h rec) :
    AuthenticatedFor cfg older rec.host rec.subject rec.nonceHash := by
  have htr : older <:+ p.trace := (List.suffix_cons _ _).trans he
  obtain ⟨-, -, ⟨f, hflow, hhost, hn⟩ | ⟨pc, hpc, hhost, hn⟩⟩ := hd
  · rw [← hhost]
    exact authenticatedFor_of_flow hg hf htr hflow hn
  · obtain ⟨raw, hraw⟩ := hpc.opened
    obtain ⟨e1, o1, hs1, -, hc1⟩ := entry_of_mem_logOf hraw
    have hfe := hf e1 o1 (hs1.trans htr)
    rw [Found, hc1] at hfe
    obtain ⟨e2, he2, ttl, hc2, -⟩ := hfe pc rfl
    obtain ⟨o2, hs2⟩ := exists_suffix_of_mem he2
    have hs2' := hs2.trans ((List.suffix_cons _ _).trans hs1)
    have hd := called hg (hs2'.trans htr)
    rw [hc2] at hd
    obtain ⟨-, f, hflow, hsame⟩ := hd
    obtain ⟨hh, hnh⟩ := hsame hpc.oidc
    rw [hpc.oidc, hpc.sub] at hflow
    rw [← hhost, hh]
    have ho2 : o2 <:+ older := (List.suffix_cons _ _).trans hs2'
    exact (authenticatedFor_of_flow hg hf (ho2.trans htr) hflow (hnh ▸ hn)).mono ho2

omit hg in
/-- a consent that a handler found was recorded -/
theorem consentRecorded {i : Nat} {tr : Trace} (htr : tr <:+ p.trace) {d sub : String}
    (h : Consented (logOf i tr) d sub) : ConsentRecorded tr d sub := by
  obtain h | h := h
  · obtain ⟨e, older, hs, -, hc⟩ := entry_of_mem_logOf h
    have hfe := hf e older (hs.trans htr)
    rw [Found, hc] at hfe
    obtain ⟨e', he', claims, y, hc', hsub⟩ := hfe rfl
    exact ⟨e', hs.subset (List.mem_cons_of_mem _ he'), claims, y, hc', hsub⟩
  · obtain ⟨e, older, hs, -, hc⟩ := entry_of_mem_logOf h
    exact ⟨e, mem_of_cons_suffix hs, _, _, hc, fun _ h => h⟩

/-- **every session was earned** -/
theorem earned_session {e : AuthEntry} {older : Trace} (he : e :: older <:+ p.trace)
    {s : Session} {ttl : Nat} {x : Except Failure String}
    (hc : e.call = ⟨.seal (.session s) ttl, x⟩) : EarnsSession cfg older e s := by
  have hd := called hg he
  rw [hc] at hd
  obtain ⟨-, r, target, rec, log, hreq, ht, -, -, -, -⟩ := hd
  have hp : Presents cfg e.req (cfg.sha256Bytes (target.query.get "code")) := by
    rw [hreq]
    exact ⟨target, ht, rfl⟩
  obtain ⟨e1, o1, rec, hs1, -, hc1, -, hhost, hsub, -, hnonce⟩ :=
    redeemed_of_session hg he hc hp
  have hfe := hf e1 o1 (hs1.trans ((List.suffix_cons _ _).trans he))
  rw [Found, hc1] at hfe
  obtain ⟨⟨e2, he2, y, hc2, -⟩, -⟩ := hfe rec true rfl
  obtain ⟨o2, hs2⟩ := exists_suffix_of_mem he2
  have hs2' : e2 :: o2 <:+ older := hs2.trans ((List.suffix_cons _ _).trans hs1)
  have hs2p := hs2'.trans ((List.suffix_cons _ _).trans he)
  have hd2 := called hg hs2p
  rw [hc2] at hd2
  have hauth := authenticatedFor_of_issue hg hf hs2p hd2
  obtain ⟨-, ⟨app, hserved, hbound, hcons⟩, -⟩ := hd2
  have hcons := consentRecorded hf ((List.suffix_cons _ _).trans hs2p) hcons
  rw [hhost, hsub] at hauth
  rw [hhost] at hserved
  rw [hsub] at hbound hcons
  exact ⟨e2, o2, _, rec, y, hs2', hc2, hp, hhost, hsub, hauth, ⟨app, hserved, hbound, hcons⟩, hnonce⟩

/-- **all tokens were earned** -/
theorem earned_tokens {i : Nat} {t : Thread Ret Request Response} (ht : p.threads[i]? = some t)
    {claims : IDTokenClaims} (hgave : GaveTokens t claims) :
    EarnsTokens cfg p.trace t.req claims := by
  obtain ⟨form, basic, clientID, secret, client, rec, now, hreq, hid, hs, hm, hr, hdep, huri, hpkce,
    rfl⟩ := redeemed_of_tokens hg ht hgave
  obtain ⟨e1, o1, hs1, -, hc1⟩ := entry_of_mem_logOf hr
  have hfe := hf e1 o1 hs1
  rw [Found, hc1] at hfe
  obtain ⟨⟨e2, he2, c, ksid, y, hc2, hrec, -⟩, -⟩ := hfe rec true rfl
  obtain ⟨e3, o3, hs3, -, hc3⟩ := entry_of_mem_logOf hm
  have hfe3 := hf e3 o3 hs3
  rw [Found, hc3] at hfe3
  have hclient : client.id = clientID := hfe3 client rfl
  rw [hrec] at hdep huri hpkce
  refine ⟨form, basic, clientID, secret, hreq, hid, hs, e2, ?_, c, ksid, y, hc2,
    hdep.trans hclient, huri, hpkce, ?_, ?_⟩
  · exact hs1.subset (List.mem_cons_of_mem _ he2)
  · rw [hrec]
    exact hdep.trans hclient
  · rw [hrec]
    rfl

end

/-! ## A sign-in -/

namespace Sample

/-- the bytes of a digest -/
def digest (n : Nat) : Bytes := (List.range 32).reverse.map fun i => UInt8.ofNat (n >>> (8 * i))

def nonce : String := "c6cuuf5tu3dgWTi5v_U5BETVPtjsFayrJOWvc7yX7j4"
def nonceHash : String := "vk9RemgwwcDxMlwaxsjglmSLjD0XpeFX9Yim4Jzv0dc"
def state : String := "Mk3sVa8Hh1hPflyjXz1cC3k8BFFoMvaxbnk6LzvwlC8"
def oidcNonce : String := "dn5g2R4ekZVy8RM-MPAf7xs5n7uoiRyiJLqfJi3YoMo"
def verifier : String := "wkoiGmYfDnaWA9D5tqDOZh7caD9-sebHZVSMeE35W-w"
def csrf : String := "8Cu6zyWL-p3Q9V9qUQusoDau6shN6sf-JKTWLwfO1so"
def code : String := "1YtVGu5BG1LFGeD2bOC3F9KuUE1JPHMO8mkEszlMX_4"

def nonceDigest : Bytes :=
  digest 0xbe4f517a6830c1c0f1325c1ac6c8e096648b8c3d17a5e157f588a6e09cefd1d7

def digests : List (String × Bytes) :=
  [(nonce, nonceDigest),
    (state, digest 0xe2101ade53458d4b15787a03e6bf43acf97f40cf05bcb865db1611a82e8c09d9),
    (oidcNonce, digest 0x03417e1945c0084b1f6508ac8cf60ee257fbc7b4365edd965b19b04b480e73f9),
    (verifier, digest 0xba691a36f2d17aa10526f6becb4da85163a8d2fa47913f1da33e74a391fc4218),
    (csrf, digest 0xdd6b3f613dd32181194db0cc1831c5c79da294521afdcf3e3854635c17535196),
    (code, digest 0x86009ad5df7cf0ac360da2b0b002df20f87801c594b2b3eb3ba6b183ac4eb6c7)]

def host : String := "notes.apps.freepod.example"
def deployment : String := "0b6f1c9e-52d4-4a0b-9f3e-6f1d2a7c8e90"
def clientSecret : String := "dR4tequJMASX25nnwpJI_3-Ni55jZSVTFSCgtnNe_kw"
def keycloakSID : String := "3f0a9c1e-7a4b-4b8e-8d52-1c6e0f9b2a7d"

/-- the library's functions on the values of the runs below -/
def config : Config where
  loginURL := "https://login.freepod.example"
  tenantDomain := "apps.freepod.example"
  sha256Bytes := fun s => ((digests.find? fun p => p.1 == s).map (·.2)).getD []
  encodeBase64 := fun _ => nonceHash
  decodeBase64 := fun s => if s = nonceHash then some nonceDigest else none
  deriveSID := fun _ _ _ => "8HNuQ8Av4iDyH0Up3Rr94PcQoghyN31QebkHa8uFuqA"
  verifyClientSecret := fun id secret => id == deployment && secret == clientSecret
  equalFold := fun a b => a == b
  toLower := id
  trimSpace := id
  splitHostPort := fun _ => none
  parsesAsPath := fun _ => true
  queryUnescape := some
  publicPath := fun _ _ => false

/-- one listed app, whose owner has not signed in yet -/
def platform : Platform where
  eligible := fun h => if h = host then some ⟨deployment, true⟩ else none
  ssoClient := fun _ => none
  owner := fun _ => some ("ann@example.com", "")

def store : Store := Store.fresh (63900000000 * second) platform []

/-- what Keycloak says of the owner -/
def token : KeycloakToken :=
  ⟨"ann", oidcNonce, 63900000030 * second, "ann@example.com", true, "Ann", "ann", 0, keycloakSID⟩

def runs (i : Nat) (cs : List Choice) : List AuthEvent := cs.map (.run i)

/-- the owner starts a sign-in, and comes back from Keycloak to the consent page -/
def toConsent : List AuthEvent :=
  .arrive (.start [("host", host), ("rd", "/"), ("n", nonceHash)]) ::
    runs 0 [.ok, .text state, .text oidcNonce, .text verifier, .text "flow", .text "keycloak"] ++
  .world (.pass (30 * second)) ::
  .arrive (.callback [("state", state), ("code", "kc")] [(flowCookie ++ firstChars 16 state, "flow")]) ::
    runs 1 [.ok, .keycloak (some token), .ok, .ok, .ok, .text csrf, .text "consent"]

/-- the owner allows it, in request `i` -/
def allow (i : Nat) : List AuthEvent :=
  .arrive (.consent (some [("decision", "allow"), ("csrf", csrf)]) [(consentCookie, "consent")]) ::
    runs i [.ok, .ok, .ok, .ok, .ok, .text code, .ok]

/-- and presents the code at the app's host, in request `i` -/
def redeem (i : Nat) : List AuthEvent :=
  .arrive (.verify ⟨host, "/.freepod/auth/callback", "GET",
      some ⟨"/.freepod/auth/callback", [("code", code)], "/.freepod/auth/callback"⟩, [], [],
      [(loginCookie, nonce)]⟩) ::
    runs i [.ok, .text "session"]

end Sample

/-- **the integrity of a sign-in**: in every run, a code is spent once, on a session or on tokens;
every session was earned, and so were all tokens -/
theorem sign_in_integrity (cfg : Config) {p0 p : AuthPool} (h0 : Started p0)
    (h : (service cfg).machine.Reach ok p0 p) :
    (∀ e1 o1 e2 o2 s1 s2 ttl1 ttl2 x1 x2 code, e1 :: o1 <:+ p.trace → e2 :: o2 <:+ p.trace →
      Presents cfg e1.req code → Presents cfg e2.req code →
      e1.call = ⟨.seal (.session s1) ttl1, x1⟩ → e2.call = ⟨.seal (.session s2) ttl2, x2⟩ →
      e1 = e2 ∧ o1 = o2) ∧
    (∀ (i j : Nat) ti tj ci cj code, p.threads[i]? = some ti → p.threads[j]? = some tj →
      Presents cfg ti.req code → Presents cfg tj.req code →
      GaveTokens ti ci → GaveTokens tj cj → i = j) ∧
    (∀ e older s ttl x (i : Nat) t claims code, e :: older <:+ p.trace →
      p.threads[i]? = some t → Presents cfg e.req code → Presents cfg t.req code →
      ¬ (e.call = ⟨.seal (.session s) ttl, x⟩ ∧ GaveTokens t claims)) ∧
    (∀ e older s ttl x, e :: older <:+ p.trace → e.call = ⟨.seal (.session s) ttl, x⟩ →
      EarnsSession cfg older e s) ∧
    (∀ (i : Nat) t claims, p.threads[i]? = some t → GaveTokens t claims →
      EarnsTokens cfg p.trace t.req claims) := by
  obtain ⟨hg, -, hf⟩ := history h0 h
  refine ⟨?_, ?_, ?_, ?_, ?_⟩
  · intro e1 o1 e2 o2 s1 s2 ttl1 ttl2 x1 x2 code h1 h2 hp1 hp2 hc1 hc2
    exact one_session_per_code hg hf h1 h2 hp1 hp2 hc1 hc2
  · intro i j ti tj ci cj code hi hj hpi hpj hgi hgj
    exact one_answer_per_code hg hf hi hj hpi hpj hgi hgj
  · rintro e older s ttl x i t claims code he ht hp hpt ⟨hc, hgave⟩
    exact session_or_tokens hg hf he hc hp ht hpt hgave
  · intro e older s ttl x he hc
    exact earned_session hg hf he hc
  · intro i t claims ht hgave
    exact earned_tokens hg hf ht hgave

/-- the last call has sealed a session -/
def Sample.sealsSession (p : AuthPool) : Bool :=
  match p.trace with
  | ⟨_, _, ⟨.seal (.session _) _, _⟩, _⟩ :: _ => true
  | _ => false

/-- a listed app's owner signs in, and the session was earned -/
theorem sign_in_integrity_session :
    ∃ p e older s ttl x, (service Sample.config).machine.Reach (fun _ _ => True)
        (Service.start Sample.store) p ∧ e :: older <:+ p.trace ∧
      e.call = ⟨.seal (.session s) ttl, x⟩ ∧ EarnsSession Sample.config older e s := by
  obtain ⟨p, hreach, hp⟩ := Machine.exists_reach_of_run (M := (service Sample.config).machine)
    (s := Service.start Sample.store) (l := Sample.toConsent ++ Sample.allow 2 ++ Sample.redeem 3)
    (p := Sample.sealsSession) (by decide +kernel)
  have hint := sign_in_integrity Sample.config ⟨_, _, _, rfl⟩ hreach
  unfold Sample.sealsSession at hp
  split at hp
  · rename_i who req s ttl x time older htrace
    have hsuf : ⟨who, req, ⟨.seal (.session s) ttl, x⟩, time⟩ :: older <:+ p.trace := by rw [htrace]
    exact ⟨p, _, older, s, ttl, x, hreach, hsuf, rfl, hint.2.2.2.1 _ older s ttl x hsuf rfl⟩
  · cases hp

end Freepod.Auth
