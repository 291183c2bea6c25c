import Freepod.Auth.Store

/-!
# App authentication: what one call can do

`Does` lists what a call can change of the store, and what it then answers; `Told` says what the
calls that only read have found.  `does_of_perform` and `told_of_perform` read both off `perform`,
and every invariant is derived from them.
-/

namespace Freepod.Auth

variable {cfg : Config} {s t : Store} {o : Op} {x : Ret o} {c : Choice}

/-- an answer that goes with no change of the store -/
@[simp] def Quiet : (o : Op) → Ret o → Prop
  | .random, _ => False
  | .seal _ _, .ok _ => False
  | .bindEntry _ _ _, .ok _ => False
  | .recordConsent _ _ _, .ok _ => False
  | .insertCode _ _, .ok _ => False
  | .redeemCode _, .ok _ => False
  | .insertOIDCCode _ _ _, .ok _ => False
  | .redeemOIDCCode _, .ok _ => False
  | .endSession _, .ok _ => False
  | .purge _, .ok _ => False
  | .endedMerge _, _ => False
  | .accessKeep _ _, _ => False
  | _, _ => True

/-- an answer of a statement that took effect: it arrived, or was lost -/
def Arrived {α : Type} (a : α) (x : Except Failure α) : Prop := x = .ok a ∨ x = .error .unavailable

/-- the ways a call can change the store -/
inductive Does (cfg : Config) (s : Store) : (o : Op) → Ret o → Store → Prop
  | nothing {o : Op} {x : Ret o} (h : Quiet o x) : Does cfg s o x s
  | draws (r : String) (h : ∀ u ∈ s.drawn, cfg.sha256Bytes u ≠ cfg.sha256Bytes r) :
      Does cfg s .random r { s with drawn := r :: s.drawn }
  | seals (v : Sealed) (ttl : Nat) (handle : String) (h : ∀ r ∈ s.sealed, r.handle ≠ handle) :
      Does cfg s (.seal v ttl) (.ok handle)
        { s with sealed := s.sealed ++ [⟨handle, v, unix (s.now + ttl)⟩] }
  | binds (e sub name : String) (x : Except Failure Bool)
      (h : Arrived (s.bindEntry e sub name).1 x) :
      Does cfg s (.bindEntry e sub name) x (s.bindEntry e sub name).2
  | consents (sub d : String) (claims : List String) (x : Except Failure Unit) :
      Does cfg s (.recordConsent sub d claims) x (s.recordConsent sub d claims)
  | insertsCode (h : Bytes) (rec : CodeRecord) (x : Except Failure Unit) :
      Does cfg s (.insertCode h rec) x
        { s with codes := s.codes ++ [⟨h, rec, s.now + codeTTL⟩] }
  | redeemsCode (h : Bytes) (x : Except Failure (Option (CodeRecord × Bool)))
      (hx : Arrived (s.redeemCode h).1 x) : Does cfg s (.redeemCode h) x (s.redeemCode h).2
  | insertsOIDCCode (h : Bytes) (c : OidcCode) (ksid : String) (x : Except Failure Unit) :
      Does cfg s (.insertOIDCCode h c ksid) x
        { s.upsertSignIn ksid c.deploymentID c.subject c.sid with
          oidcCodes := s.oidcCodes ++
            [⟨h, { c with sid := s.sidOf ksid c.deploymentID c.sid }, s.now + codeTTL⟩] }
  | redeemsOIDCCode (h : Bytes) (x : Except Failure (Option (OidcCode × Bool)))
      (hx : Arrived (s.redeemOIDCCode h).1 x) :
      Does cfg s (.redeemOIDCCode h) x (s.redeemOIDCCode h).2
  | endsSession (ksid : String) (x : Except Failure (List SignIn))
      (hx : Arrived (s.endSession ksid).1 x) : Does cfg s (.endSession ksid) x (s.endSession ksid).2
  | purges (table : AuthTable) (x : Except Failure Nat) : Does cfg s (.purge table) x (s.purge table).2
  | merges (rows : List EndedSession) :
      Does cfg s (.endedMerge rows) () { s with cache := s.cache.merge rows s.now }
  | keeps (host : String) (list : AccessList) :
      Does cfg s (.accessKeep host list) (s.accessKeep host list).1 (s.accessKeep host list).2

/-- **what an attempt at a statement can come to** -/
theorem attempt_cases {α : Type} {f : Except Failure (α × Store)} {x : Except Failure α}
    (h : attempt s f c = some (x, t)) :
    (∃ e, x = .error e ∧ t = s) ∨ ∃ a, f = .ok (a, t) ∧ Arrived a x := by
  cases c with
  | ok =>
    cases f with
    | error e =>
      cases h
      exact .inl ⟨e, rfl, rfl⟩
    | ok p =>
      cases h
      exact .inr ⟨p.1, rfl, .inl rfl⟩
  | fails =>
    cases h
    exact .inl ⟨_, rfl, rfl⟩
  | lost =>
    cases f with
    | error e =>
      cases h
      exact .inl ⟨e, rfl, rfl⟩
    | ok p =>
      cases h
      exact .inr ⟨p.1, rfl, .inr rfl⟩
  | text r => cases h
  | keycloak k => cases h
  | logout l => cases h

/-- a read leaves the store as it is -/
theorem attempt_read {α : Type} {a : α} {x : Except Failure α}
    (h : attempt s (.ok (a, s)) c = some (x, t)) : t = s ∧ ∀ b, x = .ok b → b = a := by
  obtain ⟨e, rfl, rfl⟩ | ⟨b, hb, hx⟩ := attempt_cases h
  · exact ⟨rfl, fun b hb => nomatch hb⟩
  · obtain ⟨rfl, rfl⟩ := Prod.mk.inj (Except.ok.inj hb)
    refine ⟨rfl, fun b hb => ?_⟩
    obtain h | h := hx
    · rw [h] at hb
      exact (Except.ok.inj hb).symm
    · rw [h] at hb
      cases hb

theorem insertCode_ok {h : Bytes} {rec : CodeRecord} {u : Unit}
    (hf : s.insertCode h rec = .ok (u, t)) :
    t = { s with codes := s.codes ++ [⟨h, rec, s.now + codeTTL⟩] } := by
  unfold Store.insertCode at hf
  split at hf
  · cases hf
  · exact (Prod.mk.inj (Except.ok.inj hf)).2.symm

theorem insertOIDCCode_ok {h : Bytes} {rec : OidcCode} {ksid : String} {u : Unit}
    (hf : s.insertOIDCCode h rec ksid = .ok (u, t)) :
    t = { s.upsertSignIn ksid rec.deploymentID rec.subject rec.sid with
      oidcCodes := s.oidcCodes ++
        [⟨h, { rec with sid := s.sidOf ksid rec.deploymentID rec.sid }, s.now + codeTTL⟩] } := by
  unfold Store.insertOIDCCode at hf
  simp only at hf
  split at hf
  · cases hf
  · exact (Prod.mk.inj (Except.ok.inj hf)).2.symm

/-- binding changes the access entries only -/
theorem bindEntry_frame (s : Store) (e sub name : String) :
    (s.bindEntry e sub name).2 = { s with entries := (s.bindEntry e sub name).2.entries } := by
  unfold Store.bindEntry
  split
  · rfl
  · split
    · rfl
    · rfl

/-- **what one call can do** -/
theorem does_of_perform (h : perform cfg s o c = some (x, t)) : Does cfg s o x t := by
  cases o with
  | random =>
    cases c with
    | text r =>
      simp only [perform] at h
      split at h
      · cases h
      · rename_i hnew
        cases h
        refine .draws _ fun u hu he => hnew ?_
        exact List.any_eq_true.mpr ⟨u, hu, by simpa using he⟩
    | _ => cases h
  | «seal» v ttl =>
    cases c with
    | text handle =>
      simp only [perform] at h
      split at h
      · cases h
      · rename_i hnew
        cases h
        refine .seals v ttl handle fun r hr he => hnew ?_
        exact List.any_eq_true.mpr ⟨r, hr, by simpa using he⟩
    | fails =>
      cases h
      exact .nothing trivial
    | _ => cases h
  | bindEntry e sub name =>
    have h : attempt s (.ok (s.bindEntry e sub name)) c = some (x, t) := h
    obtain ⟨_, rfl, rfl⟩ | ⟨a, ha, hx⟩ := attempt_cases h
    · exact .nothing trivial
    · obtain ⟨rfl, rfl⟩ := Prod.mk.inj (Except.ok.inj ha)
      exact .binds e sub name x hx
  | recordConsent sub d claims =>
    have h : attempt s (.ok ((), s.recordConsent sub d claims)) c = some (x, t) := h
    obtain ⟨_, rfl, rfl⟩ | ⟨a, ha, hx⟩ := attempt_cases h
    · exact .nothing trivial
    · obtain ⟨rfl, rfl⟩ := Prod.mk.inj (Except.ok.inj ha)
      exact .consents sub d claims x
  | insertCode hash rec =>
    have h : attempt s (s.insertCode hash rec) c = some (x, t) := h
    obtain ⟨_, rfl, rfl⟩ | ⟨a, ha, hx⟩ := attempt_cases h
    · exact .nothing trivial
    · obtain rfl := insertCode_ok ha
      exact .insertsCode hash rec x
  | redeemCode hash =>
    have h : attempt s (.ok (s.redeemCode hash)) c = some (x, t) := h
    obtain ⟨_, rfl, rfl⟩ | ⟨a, ha, hx⟩ := attempt_cases h
    · exact .nothing trivial
    · obtain ⟨rfl, rfl⟩ := Prod.mk.inj (Except.ok.inj ha)
      exact .redeemsCode hash x hx
  | insertOIDCCode hash rec ksid =>
    have h : attempt s (s.insertOIDCCode hash rec ksid) c = some (x, t) := h
    obtain ⟨_, rfl, rfl⟩ | ⟨a, ha, hx⟩ := attempt_cases h
    · exact .nothing trivial
    · obtain rfl := insertOIDCCode_ok ha
      exact .insertsOIDCCode hash rec ksid x
  | redeemOIDCCode hash =>
    have h : attempt s (.ok (s.redeemOIDCCode hash)) c = some (x, t) := h
    obtain ⟨_, rfl, rfl⟩ | ⟨a, ha, hx⟩ := attempt_cases h
    · exact .nothing trivial
    · obtain ⟨rfl, rfl⟩ := Prod.mk.inj (Except.ok.inj ha)
      exact .redeemsOIDCCode hash x hx
  | endSession ksid =>
    have h : attempt s (.ok (s.endSession ksid)) c = some (x, t) := h
    obtain ⟨_, rfl, rfl⟩ | ⟨a, ha, hx⟩ := attempt_cases h
    · exact .nothing trivial
    · obtain ⟨rfl, rfl⟩ := Prod.mk.inj (Except.ok.inj ha)
      exact .endsSession ksid x hx
  | purge table =>
    have h : attempt s (.ok (s.purge table)) c = some (x, t) := h
    obtain ⟨_, rfl, rfl⟩ | ⟨a, ha, hx⟩ := attempt_cases h
    · exact .nothing trivial
    · obtain ⟨rfl, rfl⟩ := Prod.mk.inj (Except.ok.inj ha)
      exact .purges table x
  | endedMerge rows =>
    cases c with
    | ok =>
      cases h
      exact .merges rows
    | _ => cases h
  | accessKeep host list =>
    cases c with
    | ok =>
      cases h
      exact .keeps host list
    | _ => cases h
  | eligible host =>
    obtain ⟨rfl, -⟩ := attempt_read h
    exact .nothing trivial
  | ssoClient d =>
    obtain ⟨rfl, -⟩ := attempt_read h
    exact .nothing trivial
  | accessList d =>
    obtain ⟨_, rfl, rfl⟩ | ⟨a, ha, hx⟩ := attempt_cases h
    · exact .nothing trivial
    · unfold Store.accessList at ha
      split at ha
      · cases ha
      · cases ha
        exact .nothing trivial
  | hasConsent sub d claims =>
    obtain ⟨rfl, -⟩ := attempt_read h
    exact .nothing trivial
  | endedSessions since =>
    obtain ⟨rfl, -⟩ := attempt_read h
    exact .nothing trivial
  | idToken code verifier =>
    cases c with
    | keycloak k =>
      cases h
      exact .nothing trivial
    | _ => cases h
  | logoutToken raw =>
    cases c with
    | logout l =>
      cases h
      exact .nothing trivial
    | _ => cases h
  | authURL a b d e f =>
    cases c with
    | text url =>
      cases h
      exact .nothing trivial
    | fails =>
      cases h
      exact .nothing trivial
    | _ => cases h
  | signIDToken claims =>
    cases c with
    | ok =>
      cases h
      exact .nothing trivial
    | fails =>
      cases h
      exact .nothing trivial
    | _ => cases h
  | _ =>
    cases c with
    | ok =>
      cases h
      exact .nothing trivial
    | _ => cases h

/-- no call takes time -/
theorem Does.now_eq (h : Does cfg s o x t) : t.now = s.now := by
  cases h with
  | binds e sub name x h => rw [bindEntry_frame]
  | purges table x => cases table <;> rfl
  | _ => rfl

/-- codes of clients are stored by their issue only -/
theorem Does.oidcCodes_mem (h : Does cfg s o x t) {r : OidcCodeRow} (hr : r ∈ t.oidcCodes) :
    r ∈ s.oidcCodes ∨ ∃ c ksid, o = .insertOIDCCode r.codeHash c ksid ∧
      r.code = { c with sid := s.sidOf ksid c.deploymentID c.sid } ∧
      t.signIns = (s.upsertSignIn ksid c.deploymentID c.subject c.sid).signIns := by
  cases h with
  | insertsOIDCCode hash c ksid x =>
    rcases List.mem_append.mp hr with hr | hr
    · exact .inl hr
    · obtain rfl := List.mem_singleton.mp hr
      exact .inr ⟨c, ksid, rfl, rfl, rfl⟩
  | redeemsOIDCCode hash x hx => exact .inl (List.mem_of_mem_filter hr)
  | binds e sub name x h =>
    rw [bindEntry_frame] at hr
    exact .inl hr
  | purges table x =>
    cases table with
    | oidcCode => exact .inl (List.mem_of_mem_filter hr)
    | _ => exact .inl hr
  | _ => exact .inl hr

/-- what a call that only reads has found -/
@[simp] def Told (cfg : Config) (s : Store) : (o : Op) → Ret o → Prop
  | .now, x => x = s.now
  | .appSID clientID ksid, x => x = cfg.deriveSID s.sidKey clientID ksid
  | .openFlow raw, x => x = s.openFlow raw
  | .openConsent raw, x => x = s.openConsent raw
  | .openSession raw, x => x = s.openSession raw
  | .eligible host, x => ∀ a, x = .ok a → a = s.platform.eligible host
  | .ssoClient d, x =>
    ∀ a, x = .ok a → a = (s.platform.ssoClient d).map fun client => { client with id := d }
  | .accessList d, x => ∀ l, x = .ok l → s.accessList d = .ok (l, s)
  | .hasConsent sub d claims, x => ∀ b, x = .ok b → b = s.hasConsent sub d claims
  | .endedSessions since, x =>
    ∀ rows, x = .ok rows → rows = s.ended.filter fun e => decide (since ≤ e.endedAt)
  | .endedStatus ksid, x => x = s.cache.status ksid
  | .endedSince, x => x = s.cache.since
  | _, _ => True

theorem accessList_ok {d : String} {l : AccessList} (h : s.accessList d = .ok (l, t)) : t = s := by
  unfold Store.accessList at h
  split at h
  · cases h
  · cases h
    rfl

theorem told_of_perform (h : perform cfg s o c = some (x, t)) : Told cfg s o x := by
  cases o with
  | eligible host => exact (attempt_read (a := s.platform.eligible host) h).2
  | ssoClient d =>
    have h : attempt s (.ok ((s.platform.ssoClient d).map fun client => { client with id := d }, s))
      c = some (x, t) := h
    exact (attempt_read h).2
  | hasConsent sub d claims => exact (attempt_read (a := s.hasConsent sub d claims) h).2
  | endedSessions since =>
    have h : attempt s (.ok (s.ended.filter fun e => decide (since ≤ e.endedAt), s)) c =
      some (x, t) := h
    exact (attempt_read h).2
  | accessList d =>
    intro l hl
    have h : attempt s (s.accessList d) c = some (x, t) := h
    obtain ⟨e, rfl, rfl⟩ | ⟨a, ha, hx⟩ := attempt_cases h
    · cases hl
    · obtain h' | h' := hx
      · rw [h'] at hl
        obtain rfl := Except.ok.inj hl
        rw [ha, accessList_ok ha]
      · rw [h'] at hl
        cases hl
  | now =>
    cases c with
    | ok =>
      cases h
      rfl
    | _ => cases h
  | appSID a b =>
    cases c with
    | ok =>
      cases h
      rfl
    | _ => cases h
  | openFlow raw =>
    cases c with
    | ok =>
      cases h
      rfl
    | _ => cases h
  | openConsent raw =>
    cases c with
    | ok =>
      cases h
      rfl
    | _ => cases h
  | openSession raw =>
    cases c with
    | ok =>
      cases h
      rfl
    | _ => cases h
  | endedStatus ksid =>
    cases c with
    | ok =>
      cases h
      rfl
    | _ => cases h
  | endedSince =>
    cases c with
    | ok =>
      cases h
      rfl
    | _ => cases h
  | _ => trivial

end Freepod.Auth
