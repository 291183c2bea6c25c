import Freepod.Auth.Removal
import Freepod.Properties.SignOut

/-!
# What a removal reaches

A token request reads the access list once, and answers later.  `remove_entry` sends the logout
token first and deletes the entry last, so a request that reads the list before the deletion can
answer after the app has ended the person's sessions.

* `meets_token_read`: tokens are given on the list that the request read right after its code.
* `removal_reaches`: where no request is let in by the entry alone around the logout token, what the
  app got for it came before, and an entry seen unbound was never bound.
* `token_after_removal`: a request that is let in before the logout token answers after the removal.
-/

namespace Freepod.Auth
open Base

variable {cfg : Config} {call : RemoveEntry}

/-! ## The list a token request goes by -/

/-- the list but for one entry -/
def AccessList.without (l : AccessList) (id : String) : AccessList :=
  { l with entries := l.entries.filter fun e => !(e.id == id) }

/-- the request has redeemed a code of the deployment, and then read this list -/
def HasRead (d : String) (rec : OidcCode) (l : AccessList) (log : Log Ret) : Prop :=
  rec.deploymentID = d ∧ ∃ h older,
    (⟨.accessList d, .ok l⟩ :: ⟨.redeemOIDCCode h, .ok (some (rec, true))⟩ :: older : Log Ret) <:+ log

/-- the deployment's client was found to be open to everybody -/
def FoundOpen (d : String) (log : Log Ret) : Prop :=
  ∃ clientID client, Made log (.ssoClient clientID) (.ok (some client)) ∧ client.id = d ∧
    client.listed = false

/-- the request was let in by a list it read, with the entries that `p` keeps of it -/
def LetIn (cfg : Config) (part : AccessList → AccessList) (claims : IDTokenClaims)
    (log : Log Ret) : Prop :=
  ∃ rec l, HasRead claims.aud rec l log ∧ rec.subject = claims.sub ∧
    ( AccessList.admit cfg (part l) rec.subject rec.email).1 = true

/-- tokens go to whom the list lets in, where the client has one -/
def admissions (cfg : Config) : Contract Ret Response where
  call := fun _ _ => True
  answer := fun log r => ∀ access n claims scope, r.body = .tokens access n claims scope →
    FoundOpen claims.aud log ∨ LetIn cfg id claims log

theorem HasRead.mono {d : String} {rec : OidcCode} {l : AccessList} {log log' : Log Ret}
    (h : HasRead d rec l log) (hl : log <:+ log') : HasRead d rec l log' := by
  obtain ⟨hd, hash, older, hs⟩ := h
  exact ⟨hd, hash, older, hs.trans hl⟩

section
variable {log : Log Ret}

theorem tokenError_quiet (status : Nat) (code description : String) :
    (admissions cfg).answer log (tokenError status code description) :=
  fun _ _ _ _ hb => (nomatch hb)

/-- a read without binding is one call -/
theorem meets_admitted_read (d : String) (id : Identity) :
    Meets (admissions cfg) (fun l x => x = .ok true → ∃ list,
      l = ⟨.accessList d, .ok list⟩ :: log ∧ ( list.admit cfg id.sub id.email).1 = true) log
      (admitted cfg d id false) := by
  unfold admitted
  refine Meets.ask trivial fun x => ?_
  cases x with
  | error e => exact fun h => nomatch h
  | ok list =>
    show Meets _ _ _ (if !( list.admit cfg id.sub id.email).1 || !false ||
      ( list.admit cfg id.sub id.email).2 == "" then _ else _)
    rw [if_pos (by simp)]
    exact fun h => ⟨list, rfl, Except.ok.inj h⟩

theorem meets_releaseTokens_read {client : SsoClient} {rec : OidcCode}
    (h : FoundOpen rec.deploymentID log ∨ ∃ l, HasRead rec.deploymentID rec l log ∧
      ( l.admit cfg rec.subject rec.email).1 = true) :
    Meets (admissions cfg) (admissions cfg).answer log (releaseTokens cfg client rec) := by
  refine Meets.ask trivial fun now => ?_
  refine Meets.ask trivial fun x => ?_
  cases x with
  | error e => exact tokenError_quiet _ _ _
  | ok _ =>
    refine Meets.ask trivial fun x => ?_
    cases x with
    | error e => exact tokenError_quiet _ _ _
    | ok access =>
      intro access' n claims scope hb
      cases hb
      have hsuf : ∀ a b c : Base.Call Ret, log <:+ a :: b :: c :: log := fun a b c =>
        ((List.suffix_cons _ _).trans (List.suffix_cons _ _)).trans (List.suffix_cons _ _)
      refine h.imp (fun ⟨clientID, client, hm, hid, hopen⟩ => ?_) fun ⟨l, hread, hlets⟩ => ?_
      · exact ⟨clientID, client, hm.mono (hsuf _ _ _), hid, hopen⟩
      · exact ⟨rec, l, hread.mono (hsuf _ _ _), rfl, hlets⟩

theorem meets_redeem_read {form : Values} {client : SsoClient} {clientID : String}
    (hm : Made log (.ssoClient clientID) (.ok (some client))) :
    Meets (admissions cfg) (admissions cfg).answer log (redeem cfg form client) := by
  refine meets_answerIf (fun _ => tokenError_quiet _ _ _) fun _ => ?_
  refine meets_answerIf (fun _ => tokenError_quiet _ _ _) fun _ => ?_
  refine Meets.ask trivial fun x => ?_
  cases x with
  | error e => exact tokenError_quiet _ _ _
  | ok found =>
    cases found with
    | none => exact tokenError_quiet _ _ _
    | some p =>
      obtain ⟨rec, fresh⟩ := p
      refine meets_answerIf (fun _ => tokenError_quiet _ _ _) fun hok => ?_
      simp only [not_or, Decidable.not_not, ne_eq] at hok
      obtain ⟨hfresh, hdep, -⟩ := hok
      subst hfresh
      have hmeets : Meets (admissions cfg) (fun l _ => FoundOpen rec.deploymentID l ∨
          ∃ list, HasRead rec.deploymentID rec list l ∧
            ( list.admit cfg rec.subject rec.email).1 = true)
          (⟨.redeemOIDCCode (cfg.sha256Bytes (form.get "code")), .ok (some (rec, true))⟩ :: log)
          (tokenAdmits cfg client rec) := by
        unfold tokenAdmits
        split
        · refine Meets.seq (meets_admitted_read client.id _) fun l x _ hx => ?_
          refine (meets_granted (tokenError_quiet _ _ _) (tokenError_quiet _ _ _) x).mono fun l' _ hl' htrue => .inr ?_
          obtain ⟨list, rfl, hlets⟩ := hx htrue
          rw [hdep]
          exact ⟨list, ⟨hdep, _, log, hl'⟩, hlets⟩
        · rename_i hopen
          exact .inl ⟨clientID, client, hm.cons _, hdep.symm, Bool.not_eq_true _ ▸ hopen⟩
      refine Meets.seq hmeets fun l _ _ hl => ?_
      refine meets_answerIf (fun _ => tokenError_quiet _ _ _) fun _ => ?_
      exact meets_releaseTokens_read hl

/-- **tokens are given on the list read right after the code** -/
theorem meets_token_read (form : Option Values) (basic : Option (String × String)) :
    Meets (admissions cfg) (admissions cfg).answer log (token cfg form basic) := by
  unfold token
  cases form with
  | none => exact tokenError_quiet _ _ _
  | some form =>
    refine meets_answerIf (fun _ => tokenError_quiet _ _ _) fun _ => ?_
    cases hid : clientOf cfg form basic with
    | error r => exact tokenError_quiet _ _ _
    | ok p =>
      obtain ⟨clientID, secret⟩ := p
      refine meets_answerIf (fun _ => tokenError_quiet _ _ _) fun _ => ?_
      have hclient : Meets (admissions cfg) (fun l x => ∀ client, x = .ok (some client) →
          Made l (.ssoClient clientID) (.ok (some client))) log (ssoClient clientID) := by
        unfold ssoClient
        split
        · refine meets_ask_last trivial fun x client hx => ?_
          rw [← hx]
          exact made_head _ _ _
        · exact fun client h => nomatch h
      refine Meets.seq hclient fun l x _ hx => ?_
      cases x with
      | error e => exact tokenError_quiet _ _ _
      | ok found =>
        cases found with
        | none => exact tokenError_quiet _ _ _
        | some client => exact meets_redeem_read (hx client rfl)

end

/-! ## How far the call got -/

/-- the row the call goes by -/
def RemovePoint.entry : RemovePoint → Option AccessEntryRow
  | .locked e | .sent e | .cleared e | .deleted e | .returned e => some e
  | _ => none

def RemovePoint.rank : RemovePoint → Nat
  | .start => 0
  | .locked _ => 1
  | .sent _ => 2
  | .cleared _ => 3
  | .deleted _ => 4
  | .returned _ => 5
  | .failed => 6

/-- a call does not go back, and keeps to its row -/
structure RemovePoint.After (a b : RemovePoint) : Prop where
  rank : a.rank ≤ b.rank
  entry : ∀ e, a.entry = some e → b = .failed ∨ b.entry = some e

theorem RemovePoint.After.refl (a : RemovePoint) : a.After a := ⟨Nat.le_refl _, fun _ => .inr⟩

theorem RemovePoint.After.trans {a b c : RemovePoint} (h : a.After b) (h' : b.After c) :
    a.After c := by
  refine ⟨Nat.le_trans h.rank h'.rank, fun e he => ?_⟩
  rcases h.entry e he with rfl | hb
  · -- nothing comes after a failure
    have hrank := h'.rank
    cases c with
    | failed => exact .inl rfl
    | _ => exact absurd hrank (Nat.not_le_of_lt (Nat.le_of_ble_eq_true rfl))
  · exact h'.entry e hb

section
variable {s t : SharedStore} {accepted : Bool}

/-- the row a call goes by is the entry's, read at its start -/
theorem next_entry (h : call.next s accepted = some t) {e : AccessEntryRow}
    (he : t.point.entry = some e) :
    s.point.entry = some e ∨ e ∈ s.store.entries ∧ e.id = call.entryID := by
  unfold RemoveEntry.next at h
  cases hp : s.point with
  | start =>
    simp only [hp] at h
    split at h <;> cases h
    · cases he
    · rename_i row hrow
      cases he
      have hid := List.find?_some hrow
      rw [Bool.and_eq_true, beq_iff_eq] at hid
      exact .inr ⟨List.mem_of_find?_eq_some hrow, hid.1⟩
  | locked row =>
    simp only [hp] at h
    cases h
    dsimp only at he
    split at he
    · exact .inl he
    · exact .inl he
  | sent row =>
    simp only [hp] at h
    cases h
    dsimp only at he
    split at he
    · exact .inl he
    · cases he
  | cleared row =>
    simp only [hp] at h
    cases h
    exact .inl he
  | deleted row =>
    simp only [hp] at h
    cases h
    exact .inl he
  | returned row =>
    simp only [hp] at h
    cases h
  | failed =>
    simp only [hp] at h
    cases h

/-- what the call's next statement does -/
theorem next_spec (h : call.next s accepted = some t) : s.point.After t.point ∧
    ((t.store = s.store ∧ ∀ e, t.point ≠ .returned e) ∨
      ∃ e, s.point = .deleted e ∧ t.point = .returned e ∧ t.store =
        { s.store with entries := s.store.entries.filter fun r => !(r.id == e.id) }) := by
  unfold RemoveEntry.next at h
  cases hp : s.point with
  | start =>
    simp only [hp] at h
    split at h <;> cases h
    · exact ⟨⟨Nat.le_of_ble_eq_true rfl, fun _ he => nomatch he⟩, .inl ⟨rfl, fun _ => nofun⟩⟩
    · exact ⟨⟨Nat.zero_le _, fun _ he => nomatch he⟩, .inl ⟨rfl, fun _ => nofun⟩⟩
  | locked e =>
    simp only [hp] at h
    cases h
    dsimp only
    split
    · exact ⟨⟨Nat.le_of_ble_eq_true rfl, fun _ => .inr⟩, .inl ⟨rfl, fun _ => nofun⟩⟩
    · exact ⟨⟨Nat.le_of_ble_eq_true rfl, fun _ => .inr⟩, .inl ⟨rfl, fun _ => nofun⟩⟩
  | sent e =>
    simp only [hp] at h
    cases h
    dsimp only
    split
    · exact ⟨⟨Nat.le_of_ble_eq_true rfl, fun _ => .inr⟩, .inl ⟨rfl, fun _ => nofun⟩⟩
    · exact ⟨⟨Nat.le_of_ble_eq_true rfl, fun _ _ => .inl rfl⟩, .inl ⟨rfl, fun _ => nofun⟩⟩
  | cleared e =>
    simp only [hp] at h
    cases h
    exact ⟨⟨Nat.le_of_ble_eq_true rfl, fun _ => .inr⟩, .inl ⟨rfl, fun _ => nofun⟩⟩
  | deleted e =>
    simp only [hp] at h
    cases h
    exact ⟨⟨Nat.le_of_ble_eq_true rfl, fun _ => .inr⟩, .inr ⟨e, rfl, rfl, rfl⟩⟩
  | returned e =>
    simp only [hp] at h
    cases h
  | failed =>
    simp only [hp] at h
    cases h

/-- **what happens outside app-auth**: the platform changes, the call goes on, or it is lost -/
theorem change_cases {w : SharedWorld} (h : call.change s w = some t) :
    (t.point = s.point ∧ ∃ w', change s.store w' = some t.store ∧
      ∀ id d email, w' = .addEntry id d email → id ≠ call.entryID) ∨
    (∃ accepted, w = .next accepted ∧ call.next s accepted = some t) ∨
    (t.point = .failed ∧ t.store = s.store) := by
  cases w with
  | next accepted => exact .inr (.inl ⟨accepted, rfl, h⟩)
  | crash =>
    obtain ⟨e, -, rfl⟩ := Option.map_eq_some_iff.mp h
    exact .inr (.inr ⟨rfl, rfl⟩)
  | world w =>
    refine .inl ?_
    cases w with
    | addEntry id d email =>
      simp only [RemoveEntry.change] at h
      split at h
      · cases h
      · rename_i hid
        obtain ⟨u, hu, rfl⟩ := Option.map_eq_some_iff.mp h
        refine ⟨rfl, .addEntry id d email, hu, fun id' d' email' he => ?_⟩
        cases he
        exact hid
    | dropEntry id =>
      simp only [RemoveEntry.change] at h
      split at h
      · cases h
      · obtain ⟨u, hu, rfl⟩ := Option.map_eq_some_iff.mp h
        exact ⟨rfl, .dropEntry id, hu, fun _ _ _ he => nomatch he⟩
    | dropDeployment d =>
      simp only [RemoveEntry.change] at h
      split at h
      · cases h
      · obtain ⟨u, hu, rfl⟩ := Option.map_eq_some_iff.mp h
        exact ⟨rfl, .dropDeployment d, hu, fun _ _ _ he => nomatch he⟩
    | pass d =>
      simp only [RemoveEntry.change] at h
      obtain ⟨u, hu, rfl⟩ := Option.map_eq_some_iff.mp h
      exact ⟨rfl, .pass d, hu, fun _ _ _ he => nomatch he⟩
    | platform q =>
      simp only [RemoveEntry.change] at h
      obtain ⟨u, hu, rfl⟩ := Option.map_eq_some_iff.mp h
      exact ⟨rfl, .platform q, hu, fun _ _ _ he => nomatch he⟩
    | rotate key =>
      simp only [RemoveEntry.change] at h
      obtain ⟨u, hu, rfl⟩ := Option.map_eq_some_iff.mp h
      exact ⟨rfl, .rotate key, hu, fun _ _ _ he => nomatch he⟩

/-- one call of app-auth is a call on its own store, made where it does not wait -/
theorem perform_shared {o : Op} {x : Ret o} {c : Choice} (h : s.perform cfg o c = some (x, t)) :
    s.waits c o = false ∧ perform cfg s.store o c = some (x, t.store) ∧ t.point = s.point := by
  unfold SharedStore.perform at h
  split at h
  · cases h
  · rename_i hwaits
    obtain ⟨⟨x', u⟩, hu, he⟩ := Option.map_eq_some_iff.mp h
    cases he
    exact ⟨Bool.not_eq_true _ ▸ hwaits, hu, rfl⟩

end

/-! ## The rows of the entry -/

/-- the rows that a change of the platform leaves -/
theorem entries_change {s t : Store} {w : World} (h : change s w = some t) {r : AccessEntryRow}
    (hr : r ∈ t.entries) : r ∈ s.entries ∨ ∃ id d email, w = .addEntry id d email ∧ r.id = id := by
  cases w with
  | addEntry id d email =>
    have h : s.addEntry id d email = some t := h
    unfold Store.addEntry at h
    split at h
    · cases h
    · cases h
      rcases List.mem_append.mp hr with hr | hr
      · exact .inl hr
      · refine .inr ⟨id, d, email, rfl, ?_⟩
        rw [List.mem_singleton.mp hr]
  | dropEntry id =>
    cases h
    exact .inl (List.mem_of_mem_filter hr)
  | dropDeployment d =>
    cases h
    exact .inl (List.mem_of_mem_filter hr)
  | pass d =>
    cases h
    exact .inl hr
  | platform q =>
    cases h
    exact .inl hr
  | rotate key =>
    cases h
    exact .inl hr

/-- a row that `bindEntry` leaves is one that was there, or it is bound -/
theorem mem_bindEntry {s : Store} {e sub name : String} {r : AccessEntryRow}
    (hr : r ∈ (s.bindEntry e sub name).2.entries) :
    r ∈ s.entries ∨ ((∃ r' ∈ s.entries, r'.id = r.id) ∧ r.subject ≠ none) := by
  unfold Store.bindEntry at hr
  split at hr
  · exact .inl hr
  · split at hr
    · exact .inl hr
    · obtain ⟨r', hr', he⟩ := List.mem_map.mp hr
      split at he
      · exact .inr (he ▸ ⟨⟨r', hr', rfl⟩, fun hn => nomatch hn⟩)
      · exact .inl (he ▸ hr')

/-- nothing that app-auth does makes a row appear or unbinds one -/
theorem Does.entries_mem {s t : Store} {o : Op} {x : Ret o} (h : Does cfg s o x t)
    {r : AccessEntryRow} (hr : r ∈ t.entries) :
    r ∈ s.entries ∨ ((∃ r' ∈ s.entries, r'.id = r.id) ∧ r.subject ≠ none) := by
  cases h with
  | binds e sub name x h => exact mem_bindEntry hr
  | purges table x =>
    cases table with
    | _ => exact .inl hr
  | _ => exact .inl hr

/-- an entry is bound where it was not -/
theorem bind_true {s t : Store} {id sub name : String} {c : Choice}
    (h : perform cfg s (.bindEntry id sub name) c = some (.ok true, t)) :
    c.isFails = false ∧ (∃ r ∈ s.entries, r.id = id ∧ r.subject = none) ∧
      ∀ r ∈ t.entries, r.id = id → r.subject ≠ none := by
  have hattempt : attempt s (.ok (s.bindEntry id sub name)) c = some (.ok true, t) := h
  have hc : c.isFails = false := by
    cases c with
    | fails => cases hattempt
    | _ => rfl
  refine ⟨hc, ?_⟩
  obtain ⟨e, he, -⟩ | ⟨b, hb, hx⟩ := attempt_cases hattempt
  · cases he
  · have hbound : s.bindEntry id sub name = (true, t) := by
      rcases hx with hx | hx
      · cases hx
        exact Except.ok.inj hb
      · cases hx
    unfold Store.bindEntry at hbound
    split at hbound
    · cases hbound
    · rename_i r hr
      split at hbound
      · cases hbound
      · cases hbound
        have hfound := List.find?_some hr
        rw [Bool.and_eq_true, beq_iff_eq, Option.isNone_iff_eq_none] at hfound
        refine ⟨⟨r, List.mem_of_find?_eq_some hr, hfound⟩, fun x hx hid => ?_⟩
        obtain ⟨y, hy, he⟩ := List.mem_map.mp hx
        split at he
        · rw [← he]
          exact fun hn => nomatch hn
        · rename_i hfree
          rw [← he] at hid ⊢
          exact fun hn => hfree ⟨hid, hn⟩

/-! ## What holds around the call -/

abbrev SharedTrace := List (Entry Ret Request Time)

/-- somebody was bound to the entry -/
def WasBound (call : RemoveEntry) (tr : SharedTrace) : Prop :=
  ∃ e ∈ tr, ∃ sub name, e.call = ⟨.bindEntry call.entryID sub name, .ok true⟩

/-- the call goes by the entry's row, which it sees as bound if somebody was bound to it, and which
is gone when it returns -/
structure Removing (call : RemoveEntry) (s : SharedStore) (tr : SharedTrace) : Prop where
  id : ∀ e, s.point.entry = some e → e.id = call.entryID
  gone : ∀ e, s.point = .returned e → ∀ r ∈ s.store.entries, r.id ≠ call.entryID
  rows : WasBound call tr → ∀ r ∈ s.store.entries, r.id = call.entryID → r.subject ≠ none
  seen : WasBound call tr → ∀ e, s.point.entry = some e → e.subject ≠ none

section
variable {s t : SharedStore} {tr : SharedTrace}

theorem Removing.change {w : SharedWorld} (hr : Removing call s tr)
    (h : call.change s w = some t) : Removing call t tr := by
  rcases change_cases h with ⟨hpoint, w', hw, hnew⟩ | ⟨accepted, -, hnext⟩ | ⟨hfailed, hstore⟩
  · -- no row of the entry appears
    have hmem : ∀ r ∈ t.store.entries, r.id = call.entryID → r ∈ s.store.entries := by
      intro r hmem hid
      rcases entries_change hw hmem with hold | ⟨id, d, email, hadd, he⟩
      · exact hold
      · exact absurd (he.symm.trans hid) (hnew id d email hadd)
    refine ⟨?_, fun e he r hmem' hid => ?_, fun hb r hmem' hid => ?_, ?_⟩
    · rw [hpoint]
      exact hr.id
    · exact hr.gone e (hpoint ▸ he) r (hmem r hmem' hid) hid
    · exact hr.rows hb r (hmem r hmem' hid) hid
    · rw [hpoint]
      exact hr.seen
  · obtain ⟨-, hstore⟩ := next_spec hnext
    have hsub : ∀ r ∈ t.store.entries, r ∈ s.store.entries := by
      intro r hmem
      rcases hstore with ⟨hsame, -⟩ | ⟨e, -, -, hremoved⟩
      · rw [← hsame]
        exact hmem
      · rw [hremoved] at hmem
        exact List.mem_of_mem_filter hmem
    refine ⟨fun e he => ?_, fun e he r hmem => ?_, fun hb r hmem => hr.rows hb r (hsub r hmem),
      fun hb e he => ?_⟩
    · exact (next_entry hnext he).elim (hr.id e) And.right
    · rcases hstore with ⟨-, hnot⟩ | ⟨e', hdeleted, -, hremoved⟩
      · exact absurd he (hnot e)
      · rw [hremoved] at hmem
        have hne := (List.mem_filter.mp hmem).2
        have hid := hr.id e' (by rw [hdeleted]; rfl)
        rw [hid, Bool.not_eq_true', beq_eq_false_iff_ne] at hne
        exact hne
    · rcases next_entry hnext he with hold | ⟨hmem, hid⟩
      · exact hr.seen hb e hold
      · exact hr.rows hb e hmem hid
  · have hnone : ∀ {e}, t.point.entry ≠ some e := by
      rw [hfailed]
      exact nofun
    refine ⟨fun e he => absurd he hnone, fun e he => ?_, ?_, fun _ e he => absurd he hnone⟩
    · rw [hfailed] at he
      cases he
    · rw [hstore]
      exact hr.rows

theorem Removing.performed {i : Nat} {req : Request} {o : Op} {x : Ret o} {c : Choice} {time : Time}
    (hr : Removing call s tr) (h : s.perform cfg o c = some (x, t)) :
    Removing call t (⟨i, req, ⟨o, x⟩, time⟩ :: tr) := by
  obtain ⟨hwaits, hp, hpoint⟩ := perform_shared h
  have hmem : ∀ r ∈ t.store.entries, r ∈ s.store.entries ∨
      ((∃ r' ∈ s.store.entries, r'.id = r.id) ∧ r.subject ≠ none) :=
    fun r => (does_of_perform hp).entries_mem
  have hgone : ∀ e, t.point = .returned e → ∀ r ∈ t.store.entries, r.id ≠ call.entryID := by
    intro e he r hin hid
    rcases hmem r hin with hold | ⟨⟨r', hr', hsame⟩, -⟩
    · exact hr.gone e (hpoint ▸ he) r hold hid
    · exact hr.gone e (hpoint ▸ he) r' hr' (hsame.trans hid)
  by_cases hnow : ∃ sub name, (⟨o, x⟩ : Base.Call Ret) =
      ⟨.bindEntry call.entryID sub name, .ok true⟩
  · obtain ⟨sub, name, he⟩ := hnow
    cases he
    obtain ⟨hfails, ⟨r, hrow, hid, hfree⟩, hbound⟩ := bind_true hp
    refine ⟨hpoint ▸ hr.id, hgone, fun _ => hbound, fun _ e hentry => ?_⟩
    -- the row was free, so that the call had neither locked nor removed it
    rw [hpoint] at hentry
    have hany : (s.store.entries.any fun r => r.id == call.entryID && r.subject.isNone) = true :=
      List.any_eq_true.mpr ⟨r, hrow, by simp [hid, hfree]⟩
    have hlock : (s.point.lock.any fun e => e.id == call.entryID) = false := by
      simp only [SharedStore.waits, hany, hfails, Bool.and_true, Bool.not_false] at hwaits
      exact hwaits
    have heid := hr.id e hentry
    cases hpt : s.point with
    | returned e' => exact absurd hid (hr.gone e' hpt r hrow)
    | start => rw [hpt] at hentry; cases hentry
    | failed => rw [hpt] at hentry; cases hentry
    | _ =>
      rw [hpt] at hentry hlock
      cases hentry
      simp [RemovePoint.lock, heid] at hlock
  · have hold : WasBound call (⟨i, req, ⟨o, x⟩, time⟩ :: tr) → WasBound call tr := by
      rintro ⟨e, he, sub, name, hcall⟩
      rcases List.mem_cons.mp he with rfl | he
      · exact absurd ⟨sub, name, hcall⟩ hnow
      · exact ⟨e, he, sub, name, hcall⟩
    refine ⟨hpoint ▸ hr.id, hgone, fun hb r hin hid => ?_, fun hb => ?_⟩
    · rcases hmem r hin with hrow | ⟨-, hbound⟩
      · exact hr.rows (hold hb) r hrow hid
      · exact hbound
    · rw [hpoint]
      exact hr.seen (hold hb)

end

/-- the service before the call, asked nothing yet -/
def sharedStart (s : Store) : SharedPool := Service.start ⟨s, .start⟩

theorem removing_of_reach {ok : SharedPool → SharedEvent → Prop} {s0 : Store} {p : SharedPool}
    (h : (removal cfg call).machine.Reach ok (sharedStart s0) p) :
    Grounded (removal cfg call) p ∧ Removing call p.store p.trace := by
  have hnone : ¬ WasBound call [] := fun ⟨_, he, _⟩ => nomatch he
  have hstart : Removing call ⟨s0, .start⟩ [] :=
    ⟨fun _ h => (nomatch h), fun _ h => (nomatch h), fun hb => absurd hb hnone,
      fun hb => absurd hb hnone⟩
  obtain ⟨hg, hr, -⟩ := Machine.Reach.history (S := removal cfg call) (meets_handler cfg)
    (I := Removing call) (F := fun _ _ => True) hstart
    (fun _ _ _ _ hr hc => hr.change hc)
    (fun _ _ _ _ _ _ _ _ _ _ hr _ _ _ hp => ⟨hr.performed hp, trivial⟩) h
  exact ⟨hg, hr⟩

theorem after_of_reach {ok : SharedPool → SharedEvent → Prop} {p q : SharedPool}
    (h : (removal cfg call).machine.Reach ok p q) : p.store.point.After q.store.point := by
  refine h.invariant (P := fun q => p.store.point.After q.store.point) (.refl _) ?_
  intro s a t hs _ hstep
  refine hs.trans ?_
  obtain ⟨req, -, rfl⟩ | ⟨i, c, req, o, k, x, u, -, -, hp, rfl⟩ | ⟨w, u, -, hc, rfl⟩ :=
    step_cases hstep
  · exact .refl _
  · show s.store.point.After u.point
    rw [(perform_shared hp).2.2]
    exact .refl _
  · show s.store.point.After u.point
    rcases change_cases hc with ⟨hpoint, -⟩ | ⟨accepted, -, hnext⟩ | ⟨hfailed, -⟩
    · rw [hpoint]
      exact .refl _
    · exact (next_spec hnext).1
    · rw [hfailed]
      refine ⟨?_, fun _ _ => .inl rfl⟩
      cases s.store.point <;> exact Nat.le_of_ble_eq_true rfl

/-! ## The requests in flight -/

/-- only the entry lets in the one that the code was issued to -/
def OnlyBy (cfg : Config) (call : RemoveEntry) (l : AccessList) (rec : OidcCode) : Prop :=
  ( l.admit cfg rec.subject rec.email).1 = true ∧
    ( AccessList.admit cfg (l.without call.entryID) rec.subject rec.email).1 = false

/-- a token request that only the entry lets in has read the list, and has not answered -/
def InFlight (cfg : Config) (call : RemoveEntry) (p : SharedPool) : Prop :=
  ∃ (i : Nat) (t : Thread Ret Request Response) (rec : OidcCode) (l : AccessList),
    p.threads[i]? = some t ∧ t.prog.answer? = none ∧
    HasRead call.deploymentID rec l (logOf i p.trace) ∧ OnlyBy cfg call l rec

/-- the next call of a token request reads a list on which only the entry lets it in -/
def ReadsNext (cfg : Config) (call : RemoveEntry) (p : SharedPool) (i : Nat) : Prop :=
  ∃ req k rec h older l, p.threads[i]? = some ⟨req, .call (.accessList call.deploymentID) k⟩ ∧
    logOf i p.trace = ⟨.redeemOIDCCode h, .ok (some (rec, true))⟩ :: older ∧
    rec.deploymentID = call.deploymentID ∧
    p.store.store.accessList call.deploymentID = .ok (l, p.store.store) ∧ OnlyBy cfg call l rec

namespace RemoveEntry

/-- at this point the call signs the person out: it sends the token or, where it sends none, the
entry goes -/
def cuts (call : RemoveEntry) : RemovePoint → Bool
  | .locked e => call.sends e
  | .deleted e => !call.sends e
  | _ => false

/-- the token has been sent, and the entry is still there -/
def underway (call : RemoveEntry) : RemovePoint → Bool
  | .sent e | .cleared e | .deleted e => call.sends e
  | _ => false

end RemoveEntry

/-- no token request that only the entry lets in is under way when the person is signed out, and
none reads the list from then on until the entry has gone -/
def Undisturbed (cfg : Config) (call : RemoveEntry) (p : SharedPool) : SharedEvent → Prop
  | .world (.next _) => call.cuts p.store.point = true → ¬ InFlight cfg call p
  | .run i _ => call.underway p.store.point = true → ¬ ReadsNext cfg call p i
  | _ => True

/-- every token response of the deployment's was given before `p`, or not by the entry alone -/
def Reaches (cfg : Config) (call : RemoveEntry) (p q : SharedPool) : Prop :=
  ∀ (i : Nat) (t : Thread Ret Request Response) claims, q.threads[i]? = some t →
    GaveTokens t claims → claims.aud = call.deploymentID →
    p.threads[i]? = some t ∨ FoundOpen claims.aud (logOf i q.trace) ∨
      LetIn cfg (fun l => l.without call.entryID) claims (logOf i q.trace)

/-- a list without the entry is the list where the entry is gone -/
theorem without_of_gone {s : Store} {d id : String} {l : AccessList}
    (h : s.accessList d = .ok (l, s)) (hgone : ∀ r ∈ s.entries, r.id ≠ id) : l.without id = l := by
  unfold Store.accessList at h
  split at h
  · cases h
  · cases h
    unfold AccessList.without
    congr 1
    refine List.filter_eq_self.mpr fun e he => ?_
    obtain ⟨r, hr, rfl⟩ := List.mem_map.mp he
    rw [Bool.not_eq_true', beq_eq_false_iff_ne]
    exact hgone r (List.mem_of_mem_filter hr)

section
variable {s0 : Store} {p p' q : SharedPool} {accepted : Bool} {e : AccessEntryRow}

/-- who gave tokens has redeemed a code, and was let in by the list where there is one -/
theorem letIn_of_tokens (hg : Grounded (removal cfg call) q) {i : Nat}
    {t : Thread Ret Request Response} (ht : q.threads[i]? = some t) {claims : IDTokenClaims}
    (hgave : GaveTokens t claims) : FoundOpen claims.aud (logOf i q.trace) ∨
      LetIn cfg id claims (logOf i q.trace) := by
  obtain ⟨r, access, n, scope, hr, hb⟩ := hgave
  have hreply : reply cfg t.req (logOf i q.trace) r := hg.answered (meets_handler cfg) ht hr
  unfold reply at hreply
  rw [hb] at hreply
  obtain ⟨form, basic, -, -, -, -, -, hreq, -⟩ := hreply
  have hpath := hg.path i t ht
  rw [hreq] at hpath
  exact hpath.answered (C := admissions cfg) (meets_token_read (some form) basic) hr access n claims
    scope hb

/-- the call from the step that signs the person out on -/
theorem point_of_cut (hcut : call.cuts p.store.point = true)
    (hs : (removal cfg call).machine.step p (.world (.next accepted)) = some p') :
    p'.trace = p.trace ∧ ∃ e, (p'.store.point = .sent e ∧ call.sends e = true) ∨
      p'.store.point = .returned e := by
  obtain ⟨u, hu, rfl⟩ := Option.map_eq_some_iff.mp hs
  refine ⟨rfl, ?_⟩
  have hu : call.next p.store accepted = some u := hu
  unfold RemoveEntry.next at hu
  cases hp : p.store.point with
  | locked e =>
    rw [hp] at hcut
    have hsends : call.sends e = true := hcut
    simp only [hp, hsends, if_true] at hu
    cases hu
    exact ⟨e, .inl ⟨rfl, hsends⟩⟩
  | deleted e =>
    simp only [hp] at hu
    cases hu
    exact ⟨e, .inr rfl⟩
  | _ =>
    rw [hp] at hcut
    cases hcut

/-- **after the sign-out only lists that do without the entry let anyone in** -/
theorem letIn_after (h0 : (removal cfg call).machine.Reach (Undisturbed cfg call) (sharedStart s0) p')
    (hpoint : ∃ e, (p'.store.point = .sent e ∧ call.sends e = true) ∨ p'.store.point = .returned e)
    {r : SharedPool} (hr : (removal cfg call).machine.Reach (Undisturbed cfg call) p' r)
    (hq : (removal cfg call).machine.Reach (Undisturbed cfg call) r q)
    (hreturned : q.store.point = .returned e) {i : Nat} {c : Choice}
    (hok : Undisturbed cfg call r (.run i c)) {req : Request} {l : AccessList} {rec : OidcCode}
    {k : Ret (.accessList call.deploymentID) → Prog Ret Response Response} {h : Bytes}
    {older : Log Ret} (ht : r.threads[i]? = some ⟨req, .call (.accessList call.deploymentID) k⟩)
    (hlog : logOf i r.trace = ⟨.redeemOIDCCode h, .ok (some (rec, true))⟩ :: older)
    (hdep : rec.deploymentID = call.deploymentID)
    (hl : r.store.store.accessList call.deploymentID = .ok (l, r.store.store))
    (hlets : ( l.admit cfg rec.subject rec.email).1 = true) :
    ( AccessList.admit cfg (l.without call.entryID) rec.subject rec.email).1 = true := by
  have hafter := after_of_reach hr
  have hbefore := (after_of_reach hq).rank
  rw [hreturned] at hbefore
  have hunderway : call.underway r.store.point = true →
      ( AccessList.admit cfg (l.without call.entryID) rec.subject rec.email).1 = true := by
    intro hu
    by_contra hnot
    exact hok hu ⟨req, k, rec, h, older, l, ht, hlog, hdep, hl, hlets, Bool.not_eq_true _ ▸ hnot⟩
  obtain ⟨e', ⟨hsent, hsends⟩ | hgone⟩ := hpoint
  · rw [hsent] at hafter
    have hentry := hafter.entry e' rfl
    have hrank := hafter.rank
    cases hpt : r.store.point with
    | start =>
      rw [hpt] at hrank
      exact absurd hrank (Nat.not_le_of_lt (Nat.le_of_ble_eq_true rfl))
    | locked x =>
      rw [hpt] at hrank
      exact absurd hrank (Nat.not_le_of_lt (Nat.le_of_ble_eq_true rfl))
    | failed =>
      rw [hpt] at hbefore
      exact absurd hbefore (Nat.not_le_of_lt (Nat.le_of_ble_eq_true rfl))
    | returned x =>
      rw [without_of_gone hl ((removing_of_reach (h0.trans hr)).2.gone x hpt)]
      exact hlets
    | _ =>
      refine hunderway ?_
      rw [hpt] at hentry ⊢
      rcases hentry with hfailed | hentry
      · cases hfailed
      · cases hentry
        exact hsends
  · rw [hgone] at hafter
    rcases hafter.entry e' rfl with hfailed | -
    · rw [hfailed] at hbefore
      exact absurd hbefore (Nat.not_le_of_lt (Nat.le_of_ble_eq_true rfl))
    · have hrank := hafter.rank
      cases hpt : r.store.point with
      | returned x =>
        rw [without_of_gone hl ((removing_of_reach (h0.trans hr)).2.gone x hpt)]
        exact hlets
      | failed =>
        rw [hpt] at hbefore
        exact absurd hbefore (Nat.not_le_of_lt (Nat.le_of_ble_eq_true rfl))
      | _ =>
        rw [hpt] at hrank
        exact absurd hrank (Nat.not_le_of_lt (Nat.le_of_ble_eq_true rfl))

theorem reaches (h0 : (removal cfg call).machine.Reach (Undisturbed cfg call) (sharedStart s0) p)
    (hcut : call.cuts p.store.point = true)
    (hok : Undisturbed cfg call p (.world (.next accepted)))
    (hs : (removal cfg call).machine.step p (.world (.next accepted)) = some p')
    (h : (removal cfg call).machine.Reach (Undisturbed cfg call) p' q)
    (hreturned : q.store.point = .returned e) : Reaches cfg call p q := by
  intro i t claims ht hgave haud
  have h0' := h0.tail hok hs
  obtain ⟨htrace, hpoint⟩ := point_of_cut hcut hs
  rcases letIn_of_tokens (removing_of_reach (h0'.trans h)).1 ht hgave with hopen |
    ⟨rec, l, ⟨hdep, hash, older, hsuf⟩, hsub, hlets⟩
  · exact .inr (.inl hopen)
  have hletIn : ( AccessList.admit cfg (l.without call.entryID) rec.subject rec.email).1 = true →
      p.threads[i]? = some t ∨ FoundOpen claims.aud (logOf i q.trace) ∨
        LetIn cfg (fun l => l.without call.entryID) claims (logOf i q.trace) :=
    fun hw => .inr (.inr ⟨rec, l, ⟨hdep, hash, older, hsuf⟩, hsub, hw⟩)
  obtain ⟨ent, rest, hent, hwho, hcall, hlog⟩ := entry_of_suffix_logOf hsuf
  rw [haud] at hdep hcall
  have hsplit : ent :: rest <:+ p'.trace ∨ p'.trace <:+ rest := by
    rcases List.suffix_or_suffix_of_suffix hent h.trace_suffix with hread | hread
    · exact .inl hread
    · rcases List.suffix_cons_iff.mp hread with heq | hlater
      · exact .inl (heq ▸ List.suffix_refl _)
      · exact .inr hlater
  rcases hsplit with hread | hread
  · -- the list was read before: the request has answered, or it was in flight
    rw [htrace] at hread
    obtain ⟨t₀, ht₀, -⟩ := (removing_of_reach h0).1.entry ent (mem_of_cons_suffix hread)
    rw [hwho] at ht₀
    cases hanswer : t₀.prog.answer? with
    | some r =>
      have hstays := (Machine.Reach.trans (.tail .refl hok hs) h).answered_stays ht₀ hanswer
      rw [ht] at hstays
      cases hstays
      exact .inl ht₀
    | none =>
      by_cases hw : ( AccessList.admit cfg (l.without call.entryID) rec.subject rec.email).1 = true
      · exact hletIn hw
      · have hlogs := logOf_suffix i hread
        rw [← hwho, logOf_self, hcall, hwho, hlog] at hlogs
        exact absurd ⟨i, t₀, rec, l, ht₀, hanswer, ⟨hdep, hash, older, hlogs⟩, hlets,
          Bool.not_eq_true _ ▸ hw⟩ (hok hcut)
  · obtain ⟨r, j, c, req, o, k, x, s, rfl, rfl, hr, hstep, hth, hp, hafter⟩ := h.made hent hread
    cases hwho
    cases hcall
    have hr' : (removal cfg call).machine.Reach (Undisturbed cfg call) r q :=
      Machine.Reach.trans (.tail .refl hstep (step_of_perform hth hp)) hafter
    have hp : r.store.perform cfg (.accessList call.deploymentID) c = some (.ok l, s) := hp
    have hl := told_of_perform (perform_shared hp).2.1 l rfl
    exact hletIn (letIn_after h0' hpoint hr hr' hreturned hstep hth hlog hdep hl hlets)

end

/-! ## A removal and a token request -/

namespace Sample

/-- the client of a listed deployment -/
def listedPlatform : Platform where
  eligible := fun _ => none
  ssoClient := fun d => if d = deployment then
    some ⟨deployment, host, [redirectURI], [], "", false, true⟩ else none
  owner := fun _ => some ("erik@example.com", "erik")

def entryID : String := "5d1a6c0e-64a5-4a1c-8a68-0c7f3d3a4b11"

/-- with one entry, that nobody has signed in with -/
def listedStore : Store := Store.fresh (63900000000 * second) listedPlatform
  [⟨entryID, deployment, "ann@example.com", none, none, none⟩]

def removeEntry : RemoveEntry := ⟨deployment, entryID, some "https://notes.apps.freepod.example/logout"⟩

/-- an event of app-auth, while the API removes an entry -/
def shared : AuthEvent → SharedEvent
  | .arrive req => .arrive req
  | .run i c => .run i c
  | .world w => .world (.world w)

/-- the entry's person signs in to the client, which presents the code -/
def toToken : List AuthEvent :=
  .arrive (.authorize (some [("client_id", deployment), ("redirect_uri", redirectURI),
      ("response_type", "code"), ("scope", "openid")])) ::
    runs 0 [.ok, .text state, .text oidcNonce, .text verifier, .text "flow", .text "keycloak"] ++
  .world (.pass (30 * second)) ::
  .arrive (.callback [("state", state), ("code", "kc")] [(flowCookie ++ firstChars 16 state, "flow")]) ::
    runs 1 [.ok, .ok, .keycloak (some token), .ok, .ok, .text csrf, .text "consent"] ++
  .arrive (.consent (some [("decision", "allow"), ("csrf", csrf)]) [(consentCookie, "consent")]) ::
    runs 2 [.ok, .ok, .ok, .ok, .ok, .ok, .text code, .ok, .ok] ++
  [.arrive (.token (some [("grant_type", "authorization_code"), ("code", code),
      ("redirect_uri", redirectURI), ("client_id", deployment), ("client_secret", clientSecret)]) none)]

/-- the token request reads the list, and gets its tokens -/
def readsList : List AuthEvent := runs 3 [.ok, .ok, .ok]
def getsTokens : List AuthEvent := runs 3 [.ok, .ok, .text "access"]

/-- the step of the call at which it locks the entry, and those after the token is sent -/
def locks : List SharedEvent := [.world (.next true)]
def removes : List SharedEvent := [.world (.next true), .world (.next true), .world (.next true)]

/-- the call has returned, and the token request has its tokens -/
def removedWithTokens (q : SharedPool) : Bool :=
  (match q.store.point with
  | .returned _ => true
  | _ => false) &&
  match q.threads[3]? with
  | some (⟨_, .pure ⟨_, _, .tokens _ _ claims _⟩⟩ : Thread Ret Request Response) =>
    decide (claims.aud = deployment)
  | _ => false

/-- every list the request read lets its person in by the entry alone -/
def byEntryAlone (q : SharedPool) : Bool := (logOf 3 q.trace).all fun c =>
  match c with
  | ⟨.ssoClient _, .ok (some client)⟩ => client.listed
  | ⟨.accessList _, .ok l⟩ =>
    !( AccessList.admit config (l.without entryID) "ann" "ann@example.com").1
  | ⟨.redeemOIDCCode _, .ok (some (rec, _))⟩ =>
    decide (rec.subject = "ann" ∧ rec.email = "ann@example.com")
  | _ => true

/-- nothing is under way around the sign-out -/
def calm (p : SharedPool) : SharedEvent → Bool
  | .world (.next _) => p.threads.all fun t => t.prog.answer?.isSome
  | .run _ _ => !removeEntry.underway p.store.point
  | _ => true

end Sample

theorem Sample.removed_with_tokens {q : SharedPool} (h : Sample.removedWithTokens q = true) :
    (∃ e, q.store.point = .returned e) ∧ ∃ t claims, q.threads[3]? = some t ∧
      GaveTokens t claims ∧ claims.aud = Sample.deployment := by
  unfold Sample.removedWithTokens at h
  obtain ⟨hpoint, htokens⟩ := (Bool.and_eq_true _ _).mp h
  constructor
  · split at hpoint
    · rename_i e he
      exact ⟨e, he⟩
    · cases hpoint
  · split at htokens
    · rename_i ht
      exact ⟨_, _, ht, ⟨_, _, _, _, rfl, rfl⟩, of_decide_eq_true htokens⟩
    · cases htokens

theorem Sample.not_let_in {q : SharedPool} (h : Sample.byEntryAlone q = true)
    {claims : IDTokenClaims} : ¬ FoundOpen claims.aud (logOf 3 q.trace) ∧
      ¬ LetIn Sample.config (fun l => l.without Sample.entryID) claims (logOf 3 q.trace) := by
  have hall := List.all_eq_true.mp h
  constructor
  · rintro ⟨clientID, client, hm, -, hopen⟩
    have hlisted : client.listed = true := hall _ hm
    rw [hopen] at hlisted
    cases hlisted
  · rintro ⟨rec, l, ⟨-, hash, older, hsuf⟩, -, hlets⟩
    have hl : (!( AccessList.admit Sample.config (l.without Sample.entryID) "ann" "ann@example.com").1) = true :=
      hall ⟨.accessList claims.aud, .ok l⟩ (hsuf.subset List.mem_cons_self)
    have hrec : decide (rec.subject = "ann" ∧ rec.email = "ann@example.com") = true :=
      hall ⟨.redeemOIDCCode hash, .ok (some (rec, true))⟩
        (hsuf.subset (List.mem_cons_of_mem _ List.mem_cons_self))
    obtain ⟨hsub, hemail⟩ := of_decide_eq_true hrec
    rw [hsub, hemail] at hlets
    rw [hlets] at hl
    cases hl

theorem Sample.undisturbed_of_calm {p : SharedPool} {ev : SharedEvent}
    (h : Sample.calm p ev = true) : Undisturbed Sample.config Sample.removeEntry p ev := by
  cases ev with
  | arrive req => trivial
  | run i c =>
    intro hu
    have h : (!Sample.removeEntry.underway p.store.point) = true := h
    rw [hu] at h
    cases h
  | world w =>
    cases w with
    | world w => trivial
    | crash => trivial
    | next accepted =>
      rintro - ⟨i, t, rec, l, ht, hanswer, -⟩
      have hall := List.all_eq_true.mp h t (List.mem_of_getElem? ht)
      rw [hanswer] at hall
      cases hall

/-- **what a removal reaches**: where no request is let in by the entry alone around the sign-out,
every token response was given before it or without the entry; an entry that was seen unbound was
never bound to anyone -/
theorem removal_reaches (cfg : Config) (call : RemoveEntry) (s0 : Store) :
    (∀ p p' q accepted e,
      (removal cfg call).machine.Reach (Undisturbed cfg call) (sharedStart s0) p →
      call.cuts p.store.point = true → Undisturbed cfg call p (.world (.next accepted)) →
      (removal cfg call).machine.step p (.world (.next accepted)) = some p' →
      (removal cfg call).machine.Reach (Undisturbed cfg call) p' q →
      q.store.point = .returned e → Reaches cfg call p q) ∧
    ∀ q e, (removal cfg call).machine.Reach (fun _ _ => True) (sharedStart s0) q →
      q.store.point.entry = some e → e.subject = none → ¬ WasBound call q.trace := by
  constructor
  · intro p p' q accepted e h0 hcut hok hs h hreturned
    exact reaches h0 hcut hok hs h hreturned
  · intro q e h he hfree hbound
    exact (removing_of_reach h).2.seen hbound e he hfree

/-- tokens that the entry's person got before the removal -/
theorem removal_reaches_sample : ∃ p q, Reaches Sample.config Sample.removeEntry p q ∧
    ∃ t claims, q.threads[3]? = some t ∧ GaveTokens t claims := by
  obtain ⟨p, h0, -, hp⟩ := Machine.exists_reach_of_runIf
    (M := (removal Sample.config Sample.removeEntry).machine) (s := sharedStart Sample.listedStore)
    (P := fun _ => True) (c := Sample.calm) (k := Undisturbed Sample.config Sample.removeEntry)
    (fun _ _ _ _ _ _ => trivial) (fun _ _ _ => Sample.undisturbed_of_calm)
    (l := (Sample.toToken ++ Sample.readsList ++ Sample.getsTokens).map Sample.shared ++ Sample.locks)
    (p := fun p => (Sample.removeEntry.cuts p.store.point && Sample.calm p (.world (.next true))) &&
      ((removal Sample.config Sample.removeEntry).machine.step p (.world (.next true))).any fun p' =>
        ((removal Sample.config Sample.removeEntry).machine.runIf Sample.calm p' Sample.removes).any
          Sample.removedWithTokens) trivial (by decide +kernel)
  simp only [Bool.and_eq_true] at hp
  obtain ⟨⟨hcut, hcalm⟩, hp⟩ := hp
  obtain ⟨p', hs, hp⟩ := (Option.any_eq_true _ _).mp hp
  obtain ⟨q, h, -, hq⟩ := Machine.exists_reach_of_runIf
    (M := (removal Sample.config Sample.removeEntry).machine) (P := fun _ => True)
    (c := Sample.calm) (k := Undisturbed Sample.config Sample.removeEntry)
    (fun _ _ _ _ _ _ => trivial) (fun _ _ _ => Sample.undisturbed_of_calm) trivial hp
  obtain ⟨⟨e, hreturned⟩, t, claims, ht, hgave, -⟩ := Sample.removed_with_tokens hq
  exact ⟨p, q, (removal_reaches Sample.config Sample.removeEntry Sample.listedStore).1 p p' q true e
    h0 hcut (Sample.undisturbed_of_calm hcalm) hs h hreturned, t, claims, ht, hgave⟩

/-- **tokens after a removal**: the request has read the list when the logout token is sent -/
theorem token_after_removal : ¬ ∀ (cfg : Config) (call : RemoveEntry) (s0 : Store) p p' q accepted e,
    (removal cfg call).machine.Reach (fun _ _ => True) (sharedStart s0) p →
    call.cuts p.store.point = true →
    (removal cfg call).machine.step p (.world (.next accepted)) = some p' →
    (removal cfg call).machine.Reach (fun _ _ => True) p' q →
    q.store.point = .returned e → Reaches cfg call p q := by
  intro hall
  obtain ⟨p, h0, hp⟩ := Machine.exists_reach_of_run
    (M := (removal Sample.config Sample.removeEntry).machine) (s := sharedStart Sample.listedStore)
    (l := (Sample.toToken ++ Sample.readsList).map Sample.shared ++ Sample.locks)
    (p := fun p => (Sample.removeEntry.cuts p.store.point &&
        p.threads[3]?.all fun t => t.prog.answer?.isNone) &&
      ((removal Sample.config Sample.removeEntry).machine.step p (.world (.next true))).any fun p' =>
        ((removal Sample.config Sample.removeEntry).machine.run p'
          (Sample.removes ++ Sample.getsTokens.map Sample.shared)).any
            fun q => Sample.removedWithTokens q && Sample.byEntryAlone q) (by decide +kernel)
  simp only [Bool.and_eq_true] at hp
  obtain ⟨⟨hcut, hwaiting⟩, hp⟩ := hp
  obtain ⟨p', hs, hp⟩ := (Option.any_eq_true _ _).mp hp
  obtain ⟨q, h, hq⟩ := Machine.exists_reach_of_run hp
  obtain ⟨htokens, halone⟩ := (Bool.and_eq_true _ _).mp hq
  obtain ⟨⟨e, hreturned⟩, t, claims, ht, hgave, haud⟩ := Sample.removed_with_tokens htokens
  obtain ⟨hopen, hlet⟩ : ¬ FoundOpen claims.aud (logOf 3 q.trace) ∧
      ¬ LetIn Sample.config (fun l => l.without Sample.entryID) claims (logOf 3 q.trace) :=
    Sample.not_let_in halone
  rcases hall _ _ _ p p' q true e h0 hcut hs h hreturned 3 t claims ht hgave haud with
    hbefore | hfound | hwithout
  · -- before the logout token the request had no answer
    obtain ⟨r, access, n, scope, hr, -⟩ := hgave
    rw [hbefore, Option.all_some, hr] at hwaiting
    cases hwaiting
  · exact hopen hfound
  · exact hlet hwithout

end Freepod.Auth
