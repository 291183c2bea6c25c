import Freepod.Properties.Integrity

/-!
# Whom the entries of an access list are bound to

* `admit_openTo`: an entry that is bound to another subject admits nobody, and an owner with a
  subject is not known by email.
* `Constrained`: the constraints on the entries, which every call keeps.
* `Grows`: a row that is bound stays as it is.
* `Admissions`: what a trace has read of the lists still stands.
* `access_bindings`: in every run of sign-ins, an entry is bound once, a subject to one entry of a
  deployment, and a code goes to the owner or to a subject that an entry is then bound to.
-/

namespace Freepod.Auth
open Base

variable {cfg : Config} {s t u : Store} {tr : Trace} {sub email : String}

/-! ## One copy of a list -/

/-- the list without the entries that are bound to another subject, and without the email of an
owner who has a subject -/
def AccessList.openTo (l : AccessList) (sub : String) : AccessList where
  ownerEmail := if l.ownerSubject = "" then l.ownerEmail else ""
  ownerSubject := l.ownerSubject
  entries := l.entries.filter fun e => e.subject == "" || e.subject == sub

/-- **what is bound to others admits nobody by email** -/
theorem admit_openTo (l : AccessList) (sub email : String) :
    AccessList.admit cfg (l.openTo sub) sub email = l.admit cfg sub email := by
  have hany : (l.openTo sub).entries.any (fun e => sub != "" && e.subject == sub) =
      l.entries.any fun e => sub != "" && e.subject == sub := by
    rw [AccessList.openTo, List.any_filter]
    congr 1
    funext e
    cases e.subject == sub <;> simp
  have hfind : (l.openTo sub).entries.find?
        (fun e => e.subject == "" && email != "" && cfg.equalFold e.email email) =
      l.entries.find? fun e => e.subject == "" && email != "" && cfg.equalFold e.email email := by
    rw [AccessList.openTo, List.find?_filter]
    congr 1
    funext e
    simp only [Bool.decide_and, Bool.decide_eq_true]
    cases e.subject == "" <;> cases e.subject == sub <;> rfl
  unfold AccessList.admit
  rw [hany, hfind]
  by_cases hempty : l.ownerSubject = ""
  · simp [AccessList.openTo, hempty]
  · simp [AccessList.openTo, hempty]

/-- **the four ways to be admitted** -/
theorem admit_cases {l : AccessList} {e : String} (h : l.admit cfg sub email = (true, e)) :
    (l.ownerSubject ≠ "" ∧ sub = l.ownerSubject ∧ e = "") ∨
    (l.ownerSubject = "" ∧ email ≠ "" ∧ cfg.equalFold email l.ownerEmail = true ∧ e = "") ∨
    (∃ x ∈ l.entries, x.subject ≠ "" ∧ x.subject = sub ∧ e = "") ∨
    ∃ x ∈ l.entries, x.subject = "" ∧ e = x.id := by
  unfold AccessList.admit at h
  split at h
  · rename_i hsub
    exact .inl ⟨hsub.1, hsub.2.2, (Prod.mk.inj h).2.symm⟩
  split at h
  · rename_i hmail
    exact .inr (.inl ⟨hmail.1, hmail.2.1, hmail.2.2, (Prod.mk.inj h).2.symm⟩)
  split at h
  · rename_i hany
    obtain ⟨x, hx, hq⟩ := List.any_eq_true.mp hany
    rw [Bool.and_eq_true, bne_iff_ne, beq_iff_eq] at hq
    exact .inr (.inr (.inl ⟨x, hx, hq.2 ▸ hq.1, hq.2, (Prod.mk.inj h).2.symm⟩))
  split at h
  · rename_i x hfind
    have hq := List.find?_some hfind
    rw [Bool.and_eq_true, Bool.and_eq_true, beq_iff_eq] at hq
    exact .inr (.inr (.inr ⟨x, List.mem_of_find?_eq_some hfind, hq.1.1, (Prod.mk.inj h).2.symm⟩))
  · cases (Prod.mk.inj h).1

/-- a list as it is read -/
theorem accessList_spec {d : String} {l : AccessList} (h : s.accessList d = .ok (l, t)) :
    s.platform.owner d = some (l.ownerEmail, l.ownerSubject) ∧
      ∀ x ∈ l.entries, ∃ r ∈ s.entries, r.deploymentID = d ∧
        x = ⟨r.id, r.email, r.subject.getD ""⟩ := by
  unfold Store.accessList at h
  split at h
  · cases h
  · rename_i email subject howner
    cases h
    refine ⟨howner, fun x hx => ?_⟩
    obtain ⟨r, hr, rfl⟩ := List.mem_map.mp hx
    obtain ⟨hmem, hd⟩ := List.mem_filter.mp hr
    exact ⟨r, hmem, eq_of_beq hd, rfl⟩

/-! ## The entries -/

/-- the primary key, ids that are not empty, and `uq_app_access_entry_subject` -/
structure Constrained (s : Store) : Prop where
  ids : (s.entries.map AccessEntryRow.id).Nodup
  named : ∀ r ∈ s.entries, r.id ≠ ""
  once : ∀ r ∈ s.entries, ∀ r' ∈ s.entries, r.deploymentID = r'.deploymentID →
    r.subject = r'.subject → r.subject ≠ none → r = r'

theorem Constrained.eq_of_id (h : Constrained s) {r r' : AccessEntryRow} (hr : r ∈ s.entries)
    (hr' : r' ∈ s.entries) (hid : r.id = r'.id) : r = r' :=
  List.inj_on_of_nodup_map h.ids hr hr' hid

/-- no row goes, and one that is bound stays as it is -/
structure Grows (s t : Store) : Prop where
  owner : t.platform.owner = s.platform.owner
  rows : ∀ r ∈ s.entries, ∃ r' ∈ t.entries, r'.id = r.id ∧ r'.deploymentID = r.deploymentID ∧
    (r.subject ≠ none → r' = r)

theorem Grows.of_eq (howner : t.platform.owner = s.platform.owner) (he : t.entries = s.entries) :
    Grows s t where
  owner := howner
  rows := fun r hr => ⟨r, he ▸ hr, rfl, rfl, fun _ => rfl⟩

theorem Grows.refl (s : Store) : Grows s s := .of_eq rfl rfl

theorem Grows.trans (h : Grows s t) (h' : Grows t u) : Grows s u where
  owner := h'.owner.trans h.owner
  rows := by
    intro r hr
    obtain ⟨r1, hr1, hid, hd, hsame⟩ := h.rows r hr
    obtain ⟨r2, hr2, hid', hd', hsame'⟩ := h'.rows r1 hr1
    refine ⟨r2, hr2, hid'.trans hid, hd'.trans hd, fun hbound => ?_⟩
    rw [hsame hbound] at hsame'
    exact hsame' hbound

/-- a row that is bound is found bound again -/
theorem Grows.bound (h : Grows s t) {r : AccessEntryRow} (hr : r ∈ s.entries)
    (hbound : r.subject ≠ none) : r ∈ t.entries := by
  obtain ⟨r', hr', -, -, hsame⟩ := h.rows r hr
  exact hsame hbound ▸ hr'

/-- what a `bindEntry` that finds the entry free makes of a row -/
def AccessEntryRow.bindTo (r : AccessEntryRow) (id sub name : String) (now : Time) :
    AccessEntryRow :=
  if r.id = id ∧ r.subject = none then
    { r with subject := some sub, name := nullable name, boundAt := some now }
  else r

/-- **`bindEntry` binds a free entry to a subject that no entry of the deployment holds**, or
nothing -/
theorem bindEntry_cases (s : Store) (id sub name : String) :
    s.bindEntry id sub name = (false, s) ∨
    ∃ r ∈ s.entries, r.id = id ∧ r.subject = none ∧
      (∀ r' ∈ s.entries, r'.deploymentID = r.deploymentID → r'.subject ≠ some sub) ∧
      s.bindEntry id sub name =
        (true, { s with entries := s.entries.map fun r => r.bindTo id sub name s.now }) := by
  unfold Store.bindEntry
  split
  · exact .inl rfl
  · rename_i r hfind
    split
    · exact .inl rfl
    · rename_i hfree
      have hq := List.find?_some hfind
      rw [Bool.and_eq_true, beq_iff_eq, Option.isNone_iff_eq_none] at hq
      have hmem := List.mem_of_find?_eq_some hfind
      refine .inr ⟨r, hmem, hq.1, hq.2, fun r' hr' hd hs => hfree ?_, rfl⟩
      refine List.any_eq_true.mpr ⟨r', hr', ?_⟩
      rw [Bool.and_eq_true, beq_iff_eq, beq_iff_eq]
      exact ⟨hd, hs⟩

theorem bindTo_id (r : AccessEntryRow) (id sub name : String) (now : Time) :
    (r.bindTo id sub name now).id = r.id ∧
      (r.bindTo id sub name now).deploymentID = r.deploymentID := by
  unfold AccessEntryRow.bindTo
  split
  · exact ⟨rfl, rfl⟩
  · exact ⟨rfl, rfl⟩

theorem bindTo_of_bound {r : AccessEntryRow} (h : r.subject ≠ none) (id sub name : String)
    (now : Time) : r.bindTo id sub name now = r := if_neg fun hfree => h hfree.2

theorem Grows.bindEntry (s : Store) (id sub name : String) :
    Grows s (s.bindEntry id sub name).2 := by
  rcases bindEntry_cases s id sub name with h | ⟨r, -, -, -, -, h⟩
  · rw [h]
    exact .refl s
  · rw [h]
    refine ⟨rfl, fun r hr => ⟨_, List.mem_map_of_mem hr, ?_, ?_, fun hbound => ?_⟩⟩
    · exact (bindTo_id r id sub name s.now).1
    · exact (bindTo_id r id sub name s.now).2
    · exact bindTo_of_bound hbound id sub name s.now

/-- **the constraints stay** -/
theorem Constrained.bindEntry (h : Constrained s) (id sub name : String) :
    Constrained (s.bindEntry id sub name).2 := by
  rcases bindEntry_cases s id sub name with he | ⟨x, hx, rfl, hfree, hother, he⟩
  · rw [he]
    exact h
  rw [he]
  -- only `x` is changed, and no other row of its deployment holds the subject
  have hchanged : ∀ r ∈ s.entries, r.bindTo x.id sub name s.now = r ∨
      (r = x ∧ (r.bindTo x.id sub name s.now).subject = some sub) := by
    intro r hr
    unfold AccessEntryRow.bindTo
    split
    · rename_i hid
      exact .inr ⟨h.eq_of_id hr hx hid.1, rfl⟩
    · exact .inl rfl
  constructor
  · have hids : (AccessEntryRow.id ∘ fun r => r.bindTo x.id sub name s.now) = AccessEntryRow.id :=
      funext fun r => (bindTo_id r x.id sub name s.now).1
    show ((s.entries.map _).map AccessEntryRow.id).Nodup
    rw [List.map_map, hids]
    exact h.ids
  · intro r' hr'
    obtain ⟨r, hr, rfl⟩ := List.mem_map.mp hr'
    rw [(bindTo_id r x.id sub name s.now).1]
    exact h.named r hr
  · intro a ha b hb hd hs hbound
    obtain ⟨r, hr, rfl⟩ := List.mem_map.mp ha
    obtain ⟨r', hr', rfl⟩ := List.mem_map.mp hb
    rw [(bindTo_id r x.id sub name s.now).2, (bindTo_id r' x.id sub name s.now).2] at hd
    rcases hchanged r hr with he | ⟨rfl, hsub⟩
    · rcases hchanged r' hr' with he' | ⟨rfl, hsub'⟩
      · rw [he, he'] at hs ⊢
        rw [he] at hbound
        exact h.once r hr r' hr' hd hs hbound
      · rw [he, hsub'] at hs
        exact absurd hs (hother r hr hd)
    · rcases hchanged r' hr' with he' | ⟨rfl, hsub'⟩
      · rw [hsub, he'] at hs
        exact absurd hs.symm (hother r' hr' hd.symm)
      · rfl

/-- what one call leaves of the entries -/
theorem Does.entries_eq {o : Op} {x : Ret o} (h : Does cfg s o x t) :
    (t.platform = s.platform ∧ t.entries = s.entries) ∨
      ∃ id sub name, t = (s.bindEntry id sub name).2 := by
  cases h with
  | binds e sub name x h => exact .inr ⟨e, sub, name, rfl⟩
  | purges table x =>
    cases table with
    | _ => exact .inl ⟨rfl, rfl⟩
  | _ => exact .inl ⟨rfl, rfl⟩

theorem Does.grows {o : Op} {x : Ret o} (h : Does cfg s o x t) : Grows s t := by
  rcases h.entries_eq with ⟨hp, he⟩ | ⟨id, sub, name, rfl⟩
  · exact .of_eq (congrArg Platform.owner hp) he
  · exact .bindEntry s id sub name

theorem Constrained.of_eq (h : Constrained s) (he : t.entries = s.entries) : Constrained t where
  ids := he ▸ h.ids
  named := he ▸ h.named
  once := he ▸ h.once

theorem Does.constrained {o : Op} {x : Ret o} (h : Does cfg s o x t) (hs : Constrained s) :
    Constrained t := by
  rcases h.entries_eq with ⟨-, he⟩ | ⟨id, sub, name, rfl⟩
  · exact hs.of_eq he
  · exact hs.bindEntry id sub name

/-! ## Runs of sign-ins -/

/-- nobody is taken off a list, and no owner changes -/
def ListsStand (p : AuthPool) : AuthEvent → Prop
  | .world (.dropEntry _) | .world (.dropDeployment _) => False
  | .world (.platform q) => q.owner = p.store.platform.owner
  | _ => True

theorem change_stands {p : AuthPool} {w : World} (hok : ListsStand p (.world w))
    (h : change p.store w = some t) (hs : Constrained p.store) :
    Grows p.store t ∧ Constrained t := by
  cases w with
  | pass d =>
    cases h
    exact ⟨.of_eq rfl rfl, hs.of_eq rfl⟩
  | platform q =>
    cases h
    exact ⟨.of_eq hok rfl, hs.of_eq rfl⟩
  | addEntry id d email =>
    have h : p.store.addEntry id d email = some t := h
    unfold Store.addEntry at h
    split at h
    · cases h
    · rename_i hnew
      cases h
      obtain ⟨hid, hany⟩ := not_or.mp hnew
      have hother : ∀ r ∈ p.store.entries, r.id ≠ id := by
        intro r hr he
        refine hany (List.any_eq_true.mpr ⟨r, hr, ?_⟩)
        rw [Bool.or_eq_true, beq_iff_eq]
        exact .inl he
      refine ⟨⟨rfl, fun r hr => ⟨r, List.mem_append_left _ hr, rfl, rfl, fun _ => rfl⟩⟩, ?_, ?_, ?_⟩
      · rw [List.map_append, List.nodup_append]
        refine ⟨hs.ids, List.nodup_singleton _, fun a ha b hb => ?_⟩
        obtain ⟨r, hr, rfl⟩ := List.mem_map.mp ha
        rw [List.mem_singleton.mp hb]
        exact hother r hr
      · intro r hr
        rcases List.mem_append.mp hr with hr | hr
        · exact hs.named r hr
        · rw [List.mem_singleton.mp hr]
          exact hid
      · intro r hr r' hr' hd hsub hbound
        rcases List.mem_append.mp hr with hr | hr
        · rcases List.mem_append.mp hr' with hr' | hr'
          · exact hs.once r hr r' hr' hd hsub hbound
          · rw [List.mem_singleton.mp hr'] at hsub
            exact absurd hsub hbound
        · rw [List.mem_singleton.mp hr] at hbound
          exact absurd rfl hbound
  | dropEntry id => exact hok.elim
  | dropDeployment d => exact hok.elim
  | rotate key =>
    cases h
    exact ⟨.of_eq rfl rfl, hs.of_eq rfl⟩

/-- a list that was read still stands: the owner is the same, its entries are there, and those that
were bound are bound so -/
def ReadIn (s : Store) (d : String) (l : AccessList) : Prop :=
  s.platform.owner d = some (l.ownerEmail, l.ownerSubject) ∧
    ∀ x ∈ l.entries, ∃ r ∈ s.entries, r.id = x.id ∧ r.deploymentID = d ∧
      (x.subject ≠ "" → r.subject = some x.subject)

theorem ReadIn.grow {d : String} {l : AccessList} (h : ReadIn s d l) (hg : Grows s t) :
    ReadIn t d l := by
  refine ⟨by rw [hg.owner]; exact h.1, fun x hx => ?_⟩
  obtain ⟨r, hr, hid, hd, hbound⟩ := h.2 x hx
  obtain ⟨r', hr', hid', hd', hsame⟩ := hg.rows r hr
  refine ⟨r', hr', hid'.trans hid, hd'.trans hd, fun hne => ?_⟩
  rw [hsame (by rw [hbound hne]; exact Option.some_ne_none _)]
  exact hbound hne

theorem readIn_of_accessList {d : String} {l : AccessList} (h : s.accessList d = .ok (l, t)) :
    ReadIn s d l := by
  obtain ⟨howner, hentries⟩ := accessList_spec h
  refine ⟨howner, fun x hx => ?_⟩
  obtain ⟨r, hr, hd, rfl⟩ := hentries x hx
  refine ⟨r, hr, rfl, hd, fun hne => ?_⟩
  cases hsub : r.subject with
  | some subject => rfl
  | none =>
    rw [hsub] at hne
    exact absurd rfl hne

/-- the entry is bound to the subject -/
def BoundIn (s : Store) (id sub : String) : Prop :=
  ∃ r ∈ s.entries, r.id = id ∧ r.subject = some sub

theorem BoundIn.grow {id : String} (h : BoundIn s id sub) (hg : Grows s t) : BoundIn t id sub := by
  obtain ⟨r, hr, hid, hs⟩ := h
  exact ⟨r, hg.bound hr (by rw [hs]; exact Option.some_ne_none _), hid, hs⟩

theorem boundIn_of_perform {id name : String} {c : Choice}
    (h : perform cfg s (.bindEntry id sub name) c = some (.ok true, t)) : BoundIn t id sub := by
  have h : attempt s (.ok (s.bindEntry id sub name)) c = some (.ok true, t) := h
  obtain ⟨e, he, -⟩ | ⟨b, hb, hx⟩ := attempt_cases h
  · cases he
  · have hbound : s.bindEntry id sub name = (true, t) := by
      rcases hx with hx | hx
      · cases hx
        exact Except.ok.inj hb
      · cases hx
    rcases bindEntry_cases s id sub name with he | ⟨r, hr, hid, hfree, -, he⟩
    · rw [he] at hbound
      cases hbound
    · rw [he] at hbound
      cases hbound
      refine ⟨_, List.mem_map_of_mem hr, ?_⟩
      unfold AccessEntryRow.bindTo
      rw [if_pos ⟨hid, hfree⟩]
      exact ⟨hid, rfl⟩

/-- **what the trace has read of the lists stands, and so does what it has bound** -/
structure Admissions (s : Store) (tr : Trace) : Prop where
  read : ∀ e ∈ tr, ∀ d l, e.call = ⟨.accessList d, .ok l⟩ → ReadIn s d l
  bound : ∀ e ∈ tr, ∀ id sub name, e.call = ⟨.bindEntry id sub name, .ok true⟩ → BoundIn s id sub

theorem Admissions.grow (h : Admissions s tr) (hg : Grows s t) : Admissions t tr where
  read := fun e he d l hc => (h.read e he d l hc).grow hg
  bound := fun e he id sub name hc => (h.bound e he id sub name hc).grow hg

theorem Admissions.call {o : Op} {x : Ret o} {c : Choice} {e : AuthEntry} (h : Admissions s tr)
    (hp : perform cfg s o c = some (x, t)) (hc : e.call = ⟨o, x⟩) : Admissions t (e :: tr) := by
  have hg := (does_of_perform hp).grows
  have hold := h.grow hg
  constructor
  · intro e' he' d l hc'
    rcases List.mem_cons.mp he' with rfl | he'
    · rw [hc] at hc'
      cases hc'
      exact (readIn_of_accessList (told_of_perform hp l rfl)).grow hg
    · exact hold.read e' he' d l hc'
  · intro e' he' id sub name hc'
    rcases List.mem_cons.mp he' with rfl | he'
    · rw [hc] at hc'
      cases hc'
      exact boundIn_of_perform hp
    · exact hold.bound e' he' id sub name hc'

/-- the subject owns the deployment, or an entry of it is bound to the subject -/
def Entitled (cfg : Config) (s : Store) (d sub email : String) : Prop :=
  (∃ mail subject, s.platform.owner d = some (mail, subject) ∧
    ((subject ≠ "" ∧ sub = subject) ∨
      (subject = "" ∧ email ≠ "" ∧ cfg.equalFold email mail = true))) ∨
  ∃ r ∈ s.entries, r.deploymentID = d ∧ r.subject = some sub

theorem entitled_of_bound {i : Nat} {d : String} (h : Admissions s tr) (hs : Constrained s)
    (hb : Bound cfg (logOf i tr) d sub email) : Entitled cfg s d sub email := by
  obtain ⟨l, hread, hadmit⟩ := hb
  obtain ⟨e, older, hsuf, -, hc⟩ := entry_of_mem_logOf hread
  obtain ⟨howner, hentries⟩ := h.read e (mem_of_cons_suffix hsuf) d l hc
  have hcases : ∃ id, l.admit cfg sub email = (true, id) ∧ (id ≠ "" → BoundIn s id sub) := by
    rcases hadmit with hadmit | ⟨id, name, hadmit, hmade⟩
    · exact ⟨"", hadmit, fun hne => absurd rfl hne⟩
    · obtain ⟨e', older', hsuf', -, hc'⟩ := entry_of_mem_logOf hmade
      exact ⟨id, hadmit, fun _ => h.bound e' (mem_of_cons_suffix hsuf') id sub name hc'⟩
  obtain ⟨id, hadmit, hbound⟩ := hcases
  rcases admit_cases hadmit with ⟨hne, hsub, -⟩ | ⟨hnone, hmail, hfold, -⟩ | ⟨x, hx, hne, hsub, -⟩ |
    ⟨x, hx, -, rfl⟩
  · exact .inl ⟨_, _, howner, .inl ⟨hne, hsub⟩⟩
  · exact .inl ⟨_, _, howner, .inr ⟨hnone, hmail, hfold⟩⟩
  · obtain ⟨r, hr, -, hd, hboundTo⟩ := hentries x hx
    exact .inr ⟨r, hr, hd, hsub ▸ hboundTo hne⟩
  · -- the entry that was returned to be bound
    obtain ⟨r, hr, hid, hd, -⟩ := hentries x hx
    obtain ⟨r', hr', hid', hs'⟩ := hbound (hid ▸ hs.named r hr)
    obtain rfl := hs.eq_of_id hr hr' (hid.trans hid'.symm)
    exact .inr ⟨r, hr, hd, hs'⟩

/-- **what holds in every run of sign-ins** -/
theorem admissions_of_reach {s0 : Store} {p : AuthPool} (h0 : Constrained s0)
    (h : (service cfg).machine.Reach ListsStand (Service.start s0) p) :
    Grounded (service cfg) p ∧ Constrained p.store ∧ Admissions p.store p.trace := by
  have hhistory := Machine.Reach.history (S := service cfg) (C := deeds cfg) (meets_handler cfg)
    (I := fun s tr => Constrained s ∧ Admissions s tr) (F := fun _ _ => True)
    ⟨h0, ⟨fun _ he => absurd he List.not_mem_nil, fun _ he => absurd he List.not_mem_nil⟩⟩ ?_ ?_ h
  · exact ⟨hhistory.1, hhistory.2.1⟩
  · rintro p w s hok ⟨hs, ha⟩ hc
    obtain ⟨hg, hs'⟩ := change_stands hok hc hs
    exact ⟨hs', ha.grow hg⟩
  · rintro p i c req o k x s - - ⟨hs, ha⟩ - - - hp
    exact ⟨⟨(does_of_perform hp).constrained hs, ha.call hp rfl⟩, trivial⟩

theorem grows_of_reach {p q : AuthPool} (hs : Constrained p.store)
    (h : (service cfg).machine.Reach ListsStand p q) : Grows p.store q.store := by
  have hstep : ∀ (p : AuthPool) ev q, Constrained p.store → ListsStand p ev →
      (service cfg).machine.step p ev = some q → Grows p.store q.store ∧ Constrained q.store := by
    intro p ev q hs hok hstep
    obtain ⟨req, rfl, rfl⟩ | ⟨i, c, req, o, k, x, s, rfl, -, hp, rfl⟩ | ⟨w, s, rfl, hc, rfl⟩ :=
      step_cases hstep
    · exact ⟨.refl _, hs⟩
    · exact ⟨(does_of_perform hp).grows, (does_of_perform hp).constrained hs⟩
    · exact change_stands hok hc hs
  refine h.along (P := fun p => Constrained p.store) (R := fun p q => Grows p.store q.store) hs
    (fun p ev q hp hok h => (hstep p ev q hp hok h).2) (.refl _) ?_
  intro q ev r hq hg hok h
  exact hg.trans (hstep q ev r hq hok h).1

/-- **who is bound, and who gets a code**: in every run in which nobody is taken off a list, an
entry is bound once and for good, a subject to one entry of a deployment; what is bound to others admits
nobody by email; and whoever a listed app's code is about to be stored for is the owner then, or has
an entry bound to it -/
theorem access_bindings (cfg : Config) {s0 : Store} {p : AuthPool} (h0 : Constrained s0)
    (h : (service cfg).machine.Reach ListsStand (Service.start s0) p) :
    (∀ q, (service cfg).machine.Reach ListsStand p q → ∀ r ∈ p.store.entries, r.subject ≠ none →
      r ∈ q.store.entries ∧ ∀ r' ∈ q.store.entries, r'.id = r.id → r' = r) ∧
    (∀ r ∈ p.store.entries, ∀ r' ∈ p.store.entries, r.deploymentID = r'.deploymentID →
      r.subject = r'.subject → r.subject ≠ none → r = r') ∧
    (∀ (l : AccessList) sub email,
      l.admit cfg sub email = AccessList.admit cfg (l.openTo sub) sub email) ∧
    (∀ (i : Nat) req hash rec k, p.threads[i]? = some ⟨req, .call (.insertCode hash rec) k⟩ →
      ∃ app, Served cfg (logOf i p.trace) rec.host app ∧
        (app.listed = true → Entitled cfg p.store app.id rec.subject rec.email)) ∧
    ∀ (i : Nat) req hash c ksid k,
      p.threads[i]? = some ⟨req, .call (.insertOIDCCode hash c ksid) k⟩ →
      ∃ client, Made (logOf i p.trace) (.ssoClient c.deploymentID) (.ok (some client)) ∧
        (client.listed = true → Entitled cfg p.store client.id c.subject c.email) := by
  obtain ⟨hg, hs, ha⟩ := admissions_of_reach h0 h
  refine ⟨?_, hs.once, fun l sub email => (admit_openTo l sub email).symm, ?_, ?_⟩
  · intro q hq r hr hbound
    have hrq := (grows_of_reach hs hq).bound hr hbound
    have hsq := (admissions_of_reach h0 (h.trans hq)).2.1
    exact ⟨hrq, fun r' hr' hid => hsq.eq_of_id hr' hrq hid⟩
  · intro i req hash rec k hth
    have hdeed : InsertsCode cfg (logOf i p.trace) hash rec := hg.next (meets_handler cfg) hth
    obtain ⟨-, ⟨app, hserved, hlisted, -⟩, -⟩ := hdeed
    exact ⟨app, hserved, fun hl => entitled_of_bound ha hs (hlisted hl)⟩
  · intro i req hash c ksid k hth
    have hdeed : InsertsOIDCCode cfg (logOf i p.trace) hash c ksid :=
      hg.next (meets_handler cfg) hth
    obtain ⟨-, r, client, hid, -, -, hmade, -, hlisted, -⟩ := hdeed
    exact ⟨client, hid ▸ hmade, fun hl => entitled_of_bound ha hs (hlisted hl)⟩

namespace Sample

/-- someone else's app, and ann on its list -/
def sharedStore : Store :=
  Store.fresh (63900000000 * second)
    { platform with owner := fun _ => some ("erik@example.com", "erik") }
    [⟨"5a1d7c0e-3b2f-4f86-9c14-8e6b0d2f7a35", deployment, "ann@example.com", none, none, none⟩]

def allows : AuthEvent :=
  .arrive (.consent (some [("decision", "allow"), ("csrf", csrf)]) [(consentCookie, "consent")])

/-- ann allows it twice at once, and both requests find her entry free -/
def allowTwice : List AuthEvent :=
  [allows, allows] ++ runs 2 [.ok, .ok, .ok, .ok, .ok] ++ runs 3 [.ok, .ok, .ok, .ok, .ok] ++
    runs 2 [.ok, .text code] ++ runs 3 [.ok, .ok, .text nonce]

def listsStand (_ : AuthPool) : AuthEvent → Bool
  | .world (.dropEntry _) | .world (.dropDeployment _) | .world (.platform _) => false
  | _ => true

/-- the code that request `i` is about to store -/
def storing (p : AuthPool) (i : Nat) : Option CodeRecord :=
  match p.threads[i]? with
  | some ⟨_, .call (.insertCode _ rec) _⟩ => some rec
  | _ => none

end Sample

theorem Sample.lists_stand {p : AuthPool} {ev : AuthEvent} (h : Sample.listsStand p ev = true) :
    ListsStand p ev := by
  cases ev with
  | world w =>
    cases w with
    | dropEntry | dropDeployment | platform => cases h
    | _ => trivial
  | _ => trivial

/-- both requests are about to store a code, and the entry that ann has is bound to her -/
theorem access_bindings_raced : ∃ p,
    (service Sample.config).machine.Reach ListsStand (Service.start Sample.sharedStore) p ∧
      p.store.entries.map AccessEntryRow.subject = [some "ann"] ∧
      ∀ i, i = 2 ∨ i = 3 → ∃ rec app, Sample.storing p i = some rec ∧
        Served Sample.config (logOf i p.trace) rec.host app ∧
        (app.listed = true → Entitled Sample.config p.store app.id rec.subject rec.email) := by
  obtain ⟨p, h, -, hp⟩ := Machine.exists_reach_of_runIf (M := (service Sample.config).machine)
    (k := ListsStand) (P := fun _ => True) (c := Sample.listsStand) (fun _ _ _ _ _ _ => trivial)
    (fun _ _ _ h => Sample.lists_stand h) trivial
    (l := Sample.toConsent ++ Sample.allowTwice)
    (p := fun p => decide (p.store.entries.map AccessEntryRow.subject = [some "ann"]) &&
      (Sample.storing p 2).isSome && (Sample.storing p 3).isSome)
    (s := Service.start Sample.sharedStore) (by decide +kernel)
  rw [Bool.and_eq_true, Bool.and_eq_true, decide_eq_true_eq] at hp
  have hconstrained : Constrained Sample.sharedStore := by
    refine ⟨List.nodup_singleton _, ?_, ?_⟩
    · intro r hr
      rw [List.mem_singleton.mp hr]
      decide
    · intro r hr r' hr' _ _ _
      rw [List.mem_singleton.mp hr, List.mem_singleton.mp hr']
  refine ⟨p, h, hp.1.1, fun i hi => ?_⟩
  have hstoring : (Sample.storing p i).isSome = true := by
    rcases hi with rfl | rfl
    · exact hp.1.2
    · exact hp.2
  obtain ⟨rec, hrec⟩ := Option.isSome_iff_exists.mp hstoring
  have hth := hrec
  unfold Sample.storing at hth
  split at hth
  · rename_i req hash rec' k hi
    obtain rfl := Option.some.inj hth
    obtain ⟨app, hserved, hlisted⟩ :=
      (access_bindings Sample.config hconstrained h).2.2.2.1 i req hash rec' k hi
    exact ⟨rec', app, hrec, hserved, hlisted⟩
  · cases hth

end Freepod.Auth
