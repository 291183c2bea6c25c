import Freepod.Platform.AccessList

/-!
# The limits of an access list

An addition locks its deployment, so what it found on the list is still so when it commits.  It
locks nothing of its owner's, so what it counted of the owner's invitations may not be.

* `TaskOk`: what a call knows at each of its statements; `calls_of_step`: that no step makes it
  false.
* `access_limits`: a list keeps its bound and its addresses apart, with an invitation for each
  addition; an owner keeps the daily limit where no addition commits on a count gone stale.
* `limit_passed`: two additions to two deployments of one owner pass a limit of one.
-/

namespace Freepod.Listing
open Base

variable {cfg : Settings} {s t u : State} {c : CallId} {k : Task} {d : AppDeployment}
  {email : String}

/-! ## What a call knows -/

/-- the deployment is there, under this owner -/
def Owned (s : State) (d : DeploymentId) (owner : UserId) : Prop :=
  ∃ row ∈ s.deployments, row.id = d ∧ row.userId = owner

/-- the address can be added to the list -/
def Roomy (s : State) (d : DeploymentId) (email : String) : Prop :=
  email ∉ s.addresses d ∧ (s.addresses d).length < accessListLimit

/-- the invitation is younger than a day at a time -/
def recent (owner : UserId) (time : Time) (i : Invitation) : Bool :=
  i.userId == owner && decide (time < i.sentAt + invitationWindow)

/-- the count was under the limit, and missed at most what the owner committed since -/
structure Counted (cfg : Settings) (s : State) (owner : UserId) (n : Count) : Prop where
  past : n.time ≤ s.now
  under : n.sent < cfg.accessInvitationsPerDay
  missed : s.invitationsEver.countP (recent owner n.time) + n.seen ≤ n.sent + s.sentEver owner

/-- the two rows of an addition -/
structure Drafted (d : AppDeployment) (email : String) (n : Count) (e : AccessEntry)
    (i : Invitation) : Prop where
  deployment : e.deploymentId = d.id
  email : e.email = email
  owner : i.userId = d.userId
  since : n.time ≤ i.sentAt

/-- what an addition has found out before a statement -/
def Passed (cfg : Settings) (s : State) (d : AppDeployment) (email : String) : AddPoint → Prop
  | .lock | .duplicate | .refresh _ => True
  | .room => email ∉ s.addresses d.id
  | .invitations => Roomy s d.id email
  | .insertEntry n => Roomy s d.id email ∧ Counted cfg s d.userId n
  | .insertInvitation n e i | .commit n e i =>
    Roomy s d.id email ∧ Counted cfg s d.userId n ∧ Drafted d email n e i

/-- an invitation that no limit counts any more -/
def Stale (s : State) (i : Invitation) : Prop := i.sentAt + invitationRetention < s.now

/-- what a call knows before its next statement -/
def TaskOk (cfg : Settings) (s : State) : Task → Prop
  | .adding d email p => Owned s d.id d.userId ∧ Passed cfg s d email p
  | .sweeping (.delete stale) | .sweeping (.commit stale) => ∀ i ∈ stale, Stale s i
  | _ => True

/-- every call knows what its point says, and no two have locked one deployment -/
structure Calls (cfg : Settings) (s : State) : Prop where
  ok : ∀ c k, s.tasks.lookup c = some k → TaskOk cfg s k
  alone : ∀ c c' k k' d, s.tasks.lookup c = some k → s.tasks.lookup c' = some k' →
    k.lockedDeployment = some d → k'.lockedDeployment = some d → c = c'

/-! ## What a step may change under a call -/

/-- what other calls may have changed under one that has locked `d` -/
structure Frame (s t : State) (d : Option DeploymentId) : Prop where
  now : s.now ≤ t.now
  owned : ∀ d owner, Owned s d owner → Owned t d owner
  ever : ∃ more, t.invitationsEver = s.invitationsEver ++ more
  addresses : ∀ d' ∈ d, (t.addresses d').Sublist (s.addresses d')

theorem Roomy.frame (h : Roomy s d.id email) (hf : Frame s t (some d.id)) : Roomy t d.id email := by
  have hsub := hf.addresses d.id rfl
  exact ⟨fun hm => h.1 (hsub.subset hm), Nat.lt_of_le_of_lt hsub.length_le h.2⟩

theorem Counted.frame {owner : UserId} {n : Count} {o : Option DeploymentId}
    (h : Counted cfg s owner n) (hf : Frame s t o) : Counted cfg t owner n := by
  obtain ⟨more, hmore⟩ := hf.ever
  refine ⟨Nat.le_trans h.past hf.now, h.under, ?_⟩
  -- what is recent is the owner's
  have hle : more.countP (recent owner n.time) ≤ more.countP fun i => i.userId == owner :=
    List.countP_mono_left fun i _ hi => (Bool.and_eq_true _ _ ▸ hi).1
  have hmissed := h.missed
  unfold State.sentEver at hmissed ⊢
  rw [hmore, List.countP_append, List.countP_append]
  omega

theorem Passed.frame {p : AddPoint} (h : Passed cfg s d email p)
    (hf : Frame s t (Task.adding d email p).lockedDeployment) : Passed cfg t d email p := by
  cases p with
  | lock => trivial
  | duplicate => trivial
  | refresh e => trivial
  | room => exact fun hm => h ((hf.addresses d.id rfl).subset hm)
  | invitations => exact Roomy.frame h hf
  | insertEntry n => exact ⟨Roomy.frame h.1 hf, h.2.frame hf⟩
  | insertInvitation n e i => exact ⟨Roomy.frame h.1 hf, h.2.1.frame hf, h.2.2⟩
  | commit n e i => exact ⟨Roomy.frame h.1 hf, h.2.1.frame hf, h.2.2⟩

theorem TaskOk.frame (h : TaskOk cfg s k) (hf : Frame s t k.lockedDeployment) :
    TaskOk cfg t k := by
  cases k with
  | adding d email p => exact ⟨hf.owned _ _ h.1, h.2.frame hf⟩
  | removing d entryId p => trivial
  | ended outcome => trivial
  | sweeping p =>
    cases p with
    | select => trivial
    | delete stale => exact fun i hi => Nat.lt_of_lt_of_le (h i hi) hf.now
    | commit stale => exact fun i hi => Nat.lt_of_lt_of_le (h i hi) hf.now

/-- **the rule for one call's step**: it knows what its new point says, the others lose nothing, and
what it locks is free -/
theorem Calls.become (h : Calls cfg s) (htasks : u.tasks = s.tasks)
    (hf : ∀ c' k', c' ≠ c → s.tasks.lookup c' = some k' → Frame s u k'.lockedDeployment)
    (hk : TaskOk cfg (u.become c k) k)
    (hfree : ∀ d, k.lockedDeployment = some d → ∀ c' k', c' ≠ c → s.tasks.lookup c' = some k' →
      k'.lockedDeployment ≠ some d) : Calls cfg (u.become c k) := by
  have hlookup : ∀ c', (u.become c k).tasks.lookup c' =
      if c' = c then some k else s.tasks.lookup c' := fun c' => by
    rw [State.become, htasks, lookup_setKey]
  constructor
  · intro c' k' hc'
    rw [hlookup] at hc'
    split at hc'
    · cases hc'
      exact hk
    · rename_i hne
      have hframe := hf c' k' hne hc'
      exact (h.ok c' k' hc').frame ⟨hframe.now, hframe.owned, hframe.ever, hframe.addresses⟩
  · intro c₁ c₂ k₁ k₂ d h₁ h₂ hl₁ hl₂
    rw [hlookup] at h₁ h₂
    split at h₁ <;> split at h₂
    · rename_i e₁ e₂
      rw [e₁, e₂]
    · rename_i hne
      cases h₁
      exact absurd hl₂ (hfree d hl₁ c₂ k₂ hne h₂)
    · rename_i hne _
      cases h₂
      exact absurd hl₁ (hfree d hl₂ c₁ k₁ hne h₁)
    · exact h.alone c₁ c₂ k₁ k₂ d h₁ h₂ hl₁ hl₂

/-! ## What a call's step does -/

/-- the tables but for what a step may take from them -/
structure Quiet (s t : State) : Prop where
  now : s.now ≤ t.now
  owned : ∀ d owner, Owned s d owner → Owned t d owner
  entriesEver : t.entriesEver = s.entriesEver
  invitationsEver : t.invitationsEver = s.invitationsEver
  addresses : ∀ d, (t.addresses d).Sublist (s.addresses d)
  invitations : t.invitations = s.invitations ∨
    ∃ stale : List Invitation, (∀ i ∈ stale, Stale s i) ∧
      t.invitations = s.invitations.filter fun i => decide (i ∉ stale)

/-- the tables with the two rows of an addition -/
structure Committed (s t : State) (e : AccessEntry) (i : Invitation) : Prop where
  now : t.now = s.now
  deployments : t.deployments = s.deployments
  entries : t.entries = s.entries ++ [e]
  invitations : t.invitations = s.invitations ++ [i]
  entriesEver : t.entriesEver = s.entriesEver ++ [e]
  invitationsEver : t.invitationsEver = s.invitationsEver ++ [i]

/-- what a step does to the tables, of a call that was at `k` -/
def TableStep (s : State) (k : Task) (t : State) : Prop :=
  Quiet s t ∨ ∃ d email n e i, k = .adding d email (.commit n e i) ∧ Committed s t e i

/-- what sweeps have deleted is stale -/
def Accounted (s : State) : Prop :=
  ∃ gone, s.invitationsEver.Perm (s.invitations ++ gone) ∧ ∀ i ∈ gone, Stale s i

/-- a call's step from `k` to `k'`, with the tables as in `u` after it -/
structure Moved (cfg : Settings) (s : State) (k : Task) (u : State) (k' : Task) : Prop where
  tasks : u.tasks = s.tasks
  tables : TableStep s k u
  ok : TaskOk cfg u k'
  lock : ∀ d, k'.lockedDeployment = some d →
    k.lockedDeployment = some d ∨ s.deploymentLocked d = false

theorem Quiet.refl (s : State) : Quiet s s :=
  ⟨Nat.le_refl _, fun _ _ h => h, rfl, rfl, fun _ => List.Sublist.refl _, .inl rfl⟩

/-- a statement that only reads -/
theorem Moved.read {k' : Task} (hok : TaskOk cfg s k')
    (hlock : ∀ d, k'.lockedDeployment = some d →
      k.lockedDeployment = some d ∨ s.deploymentLocked d = false) : Moved cfg s k s k' :=
  ⟨rfl, .inl (.refl s), hok, hlock⟩

theorem Moved.ended (cfg : Settings) (s : State) (k : Task) (outcome : Outcome) :
    Moved cfg s k s (.ended outcome) :=
  .read trivial fun _ h => (nomatch h)

theorem checkInvitationLimit_ok {owner : UserId} {n : Count}
    (h : checkInvitationLimit cfg s owner = .ok n) :
    n.time = s.now ∧ n.sent < cfg.accessInvitationsPerDay ∧
      n.sent = s.invitations.countP (recent owner n.time) ∧ n.seen = s.sentEver owner := by
  unfold checkInvitationLimit at h
  dsimp only at h
  split at h
  · split at h <;> cases h
  · rename_i hlimit
    cases h
    refine ⟨rfl, Nat.lt_of_not_le hlimit, ?_, rfl⟩
    rw [List.length_insertionSort, List.length_map, List.countP_eq_length_filter]
    rfl

/-- **a count is what the owner has sent in a day**: what sweeps have deleted is older -/
theorem Counted.of_check {owner : UserId} {n : Count} (ha : Accounted s)
    (h : checkInvitationLimit cfg s owner = .ok n) : Counted cfg s owner n := by
  obtain ⟨htime, hunder, hsent, hseen⟩ := checkInvitationLimit_ok h
  obtain ⟨gone, hperm, hstale⟩ := ha
  have hgone : gone.countP (recent owner n.time) = 0 := by
    rw [List.countP_eq_zero]
    intro i hi hrecent
    have hold := hstale i hi
    have hyoung := of_decide_eq_true ((Bool.and_eq_true _ _).mp hrecent).2
    rw [htime] at hyoung
    have hle : i.sentAt + invitationWindow ≤ i.sentAt + invitationRetention :=
      Nat.add_le_add_left (by decide) _
    exact absurd (Nat.lt_trans hold hyoung) (Nat.not_lt.mpr hle)
  refine ⟨Nat.le_of_eq htime, hunder, ?_⟩
  rw [hperm.countP_eq, List.countP_append, hgone, hsent, hseen, Nat.add_zero]

theorem moved_of_add {p : AddPoint} (ha : Accounted s) (hk : TaskOk cfg s (.adding d email p))
    (hs : add cfg s c d email p = some t) :
    ∃ u k', t = u.become c k' ∧ Moved cfg s (.adding d email p) u k' := by
  obtain ⟨howned, hpassed⟩ := hk
  cases p with
  | lock =>
    simp only [add] at hs
    split at hs
    · cases hs
    · rename_i hfree
      cases hs
      refine ⟨s, _, rfl, .read ⟨howned, trivial⟩ fun d' hd' => .inr ?_⟩
      cases hd'
      exact Bool.not_eq_true _ ▸ hfree
  | duplicate =>
    simp only [add] at hs
    split at hs
    · split at hs
      · cases hs
        exact ⟨s, _, rfl, .ended cfg s _ _⟩
      · rename_i hnew
        cases hs
        exact ⟨s, _, rfl, .read ⟨howned, fun hm => hnew (.inl hm)⟩ fun _ => .inl⟩
    · cases hs
      exact ⟨s, _, rfl, .ended cfg s _ _⟩
  | room =>
    simp only [add] at hs
    split at hs
    · cases hs
      exact ⟨s, _, rfl, .ended cfg s _ _⟩
    · rename_i hroom
      cases hs
      exact ⟨s, _, rfl, .read ⟨howned, hpassed, Nat.lt_of_not_le hroom⟩ fun _ => .inl⟩
  | invitations =>
    simp only [add] at hs
    split at hs
    · cases hs
      exact ⟨s, _, rfl, .ended cfg s _ _⟩
    · rename_i n hn
      cases hs
      exact ⟨s, _, rfl, .read ⟨howned, hpassed, .of_check ha hn⟩ fun _ => .inl⟩
  | insertEntry n =>
    simp only [add] at hs
    split at hs
    · cases hs
    · split at hs
      · cases hs
        exact ⟨s, _, rfl, .ended cfg s _ _⟩
      · cases hs
        obtain ⟨hroomy, hcounted⟩ := hpassed
        refine ⟨{ s with nextId := s.nextId + 2 }, _, rfl, rfl,
          .inl ⟨Nat.le_refl s.now, fun _ _ h => h, rfl, rfl, fun _ => List.Sublist.refl _, .inl rfl⟩,
          ⟨howned, hroomy, ?_, ?_⟩, fun _ => .inl⟩
        · exact ⟨hcounted.past, hcounted.under, hcounted.missed⟩
        · exact ⟨rfl, rfl, rfl, hcounted.past⟩
  | insertInvitation n e i =>
    cases hs
    exact ⟨s, _, rfl, .read ⟨howned, hpassed⟩ fun _ => .inl⟩
  | commit n e i =>
    cases hs
    exact ⟨_, _, rfl, rfl, .inr ⟨d, email, n, e, i, rfl, rfl, rfl, rfl, rfl, rfl, rfl⟩,
      ⟨howned, trivial⟩, fun _ h => (nomatch h)⟩
  | refresh e =>
    simp only [add] at hs
    split at hs
    · cases hs
      exact ⟨s, _, rfl, .ended cfg s _ _⟩
    · cases hs
      exact ⟨s, _, rfl, .ended cfg s _ _⟩

theorem moved_of_remove {entryId : Nat} {answer : Answer} {p : RemovePoint}
    (hs : remove s c d entryId answer p = some t) :
    ∃ u k', t = u.become c k' ∧ Moved cfg s (.removing d entryId p) u k' := by
  -- a removal locks no deployment
  have hread : ∀ p', Moved cfg s (.removing d entryId p) s (.removing d entryId p') :=
    fun _ => .read trivial fun _ h => (nomatch h)
  cases p with
  | lock =>
    simp only [remove] at hs
    split at hs
    · cases hs
    · split at hs
      · cases hs
        exact ⟨s, _, rfl, .ended cfg s _ _⟩
      · cases hs
        exact ⟨s, _, rfl, hread _⟩
  | signOut e =>
    simp only [remove] at hs
    split at hs
    · split at hs
      · cases hs
        exact ⟨s, _, rfl, .ended cfg s _ _⟩
      · cases hs
        exact ⟨s, _, rfl, hread _⟩
    · cases hs
      exact ⟨s, _, rfl, hread _⟩
  | delete e =>
    cases hs
    exact ⟨s, _, rfl, hread _⟩
  | commit e =>
    cases hs
    refine ⟨_, _, rfl, rfl, .inl ⟨Nat.le_refl s.now, fun _ _ h => h, rfl, rfl, ?_, .inl rfl⟩,
      trivial, fun _ h => (nomatch h)⟩
    exact fun d' => (List.filter_sublist.filter _).map _

theorem moved_of_sweep {p : SweepPoint} (hk : TaskOk cfg s (.sweeping p))
    (hs : sweep s c p = some t) : ∃ u k', t = u.become c k' ∧ Moved cfg s (.sweeping p) u k' := by
  cases p with
  | select =>
    cases hs
    refine ⟨s, _, rfl, .read (fun i hi => ?_) fun _ h => (nomatch h)⟩
    have hold := (List.mem_filter.mp hi).2
    rw [decide_eq_true_eq] at hold
    exact hold
  | delete stale =>
    simp only [sweep] at hs
    split at hs
    · cases hs
    · cases hs
      exact ⟨s, _, rfl, .read hk fun _ h => (nomatch h)⟩
  | commit stale =>
    cases hs
    exact ⟨_, _, rfl, rfl, .inl ⟨Nat.le_refl s.now, fun _ _ h => h, rfl, rfl,
      fun _ => List.Sublist.refl _, .inr ⟨stale, hk, rfl⟩⟩, trivial, fun _ h => (nomatch h)⟩

theorem moved_of_next {answer : Answer} (ha : Accounted s) (hk : TaskOk cfg s k)
    (hc : s.tasks.lookup c = some k) (hs : s.next cfg c answer = some t) :
    ∃ u k', t = u.become c k' ∧ Moved cfg s k u k' := by
  simp only [State.next, hc] at hs
  cases k with
  | adding d email p => exact moved_of_add ha hk hs
  | removing d entryId p => exact moved_of_remove hs
  | sweeping p => exact moved_of_sweep hk hs
  | ended outcome => cases hs

/-! ## Every step -/

/-- the two facts that every call relies on -/
structure Sound (cfg : Settings) (s : State) : Prop where
  calls : Calls cfg s
  accounted : Accounted s

/-- a binding leaves the addresses as they are -/
theorem addresses_bind (s : State) (entryId : Nat) (subject : String) (name : Option String)
    (d : DeploymentId) : State.addresses { s with entries := s.entries.map fun e =>
      if e.id = entryId ∧ e.subject = none then
        { e with subject := some subject, name := name, boundAt := some s.now }
      else e } d = s.addresses d := by
  unfold State.addresses
  dsimp only
  rw [List.filter_map, List.map_map]
  have hkeys : ((fun e : AccessEntry => e.deploymentId == d) ∘ fun e =>
      if e.id = entryId ∧ e.subject = none then
        { e with subject := some subject, name := name, boundAt := some s.now } else e) =
      fun e => e.deploymentId == d := by
    funext e
    simp only [Function.comp]
    split <;> rfl
  rw [hkeys]
  refine List.map_congr_left fun e _ => ?_
  simp only [Function.comp]
  split <;> rfl

/-- **what a step can be**: a change of the world, a call that begins or ends, or a call's next
statement -/
theorem step_cases {a : Action} (h : Sound cfg s) (hs : s.step cfg a = some t) :
    (Quiet s t ∧ t.tasks = s.tasks) ∨
    (∃ c k, t = s.become c k ∧ TaskOk cfg s k ∧ k.lockedDeployment = none) ∨
    ∃ c answer k u k', a = .next c answer ∧ s.tasks.lookup c = some k ∧ t = u.become c k' ∧
      Moved cfg s k u k' := by
  cases a with
  | tick n =>
    cases hs
    exact .inl ⟨⟨Nat.le_add_right _ _, fun _ _ h => h, rfl, rfl, fun _ => List.Sublist.refl _,
      .inl rfl⟩, rfl⟩
  | deploy row =>
    simp only [State.step] at hs
    split at hs
    · cases hs
    · cases hs
      refine .inl ⟨⟨Nat.le_refl s.now, fun d owner ho => ?_, rfl, rfl, fun _ => List.Sublist.refl _,
        .inl rfl⟩, rfl⟩
      obtain ⟨row', hrow, hid, howner⟩ := ho
      exact ⟨row', List.mem_append_left _ hrow, hid, howner⟩
  | serve d' serving =>
    cases hs
    refine .inl ⟨⟨Nat.le_refl s.now, fun d owner ho => ?_, rfl, rfl, fun _ => List.Sublist.refl _,
      .inl rfl⟩, rfl⟩
    obtain ⟨row, hrow, hid, howner⟩ := ho
    refine ⟨_, List.mem_map_of_mem hrow, ?_, ?_⟩
    · rw [← hid]
      split <;> rfl
    · rw [← howner]
      split <;> rfl
  | bind entryId subject name =>
    simp only [State.step, State.bind] at hs
    split at hs
    · cases hs
    · cases hs
      exact .inl ⟨⟨Nat.le_refl s.now, fun _ _ h => h, rfl, rfl,
        fun d => addresses_bind s entryId subject name d ▸ List.Sublist.refl _, .inl rfl⟩, rfl⟩
  | begin c r =>
    simp only [State.step] at hs
    split at hs
    · cases hs
    · obtain ⟨k, hk, rfl⟩ := Option.map_eq_some_iff.mp hs
      refine .inr (.inl ⟨c, k, rfl, ?_⟩)
      cases r with
      | addEntry d email =>
        obtain ⟨row, hrow, rfl⟩ := Option.map_eq_some_iff.mp hk
        exact ⟨⟨⟨row, List.mem_of_find?_eq_some hrow, rfl, rfl⟩, trivial⟩, rfl⟩
      | removeEntry d entryId =>
        obtain ⟨row, hrow, rfl⟩ := Option.map_eq_some_iff.mp hk
        exact ⟨trivial, rfl⟩
      | sweepInvitations =>
        cases hk
        exact ⟨trivial, rfl⟩
  | next c answer =>
    have hs : s.next cfg c answer = some t := hs
    cases hc : s.tasks.lookup c with
    | none =>
      rw [State.next, hc] at hs
      cases hs
    | some k =>
      obtain ⟨u, k', ht, hmoved⟩ := moved_of_next h.accounted (h.calls.ok c k hc) hc hs
      exact .inr (.inr ⟨c, answer, k, u, k', rfl, hc, ht, hmoved⟩)
  | interrupt c =>
    simp only [State.step] at hs
    split at hs
    · cases hs
    · cases hs
    · cases hs
      exact .inr (.inl ⟨c, _, rfl, trivial, rfl⟩)

theorem Quiet.frame (h : Quiet s t) (o : Option DeploymentId) : Frame s t o :=
  ⟨h.now, h.owned, ⟨[], by rw [h.invitationsEver, List.append_nil]⟩, fun d _ => h.addresses d⟩

theorem addresses_of_committed {e : AccessEntry} {i : Invitation} (h : Committed s t e i)
    (d : DeploymentId) : t.addresses d =
      s.addresses d ++ if e.deploymentId = d then [e.email] else [] := by
  unfold State.addresses
  rw [h.entries, List.filter_append, List.map_append]
  by_cases hd : e.deploymentId = d
  · simp [hd]
  · simp [hd]

theorem Committed.frame {e : AccessEntry} {i : Invitation} {o : Option DeploymentId}
    (h : Committed s t e i) (ho : o ≠ some e.deploymentId) : Frame s t o := by
  refine ⟨Nat.le_of_eq h.now.symm, fun d owner howned => ?_, ⟨_, h.invitationsEver⟩, fun d hd => ?_⟩
  · obtain ⟨row, hrow, hrest⟩ := howned
    exact ⟨row, h.deployments ▸ hrow, hrest⟩
  · rw [addresses_of_committed h, if_neg fun he => ho (hd.trans (congrArg some he.symm)),
      List.append_nil]

/-- **no step makes false what a call knows** -/
theorem calls_of_step {a : Action} (h : Sound cfg s) (hs : s.step cfg a = some t) :
    Calls cfg t := by
  rcases step_cases h hs with ⟨hquiet, htasks⟩ | ⟨c, k, rfl, hk, hlock⟩ |
    ⟨c, answer, k, u, k', -, hc, rfl, hmoved⟩
  · constructor
    · intro c k hc
      rw [htasks] at hc
      exact (h.calls.ok c k hc).frame (hquiet.frame _)
    · rw [htasks]
      exact h.calls.alone
  · refine h.calls.become rfl (fun _ _ _ _ => (Quiet.refl s).frame _) ?_ fun d hd => ?_
    · exact hk.frame ⟨Nat.le_refl _, fun _ _ h => h, ⟨[], (List.append_nil _).symm⟩,
        fun _ _ => List.Sublist.refl _⟩
    · rw [hlock] at hd
      cases hd
  · refine h.calls.become hmoved.tasks (fun c' k₂ hne hc' => ?_) ?_ fun d hd c' k₂ hne hc' hd' => ?_
    · rcases hmoved.tables with hquiet | ⟨d, email, n, e, i, rfl, hcommitted⟩
      · exact hquiet.frame _
      · -- the call that commits has locked the deployment
        refine hcommitted.frame fun hd => hne ?_
        have hdrafted := (h.calls.ok c _ hc).2.2.2
        exact h.calls.alone c' c k₂ _ _ hc' hc hd (congrArg some hdrafted.deployment.symm)
    · exact hmoved.ok.frame ⟨Nat.le_refl _, fun _ _ h => h, ⟨[], (List.append_nil _).symm⟩,
        fun _ _ => List.Sublist.refl _⟩
    · rcases hmoved.lock d hd with hold | hfree
      · exact hne (h.calls.alone c' c k₂ k d hc' hc hd' hold)
      · have hany : s.deploymentLocked d = true :=
          List.any_eq_true.mpr ⟨(c', k₂), mem_of_lookup hc', beq_iff_eq.mpr hd'⟩
        rw [hfree] at hany
        cases hany

theorem accounted_of_step {a : Action} (h : Sound cfg s) (hs : s.step cfg a = some t) :
    Accounted t := by
  obtain ⟨gone, hperm, hstale⟩ := h.accounted
  have hquiet : ∀ {u : State}, Quiet s u → Accounted u := by
    intro u hq
    have hlater : ∀ i, Stale s i → Stale u i := fun i hi => Nat.lt_of_lt_of_le hi hq.now
    rcases hq.invitations with hsame | ⟨stale, hold, hswept⟩
    · refine ⟨gone, ?_, fun i hi => hlater i (hstale i hi)⟩
      rw [hq.invitationsEver, hsame]
      exact hperm
    · refine ⟨(s.invitations.filter fun i => !decide (i ∉ stale)) ++ gone, ?_, fun i hi => ?_⟩
      · rw [hq.invitationsEver, hswept, ← List.append_assoc]
        exact hperm.trans ((List.filter_append_perm _ _).symm.append_right gone)
      · rcases List.mem_append.mp hi with hi | hi
        · have hmem := (List.mem_filter.mp hi).2
          rw [Bool.not_eq_true', decide_eq_false_iff_not, not_not] at hmem
          exact hlater i (hold i hmem)
        · exact hlater i (hstale i hi)
  rcases step_cases h hs with ⟨hq, -⟩ | ⟨c, k, rfl, -, -⟩ | ⟨c, answer, k, u, k', -, -, rfl, hmoved⟩
  · exact hquiet hq
  · exact ⟨gone, hperm, hstale⟩
  · suffices hu : Accounted u from hu
    rcases hmoved.tables with hq | ⟨d, email, n, e, i, -, hcommitted⟩
    · exact hquiet hq
    · refine ⟨gone, ?_, fun j hj => ?_⟩
      swap
      · exact Nat.lt_of_lt_of_le (hstale j hj) (Nat.le_of_eq hcommitted.now.symm)
      rw [hcommitted.invitationsEver, hcommitted.invitations, List.append_assoc]
      refine (hperm.append_right [i]).trans ?_
      rw [List.append_assoc]
      exact List.perm_append_comm.append_left _

theorem sound_of_step {a : Action} (h : Sound cfg s) (hs : s.step cfg a = some t) :
    Sound cfg t :=
  ⟨calls_of_step h hs, accounted_of_step h hs⟩

theorem sound_init (cfg : Settings) : Sound cfg .init where
  calls := ⟨fun _ _ h => (nomatch h), fun _ _ _ _ _ h => (nomatch h)⟩
  accounted := ⟨[], List.Perm.refl _, fun _ h => (nomatch h)⟩

/-! ## The limits -/

/-- the limits that the lock of a deployment keeps; the additions and the invitations ever
committed are paired in their order -/
structure ListLimits (s : State) : Prop where
  bounded : ∀ d, (s.addresses d).length ≤ accessListLimit
  distinct : ∀ d, (s.addresses d).Nodup
  invited : List.Forall₂ (fun e i => Owned s e.deploymentId i.userId) s.entriesEver s.invitationsEver

/-- the owner's invitation is one of the day that starts then -/
def within (owner : UserId) (start : Time) (i : Invitation) : Bool :=
  i.userId == owner && decide (start ≤ i.sentAt ∧ i.sentAt < start + invitationWindow)

/-- in every window of a day an owner commits at most so many invitations -/
def DailyLimit (cfg : Settings) (s : State) : Prop :=
  ∀ owner start, s.invitationsEver.countP (within owner start) ≤ cfg.accessInvitationsPerDay

/-- whether an addition commits only where its owner has committed none since it counted -/
def alone (s : State) : Action → Bool
  | .next c _ =>
    match s.tasks.lookup c with
    | some (.adding d _ (.commit n _ _)) => s.sentEver d.userId == n.seen
    | _ => true
  | _ => true

def Alone (s : State) (a : Action) : Prop := alone s a = true

theorem alone_commit {n : Count} {e : AccessEntry} {i : Invitation} {answer : Answer}
    (hc : s.tasks.lookup c = some (.adding d email (.commit n e i))) :
    Alone s (.next c answer) ↔ s.sentEver d.userId = n.seen := by
  simp only [Alone, alone, hc, beq_iff_eq]

/-- **the check holds at the commit**: what was young at the count, of all that is committed by now,
is under the limit -/
theorem recent_of_alone {n : Count} {e : AccessEntry} {i : Invitation} {answer : Answer}
    (h : Sound cfg s) (hc : s.tasks.lookup c = some (.adding d email (.commit n e i)))
    (ha : Alone s (.next c answer)) :
    s.invitationsEver.countP (recent d.userId n.time) < cfg.accessInvitationsPerDay := by
  have hcounted := (h.calls.ok c _ hc).2.2.1
  have hmissed := hcounted.missed
  have hunder := hcounted.under
  rw [(alone_commit hc).mp ha] at hmissed
  omega

theorem Quiet.listLimits (h : ListLimits s) (hq : Quiet s t) : ListLimits t where
  bounded := fun d => Nat.le_trans (hq.addresses d).length_le (h.bounded d)
  distinct := fun d => (h.distinct d).sublist (hq.addresses d)
  invited := by
    rw [hq.entriesEver, hq.invitationsEver]
    exact h.invited.imp fun _ _ ho => hq.owned _ _ ho

theorem listLimits_of_step {a : Action} (h : Sound cfg s) (hl : ListLimits s)
    (hs : s.step cfg a = some t) : ListLimits t := by
  rcases step_cases h hs with ⟨hq, -⟩ | ⟨c, k, rfl, -, -⟩ | ⟨c, answer, k, u, k', -, hc, rfl, hmoved⟩
  · exact hq.listLimits hl
  · exact ⟨hl.bounded, hl.distinct, hl.invited⟩
  · suffices hu : ListLimits u from ⟨hu.bounded, hu.distinct, hu.invited⟩
    rcases hmoved.tables with hq | ⟨d, email, n, e, i, rfl, hcommitted⟩
    · exact hq.listLimits hl
    · obtain ⟨howned, ⟨hnew, hroom⟩, -, hdrafted⟩ := h.calls.ok c _ hc
      have howned' : ∀ d owner, Owned s d owner → Owned u d owner := fun d owner ho => by
        unfold Owned
        rw [hcommitted.deployments]
        exact ho
      refine ⟨fun d' => ?_, fun d' => ?_, ?_⟩
      · rw [addresses_of_committed hcommitted]
        split
        · rename_i hd
          rw [← hd, hdrafted.deployment, List.length_append]
          exact hroom
        · rw [List.append_nil]
          exact hl.bounded d'
      · rw [addresses_of_committed hcommitted]
        split
        · rename_i hd
          rw [← hd, hdrafted.deployment, hdrafted.email]
          exact List.nodup_append.mpr ⟨hl.distinct _, List.nodup_singleton _, fun x hx y hy he =>
            hnew (List.mem_singleton.mp hy ▸ he ▸ hx)⟩
        · rw [List.append_nil]
          exact hl.distinct d'
      · rw [hcommitted.entriesEver, hcommitted.invitationsEver]
        refine List.rel_append (hl.invited.imp fun _ _ ho => howned' _ _ ho) (.cons ?_ .nil)
        rw [hdrafted.deployment, hdrafted.owner]
        exact howned' _ _ howned

theorem dailyLimit_of_step {a : Action} (h : Sound cfg s) (hl : DailyLimit cfg s)
    (ha : Alone s a) (hs : s.step cfg a = some t) : DailyLimit cfg t := by
  intro owner start
  rcases step_cases h hs with ⟨hq, -⟩ | ⟨c, k, rfl, -, -⟩ | ⟨c, answer, k, u, k', rfl, hc, rfl, hmoved⟩
  · rw [hq.invitationsEver]
    exact hl owner start
  · exact hl owner start
  · show u.invitationsEver.countP _ ≤ _
    rcases hmoved.tables with hq | ⟨d, email, n, e, i, rfl, hcommitted⟩
    · rw [hq.invitationsEver]
      exact hl owner start
    · obtain ⟨-, -, -, hdrafted⟩ := h.calls.ok c _ hc
      rw [hcommitted.invitationsEver, List.countP_append, List.countP_singleton]
      split
      · rename_i hin
        obtain ⟨howner, hin⟩ := (Bool.and_eq_true _ _).mp hin
        have howner : owner = d.userId := by
          rw [← beq_iff_eq.mp howner, hdrafted.owner]
        have hin := of_decide_eq_true hin
        -- what is in the window with the new one was young when the addition counted
        have hle : s.invitationsEver.countP (within owner start) ≤
            s.invitationsEver.countP (recent owner n.time) := by
          refine List.countP_mono_left fun j _ hj => ?_
          obtain ⟨hj, hwindow⟩ := (Bool.and_eq_true _ _).mp hj
          refine (Bool.and_eq_true _ _).mpr ⟨hj, decide_eq_true ?_⟩
          have hwindow := of_decide_eq_true hwindow
          have hlt := Nat.lt_of_le_of_lt hdrafted.since hin.2
          exact Nat.lt_of_lt_of_le hlt (Nat.add_le_add_right hwindow.1 _)
        have hunder := recent_of_alone h hc ha
        rw [howner] at hle ⊢
        omega
      · exact hl owner start

/-- **the limits of an access list**: its bound, its addresses apart and an invitation for each
addition in every run; the daily limit where no addition of an owner commits between another's count
and its commit -/
theorem access_limits (cfg : Settings) :
    (∀ s, (accessLists cfg).Reach (fun _ _ => True) .init s → ListLimits s) ∧
      ∀ s, (accessLists cfg).Reach Alone .init s → DailyLimit cfg s := by
  constructor
  · intro s hs
    have hinit : ListLimits .init := ⟨fun _ => Nat.zero_le _, fun _ => List.nodup_nil, .nil⟩
    exact (hs.invariant (P := fun s => Sound cfg s ∧ ListLimits s) ⟨sound_init cfg, hinit⟩
      fun s a t h _ hs => ⟨sound_of_step h.1 hs, listLimits_of_step h.1 h.2 hs⟩).2
  · intro s hs
    exact (hs.invariant (P := fun s => Sound cfg s ∧ DailyLimit cfg s)
      ⟨sound_init cfg, fun _ _ => Nat.zero_le _⟩
      fun s a t h ha hs => ⟨sound_of_step h.1 hs, dailyLimit_of_step h.1 h.2 ha hs⟩).2

/-! ## A run past the limit -/

/-- one invitation a day -/
def Settings.sample : Settings := ⟨1, id, toString⟩

/-- a listed deployment of one owner -/
def AppDeployment.sample (id : DeploymentId) : AppDeployment :=
  ⟨id, 1, "erik@example.com", none, some ⟨⟨true, .str "oidc", .listed⟩, none⟩⟩

/-- a statement of a call that meets no app -/
def Action.go (c : CallId) : Action := .next c (.ok ())

/-- an addition up to its insertions, and its commit -/
def Action.additionSteps (c : CallId) (d : DeploymentId) (email : String) : List Action :=
  .begin c (.addEntry d email) :: List.replicate 6 (.go c)

/-- two additions of one owner, the second once the first has committed -/
theorem access_limits_sample : ∃ s, (accessLists ⟨2, id, toString⟩).Reach Alone .init s ∧
    s.sentEver 1 = 2 ∧ ListLimits s ∧ DailyLimit ⟨2, id, toString⟩ s := by
  obtain ⟨s, hs, -, hp⟩ := Machine.exists_reach_of_runIf (M := accessLists ⟨2, id, toString⟩)
    (s := .init) (P := fun _ => True) (c := alone) (k := Alone) (fun _ _ _ _ _ _ => trivial)
    (fun _ _ _ h => h)
    (l := [.deploy (.sample 1), .deploy (.sample 2)] ++
      Action.additionSteps 1 1 "ana@example.com" ++ [.go 1] ++
      Action.additionSteps 2 2 "noor@example.com" ++ [.go 2])
    (p := fun s : State => decide (s.sentEver 1 = 2)) trivial (by decide +kernel)
  exact ⟨s, hs, of_decide_eq_true hp,
    (access_limits ⟨2, id, toString⟩).1 s (hs.mono fun _ _ _ => trivial),
    (access_limits ⟨2, id, toString⟩).2 s hs⟩

/-- **two additions to two deployments of one owner pass the limit**: each counts before the other
has committed -/
theorem limit_passed : ¬ ∀ s, (accessLists .sample).Reach (fun _ _ => True) .init s →
    ListLimits s ∧ DailyLimit .sample s := by
  intro hall
  obtain ⟨s, hs, hp⟩ := Machine.exists_reach_of_run (M := accessLists .sample) (s := .init)
    (l := [.deploy (.sample 1), .deploy (.sample 2)] ++
      Action.additionSteps 1 1 "ana@example.com" ++ Action.additionSteps 2 2 "noor@example.com" ++
      [.go 1, .go 2])
    (p := fun s : State => decide (s.invitationsEver.countP (within 1 0) = 2)) (by decide +kernel)
  have hlimit := (hall s hs).2 1 0
  rw [of_decide_eq_true hp] at hlimit
  exact absurd hlimit (by decide)

end Freepod.Listing
