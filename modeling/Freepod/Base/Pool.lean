import Freepod.Base.Machine
import Freepod.Base.Program

/-!
# Requests served at once

A service answers any number of requests at once, each by a handler that runs one call at a time
against a shared store.  Which handler moves next, and what a call meets, is chosen by the run.

* `Service`, `Pool`, `Service.machine`: the handlers, the store, and their interleaving.
* The *trace* lists the calls of every handler, newest first, with the instant each was made at;
  `logOf i` is what the handler `i` made of them.
* `Grounded`: each handler is where its own log took it from its request.  `Machine.Reach.grounded` shows it
  of every run, and `Grounded.called`, `Grounded.answered` read a contract off it.
* `Machine.Reach.history`: the induction rule for what a store and its trace have to do with each
  other.  `Machine.Reach.made`: a call of the trace was made by a step of the run.
* `since i n`: what was called after a call of the handler `i`.  `Machine.Reach.kept_since`: what held
  when that call was answered still does, where each of those calls keeps it.
* `lastTime`: when a handler last made a call of some kind.
* `AtWork`: the time in which a request is served.
* `OneAtATime`, `Serial`: a service whose requests do not overlap.  Each begins where the one before
  it has ended or broken off.
-/

namespace Freepod.Base

variable {Op : Type} {Ret : Op → Type} {Req ρ σ τ χ ω : Type}

/-- a call in the trace: the handler that made it, that handler's request, and when it was made -/
structure Entry (Ret : Op → Type) (Req τ : Type) where
  who : Nat
  req : Req
  call : Call Ret
  time : τ

/-- the handlers of a service, and what a call and the world do to its store -/
structure Service (Ret : Op → Type) (Req ρ σ τ χ ω : Type) where
  handler : Req → Prog Ret ρ ρ
  perform : σ → (o : Op) → χ → Option (Ret o × σ)
  change : σ → ω → Option σ
  clock : σ → τ

/-- a request and what is left of its handler -/
structure Thread (Ret : Op → Type) (Req ρ : Type) where
  req : Req
  prog : Prog Ret ρ ρ

structure Pool (Ret : Op → Type) (Req ρ σ τ : Type) where
  store : σ
  threads : List (Thread Ret Req ρ)
  trace : List (Entry Ret Req τ)

/-- a request arrives, a handler makes its next call, or the world changes the store -/
inductive Event (Req χ ω : Type) where
  | arrive (req : Req)
  | run (i : Nat) (c : χ)
  | world (w : ω)

/-- what one handler did -/
def logOf (i : Nat) (tr : List (Entry Ret Req τ)) : Log Ret :=
  (tr.filter fun e => e.who == i).map (·.call)

namespace Service

variable (S : Service Ret Req ρ σ τ χ ω)

def step (p : Pool Ret Req ρ σ τ) : Event Req χ ω → Option (Pool Ret Req ρ σ τ)
  | .arrive req => some { p with threads := p.threads ++ [⟨req, S.handler req⟩] }
  | .run i c =>
    match p.threads[i]? with
    | some ⟨req, .call o k⟩ =>
      (S.perform p.store o c).map fun (x, s) =>
        { store := s, threads := p.threads.set i ⟨req, k x⟩,
          trace := ⟨i, req, ⟨o, x⟩, S.clock p.store⟩ :: p.trace }
    | _ => none
  | .world w => (S.change p.store w).map fun s => { p with store := s }

def machine : Machine (Pool Ret Req ρ σ τ) (Event Req χ ω) := ⟨S.step⟩

/-- a service that has not been asked anything yet -/
def start (s : σ) : Pool Ret Req ρ σ τ := ⟨s, [], []⟩

end Service

variable {S : Service Ret Req ρ σ τ χ ω} {p q : Pool Ret Req ρ σ τ}

/-! ## Logs and traces -/

theorem logOf_cons (i : Nat) (e : Entry Ret Req τ) (tr : List (Entry Ret Req τ)) :
    logOf i (e :: tr) = if e.who = i then e.call :: logOf i tr else logOf i tr := by
  unfold logOf
  by_cases h : e.who = i
  · rw [List.filter_cons_of_pos (by simpa using h), List.map_cons, if_pos h]
  · rw [List.filter_cons_of_neg (by simpa using h), if_neg h]

theorem logOf_self (e : Entry Ret Req τ) (tr : List (Entry Ret Req τ)) :
    logOf e.who (e :: tr) = e.call :: logOf e.who tr := by
  rw [logOf_cons, if_pos rfl]

/-- a call of a handler's log stands in the trace, after what was then its log -/
theorem entry_of_suffix_logOf {i : Nat} {c : Call Ret} {log : Log Ret}
    {tr : List (Entry Ret Req τ)} (h : c :: log <:+ logOf i tr) :
    ∃ e older, e :: older <:+ tr ∧ e.who = i ∧ e.call = c ∧ logOf i older = log := by
  induction tr with
  | nil => exact absurd (List.eq_nil_of_suffix_nil h) (List.cons_ne_nil _ _)
  | cons e tr ih =>
    have hrest : c :: log <:+ logOf i tr →
        ∃ e' older, e' :: older <:+ e :: tr ∧ e'.who = i ∧ e'.call = c ∧ logOf i older = log := by
      intro h
      obtain ⟨e', older, hsuf, h⟩ := ih h
      exact ⟨e', older, hsuf.trans (List.suffix_cons _ _), h⟩
    rw [logOf_cons] at h
    split at h
    · rename_i hi
      rcases List.suffix_cons_iff.mp h with heq | hsuf
      · obtain ⟨hc, hl⟩ := List.cons.inj heq
        exact ⟨e, tr, List.suffix_refl _, hi, hc.symm, hl.symm⟩
      · exact hrest hsuf
    · exact hrest h

theorem exists_suffix_of_mem {a : α} {l : List α} (h : a ∈ l) : ∃ older, a :: older <:+ l := by
  obtain ⟨newer, older, rfl⟩ := List.append_of_mem h
  exact ⟨older, List.suffix_append _ _⟩

theorem mem_of_cons_suffix {a : α} {l older : List α} (h : a :: older <:+ l) : a ∈ l :=
  h.subset List.mem_cons_self

/-- of two entries of a trace one came first, or they are the same -/
theorem suffix_or_suffix {a b : α} {l la lb : List α} (ha : a :: la <:+ l) (hb : b :: lb <:+ l) :
    a :: la <:+ lb ∨ b :: lb <:+ la ∨ (a = b ∧ la = lb) := by
  rcases le_total la.length lb.length with hle | hle
  · have hsuf : a :: la <:+ b :: lb := List.suffix_of_suffix_length_le ha hb (by simpa using hle)
    rcases List.suffix_cons_iff.mp hsuf with heq | h
    · obtain ⟨h1, h2⟩ := List.cons.inj heq
      exact .inr (.inr ⟨h1, h2⟩)
    · exact .inl h
  · have hsuf : b :: lb <:+ a :: la := List.suffix_of_suffix_length_le hb ha (by simpa using hle)
    rcases List.suffix_cons_iff.mp hsuf with heq | h
    · obtain ⟨h1, h2⟩ := List.cons.inj heq
      exact .inr (.inr ⟨h1.symm, h2.symm⟩)
    · exact .inr (.inl h)

/-- what a handler's log holds stands in the trace -/
theorem entry_of_mem_logOf {i : Nat} {c : Call Ret} {tr : List (Entry Ret Req τ)}
    (h : c ∈ logOf i tr) : ∃ e older, e :: older <:+ tr ∧ e.who = i ∧ e.call = c := by
  obtain ⟨log, hlog⟩ := exists_suffix_of_mem h
  obtain ⟨e, older, hsuf, hi, hc, -⟩ := entry_of_suffix_logOf hlog
  exact ⟨e, older, hsuf, hi, hc⟩

/-- what stands in the trace is in the log of its handler -/
theorem mem_logOf {e : Entry Ret Req τ} {tr : List (Entry Ret Req τ)} (h : e ∈ tr) :
    e.call ∈ logOf e.who tr := by
  refine List.mem_map.mpr ⟨e, List.mem_filter.mpr ⟨h, ?_⟩, rfl⟩
  simp

/-- a log grows with the trace -/
theorem logOf_suffix (i : Nat) {older tr : List (Entry Ret Req τ)} (h : older <:+ tr) :
    logOf i older <:+ logOf i tr := by
  obtain ⟨newer, rfl⟩ := h
  unfold logOf
  rw [List.filter_append, List.map_append]
  exact List.suffix_append _ _

/-- a handler's calls are told apart by how many it made before -/
theorem same_call {tr : List (Entry Ret Req τ)} {e1 e2 : Entry Ret Req τ}
    {o1 o2 : List (Entry Ret Req τ)} (h1 : e1 :: o1 <:+ tr) (h2 : e2 :: o2 <:+ tr)
    (hw : e1.who = e2.who) (hn : (logOf e1.who o1).length = (logOf e2.who o2).length) :
    e1 = e2 ∧ o1 = o2 := by
  rcases suffix_or_suffix h1 h2 with h | h | h
  · have hle := (logOf_suffix e1.who h).length_le
    rw [logOf_self, List.length_cons] at hle
    rw [← hw] at hn
    omega
  · have hle := (logOf_suffix e2.who h).length_le
    rw [logOf_self, List.length_cons] at hle
    rw [hw] at hn
    omega
  · exact h

/-! ## Since a call -/

/-- the calls after the latest but `n` of a handler, and all of them where it made no more than `n` -/
def since (i : Nat) : Nat → List (Entry Ret Req τ) → List (Entry Ret Req τ)
  | _, [] => []
  | 0, e :: tr => if e.who = i then [] else e :: since i 0 tr
  | n + 1, e :: tr => e :: since i (if e.who = i then n else n + 1) tr

theorem since_append {i n : Nat} {e : Entry Ret Req τ} {newer : List (Entry Ret Req τ)}
    (older : List (Entry Ret Req τ)) (hn : (logOf i newer).length = n) (he : e.who = i) :
    since i n (newer ++ e :: older) = newer := by
  induction newer generalizing n with
  | nil =>
    subst hn
    exact if_pos he
  | cons a newer ih =>
    rw [logOf_cons] at hn
    by_cases ha : a.who = i
    · rw [if_pos ha, List.length_cons] at hn
      subst hn
      rw [List.cons_append, since, if_pos ha, ih rfl]
    · rw [if_neg ha] at hn
      cases n with
      | zero => rw [List.cons_append, since, if_neg ha, ih hn]
      | succ n => rw [List.cons_append, since, if_neg ha, ih hn]

theorem since_subset {i m n : Nat} (h : m ≤ n) (tr : List (Entry Ret Req τ)) :
    since i m tr ⊆ since i n tr := by
  induction tr generalizing m n with
  | nil => exact List.Subset.refl _
  | cons e tr ih =>
    cases n with
    | zero =>
      obtain rfl := Nat.le_zero.mp h
      exact List.Subset.refl _
    | succ n =>
      cases m with
      | zero =>
        rw [since, since]
        split
        · exact List.nil_subset _
        · exact List.cons_subset_cons _ (ih (Nat.zero_le _))
      | succ m =>
        rw [since, since]
        split
        · exact List.cons_subset_cons _ (ih (Nat.le_of_succ_le_succ h))
        · exact List.cons_subset_cons _ (ih h)

/-! ## When a handler last called -/

/-- when the handler last made a call of this kind -/
def lastTime (kind : Op → Bool) (i : Nat) (tr : List (Entry Ret Req τ)) : Option τ :=
  (tr.find? fun e => e.who == i && kind e.call.1).map (·.time)

/-- the last call of a kind is the one after which the handler made no other of it -/
theorem lastTime_eq {kind : Op → Bool} {e : Entry Ret Req τ} {older tr : List (Entry Ret Req τ)}
    (he : e :: older <:+ tr) (hk : kind e.call.1 = true) {since : Log Ret}
    (hlog : logOf e.who tr = since ++ logOf e.who (e :: older))
    (hsince : ∀ c ∈ since, kind c.1 = false) : lastTime kind e.who tr = some e.time := by
  unfold lastTime
  induction tr generalizing since with
  | nil => exact absurd (List.eq_nil_of_suffix_nil he) (List.cons_ne_nil _ _)
  | cons a tr ih =>
    rcases List.suffix_cons_iff.mp he with heq | hsuf
    · obtain ⟨rfl, rfl⟩ := List.cons.inj heq
      rw [List.find?_cons_of_pos (by simpa using hk), Option.map_some]
    · rw [logOf_cons] at hlog
      split at hlog
      · cases since with
        | nil =>
          -- the handler would have made a call since
          have hle := (logOf_suffix e.who hsuf).length_le
          have heq := congrArg List.length hlog
          rw [List.nil_append, List.length_cons] at heq
          omega
        | cons c since =>
          obtain ⟨hc, hrest⟩ := List.cons.inj hlog
          have hfalse := hsince c List.mem_cons_self
          rw [← hc] at hfalse
          rw [List.find?_cons_of_neg (by simp [hfalse])]
          exact ih hsuf hrest fun c h => hsince c (List.mem_cons_of_mem _ h)
      · rename_i hwho
        rw [List.find?_cons_of_neg (by simp [hwho])]
        exact ih hsuf hlog hsince

/-! ## Steps -/

/-- **what one step can do** -/
theorem step_cases {a : Event Req χ ω} (h : S.step p a = some q) :
    (∃ req, a = .arrive req ∧ q = { p with threads := p.threads ++ [⟨req, S.handler req⟩] }) ∨
    (∃ i c req o k x s, a = .run i c ∧ p.threads[i]? = some ⟨req, .call o k⟩ ∧
      S.perform p.store o c = some (x, s) ∧
      q = { store := s, threads := p.threads.set i ⟨req, k x⟩,
            trace := ⟨i, req, ⟨o, x⟩, S.clock p.store⟩ :: p.trace }) ∨
    (∃ w s, a = .world w ∧ S.change p.store w = some s ∧ q = { p with store := s }) := by
  cases a with
  | arrive req => exact .inl ⟨req, rfl, (Option.some.inj h).symm⟩
  | run i c =>
    simp only [Service.step] at h
    split at h
    · rename_i req o k hth
      obtain ⟨⟨x, s⟩, hp, hq⟩ := Option.map_eq_some_iff.mp h
      exact .inr (.inl ⟨i, c, req, o, k, x, s, rfl, hth, hp, hq.symm⟩)
    · cases h
  | world w =>
    obtain ⟨s, hs, hq⟩ := Option.map_eq_some_iff.mp h
    exact .inr (.inr ⟨w, s, rfl, hs, hq.symm⟩)

/-- every handler is where its own log took it, and every entry names its handler's request -/
structure Grounded (S : Service Ret Req ρ σ τ χ ω) (p : Pool Ret Req ρ σ τ) : Prop where
  path : ∀ (i : Nat) (t : Thread Ret Req ρ), p.threads[i]? = some t →
    Path (S.handler t.req) (logOf i p.trace) t.prog
  entry : ∀ e ∈ p.trace, ∃ t : Thread Ret Req ρ, p.threads[e.who]? = some t ∧ t.req = e.req

theorem Grounded.start (s : σ) : Grounded S (Service.start s) where
  path := fun i t h => by simp [Service.start] at h
  entry := fun e he => by simp [Service.start] at he

theorem Grounded.logOf_eq_nil (h : Grounded S p) {i : Nat} (hi : p.threads.length ≤ i) :
    logOf i p.trace = [] := by
  by_contra hne
  obtain ⟨c, hc⟩ := List.exists_mem_of_ne_nil _ hne
  obtain ⟨e, older, hsuf, rfl, -⟩ := entry_of_mem_logOf hc
  obtain ⟨t, ht, -⟩ := h.entry e (mem_of_cons_suffix hsuf)
  have hlt := (List.getElem?_eq_some_iff.mp ht).1
  omega

/-- a thread of the pool after an arrival is one of those before it, or the new one -/
theorem thread_of_arrive {ts : List (Thread Ret Req ρ)} {t t' : Thread Ret Req ρ} {i : Nat}
    (h : (ts ++ [t'])[i]? = some t) : ts[i]? = some t ∨ (i = ts.length ∧ t = t') := by
  rw [List.getElem?_append] at h
  split at h
  · exact .inl h
  · rename_i hi
    have hlt := (List.getElem?_eq_some_iff.mp h).1
    have h0 : i - ts.length = 0 := by simp at hlt; omega
    rw [h0] at h
    exact .inr ⟨by omega, (Option.some.inj h).symm⟩

theorem Grounded.step (h : Grounded S p) {a : Event Req χ ω} (hs : S.step p a = some q) :
    Grounded S q := by
  obtain ⟨req, rfl, rfl⟩ | ⟨i, c, req, o, k, x, s, rfl, hth, hp, rfl⟩ | ⟨w, s, rfl, hc, rfl⟩ :=
    step_cases hs
  · refine ⟨fun i t ht => ?_, fun e he => ?_⟩
    · rcases thread_of_arrive ht with ht | ⟨rfl, rfl⟩
      · exact h.path i t ht
      · show Path _ (logOf p.threads.length p.trace) _
        rw [h.logOf_eq_nil (Nat.le_refl _)]
        exact .nil
    · obtain ⟨t, ht, hreq⟩ := h.entry e he
      have hlt := (List.getElem?_eq_some_iff.mp ht).1
      exact ⟨t, (List.getElem?_append_left hlt).trans ht, hreq⟩
  · have hlt := (List.getElem?_eq_some_iff.mp hth).1
    refine ⟨fun j t ht => ?_, fun e he => ?_⟩
    · show Path _ (logOf j (_ :: p.trace)) _
      rw [logOf_cons]
      by_cases hj : i = j
      · subst hj
        have ht : (p.threads.set i ⟨req, k x⟩)[i]? = some t := ht
        rw [List.getElem?_set_self hlt] at ht
        obtain rfl := Option.some.inj ht
        rw [if_pos rfl]
        exact .cons x (h.path i _ hth)
      · rw [if_neg hj]
        exact h.path j t ((List.getElem?_set_ne hj).symm.trans ht)
    · by_cases hi : i = e.who
      · refine ⟨⟨req, k x⟩, hi ▸ List.getElem?_set_self hlt, ?_⟩
        rcases List.mem_cons.mp he with rfl | he
        · rfl
        · obtain ⟨t, ht, hreq⟩ := h.entry e he
          rw [← hi, hth] at ht
          obtain rfl := Option.some.inj ht
          exact hreq
      · rcases List.mem_cons.mp he with rfl | he
        · exact absurd rfl hi
        · obtain ⟨t, ht, hreq⟩ := h.entry e he
          exact ⟨t, (List.getElem?_set_ne hi).trans ht, hreq⟩
  · exact ⟨h.path, h.entry⟩

/-! ## Runs -/

variable {ok : Pool Ret Req ρ σ τ → Event Req χ ω → Prop}

theorem Machine.Reach.grounded (h : S.machine.Reach ok p q) (hp : Grounded S p) : Grounded S q :=
  h.invariant hp fun _ _ _ hg _ hs => hg.step hs

/-- every call of the trace is one its handler's contract allowed -/
theorem Grounded.called (h : Grounded S p) {C : Req → Contract Ret ρ}
    (hC : ∀ req, Meets (C req) (C req).answer [] (S.handler req)) {e : Entry Ret Req τ}
    {older : List (Entry Ret Req τ)} (he : e :: older <:+ p.trace) :
    (C e.req).call (logOf e.who older) e.call.1 := by
  obtain ⟨t, ht, hreq⟩ := h.entry e (mem_of_cons_suffix he)
  have hsuf := logOf_suffix e.who he
  rw [logOf_self] at hsuf
  have hpath := h.path _ _ ht
  rw [hreq] at hpath
  exact hpath.called (hC e.req) hsuf

/-- and every answer is one that the contract allows for the log -/
theorem Grounded.answered (h : Grounded S p) {C : Req → Contract Ret ρ}
    (hC : ∀ req, Meets (C req) (C req).answer [] (S.handler req)) {i : Nat}
    {t : Thread Ret Req ρ} {r : ρ} (ht : p.threads[i]? = some t) (hr : t.prog.answer? = some r) :
    (C t.req).answer (logOf i p.trace) r :=
  (h.path i t ht).answered (hC t.req) hr

/-- the next call of a handler is one its contract allows -/
theorem Grounded.next (h : Grounded S p) {C : Req → Contract Ret ρ}
    (hC : ∀ req, Meets (C req) (C req).answer [] (S.handler req)) {i : Nat} {req : Req} {o : Op}
    {k : Ret o → Prog Ret ρ ρ} (ht : p.threads[i]? = some ⟨req, .call o k⟩) :
    (C req).call (logOf i p.trace) o :=
  ((h.path i _ ht).meets (hC req)).1

/-- **the history rule**: what relates a store to the trace before it, and what each call found,
hold along every run if they hold of each call that a handler's contract allows -/
theorem Machine.Reach.history {C : Req → Contract Ret ρ}
    (hC : ∀ req, Meets (C req) (C req).answer [] (S.handler req))
    {I : σ → List (Entry Ret Req τ) → Prop}
    {F : List (Entry Ret Req τ) → Entry Ret Req τ → Prop} {s0 : σ} (h0 : I s0 [])
    (hworld : ∀ p w s, ok p (.world w) → I p.store p.trace → S.change p.store w = some s →
      I s p.trace)
    (hcall : ∀ p i c req o k x s, ok p (.run i c) → Grounded S p → I p.store p.trace →
      (∀ e older, e :: older <:+ p.trace → F older e) →
      p.threads[i]? = some ⟨req, .call o k⟩ → (C req).call (logOf i p.trace) o →
      S.perform p.store o c = some (x, s) →
      I s (⟨i, req, ⟨o, x⟩, S.clock p.store⟩ :: p.trace) ∧
        F p.trace ⟨i, req, ⟨o, x⟩, S.clock p.store⟩)
    (h : S.machine.Reach ok (Service.start s0) p) :
    Grounded S p ∧ I p.store p.trace ∧ ∀ e older, e :: older <:+ p.trace → F older e := by
  refine h.invariant (P := fun p => Grounded S p ∧ I p.store p.trace ∧
    ∀ e older, e :: older <:+ p.trace → F older e) ⟨Grounded.start s0, h0, ?_⟩ ?_
  · intro e older he
    exact absurd (List.eq_nil_of_suffix_nil he) (List.cons_ne_nil _ _)
  · rintro p a q ⟨hg, hi, hf⟩ hok hs
    refine ⟨hg.step hs, ?_⟩
    obtain ⟨req, rfl, rfl⟩ | ⟨i, c, req, o, k, x, s, rfl, hth, hp, rfl⟩ | ⟨w, s, rfl, hc, rfl⟩ :=
      step_cases hs
    · exact ⟨hi, hf⟩
    · obtain ⟨hinv, hnew⟩ := hcall p i c req o k x s hok hg hi hf hth (hg.next hC hth) hp
      refine ⟨hinv, fun e older he => ?_⟩
      rcases List.suffix_cons_iff.mp he with heq | hsuf
      · obtain ⟨rfl, rfl⟩ := List.cons.inj heq
        exact hnew
      · exact hf e older hsuf
    · exact ⟨hworld p w s hok hi hc, hf⟩

/-- what a handler did and was asked stays along a run -/
theorem Machine.Reach.trace_suffix (h : S.machine.Reach ok p q) : p.trace <:+ q.trace := by
  refine h.along (P := fun _ => True) (R := fun p q => p.trace <:+ q.trace) trivial
    (fun _ _ _ _ _ _ => trivial) (List.suffix_refl _) ?_
  intro t a u _ hr _ hs
  obtain ⟨req, rfl, rfl⟩ | ⟨i, c, req, o, k, x, s, rfl, hth, hp, rfl⟩ | ⟨w, s, rfl, hc, rfl⟩ :=
    step_cases hs
  · exact hr
  · exact hr.trans (List.suffix_cons _ _)
  · exact hr

/-- a handler whose call can be met takes a step -/
theorem step_of_perform {i : Nat} {c : χ} {req : Req} {o : Op} {k : Ret o → Prog Ret ρ ρ} {x : Ret o}
    {s : σ} (hth : p.threads[i]? = some ⟨req, .call o k⟩) (hp : S.perform p.store o c = some (x, s)) :
    S.step p (.run i c) = some
      { store := s, threads := p.threads.set i ⟨req, k x⟩,
        trace := ⟨i, req, ⟨o, x⟩, S.clock p.store⟩ :: p.trace } := by
  simp only [Service.step, hth, hp, Option.map_some]

/-- **every call of the trace was made by a step of the run** -/
theorem Machine.Reach.made (h : S.machine.Reach ok p q) {e : Entry Ret Req τ}
    {older : List (Entry Ret Req τ)} (he : e :: older <:+ q.trace) (hp : p.trace <:+ older) :
    ∃ r i c req o k x s, e = ⟨i, req, ⟨o, x⟩, S.clock r.store⟩ ∧ r.trace = older ∧
      S.machine.Reach ok p r ∧ ok r (.run i c) ∧ r.threads[i]? = some ⟨req, .call o k⟩ ∧
      S.perform r.store o c = some (x, s) ∧
      S.machine.Reach ok { store := s, threads := r.threads.set i ⟨req, k x⟩, trace := e :: older } q := by
  induction h with
  | refl =>
    have h1 := he.length_le
    have h2 := hp.length_le
    rw [List.length_cons] at h1
    omega
  | tail hr hnext ih =>
    obtain ⟨a, ha, hs⟩ := hnext
    obtain ⟨req, rfl, rfl⟩ | ⟨i, c, req, o, k, x, s, rfl, hth, hperf, rfl⟩ | ⟨w, s, rfl, hc, rfl⟩ :=
      step_cases hs
    · obtain ⟨r, i, c, req, o, k, x, s, h1, h2, h3, h4, h5, h6, h7⟩ := ih he
      exact ⟨r, i, c, req, o, k, x, s, h1, h2, h3, h4, h5, h6, h7.tail ha hs⟩
    · rcases List.suffix_cons_iff.mp he with heq | hsuf
      · obtain ⟨rfl, rfl⟩ := List.cons.inj heq
        exact ⟨_, i, c, req, o, k, x, s, rfl, rfl, hr, ha, hth, hperf, .refl⟩
      · obtain ⟨r, j, d, req', o', k', x', s', h1, h2, h3, h4, h5, h6, h7⟩ := ih hsuf
        exact ⟨r, j, d, req', o', k', x', s', h1, h2, h3, h4, h5, h6, h7.tail ha hs⟩
    · obtain ⟨r, i, c, req, o, k, x, s', h1, h2, h3, h4, h5, h6, h7⟩ := ih he
      exact ⟨r, i, c, req, o, k, x, s', h1, h2, h3, h4, h5, h6, h7.tail ha hs⟩

/-- the same for a call of a handler's log, along a run from an idle service -/
theorem Machine.Reach.made_of_logOf {s0 : σ} (h : S.machine.Reach ok (Service.start s0) q) {i : Nat}
    {o : Op} {x : Ret o} {log : Log Ret} (hl : ⟨o, x⟩ :: log <:+ logOf i q.trace) :
    ∃ r c req k s, S.machine.Reach ok (Service.start s0) r ∧ logOf i r.trace = log ∧
      ok r (.run i c) ∧ r.threads[i]? = some ⟨req, .call o k⟩ ∧
      S.perform r.store o c = some (x, s) ∧
      S.machine.Reach ok
        { store := s, threads := r.threads.set i ⟨req, k x⟩,
          trace := ⟨i, req, ⟨o, x⟩, S.clock r.store⟩ :: r.trace } q := by
  obtain ⟨e, older, he, hw, hc, hlog⟩ := entry_of_suffix_logOf hl
  obtain ⟨r, j, c, req, o', k, x', s, rfl, rfl, hr, hok, hth, hp, hafter⟩ :=
    h.made he List.nil_suffix
  cases hw
  cases hc
  exact ⟨r, c, req, k, s, hr, hlog, hok, hth, hp, hafter⟩

/-- what the world keeps, and each call of a stretch of the run, is kept along the stretch -/
theorem Machine.Reach.kept {P : σ → Prop} (h : S.machine.Reach ok p q)
    {newer : List (Entry Ret Req τ)} (ht : q.trace = newer ++ p.trace) (hp : P p.store)
    (hworld : ∀ r w s, S.machine.Reach ok p r → ok r (.world w) → P r.store →
      S.change r.store w = some s → P s)
    (hcall : ∀ r i c req o k x s, S.machine.Reach ok p r →
      ⟨i, req, ⟨o, x⟩, S.clock r.store⟩ ∈ newer → ok r (.run i c) →
      r.threads[i]? = some ⟨req, .call o k⟩ → S.perform r.store o c = some (x, s) →
      P r.store → P s) :
    P q.store := by
  induction h generalizing newer with
  | refl => exact hp
  | tail hr hnext ih =>
    obtain ⟨a, ha, hs⟩ := hnext
    obtain ⟨req, rfl, rfl⟩ | ⟨i, c, req, o, k, x, s, rfl, hth, hperf, rfl⟩ | ⟨w, s, rfl, hc, rfl⟩ :=
      step_cases hs
    · exact ih ht hcall
    · -- the call is the latest of the stretch
      obtain ⟨before, hbefore⟩ := Machine.Reach.trace_suffix hr
      rw [← hbefore, ← List.cons_append] at ht
      obtain rfl := List.append_cancel_right ht
      exact hcall _ i c req o k x s hr List.mem_cons_self ha hth hperf <|
        ih hbefore.symm fun r i c req o k x s hr he => hcall r i c req o k x s hr
          (List.mem_cons_of_mem _ he)
    · exact hworld _ w s hr ha (ih ht hcall) hc

/-- **what held once a handler had its answer still does**, if every call since keeps it -/
theorem Machine.Reach.kept_since {P : σ → Prop} {s0 : σ}
    (h : S.machine.Reach ok (Service.start s0) q) {i : Nat} {o : Op} {x : Ret o} {l log : Log Ret}
    (hl : logOf i q.trace = l ++ ⟨o, x⟩ :: log)
    (hread : ∀ r c s, S.machine.Reach ok (Service.start s0) r →
      S.perform r.store o c = some (x, s) → P s)
    (hworld : ∀ r w s, S.machine.Reach ok (Service.start s0) r → ok r (.world w) → P r.store →
      S.change r.store w = some s → P s)
    (hcall : ∀ r j c req o' k x' s, S.machine.Reach ok (Service.start s0) r →
      ⟨j, req, ⟨o', x'⟩, S.clock r.store⟩ ∈ since i l.length q.trace → ok r (.run j c) →
      r.threads[j]? = some ⟨req, .call o' k⟩ → S.perform r.store o' c = some (x', s) →
      P r.store → P s) :
    P q.store := by
  obtain ⟨r, c, req, k, s, hr, hlog, hok, hth, hp, hafter⟩ :=
    h.made_of_logOf (hl ▸ List.suffix_append l _)
  have hmid := hr.tail hok (step_of_perform hth hp)
  obtain ⟨newer, hnewer⟩ := hafter.trace_suffix
  have hlen : (logOf i newer).length = l.length := by
    have heq := congrArg List.length hl
    rw [← hnewer, logOf, List.filter_append, List.map_append, List.length_append,
      List.length_append, ← logOf, ← logOf, logOf_cons, if_pos rfl, hlog] at heq
    exact Nat.add_right_cancel heq
  have hsince : since i l.length q.trace = newer := by
    rw [← hnewer]
    exact since_append _ hlen rfl
  refine hafter.kept hnewer.symm (hread r c s hr hp) (fun r' w s hr' => hworld r' w s (hmid.trans hr'))
    fun r' j c req o' k x' s hr' he => hcall r' j c req o' k x' s (hmid.trans hr') (hsince ▸ he)

/-- **a call of a handler's log was made in a state of the run** -/
theorem Machine.Reach.at_call {s0 : σ} (h : S.machine.Reach ok (Service.start s0) q) {i : Nat}
    {o : Op} {x : Ret o} {log : Log Ret} (hl : ⟨o, x⟩ :: log <:+ logOf i q.trace) :
    ∃ r c req k s, S.machine.Reach ok (Service.start s0) r ∧ S.machine.Reach ok r q ∧
      logOf i r.trace = log ∧ ok r (.run i c) ∧ r.threads[i]? = some ⟨req, .call o k⟩ ∧
      S.perform r.store o c = some (x, s) := by
  obtain ⟨r, c, req, k, s, hr, hlog, hok, hth, hp, hafter⟩ := h.made_of_logOf hl
  have hstep : S.machine.Reach ok r _ := .tail .refl hok (step_of_perform hth hp)
  exact ⟨r, c, req, k, s, hr, hstep.trans hafter, hlog, hok, hth, hp⟩

/-- the same for a request that arrived later, along the rest of the run -/
theorem Machine.Reach.at_call_after {s0 : σ} (h : S.machine.Reach ok (Service.start s0) p)
    (h' : S.machine.Reach ok p q) {i : Nat} (hi : p.threads.length ≤ i) {o : Op} {x : Ret o}
    {log : Log Ret} (hl : ⟨o, x⟩ :: log <:+ logOf i q.trace) :
    ∃ r c req k s, S.machine.Reach ok p r ∧ S.machine.Reach ok r q ∧ logOf i r.trace = log ∧
      ok r (.run i c) ∧ r.threads[i]? = some ⟨req, .call o k⟩ ∧
      S.perform r.store o c = some (x, s) := by
  obtain ⟨e, older, he, hw, hc, hlog⟩ := entry_of_suffix_logOf hl
  have hnot : e ∉ p.trace := by
    intro hmem
    obtain ⟨t, ht, -⟩ := (h.grounded (Grounded.start s0)).entry e hmem
    have hlt := (List.getElem?_eq_some_iff.mp ht).1
    omega
  have hsuf : p.trace <:+ older := by
    rcases List.suffix_or_suffix_of_suffix h'.trace_suffix he with hp | hp
    · rcases List.suffix_cons_iff.mp hp with heq | hp
      · exact absurd (heq ▸ List.mem_cons_self) hnot
      · exact hp
    · exact absurd (mem_of_cons_suffix hp) hnot
  obtain ⟨r, j, c, req, o', k, x', s, rfl, rfl, hr, hok, hth, hp, hafter⟩ := h'.made he hsuf
  cases hw
  cases hc
  have hstep : S.machine.Reach ok r _ := .tail .refl hok (step_of_perform hth hp)
  exact ⟨r, c, req, k, s, hr, hstep.trans hafter, hlog, hok, hth, hp⟩

/-! ## While a request is served -/

/-- a thread stays, moves on by a call of its own, or keeps its answer -/
theorem thread_of_step {a : Event Req χ ω} (h : S.step p a = some q) {i : Nat}
    {t : Thread Ret Req ρ} (ht : p.threads[i]? = some t) :
    q.threads[i]? = some t ∨ ∃ o k x, t.prog = .call o k ∧ q.threads[i]? = some ⟨t.req, k x⟩ := by
  have hlt := (List.getElem?_eq_some_iff.mp ht).1
  obtain ⟨req, rfl, rfl⟩ | ⟨j, c, req, o, k, x, s, rfl, hth, hp, rfl⟩ | ⟨w, s, rfl, hc, rfl⟩ :=
    step_cases h
  · exact .inl ((List.getElem?_append_left hlt).trans ht)
  · by_cases hj : j = i
    · subst hj
      rw [hth] at ht
      obtain rfl := Option.some.inj ht
      exact .inr ⟨o, k, x, rfl, List.getElem?_set_self hlt⟩
    · exact .inl ((List.getElem?_set_ne hj).trans ht)
  · exact .inl ht

/-- what has been answered stays answered so -/
theorem Machine.Reach.answered_stays (h : S.machine.Reach ok p q) {i : Nat} {t : Thread Ret Req ρ}
    {r : ρ} (ht : p.threads[i]? = some t) (hr : t.prog.answer? = some r) : q.threads[i]? = some t := by
  refine h.invariant (P := fun q => q.threads[i]? = some t) ht fun s a u hs _ hstep => ?_
  rcases thread_of_step hstep hs with hu | ⟨o, k, x, hprog, -⟩
  · exact hu
  · rw [hprog] at hr
    cases hr

/-- a request that had a call to make, and has been answered since, has made one -/
theorem Machine.Reach.called_since (h : S.machine.Reach ok p q) {i : Nat} {req : Req} {o : Op}
    {k : Ret o → Prog Ret ρ ρ} (hp : p.threads[i]? = some ⟨req, .call o k⟩) {t : Thread Ret Req ρ}
    {r : ρ} (hq : q.threads[i]? = some t) (hr : t.prog.answer? = some r) :
    (logOf i p.trace).length < (logOf i q.trace).length := by
  have hinv : (q.threads[i]? = some ⟨req, .call o k⟩ ∧ logOf i q.trace = logOf i p.trace) ∨
      (logOf i p.trace).length < (logOf i q.trace).length := by
    refine h.invariant (P := fun u => (u.threads[i]? = some ⟨req, .call o k⟩ ∧
      logOf i u.trace = logOf i p.trace) ∨ (logOf i p.trace).length < (logOf i u.trace).length)
      (.inl ⟨hp, rfl⟩) ?_
    intro s a u hs _ hstep
    obtain ⟨req', rfl, rfl⟩ | ⟨j, c, req', o', k', x, s', rfl, hth, hperf, rfl⟩ |
      ⟨w, s', rfl, hc, rfl⟩ := step_cases hstep
    · refine hs.imp_left fun ⟨hth, hlog⟩ => ⟨?_, hlog⟩
      exact (List.getElem?_append_left (List.getElem?_eq_some_iff.mp hth).1).trans hth
    · by_cases hj : j = i
      · subst hj
        right
        show _ < (logOf j (_ :: s.trace)).length
        rw [logOf_cons, if_pos rfl, List.length_cons]
        rcases hs with ⟨-, hlog⟩ | hlt
        · rw [hlog]
          omega
        · omega
      · have hlog : logOf i ((⟨j, req', ⟨o', x⟩, S.clock s.store⟩ : Entry Ret Req τ) :: s.trace) =
            logOf i s.trace := by rw [logOf_cons, if_neg hj]
        show (_ ∧ logOf i (_ :: s.trace) = _) ∨ _ < (logOf i (_ :: s.trace)).length
        rw [hlog]
        exact hs.imp_left fun ⟨hth', hlog⟩ => ⟨(List.getElem?_set_ne hj).trans hth', hlog⟩
    · exact hs
  rcases hinv with ⟨hth, -⟩ | hlt
  · rw [hth] at hq
    obtain rfl := Option.some.inj hq
    cases hr
  · exact hlt

/-- the request of a thread stays -/
theorem Machine.Reach.thread_stays (h : S.machine.Reach ok p q) {i : Nat} {t : Thread Ret Req ρ}
    (ht : p.threads[i]? = some t) : ∃ t', q.threads[i]? = some t' ∧ t'.req = t.req := by
  refine h.invariant (P := fun q => ∃ t', q.threads[i]? = some t' ∧ t'.req = t.req) ⟨t, ht, rfl⟩ ?_
  rintro s a u ⟨t', ht', hreq⟩ - hstep
  rcases thread_of_step hstep ht' with hu | ⟨o, k, x, -, hu⟩
  · exact ⟨t', hu, hreq⟩
  · exact ⟨_, hu, hreq⟩

/-- the request has arrived, and it is unanswered or its last call has just been made -/
def AtWork (p : Pool Ret Req ρ σ τ) (i : Nat) : Prop :=
  ∃ t, p.threads[i]? = some t ∧
    (t.prog.answer? = none ∨ ∃ e older, p.trace = e :: older ∧ e.who = i)

theorem atWork_of_call {i : Nat} {req : Req} {o : Op} {k : Ret o → Prog Ret ρ ρ}
    (ht : p.threads[i]? = some ⟨req, .call o k⟩) : AtWork p i := ⟨_, ht, .inl rfl⟩

/-- a request that has a call to make was at work ever since it arrived -/
theorem Machine.Reach.atWork (h : S.machine.Reach ok p q) {i : Nat} {t : Thread Ret Req ρ}
    (hp : p.threads[i]? = some t) {req : Req} {o : Op} {k : Ret o → Prog Ret ρ ρ}
    (hq : q.threads[i]? = some ⟨req, .call o k⟩) : AtWork p i := by
  refine ⟨t, hp, .inl ?_⟩
  cases hr : t.prog.answer? with
  | none => rfl
  | some r =>
    have := h.answered_stays hp hr
    rw [hq] at this
    obtain rfl := Option.some.inj this
    cases hr

/-! ## One request at a time -/

/-- the request that makes a call is the last one that arrived -/
def OneAtATime (p : Pool Ret Req ρ σ τ) (ev : Event Req χ ω) : Prop :=
  ∀ i c, ev = .run i c → i + 1 = p.threads.length

/-- no call of a later request comes before one of an earlier request -/
def Serial (tr : List (Entry Ret Req τ)) : Prop := tr.Pairwise fun e e' => e'.who ≤ e.who

/-- no request after `i` has made a call -/
def IsLast (i : Nat) (tr : List (Entry Ret Req τ)) : Prop := ∀ e ∈ tr, e.who ≤ i

theorem Serial.older {older tr : List (Entry Ret Req τ)} (h : Serial tr) (ho : older <:+ tr) :
    Serial older := List.Pairwise.sublist ho.sublist h

theorem IsLast.older {i : Nat} {older tr : List (Entry Ret Req τ)} (h : IsLast i tr)
    (ho : older <:+ tr) : IsLast i older := fun e he => h e (ho.subset he)

theorem Serial.isLast {e : Entry Ret Req τ} {tr : List (Entry Ret Req τ)} (h : Serial (e :: tr)) :
    IsLast e.who tr := (List.pairwise_cons.mp h).1

theorem Grounded.isLast (h : Grounded S p) {i : Nat} (hi : i + 1 = p.threads.length) :
    IsLast i p.trace := by
  intro e he
  obtain ⟨t, ht, -⟩ := h.entry e he
  have hlt := (List.getElem?_eq_some_iff.mp ht).1
  omega

/-- **the last call of the request at work is the last call of all** -/
theorem Serial.head {i : Nat} {c : Call Ret} {log : Log Ret} {tr : List (Entry Ret Req τ)}
    (h : Serial tr) (hi : IsLast i tr) (hlog : logOf i tr = c :: log) :
    ∃ e older, tr = e :: older ∧ e.who = i ∧ e.call = c ∧ logOf i older = log := by
  cases tr with
  | nil => cases hlog
  | cons e older =>
    rw [logOf_cons] at hlog
    split at hlog
    · rename_i hwho
      obtain ⟨hc, hl⟩ := List.cons.inj hlog
      exact ⟨e, older, rfl, hwho, hc, hl⟩
    · -- the request would have made a call before an earlier request's
      rename_i hwho
      have hc : c ∈ logOf i older := hlog ▸ List.mem_cons_self
      obtain ⟨e', l, hsuf, rfl, -⟩ := entry_of_mem_logOf hc
      have hle := h.isLast e' (mem_of_cons_suffix hsuf)
      have hge := hi e List.mem_cons_self
      omega

theorem Machine.Reach.serial {s0 : σ} (h : S.machine.Reach ok (Service.start s0) p)
    (hok : ∀ p ev, ok p ev → OneAtATime p ev) : Serial p.trace := by
  have hinv : Grounded S p ∧ Serial p.trace := by
    refine h.invariant (P := fun p => Grounded S p ∧ Serial p.trace)
      ⟨Grounded.start s0, List.Pairwise.nil⟩ ?_
    rintro p ev q ⟨hg, hs⟩ hok' hstep
    refine ⟨hg.step hstep, ?_⟩
    obtain ⟨req, rfl, rfl⟩ | ⟨i, c, req, o, k, x, s, rfl, hth, hp, rfl⟩ | ⟨w, s, rfl, hc, rfl⟩ :=
      step_cases hstep
    · exact hs
    · exact List.pairwise_cons.mpr ⟨hg.isLast (hok _ _ hok' i c rfl), hs⟩
    · exact hs
  exact hinv.2

end Freepod.Base
