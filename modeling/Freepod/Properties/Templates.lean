import Freepod.Runs.Rollouts

/-!
# Templates only move forward

An update compares its template with the one that the deployment had when it was read, and the
guarded `UPDATE` looks at the status alone.

* `Along`: what a step keeps of the products; `along_of_reach` shows it of every run.
* `Climbing`: the releases ascend, and no request that holds a row would take it back.
* `NotOvertaken`: no update to a newer template commits between an update's read and its guard.
* `templates_forward`: the run-level result.  `template_taken_back`: an update that was read before a
  newer one was rolled out and passes its guard afterwards.
-/

namespace Freepod.Updates
open Base

section
variable {cfg : Settings} {s t : Store} {tr : List (Entry Ret Request Unit)}

/-! ## One product -/

/-- no template leaves its product, and no deployment -/
structure Along (s t : Store) : Prop where
  templates : ∀ x p, productOf s.templates x = some p → productOf t.templates x = some p
  desired : ∀ id x, s.state.rollouts.desired id = some x →
    ∃ y, t.state.rollouts.desired id = some y ∧
      ∀ p, productOf s.templates x = some p → productOf t.templates y = some p

/-- the catalog has every desired template, and what the requests have read of the products still
holds -/
structure Catalogued (s : Store) (tr : List (Entry Ret Request Unit)) : Prop where
  found : ∀ id x, s.state.rollouts.desired id = some x → productOf s.templates x ≠ none
  seen : ∀ e ∈ tr, ∀ x y, e.call = ⟨.template x, some y⟩ →
    productOf s.templates x = some y.productId
  loaded : ∀ e ∈ tr, ∀ userId id d, e.call = ⟨.deployment userId id, .ok d⟩ → d.id = id ∧
    ∃ x p, s.state.rollouts.desired id = some x ∧ productOf s.templates x = some p ∧
      productOf s.templates d.desiredTemplateId = some p

/-- the template of a deployment that was read is there when it is looked up -/
def TemplateFound (older : List (Entry Ret Request Unit)) (e : Entry Ret Request Unit) : Prop :=
  ∀ x y userId id d, e.call = ⟨.template x, y⟩ →
    (⟨.deployment userId id, .ok d⟩ : Base.Call Ret) ∈ logOf e.who older →
    d.desiredTemplateId = x → y ≠ none

theorem Along.refl (s : Store) : Along s s :=
  ⟨fun _ _ h => h, fun _ x h => ⟨x, h, fun _ h => h⟩⟩

theorem Along.trans {u : Store} (h : Along s t) (h' : Along t u) : Along s u where
  templates := fun x p hp => h'.templates x p (h.templates x p hp)
  desired := by
    intro id x hx
    obtain ⟨y, hy, hxy⟩ := h.desired id x hx
    obtain ⟨z, hz, hyz⟩ := h'.desired id y hy
    exact ⟨z, hz, fun p hp => hyz p (hxy p hp)⟩

/-- what is not touched -/
theorem Along.of_eq (ht : t.templates = s.templates) (hr : t.state.rollouts = s.state.rollouts) :
    Along s t where
  templates := fun x p hp => by rw [ht, hp]
  desired := fun id x hx => ⟨x, by rw [hr, hx], fun p hp => by rw [ht, hp]⟩

/-- a rollout to a template of the same product -/
theorem Along.of_add {id : DeploymentId} {n : Nat} {x : TemplateId} (ht : t.templates = s.templates)
    (hr : t.state.rollouts = s.state.rollouts.add id n x)
    (hx : ∀ y, s.state.rollouts.desired id = some y →
      productOf s.templates x = productOf s.templates y) : Along s t where
  templates := fun x p hp => by rw [ht, hp]
  desired := by
    intro id' y hy
    by_cases hid : id' = id
    · subst hid
      refine ⟨x, ?_, fun p hp => ?_⟩
      · rw [hr]
        exact Function.update_self ..
      · rw [ht, hx y hy, hp]
    · refine ⟨y, ?_, fun p hp => by rw [ht, hp]⟩
      rw [hr]
      exact (Function.update_of_ne hid _ _).trans hy

theorem Along.of_rolls (h : Rolls s t) : Along s t := by
  cases h with
  | nothing ht hr => exact .of_eq ht hr
  | creates id x ht found before free hr =>
    refine .of_add ht hr fun y hy => ?_
    rw [before] at hy
    cases hy
  | publishes hr kept => exact ⟨kept, fun id x hx => ⟨x, by rw [hr, hx], kept x⟩⟩

/-- **what a commit has checked still holds** -/
theorem product_of_checked (hc : Catalogued s tr)
    (hf : ∀ e older, e :: older <:+ tr → TemplateFound older e) {i : Nat} {u : UpdateRequest}
    {d : Deployment} (h : ProductChecked (logOf i tr) u d) :
    d.id = u.id ∧ ∃ p, productOf s.templates u.desiredTemplateId = some p ∧
      ∀ x, s.state.rollouts.desired u.id = some x → productOf s.templates x = some p := by
  obtain ⟨target, current, older, hload, hsuf, htarget, hsame⟩ := h
  obtain ⟨e, l, he, -, hcall⟩ := entry_of_mem_logOf htarget
  have hnew := hc.seen e (mem_of_cons_suffix he) _ _ hcall
  -- the current template was there when it was looked up
  obtain ⟨e', l', he', rfl, hcall', rfl⟩ := entry_of_suffix_logOf hsuf
  have hsome := hf e' l' he' _ _ _ _ _ hcall' hload rfl
  obtain ⟨cur, rfl⟩ := Option.ne_none_iff_exists'.mp hsome
  have hcur := hc.seen e' (mem_of_cons_suffix he') _ _ hcall'
  have hin : (⟨.deployment u.userId u.id, .ok d⟩ : Base.Call Ret) ∈ logOf e'.who tr :=
    hsuf.subset (List.mem_cons_of_mem _ hload)
  obtain ⟨e'', l'', he'', -, hcall''⟩ := entry_of_mem_logOf hin
  obtain ⟨hid, x, p, hx, hp, hd⟩ := hc.loaded e'' (mem_of_cons_suffix he'') _ _ _ hcall''
  rw [hcur] at hd
  have hsame : target.productId = cur.productId := of_decide_eq_true hsame
  refine ⟨hid, p, ?_, fun y hy => ?_⟩
  · rw [hnew, hsame, hd]
  · rw [hx] at hy
    rw [← Option.some.inj hy, hp]

/-- what a request checked before its call, where the call is a commit -/
def Checked (s : Store) (c : Base.Call Ret) : Prop :=
  ∀ c' u y x, c = ⟨.commit c' u y, x⟩ → ∃ p, productOf s.templates u.desiredTemplateId = some p ∧
    ∀ x, s.state.rollouts.desired u.id = some x → productOf s.templates x = some p

theorem Along.of_does {c : Base.Call Ret} (hd : Does cfg s c t) (hc : Checked s c) : Along s t := by
  cases hd with
  | reads found => exact .refl _
  | locks free settled => exact .of_eq rfl rfl
  | rollsBack => exact .of_eq rfl rfl
  | @commits c' u y x written =>
    obtain ⟨-, -, hr⟩ := rollouts_of_commit written
    obtain ⟨p, hp, hall⟩ := hc _ _ _ _ rfl
    refine .of_add (t := ⟨x, _, _⟩) rfl hr fun z hz => ?_
    rw [hp, hall z hz]

/-- what was read stays so along a step -/
theorem Catalogued.along (h : Catalogued s tr) (ha : Along s t)
    (hfound : ∀ id x, t.state.rollouts.desired id = some x → productOf t.templates x ≠ none) :
    Catalogued t tr where
  found := hfound
  seen := fun e he x y hcall => ha.templates _ _ (h.seen e he x y hcall)
  loaded := by
    intro e he userId id d hcall
    obtain ⟨hid, x, p, hx, hp, hd⟩ := h.loaded e he userId id d hcall
    obtain ⟨y, hy, hxy⟩ := ha.desired id x hx
    exact ⟨hid, y, p, hy, hxy p hp, ha.templates _ _ hd⟩

/-- a template that was desired before, or is the one rolled out, is the catalog's -/
theorem found_add {id : DeploymentId} {n : Nat} {x : TemplateId} (h : Catalogued s tr)
    (ht : t.templates = s.templates) (hr : t.state.rollouts = s.state.rollouts.add id n x)
    (hx : productOf s.templates x ≠ none) (id' : DeploymentId) (y : TemplateId)
    (hy : t.state.rollouts.desired id' = some y) : productOf t.templates y ≠ none := by
  rw [hr] at hy
  rw [ht]
  by_cases hid : id' = id
  · subst hid
    rw [show (s.state.rollouts.add id' n x).desired id' = some x from Function.update_self ..] at hy
    exact Option.some.inj hy ▸ hx
  · exact h.found id' y ((Function.update_of_ne hid _ _).symm.trans hy)

theorem Catalogued.of_rolls (h : Catalogued s tr) (hr : Rolls s t) : Catalogued t tr := by
  refine h.along (.of_rolls hr) ?_
  cases hr with
  | nothing ht hr =>
    rw [ht, hr]
    exact h.found
  | creates id x ht found before free hr => exact found_add h ht hr found
  | publishes hr kept =>
    rw [hr]
    intro id x hx
    obtain ⟨p, hp⟩ := Option.ne_none_iff_exists'.mp (h.found id x hx)
    rw [kept x p hp]
    exact Option.some_ne_none p

theorem Catalogued.of_does {i : Nat} {req : Request} {c : Base.Call Ret} (h : Catalogued s tr)
    (hd : Does cfg s c t) (hc : Checked s c) : Catalogued t (⟨i, req, c, ()⟩ :: tr) := by
  have hnow : Catalogued t tr := by
    refine h.along (.of_does hd hc) ?_
    cases hd with
    | reads found => exact h.found
    | locks free settled => exact h.found
    | rollsBack => exact h.found
    | @commits c' u y x written =>
      obtain ⟨-, -, hr⟩ := rollouts_of_commit written
      obtain ⟨p, hp, -⟩ := hc _ _ _ _ rfl
      refine found_add (t := ⟨x, _, _⟩) h rfl hr ?_
      rw [hp]
      exact Option.some_ne_none p
  refine ⟨hnow.found, ?_, ?_⟩
  · intro e he x y hcall
    rcases List.mem_cons.mp he with rfl | he
    · cases hcall
      cases hd with
      | reads found =>
        have found : some y = s.templates x := found
        rw [productOf, ← found, Option.map_some]
    · exact hnow.seen e he x y hcall
  · intro e he userId id d hcall
    rcases List.mem_cons.mp he with rfl | he
    · cases hcall
      cases hd with
      | reads found =>
        have hrow : s.state.deployments.get? id = some d := found
        have hx : s.state.rollouts.desired id = some d.desiredTemplateId := by
          show (s.state.deployments.get? id).map _ = _
          rw [hrow]
          rfl
        obtain ⟨p, hp⟩ := Option.ne_none_iff_exists'.mp (h.found _ _ hx)
        exact ⟨Table.key_of_get? hrow, d.desiredTemplateId, p, hx, hp, hp⟩
    · exact hnow.loaded e he userId id d hcall

/-- the desired template of a deployment that was read is found by the next lookup -/
theorem templateFound (h : Catalogued s tr) {i : Nat} {req : Request} {c : Base.Call Ret}
    (hd : Does cfg s c t) : TemplateFound tr ⟨i, req, c, ()⟩ := by
  intro x y userId id d hcall hload hx
  cases hcall
  obtain ⟨e, older, he, -, hcall⟩ := entry_of_mem_logOf hload
  obtain ⟨-, z, p, -, -, hp⟩ := h.loaded e (mem_of_cons_suffix he) _ _ _ hcall
  cases hd with
  | reads found =>
    have found : y = s.templates x := found
    subst found
    rintro hnone
    rw [hx, productOf, hnone] at hp
    cases hp

/-- a commit that the request's contract allows is a checked one -/
theorem checked_of_called (hc : Catalogued s tr)
    (hf : ∀ e older, e :: older <:+ tr → TemplateFound older e) {i : Nat} {req : Request} {o : Op}
    {x : Ret o} (hcall : (contract req).call (logOf i tr) o) : Checked s ⟨o, x⟩ := by
  intro c' u y b heq
  cases heq
  obtain ⟨-, -, d, hd, -⟩ := hcall
  exact (product_of_checked hc hf hd).2

/-! ## Climbing templates -/

/-- the request has locked the row and not committed yet -/
def Holds (tr : List (Entry Ret Request Unit)) (i : Nat) (u : UpdateRequest) : Prop :=
  ∃ log, logOf i tr = ⟨.guardedUpdate u, true⟩ :: log

/-- the releases ascend, the numbers that were handed out continue the used ones, and a row is locked
by one request, which would not take it back -/
structure Climbing (s : Store) (tr : List (Entry Ret Request Unit)) : Prop where
  ascending : s.state.rollouts.Ascending
  numbered : ∀ e ∈ tr, ∀ id n, e.call = ⟨.nextNumber id, n⟩ →
    1 ≤ n ∧ ∀ k, 1 ≤ k → k < n → s.state.rollouts.Numbered id k
  forward : ∀ i u, Holds tr i u → u.id ∈ s.held ∧
    ∃ x, s.state.rollouts.desired u.id = some x ∧ x ≤ u.desiredTemplateId
  apart : ∀ i j u u', i ≠ j → Holds tr i u → Holds tr j u' → u.id ≠ u'.id

/-- no deployment goes back -/
def Upward (s t : Store) : Prop :=
  ∀ id x, s.state.rollouts.desired id = some x →
    ∃ y, t.state.rollouts.desired id = some y ∧ x ≤ y

theorem Upward.of_eq (h : t.state.rollouts = s.state.rollouts) : Upward s t :=
  fun id x hx => ⟨x, by rw [h, hx], Nat.le_refl x⟩

theorem Upward.of_add {id : DeploymentId} {n : Nat} {x : TemplateId}
    (h : t.state.rollouts = s.state.rollouts.add id n x)
    (hx : ∀ y, s.state.rollouts.desired id = some y → y ≤ x) : Upward s t := by
  intro id' y hy
  rw [h]
  by_cases hid : id' = id
  · subst hid
    exact ⟨x, Function.update_self .., hx y hy⟩
  · exact ⟨y, (Function.update_of_ne hid _ _).trans hy, Nat.le_refl y⟩

theorem Upward.of_rolls (h : Rolls s t) : Upward s t := by
  cases h with
  | nothing ht hr => exact .of_eq hr
  | creates id x ht found before free hr =>
    refine .of_add hr fun y hy => ?_
    rw [before] at hy
    cases hy
  | publishes hr kept => exact .of_eq hr

theorem Climbing.of_rolls (h : Climbing s tr) (hheld : t.held = s.held) (hr : Rolls s t) :
    Climbing t tr := by
  cases hr with
  | nothing ht hr => exact ⟨hr ▸ h.ascending, hr ▸ h.numbered, hr ▸ hheld ▸ h.forward, h.apart⟩
  | publishes hr kept => exact ⟨hr ▸ h.ascending, hr ▸ h.numbered, hr ▸ hheld ▸ h.forward, h.apart⟩
  | creates id x ht found before free hr =>
    refine ⟨?_, ?_, ?_, h.apart⟩
    · rw [hr]
      refine h.ascending.add free (Nat.le_refl 1) (fun k hk hlt => by omega) fun y hy => ?_
      rw [before] at hy
      cases hy
    · intro e he id' n hcall
      obtain ⟨hpos, hbelow⟩ := h.numbered e he id' n hcall
      exact ⟨hpos, fun k hk hlt => hr ▸ (hbelow k hk hlt).add ..⟩
    · intro i u hu
      obtain ⟨hin, y, hy, hle⟩ := h.forward i u hu
      refine ⟨hheld ▸ hin, y, ?_, hle⟩
      have hne : u.id ≠ id := by
        rintro rfl
        rw [before] at hy
        cases hy
      rw [hr]
      exact (Function.update_of_ne hne _ _).trans hy

/-- a request holds a row after a call if it has just locked it, or did before and another called -/
theorem holds_cons {i j : Nat} {req : Request} {c : Base.Call Ret} {u : UpdateRequest}
    (h : Holds (⟨i, req, c, ()⟩ :: tr) j u) :
    i = j ∧ c = ⟨.guardedUpdate u, true⟩ ∨ i ≠ j ∧ Holds tr j u := by
  obtain ⟨log, hlog⟩ := h
  rw [logOf_cons] at hlog
  split at hlog
  · rename_i hij
    exact .inl ⟨hij, (List.cons.inj hlog).1⟩
  · rename_i hij
    exact .inr ⟨hij, log, hlog⟩

theorem holds_of_other {i j : Nat} {req : Request} {c : Base.Call Ret} {u : UpdateRequest}
    (hc : ∀ u, c ≠ ⟨.guardedUpdate u, true⟩) (h : Holds (⟨i, req, c, ()⟩ :: tr) j u) :
    i ≠ j ∧ Holds tr j u := by
  rcases holds_cons h with ⟨-, heq⟩ | h
  · exact absurd heq (hc u)
  · exact h

/-- the numbers that were handed out before a call that hands none out -/
theorem numbered_cons {R : Rollouts} {e : Entry Ret Request Unit}
    (h : ∀ e ∈ tr, ∀ id n, e.call = ⟨.nextNumber id, n⟩ →
      1 ≤ n ∧ ∀ k, 1 ≤ k → k < n → R.Numbered id k)
    (hc : ∀ id n, e.call ≠ ⟨.nextNumber id, n⟩) :
    ∀ e' ∈ e :: tr, ∀ id n, e'.call = ⟨.nextNumber id, n⟩ →
      1 ≤ n ∧ ∀ k, 1 ≤ k → k < n → R.Numbered id k := by
  intro e' he id n hcall
  rcases List.mem_cons.mp he with rfl | he
  · exact absurd hcall (hc id n)
  · exact h e' he id n hcall

/-- the guarded `UPDATE` that passes does not take the deployment back -/
def Forward (s : Store) (c : Base.Call Ret) : Prop :=
  ∀ u d, c = ⟨.guardedUpdate u, true⟩ → s.state.deployments.get? u.id = some d →
    d.desiredTemplateId ≤ u.desiredTemplateId

/-- what a request's log holds before its commit -/
def Committing (tr : List (Entry Ret Request Unit)) (i : Nat) (c : Base.Call Ret) : Prop :=
  ∀ c' u y x, c = ⟨.commit c' u y, x⟩ → Holds tr i u ∧ ∃ e ∈ tr, e.call = ⟨.nextNumber u.id, y.number⟩

theorem Upward.of_does {i : Nat} {c : Base.Call Ret} (h : Climbing s tr) (hd : Does cfg s c t)
    (hc : Committing tr i c) : Upward s t := by
  cases hd with
  | reads found => exact .of_eq rfl
  | locks free settled => exact .of_eq rfl
  | rollsBack => exact .of_eq rfl
  | @commits c' u y x written =>
    obtain ⟨-, -, hr⟩ := rollouts_of_commit written
    obtain ⟨-, z, hz, hle⟩ := h.forward i u (hc _ _ _ _ rfl).1
    refine .of_add (t := ⟨x, _, _⟩) hr fun w hw => ?_
    rw [hz] at hw
    exact Option.some.inj hw ▸ hle

theorem Climbing.of_does {i : Nat} {req : Request} {c : Base.Call Ret} (h : Climbing s tr)
    (hd : Does cfg s c t) (hc : Committing tr i c) (hf : Forward s c) :
    Climbing t (⟨i, req, c, ()⟩ :: tr) := by
  cases hd with
  | reads found =>
    have hold : ∀ j u, Holds (⟨i, req, c, ()⟩ :: tr) j u → i ≠ j ∧ Holds tr j u := by
      refine fun j u hj => holds_of_other ?_ hj
      rintro u rfl
      cases found
    refine ⟨h.ascending, ?_, fun j u hj => h.forward j u (hold j u hj).2, ?_⟩
    · intro e he id n hcall
      rcases List.mem_cons.mp he with rfl | he
      · cases hcall
        have found : n = nextReleaseNumber s.state.releases id := found
        subst found
        exact ⟨Nat.succ_pos _, fun k hk hlt => numbered_of_lt_next h.ascending hk hlt⟩
      · exact h.numbered e he id n hcall
    · intro j k u u' hne hj hk
      exact h.apart j k u u' hne (hold j u hj).2 (hold k u' hk).2
  | @locks u free hsettled =>
    have hnew : ∃ x, s.state.rollouts.desired u.id = some x ∧ x ≤ u.desiredTemplateId := by
      obtain ⟨d, hd, -⟩ := (Option.any_eq_true _ _).mp hsettled
      refine ⟨d.desiredTemplateId, ?_, hf u d rfl hd⟩
      show (s.state.deployments.get? u.id).map _ = _
      rw [hd]
      rfl
    refine ⟨h.ascending, numbered_cons h.numbered (fun _ _ heq => nomatch heq), ?_, ?_⟩
    · intro j u' hj
      rcases holds_cons hj with ⟨-, heq⟩ | ⟨-, hj⟩
      · cases heq
        exact ⟨List.mem_cons_self, hnew⟩
      · obtain ⟨hin, hx⟩ := h.forward j u' hj
        exact ⟨List.mem_cons_of_mem _ hin, hx⟩
    · -- another request's row was locked before, and this one was free
      have hother : ∀ j u', Holds tr j u' → u'.id ≠ u.id := by
        intro j u' hj hid
        exact free (hid ▸ (h.forward j u' hj).1)
      intro j k u1 u2 hne hj hk
      rcases holds_cons hj with ⟨rfl, heq⟩ | ⟨hij, hj⟩
      · cases heq
        rcases holds_cons hk with ⟨rfl, -⟩ | ⟨-, hk⟩
        · exact absurd rfl hne
        · exact (hother k u2 hk).symm
      · rcases holds_cons hk with ⟨-, heq⟩ | ⟨-, hk⟩
        · cases heq
          exact hother j u1 hj
        · exact h.apart j k u1 u2 hne hj hk
  | @rollsBack c' u y e =>
    have hold : ∀ j u', Holds (⟨i, req, ⟨.commit c' u y, .error e⟩, ()⟩ :: tr) j u' →
        i ≠ j ∧ Holds tr j u' := by
      refine fun j u' hj => holds_of_other ?_ hj
      intro u hu
      cases hu
    obtain ⟨hi, -⟩ := hc _ _ _ _ rfl
    refine ⟨h.ascending, numbered_cons h.numbered (fun _ _ heq => nomatch heq), ?_, ?_⟩
    · intro j u' hj
      obtain ⟨hne, hj⟩ := hold j u' hj
      obtain ⟨hin, hx⟩ := h.forward j u' hj
      exact ⟨List.mem_filter.mpr ⟨hin, decide_eq_true (h.apart i j u u' hne hi hj).symm⟩, hx⟩
    · intro j k u1 u2 hne hj hk
      exact h.apart j k u1 u2 hne (hold j u1 hj).2 (hold k u2 hk).2
  | @commits c' u y x written =>
    have hold : ∀ j u', Holds (⟨i, req, ⟨.commit c' u y, .ok ()⟩, ()⟩ :: tr) j u' →
        i ≠ j ∧ Holds tr j u' := by
      refine fun j u' hj => holds_of_other ?_ hj
      intro u hu
      cases hu
    obtain ⟨hi, e0, he0, hcall0⟩ := hc _ _ _ _ rfl
    obtain ⟨-, hfree, hr⟩ := rollouts_of_commit written
    obtain ⟨-, z, hz, hle⟩ := h.forward i u hi
    obtain ⟨hpos, hbelow⟩ := h.numbered e0 he0 _ _ hcall0
    refine ⟨?_, ?_, ?_, ?_⟩
    · show x.rollouts.Ascending
      rw [hr]
      refine h.ascending.add hfree hpos hbelow fun w hw => ?_
      rw [hz] at hw
      exact Option.some.inj hw ▸ hle
    · refine numbered_cons (fun e he id n hcall => ?_) fun _ _ heq => nomatch heq
      obtain ⟨hpos', hbelow'⟩ := h.numbered e he id n hcall
      exact ⟨hpos', fun k hk hlt => hr ▸ (hbelow' k hk hlt).add ..⟩
    · intro j u' hj
      obtain ⟨hne, hj⟩ := hold j u' hj
      obtain ⟨hin, w, hw, hle'⟩ := h.forward j u' hj
      have hid := (h.apart i j u u' hne hi hj).symm
      refine ⟨List.mem_filter.mpr ⟨hin, decide_eq_true hid⟩, w, ?_, hle'⟩
      show x.rollouts.desired u'.id = some w
      rw [hr]
      exact (Function.update_of_ne hid _ _).trans hw
    · intro j k u1 u2 hne hj hk
      exact h.apart j k u1 u2 hne (hold j u1 hj).2 (hold k u2 hk).2

end

/-! ## The runs -/

/-- an update of the same deployment, to a newer template, that was committed -/
def overtakes (u : UpdateRequest) : Base.Call Ret → Bool
  | ⟨.commit _ u' _, .ok ()⟩ => u'.id == u.id && decide (u.desiredTemplateId < u'.desiredTemplateId)
  | _ => false

/-- no update to a newer template commits between the read of an update, its first statement, and the
guarded `UPDATE` that lets it through -/
def NotOvertaken (p : UpdatePool) (ev : UpdateEvent) : Prop :=
  ∀ i req u k, ev = .run i () → p.threads[i]? = some ⟨req, .call (.guardedUpdate u) k⟩ →
    settled p.store.state u.id = true →
    ∀ e ∈ since i ((logOf i p.trace).length - 1) p.trace, overtakes u e.call = false

/-- no guarded `UPDATE` passes where it would take the deployment back -/
def PassesForward (p : UpdatePool) (ev : UpdateEvent) : Prop :=
  ∀ i req u k d, ev = .run i () → p.threads[i]? = some ⟨req, .call (.guardedUpdate u) k⟩ →
    settled p.store.state u.id = true → p.store.state.deployments.get? u.id = some d →
    d.desiredTemplateId ≤ u.desiredTemplateId

/-- the deployment's template is not newer than the update's -/
def Behind (u : UpdateRequest) (s : Store) : Prop :=
  ∃ x, s.state.rollouts.desired u.id = some x ∧ x ≤ u.desiredTemplateId

section
variable {cfg : Settings} {s t : Store} {u : UpdateRequest}

theorem Behind.of_rolls (h : Behind u s) (hr : Rolls s t) : Behind u t := by
  obtain ⟨y, hy, hle⟩ := h
  cases hr with
  | nothing ht hr => exact ⟨y, hr ▸ hy, hle⟩
  | publishes hr kept => exact ⟨y, hr ▸ hy, hle⟩
  | creates id x ht found before free hr =>
    refine ⟨y, ?_, hle⟩
    have hne : u.id ≠ id := by
      intro heq
      rw [heq, before] at hy
      cases hy
    rw [hr]
    exact (Function.update_of_ne hne _ _).trans hy

theorem Behind.of_does {c : Base.Call Ret} (h : Behind u s) (hd : Does cfg s c t)
    (hc : overtakes u c = false) : Behind u t := by
  cases hd with
  | reads found => exact h
  | locks free settled => exact h
  | rollsBack => exact h
  | @commits c' u' y x written =>
    obtain ⟨-, -, hr⟩ := rollouts_of_commit written
    obtain ⟨z, hz, hle⟩ := h
    unfold Behind
    rw [show ({ unlocked s u'.id with state := x } : Store).state = x from rfl, hr]
    by_cases hid : u.id = u'.id
    · refine ⟨u'.desiredTemplateId, hid ▸ Function.update_self .., ?_⟩
      simpa [overtakes, hid] using hc
    · exact ⟨z, (Function.update_of_ne hid _ _).trans hz, hle⟩

end

section
variable {cfg : Settings} {ok : UpdatePool → UpdateEvent → Prop} {p q : UpdatePool}

/-- what is so of every reachable state, and of every call -/
structure Known (cfg : Settings) (ok : UpdatePool → UpdateEvent → Prop) (p : UpdatePool) : Prop where
  grounded : Grounded (service cfg) p
  catalogued : Catalogued p.store p.trace
  found : ∀ e older, e :: older <:+ p.trace → TemplateFound older e
  climbing : (∀ p ev, ok p ev → PassesForward p ev) → Climbing p.store p.trace

theorem catalogued_init : Catalogued .init [] where
  found := fun _ _ h => nomatch h
  seen := fun _ h => nomatch h
  loaded := fun _ h => nomatch h

theorem climbing_init : Climbing .init [] where
  ascending := ascending_init
  numbered := fun _ h => nomatch h
  forward := fun _ _ h => nomatch h.choose_spec
  apart := fun _ _ _ _ _ h => nomatch h.choose_spec

/-- a commit that the request's contract allows has its row and its number -/
theorem committing_of_called {s : Store} {tr : List (Entry Ret Request Unit)}
    (hc : Catalogued s tr) (hf : ∀ e older, e :: older <:+ tr → TemplateFound older e) {i : Nat}
    {req : Request} {o : Op} {x : Ret o} (hcall : (contract req).call (logOf i tr) o) :
    Committing tr i ⟨o, x⟩ := by
  intro c' u y b heq
  cases heq
  obtain ⟨-, hlog, d, hd, hn⟩ := hcall
  obtain ⟨e, older, he, -, hcall⟩ := entry_of_mem_logOf hn
  rw [(product_of_checked hc hf hd).1] at hcall
  exact ⟨hlog, e, mem_of_cons_suffix he, hcall⟩

/-- the call of a step that the condition allows is a forward one -/
theorem forward_of_step {i : Nat} {req : Request} {o : Op} {k : Ret o → Handler (Except Refusal Unit)}
    {x : Ret o} {s : Store} (hok : PassesForward p (.run i ()))
    (hth : p.threads[i]? = some ⟨req, .call o k⟩) (hd : Does cfg p.store ⟨o, x⟩ s) :
    Forward p.store ⟨o, x⟩ := by
  intro u d heq hrow
  cases heq
  cases hd with
  | reads found => cases found
  | locks free hsettled => exact hok i req u k d rfl hth hsettled hrow

theorem known_of_reach (h : (service cfg).machine.Reach ok (Service.start .init) p) :
    Known cfg ok p := by
  have hist : Grounded (service cfg) p ∧ (Catalogued p.store p.trace ∧
      ((∀ p ev, ok p ev → PassesForward p ev) → Climbing p.store p.trace)) ∧
      ∀ e older, e :: older <:+ p.trace → TemplateFound older e := by
    refine Machine.Reach.history (I := fun s tr => Catalogued s tr ∧
      ((∀ p ev, ok p ev → PassesForward p ev) → Climbing s tr)) meets_handler ?_ ?_ ?_ h
    · exact ⟨catalogued_init, fun _ => climbing_init⟩
    · rintro p w s - ⟨hc, hcl⟩ hw
      obtain ⟨hheld, hr⟩ := rolls_of_change hw
      exact ⟨hc.of_rolls hr, fun hall => (hcl hall).of_rolls hheld hr⟩
    · rintro p i ⟨⟩ req o k x s hok - ⟨hc, hcl⟩ hf hth hcall hp
      have hd := does_of_perform hp
      refine ⟨⟨hc.of_does hd (checked_of_called hc hf hcall), fun hall => ?_⟩, templateFound hc hd⟩
      exact (hcl hall).of_does hd (committing_of_called hc hf hcall)
        (forward_of_step (hall _ _ hok) hth hd)
  obtain ⟨hg, ⟨hc, hcl⟩, hf⟩ := hist
  exact ⟨hg, hc, hf, hcl⟩

/-- **what a run keeps** -/
theorem along_of_reach (h : (service cfg).machine.Reach ok (Service.start .init) p)
    (h' : (service cfg).machine.Reach ok p q) :
    Along p.store q.store ∧ ((∀ p ev, ok p ev → PassesForward p ev) → Upward p.store q.store) := by
  refine h'.along (P := (service cfg).machine.Reach ok (Service.start .init))
    (R := fun p q => Along p.store q.store ∧
      ((∀ p ev, ok p ev → PassesForward p ev) → Upward p.store q.store)) h
    (fun _ _ _ hr hok hs => hr.tail hok hs) ⟨.refl _, fun _ => .of_eq rfl⟩ ?_
  rintro r ev r' hr ⟨ha, hu⟩ hok hs
  have hk := known_of_reach hr
  have hstep : Along r.store r'.store ∧
      ((∀ p ev, ok p ev → PassesForward p ev) → Upward r.store r'.store) := by
    obtain ⟨req, rfl, rfl⟩ | ⟨i, ⟨⟩, req, o, k, x, s, rfl, hth, hp, rfl⟩ | ⟨w, s, rfl, hw, rfl⟩ :=
      step_cases hs
    · exact ⟨.refl _, fun _ => .of_eq rfl⟩
    · have hd := does_of_perform hp
      have hcall := hk.grounded.next meets_handler hth
      refine ⟨.of_does hd (checked_of_called hk.catalogued hk.found hcall), fun hall => ?_⟩
      exact .of_does (hk.climbing hall) hd (committing_of_called hk.catalogued hk.found hcall)
    · obtain ⟨-, hrolls⟩ := rolls_of_change hw
      exact ⟨.of_rolls hrolls, fun _ => .of_rolls hrolls⟩
  refine ⟨ha.trans hstep.1, fun hall id x hx => ?_⟩
  obtain ⟨y, hy, hxy⟩ := hu hall id x hx
  obtain ⟨z, hz, hyz⟩ := hstep.2 hall id y hy
  exact ⟨z, hz, Nat.le_trans hxy hyz⟩

end

/-- a deployment's template never goes back, and the templates of its releases climb with their
numbers -/
structure OnlyForward (p q : UpdatePool) : Prop where
  desired : ∀ id d, p.store.state.deployments.get? id = some d →
    ∃ d', q.store.state.deployments.get? id = some d' ∧ d.desiredTemplateId ≤ d'.desiredTemplateId
  releases : ∀ r ∈ q.store.state.releases.rows, ∀ r' ∈ q.store.state.releases.rows,
    r.deploymentId = r'.deploymentId → r.number ≤ r'.number → r.templateId ≤ r'.templateId

/-- it stays within one product -/
def OneProduct (p q : UpdatePool) : Prop :=
  ∀ id d, p.store.state.deployments.get? id = some d →
    ∃ d' x y, q.store.state.deployments.get? id = some d' ∧
      p.store.templates d.desiredTemplateId = some x ∧
      q.store.templates d'.desiredTemplateId = some y ∧ x.productId = y.productId

theorem desired_eq_some {s : State} {id : DeploymentId} {x : TemplateId}
    (h : s.rollouts.desired id = some x) :
    ∃ d, s.deployments.get? id = some d ∧ d.desiredTemplateId = x := Option.map_eq_some_iff.mp h

section
variable {cfg : Settings} {ok : UpdatePool → UpdateEvent → Prop} {p q : UpdatePool}

theorem onlyForward (h : (service cfg).machine.Reach ok (Service.start .init) p)
    (h' : (service cfg).machine.Reach ok p q) (hall : ∀ p ev, ok p ev → PassesForward p ev) :
    OnlyForward p q := by
  constructor
  · intro id d hd
    have hx : p.store.state.rollouts.desired id = some d.desiredTemplateId :=
      congrArg (Option.map Deployment.desiredTemplateId) hd
    obtain ⟨y, hy, hle⟩ := (along_of_reach h h').2 hall id _ hx
    obtain ⟨d', hd', rfl⟩ := desired_eq_some hy
    exact ⟨d', hd', hle⟩
  · intro r hr r' hr' hid hle
    have hclimbs := ((known_of_reach (h.trans h')).climbing hall).ascending.climbs
    exact hclimbs _ _ _ _ _ (mem_rollouts hr) (hid ▸ mem_rollouts hr') hle

/-- **an update that is not overtaken passes forward**: what it compared with still stands, or a
template that is no newer than its own -/
theorem passesForward (h : (service cfg).machine.Reach ok (Service.start .init) p) {ev : UpdateEvent}
    (hev : NotOvertaken p ev) : PassesForward p ev := by
  intro i req u k d hrun hth hsettled hd
  obtain ⟨-, pre, d₀, hlog, hle⟩ := (h.grounded (Grounded.start _)).next meets_handler hth
  have hpre : (logOf i p.trace).length - 1 = pre.length := by
    rw [hlog, List.length_append, List.length_singleton, Nat.add_sub_cancel]
  have hbehind : Behind u p.store := by
    refine h.kept_since (P := Behind u) hlog ?_ ?_ ?_
    · rintro r ⟨⟩ s - hp
      have hd : Does cfg r.store ⟨.deployment u.userId u.id, .ok d₀⟩ s := does_of_perform hp
      cases hd with
      | reads found =>
        exact ⟨d₀.desiredTemplateId, congrArg (Option.map Deployment.desiredTemplateId) found, hle⟩
    · rintro r w s - - hb hw
      exact hb.of_rolls (rolls_of_change hw).2
    · rintro r j ⟨⟩ req' o k' x s - he - - hp hb
      exact hb.of_does (does_of_perform hp) (hev i req u k hrun hth hsettled _ (hpre ▸ he))
  obtain ⟨x, hx, hxu⟩ := hbehind
  obtain ⟨d', hd', rfl⟩ := desired_eq_some hx
  rw [hd] at hd'
  exact Option.some.inj hd' ▸ hxu

end

/-- **a deployment stays within its product, whatever the order of the statements; and where no
update is overtaken by one to a newer template, templates only move forward** -/
theorem templates_forward (cfg : Settings) {ok : UpdatePool → UpdateEvent → Prop} {p q : UpdatePool}
    (h : (service cfg).machine.Reach ok (Service.start .init) p)
    (h' : (service cfg).machine.Reach ok p q) :
    OneProduct p q ∧ ((∀ p ev, ok p ev → NotOvertaken p ev) → OnlyForward p q) := by
  obtain ⟨ha, -⟩ := along_of_reach h h'
  refine ⟨fun id d hd => ?_, fun hall => ?_⟩
  · have hx : p.store.state.rollouts.desired id = some d.desiredTemplateId :=
      congrArg (Option.map Deployment.desiredTemplateId) hd
    obtain ⟨y, hy, hp⟩ := ha.desired id _ hx
    obtain ⟨d', hd', rfl⟩ := desired_eq_some hy
    obtain ⟨n, hn⟩ := Option.ne_none_iff_exists'.mp ((known_of_reach h).catalogued.found id _ hx)
    obtain ⟨x, hx, hxn⟩ := Option.map_eq_some_iff.mp hn
    obtain ⟨y, hy, hyn⟩ := Option.map_eq_some_iff.mp (hp n hn)
    exact ⟨d', x, y, hd', hx, hy, hxn.trans hyn.symm⟩
  · -- every step of the run passes forward, as it starts in a state of the run
    have hforward : ∀ {p q}, (service cfg).machine.Reach ok (Service.start .init) p →
        (service cfg).machine.Reach ok p q → (service cfg).machine.Reach PassesForward p q :=
      fun h h' => h'.strengthen h (fun _ _ _ hr hok hs => hr.tail hok hs)
        fun _ _ hr hok => passesForward hr (hall _ _ hok)
    exact onlyForward (hforward .refl h) (hforward h h') fun _ _ h => h

/-! ## Updates to run -/

namespace Sample

/-- templates 1, 2 and 3 of one product, and a deployment of the first -/
def ready : List UpdateEvent :=
  ([1, 2, 3].map fun x => .world (.template x ⟨1, true, .null, .null⟩)) ++
    (.create .sample (.sample .null none) :: Action.turn "w1" .clean).map fun a =>
      .world (.platform a)

def update (x : TemplateId) (release : ReleaseId) : UpdateEvent :=
  .arrive ⟨.sample, { UpdateRequest.sample none release with desiredTemplateId := x }⟩

/-- the next `n` statements of request `i` -/
def runs (i n : Nat) : List UpdateEvent := List.replicate n (.run i ())

def reconcile : List UpdateEvent := (Action.turn "w1" .clean).map fun a => .world (.platform a)

def rolledOut (p : UpdatePool) : List (DeploymentId × Nat × TemplateId) :=
  p.store.state.releases.rows.map DeploymentRelease.rollout

def notOvertaken (p : UpdatePool) : UpdateEvent → Bool
  | .run i () =>
    match p.threads[i]? with
    | some ⟨_, .call (.guardedUpdate u) _⟩ =>
      (since i ((logOf i p.trace).length - 1) p.trace).all fun e => !overtakes u e.call
    | _ => true
  | _ => true

end Sample

theorem Sample.not_overtaken {p : UpdatePool} {ev : UpdateEvent}
    (h : Sample.notOvertaken p ev = true) : NotOvertaken p ev := by
  rintro i req u k rfl hth - e he
  simp only [Sample.notOvertaken, hth, List.all_eq_true] at h
  exact Bool.not_eq_true' _ ▸ h e he

/-- the older of two updates is read first and commits last, to a template that is not older -/
theorem templates_forward_raced : ∃ q,
    (service .sample).machine.Reach NotOvertaken (Service.start .init) q ∧
      Sample.rolledOut q = [(1, 1, 1), (1, 2, 2), (1, 3, 3)] ∧
      OneProduct (Service.start .init) q ∧ OnlyForward (Service.start .init) q := by
  obtain ⟨q, h, -, hq⟩ := Machine.exists_reach_of_runIf (M := (service .sample).machine)
    (k := NotOvertaken) (P := fun _ => True) (c := Sample.notOvertaken)
    (fun _ _ _ _ _ _ => trivial) (fun _ _ _ h => Sample.not_overtaken h) trivial
    (l := Sample.ready ++ Sample.update 3 2 :: Sample.update 2 3 :: Sample.runs 0 7 ++
      Sample.runs 1 10 ++ Sample.reconcile ++ Sample.runs 0 3)
    (p := fun q => decide (Sample.rolledOut q = [(1, 1, 1), (1, 2, 2), (1, 3, 3)]))
    (s := Service.start .init) (by decide +kernel)
  obtain ⟨hproduct, hforward⟩ := templates_forward .sample .refl h
  exact ⟨q, h, of_decide_eq_true hq, hproduct, hforward fun _ _ h => h⟩

/-- an update to template 2 is checked against template 1, a second one rolls out template 3, and the
first passes its guard afterwards: the third release goes back to template 2 -/
theorem template_taken_back : ¬ ∀ (cfg : Settings) (p q : UpdatePool),
    (service cfg).machine.Reach (fun _ _ => True) (Service.start .init) p →
    (service cfg).machine.Reach (fun _ _ => True) p q → OneProduct p q ∧ OnlyForward p q := by
  intro hall
  obtain ⟨q, h, hq⟩ := Machine.exists_reach_of_run (M := (service .sample).machine)
    (l := Sample.ready ++ Sample.update 2 2 :: Sample.update 3 3 :: Sample.runs 0 7 ++
      Sample.runs 1 10 ++ Sample.reconcile ++ Sample.runs 0 3)
    (p := fun q => decide (Sample.rolledOut q = [(1, 1, 1), (1, 2, 3), (1, 3, 2)]))
    (s := Service.start .init) (by decide +kernel)
  have hq : Sample.rolledOut q = [(1, 1, 1), (1, 2, 3), (1, 3, 2)] := of_decide_eq_true hq
  have hmem : ∀ x ∈ [(1, 1, 1), (1, 2, 3), (1, 3, 2)],
      ∃ r ∈ q.store.state.releases.rows, r.rollout = x := by
    intro x hx
    rw [← hq] at hx
    exact List.mem_map.mp hx
  obtain ⟨r, hr, hrx⟩ := hmem (1, 2, 3) (by decide)
  obtain ⟨r', hr', hrx'⟩ := hmem (1, 3, 2) (by decide)
  simp only [DeploymentRelease.rollout, Prod.mk.injEq] at hrx hrx'
  obtain ⟨hid, hn, hx⟩ := hrx
  obtain ⟨hid', hn', hx'⟩ := hrx'
  have hle := (hall .sample _ q .refl h).2.releases r hr r' hr' (hid.trans hid'.symm)
    (by rw [hn, hn']; decide)
  rw [hx, hx'] at hle
  exact absurd hle (by decide)

end Freepod.Updates
