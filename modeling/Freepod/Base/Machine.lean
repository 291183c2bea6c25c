import Mathlib.Logic.Relation

/-!
# Machines and their runs

A machine takes a step on an action or refuses it.  `Machine.Reach ok s t` relates `s` to the
states reached from it by steps that all meet `ok`, a condition on the state before the step and
the action:

* `Reach.invariant` is the induction rule: what holds at the start and is kept by every step that
  meets the condition holds at the end.
* `Reach.along` is the same rule for a relation between the start and the end of a run.
* `exists_reach_of_run` and `exists_reach_of_runIf` turn the evaluation of a concrete list of
  actions into a run.
-/

namespace Freepod.Base

/-- a deterministic step on each action; `none` when the action is refused or not enabled -/
structure Machine (σ α : Type*) where
  step : σ → α → Option σ

namespace Machine

variable {σ α : Type*} (M : Machine σ α)

/-- one step that meets `ok` -/
def Next (ok : σ → α → Prop) (s t : σ) : Prop :=
  ∃ a, ok s a ∧ M.step s a = some t

/-- a run of steps that all meet `ok` -/
def Reach (ok : σ → α → Prop) : σ → σ → Prop :=
  Relation.ReflTransGen (M.Next ok)

/-- the state after a list of actions, none of which is refused -/
def run (s : σ) : List α → Option σ
  | [] => some s
  | a :: as => (M.step s a).bind fun t => run t as

/-- the state after a list of actions that all pass a check and are not refused -/
def runIf (check : σ → α → Bool) (s : σ) : List α → Option σ
  | [] => some s
  | a :: as => if check s a = true then (M.step s a).bind fun t => runIf check t as else none

variable {M} {ok ok' : σ → α → Prop} {s t u : σ}

theorem Reach.refl : M.Reach ok s s := Relation.ReflTransGen.refl

theorem Reach.trans (h : M.Reach ok s t) (h' : M.Reach ok t u) : M.Reach ok s u :=
  Relation.ReflTransGen.trans h h'

theorem Reach.tail {a : α} (h : M.Reach ok s t) (ha : ok t a) (hs : M.step t a = some u) :
    M.Reach ok s u :=
  Relation.ReflTransGen.tail h ⟨a, ha, hs⟩

/-- **the invariant rule** -/
theorem Reach.invariant {P : σ → Prop} (h : M.Reach ok s t) (h0 : P s)
    (hstep : ∀ s a t, P s → ok s a → M.step s a = some t → P t) : P t := by
  induction h with
  | refl => exact h0
  | tail _ hn ih =>
    obtain ⟨a, ha, hs⟩ := hn
    exact hstep _ a _ ih ha hs

/-- a reflexive relation that every step extends relates the two ends of a run, where the steps
start in states that satisfy an invariant -/
theorem Reach.along {P : σ → Prop} {R : σ → σ → Prop} (h : M.Reach ok s t) (h0 : P s)
    (hstep : ∀ s a t, P s → ok s a → M.step s a = some t → P t) (hr : R s s)
    (hR : ∀ t a u, P t → R s t → ok t a → M.step t a = some u → R s u) : R s t := by
  have : P t ∧ R s t := by
    refine h.invariant (P := fun t => P t ∧ R s t) ⟨h0, hr⟩ ?_
    rintro t a u ⟨hp, hr⟩ ha hs
    exact ⟨hstep t a u hp ha hs, hR t a u hp hr ha hs⟩
  exact this.2

/-- a run under a condition is a run under every weaker one -/
theorem Reach.mono (h : M.Reach ok s t) (hok : ∀ s a, ok s a → ok' s a) : M.Reach ok' s t :=
  h.along (P := fun _ => True) trivial (fun _ _ _ _ _ _ => trivial) .refl
    fun t a _ _ hr ha hs => hr.tail (hok t a ha) hs

/-- along a run from a state with the invariant `P`, a condition implied by `P` and `ok` may be
assumed of every step -/
theorem Reach.strengthen {P : σ → Prop} (h : M.Reach ok s t) (h0 : P s)
    (hstep : ∀ s a t, P s → ok s a → M.step s a = some t → P t)
    (hok : ∀ s a, P s → ok s a → ok' s a) : M.Reach ok' s t := by
  refine h.along (P := P) (R := M.Reach ok') h0 hstep .refl ?_
  intro t a u hp hr ha hs
  exact hr.tail (hok t a hp ha) hs

/-- each step of a run starts in a state of the run -/
theorem Reach.reached (h : M.Reach ok s t) : M.Reach (fun u a => ok u a ∧ M.Reach ok s u) s t :=
  h.strengthen (P := M.Reach ok s) .refl (fun _ _ _ hr ha hs => hr.tail ha hs)
    fun _ _ hr ha => ⟨ha, hr⟩

theorem reach_of_run {as : List α} (h : M.run s as = some t) :
    M.Reach (fun _ _ => True) s t := by
  induction as generalizing s with
  | nil =>
    cases h
    exact .refl
  | cons a as ih =>
    obtain ⟨u, hu, ht⟩ := Option.bind_eq_some_iff.mp h
    exact Reach.trans (Reach.tail .refl trivial hu) (ih ht)

/-- what evaluates to true of the end of a list of actions is so in a reachable state -/
theorem exists_reach_of_run {l : List α} {p : σ → Bool} (h : (M.run s l).any p = true) :
    ∃ t, M.Reach (fun _ _ => True) s t ∧ p t = true := by
  obtain ⟨t, ht, hp⟩ := (Option.any_eq_true _ _).mp h
  exact ⟨t, reach_of_run ht, hp⟩

/-- the same for a run under a condition, by a check that decides it where `P` holds -/
theorem exists_reach_of_runIf {P : σ → Prop} {k : σ → α → Prop} {c : σ → α → Bool}
    (hstep : ∀ s a t, P s → c s a = true → M.step s a = some t → P t)
    (hok : ∀ s a, P s → c s a = true → k s a) {l : List α} {p : σ → Bool} (h0 : P s)
    (h : (M.runIf c s l).any p = true) : ∃ t, M.Reach k s t ∧ P t ∧ p t = true := by
  induction l generalizing s with
  | nil => exact ⟨s, .refl, h0, h⟩
  | cons a l ih =>
    simp only [runIf] at h
    split at h
    · rename_i hc
      obtain ⟨t, ht, hp⟩ := (Option.any_eq_true _ _).mp h
      obtain ⟨u, hu, ht⟩ := Option.bind_eq_some_iff.mp ht
      have hany : (M.runIf c u l).any p = true := (Option.any_eq_true _ _).mpr ⟨t, ht, hp⟩
      obtain ⟨t, hr, hP, hp⟩ := ih (hstep s a u h0 hc hu) hany
      exact ⟨t, Reach.trans (Reach.tail .refl (hok s a h0 hc) hu) hr, hP, hp⟩
    · cases h

end Machine

end Freepod.Base
