import Mathlib.Data.List.Forall2
import Mathlib.Tactic.TypeStar

/-!
# Requests that refuse

A request is a computation in `Except ε`: `require` refuses unless a condition holds and `found`
refuses on a missing value.  The lemmas `bind_eq_ok`, `require_eq_ok` and `found_eq_ok` take an
accepted request apart into the conditions it passed and the values it read; `foldlM_ok` is the
induction rule of a loop of requests, and `mapM_eq_ok` says what a loop that answers each item is.
-/

namespace Freepod.Base

universe u

variable {ε : Type*} {α β : Type u}

/-- refuse with `e` unless `p` -/
def require (p : Prop) [Decidable p] (e : ε) : Except ε Unit :=
  if p then .ok () else .error e

/-- the value, refused with `e` when there is none -/
def found (o : Option α) (e : ε) : Except ε α :=
  match o with
  | some a => .ok a
  | none => .error e

/-- **an accepted sequence accepted each of its parts** -/
theorem bind_eq_ok {x : Except ε α} {f : α → Except ε β} {b : β} :
    x >>= f = .ok b ↔ ∃ a, x = .ok a ∧ f a = .ok b := by
  cases x with
  | error e =>
    constructor
    · intro h
      cases h
    · rintro ⟨a, h, -⟩
      cases h
  | ok a =>
    constructor
    · intro h
      exact ⟨a, rfl, h⟩
    · rintro ⟨a', h, h'⟩
      cases h
      exact h'

theorem require_eq_ok {p : Prop} [Decidable p] {e : ε} {u : Unit} :
    require p e = .ok u ↔ p := by
  unfold require
  split
  · exact ⟨fun _ => ‹p›, fun _ => rfl⟩
  · constructor
    · intro h
      cases h
    · intro h
      contradiction

theorem found_eq_ok {o : Option α} {e : ε} {a : α} : found o e = .ok a ↔ o = some a := by
  cases o with
  | none => simp [found]
  | some b => simp [found]

theorem pure_eq_ok {a b : α} : (pure a : Except ε α) = .ok b ↔ a = b := by
  show Except.ok a = .ok b ↔ a = b
  simp

theorem toOption_eq_some {x : Except ε α} {a : α} : x.toOption = some a ↔ x = .ok a := by
  cases x with
  | error e => simp [Except.toOption]
  | ok b => simp [Except.toOption]

/-- what every accepted step of a loop keeps, by the item it is about, holds of an accepted loop -/
theorem foldlM_ok_mem {P : α → Prop} {γ : Type*} {f : α → γ → Except ε α} {l : List γ} {a a' : α}
    (hstep : ∀ a c a', c ∈ l → P a → f a c = .ok a' → P a') (h0 : P a)
    (h : l.foldlM f a = .ok a') : P a' := by
  induction l generalizing a with
  | nil =>
    cases h
    exact h0
  | cons c l ih =>
    rw [List.foldlM_cons, bind_eq_ok] at h
    obtain ⟨b, hb, h⟩ := h
    have hP : P b := hstep a c b List.mem_cons_self h0 hb
    exact ih (fun a x a' hx => hstep a x a' (List.mem_cons_of_mem _ hx)) hP h

/-- what every accepted step of a loop keeps holds of an accepted loop -/
theorem foldlM_ok {P : α → Prop} {γ : Type*} {f : α → γ → Except ε α}
    (hstep : ∀ a c a', P a → f a c = .ok a' → P a') {l : List γ} {a a' : α} (h0 : P a)
    (h : l.foldlM f a = .ok a') : P a' :=
  foldlM_ok_mem (fun a c a' _ hP hf => hstep a c a' hP hf) h0 h

/-- every item of an accepted loop was accepted in its turn -/
theorem foldlM_each {γ : Type*} {f : α → γ → Except ε α} {l : List γ} {a a' : α}
    (h : l.foldlM f a = .ok a') {c : γ} (hc : c ∈ l) : ∃ b b', f b c = .ok b' := by
  induction l generalizing a with
  | nil => cases hc
  | cons x l ih =>
    rw [List.foldlM_cons, bind_eq_ok] at h
    obtain ⟨b, hb, h⟩ := h
    rcases List.mem_cons.mp hc with rfl | hc
    · exact ⟨a, b, hb⟩
    · exact ih h hc

/-- a loop whose items all leave the state as it is -/
theorem foldlM_same {γ : Type*} {f : α → γ → Except ε α} {l : List γ} {a : α}
    (h : ∀ c ∈ l, f a c = .ok a) : l.foldlM f a = .ok a := by
  induction l with
  | nil => rfl
  | cons x l ih =>
    rw [List.foldlM_cons, h x List.mem_cons_self]
    exact ih fun c hc => h c (List.mem_cons_of_mem _ hc)

/-- **a list is accepted item by item** -/
theorem mapM_eq_ok {γ : Type u} {f : γ → Except ε α} {l : List γ} {l' : List α} :
    l.mapM f = .ok l' ↔ List.Forall₂ (fun c a => f c = .ok a) l l' := by
  induction l generalizing l' with
  | nil =>
    rw [List.mapM_nil, pure_eq_ok, List.forall₂_nil_left_iff]
    exact eq_comm
  | cons c l ih =>
    rw [List.mapM_cons, bind_eq_ok, List.forall₂_cons_left_iff]
    constructor
    · rintro ⟨a, ha, h⟩
      obtain ⟨as, has, h⟩ := bind_eq_ok.mp h
      exact ⟨a, as, ha, ih.mp has, (pure_eq_ok.mp h).symm⟩
    · rintro ⟨a, as, ha, has, rfl⟩
      exact ⟨a, ha, bind_eq_ok.mpr ⟨as, ih.mpr has, pure_eq_ok.mpr rfl⟩⟩

end Freepod.Base
