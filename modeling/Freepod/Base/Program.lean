import Mathlib.Data.List.Infix

/-!
# Programs that call a shared store

A `Prog` is a handler cut into the calls it makes.  Between two calls anything may happen to the
store, so all that a handler knows is the answers to its own calls: its *log*, newest first.

* `Contract`: which call a log allows next, and which answer it allows in the end.
* `Meets C Q log p`: after `log`, `p` keeps the contract whatever its calls answer, and where it
  returns a value rather than answering, `Q` holds of the log and the value.
* `Meets.seq`, `Meets.ask`, `Meets.mono`, `meets_attempt`: the rules that compose them.
* `Path`, `Path.meets`, `Path.called`: a handler that keeps its contract keeps it at every point of
  every path through it.
-/

namespace Freepod.Base

variable {Op : Type} {Ret : Op → Type} {ρ α β γ : Type}

/-- a program that returns a value, ends with an answer, or makes a call and goes on -/
inductive Prog (Ret : Op → Type) (ρ α : Type) : Type where
  | pure (a : α)
  | exit (r : ρ)
  | call (o : Op) (k : Ret o → Prog Ret ρ α)

/-- a call and what it answered -/
abbrev Call (Ret : Op → Type) := (o : Op) × Ret o

/-- the calls made so far, newest first -/
abbrev Log (Ret : Op → Type) := List (Call Ret)

namespace Prog

def bind (p : Prog Ret ρ α) (f : α → Prog Ret ρ β) : Prog Ret ρ β :=
  match p with
  | .pure a => f a
  | .exit r => .exit r
  | .call o k => .call o fun x => (k x).bind f

instance : Monad (Prog Ret ρ) where
  pure := .pure
  bind := .bind

/-- run a program to its end, and go on with what it returned or with the exception it ended in -/
def attempt {ε : Type} : Prog Ret ε α → Prog Ret ρ (Except ε α)
  | .pure a => .pure (.ok a)
  | .exit e => .pure (.error e)
  | .call o k => .call o fun x => (k x).attempt

/-- the answer of a program that has ended -/
def answer? : Prog Ret ρ ρ → Option ρ
  | .pure r => some r
  | .exit r => some r
  | .call _ _ => none

end Prog

/-- make one call -/
def ask (o : Op) : Prog Ret ρ (Ret o) := .call o .pure

/-- what a program may do, given its log -/
structure Contract (Ret : Op → Type) (ρ : Type) where
  call : Log Ret → Op → Prop
  answer : Log Ret → ρ → Prop

/-- `p` keeps the contract from `log` on, and `Q` holds of what it returns -/
def Meets (C : Contract Ret ρ) (Q : Log Ret → α → Prop) : Log Ret → Prog Ret ρ α → Prop
  | log, .pure a => Q log a
  | log, .exit r => C.answer log r
  | log, .call o k => C.call log o ∧ ∀ x, Meets C Q (⟨o, x⟩ :: log) (k x)

variable {C : Contract Ret ρ} {Q Q' : Log Ret → α → Prop} {log : Log Ret}

@[simp] theorem meets_pure (a : α) : Meets C Q log (pure a) ↔ Q log a := Iff.rfl

@[simp] theorem meets_exit (r : ρ) :
    Meets C Q log (.exit r : Prog Ret ρ α) ↔ C.answer log r := Iff.rfl

@[simp] theorem meets_ask {o : Op} {Q : Log Ret → Ret o → Prop} :
    Meets C Q log (ask o) ↔ C.call log o ∧ ∀ x, Q (⟨o, x⟩ :: log) x := Iff.rfl

/-- **the rule for a sequence** -/
@[simp] theorem meets_bind {Q : Log Ret → β → Prop} (p : Prog Ret ρ α) (f : α → Prog Ret ρ β) :
    Meets C Q log (p >>= f) ↔ Meets C (fun l a => Meets C Q l (f a)) log p := by
  induction p generalizing log with
  | pure a => exact Iff.rfl
  | exit r => exact Iff.rfl
  | call o k ih =>
    show (_ ∧ ∀ x, Meets C Q _ (k x >>= f)) ↔ (_ ∧ _)
    simp only [ih]

/-- **the rule of consequence**; what was in the log stays in it -/
theorem Meets.mono {p : Prog Ret ρ α} (h : Meets C Q log p)
    (hQ : ∀ l a, log <:+ l → Q l a → Q' l a) : Meets C Q' log p := by
  induction p generalizing log with
  | pure a => exact hQ log a (List.suffix_refl log) h
  | exit r => exact h
  | call o k ih =>
    refine ⟨h.1, fun x => ih x (h.2 x) ?_⟩
    intro l a hl hq
    exact hQ l a ((List.suffix_cons _ _).trans hl) hq

/-- the sequence rule, with what is known of the first part -/
theorem Meets.seq {R : Log Ret → α → Prop} {Q : Log Ret → β → Prop} {p : Prog Ret ρ α}
    {f : α → Prog Ret ρ β} (h : Meets C R log p)
    (hf : ∀ l a, log <:+ l → R l a → Meets C Q l (f a)) : Meets C Q log (p >>= f) :=
  (meets_bind p f).mpr (h.mono hf)

/-- the sequence rule for one call -/
theorem Meets.ask {o : Op} {Q : Log Ret → β → Prop} {f : Ret o → Prog Ret ρ β}
    (h : C.call log o) (hf : ∀ x, Meets C Q (⟨o, x⟩ :: log) (f x)) :
    Meets C Q log (ask o >>= f) := ⟨h, hf⟩

/-- **the rule for an exception that is caught** -/
theorem meets_attempt {ε : Type} {Q : Log Ret → Except ε α → Prop}
    (p : Prog Ret ε α) : Meets C Q log p.attempt ↔
      Meets ⟨C.call, fun l e => Q l (.error e)⟩ (fun l a => Q l (.ok a)) log p := by
  induction p generalizing log with
  | pure a => exact Iff.rfl
  | exit e => exact Iff.rfl
  | call o k ih =>
    show (_ ∧ ∀ x, Meets C Q _ (k x).attempt) ↔ (_ ∧ _)
    simp only [ih]

/-- the call was made and answered so -/
def Made (log : Log Ret) (o : Op) (x : Ret o) : Prop := (⟨o, x⟩ : Call Ret) ∈ log

theorem Made.mono {log l : Log Ret} {o : Op} {x : Ret o} (h : Made log o x) (hl : log <:+ l) :
    Made l o x := hl.subset h

theorem made_head (log : Log Ret) (o : Op) (x : Ret o) : Made (⟨o, x⟩ :: log) o x :=
  List.mem_cons_self

theorem Made.cons {log : Log Ret} {o : Op} {x : Ret o} (h : Made log o x) (c : Call Ret) :
    Made (c :: log) o x := List.mem_cons_of_mem c h

/-! ## The paths through a program -/

/-- `p` comes to `q` along a log -/
inductive Path (p : Prog Ret ρ α) : Log Ret → Prog Ret ρ α → Prop where
  | nil : Path p [] p
  | cons {log : Log Ret} {o : Op} {k : Ret o → Prog Ret ρ α} (x : Ret o) :
      Path p log (.call o k) → Path p (⟨o, x⟩ :: log) (k x)

theorem Path.meets {p q : Prog Ret ρ α} (h : Path p log q) (hp : Meets C Q [] p) :
    Meets C Q log q := by
  induction h with
  | nil => exact hp
  | cons x _ ih => exact ih.2 x

/-- every call on a path is one the contract allows there -/
theorem Path.called {p q : Prog Ret ρ α} (h : Path p log q) (hp : Meets C Q [] p) {c : Call Ret}
    {older : Log Ret} (hc : c :: older <:+ log) : C.call older c.1 := by
  induction h with
  | nil => exact absurd (List.eq_nil_of_suffix_nil hc) (List.cons_ne_nil _ _)
  | cons x hpath ih =>
    rcases List.suffix_cons_iff.mp hc with heq | hsuf
    · obtain ⟨rfl, rfl⟩ := List.cons.inj heq
      exact (hpath.meets hp).1
    · exact ih hsuf

/-- the answer of a program that keeps its contract is one that the log allows -/
theorem Path.answered {p q : Prog Ret ρ ρ} (h : Path p log q) (hp : Meets C C.answer [] p) {r : ρ}
    (hr : q.answer? = some r) : C.answer log r := by
  have hq := h.meets hp
  cases q with
  | pure a => exact (Option.some.inj hr) ▸ hq
  | exit a => exact (Option.some.inj hr) ▸ hq
  | call o k => cases hr

end Freepod.Base
