import Freepod.Base.Program

/-!
# Programs that are broken off and run again

A `Remote` is what the calls of a program act on: a state that outlives the program.  A call draws
what only the outside can decide, and either answers and leaves a new state or raises and leaves
the one it found.

* `Stops`: a run that is broken off leaves one of these states.  Its last call may have taken effect
  although its answer was lost.
* `Ends`: a run that is left alone returns or raises; `Remote.ends_run` says that there is one, and
  `Ends.of_bind` takes one apart.
* `Withstands T C E Q p s`: wherever `p` is broken off, `C` holds of the state; where it raises, `E`
  does, and where it returns, `Q` does.
* `withstands_bind`, `Withstands.ask`, `Withstands.mono`: the rules that compose these.
* `Withstands.stops`, `Withstands.returned`, `Withstands.raised`: what they say about the runs.
-/

namespace Freepod.Base

variable {Op : Type} {Ret : Op → Type} {ρ α β S D : Type}

/-- what a call does to the state, with a draw of the outside -/
structure Remote (Ret : Op → Type) (ρ S D : Type) where
  perform : (o : Op) → D → S → Except ρ (Ret o × S)

/-- a run of the program from `s` that is broken off leaves `s'` -/
inductive Stops (T : Remote Ret ρ S D) : Prog Ret ρ α → S → S → Prop where
  /-- it is killed here, or its next call fails before it takes effect -/
  | here (p : Prog Ret ρ α) (s : S) : Stops T p s s
  /-- the call takes effect and its answer is lost -/
  | lost {o : Op} {k : Ret o → Prog Ret ρ α} {d : D} {s s' : S} {x : Ret o} :
      T.perform o d s = .ok (x, s') → Stops T (.call o k) s s'
  | later {o : Op} {k : Ret o → Prog Ret ρ α} {d : D} {s s' t : S} {x : Ret o} :
      T.perform o d s = .ok (x, s') → Stops T (k x) s' t → Stops T (.call o k) s t

/-- a run of the program from `s` that every call answers ends so -/
inductive Ends (T : Remote Ret ρ S D) : Prog Ret ρ α → S → Except ρ α → S → Prop where
  | pure (a : α) (s : S) : Ends T (.pure a) s (.ok a) s
  | exit (e : ρ) (s : S) : Ends T (.exit e) s (.error e) s
  | raised {o : Op} {k : Ret o → Prog Ret ρ α} {d : D} {s : S} {e : ρ} :
      T.perform o d s = .error e → Ends T (.call o k) s (.error e) s
  | answered {o : Op} {k : Ret o → Prog Ret ρ α} {d : D} {s s' t : S} {x : Ret o}
      {out : Except ρ α} :
      T.perform o d s = .ok (x, s') → Ends T (k x) s' out t → Ends T (.call o k) s out t

/-- a sequence ends where its first part raises, or where what follows it ends -/
theorem Ends.of_bind {T : Remote Ret ρ S D} {p : Prog Ret ρ α} {f : α → Prog Ret ρ β}
    {s t : S} {out : Except ρ β} (h : Ends T (p >>= f) s out t) :
    (∃ a s', Ends T p s (.ok a) s' ∧ Ends T (f a) s' out t) ∨
      ∃ e, out = .error e ∧ Ends T p s (.error e) t := by
  induction p generalizing s with
  | pure a => exact .inl ⟨a, s, .pure a s, h⟩
  | exit e =>
    have h : Ends T (.exit e) s out t := h
    cases h
    exact .inr ⟨e, rfl, .exit e _⟩
  | call o k ih =>
    have h : Ends T (.call o fun x => k x >>= f) s out t := h
    cases h with
    | raised hd => exact .inr ⟨_, rfl, .raised hd⟩
    | answered hd h =>
      rcases ih _ h with ⟨a, s', ha, hf⟩ | ⟨e, he, hp⟩
      · exact .inl ⟨a, s', .answered hd ha, hf⟩
      · exact .inr ⟨e, he, .answered hd hp⟩

namespace Remote

variable (T : Remote Ret ρ S D)

/-- the run for which the outside draws `d` each time -/
def run (d : D) : Prog Ret ρ α → S → Except ρ α × S
  | .pure a, s => (.ok a, s)
  | .exit e, s => (.error e, s)
  | .call o k, s =>
    match T.perform o d s with
    | .ok (x, s') => run d (k x) s'
    | .error e => (.error e, s)

/-- that run, broken off after `n` calls -/
def runFor (d : D) : Nat → Prog Ret ρ α → S → S
  | n + 1, .call o k, s =>
    match T.perform o d s with
    | .ok (x, s') => runFor d n (k x) s'
    | .error _ => s
  | _, _, s => s

/-- **every program ends**, when it is left alone -/
theorem ends_run (d : D) (p : Prog Ret ρ α) (s : S) :
    Ends T p s (T.run d p s).1 (T.run d p s).2 := by
  induction p generalizing s with
  | pure a => exact .pure a s
  | exit e => exact .exit e s
  | call o k ih =>
    unfold run
    cases h : T.perform o d s with
    | ok out => exact .answered h (ih out.1 out.2)
    | error e => exact .raised h

theorem stops_runFor (d : D) (n : Nat) (p : Prog Ret ρ α) (s : S) :
    Stops T p s (T.runFor d n p s) := by
  induction n generalizing p s with
  | zero =>
    unfold runFor
    exact .here p s
  | succ n ih =>
    cases p with
    | pure a => exact .here _ s
    | exit e => exact .here _ s
    | call o k =>
      unfold runFor
      cases h : T.perform o d s with
      | ok out => exact .later h (ih (k out.1) out.2)
      | error e => exact .here _ s

end Remote

/-- `C` wherever a run of the program is broken off, `E` where it raises, `Q` where it returns -/
def Withstands (T : Remote Ret ρ S D) (C : S → Prop) (E : ρ → S → Prop) (Q : α → S → Prop) :
    Prog Ret ρ α → S → Prop
  | .pure a, s => Q a s
  | .exit e, s => E e s
  | .call o k, s =>
    C s ∧ (∀ d e, T.perform o d s = .error e → E e s) ∧
      ∀ d x s', T.perform o d s = .ok (x, s') → Withstands T C E Q (k x) s'

section
variable {T : Remote Ret ρ S D} {C : S → Prop} {E : ρ → S → Prop} {Q Q' : α → S → Prop}
  {p : Prog Ret ρ α} {s s' : S}

@[simp] theorem withstands_pure (a : α) : Withstands T C E Q (pure a) s ↔ Q a s := Iff.rfl

@[simp] theorem withstands_exit (e : ρ) :
    Withstands T C E Q (.exit e : Prog Ret ρ α) s ↔ E e s := Iff.rfl

/-- **the rule for a sequence** -/
theorem withstands_bind {Q : β → S → Prop} (p : Prog Ret ρ α) (f : α → Prog Ret ρ β) :
    Withstands T C E Q (p >>= f) s ↔
      Withstands T C E (fun a s => Withstands T C E Q (f a) s) p s := by
  induction p generalizing s with
  | pure a => exact Iff.rfl
  | exit e => exact Iff.rfl
  | call o k ih =>
    show (_ ∧ _ ∧ ∀ d x s', _ → Withstands T C E Q (k x >>= f) s') ↔ (_ ∧ _ ∧ _)
    simp only [ih]

/-- **the rule of consequence** -/
theorem Withstands.mono (h : Withstands T C E Q p s) (hQ : ∀ a s, Q a s → Q' a s) :
    Withstands T C E Q' p s := by
  induction p generalizing s with
  | pure a => exact hQ a s h
  | exit e => exact h
  | call o k ih => exact ⟨h.1, h.2.1, fun d x s' hd => ih x (h.2.2 d x s' hd)⟩

/-- the sequence rule, with what is known of the first part -/
theorem Withstands.seq {R : α → S → Prop} {Q : β → S → Prop} {f : α → Prog Ret ρ β}
    (h : Withstands T C E R p s) (hf : ∀ a s, R a s → Withstands T C E Q (f a) s) :
    Withstands T C E Q (p >>= f) s :=
  (withstands_bind p f).mpr (h.mono hf)

/-- **the rule for one call** that answers whatever is drawn -/
theorem Withstands.ask {o : Op} {Q : Ret o → S → Prop} (hC : C s)
    (h : ∀ d, ∃ x s', T.perform o d s = .ok (x, s') ∧ Q x s') :
    Withstands T C E Q (ask o) s := by
  refine ⟨hC, fun d e he => ?_, fun d x s' hd => ?_⟩
  · obtain ⟨x, s', hx, -⟩ := h d
    rw [hx] at he
    cases he
  · obtain ⟨y, t, hy, hq⟩ := h d
    rw [hy] at hd
    cases hd
    exact hq

/-- the rule for a call and what follows it -/
theorem Withstands.call {o : Op} {Q : β → S → Prop} {f : Ret o → Prog Ret ρ β} (hC : C s)
    (h : ∀ d, ∃ x s', T.perform o d s = .ok (x, s') ∧ Withstands T C E Q (f x) s') :
    Withstands T C E Q (Freepod.Base.ask o >>= f) s :=
  (withstands_bind _ f).mpr (.ask hC h)

theorem Withstands.here (h : Withstands T C E Q p s) (hE : ∀ e s, E e s → C s)
    (hQ : ∀ a s, Q a s → C s) : C s := by
  cases p with
  | pure a => exact hQ a s h
  | exit e => exact hE e s h
  | call o k => exact h.1

/-- **wherever it is broken off** -/
theorem Withstands.stops (h : Withstands T C E Q p s) (hE : ∀ e s, E e s → C s)
    (hQ : ∀ a s, Q a s → C s) (hs : Stops T p s s') : C s' := by
  induction hs with
  | here p s => exact h.here hE hQ
  | lost hd => exact (h.2.2 _ _ _ hd).here hE hQ
  | later hd _ ih => exact ih (h.2.2 _ _ _ hd)

/-- **where it ends** -/
theorem Withstands.ends {out : Except ρ α} (h : Withstands T C E Q p s) (hs : Ends T p s out s') :
    (∀ a, out = .ok a → Q a s') ∧ ∀ e, out = .error e → E e s' := by
  induction hs with
  | pure a s =>
    refine ⟨fun b hb => ?_, fun e he => ?_⟩
    · cases hb
      exact h
    · cases he
  | exit e s =>
    refine ⟨fun b hb => ?_, fun e he => ?_⟩
    · cases hb
    · cases he
      exact h
  | raised hd =>
    refine ⟨fun b hb => ?_, fun e he => ?_⟩
    · cases hb
    · cases he
      exact h.2.1 _ _ hd
  | answered hd _ ih => exact ih (h.2.2 _ _ _ hd)

theorem Withstands.returned {a : α} (h : Withstands T C E Q p s) (hs : Ends T p s (.ok a) s') :
    Q a s' := (h.ends hs).1 a rfl

theorem Withstands.raised {e : ρ} (h : Withstands T C E Q p s) (hs : Ends T p s (.error e) s') :
    E e s' := (h.ends hs).2 e rfl

end

end Freepod.Base
