import Freepod.Base.Refuse

/-!
# Transactions

A session runs statements against its own view of the database: what it has written is seen by its
later statements and stored by a commit.  An exception ends the session, and closing a session
drops what was not committed.

* `Follows m f`: the statements `m` commit nothing and do to the view what `f` does.
* `Commits m f`: `m` commits the state `f` ends in, or raises with `f` and commits nothing.
* `exec_of_commits`: such a session is all or nothing.
-/

namespace Freepod.Base

/-- what the database holds, and what the open transaction sees -/
structure View (σ : Type) where
  stored : σ
  seen : σ

/-- statements of one session, which end with an answer or an exception -/
def Transaction (ε σ α : Type) : Type := View σ → Except ε α × View σ

namespace Transaction

variable {ε σ α β : Type}

instance : Monad (Transaction ε σ) where
  pure a := fun w => (.ok a, w)
  bind m k := fun w =>
    match m w with
    | (.ok a, w') => k a w'
    | (.error e, w') => (.error e, w')

/-- a check or a query of what the transaction sees -/
def read (f : σ → Except ε α) : Transaction ε σ α := fun w => (f w.seen, w)

/-- a statement that writes, or violates a constraint -/
def write (f : σ → Except ε σ) : Transaction ε σ Unit := fun w =>
  match f w.seen with
  | .ok t => (.ok (), ⟨w.stored, t⟩)
  | .error e => (.error e, w)

/-- the same statement for each item of a list -/
def writeEach (f : σ → α → Except ε σ) : List α → Transaction ε σ Unit
  | [] => pure ()
  | a :: l => do
    write fun s => f s a
    writeEach f l

/-- the commit, with the constraints that are deferred to it -/
def commit (deferred : σ → Except ε Unit) : Transaction ε σ Unit := fun w =>
  match deferred w.seen with
  | .ok () => (.ok (), ⟨w.seen, w.seen⟩)
  | .error e => (.error e, ⟨w.stored, w.stored⟩)

/-- an exception is raised again after a rollback -/
def orRollback (m : Transaction ε σ α) : Transaction ε σ α := fun w =>
  match m w with
  | (.ok a, w') => (.ok a, w')
  | (.error e, w') => (.error e, ⟨w'.stored, w'.stored⟩)

/-- a whole session: its answer, and the database once it is closed -/
def exec (m : Transaction ε σ α) (s : σ) : Except ε α × σ :=
  ((m ⟨s, s⟩).1, (m ⟨s, s⟩).2.stored)

theorem bind_apply (m : Transaction ε σ α) (k : α → Transaction ε σ β) (w : View σ) :
    (m >>= k) w = match m w with
      | (.ok a, w') => k a w'
      | (.error e, w') => (.error e, w') := rfl

/-! ## What statements do -/

/-- the statements commit nothing and do to the view what `f` does -/
def Follows (m : Transaction ε σ α) (f : σ → Except ε (α × σ)) : Prop :=
  ∀ w, (∃ a t, f w.seen = .ok (a, t) ∧ m w = (.ok a, ⟨w.stored, t⟩)) ∨
    ∃ e w', f w.seen = .error e ∧ m w = (.error e, w') ∧ w'.stored = w.stored

/-- the statements commit what `f` ends in, or raise as `f` does and commit nothing -/
def Commits (m : Transaction ε σ Unit) (f : σ → Except ε σ) : Prop :=
  ∀ w, (∃ t, f w.seen = .ok t ∧ m w = (.ok (), ⟨t, t⟩)) ∨
    ∃ e w', f w.seen = .error e ∧ m w = (.error e, w') ∧ w'.stored = w.stored

theorem ok_bind (a : α) (k : α → Except ε β) : (Except.ok a >>= k) = k a := rfl

theorem error_bind (e : ε) (k : α → Except ε β) : (Except.error e >>= k) = .error e := rfl

theorem Follows.congr {m : Transaction ε σ α} {f g : σ → Except ε (α × σ)} (h : Follows m f)
    (he : ∀ s, g s = f s) : Follows m g := by
  intro w
  rw [he]
  exact h w

theorem Commits.congr {m : Transaction ε σ Unit} {f g : σ → Except ε σ} (h : Commits m f)
    (he : ∀ s, g s = f s) : Commits m g := by
  intro w
  rw [he]
  exact h w

theorem follows_pure (a : α) : Follows (pure a : Transaction ε σ α) fun s => .ok (a, s) :=
  fun w => .inl ⟨a, w.seen, rfl, rfl⟩

theorem follows_read (f : σ → Except ε α) :
    Follows (read f) fun s => f s >>= fun a => pure (a, s) := by
  intro w
  unfold read
  cases h : f w.seen with
  | ok a => exact .inl ⟨a, w.seen, by simp only [h, ok_bind, pure_eq_ok], rfl⟩
  | error e => exact .inr ⟨e, w, by simp only [h, error_bind], rfl, rfl⟩

theorem follows_write (f : σ → Except ε σ) :
    Follows (write f) fun s => f s >>= fun t => pure ((), t) := by
  intro w
  unfold write
  cases h : f w.seen with
  | ok t => exact .inl ⟨(), t, by simp only [h, ok_bind, pure_eq_ok], rfl⟩
  | error e => exact .inr ⟨e, w, by simp only [h, error_bind], rfl, rfl⟩

theorem follows_bind {m : Transaction ε σ α} {f : σ → Except ε (α × σ)}
    {k : α → Transaction ε σ β} {g : α → σ → Except ε (β × σ)} (hm : Follows m f)
    (hk : ∀ a, Follows (k a) (g a)) :
    Follows (m >>= k) fun s => f s >>= fun r => g r.1 r.2 := by
  intro w
  rw [bind_apply]
  rcases hm w with ⟨a, t, hf, hw⟩ | ⟨e, w', hf, hw, hs⟩
  · simp only [hw, hf, ok_bind]
    exact hk a ⟨w.stored, t⟩
  · simp only [hw, hf, error_bind]
    exact .inr ⟨e, w', rfl, rfl, hs⟩

/-- a loop of statements -/
theorem follows_writeEach (f : σ → α → Except ε σ) (l : List α) :
    Follows (writeEach f l) fun s => l.foldlM f s >>= fun t => pure ((), t) := by
  induction l with
  | nil => exact follows_pure ()
  | cons a l ih =>
    refine (follows_bind (follows_write fun s => f s a) fun _ => ih).congr fun s => ?_
    rw [List.foldlM_cons]
    cases f s a with
    | ok t => rfl
    | error e => rfl

theorem commits_commit (deferred : σ → Except ε Unit) :
    Commits (commit deferred) fun s => deferred s >>= fun _ => pure s := by
  intro w
  unfold commit
  cases h : deferred w.seen with
  | ok u => exact .inl ⟨w.seen, by simp only [h, ok_bind, pure_eq_ok], rfl⟩
  | error e => exact .inr ⟨e, ⟨w.stored, w.stored⟩, by simp only [h, error_bind], rfl, rfl⟩

theorem commits_bind {m : Transaction ε σ α} {f : σ → Except ε (α × σ)}
    {k : α → Transaction ε σ Unit} {g : α → σ → Except ε σ} (hm : Follows m f)
    (hk : ∀ a, Commits (k a) (g a)) :
    Commits (m >>= k) fun s => f s >>= fun r => g r.1 r.2 := by
  intro w
  rw [bind_apply]
  rcases hm w with ⟨a, t, hf, hw⟩ | ⟨e, w', hf, hw, hs⟩
  · simp only [hw, hf, ok_bind]
    exact hk a ⟨w.stored, t⟩
  · simp only [hw, hf, error_bind]
    exact .inr ⟨e, w', rfl, rfl, hs⟩

theorem Follows.orRollback {m : Transaction ε σ α} {f : σ → Except ε (α × σ)} (h : Follows m f) :
    Follows (orRollback m) f := by
  intro w
  unfold Transaction.orRollback
  rcases h w with ⟨a, t, hf, hw⟩ | ⟨e, w', hf, hw, hs⟩
  · rw [hw]
    exact .inl ⟨a, t, hf, rfl⟩
  · rw [hw]
    exact .inr ⟨e, ⟨w'.stored, w'.stored⟩, hf, rfl, hs⟩

theorem Commits.orRollback {m : Transaction ε σ Unit} {f : σ → Except ε σ} (h : Commits m f) :
    Commits (orRollback m) f := by
  intro w
  unfold Transaction.orRollback
  rcases h w with ⟨t, hf, hw⟩ | ⟨e, w', hf, hw, hs⟩
  · rw [hw]
    exact .inl ⟨t, hf, rfl⟩
  · rw [hw]
    exact .inr ⟨e, ⟨w'.stored, w'.stored⟩, hf, rfl, hs⟩

/-- **a session that commits once, at its end, is all or nothing** -/
theorem exec_of_commits {m : Transaction ε σ Unit} {f : σ → Except ε σ} (h : Commits m f) (s : σ) :
    (∃ t, f s = .ok t ∧ m.exec s = (.ok (), t)) ∨ ∃ e, f s = .error e ∧ m.exec s = (.error e, s) := by
  unfold exec
  rcases h ⟨s, s⟩ with ⟨t, hf, hw⟩ | ⟨e, w', hf, hw, hs⟩
  · rw [hw]
    exact .inl ⟨t, hf, rfl⟩
  · rw [hw]
    refine .inr ⟨e, hf, ?_⟩
    rw [show w'.stored = s from hs]

end Transaction

end Freepod.Base
