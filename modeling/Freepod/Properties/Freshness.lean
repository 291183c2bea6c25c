import Freepod.Base.Turns
import Freepod.Exporter.State
import Mathlib.Tactic.Tauto

/-!
# How old a bucket's size can get

* `wait_next`: a `Next` that picks another bucket shortens the wait of every bucket.  Twice the
  number of buckets tried longer ago, and one while the turn is a changed bucket's, is a bound on
  it, so no stream of writes or failed reads holds a bucket back.
* `Pending.call`: a recorded write stays pending until a read that started at or after it.
* `sizes_kept_fresh`: in every run, `2n` calls of `Next` reach all `n` buckets, and a changed turn
  picks a changed bucket while a write is pending.
* `read_before_mark`: a mark that comes after a read which started later leaves nothing pending.
-/

namespace Freepod.Exporter

open Freepod.Base State

/-- the same buckets in every state of a run -/
def Fixed : State → List Call → Prop
  | _, [] => True
  | s, c :: calls => (∀ a, a ∈ (s.call c).aliases ↔ a ∈ s.aliases) ∧ Fixed (s.call c) calls

variable {s : State} {a b : String} {calls : List Call}

theorem nexts_append (l r : List Call) : nexts (l ++ r) = nexts l ++ nexts r := by
  induction l with
  | nil => rfl
  | cons c l ih =>
    cases c
    case next now => exact congrArg (now :: ·) ih
    all_goals exact ih

theorem nexts_cons {c : Call} (hc : ∀ now, c ≠ .next now) : nexts (c :: calls) = nexts calls := by
  cases c
  case next now => exact absurd rfl (hc now)
  all_goals rfl

theorem picked_cons {c : Call} (hc : ∀ now, c ≠ .next now) :
    s.picked (c :: calls) = (s.call c).picked calls := by
  cases c
  case next now => exact absurd rfl (hc now)
  all_goals rfl

theorem changedTurn_call {c : Call} (hc : ∀ now, c ≠ .next now) :
    (s.call c).changedTurn = s.changedTurn := by
  cases c with
  | next now => exact absurd rfl (hc now)
  | markWritten names at' =>
    show (s.markWritten names at').changedTurn = _
    unfold markWritten
    split <;> rfl
  | succeeded at' =>
    show (s.succeeded at').changedTurn = _
    unfold succeeded
    split <;> rfl
  | _ => rfl

theorem aliases_next (s : State) (now : Nat) : (s.next now).2.aliases = s.aliases :=
  Buckets.aliases_update ..

/-- a call that names the buckets there are -/
def Call.lists : Call → Bool
  | .setBuckets _ | .seed _ => true
  | _ => false

theorem aliases_call {c : Call} (h : c.lists = false) : (s.call c).aliases = s.aliases := by
  cases c with
  | setBuckets list => cases h
  | seed sizes => cases h
  | markWritten names at' =>
    show (s.markWritten names at').aliases = _
    unfold markWritten
    split
    · exact aliases_foldl_markWritten s at' names s.buckets
    · rfl
  | next now => exact aliases_next s now
  | read a bytes at' => exact Buckets.aliases_update ..
  | succeeded at' =>
    show (s.succeeded at').aliases = _
    unfold succeeded
    split <;> rfl
  | _ => rfl

/-- only a bucket list or a seed changes the buckets there are -/
theorem fixed_of_lists (h : ∀ c ∈ calls, c.lists = false) : Fixed s calls := by
  induction calls generalizing s with
  | nil => trivial
  | cons c calls ih =>
    refine ⟨?_, ih fun c hc => h c (List.mem_cons_of_mem _ hc)⟩
    intro a
    rw [aliases_call (h c List.mem_cons_self)]

/-! ## the order of the attempts -/

/-- no attempt so far is later than a `Next` still to come, and once there was a `Next` they are all
earlier -/
def InTime (s : State) (times : List Nat) : Prop :=
  ∀ now ∈ times, ∀ a, (s.bucket a).triedAt ≤ now ∧
    (s.changedTurn = false → (s.bucket a).triedAt < now)

theorem inTime_new (times : List Nat) : InTime .new times := by
  intro now _ a
  exact ⟨Nat.zero_le now, fun h => nomatch h⟩

theorem triedAt_call_le {c : Call} (hc : ∀ now, c ≠ .next now) :
    ((s.call c).bucket a).triedAt ≤ (s.bucket a).triedAt := by
  by_cases ha : a ∈ (s.call c).aliases
  · exact (triedAt_call hc ha).le
  · have hb : (s.call c).bucket a = {} := Buckets.bucket_of_notMem ha
    rw [hb]
    exact Nat.zero_le _

theorem triedAt_next_le (now : Nat) :
    ((s.next now).2.bucket a).triedAt ≤ max (s.bucket a).triedAt now := by
  by_cases ha : a ∈ s.aliases
  · rw [triedAt_next ha]
    split
    · exact le_max_right ..
    · exact le_max_left ..
  · have hb : (s.next now).2.bucket a = {} := by
      apply Buckets.bucket_of_notMem
      rw [← State.aliases, aliases_next]
      exact ha
    rw [hb]
    exact Nat.zero_le _

/-- one call -/
theorem InTime.call {c : Call} (h : InTime s (nexts (c :: calls)))
    (ht : (nexts (c :: calls)).Pairwise (· < ·)) : InTime (s.call c) (nexts calls) := by
  by_cases hc : ∃ now, c = .next now
  · obtain ⟨now, rfl⟩ := hc
    have hnow := h now List.mem_cons_self
    intro now' hmem a
    have hlt : now < now' := List.rel_of_pairwise_cons ht hmem
    have hle : ((s.next now).2.bucket a).triedAt ≤ max (s.bucket a).triedAt now :=
      triedAt_next_le now
    have hearlier : ((s.next now).2.bucket a).triedAt < now' := by
      have := (hnow a).1
      omega
    exact ⟨hearlier.le, fun _ => hearlier⟩
  · push Not at hc
    rw [nexts_cons hc] at h
    intro now hmem a
    obtain ⟨hle, hlt⟩ := h now hmem a
    rw [changedTurn_call hc]
    exact ⟨(triedAt_call_le hc).trans hle, fun hf => (triedAt_call_le hc).trans_lt (hlt hf)⟩

theorem InTime.run {rest : List Call} (h : InTime s (nexts (calls ++ rest)))
    (ht : (nexts (calls ++ rest)).Pairwise (· < ·)) : InTime (s.run calls) (nexts rest) := by
  induction calls generalizing s with
  | nil => exact h
  | cons c calls ih =>
    have ht' : (nexts (calls ++ rest)).Pairwise (· < ·) := by
      rw [List.cons_append, ← List.singleton_append, nexts_append] at ht
      exact (List.pairwise_append.mp ht).2.1
    exact ih (h.call ht) ht'

/-! ## the wait of a bucket -/

/-- a bound on the calls of `Next` before one picks `b` -/
def wait (s : State) (b : String) : Nat :=
  2 * (ahead s.aliases.toFinset s.turnOf b).card + if s.changedTurn then 1 else 0

/-- fewer than two calls for each bucket -/
theorem wait_lt (hb : b ∈ s.aliases) : wait s b < 2 * s.aliases.length := by
  have hcard : s.aliases.toFinset.card = s.aliases.length :=
    List.toFinset_card_of_nodup s.buckets.distinct
  have hlt := card_ahead_lt (t := s.turnOf) (List.mem_toFinset.mpr hb)
  unfold wait
  split <;> omega

theorem wait_call {c : Call} (hc : ∀ now, c ≠ .next now)
    (hfix : ∀ a, a ∈ (s.call c).aliases ↔ a ∈ s.aliases) (hb : b ∈ s.aliases) :
    wait (s.call c) b = wait s b := by
  have hset : (s.call c).aliases.toFinset = s.aliases.toFinset := by
    ext a
    rw [List.mem_toFinset, List.mem_toFinset, hfix]
  have hturn : ∀ a ∈ s.aliases.toFinset, (s.call c).turnOf a = s.turnOf a := by
    intro a ha
    rw [turnOf, turnOf, triedAt_call hc ((hfix a).mpr (List.mem_toFinset.mp ha))]
  rw [wait, wait, changedTurn_call hc, hset, ahead_congr hturn (List.mem_toFinset.mpr hb)]

/-- the bucket picked is tried now, the others are as they were -/
theorem served_next {now : Nat} (h : ∀ a, (s.bucket a).triedAt ≤ now) (hp : s.pick.1 ∈ s.aliases) :
    Served s.aliases.toFinset s.turnOf (s.next now).2.turnOf s.pick.1 where
  others := by
    intro a ha hne
    rw [turnOf, turnOf, triedAt_next (List.mem_toFinset.mp ha), if_neg hne]
  later := by
    rw [turnOf, turnOf, triedAt_next hp, if_pos rfl]
    apply Prod.Lex.toLex_le_toLex.mpr
    rcases Nat.lt_or_eq_of_le (h s.pick.1) with hlt | heq
    · exact .inl hlt
    · exact .inr ⟨heq, le_rfl⟩

theorem pick_mem (hb : b ∈ s.aliases) : s.pick.1 ∈ s.aliases := by
  unfold pick
  split
  · rename_i h
    exact oldest_mem h.2.2
  · exact oldest_mem (oldest_ne_empty (p := fun _ => true) hb rfl)

/-- **a `Next` that picks another bucket shortens the wait** -/
theorem wait_next {now : Nat} {times : List Nat} (h : InTime s (now :: times)) (hb : b ∈ s.aliases)
    (hne : s.pick.1 ≠ b) : wait (s.next now).2 b < wait s b := by
  have hnow := h now List.mem_cons_self
  have hpick := pick_mem hb
  have hserved := served_next (fun a => (hnow a).1) hpick
  have hbS : b ∈ s.aliases.toFinset := List.mem_toFinset.mpr hb
  unfold wait
  rw [aliases_next, show (s.next now).2.changedTurn = !s.changedTurn from rfl]
  cases hturn : s.changedTurn with
  | true =>
    -- whoever is picked does not move before `b`, and the turn is over
    have hle := card_ahead_le hserved hbS (Ne.symm hne)
    simp
    omega
  | false =>
    have hold : s.pick.1 = s.oldest fun _ => true := by
      rw [pick, if_neg]
      rw [hturn]
      intro h
      cases h.1
    have hlt : s.turnOf s.pick.1 < s.turnOf b := by
      refine lt_of_le_of_ne ?_ ?_
      · rw [hold]
        exact oldest_le (p := fun _ => true) hb rfl
      · intro he
        exact hne (congrArg Prod.snd (toLex.injective he))
    have hback : s.turnOf b ≤ (s.next now).2.turnOf s.pick.1 := by
      rw [turnOf, turnOf, triedAt_next hpick, if_pos rfl]
      exact Prod.Lex.toLex_le_toLex.mpr (.inl ((hnow b).2 hturn))
    have := card_ahead_served hserved hbS (List.mem_toFinset.mpr hpick) hlt hback
    simp
    omega

/-- a bucket is picked within as many calls as it waits for -/
theorem picked_of_wait (h : InTime s (nexts calls)) (ht : (nexts calls).Pairwise (· < ·))
    (hfix : Fixed s calls) (hb : b ∈ s.aliases) (hw : wait s b < (nexts calls).length) :
    b ∈ (s.picked calls).map Prod.fst := by
  induction calls generalizing s with
  | nil => exact absurd hw (Nat.not_lt_zero _)
  | cons c calls ih =>
    obtain ⟨hsame, hfix⟩ := hfix
    have hb' : b ∈ (s.call c).aliases := (hsame b).mpr hb
    have hin := h.call ht
    by_cases hc : ∃ now, c = .next now
    · obtain ⟨now, rfl⟩ := hc
      show b ∈ s.pick.1 :: ((s.call (.next now)).picked calls).map Prod.fst
      by_cases hne : s.pick.1 = b
      · rw [hne]
        exact List.mem_cons_self
      · apply List.mem_cons_of_mem
        have hlt := wait_next h hb hne
        have hlen : (nexts (.next now :: calls)).length = (nexts calls).length + 1 := rfl
        refine ih hin (List.Pairwise.of_cons ht) hfix hb' ?_
        show wait (s.next now).2 b < _
        omega
    · push Not at hc
      rw [nexts_cons hc] at ht hw
      rw [picked_cons hc]
      refine ih hin ht hfix hb' ?_
      rw [wait_call hc hsame hb]
      exact hw

/-! ## pending writes -/

/-- a write at `t` that no read has answered: a bucket in this state counts as changed -/
structure Pending (t : Nat) (b : Bucket) : Prop where
  unread : b.readAt < t
  written : t ≤ b.writtenAt

theorem Pending.changed {t : Nat} {b : Bucket} (h : Pending t b) : b.changed = true :=
  decide_eq_true (lt_of_lt_of_le h.unread h.written)

/-- one call: only a read of the bucket that started at or after the write answers it -/
theorem Pending.call {t : Nat} {c : Call} (h : Pending t (s.bucket b))
    (hsame : ∀ a, a ∈ (s.call c).aliases ↔ a ∈ s.aliases) (hb : b ∈ s.aliases)
    (hread : ∀ bytes at', c = .read b bytes at' → at' < t) : Pending t ((s.call c).bucket b) where
  unread := by
    by_cases hc : ∃ bytes at', c = .read b bytes at'
    · obtain ⟨bytes, at', rfl⟩ := hc
      show ((s.read b bytes at').bucket b).readAt < t
      rw [readAt_read hb]
      exact hread bytes at' rfl
    · push Not at hc
      rw [readAt_call hc ((hsame b).mpr hb)]
      exact h.unread
  written := h.written.trans (writtenAt_le_call c hb ((hsame b).mpr hb))

theorem activityOK_call {c : Call} (h : s.activityOK = true)
    (hok : ∀ ok, c = .setActivityOK ok → ok = true) : (s.call c).activityOK = true := by
  cases c with
  | setActivityOK ok => exact hok ok rfl
  | markWritten names at' =>
    show (s.markWritten names at').activityOK = true
    unfold markWritten
    split <;> exact h
  | succeeded at' =>
    show (s.succeeded at').activityOK = true
    unfold succeeded
    split <;> exact h
  | _ => exact h

/-- a whole run -/
theorem Pending.run {t : Nat} (h : Pending t (s.bucket b)) (hb : b ∈ s.aliases)
    (hfix : Fixed s calls) (hread : ∀ bytes at', .read b bytes at' ∈ calls → at' < t)
    (hs : s.activityOK = true) (hok : ∀ ok, .setActivityOK ok ∈ calls → ok = true) :
    Pending t ((s.run calls).bucket b) ∧ b ∈ (s.run calls).aliases ∧
      (s.run calls).activityOK = true := by
  induction calls generalizing s with
  | nil => exact ⟨h, hb, hs⟩
  | cons c calls ih =>
    obtain ⟨hsame, hfix⟩ := hfix
    have hp := h.call hsame hb fun bytes at' he => hread bytes at' (he ▸ List.mem_cons_self)
    have hs' := activityOK_call hs fun ok he => hok ok (he ▸ List.mem_cons_self)
    exact ih hp ((hsame b).mpr hb) hfix
      (fun bytes at' hm => hread bytes at' (List.mem_cons_of_mem _ hm)) hs'
      fun ok hm => hok ok (List.mem_cons_of_mem _ hm)

theorem pick_changed (hturn : s.changedTurn = true) (hok : s.activityOK = true)
    (hb : b ∈ s.aliases) (hc : (s.bucket b).changed = true) :
    s.pick.2 = true ∧ (s.bucket s.pick.1).changed = true := by
  have hne : s.oldest Bucket.changed ≠ "" := oldest_ne_empty hb hc
  rw [pick, if_pos ⟨hturn, hok, hne⟩]
  exact ⟨rfl, oldest_holds hne⟩

/-- after a mark, where the last read started before it -/
theorem pending_markWritten {names : List String} {name : String} {t : Nat}
    (hok : s.activityOK = true) (hname : name ∈ names) (hb : s.resolve name ∈ s.aliases)
    (hread : (s.bucket (s.resolve name)).readAt < t) :
    Pending t ((s.markWritten names t).bucket (s.resolve name)) where
  unread := by
    have hf : ((s.markWritten names t).bucket (s.resolve name)).readAt = _ :=
      field_markWritten (fun _ _ => rfl) s names t (s.resolve name)
    rw [hf]
    exact hread
  written := le_writtenAt_markWritten hok hname hb t

/-- **bucket sizes are kept fresh**.  In every run, while the set of buckets stays the same and
`Next` is called at later and later instants, two calls for each bucket pick every bucket.  And a
recorded write that no read has answered makes every changed turn pick a changed bucket, until a
read of its bucket that started at or after it, while the activity signal is fine. -/
theorem sizes_kept_fresh (before : List Call) :
    (∀ window, (nexts (before ++ window)).Pairwise (· < ·) →
      Fixed (State.new.run before) window →
      2 * (State.new.run before).aliases.length ≤ (nexts window).length →
      ∀ b ∈ (State.new.run before).aliases,
        b ∈ ((State.new.run before).picked window).map Prod.fst) ∧
    (∀ names name t after now, name ∈ names → (State.new.run before).activityOK = true →
      (State.new.run before).resolve name ∈ (State.new.run before).aliases →
      ((State.new.run before).bucket ((State.new.run before).resolve name)).readAt < t →
      Fixed (State.new.run before) (.markWritten names t :: after) →
      (∀ ok, .setActivityOK ok ∈ after → ok = true) →
      (∀ bytes at', .read ((State.new.run before).resolve name) bytes at' ∈ after → at' < t) →
      (State.new.run (before ++ .markWritten names t :: after)).changedTurn = true →
      ∃ a, ((State.new.run (before ++ .markWritten names t :: after)).next now).1 = (a, true) ∧
        ((State.new.run (before ++ .markWritten names t :: after)).bucket a).changed = true) := by
  constructor
  · intro window ht hfix hlen b hb
    have hin : InTime (State.new.run before) (nexts window) := (inTime_new _).run ht
    have ht' : (nexts window).Pairwise (· < ·) := by
      rw [nexts_append] at ht
      exact (List.pairwise_append.mp ht).2.1
    exact picked_of_wait hin ht' hfix hb (lt_of_lt_of_le (wait_lt hb) hlen)
  · intro names name t after now hname hok hb hread hfix hstay hreads hturn
    obtain ⟨hsame, hfix⟩ := hfix
    have hp := pending_markWritten hok hname hb hread
    have hok' : ((State.new.run before).call (.markWritten names t)).activityOK = true :=
      activityOK_call hok fun ok he => nomatch he
    obtain ⟨hp, hb, hok⟩ := Pending.run hp ((hsame _).mpr hb) hfix hreads hok' hstay
    have hrun : State.new.run (before ++ .markWritten names t :: after) =
        ((State.new.run before).call (.markWritten names t)).run after := List.foldl_append ..
    rw [hrun] at hturn ⊢
    obtain ⟨hchosen, hchanged⟩ := pick_changed hturn hok hb hp.changed
    exact ⟨_, Prod.ext rfl hchosen, hchanged⟩

/-- two buckets and a working activity signal -/
def sampleStart : List Call :=
  [.setBuckets [⟨"id0", ["dep-a"]⟩, ⟨"id1", ["dep-b"]⟩], .setActivityOK true]

/-- a bucket that is written to before every read, and whose first read fails -/
def sampleWindow : List Call :=
  [.markWritten ["id0"] 5, .next 10, .readFailed, .next 11, .markWritten ["dep-a"] 11, .next 12,
    .read "dep-a" 7 12, .next 13]

theorem sizes_kept_fresh_sample :
    "dep-b" ∈ ((State.new.run sampleStart).picked sampleWindow).map Prod.fst ∧
    ∃ a, ((State.new.run (sampleStart ++ .markWritten ["id0"] 5 ::
        [.next 10, .readFailed, .next 11, .read "dep-a" 7 4])).next 12).1 = (a, true) ∧
      ((State.new.run (sampleStart ++ .markWritten ["id0"] 5 ::
        [.next 10, .readFailed, .next 11, .read "dep-a" 7 4])).bucket a).changed = true := by
  constructor
  · exact (sizes_kept_fresh sampleStart).1 sampleWindow (by decide) (fixed_of_lists (by decide))
      (by decide) "dep-b" (by decide)
  · refine (sizes_kept_fresh sampleStart).2 ["id0"] "id0" 5
      [.next 10, .readFailed, .next 11, .read "dep-a" 7 4] 12 (by decide) (by decide) (by decide)
      (by decide) (fixed_of_lists (by decide)) ?_ ?_ (by decide)
    · intro ok h
      simp at h
    · intro bytes at' h
      simp at h
      omega

/-- a bucket read at 11 and marked afterwards as written at 5, which is how the log's lag orders
them: no read has come since, the turn is a changed bucket's, and the pick is no changed bucket -/
theorem read_before_mark :
    ¬ ∀ before names name t now, name ∈ names → (State.new.run before).activityOK = true →
      (State.new.run before).resolve name ∈ (State.new.run before).aliases →
      (State.new.run (before ++ [.markWritten names t])).changedTurn = true →
      ∃ a, ((State.new.run (before ++ [.markWritten names t])).next now).1 = (a, true) := by
  intro h
  obtain ⟨a, ha⟩ := h (sampleStart ++ [.next 10, .next 11, .read "dep-a" 7 10, .read "dep-b" 7 11])
    ["dep-b"] "dep-b" 5 12 (by decide) (by decide) (by decide) (by decide)
  have hpick : ((State.new.run (sampleStart ++ [.next 10, .next 11, .read "dep-a" 7 10,
      .read "dep-b" 7 11] ++ [.markWritten ["dep-b"] 5])).next 12).1.2 = false := by decide
  rw [ha] at hpick
  cases hpick

end Freepod.Exporter
