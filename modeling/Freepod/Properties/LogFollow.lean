import Freepod.Cli.LogFollow

/-!
# What a follower has read

* `Cursor.deliver_marks`: a cursor lets every line of a batch through that it has not let through.
* `Follows`: what a stream has sent of the store.  `stream_exact`: it holds in every run, across the
  arrivals and the polls, and a short answer leaves nothing behind.
* `stream_silent`: a stream that begins with no line never sends one.
* `follow_exact`: what the client has printed across its connections has no gap.
-/

namespace Freepod.LogStream

open Base

variable {δ : Type} {settings : Settings} {source : LogSource δ} {options : FollowOptions}

/-! ## The answers -/

section
variable {q : Query} {now : Nat} {store entries : List LogEntry} {e b : LogEntry}

theorem mem_matching : e ∈ q.matching now store ↔
    e ∈ store ∧ q.startNs ≤ e.timestampNs ∧ e.timestampNs < q.endNs.getD now := by
  rw [Query.matching, List.mem_filter, decide_eq_true_eq]

theorem Query.Answers.matches (h : q.Answers now store entries) (hb : b ∈ entries) :
    b ∈ store ∧ q.startNs ≤ b.timestampNs ∧ b.timestampNs < q.endNs.getD now :=
  mem_matching.mp (h.1.subset hb)

/-- a line in the range that an answer leaves out comes after all that are in it -/
theorem Query.Answers.left_out (h : q.Answers now store entries) (he : e ∈ store)
    (hstart : q.startNs ≤ e.timestampNs) (hend : e.timestampNs < q.endNs.getD now)
    (hout : e ∉ entries) (hb : b ∈ entries) : q.prefers b e :=
  h.2.2 e (List.mem_diff_of_mem (mem_matching.mpr ⟨he, hstart, hend⟩) hout) b hb

/-- an answer that is short of the limit leaves nothing out -/
theorem Query.Answers.short (h : q.Answers now store entries) (hshort : entries.length < q.limit)
    (he : e ∈ store) (hstart : q.startNs ≤ e.timestampNs)
    (hend : e.timestampNs < q.endNs.getD now) : e ∈ entries := by
  have hlength : (q.matching now store).length ≤ entries.length := by
    have := h.2.1
    omega
  have hperm := h.1.perm_of_length_le hlength
  exact hperm.mem_iff.mpr (mem_matching.mpr ⟨he, hstart, hend⟩)

theorem before_total (a b : LogEntry) : a.before b ∨ b.before a := by
  unfold LogEntry.before
  rcases Nat.lt_trichotomy a.timestampNs b.timestampNs with h | h | h
  · exact .inl (.inl h)
  · rcases le_total a.line b.line with hl | hl
    · exact .inl (.inr ⟨h, hl⟩)
    · exact .inr (.inr ⟨h.symm, hl⟩)
  · exact .inr (.inl h)

theorem before_trans {a b c : LogEntry} (h : a.before b) (h' : b.before c) : a.before c := by
  unfold LogEntry.before at *
  rcases h with h | ⟨h, hl⟩
  · rcases h' with h' | ⟨h', -⟩
    · exact .inl (h.trans h')
    · exact .inl (h' ▸ h)
  · rcases h' with h' | ⟨h', hl'⟩
    · exact .inl (h ▸ h')
    · exact .inr ⟨h.trans h', hl.trans hl'⟩

/-- an answer is parsed in the order of the timestamps -/
theorem parse_ordered (result : List LokiStream) :
    (parse result).Pairwise fun a b => a.timestampNs ≤ b.timestampNs := by
  have : Std.Total LogEntry.before := ⟨before_total⟩
  have : IsTrans LogEntry LogEntry.before := ⟨fun _ _ _ => before_trans⟩
  refine (List.pairwise_insertionSort LogEntry.before _).imp ?_
  rintro a b (h | ⟨h, -⟩)
  · exact h.le
  · exact h.le

end

/-! ## The cursor -/

/-- the cursor stands at the last of the entries `seen`, which are in order and of which no two are
alike -/
structure Marks (c : Cursor) (seen : List LogEntry) : Prop where
  ordered : seen.Pairwise fun a b => a.timestampNs ≤ b.timestampNs
  once : seen.Pairwise fun a b => a.key ≠ b.key
  last : c.ns = seen.getLast?.map LogEntry.timestampNs
  marked : ∀ line, line ∈ c.deliveredAtNs ↔
    ∃ e ∈ seen, c.ns = some e.timestampNs ∧ e.line = line

section
variable {c : Cursor} {seen : List LogEntry} {e : LogEntry} {ns : Nat}

theorem shouldEmit_iff : c.shouldEmit e = true ↔ ∀ ns, c.ns = some ns →
    ns ≤ e.timestampNs ∧ ¬ (e.timestampNs = ns ∧ e.line ∈ c.deliveredAtNs) := by
  unfold Cursor.shouldEmit
  split
  · rename_i hns
    simp [hns]
  · rename_i ns hns
    simp only [hns, Option.some.injEq, forall_eq']
    split
    · rename_i hlt
      exact ⟨fun h => absurd h Bool.false_ne_true, fun h => absurd h.1 (Nat.not_le_of_lt hlt)⟩
    · rename_i hge
      rw [Bool.not_eq_true', Bool.and_eq_false_iff, decide_eq_false_iff_not, ← Bool.not_eq_true,
        List.contains_iff_mem, not_and_or]
      exact ⟨fun h => ⟨Nat.le_of_not_lt hge, h⟩, fun h => h.2⟩

theorem Marks.le (h : Marks c seen) (hns : c.ns = some ns) (he : e ∈ seen) :
    e.timestampNs ≤ ns := by
  rw [h.last, Option.map_eq_some_iff] at hns
  obtain ⟨x, hx, rfl⟩ := hns
  obtain ⟨ys, rfl⟩ := List.getLast?_eq_some_iff.mp hx
  rcases List.mem_append.mp he with he | he
  · exact (List.pairwise_append.mp h.ordered).2.2 e he x (List.mem_singleton_self x)
  · rw [List.mem_singleton.mp he]

theorem Marks.init : Marks Cursor.init [] where
  ordered := .nil
  once := .nil
  last := rfl
  marked := by simp [Cursor.init]

theorem Marks.nonempty (h : Marks c seen) (he : e ∈ seen) : ∃ ns, c.ns = some ns := by
  cases hl : seen.getLast? with
  | none =>
    rw [List.getLast?_eq_none_iff] at hl
    rw [hl] at he
    exact absurd he List.not_mem_nil
  | some x => exact ⟨x.timestampNs, by rw [h.last, hl]; rfl⟩

/-- a line that is held back was let through before -/
theorem Marks.held_back (h : Marks c seen) (hemit : c.shouldEmit e = false)
    (hns : ∀ ns, c.ns = some ns → ns ≤ e.timestampNs) : ∃ x ∈ seen, x.key = e.key := by
  have hnot : ¬ c.shouldEmit e = true := by
    rw [hemit]
    exact Bool.false_ne_true
  rw [shouldEmit_iff] at hnot
  push Not at hnot
  obtain ⟨ns, hc, hnot⟩ := hnot
  obtain ⟨hts, hline⟩ := hnot (hns ns hc)
  obtain ⟨x, hx, hcx, hxl⟩ := (h.marked e.line).mp hline
  refine ⟨x, hx, ?_⟩
  rw [hc] at hcx
  unfold LogEntry.key
  rw [hxl, ← Option.some.inj hcx, hts]

theorem Cursor.advance_ns (hns : ∀ ns, c.ns = some ns → ns ≤ e.timestampNs) :
    (c.advance e).ns = some e.timestampNs := by
  unfold Cursor.advance
  split
  · rfl
  · rename_i ns hc
    split
    · rfl
    · have := hns ns hc
      show c.ns = _
      rw [hc]
      congr 1
      omega

theorem Marks.advance (h : Marks c seen) (hemit : c.shouldEmit e = true) :
    Marks (c.advance e) (seen ++ [e]) := by
  rw [shouldEmit_iff] at hemit
  have hns : ∀ ns, c.ns = some ns → ns ≤ e.timestampNs := fun ns hc => (hemit ns hc).1
  have hle : ∀ x ∈ seen, x.timestampNs ≤ e.timestampNs := by
    intro x hx
    obtain ⟨ns, hc⟩ := h.nonempty hx
    exact (h.le hc hx).trans (hns ns hc)
  constructor
  · rw [List.pairwise_append]
    refine ⟨h.ordered, List.pairwise_singleton _ _, fun x hx y hy => ?_⟩
    rw [List.mem_singleton.mp hy]
    exact hle x hx
  · rw [List.pairwise_append]
    refine ⟨h.once, List.pairwise_singleton _ _, fun x hx y hy hkey => ?_⟩
    rw [List.mem_singleton.mp hy] at hkey
    obtain ⟨ns, hc⟩ := h.nonempty hx
    obtain ⟨hts, hline⟩ := Prod.mk.inj hkey
    have hxns : x.timestampNs = ns := le_antisymm (h.le hc hx) (hts ▸ hns ns hc)
    refine (hemit ns hc).2 ⟨hts ▸ hxns, (h.marked _).mpr ⟨x, hx, ?_, hline⟩⟩
    rw [hc, hxns]
  · rw [Cursor.advance_ns hns, List.getLast?_concat]
    rfl
  · intro line
    rw [Cursor.advance_ns hns]
    have hfresh : (∀ ns, c.ns = some ns → ns < e.timestampNs) →
        (line ∈ [e.line] ↔
          ∃ x ∈ seen ++ [e], some e.timestampNs = some x.timestampNs ∧ x.line = line) := by
      intro hlt
      constructor
      · intro hl
        exact ⟨e, List.mem_append_right _ (List.mem_singleton_self e), rfl,
          (List.mem_singleton.mp hl).symm⟩
      · rintro ⟨x, hx, hxe, rfl⟩
        rcases List.mem_append.mp hx with hx | hx
        · obtain ⟨ns, hc⟩ := h.nonempty hx
          have h1 := h.le hc hx
          have h2 := hlt ns hc
          have h3 := Option.some.inj hxe
          omega
        · rw [List.mem_singleton.mp hx]
          exact List.mem_singleton_self _
    unfold Cursor.advance
    split
    · rename_i hc
      apply hfresh
      intro ns hc'
      rw [hc] at hc'
      cases hc'
    · rename_i ns hc
      split
      · rename_i hlt
        apply hfresh
        intro ns' hc'
        rw [hc] at hc'
        cases hc'
        exact hlt
      · rename_i hge
        have heq : e.timestampNs = ns := le_antisymm (Nat.le_of_not_lt hge) (hns ns hc)
        show line ∈ e.line :: c.deliveredAtNs ↔ _
        rw [List.mem_cons, h.marked, hc, heq]
        constructor
        · rintro (rfl | ⟨x, hx, hxn, hxl⟩)
          · exact ⟨e, List.mem_append_right _ (List.mem_singleton_self e), by rw [heq], rfl⟩
          · exact ⟨x, List.mem_append_left _ hx, hxn, hxl⟩
        · rintro ⟨x, hx, hxn, hxl⟩
          rcases List.mem_append.mp hx with hx | hx
          · exact .inr ⟨x, hx, hxn, hxl⟩
          · rw [List.mem_singleton.mp hx] at hxl
            exact .inl hxl.symm

/-- **a batch goes through once**: after it, the cursor marks what it let through, and every line of
the batch is there -/
theorem Cursor.deliver_marks {batch : List LogEntry} (h : Marks c seen)
    (hsorted : batch.Pairwise fun a b => a.timestampNs ≤ b.timestampNs)
    (hns : ∀ b ∈ batch, ∀ ns, c.ns = some ns → ns ≤ b.timestampNs) :
    Marks (c.deliver batch).1 (seen ++ (c.deliver batch).2) ∧
      (c.deliver batch).2.Sublist batch ∧
      ∀ b ∈ batch, ∃ x ∈ seen ++ (c.deliver batch).2, x.key = b.key := by
  induction batch generalizing c seen with
  | nil =>
    rw [Cursor.deliver, List.append_nil]
    exact ⟨h, .slnil, fun b hb => absurd hb List.not_mem_nil⟩
  | cons e batch ih =>
    rw [List.pairwise_cons] at hsorted
    have hrest : ∀ b ∈ batch, ∀ ns, c.ns = some ns → ns ≤ b.timestampNs :=
      fun b hb => hns b (List.mem_cons_of_mem _ hb)
    have he := hns e List.mem_cons_self
    unfold Cursor.deliver
    split
    · rename_i hemit
      have hafter : ∀ b ∈ batch, ∀ ns, (c.advance e).ns = some ns → ns ≤ b.timestampNs := by
        intro b hb ns hb'
        rw [Cursor.advance_ns he] at hb'
        cases hb'
        exact hsorted.1 b hb
      obtain ⟨hmarks, hsub, hall⟩ := ih (h.advance hemit) hsorted.2 hafter
      rw [List.append_assoc, List.singleton_append] at hmarks hall
      refine ⟨hmarks, hsub.cons_cons e, fun b hb => ?_⟩
      rcases List.mem_cons.mp hb with rfl | hb
      · exact ⟨b, List.mem_append_right _ List.mem_cons_self, rfl⟩
      · exact hall b hb
    · rename_i hemit
      rw [Bool.not_eq_true] at hemit
      obtain ⟨hmarks, hsub, hall⟩ := ih h hsorted.2 hrest
      refine ⟨hmarks, hsub.cons e, fun b hb => ?_⟩
      rcases List.mem_cons.mp hb with rfl | hb
      · obtain ⟨x, hx, hkey⟩ := h.held_back hemit he
        exact ⟨x, List.mem_append_left _ hx, hkey⟩
      · exact hall b hb

end

/-! ## One stream -/

/-- the stream is answerable for the line: it comes at or after the resume point, or after a line
that the stream has let through -/
def Due (since : Option Nat) (seen : List LogEntry) (e : LogEntry) : Prop :=
  (∃ ns, since = some ns ∧ ns ≤ e.timestampNs) ∨ ∃ f ∈ seen, f.timestampNs < e.timestampNs

/-- **what a stream has sent**: its events are what the entries `seen` render to.  They are in the
order of their timestamps, no two are alike, and no line of the store is missing among them up to
the cursor. -/
structure Follows (source : LogSource δ) (store : List LogEntry) (since : Option Nat)
    (seen : List LogEntry) (s : Stream δ) : Prop where
  marks : Marks s.cursor seen
  events : s.events = seen.filterMap source.render
  stored : ∀ e ∈ seen, e ∈ store
  resumed : ∀ e ∈ seen, ∀ ns, since = some ns → ns ≤ e.timestampNs
  complete : ∀ e ∈ store, Due since seen e → ∀ ns, s.cursor.ns = some ns → e.timestampNs < ns →
    ∃ x ∈ seen, x.key = e.key

section
variable {store seen : List LogEntry} {since : Option Nat} {s : Stream δ} {now : Nat}

theorem Follows.due_of_append (h : Follows source store since seen s) {taken : List LogEntry}
    (htaken : ∀ b ∈ taken, ∀ ns, s.cursor.ns = some ns → ns ≤ b.timestampNs) {e : LogEntry}
    (hdue : Due since (seen ++ taken) e) {ns : Nat} (hns : s.cursor.ns = some ns) :
    Due since seen e := by
  rcases hdue with hdue | ⟨f, hf, hlt⟩
  · exact .inl hdue
  rcases List.mem_append.mp hf with hf | hf
  · exact .inr ⟨f, hf, hlt⟩
  -- the entry the cursor stands at is no later than one of the batch
  have hlast := h.marks.last
  rw [hns] at hlast
  obtain ⟨x, hx, hxns⟩ := Option.map_eq_some_iff.mp hlast.symm
  have hle := htaken f hf ns hns
  exact .inr ⟨x, List.mem_of_getLast? hx, by omega⟩

/-- a line arrives that is not before the cursor -/
theorem Follows.arrive (h : Follows source store since seen s) {entry : LogEntry}
    (hentry : ∀ ns, s.cursor.ns = some ns → ns ≤ entry.timestampNs) :
    Follows source (store ++ [entry]) since seen s where
  marks := h.marks
  events := h.events
  stored := fun e he => List.mem_append_left _ (h.stored e he)
  resumed := h.resumed
  complete := by
    intro e he hdue ns hns hlt
    rcases List.mem_append.mp he with he | he
    · exact h.complete e he hdue ns hns hlt
    · rw [List.mem_singleton.mp he] at hlt
      exact absurd (hentry ns hns) (Nat.not_le_of_lt hlt)

/-- what a turn of the loop does: it goes on from the batch, or it is the last -/
theorem poll_cases (settings : Settings) (source : LogSource δ) (now : Nat)
    (answer : Except String (List LogEntry)) (s : Stream δ) :
    ∃ chunks, (s.poll settings source now answer).sent = s.sent ++ chunks ∧
      (((s.poll settings source now answer).cursor = s.cursor ∧
          (s.poll settings source now answer).isOpen = false ∧
          chunks.filterMap Chunk.data? = []) ∨
        ∃ entries, answer = .ok entries ∧
          (s.poll settings source now answer).cursor = (s.cursor.deliver entries).1 ∧
          chunks.filterMap Chunk.data? =
            (s.cursor.deliver entries).2.filterMap source.render) := by
  have hemit : ∀ l : List δ, (l.map Chunk.event).filterMap Chunk.data? = l := by
    intro l
    rw [List.filterMap_map]
    exact List.filterMap_some
  have hlast : ∀ (entries : List LogEntry) (chunk : Chunk δ), chunk.data? = none →
      (source.emit (s.cursor.deliver entries).2 ++ [chunk]).filterMap Chunk.data? =
        (s.cursor.deliver entries).2.filterMap source.render := by
    intro entries chunk hchunk
    rw [List.filterMap_append, LogSource.emit, hemit, List.filterMap_cons_none hchunk]
    exact List.append_nil _
  unfold Stream.poll
  split
  · exact ⟨[.ended endLifetime], rfl, .inl ⟨rfl, rfl, rfl⟩⟩
  split
  · rename_i message
    exact ⟨[.error "log_store_unavailable" message], rfl, .inl ⟨rfl, rfl, rfl⟩⟩
  · rename_i entries
    dsimp only
    generalize (if (source.emit (s.cursor.deliver entries).2).isEmpty = true then s.lastWriteAt
      else now) = lastWriteAt
    split
    · split
      · exact ⟨_, List.append_assoc .., .inr ⟨entries, rfl, rfl, hlast entries _ rfl⟩⟩
      · exact ⟨_, rfl, .inr ⟨entries, rfl, rfl, hemit _⟩⟩
    · split
      · exact ⟨_, List.append_assoc .., .inr ⟨entries, rfl, rfl, hlast entries _ rfl⟩⟩
      · exact ⟨_, rfl, .inr ⟨entries, rfl, rfl, hemit _⟩⟩

theorem events_append {s' : Stream δ} {chunks : List (Chunk δ)} (h : s'.sent = s.sent ++ chunks) :
    s'.events = s.events ++ chunks.filterMap Chunk.data? := by
  rw [Stream.events, h, List.filterMap_append]
  rfl

/-- a batch that answers the cursor's query leaves no gap behind the cursor -/
theorem Follows.complete_deliver (h : Follows source store since seen s) {entries : List LogEntry}
    {clock lokiNow : Nat} (hsince : ∀ ns, since = some ns → ∃ m, s.cursor.ns = some m)
    (hanswer : (s.query clock).Answers lokiNow store entries)
    (hsorted : entries.Pairwise fun a b => a.timestampNs ≤ b.timestampNs) {e : LogEntry}
    (he : e ∈ store) (hdue : Due since (seen ++ (s.cursor.deliver entries).2) e)
    (hbefore : (∃ ns, (s.cursor.deliver entries).1.ns = some ns ∧ e.timestampNs < ns) ∨
      entries.length < s.batchLimit ∧ e.timestampNs < lokiNow) :
    ∃ x ∈ seen ++ (s.cursor.deliver entries).2, x.key = e.key := by
  have hns : ∀ b ∈ entries, ∀ ns, s.cursor.ns = some ns → ns ≤ b.timestampNs := by
    intro b hb ns hc
    have hstart := (hanswer.matches hb).2.1
    rw [Stream.query, hc] at hstart
    exact hstart
  obtain ⟨hmarks, hsub, hall⟩ := Cursor.deliver_marks h.marks hsorted hns
  -- it is enough that the line starts in the query's range, or was sent before
  have hrange : (∀ ns, s.cursor.ns = some ns → ns ≤ e.timestampNs) →
      (s.query clock).startNs ≤ e.timestampNs → ∃ x ∈ seen ++ (s.cursor.deliver entries).2,
        x.key = e.key := by
    intro hge hstart
    apply hall
    rcases hbefore with ⟨ns, hc, hlt⟩ | ⟨hshort, hend⟩
    · have hlast := hmarks.last
      rw [hc] at hlast
      obtain ⟨y, hy, rfl⟩ := Option.map_eq_some_iff.mp hlast.symm
      have hy : y ∈ entries := by
        rcases List.mem_append.mp (List.mem_of_getLast? hy) with hy | hy
        · obtain ⟨m, hm⟩ := h.marks.nonempty hy
          have h1 := h.marks.le hm hy
          have h2 := hge m hm
          omega
        · exact hsub.subset hy
      by_contra hout
      have hy' := hanswer.matches hy
      have hle : y.timestampNs ≤ e.timestampNs :=
        hanswer.left_out he hstart (hlt.trans hy'.2.2) hout hy
      omega
    · exact hanswer.short hshort he hstart hend
  cases hc : s.cursor.ns with
  | some ns =>
    have hdue' := h.due_of_append (fun b hb => hns b (hsub.subset hb)) hdue hc
    by_cases hlt : e.timestampNs < ns
    · obtain ⟨x, hx, hkey⟩ := h.complete e he hdue' ns hc hlt
      exact ⟨x, List.mem_append_left _ hx, hkey⟩
    · refine hrange ?_ ?_
      · intro m hm
        rw [hc] at hm
        cases hm
        exact Nat.le_of_not_lt hlt
      · rw [Stream.query, hc]
        exact Nat.le_of_not_lt hlt
  | none =>
    refine hrange (fun ns hm => ?_) ?_
    · rw [hc] at hm
      cases hm
    · rcases hdue with ⟨ns, hsome, -⟩ | ⟨f, hf, hlt⟩
      · obtain ⟨m, hm⟩ := hsince ns hsome
        rw [hc] at hm
        cases hm
      · rcases List.mem_append.mp hf with hf | hf
        · obtain ⟨m, hm⟩ := h.marks.nonempty hf
          rw [hc] at hm
          cases hm
        · exact ((hanswer.matches (hsub.subset hf)).2.1).trans hlt.le

variable (settings now) in
/-- **a turn of the loop**: what the stream has sent still has no gap, and unless it was the last,
an answer short of the limit leaves nothing behind -/
theorem Follows.poll (h : Follows source store since seen s)
    {answer : Except String (List LogEntry)} (clock lokiNow : Nat)
    (hsince : ∀ ns, since = some ns → ∃ m, s.cursor.ns = some m)
    (hanswer : ∀ entries, answer = .ok entries →
      (s.query clock).Answers lokiNow store entries ∧
        entries.Pairwise fun a b => a.timestampNs ≤ b.timestampNs) :
    ∃ taken chunks, (s.poll settings source now answer).sent = s.sent ++ chunks ∧
      chunks.filterMap Chunk.data? = taken.filterMap source.render ∧
      Follows source store since (seen ++ taken) (s.poll settings source now answer) ∧
      ∀ entries, answer = .ok entries → entries.length < s.batchLimit →
        (s.poll settings source now answer).isOpen = true → ∀ e ∈ store,
          Due since (seen ++ taken) e → e.timestampNs < lokiNow →
          ∃ x ∈ seen ++ taken, x.key = e.key := by
  obtain ⟨chunks, hsent, ⟨hcursor, hover, hnone⟩ | ⟨entries, rfl, hcursor, hsome⟩⟩ :=
    poll_cases settings source now answer s
  · refine ⟨[], chunks, hsent, hnone, ?_, fun entries _ _ hopen => ?_⟩
    · rw [List.append_nil]
      exact
        { h with
          marks := hcursor ▸ h.marks
          events := by rw [events_append hsent, hnone, List.append_nil, h.events]
          complete := hcursor ▸ h.complete }
    · rw [hover] at hopen
      cases hopen
  · obtain ⟨hans, hsorted⟩ := hanswer entries rfl
    have hns : ∀ b ∈ entries, ∀ ns, s.cursor.ns = some ns → ns ≤ b.timestampNs := by
      intro b hb ns hc
      have hstart := (hans.matches hb).2.1
      rw [Stream.query, hc] at hstart
      exact hstart
    obtain ⟨hmarks, hsub, -⟩ := Cursor.deliver_marks h.marks hsorted hns
    refine ⟨_, chunks, hsent, hsome, ⟨?_, ?_, ?_, ?_, ?_⟩, ?_⟩
    · rw [hcursor]
      exact hmarks
    · rw [events_append hsent, hsome, h.events, List.filterMap_append]
    · intro e he
      rcases List.mem_append.mp he with he | he
      · exact h.stored e he
      · exact (hans.matches (hsub.subset he)).1
    · intro e he ns hres
      rcases List.mem_append.mp he with he | he
      · exact h.resumed e he ns hres
      · obtain ⟨m, hm⟩ := hsince ns hres
        have hlast := h.marks.last
        rw [hm] at hlast
        obtain ⟨y, hy, rfl⟩ := Option.map_eq_some_iff.mp hlast.symm
        exact (h.resumed y (List.mem_of_getLast? hy) ns hres).trans
          (hns e (hsub.subset he) _ hm)
    · intro e he hdue ns hc hlt
      rw [hcursor] at hc
      exact h.complete_deliver hsince hans hsorted he hdue (.inl ⟨ns, hc, hlt⟩)
    · intro entries' heq hshort _ e he hdue hend
      cases heq
      exact h.complete_deliver hsince hans hsorted he hdue (.inr ⟨hshort, hend⟩)

/-- the first batch of a request -/
theorem Follows.start {entries : List LogEntry} {tail clock lokiNow : Nat} {lookback : Option Nat}
    (hanswer : (fetchInitial settings tail since lookback clock).Answers lokiNow store entries)
    (hsorted : entries.Pairwise fun a b => a.timestampNs ≤ b.timestampNs) :
    Follows source store since (Cursor.init.deliver entries).2
      (Stream.start settings source entries true now) := by
  have hnone : ∀ b ∈ entries, ∀ ns, Cursor.init.ns = some ns → ns ≤ b.timestampNs := by
    rintro b - ns ⟨⟩
  obtain ⟨hmarks, hsub, hall⟩ := Cursor.deliver_marks Marks.init hsorted hnone
  rw [List.nil_append] at hmarks hall
  refine ⟨hmarks, ?_, fun e he => (hanswer.matches (hsub.subset he)).1, ?_, ?_⟩
  · show (source.emit (Cursor.init.deliver entries).2).filterMap Chunk.data? = _
    rw [LogSource.emit, List.filterMap_map]
    exact List.filterMap_some
  · rintro e he ns rfl
    exact (hanswer.matches (hsub.subset he)).2.1
  · intro e he hdue ns hc hlt
    apply hall
    have hlast := hmarks.last
    rw [show (Cursor.init.deliver entries).1.ns = some ns from hc] at hlast
    obtain ⟨y, hy, rfl⟩ := Option.map_eq_some_iff.mp hlast.symm
    have hy := hsub.subset (List.mem_of_getLast? hy)
    have hy' := hanswer.matches hy
    by_contra hout
    rcases hdue with ⟨m, rfl, hm⟩ | ⟨f, hf, hlt'⟩
    · have hle : y.timestampNs ≤ e.timestampNs :=
        hanswer.left_out he hm (hlt.trans hy'.2.2) hout hy
      omega
    · -- between two lines of the answer, whichever its direction
      have hf := hsub.subset hf
      have hstart := ((hanswer.matches hf).2.1).trans hlt'.le
      have hy := hanswer.left_out he hstart (hlt.trans hy'.2.2) hout hy
      have hf := hanswer.left_out he hstart (hlt.trans hy'.2.2) hout hf
      unfold Query.prefers at hy hf
      split at hy
      · exact absurd hlt (Nat.not_lt_of_le hy)
      · rename_i hdir
        rw [hdir] at hf
        exact absurd hlt' (Nat.not_lt_of_le hf)

/-- where the line at the resume point is still there, the first batch is not empty -/
theorem start_nonempty {entries : List LogEntry} {tail clock lokiNow p : Nat}
    {lookback : Option Nat}
    (hanswer : (fetchInitial settings tail (some p) lookback clock).Answers lokiNow store entries)
    (hsorted : entries.Pairwise fun a b => a.timestampNs ≤ b.timestampNs) (htail : 0 < tail)
    {e : LogEntry} (he : e ∈ store) (hp : e.timestampNs = p) (hloki : p < lokiNow) :
    ∃ m, (Stream.start settings source entries true now).cursor.ns = some m := by
  have hmem : e ∈ (fetchInitial settings tail (some p) lookback clock).matching lokiNow store :=
    mem_matching.mpr ⟨he, hp.ge, hp ▸ hloki⟩
  have hlength : 0 < entries.length := by
    have h1 : entries.length = min tail _ := hanswer.2.1
    have h2 := List.length_pos_of_mem hmem
    omega
  obtain ⟨b, hb⟩ := List.exists_mem_of_length_pos hlength
  obtain ⟨hmarks, -, hall⟩ := Cursor.deliver_marks Marks.init hsorted
    (by rintro b - ns ⟨⟩)
  obtain ⟨x, hx, -⟩ := hall b hb
  exact hmarks.nonempty hx

end

/-! ## The client -/

/-- **what the client has printed**: stored lines, in the order of their timestamps, with no line of
the log missing between the first and the last -/
structure Shown (source : LogSource δ) (store : List LogEntry) (f : Follower δ)
    (shown : List LogEntry) : Prop where
  printed : shown.map source.render = f.printed.map some
  stored : ∀ e ∈ shown, e ∈ store
  ordered : shown.Pairwise fun a b => a.timestampNs ≤ b.timestampNs
  last : f.ts = shown.getLast?.map LogEntry.timestampNs
  complete : ∀ e ∈ store, (source.render e).isSome = true →
    (∃ g ∈ shown, g.timestampNs < e.timestampNs) → ∀ p, f.ts = some p → e.timestampNs < p →
    ∃ x ∈ shown, x.key = e.key

/-- how far the client has read a stream: of the entries `got ++ rest` that the stream has let
through, it has read `got` -/
structure Reading (source : LogSource δ) (store : List LogEntry) (f : Follower δ)
    (shown : List LogEntry) (c : Connection δ) (got rest : List LogEntry) : Prop where
  follows : Follows source store c.since (got ++ rest) c.stream
  read : (c.stream.sent.take c.read).filterMap Chunk.data? = got.filterMap source.render
  bound : c.read ≤ c.stream.sent.length
  link : ∀ x ∈ got, (source.render x).isSome = true → ∃ y ∈ shown, y.key = x.key
  origin : ∀ y ∈ shown, y ∈ got ∨ ∃ ns, c.since = some ns ∧ y.timestampNs ≤ ns
  since : ∀ ns, c.since = some ns → (∃ m, c.stream.cursor.ns = some m) ∧
    ∃ p, f.ts = some p ∧ ns ≤ p

/-- what holds in every state of a run -/
def Followed (source : LogSource δ) (w : World δ) : Prop :=
  ∃ shown, Shown source w.store w.follower shown ∧ ∀ c, w.connection = some c →
    ∃ got rest, Reading source w.store w.follower shown c got rest

/-- a line arrives with a timestamp that nothing has passed that was read, and Loki's clock does not
go back behind a line it has given out -/
def InOrder (w : World δ) : Event → Prop
  | .arrive entry =>
    (∀ c, w.connection = some c → ∀ ns, c.stream.cursor.ns = some ns → ns ≤ entry.timestampNs) ∧
      ∀ p, w.follower.ts = some p → p ≤ entry.timestampNs
  | .connect lokiNow _ _ => ∀ p, w.follower.ts = some p → p < lokiNow
  | _ => True

section
variable {store shown got rest : List LogEntry} {f f' : Follower δ} {c : Connection δ}

theorem Shown.of_eq (h : Shown source store f shown) (hts : f'.ts = f.ts)
    (hprinted : f'.printed = f.printed) : Shown source store f' shown where
  printed := hprinted ▸ h.printed
  stored := h.stored
  ordered := h.ordered
  last := hts.trans h.last
  complete := hts ▸ h.complete

theorem Shown.le (h : Shown source store f shown) {p : Nat} (hp : f.ts = some p) {e : LogEntry}
    (he : e ∈ shown) : e.timestampNs ≤ p := by
  rw [h.last, Option.map_eq_some_iff] at hp
  obtain ⟨x, hx, rfl⟩ := hp
  obtain ⟨ys, rfl⟩ := List.getLast?_eq_some_iff.mp hx
  rcases List.mem_append.mp he with he | he
  · exact (List.pairwise_append.mp h.ordered).2.2 e he x (List.mem_singleton_self x)
  · rw [List.mem_singleton.mp he]

theorem Shown.nonempty (h : Shown source store f shown) {e : LogEntry} (he : e ∈ shown) :
    ∃ p, f.ts = some p := by
  cases hl : shown.getLast? with
  | none =>
    rw [List.getLast?_eq_none_iff] at hl
    rw [hl] at he
    exact absurd he List.not_mem_nil
  | some x => exact ⟨x.timestampNs, by rw [h.last, hl]; rfl⟩

theorem Shown.arrive (h : Shown source store f shown) {entry : LogEntry}
    (hentry : ∀ p, f.ts = some p → p ≤ entry.timestampNs) :
    Shown source (store ++ [entry]) f shown where
  printed := h.printed
  stored := fun e he => List.mem_append_left _ (h.stored e he)
  ordered := h.ordered
  last := h.last
  complete := by
    intro e he hown hfirst p hp hlt
    rcases List.mem_append.mp he with he | he
    · exact h.complete e he hown hfirst p hp hlt
    · rw [List.mem_singleton.mp he] at hlt
      exact absurd (hentry p hp) (Nat.not_le_of_lt hlt)

/-- **a line is printed**: the next event of the stream is what `x` renders to, and the entries
`skipped` before it are no records -/
theorem Reading.print {skipped after : List LogEntry} {x : LogEntry} {data : δ}
    (hs : Shown source store f shown)
    (h : Reading source store f shown c got (skipped ++ x :: after))
    (hskipped : ∀ y ∈ skipped, source.render y = none) (hx : source.render x = some data) :
    Shown source store (f.print source data) (shown ++ [x]) := by
  have hts : source.ts data = x.timestampNs := source.ts_render x data hx
  have hord := h.follows.marks.ordered
  have hxmem : x ∈ got ++ (skipped ++ x :: after) :=
    List.mem_append_right _ (List.mem_append_right _ List.mem_cons_self)
  -- what was printed before is no later
  have hle : ∀ y ∈ shown, y.timestampNs ≤ x.timestampNs := by
    intro y hy
    rcases h.origin y hy with hgot | ⟨ns, hns, hyn⟩
    · exact (List.pairwise_append.mp hord).2.2 y hgot x
        (List.mem_append_right _ List.mem_cons_self)
    · exact hyn.trans (h.follows.resumed x hxmem ns hns)
  constructor
  · rw [List.map_append, hs.printed]
    show f.printed.map some ++ [source.render x] = (f.printed ++ [data]).map some
    rw [hx, List.map_append]
    rfl
  · intro e he
    rcases List.mem_append.mp he with he | he
    · exact hs.stored e he
    · rw [List.mem_singleton.mp he]
      exact h.follows.stored x hxmem
  · rw [List.pairwise_append]
    refine ⟨hs.ordered, List.pairwise_singleton _ _, fun y hy z hz => ?_⟩
    rw [List.mem_singleton.mp hz]
    exact hle y hy
  · rw [List.getLast?_concat]
    exact congrArg some hts
  · rintro e he hown ⟨g, hg, hge⟩ p hp hlt
    obtain rfl : x.timestampNs = p := hts.symm.trans (Option.some.inj hp)
    have hg : g ∈ shown := by
      rcases List.mem_append.mp hg with hg | hg
      · exact hg
      · rw [List.mem_singleton.mp hg] at hge
        omega
    obtain ⟨p, hp⟩ := hs.nonempty hg
    by_cases hep : e.timestampNs < p
    · obtain ⟨y, hy, hkey⟩ := hs.complete e he hown ⟨g, hg, hge⟩ p hp hep
      exact ⟨y, List.mem_append_left _ hy, hkey⟩
    -- the stream is answerable for it, so it lies before `x` and was read
    have hdue : Due c.since (got ++ (skipped ++ x :: after)) e := by
      rcases h.origin g hg with hgot | ⟨ns, hns, -⟩
      · exact .inr ⟨g, List.mem_append_left _ hgot, hge⟩
      · obtain ⟨-, p', hp', hle'⟩ := h.since ns hns
        rw [hp] at hp'
        cases hp'
        exact .inl ⟨ns, hns, hle'.trans (Nat.le_of_not_lt hep)⟩
    obtain ⟨m, hm⟩ := h.follows.marks.nonempty hxmem
    obtain ⟨y, hy, hkey⟩ := h.follows.complete e he hdue m hm
      (hlt.trans_le (h.follows.marks.le hm hxmem))
    obtain ⟨hyts, hyline⟩ := Prod.mk.inj hkey
    have hafter : ∀ z ∈ x :: after, x.timestampNs ≤ z.timestampNs := by
      intro z hz
      rcases List.mem_cons.mp hz with rfl | hz
      · exact le_rfl
      · have hrest := (List.pairwise_append.mp (List.pairwise_append.mp hord).2.1).2.1
        exact (List.pairwise_cons.mp hrest).1 z hz
    rcases List.mem_append.mp hy with hy | hy
    · have hyown : (source.render y).isSome = true := by
        rw [source.own_line y e hyline]
        exact hown
      obtain ⟨z, hz, hzkey⟩ := h.link y hy hyown
      exact ⟨z, List.mem_append_left _ hz, hzkey.trans hkey⟩
    · rcases List.mem_append.mp hy with hy | hy
      · rw [source.own_line e y hyline.symm, hskipped y hy] at hown
        cases hown
      · have hle := hafter y hy
        omega

theorem Follower.over_kept (options : FollowOptions) (f : Follower δ) (reason : Option String) :
    (f.over options reason).ts = f.ts ∧ (f.over options reason).printed = f.printed := by
  cases reason with
  | some reason =>
    unfold Follower.over
    dsimp only
    by_cases h : reason = endLifetime
    · rw [if_pos h]
      exact ⟨rfl, rfl⟩
    · rw [if_neg h]
      exact ⟨rfl, rfl⟩
  | none =>
    unfold Follower.over
    dsimp only
    generalize (if f.delivered < f.printed.length then 0 else f.failures) = failures
    split <;> exact ⟨rfl, rfl⟩

theorem Follower.interrupted_kept (options : FollowOptions) (f : Follower δ) :
    (f.interrupted options).ts = f.ts ∧ (f.interrupted options).printed = f.printed := by
  unfold Follower.interrupted
  split <;> exact ⟨rfl, rfl⟩

theorem Reading.arrive (h : Reading source store f shown c got rest) {entry : LogEntry}
    (hentry : ∀ ns, c.stream.cursor.ns = some ns → ns ≤ entry.timestampNs) :
    Reading source (store ++ [entry]) f shown c got rest :=
  { h with follows := h.follows.arrive hentry }

variable (settings) in
/-- the connection after a turn of the platform's loop -/
theorem Reading.poll (h : Reading source store f shown c got rest) (now clock lokiNow : Nat)
    {answer : Except String (List LogEntry)}
    (hanswer : ∀ entries, answer = .ok entries →
      (c.stream.query clock).Answers lokiNow store entries ∧
        entries.Pairwise fun a b => a.timestampNs ≤ b.timestampNs) :
    ∃ taken, Reading source store f shown
      { c with stream := c.stream.poll settings source now answer } got (rest ++ taken) := by
  obtain ⟨taken, chunks, hsent, -, hfollows, -⟩ :=
    h.follows.poll settings now clock lokiNow (fun ns hns => (h.since ns hns).1) hanswer
  rw [List.append_assoc] at hfollows
  refine ⟨taken, hfollows, ?_, ?_, h.link, h.origin, fun ns hns => ⟨?_, (h.since ns hns).2⟩⟩
  · show ((c.stream.poll settings source now answer).sent.take c.read).filterMap _ = _
    rw [hsent, List.take_append_of_le_length h.bound]
    exact h.read
  · show c.read ≤ (c.stream.poll settings source now answer).sent.length
    rw [hsent, List.length_append]
    exact h.bound.trans (Nat.le_add_right _ _)
  · obtain ⟨m, hm⟩ := (h.since ns hns).1
    have hlast := h.follows.marks.last
    rw [hm] at hlast
    obtain ⟨y, hy, -⟩ := Option.map_eq_some_iff.mp hlast.symm
    refine hfollows.marks.nonempty (e := y) ?_
    rw [← List.append_assoc]
    exact List.mem_append_left _ (List.mem_of_getLast? hy)

/-- the connection after the client has read a chunk that is no event -/
theorem Reading.skip (h : Reading source store f shown c got rest) {chunk : Chunk δ}
    (hchunk : c.stream.sent[c.read]? = some chunk) (hdata : chunk.data? = none) :
    Reading source store f shown { c with read := c.read + 1 } got rest := by
  refine { h with read := ?_, bound := ?_ }
  · show (c.stream.sent.take (c.read + 1)).filterMap _ = _
    rw [List.take_add_one, hchunk, List.filterMap_append, h.read]
    show _ ++ [chunk].filterMap _ = _
    rw [List.filterMap_cons_none hdata]
    exact List.append_nil _
  · exact (List.getElem?_eq_some_iff.mp hchunk).1

/-- the connection, and what is printed, after the client has read an event -/
theorem Reading.event (hs : Shown source store f shown)
    (h : Reading source store f shown c got rest) {data : δ}
    (hchunk : c.stream.sent[c.read]? = some (.event data)) :
    ∃ shown' got' rest', Shown source store (f.print source data) shown' ∧
      Reading source store (f.print source data) shown' { c with read := c.read + 1 }
        got' rest' := by
  obtain ⟨hlt, hget⟩ := List.getElem?_eq_some_iff.mp hchunk
  have hall := h.follows.events
  rw [Stream.events, List.filterMap_append, ← h.read] at hall
  have hsplit : c.stream.sent =
      c.stream.sent.take c.read ++ .event data :: c.stream.sent.drop (c.read + 1) := by
    rw [← hget, List.getElem_cons_drop, List.take_append_drop]
  rw [hsplit, List.filterMap_append, ← hsplit] at hall
  have hrest : rest.filterMap source.render =
      data :: (c.stream.sent.drop (c.read + 1)).filterMap Chunk.data? :=
    (List.append_cancel_left hall).symm
  obtain ⟨skipped, x, after, rfl, hskipped, hx, -⟩ := List.filterMap_eq_cons_iff.mp hrest
  have hts : source.ts data = x.timestampNs := source.ts_render x data hx
  refine ⟨shown ++ [x], got ++ (skipped ++ [x]), after, h.print hs hskipped hx, ?_⟩
  have heq : got ++ (skipped ++ x :: after) = got ++ (skipped ++ [x]) ++ after := by
    simp
  constructor
  · exact heq ▸ h.follows
  · show (c.stream.sent.take (c.read + 1)).filterMap _ = _
    rw [List.take_add_one, hchunk, List.filterMap_append, h.read, List.filterMap_append,
      List.filterMap_append, List.filterMap_eq_nil_iff.mpr hskipped, List.nil_append,
      List.filterMap_cons_some hx]
    rfl
  · exact hlt
  · intro y hy hown
    rcases List.mem_append.mp hy with hy | hy
    · obtain ⟨z, hz, hkey⟩ := h.link y hy hown
      exact ⟨z, List.mem_append_left _ hz, hkey⟩
    · rcases List.mem_append.mp hy with hy | hy
      · rw [hskipped y hy] at hown
        cases hown
      · rw [List.mem_singleton.mp hy]
        exact ⟨x, List.mem_append_right _ (List.mem_singleton_self x), rfl⟩
  · intro y hy
    rcases List.mem_append.mp hy with hy | hy
    · rcases h.origin y hy with hgot | hns
      · exact .inl (List.mem_append_left _ hgot)
      · exact .inr hns
    · exact .inl (List.mem_append_right _ (List.mem_append_right _ hy))
  · intro ns hns
    refine ⟨(h.since ns hns).1, x.timestampNs, congrArg some hts, ?_⟩
    refine h.follows.resumed x ?_ ns hns
    exact List.mem_append_right _ (List.mem_append_right _ List.mem_cons_self)

/-- **every step keeps what the client has printed without a gap** -/
theorem Followed.step {w w' : World δ} {ev : Event}
    (hsettings : 0 < settings.logTailLines ∧ 0 < settings.logMaxTailLines)
    (h : Followed source w) (hok : InOrder w ev)
    (hstep : w.step settings source options ev = some w') : Followed source w' := by
  obtain ⟨shown, hs, hc⟩ := h
  have hdown : ∀ f' : Follower δ, f'.ts = w.follower.ts → f'.printed = w.follower.printed →
      Followed source { w with follower := f', connection := none } := by
    intro f' hts hprinted
    exact ⟨shown, hs.of_eq hts hprinted, fun c hc => by cases hc⟩
  unfold World.step at hstep
  cases ev with
  | arrive entry =>
    cases hstep
    refine ⟨shown, hs.arrive hok.2, fun c hconn => ?_⟩
    obtain ⟨got, rest, hr⟩ := hc c hconn
    exact ⟨got, rest, hr.arrive (hok.1 c hconn)⟩
  | pass d =>
    cases hstep
    exact ⟨shown, hs, hc⟩
  | connect lokiNow now result =>
    simp only [Option.bind_eq_bind, Option.bind_eq_some_iff, Option.guard_eq_some'] at hstep
    obtain ⟨-, -, query, hquery, -, hanswer, hw⟩ := hstep
    cases hw
    unfold Request.query at hquery
    simp only [Option.bind_eq_bind, Option.bind_eq_some_iff] at hquery
    obtain ⟨resumeNs, hresume, lookback, -, hq⟩ := hquery
    cases hq
    have hresume : resumeNs = w.follower.ts := by
      unfold parseResumeTimestamp at hresume
      split at hresume
      · rename_i hnone
        cases hresume
        exact hnone.symm
      · rename_i ns hsome
        split at hresume
        · cases hresume
          exact hsome.symm
        · cases hresume
    subst hresume
    refine ⟨shown, hs.of_eq rfl rfl, ?_⟩
    rintro c ⟨⟩
    refine ⟨[], _, ⟨.start hanswer (parse_ordered result), rfl, Nat.zero_le _, ?_, ?_, ?_⟩⟩
    · exact fun x hx => absurd hx List.not_mem_nil
    · intro y hy
      obtain ⟨p, hp⟩ := hs.nonempty hy
      exact .inr ⟨p, hp, hs.le hp hy⟩
    · intro ns hns
      refine ⟨?_, ns, hns, le_rfl⟩
      have hlast := hs.last
      rw [show w.follower.ts = some ns from hns] at hlast hanswer
      obtain ⟨e, he, hets⟩ := Option.map_eq_some_iff.mp hlast.symm
      have hopts : (w.follower.request options).since = some ns := hns
      refine start_nonempty hanswer (parse_ordered result) ?_
        (hs.stored e (List.mem_of_getLast? he)) hets (hok ns hns)
      unfold requestedTail
      have hpos : 0 < ((w.follower.request options).tail.filter (· ≠ 0)).getD
          settings.logTailLines := by
        cases hf : (w.follower.request options).tail.filter (· ≠ 0) with
        | none => exact hsettings.1
        | some n =>
          have hne := (Option.filter_eq_some_iff.mp hf).2
          exact Nat.pos_of_ne_zero (of_decide_eq_true hne)
      exact lt_min hpos hsettings.2
  | refuse =>
    simp only [Option.bind_eq_bind, Option.bind_eq_some_iff, Option.guard_eq_some'] at hstep
    obtain ⟨-, hidle, hw⟩ := hstep
    cases hw
    refine ⟨shown, hs.of_eq rfl rfl, fun c hconn => ?_⟩
    rw [Option.isNone_iff_eq_none.mp hidle.1] at hconn
    cases hconn
  | poll lokiNow now answer =>
    simp only [Option.bind_eq_bind, Option.bind_eq_some_iff, Option.guard_eq_some'] at hstep
    obtain ⟨c, hconn, -, -, hw⟩ := hstep
    obtain ⟨got, rest, hr⟩ := hc c hconn
    split at hw
    · rename_i message
      cases hw
      refine ⟨shown, hs, ?_⟩
      rintro _ ⟨⟩
      have hnone : ∀ entries, (Except.error message : Except String (List LogEntry)) = .ok entries →
          (c.stream.query w.clock).Answers lokiNow w.store entries ∧
            entries.Pairwise fun a b => a.timestampNs ≤ b.timestampNs := by
        rintro _ ⟨⟩
      obtain ⟨taken, hr⟩ := hr.poll settings now w.clock lokiNow hnone
      exact ⟨got, _, hr⟩
    · rename_i result
      simp only [Option.bind_eq_some_iff, Option.guard_eq_some'] at hw
      obtain ⟨-, hanswer, hw⟩ := hw
      cases hw
      refine ⟨shown, hs, ?_⟩
      rintro _ ⟨⟩
      obtain ⟨taken, hr⟩ := hr.poll settings now w.clock lokiNow (by
        show ∀ entries, Except.ok (parse result) = .ok entries → _
        rintro _ ⟨⟩
        exact ⟨hanswer, parse_ordered result⟩)
      exact ⟨got, _, hr⟩
  | read =>
    simp only [Option.bind_eq_bind, Option.bind_eq_some_iff] at hstep
    obtain ⟨c, hconn, chunk, hchunk, hw⟩ := hstep
    cases hw
    obtain ⟨got, rest, hr⟩ := hc c hconn
    cases chunk with
    | event data =>
      obtain ⟨shown', got', rest', hs', hr'⟩ := hr.event hs hchunk
      exact ⟨shown', hs', fun c' hc' => by cases hc'; exact ⟨got', rest', hr'⟩⟩
    | keepalive =>
      exact ⟨shown, hs, fun c' hc' => by cases hc'; exact ⟨got, rest, hr.skip hchunk rfl⟩⟩
    | error code message => exact hdown { w.follower with state := .raised } rfl rfl
    | ended reason =>
      exact hdown _ (Follower.over_kept options _ _).1 (Follower.over_kept options _ _).2
  | interrupt =>
    simp only [Option.bind_eq_bind, Option.bind_eq_some_iff, Option.guard_eq_some'] at hstep
    obtain ⟨-, -, hw⟩ := hstep
    cases hw
    exact hdown _ (Follower.interrupted_kept options _).1 (Follower.interrupted_kept options _).2
  | hangUp =>
    simp only [Option.bind_eq_bind, Option.bind_eq_some_iff] at hstep
    obtain ⟨-, -, hw⟩ := hstep
    cases hw
    exact hdown _ (Follower.over_kept options _ _).1 (Follower.over_kept options _ _).2

end

/-! ## Runs -/

theorem followed_of_reach {store : List LogEntry} {clock : Nat} {w : World δ}
    (hsettings : 0 < settings.logTailLines ∧ 0 < settings.logMaxTailLines)
    (h : (following settings source options).Reach InOrder (.start store clock) w) :
    Followed source w := by
  refine h.invariant ⟨[], ⟨rfl, ?_, .nil, rfl, ?_⟩, ?_⟩ fun s ev t hs hok hstep =>
    hs.step hsettings hok hstep
  · exact fun e he => absurd he List.not_mem_nil
  · rintro e he - ⟨g, hg, -⟩
    exact absurd hg List.not_mem_nil
  · rintro c ⟨⟩

/-- **a client that follows a log misses nothing**: in every run, whatever connections break and
however they end, what it has printed are stored lines of the log in the order of their timestamps,
and no line of the log is missing between the first of them and the last -/
theorem follow_exact (settings : Settings) (source : LogSource δ) (options : FollowOptions)
    (hsettings : 0 < settings.logTailLines ∧ 0 < settings.logMaxTailLines)
    {store : List LogEntry} {clock : Nat} {w : World δ}
    (h : (following settings source options).Reach InOrder (.start store clock) w) :
    ∃ shown, Shown source w.store w.follower shown := by
  obtain ⟨shown, hs, -⟩ := followed_of_reach hsettings h
  exact ⟨shown, hs⟩

/-- **a stream sends every line once**: in every run, the events of the open connection are the
records among stored lines of which no two are alike, in order and without a gap; and a turn of the
loop whose answer is short of the limit leaves no line behind -/
theorem stream_exact (settings : Settings) (source : LogSource δ) (options : FollowOptions)
    (hsettings : 0 < settings.logTailLines ∧ 0 < settings.logMaxTailLines)
    {store : List LogEntry} {clock : Nat} {w : World δ}
    (h : (following settings source options).Reach InOrder (.start store clock) w)
    {c : Connection δ} (hc : w.connection = some c) :
    ∃ seen, Follows source w.store c.since seen c.stream ∧
      ∀ lokiNow now result w' c',
        w.step settings source options (.poll lokiNow now (.ok result)) = some w' →
        w'.connection = some c' → c'.stream.isOpen = true →
        ∃ taken, Follows source w'.store c'.since (seen ++ taken) c'.stream ∧
          ((parse result).length < c.stream.batchLimit → ∀ e ∈ w'.store,
            Due c'.since (seen ++ taken) e → e.timestampNs < lokiNow →
            ∃ x ∈ seen ++ taken, x.key = e.key) := by
  obtain ⟨shown, hs, hconn⟩ := followed_of_reach hsettings h
  obtain ⟨got, rest, hr⟩ := hconn c hc
  refine ⟨got ++ rest, hr.follows, fun lokiNow now result w' c' hstep hc' hopen => ?_⟩
  unfold World.step at hstep
  simp only [hc, Option.bind_eq_bind, Option.bind_some, Option.bind_eq_some_iff,
    Option.guard_eq_some'] at hstep
  obtain ⟨-, -, -, hanswer, hw⟩ := hstep
  cases hw
  cases hc'
  obtain ⟨taken, -, -, -, hfollows, hshort⟩ := hr.follows.poll settings now w.clock lokiNow
    (fun ns hns => (hr.since ns hns).1) (by
      show ∀ entries, Except.ok (parse result) = .ok entries → _
      rintro _ ⟨⟩
      exact ⟨hanswer, parse_ordered result⟩)
  exact ⟨taken, hfollows, fun hlt => hshort _ rfl hlt hopen⟩

namespace Sample

def limits : Settings where
  logTailLines := 200
  logMaxTailLines := 5000
  logInitialLookbackSeconds := 1209600
  logKeepaliveSeconds := 10
  logStreamMaxLifetimeSeconds := 3600

def asked : FollowOptions := ⟨some 2, none, 5⟩

def noon : Nat := 1700000000 * nsPerSecond

def entry (ts : Nat) (line : String) : LogEntry := ⟨noon + ts, line, [(releaseLabel, "7")]⟩

/-- an answer of the store -/
def result (entries : List LogEntry) : List LokiStream :=
  [⟨[(releaseLabel, "7")], entries.map fun e => (e.timestampNs, e.line)⟩]

def store : List LogEntry := [entry 1 "starting", entry 2 "ready", entry 2 "listening"]

/-- the connection breaks after one line, the application goes on, and the client resumes -/
def broken : List Event :=
  [.connect (noon + 9) 0 (result [entry 2 "ready", entry 2 "listening"]), .read, .interrupt,
    .arrive (entry 20 "GET /"), .pass 30,
    .connect (noon + 30) 30 (result store.tail ++ result [entry 20 "GET /"]), .read, .read, .read,
    .arrive (entry 40 "GET /favicon.ico")]

/-- the next turn of the loop, by then a little later -/
def turn : Event :=
  .poll (noon + 50) 50 (.ok (result [entry 20 "GET /", entry 40 "GET /favicon.ico"]))

/-- the turn leaves the stream open, and the newest line is in the store -/
def turned (w : World LogRecord) (c : Connection LogRecord) : Bool :=
  (w.step limits logSource asked turn).any fun w' => w'.connection.any fun c' =>
    c'.stream.isOpen && decide (c'.since = c.since ∧ 2 < c.stream.batchLimit ∧
      entry 40 "GET /favicon.ico" ∈ w'.store)

def inOrder (w : World LogRecord) : Event → Bool
  | .arrive entry =>
    w.connection.all (fun c => c.stream.cursor.ns.all fun ns => decide (ns ≤ entry.timestampNs)) &&
      w.follower.ts.all fun p => decide (p ≤ entry.timestampNs)
  | .connect lokiNow _ _ => w.follower.ts.all fun p => decide (p < lokiNow)
  | _ => true

end Sample

theorem Sample.in_order {w : World LogRecord} {ev : Event} (h : Sample.inOrder w ev = true) :
    InOrder w ev := by
  cases ev with
  | arrive entry =>
    obtain ⟨hc, hp⟩ := (Bool.and_eq_true _ _).mp h
    rw [Option.all_eq_true] at hc hp
    refine ⟨fun c hconn ns hns => ?_, fun p hf => of_decide_eq_true (hp p hf)⟩
    have hc := hc c hconn
    rw [Option.all_eq_true] at hc
    exact of_decide_eq_true (hc ns hns)
  | connect lokiNow now result =>
    have hp : w.follower.ts.all (fun p => decide (p < lokiNow)) = true := h
    rw [Option.all_eq_true] at hp
    exact fun p hf => of_decide_eq_true (hp p hf)
  | _ => trivial

theorem Sample.reach {l : List Event} {p : World LogRecord → Bool}
    (h : ((following Sample.limits logSource Sample.asked).runIf Sample.inOrder
      (.start Sample.store (Sample.noon + 9)) l).any p = true) :
    ∃ w, (following Sample.limits logSource Sample.asked).Reach InOrder
      (.start Sample.store (Sample.noon + 9)) w ∧ p w = true := by
  obtain ⟨w, h, -, hp⟩ := Machine.exists_reach_of_runIf (P := fun _ => True)
    (fun _ _ _ _ _ _ => trivial) (fun _ _ _ h => Sample.in_order h) trivial h
  exact ⟨w, h, hp⟩

/-- the line that arrived in between is printed -/
theorem follow_exact_resumed : ∃ (w : World LogRecord) (shown : List LogEntry),
    Shown logSource w.store w.follower shown ∧
      w.follower.printed.map LogRecord.line = ["listening", "listening", "ready", "GET /"] := by
  obtain ⟨w, h, hp⟩ := Sample.reach (l := Sample.broken)
    (p := fun w => decide (w.follower.printed.map LogRecord.line =
      ["listening", "listening", "ready", "GET /"])) (by decide +kernel)
  obtain ⟨shown, hs⟩ := follow_exact Sample.limits logSource Sample.asked (by decide) h
  exact ⟨w, shown, hs, of_decide_eq_true hp⟩

/-- the second connection has sent all there is but the newest line, and its next turn takes that -/
theorem stream_exact_resumed : ∃ (w w' : World LogRecord) (c c' : Connection LogRecord)
    (seen taken : List LogEntry),
    w.connection = some c ∧ Follows logSource w.store (some (Sample.noon + 2)) seen c.stream ∧
      c.stream.events.map LogRecord.line = ["listening", "ready", "GET /"] ∧
      w.step Sample.limits logSource Sample.asked Sample.turn = some w' ∧
      w'.connection = some c' ∧ Follows logSource w'.store c'.since (seen ++ taken) c'.stream ∧
      ∃ x ∈ seen ++ taken, x.key = (Sample.entry 40 "GET /favicon.ico").key := by
  obtain ⟨w, h, hp⟩ := Sample.reach (l := Sample.broken)
    (p := fun w => w.connection.any fun (c : Connection LogRecord) =>
      decide (c.since = some (Sample.noon + 2) ∧
        c.stream.events.map LogRecord.line = ["listening", "ready", "GET /"]) &&
      Sample.turned w c)
    (by decide +kernel)
  obtain ⟨c, hc, hp⟩ := (Option.any_eq_true _ _).mp hp
  obtain ⟨hsent, hturned⟩ := (Bool.and_eq_true _ _).mp hp
  obtain ⟨hsince, hevents⟩ := of_decide_eq_true hsent
  obtain ⟨w', hstep, hturned⟩ := (Option.any_eq_true _ _).mp hturned
  obtain ⟨c', hc', hturned⟩ := (Option.any_eq_true _ _).mp hturned
  obtain ⟨hopen, hturned⟩ := (Bool.and_eq_true _ _).mp hturned
  obtain ⟨hsince', hlimit, hstored⟩ := of_decide_eq_true hturned
  obtain ⟨seen, hs, hturn⟩ :=
    stream_exact Sample.limits logSource Sample.asked (by decide) h hc
  obtain ⟨taken, hs', hall⟩ := hturn _ _ _ w' c' hstep hc' hopen
  have hshort : (parse (Sample.result
      [Sample.entry 20 "GET /", Sample.entry 40 "GET /favicon.ico"])).length = 2 := by
    decide +kernel
  have hnew := hall (by rw [hshort]; exact hlimit) _ hstored
    (.inl ⟨Sample.noon + 2, hsince'.trans hsince, by decide⟩) (by decide)
  rw [hsince] at hs
  exact ⟨w, w', c, c', seen, taken, hc, hs, hevents, hstep, hc', hs', hnew⟩

/-! ## A first batch without a line -/

/-- the connection goes on, and no line is stamped with an instant that is yet to come -/
def PastOnly (w : World δ) : Event → Prop
  | .connect _ _ _ => False
  | .poll _ _ _ => ∀ e ∈ w.store, e.timestampNs < w.clock
  | _ => True

/-- the open connection has sent no line, and the client has printed none since -/
def Silent (printed : List δ) (w : World δ) : Prop :=
  w.follower.printed = printed ∧
    ∀ c, w.connection = some c → c.stream.cursor = .init ∧ c.stream.events = []

theorem Silent.step {printed : List δ} {w w' : World δ} {ev : Event} (h : Silent printed w)
    (hok : PastOnly w ev) (hstep : w.step settings source options ev = some w') :
    Silent printed w' := by
  obtain ⟨hp, hc⟩ := h
  have hpoll : ∀ (c : Connection δ) (now : Nat) (answer : Except String (List LogEntry)),
      w.connection = some c → (∀ entries, answer = .ok entries → entries = []) →
      (c.stream.poll settings source now answer).cursor = .init ∧
        (c.stream.poll settings source now answer).events = [] := by
    intro c now answer hconn hnone
    obtain ⟨hcursor, hevents⟩ := hc c hconn
    obtain ⟨chunks, hsent, ⟨hsame, -, hdata⟩ | ⟨entries, rfl, hnext, hdata⟩⟩ :=
      poll_cases settings source now answer c.stream
    · exact ⟨hsame.trans hcursor, by rw [events_append hsent, hdata, hevents, List.append_nil]⟩
    · obtain rfl := hnone entries rfl
      rw [hcursor] at hnext hdata
      refine ⟨hnext, ?_⟩
      rw [events_append hsent, hdata, hevents]
      rfl
  unfold World.step at hstep
  cases ev with
  | arrive entry =>
    cases hstep
    exact ⟨hp, hc⟩
  | pass d =>
    cases hstep
    exact ⟨hp, hc⟩
  | connect lokiNow now result => exact hok.elim
  | refuse =>
    simp only [Option.bind_eq_bind, Option.bind_eq_some_iff, Option.guard_eq_some'] at hstep
    obtain ⟨-, -, hw⟩ := hstep
    cases hw
    exact ⟨hp, hc⟩
  | poll lokiNow now answer =>
    simp only [Option.bind_eq_bind, Option.bind_eq_some_iff, Option.guard_eq_some'] at hstep
    obtain ⟨c, hconn, -, -, hw⟩ := hstep
    split at hw
    · cases hw
      refine ⟨hp, ?_⟩
      rintro _ ⟨⟩
      exact hpoll c now _ hconn (by rintro _ ⟨⟩)
    · rename_i result
      simp only [Option.bind_eq_some_iff, Option.guard_eq_some'] at hw
      obtain ⟨-, hanswer, hw⟩ := hw
      cases hw
      refine ⟨hp, ?_⟩
      rintro _ ⟨⟩
      refine hpoll c now _ hconn ?_
      rintro _ ⟨⟩
      -- the query asks from the present on
      apply List.eq_nil_iff_forall_not_mem.mpr
      intro e he
      obtain ⟨hstored, hstart, -⟩ := hanswer.matches he
      rw [Stream.query, (hc c hconn).1] at hstart
      exact absurd (hok e hstored) (Nat.not_lt_of_le hstart)
  | read =>
    simp only [Option.bind_eq_bind, Option.bind_eq_some_iff] at hstep
    obtain ⟨c, hconn, chunk, hchunk, hw⟩ := hstep
    cases hw
    cases chunk with
    | event data =>
      have hmem : data ∈ c.stream.events :=
        List.mem_filterMap.mpr ⟨.event data, List.mem_of_getElem? hchunk, rfl⟩
      rw [(hc c hconn).2] at hmem
      exact absurd hmem List.not_mem_nil
    | keepalive => exact ⟨hp, fun c' hc' => by cases hc'; exact hc c hconn⟩
    | error code message => exact ⟨hp, fun c' hc' => by cases hc'⟩
    | ended reason =>
      exact ⟨(Follower.over_kept options _ _).2.trans hp, fun c' hc' => by cases hc'⟩
  | interrupt =>
    simp only [Option.bind_eq_bind, Option.bind_eq_some_iff, Option.guard_eq_some'] at hstep
    obtain ⟨-, -, hw⟩ := hstep
    cases hw
    exact ⟨(Follower.interrupted_kept options _).2.trans hp, fun c' hc' => by cases hc'⟩
  | hangUp =>
    simp only [Option.bind_eq_bind, Option.bind_eq_some_iff] at hstep
    obtain ⟨-, -, hw⟩ := hstep
    cases hw
    exact ⟨(Follower.over_kept options _ _).2.trans hp, fun c' hc' => by cases hc'⟩

/-- **a stream whose first batch is empty stays silent**: it asks from the present each time, so
whatever lines arrive, and however long the connection lasts, it sends none of them -/
theorem stream_silent {w0 w1 w : World δ} {lokiNow now : Nat} {result : List LokiStream}
    (hconnect : w0.step settings source options (.connect lokiNow now result) = some w1)
    (hempty : parse result = [])
    (h : (following settings source options).Reach PastOnly w1 w) :
    w.follower.printed = w0.follower.printed ∧
      ∀ c, w.connection = some c → c.stream.events = [] := by
  have h1 : Silent w0.follower.printed w1 := by
    unfold World.step at hconnect
    simp only [Option.bind_eq_bind, Option.bind_eq_some_iff, Option.guard_eq_some'] at hconnect
    obtain ⟨-, -, -, -, -, -, hw⟩ := hconnect
    cases hw
    refine ⟨rfl, ?_⟩
    rintro _ ⟨⟩
    rw [hempty]
    exact ⟨rfl, rfl⟩
  have hend := h.invariant (P := Silent w0.follower.printed) h1 fun s ev t hs hok hstep =>
    hs.step hok hstep
  exact ⟨hend.1, fun c hc => (hend.2 c hc).2⟩

namespace Sample

def pastOnly (w : World LogRecord) : Event → Bool
  | .connect _ _ _ => false
  | .poll _ _ _ => w.store.all fun e => decide (e.timestampNs < w.clock)
  | _ => true

/-- two turns of the loop, before and after the application prints a line -/
def quiet : List Event :=
  [.pass 2, .poll (noon + 11) 2 (.ok []), .arrive (entry 12 "starting"), .pass 2,
    .poll (noon + 13) 4 (.ok [])]

end Sample

/-- a line arrives between two turns of the loop, and is not sent -/
theorem stream_silent_missed : ∃ w : World LogRecord,
    w.store = [Sample.entry 12 "starting"] ∧ w.follower.printed = [] ∧
      ∃ c, w.connection = some c ∧ c.stream.events = [] := by
  let w0 : World LogRecord := .start [] (Sample.noon + 9)
  have hconnect : ((w0.step Sample.limits logSource Sample.asked
      (.connect (Sample.noon + 9) 0 [])).any fun w1 =>
        ((following Sample.limits logSource Sample.asked).runIf Sample.pastOnly w1
          Sample.quiet).any fun w => decide (w.store = [Sample.entry 12 "starting"]) &&
            w.connection.isSome) = true := by
    decide +kernel
  obtain ⟨w1, hw1, hrun⟩ := (Option.any_eq_true _ _).mp hconnect
  obtain ⟨w, h, -, hp⟩ := Machine.exists_reach_of_runIf (k := PastOnly) (P := fun _ => True)
    (fun _ _ _ _ _ _ => trivial) (fun w ev _ h => by
      cases ev with
      | connect => cases h
      | poll lokiNow now answer =>
        intro e he
        exact of_decide_eq_true (List.all_eq_true.mp h e he)
      | _ => trivial) trivial hrun
  obtain ⟨hstore, hconn⟩ := (Bool.and_eq_true _ _).mp hp
  obtain ⟨c, hc⟩ := Option.isSome_iff_exists.mp hconn
  obtain ⟨hprinted, hevents⟩ := stream_silent hw1 rfl h
  exact ⟨w, of_decide_eq_true hstore, hprinted, c, hc, hevents c hc⟩

end Freepod.LogStream
