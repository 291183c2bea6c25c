import Freepod.Base.Refuse
import Freepod.Upgrader.Live

/-!
# The live transcript is read once

* `complete_spec`, `skipLine_found`: a prefix of whole lines, and the end of a line that is too
  long.
* `Reported`: what becomes of the bytes a call reads up to the offset it returns.
* `refresh_spec`, `opening_spec`: a later call and the first one; `refresh_bounded_iff` and
  `opening_whole_iff` say when the one is bounded and the other starts at a line.
* `read_once`: over a whole run, where every call is such a one.
* `unbounded`: a line without an end is read in full by every call.
-/

namespace Freepod.Upgrader

open Base

/-! ## whole lines -/

theorem complete_spec (data : List UInt8) :
    ∃ rest, data = complete data ++ rest ∧ 10 ∉ rest ∧ byteBreaks.Whole (complete data) := by
  refine ⟨data.rtakeWhile (· ≠ 10), ?_, ?_, ?_⟩
  · exact List.rdropWhile_append_rtakeWhile.symm
  · intro hm
    have hp := List.mem_rtakeWhile_imp hm
    exact of_decide_eq_true hp rfl
  · by_cases hne : complete data = []
    · exact .inl hne
    · right
      have hlast := List.rdropWhile_last_not (fun b : UInt8 => decide (b ≠ 10)) data hne
      have h10 : (complete data).getLast hne = 10 := by
        show (data.rdropWhile (fun b : UInt8 => decide (b ≠ 10))).getLast _ = 10
        simpa using hlast
      rw [List.getLast?_eq_some_getLast hne]
      exact congrArg some h10

theorem complete_ne_nil {data : List UInt8} : complete data ≠ [] ↔ 10 ∈ data := by
  obtain ⟨rest, hdata, hrest, hwhole⟩ := complete_spec data
  constructor
  · intro hne
    obtain ⟨l, hl⟩ := hwhole.eq_append hne
    rw [hdata, hl]
    exact List.mem_append_left rest (List.mem_append_right l List.mem_cons_self)
  · intro hm hnil
    rw [hdata, hnil] at hm
    exact hrest hm

theorem first_newline {l : List UInt8} (h : 10 ∉ l) (r : List UInt8) :
    (l ++ 10 :: r).takeWhile (· ≠ 10) = l ∧ ((l ++ 10 :: r).dropWhile (· ≠ 10)).drop 1 = r := by
  have hall : ∀ c ∈ l, decide (c ≠ 10) = true :=
    fun c hc => decide_eq_true (ne_of_mem_of_not_mem hc h)
  constructor
  · rw [List.takeWhile_append_of_pos hall, List.takeWhile_cons_of_neg (by simp), List.append_nil]
  · rw [List.dropWhile_append_of_pos hall, List.dropWhile_cons_of_neg (by simp)]
    rfl

theorem maxRead_pos : 0 < maxRead := by decide

/-- the loop finds the end of the line, and has read up to it -/
theorem skipLine_found {l r : List UInt8} (hl : 10 ∉ l) {fuel s b : Nat}
    (hfuel : l.length < fuel) :
    ∃ n, skipLine fuel s b (l ++ 10 :: r) = (some (s + l.length + 1), b + n) ∧ l.length < n := by
  induction fuel generalizing l s b with
  | zero => omega
  | succ fuel ih =>
    have hne : (l ++ 10 :: r).take maxRead ≠ [] := by
      obtain ⟨n, hn⟩ := Nat.exists_eq_succ_of_ne_zero (Nat.ne_of_gt maxRead_pos)
      rw [hn]
      cases l <;> exact List.cons_ne_nil _ _
    unfold skipLine
    dsimp only
    rw [if_neg hne]
    by_cases hlt : l.length < maxRead
    · -- the chunk has the end of the line
      obtain ⟨k, hk⟩ := Nat.exists_eq_add_of_lt hlt
      have hchunk : (l ++ 10 :: r).take maxRead = l ++ 10 :: r.take k := by
        rw [hk, List.take_append, List.take_of_length_le (by omega),
          show l.length + k + 1 - l.length = k + 1 by omega, List.take_succ_cons]
      rw [hchunk, if_pos (List.mem_append_right l List.mem_cons_self), (first_newline hl _).1]
      refine ⟨(l ++ 10 :: r.take k).length, rfl, ?_⟩
      rw [List.length_append, List.length_cons]
      omega
    · have hge : maxRead ≤ l.length := Nat.not_lt.mp hlt
      have hchunk : (l ++ 10 :: r).take maxRead = l.take maxRead :=
        List.take_append_of_le_length hge
      have hdrop : (l ++ 10 :: r).drop maxRead = l.drop maxRead ++ 10 :: r :=
        List.drop_append_of_le_length hge
      have hlen : (l.take maxRead).length = maxRead := List.length_take_of_le hge
      have hlen' := List.length_drop (i := maxRead) (l := l)
      have hpos := maxRead_pos
      obtain ⟨n, hn, hlong⟩ := ih (l := l.drop maxRead) (s := s + maxRead) (b := b + maxRead)
        (fun hm => hl (List.mem_of_mem_drop hm)) (by omega)
      rw [hchunk, if_neg fun hm => hl (List.mem_of_mem_take hm), hdrop, hlen, hn]
      refine ⟨maxRead + n, Prod.ext (congrArg some ?_) (Nat.add_assoc b maxRead n), by omega⟩
      omega

theorem skipLine_none {rest : List UInt8} (h : 10 ∉ rest) {fuel s b : Nat}
    (hfuel : rest.length < fuel) : skipLine fuel s b rest = (none, b + rest.length) := by
  induction fuel generalizing rest s b with
  | zero => omega
  | succ fuel ih =>
    unfold skipLine
    dsimp only
    split
    · rename_i hnil
      have hrest : rest = [] := by
        cases rest with
        | nil => rfl
        | cons c rest =>
          obtain ⟨n, hn⟩ := Nat.exists_eq_succ_of_ne_zero (Nat.ne_of_gt maxRead_pos)
          rw [hn] at hnil
          cases hnil
      rw [hrest]
      rfl
    · rename_i hne
      rw [if_neg fun hm => h (List.mem_of_mem_take hm)]
      have hpos : 0 < (rest.take maxRead).length := List.length_pos_of_ne_nil hne
      have hlen := List.length_take (i := maxRead) (l := rest)
      have hdrop := List.length_drop (i := maxRead) (l := rest)
      rw [ih (fun hm => h (List.mem_of_mem_drop hm)) (by omega)]
      refine congrArg (Prod.mk none) ?_
      omega

/-! ## one call -/

/-- what becomes of the bytes up to the next offset: all their lines are parsed, or they are one
line, longer than a read, and its length is reported -/
def Reported (f : Fetched) (region : List UInt8) : Prop :=
  (f.skipped = none ∧ f.parsed = region) ∨
    ∃ l, f.skipped = some (l.length + 1) ∧ f.parsed = [] ∧ region = l ++ [10] ∧ 10 ∉ l ∧
      maxRead ≤ l.length

/-- a call reads whole lines from its start to the next offset -/
structure Covers (file : List UInt8) (f : Fetched) (region : List UInt8) : Prop where
  start_le : f.start ≤ file.length
  region_eq : ∃ rest, file.drop f.start = region ++ rest
  next_eq : f.next = f.start + region.length
  whole : byteBreaks.Whole region
  reported : Reported f region

/-- a later call can do with one read -/
def RefreshFits (file : List UInt8) (offset : Nat) : Prop :=
  10 ∈ (file.drop offset).take maxRead ∨ file.length ≤ offset + maxRead

/-- the first call finds the start of a line -/
def OpeningFits (file : List UInt8) : Prop :=
  file.length ≤ tailBytes ∨ 10 ∈ file.drop (file.length - tailBytes - 1)

/-- what a later call can do: a chunk with the end of a line, a file without one, or a line longer
than the chunk -/
theorem refresh_cases (file : List UInt8) (offset : Nat) : ∃ data rest,
    file.drop offset = data ++ rest ∧ data.length = min maxRead (file.length - offset) ∧
    ((10 ∈ data ∧
        refresh file offset =
          ⟨offset, complete data, none, offset + (complete data).length, data.length⟩) ∨
      (10 ∉ data ++ rest ∧
        refresh file offset = ⟨offset, [], none, offset, (data ++ rest).length⟩) ∨
      ∃ l r n, rest = l ++ 10 :: r ∧ 10 ∉ data ++ l ∧ maxRead ≤ data.length ∧ l.length < n ∧
        refresh file offset = ⟨offset, [], some (data.length + l.length + 1),
          offset + (data.length + l.length + 1), data.length + n⟩) := by
  have hsplit : file.drop offset =
      (file.drop offset).take maxRead ++ file.drop (offset + maxRead) := by
    rw [← List.drop_drop, List.take_append_drop]
  have hlen : ((file.drop offset).take maxRead).length = min maxRead (file.length - offset) := by
    rw [List.length_take, List.length_drop]
  have hrestlen : (file.drop (offset + maxRead)).length = file.length - (offset + maxRead) :=
    List.length_drop
  refine ⟨_, _, hsplit, hlen, ?_⟩
  unfold refresh
  generalize (file.drop offset).take maxRead = data at *
  generalize file.drop (offset + maxRead) = rest at *
  dsimp only
  by_cases hten : 10 ∈ data
  · rw [if_pos (complete_ne_nil.mpr hten)]
    exact .inl ⟨hten, rfl⟩
  · rw [if_neg fun hne => hten (complete_ne_nil.mp hne)]
    right
    split
    · rename_i hshort
      have hrest : rest = [] := List.eq_nil_of_length_eq_zero (by omega)
      rw [hrest, List.append_nil]
      exact .inl ⟨hten, rfl⟩
    · rename_i hlong
      by_cases hm : 10 ∈ rest
      · obtain ⟨l, r, hrest, hl⟩ := List.eq_append_cons_of_mem hm
        have hfuel : l.length < rest.length + 1 := by
          rw [hrest, List.length_append]
          omega
        obtain ⟨n, hskip, hn⟩ :=
          skipLine_found (r := r) hl (s := data.length) (b := data.length) hfuel
        rw [← hrest] at hskip
        refine .inr ⟨l, r, n, hrest, ?_, Nat.not_lt.mp hlong, hn, ?_⟩
        · rw [List.mem_append, not_or]
          exact ⟨hten, hl⟩
        · rw [hskip]
          rfl
      · left
        constructor
        · rw [List.mem_append, not_or]
          exact ⟨hten, hm⟩
        · rw [skipLine_none hm (Nat.lt_succ_self _), List.length_append]
          rfl

/-- **a later call** starts at its offset, and moves on if a line ends after it -/
theorem refresh_spec {file : List UInt8} {offset : Nat} (h : offset ≤ file.length) :
    (refresh file offset).start = offset ∧
      (10 ∈ file.drop offset → offset < (refresh file offset).next) ∧
      ∃ region, Covers file (refresh file offset) region := by
  obtain ⟨data, rest, hdata, -, ⟨hten, heq⟩ | ⟨hten, heq⟩ | ⟨l, r, n, hrest, hl, hlong, -, heq⟩⟩ :=
    refresh_cases file offset
  · -- whole lines of the chunk
    obtain ⟨tail, hchunk, -, hwhole⟩ := complete_spec data
    have hpos := List.length_pos_of_ne_nil (complete_ne_nil.mpr hten)
    rw [heq]
    refine ⟨rfl, fun _ => by dsimp only; omega, complete data, h, ?_, rfl, hwhole,
      .inl ⟨rfl, rfl⟩⟩
    exact ⟨tail ++ rest, by rw [hdata, ← List.append_assoc, ← hchunk]⟩
  · -- nothing yet
    rw [heq]
    refine ⟨rfl, ?_, [], h, ⟨_, rfl⟩, rfl, .inl rfl, .inl ⟨rfl, rfl⟩⟩
    rw [hdata]
    exact fun hm => absurd hm hten
  · -- one line, longer than the chunk
    rw [heq]
    refine ⟨rfl, fun _ => by dsimp only; omega, data ++ l ++ [10], h, ?_, ?_,
      Breaks.whole_append_nl _, .inr ⟨data ++ l, ?_, rfl, rfl, hl, ?_⟩⟩
    · exact ⟨r, by rw [hdata, hrest]; simp⟩
    · simp only [List.length_append, List.length_singleton]
    · rw [List.length_append]
    · rw [List.length_append]
      omega

/-- **a later call is one read exactly where a line ends within it, or the file does** -/
theorem refresh_bounded_iff {file : List UInt8} {offset : Nat} :
    (refresh file offset).bytesRead ≤ maxRead ↔ RefreshFits file offset := by
  unfold RefreshFits
  obtain ⟨data, rest, hdata, hlen, hcases⟩ := refresh_cases file offset
  have htotal := congrArg List.length hdata
  rw [List.length_drop] at htotal
  have hchunk : (file.drop offset).take maxRead = data := by
    rw [hdata]
    by_cases hlong : maxRead ≤ file.length - offset
    · rw [List.take_append_of_le_length (by omega), List.take_of_length_le (by omega)]
    · have hrest : rest = [] := by
        rw [List.length_append] at htotal
        exact List.eq_nil_of_length_eq_zero (by omega)
      rw [hrest, List.append_nil, List.take_of_length_le (by omega)]
  rw [hchunk]
  obtain ⟨hten, heq⟩ | ⟨hten, heq⟩ | ⟨l, r, n, hrest, hl, hlong, hn, heq⟩ := hcases
  · rw [heq]
    exact ⟨fun _ => .inl hten, fun _ => by dsimp only; omega⟩
  · rw [heq]
    dsimp only
    have hno : 10 ∉ data := fun hm => hten (List.mem_append_left rest hm)
    constructor
    · exact fun hle => .inr (by omega)
    · intro hfits
      have hle := hfits.resolve_left hno
      omega
  · rw [heq]
    dsimp only
    have hno : 10 ∉ data := fun hm => hl (List.mem_append_left l hm)
    rw [hrest, List.length_append, List.length_append, List.length_cons] at htotal
    constructor
    · intro hle
      omega
    · intro hfits
      have hle := hfits.resolve_left hno
      omega

theorem readTail_covers {file : List UInt8} {start : Nat} (hle : start ≤ file.length) :
    (readTail file start).bytesRead = file.length - start ∧
      ∃ region, Covers file (readTail file start) region := by
  have hcovers : ∀ start bytesRead, start ≤ file.length →
      Covers file ⟨start, complete (file.drop start), none,
        start + (complete (file.drop start)).length, bytesRead⟩ (complete (file.drop start)) := by
    intro start bytesRead hstart
    obtain ⟨rest, hdata, -, hwhole⟩ := complete_spec (file.drop start)
    exact ⟨hstart, ⟨rest, hdata⟩, rfl, hwhole, .inl ⟨rfl, rfl⟩⟩
  unfold readTail
  dsimp only
  refine ⟨List.length_drop, ?_⟩
  split
  · exact ⟨_, hcovers _ _ hle⟩
  · split
    · rename_i hm
      obtain ⟨l, r, hdata, hl⟩ := List.eq_append_cons_of_mem hm
      obtain ⟨htake, hdrop⟩ := first_newline hl r
      have hcut : file.drop (start + l.length + 1) = r := by
        rw [Nat.add_assoc, ← List.drop_drop, hdata, ← List.drop_drop, List.drop_left]
        rfl
      have hend : start + l.length + 1 ≤ file.length := by
        have hl' := congrArg List.length hdata
        rw [List.length_drop, List.length_append, List.length_cons] at hl'
        omega
      rw [hdata, htake, hdrop, ← hcut]
      exact ⟨_, hcovers _ _ hend⟩
    · exact ⟨[], ⟨hle, ⟨_, rfl⟩, rfl, .inl rfl, .inl ⟨rfl, rfl⟩⟩⟩

/-- **the first call** reads the tail -/
theorem opening_spec (file : List UInt8) :
    (opening file).bytesRead ≤ maxRead ∧ ∃ region, Covers file (opening file) region := by
  have hmax : tailBytes ≤ maxRead := by decide
  obtain ⟨hread, hcovers⟩ := readTail_covers (Nat.sub_le file.length tailBytes)
  refine ⟨?_, hcovers⟩
  unfold opening
  rw [hread]
  omega

/-- the last byte before a place in the file -/
theorem getLast_take {file : List UInt8} {start : Nat} (h : start < file.length) :
    (file.take (start + 1)).getLast? = some file[start] := by
  rw [List.take_add_one, List.getElem?_eq_getElem h, Option.toList_some, List.getLast?_concat]

theorem readTail_whole_iff {file : List UInt8} {start : Nat} (h : start < file.length) :
    byteBreaks.Whole (file.take (readTail file (start + 1)).start) ↔ 10 ∈ file.drop start := by
  rw [List.drop_eq_getElem_cons h]
  unfold readTail
  dsimp only
  rw [if_neg (Nat.succ_ne_zero start)]
  split
  · rename_i hm
    obtain ⟨l, r, hdata, hl⟩ := List.eq_append_cons_of_mem hm
    have htake : file.take (start + 1 + (l.length + 1)) = file.take (start + 1) ++ l ++ [10] := by
      rw [List.take_add, hdata, List.append_assoc, List.take_append, List.take_of_length_le
        (Nat.le_succ _), Nat.add_sub_cancel_left]
      rfl
    constructor
    · exact fun _ => List.mem_cons_of_mem _ hm
    · intro _
      rw [hdata, (first_newline hl r).1, Nat.add_assoc (start + 1), htake]
      exact Breaks.whole_append_nl _
  · rename_i hno
    have hlast := getLast_take h
    constructor
    · rintro (hnil | hten)
      · rw [hnil] at hlast
        cases hlast
      · rw [hlast] at hten
        rw [Option.some.inj hten]
        exact List.mem_cons_self
    · intro hm
      obtain he | hm := List.mem_cons.mp hm
      · exact .inr (hlast.trans (congrArg some he.symm))
      · exact absurd hm hno

/-- **it starts at a line exactly where the tail has the start of one** -/
theorem opening_whole_iff (file : List UInt8) :
    byteBreaks.Whole (file.take (opening file).start) ↔ OpeningFits file := by
  unfold opening OpeningFits
  by_cases hsize : file.length ≤ tailBytes
  · rw [Nat.sub_eq_zero_of_le hsize]
    exact ⟨fun _ => .inl hsize, fun _ => .inl rfl⟩
  · obtain ⟨start, hstart⟩ := Nat.exists_eq_add_of_lt (Nat.not_le.mp hsize)
    have hsub : file.length - tailBytes = start + 1 := by omega
    rw [hsub, Nat.add_sub_cancel, readTail_whole_iff (by omega)]
    exact ⟨.inr, fun h => h.resolve_left hsize⟩

/-! ## a whole run -/

/-- what a call reads up to the offset it returns -/
def LiveCall.region (c : LiveCall) : List UInt8 :=
  ((c.file.getD []).drop c.fetched.start).take (c.fetched.next - c.fetched.start)

/-- a call that starts at a line and can do with one read -/
def LiveCall.Fits (c : LiveCall) : Prop :=
  match c.file with
  | none => True
  | some file =>
    if opens file c.offset then OpeningFits file else RefreshFits file (c.offset.getD 0)

/-- **when a call fits** -/
theorem LiveCall.fits_iff (c : LiveCall) :
    c.Fits ↔ c.fetched.bytesRead ≤ maxRead ∧ ∀ file, c.file = some file →
      opens file c.offset = true → byteBreaks.Whole (file.take c.fetched.start) := by
  obtain ⟨file, offset, steps⟩ := c
  cases file with
  | none => exact ⟨fun _ => ⟨Nat.zero_le _, fun _ h => by cases h⟩, fun _ => trivial⟩
  | some file =>
    unfold LiveCall.Fits LiveCall.fetched fetch
    dsimp only
    split
    · rename_i hopens
      rw [← opening_whole_iff]
      constructor
      · intro h
        refine ⟨(opening_spec file).1, ?_⟩
        intro file' hfile _
        rw [← Option.some.inj hfile]
        exact h
      · exact fun h => h.2 file rfl hopens
    · rename_i hopens
      rw [refresh_bounded_iff]
      constructor
      · intro h
        refine ⟨h, ?_⟩
        intro file' hfile hopens'
        rw [← Option.some.inj hfile] at hopens'
        exact absurd hopens' hopens
      · exact And.left

theorem Covers.region_of {file : List UInt8} {f : Fetched} {region : List UInt8}
    (h : Covers file f region) : (file.drop f.start).take (f.next - f.start) = region := by
  obtain ⟨rest, hrest⟩ := h.region_eq
  rw [hrest, h.next_eq, Nat.add_sub_cancel_left, List.take_left]

theorem covers_nil : Covers [] ⟨0, [], none, 0, 0⟩ [] where
  start_le := Nat.le_refl 0
  region_eq := ⟨[], rfl⟩
  next_eq := rfl
  whole := .inl rfl
  reported := .inl ⟨rfl, rfl⟩

/-- every call reads whole lines -/
theorem LiveCall.covers {c : LiveCall}
    (h : ∀ offset, c.offset = some offset → offset ≤ (c.file.getD []).length) :
    Covers (c.file.getD []) c.fetched c.region ∧ ∀ offset, c.offset = some offset →
      c.fetched.start = offset ∧
        (10 ∈ (c.file.getD []).drop offset → offset < c.fetched.next) := by
  have hboth : (∃ region, Covers (c.file.getD []) c.fetched region) ∧
      ∀ offset, c.offset = some offset → c.fetched.start = offset ∧
        (10 ∈ (c.file.getD []).drop offset → offset < c.fetched.next) := by
    obtain ⟨file, offset, steps⟩ := c
    dsimp only [LiveCall.fetched] at h ⊢
    cases file with
    | none =>
      refine ⟨⟨[], covers_nil⟩, ?_⟩
      intro o ho
      have hzero : o = 0 := Nat.le_zero.mp (h o ho)
      rw [hzero]
      exact ⟨rfl, fun hm => by cases hm⟩
    | some file =>
      cases offset with
      | none => exact ⟨(opening_spec file).2, fun o ho => by cases ho⟩
      | some offset =>
        have hle : offset ≤ file.length := h offset rfl
        have hopens : opens file (some offset) = false := decide_eq_false (Nat.not_lt.mpr hle)
        have hfetch : fetch (some file) (some offset) = refresh file offset := by
          unfold fetch
          dsimp only
          rw [hopens]
          rfl
        obtain ⟨hstart, hmoves, hcovers⟩ := refresh_spec hle
        rw [hfetch]
        refine ⟨hcovers, ?_⟩
        intro o ho
        rw [← Option.some.inj ho]
        exact ⟨hstart, hmoves⟩
  obtain ⟨⟨region, hcovers⟩, hlater⟩ := hboth
  have hregion : c.region = region := hcovers.region_of
  exact ⟨hregion ▸ hcovers, hlater⟩

variable {ε : Type} {p : Panel ε} {w w' : Watch}

/-- the calls have read the file from the start of the first one to the next offset -/
structure Watch.Tiled (p : Panel ε) (w : Watch) : Prop where
  closed : w.calls = [] → w.offset = none
  offset_le : ∀ offset, w.offset = some offset → offset ≤ (w.file.getD []).length
  opened : ∀ first rest, w.calls = first :: rest → first.offset = none ∧
    first.fetched.start ≤ (w.file.getD []).length ∧
    (w.file.getD []).take first.fetched.start = (first.file.getD []).take first.fetched.start
  tiles : ∀ first rest, w.calls = first :: rest → ∃ offset, w.offset = some offset ∧
    (w.file.getD []).take offset =
      (w.file.getD []).take first.fetched.start ++ w.calls.flatMap LiveCall.region
  calls : ∀ c ∈ w.calls, p.read c.file c.offset = .ok (c.steps, c.fetched.next) ∧
    byteBreaks.Whole c.region ∧ Reported c.fetched c.region ∧
    ∀ offset, c.offset = some offset → 10 ∈ (c.file.getD []).drop offset → offset < c.fetched.next

theorem tiled_init : Watch.init.Tiled p where
  closed := fun _ => rfl
  offset_le := fun _ h => by cases h
  opened := fun _ _ h => by cases h
  tiles := fun _ _ h => by cases h
  calls := fun _ h => by cases h

/-- the file grows -/
theorem Watch.Tiled.write (h : w.Tiled p) (more : List UInt8) :
    Watch.Tiled p { w with file := some (w.file.getD [] ++ more) } where
  closed := h.closed
  offset_le := by
    intro offset ho
    have hle := h.offset_le offset ho
    show offset ≤ (w.file.getD [] ++ more).length
    rw [List.length_append]
    omega
  opened := by
    intro first rest hcalls
    obtain ⟨hnone, hstart, hsame⟩ := h.opened first rest hcalls
    refine ⟨hnone, ?_, ?_⟩
    · show _ ≤ (w.file.getD [] ++ more).length
      rw [List.length_append]
      omega
    · show (w.file.getD [] ++ more).take _ = _
      rw [List.take_append_of_le_length hstart]
      exact hsame
  tiles := by
    intro first rest hcalls
    obtain ⟨offset, ho, htake⟩ := h.tiles first rest hcalls
    have hle := h.offset_le offset ho
    have hstart := (h.opened first rest hcalls).2.1
    refine ⟨offset, ho, ?_⟩
    show (w.file.getD [] ++ more).take offset = (w.file.getD [] ++ more).take _ ++ _
    rw [List.take_append_of_le_length hle, List.take_append_of_le_length hstart]
    exact htake
  calls := h.calls

/-- the offset a call returns -/
theorem read_next {file : Option (List UInt8)} {offset : Option Nat} {steps : List Step} {next : Nat}
    (h : p.read file offset = .ok (steps, next)) : next = (fetch file offset).next := by
  unfold Panel.read at h
  dsimp only at h
  split at h
  · exact (congrArg Prod.snd (Except.ok.inj h)).symm
  · obtain ⟨parsed, -, h⟩ := bind_eq_ok.mp h
    exact (congrArg Prod.snd (Except.ok.inj h)).symm

theorem Covers.take_next {file : List UInt8} {f : Fetched} {region : List UInt8}
    (h : Covers file f region) :
    f.next ≤ file.length ∧ file.take f.next = file.take f.start ++ region := by
  obtain ⟨rest, hrest⟩ := h.region_eq
  have hlen := congrArg List.length hrest
  rw [List.length_drop, List.length_append] at hlen
  have hstart := h.start_le
  rw [h.next_eq]
  refine ⟨by omega, ?_⟩
  rw [List.take_add, hrest, List.take_left]

/-- the panel reads -/
theorem Watch.Tiled.read (h : w.Tiled p) {steps : List Step} {next : Nat}
    (hread : p.read w.file w.offset = .ok (steps, next)) :
    Watch.Tiled p ⟨w.file, some next, w.calls ++ [⟨w.file, w.offset, steps⟩]⟩ := by
  obtain ⟨hcovers, hlater⟩ := LiveCall.covers (c := ⟨w.file, w.offset, steps⟩) h.offset_le
  have hnext := read_next hread
  subst hnext
  obtain ⟨hle, htake⟩ := hcovers.take_next
  constructor
  · intro hnil
    exact absurd hnil (List.append_ne_nil_of_right_ne_nil _ (List.cons_ne_nil _ _))
  · intro offset ho
    exact Option.some.inj ho ▸ hle
  · intro first rest hcalls
    dsimp only at hcalls ⊢
    cases hprev : w.calls with
    | nil =>
      rw [hprev] at hcalls
      rw [← (List.cons.inj hcalls).1]
      exact ⟨h.closed hprev, hcovers.start_le, rfl⟩
    | cons first' rest' =>
      rw [hprev] at hcalls
      rw [← (List.cons.inj hcalls).1]
      exact h.opened _ _ hprev
  · intro first rest hcalls
    refine ⟨_, rfl, ?_⟩
    dsimp only at hcalls ⊢
    cases hprev : w.calls with
    | nil =>
      rw [hprev] at hcalls
      rw [← (List.cons.inj hcalls).1, List.nil_append, List.flatMap_singleton]
      exact htake
    | cons first' rest' =>
      rw [hprev] at hcalls
      rw [← (List.cons.inj hcalls).1]
      obtain ⟨offset, ho, htaken⟩ := h.tiles _ _ hprev
      -- the call starts where the ones before it ended
      have hhere := (hlater offset ho).1
      rw [List.flatMap_append, List.flatMap_singleton, ← List.append_assoc, ← hprev, ← htaken,
        ← hhere]
      exact htake
  · intro c hc
    obtain hc | hc := List.mem_append.mp hc
    · exact h.calls c hc
    · rw [List.mem_singleton.mp hc]
      exact ⟨hread, hcovers.whole, hcovers.reported, fun offset ho => (hlater offset ho).2⟩

theorem Watch.Tiled.step (h : w.Tiled p) {e : WatchEvent} (hstep : p.step w e = some w') :
    w'.Tiled p := by
  cases e with
  | write more =>
    rw [← Option.some.inj hstep]
    exact h.write more
  | read =>
    unfold Panel.step at hstep
    dsimp only at hstep
    split at hstep
    · cases hstep
    · rename_i hread
      rw [← Option.some.inj hstep]
      exact h.read hread

/-- **over every run the calls read the file once** -/
theorem tiled_of_run {events : List WatchEvent} (h : p.run events = some w) : w.Tiled p := by
  have hrun : ∀ w₀ : Watch, w₀.Tiled p → events.foldlM p.step w₀ = some w → w.Tiled p := by
    clear h
    induction events with
    | nil =>
      intro w₀ hw₀ h
      rw [← Option.some.inj h]
      exact hw₀
    | cons e events ih =>
      intro w₀ hw₀ h
      rw [List.foldlM_cons] at h
      obtain ⟨w₁, hstep, h⟩ := Option.bind_eq_some_iff.mp h
      exact ih w₁ (hw₀.step hstep) h
  exact hrun _ tiled_init h

/-- a call that can do with one read skips nothing: a line longer than a read takes more of them -/
theorem LiveCall.skipped_eq_none {c : LiveCall} (h : c.Fits) : c.fetched.skipped = none := by
  obtain ⟨hbytes, -⟩ := c.fits_iff.mp h
  unfold LiveCall.fetched fetch at hbytes ⊢
  cases hfile : c.file with
  | none => rfl
  | some file =>
    rw [hfile] at hbytes
    dsimp only at hbytes ⊢
    split
    · rfl
    · rename_i hopens
      rw [if_neg hopens] at hbytes
      obtain ⟨data, rest, -, -, ⟨-, heq⟩ | ⟨-, heq⟩ | ⟨l, r, n, -, -, hlong, hn, heq⟩⟩ :=
        refresh_cases file (c.offset.getD 0)
      · rw [heq]
      · rw [heq]
      · rw [heq] at hbytes
        have hbytes : data.length + n ≤ maxRead := hbytes
        omega

/-- **the transcript is read once and cheaply** where the first call finds the start of a line and
every later one the end of a line, or of the file, within a read: from the first call's start on,
the lines of the file are those of the calls, in order, and then the ones not read yet; a call
parses all its lines, and no entry is too large to show -/
theorem read_once {events : List WatchEvent} (h : p.run events = some w)
    (hfits : ∀ c ∈ w.calls, c.Fits) :
    (∀ first rest, w.calls = first :: rest → ∃ offset, w.offset = some offset ∧
      byteBreaks.Whole ((w.file.getD []).take first.fetched.start) ∧
      byteBreaks.splitlines (w.file.getD []) =
        byteBreaks.splitlines ((w.file.getD []).take first.fetched.start) ++
          w.calls.flatMap (fun c => byteBreaks.splitlines c.region) ++
          byteBreaks.splitlines ((w.file.getD []).drop offset)) ∧
    ∀ c ∈ w.calls, p.read c.file c.offset = .ok (c.steps, c.fetched.next) ∧
      c.fetched.skipped = none ∧ c.fetched.parsed = c.region ∧ c.fetched.bytesRead ≤ maxRead ∧
      ∀ offset, c.offset = some offset → 10 ∈ (c.file.getD []).drop offset →
        offset < c.fetched.next := by
  have htiled := tiled_of_run h
  constructor
  · intro first rest hcalls
    obtain ⟨offset, ho, htaken⟩ := htiled.tiles first rest hcalls
    obtain ⟨hnone, -, hsame⟩ := htiled.opened first rest hcalls
    have hfirst : first.Fits := hfits first (hcalls ▸ List.mem_cons_self)
    have hwhole : byteBreaks.Whole ((w.file.getD []).take first.fetched.start) := by
      rw [hsame]
      cases hfile : first.file with
      | none => exact .inl (List.take_nil)
      | some file => exact ((first.fits_iff).mp hfirst).2 file hfile (by rw [hnone]; rfl)
    obtain ⟨hregions, hlines⟩ := Breaks.splitlines_flatMap (B := byteBreaks)
      (f := LiveCall.region) fun c hc => (htiled.calls c hc).2.1
    refine ⟨offset, ho, hwhole, ?_⟩
    calc byteBreaks.splitlines (w.file.getD [])
        = byteBreaks.splitlines ((w.file.getD []).take offset ++ (w.file.getD []).drop offset) := by
          rw [List.take_append_drop]
      _ = byteBreaks.splitlines ((w.file.getD []).take offset) ++
            byteBreaks.splitlines ((w.file.getD []).drop offset) := by
          rw [htaken, Breaks.splitlines_append (hwhole.append hregions)]
      _ = _ := by
          rw [htaken, Breaks.splitlines_append hwhole, hlines]
  · intro c hc
    obtain ⟨hread, -, hreported, hmoves⟩ := htiled.calls c hc
    have hnone := LiveCall.skipped_eq_none (hfits c hc)
    have hparsed : c.fetched.parsed = c.region := by
      obtain ⟨-, hparsed⟩ | ⟨l, hskipped, -⟩ := hreported
      · exact hparsed
      · rw [hnone] at hskipped
        cases hskipped
    exact ⟨hread, hnone, hparsed, ((c.fits_iff).mp (hfits c hc)).1, hmoves⟩

/-- a file that one read holds fits -/
theorem LiveCall.fits_of_short {c : LiveCall} (h : (c.file.getD []).length ≤ tailBytes) :
    c.Fits := by
  obtain ⟨file, offset, steps⟩ := c
  cases file with
  | none => trivial
  | some file =>
    have hlen : file.length ≤ tailBytes := h
    unfold LiveCall.Fits
    dsimp only
    split
    · exact .inl hlen
    · exact .inr (Nat.le_trans (Nat.le_trans hlen (by decide)) (Nat.le_add_left _ _))

section Sample

/-- the text of an entry, in the code points of a JSON string -/
def codes (text : String) : List Nat := text.toList.map Char.toNat

def ascii (text : String) : List UInt8 := text.toList.map fun c => UInt8.ofNat c.toNat

/-- `steps_of` of a compaction and of what the user wrote -/
def entrySteps (fields : List (List Nat × JsonText.Value)) : List Step :=
  match fields.lookup (codes "type"), fields.lookup (codes "message") with
  | some (.str kind), message =>
    if kind = codes "compaction" then [⟨"note", "context compacted", ""⟩]
    else
      match message with
      | some (.obj message) =>
        match message.lookup (codes "role"), message.lookup (codes "content") with
        | some (.str role), some (.str content) =>
          if role = codes "user" then [⟨"user", String.ofList (content.map Char.ofNat), ""⟩] else []
        | _, _ => []
      | _ => []
  | _, _ => []

def plain : Panel Unit := ⟨.empty, fun _ => none, fun fields => .ok (entrySteps fields)⟩

/-- the text of an entry, and that of another, cut in two -/
def compaction : String := "\x7b\x22type\x22:\x22compaction\x22\x7d\n"

def messageStart : String := "\x7b\x22type\x22:\x22message\x22,"

def messageEnd : String :=
  "\x22message\x22:\x7b\x22role\x22:\x22user\x22,\x22content\x22:\x22hi\x22\x7d\x7d\n"

/-- a panel opens before there is a transcript; an entry is read whole, the next one once it is
complete, and a third is still being written -/
def session : List WatchEvent :=
  [.read, .write (ascii compaction ++ ascii messageStart), .read, .read, .write (ascii messageEnd),
    .read, .write (ascii "\x7b\x22type\x22")]

end Sample

/-- the entries are read in two of four calls, the line being written in none -/
theorem read_once_sample : ∃ w, plain.run session = some w ∧
    w.calls.map (fun c => c.steps.map Step.text) = [[], ["context compacted"], [], ["hi"]] ∧
    byteBreaks.splitlines (w.file.getD []) =
      w.calls.flatMap (fun c => byteBreaks.splitlines c.region) ++
        byteBreaks.splitlines ((w.file.getD []).drop 82) ∧
    ∀ c ∈ w.calls, c.fetched.parsed = c.region ∧ c.fetched.bytesRead ≤ maxRead := by
  have hrun : (plain.run session).any (fun w => decide (w.offset = some 82 ∧
      w.calls.map (fun c => c.steps.map Step.text) = [[], ["context compacted"], [], ["hi"]] ∧
      w.calls.map (fun c => c.fetched.start) = [0, 0, 22, 22] ∧
      ∀ c ∈ w.calls, (c.file.getD []).length ≤ tailBytes)) = true := by
    decide +kernel
  obtain ⟨w, hw, hdecided⟩ := (Option.any_eq_true _ _).mp hrun
  obtain ⟨hoffset, hsteps, hstarts, hshort⟩ := of_decide_eq_true hdecided
  obtain ⟨hlines, hcalls⟩ := read_once hw fun c hc => LiveCall.fits_of_short (hshort c hc)
  obtain ⟨first, rest, hfirst, hstart, -⟩ := List.map_eq_cons_iff.mp hstarts
  obtain ⟨offset, ho, -, htiles⟩ := hlines first rest hfirst
  rw [hoffset] at ho
  rw [hstart, ← Option.some.inj ho, List.take_zero] at htiles
  exact ⟨w, hw, hsteps, htiles, fun c hc => ⟨(hcalls c hc).2.2.1, (hcalls c hc).2.2.2.1⟩⟩

/-! ## a line without an end -/

/-- the file is read in full, and the offset stays -/
theorem refresh_endless {file : List UInt8} (h : 10 ∉ file) :
    refresh file 0 = ⟨0, [], none, 0, file.length⟩ := by
  obtain ⟨data, rest, hdata, -, hcases⟩ := refresh_cases file 0
  rw [List.drop_zero] at hdata
  rw [hdata] at h ⊢
  obtain ⟨hten, -⟩ | ⟨-, heq⟩ | ⟨l, r, n, hrest, -⟩ := hcases
  · exact absurd (List.mem_append_left rest hten) h
  · rw [← hdata, heq, hdata]
  · refine absurd (List.mem_append_right data ?_) h
    rw [hrest]
    exact List.mem_append_right l List.mem_cons_self

/-- no number bounds what a call reads -/
theorem unbounded :
    ¬ ∃ bound, ∀ (p : Panel Unit) events w, p.run events = some w →
      ∀ c ∈ w.calls, c.fetched.bytesRead ≤ bound := by
  rintro ⟨bound, hall⟩
  let file : List UInt8 := List.replicate (bound + 1) 120
  have hendless : 10 ∉ file := fun hm => absurd (List.eq_of_mem_replicate hm) (by decide)
  have hrefresh : fetch (some file) (some 0) = ⟨0, [], none, 0, file.length⟩ :=
    refresh_endless hendless
  have hread : plain.read (some file) (some 0) = .ok ([], 0) := by
    unfold Panel.read
    rw [hrefresh]
    rfl
  have hrun : plain.run [.read, .write file, .read] =
      some ⟨some file, some 0, [⟨none, none, []⟩, ⟨some file, some 0, []⟩]⟩ := by
    show (plain.step ⟨some file, some 0, [⟨none, none, []⟩]⟩ .read).bind some = _
    unfold Panel.step
    dsimp only
    rw [hread]
    rfl
  have hle := hall plain _ _ hrun _ (List.mem_cons_of_mem _ List.mem_cons_self)
  unfold LiveCall.fetched at hle
  rw [hrefresh] at hle
  have hlen : file.length = bound + 1 := List.length_replicate
  dsimp only at hle
  omega

end Freepod.Upgrader
