import Mathlib.Data.List.Basic

/-!
# Splitting into lines

* `Breaks`: what ends a line; a carriage return and a newline after it end it together.
* `Breaks.splitlines`: the lines of a text, the last one also where nothing ends it.
* `Breaks.Reads`: the lines that any reader may find, as long as it splits at every newline.
* `Breaks.Reads.eq_of_lines`: whole lines without breaks are read as they are, but for an empty one
  at the end.
* `Breaks.splitlines_append`: the lines of a text that ends with a line stay what they are.
-/

namespace Freepod.Base

/-- the elements that end a line -/
structure Breaks (α : Type*) where
  isBreak : α → Bool
  cr : α
  nl : α
  cr_isBreak : isBreak cr = true
  nl_isBreak : isBreak nl = true
  cr_ne_nl : cr ≠ nl

namespace Breaks

variable {α : Type*} (B : Breaks α)

section

variable [DecidableEq α]

/-- the lines after an unfinished one, read backwards; `afterCr` where the text before ends in one -/
def linesFrom (line : List α) (afterCr : Bool) : List α → List (List α)
  | [] => if line = [] then [] else [line.reverse]
  | c :: rest =>
    if afterCr ∧ c = B.nl then linesFrom [] false rest
    else if B.isBreak c then line.reverse :: linesFrom [] (decide (c = B.cr)) rest
    else linesFrom (c :: line) false rest

/-- `splitlines` -/
def splitlines (text : List α) : List (List α) := B.linesFrom [] false text

end

/-- what stands between two lines -/
def IsBreak (b : List α) : Prop := (∃ c, b = [c] ∧ B.isBreak c = true) ∨ b = [B.cr, B.nl]

/-- what a reader may split a text into: at breaks, and at every newline -/
inductive Reads : List α → List (List α) → Prop
  | done : Reads [] []
  | last {l : List α} (h : B.nl ∉ l) : Reads l [l]
  | line {l b text : List α} {lines : List (List α)} (h : B.nl ∉ l) (hb : B.IsBreak b)
      (rest : Reads text lines) : Reads (l ++ (b ++ text)) (l :: lines)

variable {B}

/-- **whole lines without breaks are read as they are** -/
theorem Reads.eq_of_lines {ls lines : List (List α)} (h : ∀ l ∈ ls, ∀ c ∈ l, B.isBreak c = false)
    (hr : B.Reads (ls.flatMap (· ++ [B.nl])) lines) : lines = ls ∨ lines = ls ++ [[]] := by
  induction ls generalizing lines with
  | nil =>
    rw [List.flatMap_nil] at hr
    generalize ht : ([] : List α) = text at hr
    cases hr with
    | done => exact .inl rfl
    | last _ =>
      rw [← ht]
      exact .inr rfl
    | line _ hb _ =>
      obtain ⟨-, hnil⟩ := List.append_eq_nil_iff.mp ht.symm
      obtain ⟨rfl, -⟩ := List.append_eq_nil_iff.mp hnil
      obtain ⟨c, hc, -⟩ | hc := hb <;> cases hc
  | cons l₀ ls ih =>
    have hl₀ := h l₀ List.mem_cons_self
    rw [List.flatMap_cons, List.append_assoc, List.singleton_append] at hr
    generalize ht : l₀ ++ B.nl :: ls.flatMap (· ++ [B.nl]) = text at hr
    cases hr with
    | done => exact absurd (List.append_eq_nil_iff.mp ht).2 (List.cons_ne_nil _ _)
    | last hnl =>
      rw [← ht] at hnl
      exact absurd (List.mem_append_right _ List.mem_cons_self) hnl
    | line hnl hb rest =>
      rename_i l b text lines
      -- the break of the reader is the newline after the first line
      have hcut : l = l₀ ∧ b ++ text = B.nl :: ls.flatMap (· ++ [B.nl]) := by
        obtain ⟨x, hx, hrest⟩ | ⟨x, hx, hrest⟩ := List.append_eq_append_iff.mp ht
        · cases x with
          | nil =>
            rw [List.append_nil] at hx
            exact ⟨hx, hrest.symm⟩
          | cons c x =>
            rw [List.cons_append] at hrest
            rw [hx, (List.cons.inj hrest).1] at hnl
            exact absurd (List.mem_append_right _ List.mem_cons_self) hnl
        · cases x with
          | nil =>
            rw [List.append_nil] at hx
            exact ⟨hx.symm, hrest⟩
          | cons c x =>
            have hc : B.isBreak c = false := by
              apply hl₀
              rw [hx]
              exact List.mem_append_right _ List.mem_cons_self
            obtain ⟨d, rfl, hd⟩ | rfl := hb
            · rw [(List.cons.inj hrest).1, hc] at hd
              cases hd
            · have hcr := B.cr_isBreak
              rw [(List.cons.inj hrest).1, hc] at hcr
              cases hcr
      obtain ⟨rfl, hrest⟩ := hcut
      have htext : text = ls.flatMap (· ++ [B.nl]) := by
        obtain ⟨d, rfl, hd⟩ | rfl := hb
        · exact (List.cons.inj hrest).2
        · exact absurd (List.cons.inj hrest).1 B.cr_ne_nl
      rw [htext] at rest
      obtain rfl | rfl := ih (fun l hl => h l (List.mem_cons_of_mem _ hl)) rest
      · exact .inl rfl
      · exact .inr rfl

/-- a line is part of the text -/
theorem Reads.infix_of_mem {text l : List α} {lines : List (List α)} (h : B.Reads text lines)
    (hl : l ∈ lines) : l <:+: text := by
  induction h with
  | done => cases hl
  | last _ =>
    exact List.mem_singleton.mp hl ▸ List.infix_rfl
  | line _ _ rest ih =>
    obtain rfl | hl := List.mem_cons.mp hl
    · exact (List.prefix_append _ _).isInfix
    · exact ((ih hl).trans (List.suffix_append _ _).isInfix).trans (List.suffix_append _ _).isInfix

/-! ## readers -/

section

variable [DecidableEq α]

theorem linesFrom_reads (text : List α) : ∀ line : List α, B.nl ∉ line →
    B.Reads (line.reverse ++ text) (B.linesFrom line false text) := by
  induction h : text.length using Nat.strongRecOn generalizing text with
  | ind n ih =>
    intro line hline
    have hrev : B.nl ∉ line.reverse := fun hm => hline (List.mem_reverse.mp hm)
    cases text with
    | nil =>
      rw [linesFrom, List.append_nil]
      split
      · rename_i hl
        rw [hl]
        exact .done
      · exact .last hrev
    | cons c text =>
      rw [List.length_cons] at h
      rw [linesFrom, if_neg fun h => Bool.false_ne_true h.1]
      split
      · rename_i hc
        by_cases hcr : c = B.cr ∧ text.head? = some B.nl
        · -- a carriage return and a newline
          obtain ⟨rfl, hhead⟩ := hcr
          obtain ⟨text, rfl⟩ := List.head?_eq_some_iff.mp hhead
          rw [List.length_cons] at h
          have hrest := ih text.length (by omega) text rfl [] List.not_mem_nil
          rw [linesFrom, if_pos (by simp)]
          exact .line hrev (.inr rfl) hrest
        · have hnext : B.linesFrom [] (decide (c = B.cr)) text = B.linesFrom [] false text := by
            cases text with
            | nil => rfl
            | cons d text =>
              have hd : ¬ (decide (c = B.cr) = true ∧ d = B.nl) := by
                rintro ⟨hd, rfl⟩
                exact hcr ⟨of_decide_eq_true hd, rfl⟩
              simp only [linesFrom, if_neg hd, Bool.false_eq_true, false_and, if_false]
          have hrest := ih text.length (by omega) text rfl [] List.not_mem_nil
          rw [hnext]
          exact .line hrev (.inl ⟨c, rfl, hc⟩) hrest
      · rename_i hc
        have hne : B.nl ≠ c := by
          rintro rfl
          exact hc B.nl_isBreak
        have hrest := ih text.length (by omega) text rfl (c :: line)
          (List.not_mem_cons_of_ne_of_not_mem hne hline)
        rw [List.reverse_cons, List.append_assoc] at hrest
        exact hrest

/-- `splitlines` is such a reader -/
theorem reads_splitlines (text : List α) : B.Reads text (B.splitlines text) :=
  linesFrom_reads text [] List.not_mem_nil

/-- and so is `split` -/
theorem reads_splitOn (text : List α) : B.Reads text (text.splitOn B.nl) := by
  induction h : text.length using Nat.strongRecOn generalizing text with
  | ind n ih =>
    by_cases hm : B.nl ∈ text
    · obtain ⟨l, r, rfl, hl⟩ := List.eq_append_cons_of_mem hm
      have hrest := ih r.length (by rw [← h, List.length_append, List.length_cons]; omega) r rfl
      rw [List.splitOn_append_cons_self, List.splitOn_eq_singleton hl]
      exact .line hl (.inl ⟨_, rfl, B.nl_isBreak⟩) hrest
    · rw [List.splitOn_eq_singleton hm]
      exact .last hm

/-! ## whole lines -/

omit [DecidableEq α] in
/-- a text that ends where a line ends -/
def Whole (B : Breaks α) (text : List α) : Prop := text = [] ∨ text.getLast? = some B.nl

omit [DecidableEq α] in
theorem whole_append_nl (l : List α) : B.Whole (l ++ [B.nl]) := .inr (by simp)

omit [DecidableEq α] in
theorem Whole.append {l r : List α} (hl : B.Whole l) (hr : B.Whole r) : B.Whole (l ++ r) := by
  obtain rfl | hr := hr
  · rw [List.append_nil]
    exact hl
  · right
    rw [List.getLast?_append, hr]
    rfl

omit [DecidableEq α] in
theorem Whole.eq_append {text : List α} (h : B.Whole text) (hne : text ≠ []) :
    ∃ l, text = l ++ [B.nl] := by
  have hlast := h.resolve_left hne
  exact ⟨text.dropLast, (List.dropLast_append_getLast? B.nl hlast).symm⟩

theorem linesFrom_append_nl (l : List α) : ∀ (line : List α) (afterCr : Bool) (rest : List α),
    B.linesFrom line afterCr (l ++ B.nl :: rest) =
      B.linesFrom line afterCr (l ++ [B.nl]) ++ B.linesFrom [] false rest := by
  induction l with
  | nil =>
    intro line afterCr rest
    have hcr : decide (B.nl = B.cr) = false := decide_eq_false (Ne.symm B.cr_ne_nl)
    rw [List.nil_append, List.nil_append, linesFrom, linesFrom]
    split
    · rfl
    · rw [if_pos B.nl_isBreak, if_pos B.nl_isBreak, hcr]
      rfl
  | cons c l ih =>
    intro line afterCr rest
    rw [List.cons_append, List.cons_append, linesFrom, linesFrom]
    split
    · exact ih [] false rest
    · split
      · rw [ih, List.cons_append]
      · exact ih (c :: line) false rest

/-- **the lines of a text after whole lines are those lines and its own** -/
theorem splitlines_append {text : List α} (h : B.Whole text) (rest : List α) :
    B.splitlines (text ++ rest) = B.splitlines text ++ B.splitlines rest := by
  by_cases hne : text = []
  · rw [hne]
    rfl
  · obtain ⟨l, rfl⟩ := h.eq_append hne
    rw [List.append_assoc]
    exact linesFrom_append_nl l [] false rest

theorem splitlines_flatMap {β : Type*} {f : β → List α} {l : List β} (h : ∀ x ∈ l, B.Whole (f x)) :
    B.Whole (l.flatMap f) ∧ B.splitlines (l.flatMap f) = l.flatMap fun x => B.splitlines (f x) := by
  induction l with
  | nil => exact ⟨.inl rfl, rfl⟩
  | cons x l ih =>
    obtain ⟨hwhole, hlines⟩ := ih fun y hy => h y (List.mem_cons_of_mem x hy)
    have hx := h x List.mem_cons_self
    rw [List.flatMap_cons, List.flatMap_cons, splitlines_append hx, hlines]
    exact ⟨hx.append hwhole, rfl⟩

end

end Breaks

/-- the breaks of a Python `str` -/
def textBreaks : Breaks Char where
  isBreak c := decide (10 ≤ c.toNat ∧ c.toNat ≤ 13 ∨ 28 ≤ c.toNat ∧ c.toNat ≤ 30 ∨
    c.toNat = 133 ∨ c.toNat = 8232 ∨ c.toNat = 8233)
  cr := '\r'
  nl := '\n'
  cr_isBreak := by decide
  nl_isBreak := by decide
  cr_ne_nl := by decide

/-- the breaks of Python's `bytes` -/
def byteBreaks : Breaks UInt8 where
  isBreak b := decide (b = 10 ∨ b = 13)
  cr := 13
  nl := 10
  cr_isBreak := by decide
  nl_isBreak := by decide
  cr_ne_nl := by decide

end Freepod.Base
