import Freepod.Base.JsonText
import Mathlib.Data.List.Infix

/-!
# How a JSON text spells its strings

* `IsEscape`, `IsUnit`, `Spells`: a string as the characters and escapes that spell it.
* `scanOnce_step`, `loads_spells`: every string of a value that was read is spelled in its text.
* `Spells.part`: what spells a string spells every part of it.
* `Spells.verbatim`: a spelling without a backslash is the string itself.
-/

namespace Freepod.Base.JsonText

/-! ## spellings -/

inductive IsEscape : Nat → List Char → Prop
  | short {letter : Char} {n : Nat} (h : unescape letter = some n) : IsEscape n ['\\', letter]
  | unicode {a b c d : Char} {n : Nat} (h : hex4 a b c d = some n) :
      IsEscape n ['\\', 'u', a, b, c, d]
  | pair {a b c d a' b' c' d' : Char} {n m : Nat} (h : hex4 a b c d = some n)
      (h' : hex4 a' b' c' d' = some m) :
      IsEscape (65536 + (n - 55296) * 1024 + (m - 56320))
        ['\\', 'u', a, b, c, d, '\\', 'u', a', b', c', d']

/-- what stands for one code point -/
def IsUnit (n : Nat) (u : List Char) : Prop := (∃ c, u = [c] ∧ c.toNat = n) ∨ IsEscape n u

/-- a text that stands for a string -/
inductive Spells : List Nat → List Char → Prop
  | nil : Spells [] []
  | cons {n : Nat} {u : List Char} {s : List Nat} {e : List Char} (h : IsUnit n u)
      (rest : Spells s e) : Spells (n :: s) (u ++ e)

theorem Spells.split {s t : List Nat} {e : List Char} (h : Spells (s ++ t) e) :
    ∃ e₁ e₂, e = e₁ ++ e₂ ∧ Spells s e₁ ∧ Spells t e₂ := by
  induction s generalizing e with
  | nil => exact ⟨[], e, rfl, .nil, h⟩
  | cons n s ih =>
    generalize hs : n :: s ++ t = l at h
    cases h with
    | nil => cases hs
    | cons hu rest =>
      obtain ⟨rfl, rfl⟩ := List.cons.inj hs
      obtain ⟨e₁, e₂, rfl, h₁, h₂⟩ := ih rest
      exact ⟨_, e₂, (List.append_assoc _ e₁ e₂).symm, .cons hu h₁, h₂⟩

/-- **what spells a string spells every part of it** -/
theorem Spells.part {s w : List Nat} {e : List Char} (h : Spells s e) (hw : w <:+: s) :
    ∃ e', e' <:+: e ∧ Spells w e' := by
  obtain ⟨l, r, rfl⟩ := hw
  obtain ⟨e₁, e₂, rfl, h₁, -⟩ := h.split
  obtain ⟨e₃, e₄, rfl, -, h₄⟩ := h₁.split
  exact ⟨e₄, ⟨e₃, e₂, rfl⟩, h₄⟩

theorem IsEscape.backslash_mem {n : Nat} {u : List Char} (h : IsEscape n u) : '\\' ∈ u := by
  cases h with
  | short _ => exact List.mem_cons_self
  | unicode _ => exact List.mem_cons_self
  | pair _ _ => exact List.mem_cons_self

/-- **a spelling without a backslash is the string itself** -/
theorem Spells.verbatim {s : List Nat} {e : List Char} (h : Spells s e) (hb : '\\' ∉ e) :
    e.map Char.toNat = s := by
  induction h with
  | nil => rfl
  | cons hu rest ih =>
    rw [List.mem_append, not_or] at hb
    obtain ⟨c, rfl, hc⟩ | hescape := hu
    · rw [List.map_append, ih hb.2, List.map_singleton, hc]
      rfl
    · exact absurd hescape.backslash_mem hb.1

/-- a character that may stand in an escape -/
def IsEscapeChar (c : Char) : Prop :=
  c ∈ ['\\', 'u', '/', '\x22', 'n', 'r', 't', 'f', 'b'] ∨ (hexValue c).isSome = true

theorem isEscapeChar_of_hex4 {a b c d : Char} {n : Nat} (h : hex4 a b c d = some n) :
    ∀ x ∈ [a, b, c, d], IsEscapeChar x := by
  simp only [hex4, Option.bind_eq_bind, Option.bind_eq_some_iff] at h
  obtain ⟨a', ha, b', hb, c', hc, d', hd, -⟩ := h
  intro x hx
  simp only [List.mem_cons, List.not_mem_nil, or_false] at hx
  right
  rcases hx with rfl | rfl | rfl | rfl
  · rw [ha]
    rfl
  · rw [hb]
    rfl
  · rw [hc]
    rfl
  · rw [hd]
    rfl

/-- a short escape: its letter, and a code point in ASCII -/
theorem unescape_eq_some {letter : Char} {n : Nat} (h : unescape letter = some n) :
    IsEscapeChar letter ∧ n < 128 := by
  unfold unescape at h
  split at h
  · rename_i he
    rw [he, ← Option.some.inj h]
    exact ⟨.inl (by decide), by decide⟩
  · obtain ⟨e, he, rfl⟩ := Option.map_eq_some_iff.mp h
    have hmem := List.mem_of_find?_eq_some he
    have hletter : e.2 = letter := by simpa using List.find?_some he
    simp only [shortEscapes, List.mem_cons, List.not_mem_nil, or_false] at hmem
    rw [← hletter]
    rcases hmem with rfl | rfl | rfl | rfl | rfl | rfl | rfl <;>
      exact ⟨.inl (by decide), by decide⟩

theorem IsEscape.isEscapeChar {n : Nat} {u : List Char} (h : IsEscape n u) {c : Char}
    (hc : c ∈ u) : IsEscapeChar c := by
  have hu : ∀ {a b c d : Char} {m : Nat}, hex4 a b c d = some m →
      ∀ x ∈ ['\\', 'u', a, b, c, d], IsEscapeChar x := by
    intro a b c d m hm x hx
    simp only [List.mem_cons] at hx
    rcases hx with rfl | rfl | hx
    · exact .inl (by decide)
    · exact .inl (by decide)
    · exact isEscapeChar_of_hex4 hm x (by simpa using hx)
  cases h with
  | short hl =>
    rename_i letter
    simp only [List.mem_cons, List.not_mem_nil, or_false] at hc
    obtain rfl | rfl := hc
    · exact .inl (by decide)
    · exact (unescape_eq_some hl).1
  | unicode hm => exact hu hm c hc
  | pair hm hm' =>
    have hsplit : c ∈ ['\\', 'u', _, _, _, _] ++ ['\\', 'u', _, _, _, _] := hc
    obtain hc | hc := List.mem_append.mp hsplit
    · exact hu hm c hc
    · exact hu hm' c hc

/-- a spelling is made of the string's characters and of those of escapes -/
theorem Spells.mem {s : List Nat} {e : List Char} (h : Spells s e) {c : Char} (hc : c ∈ e) :
    c.toNat ∈ s ∨ IsEscapeChar c := by
  induction h with
  | nil => cases hc
  | cons hu rest ih =>
    obtain hc | hc := List.mem_append.mp hc
    · obtain ⟨d, rfl, hd⟩ | hescape := hu
      · left
        rw [List.mem_singleton.mp hc, hd]
        exact List.mem_cons_self
      · exact .inr (hescape.isEscapeChar hc)
    · exact (ih hc).imp_left (List.mem_cons_of_mem _)

/-! ## what was read -/

theorem readUnicode_eq_some {text rest : List Char} {n : Nat}
    (h : readUnicode text = some (n, rest)) :
    ∃ a b c d, text = '\\' :: 'u' :: a :: b :: c :: d :: rest ∧ hex4 a b c d = some n := by
  unfold readUnicode at h
  split at h
  · obtain ⟨m, hm, he⟩ := Option.map_eq_some_iff.mp h
    obtain ⟨rfl, rfl⟩ := Prod.mk.inj he
    exact ⟨_, _, _, _, rfl, hm⟩
  · cases h

theorem readUnit_eq_some {text rest : List Char} {n : Nat} (h : readUnit text = some (n, rest)) :
    ∃ u, text = u ++ rest ∧
      ((∃ c, u = [c] ∧ c.toNat = n) ∨ (∃ letter, u = ['\\', letter] ∧ unescape letter = some n) ∨
        ∃ a b c d, u = ['\\', 'u', a, b, c, d] ∧ hex4 a b c d = some n) := by
  unfold readUnit at h
  split at h
  · cases h
  · rename_i c after
    split at h
    · rename_i hc
      split at h
      · cases h
      · split at h
        · obtain ⟨a, b, c', d, htext, hm⟩ := readUnicode_eq_some h
          exact ⟨_, htext, .inr (.inr ⟨a, b, c', d, rfl, hm⟩)⟩
        · rename_i letter after _
          obtain ⟨m, hm, he⟩ := Option.map_eq_some_iff.mp h
          obtain ⟨rfl, rfl⟩ := Prod.mk.inj he
          exact ⟨['\\', letter], by rw [hc]; rfl, .inr (.inl ⟨letter, rfl, hm⟩)⟩
    · split at h
      · cases h
      · obtain ⟨rfl, rfl⟩ := Prod.mk.inj (Option.some.inj h)
        exact ⟨[c], rfl, .inl ⟨c, rfl, rfl⟩⟩

/-- **a code point that was read is spelled** -/
theorem readPoint_eq_some {text rest : List Char} {n : Nat}
    (h : readPoint text = some (n, rest)) : ∃ u, text = u ++ rest ∧ IsUnit n u := by
  have hone : ∀ {rest : List Char} {n : Nat}, readUnit text = some (n, rest) →
      ∃ u, text = u ++ rest ∧ IsUnit n u := by
    intro rest n h
    obtain ⟨u, htext, ⟨c, hu⟩ | ⟨letter, rfl, hl⟩ | ⟨a, b, c, d, rfl, hm⟩⟩ := readUnit_eq_some h
    · exact ⟨u, htext, .inl ⟨c, hu⟩⟩
    · exact ⟨_, htext, .inr (.short hl)⟩
    · exact ⟨_, htext, .inr (.unicode hm)⟩
  unfold readPoint at h
  split at h
  · cases h
  · rename_i m after hread
    split at h
    · rename_i hhigh
      split at h
      · obtain ⟨rfl, rfl⟩ := Prod.mk.inj (Option.some.inj h)
        exact hone hread
      · rename_i m' after' hnext
        split at h
        · -- a pair: the first half is an escape, for no character is a surrogate
          obtain ⟨rfl, rfl⟩ := Prod.mk.inj (Option.some.inj h)
          obtain ⟨a', b', c', d', hafter, hm'⟩ := readUnicode_eq_some hnext
          obtain ⟨u, htext, ⟨c, rfl, hc⟩ | ⟨letter, rfl, hl⟩ | ⟨a, b, c, d, rfl, hm⟩⟩ :=
            readUnit_eq_some hread
          · exfalso
            have hv := c.valid
            have hn : c.val.toNat = c.toNat := rfl
            simp only [UInt32.isValidChar, Nat.isValidChar] at hv
            have hh := of_decide_eq_true hhigh
            omega
          · exfalso
            have hlt := (unescape_eq_some hl).2
            have hh := of_decide_eq_true hhigh
            omega
          · exact ⟨_, by rw [htext, hafter]; rfl, .inr (.pair hm hm')⟩
        · obtain ⟨rfl, rfl⟩ := Prod.mk.inj (Option.some.inj h)
          exact hone hread
    · obtain ⟨rfl, rfl⟩ := Prod.mk.inj (Option.some.inj h)
      exact hone hread

theorem scanString_spells {fuel : Nat} {text rest : List Char} {s : List Nat}
    (h : scanString fuel text = some (s, rest)) :
    ∃ e, text = e ++ '\x22' :: rest ∧ Spells s e := by
  induction fuel generalizing text s with
  | zero => cases h
  | succ fuel ih =>
    cases text with
    | nil => cases h
    | cons c text =>
      rw [scanString] at h
      split at h
      · rename_i hc
        obtain ⟨rfl, rfl⟩ := Prod.mk.inj (Option.some.inj h)
        exact ⟨[], by rw [hc]; rfl, .nil⟩
      · split at h
        · cases h
        · rename_i n after hread
          obtain ⟨⟨s', rest'⟩, hrec, he⟩ := Option.map_eq_some_iff.mp h
          obtain ⟨rfl, rfl⟩ := Prod.mk.inj he
          obtain ⟨u, htext, hu⟩ := readPoint_eq_some hread
          obtain ⟨e, rfl, hs⟩ := ih hrec
          exact ⟨u ++ e, by rw [htext, List.append_assoc], .cons hu hs⟩

mutual
/-- every string of a value, its keys among them -/
def strings : Value → List (List Nat)
  | .str s => [s]
  | .arr items => stringsItems items
  | .obj fields => stringsFields fields
  | _ => []

def stringsItems : List Value → List (List Nat)
  | [] => []
  | item :: items => strings item ++ stringsItems items

def stringsFields : List (List Nat × Value) → List (List Nat)
  | [] => []
  | field :: fields => stringsField field ++ stringsFields fields

def stringsField : List Nat × Value → List (List Nat)
  | (key, value) => key :: strings value
end

/-- strings that are spelled in a text, of which some is left -/
def SpelledIn (text : List Char) (l : List (List Nat)) (rest : List Char) : Prop :=
  rest <:+ text ∧ ∀ s ∈ l, ∃ e, e <:+: text ∧ Spells s e

theorem SpelledIn.mono {text text' rest : List Char} {l : List (List Nat)}
    (h : SpelledIn text l rest) (ht : text <:+ text') : SpelledIn text' l rest := by
  refine ⟨h.1.trans ht, ?_⟩
  intro s hs
  obtain ⟨e, he, hspell⟩ := h.2 s hs
  exact ⟨e, he.trans ht.isInfix, hspell⟩

theorem SpelledIn.append {text rest rest' : List Char} {l l' : List (List Nat)}
    (h : SpelledIn text l rest) (h' : SpelledIn rest l' rest') :
    SpelledIn text (l ++ l') rest' := by
  have hnext := h'.mono h.1
  refine ⟨hnext.1, ?_⟩
  intro s hs
  obtain hs | hs := List.mem_append.mp hs
  · exact h.2 s hs
  · exact hnext.2 s hs

theorem SpelledIn.drop {text rest rest' : List Char} {l : List (List Nat)}
    (h : SpelledIn text l rest) (hr : rest' <:+ rest) : SpelledIn text l rest' :=
  ⟨hr.trans h.1, h.2⟩

theorem spelledIn_nil {text rest : List Char} (h : rest <:+ text) : SpelledIn text [] rest := by
  refine ⟨h, ?_⟩
  intro s hs
  cases hs

theorem skipSpace_suffix (text : List Char) : skipSpace text <:+ text := List.dropWhile_suffix _

theorem suffix_of_skipSpace {rest after : List Char} {c : Char}
    (h : skipSpace rest = c :: after) : after <:+ rest :=
  (List.suffix_cons c after).trans (h ▸ skipSpace_suffix rest)

theorem spelledIn_string {fuel : Nat} {text rest : List Char} {s : List Nat}
    (h : scanString fuel text = some (s, rest)) : SpelledIn text [s] rest := by
  obtain ⟨e, rfl, hs⟩ := scanString_spells h
  refine ⟨⟨e ++ ['\x22'], by simp⟩, ?_⟩
  intro t ht
  rw [List.mem_singleton.mp ht]
  exact ⟨e, (List.prefix_append e _).isInfix, hs⟩

/-! ## strings of values that are not strings -/

theorem scanRest_spells {negative : Bool} {digits text rest : List Char} {v : Value}
    (h : scanRest negative digits text = some (v, rest)) : rest <:+ text ∧ strings v = [] := by
  unfold scanRest at h
  simp only at h
  split at h
  · obtain ⟨rfl, rfl⟩ := Prod.mk.inj (Option.some.inj h)
    exact ⟨List.drop_suffix _ _, rfl⟩
  · split at h
    · cases h
    · obtain ⟨rfl, rfl⟩ := Prod.mk.inj (Option.some.inj h)
      exact ⟨List.suffix_refl _, rfl⟩

theorem scanDigits_spells {negative : Bool} {text rest : List Char} {v : Value}
    (h : scanDigits negative text = some (v, rest)) : rest <:+ text ∧ strings v = [] := by
  cases text with
  | nil => cases h
  | cons c text =>
    rw [scanDigits] at h
    split at h
    · obtain ⟨hs, hv⟩ := scanRest_spells h
      exact ⟨hs.trans (List.suffix_cons c text), hv⟩
    · split at h
      · obtain ⟨hs, hv⟩ := scanRest_spells h
        exact ⟨(hs.trans (List.dropWhile_suffix _)).trans (List.suffix_cons c text), hv⟩
      · cases h

theorem scanConstant_spells {text rest : List Char} {v : Value}
    (h : scanConstant text = some (v, rest)) : SpelledIn text (strings v) rest := by
  have hboth : rest <:+ text ∧ strings v = [] := by
    unfold scanConstant at h
    split at h
    · rename_i p hp
      obtain ⟨rfl, rfl⟩ := Prod.mk.inj (Option.some.inj h)
      refine ⟨List.drop_suffix _ _, ?_⟩
      have hmem := List.mem_of_find?_eq_some hp
      simp only [constants, List.mem_cons, List.not_mem_nil, or_false] at hmem
      rcases hmem with rfl | rfl | rfl | rfl | rfl | rfl <;> rfl
    · cases text with
      | nil => cases h
      | cons c text =>
        rw [scanNumber] at h
        split at h
        · obtain ⟨hs, hv⟩ := scanDigits_spells h
          exact ⟨hs.trans (List.suffix_cons c text), hv⟩
        · exact scanDigits_spells h
  rw [hboth.2]
  exact spelledIn_nil hboth.1

/-! ## values -/

theorem stringsFields_eq (fields : List (List Nat × Value)) :
    stringsFields fields = fields.flatMap stringsField := by
  induction fields with
  | nil => rfl
  | cons field fields ih => rw [stringsFields, ih, List.flatMap_cons]

/-- a dictionary has no string that its pairs do not have -/
theorem strings_toDict {pairs : List (List Nat × Value)} {s : List Nat}
    (h : s ∈ stringsFields (toDict pairs)) : s ∈ stringsFields pairs := by
  have hmem : ∀ (pairs d : List (List Nat × Value)),
      ∀ p ∈ pairs.foldl (fun d p => setKey p.1 p.2 d) d, p ∈ d ∨ p ∈ pairs := by
    intro pairs
    induction pairs with
    | nil => exact fun d p hp => .inl hp
    | cons q pairs ih =>
      intro d p hp
      obtain hp | hp := ih _ p hp
      · obtain rfl | hp := mem_setKey hp
        · exact .inr List.mem_cons_self
        · exact .inl hp
      · exact .inr (List.mem_cons_of_mem q hp)
  rw [stringsFields_eq, List.mem_flatMap] at h ⊢
  obtain ⟨p, hp, hs⟩ := h
  obtain hp | hp := hmem pairs [] p hp
  · cases hp
  · exact ⟨p, hp, hs⟩

/-- what each scanner reads with some fuel is spelled in its text -/
structure ScansSpelled (fuel : Nat) : Prop where
  once : ∀ text v rest, scanOnce fuel text = some (v, rest) → SpelledIn text (strings v) rest
  items : ∀ text l rest, scanItems fuel text = some (l, rest) →
    SpelledIn text (stringsItems l) rest
  fields : ∀ text l rest, scanFields fuel text = some (l, rest) →
    SpelledIn text (stringsFields l) rest
  field : ∀ text f rest, scanField fuel text = some (f, rest) → SpelledIn text (stringsField f) rest

theorem scanOnce_step {fuel : Nat} (ih : ScansSpelled fuel) {text rest : List Char} {v : Value}
    (h : scanOnce (fuel + 1) text = some (v, rest)) : SpelledIn text (strings v) rest := by
  cases text with
  | nil => cases h
  | cons c text =>
    have hcons : text <:+ c :: text := List.suffix_cons c text
    have hspace : skipSpace text <:+ c :: text := (skipSpace_suffix text).trans hcons
    rw [scanOnce] at h
    split at h
    · obtain ⟨⟨s, rest'⟩, hs, he⟩ := Option.map_eq_some_iff.mp h
      obtain ⟨rfl, rfl⟩ := Prod.mk.inj he
      exact (spelledIn_string hs).mono hcons
    · split at h
      · split at h
        · obtain ⟨rfl, rfl⟩ := Prod.mk.inj (Option.some.inj h)
          exact spelledIn_nil ((List.drop_suffix 1 _).trans hspace)
        · obtain ⟨⟨fields, rest'⟩, hf, he⟩ := Option.map_eq_some_iff.mp h
          obtain ⟨rfl, rfl⟩ := Prod.mk.inj he
          have hspelled := (ih.fields _ _ _ hf).mono hspace
          exact ⟨hspelled.1, fun s hs => hspelled.2 s (strings_toDict hs)⟩
      · split at h
        · split at h
          · obtain ⟨rfl, rfl⟩ := Prod.mk.inj (Option.some.inj h)
            exact spelledIn_nil ((List.drop_suffix 1 _).trans hspace)
          · obtain ⟨⟨items, rest'⟩, hi, he⟩ := Option.map_eq_some_iff.mp h
            obtain ⟨rfl, rfl⟩ := Prod.mk.inj he
            exact (ih.items _ _ _ hi).mono hspace
        · exact scanConstant_spells h

theorem scanItems_step {fuel : Nat} (ih : ScansSpelled fuel) {text rest : List Char}
    {l : List Value} (h : scanItems (fuel + 1) text = some (l, rest)) :
    SpelledIn text (stringsItems l) rest := by
  rw [scanItems] at h
  split at h
  · cases h
  · rename_i v after hv
    have hitem := ih.once _ _ _ hv
    split at h
    · cases h
    · rename_i c after' hspace
      have hafter := suffix_of_skipSpace hspace
      split at h
      · obtain ⟨rfl, rfl⟩ := Prod.mk.inj (Option.some.inj h)
        exact (hitem.append (spelledIn_nil hafter)).drop (List.suffix_refl _)
      · split at h
        · obtain ⟨⟨items, rest'⟩, hi, he⟩ := Option.map_eq_some_iff.mp h
          obtain ⟨rfl, rfl⟩ := Prod.mk.inj he
          exact hitem.append ((ih.items _ _ _ hi).mono ((skipSpace_suffix _).trans hafter))
        · cases h

theorem scanFields_step {fuel : Nat} (ih : ScansSpelled fuel) {text rest : List Char}
    {l : List (List Nat × Value)} (h : scanFields (fuel + 1) text = some (l, rest)) :
    SpelledIn text (stringsFields l) rest := by
  rw [scanFields] at h
  split at h
  · cases h
  · rename_i field after hf
    have hfield := ih.field _ _ _ hf
    split at h
    · cases h
    · rename_i c after' hspace
      have hafter := suffix_of_skipSpace hspace
      split at h
      · obtain ⟨rfl, rfl⟩ := Prod.mk.inj (Option.some.inj h)
        exact (hfield.append (spelledIn_nil hafter)).drop (List.suffix_refl _)
      · split at h
        · obtain ⟨⟨fields, rest'⟩, hi, he⟩ := Option.map_eq_some_iff.mp h
          obtain ⟨rfl, rfl⟩ := Prod.mk.inj he
          exact hfield.append ((ih.fields _ _ _ hi).mono ((skipSpace_suffix _).trans hafter))
        · cases h

theorem scanField_step {fuel : Nat} (ih : ScansSpelled fuel) {text rest : List Char}
    {f : List Nat × Value} (h : scanField (fuel + 1) text = some (f, rest)) :
    SpelledIn text (stringsField f) rest := by
  cases text with
  | nil => cases h
  | cons c text =>
    rw [scanField] at h
    split at h
    · split at h
      · cases h
      · rename_i key after hkey
        have hstring := (spelledIn_string hkey).mono (List.suffix_cons c text)
        split at h
        · cases h
        · rename_i d after' hspace
          have hafter := suffix_of_skipSpace hspace
          split at h
          · obtain ⟨⟨v, rest'⟩, hv, he⟩ := Option.map_eq_some_iff.mp h
            obtain ⟨rfl, rfl⟩ := Prod.mk.inj he
            exact hstring.append ((ih.once _ _ _ hv).mono ((skipSpace_suffix _).trans hafter))
          · cases h
    · cases h

theorem scansSpelled (fuel : Nat) : ScansSpelled fuel := by
  induction fuel with
  | zero =>
    refine ⟨?_, ?_, ?_, ?_⟩
    · intro text v rest h
      rw [scanOnce] at h
      cases h
    · intro text l rest h
      rw [scanItems] at h
      cases h
    · intro text l rest h
      rw [scanFields] at h
      cases h
    · intro text f rest h
      rw [scanField] at h
      cases h
  | succ fuel ih =>
    exact ⟨fun _ _ _ => scanOnce_step ih, fun _ _ _ => scanItems_step ih,
      fun _ _ _ => scanFields_step ih, fun _ _ _ => scanField_step ih⟩

/-- **every string of a value that was read is spelled in its text** -/
theorem loads_spells {text : List Char} {v : Value} (h : loads text = some v) {s : List Nat}
    (hs : s ∈ strings v) : ∃ e, e <:+: text ∧ Spells s e := by
  unfold loads at h
  split at h
  · cases h
  · split at h
    · cases h
    · rename_i v' rest hscan
      split at h
      · obtain rfl := Option.some.inj h
        exact ((scansSpelled _).once _ _ _ hscan |>.mono (skipSpace_suffix text)).2 s hs
      · cases h

end Freepod.Base.JsonText
