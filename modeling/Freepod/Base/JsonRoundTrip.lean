import Freepod.Base.JsonText
import Freepod.Base.Lists

/-!
# JSON texts read back

* `readPoint_escape`, `scanString_encodeText`: a code point and a string.
* `scanConstant_encodeInt`: an integer.
* `scanOnce_encode`: a value, whatever follows it; `loads_encode` a whole text.
* `printable_encode`: a written text is one line of printable ASCII.
-/

namespace Freepod.Base.JsonText

/-! ## the texts of a value's parts -/

theorem hexValue_digitChar {n : Nat} (h : n < 16) : hexValue (Nat.digitChar n) = some n := by
  interval_cases n <;> rfl

theorem readUnicode_unicodeEscape {n : Nat} (h : n < 65536) (r : List Char) :
    readUnicode (unicodeEscape n ++ r) = some (n, r) := by
  have h4 : hex4 (Nat.digitChar (n / 4096 % 16)) (Nat.digitChar (n / 256 % 16))
      (Nat.digitChar (n / 16 % 16)) (Nat.digitChar (n % 16)) = some n := by
    unfold hex4
    simp only [hexValue_digitChar (Nat.mod_lt _ (by decide : 16 > 0)), Option.bind_eq_bind,
      Option.bind_some, Option.some.injEq]
    omega
  show (hex4 _ _ _ _).map (fun n => (n, r)) = _
  rw [h4]
  rfl

theorem readUnit_unicodeEscape {n : Nat} (h : n < 65536) (r : List Char) :
    readUnit (unicodeEscape n ++ r) = some (n, r) := readUnicode_unicodeEscape h r

theorem readUnit_shortEscape {n : Nat} {letter : Char}
    (h : shortEscapes.lookup n = some letter) (r : List Char) :
    readUnit ('\\' :: letter :: r) = some (n, r) ∧ isHigh n = false := by
  have hmem := mem_of_lookup h
  simp only [shortEscapes, List.mem_cons, Prod.mk.injEq, List.not_mem_nil, or_false] at hmem
  rcases hmem with ⟨rfl, rfl⟩ | ⟨rfl, rfl⟩ | ⟨rfl, rfl⟩ | ⟨rfl, rfl⟩ | ⟨rfl, rfl⟩ | ⟨rfl, rfl⟩ |
    ⟨rfl, rfl⟩ <;> exact ⟨rfl, rfl⟩

theorem readPoint_of_readUnit {text rest : List Char} {n : Nat}
    (h : readUnit text = some (n, rest)) (hn : isHigh n = false) :
    readPoint text = some (n, rest) := by
  unfold readPoint
  rw [h]
  simp only [hn, Bool.false_eq_true, if_false]

theorem readPoint_of_single {text rest : List Char} {n : Nat}
    (h : readUnit text = some (n, rest))
    (hr : isHigh n = true → ∀ m after, readUnicode rest = some (m, after) → isLow m = false) :
    readPoint text = some (n, rest) := by
  unfold readPoint
  rw [h]
  simp only
  split
  · rename_i hhigh
    split
    · rfl
    · rename_i m after hread
      rw [if_neg (by rw [hr hhigh m after hread]; exact Bool.false_ne_true)]
  · rfl

theorem readPoint_of_pair {text rest after : List Char} {n m : Nat}
    (h : readUnit text = some (n, rest)) (hn : isHigh n = true)
    (h' : readUnicode rest = some (m, after)) (hm : isLow m = true) :
    readPoint text = some (65536 + (n - 55296) * 1024 + (m - 56320), after) := by
  unfold readPoint
  rw [h]
  simp only [hn, if_true, h', hm]

theorem toNat_ofNat {n : Nat} (h : n.isValidChar) : (Char.ofNat n).toNat = n := by
  unfold Char.ofNat
  rw [dif_pos h]
  rfl

/-- a code point in ASCII, not escaped -/
theorem readUnit_printable {n : Nat} (hprint : 32 ≤ n ∧ n ≤ 126) (hslash : n ≠ 92)
    (r : List Char) :
    readUnit (Char.ofNat n :: r) = some (n, r) ∧ readUnicode (Char.ofNat n :: r) = none := by
  have hn := toNat_ofNat (n := n) (.inl (by omega))
  have hc : Char.ofNat n ≠ '\\' := by
    intro hc
    rw [hc] at hn
    exact hslash hn.symm
  constructor
  · simp only [readUnit]
    rw [if_neg hc, if_neg (by omega), hn]
  · unfold readUnicode
    split
    · rename_i heq
      exact absurd (List.cons.inj heq).1 hc
    · rfl

/-- **a code point that was written is read back**, and so is half of a pair unless the other half
follows it -/
theorem readPoint_escape {n : Nat} (h : n < 1114112) {r : List Char}
    (hr : isHigh n = true → ∀ m after, readUnicode r = some (m, after) → isLow m = false) :
    readPoint (escape n ++ r) = some (n, r) := by
  unfold escape
  split
  · rename_i letter hl
    obtain ⟨hread, hhigh⟩ := readUnit_shortEscape hl r
    exact readPoint_of_readUnit hread hhigh
  · rename_i hnone
    have hslash : n ≠ 92 := by
      rintro rfl
      cases hnone
    split
    · rename_i hprint
      apply readPoint_of_readUnit (readUnit_printable hprint hslash r).1
      apply decide_eq_false
      omega
    · split
      · rename_i hlt
        exact readPoint_of_single (readUnit_unicodeEscape hlt r) hr
      · have hhigh : isHigh (55296 + (n - 65536) / 1024) = true := by
          apply decide_eq_true
          omega
        have hlow : isLow (56320 + (n - 65536) % 1024) = true := by
          apply decide_eq_true
          omega
        rw [List.append_assoc, readPoint_of_pair (readUnit_unicodeEscape (by omega) _) hhigh
          (readUnicode_unicodeEscape (by omega) r) hlow]
        refine congrArg (fun m => some (m, r)) ?_
        omega

/-- an escape reads as the second half of a pair only where it is one -/
theorem isLow_of_readUnicode_escape {n m : Nat} {r after : List Char} (hmax : n < 1114112)
    (hn : isLow n = false) (h : readUnicode (escape n ++ r) = some (m, after)) : isLow m = false := by
  unfold escape at h
  split at h
  · rename_i letter hl
    have hmem := mem_of_lookup hl
    simp only [shortEscapes, List.mem_cons, Prod.mk.injEq, List.not_mem_nil, or_false] at hmem
    unfold readUnicode at h
    split at h
    · rename_i heq
      have hu : letter = 'u' := (List.cons.inj (List.cons.inj heq).2).1
      rw [hu] at hmem
      exact absurd hmem (by simp)
    · cases h
  · rename_i hnone
    have hslash : n ≠ 92 := by
      rintro rfl
      cases hnone
    split at h
    · rename_i hprint
      have hread := (readUnit_printable hprint hslash r).2
      rw [List.singleton_append, hread] at h
      cases h
    · split at h
      · rename_i hlt
        rw [readUnicode_unicodeEscape hlt] at h
        rw [← (Prod.mk.inj (Option.some.inj h)).1]
        exact hn
      · rw [List.append_assoc, readUnicode_unicodeEscape (by omega)] at h
        rw [← (Prod.mk.inj (Option.some.inj h)).1]
        apply decide_eq_false
        omega

/-- an escaped code point does not close its string -/
theorem exists_escape_eq (n : Nat) : ∃ c cs, escape n = c :: cs ∧ c ≠ '\x22' := by
  unfold escape
  split
  · exact ⟨_, _, rfl, by decide⟩
  · rename_i hnone
    split
    · rename_i hprint
      refine ⟨_, _, rfl, ?_⟩
      intro hc
      have hv : n.isValidChar := .inl (by omega)
      have hn := toNat_ofNat hv
      rw [hc] at hn
      rw [← hn] at hnone
      cases hnone
    · split
      · exact ⟨_, _, rfl, by decide⟩
      · exact ⟨_, _, rfl, by decide⟩

/-- the code points of a `str`, none of them next to the other half of its pair -/
def IsText (s : List Nat) : Prop :=
  (∀ n ∈ s, n < 1114112) ∧ s.IsChain fun m n => ¬ (isHigh m = true ∧ isLow n = true)

instance (s : List Nat) : Decidable (IsText s) := inferInstanceAs (Decidable (_ ∧ _))

theorem scanString_escapes {s : List Nat} (h : IsText s) (r : List Char) {fuel : Nat}
    (hf : s.length < fuel) :
    scanString fuel (s.flatMap escape ++ '\x22' :: r) = some (s, r) := by
  induction s generalizing fuel with
  | nil =>
    obtain ⟨fuel, rfl⟩ := Nat.exists_eq_succ_of_ne_zero (Nat.ne_of_gt hf)
    rfl
  | cons n s ih =>
    obtain ⟨fuel, rfl⟩ := Nat.exists_eq_succ_of_ne_zero (Nat.ne_of_gt (Nat.zero_lt_of_lt hf))
    obtain ⟨hmax, hchain⟩ := h
    have hs : IsText s :=
      ⟨fun m hm => hmax m (List.mem_cons_of_mem n hm), List.isChain_of_isChain_cons hchain⟩
    have hrest := ih hs (Nat.lt_of_succ_lt_succ hf)
    have hnext : isHigh n = true → ∀ m after,
        readUnicode (s.flatMap escape ++ '\x22' :: r) = some (m, after) → isLow m = false := by
      intro hhigh m after hread
      cases s with
      | nil => cases hread
      | cons n' s =>
        rw [List.flatMap_cons, List.append_assoc] at hread
        have hlow : isLow n' = false := by
          rw [List.isChain_cons_cons] at hchain
          exact Bool.eq_false_iff.mpr fun hlow => hchain.1 ⟨hhigh, hlow⟩
        exact isLow_of_readUnicode_escape (hs.1 n' List.mem_cons_self) hlow hread
    have hread := readPoint_escape (hmax n List.mem_cons_self) hnext
    obtain ⟨c, cs, he, hc⟩ := exists_escape_eq n
    rw [List.flatMap_cons, List.append_assoc]
    rw [he, List.cons_append] at hread ⊢
    rw [scanString, if_neg hc, hread]
    simp only
    rw [hrest]
    rfl

theorem length_le_flatMap_escape (s : List Nat) : s.length ≤ (s.flatMap escape).length := by
  induction s with
  | nil => exact Nat.le_refl 0
  | cons n s ih =>
    obtain ⟨c, cs, he, -⟩ := exists_escape_eq n
    rw [List.flatMap_cons, List.length_append, he, List.length_cons, List.length_cons]
    omega

/-- **a string that was written is read back** -/
theorem scanString_encodeText {s : List Nat} (h : IsText s) (r : List Char) :
    ∃ rest, encodeText s ++ r = '\x22' :: rest ∧
      scanString (rest.length + 1) rest = some (s, r) := by
  refine ⟨s.flatMap escape ++ '\x22' :: r, by simp [encodeText], ?_⟩
  apply scanString_escapes h
  have := length_le_flatMap_escape s
  simp only [List.length_append, List.length_cons]
  omega

/-! ## numbers -/

/-- what may stand after a number without being a part of it -/
def Follows (r : List Char) : Prop :=
  ∀ c, r.head? = some c → c.isDigit = false ∧ c ≠ '.' ∧ c ≠ 'e' ∧ c ≠ 'E'

theorem Follows.cons {c : Char} (h : c.isDigit = false ∧ c ≠ '.' ∧ c ≠ 'e' ∧ c ≠ 'E')
    (r : List Char) : Follows (c :: r) := by
  intro d hd
  rw [← Option.some.inj hd]
  exact h

theorem Follows.tail {r : List Char} (h : Follows r) :
    fraction r ++ exponent (r.drop (fraction r).length) = [] := by
  cases r with
  | nil => rfl
  | cons c r =>
    obtain ⟨-, hdot, he, hE⟩ := h c rfl
    have hf : fraction (c :: r) = [] := by
      unfold fraction
      split
      · rename_i heq
        exact absurd (List.cons.inj heq).1 hdot
      · rfl
    rw [hf, List.length_nil, List.drop_zero, exponent, if_neg (by simp [he, hE])]
    rfl

theorem scanRest_of_follows {negative : Bool} {digits r : List Char} (h : Follows r)
    (hlen : digits.length ≤ intLimit) :
    scanRest negative digits r =
      some (.int (if negative then -(Nat.ofDigitChars 10 digits 0 : Nat)
        else (Nat.ofDigitChars 10 digits 0 : Nat)), r) := by
  unfold scanRest
  simp only [h.tail, ne_eq, not_true_eq_false, if_false]
  rw [if_neg (Nat.not_lt.mpr hlen)]

theorem head_toDigits {n : Nat} (h : 0 < n) : (Nat.toDigits 10 n).head? ≠ some '0' := by
  induction n using Nat.strongRecOn with
  | ind n ih =>
    by_cases hlt : n < 10
    · rw [Nat.toDigits_of_lt_base hlt]
      interval_cases n <;> decide
    · rw [Nat.toDigits_of_base_le (by decide) (by omega)]
      have hrec := ih (n / 10) (by omega) (by omega)
      rw [List.head?_append_of_ne_nil _ Nat.toDigits_ne_nil]
      exact hrec

theorem isDigit_of_mem_toDigits {n : Nat} {c : Char} (h : c ∈ Nat.toDigits 10 n) :
    c.isDigit = true := Nat.isDigit_of_mem_toDigits (by decide) (by decide) h

theorem scanDigits_toDigits (negative : Bool) {n : Nat} {r : List Char} (h : Follows r)
    (hlen : (Nat.toDigits 10 n).length ≤ intLimit) :
    scanDigits negative (Nat.toDigits 10 n ++ r) =
      some (.int (if negative then -(n : Int) else n), r) := by
  have hval : Nat.ofDigitChars 10 (Nat.toDigits 10 n) 0 = n := Nat.ofDigitChars_ten_toDigits
  by_cases hn : n = 0
  · subst hn
    exact scanRest_of_follows h (by decide)
  · have hhead := head_toDigits (Nat.pos_of_ne_zero hn)
    have hdigits : ∀ c ∈ Nat.toDigits 10 n, c.isDigit = true :=
      fun c hc => isDigit_of_mem_toDigits hc
    have hstop : ∀ c, r.head? = some c → ¬ c.isDigit = true := by
      intro c hc
      rw [(h c hc).1]
      exact Bool.false_ne_true
    cases hl : Nat.toDigits 10 n with
    | nil => exact absurd hl Nat.toDigits_ne_nil
    | cons c l =>
      rw [hl] at hhead hdigits hval hlen
      have hc : c ≠ '0' := fun hc => hhead (by rw [hc]; rfl)
      have hl' : ∀ d ∈ l, d.isDigit = true := fun d hd => hdigits d (List.mem_cons_of_mem c hd)
      have htake : (l ++ r).takeWhile Char.isDigit = l := by
        rw [List.takeWhile_append_of_pos hl']
        cases r with
        | nil => exact List.append_nil l
        | cons d r => rw [List.takeWhile_cons_of_neg (hstop d rfl), List.append_nil]
      have hdrop : (l ++ r).dropWhile Char.isDigit = r := by
        rw [List.dropWhile_append_of_pos hl']
        cases r with
        | nil => rfl
        | cons d r => rw [List.dropWhile_cons_of_neg (hstop d rfl)]
      rw [List.cons_append, scanDigits, if_neg hc, if_pos (hdigits c List.mem_cons_self), htake,
        hdrop, scanRest_of_follows h hlen, hval]

/-- an integer's text starts with its sign or a digit -/
theorem exists_encodeInt_eq (n : Int) :
    ∃ c l, encodeInt n = c :: l ∧ ∀ d : Char, d.isDigit = false ∧ d ≠ '-' → c ≠ d := by
  unfold encodeInt
  split
  · exact ⟨_, _, rfl, fun d hd => Ne.symm hd.2⟩
  · obtain ⟨c, l, hl⟩ := List.exists_cons_of_ne_nil (Nat.toDigits_ne_nil (n := n.natAbs) (b := 10))
    refine ⟨c, l, hl, ?_⟩
    rintro d ⟨hd, -⟩ rfl
    rw [isDigit_of_mem_toDigits (hl ▸ List.mem_cons_self)] at hd
    cases hd

/-- **an integer that was written is read back** -/
theorem scanConstant_encodeInt {n : Int} {r : List Char} (h : Follows r)
    (hlen : (Nat.toDigits 10 n.natAbs).length ≤ intLimit) :
    scanConstant (encodeInt n ++ r) = some (.int n, r) := by
  obtain ⟨c, l, hl⟩ := List.exists_cons_of_ne_nil (Nat.toDigits_ne_nil (n := n.natAbs) (b := 10))
  have hc : c.isDigit = true := isDigit_of_mem_toDigits (hl ▸ List.mem_cons_self)
  have hne : ∀ d : Char, d.isDigit = false → ¬ d = c := by
    rintro d hd rfl
    rw [hc] at hd
    cases hd
  have hscan := fun negative => scanDigits_toDigits negative h hlen
  have hfind : constants.find? (fun p => p.1.isPrefixOf (encodeInt n ++ r)) = none := by
    rw [List.find?_eq_none]
    intro p hp
    unfold encodeInt
    rw [hl]
    simp only [constants, List.mem_cons, List.not_mem_nil, or_false] at hp
    split <;> rcases hp with rfl | rfl | rfl | rfl | rfl | rfl <;>
      simp [List.isPrefixOf, hne]
  unfold scanConstant
  rw [hfind]
  simp only
  unfold encodeInt
  split
  · rename_i hneg
    show scanDigits true (Nat.toDigits 10 n.natAbs ++ r) = _
    rw [hscan, if_pos rfl, Int.ofNat_natAbs_of_nonpos (by omega), Int.neg_neg]
  · rename_i hpos
    have hminus : c ≠ '-' := Ne.symm (hne '-' rfl)
    have hval := hscan false
    rw [hl, List.cons_append] at hval
    rw [List.nil_append, hl, List.cons_append, scanNumber, if_neg hminus, hval]
    simp only [Bool.false_eq_true, if_false, Int.natAbs_of_nonneg (Int.not_lt.mp hpos)]

/-! ## values -/

mutual
/-- a value without floats, whose keys are distinct -/
def Plain : Value → Prop
  | .float _ => False
  | .str s => IsText s
  | .arr items => PlainItems items
  | .obj fields => (fields.map Prod.fst).Nodup ∧ PlainFields fields
  | _ => True

def PlainItems : List Value → Prop
  | [] => True
  | item :: items => Plain item ∧ PlainItems items

def PlainFields : List (List Nat × Value) → Prop
  | [] => True
  | field :: fields => PlainField field ∧ PlainFields fields

def PlainField : List Nat × Value → Prop
  | (key, value) => IsText key ∧ Plain value
end

theorem skipSpace_cons {c : Char} (h : isSpace c = false) (l : List Char) :
    skipSpace (c :: l) = c :: l := List.dropWhile_cons_of_neg (by rw [h]; exact Bool.false_ne_true)

/-- a value's text starts with no white space, and closes nothing -/
theorem exists_encode_eq {v : Value} (h : Plain v) :
    ∃ c l, encode v = c :: l ∧ isSpace c = false ∧ c ≠ ']' ∧ c ≠ '\x7d' := by
  cases v with
  | null => exact ⟨_, _, rfl, by decide⟩
  | bool b => cases b <;> exact ⟨_, _, rfl, by decide⟩
  | int n =>
    obtain ⟨c, l, hl, hc⟩ := exists_encodeInt_eq n
    refine ⟨c, l, by rw [encode, hl], ?_, ?_, ?_⟩
    · have hne : ∀ d : Char, d.isDigit = false ∧ d ≠ '-' → c ≠ d := hc
      simp [isSpace, hne]
    · exact hc _ (by decide)
    · exact hc _ (by decide)
  | float literal => exact absurd h id
  | str s => exact ⟨_, _, rfl, by decide⟩
  | arr items => exact ⟨_, _, by rw [encode], by decide⟩
  | obj fields => exact ⟨_, _, by rw [encode], by decide⟩

theorem foldl_setKey_append {κ β : Type*} [DecidableEq κ] (pairs d : List (κ × β))
    (h : ((d ++ pairs).map Prod.fst).Nodup) :
    pairs.foldl (fun d p => setKey p.1 p.2 d) d = d ++ pairs := by
  induction pairs generalizing d with
  | nil => exact (List.append_nil d).symm
  | cons p pairs ih =>
    have hnew : p.1 ∉ d.map Prod.fst := by
      intro hm
      rw [List.map_append, List.map_cons, List.nodup_append] at h
      exact h.2.2 _ hm _ List.mem_cons_self rfl
    have happ : d ++ p :: pairs = d ++ [p] ++ pairs := (List.append_assoc d [p] pairs).symm
    rw [List.foldl_cons, setKey_of_notMem hnew, happ]
    apply ih
    rw [← happ]
    exact h

theorem toDict_of_nodup {fields : List (List Nat × Value)} (h : (fields.map Prod.fst).Nodup) :
    toDict fields = fields := foldl_setKey_append fields [] h

theorem follows_close {c : Char} (h : c = ',' ∨ c = ']' ∨ c = '\x7d') (r : List Char) :
    Follows (c :: r) := by
  apply Follows.cons
  rcases h with rfl | rfl | rfl <;> decide

/-- what follows an item: a comma and the next one, or the end -/
theorem follows_items (items : List Value) (r : List Char) :
    Follows (encodeItems items ++ ']' :: r) := by
  cases items with
  | nil => exact follows_close (.inr (.inl rfl)) r
  | cons item items =>
    rw [encodeItems]
    exact follows_close (.inl rfl) _

theorem follows_fields (fields : List (List Nat × Value)) (r : List Char) :
    Follows (encodeFields fields ++ '\x7d' :: r) := by
  cases fields with
  | nil => exact follows_close (.inr (.inr rfl)) r
  | cons field fields =>
    rw [encodeFields]
    exact follows_close (.inl rfl) _

/-! ## one step of the scanner -/

theorem scanOnce_int {n : Int} {fuel : Nat} {r : List Char} (h : Follows r)
    (hlen : (Nat.toDigits 10 n.natAbs).length ≤ intLimit) :
    scanOnce (fuel + 1) (encodeInt n ++ r) = some (.int n, r) := by
  have hscan := scanConstant_encodeInt h hlen
  obtain ⟨c, l, hl, hc⟩ := exists_encodeInt_eq n
  rw [hl, List.cons_append] at hscan ⊢
  rw [scanOnce, if_neg (hc _ (by decide)), if_neg (hc _ (by decide)), if_neg (hc _ (by decide)),
    hscan]

theorem scanOnce_str {s : List Nat} (h : IsText s) (fuel : Nat) (r : List Char) :
    scanOnce (fuel + 1) (encodeText s ++ r) = some (.str s, r) := by
  obtain ⟨rest, hrest, hscan⟩ := scanString_encodeText h r
  rw [hrest, scanOnce, if_pos rfl, hscan]
  rfl

theorem scanOnce_arr {fuel : Nat} {items : List Value} {text r : List Char}
    (hs : skipSpace text = text) (hc : text.head? ≠ some ']')
    (h : scanItems fuel text = some (items, r)) :
    scanOnce (fuel + 1) ('[' :: text) = some (.arr items, r) := by
  rw [scanOnce, if_neg (by decide), if_neg (by decide), if_pos rfl, hs, if_neg hc, h]
  rfl

theorem scanOnce_obj {fuel : Nat} {fields : List (List Nat × Value)} {text r : List Char}
    (hs : skipSpace text = text) (hc : text.head? ≠ some '\x7d')
    (h : scanFields fuel text = some (fields, r)) :
    scanOnce (fuel + 1) ('\x7b' :: text) = some (.obj (toDict fields), r) := by
  rw [scanOnce, if_neg (by decide), if_pos rfl, hs, if_neg hc, h]
  rfl

theorem scanItems_last {fuel : Nat} {item : Value} {text r : List Char}
    (h : scanOnce fuel text = some (item, ']' :: r)) :
    scanItems (fuel + 1) text = some ([item], r) := by
  rw [scanItems, h]
  rfl

theorem scanItems_more {fuel : Nat} {item : Value} {items : List Value} {text rest r : List Char}
    (h : scanOnce fuel text = some (item, ',' :: rest)) (hs : skipSpace rest = rest)
    (hrest : scanItems fuel rest = some (items, r)) :
    scanItems (fuel + 1) text = some (item :: items, r) := by
  rw [scanItems, h]
  show (scanItems fuel (skipSpace rest)).map (fun p => (item :: p.1, p.2)) = _
  rw [hs, hrest]
  rfl

theorem scanFields_last {fuel : Nat} {field : List Nat × Value} {text r : List Char}
    (h : scanField fuel text = some (field, '\x7d' :: r)) :
    scanFields (fuel + 1) text = some ([field], r) := by
  rw [scanFields, h]
  rfl

theorem scanFields_more {fuel : Nat} {field : List Nat × Value} {fields : List (List Nat × Value)}
    {text rest r : List Char} (h : scanField fuel text = some (field, ',' :: rest))
    (hs : skipSpace rest = rest) (hrest : scanFields fuel rest = some (fields, r)) :
    scanFields (fuel + 1) text = some (field :: fields, r) := by
  rw [scanFields, h]
  show (scanFields fuel (skipSpace rest)).map (fun p => (field :: p.1, p.2)) = _
  rw [hs, hrest]
  rfl

theorem scanField_colon {fuel : Nat} {key : List Nat} {value : Value} {rest r : List Char}
    (hkey : IsText key) (hs : skipSpace rest = rest)
    (h : scanOnce fuel rest = some (value, r)) :
    scanField (fuel + 1) (encodeText key ++ ':' :: rest) = some ((key, value), r) := by
  obtain ⟨text, htext, hscan⟩ := scanString_encodeText hkey (':' :: rest)
  rw [htext, scanField, if_pos rfl, hscan]
  show (scanOnce fuel (skipSpace rest)).map (fun p => ((key, p.1), p.2)) = _
  rw [hs, h]
  rfl

/-! ## what was written is read back -/

theorem skipSpace_encode {v : Value} (h : Plain v) (r : List Char) :
    skipSpace (encode v ++ r) = encode v ++ r := by
  obtain ⟨c, l, hl, hc, -⟩ := exists_encode_eq h
  rw [hl]
  exact skipSpace_cons hc (l ++ r)

theorem length_pos_encode {v : Value} (h : Plain v) : 0 < (encode v).length := by
  obtain ⟨c, l, hl, -⟩ := exists_encode_eq h
  rw [hl]
  exact Nat.succ_pos _

theorem skipSpace_field (field : List Nat × Value) (r : List Char) :
    skipSpace (encodeField field ++ r) = encodeField field ++ r := by
  obtain ⟨key, value⟩ := field
  rw [encodeField, encodeText]
  exact skipSpace_cons rfl _

theorem items_append (item : Value) (items : List Value) (r : List Char) :
    (encodeItems (item :: items)).drop 1 ++ r = encode item ++ (encodeItems items ++ r) := by
  rw [encodeItems]
  exact List.append_assoc _ _ _

theorem fields_append (field : List Nat × Value) (fields : List (List Nat × Value))
    (r : List Char) :
    (encodeFields (field :: fields)).drop 1 ++ r =
      encodeField field ++ (encodeFields fields ++ r) := by
  rw [encodeFields]
  exact List.append_assoc _ _ _

theorem length_encodeItems (item : Value) (items : List Value) :
    (encodeItems (item :: items)).length =
      (encode item).length + (encodeItems items).length + 1 := by
  rw [encodeItems, List.length_cons, List.length_append]

theorem length_encodeFields (field : List Nat × Value) (fields : List (List Nat × Value)) :
    (encodeFields (field :: fields)).length =
      (encodeField field).length + (encodeFields fields).length + 1 := by
  rw [encodeFields, List.length_cons, List.length_append]

theorem encode_arr_append (items : List Value) (r : List Char) :
    encode (.arr items) ++ r = '[' :: ((encodeItems items).drop 1 ++ ']' :: r) := by
  rw [encode, List.cons_append, List.append_assoc]
  rfl

theorem encode_obj_append (fields : List (List Nat × Value)) (r : List Char) :
    encode (.obj fields) ++ r = '\x7b' :: ((encodeFields fields).drop 1 ++ '\x7d' :: r) := by
  rw [encode, List.cons_append, List.append_assoc]
  rfl

mutual
theorem scanOnce_encode : ∀ (v : Value) (fuel : Nat) (r : List Char), Plain v →
    tooLong v = false → Follows r → (encode v).length ≤ fuel →
    scanOnce fuel (encode v ++ r) = some (v, r)
  | v, 0, _, h, _, _, hf => absurd hf (Nat.not_le.mpr (length_pos_encode h))
  | .null, fuel + 1, r, _, _, _, _ => rfl
  | .bool true, fuel + 1, r, _, _, _, _ => rfl
  | .bool false, fuel + 1, r, _, _, _, _ => rfl
  | .int n, fuel + 1, r, _, ht, hr, _ => by
    rw [tooLong, decide_eq_false_iff_not] at ht
    exact scanOnce_int hr (Nat.not_lt.mp ht)
  | .float literal, _, _, h, _, _, _ => absurd h id
  | .str s, fuel + 1, r, h, _, _, _ => scanOnce_str h fuel r
  | .arr [], fuel + 1, r, _, _, _, _ => rfl
  | .arr (item :: items), fuel + 1, r, h, ht, _, hf => by
    have hlen := length_encodeItems item items
    have hscan := scanItems_encode (item :: items) fuel r (List.cons_ne_nil _ _) h ht (by
      rw [encode, List.length_cons, List.length_append, List.length_drop,
        List.length_singleton] at hf
      omega)
    rw [encode_arr_append]
    apply scanOnce_arr _ _ hscan
    · rw [items_append]
      exact skipSpace_encode h.1 _
    · rw [items_append]
      obtain ⟨c, l, hl, -, hc, -⟩ := exists_encode_eq h.1
      rw [hl]
      exact fun he => hc (Option.some.inj he)
  | .obj [], fuel + 1, r, _, _, _, _ => rfl
  | .obj (field :: fields), fuel + 1, r, h, ht, _, hf => by
    have hlen := length_encodeFields field fields
    have hscan := scanFields_encode (field :: fields) fuel r (List.cons_ne_nil _ _) h.2 ht (by
      rw [encode, List.length_cons, List.length_append, List.length_drop,
        List.length_singleton] at hf
      omega)
    rw [encode_obj_append]
    refine (scanOnce_obj ?_ ?_ hscan).trans (by rw [toDict_of_nodup h.1])
    · rw [fields_append]
      exact skipSpace_field field _
    · rw [fields_append]
      obtain ⟨key, value⟩ := field
      rw [encodeField, encodeText]
      exact fun he => absurd (Option.some.inj he) (by decide)

theorem scanItems_encode : ∀ (items : List Value) (fuel : Nat) (r : List Char), items ≠ [] →
    PlainItems items → tooLongItems items = false → (encodeItems items).length ≤ fuel →
    scanItems fuel ((encodeItems items).drop 1 ++ ']' :: r) = some (items, r)
  | [], _, _, hne, _, _, _ => absurd rfl hne
  | item :: items, 0, _, _, _, _, hf => by
    rw [length_encodeItems] at hf
    omega
  | item :: items, fuel + 1, r, _, h, ht, hf => by
    obtain ⟨hitem, hitems⟩ := Bool.or_eq_false_iff.mp ht
    rw [length_encodeItems] at hf
    have hscan := scanOnce_encode item fuel (encodeItems items ++ ']' :: r) h.1 hitem
      (follows_items items r) (by omega)
    rw [items_append]
    cases items with
    | nil => exact scanItems_last hscan
    | cons next items =>
      have hrest := scanItems_encode (next :: items) fuel r (List.cons_ne_nil _ _) h.2 hitems
        (by omega)
      refine scanItems_more (hscan.trans ?_) ?_ hrest
      · rw [encodeItems]
        rfl
      · rw [items_append]
        exact skipSpace_encode h.2.1 _

theorem scanFields_encode : ∀ (fields : List (List Nat × Value)) (fuel : Nat) (r : List Char),
    fields ≠ [] → PlainFields fields → tooLongFields fields = false →
    (encodeFields fields).length ≤ fuel →
    scanFields fuel ((encodeFields fields).drop 1 ++ '\x7d' :: r) = some (fields, r)
  | [], _, _, hne, _, _, _ => absurd rfl hne
  | field :: fields, 0, _, _, _, _, hf => by
    rw [length_encodeFields] at hf
    omega
  | field :: fields, fuel + 1, r, _, h, ht, hf => by
    obtain ⟨hfield, hfields⟩ := Bool.or_eq_false_iff.mp ht
    rw [length_encodeFields] at hf
    have hscan := scanField_encode field fuel (encodeFields fields ++ '\x7d' :: r) h.1 hfield
      (follows_fields fields r) (by omega)
    rw [fields_append]
    cases fields with
    | nil => exact scanFields_last hscan
    | cons next fields =>
      have hrest := scanFields_encode (next :: fields) fuel r (List.cons_ne_nil _ _) h.2 hfields
        (by omega)
      refine scanFields_more (hscan.trans ?_) ?_ hrest
      · rw [encodeFields]
        rfl
      · rw [fields_append]
        exact skipSpace_field next _

theorem scanField_encode : ∀ (field : List Nat × Value) (fuel : Nat) (r : List Char),
    PlainField field → tooLongField field = false → Follows r →
    (encodeField field).length ≤ fuel →
    scanField fuel (encodeField field ++ r) = some (field, r)
  | (key, value), fuel, r, h, ht, hr, hf => by
    rw [encodeField, List.length_append, List.length_cons] at hf
    obtain ⟨fuel, rfl⟩ := Nat.exists_eq_succ_of_ne_zero (by omega : fuel ≠ 0)
    have hscan := scanOnce_encode value fuel r h.2 ht hr (by omega)
    rw [encodeField, List.append_assoc, List.cons_append]
    exact scanField_colon h.1 (skipSpace_encode h.2 r) hscan
end

theorem follows_nil : Follows [] := by
  intro c hc
  cases hc

/-! ## one line of printable ASCII -/

def Printable (c : Char) : Prop := 32 ≤ c.toNat ∧ c.toNat ≤ 126

instance (c : Char) : Decidable (Printable c) := inferInstanceAs (Decidable (_ ∧ _))

theorem printable_digitChar {n : Nat} (h : n < 16) : Printable (Nat.digitChar n) := by
  interval_cases n <;> decide

theorem printable_unicodeEscape {n : Nat} {c : Char} (h : c ∈ unicodeEscape n) : Printable c := by
  simp only [unicodeEscape, List.mem_cons, List.not_mem_nil, or_false] at h
  rcases h with rfl | rfl | rfl | rfl | rfl | rfl
  · decide
  · decide
  all_goals exact printable_digitChar (Nat.mod_lt _ (by decide))

theorem printable_escape {n : Nat} {c : Char} (h : c ∈ escape n) : Printable c := by
  unfold escape at h
  split at h
  · rename_i letter hl
    have hmem := mem_of_lookup hl
    simp only [shortEscapes, List.mem_cons, Prod.mk.injEq, List.not_mem_nil, or_false] at hmem h
    rcases h with rfl | rfl
    · decide
    · rcases hmem with ⟨-, rfl⟩ | ⟨-, rfl⟩ | ⟨-, rfl⟩ | ⟨-, rfl⟩ | ⟨-, rfl⟩ | ⟨-, rfl⟩ | ⟨-, rfl⟩ <;>
        decide
  · split at h
    · rename_i hprint
      have hn := toNat_ofNat (n := n) (.inl (by omega))
      rw [List.mem_singleton.mp h]
      unfold Printable
      rw [hn]
      exact hprint
    · split at h
      · exact printable_unicodeEscape h
      · obtain h | h := List.mem_append.mp h
        · exact printable_unicodeEscape h
        · exact printable_unicodeEscape h

theorem printable_encodeText {s : List Nat} {c : Char} (h : c ∈ encodeText s) : Printable c := by
  obtain rfl | h := List.mem_cons.mp h
  · decide
  · obtain h | h := List.mem_append.mp h
    · obtain ⟨n, -, hn⟩ := List.mem_flatMap.mp h
      exact printable_escape hn
    · rw [List.mem_singleton.mp h]
      decide

theorem printable_encodeInt {n : Int} {c : Char} (h : c ∈ encodeInt n) : Printable c := by
  obtain h | h := List.mem_append.mp h
  · split at h
    · rw [List.mem_singleton.mp h]
      decide
    · cases h
  · have hd := isDigit_of_mem_toDigits h
    rw [Char.isDigit_iff_toNat] at hd
    exact ⟨le_trans (by decide) hd.1, le_trans hd.2 (by decide)⟩

mutual
theorem printable_encode : ∀ (v : Value), Plain v → ∀ c ∈ encode v, Printable c
  | .null, _ => forall_mem_of_all (by decide)
  | .bool true, _ => forall_mem_of_all (by decide)
  | .bool false, _ => forall_mem_of_all (by decide)
  | .int _, _ => fun _ hc => printable_encodeInt hc
  | .float _, h => absurd h id
  | .str _, _ => fun _ hc => printable_encodeText hc
  | .arr items, h => by
    intro c hc
    rw [encode] at hc
    obtain rfl | hc := List.mem_cons.mp hc
    · decide
    · obtain hc | hc := List.mem_append.mp hc
      · exact printable_encodeItems items h c (List.mem_of_mem_drop hc)
      · rw [List.mem_singleton.mp hc]
        decide
  | .obj fields, h => by
    intro c hc
    rw [encode] at hc
    obtain rfl | hc := List.mem_cons.mp hc
    · decide
    · obtain hc | hc := List.mem_append.mp hc
      · exact printable_encodeFields fields h.2 c (List.mem_of_mem_drop hc)
      · rw [List.mem_singleton.mp hc]
        decide

theorem printable_encodeItems : ∀ (items : List Value), PlainItems items →
    ∀ c ∈ encodeItems items, Printable c
  | [], _ => by
    intro c hc
    cases hc
  | item :: items, h => by
    intro c hc
    rw [encodeItems] at hc
    obtain rfl | hc := List.mem_cons.mp hc
    · decide
    · obtain hc | hc := List.mem_append.mp hc
      · exact printable_encode item h.1 c hc
      · exact printable_encodeItems items h.2 c hc

theorem printable_encodeFields : ∀ (fields : List (List Nat × Value)), PlainFields fields →
    ∀ c ∈ encodeFields fields, Printable c
  | [], _ => by
    intro c hc
    cases hc
  | field :: fields, h => by
    intro c hc
    rw [encodeFields] at hc
    obtain rfl | hc := List.mem_cons.mp hc
    · decide
    · obtain hc | hc := List.mem_append.mp hc
      · exact printable_encodeField field h.1 c hc
      · exact printable_encodeFields fields h.2 c hc

theorem printable_encodeField : ∀ (field : List Nat × Value), PlainField field →
    ∀ c ∈ encodeField field, Printable c
  | (key, value), h => by
    intro c hc
    rw [encodeField] at hc
    obtain hc | hc := List.mem_append.mp hc
    · exact printable_encodeText hc
    · obtain rfl | hc := List.mem_cons.mp hc
      · decide
      · exact printable_encode value h.2 c hc
end

/-- **what was written is read back** -/
theorem loads_encode {v : Value} (h : Plain v) (ht : tooLong v = false) :
    loads (encode v) = some v := by
  have hscan := scanOnce_encode v (3 * (encode v).length) [] h ht follows_nil (by omega)
  have hspace := skipSpace_encode h []
  rw [List.append_nil] at hscan hspace
  have hmark : (encode v).head? ≠ some '\ufeff' := by
    intro he
    have hp := printable_encode v h _ (List.mem_of_mem_head? he)
    exact absurd hp (by decide)
  unfold loads
  rw [if_neg hmark, hspace, hscan]
  rfl

end Freepod.Base.JsonText
