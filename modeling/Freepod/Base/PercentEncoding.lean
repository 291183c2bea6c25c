import Mathlib.Data.List.Basic
import Mathlib.Tactic.IntervalCases

/-!
# Percent-encoding

* `utf8`: the bytes of a text; `utf8_injective`.
* `quoteBytes`, `unquote`: bytes to a text of safe characters and escapes, and back.
* `unquote_quoteBytes`: what was encoded decodes to the same bytes, whatever follows it.
* `mem_quoteBytes`: the characters an encoded text is made of.
-/

namespace Freepod.Base

/-! ## bytes of a text -/

def utf8 (l : List Char) : List UInt8 := l.flatMap String.utf8EncodeChar

theorem utf8_append (l r : List Char) : utf8 (l ++ r) = utf8 l ++ utf8 r := List.flatMap_append

theorem utf8_cons (c : Char) (l : List Char) :
    utf8 (c :: l) = String.utf8EncodeChar c ++ utf8 l := List.flatMap_cons

theorem utf8_injective : Function.Injective utf8 := by
  intro l r h
  have hb : l.utf8Encode = r.utf8Encode := congrArg List.toByteArray h
  rw [← String.toByteArray_ofList, ← String.toByteArray_ofList] at hb
  exact String.ofList_injective (String.toByteArray_inj.mp hb)

/-- the text that bytes encode, if they are UTF-8 -/
def decodeUtf8 (bytes : List UInt8) : Option (List Char) :=
  bytes.toByteArray.utf8Decode?.map Array.toList

theorem decodeUtf8_utf8 (l : List Char) : decodeUtf8 (utf8 l) = some l := by
  show (l.utf8Encode.utf8Decode?).map Array.toList = some l
  rw [List.utf8Decode?_utf8Encode]
  rfl

theorem utf8_of_decodeUtf8 {bytes : List UInt8} {l : List Char} (h : decodeUtf8 bytes = some l) :
    utf8 l = bytes := by
  obtain ⟨a, ha, rfl⟩ := Option.map_eq_some_iff.mp h
  have hsome : bytes.toByteArray.utf8Decode?.isSome = true := by
    rw [ha]
    rfl
  obtain ⟨l, hl⟩ := ByteArray.isSome_utf8Decode?_iff.mp hsome
  rw [hl, List.utf8Decode?_utf8Encode] at ha
  rw [← Option.some.inj ha, List.toList_toArray]
  exact (List.toByteArray_inj.mp hl).symm

theorem utf8EncodeChar_of_lt {c : Char} (h : c.toNat < 128) :
    String.utf8EncodeChar c = [UInt8.ofNat c.toNat] := by
  have hv : c.val.toNat ≤ 127 := Nat.le_of_lt_succ h
  unfold String.utf8EncodeChar
  dsimp only
  rw [if_pos hv]
  rfl

/-- a byte below 128 is the whole of a character -/
theorem eq_of_mem_utf8EncodeChar {c : Char} {b : UInt8} (h : b ∈ String.utf8EncodeChar c)
    (hb : b.toNat < 128) : b.toNat = c.toNat := by
  by_cases hc : c.toNat < 128
  · rw [utf8EncodeChar_of_lt hc, List.mem_singleton] at h
    rw [h, UInt8.toNat_ofNat']
    omega
  · -- the bytes of a longer sequence are all above
    exfalso
    have hv : ¬ c.val.toNat ≤ 127 := fun hle => hc (Nat.lt_succ_of_le hle)
    unfold String.utf8EncodeChar at h
    dsimp only at h
    rw [if_neg hv] at h
    split at h
    · simp only [List.mem_cons, List.not_mem_nil, or_false] at h
      rcases h with rfl | rfl <;> rw [UInt8.toNat_ofNat'] at hb <;> omega
    · split at h
      · simp only [List.mem_cons, List.not_mem_nil, or_false] at h
        rcases h with rfl | rfl | rfl <;> rw [UInt8.toNat_ofNat'] at hb <;> omega
      · simp only [List.mem_cons, List.not_mem_nil, or_false] at h
        rcases h with rfl | rfl | rfl | rfl <;> rw [UInt8.toNat_ofNat'] at hb <;> omega

/-! ## escapes -/

/-- the letters, digits and marks that are never escaped -/
def isUnreserved (c : Char) : Bool :=
  c.isAlphanum || c == '_' || c == '.' || c == '-' || c == '~'

def hexDigit (n : Nat) : Char := if n < 10 then Char.ofNat (48 + n) else Char.ofNat (55 + n)

def hexValue (c : Char) : Option Nat :=
  let n := c.toNat
  if 48 ≤ n ∧ n ≤ 57 then some (n - 48)
  else if 65 ≤ n ∧ n ≤ 70 then some (n - 55)
  else if 97 ≤ n ∧ n ≤ 102 then some (n - 87)
  else none

theorem hexValue_hexDigit {n : Nat} (h : n < 16) : hexValue (hexDigit n) = some n := by
  interval_cases n <;> rfl

theorem isUnreserved_hexDigit {n : Nat} (h : n < 16) : isUnreserved (hexDigit n) = true := by
  interval_cases n <;> rfl

/-- one byte: as it is where it is unreserved or among the safe characters, or else escaped -/
def quoteByte (safe : List Char) (b : UInt8) : List Char :=
  let c := Char.ofNat b.toNat
  if b.toNat < 128 ∧ (isUnreserved c = true ∨ c ∈ safe) then [c]
  else ['%', hexDigit (b.toNat / 16), hexDigit (b.toNat % 16)]

def quoteBytes (safe : List Char) (bytes : List UInt8) : List Char :=
  bytes.flatMap (quoteByte safe)

/-- a text, through its bytes -/
def quote (safe l : List Char) : List Char := quoteBytes safe (utf8 l)

/-- the bytes an encoded text stands for; an escape that is none stands for itself -/
def unquote : List Char → List UInt8
  | '%' :: a :: b :: l =>
    match hexValue a, hexValue b with
    | some x, some y => UInt8.ofNat (16 * x + y) :: unquote l
    | _, _ => 37 :: unquote (a :: b :: l)
  | c :: l => String.utf8EncodeChar c ++ unquote l
  | [] => []

theorem unquote_cons {c : Char} (h : c ≠ '%') (l : List Char) :
    unquote (c :: l) = String.utf8EncodeChar c ++ unquote l := by
  rw [unquote]
  exact fun _ _ _ he => absurd he h

theorem unquote_escape (b : UInt8) (l : List Char) :
    unquote ('%' :: hexDigit (b.toNat / 16) :: hexDigit (b.toNat % 16) :: l) = b :: unquote l := by
  have hb := b.toNat_lt
  rw [unquote, hexValue_hexDigit (by omega), hexValue_hexDigit (by omega)]
  show UInt8.ofNat (16 * (b.toNat / 16) + b.toNat % 16) :: unquote l = _
  rw [Nat.div_add_mod, UInt8.ofNat_toNat]

theorem unquote_quoteByte {safe : List Char} (hs : '%' ∉ safe) (b : UInt8) (l : List Char) :
    unquote (quoteByte safe b ++ l) = b :: unquote l := by
  unfold quoteByte
  dsimp only
  split
  · rename_i h
    have hc : Char.ofNat b.toNat ≠ '%' := by
      intro he
      rw [he] at h
      exact h.2.elim (by decide) hs
    have hvalid : b.toNat.isValidChar := .inl (by omega)
    have hn : (Char.ofNat b.toNat).toNat = b.toNat := by
      rw [Char.ofNat, dif_pos hvalid]
      exact BitVec.toNat_ofNatLT _ _
    rw [List.singleton_append, unquote_cons hc, utf8EncodeChar_of_lt (by omega), hn,
      UInt8.ofNat_toNat]
    rfl
  · exact unquote_escape b l

/-- **decoding undoes encoding** -/
theorem unquote_quoteBytes {safe : List Char} (hs : '%' ∉ safe) (bytes : List UInt8)
    (l : List Char) : unquote (quoteBytes safe bytes ++ l) = bytes ++ unquote l := by
  induction bytes with
  | nil => rfl
  | cons b bytes ih =>
    rw [quoteBytes, List.flatMap_cons, List.append_assoc, unquote_quoteByte hs]
    exact congrArg (b :: ·) ih

theorem quoteBytes_append (safe : List Char) (a b : List UInt8) :
    quoteBytes safe (a ++ b) = quoteBytes safe a ++ quoteBytes safe b := List.flatMap_append

theorem quote_injective {safe : List Char} (hs : '%' ∉ safe) :
    Function.Injective (quote safe) := by
  intro l r h
  apply utf8_injective
  have hu := congrArg unquote h
  unfold quote at hu
  rw [← List.append_nil (quoteBytes safe (utf8 l)), ← List.append_nil (quoteBytes safe (utf8 r)),
    unquote_quoteBytes hs, unquote_quoteBytes hs] at hu
  exact List.append_cancel_right hu

/-- an encoded text is made of unreserved and safe characters, and the mark of an escape -/
theorem mem_quoteBytes {safe : List Char} {bytes : List UInt8} {c : Char}
    (h : c ∈ quoteBytes safe bytes) : isUnreserved c = true ∨ c ∈ safe ∨ c = '%' := by
  obtain ⟨b, -, hc⟩ := List.mem_flatMap.mp h
  have hb := b.toNat_lt
  unfold quoteByte at hc
  dsimp only at hc
  split at hc
  · rename_i hsafe
    rw [List.mem_singleton.mp hc]
    exact hsafe.2.elim .inl fun h => .inr (.inl h)
  · simp only [List.mem_cons, List.not_mem_nil, or_false] at hc
    rcases hc with rfl | rfl | rfl
    · exact .inr (.inr rfl)
    · exact .inl (isUnreserved_hexDigit (by omega))
    · exact .inl (isUnreserved_hexDigit (by omega))

/-- a safe character that does not occur makes no difference -/
theorem quote_of_notMem {c : Char} {l : List Char} (h : c ∉ l) :
    quote [c] l = quote [] l := by
  unfold quote quoteBytes
  apply List.flatMap_congr
  intro b hb
  obtain ⟨c', hc', hb⟩ := List.mem_flatMap.mp hb
  have hne : b.toNat < 128 → Char.ofNat b.toNat ≠ c := by
    intro hlt he
    rw [eq_of_mem_utf8EncodeChar hb hlt, Char.ofNat_toNat] at he
    exact h (he ▸ hc')
  unfold quoteByte
  dsimp only
  by_cases hlt : b.toNat < 128
  · simp [hne hlt]
  · simp [hlt]

end Freepod.Base
