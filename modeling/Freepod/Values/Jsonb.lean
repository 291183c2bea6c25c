import Freepod.Values.Json
import Mathlib.Data.List.DropRight
import Mathlib.Data.List.Sort

/-!
# What the database reads of a document

`toJsonb` is the cast to `jsonb`, `extractText` the operator `#>>`, and `castBoolean` the cast of a
text to `boolean`.  A text that is extracted from anything but a string is the value as `jsonb`
writes it.

* `text_eq_iff`: a word that no such value starts like is extracted from that string only.
-/

namespace Freepod

inductive SqlError
  | unsupportedUnicode
  | invalidBoolean (text : String)
  deriving DecidableEq, Repr

mutual
/-- no string and no key has the character `jsonb` cannot hold -/
def nulFree : Json → Bool
  | .obj fields => nulFreeFields fields
  | .arr items => nulFreeItems items
  | .str s => decide ('\x00' ∉ s.toList)
  | _ => true

def nulFreeItems : List Json → Bool
  | [] => true
  | item :: items => nulFree item && nulFreeItems items

def nulFreeFields : Fields → Bool
  | [] => true
  | field :: fields => nulFreeField field && nulFreeFields fields

def nulFreeField : String × Json → Bool
  | (key, value) => decide ('\x00' ∉ key.toList) && nulFree value
end

/-- `::jsonb` of a stored document -/
def toJsonb (document : Json) : Except SqlError Json :=
  if nulFree document then .ok document else .error .unsupportedUnicode

/-! ## Texts -/

/-- the digits of a decimal, one more than its scale at least -/
def paddedDigits (mantissa : Int) (scale : Nat) : List Char :=
  let digits := Nat.toDigits 10 mantissa.natAbs
  List.replicate (scale + 1 - digits.length) '0' ++ digits

/-- a decimal with all the digits of its scale -/
def numericText (mantissa : Int) (scale : Nat) : List Char :=
  let sign := if mantissa < 0 then ['-'] else []
  let whole := (paddedDigits mantissa scale).rdrop scale
  let fraction := (paddedDigits mantissa scale).rtake scale
  sign ++ whole ++ if scale = 0 then [] else '.' :: fraction

/-- one character of a quoted string -/
def escape (c : Char) : List Char :=
  if c = '\x22' ∨ c = '\x5c' then ['\x5c', c]
  else if c = '\x08' then ['\x5c', 'b']
  else if c = '\x0c' then ['\x5c', 'f']
  else if c = '\n' then ['\x5c', 'n']
  else if c = '\r' then ['\x5c', 'r']
  else if c = '\t' then ['\x5c', 't']
  else if c.toNat < 32 then
    ['\x5c', 'u', '0', '0', Nat.digitChar (c.toNat / 16), Nat.digitChar (c.toNat % 16)]
  else [c]

def quoted (s : String) : List Char := '\x22' :: s.toList.flatMap escape ++ ['\x22']

/-- the order `jsonb` keeps the keys of an object in: the shorter first -/
def keyLe (a b : String) : Prop :=
  a.utf8ByteSize < b.utf8ByteSize ∨ a.utf8ByteSize = b.utf8ByteSize ∧ a ≤ b

instance : DecidableRel keyLe := fun _ _ => inferInstanceAs (Decidable (_ ∨ _))

/-- the items or the members one after the other -/
def joined (texts : List (List Char)) : List Char := [',', ' '].intercalate texts

mutual
/-- a value as `jsonb` writes it -/
def rendered : Json → List Char
  | .null => ['n', 'u', 'l', 'l']
  | .bool true => ['t', 'r', 'u', 'e']
  | .bool false => ['f', 'a', 'l', 's', 'e']
  | .num mantissa scale => numericText mantissa scale
  | .str s => quoted s
  | .arr items => '[' :: joined (renderedItems items) ++ [']']
  | .obj fields =>
    '\x7b' :: joined (((renderedFields fields).insertionSort fun m n => keyLe m.1 n.1).map
      fun m => quoted m.1 ++ ':' :: ' ' :: m.2) ++ ['\x7d']

def renderedItems : List Json → List (List Char)
  | [] => []
  | item :: items => rendered item :: renderedItems items

def renderedFields : Fields → List (String × List Char)
  | [] => []
  | field :: fields => renderedField field :: renderedFields fields

def renderedField : String × Json → String × List Char
  | (key, value) => (key, rendered value)
end

/-- the text `#>>` gives for a value -/
def Json.text : Json → String
  | .str s => s
  | value => String.ofList (rendered value)

/-- `#>` along keys; none of them is a number, so an array has nothing there -/
def extract (value : Json) : List String → Option Json
  | [] => some value
  | key :: path => (value.get? key).bind (extract · path)

/-- `#>>`: no text where there is nothing or a null -/
def extractText (value : Json) (path : List String) : Option String :=
  (extract value path).bind fun value => if value.isNull then none else some value.text

/-- what a value that is not a string may start with -/
def startsValue (c : Char) : Bool :=
  ['n', 't', 'f', '-', '\x22', '[', '\x7b'].contains c || c.isDigit

theorem length_paddedDigits (mantissa : Int) (scale : Nat) :
    scale < (paddedDigits mantissa scale).length := by
  rw [paddedDigits, List.length_append, List.length_replicate]
  omega

theorem isDigit_paddedDigits {mantissa : Int} {scale : Nat} {c : Char}
    (h : c ∈ paddedDigits mantissa scale) : c.isDigit = true := by
  rw [paddedDigits, List.mem_append] at h
  obtain h | h := h
  · rw [List.eq_of_mem_replicate h]
    rfl
  · exact Nat.isDigit_of_mem_toDigits (by decide) (by decide) h

theorem numericText_head? {mantissa : Int} {scale : Nat} {c : Char}
    (h : (numericText mantissa scale).head? = some c) : startsValue c = true := by
  have hlen := length_paddedDigits mantissa scale
  have hwhole : (paddedDigits mantissa scale).rdrop scale ≠ [] := by
    rw [List.rdrop, ne_eq, List.take_eq_nil_iff, not_or]
    exact ⟨by omega, List.ne_nil_of_length_pos (by omega)⟩
  by_cases hm : mantissa < 0
  · simp only [numericText, if_pos hm] at h
    cases h
    rfl
  · simp only [numericText, if_neg hm, List.nil_append, List.head?_append_of_ne_nil _ hwhole] at h
    have hc : c ∈ paddedDigits mantissa scale :=
      List.mem_of_mem_take (List.mem_of_mem_head? (Option.mem_def.2 h))
    rw [startsValue, isDigit_paddedDigits hc, Bool.or_true]

theorem rendered_head? {value : Json} {c : Char} (h : (rendered value).head? = some c) :
    startsValue c = true := by
  cases value with
  | num mantissa scale => exact numericText_head? h
  | bool b =>
    cases b <;>
    · cases h
      rfl
  | _ =>
    cases h
    rfl

/-- **a word no other value starts like is the text of that string only** -/
theorem text_eq_iff {value : Json} {word : String} {c : Char} (hw : word.toList.head? = some c)
    (hc : startsValue c = false) : value.text = word ↔ value = .str word := by
  constructor
  · intro h
    cases value with
    | str s =>
      rw [← h]
      rfl
    | _ =>
      simp only [← h, Json.text, String.toList_ofList] at hw
      rw [rendered_head? hw] at hc
      cases hc
  · rintro rfl
    rfl

/-! ## The cast of a text to `boolean` -/

def isSpace (c : Char) : Bool := c == ' ' || (decide (9 ≤ c.toNat) && decide (c.toNat ≤ 13))

/-- any case, blanks around it ignored, a word may be cut short -/
def parseBoolean (text : String) : Option Bool :=
  let value := ((text.toList.dropWhile isSpace).rdropWhile isSpace).map Char.toLower
  if value = [] then none
  else if value.isPrefixOf ['t', 'r', 'u', 'e'] ∨ value.isPrefixOf ['y', 'e', 's'] ∨
    value = ['o', 'n'] ∨ value = ['1'] then some true
  else if value.isPrefixOf ['f', 'a', 'l', 's', 'e'] ∨ value.isPrefixOf ['n', 'o'] ∨
    value = ['o', 'f'] ∨ value = ['o', 'f', 'f'] ∨ value = ['0'] then some false
  else none

/-- `::boolean` -/
def castBoolean (text : String) : Except SqlError Bool :=
  match parseBoolean text with
  | some b => .ok b
  | none => .error (.invalidBoolean text)

example : (Json.obj [("bb", .num (-105) 2), ("a", .arr [.str "x\n", .null])]).text =
    "\x7b\"a\": [\"x\\n\", null], \"bb\": -1.05\x7d" := by decide +kernel

example : parseBoolean " Yes" = some true ∧ parseBoolean "of" = some false ∧
    parseBoolean "o" = none := by decide +kernel

end Freepod
