import Freepod.Base.Assoc
import Freepod.Base.JsonText
import Freepod.Base.Lines
import Freepod.Base.Replace
import Freepod.Values.Text
import Mathlib.Data.List.Sort

/-!
# Redaction by value

`redact.py` of the product upgrader: the values a `Redactor` takes out of the bytes of a session's
files, each for a marker that names it.  A `str` is the list of its characters.

* `keyValues`: what the variable with the App's private key registers.
* `Redactor`: the registered values with their markers; no value is empty.
* `Redactor.bytes`: the replacements, the longest value first.
* `jsonLoads`: what `json.loads` makes of the bytes of a line.
-/

namespace Freepod.Upgrader

open Base

/-! ## the private key -/

/-- the six bits of a base64 digit -/
def sextet (c : Char) : Option Nat :=
  let n := c.toNat
  if 65 ≤ n ∧ n ≤ 90 then some (n - 65)
  else if 97 ≤ n ∧ n ≤ 122 then some (n - 71)
  else if 48 ≤ n ∧ n ≤ 57 then some (n + 4)
  else if c = '+' then some 62
  else if c = '/' then some 63
  else none

/-- the bytes of the quads; padding after whole quads is passed over -/
def decodeQuads : List Char → Option (List UInt8)
  | [] => some []
  | '=' :: rest => if rest.all (· = '=') then some [] else none
  | [a, b, '=', '='] => do
    let a ← sextet a
    let b ← sextet b
    some [UInt8.ofNat (a * 4 + b / 16)]
  | [a, b, c, '='] => do
    let a ← sextet a
    let b ← sextet b
    let c ← sextet c
    some [UInt8.ofNat (a * 4 + b / 16), UInt8.ofNat (b % 16 * 16 + c / 4)]
  | a :: b :: c :: d :: rest => do
    let a ← sextet a
    let b ← sextet b
    let c ← sextet c
    let d ← sextet d
    let bytes ← decodeQuads rest
    some (UInt8.ofNat (a * 4 + b / 16) :: UInt8.ofNat (b % 16 * 16 + c / 4) ::
      UInt8.ofNat (c % 4 * 64 + d) :: bytes)
  | _ => none

/-- `base64.b64decode(value, validate=True)`, or a `binascii.Error` -/
def b64decode (value : List Char) : Option (List UInt8) :=
  if value.head? = some '=' then none else decodeQuads value

def stripText (l : List Char) : List Char := (l.dropWhile isWhitespace).rdropWhile isWhitespace

/-- `key_values`, or the `ValueError` of a value that is not ASCII -/
def keyValues (privateKeyB64 : List Char) : Option (List (List Char)) :=
  if privateKeyB64 = [] then some []
  else if privateKeyB64.any fun c => decide (128 ≤ c.toNat) then none
  else
    match (b64decode privateKeyB64).bind decodeUtf8 with
    | none => some [privateKeyB64]
    | some pem =>
      let body := (textBreaks.splitlines pem).filter fun line =>
        decide (stripText line ≠ []) && !("-----".toList).isPrefixOf line
      some (privateKeyB64 :: stripText pem :: body.map stripText)

/-! ## the redactor -/

/-- `[redacted:{name}]` -/
def markerOf (name : List Char) : List Char := "[redacted:".toList ++ name ++ [']']

def tokenName : List Char := "github-token".toList

def keyName : List Char := "GITHUB_APP_PRIVATE_KEY".toList

structure Redactor where
  pairs : List (List UInt8 × List UInt8)
  nonempty : ∀ p ∈ pairs, p.1 ≠ []
  named : ∀ p ∈ pairs, ∃ name, p.2 = utf8 (markerOf name)

theorem utf8_ne_nil {l : List Char} (h : l ≠ []) : utf8 l ≠ [] := fun he =>
  h (utf8_injective (he.trans rfl))

namespace Redactor

def empty : Redactor where
  pairs := []
  nonempty := fun p hp => by cases hp
  named := fun p hp => by cases hp

/-- `_add` -/
def add (r : Redactor) (value name : List Char) : Redactor :=
  if h : value = [] then r
  else
    { pairs := setKey (utf8 value) (utf8 (markerOf name)) r.pairs
      nonempty := by
        intro p hp
        obtain rfl | hp := mem_setKey hp
        · exact utf8_ne_nil h
        · exact r.nonempty p hp
      named := by
        intro p hp
        obtain rfl | hp := mem_setKey hp
        · exact ⟨name, rfl⟩
        · exact r.named p hp }

/-- `Redactor(secrets, private_key_b64)` -/
def new (secrets : List (List Char × List Char)) (privateKeyB64 : List Char) : Option Redactor := do
  let values ← keyValues privateKeyB64
  let r := secrets.foldl (fun r s => r.add s.2 s.1) empty
  some (values.foldl (fun r value => r.add value keyName) r)

/-- `add_token` -/
def addToken (r : Redactor) (token : List Char) : Redactor := r.add token tokenName

/-- the registered values with their markers, the longest first -/
def byLength (r : Redactor) : List (List UInt8 × List UInt8) :=
  r.pairs.mergeSort fun p q => decide (q.1.length ≤ p.1.length)

def bytes (r : Redactor) (data : List UInt8) : List UInt8 :=
  r.byLength.foldl (fun data p => replace p.1 p.2 data) data

end Redactor

/-! ## `json.loads` of bytes -/

/-- the text of a line in UTF-8, with or without its mark, as `detect_encoding` finds it -/
def textOf (b : List UInt8) : Option (List Char) :=
  if [0, 0, 254, 255].isPrefixOf b || [255, 254].isPrefixOf b || [254, 255].isPrefixOf b then none
  else if [239, 187, 191].isPrefixOf b then decodeUtf8 (b.drop 3)
  else if 2 ≤ b.length ∧ b.length ≠ 3 ∧ (b[0]? = some 0 ∨ b[1]? = some 0) then none
  else decodeUtf8 b

/-- `json.loads`; `other` is what it makes of bytes that are not UTF-8 -/
def jsonLoads (other : List UInt8 → Option JsonText.Value) (b : List UInt8) :
    Option JsonText.Value :=
  match textOf b with
  | some text => JsonText.loads text
  | none => other b

end Freepod.Upgrader
