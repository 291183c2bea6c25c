import Freepod.Base.Assoc
import Freepod.Base.PercentEncoding

/-!
# JSON texts

* `Value`: a JSON value as Python holds it; a text is the list of its code points.
* `encode`, `dumps`: a value in ASCII without white space, as `json.dumps` writes it.
* `scanOnce`, `loads`: what `json.loads` reads.
-/

namespace Freepod.Base.JsonText

/-- a JSON value; a number that is no integer is its literal -/
inductive Value where
  | null
  | bool (b : Bool)
  | int (n : Int)
  | float (literal : List Char)
  | str (s : List Nat)
  | arr (items : List Value)
  | obj (fields : List (List Nat × Value))

/-! ## writing -/

/-- `\uXXXX` -/
def unicodeEscape (n : Nat) : List Char :=
  ['\\', 'u', Nat.digitChar (n / 4096 % 16), Nat.digitChar (n / 256 % 16),
    Nat.digitChar (n / 16 % 16), Nat.digitChar (n % 16)]

/-- the code points with an escape of their own, and its letter -/
def shortEscapes : List (Nat × Char) :=
  [(34, '\x22'), (92, '\\'), (10, 'n'), (13, 'r'), (9, 't'), (12, 'f'), (8, 'b')]

/-- one code point of a string -/
def escape (n : Nat) : List Char :=
  match shortEscapes.lookup n with
  | some letter => ['\\', letter]
  | none =>
    if 32 ≤ n ∧ n ≤ 126 then [Char.ofNat n]
    else if n < 65536 then unicodeEscape n
    else unicodeEscape (55296 + (n - 65536) / 1024) ++ unicodeEscape (56320 + (n - 65536) % 1024)

def encodeText (s : List Nat) : List Char := '\x22' :: (s.flatMap escape ++ ['\x22'])

/-- `int.__repr__`, which refuses a number of more digits than `intLimit` -/
def encodeInt (n : Int) : List Char :=
  (if n < 0 then ['-'] else []) ++ Nat.toDigits 10 n.natAbs

/-- the most digits that a conversion between an integer and a text accepts -/
def intLimit : Nat := 4300

mutual
def encode : Value → List Char
  | .null => ['n', 'u', 'l', 'l']
  | .bool true => ['t', 'r', 'u', 'e']
  | .bool false => ['f', 'a', 'l', 's', 'e']
  | .int n => encodeInt n
  | .float literal => literal
  | .str s => encodeText s
  | .arr items => '[' :: ((encodeItems items).drop 1 ++ [']'])
  | .obj fields => '\x7b' :: ((encodeFields fields).drop 1 ++ ['\x7d'])

/-- each item after a comma -/
def encodeItems : List Value → List Char
  | [] => []
  | item :: items => ',' :: (encode item ++ encodeItems items)

def encodeFields : List (List Nat × Value) → List Char
  | [] => []
  | field :: fields => ',' :: (encodeField field ++ encodeFields fields)

def encodeField : List Nat × Value → List Char
  | (key, value) => encodeText key ++ ':' :: encode value
end

mutual
/-- an integer among the values has more digits than its conversion accepts -/
def tooLong : Value → Bool
  | .int n => decide (intLimit < (Nat.toDigits 10 n.natAbs).length)
  | .arr items => tooLongItems items
  | .obj fields => tooLongFields fields
  | _ => false

def tooLongItems : List Value → Bool
  | [] => false
  | item :: items => tooLong item || tooLongItems items

def tooLongFields : List (List Nat × Value) → Bool
  | [] => false
  | field :: fields => tooLongField field || tooLongFields fields

def tooLongField : List Nat × Value → Bool
  | (_, value) => tooLong value
end

/-- `json.dumps(value, separators=(",", ":"))`, or a `ValueError` -/
def dumps (v : Value) : Option (List Char) := if tooLong v then none else some (encode v)

/-! ## reading -/

def isSpace (c : Char) : Bool := c == ' ' || c == '\t' || c == '\n' || c == '\r'

def skipSpace (text : List Char) : List Char := text.dropWhile isSpace

def hex4 (a b c d : Char) : Option Nat := do
  let a ← hexValue a
  let b ← hexValue b
  let c ← hexValue c
  let d ← hexValue d
  some (a * 4096 + b * 256 + c * 16 + d)

/-- what the letter of a short escape stands for -/
def unescape (letter : Char) : Option Nat :=
  if letter = '/' then some 47
  else (shortEscapes.find? fun e => e.2 == letter).map Prod.fst

/-- `\uXXXX` at the front of a text -/
def readUnicode : List Char → Option (Nat × List Char)
  | '\\' :: 'u' :: a :: b :: c :: d :: rest => (hex4 a b c d).map fun n => (n, rest)
  | _ => none

/-- one character or one escape of a string -/
def readUnit : List Char → Option (Nat × List Char)
  | [] => none
  | c :: rest =>
    if c = '\\' then
      match rest with
      | [] => none
      | letter :: after =>
        if letter = 'u' then readUnicode (c :: rest)
        else (unescape letter).map fun n => (n, after)
    else if c.toNat < 32 then none
    else some (c.toNat, rest)

def isHigh (n : Nat) : Bool := decide (55296 ≤ n ∧ n < 56320)

def isLow (n : Nat) : Bool := decide (56320 ≤ n ∧ n < 57344)

/-- a high and a low surrogate next to one another are one code point -/
def readPoint (text : List Char) : Option (Nat × List Char) :=
  match readUnit text with
  | none => none
  | some (n, rest) =>
    if isHigh n then
      match readUnicode rest with
      | none => some (n, rest)
      | some (m, after) =>
        if isLow m then some (65536 + (n - 55296) * 1024 + (m - 56320), after)
        else some (n, rest)
    else some (n, rest)

/-- `scanstring`, after the quotation mark that opens it -/
def scanString : Nat → List Char → Option (List Nat × List Char)
  | 0, _ => none
  | _ + 1, [] => none
  | fuel + 1, c :: text =>
    if c = '\x22' then some ([], text)
    else
      match readPoint (c :: text) with
      | none => none
      | some (n, rest) => (scanString fuel rest).map fun p => (n :: p.1, p.2)

/-- the fraction a number's text goes on with -/
def fraction : List Char → List Char
  | '.' :: rest =>
    if rest.takeWhile Char.isDigit = [] then [] else '.' :: rest.takeWhile Char.isDigit
  | _ => []

/-- the exponent it goes on with -/
def exponent : List Char → List Char
  | [] => []
  | e :: rest =>
    if e = 'e' ∨ e = 'E' then
      let sign := rest.take (if rest.head? = some '+' ∨ rest.head? = some '-' then 1 else 0)
      let digits := (rest.drop sign.length).takeWhile Char.isDigit
      if digits = [] then [] else e :: (sign ++ digits)
    else []

/-- a number whose integral part has been read -/
def scanRest (negative : Bool) (digits rest : List Char) : Option (Value × List Char) :=
  let tail := fraction rest ++ exponent (rest.drop (fraction rest).length)
  if tail ≠ [] then
    some (.float ((if negative then ['-'] else []) ++ digits ++ tail), rest.drop tail.length)
  else if intLimit < digits.length then none
  else
    let n : Int := Nat.ofDigitChars 10 digits 0
    some (.int (if negative then -n else n), rest)

def scanDigits (negative : Bool) : List Char → Option (Value × List Char)
  | [] => none
  | c :: rest =>
    if c = '0' then scanRest negative ['0'] rest
    else if c.isDigit then
      scanRest negative (c :: rest.takeWhile Char.isDigit) (rest.dropWhile Char.isDigit)
    else none

def scanNumber : List Char → Option (Value × List Char)
  | [] => none
  | c :: rest => if c = '-' then scanDigits true rest else scanDigits false (c :: rest)

/-- the words `json.loads` knows -/
def constants : List (List Char × Value) :=
  [(['n', 'u', 'l', 'l'], .null), (['t', 'r', 'u', 'e'], .bool true),
    (['f', 'a', 'l', 's', 'e'], .bool false), (['N', 'a', 'N'], .float ['N', 'a', 'N']),
    ("Infinity".toList, .float "Infinity".toList), ("-Infinity".toList, .float "-Infinity".toList)]

def scanConstant (text : List Char) : Option (Value × List Char) :=
  match constants.find? fun p => p.1.isPrefixOf text with
  | some p => some (p.2, text.drop p.1.length)
  | none => scanNumber text

/-- `dict(pairs)` -/
def toDict (pairs : List (List Nat × Value)) : List (List Nat × Value) :=
  pairs.foldl (fun d p => setKey p.1 p.2 d) []

mutual
/-- `scan_once`; a text takes at most two units of fuel a character -/
def scanOnce : Nat → List Char → Option (Value × List Char)
  | 0, _ => none
  | _ + 1, [] => none
  | fuel + 1, c :: rest =>
    if c = '\x22' then (scanString (rest.length + 1) rest).map fun p => (.str p.1, p.2)
    else if c = '\x7b' then
      if (skipSpace rest).head? = some '\x7d' then some (.obj [], (skipSpace rest).drop 1)
      else (scanFields fuel (skipSpace rest)).map fun p => (.obj (toDict p.1), p.2)
    else if c = '[' then
      if (skipSpace rest).head? = some ']' then some (.arr [], (skipSpace rest).drop 1)
      else (scanItems fuel (skipSpace rest)).map fun p => (.arr p.1, p.2)
    else scanConstant (c :: rest)

def scanItems : Nat → List Char → Option (List Value × List Char)
  | 0, _ => none
  | fuel + 1, text =>
    match scanOnce fuel text with
    | none => none
    | some (v, rest) =>
      match skipSpace rest with
      | [] => none
      | c :: rest =>
        if c = ']' then some ([v], rest)
        else if c = ',' then (scanItems fuel (skipSpace rest)).map fun p => (v :: p.1, p.2)
        else none

def scanFields : Nat → List Char → Option (List (List Nat × Value) × List Char)
  | 0, _ => none
  | fuel + 1, text =>
    match scanField fuel text with
    | none => none
    | some (field, rest) =>
      match skipSpace rest with
      | [] => none
      | c :: rest =>
        if c = '\x7d' then some ([field], rest)
        else if c = ',' then (scanFields fuel (skipSpace rest)).map fun p => (field :: p.1, p.2)
        else none

def scanField : Nat → List Char → Option ((List Nat × Value) × List Char)
  | 0, _ => none
  | _ + 1, [] => none
  | fuel + 1, c :: text =>
    if c = '\x22' then
      match scanString (text.length + 1) text with
      | none => none
      | some (key, rest) =>
        match skipSpace rest with
        | [] => none
        | c :: rest =>
          if c = ':' then
            (scanOnce fuel (skipSpace rest)).map fun p => ((key, p.1), p.2)
          else none
    else none
end

/-- `json.loads` of a text, or a `ValueError` -/
def loads (text : List Char) : Option Value :=
  if text.head? = some '\ufeff' then none
  else
    match scanOnce (3 * text.length) (skipSpace text) with
    | none => none
    | some (v, rest) => if skipSpace rest = [] then some v else none

end Freepod.Base.JsonText
