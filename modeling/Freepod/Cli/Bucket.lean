import Freepod.Base.Assoc
import Freepod.Base.Xml

/-!
# Batch deletes

`Bucket.delete_many` deletes up to a thousand keys in one request (`freepod/s3.py`), and `Deleter`
counts what it deleted and reports what was kept (`freepod/objects.py`).

A Python string is a list of code points, surrogates included; only those that are no surrogates
are encoded.  The store is a parameter: it refuses a request, or answers with the keys it failed
to delete.
-/

namespace Freepod.Cli

/-- a Unicode code point, or a surrogate, as a Python string holds it -/
abbrev CodePoint := Fin 0x110000

abbrev Str := List CodePoint

def CodePoint.ofChar (c : Char) : CodePoint :=
  ⟨c.toNat, by
    have h := c.valid
    simp only [UInt32.isValidChar, Nat.isValidChar] at h
    have hc : c.toNat = c.val.toNat := rfl
    omega⟩

/-- a literal -/
def Str.lit (s : String) : Str := s.toList.map CodePoint.ofChar

/-- the character of a code point that is no surrogate -/
def CodePoint.toChar? (p : CodePoint) : Option Char :=
  if p.val.isValidChar then some (Char.ofNat p.val) else none

/-- `str.encode()`, which raises `UnicodeEncodeError` on a surrogate; the bytes are those of these
characters -/
def Str.encode (s : Str) : Option (List Char) := s.mapM CodePoint.toChar?

/-- `value.replace(c, s)` for one character -/
def Str.replace (c : Char) (s : String) (value : Str) : Str :=
  value.flatMap fun p => if p = CodePoint.ofChar c then Str.lit s else [p]

/-- `_xml_escape` -/
def xmlEscape (value : Str) : Str :=
  ((((value.replace '&' "&amp;").replace '<' "&lt;").replace '>' "&gt;").replace
    '\x22' "&quot;").replace '\'' "&apos;"

/-- `<Object><Key>..</Key></Object>` -/
def objectXml (key : Str) : Str :=
  Str.lit "<Object><Key>" ++ xmlEscape key ++ Str.lit "</Key></Object>"

/-- the text of the request's body -/
def deleteXml (keys : List Str) : Str :=
  Str.lit "<Delete><Quiet>true</Quiet>" ++ keys.flatMap objectXml ++ Str.lit "</Delete>"

/-- an `Error` element of the response -/
structure DeleteError where
  key : Str
  code : Str
  message : Str

/-- what a store makes of a body: it refuses the request (`S3Error`, with its text), or answers; an
answer that is no XML raises on reading it -/
abbrev ObjectStore := List Char → Except Str (Option (List DeleteError))

/-- how a call ends early -/
inductive Raised where
  | s3Error (why : Str)
  | unicodeEncodeError
  | parseError
  deriving DecidableEq

/-- `Bucket.delete_many`: the keys that failed, with why -/
def deleteMany (store : ObjectStore) (keys : List Str) : Except Raised (List (Str × Str)) :=
  if keys = [] then .ok []
  else
    match (deleteXml keys).encode with
    | none => .error .unicodeEncodeError
    | some body =>
      match store body with
      | .error why => .error (.s3Error why)
      | .ok none => .error .parseError
      | .ok (some errors) =>
        .ok ((errors.filter fun e =>
          e.code ≠ Str.lit "NoSuchKey" ∧ e.message ≠ Str.lit "Key not found").map fun e =>
            (e.key, if e.message ≠ [] then e.message else e.code))

/-- what a `Deleter` has reported kept, with why, and how many keys it counts as deleted -/
structure Tally where
  problems : List (Str × Str)
  deleted : Int

/-- `dict(pairs)`: one entry for each key, in the order the keys come first -/
def dict (pairs : List (Str × Str)) : List (Str × Str) :=
  pairs.foldl (fun d p => Base.setKey p.1 p.2 d) []

/-- `Deleter._delete` -/
def deleteBatch (store : ObjectStore) (t : Tally) (batch : List Str) : Except Raised Tally :=
  if batch = [] then .ok t
  else
    match deleteMany store batch with
    | .ok failures =>
      let failed := dict failures
      .ok ⟨t.problems ++ failed, t.deleted + (batch.length - failed.length)⟩
    | .error (.s3Error why) =>
      let failed := dict (batch.map fun key => (key, why))
      .ok ⟨t.problems ++ failed, t.deleted + (batch.length - failed.length)⟩
    | .error e => .error e

end Freepod.Cli
