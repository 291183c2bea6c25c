import Freepod.Base.Assoc

/-!
# JSON values as the platform stores them

`Json` is a parsed JSON document: an object is the list of its fields in order.  Python's `None`
and a missing document are `Json.null`.

* `deepMerge` merges a document over another one, object by object (`template_values.py`).
* `strings` lists every string among the values (`image_retention._strings`).
-/

namespace Freepod
open Base

/-- a JSON value; `num m s` is the decimal `m / 10 ^ s` -/
inductive Json where
  | null
  | bool (b : Bool)
  | num (mantissa : Int) (scale : Nat)
  | str (s : String)
  | arr (items : List Json)
  | obj (fields : List (String × Json))

/-- the fields of an object -/
abbrev Fields := List (String × Json)

namespace Json

/-- the value of a key, for an object that has it -/
def get? (j : Json) (key : String) : Option Json :=
  match j with
  | obj fields => fields.lookup key
  | _ => none

/-- `isinstance(value, dict)` -/
def isObj : Json → Bool
  | obj _ => true
  | _ => false

/-- `value is None` -/
def isNull : Json → Bool
  | null => true
  | _ => false

/-- `bool(value)` -/
def truthy : Json → Bool
  | null => false
  | bool b => b
  | num mantissa _ => mantissa != 0
  | str s => s != ""
  | arr items => !items.isEmpty
  | obj fields => !fields.isEmpty

end Json

mutual
/-- two JSON values merged: objects key by key, anything else replaced by the override -/
def deepMerge (base : Json) : Json → Json
  | .obj override =>
    match base with
    | .obj fields => .obj (mergeFields fields override)
    | _ => .obj override
  | override => override

/-- the loop over `override.items()` -/
def mergeFields (merged : Fields) : Fields → Fields
  | [] => merged
  | field :: fields => mergeFields (mergeField merged field) fields

def mergeField (merged : Fields) : String × Json → Fields
  | (key, value) =>
    match merged.lookup key with
    | some base => setKey key (deepMerge base value) merged
    | none => merged ++ [(key, value)]
end

mutual
/-- every string among the values, never a key -/
def strings : Json → List String
  | .obj fields => stringsFields fields
  | .arr items => stringsItems items
  | .str s => [s]
  | _ => []

def stringsItems : List Json → List String
  | [] => []
  | item :: items => strings item ++ stringsItems items

def stringsFields : List (String × Json) → List String
  | [] => []
  | field :: fields => stringsField field ++ stringsFields fields

def stringsField : String × Json → List String
  | (_, value) => strings value
end

end Freepod
