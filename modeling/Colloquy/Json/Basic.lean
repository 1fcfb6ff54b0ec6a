import Colloquy.Number.Binary64
import Colloquy.Table
/-!
# JSON values

A value keeps whether a number was written as a whole number or as a decimal, and an object keeps
its fields in the order they were written. An object as it is read may name a field twice; the
last one counts.
-/

namespace Colloquy

/-- A JSON value. -/
inductive Json where
  | null
  | bool (b : Bool)
  | int (n : Int)
  | float (x : Binary64)
  | text (s : String)
  | list (items : List Json)
  | object (fields : List (String × Json))
  deriving Inhabited

namespace Json

/-- Fields in which none is named twice: a later value stands in the place of an earlier one. -/
def mergeFields (fields : List (String × Json)) : List (String × Json) :=
  setEntries [] fields

mutual

/-- A value in which no object names a field twice. -/
def merge : Json → Json
  | .list items => .list (mergeItems items)
  | .object fields => .object (mergeFields (mergeValues fields))
  | value => value

/-- `merge` on the items of a list. -/
def mergeItems : List Json → List Json
  | [] => []
  | item :: rest => merge item :: mergeItems rest

/-- `merge` on the values of fields. -/
def mergeValues : List (String × Json) → List (String × Json)
  | [] => []
  | (name, value) :: rest => (name, merge value) :: mergeValues rest

end

mutual

/-- Whether two values are the same. -/
def same : Json → Json → Bool
  | .null, .null => true
  | .bool a, .bool b => a = b
  | .int a, .int b => a = b
  | .float a, .float b => a = b
  | .text a, .text b => a = b
  | .list a, .list b => sameItems a b
  | .object a, .object b => sameFields a b
  | _, _ => false

/-- `same` on the items of two lists. -/
def sameItems : List Json → List Json → Bool
  | [], [] => true
  | a :: as, b :: bs => same a b && sameItems as bs
  | _, _ => false

/-- `same` on the fields of two objects, in order. -/
def sameFields : List (String × Json) → List (String × Json) → Bool
  | [], [] => true
  | (m, a) :: as, (n, b) :: bs => m = n && same a b && sameFields as bs
  | _, _ => false

end

/-- The field of a name; of several the last. -/
def field? (fields : List (String × Json)) (name : String) : Option Json :=
  (fields.reverse.find? (·.1 = name)).map (·.2)

end Json

end Colloquy
