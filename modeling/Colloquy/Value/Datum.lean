import Colloquy.Value.Basic
/-!
# Data from the host

What a host hands over need not be a value of a variable: it may be nothing, or a list. The
operations on values say what they do with such data too.
-/

namespace Colloquy

/-- Anything a host may hand over. -/
inductive Datum where
  | unset
  | value (v : Value)
  | list (items : List Datum)
  deriving Inhabited

namespace Datum

/-- A variable as a datum. -/
def ofOption : Option Value → Datum
  | none => .unset
  | some v => .value v

/-- The value that a datum is, if it is one. -/
def value? : Datum → Option Value
  | .value v => some v
  | _ => none

/-- The kind of a datum that is a value. -/
def kind? (d : Datum) : Option Kind :=
  d.value?.map Value.kind

/-- Whether a datum is a list. -/
def isList : Datum → Bool
  | .list _ => true
  | _ => false

/-- Whether a datum can be calculated with. -/
def isNumber : Datum → Bool
  | .value v => v.isNumber
  | _ => false

/-- What a datum counts as in a condition: a list is true unless it is empty. -/
def truth : Datum → Bool
  | .unset => false
  | .value v => v.truth
  | .list items => !items.isEmpty

/-- A number that a truth value is worth inside a list. -/
def worth : Value → Value
  | .bool b => .int (if b then 1 else 0)
  | v => v

mutual

/-- Whether two data inside a list are the same; a truth value is the same as zero or one. -/
def same : Datum → Datum → Bool
  | .unset, .unset => true
  | .value a, .value b => (worth a).equal (worth b)
  | .list as, .list bs => sameItems as bs
  | _, _ => false

/-- `same` item by item. -/
def sameItems : List Datum → List Datum → Bool
  | [], [] => true
  | a :: as, b :: bs => same a b && sameItems as bs
  | _, _ => false

end

/-- Whether two data are equal: values as values, lists item by item. -/
def equal : Datum → Datum → Bool
  | .unset, .unset => true
  | .value a, .value b => a.equal b
  | .list as, .list bs => sameItems as bs
  | _, _ => false

mutual

/-- Whether a datum can be shown. -/
def isShowable : Datum → Bool
  | .unset => true
  | .value v => v.isShowable
  | .list items => areShowable items

/-- `isShowable` for all items. -/
def areShowable : List Datum → Bool
  | [] => true
  | d :: rest => isShowable d && areShowable rest

end

mutual

/-- A datum as messages show it. -/
def display : Datum → String
  | .unset => "None"
  | .value v => v.display
  | .list items => "[" ++ displayItems items ++ "]"

/-- The items of a list as messages show them. -/
def displayItems : List Datum → String
  | [] => ""
  | [d] => display d
  | d :: rest => display d ++ ", " ++ displayItems rest

end

/-- A datum as it is put into dialogue text. -/
def spoken : Datum → String
  | .unset => ""
  | .value v => v.spoken
  | d => d.display

end Datum

end Colloquy
