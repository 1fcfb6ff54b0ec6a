import Colloquy.Number.Decimal
import Colloquy.Text.Quoted
/-!
# Values of dialogue variables

A variable holds a whole number, a floating point number, a truth value, a text or a grammatical
gender. Whole and floating point numbers are compared by what they are worth; values of any other
two kinds differ. An unset variable is `none`.
-/

namespace Colloquy

/-- Grammatical gender, used for agreement in text. -/
inductive Gender where
  | neuter
  | masculine
  | feminine
  deriving DecidableEq

/-- The kinds of value. -/
inductive Kind where
  | int
  | float
  | bool
  | text
  | gender
  deriving DecidableEq

/-- A value of a dialogue variable. -/
inductive Value where
  | int (n : Int)
  | float (x : Binary64)
  | bool (b : Bool)
  | text (s : String)
  | gender (g : Gender)
  deriving DecidableEq

namespace Gender

/-- The name of a gender in scripts and saved states. -/
def name : Gender → String
  | .neuter => "neuter"
  | .masculine => "masculine"
  | .feminine => "feminine"

/-- The gender of a name. -/
def ofName? (s : String) : Option Gender :=
  [neuter, masculine, feminine].find? (·.name = s)

/-- The name of a gender in capitals, as messages show it. -/
def label (g : Gender) : String :=
  g.name.map Char.toUpper

end Gender

namespace Kind

/-- The name of a kind, which is also its tag in saved states. -/
def name : Kind → String
  | .int => "int"
  | .float => "float"
  | .bool => "bool"
  | .text => "text"
  | .gender => "gender"

/-- The kind of a name. -/
def ofName? (s : String) : Option Kind :=
  [int, float, bool, text, gender].find? (·.name = s)

/-- What a variable of a kind counts as while it is unset. -/
def default : Kind → Value
  | .int => .int 0
  | .float => .float (Binary64.zero false)
  | .bool => .bool false
  | .text => .text ""
  | .gender => .gender .neuter

end Kind

namespace Value

/-- The kind of a value. -/
def kind : Value → Kind
  | .int _ => .int
  | .float _ => .float
  | .bool _ => .bool
  | .text _ => .text
  | .gender _ => .gender

/-- Whether a value can be calculated with. -/
def isNumber : Value → Bool
  | .int _ => true
  | .float _ => true
  | _ => false

/-- Whether two values are equal: numbers by worth, others if they are the same. -/
def equal : Value → Value → Bool
  | .int a, .int b => a = b
  | .int a, .float y => Binary64.compareInt? a y = some .eq
  | .float x, .int b => Binary64.compareInt? b x = some .eq
  | .float x, .float y => Binary64.compare? x y = some .eq
  | a, b => a = b

/-- What a value counts as in a condition. -/
def truth : Value → Bool
  | .int n => n ≠ 0
  | .float x => !x.isZero
  | .bool b => b
  | .text s => s ≠ ""
  | .gender g => g ≠ .neuter

/-- Whether a value can be shown: whole numbers beyond the digit limit cannot. -/
def isShowable : Value → Bool
  | .int n => !Number.exceedsDigitLimit n
  | _ => true

/-- A value as messages show it. -/
def display : Value → String
  | .int n => Number.intText n
  | .float x => Number.floatText x
  | .bool b => if b then "True" else "False"
  | .text s => Text.quoted s
  | .gender g => "<Gender." ++ g.label ++ ": '" ++ g.name ++ "'>"

/-- A value as it is put into dialogue text. -/
def spoken : Value → String
  | .int n => Number.intText n
  | .float x => if x.isWhole then Number.wholeFloatText x else Number.floatText x
  | .bool b => if b then "true" else "false"
  | .text s => s
  | .gender g => g.name

theorem kind_default (k : Kind) : k.default.kind = k := by
  cases k <;> rfl

theorem kind_ofName?_name (k : Kind) : Kind.ofName? k.name = some k := by
  cases k <;> decide

end Value

/-! ### Variables that may be unset -/

/-- Whether two variables are equal; an unset one equals only an unset one. -/
def equalOrUnset : Option Value → Option Value → Bool
  | none, none => true
  | some a, some b => a.equal b
  | _, _ => false

/-- What a variable counts as in a condition: an unset one is false. -/
def truthOrUnset : Option Value → Bool
  | none => false
  | some v => v.truth

end Colloquy
