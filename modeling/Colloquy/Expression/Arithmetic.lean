import Colloquy.Expression.Token
import Colloquy.Value.Datum
/-!
# Operators on values

Arithmetic takes numbers: two whole numbers stay whole, else both are taken as floating point
numbers. A whole quotient is the floating point quotient without its fraction; a remainder has the
sign of the divisor. Numbers compare by worth and texts by code points.
-/

namespace Colloquy.Expression

/-- Why an operator does not apply. -/
inductive Refusal where
  | needsNumbers (op : Operator) (a b : Datum)
  | divisionByZero (op : Operator) (a b : Datum)
  | cannotCompare (op : Operator) (a b : Datum)
  | cannotNegate (a : Datum)
  | unsupported (a : Datum)

/-- Why an evaluation has no result. -/
inductive EvalFault where
  /-- an operator does not apply to its operands -/
  | refused (r : Refusal)
  /-- a whole number too large for a floating point number -/
  | tooLarge
  /-- a refusal that cannot be shown, a number in it being beyond the digit limit -/
  | tooManyDigits
  /-- an operand is missing -/
  | missingOperand

/-- What is wrong, in the evaluation of the expression `source`. -/
def Refusal.message (source : String) : Refusal → String
  | .needsNumbers op a b =>
    "Operator '" ++ op.sign ++ "' needs numbers, got " ++ a.display ++ " and "
      ++ b.display
  | .divisionByZero op a b =>
    "Division by zero (" ++ a.display ++ " " ++ op.sign ++ " " ++ b.display ++ ")"
  | .cannotCompare op a b =>
    "Cannot compare " ++ a.display ++ " " ++ op.sign ++ " " ++ b.display
  | .cannotNegate a => "Cannot negate " ++ a.display ++ " in '" ++ source ++ "'"
  | .unsupported a => "'" ++ source ++ "' produced an unsupported value " ++ a.display

/-- Whether a refusal can be shown. -/
def Refusal.isShowable : Refusal → Bool
  | .needsNumbers _ a b => a.isShowable && b.isShowable
  | .divisionByZero _ a b => a.isShowable && b.isShowable
  | .cannotCompare _ a b => a.isShowable && b.isShowable
  | .cannotNegate a => a.isShowable
  | .unsupported a => a.isShowable

/-- Ends an evaluation with a refusal. -/
def refuse {α : Type} (r : Refusal) : Except EvalFault α :=
  .error (if r.isShowable then .refused r else .tooManyDigits)

/-! ### Numbers -/

/-- What a whole number has been converted to, unless it was too large for that. -/
def converted : Binary64 → Except EvalFault Binary64
  | .infinite _ => .error .tooLarge
  | x => .ok x

/-- A number as a floating point number. -/
def asFloat : Value → Except EvalFault Binary64
  | .int n => converted (Binary64.ofInt n)
  | .float x => .ok x
  | _ => .error .missingOperand

/-- The whole quotient: the floating point quotient without its fraction. -/
def wholeQuotient (a b : Int) : Except EvalFault Int :=
  (Binary64.ofFraction ((a < 0) != (b < 0)) a.natAbs b.natAbs).truncate?.elim
    (.error .tooLarge) .ok

/-- The result of an arithmetic operator on whole numbers, the divisor not being zero. -/
def wholeArithmetic (op : Operator) (a b : Int) : Except EvalFault Value :=
  match op with
  | .add => .ok (.int (a + b))
  | .sub => .ok (.int (a - b))
  | .mul => .ok (.int (a * b))
  | .div => (wholeQuotient a b).map .int
  | _ => .ok (.int (Int.fmod a b))

/-- The result of an arithmetic operator on floating point numbers, the divisor not being zero. -/
def floatArithmetic (op : Operator) (x y : Binary64) : Binary64 :=
  match op with
  | .add => x.add y
  | .sub => x.sub y
  | .mul => x.mul y
  | .div => x.div y
  | _ => x.mod y

/-- Whether a value is the number zero. -/
def isZero : Value → Bool
  | .int n => n = 0
  | .float x => x.isZero
  | _ => false

/-- Whether an operator divides. -/
def Operator.divides : Operator → Bool
  | .div | .mod => true
  | _ => false

/-- The result of an arithmetic operator. -/
def arithmetic (op : Operator) (a b : Datum) : Except EvalFault Value :=
  match a, b with
  | .value x, .value y =>
    if !(x.isNumber && y.isNumber) then refuse (.needsNumbers op a b)
    else if op.divides && isZero y then refuse (.divisionByZero op a b)
    else
      match x, y with
      | .int m, .int n => wholeArithmetic op m n
      | x, y => do
        let x ← asFloat x
        let y ← asFloat y
        return .float (floatArithmetic op x y)
  | _, _ => refuse (.needsNumbers op a b)

/-! ### Comparison -/

/-- How two numbers compare; none if one of them is not a number. -/
def compareNumbers? : Value → Value → Option Ordering
  | .int a, .int b => some (compare a b)
  | .int a, .float y => Binary64.compareInt? a y
  | .float x, .int b => (Binary64.compareInt? b x).map Ordering.swap
  | .float x, .float y => Binary64.compare? x y
  | _, _ => none

/-- How two texts compare. -/
def compareTexts (a b : String) : Ordering :=
  if a < b then .lt else if a = b then .eq else .gt

/-- Whether a comparison holds for two things in the order `o`. -/
def Operator.holds (op : Operator) (o : Ordering) : Bool :=
  match op with
  | .lt => o = .lt
  | .gt => o = .gt
  | .le => o ≠ .gt
  | _ => o ≠ .lt

/-- The result of a comparison. -/
def comparison (op : Operator) (a b : Datum) : Except EvalFault Value :=
  match a, b with
  | .value (.text s), .value (.text t) => .ok (.bool (op.holds (compareTexts s t)))
  | .value x, .value y =>
    if x.isNumber && y.isNumber then
      .ok (.bool ((compareNumbers? x y).elim false op.holds))
    else refuse (.cannotCompare op a b)
  | _, _ => refuse (.cannotCompare op a b)

/-! ### All operators -/

/-- The result of an operator between two operands. -/
def applyBinary (op : Operator) (a b : Datum) : Except EvalFault Value :=
  match op with
  | .and => .ok (.bool (a.truth && b.truth))
  | .or => .ok (.bool (a.truth || b.truth))
  | .eq => .ok (.bool (a.equal b))
  | .ne => .ok (.bool (!a.equal b))
  | .lt | .gt | .le | .ge => comparison op a b
  | .add =>
    match a, b with
    | .value (.text s), .value (.text t) => .ok (.text (s ++ t))
    | _, _ => arithmetic op a b
  | _ => arithmetic op a b

/-- The result of a minus before its only operand. -/
def negate : Datum → Except EvalFault Value
  | .value (.int n) => .ok (.int (-n))
  | .value (.float x) => .ok (.float x.neg)
  | a => refuse (.cannotNegate a)

end Colloquy.Expression
