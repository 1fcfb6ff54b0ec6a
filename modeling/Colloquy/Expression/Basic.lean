import Colloquy.Expression.Arithmetic
import Colloquy.Expression.Postfix
/-!
# Expressions

An expression is read once and evaluated any number of times. Evaluation runs its steps on a stack
of operands: an operator takes its operands from the stack, all of them evaluated before it, and
leaves its result there. An unset variable is an operand too, and so is a list from the host; the
result of an expression is a value or nothing. Lists are compared item by item, except that a list
always equals itself, even with items that do not.
-/

namespace Colloquy

/-- An expression: its text without blanks around it, and its steps. -/
structure Expression where
  source : String
  steps : List Expression.Step
  deriving DecidableEq

namespace Expression

/-- What gives variables their values. -/
abbrev Environment := String → Datum

/-- Reads an expression. -/
def parse (text : String) : Except ParseFault Expression :=
  let source := Text.trimString text
  if source = "" then .error (.rejected .empty)
  else do
    let tokens ← tokenize source
    match toPostfix tokens with
    | .ok steps => return ⟨source, steps⟩
    | .error e => .error (.rejected e)

/-- The expression that always holds. -/
def always : Expression :=
  ⟨"true", [.push (.bool true)]⟩

/-- The expression that never holds. -/
def never : Expression :=
  ⟨"false", [.push (.bool false)]⟩

/-- The variable that a step reads. -/
def Step.name? : Step → Option String
  | .load name => some name
  | _ => none

/-- The variables that an expression reads, each once, in the order of its steps. -/
def names (e : Expression) : List String :=
  (e.steps.filterMap Step.name?).eraseDups

/-- The value of an expression that is nothing but a literal. -/
def literal? (e : Expression) : Option Value :=
  match e.steps with
  | [.push v] => some v
  | _ => none

/-- An operand: a value, or whatever a variable holds. -/
inductive Operand where
  | value (v : Value)
  | held (name : String)
  deriving DecidableEq

namespace Operand

/-- What an operand is. -/
def datum (env : Environment) : Operand → Datum
  | .value v => .value v
  | .held name => env name

/-- Whether two operands are one list: that of one variable. -/
def isOneList (env : Environment) : Operand → Operand → Bool
  | .held m, .held n => m = n && (env m).isList
  | _, _ => false

/-- The result of an operator between two operands. -/
def combine (env : Environment) (op : Operator) (a b : Operand) : Except EvalFault Value :=
  match op, a.isOneList env b with
  | .eq, true => .ok (.bool true)
  | .ne, true => .ok (.bool false)
  | op, _ => applyBinary op (a.datum env) (b.datum env)

end Operand

/-- The stack of operands after a step. -/
def Step.run (env : Environment) (step : Step) (stack : List Operand) :
    Except EvalFault (List Operand) :=
  match step, stack with
  | .push v, stack => .ok (.value v :: stack)
  | .load name, stack => .ok (.held name :: stack)
  | .apply .not, a :: stack => .ok (.value (.bool (!(a.datum env).truth)) :: stack)
  | .apply .neg, a :: stack => (negate (a.datum env)).map fun v => .value v :: stack
  | .apply op, b :: a :: stack =>
    if op.isUnary then .error .missingOperand
    else (Operand.combine env op a b).map fun v => .value v :: stack
  | .apply _, _ => .error .missingOperand

/-- The stack of operands after all steps. -/
def runSteps (env : Environment) : List Step → List Operand →
    Except EvalFault (List Operand)
  | [], stack => .ok stack
  | step :: rest, stack => do runSteps env rest (← step.run env stack)

/-- The value of an expression, `none` if it is that of an unset variable. -/
def evaluate (e : Expression) (env : Environment) : Except EvalFault (Option Value) := do
  match ← runSteps env e.steps [] with
  | [] => .error .missingOperand
  | result :: _ =>
    match result.datum env with
    | .unset => return none
    | .value v => return some v
    | d => refuse (.unsupported d)

/-- Whether an expression holds as a condition. -/
def holds (e : Expression) (env : Environment) : Except EvalFault Bool :=
  (e.evaluate env).map truthOrUnset

/-- An expression as messages show it. -/
def display (e : Expression) : String :=
  "Expression(" ++ Text.quoted e.source ++ ")"

end Expression

end Colloquy
