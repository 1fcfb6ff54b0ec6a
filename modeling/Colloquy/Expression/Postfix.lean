import Colloquy.Expression.Token
/-!
# Postfix form

Tokens are brought into the order in which they are evaluated: operands in the order they are
written, each operator after its operands. Operators wait until one that binds less tightly, a
closing bracket or the end lets them go; operators of one strength group to the left.
-/

namespace Colloquy.Expression

/-- A step of evaluation. -/
inductive Step where
  | push (v : Value)
  | load (name : String)
  | apply (op : Operator)
  deriving DecidableEq

/-- What waits for its turn. -/
inductive Waiting where
  | operator (op : Operator)
  | bracket
  deriving DecidableEq

/-- Where the ordering stands: the steps so far, last first, what waits, last first, and whether
an operand is to come next. -/
structure Sorter where
  steps : List Step
  waiting : List Waiting
  wantsOperand : Bool
  deriving DecidableEq

namespace Sorter

/-- Before the first token. -/
def start : Sorter :=
  ⟨[], [], true⟩

/-- Takes an operand. -/
def operand (s : Sorter) (token : Token) (step : Step) : Except ParseError Sorter :=
  if s.wantsOperand then .ok { s with steps := step :: s.steps, wantsOperand := false }
  else .error (.missingOperator token)

/-- Lets go the operators that bind at least as tightly as `strength`. -/
def release (strength : Nat) (steps : List Step) : List Waiting → List Step × List Waiting
  | .operator op :: rest =>
    if op.strength ≥ strength then release strength (.apply op :: steps) rest
    else (steps, .operator op :: rest)
  | rest => (steps, rest)

/-- Takes an operator. A minus or a negation where an operand is to come stands before its only
operand; every other operator needs a left operand. -/
def operator (s : Sorter) (op : Operator) : Except ParseError Sorter :=
  if s.wantsOperand then
    match op with
    | .sub => .ok { s with waiting := .operator .neg :: s.waiting }
    | .not => .ok { s with waiting := .operator .not :: s.waiting }
    | op => .error (.missingLeftOperand op)
  else if op = .not then .error .negationAfterValue
  else
    let (steps, waiting) := release op.strength s.steps s.waiting
    .ok ⟨steps, .operator op :: waiting, true⟩

/-- Lets go everything down to the innermost open bracket, and the bracket itself. -/
def close (steps : List Step) : List Waiting → Except ParseError Sorter
  | [] => .error .unbalancedClosing
  | .bracket :: rest => .ok ⟨steps, rest, false⟩
  | .operator op :: rest => close (.apply op :: steps) rest

/-- Takes a token. -/
def take (s : Sorter) : Token → Except ParseError Sorter
  | .literal v => s.operand (.literal v) (.push v)
  | .variable name => s.operand (.variable name) (.load name)
  | .opening => .ok { s with waiting := .bracket :: s.waiting, wantsOperand := true }
  | .closing => close s.steps s.waiting
  | .operator op => s.operator op

/-- Lets go everything that waits at the end; a bracket still open is an error. -/
def drain (steps : List Step) : List Waiting → Except ParseError (List Step)
  | [] => .ok steps
  | .bracket :: _ => .error .unbalancedOpening
  | .operator op :: rest => drain (.apply op :: steps) rest

/-- The steps in order, once all tokens have been taken. -/
def finish (s : Sorter) : Except ParseError (List Step) :=
  if s.wantsOperand then .error .incomplete
  else (drain s.steps s.waiting).map List.reverse

end Sorter

/-- The postfix form of a list of tokens. -/
def toPostfix (tokens : List Token) : Except ParseError (List Step) := do
  (← tokens.foldlM Sorter.take Sorter.start).finish

end Colloquy.Expression
