import Colloquy.Expression.Basic
/-!
# Expression trees

What an expression means, apart from how it is written. A tree is evaluated from its leaves, the
left operand before the right one and both before their operator, whatever the left one gives.
Running the postfix form of a tree gives the same.
-/

namespace Colloquy.Expression

/-- A literal as it can be written. -/
inductive Literal where
  | whole (n : Nat) (short : (Nat.toDigits 10 n).length ≤ Number.digitLimit)
  | text (s : String)
  | truth (b : Bool)
  | gender (g : Gender)

/-- What a literal stands for. -/
def Literal.value : Literal → Value
  | .whole n _ => .int n
  | .text s => .text s
  | .truth b => .bool b
  | .gender g => .gender g

/-- The name of a variable as it can be written. -/
structure Name where
  text : String
  nonempty : text.toList ≠ []
  dotted : text.toList.all Text.isDotted = true

/-- An expression without its brackets. -/
inductive Tree where
  | literal (l : Literal)
  | named (x : Name)
  | unary (op : Operator) (single : op.isUnary = true) (a : Tree)
  | binary (op : Operator) (double : op.isUnary = false) (a b : Tree)

namespace Tree

variable (env : Environment)

/-- What a unary operator makes of its operand. -/
def single (op : Operator) (a : Operand) : Except EvalFault Operand :=
  match op with
  | .not => .ok (.value (.bool (!(a.datum env).truth)))
  | _ => (negate (a.datum env)).map .value

/-- What a tree is as an operand. A variable is not read before its operator needs it. -/
def operand : Tree → Except EvalFault Operand
  | .literal l => .ok (.value l.value)
  | .named x => .ok (.held x.text)
  | .unary op _ a => do single env op (← operand a)
  | .binary op _ a b => do
    let left ← operand a
    let right ← operand b
    return .value (← Operand.combine env op left right)

/-- The value of a tree, `none` if it is that of an unset variable. -/
def evaluate (t : Tree) : Except EvalFault (Option Value) := do
  match (← t.operand env).datum env with
  | .unset => return none
  | .value v => return some v
  | d => refuse (.unsupported d)

/-- The postfix form of a tree. -/
def steps : Tree → List Step
  | .literal l => [.push l.value]
  | .named x => [.load x.text]
  | .unary op _ a => a.steps ++ [.apply op]
  | .binary op _ a b => a.steps ++ b.steps ++ [.apply op]

end Tree

section

variable (env : Environment)

theorem runSteps_append (steps rest : List Step) (stack : List Operand) :
    runSteps env (steps ++ rest) stack = runSteps env steps stack >>= runSteps env rest := by
  induction steps generalizing stack with
  | nil => rfl
  | cons step steps ih =>
    simp only [List.cons_append, runSteps, bind_assoc]
    congr 1
    funext after
    exact ih after

theorem run_single {op : Operator} (single : op.isUnary = true) (a : Operand)
    (stack : List Operand) :
    runSteps env [.apply op] (a :: stack) = (Tree.single env op a).map (· :: stack) := by
  cases op with
  | not => rfl
  | neg =>
    simp only [runSteps, Step.run, Tree.single]
    cases negate (a.datum env) <;> rfl
  | _ => cases single

theorem run_double {op : Operator} (double : op.isUnary = false) (a b : Operand)
    (stack : List Operand) :
    runSteps env [.apply op] (b :: a :: stack)
      = (Operand.combine env op a b).map fun v => .value v :: stack := by
  cases op with
  | not | neg => cases double
  | _ =>
    simp only [runSteps, Step.run, Operator.isUnary, Bool.false_eq_true, if_false]
    cases Operand.combine env _ a b <;> rfl

namespace Tree

/-- Running the postfix form of a tree puts its operand on the stack and touches nothing below. -/
theorem run_steps (t : Tree) (stack : List Operand) :
    runSteps env t.steps stack = (t.operand env).map (· :: stack) := by
  induction t generalizing stack with
  | literal l => rfl
  | named x => rfl
  | unary op unary a ih =>
    rw [steps, runSteps_append, ih, operand]
    cases a.operand env with
    | error f => rfl
    | ok x => exact run_single env unary x stack
  | binary op binary a b left right =>
    rw [steps, runSteps_append, runSteps_append, left, operand]
    cases a.operand env with
    | error f => rfl
    | ok x =>
      -- the right operand runs on top of the left one
      change (runSteps env b.steps (x :: stack) >>= _) = _
      rw [right]
      cases b.operand env with
      | error f => rfl
      | ok y =>
        change runSteps env [.apply op] (y :: x :: stack) = _
        rw [run_double env binary]
        change _ = Except.map _ (Operand.combine env op x y >>= _)
        cases Operand.combine env op x y <;> rfl

theorem evaluate_steps (t : Tree) (source : String) :
    Expression.evaluate ⟨source, t.steps⟩ env = t.evaluate env := by
  simp only [Expression.evaluate, Tree.evaluate, run_steps]
  cases t.operand env <;> rfl

end Tree

end

end Colloquy.Expression
