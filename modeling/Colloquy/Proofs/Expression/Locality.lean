import Colloquy.Expression.Basic
/-!
# What an expression reads

Evaluating an expression reads the variables that it names and no others. A variable is read when an
operator is applied to it or when it is the result, so what matters is where the operands on the stack
come from.
-/

namespace Colloquy.Expression

variable {env env' : Environment} {named : String → Prop}

/-- An operand that reads no variable but those that are named. -/
def Operand.Within (named : String → Prop) : Operand → Prop
  | .value _ => True
  | .held name => named name

namespace Operand

variable {a b : Operand}

theorem datum_congr (agree : ∀ name, named name → env name = env' name) (within : a.Within named) :
    a.datum env = a.datum env' := by
  cases a with
  | value v => rfl
  | held name => exact agree name within

theorem isOneList_congr (agree : ∀ name, named name → env name = env' name)
    (within : a.Within named) : a.isOneList env b = a.isOneList env' b := by
  cases a with
  | value v => rfl
  | held m =>
    cases b with
    | value v => rfl
    | held n => rw [isOneList, isOneList, agree m within]

theorem combine_congr (agree : ∀ name, named name → env name = env' name)
    (left : a.Within named) (right : b.Within named) (op : Operator) :
    combine env op a b = combine env' op a b := by
  unfold combine
  rw [isOneList_congr agree left, datum_congr agree left, datum_congr agree right]

end Operand

/-- Every result of an evaluation leaves a stack of operands that read only what is named. -/
def LeavesWithin (named : String → Prop) (result : Except EvalFault (List Operand)) : Prop :=
  ∀ stack, result = .ok stack → ∀ a ∈ stack, a.Within named

theorem LeavesWithin.pushed {stack : List Operand} (within : ∀ a ∈ stack, a.Within named)
    (result : Except EvalFault Value) :
    LeavesWithin named (result.map fun v => .value v :: stack) := by
  intro after left a member
  cases result with
  | error f => cases left
  | ok v =>
    cases left
    obtain rfl | below := List.mem_cons.mp member
    · exact trivial
    · exact within a below

theorem LeavesWithin.fault (f : EvalFault) : LeavesWithin named (.error f) :=
  fun _ left => by cases left

/-- An operator reads its operands and leaves a value in their place. -/
theorem run_apply_congr (agree : ∀ name, named name → env name = env' name) (op : Operator)
    {stack : List Operand} (within : ∀ a ∈ stack, a.Within named) :
    Step.run env (.apply op) stack = Step.run env' (.apply op) stack
      ∧ LeavesWithin named (Step.run env (.apply op) stack) := by
  cases stack with
  | nil =>
    have fails (env : Environment) : Step.run env (.apply op) [] = .error .missingOperand := by
      cases op <;> rfl
    rw [fails, fails]
    exact ⟨rfl, .fault _⟩
  | cons b below =>
    obtain ⟨top, single⟩ := List.forall_mem_cons.mp within
    have same := Operand.datum_congr agree top
    -- these two take the top operand alone, all others the one below it as well
    by_cases isNot : op = .not
    · subst isNot
      refine ⟨?_, .pushed single (.ok (.bool !(b.datum env).truth))⟩
      rw [Step.run, Step.run, same]
    by_cases isNeg : op = .neg
    · subst isNeg
      refine ⟨?_, .pushed single (negate (b.datum env))⟩
      rw [Step.run, Step.run, same]
    cases below with
    | nil =>
      have fails (env : Environment) : Step.run env (.apply op) [b] = .error .missingOperand := by
        cases op <;> first | rfl | contradiction
      rw [fails, fails]
      exact ⟨rfl, .fault _⟩
    | cons a below =>
      obtain ⟨next, double⟩ := List.forall_mem_cons.mp single
      have combines (env : Environment) : Step.run env (.apply op) (b :: a :: below)
          = if op.isUnary then .error .missingOperand
            else (Operand.combine env op a b).map fun v => .value v :: below := by
        cases op <;> first | rfl | contradiction
      rw [combines, combines]
      split
      · exact ⟨rfl, .fault _⟩
      · refine ⟨?_, .pushed double _⟩
        rw [Operand.combine_congr agree next top]

theorem Step.run_congr (agree : ∀ name, named name → env name = env' name) (step : Step)
    (reads : ∀ name, step.name? = some name → named name) {stack : List Operand}
    (within : ∀ a ∈ stack, a.Within named) :
    step.run env stack = step.run env' stack ∧ LeavesWithin named (step.run env stack) := by
  cases step with
  | push v => exact ⟨rfl, .pushed within (.ok v)⟩
  | load name =>
    refine ⟨rfl, fun after left a member => ?_⟩
    cases left
    obtain rfl | below := List.mem_cons.mp member
    · exact reads name rfl
    · exact within a below
  | apply op => exact run_apply_congr agree op within

theorem runSteps_congr (agree : ∀ name, named name → env name = env' name) (steps : List Step)
    (reads : ∀ step ∈ steps, ∀ name, step.name? = some name → named name) {stack : List Operand}
    (within : ∀ a ∈ stack, a.Within named) :
    runSteps env steps stack = runSteps env' steps stack
      ∧ LeavesWithin named (runSteps env steps stack) := by
  induction steps generalizing stack with
  | nil =>
    refine ⟨rfl, fun after left => ?_⟩
    cases left
    exact within
  | cons step rest ih =>
    obtain ⟨same, leaves⟩ := step.run_congr agree (reads step List.mem_cons_self) within
    rw [runSteps, runSteps, ← same]
    cases first : step.run env stack with
    | error f => exact ⟨rfl, .fault f⟩
    | ok after =>
      exact ih (fun later member => reads later (List.mem_cons_of_mem step member))
        (leaves after first)

/-- What an expression comes to depends on the variables that it names and on nothing else. -/
theorem evaluate_congr {e : Expression} (agree : ∀ name ∈ e.names, env name = env' name) :
    e.evaluate env = e.evaluate env' := by
  have reads : ∀ step ∈ e.steps, ∀ name, step.name? = some name → name ∈ e.names := by
    intro step member name isName
    exact List.mem_eraseDups.mpr (List.mem_filterMap.mpr ⟨step, member, isName⟩)
  obtain ⟨same, leaves⟩ := runSteps_congr agree e.steps reads (List.forall_mem_nil _)
  rw [evaluate, evaluate, ← same]
  cases ran : runSteps env e.steps [] with
  | error f => rfl
  | ok stack =>
    cases stack with
    | nil => rfl
    | cons result below =>
      have value := Operand.datum_congr agree (leaves _ ran result List.mem_cons_self)
      simp only [bind, Except.bind, value]

end Colloquy.Expression
