import Colloquy.Expression.Basic
import Colloquy.Proofs.Number.Rounding
import Colloquy.Proofs.Result
/-!
# How an evaluation can fail

An evaluation that has no result either was refused by an operator, or lacked an operand, or met a
whole number too large to be calculated with or to be shown. An operand can only be missing in an
expression that is not complete, such as empty brackets, and such an expression never has a value.
-/

namespace Colloquy

/-- A number that no floating point number may hold, or that cannot be shown. -/
def Datum.IsUnwieldy : Datum → Prop
  | .value (.int n) => Binary64.large ≤ n.natAbs
  | d => d.isShowable = false

theorem Datum.isUnwieldy_int {n : Int} :
    (Datum.value (.int n)).IsUnwieldy ↔ Binary64.large ≤ n.natAbs := Iff.rfl

theorem Datum.unwieldy_of_not_showable {d : Datum} (hidden : d.isShowable = false) :
    d.IsUnwieldy := by
  cases d with
  | unset => exact hidden
  | list items => exact hidden
  | value v =>
    cases v with
    | int n =>
      simp only [isShowable, Value.isShowable, Number.exceedsDigitLimit, Bool.not_eq_false',
        decide_eq_true_eq] at hidden
      rw [isUnwieldy_int]
      refine Nat.le_trans ?_ hidden
      obtain ⟨bits, large, few⟩ := Binary64.large_eq
      calc Binary64.large = 2 ^ bits := large
        _ ≤ Nat.pow 2 Number.digitLimit :=
          Nat.pow_le_pow_right (by omega) (few ▸ (by decide : 1023 ≤ Number.digitLimit))
        _ ≤ Nat.pow 10 Number.digitLimit := Nat.pow_le_pow_left (by omega) _
    | _ => exact hidden

namespace Expression

/-! ### Operators -/

/-- An operator fails by a refusal, or because an operand is unwieldy. -/
def FailsOn (operands : List Datum) (f : EvalFault) : Prop :=
  (∃ r, f = .refused r) ∨ ∃ d ∈ operands, d.IsUnwieldy

section

variable {op : Operator} {a b : Datum} {f : EvalFault}

theorem failsOn_of_refuse {α : Type} {operands : List Datum} {r : Refusal}
    (failed : refuse r = (.error f : Except EvalFault α))
    (shown : r.isShowable = false → ∃ d ∈ operands, d.isShowable = false) :
    FailsOn operands f := by
  cases showable : r.isShowable with
  | true =>
    rw [refuse, showable, if_pos rfl] at failed
    exact .inl ⟨r, (Except.error.inj failed).symm⟩
  | false =>
    obtain ⟨d, member, hidden⟩ := shown showable
    exact .inr ⟨d, member, Datum.unwieldy_of_not_showable hidden⟩

theorem failsOn_of_refuse_pair {α : Type} {r : Refusal}
    (failed : refuse r = (.error f : Except EvalFault α))
    (both : r.isShowable = (a.isShowable && b.isShowable)) : FailsOn [a, b] f := by
  refine failsOn_of_refuse failed fun hidden => ?_
  rw [both, Bool.and_eq_false_iff] at hidden
  obtain hidden | hidden := hidden
  · exact ⟨a, by simp, hidden⟩
  · exact ⟨b, by simp, hidden⟩

theorem unwieldy_of_asFloat {v : Value} (number : v.isNumber = true)
    (failed : asFloat v = .error f) : Datum.IsUnwieldy (.value v) := by
  cases v with
  | int n =>
    obtain small | big := Nat.lt_or_ge n.natAbs Binary64.large
    · obtain ⟨units, fits, finite⟩ := @Binary64.ofFraction_finite _ 1 small (decide (n < 0))
      rw [asFloat, Binary64.ofInt, finite] at failed
      cases failed
    · exact big
  | float x => cases failed
  | _ => cases number

theorem large_of_wholeQuotient {m n : Int} (failed : wholeQuotient m n = .error f) :
    Binary64.large ≤ m.natAbs := by
  obtain small | big := Nat.lt_or_ge m.natAbs Binary64.large
  · obtain ⟨units, fits, finite⟩ := @Binary64.ofFraction_finite _ n.natAbs small
      (decide (m < 0) != decide (n < 0))
    rw [wholeQuotient, finite] at failed
    cases failed
  · exact big

theorem large_of_wholeArithmetic {m n : Int} (failed : wholeArithmetic op m n = .error f) :
    Binary64.large ≤ m.natAbs := by
  cases op with
  | div =>
    cases quotient : wholeQuotient m n with
    | ok q =>
      rw [wholeArithmetic, quotient] at failed
      cases failed
    | error f => exact large_of_wholeQuotient quotient
  | _ => cases failed

theorem floats_error {x y : Value} {r : Binary64 → Binary64 → Binary64}
    (numbers : x.isNumber = true ∧ y.isNumber = true)
    (failed : (do let u ← asFloat x; let w ← asFloat y; return Value.float (r u w)) = .error f) :
    FailsOn [.value x, .value y] f := by
  cases left : asFloat x with
  | error f => exact .inr ⟨.value x, by simp, unwieldy_of_asFloat numbers.1 left⟩
  | ok u =>
    cases right : asFloat y with
    | error f => exact .inr ⟨.value y, by simp, unwieldy_of_asFloat numbers.2 right⟩
    | ok w =>
      rw [left, right] at failed
      cases failed

theorem arithmetic_error (failed : arithmetic op a b = .error f) : FailsOn [a, b] f := by
  cases a with
  | value x =>
    cases b with
    | value y =>
      simp only [arithmetic] at failed
      split at failed
      · exact failsOn_of_refuse_pair failed rfl
      next numbers =>
        simp only [Bool.not_eq_true', Bool.not_eq_false, Bool.and_eq_true] at numbers
        split at failed
        · exact failsOn_of_refuse_pair failed rfl
        · cases x with
          | int m =>
            cases y with
            | int n => exact .inr ⟨.value (.int m), by simp, large_of_wholeArithmetic failed⟩
            | _ => exact floats_error numbers failed
          | _ => exact floats_error numbers failed
    | _ => exact failsOn_of_refuse_pair failed rfl
  | _ => exact failsOn_of_refuse_pair failed rfl

theorem comparison_error (failed : comparison op a b = .error f) : FailsOn [a, b] f := by
  unfold comparison at failed
  split at failed
  · cases failed
  · split at failed
    · cases failed
    · exact failsOn_of_refuse_pair failed rfl
  · exact failsOn_of_refuse_pair failed rfl

theorem applyBinary_error (failed : applyBinary op a b = .error f) : FailsOn [a, b] f := by
  cases op with
  | and | or | eq | ne => cases failed
  | lt | gt | le | ge => exact comparison_error failed
  | add =>
    simp only [applyBinary] at failed
    split at failed
    · cases failed
    · exact arithmetic_error failed
  | sub | mul | div | mod | not | neg => exact arithmetic_error failed

theorem negate_error (failed : negate a = .error f) : FailsOn [a] f := by
  unfold negate at failed
  split at failed
  · cases failed
  · cases failed
  · exact failsOn_of_refuse failed fun hidden => ⟨a, List.mem_singleton_self a, hidden⟩

theorem combine_error {env : Environment} {x y : Operand}
    (failed : Operand.combine env op x y = .error f) : FailsOn [x.datum env, y.datum env] f := by
  unfold Operand.combine at failed
  split at failed
  · cases failed
  · cases failed
  · exact applyBinary_error failed

end

/-! ### Steps -/

/-- How many operands there are after a step, if it finds those that it needs. -/
def Step.operands (n : Nat) : Step → Option Nat
  | .push _ => some (n + 1)
  | .load _ => some (n + 1)
  | .apply op =>
    if op.isUnary then if n < 1 then none else some n
    else if n < 2 then none else some (n - 1)

/-- Whether every operator of an expression has its operands, and there is a result. -/
def IsComplete (e : Expression) : Prop :=
  ∃ n, e.steps.foldlM Step.operands 0 = some (n + 1)

/-- What can be on the stack when an evaluation fails. -/
def Stuck (env : Environment) (stack : List Operand) (f : EvalFault) : Prop :=
  (∃ r, f = .refused r) ∨ ∃ x ∈ stack, (x.datum env).IsUnwieldy

variable {env : Environment}

theorem Stuck.of_failsOn {f : EvalFault} {stack : List Operand}
    {operands : List Operand} (fails : FailsOn (operands.map (·.datum env)) f)
    (held : operands ⊆ stack) : Stuck env stack f := by
  obtain refused | ⟨d, member, unwieldy⟩ := fails
  · exact .inl refused
  · obtain ⟨x, among, rfl⟩ := List.mem_map.1 member
    exact .inr ⟨x, held among, unwieldy⟩

/-- What applying an operator comes to. -/
inductive Applied (env : Environment) : Operator → List Operand → Except EvalFault (List Operand) → Prop
  where
  | single {op : Operator} {a : Operand} {rest : List Operand} {result : Except EvalFault Value}
      (unary : op.isUnary = true)
      (fails : ∀ f, result = .error f → FailsOn [a.datum env] f) :
      Applied env op (a :: rest) (result.map fun v => .value v :: rest)
  | double {op : Operator} {a b : Operand} {rest : List Operand} {result : Except EvalFault Value}
      (binary : op.isUnary = false)
      (fails : ∀ f, result = .error f → FailsOn [a.datum env, b.datum env] f) :
      Applied env op (b :: a :: rest) (result.map fun v => .value v :: rest)
  | missing {op : Operator} {stack : List Operand}
      (short : (Step.apply op).operands stack.length = none) :
      Applied env op stack (.error .missingOperand)

theorem Step.run_applied (op : Operator) (stack : List Operand) :
    Applied env op stack (Step.run env (.apply op) stack) := by
  cases unary : op.isUnary with
  | true =>
    cases stack with
    | nil =>
      have missing : Step.run env (.apply op) [] = .error .missingOperand := by cases op <;> rfl
      rw [missing]
      exact .missing (by simp [Step.operands, unary])
    | cons a rest =>
      cases op with
      | not => exact @Applied.single env .not a rest (.ok _) rfl (fun f failed => by cases failed)
      | neg => exact .single rfl fun f failed => negate_error failed
      | _ => cases unary
  | false =>
    cases stack with
    | nil =>
      have missing : Step.run env (.apply op) [] = .error .missingOperand := by cases op <;> rfl
      rw [missing]
      exact .missing (by simp [Step.operands, unary])
    | cons b rest =>
      cases rest with
      | nil =>
        have missing : Step.run env (.apply op) [b] = .error .missingOperand := by
          cases op with
          | not | neg => cases unary
          | _ => rfl
        rw [missing]
        exact .missing (by simp [Step.operands, unary])
      | cons a rest =>
        have combined : Step.run env (.apply op) (b :: a :: rest)
            = (Operand.combine env op a b).map fun v => .value v :: rest := by
          cases op with
          | not | neg => cases unary
          | _ => rfl
        rw [combined]
        exact .double unary fun f failed => combine_error failed

/-- A step that is run leaves as many operands as it should. -/
theorem Step.run_ok {step : Step} {stack after : List Operand}
    (done : step.run env stack = .ok after) : step.operands stack.length = some after.length := by
  cases step with
  | push v => cases done; rfl
  | load name => cases done; rfl
  | apply op =>
    have applied := @run_applied env op stack
    rw [done] at applied
    generalize outcome : (Except.ok after : Except EvalFault (List Operand)) = result at applied
    cases applied with
    | single unary _ =>
      obtain ⟨v, _, rfl⟩ := map_eq_ok.1 outcome.symm
      simp [operands, unary]
    | double binary _ =>
      obtain ⟨v, _, rfl⟩ := map_eq_ok.1 outcome.symm
      simp [operands, binary]
    | missing short => cases outcome

/-- A step that fails lacks an operand or is stuck. -/
theorem Step.run_error {step : Step} {stack : List Operand} {f : EvalFault}
    (failed : step.run env stack = .error f) :
    step.operands stack.length = none ∨ Stuck env stack f := by
  cases step with
  | push v => cases failed
  | load name => cases failed
  | apply op =>
    have applied := @run_applied env op stack
    rw [failed] at applied
    generalize outcome : (Except.error f : Except EvalFault (List Operand)) = result at applied
    cases applied with
    | @single a rest result _ fails =>
      cases result with
      | ok v => cases outcome
      | error f' =>
        cases outcome
        exact .inr (@Stuck.of_failsOn env f _ [a] (fails f rfl) (by simp))
    | @double a b rest result _ fails =>
      cases result with
      | ok v => cases outcome
      | error f' =>
        cases outcome
        exact .inr (@Stuck.of_failsOn env f _ [a, b] (fails f rfl) (by simp))
    | missing short => exact .inl short

/-- Whether an evaluation comes upon an unwieldy number: as an operand that is on the stack after
some of its steps. -/
def MeetsUnwieldy (env : Environment) (e : Expression) : Prop :=
  ∃ before after stack, e.steps = before ++ after ∧ runSteps env before [] = .ok stack
    ∧ ∃ x ∈ stack, (x.datum env).IsUnwieldy

/-- Steps that succeed leave as many operands as they should. -/
theorem runSteps_ok {steps : List Step} {stack after : List Operand}
    (done : runSteps env steps stack = .ok after) :
    steps.foldlM Step.operands stack.length = some after.length := by
  induction steps generalizing stack with
  | nil =>
    cases done
    rfl
  | cons step rest ih =>
    obtain ⟨between, first, later⟩ := bind_eq_ok.1 done
    rw [List.foldlM_cons, Step.run_ok first]
    exact ih later

/-- Steps that fail do so at one of them. -/
theorem runSteps_error {steps : List Step} {stack : List Operand} {f : EvalFault}
    (failed : runSteps env steps stack = .error f) :
    ∃ before step after between, steps = before ++ step :: after
      ∧ runSteps env before stack = .ok between ∧ step.run env between = .error f := by
  induction steps generalizing stack with
  | nil => cases failed
  | cons step rest ih =>
    rw [runSteps] at failed
    cases first : step.run env stack with
    | error f' =>
      rw [first] at failed
      cases failed
      exact ⟨[], step, rest, stack, rfl, rfl, first⟩
    | ok next =>
      rw [first] at failed
      obtain ⟨before, wrong, after, between, split, done, fault⟩ := ih failed
      refine ⟨step :: before, wrong, after, between, by rw [split]; rfl, ?_, fault⟩
      rw [runSteps, first]
      exact done

/-- **How an evaluation fails.** By a refusal, or the expression is not complete, or it met an
unwieldy number. -/
theorem evaluate_error {e : Expression} {f : EvalFault} (failed : e.evaluate env = .error f) :
    (∃ r, f = .refused r) ∨ ¬ e.IsComplete ∨ e.MeetsUnwieldy env := by
  rw [evaluate] at failed
  cases run : runSteps env e.steps [] with
  | error f' =>
    rw [run] at failed
    cases failed
    obtain ⟨before, step, after, between, split, done, fault⟩ := runSteps_error run
    obtain short | refused | unwieldy := Step.run_error fault
    · refine .inr (.inl ?_)
      rintro ⟨n, enough⟩
      rw [split, List.foldlM_append, ← List.length_nil, runSteps_ok done] at enough
      change (step.operands between.length >>= fun m => after.foldlM Step.operands m) = _ at enough
      rw [short] at enough
      cases enough
    · exact .inl refused
    · exact .inr (.inr ⟨before, step :: after, between, split, done, unwieldy⟩)
  | ok stack =>
    have left := runSteps_ok run
    rw [run] at failed
    -- all steps have been run, so the fault lies in what they leave
    cases stack with
    | nil =>
      refine .inr (.inl ?_)
      rintro ⟨n, enough⟩
      cases left.symm.trans enough
    | cons result rest =>
      simp only [bind, Except.bind] at failed
      cases what : result.datum env with
      | unset =>
        rw [what] at failed
        cases failed
      | value v =>
        rw [what] at failed
        cases failed
      | list items =>
        rw [what] at failed
        obtain refused | ⟨d, member, unwieldy⟩ := failsOn_of_refuse failed
          fun hidden => ⟨_, List.mem_singleton_self _, hidden⟩
        · exact .inl refused
        · rw [List.mem_singleton.1 member, ← what] at unwieldy
          exact .inr (.inr ⟨e.steps, [], _, (List.append_nil _).symm, run, result, by simp,
            unwieldy⟩)

end Expression

end Colloquy
