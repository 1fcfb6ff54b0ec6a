import Colloquy.Proofs.Expression.Tree
import Colloquy.Proofs.Number.Quotient
import Colloquy.Proofs.Result
/-!
# Division of whole numbers

The quotient of two whole numbers is taken as a floating point number and then loses its fraction.
This is the quotient rounded towards zero as long as the floating point number has the same whole part
as the quotient, and always so if the dividend has no more than 53 bits.
-/

namespace Colloquy

/-- The quotient rounded towards zero has the sign of the fraction. -/
theorem Binary64.tdiv_eq_signed (a b : Int) :
    a.tdiv b = signed ((a < 0) != (b < 0)) (a.natAbs / b.natAbs) := by
  have sign (n : Nat) : decide (Int.negSucc n < 0) = true := decide_eq_true (Int.negSucc_lt_zero n)
  cases a with
  | ofNat m =>
    cases b with
    | ofNat n => rfl
    | negSucc n =>
      rw [sign]
      rfl
  | negSucc m =>
    cases b with
    | ofNat n =>
      rw [sign]
      rfl
    | negSucc n =>
      rw [sign, sign]
      rfl

namespace Expression

/-- The whole quotient is exact if and only if rounding keeps its whole part. -/
theorem wholeQuotient_eq_tdiv {a b : Int} (nonzero : b ≠ 0) :
    wholeQuotient a b = .ok (a.tdiv b) ↔ Binary64.KeepsWhole a.natAbs b.natAbs := by
  rw [← Binary64.truncate?_ofFraction (Int.natAbs_pos.2 nonzero) ((a < 0) != (b < 0)),
    ← Binary64.tdiv_eq_signed, wholeQuotient]
  cases (Binary64.ofFraction ((a < 0) != (b < 0)) a.natAbs b.natAbs).truncate? with
  | none => simp
  | some n => simp

theorem parse_quotient : parse "\x7bA\x7d / \x7bB\x7d"
    = .ok ⟨"\x7bA\x7d / \x7bB\x7d", [.load "A", .load "B", .apply .div]⟩ := by
  decide +kernel

theorem evaluate_double (env : Environment) {op : Operator} (double : op.isUnary = false)
    (source m n : String) : evaluate ⟨source, [.load m, .load n, .apply op]⟩ env
      = (Operand.combine env op (.held m) (.held n)).map some := by
  have ran : runSteps env [.load m, .load n, .apply op] [] = _ :=
    run_double env double (.held m) (.held n) []
  rw [evaluate, ran]
  cases Operand.combine env op (.held m) (.held n) <;> rfl

theorem combine_div {env : Environment} {a b : Int} (dividend : env "A" = .value (.int a))
    (divisor : env "B" = .value (.int b)) (nonzero : b ≠ 0) :
    Operand.combine env .div (.held "A") (.held "B") = (wholeQuotient a b).map .int := by
  have held : Operand.combine env .div (.held "A") (.held "B")
      = applyBinary .div (env "A") (env "B") := rfl
  rw [held, dividend, divisor]
  simp [applyBinary, arithmetic, Value.isNumber, Operator.divides, isZero, nonzero, wholeArithmetic]

/-- The value of a division is the quotient rounded towards zero if and only if rounding the quotient
to a floating point number keeps its whole part. It does where the dividend has no more than 53 bits. -/
theorem division_truncates {env : Environment} {a b : Int} (dividend : env "A" = .value (.int a))
    (divisor : env "B" = .value (.int b)) (nonzero : b ≠ 0) :
    ∃ e, parse "\x7bA\x7d / \x7bB\x7d" = .ok e
      ∧ (e.evaluate env = .ok (some (.int (a.tdiv b))) ↔ Binary64.KeepsWhole a.natAbs b.natAbs)
      ∧ (a.natAbs ≤ 2 ^ 53 → e.evaluate env = .ok (some (.int (a.tdiv b)))) := by
  have truncates : evaluate ⟨"\x7bA\x7d / \x7bB\x7d", [.load "A", .load "B", .apply .div]⟩ env
        = .ok (some (.int (a.tdiv b))) ↔ Binary64.KeepsWhole a.natAbs b.natAbs := by
    rw [← wholeQuotient_eq_tdiv nonzero, evaluate_double env rfl,
      combine_div dividend divisor nonzero, map_eq_ok]
    simp [map_eq_ok]
  refine ⟨_, parse_quotient, truncates, fun small => truncates.2 ?_⟩
  exact Binary64.keepsWhole_of_small (Int.natAbs_pos.2 nonzero) small

/-- Two whole numbers under the names `A` and `B`. -/
def operands (a b : Int) : Environment :=
  fun name => .value (.int (if name = "A" then a else b))

theorem division_truncates_negative : Int.tdiv (2 ^ 53 + 2) (-3) = -3002399751580331
    ∧ ∃ e, parse "\x7bA\x7d / \x7bB\x7d" = .ok e
      ∧ e.evaluate (operands (2 ^ 53 + 2) (-3)) = .ok (some (.int (-3002399751580331))) := by
  have dividend : operands (2 ^ 53 + 2) (-3) "A" = .value (.int (2 ^ 53 + 2)) := rfl
  have divisor : operands (2 ^ 53 + 2) (-3) "B" = .value (.int (-3)) := rfl
  obtain ⟨e, read, truncates, -⟩ := division_truncates dividend divisor (by decide)
  have keeps : Binary64.KeepsWhole (2 ^ 53 + 2 : Int).natAbs (-3 : Int).natAbs := by
    refine ⟨by decide +kernel, fun _ => .inl ?_⟩
    decide +kernel
  exact ⟨by decide, e, read, truncates.2 keeps⟩

/-- A dividend of 54 bits may be rounded, and one of more than 1024 is refused. -/
theorem division_rounds :
    (∃ e, parse "\x7bA\x7d / \x7bB\x7d" = .ok e
      ∧ (e.evaluate (operands (2 ^ 53 + 1) 1)).toOption = some (some (.int (2 ^ 53)))
      ∧ (e.evaluate (operands (10 ^ 400) 1)).toOption = none)
    ∧ Int.tdiv (2 ^ 53 + 1) 1 = 2 ^ 53 + 1 ∧ Int.tdiv (10 ^ 400) 1 = 10 ^ 400 :=
  ⟨⟨_, parse_quotient, by decide +kernel, by decide +kernel⟩, by decide, Int.tdiv_one _⟩

end Expression

end Colloquy
