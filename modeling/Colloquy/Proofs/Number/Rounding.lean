import Colloquy.Number.Binary64
import Mathlib.Algebra.Ring.Nat
import Mathlib.Data.Nat.Log
import Mathlib.Tactic.Set
/-!
# Rounding keeps numbers in range

A fraction whose whole part is below 2^1023 is rounded to a finite number. Only whole numbers of
2^1023 and more can be too large for a floating point number.
-/

namespace Colloquy.Binary64

theorem roundDiv_le (num den : Nat) : roundDiv num den ≤ num / den + 1 := by
  unfold roundDiv
  dsimp only
  split
  · omega
  · split <;> omega

/-- At most 53 significant bits on a scale. -/
theorem representable_scaled {q s : Nat} (few : q ≤ 2 ^ 53) (low : q * 2 ^ s < 2 ^ 2098) :
    Representable (q * 2 ^ s) := by
  by_cases zero : q = 0
  · rw [zero, Nat.zero_mul]
    exact representable_zero
  have positive : q * 2 ^ s ≠ 0 := Nat.mul_ne_zero zero (Nat.pow_pos (by omega)).ne'
  refine ⟨(Nat.log2_lt positive).2 low, Nat.mod_eq_zero_of_dvd ?_⟩
  by_cases full : q = 2 ^ 53
  · -- a power of two is divided by every smaller one
    rw [full, ← Nat.pow_add, Nat.log2_two_pow]
    exact Nat.pow_dvd_pow 2 (by omega)
  · have bits : (q * 2 ^ s).log2 < 53 + s := by
      rw [Nat.log2_lt positive, Nat.pow_add]
      exact Nat.mul_lt_mul_of_pos_right (Nat.lt_of_le_of_ne few full) (Nat.pow_pos (by omega))
    exact Nat.dvd_mul_left_of_dvd (Nat.pow_dvd_pow 2 (by omega)) q

theorem representable_roundUnits {num den : Nat} (small : num / den < 2 ^ 2097) :
    Representable (roundUnits num den) := by
  simp only [roundUnits, Nat.pow_eq]
  set s := (num / den).log2 - 52 with scale
  have whole : num / (den * 2 ^ s) < 2 ^ 53 := by
    rw [← Nat.div_div_eq_div_mul, Nat.div_lt_iff_lt_mul (Nat.pow_pos (by omega)), ← Nat.pow_add]
    calc num / den < 2 ^ ((num / den).log2 + 1) := Nat.lt_log2_self
      _ ≤ 2 ^ (53 + s) := Nat.pow_le_pow_right (by omega) (by omega)
  have few : roundDiv num (den * 2 ^ s) ≤ 2 ^ 53 :=
    (roundDiv_le num (den * 2 ^ s)).trans whole
  have bits : (num / den).log2 < 2097 := by
    by_cases zero : num / den = 0
    · rw [zero]
      decide
    · exact (Nat.log2_lt zero).2 small
  refine representable_scaled few ?_
  calc roundDiv num (den * 2 ^ s) * 2 ^ s ≤ 2 ^ 53 * 2 ^ s := Nat.mul_le_mul_right _ few
    _ = 2 ^ (53 + s) := (Nat.pow_add 2 53 s).symm
    _ < 2 ^ 2098 := Nat.pow_lt_pow_right (by omega) (by omega)

/-- The least whole number that may be too large. -/
@[irreducible]
def large : Nat := 2 ^ 1023

-- Exponents stay variables in what follows: powers as large as these are not to be computed.
theorem large_eq : ∃ bits, large = 2 ^ bits ∧ bits = 1023 := by
  unfold large
  exact ⟨1023, rfl, rfl⟩

theorem unitsOfOne_eq : ∃ bits, unitsOfOne = 2 ^ bits ∧ bits = 1074 :=
  ⟨1074, Nat.pow_eq, rfl⟩

theorem ofFraction_finite {num den : Nat} (small : num < large) (negative : Bool) :
    ∃ units fits, ofFraction negative num den = .finite negative units fits := by
  obtain ⟨m, bound, rfl⟩ := large_eq
  obtain ⟨bits, units, sum⟩ := unitsOfOne_eq
  have below : num * unitsOfOne / den < 2 ^ 2097 :=
    calc num * unitsOfOne / den ≤ num * 2 ^ bits := units ▸ Nat.div_le_self ..
      _ < large * 2 ^ bits := Nat.mul_lt_mul_of_pos_right small (Nat.two_pow_pos bits)
      _ = 2 ^ 2097 := by rw [bound, ← Nat.pow_add, sum]
  exact ⟨_, representable_roundUnits below, dif_pos _⟩

end Colloquy.Binary64
