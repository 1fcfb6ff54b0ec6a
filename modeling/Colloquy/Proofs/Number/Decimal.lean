import Colloquy.Proofs.Number.Digits
import Colloquy.Proofs.Number.Rounding
/-!
# Decimals read back

The number that a decimal reads as depends on its value alone, not on how many zeros its digits end
with, and a finite number is written as a decimal that reads as this number: one that was found among
the nearest of a few digits, or the one that it equals.
-/

namespace Colloquy

namespace Binary64

/-! ### Fractions -/

theorem roundDiv_mul {num den c : Nat} (positive : 0 < c) :
    roundDiv (num * c) (den * c) = roundDiv num den := by
  have scaled (a b : Nat) : a * c < b * c ↔ a < b := Nat.mul_lt_mul_right positive
  have less : 2 * (num % den * c) < den * c ↔ 2 * (num % den) < den := by
    rw [← Nat.mul_assoc, scaled]
  have more : 2 * (num % den * c) > den * c ↔ 2 * (num % den) > den := by
    rw [← Nat.mul_assoc, gt_iff_lt, scaled]
  unfold roundDiv
  rw [Nat.mul_div_mul_right _ _ positive, Nat.mul_mod_mul_right]
  dsimp only
  simp only [less, more]

theorem roundUnits_mul {num den c : Nat} (positive : 0 < c) :
    roundUnits (num * c) (den * c) = roundUnits num den := by
  unfold roundUnits
  rw [Nat.mul_div_mul_right _ _ positive]
  dsimp only
  rw [Nat.mul_right_comm den c, roundDiv_mul positive]

/-- A fraction may be extended. -/
theorem ofFraction_mul (negative : Bool) {num den c : Nat} (positive : 0 < c) :
    ofFraction negative (num * c) (den * c) = ofFraction negative num den := by
  rw [ofFraction, ofFraction, round, round, Nat.mul_right_comm num c, roundUnits_mul positive]

/-- A number of units that is a floating point number is not rounded. -/
theorem roundUnits_of_representable {units : Nat} (fits : Representable units) :
    roundUnits units 1 = units := by
  have whole : Nat.pow 2 (units.log2 - 52) ∣ units := Nat.dvd_of_mod_eq_zero fits.2
  have positive : 0 < Nat.pow 2 (units.log2 - 52) := Nat.pow_pos (by omega)
  unfold roundUnits roundDiv
  dsimp only
  rw [Nat.div_one, Nat.one_mul, fits.2, if_pos positive, Nat.div_mul_cancel whole]

/-! ### Decimals -/

/-- The fraction that `digits · 10 ^ exponent` is, rounded. -/
def ofPower (negative : Bool) (digits : Nat) (exponent : Int) : Binary64 :=
  if exponent ≥ 0 then ofFraction negative (digits * Nat.pow 10 exponent.toNat) 1
  else ofFraction negative digits (Nat.pow 10 (-exponent).toNat)

theorem ofPower_shift (negative : Bool) (digits : Nat) (exponent : Int) (k : Nat) :
    ofPower negative (digits * 10 ^ k) (exponent - k) = ofPower negative digits exponent := by
  have positive (n : Nat) : 0 < 10 ^ n := Nat.pow_pos (by omega)
  unfold ofPower
  simp only [Nat.pow_eq]
  by_cases above : exponent - k ≥ 0
  · have split : exponent.toNat = k + (exponent - k).toNat := by omega
    rw [if_pos above, if_pos (by omega), split, Nat.pow_add, Nat.mul_assoc]
  · rw [if_neg above]
    by_cases whole : exponent ≥ 0
    · -- the zeros make up for the exponent and a denominator remains
      have split : k = exponent.toNat + (-(exponent - k)).toNat := by omega
      have digits_eq : digits * 10 ^ k
          = digits * 10 ^ exponent.toNat * 10 ^ (-(exponent - k)).toNat := by
        conv_lhs => rw [split]
        rw [Nat.pow_add, Nat.mul_assoc]
      have extended := @ofFraction_mul negative (digits * 10 ^ exponent.toNat) 1 _
        (positive (-(exponent - k)).toNat)
      rw [Nat.one_mul] at extended
      rw [if_pos whole, digits_eq, extended]
    · have split : (-(exponent - k)).toNat = (-exponent).toNat + k := by omega
      rw [if_neg whole, split, Nat.pow_add]
      exact ofFraction_mul negative (positive k)

theorem ofDecimal_eq (negative : Bool) {digits : Nat} (exponent : Int) (nonzero : digits ≠ 0) :
    ofDecimal negative digits exponent =
      if ((Nat.toDigits 10 digits).length : Int) + exponent > 310 then .infinite negative
      else if ((Nat.toDigits 10 digits).length : Int) + exponent < -330 then zero negative
      else ofPower negative digits exponent := by
  unfold ofDecimal ofPower
  dsimp only
  rw [if_neg nonzero]

/-- Zeros at the end of the digits may be traded for the exponent. -/
theorem ofDecimal_shift (negative : Bool) (digits : Nat) (exponent : Int) (k : Nat) :
    ofDecimal negative (digits * 10 ^ k) (exponent - k) = ofDecimal negative digits exponent := by
  by_cases zero : digits = 0
  · subst zero
    rw [Nat.zero_mul]
    unfold ofDecimal
    rfl
  · have nonzero : digits * 10 ^ k ≠ 0 := Nat.mul_ne_zero zero (Nat.pow_pos (by omega)).ne'
    have places : ((Nat.toDigits 10 (digits * 10 ^ k)).length : Int) + (exponent - k)
        = (Nat.toDigits 10 digits).length + exponent := by
      rw [Number.length_toDigits_shift zero]
      omega
    rw [ofDecimal_eq negative _ nonzero, ofDecimal_eq negative _ zero, places, ofPower_shift]

theorem ofUnits_neg (units : Nat) : ofUnits true units = (ofUnits false units).neg := by
  unfold ofUnits
  split <;> rfl

/-- A decimal with a minus reads as the number of the other sign. -/
theorem ofDecimal_neg (digits : Nat) (exponent : Int) :
    ofDecimal true digits exponent = (ofDecimal false digits exponent).neg := by
  have fraction (num den : Nat) : ofFraction true num den = (ofFraction false num den).neg :=
    ofUnits_neg _
  unfold ofDecimal
  dsimp only
  split
  · rfl
  · split
    · rfl
    · split
      · rfl
      · split <;> exact fraction _ _

theorem ofDecimal_signed {digits units : Nat} {exponent : Int} {fits : Representable units}
    (reads : ofDecimal false digits exponent = .finite false units fits) (negative : Bool) :
    ofDecimal negative digits exponent = .finite negative units fits := by
  cases negative with
  | false => exact reads
  | true =>
    rw [ofDecimal_neg, reads]
    rfl

/-- The decimal that a number of units equals reads as this number. The powers stay variables here:
these are not to be computed. -/
theorem ofDecimal_of_units {units k m p top : Nat} (fits : Representable units) (nonzero : units ≠ 0)
    (one : unitsOfOne = 2 ^ k) (bound : units < 2 ^ top) (high : 2 ^ top ≤ 2 ^ k * 10 ^ p)
    (low : 10 ^ m ≤ 5 ^ k) (most : p ≤ 310) (least : k ≤ m + 330) (positive : 0 < m) (more : 0 < k) :
    ofDecimal false (units * 5 ^ k) (-k) = .finite false units fits := by
  have power (b : Nat) (big : 0 < b) : 0 < b ^ k := Nat.pow_pos big
  have tens : 10 ^ k = 5 ^ k * 2 ^ k := by rw [← Nat.mul_pow]
  have digits : units * 5 ^ k ≠ 0 := Nat.mul_ne_zero nonzero (power 5 (by omega)).ne'
  have few : (Nat.toDigits 10 (units * 5 ^ k)).length ≤ k + p := by
    refine (Nat.length_toDigits_le_iff (by omega) (by omega)).2 ?_
    calc units * 5 ^ k < 2 ^ top * 5 ^ k := Nat.mul_lt_mul_of_pos_right bound (power 5 (by omega))
      _ ≤ 2 ^ k * 10 ^ p * 5 ^ k := Nat.mul_le_mul_right _ high
      _ = 5 ^ k * (2 ^ k * 10 ^ p) := Nat.mul_comm _ _
      _ = 10 ^ (k + p) := by rw [← Nat.mul_assoc, ← tens, ← Nat.pow_add]
  have many : m < (Nat.toDigits 10 (units * 5 ^ k)).length := by
    refine Nat.lt_of_not_le fun short => ?_
    have less := (Nat.length_toDigits_le_iff (by omega) positive).1 short
    have more := Nat.le_mul_of_pos_left (5 ^ k) (Nat.pos_of_ne_zero nonzero)
    exact absurd less (Nat.not_lt.2 (low.trans more))
  have whole : roundUnits (units * 10 ^ k) (10 ^ k) = units := by
    have reduced := @roundUnits_mul units 1 _ (power 10 (by omega))
    rw [Nat.one_mul] at reduced
    rw [reduced, roundUnits_of_representable fits]
  rw [ofDecimal_eq false _ digits, if_neg (by omega), if_neg (by omega), ofPower,
    if_neg (by omega), Int.neg_neg, Int.toNat_natCast, ofFraction, round, one, Nat.pow_eq,
    Nat.mul_assoc, ← tens, whole, ofUnits, dif_pos fits]

end Binary64

namespace Number

/-! ### The decimal that is written -/

theorem exactDecimal_reads {units : Nat} (fits : Representable units) (nonzero : units ≠ 0) :
    (exactDecimal units).toBinary64 false = .finite false units fits := by
  obtain ⟨k, one, bits⟩ := Binary64.unitsOfOne_eq
  obtain ⟨top, most⟩ : ∃ top, top = 2098 := ⟨_, rfl⟩
  have bound : units < 2 ^ top := (Nat.log2_lt nonzero).1 (most ▸ fits.1)
  have high : 2 ^ top ≤ 2 ^ k * 10 ^ 310 := by
    rw [bits, most]
    decide +kernel
  have low : 10 ^ 744 ≤ 5 ^ k := by
    rw [bits]
    decide +kernel
  have exponent : (-1074 : Int) = -k := by omega
  rw [Decimal.toBinary64, exactDecimal, exponent, ← bits, Nat.pow_eq]
  exact Binary64.ofDecimal_of_units fits nonzero one bound high low (by omega) (by omega) (by omega)
    (by omega)

theorem nearestOn_reads {units : Nat} {x : Binary64} {exponent : Int} {d : Decimal}
    (found : nearestOn units x exponent = some d) : d.toBinary64 false = x := by
  unfold nearestOn at found
  dsimp only at found
  split at found
  next both =>
    obtain ⟨low, high⟩ := Bool.and_eq_true_iff.1 both
    split at found
    · cases found
      exact of_decide_eq_true low
    · cases found
      exact of_decide_eq_true high
    · split at found
      · cases found
        exact of_decide_eq_true low
      · cases found
        exact of_decide_eq_true high
  next =>
    split at found
    next low =>
      cases found
      exact of_decide_eq_true low
    next =>
      split at found
      next high =>
        cases found
        exact of_decide_eq_true high
      next => cases found

/-- The decimal that a finite number other than zero is written as reads as this number. -/
theorem shortest_reads {units : Nat} (fits : Representable units) (nonzero : units ≠ 0) :
    (shortest units (.finite false units fits)).toBinary64 false = .finite false units fits := by
  unfold shortest
  dsimp only
  cases found : (List.range 17).findSome? fun (k : Nat) =>
      nearestOn units (.finite false units fits) (leadingPlace units - (k : Int)) with
  | none => exact exactDecimal_reads fits nonzero
  | some d =>
    obtain ⟨k, _, near⟩ := List.exists_of_findSome?_eq_some found
    exact nearestOn_reads near

end Number

end Colloquy
