import Colloquy.Proofs.Number.Decimal
import Mathlib.Data.Nat.Size
import Mathlib.Tactic.Ring
/-!
# Whole parts of rounded quotients

The quotient of two whole numbers is rounded to a floating point number before its fraction is taken
off. Below 2^53 this can only go wrong where the quotient lies so close under a whole number that it
is rounded up to it; from there on the quotient has no fraction left once it is rounded, so its whole
part has to be a floating point number itself.
-/

namespace Colloquy.Binary64

/-- Whether a quotient lies so far below the next whole number that it is not rounded up to it: by
more than half a unit of the last of 53 significant bits, or by just as much if that is half and the
whole part is even. -/
def ClearOfNext (num den : Nat) : Prop :=
  den < 2 ^ (54 - (num / den).size) * (den - num % den)
    ∨ 2 * (num % den) = den ∧ num / den % 2 = 0

/-- Whether the whole part of a quotient is that of the quotient rounded. -/
structure KeepsWhole (num den : Nat) : Prop where
  fits : Representable (num / den * unitsOfOne)
  clear : num / den < 2 ^ 53 → ClearOfNext num den

/-! ### Rounding once -/

theorem le_roundDiv (num den : Nat) : num / den ≤ roundDiv num den := by
  unfold roundDiv
  dsimp only
  split
  · exact Nat.le_refl _
  · split <;> omega

theorem roundDiv_le_iff {num den n : Nat} (positive : 0 < den) :
    roundDiv num den ≤ n
      ↔ 2 * num < (2 * n + 1) * den ∨ 2 * num = (2 * n + 1) * den ∧ n % 2 = 0 := by
  have whole : den * (num / den) + num % den = num := Nat.div_add_mod num den
  have left : num % den < den := Nat.mod_lt num positive
  have odd : (2 * n + 1) * den = 2 * (den * n) + den := by
    rw [Nat.add_mul, Nat.one_mul, Nat.mul_assoc, Nat.mul_comm n den]
  rw [odd]
  obtain below | same | above := Nat.lt_trichotomy (num / den) n
  · have most := roundDiv_le num den
    have step : den * (num / den) + den ≤ den * n := Nat.mul_le_mul_left den below
    exact ⟨fun _ => .inl (by omega), fun _ => by omega⟩
  · subst same
    unfold roundDiv
    dsimp only
    split
    · exact ⟨fun _ => .inl (by omega), fun _ => Nat.le_refl _⟩
    · split
      · exact ⟨fun _ => by omega, fun _ => by omega⟩
      · exact ⟨fun _ => .inr ⟨by omega, by omega⟩, fun _ => by omega⟩
  · have least := le_roundDiv num den
    have step : den * n + den ≤ den * (num / den) := Nat.mul_le_mul_left den above
    exact ⟨fun _ => by omega, fun _ => by omega⟩

/-- With `t` bits after the point a quotient is not rounded up to the next whole number. -/
theorem roundDiv_lt_next {num den t : Nat} (positive : 0 < den) :
    roundDiv (num * 2 ^ t) den < (num / den + 1) * 2 ^ t
      ↔ den < 2 ^ (t + 1) * (den - num % den)
        ∨ t = 0 ∧ 2 * (num % den) = den ∧ num / den % 2 = 0 := by
  have whole : den * (num / den) + num % den = num := Nat.div_add_mod num den
  have left : num % den < den := Nat.mod_lt num positive
  have power : 0 < 2 ^ t := Nat.two_pow_pos t
  obtain ⟨n, next⟩ : ∃ n, (num / den + 1) * 2 ^ t = n + 1 :=
    ⟨_, (Nat.sub_add_cancel (Nat.mul_pos (Nat.succ_pos _) power)).symm⟩
  -- everything in terms of the whole part, of what is left and of the divisor, each scaled
  have twice : 2 * (num * 2 ^ t) = 2 * (den * (num / den) * 2 ^ t) + 2 * (num % den * 2 ^ t) := by
    conv_lhs => rw [← whole]
    rw [Nat.add_mul, Nat.mul_add]
  have limit : (2 * n + 1) * den + den = 2 * (den * (num / den) * 2 ^ t) + 2 * (den * 2 ^ t) := by
    calc (2 * n + 1) * den + den = 2 * ((n + 1) * den) := by ring
      _ = 2 * ((num / den + 1) * 2 ^ t * den) := by rw [next]
      _ = 2 * (den * (num / den) * 2 ^ t) + 2 * (den * 2 ^ t) := by ring
  have gap : 2 ^ (t + 1) * (den - num % den) + 2 * (num % den * 2 ^ t) = 2 * (den * 2 ^ t) := by
    calc 2 ^ (t + 1) * (den - num % den) + 2 * (num % den * 2 ^ t)
        = 2 * ((den - num % den + num % den) * 2 ^ t) := by ring
      _ = 2 * (den * 2 ^ t) := by rw [Nat.sub_add_cancel left.le]
  rw [next, Nat.lt_succ_iff, roundDiv_le_iff positive]
  refine or_congr (by omega) ?_
  cases t with
  | zero =>
    simp only [Nat.pow_zero, Nat.mul_one] at next twice limit
    omega
  | succ t =>
    -- the number below the next whole one is odd on a scale of two and more
    have even : (num / den + 1) * 2 ^ (t + 1) = 2 * ((num / den + 1) * 2 ^ t) := by ring
    omega

/-! ### Rounding a quotient -/

/-- The whole part of a quotient in units. -/
theorem units_div (num den k : Nat) : num * 2 ^ k / den / 2 ^ k = num / den := by
  rw [Nat.div_div_eq_div_mul, Nat.mul_div_mul_right _ _ (Nat.two_pow_pos k)]

/-- Where the last significant bit is worth less than one, rounding keeps the whole part of a quotient
that is clear of the next whole number. -/
theorem roundUnits_fine {num den k t : Nat} (positive : 0 < den)
    (scale : (num * 2 ^ k / den).log2 - 52 + t = k) :
    roundUnits (num * 2 ^ k) den / 2 ^ k = num / den
      ↔ roundDiv (num * 2 ^ t) den < (num / den + 1) * 2 ^ t := by
  have low : num / den * 2 ^ t ≤ roundDiv (num * 2 ^ t) den := by
    have least := le_roundDiv (num * 2 ^ t) den
    have whole := Nat.div_mul_le_self num den
    refine Nat.le_trans ?_ least
    rw [Nat.le_div_iff_mul_le positive, Nat.mul_right_comm]
    exact Nat.mul_le_mul_right _ whole
  unfold roundUnits
  simp only [Nat.pow_eq]
  set s := (num * 2 ^ k / den).log2 - 52 with scaled
  rw [← scale, Nat.add_comm s t, Nat.pow_add, ← Nat.mul_assoc num, roundDiv_mul (Nat.two_pow_pos s),
    Nat.mul_div_mul_right _ _ (Nat.two_pow_pos s)]
  rw [← Nat.div_lt_iff_lt_mul (Nat.two_pow_pos t), Nat.lt_succ_iff]
  have least := (Nat.le_div_iff_mul_le (Nat.two_pow_pos t)).2 low
  exact ⟨fun same => same.le, fun most => Nat.le_antisymm most least⟩

theorem size_eq_log2 {n : Nat} (some : n ≠ 0) : n.size = n.log2 + 1 :=
  Nat.le_antisymm (Nat.size_le.2 Nat.lt_log2_self) (Nat.lt_size.2 (Nat.log2_self_le some))

theorem log2_units {num den : Nat} (k : Nat) (some : num / den ≠ 0) :
    (num * 2 ^ k / den).log2 = (num / den).log2 + k := by
  have whole := units_div num den k
  have positive : num * 2 ^ k / den ≠ 0 := by
    intro zero
    rw [zero, Nat.zero_div] at whole
    exact some whole.symm
  rw [Nat.log2_eq_iff positive, Nat.pow_add, ← Nat.le_div_iff_mul_le (Nat.two_pow_pos k), whole,
    Nat.add_right_comm, Nat.pow_add, ← Nat.div_lt_iff_lt_mul (Nat.two_pow_pos k), whole]
  exact ⟨Nat.log2_self_le some, Nat.lt_log2_self⟩

/-- Where the last significant bit is worth two or more, the quotient is rounded to a whole number,
which is the whole part if and only if the bits beyond the significant ones are all zero in it. -/
theorem roundUnits_coarse {num den k : Nat} (positive : 0 < den) (large : 2 ^ 53 ≤ num / den) :
    ∃ whole, roundUnits (num * 2 ^ k) den = whole * 2 ^ k
      ∧ (whole = num / den ↔ 2 ^ ((num / den).log2 - 52) ∣ num / den) := by
  have some : num / den ≠ 0 := by omega
  have bits : 53 ≤ (num / den).log2 := (Nat.le_log2 some).2 large
  obtain ⟨e, scale⟩ : ∃ e, (num / den).log2 = 52 + e := ⟨_, (Nat.add_sub_of_le (by omega)).symm⟩
  have digits : (num * 2 ^ k / den).log2 - 52 = e + k := by
    rw [log2_units k some, scale]
    omega
  refine ⟨roundDiv num (den * 2 ^ e) * 2 ^ e, ?_, ?_⟩
  · unfold roundUnits
    simp only [Nat.pow_eq]
    rw [digits, Nat.pow_add, ← Nat.mul_assoc den, roundDiv_mul (Nat.two_pow_pos k), Nat.mul_assoc]
  · rw [scale, Nat.add_sub_cancel_left]
    refine ⟨fun same => ⟨_, by rw [Nat.mul_comm, same]⟩, ?_⟩
    rintro ⟨c, product⟩
    have left : num % den < den := Nat.mod_lt num positive
    have double : 2 * den ≤ den * 2 ^ e := by
      rw [Nat.mul_comm]
      exact Nat.mul_le_mul_left den (Nat.le_self_pow (by omega) 2)
    have parts : num / (den * 2 ^ e) = c ∧ num % (den * 2 ^ e) = num % den := by
      refine (Nat.div_mod_unique (by omega)).2 ⟨?_, by omega⟩
      rw [Nat.mul_assoc, ← product]
      exact Nat.mod_add_div num den
    unfold roundDiv
    rw [parts.1, parts.2]
    dsimp only
    rw [if_pos (by omega), product, Nat.mul_comm]

/-- Up to 53 bits before the point, the bits after it decide. -/
theorem clearOfNext_iff {num den t : Nat} (positive : 0 < den)
    (bits : (num / den).size + t = 53) :
    roundDiv (num * 2 ^ t) den < (num / den + 1) * 2 ^ t ↔ ClearOfNext num den := by
  have digits : 54 - (num / den).size = t + 1 := by omega
  rw [roundDiv_lt_next positive, ClearOfNext, digits]
  refine ⟨Or.imp_right And.right, ?_⟩
  rintro (clear | ⟨half, even⟩)
  · exact .inl clear
  · cases t with
    | zero => exact .inr ⟨rfl, half, even⟩
    | succ t =>
      -- a tie on a scale of two and more is far from the next whole number
      have four : 2 ^ 2 ≤ 2 ^ (t + 1 + 1) := Nat.pow_le_pow_right (by omega) (by omega)
      have more := Nat.mul_le_mul_right (den - num % den) four
      exact .inl (by omega)

/-- Below a half there is no danger, at whatever precision. -/
theorem clear_of_half {num den : Nat} (half : 2 * num < den) (t : Nat) :
    den < 2 ^ (t + 1) * (den - num % den) := by
  have all : num % den = num := Nat.mod_eq_of_lt (by omega)
  have two : 2 ^ 1 ≤ 2 ^ (t + 1) := Nat.pow_le_pow_right (by omega) (by omega)
  have more := Nat.mul_le_mul_right (den - num % den) two
  omega

theorem log2_units_of_half {num den k : Nat} (positive : 0 < den) (more : den ≤ 2 * num)
    (below : num * 2 ^ (k + 1) / den < 2 ^ (k + 1)) : (num * 2 ^ (k + 1) / den).log2 = k := by
  have reached : 2 ^ k ≤ num * 2 ^ (k + 1) / den := by
    rw [Nat.le_div_iff_mul_le positive, Nat.pow_succ']
    calc 2 ^ k * den ≤ 2 ^ k * (2 * num) := Nat.mul_le_mul_left _ more
      _ = num * (2 * 2 ^ k) := by ring
  have power := Nat.two_pow_pos k
  exact (Nat.log2_eq_iff (by omega)).2 ⟨reached, below⟩

/-- Below 2^53 a quotient keeps its whole part if it is clear of the next whole number. -/
theorem roundUnits_small {num den k : Nat} (positive : 0 < den) (enough : 54 ≤ k)
    (small : num / den < 2 ^ 53) :
    roundUnits (num * 2 ^ k) den / 2 ^ k = num / den ↔ ClearOfNext num den := by
  have size : (num / den).size ≤ 53 := Nat.size_le.2 small
  -- how many digits are cut off depends on where the first one stands
  by_cases zero : num / den = 0
  · have below : num * 2 ^ k / den < 2 ^ k := by
      have whole := units_div num den k
      rw [zero] at whole
      exact (Nat.div_eq_zero_iff_lt (Nat.two_pow_pos k)).1 whole
    by_cases half : 2 * num < den
    · have short : (num * 2 ^ k / den).log2 ≤ k := by
        by_cases none : num * 2 ^ k / den = 0
        · rw [none, Nat.log2_zero]
          exact Nat.zero_le k
        · exact ((Nat.log2_lt none).2 below).le
      obtain ⟨t, scale⟩ : ∃ t, (num * 2 ^ k / den).log2 - 52 + t = k :=
        ⟨_, Nat.add_sub_of_le (by omega)⟩
      have far : ClearOfNext num den := by
        rw [ClearOfNext, zero]
        exact .inl (clear_of_half half 53)
      rw [roundUnits_fine positive scale, roundDiv_lt_next positive]
      exact ⟨fun _ => far, fun _ => .inl (clear_of_half half t)⟩
    · obtain ⟨j, rfl⟩ : ∃ j, k = j + 1 := ⟨k - 1, by omega⟩
      have first := log2_units_of_half positive (Nat.not_lt.1 half) below
      rw [roundUnits_fine (t := 53) positive (by omega),
        clearOfNext_iff positive (by rw [zero]; rfl)]
  · have width := size_eq_log2 zero
    have scale : (num * 2 ^ k / den).log2 - 52 + (53 - (num / den).size) = k := by
      rw [log2_units k zero]
      omega
    rw [roundUnits_fine positive scale, clearOfNext_iff positive (by omega)]

/-! ### Whole parts -/

/-- A whole number of at most 53 bits is a floating point number. -/
theorem representable_of_small {q : Nat} (small : q ≤ 2 ^ 53) :
    Representable (q * unitsOfOne) := by
  obtain ⟨k, one, bits⟩ := unitsOfOne_eq
  rw [one]
  refine representable_scaled small (Nat.lt_of_le_of_lt (Nat.mul_le_mul_right _ small) ?_)
  rw [← Nat.pow_add]
  exact Nat.pow_lt_pow_right (by omega) (by omega)

/-- A quotient below 2^53 is rounded to a finite number. -/
theorem representable_of_quotient {num den : Nat} (small : num / den < 2 ^ 53) :
    Representable (roundUnits (num * unitsOfOne) den) := by
  obtain ⟨k, one, bits⟩ := unitsOfOne_eq
  have below : num * 2 ^ k / den < 2 ^ (53 + k) := by
    rw [Nat.pow_add, ← Nat.div_lt_iff_lt_mul (Nat.two_pow_pos k), units_div]
    exact small
  rw [one]
  refine representable_roundUnits (Nat.lt_of_lt_of_le below ?_)
  exact Nat.pow_le_pow_right (by omega) (by omega)

/-- From 2^53 on the significant bits of a whole number have to be all that it has. -/
theorem representable_iff_dvd {q : Nat} (large : 2 ^ 53 ≤ q) :
    Representable (q * unitsOfOne) ↔ (q * unitsOfOne).log2 < 2098 ∧ 2 ^ (q.log2 - 52) ∣ q := by
  obtain ⟨k, one, bits⟩ := unitsOfOne_eq
  have some : q ≠ 0 := by omega
  have log : (q * 2 ^ k).log2 = q.log2 + k := by
    have whole : q / 1 ≠ 0 := by rwa [Nat.div_one]
    have units := log2_units k whole
    rwa [Nat.div_one, Nat.div_one] at units
  have high : 53 ≤ q.log2 := (Nat.le_log2 some).2 large
  have digits : q.log2 + k - 52 = q.log2 - 52 + k := by omega
  rw [one, Representable, Nat.pow_eq, log, digits, Nat.pow_add]
  refine and_congr_right fun _ => ?_
  rw [← Nat.dvd_iff_mod_eq_zero]
  exact Nat.mul_dvd_mul_iff_right (Nat.two_pow_pos k)

theorem signed_inj {negative : Bool} {m n : Nat} : signed negative m = signed negative n ↔ m = n := by
  cases negative <;> simp [signed]

theorem truncate?_ofUnits {negative : Bool} {units n : Nat} :
    (ofUnits negative units).truncate? = some (signed negative n)
      ↔ Representable units ∧ units / unitsOfOne = n := by
  unfold ofUnits
  split
  next fits => simp [truncate?, signed_inj, fits]
  next large => simp [truncate?, large]

/-- The whole part of a rounded quotient is that of the quotient itself if and only if it is kept. -/
theorem truncate?_ofFraction {num den : Nat} (positive : 0 < den) (negative : Bool) :
    (ofFraction negative num den).truncate? = some (signed negative (num / den))
      ↔ KeepsWhole num den := by
  obtain ⟨k, one, bits⟩ := unitsOfOne_eq
  rw [ofFraction, round, truncate?_ofUnits]
  by_cases small : num / den < 2 ^ 53
  · have clear := roundUnits_small positive (k := k) (by omega) small
    rw [← one] at clear
    rw [clear, and_iff_right (representable_of_quotient small)]
    exact ⟨fun clear => ⟨representable_of_small small.le, fun _ => clear⟩,
      fun keeps => keeps.clear small⟩
  · obtain ⟨whole, rounded, exact⟩ := roundUnits_coarse (k := k) positive (Nat.not_lt.1 small)
    rw [← one] at rounded
    rw [rounded, Nat.mul_div_cancel _ (one ▸ Nat.two_pow_pos k)]
    constructor
    · rintro ⟨fits, rfl⟩
      exact ⟨fits, fun below => absurd below small⟩
    · rintro ⟨fits, _⟩
      have same := exact.2 ((representable_iff_dvd (Nat.not_lt.1 small)).1 fits).2
      exact ⟨same ▸ fits, same⟩

/-- A dividend that is a floating point number itself is divided exactly. -/
theorem keepsWhole_of_small {num den : Nat} (positive : 0 < den) (small : num ≤ 2 ^ 53) :
    KeepsWhole num den := by
  have whole : den * (num / den) + num % den = num := Nat.div_add_mod num den
  have left : num % den < den := Nat.mod_lt num positive
  refine ⟨representable_of_small ((Nat.div_le_self num den).trans small), fun below => .inl ?_⟩
  by_cases zero : num / den = 0
  · rw [zero, Nat.size_zero]
    omega
  obtain ⟨t, bits⟩ : ∃ t, (num / den).log2 + t = 52 := by
    have few : (num / den).log2 < 53 := (Nat.log2_lt zero).2 below
    exact ⟨_, Nat.add_sub_of_le (Nat.le_of_lt_succ few)⟩
  have digits : 54 - (num / den).size = t + 1 := by
    rw [size_eq_log2 zero]
    omega
  rw [digits]
  by_cases none : num % den = 0
  · have two : 2 ^ 1 ≤ 2 ^ (t + 1) := Nat.pow_le_pow_right (by omega) (by omega)
    have more := Nat.mul_le_mul_right den two
    rw [none, Nat.sub_zero]
    omega
  · have power : 2 ^ (num / den).log2 * den < 2 ^ (num / den).log2 * 2 ^ (t + 1) := by
      calc 2 ^ (num / den).log2 * den ≤ num / den * den :=
            Nat.mul_le_mul_right den (Nat.log2_self_le zero)
        _ = den * (num / den) := Nat.mul_comm ..
        _ < 2 ^ 53 := by omega
        _ = 2 ^ ((num / den).log2 + (t + 1)) := by rw [← Nat.add_assoc, bits]
        _ = 2 ^ (num / den).log2 * 2 ^ (t + 1) := Nat.pow_add ..
    calc den < 2 ^ (t + 1) := Nat.lt_of_mul_lt_mul_left power
      _ ≤ 2 ^ (t + 1) * (den - num % den) := Nat.le_mul_of_pos_right _ (by omega)

end Colloquy.Binary64
