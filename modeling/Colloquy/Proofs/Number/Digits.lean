import Colloquy.Number.Decimal
import Mathlib.Algebra.Ring.Nat
import Mathlib.Data.List.TakeWhile
/-!
# Digits

A run of digits writes a number, and the digits of a number write that number. Zeros before a run add
nothing to it; every zero after it multiplies it by ten.
-/

namespace Colloquy

namespace Text

theorem digitValue?_of_isDigit {c : Char} (digit : c.isDigit = true) :
    digitValue? c = some (c.toNat - '0'.toNat) := by
  have range : 48 ≤ c.toNat ∧ c.toNat ≤ 57 := by
    simpa [Char.isDigit, UInt32.le_iff_toNat_le] using digit
  have ascii : c.toNat < 128 := by omega
  rw [digitValue?, if_pos ascii, if_pos digit]
  rfl

theorem isDigit_of_mem_toDigits {n : Nat} {c : Char} (mem : c ∈ Nat.toDigits 10 n) :
    isDigit c = true := by
  rw [isDigit, digitValue?_of_isDigit (Nat.isDigit_of_mem_toDigits (by omega) (by omega) mem)]
  rfl

theorem numeralValue_eq_ofDigitChars {digits : List Char} (all : ∀ c ∈ digits, c.isDigit = true) :
    numeralValue digits = Nat.ofDigitChars 10 digits 0 := by
  have same : ∀ (digits : List Char) (k : Nat), (∀ c ∈ digits, c.isDigit = true) →
      digits.foldl (fun n c => 10 * n + (digitValue? c).getD 0) k
        = Nat.ofDigitChars 10 digits k := by
    intro digits
    induction digits with
    | nil => intro k _; rfl
    | cons c digits ih =>
      intro k all
      obtain ⟨digit, rest⟩ := List.forall_mem_cons.1 all
      rw [List.foldl_cons, ih _ rest, digitValue?_of_isDigit digit]
      rfl
  exact same digits 0 all

theorem numeralValue_toDigits (n : Nat) : numeralValue (Nat.toDigits 10 n) = n := by
  rw [numeralValue_eq_ofDigitChars fun c mem =>
    Nat.isDigit_of_mem_toDigits (by omega) (by omega) mem]
  exact Nat.ofDigitChars_toDigits (by omega) (by omega)

theorem numeralValue_append (left right : List Char) :
    numeralValue (left ++ right) = numeralValue left * 10 ^ right.length + numeralValue right := by
  have shifts (right : List Char) (k : Nat) :
      right.foldl (fun n c => 10 * n + (digitValue? c).getD 0) k
        = k * 10 ^ right.length + numeralValue right := by
    induction right generalizing k with
    | nil => simp [numeralValue]
    | cons c right ih =>
      rw [numeralValue, List.foldl_cons, List.foldl_cons, ih, ih (10 * 0 + _), List.length_cons,
        Nat.pow_succ]
      grind
  rw [numeralValue, List.foldl_append, shifts]
  rfl

theorem numeralValue_zeros (n : Nat) : numeralValue (List.replicate n '0') = 0 := by
  have zeros : ∀ c ∈ List.replicate n '0', c.isDigit = true := by
    intro c member
    rw [List.eq_of_mem_replicate member]
    rfl
  rw [numeralValue_eq_ofDigitChars zeros, Nat.ofDigitChars_replicate_zero, Nat.mul_zero]

end Text

namespace Number

theorem isDigit_toDigits {n : Nat} {c : Char} (member : c ∈ Nat.toDigits 10 n) :
    c.isDigit = true :=
  Nat.isDigit_of_mem_toDigits (by omega) (by omega) member

/-- The digits of a number other than zero begin with one that is not zero. -/
theorem head_toDigits {n : Nat} (positive : n ≠ 0) :
    ∃ c rest, Nat.toDigits 10 n = c :: rest ∧ c ≠ '0' := by
  induction n using Nat.strongRecOn with
  | ind n ih =>
    by_cases single : n < 10
    · refine ⟨n.digitChar, [], Nat.toDigits_of_lt_base single, ?_⟩
      intro zero
      have value := Nat.toNat_digitChar_of_lt_ten single
      rw [zero] at value
      have : '0'.toNat = 48 := rfl
      omega
    · obtain ⟨c, rest, digits, nonzero⟩ := ih (n / 10) (by omega) (by omega)
      refine ⟨c, rest ++ [(n % 10).digitChar], ?_, nonzero⟩
      rw [Nat.toDigits_of_base_le (by omega) (by omega), digits]
      rfl

/-- The digits of a number followed by zeros are those of the number times a power of ten. -/
theorem length_toDigits_shift {n : Nat} (positive : n ≠ 0) (k : Nat) :
    (Nat.toDigits 10 (n * 10 ^ k)).length = (Nat.toDigits 10 n).length + k := by
  induction k with
  | zero => rw [Nat.pow_zero, Nat.mul_one]; rfl
  | succ k ih =>
    have above : 0 < n * 10 ^ k := Nat.mul_pos (Nat.pos_of_ne_zero positive) (Nat.pow_pos (by omega))
    have split : n * 10 ^ (k + 1) = 10 * (n * 10 ^ k) + 0 := by
      rw [Nat.pow_succ]
      grind
    rw [split, ← Nat.toDigits_append_toDigits (by omega) above (by omega), List.length_append, ih,
      Nat.toDigits_zero]
    rfl

/-- Zeros at the end are what is dropped. -/
theorem dropZeros_append (digits : List Char) :
    (dropZeros digits).1 ++ List.replicate (dropZeros digits).2 '0' = digits := by
  have ends := List.takeWhile_append_dropWhile (p := fun c => decide (c = '0')) (l := digits.reverse)
  have zeros : ∀ c ∈ digits.reverse.takeWhile (fun c => decide (c = '0')), c = '0' :=
    fun c member => by simpa using List.mem_takeWhile_imp member
  have split := congrArg List.reverse ends
  rw [List.reverse_append, List.reverse_reverse, List.eq_replicate_of_mem zeros,
    List.reverse_replicate] at split
  have count : (digits.reverse.takeWhile fun c => decide (c = '0')).length
      = digits.length - ((digits.reverse.dropWhile fun c => decide (c = '0')).reverse).length := by
    have lengths := congrArg List.length ends
    rw [List.length_append, List.length_reverse] at lengths
    rw [List.length_reverse]
    omega
  rw [count] at split
  exact split

end Number

end Colloquy
