/-!
# Binary floating point numbers of 64 bits

A finite number is a whole number of units of 2^-1074 with a sign, of at most 53 significant bits,
below 2^1024. Every operation takes the exact result as a fraction of such units and rounds it
once: to the nearest number, a tie going to the one whose last significant bit is zero.
-/

namespace Colloquy

/-- Numbers of units that a finite number can have: 2098 bits at most, of which 53 are
significant. -/
def Representable (units : Nat) : Prop :=
  units.log2 < 2098 ∧ units % Nat.pow 2 (units.log2 - 52) = 0

instance (units : Nat) : Decidable (Representable units) :=
  inferInstanceAs (Decidable (_ ∧ _))

theorem representable_zero : Representable 0 :=
  ⟨by decide, Nat.zero_mod _⟩

/-- A floating point number; zero has a sign, and so has infinity. -/
inductive Binary64 where
  | finite (negative : Bool) (units : Nat) (fits : Representable units)
  | infinite (negative : Bool)
  | nan
  deriving DecidableEq

namespace Binary64

/-- The units in the number one. -/
def unitsOfOne : Nat := Nat.pow 2 1074

/-! ### Rounding -/

/-- The whole number nearest to `num / den`, a tie going to the even one. -/
def roundDiv (num den : Nat) : Nat :=
  let q := num / den
  let r := num % den
  if 2 * r < den then q else if 2 * r > den then q + 1 else q + q % 2

/-- The nearest number of units of at most 53 significant bits to `num / den`. -/
def roundUnits (num den : Nat) : Nat :=
  let scale := Nat.pow 2 ((num / den).log2 - 52)
  roundDiv num (den * scale) * scale

/-- The number of so many units, infinite if there is none as large. -/
def ofUnits (negative : Bool) (units : Nat) : Binary64 :=
  if h : Representable units then .finite negative units h else .infinite negative

/-- The number nearest to `num / den` units. -/
def round (negative : Bool) (num den : Nat) : Binary64 :=
  ofUnits negative (roundUnits num den)

/-- The zero of a sign. -/
def zero (negative : Bool) : Binary64 :=
  .finite negative 0 representable_zero

/-- The number nearest to a fraction of whole numbers. -/
def ofFraction (negative : Bool) (num den : Nat) : Binary64 :=
  round negative (num * unitsOfOne) den

/-- The number nearest to a whole number. -/
def ofInt (n : Int) : Binary64 :=
  ofFraction (n < 0) n.natAbs 1

/-- The number nearest to `digits · 10 ^ exponent`. Exponents that no digits of that length can
bring back into range are decided without computing the power. -/
def ofDecimal (negative : Bool) (digits : Nat) (exponent : Int) : Binary64 :=
  let places : Int := (Nat.toDigits 10 digits).length + exponent
  if digits = 0 then zero negative
  else if places > 310 then .infinite negative
  else if places < -330 then zero negative
  else if exponent ≥ 0 then ofFraction negative (digits * Nat.pow 10 exponent.toNat) 1
  else ofFraction negative digits (Nat.pow 10 (-exponent).toNat)

/-! ### Sign and order -/

/-- A number with the sign changed. -/
def neg : Binary64 → Binary64
  | .finite s u h => .finite (!s) u h
  | .infinite s => .infinite (!s)
  | .nan => .nan

/-- A number of units with its sign. -/
def signed (negative : Bool) (units : Nat) : Int :=
  if negative then -(units : Int) else units

/-- How two numbers compare; none if one of them is `nan`. -/
def compare? : Binary64 → Binary64 → Option Ordering
  | .nan, _ => none
  | _, .nan => none
  | .infinite s, .infinite t => some (if s = t then .eq else if s then .lt else .gt)
  | .infinite s, .finite _ _ _ => some (if s then .lt else .gt)
  | .finite _ _ _, .infinite t => some (if t then .gt else .lt)
  | .finite s u _, .finite t v _ => some (compare (signed s u) (signed t v))

/-- How a whole number compares with a floating point number, exactly; none for `nan`. -/
def compareInt? (n : Int) : Binary64 → Option Ordering
  | .finite s u _ => some (compare (n * unitsOfOne) (signed s u))
  | .infinite s => some (if s then .gt else .lt)
  | .nan => none

/-- Whether a number is zero, of either sign. -/
def isZero : Binary64 → Bool
  | .finite _ u _ => u = 0
  | _ => false

/-! ### Arithmetic -/

/-- The sum, rounded. A sum of zero has a minus sign only if both terms have one. -/
def add : Binary64 → Binary64 → Binary64
  | .finite s u _, .finite t v _ =>
    let sum := signed s u + signed t v
    if sum = 0 then zero (s && t) else round (sum < 0) sum.natAbs 1
  | .infinite s, .infinite t => if s = t then .infinite s else .nan
  | .infinite s, .finite _ _ _ => .infinite s
  | .finite _ _ _, .infinite t => .infinite t
  | _, _ => .nan

/-- The difference, rounded. -/
def sub (x y : Binary64) : Binary64 :=
  x.add y.neg

/-- The product, rounded. -/
def mul : Binary64 → Binary64 → Binary64
  | .finite s u _, .finite t v _ => round (s != t) (u * v) unitsOfOne
  | .infinite s, .infinite t => .infinite (s != t)
  | .infinite s, .finite t v _ => if v = 0 then .nan else .infinite (s != t)
  | .finite s u _, .infinite t => if u = 0 then .nan else .infinite (s != t)
  | _, _ => .nan

/-- The quotient, rounded. -/
def div : Binary64 → Binary64 → Binary64
  | .finite s u _, .finite t v _ =>
    if v = 0 then (if u = 0 then .nan else .infinite (s != t))
    else round (s != t) (u * unitsOfOne) v
  | .infinite s, .finite t _ _ => .infinite (s != t)
  | .finite s _ _, .infinite t => zero (s != t)
  | _, _ => .nan

/-- The remainder of the division that rounds the quotient down, so with the divisor's sign; a
remainder of zero has that sign too. The remainder toward zero is taken first and is exact. -/
def mod : Binary64 → Binary64 → Binary64
  | .finite s u _, .finite t v _ =>
    if v = 0 then .nan
    else
      let r := u % v
      if r = 0 then zero t
      else if s = t then ofUnits s r
      else (ofUnits s r).add (ofUnits t v)
  | x@(.finite s u _), .infinite t =>
    if u = 0 then zero t else if s = t then x else .infinite t
  | _, _ => .nan

/-! ### Whole numbers -/

/-- Whether a number is finite. -/
def isFinite : Binary64 → Bool
  | .finite .. => true
  | _ => false

/-- Whether a number is finite and whole. -/
def isWhole : Binary64 → Bool
  | .finite _ u _ => u % unitsOfOne = 0
  | _ => false

/-- A finite number without its fraction. -/
def truncate? : Binary64 → Option Int
  | .finite s u _ => some (signed s (u / unitsOfOne))
  | _ => none

end Binary64

end Colloquy
