import Colloquy.Number.Binary64
import Colloquy.Number.Numeral
/-!
# Floating point numbers as decimal text

A number is written with the fewest digits that read back as the same number, the nearest such
decimal if there are two. From 10^-4 up to 10^16 it is written positionally, with at least one
digit on each side of the point; beyond that with an exponent of at least two digits.
-/

namespace Colloquy.Number

/-- The decimal `digits · 10 ^ exponent`. -/
structure Decimal where
  digits : Nat
  exponent : Int
  deriving DecidableEq

/-- The number that a decimal reads as. -/
def Decimal.toBinary64 (d : Decimal) (negative : Bool) : Binary64 :=
  Binary64.ofDecimal negative d.digits d.exponent

/-! ### The fewest digits that read back -/

/-- The power of ten at the first digit of `units / 2 ^ 1074`, for a number of units not zero. -/
def leadingPlace (units : Nat) : Int :=
  let one := Binary64.unitsOfOne
  if one ≤ units then (Nat.toDigits 10 (units / one)).length - 1
  else -(Nat.toDigits 10 ((one + units - 1) / units - 1)).length

/-- The greatest multiple of `10 ^ exponent` that is at most `units / 2 ^ 1074`. -/
def below (units : Nat) (exponent : Int) : Decimal :=
  let one := Binary64.unitsOfOne
  let digits :=
    if exponent ≥ 0 then units / (one * Nat.pow 10 exponent.toNat)
    else units * Nat.pow 10 (-exponent).toNat / one
  ⟨digits, exponent⟩

/-- Twice the rest of `units / 2 ^ 1074` above a decimal below it, compared with the next step of
the decimal grid. -/
def restAbove (units : Nat) (d : Decimal) : Ordering :=
  let one := Binary64.unitsOfOne
  if d.exponent ≥ 0 then
    let step := one * Nat.pow 10 d.exponent.toNat
    compare (2 * (units - d.digits * step)) step
  else
    compare (2 * (units * Nat.pow 10 (-d.exponent).toNat - d.digits * one)) one

/-- Of the two neighbours of a number on a decimal grid the one that reads back as the number, the
nearer one if both do, and of two equally near ones the even one. -/
def nearestOn (units : Nat) (x : Binary64) (exponent : Int) : Option Decimal :=
  let low := below units exponent
  let high : Decimal := ⟨low.digits + 1, exponent⟩
  let lowReads : Bool := low.toBinary64 false = x
  let highReads : Bool := high.toBinary64 false = x
  if lowReads && highReads then
    match restAbove units low with
    | .lt => some low
    | .gt => some high
    | .eq => some (if low.digits % 2 = 0 then low else high)
  else if lowReads then some low
  else if highReads then some high
  else none

/-- A number of units as the decimal it equals. -/
def exactDecimal (units : Nat) : Decimal :=
  ⟨units * Nat.pow 5 1074, -1074⟩

/-- The decimal with the fewest digits that reads back as the number. -/
def shortest (units : Nat) (x : Binary64) : Decimal :=
  let place := leadingPlace units
  ((List.range 17).findSome? fun (k : Nat) => nearestOn units x (place - (k : Int))).getD
    (exactDecimal units)

/-! ### Layout -/

/-- Digits without the zeros at their end, and how many were left out. -/
def dropZeros (digits : List Char) : List Char × Nat :=
  let kept := (digits.reverse.dropWhile (· = '0')).reverse
  (kept, digits.length - kept.length)

/-- The exponent of a number, with a sign and at least two digits. -/
def exponentText (e : Int) : List Char :=
  let digits := Nat.toDigits 10 e.natAbs
  'e' :: (if e < 0 then '-' else '+') :: (if digits.length < 2 then '0' :: digits else digits)

/-- A decimal laid out, `digits` being its digits and `point` how many of them stand before the
point. -/
def layOut (digits : List Char) (point : Int) : List Char :=
  if point ≤ -4 || point > 16 then
    let mantissa :=
      match digits with
      | d :: e :: rest => d :: '.' :: e :: rest
      | ds => ds
    mantissa ++ exponentText (point - 1)
  else if point ≤ 0 then
    '0' :: '.' :: List.replicate (-point).toNat '0' ++ digits
  else
    let n := point.toNat
    if digits.length ≤ n then digits ++ List.replicate (n - digits.length) '0' ++ ['.', '0']
    else digits.take n ++ '.' :: digits.drop n

/-- A decimal other than zero as text. -/
def Decimal.text (d : Decimal) : List Char :=
  let (digits, zeros) := dropZeros (Nat.toDigits 10 d.digits)
  layOut digits (digits.length + zeros + d.exponent)

/-- A floating point number as text. -/
def floatText : Binary64 → String
  | .nan => "nan"
  | .infinite s => if s then "-inf" else "inf"
  | .finite s u h =>
    let body :=
      if u = 0 then ['0', '.', '0'] else (shortest u (.finite false u h)).text
    String.ofList (if s then '-' :: body else body)

/-- A whole floating point number with all its digits and one decimal place. -/
def wholeFloatText : Binary64 → String
  | .finite s u _ =>
    (if s then "-" else "") ++ natText (u / Binary64.unitsOfOne) ++ ".0"
  | x => floatText x

/-! ### Reading -/

/-- The exponent part of a decimal, zero if there is none; none if it is malformed. -/
def readExponent (s : List Char) : Option Int :=
  match s with
  | [] => some 0
  | c :: rest =>
    if c = 'e' || c = 'E' then
      let (negative, body) := readSign rest
      let (digits, tail) := readDigits false body
      if digits.isEmpty || !tail.isEmpty then none
      else
        let n : Int := Text.numeralValue digits
        some (if negative then -n else n)
    else none

/-- The number that an unsigned decimal writes: digits with a point anywhere among them, and an
exponent if there is one. -/
def readDecimal (negative : Bool) (s : List Char) : Option Binary64 :=
  let (whole, rest) := readDigits false s
  let (places, rest) :=
    match rest with
    | '.' :: tail => readDigits false tail
    | tail => ([], tail)
  if whole.isEmpty && places.isEmpty then none
  else
    (readExponent rest).map fun e =>
      Binary64.ofDecimal negative (Text.numeralValue (whole ++ places)) (e - places.length)

/-- The floating point number that a text writes: a decimal, an infinity or `nan`. -/
def readFloat (text : String) : Option Binary64 :=
  let (negative, body) := readSign (trimMargin text.toList)
  let word := String.ofList (body.map Char.toLower)
  if word = "inf" || word = "infinity" then some (.infinite negative)
  else if word = "nan" then some .nan
  else readDecimal negative body

end Colloquy.Number
