import Colloquy.Text.Line
import Colloquy.Text.Characters
/-!
# Whole numbers as text

Numerals in base ten, of any writing system when read and of ASCII when written. A numeral of more
than `digitLimit` digits is neither read nor written.
-/

namespace Colloquy.Number

/-- The number of digits that a numeral may have. -/
def digitLimit : Nat := 4300

/-- Whether a number has more digits than a numeral may have. -/
def exceedsDigitLimit (n : Int) : Bool :=
  Nat.pow 10 digitLimit ≤ n.natAbs

/-- The numeral of a natural number. -/
def natText (n : Nat) : String :=
  String.ofList (Nat.toDigits 10 n)

/-- The numeral of a whole number. -/
def intText (n : Int) : String :=
  if n < 0 then "-" ++ natText n.natAbs else natText n.natAbs

/-- Why a text is no numeral. -/
inductive NumeralError where
  | malformed
  | tooManyDigits
  deriving DecidableEq

/-- Blanks that may stand around a numeral: all but the information separators of ASCII. -/
def isMargin (c : Char) : Bool :=
  Text.isBlank c && !(28 ≤ c.toNat && c.toNat ≤ 31)

/-- A text without the blanks around a numeral. -/
def trimMargin (s : List Char) : List Char :=
  ((s.dropWhile isMargin).reverse.dropWhile isMargin).reverse

/-- A sign at the start of a text, true if it is a minus, and the rest. -/
def readSign : List Char → Bool × List Char
  | '-' :: rest => (true, rest)
  | '+' :: rest => (false, rest)
  | rest => (false, rest)

/-- The digits at the start of a text and the rest. A single underscore may stand between two
digits; `after` says whether a digit has just been read. -/
def readDigits (after : Bool) : List Char → List Char × List Char
  | [] => ([], [])
  | '_' :: c :: rest =>
    if after && Text.isDigit c then
      let (digits, tail) := readDigits true rest
      (c :: digits, tail)
    else ([], '_' :: c :: rest)
  | c :: rest =>
    if Text.isDigit c then
      let (digits, tail) := readDigits true rest
      (c :: digits, tail)
    else ([], c :: rest)

/-- The whole number that a text writes. -/
def readInt (text : String) : Except NumeralError Int :=
  let (negative, body) := readSign (trimMargin text.toList)
  let (digits, rest) := readDigits false body
  if digits.isEmpty || !rest.isEmpty then .error .malformed
  else if digits.length > digitLimit then .error .tooManyDigits
  else
    let n : Int := Text.numeralValue digits
    .ok (if negative then -n else n)

end Colloquy.Number
