import Colloquy.Json.Basic
import Colloquy.Number.Numeral
/-!
# JSON values read from text

The reader takes what the standard allows and the three names `NaN`, `Infinity` and `-Infinity`.
Bounds say how deep lists and objects may be nested and whether the digit limit also holds for
numbers that are not whole. A step enters a value or uses up a character, so twice the length of
the text bounds the recursion.
-/

namespace Colloquy.Json

/-- Why a text is no JSON value. -/
inductive ReadError where
  | malformed
  | tooManyDigits
  | tooDeep
  deriving DecidableEq

/-- What a reader puts up with: how many lists and objects that are not empty may be nested, and
whether the whole part of any number is held to the digit limit or only that of a whole number. -/
structure Bounds where
  depth : Nat
  everyNumber : Bool

/-- The bounds for files, which may be nested deep. -/
def Bounds.files : Bounds :=
  ⟨985, false⟩

/-- The bounds for records, which have a few fields and are read strictly. -/
def Bounds.records : Bounds :=
  ⟨200, true⟩

/-- Blanks between the parts of a value. -/
def isGap (c : Char) : Bool :=
  c = ' ' || c = '\t' || c = '\n' || c = '\r'

/-- A text without the blanks at its start. -/
def skipGap (s : List Char) : List Char :=
  s.dropWhile isGap

/-- The rest of a text after a given start. -/
def dropStart? : List Char → List Char → Option (List Char)
  | [], rest => some rest
  | c :: start, d :: rest => if c = d then dropStart? start rest else none
  | _ :: _, [] => none

/-! ### Texts -/

/-- The value of a hexadecimal digit. -/
def hexValue? (c : Char) : Option Nat :=
  if c.isDigit then some (c.toNat - 48)
  else if 'a' ≤ c && c ≤ 'f' then some (c.toNat - 87)
  else if 'A' ≤ c && c ≤ 'F' then some (c.toNat - 55)
  else none

/-- The UTF-16 unit that four hexadecimal digits write. -/
def readUnit : List Char → Option (Nat × List Char)
  | a :: b :: c :: d :: rest => do
    let a ← hexValue? a
    let b ← hexValue? b
    let c ← hexValue? c
    let d ← hexValue? d
    return (((a * 16 + b) * 16 + c) * 16 + d, rest)
  | _ => none

/-- The character after the escape of its first UTF-16 unit has begun: two units make up one
character beyond the first plane, and half of such a pair is no character. -/
def readEscapedUnit (s : List Char) : Option (Char × List Char) := do
  let (unit, rest) ← readUnit s
  if 0xD800 ≤ unit && unit < 0xDC00 then
    let rest ← dropStart? ['\\', 'u'] rest
    let (low, rest) ← readUnit rest
    if 0xDC00 ≤ low && low < 0xE000 then
      return (Char.ofNat (0x10000 + (unit - 0xD800) * 0x400 + (low - 0xDC00)), rest)
    else none
  else if 0xDC00 ≤ unit && unit < 0xE000 then none
  else return (Char.ofNat unit, rest)

/-- The character that an escape of one letter stands for. -/
def unescape? (c : Char) : Option Char :=
  match c with
  | '"' => some '"'
  | '\\' => some '\\'
  | '/' => some '/'
  | 'b' => some '\x08'
  | 'f' => some '\x0c'
  | 'n' => some '\n'
  | 'r' => some '\r'
  | 't' => some '\t'
  | _ => none

/-- The characters up to the closing quote. -/
def readChars : Nat → List Char → Except ReadError (List Char × List Char)
  | 0, _ => .error .malformed
  | _ + 1, [] => .error .malformed
  | _ + 1, '"' :: rest => .ok ([], rest)
  | fuel + 1, '\\' :: 'u' :: rest =>
    match readEscapedUnit rest with
    | none => .error .malformed
    | some (c, rest) => do
      let (chars, rest) ← readChars fuel rest
      return (c :: chars, rest)
  | fuel + 1, '\\' :: e :: rest =>
    match unescape? e with
    | none => .error .malformed
    | some c => do
      let (chars, rest) ← readChars fuel rest
      return (c :: chars, rest)
  | fuel + 1, c :: rest =>
    if c.toNat < 32 || c = '\\' then .error .malformed
    else do
      let (chars, rest) ← readChars fuel rest
      return (c :: chars, rest)

/-- A text after its opening quote. -/
def readText (fuel : Nat) (s : List Char) : Except ReadError (String × List Char) := do
  let (chars, rest) ← readChars fuel s
  return (String.ofList chars, rest)

/-! ### Numbers -/

/-- The whole part of a number: zero, or digits of which the first is not zero. -/
def readWhole (s : List Char) : Option (List Char × List Char) :=
  match s with
  | '0' :: rest => some (['0'], rest)
  | c :: _ =>
    if c.isDigit then some (s.takeWhile Char.isDigit, s.dropWhile Char.isDigit) else none
  | [] => none

/-- The digits after the point, if there is one with a digit after it. -/
def readPlaces (s : List Char) : Option (List Char × List Char) :=
  match s with
  | '.' :: rest =>
    let digits := rest.takeWhile Char.isDigit
    if digits.isEmpty then none else some (digits, rest.dropWhile Char.isDigit)
  | _ => none

/-- The exponent, if there is one with a digit. -/
def readPower (s : List Char) : Option (Int × List Char) :=
  match s with
  | [] => none
  | c :: rest =>
    if c = 'e' || c = 'E' then
      let (negative, body) := Number.readSign rest
      let digits := body.takeWhile Char.isDigit
      if digits.isEmpty then none
      else
        let n : Int := Text.numeralValue digits
        some (if negative then -n else n, body.dropWhile Char.isDigit)
    else none

/-- A number after its sign: whole unless it has places or an exponent. -/
def readNumber (bounds : Bounds) (negative : Bool) (s : List Char) :
    Except ReadError (Json × List Char) :=
  match readWhole s with
  | none => .error .malformed
  | some (whole, rest) =>
    let beyond := whole.length > Number.digitLimit
    if beyond && bounds.everyNumber then .error .tooManyDigits
    else match readPlaces rest, readPower rest with
    | none, none =>
      if beyond then .error .tooManyDigits
      else
        let n : Int := Text.numeralValue whole
        .ok (.int (if negative then -n else n), rest)
    | none, some (e, rest) =>
      .ok (.float (Binary64.ofDecimal negative (Text.numeralValue whole) e), rest)
    | some (places, rest), _ =>
      let (e, rest) := (readPower rest).getD (0, rest)
      let digits := Text.numeralValue (whole ++ places)
      .ok (.float (Binary64.ofDecimal negative digits (e - places.length)), rest)

/-! ### Values -/

/-- The values that have a name. -/
def readName (s : List Char) : Option (Json × List Char) :=
  let names : List (String × Json) := [("null", .null), ("true", .bool true),
    ("false", .bool false), ("NaN", .float .nan), ("Infinity", .float (.infinite false)),
    ("-Infinity", .float (.infinite true))]
  names.findSome? fun n => (dropStart? n.1.toList s).map (n.2, ·)

mutual

/-- A value at the start of a text, in which so many lists and objects may be nested. -/
def readValue (bounds : Bounds) (depth : Nat) :
    Nat → List Char → Except ReadError (Json × List Char)
  | 0, _ => .error .malformed
  | fuel + 1, s =>
    match readName s with
    | some result => .ok result
    | none =>
      match s with
      | '"' :: rest => do
        let (t, rest) ← readText fuel rest
        return (.text t, rest)
      | '[' :: rest =>
        match skipGap rest with
        | ']' :: rest => .ok (.list [], rest)
        | rest =>
          match depth with
          | 0 => .error .tooDeep
          | depth + 1 => do
            let (items, rest) ← readItems bounds depth fuel rest
            return (.list items, rest)
      | '\x7b' :: rest =>
        match skipGap rest with
        | '\x7d' :: rest => .ok (.object [], rest)
        | rest =>
          match depth with
          | 0 => .error .tooDeep
          | depth + 1 => do
            let (fields, rest) ← readFields bounds depth fuel rest
            return (.object fields, rest)
      | '-' :: rest => readNumber bounds true rest
      | rest => readNumber bounds false rest

/-- The items of a list up to its closing bracket. -/
def readItems (bounds : Bounds) (depth : Nat) :
    Nat → List Char → Except ReadError (List Json × List Char)
  | 0, _ => .error .malformed
  | fuel + 1, s => do
    let (item, rest) ← readValue bounds depth fuel (skipGap s)
    match skipGap rest with
    | ',' :: rest =>
      let (items, rest) ← readItems bounds depth fuel rest
      return (item :: items, rest)
    | ']' :: rest => return ([item], rest)
    | _ => .error .malformed

/-- The fields of an object up to its closing brace. -/
def readFields (bounds : Bounds) (depth : Nat) :
    Nat → List Char → Except ReadError (List (String × Json) × List Char)
  | 0, _ => .error .malformed
  | fuel + 1, s =>
    match skipGap s with
    | '"' :: rest => do
      let (name, rest) ← readText fuel rest
      match skipGap rest with
      | ':' :: rest =>
        let (value, rest) ← readValue bounds depth fuel (skipGap rest)
        match skipGap rest with
        | ',' :: rest =>
          let (fields, rest) ← readFields bounds depth fuel rest
          return ((name, value) :: fields, rest)
        | '\x7d' :: rest => return ([(name, value)], rest)
        | _ => .error .malformed
      | _ => .error .malformed
    | _ => .error .malformed

end

/-- The value that a text writes, fields that are named twice included. -/
def readAll (bounds : Bounds) (text : String) : Except ReadError Json := do
  let s := text.toList
  let (value, rest) ← readValue bounds bounds.depth (2 * s.length + 2) (skipGap s)
  if (skipGap rest).isEmpty then return value else .error .malformed

/-- The value that the text of a file writes. -/
def read (text : String) : Except ReadError Json :=
  (readAll .files text).map merge

end Colloquy.Json
