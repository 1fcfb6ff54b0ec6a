import Colloquy.Json.Basic
import Colloquy.Number.Decimal
import Colloquy.Text.Quoted
/-!
# JSON values as text

Text is written in ASCII: all other characters, and control characters, become escapes of their
UTF-16 units. A value is written on one line, or with every item and field on a line of its own,
two blanks deeper than what holds it; empty lists and objects stay on one line.
-/

namespace Colloquy.Json

/-- The escape of one UTF-16 unit. -/
def escapeUnit (unit : Nat) : List Char :=
  '\\' :: 'u' :: Text.hexDigits 4 unit

/-- One character inside a written text. -/
def escapeChar (c : Char) : List Char :=
  if c = '"' || c = '\\' then ['\\', c]
  else if c = '\n' then ['\\', 'n']
  else if c = '\r' then ['\\', 'r']
  else if c = '\t' then ['\\', 't']
  else if c = '\x0c' then ['\\', 'f']
  else if c = '\x08' then ['\\', 'b']
  else if 32 ≤ c.toNat && c.toNat < 127 then [c]
  else if c.toNat < 0x10000 then escapeUnit c.toNat
  else
    let above := c.toNat - 0x10000
    escapeUnit (0xD800 + above / 0x400) ++ escapeUnit (0xDC00 + above % 0x400)

/-- A text between its quotes. -/
def writeText (s : String) : String :=
  String.ofList ('"' :: s.toList.flatMap escapeChar ++ ['"'])

/-- A number with a fraction or an exponent; those that are not finite have names. -/
def writeFloat : Binary64 → String
  | .nan => "NaN"
  | .infinite s => if s then "-Infinity" else "Infinity"
  | x => Number.floatText x

mutual

/-- A value on one line. -/
def compact : Json → String
  | .null => "null"
  | .bool b => if b then "true" else "false"
  | .int n => Number.intText n
  | .float x => writeFloat x
  | .text s => writeText s
  | .list items => "[" ++ compactItems items ++ "]"
  | .object fields => "\x7b" ++ compactFields fields ++ "\x7d"

/-- The items of a list on one line. -/
def compactItems : List Json → String
  | [] => ""
  | [item] => compact item
  | item :: rest => compact item ++ "," ++ compactItems rest

/-- The fields of an object on one line. -/
def compactFields : List (String × Json) → String
  | [] => ""
  | [(name, value)] => writeText name ++ ":" ++ compact value
  | (name, value) :: rest => writeText name ++ ":" ++ compact value ++ "," ++ compactFields rest

end

/-- A line break and the blanks that a line starts with, `depth` levels deep. -/
def newLine (depth : Nat) : String :=
  String.ofList ('\n' :: List.replicate (2 * depth) ' ')

mutual

/-- A value on several lines, as what stands `depth` levels deep. -/
def indentedAt (depth : Nat) : Json → String
  | .list [] => "[]"
  | .list items => "[" ++ indentedItems (depth + 1) items ++ newLine depth ++ "]"
  | .object [] => "\x7b\x7d"
  | .object fields => "\x7b" ++ indentedFields (depth + 1) fields ++ newLine depth ++ "\x7d"
  | .null => "null"
  | .bool b => if b then "true" else "false"
  | .int n => Number.intText n
  | .float x => writeFloat x
  | .text s => writeText s

/-- The items of a list, each on a line of its own. -/
def indentedItems (depth : Nat) : List Json → String
  | [] => ""
  | [item] => newLine depth ++ indentedAt depth item
  | item :: rest => newLine depth ++ indentedAt depth item ++ "," ++ indentedItems depth rest

/-- The fields of an object, each on a line of its own. -/
def indentedFields (depth : Nat) : List (String × Json) → String
  | [] => ""
  | [(name, value)] => newLine depth ++ writeText name ++ ": " ++ indentedAt depth value
  | (name, value) :: rest =>
    newLine depth ++ writeText name ++ ": " ++ indentedAt depth value ++ ","
      ++ indentedFields depth rest

end

/-- A value on several lines. -/
def indented (value : Json) : String :=
  indentedAt 0 value

end Colloquy.Json
