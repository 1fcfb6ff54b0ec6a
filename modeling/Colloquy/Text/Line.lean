import Colloquy.Text.Characters
/-!
# Trimming and lines

A trimmed text keeps what stands between the first and the last character that is not blank. A text is
cut into lines at every line boundary Unicode knows, a carriage return with its line feed counting as
one. A boundary at the end of the text opens no further line. Tabs move to the next column that is a
multiple of the tab width.
-/

namespace Colloquy.Text

/-- The text without the blanks at its start. -/
def trimLeft (s : List Char) : List Char :=
  s.dropWhile isBlank

/-- The text without the blanks at its end. -/
def trimRight (s : List Char) : List Char :=
  (s.reverse.dropWhile isBlank).reverse

/-- The text without the blanks at its ends. -/
def trim (s : List Char) : List Char :=
  trimRight (trimLeft s)

/-- `trim` on strings. -/
def trimString (s : String) : String :=
  String.ofList (trim s.toList)

/-- A character that ends a line. -/
def endsLine (c : Char) : Bool :=
  let n := c.toNat
  (10 ≤ n && n ≤ 13) || (28 ≤ n && n ≤ 30) || n = 0x85 || n = 0x2028 || n = 0x2029

/-- The lines of a text, the characters of the line begun so far being `line`, last first. -/
def linesFrom (line : List Char) : List Char → List (List Char)
  | [] => if line.isEmpty then [] else [line.reverse]
  | '\r' :: '\n' :: rest => line.reverse :: linesFrom [] rest
  | c :: rest =>
    if endsLine c then line.reverse :: linesFrom [] rest else linesFrom (c :: line) rest

/-- The lines of a text, without what ends them. -/
def lines (text : List Char) : List (List Char) :=
  linesFrom [] text

/-- Tabs replaced by spaces in a line, `column` being where it goes on. -/
def expandTabsFrom (width : Nat) (column : Nat) : List Char → List Char
  | [] => []
  | c :: rest =>
    if c = '\t' then
      let gap := if width = 0 then 0 else width - column % width
      List.replicate gap ' ' ++ expandTabsFrom width (column + gap) rest
    else
      c :: expandTabsFrom width (column + 1) rest

/-- A line with every tab replaced by the spaces it stands for. -/
def expandTabs (width : Nat) (line : List Char) : List Char :=
  expandTabsFrom width 0 line

/-- A text with every carriage return, alone or before a line feed, replaced by a line feed. -/
def unifyNewlines : List Char → List Char
  | [] => []
  | '\r' :: '\n' :: rest => '\n' :: unifyNewlines rest
  | c :: rest => (if c = '\r' then '\n' else c) :: unifyNewlines rest

end Colloquy.Text
