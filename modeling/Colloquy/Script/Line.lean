import Colloquy.Text.Line
import Colloquy.Text.Characters
/-!
# Lines of a script

A line is measured and stripped before it is read: tabs become spaces, the indent is counted, and
an id between two at-signs at the end is taken off. Blank lines and lines that begin with a hash
sign say nothing. Three equals signs open or close the header.
-/

namespace Colloquy.Script

/-- A line without indent, blanks around it and text id. -/
structure Line where
  number : Nat
  indent : Nat
  body : List Char
  textId : String
  deriving DecidableEq

/-- What is left of a line once it is measured. -/
inductive Scanned where
  | empty
  | delimiter
  | line (l : Line)
  deriving DecidableEq

/-- Whether a text without blanks around it says nothing. -/
def isSilent (s : List Char) : Bool :=
  s.isEmpty || s.head? = some '#'

/-- A text without the id at its end, and the id, empty if there is none. -/
def splitId (s : List Char) : List Char × String :=
  match s.reverse with
  | '@' :: rest =>
    let id := rest.takeWhile Text.isWord
    match rest.dropWhile Text.isWord with
    | '@' :: before =>
      if id.isEmpty then (s, "")
      else (Text.trimRight before.reverse, String.ofList id.reverse)
    | _ => (s, "")
  | _ => (s, "")

/-- Measures and strips a line. -/
def scan (tabWidth number : Nat) (raw : List Char) : Scanned :=
  let line := Text.expandTabs tabWidth (Text.trimRight raw)
  let stripped := Text.trimLeft line
  if isSilent stripped then .empty
  else if stripped = ['=', '=', '='] then .delimiter
  else
    let (body, textId) := splitId stripped
    .line ⟨number, line.length - stripped.length, body, textId⟩

/-- Whether the next line that says something begins an option. -/
def optionNext : List (List Char) → Bool
  | [] => false
  | raw :: rest =>
    let stripped := Text.trim raw
    if isSilent stripped then optionNext rest else stripped.head? = some '*'

end Colloquy.Script
