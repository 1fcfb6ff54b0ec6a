import Colloquy.Text.Characters
/-!
# Texts with parameters

A parameter of a text is a dotted name in braces. Finding the parameters of a text and filling them
in go over the same pieces, from left to right; a brace that begins no parameter is a character
like any other, and what is filled in is not looked at again.
-/

namespace Colloquy.Template

/-- A piece of a text: a character that stands for itself, or a parameter. -/
inductive Piece where
  | char (c : Char)
  | param (name : List Char)
  deriving DecidableEq

/-- The parameter that begins after an opening brace. -/
def paramAt? (s : List Char) : Option (List Char) :=
  let name := s.takeWhile Text.isDotted
  if name ≠ [] ∧ (s.dropWhile Text.isDotted).head? = some '\x7d' then some name else none

/-- The pieces of a text after `skip` characters, which belong to a parameter already found. -/
def piecesAfter (skip : Nat) : List Char → List Piece
  | [] => []
  | c :: rest =>
    match skip with
    | skip + 1 => piecesAfter skip rest
    | 0 =>
      match if c = '\x7b' then paramAt? rest else none with
      | some name => .param name :: piecesAfter (name.length + 1) rest
      | none => .char c :: piecesAfter 0 rest

/-- The pieces of a text. -/
def pieces (text : String) : List Piece :=
  piecesAfter 0 text.toList

/-- The name of a piece that is a parameter. -/
def Piece.name? : Piece → Option String
  | .char _ => none
  | .param name => some (String.ofList name)

/-- The parameters of a text, each once, in the order in which they first occur. -/
def params (text : String) : List String :=
  ((pieces text).filterMap Piece.name?).eraseDups

/-- A piece as it was written. -/
def Piece.source : Piece → List Char
  | .char c => [c]
  | .param name => '\x7b' :: name ++ ['\x7d']

/-- A piece with a parameter filled in, if `value` knows it. -/
def Piece.fill (value : String → Option String) : Piece → List Char
  | .char c => [c]
  | .param name =>
    match value (String.ofList name) with
    | some text => text.toList
    | none => (Piece.param name).source

/-- A text with its parameters filled in; those that `value` does not know stay as they are. -/
def fill (value : String → Option String) (text : String) : String :=
  String.ofList ((pieces text).flatMap (Piece.fill value))

end Colloquy.Template
