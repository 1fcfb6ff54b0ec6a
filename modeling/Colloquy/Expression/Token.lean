import Colloquy.Value.Basic
import Colloquy.Text.Line
import Colloquy.Text.Characters
/-!
# Tokens of expressions

An expression is written with literals, variables in braces, operators and round brackets. Words
and symbols may stand for the same operator; a token keeps the operator only.
-/

namespace Colloquy.Expression

/-- The operators. The last two stand before their only operand. -/
inductive Operator where
  | or
  | and
  | eq
  | ne
  | lt
  | gt
  | le
  | ge
  | add
  | sub
  | mul
  | div
  | mod
  | not
  | neg
  deriving DecidableEq

namespace Operator

/-- The sign of an operator in messages. -/
def sign : Operator → String
  | .or => "or"
  | .and => "and"
  | .eq => "=="
  | .ne => "!="
  | .lt => "<"
  | .gt => ">"
  | .le => "<="
  | .ge => ">="
  | .add => "+"
  | .sub => "-"
  | .mul => "*"
  | .div => "/"
  | .mod => "%"
  | .not => "not"
  | .neg => "neg"

/-- How tightly an operator binds. -/
def strength : Operator → Nat
  | .or => 1
  | .and => 2
  | .eq | .ne => 3
  | .lt | .gt | .le | .ge => 4
  | .add | .sub => 5
  | .mul | .div | .mod => 6
  | .not | .neg => 7

/-- Whether an operator has a single operand. -/
def isUnary : Operator → Bool
  | .not | .neg => true
  | _ => false

end Operator

/-- A token of an expression. -/
inductive Token where
  | literal (v : Value)
  | variable (name : String)
  | operator (op : Operator)
  | opening
  | closing
  deriving DecidableEq

/-- Why a text is no expression. -/
inductive ParseError where
  | empty
  | unexpectedCharacter (position : Nat)
  | unknownWord (word : String)
  | missingOperator (operand : Token)
  | unbalancedClosing
  | missingLeftOperand (op : Operator)
  | negationAfterValue
  | incomplete
  | unbalancedOpening
  deriving DecidableEq

/-- Why no expression came of a text: it is none, or a numeral in it is beyond the digit limit. -/
inductive ParseFault where
  | rejected (e : ParseError)
  | tooManyDigits
  deriving DecidableEq

/-- A token inside a message: a literal as a value, a variable as the text of its name. -/
def Token.display : Token → String
  | .literal v => v.display
  | .variable name => Text.quoted name
  | .operator op => Text.quoted op.sign
  | .opening => Text.quoted "("
  | .closing => Text.quoted ")"

/-- What is wrong with the expression `source`. -/
def ParseError.message (source : String) : ParseError → String
  | .empty => "Empty expression"
  | .unexpectedCharacter position =>
    "Unexpected character at " ++ Number.natText position ++ " in '" ++ source ++ "'"
  | .unknownWord word =>
    "Unknown word '" ++ word ++ "' in '" ++ source ++ "' (variables must be written as \x7b"
      ++ word ++ "\x7d)"
  | .missingOperator operand =>
    "Missing operator before " ++ operand.display ++ " in '" ++ source ++ "'"
  | .unbalancedClosing => "Unbalanced ')' in '" ++ source ++ "'"
  | .missingLeftOperand op =>
    "Operator '" ++ op.sign ++ "' is missing its left operand in '" ++ source ++ "'"
  | .negationAfterValue => "'not' cannot follow a value in '" ++ source ++ "'"
  | .incomplete => "Incomplete expression '" ++ source ++ "'"
  | .unbalancedOpening => "Unbalanced '(' in '" ++ source ++ "'"

/-! ### Lexemes -/

/-- A piece of text that makes one token, before its meaning is known. -/
inductive Lexeme where
  | whole (digits : List Char)
  | decimal (digits places : List Char)
  | text (content : List Char)
  | variable (name : List Char)
  | symbol (token : Token)
  | word (letters : List Char)
  deriving DecidableEq

/-- The text up to the closing quote, escapes replaced by the character that they protect. A line
feed cannot be protected. -/
def scanText : List Char → Option (List Char × List Char)
  | [] => none
  | '"' :: rest => some ([], rest)
  | '\\' :: c :: rest =>
    if c = '\n' then none else (scanText rest).map fun r => (c :: r.1, r.2)
  | c :: rest => if c = '\\' then none else (scanText rest).map fun r => (c :: r.1, r.2)

/-- A variable after its opening brace: a dotted name, blanks around it, and a closing brace. -/
def scanVariable (s : List Char) : Option (List Char × List Char) :=
  let body := Text.trimLeft s
  let name := body.takeWhile Text.isDotted
  match Text.trimLeft (body.dropWhile Text.isDotted) with
  | '\x7d' :: rest => if name.isEmpty then none else some (name, rest)
  | _ => none

/-- The operator or bracket at the start of a text, the longest that fits. -/
def scanSymbol : List Char → Option (Token × List Char)
  | '=' :: '=' :: rest => some (.operator .eq, rest)
  | '!' :: '=' :: rest => some (.operator .ne, rest)
  | '<' :: '>' :: rest => some (.operator .ne, rest)
  | '<' :: '=' :: rest => some (.operator .le, rest)
  | '>' :: '=' :: rest => some (.operator .ge, rest)
  | '&' :: '&' :: rest => some (.operator .and, rest)
  | '|' :: '|' :: rest => some (.operator .or, rest)
  | '-' :: rest => some (.operator .sub, rest)
  | '+' :: rest => some (.operator .add, rest)
  | '*' :: rest => some (.operator .mul, rest)
  | '/' :: rest => some (.operator .div, rest)
  | '%' :: rest => some (.operator .mod, rest)
  | '<' :: rest => some (.operator .lt, rest)
  | '>' :: rest => some (.operator .gt, rest)
  | '!' :: rest => some (.operator .not, rest)
  | '=' :: rest => some (.operator .eq, rest)
  | '(' :: rest => some (.opening, rest)
  | ')' :: rest => some (.closing, rest)
  | _ => none

/-- A number at the start of a text: digits, a point after or before them, or between two runs of
them. -/
def scanNumber (s : List Char) : Option (Lexeme × List Char) :=
  let digits := s.takeWhile Text.isDigit
  match s.dropWhile Text.isDigit with
  | '.' :: rest =>
    let places := rest.takeWhile Text.isDigit
    if digits.isEmpty && places.isEmpty then none
    else some (.decimal digits places, rest.dropWhile Text.isDigit)
  | rest => if digits.isEmpty then none else some (.whole digits, rest)

/-- Whether a word may start with a character. -/
def startsWord (c : Char) : Bool :=
  c.isAlpha || c = '_'

/-- The lexeme at the start of a text. -/
def scanLexeme (s : List Char) : Option (Lexeme × List Char) :=
  match scanNumber s with
  | some result => some result
  | none =>
    match s with
    | [] => none
    | '"' :: rest => (scanText rest).map fun r => (.text r.1, r.2)
    | '\x7b' :: rest => (scanVariable rest).map fun r => (.variable r.1, r.2)
    | c :: rest =>
      if startsWord c then
        some (.word (c :: rest.takeWhile Text.isWord), rest.dropWhile Text.isWord)
      else (scanSymbol s).map fun r => (.symbol r.1, r.2)

/-! ### Meaning of lexemes -/

/-- The token of a word, in any mixture of cases. -/
def wordToken? (word : String) : Option Token :=
  match word with
  | "and" => some (.operator .and)
  | "or" => some (.operator .or)
  | "not" => some (.operator .not)
  | "true" => some (.literal (.bool true))
  | "false" => some (.literal (.bool false))
  | "masculine" => some (.literal (.gender .masculine))
  | "feminine" => some (.literal (.gender .feminine))
  | "neuter" => some (.literal (.gender .neuter))
  | _ => none

/-- The token that a lexeme stands for. -/
def Lexeme.token : Lexeme → Except ParseFault Token
  | .whole digits =>
    if digits.length > Number.digitLimit then .error .tooManyDigits
    else .ok (.literal (.int (Text.numeralValue digits)))
  | .decimal digits places =>
    .ok (.literal (.float
      (Binary64.ofDecimal false (Text.numeralValue (digits ++ places)) (-places.length))))
  | .text content => .ok (.literal (.text (String.ofList content)))
  | .variable name => .ok (.variable (String.ofList name))
  | .symbol token => .ok token
  | .word letters =>
    match wordToken? (String.ofList (letters.map Char.toLower)) with
    | some token => .ok token
    | none => .error (.rejected (.unknownWord (String.ofList letters)))

/-- The tokens of the rest of a text of so many characters. Every token takes at least one
character, so `fuel` need not exceed the length of the rest. A character that begins no token is
reported at the place where the token before it ends. -/
def tokensFrom (size fuel : Nat) (rest : List Char) : Except ParseFault (List Token) :=
  match fuel with
  | 0 => .ok []
  | fuel + 1 =>
    if rest.isEmpty then .ok []
    else
      match scanLexeme (Text.trimLeft rest) with
      | none => .error (.rejected (.unexpectedCharacter (size - rest.length)))
      | some (lexeme, tail) => do
        let token ← lexeme.token
        let tokens ← tokensFrom size fuel tail
        return token :: tokens

/-- The tokens of a text. -/
def tokenize (source : String) : Except ParseFault (List Token) :=
  let s := Text.trimRight source.toList
  tokensFrom s.length s.length s

end Colloquy.Expression
