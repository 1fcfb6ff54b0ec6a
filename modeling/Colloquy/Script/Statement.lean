import Colloquy.Text.Line
import Colloquy.Text.Fold
import Colloquy.Text.Characters
/-!
# Statements

What a line of a script says, from its text without indent, text id and blanks around it. A
command stands in square brackets and begins with a keyword in any mixture of cases; a line that is
no command is an option, a label, or something that is said.
-/

namespace Colloquy.Script

/-- What a line says. -/
inductive Statement where
  /-- `* text` -/
  | option (text : String)
  /-- `[if condition]` -/
  | openIf (condition : String)
  /-- `[elseif condition]` -/
  | elseIf (condition : String)
  /-- `[else]` -/
  | otherwise
  /-- `[endif]` -/
  | endIf
  /-- `:label`, in lower case -/
  | label (name : String)
  /-- `[goto label]`, in lower case -/
  | goto (name : String)
  /-- `[set name expression]` -/
  | assign (name expression : String)
  /-- `[event name arguments]` -/
  | event (name arguments : String)
  /-- `speaker: text` -/
  | speech (speaker text : String)
  /-- a text without a speaker -/
  | bare (text : String)
  /-- a bracket that begins no command -/
  | unknown (text : String)
  deriving DecidableEq

/-- Whether a character stands for a letter of a keyword: the letter in either case, or a letter
that differs from it in case alone (an i with or without a dot, a long s). -/
def standsFor (c letter : Char) : Bool :=
  c.toLower = letter || (letter = 'i' && (c = '\u0130' || c = '\u0131'))
    || (letter = 's' && c = '\u017f')

/-- The rest of a text after a keyword. -/
def afterKeyword? : List Char → List Char → Option (List Char)
  | [], rest => some rest
  | letter :: keyword, c :: rest =>
    if standsFor c letter then afterKeyword? keyword rest else none
  | _ :: _, [] => none

/-- The rest of a text after two keywords, which blanks may separate. -/
def afterKeywords? (first second : List Char) (s : List Char) : Option (List Char) := do
  afterKeyword? second (Text.trimLeft (← afterKeyword? first s))

/-- What a text in square brackets holds. -/
def bracketed? : List Char → Option (List Char)
  | '[' :: rest => if rest.getLast? = some ']' then some rest.dropLast else none
  | _ => none

/-- What follows a keyword after at least one blank; of a text of blanks alone the last blank, if
there are two. -/
def operand? (s : List Char) : Option (List Char) :=
  match s with
  | [] => none
  | c :: rest =>
    if Text.isBlank c then
      match Text.trimLeft rest with
      | [] => rest.getLast?.map ([·])
      | operand => some operand
    else none

/-- A dotted name after at least one blank, and what follows it. -/
def namedOperand? (s : List Char) : Option (List Char × List Char) := do
  let body ← operand? s
  let name := body.takeWhile Text.isDotted
  if name.isEmpty then none else some (name, body.dropWhile Text.isDotted)

/-- The name and the expression of an assignment. An equals sign between the two is left out,
unless it is all there is. A name with nothing after it gives its last character to the
expression. -/
def splitAssignment? (s : List Char) : Option (List Char × List Char) := do
  let (name, rest) ← namedOperand? s
  if rest.isEmpty then
    if name.length < 2 then none else some (name.dropLast, name.drop (name.length - 1))
  else
    match Text.trimLeft rest with
    | '=' :: tail => some (name, if tail.isEmpty then ['='] else Text.trim tail)
    | expression => some (name, Text.trimRight expression)

/-- The statement that a command makes, from what stands in its brackets. -/
def command? (s : List Char) : Option Statement :=
  let condition (rest : Option (List Char)) := (rest.bind operand?).map String.ofList
  let isRest (rest : Option (List Char)) := rest = some []
  if let some c := condition (afterKeyword? ['i', 'f'] s) then some (.openIf c)
  else if let some c := condition (afterKeywords? ['e', 'l', 's', 'e'] ['i', 'f'] s) then
    some (.elseIf c)
  else if isRest (afterKeyword? ['e', 'l', 's', 'e'] s) then some .otherwise
  else if isRest (afterKeywords? ['e', 'n', 'd'] ['i', 'f'] s) then some .endIf
  else if let some rest := (afterKeywords? ['g', 'o'] ['t', 'o'] s).bind operand? then
    let name := rest.takeWhile Text.isWord
    if name ≠ [] ∧ Text.trimLeft (rest.dropWhile Text.isWord) = [] then
      some (.goto (Text.lower (String.ofList name)))
    else none
  else if let some (name, expression) :=
      (afterKeyword? ['s', 'e', 't'] s).bind splitAssignment? then
    some (.assign (String.ofList name) (String.ofList expression))
  else if let some (name, rest) :=
      (afterKeyword? ['e', 'v', 'e', 'n', 't'] s).bind namedOperand? then
    some (.event (String.ofList name) (String.ofList (Text.trim rest)))
  else none

/-- The label that a line declares. -/
def label? : List Char → Option (List Char)
  | ':' :: rest =>
    let body := Text.trimLeft rest
    let name := body.takeWhile Text.isWord
    if name ≠ [] ∧ Text.trimLeft (body.dropWhile Text.isWord) = [] then some name else none
  | _ => none

/-- Whether a character may stand in the name of a speaker. -/
def isSpeaker (c : Char) : Bool :=
  Text.isDotted c || c = '-'

/-- The speaker and the text of a line that is said. -/
def speech? (s : List Char) : Option (List Char × List Char) :=
  let speaker := s.takeWhile isSpeaker
  match Text.trimLeft (s.dropWhile isSpeaker) with
  | ':' :: rest =>
    let text := Text.trim rest
    if speaker.isEmpty || text.isEmpty then none else some (speaker, text)
  | _ => none

/-- The text of an option. -/
def option? : List Char → Option (List Char)
  | '*' :: rest => if rest.isEmpty then none else some (Text.trim rest)
  | _ => none

/-- What a line says. -/
def Statement.read (s : List Char) : Statement :=
  if let some text := option? s then .option (String.ofList text)
  else if let some statement := (bracketed? s).bind command? then statement
  else if let some name := label? s then .label (Text.lower (String.ofList name))
  else if let some (speaker, text) := speech? s then
    .speech (String.ofList speaker) (String.ofList text)
  else if s.head? = some '[' then .unknown (String.ofList s)
  else .bare (String.ofList s)

/-! ### Arguments of events

The arguments of an event are separated by commas. A comma inside quotes, brackets or braces
separates nothing; inside quotes a backslash protects the character after it. -/

/-- The arguments of the rest of a text. `current` is what has been read of the argument begun,
last character first, `depth` how many brackets are open, and `quotes` whether a quote is. -/
def argumentsFrom (current : List Char) (depth : Int) (quotes : Bool) :
    List Char → List (List Char)
  | [] => [current.reverse]
  | c :: rest =>
    if quotes then
      if c = '\\' then
        match rest with
        | [] => [(c :: current).reverse]
        | d :: rest => argumentsFrom (d :: c :: current) depth true rest
      else argumentsFrom (c :: current) depth (c ≠ '"') rest
    else if c = '"' then argumentsFrom (c :: current) depth true rest
    else if c = '(' || c = '\x7b' then argumentsFrom (c :: current) (depth + 1) false rest
    else if c = ')' || c = '\x7d' then argumentsFrom (c :: current) (depth - 1) false rest
    else if c = ',' && depth = 0 then current.reverse :: argumentsFrom [] depth false rest
    else argumentsFrom (c :: current) depth false rest

/-- The arguments that a text holds, without blanks around them; a blank text holds none. -/
def arguments (text : List Char) : List (List Char) :=
  match (argumentsFrom [] 0 false text).map Text.trim with
  | [[]] => []
  | args => args

end Colloquy.Script
