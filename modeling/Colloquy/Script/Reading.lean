import Colloquy.Script.Statement
import Colloquy.Script.Line
import Colloquy.Script.Settings
import Colloquy.Script.Wiring
/-!
# Reading a script

The lines of a script are read one after the other, each adding to the draft. A line that cannot be
read leaves a diagnostic and nothing else, but a faulty condition still opens its branch, which then
never holds. Reading fails only on a numeral beyond the digit limit.
-/

namespace Colloquy.Script

/-- Why a script cannot be compiled at all. -/
inductive CompileFault where
  /-- a numeral beyond the digit limit -/
  | tooManyDigits
  /-- a reference that cannot be followed -/
  | lost (f : RefFault)
  deriving DecidableEq

/-- Reads an expression; a text that is none is left to the caller as a message. -/
def readExpression (text : String) : Except CompileFault (Except String Expression) :=
  match Expression.parse text with
  | .ok e => .ok (.ok e)
  | .error (.rejected e) => .ok (.error (e.message (Text.trimString text)))
  | .error .tooManyDigits => .error .tooManyDigits

/-- Reads arguments in order, up to the first that is no expression. -/
def readArguments : List String → Except CompileFault (Except String (List Expression))
  | [] => .ok (.ok [])
  | text :: rest => do
    match ← readExpression text with
    | .error message => return .error message
    | .ok e =>
      match ← readArguments rest with
      | .error message => return .error message
      | .ok es => return .ok (e :: es)

namespace Builder

/-- Reads the condition of a branch. -/
def readCondition (b : Builder) (line : Nat) (text : String) :
    Except CompileFault (Builder × Expression) := do
  match ← readExpression text with
  | .ok e => return (b, e)
  | .error message =>
    return (b.note (.complain line ("Bad condition: " ++ message)), Expression.never)

/-- The step that an assignment makes. A text literal can be translated, so its text is kept with
the id of the line. -/
def assignStep (name : String) (e : Expression) (textId : String) : Step :=
  match e.literal? with
  | some (.text s) => .assign name e s textId
  | _ => .assign name e "" ""

/-- Reads an assignment; none if its expression is faulty. -/
def readAssignment (b : Builder) (line indent : Nat) (name text textId : String) :
    Except CompileFault (Builder × Option Draft) := do
  match ← readExpression text with
  | .ok e => return (b, some ⟨assignStep name e textId, line, indent, [], 0, []⟩)
  | .error message =>
    return (b.note (.complain line ("Bad expression in [set " ++ name ++ "]: " ++ message)), none)

/-- Reads a line of the header, in which only assignments are allowed. -/
def readHeaderLine (b : Builder) (l : Line) : Except CompileFault Builder :=
  match Statement.read l.body with
  | .assign name text => do
    let (b, draft) ← b.readAssignment l.number 0 name text l.textId
    return draft.elim b b.headerStep
  | _ =>
    return b.note (.complain l.number
      ("Only [set] lines are allowed in the header: '" ++ String.ofList l.body ++ "'"))

/-- Reads a line of the body; `rest` are the lines after it. -/
def readBodyLine (s : Settings) (b : Builder) (l : Line) (rest : List (List Char)) :
    Except CompileFault Builder :=
  let b := b.settle l.number l.indent
  match Statement.read l.body with
  | .option text => return b.option l.number l.indent text l.textId
  | .openIf text => do
    let (b, condition) ← b.readCondition l.number text
    return b.openIf l.number l.indent condition (optionNext rest)
  | .elseIf text => do
    let (b, condition) ← b.readCondition l.number text
    return b.addBranch l.number (some condition) "[elseif]"
  | .otherwise => return b.addBranch l.number none "[else]"
  | .endIf => return b.endIf l.number
  | .label name => return b.label s.endLabel l.number name
  | .goto name => return b.append ⟨.goto name, l.number, l.indent, [], 0, []⟩ true
  | .assign name text => do
    let (b, draft) ← b.readAssignment l.number l.indent name text l.textId
    return draft.elim b (b.append · true)
  | .event name text => do
    match ← readArguments ((arguments text.toList).map String.ofList) with
    | .ok args => return b.append ⟨.event name args, l.number, l.indent, [], 0, []⟩ true
    | .error message =>
      return b.note (.complain l.number
        ("Bad argument to [event " ++ name ++ "]: " ++ message))
  | .speech speaker text =>
    return b.append
      ⟨.text speaker text l.textId (Template.params text), l.number, l.indent, [], 0, []⟩ true
  | .bare text => return b.bare l.number l.indent text l.textId
  | .unknown text => return b.note (.complain l.number ("Unknown command '" ++ text ++ "'"))

/-- Reads a line; `rest` are the lines after it. -/
def readLine (s : Settings) (b : Builder) (number : Nat) (raw : List Char)
    (rest : List (List Char)) : Except CompileFault Builder :=
  match scan s.tabWidth number raw with
  | .empty => return b
  | .delimiter => return b.delimiter number
  | .line l => if b.headerState.inside then b.readHeaderLine l else b.readBodyLine s l rest

/-- Reads lines, the first of which has a number. -/
def readLines (s : Settings) : Builder → Nat → List (List Char) → Except CompileFault Builder
  | b, _, [] => return b
  | b, number, raw :: rest => do readLines s (← b.readLine s number raw rest) (number + 1) rest

/-- Reads a whole script. -/
def readScript (s : Settings) (lines : List (List Char)) : Except CompileFault Builder := do
  return (← readLines s {} 1 lines).finish lines.length

end Builder

end Colloquy.Script
