import Colloquy.Dialogue.Basic
import Colloquy.Script.Reading
/-!
# Direct execution

What a script without choices means, told by its lines alone. Lines are executed in order. A block
is entered at its first branch whose condition holds and left at the end of that branch; a goto goes
on at the first line after the declaration of its label that makes a node. Execution stands still at
every line that is said.
-/

namespace Colloquy.Script

/-- What a line of a script without choices does. -/
inductive Item where
  | say (speaker text : String)
  | set (name : String) (e : Expression)
  | raise (name : String) (args : List Expression)
  | label (name : String)
  | goto (name : String)
  | openIf (condition : Expression)
  | elseIf (condition : Expression)
  | otherwise
  | endIf
  deriving DecidableEq

/-- Whether a line makes a node. -/
def Item.makesNode : Item → Bool
  | .say .. | .set .. | .raise .. | .goto _ | .openIf _ => true
  | _ => false

/-! ### The lines of a script -/

/-- The expression that a text is, if it is one. -/
def expression? (text : String) : Option Expression :=
  (Expression.parse text).toOption

/-- Whether a statement may stand in a script without choices. -/
def Statement.isPlain : Statement → Bool
  | .option _ | .bare _ | .unknown _ => false
  | _ => true

/-- What a statement does, if its expressions can be read. -/
def Statement.item? : Statement → Option Item
  | .speech speaker text => some (.say speaker text)
  | .assign name text => (expression? text).map (.set name)
  | .event name text =>
    (((arguments text.toList).map String.ofList).mapM expression?).map (.raise name)
  | .label name => some (.label name)
  | .goto name => some (.goto name)
  | .openIf text => (expression? text).map .openIf
  | .elseIf text => (expression? text).map .elseIf
  | .otherwise => some .otherwise
  | .endIf => some .endIf
  | .option _ | .bare _ | .unknown _ => none

/-- What a line does, if it says anything. -/
def itemAt (s : Settings) (number : Nat) (raw : List Char) : Option Item :=
  match scan s.tabWidth number raw with
  | .line l => (Statement.read l.body).item?
  | _ => none

/-- What lines do, the first of which has a number. -/
def itemsFrom (s : Settings) : Nat → List (List Char) → List Item
  | _, [] => []
  | number, raw :: rest => (itemAt s number raw).toList ++ itemsFrom s (number + 1) rest

/-- What the lines of a script do. -/
def program (s : Settings) (text : String) : List Item :=
  itemsFrom s 1 (Text.lines text.toList)

/-- Whether a script is made only of lines that are said with their speaker, assignments, events,
labels, gotos and conditional blocks, beside those that say nothing. -/
def IsPlain (s : Settings) (lines : List (List Char)) : Prop :=
  ∀ raw ∈ lines, ∀ number, scan s.tabWidth number raw ≠ .delimiter
    ∧ ∀ l, scan s.tabWidth number raw = .line l → (Statement.read l.body).isPlain = true

/-- Whether a line may stand in a script without choices. -/
def isPlainLine (s : Settings) (raw : List Char) : Bool :=
  match scan s.tabWidth 0 raw with
  | .empty => true
  | .delimiter => false
  | .line l => (Statement.read l.body).isPlain

theorem isPlain_of_all {s : Settings} {lines : List (List Char)}
    (all : lines.all (isPlainLine s) = true) : IsPlain s lines := by
  intro raw member number
  have plain := List.all_eq_true.mp all raw member
  unfold isPlainLine at plain
  unfold scan at plain ⊢
  dsimp only at plain ⊢
  split
  · exact ⟨nofun, nofun⟩
  · next silent =>
    rw [if_neg silent] at plain
    split
    · next delimiter =>
      rw [if_pos delimiter] at plain
      cases plain
    · next other =>
      rw [if_neg other] at plain
      refine ⟨nofun, ?_⟩
      rintro _ ⟨⟩
      exact plain

/-! ### Where execution goes on -/

/-- What follows the end of a block, so many blocks further out than the innermost one. -/
def pastEnd : Nat → List Item → List Item
  | _, [] => []
  | depth, .openIf _ :: rest => pastEnd (depth + 1) rest
  | 0, .endIf :: rest => rest
  | depth + 1, .endIf :: rest => pastEnd depth rest
  | depth, _ :: rest => pastEnd depth rest

/-- What follows the first declaration of a label. -/
def afterLabel? (name : String) : List Item → Option (List Item)
  | [] => none
  | .label l :: rest => if l = name then some rest else afterLabel? name rest
  | _ :: rest => afterLabel? name rest

/-- The rest of a script from its first line that makes a node. -/
def nextMade (lines : List Item) : List Item :=
  lines.dropWhile (!·.makesNode)

/-- Where a goto goes on; nothing follows the label that ends the dialogue. -/
def afterGoto (endLabel : String) (script : List Item) (name : String) : List Item :=
  if name = endLabel then [] else (afterLabel? name script).elim [] nextMade

namespace Direct

/-! ### Expressions -/

/-- The variables of a script. -/
abbrev Variables := List (String × Value)

/-- The variables as expressions read them. -/
def environment (vars : Variables) : Expression.Environment :=
  fun name => Datum.ofOption (vars.lookup name)

/-- The value of an expression; one that is refused has none. -/
def value (vars : Variables) (e : Expression) : Except Expression.EvalFault (Option Value) :=
  match e.evaluate (environment vars) with
  | .ok v => .ok v
  | .error (.refused _) => .ok none
  | .error f => .error f

/-- Whether a condition holds; one that is refused does not. -/
def holds (vars : Variables) (e : Expression) : Except Expression.EvalFault Bool :=
  (value vars e).map truthOrUnset

/-- Variables after an assignment. Without a value nothing is assigned, and a variable keeps a value
that equals the new one. -/
def assigned (vars : Variables) (name : String) : Option Value → Variables
  | none => vars
  | some v =>
    if equalOrUnset (vars.lookup name) (some v) then vars else setEntry vars name v

/-! ### Steps -/

/-- The first branch further on in a block whose condition holds, `depth` blocks being open within
the block; what follows the block if there is none. -/
def nextBranch (vars : Variables) : Nat → List Item → Except Expression.EvalFault (List Item)
  | _, [] => .ok []
  | depth, .openIf _ :: rest => nextBranch vars (depth + 1) rest
  | 0, .elseIf e :: rest => do
    if ← holds vars e then return rest else nextBranch vars 0 rest
  | 0, .otherwise :: rest => .ok rest
  | 0, .endIf :: rest => .ok rest
  | depth + 1, .endIf :: rest => nextBranch vars depth rest
  | depth, _ :: rest => nextBranch vars depth rest

/-- An event with the values of its arguments. -/
structure Raised where
  name : String
  args : List (Option Value)
  deriving DecidableEq

/-- What comes of a line: something is said before the rest, the script is at its end, or execution
goes on. -/
inductive Progress where
  | spoke (speaker text : String) (rest : List Item)
  | ended
  | went (rest : List Item) (vars : Variables) (raised : List Raised)
  deriving DecidableEq

/-- Executes the first of the lines ahead. -/
def step (endLabel : String) (script : List Item) (vars : Variables) :
    List Item → Except Expression.EvalFault Progress
  | [] => .ok .ended
  | .say speaker text :: rest => .ok (.spoke speaker text rest)
  | .set name e :: rest => do return .went rest (assigned vars name (← value vars e)) []
  | .raise name args :: rest => do return .went rest vars [⟨name, ← args.mapM (value vars)⟩]
  | .label _ :: rest => .ok (.went rest vars [])
  | .goto name :: _ => .ok (.went (afterGoto endLabel script name) vars [])
  | .openIf e :: rest => do
    if ← holds vars e then return .went rest vars []
    else return .went (← nextBranch vars 0 rest) vars []
  | .elseIf _ :: rest => .ok (.went (pastEnd 0 rest) vars [])
  | .otherwise :: rest => .ok (.went (pastEnd 0 rest) vars [])
  | .endIf :: rest => .ok (.went rest vars [])

/-! ### Runs -/

/-- Where execution stands still: after a line, before the rest of the script, or at the end. -/
inductive Stand where
  | line (speaker text : String) (rest : List Item)
  | ended
  deriving DecidableEq

/-- The line that has been said last. -/
def Stand.spoken : Stand → Option (String × String)
  | .line speaker text _ => some (speaker, text)
  | .ended => none

/-- Execution goes from lines ahead and variables to where it stands still, raising events. -/
inductive Runs (endLabel : String) (script : List Item) :
    List Item → Variables → List Raised → Stand → Variables → Prop where
  | spoke {lines rest : List Item} {vars : Variables} {speaker text : String}
      (now : step endLabel script vars lines = .ok (.spoke speaker text rest)) :
      Runs endLabel script lines vars [] (.line speaker text rest) vars
  | ended {lines : List Item} {vars : Variables}
      (now : step endLabel script vars lines = .ok .ended) :
      Runs endLabel script lines vars [] .ended vars
  | went {lines rest : List Item} {vars vars' vars'' : Variables} {raised later : List Raised}
      {stand : Stand} (now : step endLabel script vars lines = .ok (.went rest vars' raised))
      (onward : Runs endLabel script rest vars' later stand vars'') :
      Runs endLabel script lines vars (raised ++ later) stand vars''

/-- Execution from the start of a script, going on from a line so many times; at the end it stays. -/
inductive Plays (endLabel : String) (script : List Item) (vars : Variables) :
    Nat → List Raised → Stand → Variables → Prop where
  | start {raised : List Raised} {stand : Stand} {vars' : Variables}
      (first : Runs endLabel script script vars raised stand vars') :
      Plays endLabel script vars 0 raised stand vars'
  | next {k : Nat} {speaker text : String} {rest : List Item} {raised more : List Raised}
      {stand : Stand} {vars' vars'' : Variables}
      (before : Plays endLabel script vars k raised (.line speaker text rest) vars')
      (now : Runs endLabel script rest vars' more stand vars'') :
      Plays endLabel script vars (k + 1) (raised ++ more) stand vars''
  | stays {k : Nat} {raised : List Raised} {vars' : Variables}
      (before : Plays endLabel script vars k raised .ended vars') :
      Plays endLabel script vars (k + 1) raised .ended vars'

end Direct

end Colloquy.Script
