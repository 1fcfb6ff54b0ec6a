import Colloquy.Expression.Basic
import Colloquy.Table
import Colloquy.Text.Fold
/-!
# Script graphs

A compiled script is an arena of nodes that refer to each other by position. A node is a step of
the dialogue; its edges lead to the steps that may follow, and an edge without a target ends the
dialogue.

A position is a whole number. Data from outside may write it with a decimal point: such a
reference compares like the number that it is, but it leads nowhere.
-/

namespace Colloquy

/-- A reference to a position, as it was written. -/
inductive Ref where
  | at (i : Int)
  | decimal (x : Binary64)
  deriving DecidableEq

namespace Ref

/-- The reference to a position. -/
def ofNat (n : Nat) : Ref :=
  .at n

/-- How a reference compares with a position. -/
def compareNat? (n : Nat) : Ref → Option Ordering
  | .at i => some (compare i n)
  | .decimal x => (Binary64.compareInt? n x).map Ordering.swap

/-- Whether a reference is to a position, however it is written. -/
def isAt (r : Ref) (n : Nat) : Bool :=
  r.compareNat? n = some .eq

/-- A reference as it was written. -/
def display : Ref → String
  | .at i => Number.intText i
  | .decimal x => Number.floatText x

end Ref

/-- The kinds of node. A goto exists only while a script is compiled. -/
inductive NodeKind where
  | text
  | choice
  | select
  | setVariable
  | event
  | goto
  deriving DecidableEq

/-- The kinds of edge: the only successor of a step, an option, a guarded branch, and the way from
a choice to a block of options. -/
inductive EdgeKind where
  | continue
  | decision
  | condition
  | chained
  deriving DecidableEq

namespace NodeKind

/-- The name of a kind of node in saved graphs. -/
def name : NodeKind → String
  | .text => "text"
  | .choice => "choice"
  | .select => "select"
  | .setVariable => "set_variable"
  | .event => "event"
  | .goto => "goto"

/-- The kind of node of a name. -/
def ofName? (s : String) : Option NodeKind :=
  [text, choice, select, setVariable, event, goto].find? (·.name = s)

/-- The name of a kind of node in messages. -/
def label (k : NodeKind) : String :=
  k.name.map Char.toUpper

/-- Whether a dialogue runs through such a node without stopping. -/
def runsOn : NodeKind → Bool
  | .setVariable | .select | .event => true
  | _ => false

end NodeKind

namespace EdgeKind

/-- The name of a kind of edge in saved graphs. -/
def name : EdgeKind → String
  | .continue => "continue"
  | .decision => "decision"
  | .condition => "condition"
  | .chained => "chained"

/-- The kind of edge of a name. -/
def ofName? (s : String) : Option EdgeKind :=
  [EdgeKind.continue, decision, condition, chained].find? (·.name = s)

/-- The name of a kind of edge in messages. -/
def label (k : EdgeKind) : String :=
  k.name.map Char.toUpper

end EdgeKind

/-- A way from a node: the guard belongs to a condition, the text and what goes with it to a
decision. -/
structure Edge where
  kind : EdgeKind
  target : Option Ref := none
  condition : Option Expression := none
  text : String := ""
  textId : String := ""
  params : List String := []
  deriving DecidableEq

/-- A step of a dialogue. A text has a speaker, a text and what goes with it; a set variable has a
name and an expression; an event has a name and arguments. -/
structure Node where
  index : Nat
  kind : NodeKind
  line : Ref := .at 0
  edges : List Edge := []
  labels : List String := []
  speaker : String := ""
  text : String := ""
  textId : String := ""
  params : List String := []
  hasChoices : Bool := false
  identifier : String := ""
  expression : Option Expression := none
  eventName : String := ""
  eventArgs : List Expression := []
  deriving DecidableEq

/-- A compiled script. -/
structure Graph where
  name : String
  nodes : List Node
  first : Option Ref
  header : Option Ref
  labels : List (String × Ref)
  deriving DecidableEq

/-- Why references cannot be followed. -/
inductive RefFault where
  /-- there is no such position -/
  | outOfRange
  /-- the reference is written with a decimal point -/
  | notWhole
  /-- a search along references goes too deep -/
  | tooDeep
  deriving DecidableEq

/-! ### Following references -/

/-- The node that an edge leads to within an arena. A negative position counts from the end. -/
def follow (nodes : List Node) : Ref → Except RefFault Node
  | .at i =>
    let position := if i < 0 then i + nodes.length else i
    if position < 0 then .error .outOfRange
    else
      match nodes[position.toNat]? with
      | some n => .ok n
      | none => .error .outOfRange
  | .decimal _ => .error .notWhole

/-- The node after a step: where its first edge leads. -/
def successor (nodes : List Node) (node : Node) : Except RefFault (Option Node) :=
  match node.edges with
  | [] => .ok none
  | edge :: _ =>
    match edge.target with
    | none => .ok none
    | some r => (follow nodes r).map some

namespace Graph

/-- The node at a position, none if there is none. -/
def node? (g : Graph) : Option Ref → Except RefFault (Option Node)
  | none => .ok none
  | some (.at i) => .ok (if i < 0 then none else g.nodes[i.toNat]?)
  | some r =>
    let inside := (r.compareNat? 0).elim false (· ≠ .lt)
      && (r.compareNat? g.nodes.length).elim false (· = .lt)
    if inside then .error .notWhole else .ok none

/-- The first step of a script. -/
def firstNode (g : Graph) : Except RefFault (Option Node) :=
  g.node? g.first

/-- The first step of the header. -/
def headerNode (g : Graph) : Except RefFault (Option Node) :=
  g.node? g.header

/-- The node that an edge leads to. -/
def target (g : Graph) (edge : Edge) : Except RefFault (Option Node) :=
  g.node? edge.target

/-- The node that a label names, in any mixture of cases. -/
def nodeByLabel (g : Graph) (label : String) : Except RefFault (Option Node) :=
  g.node? (g.labels.lookup (Text.lower label))

/-- The text node of a text id; of several the last. -/
def nodeByTextId (g : Graph) (textId : String) : Option Node :=
  g.nodes.reverse.find? fun n => n.kind = .text && n.textId = textId

/-- The node after a step. -/
def next (g : Graph) (node : Node) : Except RefFault (Option Node) :=
  successor g.nodes node

end Graph

namespace Node

/-- The edge at a place. -/
def edge? (n : Node) (k : Int) : Option Edge :=
  if k < 0 then none else n.edges[k.toNat]?

end Node

/-! ### Tables -/

/-- The texts that a node brings: its own and those of its options, with their ids. -/
def Node.strings (n : Node) : List (String × String) :=
  let own := if n.textId = "" then [] else [(n.textId, n.text)]
  own ++ n.edges.filterMap fun e =>
    if e.kind = .decision && e.textId ≠ "" then some (e.textId, e.text) else none

namespace Graph

/-- All texts of a script by their ids; of two texts of one id the later. -/
def strings (g : Graph) : List (String × String) :=
  setEntries [] (g.nodes.flatMap Node.strings)

/-- The speakers of a script, each once, in the order in which they first speak. -/
def speakers (g : Graph) : List String :=
  ((g.nodes.filter (·.kind = .text)).map (·.speaker)).eraseDups

end Graph

/-- Labels in lower case; of two that become the same the later target counts. -/
def foldLabels (labels : List (String × Ref)) : List (String × Ref) :=
  labels.foldl (fun table l => setEntry table (Text.lower l.1) l.2) []

end Colloquy
