import Colloquy.Graph.Basic
import Colloquy.Script.Diagnostic
/-!
# Drafts of graphs

While a script is read its nodes are drafts. An edge of a draft may not know yet where it leads:
it is open while the next node in reach will be its target, and once its block has closed it is
left to a search among the nodes that come later.

Blocks are kept on a stack of frames, the innermost first. A frame closes at the first line
indented less than its threshold.
-/

namespace Colloquy.Script

/-- A branch of a conditional block: the position of its select and the number of the branch. -/
structure Branch where
  select : Nat
  number : Nat
  deriving DecidableEq

/-- Where an edge of a draft leads. -/
inductive Destination where
  /-- to the next node in reach -/
  | open
  /-- to the node at a position -/
  | to (i : Nat)
  /-- to what a search from a position finds -/
  | search (start : Nat)
  /-- to the end of the dialogue -/
  | end
  deriving DecidableEq

/-- An edge of a draft. A search takes the first node indented less than `reach` that lies in no
other branch than those of `path`. -/
structure DraftEdge where
  kind : EdgeKind
  destination : Destination := .open
  condition : Option Expression := none
  text : String := ""
  textId : String := ""
  params : List String := []
  line : Nat := 0
  reach : Nat := 0
  path : List Branch := []
  deriving DecidableEq

/-- What a draft will be. -/
inductive Step where
  | text (speaker text textId : String) (params : List String)
  | choice
  | select
  | assign (name : String) (expression : Expression) (text textId : String)
  | event (name : String) (args : List Expression)
  | goto (label : String)
  deriving DecidableEq

/-- A node under construction: the line that made it, its indent, and what a search for its
successor has to look at. -/
structure Draft where
  step : Step
  line : Nat
  indent : Nat
  edges : List DraftEdge := []
  reach : Nat := 0
  path : List Branch := []
  deriving DecidableEq

namespace Step

/-- The kind of node that a step becomes. -/
def kind : Step → NodeKind
  | .text .. => .text
  | .choice => .choice
  | .select => .select
  | .assign .. => .setVariable
  | .event .. => .event
  | .goto _ => .goto

/-- Whether a step runs on to a single successor. -/
def isSequential : Step → Bool
  | .text .. | .assign .. | .event .. => true
  | _ => false

end Step

/-- Whether a draft runs on to a successor that it does not have yet. -/
def Draft.isLoose (d : Draft) : Bool :=
  d.step.isSequential && d.edges.isEmpty

/-- The edge of a node at a place among its edges. -/
structure EdgeRef where
  node : Nat
  slot : Nat
  deriving DecidableEq

/-- A conditional block that is open: its select, the branch being read, whether its branches offer
options of a choice, the node that counts as the last one after it, and the loose ends of the
branches read so far. -/
structure Block where
  select : Nat
  branch : Nat := 0
  chained : Bool
  after : Nat
  hasElse : Bool := false
  looseEdges : List EdgeRef := []
  looseNodes : List Nat := []
  deriving DecidableEq

/-- What opened a frame. -/
inductive FrameKind where
  | root
  | option
  | block (b : Block)
  deriving DecidableEq

/-- A level of the stack. -/
structure Frame where
  kind : FrameKind
  last : Option Nat
  threshold : Nat
  reach : Nat
  line : Nat := 0
  deriving DecidableEq

/-- The outermost frame. -/
def Frame.root : Frame :=
  ⟨.root, none, 0, 0, 0⟩

/-- The branch that a frame is in. -/
def Frame.branch? (f : Frame) : Option Branch :=
  match f.kind with
  | .block b => some ⟨b.select, b.branch⟩
  | _ => none

/-- Where reading the header stands. -/
structure HeaderState where
  inside : Bool := false
  valid : Bool := false
  seen : Bool := false
  deriving DecidableEq

/-- All that is known of a script while it is read. The loose ends that the next node will tie are
`looseEdges` and `looseNodes`; the labels that it will get are `waiting`. -/
structure Builder where
  nodes : List Draft := []
  header : List Draft := []
  top : Frame := .root
  below : List Frame := []
  looseEdges : List EdgeRef := []
  looseNodes : List Nat := []
  waiting : List (String × Nat) := []
  labels : List (String × Option Nat) := []
  diagnostics : List Diagnostic := []
  headerState : HeaderState := {}
  deriving DecidableEq

namespace Builder

/-- The branches that a new node lies in, the outermost first. -/
def path (b : Builder) : List Branch :=
  ((b.top :: b.below).reverse).filterMap Frame.branch?

/-- The last node of a frame. -/
def lastOf (b : Builder) (f : Frame) : Option Draft :=
  f.last.bind (b.nodes[·]?)

/-- Adds a diagnostic. -/
def note (b : Builder) (d : Diagnostic) : Builder :=
  { b with diagnostics := b.diagnostics ++ [d] }

end Builder

/-! ### Changing drafts -/

/-- Gives an edge a destination. -/
def aim (destination : Destination) (nodes : List Draft) (r : EdgeRef) : List Draft :=
  nodes.modify r.node fun d =>
    { d with edges := d.edges.modify r.slot fun e => { e with destination := destination } }

/-- Adds an edge to a node. -/
def attach (nodes : List Draft) (i : Nat) (edge : DraftEdge) : List Draft :=
  nodes.modify i fun d => { d with edges := d.edges ++ [edge] }

/-- The edge that the next edge of a node will be. -/
def nextEdge (nodes : List Draft) (i : Nat) : EdgeRef :=
  ⟨i, (nodes[i]?.elim 0 (·.edges.length))⟩

/-- Makes a node continue to another, if it has no edge yet. -/
def continueTo (target : Nat) (nodes : List Draft) (i : Nat) : List Draft :=
  nodes.modify i fun d =>
    if d.edges.isEmpty then
      { d with edges := [{ kind := .continue, destination := .to target }] }
    else d

end Colloquy.Script
