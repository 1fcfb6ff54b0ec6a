import Colloquy.Graph.Basic
/-!
# The choices after a line

The choices of a line may stand behind steps that set variables or raise events; these belong to
every option. The first step of another kind is the root of the choices if it is a choice, or if a
choice can be reached from it through selects alone.

Both searches remember where they have been, so no position is entered twice. The size of the
arena bounds the first; the second gives up where selects are nested too deep.
-/

namespace Colloquy

/-- Whether a search through selects meets a choice, and the positions that it has entered. -/
abbrev Sighting := Bool × List Nat

/-- How many nodes deep a search through selects may go. -/
def searchDepth : Nat := 329

/-- Searches a node, so many nodes deep at most, `seen` being the positions that were entered
before; the targets of its edges are searched in order, up to the first choice. -/
def sightFrom (nodes : List Node) : Nat → Node → List Nat → Except RefFault Sighting
  | 0, _, _ => .error .tooDeep
  | depth + 1, node, seen =>
    if node.kind = .choice then .ok (true, seen)
    else if node.kind ≠ .select || seen.contains node.index then .ok (false, seen)
    else
      node.edges.foldlM
        (fun sighting edge =>
          match sighting.1, edge.target with
          | false, some r => do sightFrom nodes depth (← follow nodes r) sighting.2
          | _, _ => .ok sighting)
        (false, node.index :: seen)

/-- Whether a node is a choice or leads to one through selects alone. -/
def leadsToChoice (nodes : List Node) (node : Node) : Except RefFault Bool :=
  (sightFrom nodes searchDepth node []).map (·.1)

/-- The first step from a node on that neither sets a variable nor raises an event; none if there
is none or the steps go round in a circle. -/
def skipSteps (nodes : List Node) : Nat → Option Node → List Nat →
    Except RefFault (Option Node)
  | 0, _, _ => .ok none
  | _ + 1, none, _ => .ok none
  | fuel + 1, some node, seen =>
    if node.kind = .setVariable || node.kind = .event then
      if seen.contains node.index then .ok none
      else do skipSteps nodes fuel (← successor nodes node) (node.index :: seen)
    else .ok (some node)

/-- The root of the choices that follow a line. -/
def nextChoice (nodes : List Node) (line : Node) : Except RefFault (Option Node) :=
  if line.edges.length ≠ 1 then .ok none
  else do
    match ← skipSteps nodes (nodes.length + 2) (← successor nodes line) [] with
    | none => return none
    | some node => return if ← leadsToChoice nodes node then some node else none

namespace Graph

/-- The root of the choices that follow a line. -/
def nextChoice (g : Graph) (line : Node) : Except RefFault (Option Node) :=
  Colloquy.nextChoice g.nodes line

/-- A node of an arena with the note whether it is a line with choices. -/
def markChoices (nodes : List Node) (node : Node) : Except RefFault Node :=
  if node.kind = .text then do
    return { node with hasChoices := (← Colloquy.nextChoice nodes node).isSome }
  else .ok node

/-- A graph of an arena. Labels are kept in lower case, and it is noted which lines have choices;
all else is taken as it is. -/
def ofNodes (name : String) (nodes : List Node) (first header : Option Ref)
    (labels : List (String × Ref)) : Except RefFault Graph := do
  return ⟨name, ← nodes.mapM (markChoices nodes), first, header, foldLabels labels⟩

/-- The first node whose number is not its position, with the position. -/
def misplaced? (numbers : List Int) : Option (Nat × Int) :=
  (numbers.zipIdx.find? fun n => n.1 ≠ n.2).map fun n => (n.2, n.1)

end Graph

end Colloquy
