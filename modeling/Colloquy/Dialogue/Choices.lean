import Colloquy.Dialogue.Running
/-!
# The choices of a line

On reaching a line its choices are collected: all options of the trees of choices behind it, of
every select those of the first branch whose condition holds. A line without choices has one way to
go on, its first edge. Evaluating a condition calls participants and listeners, and these may move
the dialogue; what such a collection finds afterwards is no longer offered.
-/

namespace Colloquy.Dialogue

open Play

variable {η δ : Type} (host : Host η δ)

/-- Collects from the edges of a node, `enter` collecting from what edges lead to. -/
def collectEdges (gathering : Nat) (enter : Option Node → Play η δ Unit) (node : Node) :
    List Edge → Play η δ Unit
  | [] => return ()
  | edge :: rest => do
    match edge.kind with
    | .decision =>
      changeDialogue (·.offer gathering edge)
      collectEdges gathering enter node rest
    | .condition =>
      if ← holds host node edge.condition then enter (← target edge)
      else collectEdges gathering enter node rest
    | .chained =>
      enter (← target edge)
      collectEdges gathering enter node rest
    | .continue =>
      logAt .error node ("unexpected " ++ edge.kind.label ++ " edge in a choice")
      collectEdges gathering enter node rest

/-- Collects the choices from a node on, so many nodes deep at most. -/
def collect (gathering fuel : Nat) (node : Option Node) : Play η δ Unit := do
  match node with
  | none => return ()
  | some node =>
    if node.kind = .choice || node.kind = .select then
      match fuel with
      | 0 => throw .tooDeep
      | fuel + 1 => collectEdges host gathering (collect gathering fuel) node node.edges
    else logAt .error node ("expected a choice, found a " ++ node.kind.label ++ " node")

/-- Collects the choices of the current line. -/
def gather : Play η δ Unit := do
  let d ← dialogue
  match d.current with
  | none => return ()
  | some line =>
    if line.hasChoices then
      match ← orFault .lost (d.graph.nextChoice line) with
      | none => return ()
      | some root =>
        collect host d.gathering host.depth (some root)
    else
      match line.edge? 0 with
      | none => return ()
      | some edge => changeDialogue (·.offer d.gathering edge)

/-- Moves to a line or to the end, collects the choices, and tells of it unless quietly. -/
def setLine (line : Option Node) (quietly : Bool) : Play η δ Unit := do
  changeDialogue (·.moveTo line)
  gather host
  unless quietly do
    announce host (if line.isSome then .line else .finished)

/-- Runs steps from a node on to the next line or the end, telling of the end if asked to. A choice
without a line before it is logged and leaves the dialogue where it is. -/
def runTo (node : Option Node) (tellEnd : Bool) : Play η δ Unit := do
  match ← runOn host host.steps node with
  | none => setLine host none (!tellEnd)
  | some node =>
    if node.kind = .text then setLine host (some node) false
    else
      logAt .error node ("tried to run to the next speaker line but found a "
        ++ node.kind.label ++ " node")

end Colloquy.Dialogue
