import Colloquy.Graph.ChoiceTree
import Colloquy.Script.Linking
import Colloquy.Script.Reading
import Colloquy.Script.TextId
/-!
# Compiling a script

A script is read into a draft, the draft is linked, and its nodes without the gotos become the nodes
of the graph: the body first, then the header, whose steps follow each other. A fatal diagnostic
leaves no graph.
-/

namespace Colloquy

/-- What compiling a script gives. -/
structure Compilation where
  graph : Option Graph
  diagnostics : List Diagnostic
  deriving DecidableEq

namespace Script

/-! ### Positions in the graph -/

/-- How many nodes before a position stay when gotos are left out. -/
def keptBefore (nodes : List Draft) (i : Nat) : Nat :=
  (nodes.take i).countP (·.gotoLabel?.isNone)

/-- The position in the graph of what stood at a position of the draft: a goto stands for where it
leads. None is the end. -/
def newPosition (nodes : List Draft) (gotos : List (Nat × Option Nat)) (i : Nat) : Option Nat :=
  if (nodes[i]?.bind Draft.gotoLabel?).isSome then
    ((gotos.lookup i).join).map (keptBefore nodes)
  else some (keptBefore nodes i)

/-- The position in the graph of where an edge of the draft leads. -/
def newTarget (nodes : List Draft) (gotos : List (Nat × Option Nat)) (e : DraftEdge) :
    Option Nat :=
  match e.destination with
  | .to i => newPosition nodes gotos i
  | _ => none

/-- Labels with their positions in the graph; a label that leads to the end is dropped. -/
def newLabels (nodes : List Draft) (gotos : List (Nat × Option Nat))
    (labels : List (String × Option Nat)) : List (String × Nat) :=
  labels.filterMap fun l => (l.2.bind (newPosition nodes gotos)).map (l.1, ·)

/-! ### Nodes of the graph -/

/-- The labels of a position. -/
def labelsAt (labels : List (String × Nat)) (i : Nat) : List String :=
  (labels.filter (·.2 = i)).map (·.1)

/-- An edge of the graph. -/
def buildEdge (target : Option Nat) (e : DraftEdge) : Edge :=
  { kind := e.kind
    target := target.map Ref.ofNat
    condition := e.condition
    text := e.text
    textId := e.textId
    params := e.params }

/-- A node of the graph at a position. -/
def buildNode (labels : List (String × Nat)) (i : Nat) (d : Draft) (edges : List Edge) : Node :=
  let base : Node :=
    { index := i, kind := d.step.kind, line := .ofNat d.line, edges := edges,
      labels := labelsAt labels i }
  match d.step with
  | .text speaker text textId params =>
    { base with speaker := speaker, text := text, textId := textId, params := params }
  | .assign name e text textId =>
    { base with identifier := name, expression := some e, text := text, textId := textId }
  | .event name args => { base with eventName := name, eventArgs := args }
  | _ => base

/-- The nodes of the body. -/
def bodyNodes (nodes : List Draft) (gotos : List (Nat × Option Nat))
    (labels : List (String × Nat)) : List Node :=
  (nodes.filter (·.gotoLabel?.isNone)).mapIdx fun i d =>
    buildNode labels i d (d.edges.map fun e => buildEdge (newTarget nodes gotos e) e)

/-- The nodes of the header, which come after `base` other nodes; each continues to the next. -/
def headerNodes (header : List Draft) (base : Nat) (labels : List (String × Nat)) : List Node :=
  header.mapIdx fun k d =>
    let edges : List Edge :=
      if k + 1 < header.length then [{ kind := .continue, target := some (.ofNat (base + k + 1)) }]
      else []
    buildNode labels (base + k) d edges

/-- The lines of a node and of its edges, for diagnostics. -/
def sourceLines (d : Draft) : Nat × List Nat :=
  (d.line, d.edges.map (·.line))

/-! ### Mixed blocks -/

/-- Whether the branches of a select lead to choices and to other steps as well. -/
def isMixed (nodes : List Node) (n : Node) : Bool :=
  let targets := n.edges.filterMap fun e =>
    match e.target with
    | some (.at i) => nodes[i.toNat]?
    | _ => none
  n.kind = .select && targets.any (·.kind = .choice) && targets.any (·.kind ≠ .choice)

/-- Warnings about selects with mixed branches. `lines` are the lines of the nodes. -/
def mixedWarnings (nodes : List Node) (lines : List Nat) : List Diagnostic :=
  ((nodes.zip lines).filter fun n => isMixed nodes n.1).map fun n =>
    .warn n.2 ("[if] block mixes choices with other lines, "
      ++ "choices are only shown when every branch leads to them")

/-! ### The whole -/

/-- The graph of a linked draft, and the warnings found while it is built. -/
def buildGraph (hash : String → String) (s : Settings) (name : String) (b : Builder)
    (gotos : List (Nat × Option Nat)) : Except CompileFault (Graph × List Diagnostic) := do
  let labels := newLabels b.nodes gotos b.labels
  let body := bodyNodes b.nodes gotos labels
  let header := headerNodes b.header body.length labels
  let kept := b.nodes.filter (·.gotoLabel?.isNone) ++ b.header
  let explicit := ((body ++ header).zip kept).flatMap fun n =>
    TextId.explicit n.1 (sourceLines n.2).1 (sourceLines n.2).2
  let nodes :=
    TextId.assignNodes hash s.textIdLength (body ++ header) (explicit.map (·.1)).reverse
  let first := if b.nodes.isEmpty then none else (newPosition b.nodes gotos 0).map Ref.ofNat
  let headerIndex := if b.header.isEmpty then none else some (Ref.ofNat body.length)
  let warnings := TextId.repeated [] explicit ++ mixedWarnings nodes (kept.map (·.line))
  match Graph.ofNodes name nodes first headerIndex (labels.map fun l => (l.1, .ofNat l.2)) with
  | .ok g => return (g, warnings)
  | .error f => throw (.lost f)

/-- Compiles a script with a given digest of contents. -/
def compileWith (hash : String → String) (s : Settings) (name text : String) :
    Except CompileFault Compilation := do
  let b ← Builder.readScript s (Text.lines text.toList)
  let b := { b with nodes := settleAll b.nodes }
  let gotos := resolveGotos s.endLabel b.nodes b.labels
  let diagnostics := b.diagnostics ++ gotos.diagnostics
  if diagnostics.any (·.fatal) then return ⟨none, diagnostics⟩
  else do
    let (g, warnings) ← buildGraph hash s name b gotos.targets
    return ⟨some g, diagnostics ++ warnings⟩

/-- Compiles a script. -/
def compile (s : Settings) (name text : String) : Except CompileFault Compilation :=
  compileWith TextId.digest s name text

end Script

namespace Compilation

/-- Whether some diagnostic is an error. -/
def hasErrors (c : Compilation) : Bool :=
  c.diagnostics.any Diagnostic.isError

/-- The errors of a compilation. -/
def errors (c : Compilation) : List Diagnostic :=
  c.diagnostics.filter Diagnostic.isError

/-- What is logged at the end of a compilation. -/
def closingEntry (c : Compilation) (name : String) : LogEntry :=
  match c.graph with
  | some g =>
    ⟨.debug, "Compiled '" ++ name ++ "': " ++ Number.natText g.nodes.length ++ " nodes, "
      ++ Number.natText c.errors.length ++ " errors"⟩
  | none => ⟨.debug, "Compile of '" ++ name ++ "' failed"⟩

/-- All that is logged of a compilation: the diagnostics, unless it is silent, and its end. -/
def log (c : Compilation) (name : String) (silent : Bool) : List LogEntry :=
  (if silent then [] else c.diagnostics.map (·.logEntry name)) ++ [c.closingEntry name]

end Compilation

end Colloquy
