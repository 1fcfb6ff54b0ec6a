import Colloquy.Script.Draft
import Colloquy.Template
/-!
# Wiring

How each statement adds to the draft of a graph. A new node ties the loose ends that wait for it.
Loose ends of a branch are set aside until its block closes and then wait for the node after the
block; loose ends of an option are left to a search, since what follows the option is not known
while the other options are read.
-/

namespace Colloquy.Script.Builder

/-! ### Nodes -/

/-- Adds a node and ties all loose ends that wait for one. With `connect` the last node of the frame
continues to it as well, unless that goes elsewhere already. -/
def append (b : Builder) (d : Draft) (connect : Bool) : Builder :=
  let i := b.nodes.length
  let nodes := b.nodes ++ [{ d with reach := b.top.reach, path := b.path }]
  let nodes := b.looseEdges.foldl (aim (.to i)) nodes
  let nodes := b.looseNodes.foldl (continueTo i) nodes
  let nodes :=
    match b.top.last with
    | some last =>
      if connect && (nodes[last]?.elim false Draft.isLoose) then continueTo i nodes last else nodes
    | none => nodes
  { b with
    nodes := nodes
    top := { b.top with last := some i }
    looseEdges := []
    looseNodes := []
    waiting := []
    labels := b.waiting.foldl (fun labels l => setEntry labels l.1 (some i)) b.labels }

/-- Leaves the loose ends to a search among the nodes that come later. -/
def release (b : Builder) : Builder :=
  { b with
    nodes := b.looseEdges.foldl (aim (.search b.nodes.length)) b.nodes
    looseEdges := []
    looseNodes := [] }

/-! ### Conditional blocks -/

/-- Adds the edge of a branch to a select. -/
def addBranchEdge (b : Builder) (select line reach : Nat) (path : List Branch)
    (condition : Expression) : Builder × EdgeRef :=
  let edge : DraftEdge :=
    { kind := .condition, condition := some condition, line := line, reach := reach, path := path }
  ({ b with nodes := attach b.nodes select edge }, nextEdge b.nodes select)

/-- Sets aside the loose ends of the branch that has been read: those that wait, and the last node
of the branch if it has no successor. -/
def closeBranch (b : Builder) (block : Block) : Builder × Block :=
  let own :=
    match b.top.last with
    | some last =>
      if last ≠ block.select && (b.nodes[last]?.elim false Draft.isLoose) then [last] else []
    | none => []
  ({ b with looseEdges := [], looseNodes := [] },
    { block with
      looseEdges := block.looseEdges ++ b.looseEdges
      looseNodes := block.looseNodes ++ b.looseNodes ++ own })

/-- Closes the innermost frame, whose block is `block`, over the frame `outer`. The branches of a
chained block that are empty offer nothing; any other block without an else branch gets one that is
empty. The loose ends of all branches wait for the next node. -/
def closeBlock (b : Builder) (block : Block) (outer : Frame) (rest : List Frame) : Builder :=
  let frame := b.top
  let (b, block) := b.closeBranch block
  let b := { b with top := { outer with last := some block.after }, below := rest }
  if block.chained then
    { b with
      nodes := block.looseEdges.foldl (aim .end) b.nodes
      looseEdges := []
      looseNodes := block.looseNodes }
  else if block.hasElse then
    { b with looseEdges := block.looseEdges, looseNodes := block.looseNodes }
  else
    let (b, fallback) :=
      b.addBranchEdge block.select frame.line frame.reach b.path Expression.always
    { b with looseEdges := block.looseEdges ++ [fallback], looseNodes := block.looseNodes }

/-- Closes the innermost frame at a line, if it is not the outermost. -/
def pop (b : Builder) (line : Nat) : Builder :=
  match b.below with
  | [] => b
  | outer :: rest =>
    match b.top.kind with
    | .block block =>
      (b.note (.complain line
        ("Missing [endif] for the [if] on line " ++ Number.natText b.top.line))).closeBlock
          block outer rest
    | _ => { b.release with top := outer, below := rest }

/-- Closes frames at a line while the innermost one has a threshold above `indent`; `fuel` is at
least the number of frames that can close. -/
def popAbove (line indent : Nat) : Nat → Builder → Builder
  | 0, b => b
  | fuel + 1, b =>
    if b.below.isEmpty || b.top.threshold ≤ indent then b
    else popAbove line indent fuel (b.pop line)

/-- Closes the frames that a line with an indent closes. -/
def settle (b : Builder) (line indent : Nat) : Builder :=
  popAbove line indent b.below.length b

/-- Closes all frames but the outermost. -/
def popAll (line : Nat) : Nat → Builder → Builder
  | 0, b => b
  | fuel + 1, b => if b.below.isEmpty then b else popAll line fuel (b.pop line)

/-! ### Statements -/

/-- An option: it joins the choice that the frame ends with, or begins one. -/
def option (b : Builder) (line indent : Nat) (text textId : String) : Builder :=
  let joined := (b.lastOf b.top).filter (·.step.kind = .choice)
  let b := if joined.isSome then b.release else b.append ⟨.choice, line, indent, [], 0, []⟩ true
  match b.top.last with
  | none => b
  | some choice =>
    let reach := b.nodes[choice]?.elim 0 (·.indent)
    let edge : DraftEdge :=
      { kind := .decision
        text := text
        textId := textId
        params := Template.params text
        line := line
        reach := reach
        path := b.path }
    { b with
      nodes := attach b.nodes choice edge
      top := ⟨.option, none, indent + 1, reach, line⟩
      below := b.top :: b.below
      looseEdges := [nextEdge b.nodes choice] }

/-- The start of a conditional block. Directly after an option, or before one, its branches offer
options of a choice, and the block is chained to that choice. -/
def openIf (b : Builder) (line indent : Nat) (condition : Expression) (optionNext : Bool) :
    Builder :=
  let follows := (b.lastOf b.top).elim false fun d => d.step.kind = .choice && d.indent ≤ indent
  let chained := follows || optionNext
  let b :=
    if !follows && optionNext then b.append ⟨.choice, line, indent, [], 0, []⟩ true else b
  let outer := b.top
  let select := b.nodes.length
  let draft : Draft := ⟨.select, line, indent, [], 0, []⟩
  let b :=
    if chained then
      let b := b.release.append draft false
      match outer.last with
      | some choice =>
        { b with
          nodes := attach b.nodes choice
            { kind := .chained, destination := .to select, line := line } }
      | none => b
    else b.append draft true
  let after := if chained then outer.last.getD select else select
  let path := b.path
  let frame : Frame :=
    ⟨.block { select := select, chained := chained, after := after }, some select, indent,
      outer.reach, line⟩
  let b := { b with top := frame, below := b.top :: b.below }
  let (b, edge) := b.addBranchEdge select line outer.reach path condition
  { b with looseEdges := [edge] }

/-- A further branch of the innermost block; without a condition the last one. -/
def addBranch (b : Builder) (line : Nat) (condition : Option Expression) (keyword : String) :
    Builder :=
  match b.top.kind with
  | .block block =>
    if block.hasElse then
      b.note (.complain line (keyword ++ " after [else] in the [if] on line "
        ++ Number.natText b.top.line))
    else
      let (b, block) := b.closeBranch block
      let block :=
        { block with branch := block.branch + 1, hasElse := condition.isNone }
      let path := (b.below.reverse).filterMap Frame.branch?
      let b := { b with top := { b.top with kind := .block block, last := some block.select } }
      let (b, edge) :=
        b.addBranchEdge block.select line b.top.reach path (condition.getD Expression.always)
      { b with looseEdges := [edge] }
  | _ => b.note (.complain line (keyword ++ " without a matching [if]"))

/-- The end of the innermost block. -/
def endIf (b : Builder) (line : Nat) : Builder :=
  match b.top.kind, b.below with
  | .block block, outer :: rest => b.closeBlock block outer rest
  | _, _ => b.note (.complain line "[endif] without a matching [if]")

/-- A label for the next node. -/
def label (b : Builder) (endLabel : String) (line : Nat) (name : String) : Builder :=
  if name = endLabel then
    b.note (.complain line ("':" ++ name ++ "' is reserved and can't be declared"))
  else if b.labels.any (·.1 = name) || b.waiting.any (·.1 = name) then
    b.note (.warn line ("Duplicate label ':" ++ name ++ "' ignored, the first one is used"))
  else { b with waiting := b.waiting ++ [(name, line)] }

/-- A text that is said, by the speaker of the line before it if it names none. -/
def bare (b : Builder) (line indent : Nat) (text textId : String) : Builder :=
  match b.lastOf b.top with
  | some ⟨.text speaker _ _ _, _, lastIndent, _, _, _⟩ =>
    if indent < lastIndent then
      b.note (.complain line ("Text line has no speaker: '" ++ text ++ "'"))
    else b.append ⟨.text speaker text textId (Template.params text), line, indent, [], 0, []⟩ true
  | _ => b.note (.complain line ("Text line has no speaker: '" ++ text ++ "'"))

/-! ### Header -/

/-- A header delimiter: it closes the header if it is open, else it opens it. A second header and a
header after other lines are not valid. -/
def delimiter (b : Builder) (line : Nat) : Builder :=
  let state := b.headerState
  if state.inside then { b with headerState := { state with inside := false } }
  else if state.seen then
    { b with headerState := ⟨true, false, true⟩ }.note
      (.complain line "Only one header block is allowed")
  else if !b.nodes.isEmpty || !b.waiting.isEmpty then
    { b with headerState := ⟨true, false, true⟩ }.note
      (.complain line "Header must come before any dialogue lines")
  else { b with headerState := ⟨true, true, true⟩ }

/-- A step of the header, if the header is valid. -/
def headerStep (b : Builder) (d : Draft) : Builder :=
  if b.headerState.valid then { b with header := b.header ++ [d] } else b

/-! ### End of the script -/

/-- Closes what is still open after the last line. -/
def finish (b : Builder) (lastLine : Nat) : Builder :=
  let b :=
    if b.headerState.inside then
      b.note (.complain lastLine "Header block is never closed with '==='")
    else b
  let b := (popAll lastLine b.below.length b).release
  let b :=
    b.waiting.foldl
      (fun b l =>
        { b.note (.warn l.2
            ("Label ':" ++ l.1 ++ "' has no lines after it and ends the dialogue")) with
          labels := setEntry b.labels l.1 none })
      b
  { b with waiting := [] }

end Colloquy.Script.Builder
