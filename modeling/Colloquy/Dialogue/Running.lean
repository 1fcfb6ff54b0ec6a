import Colloquy.Bus.Delivery
/-!
# Running steps

Participants are told of what happens first and listeners after them, except of requests for a
variable, which listeners hear first so that participants can still have the last word on its value.
Who takes part when the telling begins is told, whatever the others do meanwhile.

Between lines a dialogue runs the steps that set variables, select a branch or raise an event. An
expression is evaluated after all its variables were asked for; one that is refused is logged and
has no value. Such an expression lets a condition fail, leaves a variable unset and gives an event
an empty argument.
-/

namespace Colloquy.Dialogue

open Play

variable {η δ : Type} (host : Host η δ)

/-! ### Telling -/

/-- Tells one participant. -/
def tell (notice : Notice) (p : Participant) : Play η δ Unit := do
  note (.told p.key notice (← dialogue).speaker)
  host.react p.key notice

/-- Tells all participants. -/
def tellAll (notice : Notice) : Play η δ Unit := do
  (← dialogue).participants.forM (tell host notice)

/-- Tells the listeners. -/
def publish (notice : Notice) : Play η δ Unit := do
  let _ ← Bus.publish host notice.toEvent

/-- Tells participants, then listeners. -/
def announce (notice : Notice) : Play η δ Unit := do
  tellAll host notice
  publish host notice

/-- Asks for a variable before it is read: listeners, then participants. -/
def request (name : String) : Play η δ Unit := do
  publish host (.requested name)
  tellAll host (.requested name)

/-- Logs something about a step of the script. -/
def logAt (level : Level) (node : Node) (message : String) : Play η δ Unit := do
  log level ("Error in " ++ (← dialogue).name ++ " line " ++ node.line.display ++ ": " ++ message)

/-! ### Running -/

/-- The value of an expression of a step. -/
def evaluate (e : Expression) (node : Node) : Play η δ (Option Value) := do
  e.names.forM (request host)
  match e.evaluate (← dialogue).environment with
  | .ok v => return v
  | .error (.refused r) =>
    logAt .error node (r.message e.source)
    return none
  | .error f => throw (.evaluation f)

/-- Whether a condition of a step holds. -/
def holds (node : Node) : Option Expression → Play η δ Bool
  | none => return false
  | some e => do return truthOrUnset (← evaluate host e node)

/-- The node that an edge leads to. -/
def target (edge : Edge) : Play η δ (Option Node) := do
  orFault .lost ((← dialogue).graph.target edge)

/-- The node after a step. -/
def next (node : Node) : Play η δ (Option Node) := do
  orFault .lost ((← dialogue).graph.next node)

/-- Takes the first branch whose condition holds; if there is none the path ends. -/
def takeBranch (node : Node) : List Edge → Play η δ (Option Node)
  | [] => return none
  | edge :: rest => do
    if ← holds host node edge.condition then target edge
    else takeBranch node rest

/-- Sets a variable and tells of it, unless it has that value already. -/
def assign (name : String) (value : Value) (fromScript : Bool) : Play η δ Unit := do
  unless equalOrUnset ((← dialogue).value? name) (some value) do
    changeDialogue (·.put name value)
    announce host (.changed name value fromScript)

/-- Runs a step that sets a variable. -/
def runAssignment (node : Node) : Play η δ Unit := do
  match node.expression with
  | none => return ()
  | some e =>
    match ← evaluate host e node with
    | some v => assign host node.identifier v true
    | none =>
      logAt .warning node ("[set " ++ node.identifier ++ "] produced no value, skipped")

/-- Runs a step that raises an event. -/
def runEvent (node : Node) : Play η δ Unit := do
  let args ← node.eventArgs.mapM fun e => evaluate host e node
  announce host (.event node.eventName args)

/-- Runs a step; the answer is the node to go on with. -/
def runNode (node : Node) : Play η δ (Option Node) := do
  match node.kind with
  | .select => takeBranch host node node.edges
  | .setVariable =>
    runAssignment host node
    next node
  | .event =>
    runEvent host node
    next node
  | _ => return none

/-- Runs steps from a node on, so many at most, up to the first node that is not run. -/
def runOn (fuel : Nat) (node : Option Node) : Play η δ (Option Node) := do
  match node with
  | none => return none
  | some node =>
    if node.kind.runsOn then
      match fuel with
      | 0 => throw .endless
      | fuel + 1 => runOn fuel (← runNode host node)
    else return some node

end Colloquy.Dialogue
