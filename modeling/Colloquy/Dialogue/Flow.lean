import Colloquy.Dialogue.Choices
import Colloquy.Dialogue.Snapshot
/-!
# The course of a dialogue

Starting, restarting and resetting a dialogue, going on from a line by a choice, and saving and
restoring. The header of a script runs whenever the variables are reset. A dialogue is restored by
running its header first, so that variables that the script has gained since have their values, and
then taking over what was saved.
-/

namespace Colloquy.Dialogue

open Play

variable {η δ : Type} (host : Host η δ)

/-- Runs the header. -/
def runHeader : Play η δ Unit := do
  runTo host (← orFault .lost (← dialogue).graph.headerNode) false

/-- Unsets all variables and runs the header. -/
def resetVariables : Play η δ Unit := do
  changeDialogue fun d => { d with vars := [] }
  runHeader host

/-- Attaches the dialogue to a script, with variables as its header sets them. -/
def attachTo (g : Graph) : Play η δ Unit := do
  changeDialogue (·.attach g)
  resetVariables host

/-- Resets variables, position and the choices taken, each if asked to. -/
def reset (vars position taken : Bool) : Play η δ Unit := do
  if vars then resetVariables host
  if position then setLine host none true
  if taken then changeDialogue fun d => { d with taken := [] }

/-- The node to start from: the one that a label names, if it can be started from, else the first
of the script. A label that cannot be used is logged. -/
def startNode (label : Option String) : Play η δ (Option Node) := do
  let d ← dialogue
  let first ← orFault .lost d.graph.firstNode
  let label := label.getD ""
  if label = "" then return first
  else
    match ← orFault .lost (d.graph.nodeByLabel label) with
    | none =>
      log .error ("No start label called '" ++ label ++ "' in dialogue " ++ d.name)
      return first
    | some node =>
      if node.kind = .choice then
        log .error ("Label '" ++ label ++ "' in dialogue " ++ d.name
          ++ " cannot be used as a start point, it points to a choice")
        return first
      else return some node

/-- Runs the dialogue again from its start or a label, resetting it first if asked to; if it is not
reset the header may run again. -/
def restart (resetFirst : Bool) (label : Option String) (rerunHeader : Bool) : Play η δ Unit := do
  if resetFirst then reset host true true true
  announce host (.starting label)
  if !resetFirst && rerunHeader then runHeader host
  runTo host (← startNode label) true

/-- Starts the dialogue unless it is on a line already. -/
def start (label : Option String) : Play η δ Unit := do
  if (← dialogue).isEnded then restart host false label false

/-- Whether the dialogue goes on. -/
def isRunning : Play η δ Bool := do
  return !(← dialogue).isEnded

/-- Logs that there is no choice at a place, if the place can be shown. -/
def logBadChoice (index : Int) : Play η δ Unit := do
  if Number.exceedsDigitLimit index then throw .tooManyDigits
  log .error ("Invalid choice index " ++ Number.intText index ++ " on line '"
    ++ (← dialogue).describe ++ "'")

/-- Runs the steps between a line and its choices, which belong to every option. -/
def runToChoice (line : Node) : Play η δ Unit := do
  if line.edges.length = 1 then
    let _ ← runOn host host.steps (← next line)

/-- Takes one of the choices offered; the answer is whether the dialogue goes on. -/
def choose (index : Int) : Play η δ Bool := do
  let d ← dialogue
  match d.choice? index with
  | none =>
    logBadChoice index
    return false
  | some edge =>
    if d.current.elim false (·.hasChoices) then
      changeDialogue (·.take edge.textId)
      announce host (.choice index)
      announce host .proceeding
      match (← dialogue).current with
      | none => throw .absent
      | some line => runToChoice host line
    else announce host .proceeding
    runTo host (← target edge) true
    isRunning

/-- Goes on from a line that leaves only one way; the answer is whether the dialogue goes on. -/
def proceed : Play η δ Bool := do
  if (← dialogue).choices.length = 1 then choose host 0
  else isRunning

/-! ### Saving and restoring -/

/-- What has to be kept of a dialogue. -/
def snapshot (d : Dialogue) : Snapshot :=
  Snapshot.capture (d.current.elim "" (·.textId)) d.vars d.taken

/-- Goes on from a snapshot. A line that the script no longer has is logged, and the dialogue has
then ended. -/
def restore (s : Snapshot) : Play η δ Unit := do
  resetVariables host
  let values ← orFault .unsuitable s.values
  changeDialogue fun d =>
    { d with vars := setEntries d.vars values, taken := s.taken }
  let d ← dialogue
  let line := if s.isEnded then none else d.graph.nodeByTextId s.textId
  if !s.isEnded && line.isNone then
    log .warning ("Saved line " ++ s.textId ++ " is not in dialogue " ++ d.name
      ++ ", restored as ended")
  setLine host line true

end Colloquy.Dialogue
