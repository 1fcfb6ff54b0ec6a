import Colloquy.Bus.Basic
import Colloquy.Graph.ChoiceTree
import Colloquy.Table
/-!
# The state of a dialogue

A dialogue stands on a line of its script or has ended. Beside the line it keeps the choices that
the line offers, the variables, the choices taken so far and the participants. Participants are told
of every step in ascending order of priority, so the last word is with the highest.
-/

namespace Colloquy

/-- Who takes part in a dialogue, known by a number. -/
structure Participant where
  key : Nat
  priority : Int
  deriving DecidableEq

/-- What participants are told, and after them the listeners of a bus. -/
inductive Notice where
  | starting (label : Option String)
  | line
  | choice (index : Int)
  | proceeding
  | changed (name : String) (value : Value) (fromScript : Bool)
  | requested (name : String)
  | event (name : String) (args : List (Option Value))
  | finished
  deriving DecidableEq

/-- The event that tells listeners of a notice. -/
def Notice.toEvent : Notice → Event
  | .starting label =>
    ⟨.starting, [("start_label", label.elim .unset fun l => .value (.text l))]⟩
  | .line => ⟨.speakerLine, []⟩
  | .choice index => ⟨.choiceMade, [("index", .value (.int index))]⟩
  | .proceeding => ⟨.proceeding, []⟩
  | .changed name value fromScript =>
    ⟨.variableChanged, [("name", .value (.text name)), ("value", .value value),
      ("from_script", .value (.bool fromScript))]⟩
  | .requested name => ⟨.variableRequested, [("name", .value (.text name))]⟩
  | .event name args =>
    ⟨.event, [("name", .value (.text name)), ("args", .list (args.map Datum.ofOption))]⟩
  | .finished => ⟨.finished, []⟩

/-- The state of a dialogue. While choices are collected, `gathering` is the number of the
collection that fills the list; `params` remembers the parameters in use once they were asked
for. -/
structure Dialogue where
  graph : Graph
  participants : List Participant := []
  vars : List (String × Value) := []
  taken : List String := []
  current : Option Node := none
  choices : List Edge := []
  gathering : Nat := 0
  params : Option (List String) := none
  deriving DecidableEq

namespace Dialogue

/-- The name of the script. -/
def name (d : Dialogue) : String :=
  d.graph.name

/-- Whether the dialogue has ended, or has not begun. -/
def isEnded (d : Dialogue) : Bool :=
  d.current.isNone

/-- The value of a variable. -/
def value? (d : Dialogue) (name : String) : Option Value :=
  d.vars.lookup name

/-- The variables as expressions read them. -/
def environment (d : Dialogue) : Expression.Environment :=
  fun name => Datum.ofOption (d.value? name)

/-- The speaker of the current line, empty when the dialogue has ended. -/
def speaker (d : Dialogue) : String :=
  d.current.elim "" (·.speaker)

/-- The current line as messages show it. -/
def describe (d : Dialogue) : String :=
  d.current.elim "<ended>" (·.text)

/-- The choice at a place. -/
def choice? (d : Dialogue) (index : Int) : Option Edge :=
  if index < 0 then none else d.choices[index.toNat]?

/-- Whether a choice has been taken before; one that is not offered has not. -/
def hasTaken (d : Dialogue) (index : Int) : Bool :=
  (d.choice? index).elim false fun e => d.taken.contains e.textId

/-! ### Participants -/

/-- The order in which participants are told: by priority, of one priority as they came. -/
def arrange (ps : List Participant) : List Participant :=
  ps.mergeSort fun p q => p.priority ≤ q.priority

/-- Replaces all participants. -/
def setParticipants (d : Dialogue) (ps : List Participant) : Dialogue :=
  { d with participants := arrange ps }

/-- Lets someone take part. -/
def addParticipant (d : Dialogue) (p : Participant) : Dialogue :=
  { d with participants := arrange (d.participants ++ [p]) }

/-- Lets someone take part no longer. -/
def removeParticipant (d : Dialogue) (key : Nat) : Dialogue :=
  { d with participants := d.participants.eraseP (·.key = key) }

/-! ### Small steps -/

/-- Sets a variable, telling nobody. -/
def put (d : Dialogue) (name : String) (value : Value) : Dialogue :=
  { d with vars := setEntry d.vars name value }

/-- Unsets a variable. -/
def unset (d : Dialogue) (name : String) : Dialogue :=
  { d with vars := eraseEntry d.vars name }

/-- Notes that a choice was taken. -/
def take (d : Dialogue) (textId : String) : Dialogue :=
  if d.taken.contains textId then d else { d with taken := d.taken ++ [textId] }

/-- Moves to a line, or to the end, where no choices have been collected yet. -/
def moveTo (d : Dialogue) (line : Option Node) : Dialogue :=
  { d with current := line, params := none, choices := [], gathering := d.gathering + 1 }

/-- Attaches to a script, standing nowhere in it yet. -/
def attach (d : Dialogue) (g : Graph) : Dialogue :=
  { d with graph := g, current := none, choices := [], gathering := d.gathering + 1 }

/-- Offers a choice on behalf of a collection; one that is no longer the latest offers nothing. -/
def offer (d : Dialogue) (gathering : Nat) (edge : Edge) : Dialogue :=
  if d.gathering = gathering then { d with choices := d.choices ++ [edge] } else d

/-- The parameters of the current line and its choices, each once. -/
def paramsNow (d : Dialogue) : List String :=
  (d.current.elim [] (·.params) ++ d.choices.flatMap (·.params)).eraseDups

/-- The parameters in use, and the dialogue that remembers them. -/
def paramsInUse (d : Dialogue) : List String × Dialogue :=
  match d.params with
  | some names => (names, d)
  | none => (d.paramsNow, { d with params := some d.paramsNow })

end Dialogue

end Colloquy
