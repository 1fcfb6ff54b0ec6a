import Colloquy.Dialogue.Snapshot
import Colloquy.Scene.Basic
/-!
# Actions

What the members of a cast can do, as data: everything that a dialogue and its bus can be asked for,
and a few things that only make sense while a listener is being called. A role says what a
participant does when it is told something, an enrolment what a listener does when it is called.
-/

namespace Colloquy

/-- The kinds of notice. -/
inductive Cue where
  | starting
  | line
  | choice
  | proceeding
  | changed
  | requested
  | event
  | finished
  deriving DecidableEq

/-- The name of a kind of notice. -/
def Cue.name : Cue → String
  | .starting => "starting"
  | .line => "line"
  | .choice => "choice"
  | .proceeding => "proceeding"
  | .changed => "changed"
  | .requested => "requested"
  | .event => "event"
  | .finished => "finished"

/-- The kind of notice of a name. -/
def Cue.ofName? (s : String) : Option Cue :=
  [starting, line, choice, proceeding, changed, requested, event, finished].find? (·.name = s)

/-- The kind of a notice. -/
def Notice.cue : Notice → Cue
  | .starting _ => .starting
  | .line => .line
  | .choice _ => .choice
  | .proceeding => .proceeding
  | .changed .. => .changed
  | .requested _ => .requested
  | .event .. => .event
  | .finished => .finished

/-- What a notice is about: what it names first; a line is about its speaker. -/
def Notice.subject (speaker : String) : Notice → Datum
  | .starting label => label.elim .unset fun l => .value (.text l)
  | .line => .value (.text speaker)
  | .choice index => .value (.int index)
  | .proceeding => .unset
  | .changed name _ _ => .value (.text name)
  | .requested name => .value (.text name)
  | .event name _ => .value (.text name)
  | .finished => .unset

/-- What to do on a kind of notice, perhaps only when it is about something in particular, and how
many times at most. -/
structure Rule (α : Type) where
  cue : Cue
  subject : Option Datum := none
  limit : Nat := 1
  actions : List α := []

/-- A participant's name, priority and rules. One that is bare does nothing and is not seen. -/
structure Role (α : Type) where
  name : String
  priority : Int := 0
  bare : Bool := false
  rules : List (Rule α) := []

/-- A listener's name and what it does when it is called, so many times at most, and the topic that
it subscribes to. -/
structure Enrolment (α : Type) where
  name : String
  topic : Topic
  priority : Int := 0
  oneShot : Bool := false
  weak : Bool := false
  limit : Nat := 1
  actions : List α := []

/-- Something that can be done in a scene. -/
inductive Action where
  -- the bus
  | subscribe (e : Enrolment Action)
  | unsubscribe (topic : Topic) (listener : String)
  | hasSubscribers (topic : Topic)
  | clear (topic : Option Topic)
  | drop (listener : String)
  | publish (event : Event)
  -- while a listener is being called
  | consume
  | particular (key : String) (otherwise : Datum)
  | neededParticular (key : String)
  -- anywhere
  | fail (fault : Fault)
  -- the course of the dialogue
  | attach (graph : Int)
  | start (label : Option String)
  | restart (reset : Bool) (label : Option String) (rerunHeader : Bool)
  | reset (vars position taken : Bool)
  | proceed
  | choose (index : Int)
  | runTo (node : Option Int) (tellEnd : Bool)
  -- what it says
  | isEnded
  | text
  | speaker
  | speakerName
  | choiceCount
  | choiceText (index : Int)
  | choiceTexts
  | hasTaken (index : Int)
  | params
  | name
  -- its variables
  | value (name : String)
  | valueAs (kind : Kind) (name : String)
  | setVariable (name : String) (value : Datum)
  | unsetVariable (name : String)
  -- saving
  | save
  | restore (save : Int)
  | reload (save : Int)
  | restoreText (text : String)
  -- who takes part
  | addParticipant (r : Role Action)
  | removeParticipant (name : String)
  | setParticipants (rs : List (Role Action))
  | participants

/-- Whether an action needs the dialogue. -/
def Action.concernsDialogue : Action → Bool
  | .subscribe _ | .unsubscribe .. | .hasSubscribers _ | .clear _ | .drop _ | .publish _
  | .consume | .particular .. | .neededParticular _ | .fail _ => false
  | _ => true

/-- What comes of an action. -/
inductive Reply where
  | done
  | flag (b : Bool)
  | count (n : Nat)
  | text (s : String)
  | texts (ss : List String)
  | datum (d : Datum)
  | snapshot (s : Snapshot)

/-- Whether what comes of an action can be shown. Saving does not depend on it: a snapshot is kept,
and whoever shows it finds out what cannot be shown of it. -/
def Reply.isShowable : Reply → Bool
  | .datum d => d.isShowable
  | _ => true

/-- An action of a member of the cast, and what came of it. -/
structure Deed where
  action : Action
  reply : Reply

end Colloquy
