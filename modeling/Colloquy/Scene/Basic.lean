import Colloquy.Dialogue.Basic
import Colloquy.Script.Diagnostic
import Colloquy.Value.Saved
/-!
# Scenes

A scene is a dialogue, the bus that its listeners use, and whatever its host keeps. The host answers
for what participants and listeners do when they are called; they may use dialogue and bus in turn,
so all of these run in one monad over the scene. What happens is entered in a journal.

Whatever fails leaves the scene as it was when it failed.
-/

namespace Colloquy

/-- Why a step of a scene fails. -/
inductive Fault where
  /-- an evaluation has no result, and not because an operator does not apply -/
  | evaluation (f : Expression.EvalFault)
  /-- a reference of the script leads nowhere -/
  | lost (f : RefFault)
  /-- a payload does not give a value -/
  | unsuitable (e : RestoreError)
  /-- a text is no snapshot; these fields are at fault -/
  | invalid (fields : List String)
  /-- a datum that is no value for a variable -/
  | unstorable (name : String) (d : Datum)
  /-- a number beyond the digit limit has to be shown -/
  | tooManyDigits
  /-- there is nothing there to be asked -/
  | absent
  /-- there is nothing of that name -/
  | unknown
  /-- there is nothing at that place -/
  | outOfRange
  /-- an event with a particular of a name that is reserved -/
  | reserved
  /-- the host makes a step fail -/
  | raised (message : String)
  /-- calls or choices are nested too deep -/
  | tooDeep
  /-- a bound on steps is reached -/
  | endless

/-- An entry of the journal. -/
inductive Note (δ : Type) where
  /-- something was logged -/
  | logged (entry : LogEntry)
  /-- a participant was told something, while this speaker had the word -/
  | told (key : Nat) (notice : Notice) (speaker : String)
  /-- a listener was called -/
  | heard (listener : Nat) (event : Event)
  /-- an entry of the host -/
  | deed (d : δ)

/-- A dialogue with its bus, what its host keeps, and the journal. -/
structure Scene (η δ : Type) where
  dialogue : Dialogue
  bus : Bus
  host : η
  journal : List (Note δ) := []

/-- What happens in a scene. -/
abbrev Play (η δ : Type) := EStateM Fault (Scene η δ)

/-- What a host answers for: the listeners it keeps alive, what participants and listeners do when
they are called, and how long runs and how deep trees of choices may get. -/
structure Host (η δ : Type) where
  knows : η → Nat → Bool
  react : Nat → Notice → Play η δ Unit
  listen : Nat → Publication → Play η δ Unit
  steps : Nat
  depth : Nat

namespace Play

variable {η δ : Type}

/-- The dialogue as it is. -/
def dialogue : Play η δ Dialogue := do
  return (← get).dialogue

/-- The bus as it is. -/
def bus : Play η δ Bus := do
  return (← get).bus

/-- Changes the dialogue. -/
def changeDialogue (f : Dialogue → Dialogue) : Play η δ Unit :=
  modify fun s => { s with dialogue := f s.dialogue }

/-- Changes the bus. -/
def changeBus (f : Bus → Bus) : Play η δ Unit :=
  modify fun s => { s with bus := f s.bus }

/-- Changes what the host keeps. -/
def changeHost (f : η → η) : Play η δ Unit :=
  modify fun s => { s with host := f s.host }

/-- Makes an entry in the journal. -/
def note (n : Note δ) : Play η δ Unit :=
  modify fun s => { s with journal := s.journal ++ [n] }

/-- Logs a message. -/
def log (level : Level) (message : String) : Play η δ Unit :=
  note (.logged ⟨level, message⟩)

/-- A result, or the fault that its error amounts to. -/
def orFault {ε α : Type} (fault : ε → Fault) : Except ε α → Play η δ α
  | .ok a => pure a
  | .error e => throw (fault e)

end Play

end Colloquy
