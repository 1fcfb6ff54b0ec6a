import Colloquy.Cast.Action
import Colloquy.Dialogue.Flow
import Colloquy.Dialogue.Wording
/-!
# The cast of a scene

A cast is a host whose participants and listeners do what their roles and enrolments say. It keeps
the scripts to choose from, the snapshots that were saved, everyone who ever took part, and every
listener that was ever enrolled, each of these known by its place in the list. A listener goes by a
name until it is dropped; the name may then be given anew.
-/

namespace Colloquy

/-- A participant's role, and how many times each of its rules was used. -/
structure Member where
  role : Role Action
  used : List Nat

/-- A listener's name, what it does, and how many times it did. -/
structure Hearer where
  name : String
  limit : Nat
  actions : List Action
  used : Nat := 0

/-- What a cast keeps. Nothing can be done with the dialogue before it is on stage. -/
structure Cast where
  graphs : List Graph := []
  onStage : Bool := false
  saves : List Snapshot := []
  members : List Member := []
  hearers : List Hearer := []
  names : List (String × Nat) := []

namespace Cast

/-- What happens in a scene with a cast. -/
abbrev Play := Colloquy.Play Cast Deed

/-- The item at a place; negative places count from the end. -/
def at? {α : Type} (items : List α) (place : Int) : Option α :=
  if 0 ≤ place then items[place.toNat]?
  else if 0 ≤ place + items.length then items[(place + items.length).toNat]? else none

/-- Whether a listener still goes by its name. -/
def knows (c : Cast) (listener : Nat) : Bool :=
  c.names.any (·.2 = listener)

/-- A cast with one more participant. -/
def addMember (c : Cast) (r : Role Action) : Cast :=
  { c with members := c.members ++ [⟨r, r.rules.map fun _ => 0⟩] }

/-- A participant with its place among the members. -/
def participant (r : Role Action) (key : Nat) : Participant :=
  ⟨key, if r.bare then 0 else r.priority⟩

/-- The place of the last member of a name. -/
def member? (c : Cast) (name : String) : Option Nat :=
  (c.members.zipIdx.reverse.find? (·.1.role.name = name)).map (·.2)

/-- The listener of a name, and the cast with it: enrolled if there is none yet. -/
def hearer (c : Cast) (e : Enrolment Action) : Nat × Cast :=
  match c.names.lookup e.name with
  | some key => (key, c)
  | none =>
    let key := c.hearers.length
    (key, { c with
      hearers := c.hearers ++ [⟨e.name, e.limit, e.actions, 0⟩]
      names := setEntry c.names e.name key })

/-- Drops the name of a listener. -/
def drop (c : Cast) (name : String) : Cast :=
  { c with names := eraseEntry c.names name }

/-- Counts the use of a rule. -/
def countRule (c : Cast) (key rule : Nat) : Cast :=
  { c with members := c.members.modify key fun m => { m with used := m.used.modify rule (· + 1) } }

/-- Counts the call of a listener. -/
def countCall (c : Cast) (key : Nat) : Cast :=
  { c with hearers := c.hearers.modify key fun h => { h with used := h.used + 1 } }

end Cast

end Colloquy
