import Colloquy.Value.Datum
/-!
# Subscriptions

A bus keeps, for each topic, who listens to it: higher priorities first, and of one priority in the
order of subscription. A listener is known by its number. A weak subscription lasts only as long as
something else keeps its listener alive.

The list of a topic is one object while subscriptions are added to it and removed as finished, and
another one once it was filtered or cleared; editions tell them apart. This decides what is removed
after an event was delivered: only what is finished in the list that the delivery began with. It
also decides who stays alive: that list lasts until the delivery ends, whatever takes its place.
-/

namespace Colloquy

/-- What listeners can be told about. -/
inductive Topic where
  | starting
  | speakerLine
  | choiceMade
  | proceeding
  | variableChanged
  | variableRequested
  | event
  | finished
  deriving DecidableEq

namespace Topic

/-- All topics. -/
def all : List Topic :=
  [starting, speakerLine, choiceMade, proceeding, variableChanged, variableRequested, event,
    finished]

/-- The name of a topic. -/
def name : Topic → String
  | .starting => "STARTING"
  | .speakerLine => "SPEAKER_LINE"
  | .choiceMade => "CHOICE_MADE"
  | .proceeding => "PROCEEDING"
  | .variableChanged => "VARIABLE_CHANGED"
  | .variableRequested => "VARIABLE_REQUESTED"
  | .event => "EVENT"
  | .finished => "FINISHED"

/-- The topic of a name. -/
def ofName? (s : String) : Option Topic :=
  all.find? (·.name = s)

theorem mem_all (t : Topic) : t ∈ all := by
  cases t <;> decide

end Topic

/-- Something that listeners of a topic are told, with its particulars. -/
structure Event where
  topic : Topic
  data : List (String × Datum) := []

/-- What the particulars of an event may not be called: these names mean the bus and the topic. -/
def Event.reserved : List String :=
  ["self", "event_type"]

/-- Whether the particulars of an event have names that they may have. -/
def Event.isProper (e : Event) : Bool :=
  e.data.all fun d => !Event.reserved.contains d.1

/-- Whether the particulars of an event can be shown. -/
def Event.isShowable (e : Event) : Bool :=
  e.data.all fun d => d.2.isShowable

/-- An event that was published. Its number tells it from every other, also from one that says the
same. Whoever holds it can consume it: the listeners that are called for it, and whoever published it,
even while it waits. -/
structure Publication where
  number : Nat
  event : Event

/-- One listener's subscription to one topic. -/
structure Subscription where
  serial : Nat
  listener : Nat
  priority : Int
  oneShot : Bool
  weak : Bool
  deriving DecidableEq

/-- The subscriptions to one topic. -/
structure Roster where
  edition : Nat
  subscriptions : List Subscription
  deriving DecidableEq

/-- The listeners that a roster keeps alive: those with strong subscriptions. -/
def Roster.strong (r : Roster) : List Nat :=
  (r.subscriptions.filter (!·.weak)).map (·.listener)

/-- Subscriptions by topic, and the state of delivery: the events that wait, how many have been given
numbers, which of these were consumed, whether one is being delivered, the edition of the roster that
its delivery began with, and the listeners that the delivery keeps alive, which are those with strong
subscriptions at its beginning, those that its roster kept when it was replaced, and the one called
last. -/
structure Bus where
  rosters : Topic → Option Roster := fun _ => none
  fresh : Nat := 0
  queue : List Publication := []
  issued : Nat := 0
  consumed : List Nat := []
  delivering : Bool := false
  edition : Option Nat := none
  held : List Nat := []
  called : Option Nat := none

namespace Bus

/-- The subscriptions to a topic. -/
def subscriptions (b : Bus) (t : Topic) : List Subscription :=
  (b.rosters t).elim [] (·.subscriptions)

/-- A bus with another roster for a topic. -/
def setRoster (b : Bus) (t : Topic) (r : Option Roster) : Bus :=
  { b with rosters := fun u => if u = t then r else b.rosters u }

/-- Puts a subscription before the first of a lower priority. -/
def enrol (s : Subscription) : List Subscription → List Subscription
  | [] => [s]
  | t :: rest => if s.priority > t.priority then s :: t :: rest else t :: enrol s rest

/-- Subscribes a listener to a topic. -/
def subscribe (b : Bus) (t : Topic) (listener : Nat) (priority : Int) (oneShot weak : Bool) :
    Bus :=
  let s : Subscription := ⟨b.fresh, listener, priority, oneShot, weak⟩
  let roster : Roster :=
    match b.rosters t with
    | some r => { r with subscriptions := enrol s r.subscriptions }
    | none => ⟨b.fresh + 1, [s]⟩
  { b.setRoster t (some roster) with fresh := b.fresh + 2 }

/-- Whether the bus itself keeps a listener alive. -/
def keeps (b : Bus) (listener : Nat) : Bool :=
  b.held.contains listener || b.called = some listener
    || Topic.all.any fun t =>
      (b.subscriptions t).any fun s => !s.weak && s.listener = listener

/-- Whether the listener of a subscription is alive, `known` telling which ones the host keeps. -/
def isLive (known : Nat → Bool) (b : Bus) (s : Subscription) : Bool :=
  !s.weak || known s.listener || b.keeps s.listener

/-- Puts another roster in the place of that of a topic, or none. The delivery that began with the
one replaced still holds it. -/
def replaceRoster (b : Bus) (t : Topic) (r : Option Roster) : Bus :=
  let kept :=
    match b.rosters t with
    | some old => if b.edition = some old.edition then old.strong else []
    | none => []
  { b.setRoster t r with held := b.held ++ kept }

/-- Ends all subscriptions of a living listener to a topic. -/
def unsubscribe (known : Nat → Bool) (b : Bus) (t : Topic) (listener : Nat) : Bus :=
  match b.rosters t with
  | none => b
  | some r =>
    if r.subscriptions.isEmpty then b
    else
      let left := r.subscriptions.filter fun s => !(b.isLive known s && s.listener = listener)
      { b.replaceRoster t (some ⟨b.fresh, left⟩) with fresh := b.fresh + 1 }

/-- Whether a topic has a living listener. -/
def hasSubscribers (known : Nat → Bool) (b : Bus) (t : Topic) : Bool :=
  (b.subscriptions t).any (b.isLive known)

/-- Ends all subscriptions to a topic, or all there are. -/
def clear (b : Bus) : Option Topic → Bus
  | none => Topic.all.foldl (fun b t => b.replaceRoster t none) b
  | some t => b.replaceRoster t none

/-! ### Events -/

/-- Gives out the next number, for an event that nobody has consumed yet. -/
def issue (b : Bus) : Bus :=
  { b with issued := b.issued + 1, consumed := b.consumed.filter fun n => n ≠ b.issued }

/-- Lets an event wait, under the next number. -/
def enqueue (b : Bus) (e : Event) : Bus :=
  { b.issue with queue := b.queue ++ [⟨b.issued, e⟩] }

/-- Consumes the event of a number. -/
def consume (b : Bus) (number : Nat) : Bus :=
  { b with consumed := b.consumed ++ [number] }

/-- Whether an event has been consumed. -/
def isConsumed (b : Bus) (p : Publication) : Bool :=
  b.consumed.contains p.number

/-- Whether anybody is subscribed to a topic, alive or not. -/
def isHeard (b : Bus) (t : Topic) : Bool :=
  !(b.subscriptions t).isEmpty

/-- Begins to deliver an event of a topic and those that will wait. An event that nobody is subscribed
to takes no number, for nobody comes to hold it. -/
def beginDispatch (b : Bus) (t : Topic) : Bus :=
  { (if b.isHeard t then b.issue else b) with delivering := true }

theorem isConsumed_issue (b : Bus) (e : Event) : b.issue.isConsumed ⟨b.issued, e⟩ = false := by
  simp [isConsumed, issue]

theorem isHeard_of_nil {b : Bus} {t : Topic} (none : b.subscriptions t = []) :
    b.isHeard t = false := by
  simp [isHeard, none]

@[simp] theorem rosters_beginDispatch (b : Bus) (t : Topic) :
    (b.beginDispatch t).rosters = b.rosters := by
  unfold beginDispatch
  split <;> rfl

@[simp] theorem subscriptions_beginDispatch (b : Bus) (t u : Topic) :
    (b.beginDispatch t).subscriptions u = b.subscriptions u := by
  simp [subscriptions]

@[simp] theorem fresh_beginDispatch (b : Bus) (t : Topic) :
    (b.beginDispatch t).fresh = b.fresh := by
  unfold beginDispatch
  split <;> rfl

@[simp] theorem queue_beginDispatch (b : Bus) (t : Topic) :
    (b.beginDispatch t).queue = b.queue := by
  unfold beginDispatch
  split <;> rfl

/-- The event that a dispatch begins with has not been consumed, for its number is a new one. -/
theorem isConsumed_beginDispatch {b : Bus} {e : Event} (heard : b.isHeard e.topic = true) :
    (b.beginDispatch e.topic).isConsumed ⟨b.issued, e⟩ = false := by
  rw [beginDispatch, if_pos heard]
  exact b.isConsumed_issue e

theorem beginDispatch_unheard {b : Bus} {t : Topic} (none : b.subscriptions t = []) :
    b.beginDispatch t = { b with delivering := true } := by
  rw [beginDispatch, isHeard_of_nil none]
  rfl

/-- Begins the delivery of an event to the listeners of a roster. -/
def beginDelivery (b : Bus) (r : Roster) : Bus :=
  { b with edition := some r.edition, held := r.strong, called := none }

/-- Ends a delivery: what is finished is removed from the roster of that edition, if the topic still
has it. -/
def endDelivery (b : Bus) (t : Topic) (edition : Nat) (finished : List Nat) : Bus :=
  let b := { b with edition := none, held := [], called := none }
  match b.rosters t with
  | none => b
  | some r =>
    if r.edition = edition then
      b.setRoster t (some { r with
        subscriptions := r.subscriptions.filter fun s => !finished.contains s.serial })
    else b

theorem issued_endDelivery (b : Bus) (t : Topic) (edition : Nat) (finished : List Nat) :
    (b.endDelivery t edition finished).issued = b.issued := by
  unfold endDelivery
  dsimp only
  split
  · rfl
  · split <;> rfl

theorem consumed_endDelivery (b : Bus) (t : Topic) (edition : Nat) (finished : List Nat) :
    (b.endDelivery t edition finished).consumed = b.consumed := by
  unfold endDelivery
  dsimp only
  split
  · rfl
  · split <;> rfl

end Bus

end Colloquy
