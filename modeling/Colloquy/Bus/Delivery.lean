import Colloquy.Scene.Basic
/-!
# Delivering events

An event goes to the subscriptions that its topic has when delivery begins, in order, up to the
first listener after whose call it is consumed. Events published meanwhile wait until it is delivered,
so every listener hears all events in the order in which they were published. Whoever published an
event holds it while it waits and can consume it then; it still goes to its first living listener. A
listener that fails is logged, and the next one is called.
-/

namespace Colloquy.Bus

open Play

variable {η δ : Type} (host : Host η δ)

/-- Calls a listener. -/
def call (p : Publication) (listener : Nat) : Play η δ Unit := do
  changeBus fun b => { b with called := some listener }
  note (.heard listener p.event)
  try host.listen listener p
  catch
    | .endless => throw .endless
    | _ => log .error ("Error in event handler for DialogueEvent." ++ p.event.topic.name)

/-- Calls the listeners of subscriptions in order, up to the first after whose call the event is
consumed; the answer is what is finished: subscriptions for one event, and those of listeners no
longer alive. -/
def callEach (p : Publication) : List Subscription → Play η δ (List Nat)
  | [] => return []
  | s :: rest => do
    let scene ← get
    if scene.bus.isLive (host.knows scene.host) s then
      call host p s.listener
      let done := if s.oneShot then [s.serial] else []
      if (← bus).isConsumed p then return done
      else return done ++ (← callEach p rest)
    else
      changeBus fun b => { b with called := none }
      return s.serial :: (← callEach p rest)

/-- Delivers an event. -/
def deliver (p : Publication) : Play η δ Unit := do
  match (← bus).rosters p.event.topic with
  | none => return ()
  | some r =>
    if r.subscriptions.isEmpty then return ()
    else
      changeBus (·.beginDelivery r)
      let finished ← callEach host p r.subscriptions
      changeBus (·.endDelivery p.event.topic r.edition finished)

/-- Delivers the events that wait, so many at most. -/
def deliverQueue (fuel : Nat) : Play η δ Unit := do
  match (← bus).queue with
  | [] => return ()
  | p :: rest =>
    match fuel with
    | 0 => throw .endless
    | fuel + 1 =>
      changeBus fun b => { b with queue := rest }
      deliver host p
      deliverQueue fuel

/-- Publishes an event; the answer is what its publisher holds of it. An event that nobody is subscribed
to is done with at once and never looked at again, so nothing is held of it. -/
def publish (e : Event) : Play η δ (Option Publication) := do
  let b ← bus
  let p : Publication := ⟨b.issued, e⟩
  if b.delivering then
    changeBus (·.enqueue e)
    return some p
  else
    changeBus (·.beginDispatch e.topic)
    deliver host p
    deliverQueue host host.steps
    changeBus fun b => { b with delivering := false }
    return if b.isHeard e.topic then some p else none

end Colloquy.Bus
