import Colloquy.Proofs.Bus.Turns
import Colloquy.Proofs.Cast.Fair
import Colloquy.Proofs.Dialogue.Attended
import Colloquy.Proofs.Dialogue.Outcome
import Colloquy.Proofs.Result
/-!
# Deliveries

Publishing an event while none is delivered leads to its delivery and, after it, to those of the
events that were published meanwhile, one after the other and in the order in which they were
published. When the outermost publication returns, all of them have been delivered.

Whoever publishes an event while another is delivered holds it while it waits. An event that is
consumed then still goes to the first listener that is alive, but no further.
-/

namespace Colloquy.Bus

variable {η δ : Type} {host : Host η δ} {e : Event} {p : Publication}
  {scene between after last : Scene η δ}

/-! ### One delivery -/

/-- A scene in which the delivery of an event to a roster has begun. -/
def begin (scene : Scene η δ) (r : Roster) : Scene η δ :=
  { scene with bus := scene.bus.beginDelivery r }

/-- `Delivers host p scene turns after`: the delivery of `p` leads from the one scene to the other,
and these turns are taken in it. An event without subscriptions is delivered to nobody. -/
inductive Delivers (host : Host η δ) (p : Publication) (scene : Scene η δ) :
    List (Turn η δ) → Scene η δ → Prop where
  | unheard (none : scene.bus.subscriptions p.event.topic = []) : Delivers host p scene [] scene
  | heard {r : Roster} {turns : List (Turn η δ)} {last : Scene η δ}
      (roster : scene.bus.rosters p.event.topic = some r)
      (taken : Turns host p r.subscriptions (begin scene r) turns last) :
      Delivers host p scene turns { last with
        bus := last.bus.endDelivery p.event.topic r.edition (turns.flatMap (·.finished host)) }

theorem deliver_delivers (played : deliver host p scene = .ok () after) :
    ∃ turns, Delivers host p scene turns after := by
  have read (scene : Scene η δ) : Play.bus scene = .ok scene.bus scene := rfl
  rw [deliver, Play.bind_ok (read scene)] at played
  cases roster : scene.bus.rosters p.event.topic with
  | none =>
    rw [roster] at played
    cases played
    exact ⟨[], .unheard (by rw [Bus.subscriptions, roster]; rfl)⟩
  | some r =>
    rw [roster] at played
    dsimp only at played
    split at played
    next none =>
      cases played
      refine ⟨[], .unheard ?_⟩
      rw [Bus.subscriptions, roster]
      exact List.isEmpty_iff.mp none
    · have begun : Play.changeBus (·.beginDelivery r) scene = .ok () (begin scene r) := rfl
      rw [Play.bind_ok begun] at played
      obtain ⟨finished, between, called, played⟩ := Play.bind_inv played
      cases played
      obtain ⟨turns, taken, rfl⟩ := callEach_turns called
      exact ⟨turns, .heard roster taken⟩

namespace Delivers

variable {turns : List (Turn η δ)} {calls : List (List Call)}

theorem served (delivers : Delivers host p scene turns after) :
    Served host p (scene.bus.subscriptions p.event.topic) turns := by
  cases delivers with
  | unheard none =>
    rw [none]
    exact (Turns.done : Turns host p [] scene [] scene).served
  | heard roster taken =>
    rw [Bus.subscriptions, roster]
    exact taken.served

theorem made (delivers : Delivers host p scene turns after) (fair : Fair host)
    (busy : scene.bus.delivering = true) : ∃ calls, Made host p turns calls := by
  cases delivers with
  | unheard none => exact ⟨[], .nil⟩
  | heard roster taken => exact taken.made fair busy

section Made

variable (delivers : Delivers host p scene turns after) (makes : Made host p turns calls)

include delivers makes

theorem delivering : after.bus.delivering = scene.bus.delivering := by
  cases delivers with
  | unheard none => rfl
  | heard roster taken => exact (endDelivery_same _ _ _ _).1.trans (taken.delivering makes)

/-- What is published during the delivery waits. -/
theorem grown : Grown scene.bus (published calls.flatten) after.bus := by
  cases delivers with
  | unheard none =>
    cases makes
    exact .refl scene.bus
  | heard roster taken =>
    have called := taken.grown makes
    constructor
    · exact (issued_endDelivery ..).trans called.issued
    · exact (endDelivery_same _ _ _ _).2.1.trans called.queue

theorem accounted {first : Nat} {past : List Call} (before : Accounted first past scene.bus) :
    AccountedIn first past turns calls after := by
  cases delivers with
  | unheard none =>
    cases makes
    exact .nil before
  | heard roster taken =>
    have called := taken.accounted makes (before.of_same rfl rfl)
    refine ⟨called.each, called.last.of_same ?_ ?_⟩
    · exact issued_endDelivery ..
    · exact consumed_endDelivery ..

theorem heard_eq :
    after.heard = scene.heard ++ (calledIn host turns).map fun s => (s.listener, p.event) := by
  cases delivers with
  | unheard none => exact (List.append_nil _).symm
  | heard roster taken => exact taken.heard makes

end Made

end Delivers

/-- The delivery of an event: the scenes in which it began and ended, the turns that were taken in it,
and the calls of the bus that the listeners made, turn by turn. -/
structure Delivery (η δ : Type) where
  publication : Publication
  before : Scene η δ
  turns : List (Turn η δ)
  calls : List (List Call)
  after : Scene η δ

namespace Delivery

/-- The event that was delivered. -/
def event (d : Delivery η δ) : Event :=
  d.publication.event

/-- The subscriptions whose listeners were called. -/
def called (host : Host η δ) (d : Delivery η δ) : List Subscription :=
  calledIn host d.turns

/-- The events that the listeners published. -/
def published (d : Delivery η δ) : List Event :=
  Bus.published d.calls.flatten

/-- A delivery that took place, with what was done in it. -/
structure Proper (host : Host η δ) (d : Delivery η δ) : Prop where
  delivers : Delivers host d.publication d.before d.turns d.after
  makes : Made host d.publication d.turns d.calls

/-- While a listener is called no other is. -/
theorem Proper.alone {d : Delivery η δ} (proper : d.Proper host) : ∀ t ∈ d.turns,
    t.isCalled host = true →
      t.after.heard = t.before.heard ++ [(t.subscription.listener, d.event)] := by
  intro t member called
  obtain ⟨i, there⟩ := List.mem_iff_getElem?.mp member
  obtain ⟨calls, _, makes⟩ := forall₂_left proper.makes there
  rw [makes.heard, if_pos called]
  rfl

/-- An event was the one of this place among those published since the first, its number tells which,
and whenever a turn of its delivery is over it is consumed exactly if one of the calls made since it was
published has consumed it, be it in this delivery or in one before. -/
structure Tracked (d : Delivery η δ) (first place : Nat) (past : List Call) : Prop where
  number : d.publication.number = first + place
  consumed : ∀ j t, d.turns[j]? = some t → (t.after.bus.isConsumed d.publication = true
    ↔ .consume d.publication.number ∈ since place (past ++ (d.calls.take (j + 1)).flatten))

theorem Proper.tracked {d : Delivery η δ} (proper : d.Proper host) {first place : Nat}
    {past : List Call} (number : d.publication.number = first + place)
    (given : place ≤ (Bus.published past).length) (before : Accounted first past d.before.bus) :
    d.Tracked first place past := by
  refine ⟨number, fun j t there => ?_⟩
  have accounted := (proper.delivers.accounted proper.makes before).each j t there
  rw [isConsumed, List.contains_iff_mem, number]
  -- the account knows of every event that has its number by then
  apply accounted.consumed
  rw [published_append, List.length_append]
  omega

end Delivery

/-- A dispatch on its way to the event of a place: the calls made so far account for the bus, and the
events from that place on wait. -/
structure Pending (first place : Nat) (past : List Call) (waiting : List Event) (b : Bus) : Prop where
  accounted : Accounted first past b
  queue : b.queue = numbered (first + place) waiting
  all : place + waiting.length = (published past).length + 1

namespace Pending

variable {b : Bus} {first place : Nat} {past : List Call} {waiting : List Event}

/-- The first of those that wait is the one whose place it is. -/
theorem pop {rest : List Publication} (before : Pending first place past waiting b)
    (waits : b.queue = p :: rest) :
    p.number = first + place ∧ place ≤ (published past).length
      ∧ ∃ others, Pending first (place + 1) past others { b with queue := rest } := by
  have queue := before.queue
  have all := before.all
  rw [waits] at queue
  cases waiting with
  | nil => cases queue
  | cons e others =>
    rw [numbered_cons, List.cons.injEq] at queue
    obtain ⟨rfl, queue⟩ := queue
    rw [List.length_cons] at all
    exact ⟨rfl, by omega, others, before.accounted.of_same rfl rfl, queue, by omega⟩

/-- A delivery adds what is published in it to those that wait. -/
theorem deliver {d : Delivery η δ} (before : Pending first place past waiting d.before.bus)
    (proper : d.Proper host) :
    Pending first place (past ++ d.calls.flatten) (waiting ++ d.published) d.after.bus := by
  have grown := proper.delivers.grown proper.makes
  have all := before.all
  have issued : d.before.bus.issued = first + place + waiting.length := by
    rw [before.accounted.issued]
    omega
  constructor
  · exact (proper.delivers.accounted proper.makes before.accounted).last
  · rw [grown.queue, before.queue, issued, ← numbered_append]
    rfl
  · rw [published_append, List.length_append, List.length_append, Delivery.published]
    omega

end Pending

/-! ### All deliveries -/

/-- `Drains host scene ds last`: the events that wait are delivered one after the other, the first of
them first. -/
inductive Drains (host : Host η δ) : Scene η δ → List (Delivery η δ) → Scene η δ → Prop where
  | empty {scene : Scene η δ} (none : scene.bus.queue = []) : Drains host scene [] scene
  | next {scene last : Scene η δ} {d : Delivery η δ} {ds : List (Delivery η δ)}
      {rest : List Publication} (waits : scene.bus.queue = d.publication :: rest)
      (begins : d.before = { scene with bus := { scene.bus with queue := rest } })
      (proper : d.Proper host) (later : Drains host d.after ds last) :
      Drains host scene (d :: ds) last

theorem deliverQueue_drains (fair : Fair host) {fuel : Nat} (busy : scene.bus.delivering = true)
    (played : deliverQueue host fuel scene = .ok () last) : ∃ ds, Drains host scene ds last := by
  induction fuel generalizing scene with
  | zero =>
    have read : Play.bus scene = .ok scene.bus scene := rfl
    rw [deliverQueue, Play.bind_ok read] at played
    cases queue : scene.bus.queue with
    | nil =>
      rw [queue] at played
      cases played
      exact ⟨[], .empty queue⟩
    | cons p rest =>
      rw [queue] at played
      cases played
  | succ fuel ih =>
    have read : Play.bus scene = .ok scene.bus scene := rfl
    rw [deliverQueue, Play.bind_ok read] at played
    cases queue : scene.bus.queue with
    | nil =>
      rw [queue] at played
      cases played
      exact ⟨[], .empty queue⟩
    | cons p rest =>
      rw [queue] at played
      let popped : Scene η δ := { scene with bus := { scene.bus with queue := rest } }
      have pops : Play.changeBus (fun b => { b with queue := rest }) scene = .ok () popped := rfl
      dsimp only at played
      rw [Play.bind_ok pops] at played
      obtain ⟨_, between, delivered, played⟩ := Play.bind_inv played
      obtain ⟨turns, delivers⟩ := deliver_delivers delivered
      obtain ⟨calls, makes⟩ := delivers.made fair busy
      obtain ⟨ds, later⟩ := ih ((delivers.delivering makes).trans busy) played
      exact ⟨⟨p, popped, turns, calls, between⟩ :: ds, .next queue rfl ⟨delivers, makes⟩ later⟩

/-- The calls that listeners made in some deliveries. -/
def callsIn (ds : List (Delivery η δ)) : List Call :=
  ds.flatMap (·.calls.flatten)

namespace Drains

variable {ds : List (Delivery η δ)}

theorem queue (drains : Drains host scene ds last) : last.bus.queue = [] := by
  induction drains with
  | empty none => exact none
  | next _ _ _ _ ih => exact ih

theorem of_empty (drains : Drains host scene ds last) (none : scene.bus.queue = []) : ds = [] := by
  cases drains with
  | empty => rfl
  | next waits => cases none.symm.trans waits

/-- What is delivered is what waits and, after it, what is published meanwhile. -/
theorem publications (drains : Drains host scene ds last) : ds.map (·.publication)
    = scene.bus.queue ++ numbered scene.bus.issued (ds.flatMap (·.published)) := by
  induction drains with
  | empty none =>
    rw [none]
    rfl
  | @next scene last d ds rest waits begins proper later ih =>
    have grown := proper.delivers.grown proper.makes
    rw [begins] at grown
    rw [List.map_cons, ih, grown.queue, grown.issued, waits, List.flatMap_cons, numbered_append,
      List.cons_append, List.append_assoc]
    rfl

theorem heard (drains : Drains host scene ds last) :
    last.heard = scene.heard
      ++ ds.flatMap fun d => (d.called host).map fun s => (s.listener, d.event) := by
  induction drains with
  | empty => exact (List.append_nil _).symm
  | next _ begins proper _ ih =>
    rw [ih, proper.delivers.heard_eq proper.makes, begins, List.flatMap_cons, List.append_assoc]
    rfl

theorem proper (drains : Drains host scene ds last) : ∀ d ∈ ds, d.Proper host := by
  induction drains with
  | empty => exact fun _ none => by cases none
  | next _ _ proper _ ih => exact List.forall_mem_cons.mpr ⟨proper, ih⟩

/-- The account goes on from delivery to delivery. -/
theorem tracked (drains : Drains host scene ds last) {first place : Nat} {past : List Call}
    {waiting : List Event} (before : Pending first place past waiting scene.bus) :
    ∀ i (d : Delivery η δ), ds[i]? = some d → d.Tracked first (place + i) (past ++ callsIn (ds.take i)) := by
  induction drains generalizing place past waiting with
  | empty =>
    intro i d there
    cases there
  | @next scene last d ds rest waits begins proper later ih =>
    obtain ⟨number, given, others, popped⟩ := before.pop waits
    have here : Pending first (place + 1) past others d.before.bus := by
      rw [begins]
      exact popped
    intro i d' there
    cases i with
    | zero =>
      cases there
      rw [List.take_zero, callsIn, List.flatMap_nil, List.append_nil]
      exact proper.tracked number given here.accounted
    | succ i =>
      have tracked := ih (here.deliver proper) i d' there
      rw [List.append_assoc, Nat.add_assoc, Nat.add_comm 1 i] at tracked
      exact tracked

end Drains

/-- A scene whose bus is about to deliver an event of a topic. -/
def busy (scene : Scene η δ) (t : Topic) : Scene η δ :=
  { scene with bus := scene.bus.beginDispatch t }

/-- `Dispatch host scene e ds after`: publishing `e` while nothing is delivered leads to these
deliveries, its own first. -/
inductive Dispatch (host : Host η δ) (scene : Scene η δ) (e : Event) :
    List (Delivery η δ) → Scene η δ → Prop where
  | publish {d : Delivery η δ} {ds : List (Delivery η δ)} {last : Scene η δ}
      (own : d.publication = ⟨scene.bus.issued, e⟩) (begins : d.before = busy scene e.topic)
      (proper : d.Proper host) (later : Drains host d.after ds last) :
      Dispatch host scene e (d :: ds) { last with bus := { last.bus with delivering := false } }

theorem deliverQueue_empty {fuel : Nat} (none : scene.bus.queue = []) :
    deliverQueue host fuel scene = .ok () scene := by
  have read : Play.bus scene = .ok scene.bus scene := rfl
  rw [deliverQueue.eq_def, Play.bind_ok read, none]
  rfl

theorem deliverQueue_next {fuel : Nat} {rest : List Publication}
    (waits : scene.bus.queue = p :: rest)
    (delivered : deliver host p { scene with bus := { scene.bus with queue := rest } }
      = .ok () between) :
    deliverQueue host (fuel + 1) scene = deliverQueue host fuel between := by
  have read : Play.bus scene = .ok scene.bus scene := rfl
  have pops : Play.changeBus (fun b => { b with queue := rest }) scene
      = .ok () { scene with bus := { scene.bus with queue := rest } } := rfl
  rw [deliverQueue, Play.bind_ok read, waits]
  exact (Play.bind_ok pops).trans (Play.bind_ok delivered)

/-- Publishing an event while nothing is delivered means to deliver it and what waits after it. -/
theorem publish_idle {held : Option Publication} (idle : scene.bus.delivering = false) :
    Bus.publish host e scene = .ok held after ↔ ∃ between last,
      deliver host ⟨scene.bus.issued, e⟩ (busy scene e.topic) = .ok () between
        ∧ deliverQueue host host.steps between = .ok () last
        ∧ held = (if scene.bus.isHeard e.topic then some ⟨scene.bus.issued, e⟩ else none)
        ∧ after = { last with bus := { last.bus with delivering := false } } := by
  have read : Play.bus scene = .ok scene.bus scene := rfl
  have begins : Play.changeBus (·.beginDispatch e.topic) scene = .ok () (busy scene e.topic) := rfl
  rw [Bus.publish, Play.bind_ok read, if_neg (by rw [idle]; exact Bool.noConfusion),
    Play.bind_ok begins]
  constructor
  · intro played
    obtain ⟨_, between, delivered, played⟩ := Play.bind_inv played
    obtain ⟨_, last, drained, played⟩ := Play.bind_inv played
    cases played
    exact ⟨between, last, delivered, drained, rfl, rfl⟩
  · rintro ⟨between, last, delivered, drained, rfl, rfl⟩
    rw [Play.bind_ok delivered, Play.bind_ok drained]
    rfl

theorem publish_dispatch (fair : Fair host) (idle : scene.bus.delivering = false)
    {held : Option Publication} (played : Bus.publish host e scene = .ok held after) :
    ∃ ds, Dispatch host scene e ds after := by
  obtain ⟨between, last, delivered, drained, _, rfl⟩ := (publish_idle idle).mp played
  obtain ⟨turns, delivers⟩ := deliver_delivers delivered
  have busied : (busy scene e.topic).bus.delivering = true := rfl
  obtain ⟨calls, makes⟩ := delivers.made fair busied
  have delivering : between.bus.delivering = true := (delivers.delivering makes).trans busied
  obtain ⟨ds, drains⟩ := deliverQueue_drains fair delivering drained
  exact ⟨_, .publish (d := ⟨_, busy scene e.topic, turns, calls, between⟩) rfl rfl
    ⟨delivers, makes⟩ drains⟩

/-! ### The course of a bus -/

/-- `Course host ds scene`: a bus came to this scene from its making by calls that its host made while
nothing was delivered, and these are all the deliveries that took place, in order. Between the calls
anything may happen that leaves the bus alone. -/
inductive Course (host : Host η δ) : List (Delivery η δ) → Scene η δ → Prop where
  | made {scene : Scene η δ} (bus : scene.bus = {}) : Course host [] scene
  | elsewhere {ds : List (Delivery η δ)} {scene after : Scene η δ} (course : Course host ds scene)
      (bus : after.bus = scene.bus) : Course host ds after
  | call {ds : List (Delivery η δ)} {scene : Scene η δ} (course : Course host ds scene) (c : Call)
      (plain : c.event? = none) : Course host ds
        { scene with bus := c.change (host.knows scene.host) scene.bus }
  | publish {ds more : List (Delivery η δ)} {scene after : Scene η δ} {e : Event}
      {held : Option Publication} (course : Course host ds scene)
      (returned : Bus.publish host e scene = .ok held after)
      (dispatch : Dispatch host scene e more after) : Course host (ds ++ more) after

/-- Between the calls of its host a bus is idle and nothing waits. -/
theorem Course.idle {ds : List (Delivery η δ)} (course : Course host ds scene) :
    scene.bus.delivering = false ∧ scene.bus.queue = [] := by
  induction course with
  | made bus =>
    rw [bus]
    exact ⟨rfl, rfl⟩
  | elsewhere _ bus ih =>
    rw [bus]
    exact ih
  | call _ c plain ih =>
    refine ⟨(c.delivering_change _ _).trans ih.1, (c.grown _ _).queue.trans ?_⟩
    rw [ih.2, plain]
    rfl
  | publish _ _ dispatch _ =>
    cases dispatch with
    | publish _ _ _ later => exact ⟨rfl, later.queue⟩

/-- What publishing an event leads to while nothing is delivered: the event is delivered and after it,
one after the other, every event that listeners publish, each once and in the order in which they were
published. Every delivery goes to the subscriptions that the topic has when it begins, up to the first
listener after whose call the event is consumed, which is so exactly if somebody has consumed it since it
was published. While a listener is called no other is, and nobody is called but those whose turns they
are. In the end the bus is idle and nothing waits. -/
structure InOrder (host : Host η δ) (e : Event) (scene : Scene η δ) (ds : List (Delivery η δ))
    (after : Scene η δ) : Prop where
  publications : ds.map (·.publication)
    = numbered scene.bus.issued (e :: ds.flatMap (·.published))
  served : ∀ d ∈ ds,
    Served host d.publication (d.before.bus.subscriptions d.event.topic) d.turns
  made : ∀ d ∈ ds, Made host d.publication d.turns d.calls
  consumed : ∀ i (d : Delivery η δ), ds[i]? = some d → d.Tracked scene.bus.issued i (callsIn (ds.take i))
  alone : ∀ d ∈ ds, ∀ t ∈ d.turns, t.isCalled host = true →
    t.after.heard = t.before.heard ++ [(t.subscription.listener, d.event)]
  heard : after.heard = scene.heard
    ++ ds.flatMap fun d => (d.called host).map fun s => (s.listener, d.event)
  idle : after.bus.delivering = false
  empty : after.bus.queue = []

/-- An event that nobody is subscribed to when it is published is the only one delivered. -/
theorem Dispatch.unheard {ds : List (Delivery η δ)} (empty : scene.bus.queue = [])
    (dispatch : Dispatch host scene e ds after) (none : scene.bus.isHeard e.topic = false) :
    ∃ d, ds = [d] ∧ d.publication = ⟨scene.bus.issued, e⟩ ∧ d.turns = [] ∧ d.calls = [] := by
  cases dispatch with
  | @publish d ds last own begins proper later =>
    have alone : d.before.bus.subscriptions d.publication.event.topic = [] := by
      rw [begins, own]
      rw [isHeard, Bool.not_eq_false', List.isEmpty_iff] at none
      exact (subscriptions_beginDispatch ..).trans none
    have turns : d.turns = [] := by
      have served := proper.delivers.served.inOrder
      rw [alone, List.prefix_nil, List.map_eq_nil_iff] at served
      exact served
    have calls : d.calls = [] := by
      have makes := proper.makes
      rw [turns] at makes
      exact List.forall₂_nil_left_iff.mp makes
    have waits : d.after.bus.queue = [] := by
      rw [(proper.delivers.grown proper.makes).queue, begins, calls]
      exact (List.append_nil _).trans ((queue_beginDispatch ..).trans empty)
    rw [later.of_empty waits]
    exact ⟨d, rfl, own, turns, calls⟩

/-- The account begins with a dispatch. -/
theorem accounted_beginDispatch {b : Bus} (heard : b.isHeard e.topic = true) :
    Accounted b.issued [] (b.beginDispatch e.topic) := by
  have unconsumed := isConsumed_beginDispatch heard
  rw [isConsumed, ← Bool.not_eq_true, List.contains_iff_mem] at unconsumed
  constructor
  · rw [beginDispatch, if_pos heard]
    rfl
  · intro k upTo
    obtain rfl : k = 0 := Nat.le_zero.mp upTo
    simp [since, unconsumed]

theorem Dispatch.publications {ds : List (Delivery η δ)} (empty : scene.bus.queue = [])
    (dispatch : Dispatch host scene e ds after) : ds.map (·.publication)
      = numbered scene.bus.issued (e :: ds.flatMap (·.published)) := by
  -- an event that nobody hears takes no number, and nothing comes of it
  cases heard : scene.bus.isHeard e.topic with
  | false =>
    obtain ⟨d, rfl, own, _, calls⟩ := dispatch.unheard empty heard
    have silent : d.published = [] := by
      rw [Delivery.published, calls]
      rfl
    rw [List.flatMap_singleton, silent, List.map_singleton, own]
    rfl
  | true =>
    cases dispatch with
    | @publish d ds last own begins proper later =>
      have grown := proper.delivers.grown proper.makes
      have issued : d.before.bus.issued = scene.bus.issued + 1 := by
        rw [begins]
        exact (accounted_beginDispatch heard).issued
      have waits : d.before.bus.queue = [] := by
        rw [begins]
        exact (queue_beginDispatch ..).trans empty
      rw [List.map_cons, later.publications, grown.queue, grown.issued, waits, issued,
        List.nil_append, own, numbered_cons, List.flatMap_cons, numbered_append]
      rfl

theorem Dispatch.tracked {ds : List (Delivery η δ)} (empty : scene.bus.queue = [])
    (dispatch : Dispatch host scene e ds after) :
    ∀ i (d : Delivery η δ), ds[i]? = some d → d.Tracked scene.bus.issued i (callsIn (ds.take i)) := by
  cases heard : scene.bus.isHeard e.topic with
  | false =>
    obtain ⟨d, rfl, own, turns, _⟩ := dispatch.unheard empty heard
    intro i d' there
    cases i with
    | zero =>
      cases there
      refine ⟨by rw [own]; rfl, fun j t turn => ?_⟩
      rw [turns] at turn
      cases turn
    | succ i => cases there
  | true =>
    cases dispatch with
    | @publish d ds last own begins proper later =>
      have before : Pending scene.bus.issued 1 [] [] d.before.bus := by
        rw [begins]
        exact ⟨accounted_beginDispatch heard, (queue_beginDispatch ..).trans empty, rfl⟩
      intro i d' there
      cases i with
      | zero =>
        cases there
        exact proper.tracked (by rw [own]; rfl) (Nat.zero_le _) before.accounted
      | succ i =>
        have tracked := later.tracked (before.deliver proper) i d' there
        rw [Nat.add_comm 1 i] at tracked
        exact tracked

theorem Dispatch.inOrder {ds : List (Delivery η δ)} (empty : scene.bus.queue = [])
    (dispatch : Dispatch host scene e ds after) : InOrder host e scene ds after := by
  have publications := dispatch.publications empty
  have tracked := dispatch.tracked empty
  cases dispatch with
  | @publish d ds last own begins proper later =>
    have proper' : ∀ d' ∈ d :: ds, d'.Proper host := List.forall_mem_cons.mpr ⟨proper, later.proper⟩
    refine ⟨publications, fun d' member => (proper' d' member).delivers.served,
      fun d' member => (proper' d' member).makes, tracked,
      fun d' member => (proper' d' member).alone, ?_, rfl, later.queue⟩
    change last.heard = _
    rw [later.heard, proper.delivers.heard_eq proper.makes, begins, List.flatMap_cons,
      List.append_assoc]
    rfl

/-- If listeners use the bus by its calls alone, whatever is published and returns is delivered in order
and takes the course further. -/
theorem Course.extend (fair : Fair host) {past : List (Delivery η δ)} (course : Course host past scene)
    {held : Option Publication} (returned : Bus.publish host e scene = .ok held after) :
    ∃ ds, Dispatch host scene e ds after ∧ InOrder host e scene ds after
      ∧ Course host (past ++ ds) after := by
  obtain ⟨idle, empty⟩ := course.idle
  obtain ⟨ds, dispatch⟩ := publish_dispatch fair idle returned
  exact ⟨ds, dispatch, dispatch.inOrder empty, course.publish returned dispatch⟩

/-- Whatever listeners do while they are called: every event that is published is delivered once, in
the order in which the events were published and never before the listeners of another are done. -/
theorem published_events_delivered_in_order (fair : Fair host) {past : List (Delivery η δ)}
    (course : Course host past scene) :
    scene.bus.delivering = false ∧ scene.bus.queue = []
      ∧ ∀ e held after, Bus.publish host e scene = .ok held after →
        ∃ ds, Dispatch host scene e ds after ∧ InOrder host e scene ds after
          ∧ Course host (past ++ ds) after :=
  ⟨course.idle.1, course.idle.2, fun _ _ _ returned => course.extend fair returned⟩

/-- A scene with three listeners, the first of which publishes another event when it is called. -/
def relay : Scene Cast Deed where
  dialogue := { graph := ⟨"", [], none, none, []⟩ }
  bus := (((({} : Bus).subscribe .starting 0 0 false false).subscribe .finished 1 0 false
    false).subscribe .starting 2 0 false false)
  host := { hearers := [⟨"a", 1, [.publish { topic := .finished }], 0⟩, ⟨"b", 1, [], 0⟩,
    ⟨"c", 1, [], 0⟩] }

/-- What the first listener publishes waits until the third has heard the event too. -/
theorem relayed_event_waits : Fair (Cast.hostOf 2) ∧ Course (Cast.hostOf 2) [] relay
    ∧ ∃ ds held after, Bus.publish (Cast.hostOf 2) { topic := .starting } relay = .ok held after
      ∧ InOrder (Cast.hostOf 2) { topic := .starting } relay ds after
      ∧ after.heard.map (fun h => (h.1, h.2.topic))
          = [(0, .starting), (2, .starting), (1, .finished)] := by
  have made : Course (Cast.hostOf 2) [] { relay with bus := {} } := .made rfl
  have course : Course (Cast.hostOf 2) [] relay :=
    ((made.call (.subscribe .starting 0 0 false false) rfl).call
      (.subscribe .finished 1 0 false false) rfl).call (.subscribe .starting 2 0 false false) rfl
  have plays : ((Bus.publish (Cast.hostOf 2) { topic := .starting }).done? relay).any (fun r =>
      r.2.heard.map (fun h => (h.1, h.2.topic))
        = [(0, .starting), (2, .starting), (1, .finished)]) = true := by
    decide +kernel
  obtain ⟨⟨held, after⟩, done, heard⟩ := (Option.any_eq_true _ _).1 plays
  have returned := Play.of_done? done
  obtain ⟨_, _, delivers⟩ := published_events_delivered_in_order (Cast.hostOf_fair 2) course
  obtain ⟨ds, _, inOrder, _⟩ := delivers _ _ _ returned
  exact ⟨Cast.hostOf_fair 2, course, ds, held, after, returned, inOrder, of_decide_eq_true heard⟩

/-! ### Who is left out -/

/-- Every listener that is alive when the delivery begins is called, unless one that is called consumes
the event. -/
def Delivery.Exhaustive (host : Host η δ) (d : Delivery η δ) : Prop :=
  ∀ s ∈ d.before.bus.subscriptions d.event.topic,
    d.before.bus.isLive (host.knows d.before.host) s = true →
      s ∈ d.called host ∨ .consume d.publication.number ∈ d.calls.flatten

/-- A host that keeps its second listener alive, with listeners that do nothing. -/
def still : Host Bool Unit where
  knows kept listener := kept && listener = 1
  react _ _ := pure ()
  listen _ _ := pure ()
  steps := 2
  depth := 1

/-- The first listener lets go of the second, publishes another event and consumes that while it
waits. -/
def meddler : Host Bool Unit :=
  { still with
    listen := fun
      | 0, _ => do
        Play.changeHost fun _ => false
        let held ← Bus.publish still { topic := .finished }
        held.elim (pure ()) fun p => Play.changeBus (·.consume p.number)
      | _, _ => pure () }

theorem meddler_fair : Fair meddler := by
  intro listener p
  cases listener with
  | zero =>
    refine Mannerly.bind (.of_elsewhere (fun _ => rfl) fun _ => rfl) fun _ => ?_
    refine Mannerly.bind (fun scene busy => ?_) fun held => ?_
    · rw [Play.leaves, publish_delivering busy]
      exact ⟨[.publish { topic := .finished }], Uses.nothing.call (.publish _)⟩
    · cases held with
      | none => exact .pure ()
      | some q => exact fun _ _ => ⟨[.consume q.number], Uses.nothing.call (.consume q.number)⟩
  | succ => exact .pure ()

/-- A scene with two listeners for each of two events; the second one is subscribed weakly. -/
def meddled : Scene Bool Unit where
  dialogue := { graph := ⟨"", [], none, none, []⟩ }
  bus := ((((({} : Bus).subscribe .starting 0 0 false false).subscribe .starting 1 0 false
    true).subscribe .finished 2 0 false false).subscribe .finished 3 0 false false)
  host := true

/-- A subscription of the scene, for more than one event. -/
def enrolled (serial listener : Nat) (weak : Bool) : Subscription :=
  ⟨serial, listener, 0, false, weak⟩

/-- The delivery of the first event: the first listener is called, and the second is gone. -/
def opening : Delivery Bool Unit :=
  let p : Publication := ⟨0, { topic := .starting }⟩
  let begun := begin (busy meddled .starting) ⟨1, [enrolled 0 0 false, enrolled 2 1 true]⟩
  let called := (call meddler p 0).leaves begun
  { publication := p
    before := busy meddled .starting
    turns := [⟨enrolled 0 0 false, begun, called⟩, ⟨enrolled 2 1 true, called, skip called⟩]
    calls := [[.publish { topic := .finished }, .consume 1], []]
    after := { skip called with bus := (skip called).bus.endDelivery .starting 1 [2] } }

/-- The delivery of the event that was consumed while it waited: the third listener is called. -/
def closing : Delivery Bool Unit :=
  let p : Publication := ⟨1, { topic := .finished }⟩
  let before := { opening.after with bus := { opening.after.bus with queue := [] } }
  let begun := begin before ⟨5, [enrolled 4 2 false, enrolled 6 3 false]⟩
  let called := (call meddler p 2).leaves begun
  { publication := p
    before := before
    turns := [⟨enrolled 4 2 false, begun, called⟩]
    calls := [[]]
    after := { called with bus := called.bus.endDelivery .finished 5 [] } }

theorem opening_proper : opening.Proper meddler where
  delivers := .heard (r := ⟨1, _⟩) rfl (.left rfl rfl rfl (.passed rfl .done))
  makes := by
    -- the listener is let go before the calls of the bus
    let told := addressed (opening.turns.head (by decide)).before 0 opening.publication
    have letGo : Uses meddler.knows told [] { told with host := false } :=
      Uses.nothing.elsewhere rfl rfl
    exact .cons ((letGo.call (.publish { topic := .finished })).call (.consume 1))
      (.cons ⟨rfl, rfl⟩ .nil)

theorem closing_proper : closing.Proper meddler where
  delivers := .heard (r := ⟨5, _⟩) rfl (.consumed rfl rfl rfl)
  makes := .cons .nothing .nil

/-- The second listener is not called, for it is gone when its turn comes, and neither is the fourth,
although nobody who is called for the other event consumes it. -/
theorem listeners_left_out : Fair meddler ∧ Course meddler [] meddled
    ∧ ∃ held after, Bus.publish meddler { topic := .starting } meddled = .ok held after
      ∧ Dispatch meddler meddled { topic := .starting } [opening, closing] after
      ∧ ¬ opening.Exhaustive meddler ∧ ¬ closing.Exhaustive meddler := by
  have made : Course meddler [] { meddled with bus := {} } := .made rfl
  have course : Course meddler [] meddled :=
    (((made.call (.subscribe .starting 0 0 false false) rfl).call
      (.subscribe .starting 1 0 false true) rfl).call
      (.subscribe .finished 2 0 false false) rfl).call (.subscribe .finished 3 0 false false) rfl
  have waits : opening.after.bus.queue = [closing.publication] := rfl
  have drains : Drains meddler opening.after [closing] closing.after :=
    .next waits rfl closing_proper (.empty rfl)
  have opens : deliver meddler opening.publication (busy meddled .starting) = .ok () opening.after :=
    rfl
  have delivered : deliver meddler closing.publication closing.before = .ok () closing.after := rfl
  have closes : deliverQueue meddler meddler.steps opening.after = .ok () closing.after :=
    (deliverQueue_next rfl delivered).trans (deliverQueue_empty rfl)
  refine ⟨meddler_fair, course, _, _, (publish_idle rfl).mpr ⟨_, _, opens, closes, rfl, rfl⟩,
    .publish rfl rfl opening_proper drains, ?_, ?_⟩
  · intro all
    obtain called | consumes := all (enrolled 2 1 true) (by decide) (by decide)
    · exact absurd called (by decide)
    · simp [opening] at consumes
  · intro all
    obtain called | consumes := all (enrolled 6 3 false) (by decide) (by decide)
    · exact absurd called (by decide)
    · simp [closing] at consumes

end Colloquy.Bus
