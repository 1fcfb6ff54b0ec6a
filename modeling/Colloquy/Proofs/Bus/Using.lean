import Colloquy.Proofs.Dialogue.Quiet
/-!
# Using a bus

Whoever is called by a bus can only use it by calling it in turn, or by consuming an event that it
holds. Subscribing, unsubscribing, clearing and consuming take effect at once; what is published
meanwhile is put at the end of the queue, under the next number. Seen from the bus, what a listener
does is a sequence of such calls, with anything else between them.
-/

namespace Colloquy

variable {η δ α β : Type}

/-- The scene that something played leaves, whether it comes to its end or fails. -/
def Play.leaves (x : Play η δ α) (scene : Scene η δ) : Scene η δ :=
  match x scene with
  | .ok _ after => after
  | .error _ after => after

/-- The call of a listener that a note shows. -/
def Note.heard? : Note δ → Option (Nat × Event)
  | .heard listener e => some (listener, e)
  | _ => none

/-- The calls of listeners that the journal of a scene shows. -/
def Scene.heard (scene : Scene η δ) : List (Nat × Event) :=
  scene.journal.filterMap Note.heard?

namespace Bus

variable {host : Host η δ} {knows : η → Nat → Bool} {scene between after : Scene η δ}

/-- What a bus can be asked for while it delivers an event. An event is consumed by its number: it may
be the one that is delivered, or one that still waits. -/
inductive Call where
  | subscribe (topic : Topic) (listener : Nat) (priority : Int) (oneShot weak : Bool)
  | unsubscribe (topic : Topic) (listener : Nat)
  | clear (topic : Option Topic)
  | consume (number : Nat)
  | publish (e : Event)

/-- Events under the numbers that follow one another from the first on. -/
def numbered (first : Nat) (es : List Event) : List Publication :=
  (es.zipIdx first).map fun d => ⟨d.2, d.1⟩

theorem numbered_cons (first : Nat) (e : Event) (es : List Event) :
    numbered first (e :: es) = ⟨first, e⟩ :: numbered (first + 1) es :=
  rfl

theorem numbered_append (first : Nat) (es more : List Event) :
    numbered first (es ++ more) = numbered first es ++ numbered (first + es.length) more := by
  rw [numbered, List.zipIdx_append, List.map_append]
  rfl

/-- A bus on which these events have been published while it delivered another: they wait behind those
that waited before, under the numbers that follow. -/
structure Grown (b : Bus) (es : List Event) (b' : Bus) : Prop where
  issued : b'.issued = b.issued + es.length
  queue : b'.queue = b.queue ++ numbered b.issued es

namespace Grown

variable {b b' b'' : Bus} {es more : List Event}

theorem of_same (issued : b'.issued = b.issued) (queue : b'.queue = b.queue) : Grown b [] b' :=
  ⟨issued, queue.trans (List.append_nil _).symm⟩

theorem refl (b : Bus) : Grown b [] b :=
  .of_same rfl rfl

theorem trans (first : Grown b es b') (second : Grown b' more b'') : Grown b (es ++ more) b'' := by
  constructor
  · rw [second.issued, first.issued, List.length_append, Nat.add_assoc]
  · rw [second.queue, first.queue, first.issued, numbered_append, List.append_assoc]

end Grown

/-- What is published while an event is delivered waits, and its publisher holds it. -/
theorem publish_delivering {e : Event} (busy : scene.bus.delivering = true) :
    Bus.publish host e scene
      = .ok (some ⟨scene.bus.issued, e⟩) { scene with bus := scene.bus.enqueue e } := by
  have read : Play.bus scene = .ok scene.bus scene := rfl
  rw [Bus.publish, Play.bind_ok read, if_pos busy]
  rfl

namespace Call

/-- What a call does to a bus that delivers an event. -/
def change (known : Nat → Bool) (b : Bus) : Call → Bus
  | subscribe topic listener priority oneShot weak =>
    b.subscribe topic listener priority oneShot weak
  | unsubscribe topic listener => b.unsubscribe known topic listener
  | clear topic => b.clear topic
  | consume number => b.consume number
  | publish e => b.enqueue e

/-- The event that a call publishes. -/
def event? : Call → Option Event
  | publish e => some e
  | _ => none

/-- A call, made by whoever has the word. -/
def play (host : Host η δ) : Call → Play η δ Unit
  | publish e => do let _ ← Bus.publish host e
  | c => do
    let scene ← get
    Play.changeBus (c.change (host.knows scene.host) · )

/-- While an event is delivered a call comes down to its change of the bus. -/
theorem play_delivering (c : Call) (busy : scene.bus.delivering = true) :
    c.play host scene
      = .ok () { scene with bus := c.change (host.knows scene.host) scene.bus } := by
  cases c with
  | publish e =>
    rw [play, Play.bind_ok (publish_delivering busy)]
    rfl
  | _ => rfl

theorem delivering_change (known : Nat → Bool) (b : Bus) (c : Call) :
    (c.change known b).delivering = b.delivering := by
  cases c with
  | unsubscribe topic listener =>
    rw [change, Bus.unsubscribe]
    split
    · rfl
    · split <;> rfl
  | clear topic => cases topic <;> rfl
  | _ => rfl

/-- What is published is put at the end of the queue, under the next number. -/
theorem grown (known : Nat → Bool) (b : Bus) (c : Call) :
    Grown b c.event?.toList (c.change known b) := by
  cases c with
  | unsubscribe topic listener =>
    rw [change, Bus.unsubscribe]
    split
    · exact .refl b
    · split <;> exact .of_same rfl rfl
  | clear topic => cases topic <;> exact .of_same rfl rfl
  | publish e => exact ⟨rfl, rfl⟩
  | _ => exact .of_same rfl rfl

/-- A call consumes what it says, and no other event that has its number. What is published has not
been consumed. -/
theorem mem_consumed_change (known : Nat → Bool) (b : Bus) (c : Call) (n : Nat) :
    n ∈ (c.change known b).consumed
      ↔ n ∈ b.consumed ∧ (c.event?.isSome = true → n ≠ b.issued) ∨ c = .consume n := by
  cases c with
  | consume number =>
    have appended : n ∈ (b.consume number).consumed ↔ n ∈ b.consumed ∨ n = number := by
      rw [Bus.consume, List.mem_append, List.mem_singleton]
    rw [change, appended]
    simp [event?, eq_comm]
  | publish e => simp [change, Bus.enqueue, Bus.issue, event?]
  | unsubscribe topic listener =>
    have same : (b.unsubscribe known topic listener).consumed = b.consumed := by
      rw [Bus.unsubscribe]
      split
      · rfl
      · split <;> rfl
    simp [change, same, event?]
  | clear topic =>
    have same : (b.clear topic).consumed = b.consumed := by cases topic <;> rfl
    simp [change, same, event?]
  | subscribe topic listener priority oneShot weak =>
    have same : (b.subscribe topic listener priority oneShot weak).consumed = b.consumed := rfl
    simp [change, same, event?]

end Call

/-- `Uses knows scene calls after`: what leads from one scene to the other makes these calls of the
bus, in this order, and otherwise leaves the bus and the calls of listeners alone. Which listeners the
host keeps alive is told by `knows`. -/
inductive Uses (knows : η → Nat → Bool) (scene : Scene η δ) : List Call → Scene η δ → Prop where
  | nothing : Uses knows scene [] scene
  | elsewhere {calls : List Call} {between after : Scene η δ}
      (first : Uses knows scene calls between) (bus : after.bus = between.bus)
      (heard : after.heard = between.heard) : Uses knows scene calls after
  | call {calls : List Call} {between : Scene η δ} (first : Uses knows scene calls between)
      (c : Call) : Uses knows scene (calls ++ [c])
        { between with bus := c.change (knows between.host) between.bus }

/-- The events that calls publish. -/
def published (calls : List Call) : List Event :=
  calls.filterMap Call.event?

theorem published_append (calls more : List Call) :
    published (calls ++ more) = published calls ++ published more :=
  List.filterMap_append

theorem published_concat (calls : List Call) (c : Call) :
    published (calls ++ [c]) = published calls ++ c.event?.toList := by
  rw [published_append]
  cases c <;> rfl

namespace Uses

variable {calls more : List Call}

theorem trans (first : Uses knows scene calls between) (second : Uses knows between more after) :
    Uses knows scene (calls ++ more) after := by
  induction second with
  | nothing =>
    rw [List.append_nil]
    exact first
  | elsewhere _ bus heard ih => exact ih.elsewhere bus heard
  | call _ c ih =>
    rw [← List.append_assoc]
    exact ih.call c

/-- What every call keeps holds after any number of them. -/
theorem keeps {P : Bus → Prop} (uses : Uses knows scene calls after)
    (each : ∀ c ∈ calls, ∀ known b, P b → P (c.change known b)) (holds : P scene.bus) :
    P after.bus := by
  induction uses with
  | nothing => exact holds
  | elsewhere _ bus _ ih =>
    rw [bus]
    exact ih each
  | call _ c ih =>
    refine each c (List.mem_append_right _ List.mem_cons_self) _ _ (ih fun c' member => ?_)
    exact each c' (List.mem_append_left _ member)

theorem delivering (uses : Uses knows scene calls after) :
    after.bus.delivering = scene.bus.delivering := by
  refine uses.keeps (P := fun b => b.delivering = scene.bus.delivering) ?_ rfl
  intro c _ known b same
  rw [c.delivering_change, same]

theorem grown (uses : Uses knows scene calls after) :
    Grown scene.bus (published calls) after.bus := by
  induction uses with
  | nothing => exact .refl scene.bus
  | elsewhere _ bus _ ih =>
    rw [bus]
    exact ih
  | call _ c ih =>
    rw [published_concat]
    exact ih.trans (c.grown _ _)

/-- No listener is called. -/
theorem heard (uses : Uses knows scene calls after) : after.heard = scene.heard := by
  induction uses with
  | nothing => rfl
  | elsewhere _ _ heard ih => rw [heard, ih]
  | call _ c ih => exact ih

end Uses

/-! ### Accounts of what is consumed -/

/-- The calls that come after so many publications. -/
def since : Nat → List Call → List Call
  | 0, calls => calls
  | _ + 1, [] => []
  | k + 1, c :: calls => if c.event?.isSome then since k calls else since (k + 1) calls

theorem since_append {k : Nat} {calls : List Call} (given : k ≤ (published calls).length)
    (more : List Call) : since k (calls ++ more) = since k calls ++ more := by
  induction calls generalizing k with
  | nil =>
    obtain rfl : k = 0 := Nat.le_zero.mp given
    simp only [since, List.nil_append]
  | cons c rest ih =>
    cases k with
    | zero => simp only [since, List.cons_append]
    | succ k =>
      rw [List.cons_append, since, since]
      cases own : c.event? with
      | none =>
        rw [published, List.filterMap_cons_none own] at given
        exact ih given
      | some e =>
        rw [published, List.filterMap_cons_some own] at given
        exact ih (Nat.le_of_succ_le_succ given)

/-- Nothing comes after the last publication that is made last. -/
theorem since_publish (calls : List Call) (e : Event) :
    since ((published calls).length + 1) (calls ++ [.publish e]) = [] := by
  induction calls with
  | nil => simp [published, since, Call.event?]
  | cons c rest ih =>
    rw [List.cons_append, since]
    cases own : c.event? with
    | none =>
      rw [published, List.filterMap_cons_none own]
      exact ih
    | some e' =>
      rw [published, List.filterMap_cons_some own]
      exact ih

/-- An account of the events that a bus has given numbers since `first`, which is that of an event
being dispatched: each call that publishes takes the next number, and an event is consumed exactly if a
call has consumed it since it was published. -/
structure Accounted (first : Nat) (calls : List Call) (b : Bus) : Prop where
  issued : b.issued = first + 1 + (published calls).length
  consumed : ∀ k ≤ (published calls).length,
    first + k ∈ b.consumed ↔ .consume (first + k) ∈ since k calls

namespace Accounted

variable {first : Nat} {calls more : List Call} {b b' : Bus}

theorem of_same (accounted : Accounted first calls b) (issued : b'.issued = b.issued)
    (consumed : b'.consumed = b.consumed) : Accounted first calls b' :=
  ⟨issued.trans accounted.issued, consumed ▸ accounted.consumed⟩

/-- A call keeps the account. -/
theorem change (accounted : Accounted first calls b) (c : Call) (known : Nat → Bool) :
    Accounted first (calls ++ [c]) (c.change known b) := by
  have issued := accounted.issued
  constructor
  · rw [(c.grown known b).issued, issued, published_concat, List.length_append, Nat.add_assoc]
  · intro k upTo
    rw [c.mem_consumed_change]
    by_cases old : k ≤ (published calls).length
    · -- the event has its number already
      have other : first + k ≠ b.issued := by omega
      rw [since_append old, List.mem_append, List.mem_singleton, ← accounted.consumed k old,
        eq_comm (a := c)]
      simp [other]
    · -- the call gives it the number
      rw [published_concat, List.length_append] at upTo
      cases c with
      | publish e =>
        have own : k = (published calls).length + 1 := by
          change k ≤ _ + 1 at upTo
          omega
        have number : first + k = b.issued := by omega
        rw [own, since_publish, ← own, number]
        simp [Call.event?]
      | _ => exact absurd upTo old

theorem uses (accounted : Accounted first calls scene.bus) (uses : Uses knows scene more after) :
    Accounted first (calls ++ more) after.bus := by
  induction uses with
  | nothing =>
    rw [List.append_nil]
    exact accounted
  | elsewhere _ bus _ ih =>
    rw [bus]
    exact ih
  | call _ c ih =>
    rw [← List.append_assoc]
    exact ih.change c _

end Accounted

/-! ### Those who use the bus by its calls -/

/-- Something that uses the bus by its calls alone, played while an event is delivered. -/
def Mannerly (knows : η → Nat → Bool) (x : Play η δ α) : Prop :=
  ∀ scene : Scene η δ, scene.bus.delivering = true →
    ∃ calls, Uses knows scene calls (x.leaves scene)

/-- Listeners that use the bus by its calls alone. -/
def Fair (host : Host η δ) : Prop :=
  ∀ listener p, Mannerly host.knows (host.listen listener p)

namespace Mannerly

theorem of_elsewhere {x : Play η δ α} (bus : ∀ scene, (x.leaves scene).bus = scene.bus)
    (heard : ∀ scene, (x.leaves scene).heard = scene.heard) : Mannerly knows x :=
  fun scene _ => ⟨[], Uses.nothing.elsewhere (bus scene) (heard scene)⟩

theorem pure (a : α) : Mannerly knows (Pure.pure a : Play η δ α) :=
  of_elsewhere (fun _ => rfl) fun _ => rfl

theorem fault (f : Fault) : Mannerly knows (throw f : Play η δ α) :=
  of_elsewhere (fun _ => rfl) fun _ => rfl

theorem call (c : Call) : Mannerly host.knows (c.play host) := by
  intro scene busy
  refine ⟨[c], ?_⟩
  rw [Play.leaves, c.play_delivering busy]
  exact Uses.nothing.call c

theorem bind {x : Play η δ α} {k : α → Play η δ β} (first : Mannerly knows x)
    (later : ∀ a, Mannerly knows (k a)) : Mannerly knows (x >>= k) := by
  intro scene busy
  obtain ⟨calls, uses⟩ := first scene busy
  cases played : x scene with
  | error f after =>
    rw [Play.leaves, played] at uses
    rw [Play.leaves, Play.bind_error played]
    exact ⟨calls, uses⟩
  | ok a after =>
    rw [Play.leaves, played] at uses
    obtain ⟨more, rest⟩ := later a after (uses.delivering.trans busy)
    have whole : (x >>= k).leaves scene = (k a).leaves after := by
      rw [Play.leaves, Play.bind_ok played, Play.leaves]
    rw [whole]
    exact ⟨calls ++ more, uses.trans rest⟩

end Mannerly

end Bus

end Colloquy
