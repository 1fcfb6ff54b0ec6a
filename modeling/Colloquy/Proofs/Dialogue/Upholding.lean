import Colloquy.Proofs.Dialogue.Habit
import Colloquy.Proofs.Dialogue.Protocol
/-!
# What is upheld

A property of the dialogue is upheld by something that is played if it holds afterwards whenever it held
before, whether the playing ends or fails. Upholding a property is a habit: if participants and listeners
uphold it then so does all telling, and of what the dialogue does itself only its changes are left to be
looked at. Hooks that make public calls uphold what those calls uphold.
-/

namespace Colloquy

variable {η δ : Type} {host lower : Host η δ} {scene after : Scene η δ} {g : Graph}
  {I : Dialogue → Prop}

/-- What is played upholds a property of the dialogue, whether it returns or fails. -/
def Upholds (I : Dialogue → Prop) {α : Type} (x : Play η δ α) : Prop :=
  ∀ scene : Scene η δ, I scene.dialogue →
    Yields x scene (fun _ after => I after.dialogue) fun _ after => I after.dialogue

/-- Participants and listeners that uphold a property of the dialogue. -/
structure Heeds (I : Dialogue → Prop) (host : Host η δ) : Prop where
  reacts : ∀ key notice, Upholds I (host.react key notice)
  listens : ∀ listener p, Upholds I (host.listen listener p)

namespace Upholds

variable {α β : Type} {x : Play η δ α} {k : α → Play η δ β}

theorem bind (first : Upholds I x) (later : ∀ a, Upholds I (k a)) : Upholds I (x >>= k) :=
  fun scene holds => (first scene holds).bind fun a after holds => later a after holds

/-- Something that does not concern the dialogue. -/
theorem aside (leaves : ∀ scene, ∃ a after, x scene = .ok a after
    ∧ after.dialogue = scene.dialogue) : Upholds I x := by
  intro scene holds
  obtain ⟨a, after, played, same⟩ := leaves scene
  exact .of_ok played (same ▸ holds)

theorem pure (a : α) : Upholds I (Pure.pure a : Play η δ α) :=
  .aside fun scene => ⟨a, scene, rfl, rfl⟩

theorem fault (f : Fault) : Upholds I (throw f : Play η δ α) :=
  fun _ holds => .of_error rfl holds

theorem change (f : Dialogue → Dialogue) (keeps : ∀ d, I d → I (f d)) :
    Upholds I (Play.changeDialogue f : Play η δ Unit) :=
  fun scene holds => .of_ok rfl (keeps scene.dialogue holds)

theorem bus : Upholds I (Play.bus : Play η δ Bus) :=
  .aside fun scene => ⟨scene.bus, scene, rfl, rfl⟩

theorem changeBus (f : Bus → Bus) : Upholds I (Play.changeBus f : Play η δ Unit) :=
  .aside fun _ => ⟨(), _, rfl, rfl⟩

theorem note (n : Note δ) : Upholds I (Play.note n : Play η δ Unit) :=
  .aside fun _ => ⟨(), _, rfl, rfl⟩

theorem read : Upholds I (get : Play η δ (Scene η δ)) :=
  .aside fun scene => ⟨scene, scene, rfl, rfl⟩

/-- What handles a fault begins where it occurred, and there the property holds as well. -/
theorem catching {y : Fault → Play η δ α} (first : Upholds I x) (each : ∀ f, Upholds I (y f)) :
    Upholds I (tryCatch x y) := by
  intro scene holds
  cases played : x scene with
  | ok a after => exact .of_ok (Play.tryCatch_ok played) ((first scene holds).of_done played)
  | error f after =>
    rw [Yields, Play.tryCatch_error played, ← Yields]
    exact each f after ((first scene holds).of_failed played)

theorem chained : Chained (Upholds (η := η) (δ := δ) I) where
  pure := pure
  fault := fault
  bind := bind
  dialogue := .aside fun scene => ⟨scene.dialogue, scene, rfl, rfl⟩
  log _ _ := note _

end Upholds

/-! ### Telling -/

theorem tell_upholds {notice : Notice} (reacts : ∀ key, Upholds I (host.react key notice))
    (p : Participant) : Upholds I (Dialogue.tell host notice p) :=
  Upholds.chained.dialogue.bind fun _ => (Upholds.note _).bind fun _ => reacts p.key

section

variable (listens : ∀ listener p, Upholds I (host.listen listener p))

include listens

theorem call_upholds (p : Publication) (listener : Nat) : Upholds I (Bus.call host p listener) := by
  refine (Upholds.changeBus _).bind fun _ => (Upholds.note _).bind fun _ => ?_
  refine (listens listener p).catching fun f => ?_
  split
  · exact .fault .endless
  · exact .note _

theorem callEach_upholds (p : Publication) (subscriptions : List Subscription) :
    Upholds I (Bus.callEach host p subscriptions) := by
  induction subscriptions with
  | nil => exact .pure []
  | cons s rest ih =>
    refine Upholds.read.bind fun scene => ?_
    dsimp only
    split
    · refine (call_upholds listens p s.listener).bind fun _ => Upholds.bus.bind fun b => ?_
      split
      · exact .pure _
      · exact ih.bind fun _ => .pure _
    · exact (Upholds.changeBus _).bind fun _ => ih.bind fun _ => .pure _

theorem deliver_upholds (p : Publication) : Upholds I (Bus.deliver host p) := by
  refine Upholds.bus.bind fun b => ?_
  split
  · exact .pure ()
  · split
    · exact .pure ()
    · refine (Upholds.changeBus _).bind fun _ => (callEach_upholds listens p _).bind fun _ => ?_
      exact .changeBus _

theorem deliverQueue_upholds (fuel : Nat) : Upholds I (Bus.deliverQueue host fuel) := by
  induction fuel with
  | zero =>
    rw [Bus.deliverQueue.eq_def]
    refine Upholds.bus.bind fun b => ?_
    split
    · exact .pure ()
    · exact .fault .endless
  | succ fuel ih =>
    rw [Bus.deliverQueue.eq_def]
    refine Upholds.bus.bind fun b => ?_
    split
    · exact .pure ()
    · exact (Upholds.changeBus _).bind fun _ => (deliver_upholds listens _).bind fun _ => ih

theorem publish_upholds (e : Event) : Upholds I (Bus.publish host e) := by
  refine Upholds.bus.bind fun b => ?_
  split
  · exact (Upholds.changeBus _).bind fun _ => .pure _
  · refine (Upholds.changeBus _).bind fun _ => (deliver_upholds listens _).bind fun _ => ?_
    refine (deliverQueue_upholds listens host.steps).bind fun _ => ?_
    exact (Upholds.changeBus _).bind fun _ => .pure _

/-- For what is evaluated it counts what participants do when a variable is asked for. -/
theorem inquiry_upholds (reacts : ∀ key name, Upholds I (host.react key (.requested name))) :
    Inquiry host (Upholds I) where
  toChained := Upholds.chained
  request name :=
    Upholds.chained.request (tell_upholds fun key => reacts key name) (publish_upholds listens _)

end

theorem Heeds.inquiry (heeds : Heeds I host) : Inquiry host (Upholds I) :=
  inquiry_upholds heeds.listens fun key _ => heeds.reacts key _

theorem Heeds.announce (heeds : Heeds I host) (notice : Notice) :
    Upholds I (Dialogue.announce host notice) :=
  Upholds.chained.announce (tell_upholds fun key => heeds.reacts key notice)
    (publish_upholds heeds.listens _)

/-! ### Public calls -/

/-- Whatever public call is made of a dialogue has the properties that a dialogue's conduct has. -/
theorem Public.conducted {P : {α : Type} → Play η δ α → Prop} (conduct : Conduct host P)
    (params : P (Dialogue.paramsUsed : Play η δ (List String))) {x : Play η δ Unit}
    (isPublic : Public host g x) : P x := by
  have dropped {α : Type} {x : Play η δ α} (kept : P x) : P (do let _ ← x) :=
    conduct.bind kept fun _ => conduct.pure ()
  cases isPublic with
  | set name d => exact conduct.setVariable name d
  | unset name => exact conduct.settle _ fun _ => rfl
  | restore s => exact conduct.restore s
  | runTo inside tellEnd => exact conduct.runTo _ tellEnd
  | speakerName => exact dropped conduct.speakerName
  | params => exact dropped params
  | call call =>
    cases call with
    | start label => exact conduct.start label
    | restart resetFirst label rerunHeader => exact conduct.restart resetFirst label rerunHeader
    | reset vars position taken => exact conduct.reset vars position taken
    | choose index => exact dropped (conduct.choose index)
    | proceed => exact dropped conduct.proceed
    | lineText => exact dropped conduct.lineText
    | choiceText index => exact dropped (conduct.choiceText index)
    | valueAs kind name => exact dropped (conduct.valueAs kind name)
    | setVariable name v => exact conduct.setVariable name (.value v)

/-- `Partakes lower g x`: a hook that does `x` makes public calls of the dialogue, one after the other
and as the scene is by then, but does not attach it anew; it may have others take part, catch what a call
fails with, do things that do not concern the dialogue, and fail. Those that are called in turn are those
of the host `lower`. -/
inductive Partakes (lower : Host η δ) (g : Graph) : Play η δ Unit → Prop where
  | call {x : Play η δ Unit} (isPublic : Public lower g x) : Partakes lower g x
  | recast (f : List Participant → List Participant) : Partakes lower g
      (Play.changeDialogue fun d => { d with participants := f d.participants })
  | aside {x : Play η δ Unit}
      (leaves : ∀ scene, ∃ after, x scene = .ok () after ∧ after.dialogue = scene.dialogue) :
      Partakes lower g x
  | fails (f : Fault) : Partakes lower g (throw f)
  | andThen {x y : Play η δ Unit} (first : Partakes lower g x) (later : Partakes lower g y) :
      Partakes lower g (do x; y)
  | depending {x : Scene η δ → Play η δ Unit} (each : ∀ scene, Partakes lower g (x scene)) :
      Partakes lower g (do x (← get))
  | catching {x : Play η δ Unit} {y : Fault → Play η δ Unit} (first : Partakes lower g x)
      (each : ∀ f, Partakes lower g (y f)) : Partakes lower g (tryCatch x y)

/-- A hook upholds what the public calls uphold that it makes. -/
theorem Partakes.upholds (calls : ∀ x, Public lower g x → Upholds I x)
    (recasts : ∀ (d : Dialogue) ps, I d → I { d with participants := ps }) {x : Play η δ Unit}
    (partakes : Partakes lower g x) : Upholds I x := by
  induction partakes with
  | call isPublic => exact calls _ isPublic
  | recast f => exact .change _ fun d holds => recasts d _ holds
  | aside leaves =>
    refine .aside fun scene => ?_
    obtain ⟨after, played, same⟩ := leaves scene
    exact ⟨(), after, played, same⟩
  | fails f => exact .fault f
  | andThen _ _ first later => exact first.bind fun _ => later
  | depending _ each => exact Upholds.read.bind each
  | catching _ _ first each => exact first.catching each

end Colloquy
