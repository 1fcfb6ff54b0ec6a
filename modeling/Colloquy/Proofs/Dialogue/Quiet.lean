import Colloquy.Dialogue.Flow
import Colloquy.Proofs.Script.Direct
/-!
# Quiet scenes

In a quiet scene nobody interferes: participants do nothing when they are told of something, and the
bus has no listeners. Telling them then only enters notes in the journal, and expressions have the
values that they have in direct execution.
-/

namespace Colloquy

open Script.Direct (Variables Raised)

variable {η δ : Type} {host : Host η δ} {scene after : Scene η δ}

/-- Nobody interferes with what happens in a scene. -/
structure Quiet (host : Host η δ) (scene : Scene η δ) : Prop where
  passive : ∀ p ∈ scene.dialogue.participants, ∀ notice, host.react p.key notice = pure ()
  unheard : ∀ topic, scene.bus.subscriptions topic = []
  idle : scene.bus.delivering = false
  empty : scene.bus.queue = []

/-- The event that a participant is told of by a note. -/
def Note.event? : Note δ → Option (Nat × Raised)
  | .told key (.event name args) _ => some (key, ⟨name, args⟩)
  | _ => none

/-- The events that participants have been told of. -/
def Scene.events (scene : Scene η δ) : List (Nat × Raised) :=
  scene.journal.filterMap Note.event?

/-- Events as all participants are told of them. -/
def tellings (ps : List Participant) (raised : List Raised) : List (Nat × Raised) :=
  raised.flatMap fun r => ps.map fun p => (p.key, r)

/-- A scene goes on with variables after events; all else is as before. -/
structure GoesOn (scene : Scene η δ) (vars : Variables) (raised : List Raised)
    (after : Scene η δ) : Prop where
  dialogue : after.dialogue = { scene.dialogue with vars := vars }
  bus : after.bus = scene.bus
  events : after.events = scene.events ++ tellings scene.dialogue.participants raised

theorem GoesOn.refl (scene : Scene η δ) : GoesOn scene scene.dialogue.vars [] scene :=
  ⟨rfl, rfl, (List.append_nil _).symm⟩

theorem GoesOn.trans {vars vars' : Variables} {raised more : List Raised} {last : Scene η δ}
    (first : GoesOn scene vars raised after) (second : GoesOn after vars' more last) :
    GoesOn scene vars' (raised ++ more) last := by
  refine ⟨?_, second.bus.trans first.bus, ?_⟩
  · rw [second.dialogue, first.dialogue]
  · rw [second.events, first.events, List.append_assoc]
    congr 1
    rw [first.dialogue, tellings, tellings, tellings, List.flatMap_append]

theorem GoesOn.quiet {vars : Variables} {raised : List Raised} (quiet : Quiet host scene)
    (goes : GoesOn scene vars raised after) : Quiet host after := by
  obtain ⟨dialogue, bus, _⟩ := goes
  refine ⟨?_, ?_, ?_, ?_⟩
  · rw [dialogue]
    exact quiet.passive
  · rw [bus]
    exact quiet.unheard
  · rw [bus]
    exact quiet.idle
  · rw [bus]
    exact quiet.empty

theorem GoesOn.vars {vars : Variables} {raised : List Raised}
    (goes : GoesOn scene vars raised after) : after.dialogue.vars = vars := by
  rw [goes.dialogue]

theorem GoesOn.graph {vars : Variables} {raised : List Raised}
    (goes : GoesOn scene vars raised after) : after.dialogue.graph = scene.dialogue.graph := by
  rw [goes.dialogue]

/-- A scene goes on as it is when only its journal grows, and not by events. -/
theorem GoesOn.noted {notes : List (Note δ)} (silent : ∀ n ∈ notes, n.event? = none) :
    GoesOn scene scene.dialogue.vars [] { scene with journal := scene.journal ++ notes } := by
  refine ⟨rfl, rfl, ?_⟩
  rw [Scene.events, List.filterMap_append, List.filterMap_eq_nil_iff.mpr silent]
  rfl

/-! ### Playing -/

section Play

variable {α β : Type} {x : Play η δ α} {f : α → Play η δ β}

theorem Play.bind_ok {a : α} (done : x scene = .ok a after) : (x >>= f) scene = f a after := by
  change EStateM.bind x f scene = _
  rw [EStateM.bind, done]

theorem Play.bind_error {fault : Fault} (failed : x scene = .error fault after) :
    (x >>= f) scene = .error fault after := by
  change EStateM.bind x f scene = _
  rw [EStateM.bind, failed]

/-- What is played to its end was played to its end in both its parts. -/
theorem Play.bind_inv {b : β} (done : (x >>= f) scene = .ok b after) :
    ∃ a between, x scene = .ok a between ∧ f a between = .ok b after := by
  cases first : x scene with
  | ok a between => exact ⟨a, between, rfl, (Play.bind_ok first).symm.trans done⟩
  | error fault between =>
    rw [Play.bind_error first] at done
    cases done

variable {handler : Fault → Play η δ α}

theorem Play.tryCatch_ok {a : α} (done : x scene = .ok a after) :
    (tryCatch x handler : Play η δ α) scene = .ok a after := by
  change EStateM.tryCatch x handler scene = _
  unfold EStateM.tryCatch
  rw [done]

/-- What handles a fault begins where it occurred. -/
theorem Play.tryCatch_error {fault : Fault} (failed : x scene = .error fault after) :
    (tryCatch x handler : Play η δ α) scene = handler fault after := by
  change EStateM.tryCatch x handler scene = _
  unfold EStateM.tryCatch
  rw [failed]
  rfl

end Play

/-! ### Telling -/

/-- A scene after all participants were told of something. -/
def Scene.told (scene : Scene η δ) (notice : Notice) : Scene η δ :=
  { scene with journal := scene.journal
      ++ (scene.dialogue.participants.map fun p => .told p.key notice scene.dialogue.speaker) }

theorem tellEach_quiet {ps : List Participant} {notice : Notice}
    (passive : ∀ p ∈ ps, ∀ notice, host.react p.key notice = pure ()) :
    ps.forM (Dialogue.tell host notice) scene = .ok () { scene with journal := scene.journal
      ++ (ps.map fun p => .told p.key notice scene.dialogue.speaker) } := by
  induction ps generalizing scene with
  | nil =>
    rw [List.map_nil, List.append_nil]
    rfl
  | cons p rest ih =>
    have first : Dialogue.tell host notice p scene = .ok () { scene with journal := scene.journal
        ++ [.told p.key notice scene.dialogue.speaker] } := by
      rw [Dialogue.tell, passive p (List.mem_cons_self ..)]
      rfl
    change (Dialogue.tell host notice p >>= fun _ => rest.forM _) scene = _
    rw [Play.bind_ok first, ih fun q member => passive q (List.mem_cons_of_mem _ member)]
    simp

theorem tellAll_quiet (quiet : Quiet host scene) (notice : Notice) :
    Dialogue.tellAll host notice scene = .ok () (scene.told notice) :=
  tellEach_quiet quiet.passive

theorem deliver_quiet (unheard : ∀ topic, scene.bus.subscriptions topic = []) (p : Publication) :
    Bus.deliver host p scene = .ok () scene := by
  have none := unheard p.event.topic
  have read : Play.bus scene = .ok scene.bus scene := rfl
  rw [Bus.deliver, Play.bind_ok read]
  rw [Bus.subscriptions] at none
  cases roster : scene.bus.rosters p.event.topic with
  | none => rfl
  | some r =>
    rw [roster, Option.elim_some] at none
    dsimp only
    rw [none]
    rfl

theorem publish_quiet (quiet : Quiet host scene) (notice : Notice) :
    Dialogue.publish host notice scene = .ok () scene := by
  -- while the event is delivered the bus is the same but for being busy
  let busy : Scene η δ := { scene with bus := { scene.bus with delivering := true } }
  have delivered (p : Publication) : Bus.deliver host p busy = .ok () busy :=
    @deliver_quiet _ _ host busy quiet.unheard p
  have waiting : Bus.deliverQueue host host.steps busy = .ok () busy := by
    have read : Play.bus busy = .ok busy.bus busy := rfl
    rw [Bus.deliverQueue.eq_def, Play.bind_ok read]
    have none : busy.bus.queue = [] := quiet.empty
    rw [none]
    rfl
  have begun : Play.changeBus (·.beginDispatch notice.toEvent.topic) scene = .ok () busy := by
    change EStateM.Result.ok () { scene with bus := scene.bus.beginDispatch _ } = _
    rw [Bus.beginDispatch_unheard (quiet.unheard _)]
  have published : Bus.publish host notice.toEvent scene = .ok none scene := by
    have read : Play.bus scene = .ok scene.bus scene := rfl
    rw [Bus.publish, Play.bind_ok read, quiet.idle, if_neg Bool.noConfusion,
      Play.bind_ok begun, Play.bind_ok (delivered _), Play.bind_ok waiting,
      Bus.isHeard_of_nil (quiet.unheard _)]
    change EStateM.Result.ok none { scene with bus := { scene.bus with delivering := false } } = _
    rw [← quiet.idle]
  rw [Dialogue.publish, Play.bind_ok published]
  rfl

/-- Telling everyone of something only makes notes of it. -/
theorem announce_quiet (quiet : Quiet host scene) (notice : Notice) :
    Dialogue.announce host notice scene = .ok () (scene.told notice) := by
  have heard : Quiet host (scene.told notice) := ⟨quiet.1, quiet.2, quiet.3, quiet.4⟩
  rw [Dialogue.announce, Play.bind_ok (tellAll_quiet quiet notice), publish_quiet heard]

theorem request_quiet (quiet : Quiet host scene) (name : String) :
    Dialogue.request host name scene = .ok () (scene.told (.requested name)) := by
  rw [Dialogue.request, Play.bind_ok (publish_quiet quiet _), tellAll_quiet quiet]

/-- The event that a notice is. -/
def Notice.raised : Notice → List Raised
  | .event name args => [⟨name, args⟩]
  | _ => []

theorem told_goesOn (scene : Scene η δ) (notice : Notice) :
    GoesOn scene scene.dialogue.vars notice.raised (scene.told notice) := by
  refine ⟨rfl, rfl, ?_⟩
  rw [Scene.events, Scene.told, List.filterMap_append, List.filterMap_map]
  congr 1
  cases notice with
  | event name args => simp [Notice.raised, tellings, Function.comp_def, Note.event?]
  | _ => simp [Notice.raised, tellings, Function.comp_def, Note.event?]

/-! ### Evaluating -/

section Mirrors

variable {α β γ ζ : Type}

/-- What is played comes to the same as direct execution: a result that belongs to the other's, or
the same fault. -/
def Mirrors (direct : Except Expression.EvalFault α) (x : Play η δ β) (scene : Scene η δ)
    (belongs : α → β → Scene η δ → Prop) : Prop :=
  match direct with
  | .ok a => ∃ b after, x scene = .ok b after ∧ belongs a b after
  | .error f => ∃ after, x scene = .error (.evaluation f) after

variable {direct : Except Expression.EvalFault α} {x : Play η δ β}
  {belongs : α → β → Scene η δ → Prop} {belongs' : γ → ζ → Scene η δ → Prop}

theorem Mirrors.bind {f : α → Except Expression.EvalFault γ} {y : β → Play η δ ζ}
    (first : Mirrors direct x scene belongs)
    (later : ∀ a b after, belongs a b after → Mirrors (f a) (y b) after belongs') :
    Mirrors (direct >>= f) (x >>= y) scene belongs' := by
  cases direct with
  | error fault =>
    obtain ⟨after, failed⟩ := first
    exact ⟨after, Play.bind_error failed⟩
  | ok a =>
    obtain ⟨b, after, done, belongs⟩ := first
    have whole := later a b after belongs
    change Mirrors (f a) _ scene _
    unfold Mirrors at whole ⊢
    rw [Play.bind_ok done]
    exact whole

theorem Mirrors.mono {weaker : α → β → Scene η δ → Prop} (mirrors : Mirrors direct x scene belongs)
    (weaken : ∀ a b after, belongs a b after → weaker a b after) :
    Mirrors direct x scene weaker := by
  cases direct with
  | error fault => exact mirrors
  | ok a =>
    obtain ⟨b, after, done, result⟩ := mirrors
    exact ⟨b, after, done, weaken a b after result⟩

/-- What is played further on cannot fail. -/
theorem Mirrors.andThen {y : β → Play η δ ζ} {result : α → ζ → Scene η δ → Prop}
    (first : Mirrors direct x scene belongs)
    (later : ∀ a b after, belongs a b after → ∃ c last, y b after = .ok c last ∧ result a c last) :
    Mirrors direct (x >>= y) scene result := by
  cases direct with
  | error fault =>
    obtain ⟨after, failed⟩ := first
    exact ⟨after, Play.bind_error failed⟩
  | ok a =>
    obtain ⟨b, after, done, same⟩ := first
    obtain ⟨c, last, ended, result⟩ := later a b after same
    exact ⟨c, last, (Play.bind_ok done).trans ended, result⟩

theorem Mirrors.map {f : α → γ} {result : γ → β → Scene η δ → Prop}
    (mirrors : Mirrors direct x scene belongs)
    (same : ∀ a b after, belongs a b after → result (f a) b after) :
    Mirrors (direct.map f) x scene result := by
  cases direct with
  | error fault => exact mirrors
  | ok a =>
    obtain ⟨b, after, done, belongs⟩ := mirrors
    exact ⟨b, after, done, same a b after belongs⟩

theorem Mirrors.pure {a : α} {b : β} (result : belongs a b scene) :
    Mirrors (.ok a) (pure b) scene belongs :=
  ⟨b, scene, rfl, result⟩

end Mirrors

theorem requests_quiet (quiet : Quiet host scene) (names : List String) :
    ∃ after, names.forM (Dialogue.request host) scene = .ok () after
      ∧ GoesOn scene scene.dialogue.vars [] after := by
  induction names generalizing scene with
  | nil => exact ⟨scene, rfl, .refl scene⟩
  | cons name rest ih =>
    have first := told_goesOn scene (.requested name)
    obtain ⟨after, done, later⟩ := ih (first.quiet quiet)
    refine ⟨after, ?_, first.trans (first.vars ▸ later)⟩
    change (Dialogue.request host name >>= fun _ => rest.forM _) scene = _
    rw [Play.bind_ok (request_quiet quiet name), done]

theorem logAt_goesOn (scene : Scene η δ) (level : Level) (node : Node)
    (message : String) : ∃ after, Dialogue.logAt level node message scene = .ok () after
      ∧ GoesOn scene scene.dialogue.vars [] after := by
  refine ⟨_, rfl, .noted ?_⟩
  intro n member
  rw [List.mem_singleton.mp member]
  rfl

/-- What is evaluated in a quiet scene has its value in direct execution. -/
theorem evaluate_quiet (quiet : Quiet host scene) (e : Expression) (node : Node) :
    Mirrors (Script.Direct.value scene.dialogue.vars e) (Dialogue.evaluate host e node) scene
      fun v v' after => v' = v ∧ GoesOn scene scene.dialogue.vars [] after := by
  obtain ⟨asked, done, goes⟩ := requests_quiet quiet e.names
  have same : asked.dialogue.environment = Script.Direct.environment scene.dialogue.vars := by
    rw [← goes.vars]
    rfl
  have read : Play.dialogue asked = .ok asked.dialogue asked := rfl
  unfold Mirrors
  rw [Script.Direct.value, Dialogue.evaluate, Play.bind_ok done, Play.bind_ok read, same]
  cases e.evaluate (Script.Direct.environment scene.dialogue.vars) with
  | ok v => exact ⟨v, asked, rfl, rfl, goes⟩
  | error fault =>
    cases fault with
    | refused r =>
      obtain ⟨after, logged, silent⟩ := logAt_goesOn asked .error node (r.message e.source)
      refine ⟨none, after, ?_, rfl, goes.trans (goes.vars ▸ silent)⟩
      dsimp only
      rw [Play.bind_ok logged]
      rfl
    | _ => exact ⟨asked, rfl⟩

theorem holds_quiet (quiet : Quiet host scene) (e : Expression) (node : Node) :
    Mirrors (Script.Direct.holds scene.dialogue.vars e) (Dialogue.holds host node (some e)) scene
      fun held held' after => held' = held ∧ GoesOn scene scene.dialogue.vars [] after := by
  have value := evaluate_quiet quiet e node
  unfold Mirrors at value
  unfold Mirrors
  rw [Script.Direct.holds]
  cases result : Script.Direct.value scene.dialogue.vars e with
  | error fault =>
    rw [result] at value
    obtain ⟨after, failed⟩ := value
    exact ⟨after, Play.bind_error failed⟩
  | ok v =>
    rw [result] at value
    obtain ⟨v', after, done, rfl, goes⟩ := value
    exact ⟨_, after, Play.bind_ok done, rfl, goes⟩

theorem evaluateAll_quiet (quiet : Quiet host scene) (args : List Expression) (node : Node) :
    Mirrors (args.mapM (Script.Direct.value scene.dialogue.vars))
      (args.mapM fun e => Dialogue.evaluate host e node) scene
      fun vs vs' after => vs' = vs ∧ GoesOn scene scene.dialogue.vars [] after := by
  induction args generalizing scene with
  | nil => exact .pure ⟨rfl, .refl scene⟩
  | cons e rest ih =>
    rw [List.mapM_cons, List.mapM_cons]
    refine (evaluate_quiet quiet e node).bind fun v _ after result => ?_
    obtain ⟨same, goes⟩ := result
    subst same
    have others := ih (goes.quiet quiet)
    rw [goes.vars] at others
    refine others.bind fun vs _ last result => ?_
    obtain ⟨same, more⟩ := result
    subst same
    exact .pure ⟨rfl, goes.trans more⟩

/-! ### A dialogue alone -/

/-- A host whose participants and listeners do nothing. -/
def Host.silent (steps depth : Nat) : Host Unit Unit :=
  ⟨fun _ _ => false, fun _ _ => pure (), fun _ _ => pure (), steps, depth⟩

/-- A dialogue on a graph, not yet begun, with nobody who takes part in it or listens to it. -/
def Scene.alone (g : Graph) : Scene Unit Unit where
  dialogue := { graph := g }
  bus := {}
  host := ()

theorem alone_quiet (steps depth : Nat) (g : Graph) :
    Quiet (Host.silent steps depth) (Scene.alone g) where
  passive := fun _ none => by cases none
  unheard := fun _ => rfl
  idle := rfl
  empty := rfl

end Colloquy
