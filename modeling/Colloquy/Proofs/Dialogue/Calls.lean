import Colloquy.Dialogue.Wording
import Colloquy.Proofs.Dialogue.Offering
/-!
# Calls of a dialogue

What the calls of a dialogue come to, in a quiet scene on a sturdy graph. Whether a call returns or
fails, the dialogue stands on a line of its graph or at the end, and can be called again.
-/

namespace Colloquy

variable {η δ : Type} {host : Host η δ} {scene after : Scene η δ} {g : Graph}

/-! ### Changes that move nothing -/

/-- A scene in which the dialogue stands where it stood and offers what it offered. -/
structure Scene.Stays (scene after : Scene η δ) : Prop where
  graph : after.dialogue.graph = scene.dialogue.graph
  participants : after.dialogue.participants = scene.dialogue.participants
  current : after.dialogue.current = scene.dialogue.current
  choices : after.dialogue.choices = scene.dialogue.choices
  gathering : after.dialogue.gathering = scene.dialogue.gathering
  bus : after.bus = scene.bus

theorem Scene.Stays.refl (scene : Scene η δ) : scene.Stays scene :=
  ⟨rfl, rfl, rfl, rfl, rfl, rfl⟩

theorem Scene.Stays.trans {last : Scene η δ} (first : scene.Stays after)
    (second : after.Stays last) : scene.Stays last :=
  ⟨second.graph.trans first.graph, second.participants.trans first.participants,
    second.current.trans first.current, second.choices.trans first.choices,
    second.gathering.trans first.gathering, second.bus.trans first.bus⟩

theorem Scene.Ran.stays (ran : scene.Ran after) : scene.Stays after := by
  obtain ⟨vars, raised, dialogue, bus, _⟩ := ran
  refine ⟨?_, ?_, ?_, ?_, ?_, bus⟩ <;> rw [dialogue]

theorem Scene.Stays.onstage (stays : scene.Stays after) (onstage : Onstage host g scene) :
    Onstage host g after := by
  have quiet := onstage.quiet
  refine ⟨⟨?_, ?_, ?_, ?_⟩, stays.graph.trans onstage.graph, ?_, ?_⟩
  · rw [stays.participants]
    exact quiet.passive
  · rw [stays.bus]
    exact quiet.unheard
  · rw [stays.bus]
    exact quiet.idle
  · rw [stays.bus]
    exact quiet.empty
  · rw [stays.current]
    exact onstage.line
  · rw [stays.choices]
    exact onstage.ways

/-- While steps are run the dialogue stays where it is. -/
theorem RunsThrough.stays (rooted : Rooted g.nodes) {path : List Node} {o stop : Option Node}
    (through : RunsThrough host path o scene stop after) (quiet : Quiet host scene)
    (graph : scene.dialogue.graph = g) (inside : g.Holds o) : scene.Stays after := by
  induction through with
  | stop => exact .refl _
  | @step n o stop path scene between after runs ran later ih =>
    have went := (runNode_yields rooted quiet graph (inside n rfl) runs).of_done ran
    have further := ih (went.1.quiet quiet) (went.1.graph.trans graph)
      (went.holds rooted (inside n rfl))
    exact went.1.stays.trans further

theorem log_stays (level : Level) (message : String) :
    ∃ after, Play.log level message scene = .ok () after ∧ scene.Stays after :=
  ⟨_, rfl, rfl, rfl, rfl, rfl, rfl, rfl⟩

theorem announce_stays (quiet : Quiet host scene) (notice : Notice) :
    ∃ after, Dialogue.announce host notice scene = .ok () after ∧ scene.Stays after :=
  ⟨_, announce_quiet quiet notice, (told_goesOn scene notice).ran.stays⟩

theorem take_stays (scene : Scene η δ) (textId : String) :
    scene.Stays { scene with dialogue := scene.dialogue.take textId } := by
  unfold Dialogue.take
  split <;> exact ⟨rfl, rfl, rfl, rfl, rfl, rfl⟩

/-! ### Choosing -/

/-- What choosing comes to: nothing if there is no such way on, else a run from where it leads. -/
inductive Chose (host : Host η δ) (g : Graph) (index : Int) (scene : Scene η δ) (running : Bool)
    (after : Scene η δ) : Prop where
  | invalid (absent : scene.dialogue.choice? index = none) (stopped : running = false)
      (stays : scene.Stays after)
  | went {e : Edge} {o : Option Node} {between : Scene η δ}
      (way : scene.dialogue.choice? index = some e) (leads : g.target e = .ok o)
      (stays : scene.Stays between) (ran : RanTo host g o true between after)
      (goesOn : running = !after.dialogue.isEnded)

theorem mem_of_choice? {d : Dialogue} {index : Int} {e : Edge} (way : d.choice? index = some e) :
    e ∈ d.choices := by
  unfold Dialogue.choice? at way
  split at way
  · cases way
  · exact List.mem_of_getElem? way

theorem Chose.onstage {index : Int} {running : Bool} (chose : Chose host g index scene running after)
    (sturdy : g.Sturdy) (onstage : Onstage host g scene) : Onstage host g after := by
  cases chose with
  | invalid _ _ stays => exact stays.onstage onstage
  | went way leads stays ran =>
    obtain ⟨n, member, own⟩ := onstage.ways _ (mem_of_choice? way)
    exact ran.onstage sturdy (stays.onstage onstage)
      (Graph.holds_of_target sturdy.rooted member own leads)

/-- The steps between a line and its choices are run, and the dialogue stays where it is. -/
theorem runToChoice_yields (sturdy : g.Sturdy) (onstage : Onstage host g scene) {line : Node}
    (member : line ∈ g.nodes) :
    Yields (Dialogue.runToChoice host line) scene (fun _ after => scene.Stays after)
      (BreaksDown host g) := by
  rw [Dialogue.runToChoice]
  split
  · obtain ⟨o, found, inside⟩ := sturdy.next member
    refine .step (next_yields onstage.graph found) ?_
    refine ((runOn_yields sturdy.rooted onstage.quiet onstage.graph inside).mono_fails
      fun _ _ stalled => stalled.breaksDown onstage).bind fun _ between result => ?_
    exact .of_ok rfl result.1.stays
  · exact .of_ok rfl (.refl scene)

/-- There is a way on at an index, or it can be shown that there is none. -/
def Dialogue.Answers (d : Dialogue) (index : Int) : Prop :=
  d.choice? index = none → Number.exceedsDigitLimit index = false

theorem logBadChoice_yields {index : Int} (short : Number.exceedsDigitLimit index = false)
    {fails : Fault → Scene η δ → Prop} :
    Yields (Dialogue.logBadChoice index) scene (fun _ after => scene.Ran after) fails := by
  rw [Dialogue.logBadChoice, short]
  generalize Number.intText index = digits
  refine .of_ok rfl ⟨_, _, .noted fun n member => ?_⟩
  rw [List.mem_singleton.1 member]
  rfl

theorem logBadChoice_fails {index : Int} (long : Number.exceedsDigitLimit index = true) :
    (Dialogue.logBadChoice index : Play η δ Unit) scene = .error .tooManyDigits scene := by
  rw [Dialogue.logBadChoice, long]
  rfl

/-- There is no way on at an index that cannot be shown. -/
theorem Dialogue.not_answers {d : Dialogue} {index : Int} (silent : ¬ d.Answers index) :
    d.choice? index = none ∧ Number.exceedsDigitLimit index = true := by
  unfold Dialogue.Answers at silent
  push Not at silent
  exact ⟨silent.1, Bool.not_eq_false _ ▸ silent.2⟩

theorem choose_fails {index : Int} (silent : ¬ scene.dialogue.Answers index) :
    Dialogue.choose host index scene = .error .tooManyDigits scene := by
  obtain ⟨absent, long⟩ := Dialogue.not_answers silent
  have read : Play.dialogue scene = .ok scene.dialogue scene := rfl
  rw [Dialogue.choose, Play.bind_ok read, absent]
  exact Play.bind_error (logBadChoice_fails long)

/-- A dialogue that offers options stands on a line. -/
theorem Dialogue.line_of_choices {d : Dialogue}
    (has : d.current.elim false (·.hasChoices) = true) :
    ∃ line, d.current = some line ∧ line.hasChoices = true := by
  cases current : d.current with
  | none =>
    rw [current] at has
    cases has
  | some line =>
    rw [current] at has
    exact ⟨line, rfl, has⟩

theorem choose_yields (sturdy : g.Sturdy) (onstage : Onstage host g scene) {index : Int}
    (answers : scene.dialogue.Answers index) :
    Yields (Dialogue.choose host index) scene (Chose host g index scene) (BreaksDown host g) := by
  have read (scene : Scene η δ) : Play.dialogue scene = .ok scene.dialogue scene := rfl
  have running (between : Scene η δ) :
      Dialogue.isRunning between = .ok (!between.dialogue.isEnded) between := rfl
  rw [Dialogue.choose]
  refine .step (read scene) ?_
  cases way : scene.dialogue.choice? index with
  | none =>
    refine (logBadChoice_yields (answers way)).bind fun _ after ran => ?_
    exact .of_ok rfl (.invalid way rfl ran.stays)
  | some e =>
    obtain ⟨n, member, own⟩ := onstage.ways e (mem_of_choice? way)
    obtain ⟨o, leads, inside⟩ := Graph.target_holds sturdy.rooted member own
    -- both ways of getting ready end with a run from where the edge leads
    have goes {between : Scene η δ} (stays : scene.Stays between) :
        Yields (do Dialogue.runTo host (← Dialogue.target e) true; Dialogue.isRunning) between
          (Chose host g index scene) (BreaksDown host g) := by
      have onstage' := stays.onstage onstage
      refine .step (target_yields onstage'.graph leads) ?_
      refine ((runTo_yields sturdy onstage' inside true).mono_fails
        fun _ _ fell => fell.breaksDown sturdy.rooted onstage' inside).bind fun _ last ran => ?_
      exact .of_ok (running last) (.went way leads stays ran rfl)
    dsimp only
    split
    next has =>
      obtain ⟨line, current, _⟩ := Dialogue.line_of_choices has
      let noted : Scene η δ := { scene with dialogue := scene.dialogue.take e.textId }
      have took : Play.changeDialogue (fun d => d.take e.textId) scene = .ok () noted := rfl
      have stays : scene.Stays noted := take_stays scene e.textId
      obtain ⟨chosen, told, stays₁⟩ :=
        announce_stays (stays.onstage onstage).quiet (.choice index)
      have here₁ := stays.trans stays₁
      obtain ⟨ready, told', stays₂⟩ := announce_stays (here₁.onstage onstage).quiet .proceeding
      have here₂ := here₁.trans stays₂
      refine .step took (.step told (.step told' (.step (read ready) ?_)))
      rw [here₂.current, current]
      refine (runToChoice_yields sturdy (here₂.onstage onstage)
        (onstage.line line current).1).bind fun _ between moved => ?_
      exact goes (here₂.trans moved)
    next =>
      obtain ⟨ready, told, stays⟩ := announce_stays onstage.quiet .proceeding
      exact .step told (goes stays)

/-- Going on from a line is choosing its only way on; with more of them, or none, it does nothing. -/
theorem proceed_yields (sturdy : g.Sturdy) (onstage : Onstage host g scene) :
    Yields (Dialogue.proceed host) scene
      (fun running after => Chose host g 0 scene running after ∧ scene.dialogue.choices.length = 1
        ∨ after = scene ∧ scene.dialogue.choices.length ≠ 1)
      (BreaksDown host g) := by
  have read : Play.dialogue scene = .ok scene.dialogue scene := rfl
  rw [Dialogue.proceed]
  refine .step read ?_
  split
  next single =>
    have answers : scene.dialogue.Answers 0 := by
      intro absent
      obtain ⟨e, only⟩ := List.length_eq_one_iff.1 single
      rw [Dialogue.choice?, only] at absent
      cases absent
    exact (choose_yields sturdy onstage answers).mono (fun _ _ chose => .inl ⟨chose, single⟩)
      fun _ _ broke => broke
  next several => exact .of_ok rfl (.inr ⟨rfl, several⟩)

/-! ### Starting -/

/-- The node to start from is found, whatever the label. -/
theorem startNode_yields (sturdy : g.Sturdy) (onstage : Onstage host g scene)
    (label : Option String) :
    ∃ o after, (Dialogue.startNode label : Play η δ (Option Node)) scene = .ok o after
      ∧ g.Holds o ∧ scene.Stays after := by
  have read : Play.dialogue scene = .ok scene.dialogue scene := rfl
  obtain ⟨first, found, inside⟩ := sturdy.firstNode
  have begins : Play.orFault Fault.lost scene.dialogue.graph.firstNode scene
      = .ok first scene := by
    rw [onstage.graph, found]
    rfl
  have logged (message : String) : ∃ o after,
      (do Play.log .error message; return first : Play η δ (Option Node)) scene = .ok o after
        ∧ g.Holds o ∧ scene.Stays after :=
    ⟨first, _, rfl, inside, rfl, rfl, rfl, rfl, rfl, rfl⟩
  rw [Dialogue.startNode, Play.bind_ok read, Play.bind_ok begins]
  split
  · exact ⟨first, scene, rfl, inside, .refl scene⟩
  · obtain ⟨named, at_label, there⟩ := sturdy.nodeByLabel (label.getD "")
    have looked : Play.orFault Fault.lost (scene.dialogue.graph.nodeByLabel (label.getD "")) scene
        = .ok named scene := by
      rw [onstage.graph, at_label]
      rfl
    rw [Play.bind_ok looked]
    cases named with
    | none => exact logged _
    | some n =>
      dsimp only
      split
      · exact logged _
      · exact ⟨some n, scene, rfl, there, .refl scene⟩

/-- A scene after a run from a node of the graph. -/
def RanFrom (host : Host η δ) (g : Graph) (tellEnd : Bool) (scene after : Scene η δ) : Prop :=
  ∃ o between, g.Holds o ∧ scene.Stays between ∧ RanTo host g o tellEnd between after

theorem RanFrom.onstage {tellEnd : Bool} (ran : RanFrom host g tellEnd scene after) (sturdy : g.Sturdy)
    (onstage : Onstage host g scene) : Onstage host g after := by
  obtain ⟨o, between, inside, stays, ran⟩ := ran
  exact ran.onstage sturdy (stays.onstage onstage) inside

theorem RanFrom.of_stays {tellEnd : Bool} {last : Scene η δ} (stays : scene.Stays after)
    (ran : RanFrom host g tellEnd after last) : RanFrom host g tellEnd scene last := by
  obtain ⟨o, between, inside, more, ran⟩ := ran
  exact ⟨o, between, inside, stays.trans more, ran⟩

/-- Where a dialogue stands after it was called: where it stood, offering what it offered, or where
it came to with the variables as they are now. -/
def Arrives (g : Graph) (scene after : Scene η δ) : Prop :=
  after.dialogue.gathering = scene.dialogue.gathering
      ∧ after.dialogue.current = scene.dialogue.current
      ∧ after.dialogue.choices = scene.dialogue.choices
  ∨ after.dialogue.gathering ≠ scene.dialogue.gathering
      ∧ g.Presents after.dialogue.vars after.dialogue.current after.dialogue.choices

theorem Scene.Stays.arrives (stays : scene.Stays after) : Arrives g scene after :=
  .inl ⟨stays.gathering, stays.current, stays.choices⟩

theorem Moved.arrives {line : Option Node} {quietly : Bool} {between : Scene η δ}
    (stays : scene.Stays between) (moved : Moved g line quietly between after) :
    Arrives g scene after := by
  obtain ⟨⟨out, presents, dialogue⟩, _, _⟩ := moved
  refine .inr ⟨?_, ?_⟩
  · rw [dialogue, ← stays.gathering]
    exact Nat.succ_ne_self _
  · rw [dialogue]
    exact presents

theorem RanTo.arrives {o : Option Node} {tellEnd : Bool} {between : Scene η δ}
    (stays : scene.Stays between) (ran : RanTo host g o tellEnd between after) :
    Arrives g scene after := by
  cases ran with
  | line ran _ _ _ moved => exact moved.arrives (stays.trans ran.stays)
  | ended ran _ _ moved => exact moved.arrives (stays.trans ran.stays)
  | choice ran _ _ _ logged =>
    have there := stays.trans ran.stays
    rw [logged]
    exact .inl ⟨there.gathering, there.current, there.choices⟩

theorem RanFrom.arrives {tellEnd : Bool} (ran : RanFrom host g tellEnd scene after) :
    Arrives g scene after := by
  obtain ⟨_, _, _, stays, ran⟩ := ran
  exact ran.arrives stays

theorem Chose.arrives {index : Int} {running : Bool} (chose : Chose host g index scene running after) :
    Arrives g scene after := by
  cases chose with
  | invalid _ _ stays => exact stays.arrives
  | went _ _ stays ran => exact ran.arrives stays

/-- The end of starting: finding the node and running from it to the first line. -/
theorem begin_yields (sturdy : g.Sturdy) (onstage : Onstage host g scene)
    (label : Option String) :
    Yields (do Dialogue.runTo host (← Dialogue.startNode label) true) scene
      (fun _ => RanFrom host g true scene) (BreaksDown host g) := by
  obtain ⟨o, between, found, inside, stays⟩ := startNode_yields sturdy onstage label
  refine .step found ?_
  have there := stays.onstage onstage
  exact (runTo_yields sturdy there inside true).mono
    (fun _ last ran => ⟨o, between, inside, stays, ran⟩)
    fun _ _ fell => fell.breaksDown sturdy.rooted there inside

/-- The header is run. -/
theorem runHeader_yields (sturdy : g.Sturdy) (onstage : Onstage host g scene) :
    Yields (Dialogue.runHeader host) scene (fun _ => RanFrom host g false scene)
      (BreaksDown host g) := by
  have read : Play.dialogue scene = .ok scene.dialogue scene := rfl
  obtain ⟨o, found, inside⟩ := sturdy.headerNode
  have looked : Play.orFault Fault.lost scene.dialogue.graph.headerNode scene = .ok o scene := by
    rw [onstage.graph, found]
    rfl
  rw [Dialogue.runHeader]
  refine .step read (.step looked ?_)
  exact (runTo_yields sturdy onstage inside false).mono
    (fun _ _ ran => ⟨o, scene, inside, .refl scene, ran⟩)
    fun _ _ fell => fell.breaksDown sturdy.rooted onstage inside

theorem resetVariables_yields (sturdy : g.Sturdy) (onstage : Onstage host g scene) :
    Yields (Dialogue.resetVariables host) scene (fun _ => RanFrom host g false scene)
      (BreaksDown host g) := by
  let bare : Scene η δ := { scene with dialogue := { scene.dialogue with vars := [] } }
  have cleared : Play.changeDialogue (fun d => { d with vars := [] }) scene = .ok () bare := rfl
  have stays : scene.Stays bare := ⟨rfl, rfl, rfl, rfl, rfl, rfl⟩
  refine .step cleared ?_
  exact (runHeader_yields sturdy (stays.onstage onstage)).mono (fun _ _ ran => RanFrom.of_stays stays ran)
    fun _ _ broke => broke

theorem reset_yields (sturdy : g.Sturdy) (onstage : Onstage host g scene)
    (vars position taken : Bool) :
    Yields (Dialogue.reset host vars position taken) scene (fun _ => Onstage host g)
      (BreaksDown host g) := by
  have nowhere : ∀ n, none = some n → n ∈ g.nodes ∧ n.kind = .text := by
    rintro _ ⟨⟩
  rw [Dialogue.reset]
  have renewed := (resetVariables_yields sturdy onstage).mono
    (fun _ _ ran => ran.onstage sturdy onstage) fun _ _ broke => broke
  refine .optional (fun _ => renewed) onstage fun cleared onstage₁ => ?_
  have left := (@setLine_yields _ _ host cleared g sturdy onstage₁ none nowhere true).mono
    (fun _ _ moved => moved.onstage sturdy onstage₁ nowhere)
    fun _ _ unlisted => unlisted.breaksDown sturdy.rooted (movedTo_onstage onstage₁ nowhere)
  refine .optional (fun _ => left) onstage₁ fun away onstage₂ => ?_
  have stays : away.Stays { away with dialogue := { away.dialogue with taken := [] } } :=
    ⟨rfl, rfl, rfl, rfl, rfl, rfl⟩
  split
  · exact .of_ok rfl (stays.onstage onstage₂)
  · exact .of_ok rfl onstage₂

theorem restart_yields (sturdy : g.Sturdy) (onstage : Onstage host g scene) (resetFirst : Bool)
    (label : Option String) (rerunHeader : Bool) :
    Yields (Dialogue.restart host resetFirst label rerunHeader) scene (fun _ => Onstage host g)
      (BreaksDown host g) := by
  rw [Dialogue.restart]
  refine .optional (fun _ => reset_yields sturdy onstage true true true) onstage
    fun fresh onstage₁ => ?_
  obtain ⟨told, announced, stays⟩ := announce_stays onstage₁.quiet (.starting label)
  refine .step announced ?_
  have onstage₂ := stays.onstage onstage₁
  have renewed := (runHeader_yields sturdy onstage₂).mono
    (fun _ _ ran => ran.onstage sturdy onstage₂) fun _ _ broke => broke
  refine .optional (fun _ => renewed) onstage₂ fun ready onstage₃ => ?_
  exact (begin_yields sturdy onstage₃ label).mono
    (fun _ _ started => started.onstage sturdy onstage₃) fun _ _ broke => broke

/-- Starting does nothing to a dialogue that goes on. -/
theorem start_yields (sturdy : g.Sturdy) (onstage : Onstage host g scene) (label : Option String) :
    Yields (Dialogue.start host label) scene
      (fun _ after => RanFrom host g true scene after ∧ scene.dialogue.current = none
        ∨ after = scene ∧ scene.dialogue.current.isSome = true)
      (BreaksDown host g) := by
  have read : Play.dialogue scene = .ok scene.dialogue scene := rfl
  rw [Dialogue.start]
  refine .step read ?_
  cases current : scene.dialogue.current with
  | none =>
    have ended : scene.dialogue.isEnded = true := by rw [Dialogue.isEnded, current]; rfl
    rw [if_pos ended, Dialogue.restart]
    obtain ⟨told, announced, stays⟩ := announce_stays onstage.quiet (.starting label)
    refine .step announced ?_
    exact (begin_yields sturdy (stays.onstage onstage) label).mono
      (fun _ _ ran => .inl ⟨RanFrom.of_stays stays ran, rfl⟩) fun _ _ broke => broke
  | some line =>
    have goesOn : ¬ scene.dialogue.isEnded = true := by
      rw [Dialogue.isEnded, current]
      exact Bool.noConfusion
    rw [if_neg goesOn]
    exact .of_ok rfl (.inr ⟨rfl, rfl⟩)

/-- A scene in which the dialogue has been attached to a graph and nothing has been run. -/
def Scene.attached (scene : Scene η δ) (g : Graph) : Scene η δ :=
  { scene with dialogue := scene.dialogue.attach g }

theorem attached_onstage (quiet : Quiet host scene) (g : Graph) :
    Onstage host g (scene.attached g) :=
  ⟨⟨quiet.passive, quiet.unheard, quiet.idle, quiet.empty⟩, rfl, fun _ none => (by cases none),
    fun _ none => by cases none⟩

/-- Attaching to a graph, in any quiet scene. -/
theorem attachTo_yields (sturdy : g.Sturdy) (quiet : Quiet host scene) :
    Yields (Dialogue.attachTo host g) scene (fun _ => RanFrom host g false (scene.attached g))
      (BreaksDown host g) := by
  have moved : Play.changeDialogue (fun d => d.attach g) scene = .ok () (scene.attached g) := rfl
  exact .step moved (resetVariables_yields sturdy (attached_onstage quiet g))

end Colloquy
