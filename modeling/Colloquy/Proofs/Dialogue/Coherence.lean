import Colloquy.Proofs.Dialogue.Restoring
/-!
# Coherent dialogues

A dialogue is coherent when what it offers belongs to the line that it stands on, what it has taken to
its script, and when all its variables have values. Every call of a dialogue keeps it coherent, also
one that fails: what is left of choices that could not be collected stands in the order of their tree.
-/

namespace Colloquy

variable {η δ : Type} {host : Host η δ} {first scene after : Scene η δ} {g : Graph} {d d' : Dialogue}

/-- `g.Shows line out`: these ways on belong to a line, or to the end. A line without choices has its
only edge, and options stand in the order of the tree behind their line. -/
inductive Graph.Shows (g : Graph) : Option Node → List Edge → Prop where
  | ended : Shows g none []
  | only {line : Node} {e : Edge} (plain : g.nextChoice line = .ok none) (edges : line.edges = [e]) :
      Shows g (some line) [e]
  | options {line root : Node} {out : List Edge} (found : g.nextChoice line = .ok (some root))
      (ordered : g.InOrder (optionEdges (some root)) out) : Shows g (some line) out

/-- The state of a dialogue belongs together, and to a script. -/
structure Coherent (g : Graph) (d : Dialogue) : Prop where
  line : ∀ n, d.current = some n → n ∈ g.nodes ∧ n.kind = .text
  shows : g.Shows d.current d.choices
  taken : ∀ id ∈ d.taken, ∃ n ∈ g.nodes, ∃ e ∈ n.edges, e.kind = .decision ∧ e.textId = id
  values : ∀ x ∈ d.vars, ∃ v, d.environment x.1 = .value v

theorem Graph.Presents.shows (sturdy : g.Sturdy) {vars : Script.Direct.Variables}
    {line : Option Node} {out : List Edge} (presents : g.Presents vars line out)
    (stands : ∀ n, line = some n → n ∈ g.nodes ∧ n.kind = .text) : g.Shows line out := by
  cases presents with
  | ended => exact .ended
  | @only line e plain edges =>
    obtain ⟨member, text⟩ := stands line rfl
    obtain ⟨root, found, noted⟩ := sturdy.root line member text
    rw [plain, Option.isSome_eq_false_iff, Option.isNone_iff_eq_none] at noted
    subst noted
    exact .only found edges
  | choices _ found offers => exact .options found offers.inOrder

namespace Coherent

/-- What is stored is a value. -/
theorem stored (d : Dialogue) : ∀ x ∈ d.vars, ∃ v, d.environment x.1 = .value v := by
  intro x member
  have there : (d.vars.lookup x.1).isSome = true :=
    List.lookup_isSome_iff.2 ⟨x, member, beq_self_eq_true x.1⟩
  obtain ⟨v, held⟩ := Option.isSome_iff_exists.1 there
  exact ⟨v, congrArg Datum.ofOption held⟩

/-- A dialogue stays coherent while it stands where it stood and takes no other choices. -/
theorem same (coherent : Coherent g d) (current : d'.current = d.current)
    (choices : d'.choices = d.choices) (taken : d'.taken = d.taken) : Coherent g d' := by
  refine ⟨?_, ?_, ?_, stored d'⟩
  · rw [current]
    exact coherent.line
  · rw [current, choices]
    exact coherent.shows
  · rw [taken]
    exact coherent.taken

theorem put (coherent : Coherent g d) (name : String) (v : Value) : Coherent g (d.put name v) :=
  coherent.same rfl rfl rfl

/-- What a line with choices offers are decisions of the graph. -/
theorem decision (coherent : Coherent g d) (sturdy : g.Sturdy)
    (has : d.current.elim false (·.hasChoices) = true) :
    ∀ e ∈ d.choices, e.kind = .decision ∧ ∃ n ∈ g.nodes, e ∈ n.edges := by
  obtain ⟨line, current, has⟩ := Dialogue.line_of_choices has
  obtain ⟨member, text⟩ := coherent.line line current
  obtain ⟨root, found, noted⟩ := sturdy.root line member text
  have shows := coherent.shows
  rw [current] at shows
  generalize d.choices = choices at shows
  cases shows with
  | only plain =>
    cases plain.symm.trans found
    exact absurd (noted.trans has) Bool.noConfusion
  | options found ordered =>
    have there := (sturdy.rooted.nextChoice_root member found).1
    exact ordered.decisions sturdy.rooted
      (Graph.owns_optionEdges fun n same => Option.some.inj same ▸ there)

theorem take (coherent : Coherent g d) {e : Edge} (decision : e.kind = .decision)
    (owned : ∃ n ∈ g.nodes, e ∈ n.edges) : Coherent g (d.take e.textId) := by
  obtain ⟨n, member, own⟩ := owned
  unfold Dialogue.take
  split
  · exact coherent
  · refine ⟨coherent.line, coherent.shows, fun id taken => ?_, coherent.values⟩
    obtain before | now := List.mem_append.1 taken
    · exact coherent.taken id before
    · exact ⟨n, member, e, own, decision, (List.mem_singleton.1 now).symm⟩

end Coherent

/-! ### Moving -/

/-- A scene that a call can be made in, its dialogue being coherent. -/
structure Settled (host : Host η δ) (g : Graph) (scene : Scene η δ) : Prop where
  onstage : Onstage host g scene
  coherent : Coherent g scene.dialogue

/-- Whether it fails or not, something that is played leaves a dialogue settled. -/
abbrev Settles (host : Host η δ) (g : Graph) {α : Type} (x : Play η δ α) (scene : Scene η δ) : Prop :=
  Yields x scene (fun _ => Settled host g) (fun _ => Settled host g)

namespace Settled

theorem ran (settled : Settled host g scene) (ran : scene.Ran after) : Settled host g after := by
  refine ⟨settled.onstage.ran ran, ?_⟩
  obtain ⟨vars, raised, goes⟩ := ran
  rw [goes.dialogue]
  exact settled.coherent.same rfl rfl rfl

theorem told (settled : Settled host g scene) (notice : Notice) :
    Settled host g (scene.told notice) :=
  settled.ran (told_goesOn scene notice).ran

theorem moved (settled : Settled host g scene) (sturdy : g.Sturdy) {line : Option Node}
    {quietly : Bool} (moved : Moved g line quietly scene after)
    (stands : ∀ n, line = some n → n ∈ g.nodes ∧ n.kind = .text) : Settled host g after := by
  refine ⟨moved.onstage sturdy settled.onstage stands, ?_⟩
  obtain ⟨⟨out, presents, dialogue⟩, _, _⟩ := moved
  rw [dialogue]
  exact ⟨stands, presents.shows sturdy stands, settled.coherent.taken, Coherent.stored _⟩

/-- Choices that could not all be collected are left in order. -/
theorem unlisted (settled : Settled host g scene) (sturdy : g.Sturdy) {line : Option Node}
    {f : Fault} (unlisted : Unlisted host g (scene.movedTo line) f after)
    (stands : ∀ n, line = some n → n ∈ g.nodes ∧ n.kind = .text) : Settled host g after := by
  refine ⟨(unlisted.breaksDown sturdy.rooted (movedTo_onstage settled.onstage stands)).1, ?_⟩
  obtain ⟨n, root, current, found, fell⟩ := unlisted
  obtain ⟨out, ordered, added⟩ := fell.partly
  have here : line = some n := current
  rw [added.dialogue]
  refine ⟨stands, ?_, settled.coherent.taken, Coherent.stored _⟩
  change g.Shows line ([] ++ out)
  rw [here, List.nil_append]
  exact .options found ordered

end Settled

/-- A dialogue that is attached to a graph and has taken no choices is settled. -/
theorem attached_settled (quiet : Quiet host scene) (untaken : scene.dialogue.taken = []) :
    Settled host g (scene.attached g) := by
  refine ⟨attached_onstage quiet g, ?_, .ended, fun id member => ?_, Coherent.stored _⟩
  · rintro _ ⟨⟩
  · change id ∈ scene.dialogue.taken at member
    rw [untaken] at member
    cases member

section

variable (sturdy : g.Sturdy)

include sturdy

theorem setLine_settles (settled : Settled host g scene) {line : Option Node}
    (stands : ∀ n, line = some n → n ∈ g.nodes ∧ n.kind = .text) (quietly : Bool) :
    Settles host g (Dialogue.setLine host line quietly) scene :=
  (setLine_yields sturdy settled.onstage stands quietly).mono
    (fun _ _ moved => settled.moved sturdy moved stands)
    fun _ _ unlisted => settled.unlisted sturdy unlisted stands

theorem runTo_settles (settled : Settled host g scene) {o : Option Node} (inside : g.Holds o)
    (tellEnd : Bool) : Settles host g (Dialogue.runTo host o tellEnd) scene := by
  refine (runTo_yields sturdy settled.onstage inside tellEnd).mono (fun _ last ran => ?_)
    fun f last fell => ?_
  · cases ran with
    | @line path n between ran passes through text moved =>
      refine (settled.ran ran).moved sturdy moved ?_
      rintro _ ⟨⟩
      exact ⟨passes.holds sturdy.rooted inside n rfl, text⟩
    | ended ran passes through moved =>
      refine (settled.ran ran).moved sturdy moved ?_
      rintro _ ⟨⟩
    | choice ran passes through choice logged =>
      rw [logged]
      exact (settled.ran ran).ran ⟨_, _, .noted (by simp [Note.event?])⟩
  · cases fell with
    | stalled stalled => exact settled.ran stalled.ran
    | unlisted ran passes text unlisted =>
      exact (settled.ran ran).unlisted sturdy unlisted
        fun n same => ⟨passes.holds sturdy.rooted inside n same, text n same⟩

theorem runHeader_settles (settled : Settled host g scene) :
    Settles host g (Dialogue.runHeader host) scene := by
  have read : Play.dialogue scene = .ok scene.dialogue scene := rfl
  obtain ⟨o, found, inside⟩ := sturdy.headerNode
  have looked : Play.orFault Fault.lost scene.dialogue.graph.headerNode scene = .ok o scene := by
    rw [settled.onstage.graph, found]
    rfl
  rw [Dialogue.runHeader]
  exact .step read (.step looked (runTo_settles sturdy settled inside false))

theorem resetVariables_settles (settled : Settled host g scene) :
    Settles host g (Dialogue.resetVariables host) scene := by
  let bare : Scene η δ := { scene with dialogue := { scene.dialogue with vars := [] } }
  have cleared : Play.changeDialogue (fun d => { d with vars := [] }) scene = .ok () bare := rfl
  have stays : scene.Stays bare := ⟨rfl, rfl, rfl, rfl, rfl, rfl⟩
  exact .step cleared (runHeader_settles sturdy
    ⟨stays.onstage settled.onstage, settled.coherent.same rfl rfl rfl⟩)

theorem reset_settles (settled : Settled host g scene) (vars position taken : Bool) :
    Settles host g (Dialogue.reset host vars position taken) scene := by
  have nowhere : ∀ n : Node, none = some n → n ∈ g.nodes ∧ n.kind = .text := by
    rintro _ ⟨⟩
  rw [Dialogue.reset]
  refine .optional (fun _ => resetVariables_settles sturdy settled) settled fun cleared fresh => ?_
  refine .optional (fun _ => setLine_settles sturdy fresh nowhere true) fresh fun away gone => ?_
  split
  · have stays : away.Stays { away with dialogue := { away.dialogue with taken := [] } } :=
      ⟨rfl, rfl, rfl, rfl, rfl, rfl⟩
    refine .of_ok rfl ⟨stays.onstage gone.onstage, gone.coherent.line, gone.coherent.shows, ?_,
      gone.coherent.values⟩
    exact fun _ none => by cases none
  · exact .of_ok rfl gone

/-! ### Calling -/

theorem begin_settles (settled : Settled host g scene) (label : Option String) :
    Settles host g (do Dialogue.runTo host (← Dialogue.startNode label) true) scene := by
  obtain ⟨o, between, found, inside, stays⟩ := startNode_yields sturdy settled.onstage label
  have kept := (startNode_lasts label scene settled.onstage.quiet.attended
    settled.coherent).of_done found
  exact .step found (runTo_settles sturdy ⟨stays.onstage settled.onstage, kept.2⟩ inside true)

theorem restart_settles (settled : Settled host g scene) (resetFirst : Bool) (label : Option String)
    (rerunHeader : Bool) :
    Settles host g (Dialogue.restart host resetFirst label rerunHeader) scene := by
  rw [Dialogue.restart]
  refine .optional (fun _ => reset_settles sturdy settled true true true) settled fun fresh here => ?_
  refine .step (announce_quiet here.onstage.quiet _) ?_
  refine .optional (fun _ => runHeader_settles sturdy (here.told _)) (here.told _)
    fun ready settled => ?_
  exact begin_settles sturdy settled label

theorem start_settles (settled : Settled host g scene) (label : Option String) :
    Settles host g (Dialogue.start host label) scene := by
  have read : Play.dialogue scene = .ok scene.dialogue scene := rfl
  rw [Dialogue.start]
  refine .step read ?_
  split
  · exact restart_settles sturdy settled false label false
  · exact .of_ok rfl settled

theorem runToChoice_settles (settled : Settled host g scene) {line : Node} (member : line ∈ g.nodes) :
    Settles host g (Dialogue.runToChoice host line) scene := by
  rw [Dialogue.runToChoice]
  split
  · obtain ⟨o, found, inside⟩ := sturdy.next member
    refine .step (next_yields settled.onstage.graph found) ?_
    refine ((runOn_yields sturdy.rooted settled.onstage.quiet settled.onstage.graph
      inside).mono_fails fun _ _ stalled => settled.ran stalled.ran).bind fun _ between result => ?_
    exact .of_ok rfl (settled.ran result.1)
  · exact .of_ok rfl settled

theorem choose_settles (settled : Settled host g scene) (index : Int) :
    Settles host g (Dialogue.choose host index) scene := by
  have read (scene : Scene η δ) : Play.dialogue scene = .ok scene.dialogue scene := rfl
  by_cases answers : scene.dialogue.Answers index
  case neg => exact .of_error (choose_fails answers) settled
  rw [Dialogue.choose]
  refine .step (read scene) ?_
  cases way : scene.dialogue.choice? index with
  | none =>
    refine (logBadChoice_yields (answers way)).bind fun _ after ran => ?_
    exact .of_ok rfl (settled.ran ran)
  | some e =>
    obtain ⟨n, member, own⟩ := settled.onstage.ways e (mem_of_choice? way)
    obtain ⟨o, leads, inside⟩ := Graph.target_holds sturdy.rooted member own
    -- both ways of getting ready end with a run from where the edge leads
    have goes {between : Scene η δ} (settled : Settled host g between) :
        Settles host g (do Dialogue.runTo host (← Dialogue.target e) true; Dialogue.isRunning)
          between := by
      refine .step (target_yields settled.onstage.graph leads) ?_
      exact (runTo_settles sturdy settled inside true).bind fun _ last there => .of_ok rfl there
    dsimp only
    split
    next has =>
      obtain ⟨decision, owned⟩ := settled.coherent.decision sturdy has e (mem_of_choice? way)
      obtain ⟨line, current, _⟩ := Dialogue.line_of_choices has
      let noted : Scene η δ := { scene with dialogue := scene.dialogue.take e.textId }
      have took : Play.changeDialogue (fun d => d.take e.textId) scene = .ok () noted := rfl
      have stays : scene.Stays noted := take_stays scene e.textId
      have here : Settled host g noted :=
        ⟨stays.onstage settled.onstage, settled.coherent.take decision owned⟩
      have told := here.told (.choice index)
      have ready := told.told .proceeding
      have still : ((noted.told (.choice index)).told .proceeding).dialogue.current = some line :=
        stays.current.trans current
      refine .step took (.step (announce_quiet here.onstage.quiet _)
        (.step (announce_quiet told.onstage.quiet _) (.step (read _) ?_)))
      rw [still]
      exact (runToChoice_settles sturdy ready (settled.onstage.line line current).1).bind
        fun _ between settled => goes settled
    next =>
      exact .step (announce_quiet settled.onstage.quiet _) (goes (settled.told _))

theorem proceed_settles (settled : Settled host g scene) :
    Settles host g (Dialogue.proceed host) scene := by
  have read : Play.dialogue scene = .ok scene.dialogue scene := rfl
  rw [Dialogue.proceed]
  refine .step read ?_
  split
  · exact choose_settles sturdy settled 0
  · exact .of_ok rfl settled

/-- Whether a call returns or fails, it leaves the dialogue coherent. -/
theorem Call.settles (settled : Settled host g scene) {call : Call} (acts : call.reads = false) :
    Settles host g (call.play host) scene := by
  cases call with
  | start label => exact start_settles sturdy settled label
  | restart resetFirst label rerunHeader =>
    exact restart_settles sturdy settled resetFirst label rerunHeader
  | reset vars position taken => exact reset_settles sturdy settled vars position taken
  | choose index =>
    exact (choose_settles sturdy settled index).bind fun _ _ there => .of_ok rfl there
  | proceed => exact (proceed_settles sturdy settled).bind fun _ _ there => .of_ok rfl there
  | setVariable name v =>
    obtain ⟨last, set, stays⟩ := setVariable_stays settled.onstage.quiet name v
    have kept : Lasts host (Coherent g) (Dialogue.assign host name v false) :=
      .of_agree fun _ twins => assign_agree (fun _ _ name v coherent => coherent.put name v) twins
        name v false
    have well := (kept scene settled.onstage.quiet.attended settled.coherent).of_done set
    exact .of_ok set ⟨stays.onstage settled.onstage, well.2⟩
  | _ => cases acts

/-- A dialogue stays settled whatever calls are made. -/
theorem Led.settled {unset : List String} (led : Led host g first unset scene)
    (quiet : Quiet host first) (untaken : first.dialogue.taken = []) : Settled host g scene := by
  induction led with
  | made made =>
    have ran := header_ran made
    exact (resetVariables_settles sturdy (attached_settled quiet untaken)).of_done ran
  | returned _ _ acts done ih => exact (Call.settles sturdy ih acts).of_done done
  | failed _ _ acts failed ih => exact (Call.settles sturdy ih acts).of_failed failed
  | @unset _ before _ name ih =>
    have stays : before.Stays { before with dialogue := before.dialogue.unset name } :=
      ⟨rfl, rfl, rfl, rfl, rfl, rfl⟩
    exact ⟨stays.onstage ih.onstage, ih.coherent.same rfl rfl rfl⟩

end

end Colloquy

namespace Colloquy.Script

variable {η δ : Type}

/-- A dialogue of a script is coherent after any calls, whether they return or fail. A datum that is
no value cannot be stored, and trying to changes nothing. -/
theorem dialogue_coherent {s : Settings} {name text : String} {c : Compilation} {g : Graph}
    (compiled : compile s name text = .ok c) (graph : c.graph = some g) {host : Host η δ}
    {first scene : Scene η δ} (quiet : Quiet host first) (untaken : first.dialogue.taken = [])
    {unset : List String} (led : Led host g first unset scene) :
    scene.dialogue.graph = g ∧ Coherent g scene.dialogue
      ∧ ∀ name d, d.value? = none →
        Dialogue.setVariable host name d scene = .error (.unstorable name d) scene := by
  have settled := led.settled (sturdy_of_compile compiled graph) quiet untaken
  refine ⟨settled.onstage.graph, settled.coherent, fun name d noValue => ?_⟩
  rw [Dialogue.setVariable, noValue]
  rfl

/-- A dialogue whose line has two options, one of them in a block, and that has gone on by the latter
to the line under it. -/
theorem dialogue_coherent_option :
    ∃ c g scene, compile .standard "script"
        "===\n[set x true]\n===\nA: hi\n* one\n[if {x}]\n    * two\n        B: y\n[endif]" = .ok c
      ∧ c.graph = some g ∧ Quiet (Host.silent 9 9) (Scene.alone g)
      ∧ (Scene.alone g).dialogue.taken = []
      ∧ Led (Host.silent 9 9) g (Scene.alone g) [] scene
      ∧ scene.dialogue.current.map (·.text) = some "y"
      ∧ scene.dialogue.graph = g ∧ Coherent g scene.dialogue
      ∧ ∀ name d, d.value? = none →
        Dialogue.setVariable (Host.silent 9 9) name d scene = .error (.unstorable name d) scene := by
  have opens : ((compile .standard "script"
      "===\n[set x true]\n===\nA: hi\n* one\n[if {x}]\n    * two\n        B: y\n[endif]").toOption.any
      fun c => c.graph.any fun g => (Scene.opening? (Host.silent 9 9) g).any fun started =>
        (((Call.choose 1).play (Host.silent 9 9)).done? started).any fun chosen =>
          chosen.2.dialogue.current.map (·.text) = some "y") = true := by
    decide +kernel
  obtain ⟨c, compiled, opens⟩ := exists_ok_of_any opens
  obtain ⟨g, graph, opens⟩ := (Option.any_eq_true _ _).1 opens
  obtain ⟨started, opens, chosen⟩ := (Option.any_eq_true _ _).1 opens
  obtain ⟨⟨_, scene⟩, played, stands⟩ := (Option.any_eq_true _ _).1 chosen
  obtain ⟨fresh, attached, begun⟩ := opening_played opens
  have quiet := alone_quiet 9 9 g
  have led := ((Led.made attached).returned (.start none) rfl begun).returned (.choose 1) rfl
    (Play.of_done? played)
  exact ⟨c, g, scene, compiled, graph, quiet, rfl, led, of_decide_eq_true stands,
    dialogue_coherent compiled graph quiet rfl led⟩

end Colloquy.Script
