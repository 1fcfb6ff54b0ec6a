import Colloquy.Proofs.Dialogue.Circling
import Colloquy.Proofs.Script.Header
import Mathlib.Data.List.Nodup
/-!
# Where running stops

Between lines a dialogue runs steps without stopping. If none of these leads back to itself through
such steps alone, a run stops after it has run each of them once at most. The header of a script is
run from its first step to its last.
-/

namespace Colloquy

open Relation (ReflTransGen TransGen)
open Script.Direct (Variables)

variable {η δ : Type} {host : Host η δ} {scene after : Scene η δ} {g : Graph}

/-- A step that is run leads to another. -/
def Graph.RunsInto (g : Graph) (n m : Node) : Prop :=
  n.kind.runsOn = true ∧ m.kind.runsOn = true ∧ ∃ e ∈ n.edges, g.target e = .ok (some m)

/-- Whether every step that is run and leads to another comes before it. -/
def Graph.runsOnward (g : Graph) : Bool :=
  g.nodes.all fun n => n.edges.all fun e => (g.target e).toOption.all fun o => o.all fun m =>
    !(n.kind.runsOn && m.kind.runsOn) || n.index < m.index

/-- A run stops, having run each step once at most, and where and how it stops satisfies `stopped`. -/
def Stops (host : Host η δ) (o : Option Node) (scene : Scene η δ)
    (stopped : Option Node → Scene η δ → Prop) : Prop :=
  ∃ path stop between, RunsThrough host path o scene stop between ∧ path.Nodup
    ∧ stopped stop between

/-- A run that began at `o` has come to `stop`, and apart from the steps in `seen`, which were run
before, it has run each once at most. -/
structure CameTo (host : Host η δ) (g : Graph) (seen : List Node) (o : Option Node)
    (scene : Scene η δ) (stop : Option Node) (after : Scene η δ) : Prop where
  ran : scene.Ran after
  inside : g.Holds stop
  steps : ∃ path, RunsThrough host path o scene stop after ∧ (path.reverse ++ seen).Nodup

namespace CameTo

variable {seen : List Node} {o stop : Option Node}

theorem refl (inside : g.Holds o) (still : Script.Still o) (apart : seen.Nodup) :
    CameTo host g seen o scene o scene :=
  ⟨.refl scene, inside, [], .stop still, apart⟩

theorem step {n : Node} {between : Scene η δ} (came : CameTo host g (n :: seen) o between stop after)
    (runs : n.kind.runsOn = true) (ran : Dialogue.runNode host n scene = .ok o between)
    (goes : scene.Ran between) : CameTo host g seen (some n) scene stop after := by
  obtain ⟨more, inside, path, through, apart⟩ := came
  refine ⟨goes.trans more, inside, n :: path, .step runs ran through, ?_⟩
  rw [List.reverse_cons, List.append_assoc]
  exact apart

end CameTo

section

variable {n m : Node} {o : Option Node} (went : WentOn g n scene o after)
  (runs : n.kind.runsOn = true)

include went runs

theorem WentOn.runsInto (same : o = some m) (runs' : m.kind.runsOn = true) : g.RunsInto n m := by
  obtain ⟨_, none | ⟨e, own, leads⟩⟩ := went
  · cases none.symm.trans same
  · exact ⟨runs, runs', e, own, same ▸ leads⟩

theorem WentOn.straight (here : Straight g.RunsInto n) (same : o = some m) :
    Straight g.RunsInto m := by
  by_cases runs' : m.kind.runsOn = true
  · exact here.step (went.runsInto runs same runs')
  · exact .of_next fun _ step => absurd step.1 runs'

end

section

variable (rooted : Rooted g.nodes)

include rooted

theorem mem_of_run {n m : Node} (reached : ReflTransGen g.RunsInto n m) (member : n ∈ g.nodes) :
    m ∈ g.nodes := by
  induction reached with
  | refl => exact member
  | tail _ into ih =>
    obtain ⟨_, _, e, own, leads⟩ := into
    exact Graph.holds_of_target rooted ih own leads _ rfl

theorem straight_of_unlooped (unlooped : ∀ n ∈ g.nodes, ¬ TransGen g.RunsInto n n) {n : Node}
    (member : n ∈ g.nodes) : Straight g.RunsInto n :=
  fun m reached => unlooped m (mem_of_run rooted reached member)

/-- If every step that leads to another comes before it there is no circle of steps that are run. -/
theorem unlooped_of_runsOnward (onward : g.runsOnward = true) {n : Node} (member : n ∈ g.nodes) :
    ¬ TransGen g.RunsInto n n := by
  intro circle
  obtain ⟨x, y, before, ⟨runs, runs', e, own, leads⟩, _, back⟩ := exists_back Node.index circle
  have there := mem_of_run rooted before member
  have ahead := List.all_eq_true.1 (List.all_eq_true.1 onward x there) e own
  rw [leads] at ahead
  simp only [Except.toOption, Option.all_some, runs, runs', Bool.and_self, Bool.not_true,
    Bool.false_or, decide_eq_true_eq] at ahead
  exact absurd ahead (Nat.not_lt.2 back)

/-- A run that is bounded by no less than the nodes of a graph stops on its own, if the steps from
where it begins do not lead round in a circle. `seen` are the steps that were run before. -/
theorem runOn_straight (quiet : Quiet host scene) (graph : scene.dialogue.graph = g) {fuel : Nat}
    {o : Option Node} (straight : ∀ n, o = some n → Straight g.RunsInto n)
    (inside : g.Holds o) {seen : List Node} (apart : seen.Nodup)
    (trail : ∀ n, o = some n → n.kind.runsOn = true → Trail g.RunsInto g.nodes seen n)
    (enough : g.nodes.length ≤ seen.length + fuel) :
    Yields (Dialogue.runOn host fuel o) scene (CameTo host g seen o scene) (Halted g scene) := by
  induction fuel generalizing scene o seen with
  | zero =>
    obtain still | ⟨n, rfl, runs⟩ := Script.still_or_runs o
    · exact .of_ok (Script.runOn_still 0 still) (.refl inside still apart)
    · have bound := (trail n rfl runs).length_lt (inside n rfl) (straight n rfl)
      exact absurd enough (Nat.not_le.2 bound)
  | succ fuel ih =>
    obtain still | ⟨n, rfl, runs⟩ := Script.still_or_runs o
    · exact .of_ok (Script.runOn_still (fuel + 1) still) (.refl inside still apart)
    have member := inside n rfl
    have trail := trail n rfl runs
    have here := straight n rfl
    have visited := (trail.visit member here).1
    have step := runNode_yields rooted quiet graph member runs
    rw [runOn_succ fuel runs]
    cases ran : Dialogue.runNode host n scene with
    | error f between => exact .of_error (Play.bind_error ran) (step.of_failed ran)
    | ok o between =>
      have went := step.of_done ran
      have goes := went.1
      -- the step lengthens the way, which does not come back to it
      refine .step ran ((ih (goes.quiet quiet) (goes.graph.trans graph)
        (fun m same => went.straight runs here same) (went.holds rooted member) visited
        (fun m same runs' => trail.next member here (went.runsInto runs same runs')) ?_).mono
        (fun stop last came => came.step runs ran goes) fun _ _ halted => halted.of_ran goes)
      rw [List.length_cons]
      omega

end

/-! ### Reaching a line -/

/-- A run from a line stays there. -/
theorem runTo_line {line : Node} (text : line.kind = .text) (tellEnd : Bool) :
    Dialogue.runTo host (some line) tellEnd scene
      = Dialogue.setLine host (some line) false scene := by
  have still : Script.Still (some line) := fun n same => Option.some.inj same ▸ by
    rw [text]
    rfl
  rw [Dialogue.runTo, Play.bind_ok (Script.runOn_still host.steps still)]
  exact congrFun (if_pos text) scene

/-- The choices of a line stand in a circle, so that collecting them never ends. -/
def Graph.Circles (g : Graph) (vars : Variables) (line : Option Node) : Prop :=
  ∃ n root, line = some n ∧ g.nextChoice n = .ok (some root) ∧ ¬ Straight (g.Into vars) root

/-- A scene after the dialogue has moved to a line or to the end and has collected what it offers
there. All are told of it then, unless it moved quietly. -/
def Arrived (line : Option Node) (quietly : Bool) (scene after : Scene η δ) : Prop :=
  ∃ out gathered, Added (scene.movedTo line) out gathered
    ∧ after = if quietly then gathered
        else gathered.told (if line.isSome then .line else .finished)

/-- What is left of a run that came to a node, or to the end, in the scene `between`: the dialogue has
moved there if it is a line or the end, and elsewhere nothing is done but that an error is logged. -/
inductive HaltsAt (tellEnd : Bool) (between after : Scene η δ) : Option Node → Prop where
  | line {n : Node} (text : n.kind = .text) (reached : Arrived (some n) false between after) :
      HaltsAt tellEnd between after (some n)
  | ended (reached : Arrived none (!tellEnd) between after) : HaltsAt tellEnd between after none
  | stray {n : Node} (other : n.kind ≠ .text)
      (logged : after = { between with
        journal := between.journal ++ [.logged (between.dialogue.strayChoice n)] }) :
      HaltsAt tellEnd between after (some n)

/-- A run stops, and what its steps have made of the scene is left but for the move to where it
stops. -/
def StopsOn (host : Host η δ) (o : Option Node) (tellEnd : Bool) (scene after : Scene η δ) : Prop :=
  Stops host o scene fun stop between => HaltsAt tellEnd between after stop

/-- A run stops at a line whose choices stand in a circle, and breaks down as it collects them. -/
def StopsCircling (host : Host η δ) (g : Graph) (o : Option Node) (scene after : Scene η δ) : Prop :=
  Stops host o scene fun stop between =>
    g.Circles between.dialogue.vars stop ∧ ∃ out, Added (between.movedTo stop) out after

section

variable (navigable : g.Navigable) (deep : g.nodes.length ≤ host.depth)

include navigable deep

/-- The choices behind a node are collected, unless they stand in a circle. -/
theorem collectChoices_ends (quiet : Quiet host scene) (graph : scene.dialogue.graph = g) {root : Node}
    (there : root ∈ g.nodes) :
    Yields (Dialogue.collect host scene.dialogue.gathering host.depth (some root)) scene
      (fun _ after => ∃ out, Added scene out after)
      (fun f after => Broke g f after ∨ ¬ Straight (g.Into scene.dialogue.vars) root
        ∧ ∃ out, Added scene out after) := by
  by_cases straight : Straight (g.Into scene.dialogue.vars) root
  · have enough : g.nodes.length ≤ ([] : List Node).length + host.depth := by
      rwa [List.length_nil, Nat.zero_add]
    exact (collect_straight navigable.rooted there quiet graph rfl straight (.start ..) enough).mono
      (fun _ last collected => collected.imp fun _ => And.right)
      fun f _ fell => .inl (fell.cause.resolve_right And.right)
  · have inside : g.Holds (some root) := fun n same => Option.some.inj same ▸ there
    exact (collect_yields navigable.rooted host.depth inside quiet graph rfl).mono
      (fun _ last collected => collected.imp fun _ => And.right)
      fun _ _ fell => .inr ⟨straight, fell.partly.imp fun _ => And.right⟩

/-- The choices of the line that is reached are collected, unless they stand in a circle. -/
theorem gather_ends (quiet : Quiet host scene) (graph : scene.dialogue.graph = g)
    (stands : ∀ n, scene.dialogue.current = some n → n ∈ g.nodes ∧ n.kind = .text) :
    Yields (Dialogue.gather host) scene (fun _ after => ∃ out, Added scene out after)
      (fun f after => Broke g f after ∨ g.Circles scene.dialogue.vars scene.dialogue.current
        ∧ ∃ out, Added scene out after) := by
  have read : Play.dialogue scene = .ok scene.dialogue scene := rfl
  cases current : scene.dialogue.current with
  | none =>
    rw [Dialogue.gather]
    refine .step read ?_
    rw [current]
    exact .of_ok rfl ⟨[], .refl scene⟩
  | some line =>
    obtain ⟨member, text⟩ := stands line current
    obtain ⟨o, found, noted⟩ := navigable.root line member text
    cases has : line.hasChoices with
    | true =>
      rw [has] at noted
      obtain ⟨root, rfl⟩ := Option.isSome_iff_exists.1 noted
      have there := (navigable.rooted.nextChoice_root member found).1
      exact gather_choices graph current has found
        ((collectChoices_ends navigable deep quiet graph there).mono_fails fun _ _ fails =>
          fails.imp_right (And.imp_left fun round => ⟨line, root, rfl, found, round⟩))
    | false =>
      rw [Dialogue.gather]
      refine .step read ?_
      rw [current]
      dsimp only
      rw [has, if_neg Bool.noConfusion]
      cases first : line.edge? 0 with
      | none => exact .of_ok rfl ⟨[], .refl scene⟩
      | some e => exact .of_ok rfl ⟨[e], if_pos rfl, rfl, rfl⟩

theorem setLine_ends (quiet : Quiet host scene) (graph : scene.dialogue.graph = g)
    {line : Option Node} (stands : ∀ n, line = some n → n ∈ g.nodes ∧ n.kind = .text)
    (quietly : Bool) :
    Yields (Dialogue.setLine host line quietly) scene
      (fun _ after => Arrived line quietly scene after)
      (fun f after => Broke g f after ∨ g.Circles scene.dialogue.vars line
        ∧ ∃ out, Added (scene.movedTo line) out after) := by
  have moved : Play.changeDialogue (fun d => d.moveTo line) scene = .ok () (scene.movedTo line) :=
    rfl
  rw [Dialogue.setLine]
  refine .step moved ((gather_ends navigable deep (movedTo_quiet quiet line) graph stands).bind
    fun _ between gathered => ?_)
  obtain ⟨out, added⟩ := gathered
  cases quietly with
  | true => exact .of_ok rfl ⟨out, between, added, rfl⟩
  | false =>
    exact .of_ok (announce_quiet (added.quiet (movedTo_quiet quiet line)) _)
      ⟨out, between, added, rfl⟩

/-- A run to the next line stops, having run each step once at most, unless an expression cannot be
evaluated; and it comes to an end, unless the choices of the line that it stops at stand in a
circle. -/
theorem runTo_ends (straight : ∀ n ∈ g.nodes, Straight g.RunsInto n)
    (long : g.nodes.length ≤ host.steps) (quiet : Quiet host scene)
    (graph : scene.dialogue.graph = g) {o : Option Node} (inside : g.Holds o) (tellEnd : Bool) :
    Yields (Dialogue.runTo host o tellEnd) scene
      (fun _ after => StopsOn host o tellEnd scene after)
      (fun f after => Broke g f after ∨ StopsCircling host g o scene after) := by
  have enough : g.nodes.length ≤ ([] : List Node).length + host.steps := by
    rwa [List.length_nil, Nat.zero_add]
  rw [Dialogue.runTo]
  refine ((runOn_straight navigable.rooted quiet graph (fun n same => straight n (inside n same))
    inside .nil (fun n _ _ => .start _ _ n) enough).mono_fails
    fun _ _ halted => Or.inl halted.broke).bind fun stop between came => ?_
  obtain ⟨goes, held, path, through, apart⟩ := came
  rw [List.append_nil, List.nodup_reverse] at apart
  have stops {stopped : Option Node → Scene η δ → Prop} (holds : stopped stop between) :
      Stops host o scene stopped :=
    ⟨path, stop, between, through, apart, holds⟩
  -- at a line and at the end what is left is the move there
  have moves (quietly : Bool) (text : ∀ n, stop = some n → n.kind = .text)
      (halts : ∀ last, Arrived stop quietly between last → HaltsAt tellEnd between last stop) :
      Yields (Dialogue.setLine host stop quietly) between
        (fun _ after => StopsOn host o tellEnd scene after)
        (fun f after => Broke g f after ∨ StopsCircling host g o scene after) :=
    (setLine_ends navigable deep (goes.quiet quiet) (goes.graph.trans graph)
      (fun n same => ⟨held n same, text n same⟩) quietly).mono
      (fun _ last reached => stops (halts last reached))
      fun _ _ fails => fails.imp_right stops
  cases stop with
  | none => exact moves _ (fun _ none => by cases none) fun _ => .ended
  | some n =>
    dsimp only
    split
    next text => exact moves _ (fun m same => Option.some.inj same ▸ text) fun _ => .line text
    next other => exact .of_ok rfl (stops (.stray other rfl))

end

/-! ### Running the header -/

section

variable (formed : g.WellFormed)
  (onward : ∀ {i : Nat} {n : Node}, g.bodyLength ≤ i → g.nodes[i]? = some n →
    g.next n = .ok g.nodes[i + 1]?)

include formed onward

/-- The steps of the header are run one after the other, to the last. -/
theorem headerSteps_run (quiet : Quiet host scene) (graph : scene.dialogue.graph = g) {fuel i : Nat}
    (behind : g.bodyLength ≤ i) (enough : g.nodes.length ≤ i + fuel) :
    Yields (Dialogue.runOn host fuel g.nodes[i]?) scene
      (fun stop after => stop = none
        ∧ RunsThrough host (g.nodes.drop i) g.nodes[i]? scene none after)
      (Halted g scene) := by
  -- behind the last step there is nothing to run
  have ended {scene : Scene η δ} {fuel i : Nat} (beyond : g.nodes.length ≤ i) :
      Yields (Dialogue.runOn host fuel g.nodes[i]?) scene
        (fun stop after => stop = none
          ∧ RunsThrough host (g.nodes.drop i) g.nodes[i]? scene none after)
        (Halted g scene) := by
    rw [List.getElem?_eq_none beyond, List.drop_eq_nil_of_le beyond]
    have still : Script.Still none := fun _ none => by cases none
    exact .of_ok (Script.runOn_still fuel still) ⟨rfl, .stop still⟩
  induction fuel generalizing scene i with
  | zero => exact ended enough
  | succ fuel ih =>
    obtain beyond | inside := le_or_gt g.nodes.length i
    · exact ended beyond
    · have there := List.getElem?_eq_getElem inside
      have kind := formed.header_kind i _ behind there
      have runs : g.nodes[i].kind.runsOn = true := by
        rw [kind]
        rfl
      have step : Yields (Dialogue.runNode host g.nodes[i]) scene
          (fun o after => o = g.nodes[i + 1]? ∧ scene.Ran after) (Halted g scene) := by
        rw [Dialogue.runNode, kind]
        exact (runAssignment_yields quiet (List.getElem_mem inside)).bind fun _ _ ran =>
          .of_ok (next_yields (ran.graph.trans graph) (onward behind there)) ⟨rfl, ran⟩
      rw [there, List.drop_eq_getElem_cons inside, runOn_succ fuel runs]
      cases ran : Dialogue.runNode host g.nodes[i] scene with
      | error f between => exact .of_error (Play.bind_error ran) (step.of_failed ran)
      | ok o between =>
        obtain ⟨rfl, goes⟩ := step.of_done ran
        refine .step ran ((ih (goes.quiet quiet) (goes.graph.trans graph)
          (Nat.le_succ_of_le behind) (by omega)).mono (fun stop after result => ?_)
          fun _ _ halted => halted.of_ran goes)
        exact ⟨result.1, .step runs ran result.2⟩

/-- A run of the header runs each of its steps once, in their order, and leaves what they made of the
scene, with no line. -/
theorem runHeader_ends (long : g.nodes.length ≤ host.steps) (quiet : Quiet host scene)
    (graph : scene.dialogue.graph = g) :
    Yields (Dialogue.runHeader host) scene
      (fun _ after => after.dialogue.current = none ∧ ∃ o between, g.headerNode = .ok o
        ∧ RunsThrough host (g.nodes.drop g.bodyLength) o scene none between
        ∧ after = between.movedTo none)
      (Broke g) := by
  have found : g.headerNode = .ok g.nodes[g.bodyLength]? := by
    rw [Graph.headerNode, formed.header]
    split
    · exact Graph.node?_ofNat g _
    next none => rw [List.getElem?_eq_none (Nat.le_of_not_lt none)]; rfl
  have read : Play.dialogue scene = .ok scene.dialogue scene := rfl
  have looked : Play.orFault Fault.lost scene.dialogue.graph.headerNode scene
      = .ok g.nodes[g.bodyLength]? scene := by
    rw [graph, found]
    rfl
  rw [Dialogue.runHeader]
  refine .step read (.step looked ?_)
  rw [Dialogue.runTo]
  refine ((headerSteps_run formed onward quiet graph (Nat.le_refl _)
    (Nat.le_trans long (Nat.le_add_left _ _))).mono_fails fun _ _ halted => halted.broke).bind
    fun stop between result => ?_
  obtain ⟨rfl, through⟩ := result
  exact .of_ok rfl ⟨rfl, _, between, found, through, rfl⟩

end

namespace Script

/-- **Where running stops.** In a graph without a circle of steps that are run, a run to the next line
stops, having run each step once at most, unless an expression cannot be evaluated; and it leaves what
these steps made of the scene, moved to the line, unless the choices of that line stand in a circle.
The header of a script that compiles has a step for each line that sets a variable in it, in the order
of the lines; a run of it runs each of these steps once and leaves what they made of the scene, with
no line. -/
theorem running_stops (quiet : Quiet host scene) (graph : scene.dialogue.graph = g)
    (long : g.nodes.length ≤ host.steps) (deep : g.nodes.length ≤ host.depth) :
    (∀ name nodes first header labels, Graph.ofNodes name nodes first header labels = .ok g →
        Rooted nodes → (∀ n ∈ g.nodes, ¬ TransGen g.RunsInto n n) →
        ∀ o, g.Holds o → ∀ tellEnd, Yields (Dialogue.runTo host o tellEnd) scene
          (fun _ after => StopsOn host o tellEnd scene after)
          (fun f after => Broke g f after ∨ StopsCircling host g o scene after))
      ∧ ∀ s name text c, compile s name text = .ok c → c.graph = some g →
        (∃ sets : List Preset, sets.Pairwise (·.line < ·.line)
          ∧ (∀ x, x ∈ sets ↔ (Reader.start text).Presets s x)
          ∧ List.Forall₂ Preset.Made sets (g.nodes.drop g.bodyLength))
        ∧ Yields (Dialogue.runHeader host) scene
          (fun _ after => after.dialogue.current = none ∧ ∃ o between, g.headerNode = .ok o
            ∧ RunsThrough host (g.nodes.drop g.bodyLength) o scene none between
            ∧ after = between.movedTo none)
          (Broke g) := by
  refine ⟨fun name nodes first header labels made rooted unlooped o inside tellEnd => ?_,
    fun s name text c compiled made => ?_⟩
  · have navigable := navigable_of_ofNodes made rooted
    exact runTo_ends navigable deep
      (fun _ member => straight_of_unlooped navigable.rooted unlooped member) long quiet graph inside
      tellEnd
  · obtain ⟨b, linked, _, comes⟩ := compile_graph compiled made
    exact ⟨header_made linked comes, runHeader_ends (comes.wellFormed linked)
      (header_next linked comes) long quiet graph⟩

/-- A script that sets two variables in its header, between which stands a line that has no place
there, and another one between two lines. -/
def presetting : String :=
  "===\n[set a true]\nA: no\n[set b a]\n===\nA: hi\n[set c true]\n[event go]\nB: bye\n"

/-- Its header runs to its end, and a run from the step between the lines comes to the second line. -/
theorem running_stops_presetting :
    ∃ c g n, compile .standard "script" presetting = .ok c ∧ c.graph = some g
      ∧ Quiet (Host.silent 9 9) (Scene.alone g) ∧ (Scene.alone g).dialogue.graph = g
      ∧ g.nodes.length ≤ (Host.silent 9 9).steps ∧ g.nodes.length ≤ (Host.silent 9 9).depth
      ∧ (∀ n ∈ g.nodes, ¬ TransGen g.RunsInto n n) ∧ n ∈ g.nodes ∧ n.kind = .setVariable
      ∧ (∃ after, Dialogue.runTo (Host.silent 9 9) (some n) true (Scene.alone g) = .ok () after
        ∧ StopsOn (Host.silent 9 9) (some n) true (Scene.alone g) after)
      ∧ (∃ sets : List Preset, sets.Pairwise (·.line < ·.line)
        ∧ (∀ x, x ∈ sets ↔ (Reader.start presetting).Presets .standard x)
        ∧ List.Forall₂ Preset.Made sets (g.nodes.drop g.bodyLength))
      ∧ ∃ after, Dialogue.runHeader (Host.silent 9 9) (Scene.alone g) = .ok () after
        ∧ after.dialogue.current = none ∧ ∃ o between, g.headerNode = .ok o
          ∧ RunsThrough (Host.silent 9 9) (g.nodes.drop g.bodyLength) o (Scene.alone g) none between
          ∧ after = between.movedTo none := by
  have opens : ((compile .standard "script" presetting).toOption.any fun c =>
      c.graph.any fun g => g.nodes.length ≤ 9 && g.runsOnward
        && ((Dialogue.runHeader (Host.silent 9 9)).done? (Scene.alone g)).isSome
        && g.nodes.any fun n => n.kind = .setVariable
          && ((Dialogue.runTo (Host.silent 9 9) (some n) true).done? (Scene.alone g)).any
            fun result => result.2.dialogue.current.isSome) = true := by
    decide +kernel
  obtain ⟨c, compiled, opens⟩ := exists_ok_of_any opens
  obtain ⟨g, graph, opens⟩ := (Option.any_eq_true _ _).1 opens
  simp only [Bool.and_eq_true, decide_eq_true_eq] at opens
  obtain ⟨⟨⟨small, onward⟩, header⟩, opens⟩ := opens
  obtain ⟨n, member, opens⟩ := List.any_eq_true.1 opens
  obtain ⟨isSet, ran⟩ := Bool.and_eq_true_iff.1 opens
  obtain ⟨⟨_, after⟩, ran, _⟩ := (Option.any_eq_true _ _).1 ran
  obtain ⟨⟨_, last⟩, header⟩ := Option.isSome_iff_exists.1 header
  obtain ⟨nodes, first, start, labels, made, rooted⟩ := ofNodes_of_compile compiled graph
  have unlooped : ∀ n ∈ g.nodes, ¬ TransGen g.RunsInto n n := fun _ member =>
    unlooped_of_runsOnward (sturdy_of_compile compiled graph).rooted onward member
  have quiet := alone_quiet 9 9 g
  obtain ⟨runs, heads⟩ := running_stops quiet rfl small small
  obtain ⟨sets, headed⟩ := heads .standard "script" presetting c compiled graph
  have stops := runs "script" nodes first start labels made rooted unlooped (some n)
    (fun m same => Option.some.inj same ▸ member) true
  exact ⟨c, g, n, compiled, graph, quiet, rfl, small, small, unlooped, member,
    of_decide_eq_true isSet, ⟨after, Play.of_done? ran, stops.of_done (Play.of_done? ran)⟩, sets,
    last, Play.of_done? header, headed.of_done (Play.of_done? header)⟩

/-- A run to a line whose choices stand in a circle never comes to an end, although no step that is
run leads to another. -/
theorem running_circles :
    ∃ c g line, compile .standard "script" circling = .ok c ∧ c.diagnostics = []
      ∧ c.graph = some g ∧ Rooted g.nodes ∧ (∀ n ∈ g.nodes, ¬ TransGen g.RunsInto n n)
      ∧ line ∈ g.nodes ∧ line.kind = .text
      ∧ ∀ steps depth after, Dialogue.runTo (Host.silent steps depth) (some line) true
        (Scene.alone g) ≠ .ok () after := by
  have onward : ((compile .standard "script" circling).toOption.any fun c =>
      c.graph.any Graph.runsOnward) = true := by
    decide +kernel
  obtain ⟨c, g, line, root, compiled, clean, graph, member, isText, has, found, round⟩ :=
    circling_round
  obtain ⟨_, same, onward⟩ := exists_ok_of_any onward
  cases compiled.symm.trans same
  obtain ⟨_, same, onward⟩ := (Option.any_eq_true _ _).1 onward
  cases graph.symm.trans same
  have sturdy := sturdy_of_compile compiled graph
  refine ⟨c, g, line, compiled, clean, graph, sturdy.rooted,
    fun _ member => unlooped_of_runsOnward sturdy.rooted onward member, member, isText,
    fun steps depth after ran => round ?_⟩
  have stands : ∀ n, some line = some n → n ∈ g.nodes ∧ n.kind = .text :=
    fun n same => Option.some.inj same ▸ ⟨member, isText⟩
  have onstage : Onstage (Host.silent steps depth) g (Scene.alone g) :=
    ⟨alone_quiet steps depth g, rfl, fun _ none => (by cases none), fun _ none => (by cases none)⟩
  -- a run from the line is the move to it, which would have collected its choices
  rw [runTo_line isText] at ran
  obtain ⟨⟨out, presents, _⟩, _⟩ := (setLine_yields sturdy onstage stands false).of_done ran
  cases presents with
  | only plain => rw [has] at plain; cases plain
  | choices _ found' offers =>
    cases found.symm.trans found'
    exact offers.straight

end Script

end Colloquy
