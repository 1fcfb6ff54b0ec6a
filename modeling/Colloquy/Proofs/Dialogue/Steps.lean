import Colloquy.Proofs.Dialogue.Outcome
import Colloquy.Proofs.Dialogue.Simulation
/-!
# Running from line to line

A run passes through the steps of a graph along their edges. It comes to a node that is not run, or
to the end, or it breaks down.
-/

namespace Colloquy

variable {η δ : Type} {host : Host η δ} {scene after : Scene η δ} {g : Graph}

/-- `g.Passes o stop`: a run that begins at `o` may come to `stop`. At any step the path may end,
for a step may have no successor and a select no branch whose condition holds. -/
inductive Graph.Passes (g : Graph) : Option Node → Option Node → Prop where
  | stop {o : Option Node} (still : Script.Still o) : Passes g o o
  | fades {n : Node} (runs : n.kind.runsOn = true) : Passes g (some n) none
  | on {n : Node} {e : Edge} {o stop : Option Node} (runs : n.kind.runsOn = true)
      (own : e ∈ n.edges) (leads : g.target e = .ok o) (later : Passes g o stop) :
      Passes g (some n) stop

theorem Graph.Passes.still {o stop : Option Node} (passes : g.Passes o stop) :
    Script.Still stop := by
  induction passes with
  | stop still => exact still
  | fades runs => exact fun _ none => by cases none
  | on _ _ _ _ ih => exact ih

theorem Graph.Passes.holds (rooted : Rooted g.nodes) {o stop : Option Node} (passes : g.Passes o stop)
    (inside : g.Holds o) : g.Holds stop := by
  induction passes with
  | stop still => exact inside
  | fades runs => exact fun _ none => by cases none
  | on _ own leads _ ih => exact ih (Graph.holds_of_target rooted (inside _ rfl) own leads)

/-- The node after a step is where its first edge leads. -/
theorem Graph.next_edge (rooted : Rooted g.nodes) {n : Node} (member : n ∈ g.nodes) :
    ∃ o, g.next n = .ok o ∧ (n.edges = [] ∧ o = none ∨ ∃ e ∈ n.edges, g.target e = .ok o) := by
  rw [Graph.next, successor]
  cases edges : n.edges with
  | nil => exact ⟨none, rfl, .inl ⟨rfl, rfl⟩⟩
  | cons e rest =>
    have own : e ∈ n.edges := edges ▸ List.mem_cons_self
    cases leads : e.target with
    | none =>
      refine ⟨none, ?_, .inr ⟨e, List.mem_cons_self, ?_⟩⟩
      · dsimp only
        rw [leads]
      · rw [Graph.target, leads]
        rfl
    | some r =>
      obtain ⟨p, m, rfl, there⟩ := rooted.target n member e own r leads
      refine ⟨some m, ?_, .inr ⟨e, List.mem_cons_self, ?_⟩⟩
      · dsimp only
        rw [leads]
        dsimp only
        rw [follow_ofNat there]
        rfl
      · rw [Graph.target, leads, node?_ofNat, there]

/-! ### Single steps -/

/-- A step was run, and the run goes on along an edge, or the path ends. -/
def WentOn (g : Graph) (n : Node) (scene : Scene η δ) (o : Option Node) (after : Scene η δ) : Prop :=
  scene.Ran after ∧ (o = none ∨ ∃ e ∈ n.edges, g.target e = .ok o)

theorem WentOn.holds (rooted : Rooted g.nodes) {n : Node} {o : Option Node}
    (went : WentOn g n scene o after) (member : n ∈ g.nodes) : g.Holds o := by
  obtain ⟨_, rfl | ⟨e, own, leads⟩⟩ := went
  · exact fun _ none => by cases none
  · exact Graph.holds_of_target rooted member own leads

theorem target_yields (graph : scene.dialogue.graph = g) {e : Edge} {o : Option Node}
    (leads : g.target e = .ok o) : Dialogue.target e scene = .ok o scene := by
  have read : Play.dialogue scene = .ok scene.dialogue scene := rfl
  rw [Dialogue.target, Play.bind_ok read, graph, leads]
  rfl

theorem next_yields (graph : scene.dialogue.graph = g) {n : Node} {o : Option Node}
    (found : g.next n = .ok o) : Dialogue.next n scene = .ok o scene := by
  have read : Play.dialogue scene = .ok scene.dialogue scene := rfl
  rw [Dialogue.next, Play.bind_ok read, graph, found]
  rfl

theorem takeBranch_yields (rooted : Rooted g.nodes) (quiet : Quiet host scene)
    (graph : scene.dialogue.graph = g) {n : Node} (member : n ∈ g.nodes) {edges : List Edge}
    (own : edges ⊆ n.edges) :
    Yields (Dialogue.takeBranch host n edges) scene (WentOn g n scene) (Halted g scene) := by
  induction edges generalizing scene with
  | nil => exact .of_ok rfl ⟨.refl scene, .inl rfl⟩
  | cons e rest ih =>
    obtain ⟨here, others⟩ := List.cons_subset.1 own
    rw [Dialogue.takeBranch]
    cases condition : e.condition with
    | none => exact ih quiet graph others
    | some x =>
      have written := Graph.mem_expressions_of_condition member here condition
      refine ((holds_yields quiet written n).mono_fails
        fun _ _ balked => balked.halted).bind fun held after result => ?_
      have ran := result.2.ran
      have graph' := ran.graph.trans graph
      cases held with
      | true =>
        obtain ⟨o, leads, _⟩ := Graph.target_holds rooted member here
        rw [if_pos rfl]
        exact .of_ok (target_yields graph' leads) ⟨ran, .inr ⟨e, here, leads⟩⟩
      | false =>
        rw [if_neg Bool.noConfusion]
        refine (ih (ran.quiet quiet) graph' others).mono (fun o last went => ?_)
          fun _ _ halted => halted.of_ran ran
        exact ⟨ran.trans went.1, went.2⟩

theorem runAssignment_yields (quiet : Quiet host scene) {n : Node} (member : n ∈ g.nodes) :
    Yields (Dialogue.runAssignment host n) scene (fun _ after => scene.Ran after)
      (Halted g scene) := by
  rw [Dialogue.runAssignment]
  cases expression : n.expression with
  | none => exact .of_ok rfl (.refl scene)
  | some x =>
    have written := Graph.mem_expressions_of_expression member expression
    refine ((evaluate_yields quiet written n).mono_fails
      fun _ _ balked => balked.halted).bind fun v after result => ?_
    have quiet' := result.2.quiet quiet
    cases v with
    | none =>
      obtain ⟨last, logged, silent⟩ := logAt_goesOn after .warning n
        ("[set " ++ n.identifier ++ "] produced no value, skipped")
      exact .of_ok logged (result.2.ran.trans silent.ran)
    | some v =>
      obtain ⟨last, done, more⟩ := Script.assign_quiet quiet' n.identifier v
      exact .of_ok done (result.2.ran.trans more.ran)

theorem evaluateAll_yields (quiet : Quiet host scene) {args : List Expression}
    (written : args ⊆ g.expressions) (node : Node) :
    Yields (args.mapM fun e => Dialogue.evaluate host e node) scene
      (fun vs after => args.mapM (Script.Direct.value scene.dialogue.vars) = .ok vs
        ∧ GoesOn scene scene.dialogue.vars [] after)
      (Balked g scene) := by
  induction args generalizing scene with
  | nil => exact .of_ok rfl ⟨rfl, .refl scene⟩
  | cons e rest ih =>
    obtain ⟨here, others⟩ := List.cons_subset.1 written
    rw [List.mapM_cons, List.mapM_cons]
    refine (evaluate_yields quiet here node).bind fun v between first => ?_
    refine ((ih (first.2.quiet quiet) others).mono_fails
      fun _ _ balked => ?_).bind fun vs last later => ?_
    · exact ⟨first.2.trans (first.2.vars ▸ balked.goes), balked.broke⟩
    rw [first.2.vars] at later
    refine .of_ok rfl ⟨?_, first.2.trans later.2⟩
    rw [first.1, later.1]
    rfl

theorem runEvent_yields (quiet : Quiet host scene) {n : Node} (member : n ∈ g.nodes) :
    Yields (Dialogue.runEvent host n) scene (fun _ after => scene.Ran after)
      (Halted g scene) := by
  have written : n.eventArgs ⊆ g.expressions :=
    fun _ argument => Graph.mem_expressions_of_argument member argument
  rw [Dialogue.runEvent]
  refine ((evaluateAll_yields quiet written n).mono_fails
    fun _ _ balked => balked.halted).bind fun args after result => ?_
  refine .of_ok (announce_quiet (result.2.quiet quiet) _) ?_
  exact result.2.ran.trans (told_goesOn after _).ran

/-- A step that is run goes on along one of its edges, or the path ends. -/
theorem runNode_yields (rooted : Rooted g.nodes) (quiet : Quiet host scene)
    (graph : scene.dialogue.graph = g) {n : Node} (member : n ∈ g.nodes)
    (runs : n.kind.runsOn = true) :
    Yields (Dialogue.runNode host n) scene (WentOn g n scene) (Halted g scene) := by
  obtain ⟨o, found, ways⟩ := Graph.next_edge rooted member
  have last {between : Scene η δ} (ran : scene.Ran between) :
      Yields (Dialogue.next n) between (WentOn g n scene) (Halted g scene) :=
    .of_ok (next_yields (ran.graph.trans graph) found) ⟨ran, ways.imp (·.2) id⟩
  rw [Dialogue.runNode]
  cases kind : n.kind with
  | select => exact takeBranch_yields rooted quiet graph member (List.Subset.refl _)
  | setVariable => exact (runAssignment_yields quiet member).bind fun _ _ => last
  | event => exact (runEvent_yields quiet member).bind fun _ _ => last
  | _ =>
    rw [kind] at runs
    cases runs

theorem runOn_succ (fuel : Nat) {n : Node} (runs : n.kind.runsOn = true) :
    Dialogue.runOn host (fuel + 1) (some n)
      = Dialogue.runNode host n >>= Dialogue.runOn host fuel := by
  funext scene
  exact Script.runOn_step fuel runs

/-- Nothing is run any more when the bound on steps is reached. -/
theorem runOn_endless {n : Node} (runs : n.kind.runsOn = true) :
    Dialogue.runOn host 0 (some n) scene = .error .endless scene := by
  rw [Dialogue.runOn, runs]
  rfl

/-- `RunsThrough host path o scene stop after`: a run that begins at `o` runs the steps of `path` one
after the other and then comes to `stop`. -/
inductive RunsThrough (host : Host η δ) : List Node → Option Node → Scene η δ → Option Node →
    Scene η δ → Prop where
  | stop {o : Option Node} {scene : Scene η δ} (still : Script.Still o) :
      RunsThrough host [] o scene o scene
  | step {n : Node} {o stop : Option Node} {path : List Node} {scene between after : Scene η δ}
      (runs : n.kind.runsOn = true) (ran : Dialogue.runNode host n scene = .ok o between)
      (later : RunsThrough host path o between stop after) :
      RunsThrough host (n :: path) (some n) scene stop after

/-- What a run that stops has run. -/
theorem runsThrough_of_runOn {fuel : Nat} {o stop : Option Node}
    (ran : Dialogue.runOn host fuel o scene = .ok stop after) :
    ∃ path, RunsThrough host path o scene stop after := by
  induction fuel generalizing o scene with
  | zero =>
    obtain still | ⟨n, rfl, runs⟩ := Script.still_or_runs o
    · cases (Script.runOn_still 0 still).symm.trans ran
      exact ⟨[], .stop still⟩
    · cases (runOn_endless runs).symm.trans ran
  | succ fuel ih =>
    obtain still | ⟨n, rfl, runs⟩ := Script.still_or_runs o
    · cases (Script.runOn_still (fuel + 1) still).symm.trans ran
      exact ⟨[], .stop still⟩
    · rw [runOn_succ fuel runs] at ran
      obtain ⟨o, between, first, later⟩ := Play.bind_inv ran
      obtain ⟨path, through⟩ := ih later
      exact ⟨n :: path, .step runs first through⟩

/-- A run from a node came to an expression that cannot be evaluated, or went on for as many steps as
it may. -/
structure Stalled (host : Host η δ) (g : Graph) (o : Option Node) (scene : Scene η δ) (f : Fault)
    (after : Scene η δ) : Prop where
  ran : scene.Ran after
  cause : Broke g f after
    ∨ f = .endless ∧ ∃ n, o = some n ∧ g.GoesFor NodeKind.runsOn host.steps n

theorem Stalled.breaksDown {o : Option Node} {f : Fault} (stalled : Stalled host g o scene f after)
    (onstage : Onstage host g scene) : BreaksDown host g f after := by
  refine ⟨onstage.ran stalled.ran, ?_⟩
  obtain broke | ⟨rfl, n, _, runs⟩ := stalled.cause
  · exact broke.breakdown
  · exact .endless runs

/-- Where a run that may go on for so many steps comes to. -/
theorem runOn_bounded (rooted : Rooted g.nodes) (quiet : Quiet host scene)
    (graph : scene.dialogue.graph = g) (fuel : Nat) {o : Option Node} (inside : g.Holds o) :
    Yields (Dialogue.runOn host fuel o) scene
      (fun stop after => scene.Ran after ∧ g.Passes o stop)
      (fun f after => scene.Ran after ∧ (Broke g f after
        ∨ f = .endless ∧ ∃ n, o = some n ∧ g.GoesFor NodeKind.runsOn fuel n)) := by
  induction fuel generalizing scene o with
  | zero =>
    obtain still | ⟨n, rfl, runs⟩ := Script.still_or_runs o
    · exact .of_ok (Script.runOn_still 0 still) ⟨.refl scene, .stop still⟩
    · exact .of_error (runOn_endless runs) ⟨.refl scene, .inr ⟨rfl, n, rfl, .here runs⟩⟩
  | succ fuel ih =>
    obtain still | ⟨n, rfl, runs⟩ := Script.still_or_runs o
    · exact .of_ok (Script.runOn_still (fuel + 1) still) ⟨.refl scene, .stop still⟩
    · have member := inside n rfl
      rw [runOn_succ fuel runs]
      refine ((runNode_yields rooted quiet graph member runs).mono_fails
        fun _ _ halted => ⟨halted.ran, .inl halted.broke⟩).bind fun o between went => ?_
      obtain ⟨ran, rfl | ⟨e, own, leads⟩⟩ := went
      · exact .of_ok (Script.runOn_still fuel (fun _ none => by cases none)) ⟨ran, .fades runs⟩
      · have there := Graph.holds_of_target rooted member own leads
        refine (ih (ran.quiet quiet) (ran.graph.trans graph) there).mono
          (fun stop last result => ?_) fun f last stalled => ⟨ran.trans stalled.1, ?_⟩
        · exact ⟨ran.trans result.1, .on runs own leads result.2⟩
        · -- the steps that follow are run after this one
          obtain broke | ⟨endless, m, rfl, onward⟩ := stalled.2
          · exact .inl broke
          · exact .inr ⟨endless, n, rfl, .on runs own leads onward⟩

/-- Where a run comes to, and by which steps. -/
theorem runOn_yields (rooted : Rooted g.nodes) (quiet : Quiet host scene)
    (graph : scene.dialogue.graph = g) {o : Option Node} (inside : g.Holds o) :
    Yields (Dialogue.runOn host host.steps o) scene
      (fun stop after => scene.Ran after ∧ g.Passes o stop
        ∧ ∃ path, RunsThrough host path o scene stop after)
      (Stalled host g o scene) := by
  have bounded := runOn_bounded rooted quiet graph host.steps inside
  cases played : Dialogue.runOn host host.steps o scene with
  | ok stop after =>
    obtain ⟨ran, passes⟩ := bounded.of_done played
    exact .of_ok played ⟨ran, passes, runsThrough_of_runOn played⟩
  | error f after =>
    obtain ⟨ran, cause⟩ := bounded.of_failed played
    exact .of_error played ⟨ran, cause⟩

end Colloquy
