import Colloquy.Proofs.Dialogue.Steps
import Colloquy.Proofs.Graph.Order
/-!
# The choices that a line offers

The options behind a line are told by a relation on the graph and the variables: those of every
choice in order, and of a select those of its first branch whose condition holds. What a dialogue
collects on reaching a line is what this relation tells.
-/

namespace Colloquy

open Script.Direct (Variables)

variable {η δ : Type} {host : Host η δ} {scene after : Scene η δ} {g : Graph} {vars : Variables}

/-- `g.Offers vars edges out`: from these edges of a node the options `out` are collected. -/
inductive Graph.Offers (g : Graph) (vars : Variables) : List Edge → List Edge → Prop where
  | nil : Offers g vars [] []
  | decision {e : Edge} {rest out : List Edge} (kind : e.kind = .decision)
      (later : Offers g vars rest out) : Offers g vars (e :: rest) (e :: out)
  | enters {e : Edge} {x : Expression} {o : Option Node} {rest out : List Edge}
      (kind : e.kind = .condition) (condition : e.condition = some x)
      (holds : Script.Direct.holds vars x = .ok true) (leads : g.target e = .ok o)
      (inner : Offers g vars (optionEdges o) out) : Offers g vars (e :: rest) out
  | skips {e : Edge} {rest out : List Edge} (kind : e.kind = .condition)
      (fails : ∀ x, e.condition = some x → Script.Direct.holds vars x = .ok false)
      (later : Offers g vars rest out) : Offers g vars (e :: rest) out
  | chained {e : Edge} {o : Option Node} {rest inside out : List Edge} (kind : e.kind = .chained)
      (leads : g.target e = .ok o) (inner : Offers g vars (optionEdges o) inside)
      (later : Offers g vars rest out) : Offers g vars (e :: rest) (inside ++ out)
  | passes {e : Edge} {rest out : List Edge} (kind : e.kind = .continue)
      (later : Offers g vars rest out) : Offers g vars (e :: rest) out

/-- Options are offered in the order of the tree. -/
theorem Graph.Offers.inOrder {edges out : List Edge} (offers : g.Offers vars edges out) :
    g.InOrder edges out := by
  induction offers with
  | nil => exact .nil []
  | decision kind _ ih => exact ih.decision kind
  | @enters e x o rest out kind _ _ leads _ ih =>
    have first := Graph.InOrder.within (.inl kind) leads ih (.nil rest)
    rwa [List.append_nil] at first
  | skips _ _ _ ih => exact ih.skip _
  | chained kind leads _ _ inner later => exact .within (.inr kind) leads inner later
  | passes _ _ ih => exact ih.skip _

theorem Graph.Offers.owns (rooted : Rooted g.nodes) {edges out : List Edge}
    (offers : g.Offers vars edges out) (owned : g.Owns edges) : g.Owns out :=
  offers.inOrder.owns rooted owned

/-- `g.Enters vars edges o`: while options are collected from these edges, they are also collected
from `o`, where one of them leads. After a condition that holds no edge is looked at. -/
inductive Graph.Enters (g : Graph) (vars : Variables) : List Edge → Option Node → Prop where
  | holds {e : Edge} {x : Expression} {o : Option Node} {rest : List Edge}
      (kind : e.kind = .condition) (condition : e.condition = some x)
      (holds : Script.Direct.holds vars x = .ok true) (leads : g.target e = .ok o) :
      Enters g vars (e :: rest) o
  | chained {e : Edge} {o : Option Node} {rest : List Edge} (kind : e.kind = .chained)
      (leads : g.target e = .ok o) : Enters g vars (e :: rest) o
  | later {e : Edge} {o : Option Node} {rest : List Edge}
      (passed : e.kind = .condition →
        ∀ x, e.condition = some x → Script.Direct.holds vars x = .ok false)
      (enters : Enters g vars rest o) : Enters g vars (e :: rest) o

/-- What is entered is where a branch or the way to a block leads. -/
theorem Graph.Enters.edge {edges : List Edge} {o : Option Node} (enters : g.Enters vars edges o) :
    ∃ e ∈ edges, (e.kind = .condition ∨ e.kind = .chained) ∧ g.target e = .ok o := by
  induction enters with
  | @holds e x o rest kind _ _ leads => exact ⟨e, List.mem_cons_self, .inl kind, leads⟩
  | @chained e o rest kind leads => exact ⟨e, List.mem_cons_self, .inr kind, leads⟩
  | later _ _ ih =>
    obtain ⟨e, member, way⟩ := ih
    exact ⟨e, List.mem_cons_of_mem _ member, way⟩

/-! ### Collecting -/

/-- A scene after options have been added to those that are offered. -/
structure Added (scene : Scene η δ) (out : List Edge) (after : Scene η δ) : Prop where
  dialogue : after.dialogue = { scene.dialogue with choices := scene.dialogue.choices ++ out }
  bus : after.bus = scene.bus
  events : after.events = scene.events

theorem Added.refl (scene : Scene η δ) : Added scene [] scene := by
  refine ⟨?_, rfl, rfl⟩
  rw [List.append_nil]

theorem Added.trans {out more : List Edge} {last : Scene η δ} (first : Added scene out after)
    (second : Added after more last) : Added scene (out ++ more) last := by
  refine ⟨?_, second.bus.trans first.bus, second.events.trans first.events⟩
  rw [second.dialogue, first.dialogue, List.append_assoc]

theorem GoesOn.added (goes : GoesOn scene scene.dialogue.vars [] after) : Added scene [] after := by
  refine ⟨?_, goes.bus, ?_⟩
  · rw [goes.dialogue, List.append_nil]
  · rw [goes.events]
    exact List.append_nil _

theorem Added.sameVars {out : List Edge} (added : Added scene out after) :
    after.dialogue.vars = scene.dialogue.vars := by
  rw [added.dialogue]

theorem Added.gathering {out : List Edge} (added : Added scene out after) :
    after.dialogue.gathering = scene.dialogue.gathering := by
  rw [added.dialogue]

theorem Added.graph {out : List Edge} (added : Added scene out after) :
    after.dialogue.graph = scene.dialogue.graph := by
  rw [added.dialogue]

theorem Added.quiet {out : List Edge} (added : Added scene out after) (quiet : Quiet host scene) :
    Quiet host after := by
  obtain ⟨dialogue, bus, _⟩ := added
  refine ⟨?_, ?_, ?_, ?_⟩
  · rw [dialogue]
    exact quiet.passive
  · rw [bus]
    exact quiet.unheard
  · rw [bus]
    exact quiet.idle
  · rw [bus]
    exact quiet.empty

theorem Added.onstage {out : List Edge} (added : Added scene out after)
    (onstage : Onstage host g scene) (owned : g.Owns out) : Onstage host g after := by
  refine ⟨added.quiet onstage.quiet, added.graph.trans onstage.graph, ?_, ?_⟩
  · rw [added.dialogue]
    exact onstage.line
  · rw [added.dialogue]
    exact List.forall_mem_append.2 ⟨onstage.ways, owned⟩

/-- What has been collected: the options that the relation tells, added in order. -/
def Collected (g : Graph) (edges : List Edge) (scene after : Scene η δ) : Prop :=
  ∃ out, g.Offers scene.dialogue.vars edges out ∧ Added scene out after

/-- Collecting from edges came to an expression that cannot be evaluated or, if that can be, to trees
of choices that are too deep. What was added before stands in order. -/
structure Fell (g : Graph) (deep : Prop) (edges : List Edge) (scene : Scene η δ) (f : Fault)
    (after : Scene η δ) : Prop where
  partly : ∃ out, g.InOrder edges out ∧ Added scene out after
  cause : Broke g f after ∨ f = .tooDeep ∧ deep

theorem Fell.mono {deep deep' : Prop} {edges : List Edge} {f : Fault}
    (fell : Fell g deep edges scene f after) (weaker : deep → deep') :
    Fell g deep' edges scene f after :=
  ⟨fell.partly, fell.cause.imp_right (And.imp_right weaker)⟩

theorem Fell.breakdown {steps depth : Nat} {root : Node} {edges : List Edge} {f : Fault}
    (fell : Fell g (g.GoesFor NodeKind.collects depth root) edges scene f after) :
    Breakdown steps depth g after f := by
  obtain broke | ⟨rfl, nested⟩ := fell.cause
  · exact broke.breakdown
  · exact .tooDeep nested

/-! #### What is collected from an edge and from those after it -/

section

variable {deep : Prop} {e : Edge} {rest out : List Edge} {between last : Scene η δ} {f : Fault}

theorem Collected.later (collected : Collected g rest between last) (added : Added scene out between)
    (offers : ∀ more, g.Offers scene.dialogue.vars rest more →
      g.Offers scene.dialogue.vars (e :: rest) (out ++ more)) : Collected g (e :: rest) scene last := by
  obtain ⟨more, told, more_added⟩ := collected
  rw [added.sameVars] at told
  exact ⟨out ++ more, offers more told, added.trans more_added⟩

theorem Collected.enters {x : Expression} {o : Option Node}
    (collected : Collected g (optionEdges o) between last) (added : Added scene [] between)
    (kind : e.kind = .condition) (condition : e.condition = some x)
    (holds : Script.Direct.holds scene.dialogue.vars x = .ok true) (leads : g.target e = .ok o) :
    Collected g (e :: rest) scene last := by
  obtain ⟨out, told, more⟩ := collected
  rw [added.sameVars] at told
  exact ⟨out, .enters kind condition holds leads told, added.trans more⟩

theorem Fell.later (fell : Fell g deep rest between f last) (added : Added scene out between)
    (ordered : ∀ more, g.InOrder rest more → g.InOrder (e :: rest) (out ++ more)) :
    Fell g deep (e :: rest) scene f last := by
  obtain ⟨⟨more, told, more_added⟩, cause⟩ := fell
  exact ⟨⟨out ++ more, ordered more told, added.trans more_added⟩, cause⟩

theorem Fell.within {o : Option Node} (fell : Fell g deep (optionEdges o) between f last)
    (added : Added scene [] between) (kind : e.kind = .condition ∨ e.kind = .chained)
    (leads : g.target e = .ok o) : Fell g deep (e :: rest) scene f last := by
  obtain ⟨⟨out, told, more⟩, cause⟩ := fell
  have first := told.within kind leads (.nil rest)
  rw [List.append_nil] at first
  exact ⟨⟨out, first, added.trans more⟩, cause⟩

end

section

variable (rooted : Rooted g.nodes)

include rooted

/-- Collecting from the edges of a node, if collecting from where they lead works. -/
theorem collectEdges_yields {deep : Prop} {enter : Option Node → Play η δ Unit} {gathering : Nat}
    {n : Node} (member : n ∈ g.nodes) {edges : List Edge} (own : edges ⊆ n.edges)
    (quiet : Quiet host scene) (graph : scene.dialogue.graph = g)
    (current : scene.dialogue.gathering = gathering)
    (enters : ∀ (between : Scene η δ) (o : Option Node), Quiet host between →
      between.dialogue.graph = g → between.dialogue.gathering = gathering →
      between.dialogue.vars = scene.dialogue.vars → g.Holds o →
      g.Enters scene.dialogue.vars edges o →
      Yields (enter o) between (fun _ => Collected g (optionEdges o) between)
        (Fell g deep (optionEdges o) between)) :
    Yields (Dialogue.collectEdges host gathering enter n edges) scene
      (fun _ => Collected g edges scene) (Fell g deep edges scene) := by
  induction edges generalizing scene with
  | nil => exact .of_ok rfl ⟨[], .nil, .refl scene⟩
  | cons e rest ih =>
    obtain ⟨here, others⟩ := List.cons_subset.1 own
    -- the options of the other edges come after those of this one
    have later {out : List Edge} {between : Scene η δ} (added : Added scene out between)
        (passed : e.kind = .condition →
          ∀ x, e.condition = some x → Script.Direct.holds scene.dialogue.vars x = .ok false)
        (offers : ∀ more, g.Offers scene.dialogue.vars rest more →
          g.Offers scene.dialogue.vars (e :: rest) (out ++ more))
        (ordered : ∀ more, g.InOrder rest more → g.InOrder (e :: rest) (out ++ more)) :
        Yields (Dialogue.collectEdges host gathering enter n rest) between
          (fun _ => Collected g (e :: rest) scene) (Fell g deep (e :: rest) scene) := by
      refine (ih others (added.quiet quiet) (added.graph.trans graph) (added.gathering.trans current)
        fun last o quiet graph same vars inside enter => ?_).mono
        (fun _ _ collected => collected.later added offers) fun _ _ fell => fell.later added ordered
      rw [added.sameVars] at vars enter
      exact enters last o quiet graph same vars inside (.later passed enter)
    obtain ⟨o, leads, inside⟩ := Graph.target_holds rooted member here
    rw [Dialogue.collectEdges]
    cases kind : e.kind with
    | decision =>
      have offered : Play.changeDialogue (fun d => d.offer gathering e) scene
          = .ok () { scene with dialogue := scene.dialogue.offer gathering e } := rfl
      have added : Added scene [e]
          { scene with dialogue := scene.dialogue.offer gathering e } :=
        ⟨if_pos current, rfl, rfl⟩
      refine .step offered (later added ?_ (fun _ told => .decision kind told)
        fun _ told => told.decision kind)
      rw [kind]
      rintro ⟨⟩
    | condition =>
      have skips {between : Scene η δ} (added : Added scene [] between)
          (passed : ∀ x, e.condition = some x →
            Script.Direct.holds scene.dialogue.vars x = .ok false) :=
        later added (fun _ => passed) (fun _ told => .skips kind passed told)
          fun _ told => told.skip e
      cases condition : e.condition with
      | none => exact skips (.refl scene) fun x some => by cases condition.symm.trans some
      | some x =>
        have written := Graph.mem_expressions_of_condition member here condition
        refine ((holds_yields quiet written n).mono_fails
          fun _ _ balked => ?_).bind fun held between result => ?_
        · exact ⟨⟨[], .nil _, balked.goes.added⟩, .inl balked.broke⟩
        obtain ⟨holds, goes⟩ := result
        have added := goes.added
        cases held with
        | true =>
          rw [if_pos rfl]
          refine .step (target_yields (added.graph.trans graph) leads) ?_
          exact (enters between o (added.quiet quiet) (added.graph.trans graph)
            (added.gathering.trans current) added.sameVars inside
            (.holds kind condition holds leads)).mono
            (fun _ _ collected => collected.enters added kind condition holds leads)
            fun _ _ fell => fell.within added (.inl kind) leads
        | false =>
          rw [if_neg Bool.noConfusion]
          refine skips added fun y same => ?_
          cases condition.symm.trans same
          exact holds
    | chained =>
      refine .step (target_yields graph leads) ?_
      refine ((enters scene o quiet graph current rfl inside (.chained kind leads)).mono
        (fun _ _ collected => collected)
        fun _ _ fell => fell.within (.refl scene) (.inr kind) leads).bind
        fun _ between collected => ?_
      obtain ⟨out, told, added⟩ := collected
      refine later added ?_ (fun _ others => .chained kind leads told others)
        fun _ others => told.inOrder.within (.inr kind) leads others
      rw [kind]
      rintro ⟨⟩
    | «continue» =>
      obtain ⟨between, logged, silent⟩ := logAt_goesOn scene .error n
        ("unexpected " ++ EdgeKind.continue.label ++ " edge in a choice")
      refine .step logged (later silent.added ?_ (fun _ told => .passes kind told)
        fun _ told => told.skip e)
      rw [kind]
      rintro ⟨⟩

omit rooted in
/-- Nothing is collected at a node that is neither a choice nor a select. -/
theorem outside_yields {n : Node} (other : ¬ (n.kind = .choice || n.kind = .select) = true)
    {fails : Fault → Scene η δ → Prop} :
    Yields (Dialogue.logAt .error n ("expected a choice, found a " ++ n.kind.label ++ " node"))
      scene (fun _ => Collected g (optionEdges (some n)) scene) fails := by
  obtain ⟨between, logged, silent⟩ := logAt_goesOn scene .error n
    ("expected a choice, found a " ++ n.kind.label ++ " node")
  rw [optionEdges, if_neg other]
  exact .of_ok logged ⟨[], .nil, silent.added⟩

/-- What is collected at a node, unless trees of choices are nested deeper than so many. -/
theorem collect_yields {gathering : Nat} (fuel : Nat) {o : Option Node} (inside : g.Holds o)
    (quiet : Quiet host scene) (graph : scene.dialogue.graph = g)
    (current : scene.dialogue.gathering = gathering) :
    Yields (Dialogue.collect host gathering fuel o) scene
      (fun _ => Collected g (optionEdges o) scene)
      (Fell g (∃ n, o = some n ∧ g.GoesFor NodeKind.collects fuel n) (optionEdges o) scene) := by
  induction fuel generalizing scene o with
  | zero =>
    cases o with
    | none => exact .of_ok rfl ⟨[], .nil, .refl scene⟩
    | some n =>
      rw [Dialogue.collect]
      split
      · next there =>
        exact .of_error rfl ⟨⟨[], .nil _, .refl scene⟩, .inr ⟨rfl, n, rfl, .here there⟩⟩
      · next other => exact outside_yields other
  | succ fuel ih =>
    cases o with
    | none => exact .of_ok rfl ⟨[], .nil, .refl scene⟩
    | some n =>
      rw [Dialogue.collect]
      split
      · next there =>
        rw [optionEdges, if_pos there]
        refine collectEdges_yields rooted (inside n rfl) (List.Subset.refl _) quiet graph current
          fun between o quiet' graph' same _ inside' enters => ?_
        refine (ih inside' quiet' graph' same).mono_fails fun _ _ fell => fell.mono ?_
        -- what is nested in what is entered is nested one deeper here
        rintro ⟨m, rfl, nested⟩
        obtain ⟨e, own, _, leads⟩ := enters.edge
        exact ⟨n, rfl, .on there own leads nested⟩
      · next other => exact outside_yields other

end

/-! ### Reaching a line -/

/-- `g.Presents vars line out`: with these variables a line offers the ways on `out`. -/
inductive Graph.Presents (g : Graph) (vars : Variables) : Option Node → List Edge → Prop where
  | ended : Presents g vars none []
  | only {line : Node} {e : Edge} (plain : line.hasChoices = false) (edges : line.edges = [e]) :
      Presents g vars (some line) [e]
  | choices {line root : Node} {out : List Edge} (has : line.hasChoices = true)
      (found : g.nextChoice line = .ok (some root))
      (offers : g.Offers vars (optionEdges (some root)) out) : Presents g vars (some line) out

theorem Graph.Presents.owns (rooted : Rooted g.nodes) {line : Option Node} {out : List Edge}
    (presents : g.Presents vars line out) (inside : g.Holds line) : g.Owns out := by
  cases presents with
  | ended => exact fun _ none => by cases none
  | @only line e plain edges =>
    intro x single
    rw [List.mem_singleton.1 single]
    exact ⟨line, inside line rfl, edges ▸ List.mem_cons_self⟩
  | @choices line root out has found offers =>
    have there := (rooted.nextChoice_root (inside line rfl) found).1
    exact offers.owns rooted (Graph.owns_optionEdges fun n same => Option.some.inj same ▸ there)

/-- On a line with choices these are collected from the root of their tree. -/
theorem gather_choices {line root : Node} (graph : scene.dialogue.graph = g)
    (current : scene.dialogue.current = some line) (has : line.hasChoices = true)
    (found : g.nextChoice line = .ok (some root)) {ok : Unit → Scene η δ → Prop}
    {fails : Fault → Scene η δ → Prop}
    (collects : Yields (Dialogue.collect host scene.dialogue.gathering host.depth (some root)) scene
      ok fails) : Yields (Dialogue.gather host) scene ok fails := by
  have read : Play.dialogue scene = .ok scene.dialogue scene := rfl
  have looked : Play.orFault Fault.lost (scene.dialogue.graph.nextChoice line) scene
      = .ok (some root) scene := by
    rw [graph, found]
    rfl
  rw [Dialogue.gather]
  refine .step read ?_
  rw [current]
  dsimp only
  rw [if_pos has]
  exact .step looked collects

/-- The choices of the line could not all be collected from the root of their tree. -/
def Unlisted (host : Host η δ) (g : Graph) (scene : Scene η δ) (f : Fault) (after : Scene η δ) :
    Prop :=
  ∃ line root, scene.dialogue.current = some line ∧ g.nextChoice line = .ok (some root)
    ∧ Fell g (g.GoesFor NodeKind.collects host.depth root) (optionEdges (some root)) scene f after

theorem Unlisted.breaksDown {f : Fault} (unlisted : Unlisted host g scene f after)
    (rooted : Rooted g.nodes) (onstage : Onstage host g scene) : BreaksDown host g f after := by
  obtain ⟨line, root, current, found, fell⟩ := unlisted
  have there := (rooted.nextChoice_root (onstage.line line current).1 found).1
  obtain ⟨out, ordered, added⟩ := fell.partly
  have owned : g.Owns (optionEdges (some root)) :=
    Graph.owns_optionEdges fun n same => Option.some.inj same ▸ there
  exact ⟨added.onstage onstage (ordered.owns rooted owned), fell.breakdown⟩

/-- What is gathered on a line. -/
theorem gather_yields (sturdy : g.Sturdy) (onstage : Onstage host g scene) :
    Yields (Dialogue.gather host) scene
      (fun _ after => ∃ out, g.Presents scene.dialogue.vars scene.dialogue.current out
        ∧ Added scene out after)
      (Unlisted host g scene) := by
  have read : Play.dialogue scene = .ok scene.dialogue scene := rfl
  cases current : scene.dialogue.current with
  | none =>
    rw [Dialogue.gather]
    refine .step read ?_
    rw [current]
    exact .of_ok rfl ⟨[], .ended, .refl scene⟩
  | some line =>
    obtain ⟨member, text⟩ := onstage.line line current
    cases has : line.hasChoices with
    | true =>
      obtain ⟨root, found, noted⟩ := sturdy.root line member text
      rw [has] at noted
      obtain ⟨root, rfl⟩ := Option.isSome_iff_exists.1 noted
      have there := (sturdy.rooted.nextChoice_root member found).1
      refine gather_choices onstage.graph current has found ((collect_yields sturdy.rooted host.depth
        (fun n same => Option.some.inj same ▸ there) onstage.quiet onstage.graph rfl).mono
        (fun _ last collected => ?_) fun _ _ fell => ⟨line, root, current, found, fell.mono
          fun ⟨_, same, nested⟩ => Option.some.inj same ▸ nested⟩)
      obtain ⟨out, told, added⟩ := collected
      exact ⟨out, .choices has found told, added⟩
    | false =>
      obtain ⟨e, edges⟩ := sturdy.text_edges member text
      have first : line.edge? 0 = some e := by
        rw [Node.edge?, edges]
        rfl
      rw [Dialogue.gather]
      refine .step read ?_
      rw [current]
      dsimp only
      rw [has, if_neg Bool.noConfusion, first]
      exact .of_ok rfl ⟨[e], .only has edges, if_pos rfl, rfl, rfl⟩

/-- A scene in which the dialogue has moved and nothing has been collected yet. -/
def Scene.movedTo (scene : Scene η δ) (line : Option Node) : Scene η δ :=
  { scene with dialogue := scene.dialogue.moveTo line }

theorem movedTo_quiet (quiet : Quiet host scene) (line : Option Node) :
    Quiet host (scene.movedTo line) :=
  ⟨quiet.passive, quiet.unheard, quiet.idle, quiet.empty⟩

theorem movedTo_onstage (onstage : Onstage host g scene) {line : Option Node}
    (stands : ∀ n, line = some n → n ∈ g.nodes ∧ n.kind = .text) :
    Onstage host g (scene.movedTo line) :=
  ⟨movedTo_quiet onstage.quiet line, onstage.graph, stands, fun _ none => by cases none⟩

/-- A scene after the dialogue has moved to a line or to the end, where it offers what there is. The
last thing that happened is that all were told of it, unless it moved quietly. -/
structure Moved (g : Graph) (line : Option Node) (quietly : Bool) (scene after : Scene η δ) : Prop
    where
  presents : ∃ out, g.Presents scene.dialogue.vars line out
    ∧ after.dialogue = { scene.dialogue.moveTo line with choices := out }
  bus : after.bus = scene.bus
  told : quietly = false →
    ∃ between : Scene η δ, after = between.told (if line.isSome then .line else .finished)

theorem Moved.onstage {line : Option Node} {quietly : Bool} (moved : Moved g line quietly scene after)
    (sturdy : g.Sturdy) (onstage : Onstage host g scene)
    (stands : ∀ n, line = some n → n ∈ g.nodes ∧ n.kind = .text) : Onstage host g after := by
  obtain ⟨⟨out, presents, dialogue⟩, bus, _⟩ := moved
  have quiet := onstage.quiet
  refine ⟨⟨?_, bus ▸ quiet.unheard, bus ▸ quiet.idle, bus ▸ quiet.empty⟩, ?_, ?_, ?_⟩
  · rw [dialogue]
    exact quiet.passive
  · rw [dialogue]
    exact onstage.graph
  · rw [dialogue]
    exact stands
  · rw [dialogue]
    exact presents.owns sturdy.rooted fun n same => (stands n same).1

theorem setLine_yields (sturdy : g.Sturdy) (onstage : Onstage host g scene) {line : Option Node}
    (stands : ∀ n, line = some n → n ∈ g.nodes ∧ n.kind = .text) (quietly : Bool) :
    Yields (Dialogue.setLine host line quietly) scene
      (fun _ after => Moved g line quietly scene after) (Unlisted host g (scene.movedTo line)) := by
  have moved : Play.changeDialogue (fun d => d.moveTo line) scene = .ok () (scene.movedTo line) :=
    rfl
  have there := movedTo_onstage onstage stands
  rw [Dialogue.setLine]
  refine .step moved ?_
  refine (gather_yields sturdy there).bind fun _ between gathered => ?_
  obtain ⟨out, presents, added⟩ := gathered
  have onstage' :=
    added.onstage there (presents.owns sturdy.rooted fun n same => (stands n same).1)
  have dialogue : between.dialogue = { scene.dialogue.moveTo line with choices := out } :=
    added.dialogue
  cases quietly with
  | true =>
    refine .of_ok rfl ⟨⟨out, presents, dialogue⟩, added.bus, ?_⟩
    rintro ⟨⟩
  | false =>
    refine .of_ok (announce_quiet onstage'.quiet _) ⟨⟨out, presents, dialogue⟩, added.bus, ?_⟩
    exact fun _ => ⟨between, rfl⟩

/-! ### Running to a line -/

/-- What is logged when a run comes to a choice with no line before it. -/
def Dialogue.strayChoice (d : Dialogue) (n : Node) : LogEntry :=
  ⟨.error, "Error in " ++ d.name ++ " line " ++ n.line.display ++ ": "
    ++ ("tried to run to the next speaker line but found a " ++ n.kind.label ++ " node")⟩

/-- Where a run from a node has brought the dialogue: to a line, to the end, or nowhere, as it came
to a choice. -/
inductive RanTo (host : Host η δ) (g : Graph) (o : Option Node) (tellEnd : Bool)
    (scene after : Scene η δ) : Prop where
  | line {path : List Node} {n : Node} {between : Scene η δ} (ran : scene.Ran between)
      (passes : g.Passes o (some n)) (through : RunsThrough host path o scene (some n) between)
      (text : n.kind = .text) (moved : Moved g (some n) false between after)
  | ended {path : List Node} {between : Scene η δ} (ran : scene.Ran between)
      (passes : g.Passes o none) (through : RunsThrough host path o scene none between)
      (moved : Moved g none (!tellEnd) between after)
  | choice {path : List Node} {n : Node} {between : Scene η δ} (ran : scene.Ran between)
      (passes : g.Passes o (some n)) (through : RunsThrough host path o scene (some n) between)
      (choice : n.kind = .choice)
      (logged : after = { between with
        journal := between.journal ++ [.logged (between.dialogue.strayChoice n)] })

theorem RanTo.onstage {o : Option Node} {tellEnd : Bool} (ran : RanTo host g o tellEnd scene after)
    (sturdy : g.Sturdy) (onstage : Onstage host g scene) (inside : g.Holds o) :
    Onstage host g after := by
  cases ran with
  | @line path n between ran passes through text moved =>
    refine moved.onstage sturdy (onstage.ran ran) ?_
    rintro _ ⟨⟩
    exact ⟨passes.holds sturdy.rooted inside n rfl, text⟩
  | ended ran passes through moved =>
    refine moved.onstage sturdy (onstage.ran ran) ?_
    rintro _ ⟨⟩
  | choice ran passes through kind logged =>
    rw [logged]
    obtain ⟨quiet, graph, line, ways⟩ := onstage.ran ran
    exact ⟨⟨quiet.passive, quiet.unheard, quiet.idle, quiet.empty⟩, graph, line, ways⟩

/-- The kinds of node that are not run. -/
theorem Graph.Sturdy.still_kind (sturdy : g.Sturdy) {n : Node} (member : n ∈ g.nodes)
    (still : n.kind.runsOn = false) : n.kind = .text ∨ n.kind = .choice := by
  have noGoto := sturdy.formed.noGoto n member
  cases kind : n.kind with
  | text => exact .inl rfl
  | choice => exact .inr rfl
  | goto => exact absurd kind noGoto
  | _ =>
    rw [kind] at still
    cases still

/-- What a run to a line fails with: it stalls on its way, or the choices of the line that it came
to cannot be collected. -/
inductive RunFell (host : Host η δ) (g : Graph) (o : Option Node) (scene : Scene η δ) (f : Fault)
    (after : Scene η δ) : Prop where
  | stalled (stalled : Stalled host g o scene f after)
  | unlisted {stop : Option Node} {between : Scene η δ} (ran : scene.Ran between)
      (passes : g.Passes o stop) (stands : ∀ n, stop = some n → n.kind = .text)
      (unlisted : Unlisted host g (between.movedTo stop) f after)

theorem RunFell.breaksDown {o : Option Node} {f : Fault} (fell : RunFell host g o scene f after)
    (rooted : Rooted g.nodes) (onstage : Onstage host g scene) (inside : g.Holds o) :
    BreaksDown host g f after := by
  cases fell with
  | stalled stalled => exact stalled.breaksDown onstage
  | unlisted ran passes stands unlisted =>
    refine unlisted.breaksDown rooted (movedTo_onstage (onstage.ran ran) fun n same => ?_)
    exact ⟨passes.holds rooted inside n same, stands n same⟩

theorem runTo_yields (sturdy : g.Sturdy) (onstage : Onstage host g scene) {o : Option Node}
    (inside : g.Holds o) (tellEnd : Bool) :
    Yields (Dialogue.runTo host o tellEnd) scene
      (fun _ after => RanTo host g o tellEnd scene after) (RunFell host g o scene) := by
  rw [Dialogue.runTo]
  refine ((runOn_yields sturdy.rooted onstage.quiet onstage.graph inside).mono_fails
    fun _ _ => .stalled).bind fun stop between result => ?_
  obtain ⟨ran, passes, path, through⟩ := result
  have onstage' := onstage.ran ran
  cases stop with
  | none =>
    have stands : ∀ m : Node, none = some m → m ∈ g.nodes ∧ m.kind = .text := by
      rintro _ ⟨⟩
    exact (setLine_yields sturdy onstage' stands (!tellEnd)).mono
      (fun _ _ moved => .ended ran passes through moved)
      fun _ _ => .unlisted ran passes fun n same => (stands n same).2
  | some n =>
    have member := passes.holds sturdy.rooted inside n rfl
    -- a run stops at a line or at a choice only
    obtain text | choice := sturdy.still_kind member (passes.still n rfl)
    · have stands : ∀ m, some n = some m → m ∈ g.nodes ∧ m.kind = .text := by
        rintro _ ⟨⟩
        exact ⟨member, text⟩
      dsimp only
      rw [if_pos text]
      exact (setLine_yields sturdy onstage' stands false).mono
        (fun _ _ moved => .line ran passes through text moved)
        fun _ _ => .unlisted ran passes fun n same => (stands n same).2
    · have other : ¬ n.kind = .text := by
        rw [choice]
        exact NodeKind.noConfusion
      dsimp only
      rw [if_neg other]
      exact .of_ok rfl (.choice ran passes through choice rfl)

end Colloquy
