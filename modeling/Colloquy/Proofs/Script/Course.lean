import Colloquy.Proofs.Graph.Search
import Colloquy.Proofs.Script.Laid
import Colloquy.Proofs.Script.WellFormed
/-!
# The course of a script without choices

How direct execution passes the lines that make no node, and where it goes in the graph that a
script compiles to: each node shows the lines that execution stands before, and each edge leads to
where execution arrives next, gotos left out.
-/

namespace Colloquy.Script

namespace Direct

variable {endLabel : String} {script : List Item}

/-- Execution goes from lines to others without changing or raising anything. -/
inductive Glides (endLabel : String) (script : List Item) : List Item → List Item → Prop where
  | here {lines : List Item} : Glides endLabel script lines lines
  | on {lines next rest : List Item}
      (now : ∀ vars, step endLabel script vars lines = .ok (.went next vars []))
      (onward : Glides endLabel script next rest) : Glides endLabel script lines rest

theorem Glides.trans {a b c : List Item} (first : Glides endLabel script a b)
    (second : Glides endLabel script b c) : Glides endLabel script a c := by
  induction first with
  | here => exact second
  | on now _ ih => exact .on now (ih second)

/-- Where execution glides to it comes to the same. -/
theorem Glides.runs {lines rest : List Item} {vars vars' : Variables} {raised : List Raised}
    {stand : Stand} (glides : Glides endLabel script lines rest)
    (runs : Runs endLabel script rest vars raised stand vars') :
    Runs endLabel script lines vars raised stand vars' := by
  induction glides with
  | here => exact runs
  | on now _ ih => exact .went (now vars) (ih runs)

theorem glides_arrive (lines : List Item) : Glides endLabel script lines (arrive lines) := by
  fun_induction arrive lines with
  | case1 name rest ih => exact .on (fun _ => rfl) ih
  | case2 rest ih => exact .on (fun _ => rfl) ih
  | case3 e rest ih => exact .on (fun _ => rfl) ih
  | case4 rest ih => exact .on (fun _ => rfl) ih
  | case5 => exact .here

/-- The lines of the first branch whose condition holds. -/
def firstArm (vars : Variables) : List Arm → Except Expression.EvalFault (List Item)
  | [] => .ok []
  | arm :: more => do
    if ← holds vars arm.1 then return arm.2 else firstArm vars more

theorem nextBranch_eq (vars : Variables) (depth : Nat) (lines : List Item) :
    nextBranch vars depth lines = firstArm vars (laterArms false depth lines) := by
  fun_induction nextBranch vars depth lines with
  | case1 => rfl
  | case2 depth e rest ih => rw [ih, laterArms]
  | case3 e rest ih => rw [laterArms, firstArm, ih]
  | case4 rest => rfl
  | case5 rest => rfl
  | case6 depth rest ih => rw [ih, laterArms]
  | case7 depth item rest noIf noElseIf noElse noEnd noEnd' ih =>
    rw [ih, laterArms]
    all_goals assumption

/-- A block is entered at the first of its branches whose condition holds. -/
theorem step_openIf (vars : Variables) (c : Expression) (rest : List Item) :
    step endLabel script vars (.openIf c :: rest)
      = (firstArm vars (armsOf c rest)).map fun lines => .went lines vars [] := by
  rw [step, armsOf, firstArm, nextBranch_eq]
  cases holds vars c with
  | error f => rfl
  | ok held =>
    cases held with
    | true => rfl
    | false =>
      cases firstArm vars (laterArms false 0 rest) <;> rfl

end Direct

/-! ### Gotos -/

/-- A goto of a draft stands for the line that goes there. -/
theorem Laid.goto_line {script : List Item} {nodes : List Draft}
    {labels : List (String × Option Nat)} (laid : Laid script nodes labels) {i : Nat} {d : Draft}
    {label : String} {lines : List Item} (there : nodes[i]? = some d)
    (goto : d.gotoLabel? = some label) (here : (stations script)[i]? = some lines) :
    ∃ rest, lines = .goto label :: rest := by
  obtain ⟨item, rest, station, fits⟩ := laid.steps i d there
  cases station.symm.trans here
  unfold Draft.gotoLabel? at goto
  cases item with
  | goto name =>
    have step : d.step = .goto name := fits
    rw [step] at goto
    cases goto
    exact ⟨rest, rfl⟩
  | say =>
    obtain ⟨_, _, step⟩ := fits
    rw [step] at goto
    cases goto
  | set =>
    obtain ⟨_, _, step⟩ := fits
    rw [step] at goto
    cases goto
  | raise | openIf =>
    have step : d.step = _ := fits
    rw [step] at goto
    cases goto
  | label | elseIf | otherwise | endIf => cases fits

/-- Where gotos lead in a draft, execution glides. -/
theorem Laid.leads {script : List Item} {nodes : List Draft} {endLabel : String}
    {labels : List (String × Option Nat)} (laid : Laid script nodes labels)
    {way target : Option Nat} (leads : Leads endLabel nodes labels way target)
    {lines : List Item} (here : StandsAt script way lines) :
    ∃ rest, Direct.Glides endLabel script lines rest ∧ StandsAt script target rest := by
  induction leads generalizing lines with
  | done => exact ⟨lines, .here, here⟩
  | kept there noGoto => exact ⟨lines, .here, here⟩
  | ended there goto =>
    obtain ⟨rest, rfl⟩ := laid.goto_line there goto here
    refine ⟨[], .on (fun vars => ?_) .here, rfl⟩
    rw [Direct.step, afterGoto, if_pos rfl]
  | jump there goto notEnd declared _ ih =>
    obtain ⟨rest, rfl⟩ := laid.goto_line there goto here
    obtain ⟨after, found, stands⟩ := laid.labels _ _ declared
    obtain ⟨last, glides, ends⟩ := ih stands
    refine ⟨last, .on (fun vars => ?_) glides, ends⟩
    rw [Direct.step, afterGoto, if_neg notEnd, found]
    rfl

/-! ### Graphs that perform a script -/

/-- Whether an edge leads to a node of a graph, or to the end. -/
def Arrives (g : Graph) (e : Edge) : Option Node → Prop
  | none => e.target = none
  | some n => ∃ p : Nat, e.target = some (.ofNat p) ∧ g.nodes[p]? = some n

section Performs

variable (g : Graph) (endLabel : String) (script : List Item)
  (related : Option Node → List Item → Prop)

/-- Whether an edge leads where execution goes on from some lines. -/
def Onward (e : Edge) (lines : List Item) : Prop :=
  ∃ o rest, Arrives g e o ∧ Direct.Glides endLabel script lines rest ∧ related o rest

/-- A node does what the first line does that execution stands before, and leads on as it does. -/
inductive Shows : Node → List Item → Prop where
  | say {n : Node} {e : Edge} {rest : List Item} (kind : n.kind = .text) (edges : n.edges = [e])
      (plain : n.hasChoices = false) (onward : Onward g endLabel script related e rest) :
      Shows n (.say n.speaker n.text :: rest)
  | set {n : Node} {e : Edge} {x : Expression} {rest : List Item} (kind : n.kind = .setVariable)
      (edges : n.edges = [e]) (expression : n.expression = some x)
      (onward : Onward g endLabel script related e rest) : Shows n (.set n.identifier x :: rest)
  | raise {n : Node} {e : Edge} {rest : List Item} (kind : n.kind = .event) (edges : n.edges = [e])
      (onward : Onward g endLabel script related e rest) :
      Shows n (.raise n.eventName n.eventArgs :: rest)
  | openIf {n : Node} {c : Expression} {rest : List Item} (kind : n.kind = .select)
      (branches : List.Forall₂
        (fun e arm => e.condition = some arm.1 ∧ Onward g endLabel script related e arm.2)
        n.edges (armsOf c rest)) :
      Shows n (.openIf c :: rest)

/-- A graph performs a script: its nodes are related to what is ahead of direct execution. -/
structure Performs : Prop where
  ended : ∀ lines, related none lines ↔ lines = []
  shows : ∀ n lines, related (some n) lines → Shows g endLabel script related n lines
  first : ∃ o lines, g.firstNode = .ok o ∧ Direct.Glides endLabel script script lines
    ∧ related o lines

end Performs

/-! ### Compiled scripts -/

section Compiled

variable {s : Settings} {name text : String} {b : Builder} {g : Graph} {script : List Item}

/-- Whether a node of a graph comes of the line that is ahead. -/
def StandsFor (s : Settings) (b : Builder) (g : Graph) (script : List Item) :
    Option Node → List Item → Prop
  | none, lines => lines = []
  | some n, lines => ∃ (i : Nat) (d : Draft), (settleAll b.nodes)[i]? = some d
      ∧ d.gotoLabel? = none ∧ (stations script)[i]? = some lines
      ∧ g.nodes[keptBefore (settleAll b.nodes) i]? = some n
      ∧ Built (bodyNode s b d (keptBefore (settleAll b.nodes) i)) n

/-- What stands at a position of the draft, with its place in the graph. -/
theorem place_stands (linked : Linked s text b) (comes : ComesOf s name b g)
    (laid : Laid script (settleAll b.nodes) b.labels) {i : Nat} {lines : List Item}
    (station : (stations script)[i]? = some lines) :
    ∃ o rest, Direct.Glides s.endLabel script lines rest ∧ StandsFor s b g script o rest
      ∧ match (newPosition (settleAll b.nodes) (gotosOf s b) i) with
        | none => o = none
        | some p => ∃ n, o = some n ∧ g.nodes[p]? = some n := by
  have bound : i < b.nodes.length := by
    have := (List.getElem?_eq_some_iff.mp station).1
    rwa [← laid.count, settleAll_length] at this
  obtain ⟨target, leads, position⟩ := newPosition_eq linked bound
  obtain ⟨rest, glides, stands⟩ := @Laid.leads _ _ _ _ laid (some i) _ leads _ station
  rw [position]
  cases target with
  | none => exact ⟨none, rest, glides, stands, rfl⟩
  | some j =>
    obtain ⟨d, there, noGoto⟩ := leads.target_kept
    obtain ⟨n, node, built⟩ := comes.node_of_draft there noGoto
    exact ⟨some n, rest, glides, ⟨j, d, there, noGoto, stands, node, built⟩, n, rfl, node⟩

/-- An edge of a node leads on to where execution arrives. -/
theorem edge_onward (linked : Linked s text b) (comes : ComesOf s name b g)
    (laid : Laid script (settleAll b.nodes) b.labels) {i k : Nat} {d : Draft} {n : Node} {e : Edge}
    {p : Nat} (there : (settleAll b.nodes)[i]? = some d) (built : Built (bodyNode s b d p) n)
    (edge : n.edges[k]? = some e) :
    ∃ lines, Wants script ⟨i, k⟩ lines
      ∧ Onward g s.endLabel script (StandsFor s b g script) e lines := by
  obtain ⟨e₀, slot, _, _, _, _, target⟩ := ComesOf.edge_at_body built edge
  obtain ⟨way, lines, wants, stands, destination⟩ :=
    laid.edges ⟨i, k⟩ e₀ (edgeAt_eq_some.mpr ⟨d, there, slot⟩)
  refine ⟨lines, wants, ?_⟩
  rw [newTarget, destination] at target
  cases way with
  | none => exact ⟨none, lines, target, .here, stands⟩
  | some j =>
    obtain ⟨o, rest, glides, standsFor, place⟩ := place_stands linked comes laid stands
    refine ⟨o, rest, ?_, glides, standsFor⟩
    dsimp only [Option.elim_some] at target
    cases position : newPosition (settleAll b.nodes) (gotosOf s b) j with
    | none =>
      rw [position] at place target
      rw [place]
      exact target
    | some p =>
      rw [position] at place target
      obtain ⟨n', rfl, node⟩ := place
      exact ⟨p, target, node⟩

theorem Wants.of_step {r : EdgeRef} {lines rest : List Item} {item : Item}
    (wants : Wants script r lines) (station : (stations script)[r.node]? = some (item :: rest))
    (noBlock : ∀ c, item ≠ .openIf c) : lines = arrive rest := by
  cases wants with
  | onward station' =>
    cases station.symm.trans station'
    rfl
  | branch station' =>
    cases station.symm.trans station'
    exact absurd rfl (noBlock _)

theorem Wants.of_block {r : EdgeRef} {lines rest : List Item} {c : Expression}
    (wants : Wants script r lines)
    (station : (stations script)[r.node]? = some (.openIf c :: rest)) :
    ∃ arm, (armsOf c rest)[r.slot]? = some arm ∧ lines = arrive arm.2 := by
  cases wants with
  | onward station' noBlock =>
    cases station.symm.trans station'
    exact absurd rfl (noBlock c)
  | branch station' chosen =>
    cases station.symm.trans station'
    exact ⟨_, chosen, rfl⟩

/-- What an edge leads on to from where execution arrives it leads on to from before. -/
theorem Onward.before {endLabel : String} {related : Option Node → List Item → Prop} {e : Edge}
    {lines : List Item} (onward : Onward g endLabel script related e (arrive lines)) :
    Onward g endLabel script related e lines := by
  obtain ⟨o, rest, arrives, glides, stands⟩ := onward
  exact ⟨o, rest, arrives, (Direct.glides_arrive lines).trans glides, stands⟩

/-- A step leads on to where execution arrives after its line. -/
theorem step_onward (linked : Linked s text b) (comes : ComesOf s name b g)
    (laid : Laid script (settleAll b.nodes) b.labels) {i : Nat} {d : Draft} {n : Node} {p : Nat}
    {item : Item} {rest : List Item} (there : (settleAll b.nodes)[i]? = some d)
    (built : Built (bodyNode s b d p) n) (station : (stations script)[i]? = some (item :: rest))
    (noBlock : ∀ c, item ≠ .openIf c) (sequential : d.step.isSequential = true) :
    ∃ e, n.edges = [e] ∧ Onward g s.endLabel script (StandsFor s b g script) e rest := by
  have single := laid.single d (List.mem_of_getElem? there) sequential
  have count := built.edges_length
  rw [bodyNode, buildNode_edges, List.length_map, single] at count
  obtain ⟨e, only⟩ := List.length_eq_one_iff.mp count
  obtain ⟨lines, wants, onward⟩ := edge_onward linked comes laid there built
    (show n.edges[0]? = some e by rw [only]; rfl)
  rw [wants.of_step station noBlock] at onward
  exact ⟨e, only, onward.before⟩

/-- The branches of a select lead on to where execution arrives in the branches of its block. -/
theorem branches_onward (linked : Linked s text b) (comes : ComesOf s name b g)
    (laid : Laid script (settleAll b.nodes) b.labels) {i : Nat} {d : Draft} {n : Node} {p : Nat}
    {c : Expression} {rest : List Item} (there : (settleAll b.nodes)[i]? = some d)
    (built : Built (bodyNode s b d p) n)
    (station : (stations script)[i]? = some (.openIf c :: rest)) :
    List.Forall₂ (fun e arm => e.condition = some arm.1
      ∧ Onward g s.endLabel script (StandsFor s b g script) e arm.2) n.edges (armsOf c rest) := by
  have conditions := laid.branches i d c rest there station
  have count := built.edges_length
  rw [bodyNode, buildNode_edges, List.length_map] at count
  have length := congrArg List.length conditions
  rw [List.length_map, List.length_map] at length
  refine List.forall₂_iff_get.mpr ⟨count.trans length, fun k inside inside' => ?_⟩
  have edge : n.edges[k]? = some (n.edges.get ⟨k, inside⟩) := List.getElem?_eq_getElem inside
  have arm : (armsOf c rest)[k]? = some ((armsOf c rest).get ⟨k, inside'⟩) :=
    List.getElem?_eq_getElem inside'
  obtain ⟨e₀, slot, _, condition, _⟩ := ComesOf.edge_at_body built edge
  obtain ⟨lines, wants, onward⟩ := edge_onward linked comes laid there built edge
  obtain ⟨arm', chosen, rfl⟩ := wants.of_block station
  rw [arm] at chosen
  cases chosen
  refine ⟨?_, onward.before⟩
  have same := congrArg (·[k]?) conditions
  rw [List.getElem?_map, List.getElem?_map, slot, arm] at same
  rw [condition]
  exact Option.some.inj same

/-- No node of the graph is a choice. -/
theorem choiceless (linked : Linked s text b) (comes : ComesOf s name b g)
    (laid : Laid script (settleAll b.nodes) b.labels) : ∀ n ∈ g.nodes, n.kind ≠ .choice := by
  intro n member
  obtain ⟨p, there⟩ := List.mem_iff_getElem?.mp member
  by_cases inside : p < (bodyOf b).length
  · obtain ⟨i, d, found, _, _, _, kind⟩ := ComesOf.sound_body linked comes there inside
    obtain ⟨item, rest, _, fits⟩ := laid.steps i d found
    rw [kind]
    exact fits.ne_choice
  · obtain ⟨k, rfl⟩ := Nat.exists_eq_add_of_le (Nat.le_of_not_lt inside)
    rw [(ComesOf.headerStep_kind linked comes there).1]
    exact nofun

/-- A line of the graph has no choices. -/
theorem no_choices (linked : Linked s text b) (comes : ComesOf s name b g)
    (laid : Laid script (settleAll b.nodes) b.labels) {n : Node} (member : n ∈ g.nodes)
    (text : n.kind = .text) : n.hasChoices = false := by
  obtain ⟨plain, marked, _⟩ := comes.marked
  obtain ⟨p, there⟩ := List.mem_iff_getElem?.mp member
  obtain ⟨n₁, _, made⟩ := forall₂_right marked there
  obtain ⟨same, _⟩ := markChoices_same made
  have kind : n₁.kind = .text := by
    rw [same] at text
    exact text
  have none : ∀ m ∈ plain, m.kind ≠ .choice := by
    intro m inside
    obtain ⟨q, place⟩ := List.mem_iff_getElem?.mp inside
    obtain ⟨m', found, named⟩ := forall₂_left marked place
    obtain ⟨alike, _⟩ := markChoices_same named
    have other := choiceless linked comes laid m' (List.mem_of_getElem? found)
    rw [alike] at other
    exact other
  rw [Graph.markChoices, if_pos kind] at made
  obtain ⟨found, searched, last⟩ := bind_eq_ok.mp made
  cases last
  rw [nextChoice_choiceless none searched]
  rfl

/-- The nodes of a compiled script show the lines that they come of. -/
theorem shows_of_standsFor (linked : Linked s text b) (comes : ComesOf s name b g)
    (laid : Laid script (settleAll b.nodes) b.labels) {n : Node} {lines : List Item}
    (stands : StandsFor s b g script (some n) lines) :
    Shows g s.endLabel script (StandsFor s b g script) n lines := by
  obtain ⟨i, d, there, noGoto, station, node, built⟩ := stands
  obtain ⟨item, rest, station', fits⟩ := laid.steps i d there
  cases station.symm.trans station'
  have kind : n.kind = d.step.kind := by rw [built.kind, bodyNode, buildNode_kind]
  have same := built.same
  cases item with
  | say speaker text =>
    obtain ⟨textId, params, step⟩ := fits
    obtain ⟨e, only, onward⟩ := step_onward linked comes laid there built station (fun _ => Item.noConfusion)
      (by rw [step]; rfl)
    rw [step] at kind
    have isSpeaker : n.speaker = speaker := by rw [same, bodyNode, buildNode, step]
    have isText : n.text = text := by rw [same, bodyNode, buildNode, step]
    subst isSpeaker isText
    exact .say kind only (no_choices linked comes laid (List.mem_of_getElem? node) kind) onward
  | set name' x =>
    obtain ⟨text', textId, step⟩ := fits
    obtain ⟨e, only, onward⟩ := step_onward linked comes laid there built station (fun _ => Item.noConfusion)
      (by rw [step]; rfl)
    rw [step] at kind
    have isName : n.identifier = name' := by rw [same, bodyNode, buildNode, step]
    have isValue : n.expression = some x := by rw [same, bodyNode, buildNode, step]
    subst isName
    exact .set kind only isValue onward
  | raise name' args =>
    have step : d.step = .event name' args := fits
    obtain ⟨e, only, onward⟩ := step_onward linked comes laid there built station (fun _ => Item.noConfusion)
      (by rw [step]; rfl)
    rw [step] at kind
    have isName : n.eventName = name' := by rw [same, bodyNode, buildNode, step]
    have isArgs : n.eventArgs = args := by rw [same, bodyNode, buildNode, step]
    subst isName isArgs
    exact .raise kind only onward
  | goto label =>
    have step : d.step = .goto label := fits
    rw [Draft.gotoLabel?, step] at noGoto
    cases noGoto
  | openIf c =>
    have step : d.step = .select := fits
    rw [step] at kind
    exact .openIf kind (branches_onward linked comes laid there built station)
  | label | elseIf | otherwise | endIf => cases fits

/-- A compiled script starts where execution arrives from its start. -/
theorem first_stands (linked : Linked s text b) (comes : ComesOf s name b g)
    (laid : Laid script (settleAll b.nodes) b.labels) :
    ∃ o lines, g.firstNode = .ok o ∧ Direct.Glides s.endLabel script script lines
      ∧ StandsFor s b g script o lines := by
  have start : Direct.Glides s.endLabel script script (arrive script) := Direct.glides_arrive script
  rw [Graph.firstNode, comes.first]
  rcases laid.first with ⟨empty, same⟩ | station
  · rw [empty]
    exact ⟨none, [], rfl, same ▸ start, rfl⟩
  · have some : (settleAll b.nodes).isEmpty = false := by
      have bound := (List.getElem?_eq_some_iff.mp station).1
      rw [← laid.count] at bound
      cases nodes : settleAll b.nodes with
      | nil =>
        rw [nodes] at bound
        cases bound
      | cons => rfl
    rw [some, if_neg Bool.noConfusion]
    obtain ⟨o, rest, glides, stands, place⟩ := place_stands linked comes laid station
    refine ⟨o, rest, ?_, start.trans glides, stands⟩
    cases position : newPosition (settleAll b.nodes) (gotosOf s b) 0 with
    | none =>
      rw [position] at place
      rw [place]
      rfl
    | some p =>
      rw [position] at place
      obtain ⟨n, rfl, node⟩ := place
      have inside : ¬ (p : Int) < 0 := by omega
      simp [Graph.node?, Ref.ofNat, inside, node]

/-- The graph of a script without choices that compiles without an error performs the script. -/
theorem compiled_performs {c : Compilation} (compiled : compile s name text = .ok c)
    (clean : c.hasErrors = false) (graph : c.graph = some g)
    (plain : IsPlain s (Text.lines text.toList)) :
    ∃ related, Performs g s.endLabel (program s text) related := by
  obtain ⟨b, linked, notes, comes⟩ := compile_graph compiled graph
  have noError : b.Clean := by
    intro d member
    have all := List.any_eq_false.mp clean d (notes.subset member)
    exact Bool.eq_false_iff.mpr all
  have laid := linked.laid noError plain
  exact ⟨StandsFor s b g (program s text), fun _ => Iff.rfl,
    fun _ _ => shows_of_standsFor linked comes laid, first_stands linked comes laid⟩

end Compiled

end Colloquy.Script
