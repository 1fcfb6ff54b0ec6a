import Colloquy.Proofs.Graph.Alike
import Colloquy.Proofs.Script.Totality
/-!
# Sturdy graphs

On a sturdy graph nothing that a dialogue looks up is missing: whatever it follows leads to a node
or to the end, and the search for the choices of a line comes back. Every graph that a script
compiles to is sturdy.
-/

namespace Colloquy

namespace Graph

/-- The expressions of a graph: guards, values of variables and arguments of events. -/
def expressions (g : Graph) : List Expression :=
  g.nodes.flatMap fun n =>
    n.expression.toList ++ n.eventArgs ++ n.edges.filterMap (·.condition)

/-- A node of a graph, or the end. -/
def Holds (g : Graph) (o : Option Node) : Prop :=
  ∀ n, o = some n → n ∈ g.nodes

/-- A graph in which whatever is followed is found: references lead to nodes, and from a line the
search for its choices comes to what was noted of it. -/
structure Navigable (g : Graph) : Prop where
  rooted : Rooted g.nodes
  root : ∀ line ∈ g.nodes, line.kind = .text →
    ∃ o, g.nextChoice line = .ok o ∧ o.isSome = line.hasChoices

/-- A graph whose references hold. -/
structure Sturdy (g : Graph) : Prop where
  formed : g.WellFormed
  rooted : Rooted g.nodes
  root : ∀ line ∈ g.nodes, line.kind = .text →
    ∃ o, g.nextChoice line = .ok o ∧ o.isSome = line.hasChoices

theorem mem_expressions_of_condition {g : Graph} {n : Node} (member : n ∈ g.nodes) {e : Edge}
    (own : e ∈ n.edges) {x : Expression} (condition : e.condition = some x) :
    x ∈ g.expressions := by
  refine List.mem_flatMap.2 ⟨n, member, ?_⟩
  exact List.mem_append_right _ (List.mem_filterMap.2 ⟨e, own, condition⟩)

theorem mem_expressions_of_expression {g : Graph} {n : Node} (member : n ∈ g.nodes)
    {x : Expression} (value : n.expression = some x) : x ∈ g.expressions := by
  refine List.mem_flatMap.2 ⟨n, member, ?_⟩
  simp [value]

theorem mem_expressions_of_argument {g : Graph} {n : Node} (member : n ∈ g.nodes)
    {x : Expression} (argument : x ∈ n.eventArgs) : x ∈ g.expressions := by
  refine List.mem_flatMap.2 ⟨n, member, ?_⟩
  simp [argument]

theorem node?_ofNat (g : Graph) (p : Nat) : g.node? (some (.ofNat p)) = .ok g.nodes[p]? := by
  have inside : ¬ (p : Int) < 0 := by omega
  simp [node?, Ref.ofNat, inside]

theorem holds_node? (g : Graph) (p : Nat) : g.Holds g.nodes[p]? :=
  fun _ there => List.mem_of_getElem? there

/-- What is found by a text id is a line of the graph. -/
theorem line_of_nodeByTextId {g : Graph} {textId : String} {n : Node}
    (found : g.nodeByTextId textId = some n) : n ∈ g.nodes ∧ n.kind = .text := by
  have named := List.find?_some found
  exact ⟨List.mem_reverse.1 (List.mem_of_find?_eq_some found),
    of_decide_eq_true (Bool.and_eq_true_iff.1 named).1⟩

/-- Whatever an edge of a rooted graph leads to belongs to the graph. -/
theorem target_holds {g : Graph} (rooted : Rooted g.nodes) {n : Node} (member : n ∈ g.nodes)
    {e : Edge} (own : e ∈ n.edges) : ∃ o, g.target e = .ok o ∧ g.Holds o := by
  cases leads : e.target with
  | none => exact ⟨none, by rw [Graph.target, leads]; rfl, fun _ none => by cases none⟩
  | some r =>
    obtain ⟨p, m, rfl, there⟩ := rooted.target n member e own r leads
    exact ⟨g.nodes[p]?, by rw [Graph.target, leads, node?_ofNat], holds_node? g p⟩

theorem holds_of_target {g : Graph} (rooted : Rooted g.nodes) {n : Node} (member : n ∈ g.nodes)
    {e : Edge} (own : e ∈ n.edges) {o : Option Node} (leads : g.target e = .ok o) : g.Holds o := by
  obtain ⟨_, found, inside⟩ := target_holds rooted member own
  cases leads.symm.trans found
  exact inside

namespace Sturdy

variable {g : Graph} (sturdy : g.Sturdy)

include sturdy

theorem next {n : Node} (member : n ∈ g.nodes) : ∃ o, g.next n = .ok o ∧ g.Holds o := by
  obtain ⟨found, inside⟩ := sturdy.rooted.successor_eq member
  exact ⟨_, found, inside⟩

theorem firstNode : ∃ o, g.firstNode = .ok o ∧ g.Holds o := by
  cases first : g.first with
  | none => exact ⟨none, by rw [Graph.firstNode, first]; rfl, fun _ none => by cases none⟩
  | some r =>
    obtain ⟨p, rfl, _⟩ := sturdy.formed.first r first
    exact ⟨g.nodes[p]?, by rw [Graph.firstNode, first, node?_ofNat], holds_node? g p⟩

theorem headerNode : ∃ o, g.headerNode = .ok o ∧ g.Holds o := by
  rw [Graph.headerNode, sturdy.formed.header]
  split
  · exact ⟨_, node?_ofNat g _, holds_node? g _⟩
  · exact ⟨none, rfl, fun _ none => by cases none⟩

theorem nodeByLabel (label : String) : ∃ o, g.nodeByLabel label = .ok o ∧ g.Holds o := by
  rw [Graph.nodeByLabel]
  cases found : g.labels.lookup (Text.lower label) with
  | none => exact ⟨none, rfl, fun _ none => by cases none⟩
  | some r =>
    obtain ⟨p, rfl, _⟩ := sturdy.formed.label_target _ (mem_of_lookup found)
    exact ⟨_, node?_ofNat g p, holds_node? g p⟩

/-- Lines stand in the body. -/
theorem text_inside {i : Nat} {line : Node} (there : g.nodes[i]? = some line)
    (text : line.kind = .text) : i < g.bodyLength := by
  by_contra outside
  have set := sturdy.formed.header_kind i line (Nat.le_of_not_lt outside) there
  rw [text] at set
  cases set

/-- A line has a single way on. -/
theorem text_edges {line : Node} (member : line ∈ g.nodes) (text : line.kind = .text) :
    ∃ e, line.edges = [e] := by
  obtain ⟨i, there⟩ := List.mem_iff_getElem?.1 member
  obtain ⟨e, edges, _⟩ :=
    sturdy.formed.step i line (sturdy.text_inside there text) there (.inl text)
  exact ⟨e, edges⟩

end Sturdy

end Graph

namespace Script

/-- A node is like the one that it was before it was noted whether it has choices. -/
theorem alike_of_marked {nodes : List Node} {n n' : Node}
    (mark : Graph.markChoices nodes n = .ok n') : n.Alike n' := by
  have same := (markChoices_same mark).1
  exact ⟨by rw [same], by rw [same], by rw [same]⟩

/-- A graph of nodes whose references hold is navigable. -/
theorem navigable_of_ofNodes {name : String} {nodes : List Node} {first header : Option Ref}
    {labels : List (String × Ref)} {g : Graph}
    (made : Graph.ofNodes name nodes first header labels = .ok g) (rooted : Rooted nodes) :
    g.Navigable := by
  have marked := (ofNodes_eq_ok made).2.2.2.2
  have alike : List.Forall₂ Node.Alike nodes g.nodes := marked.imp fun _ _ => alike_of_marked
  refine ⟨rooted.ofAlike alike, fun line member text => ?_⟩
  -- what was noted of the line was found by the same search
  obtain ⟨i, there⟩ := List.mem_iff_getElem?.1 member
  obtain ⟨before, first, mark⟩ := forall₂_right marked there
  have same := alike_of_marked mark
  rw [Graph.markChoices, if_pos (same.kind ▸ text)] at mark
  obtain ⟨o, found, noted⟩ := bind_eq_ok.1 mark
  obtain ⟨o', again, both⟩ :=
    nextChoice_alike alike rooted (List.mem_of_getElem? first) member same found
  refine ⟨o', again, ?_⟩
  cases noted
  cases both <;> rfl

section Compiled

variable {s : Settings} {name text : String} {c : Compilation} {g : Graph}

/-- A graph that a script compiles to is made of nodes whose references hold. -/
theorem ofNodes_of_compile (compiled : compile s name text = .ok c) (graph : c.graph = some g) :
    ∃ nodes first header labels, Graph.ofNodes name nodes first header labels = .ok g
      ∧ Rooted nodes := by
  obtain ⟨b, linked, _, _, made⟩ := compileWith_graph compiled graph
  have positive : 0 < s.textIdLength := Nat.lt_of_lt_of_le (by decide) s.id_range.1
  have ids := TextId.assignNodes_named TextId.digest_ne_empty positive (plainNodes s b)
    ((givenOf s b).map (·.1)).reverse
  exact ⟨_, _, _, _, made, (plainNodes_rooted linked).ofAlike (ids.imp fun _ _ => alike_of_named)⟩

/-- Every graph that a script compiles to is sturdy. -/
theorem sturdy_of_compile (compiled : compile s name text = .ok c) (graph : c.graph = some g) :
    g.Sturdy := by
  obtain ⟨b, linked, _, comes⟩ := compile_graph compiled graph
  obtain ⟨_, _, _, _, made, rooted⟩ := ofNodes_of_compile compiled graph
  have navigable := navigable_of_ofNodes made rooted
  exact ⟨comes.wellFormed linked, navigable.rooted, navigable.root⟩

end Compiled

end Script

end Colloquy
