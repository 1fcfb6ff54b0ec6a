import Colloquy.Proofs.Script.Arena
/-!
# What a script compiles to

A graph and the draft that it comes of: its nodes one by one, its labels, and where it begins.
-/

namespace Colloquy

/-- Labels that are distinct and in lower case are kept as they are. -/
theorem foldLabels_eq_self {labels : List (String × Ref)} (distinct : (labels.map (·.1)).Nodup)
    (lowered : ∀ l ∈ labels, Text.lower l.1 = l.1) : foldLabels labels = labels := by
  have names : labels.map (fun l => Text.lower l.1) = labels.map (·.1) :=
    List.map_congr_left lowered
  have folded : foldLabels labels = [] ++ labels.map fun l => (Text.lower l.1, l.2) :=
    foldl_setEntry_of_nodup (fun l : String × Ref => Text.lower l.1) (fun l => l.2)
      (by rw [names]; exact distinct)
  rw [folded, List.nil_append]
  calc labels.map (fun l => (Text.lower l.1, l.2))
      = labels.map id := List.map_congr_left fun l member => by rw [lowered l member]; rfl
    _ = labels := List.map_id labels

namespace Script

/-- The nodes that come of the body of a draft. -/
abbrev bodyOf (b : Builder) : List Draft :=
  kept (settleAll b.nodes)

/-- A graph that comes of a draft. -/
structure ComesOf (s : Settings) (name : String) (b : Builder) (g : Graph) : Prop where
  name : g.name = name
  nodes : List.Forall₂ Built (plainNodes s b) g.nodes
  marked : ∃ plain, List.Forall₂ (fun n n' => Graph.markChoices plain n = .ok n') plain g.nodes
    ∧ List.Forall₂ TextId.Named (plainNodes s b) plain
  first : g.first = if (settleAll b.nodes).isEmpty then none
    else (newPosition (settleAll b.nodes) (gotosOf s b) 0).map Ref.ofNat
  header : g.header = if b.header.isEmpty then none else some (Ref.ofNat (bodyOf b).length)
  labels : g.labels = (labelsOf s b).map fun l => (l.1, Ref.ofNat l.2)

section Labels

variable {s : Settings} {text : String} {b : Builder}

theorem mem_labelsOf {l : String × Nat} (member : l ∈ labelsOf s b) :
    ∃ i, (l.1, some i) ∈ b.labels
      ∧ newPosition (settleAll b.nodes) (gotosOf s b) i = some l.2 := by
  obtain ⟨l', inside, found⟩ := List.mem_filterMap.mp member
  obtain ⟨p, place, rfl⟩ := Option.map_eq_some_iff.mp found
  obtain ⟨i, target, position⟩ := Option.bind_eq_some_iff.mp place
  exact ⟨i, by rw [← target]; exact inside, position⟩

theorem labelsOf_names (s : Settings) (b : Builder) :
    ((labelsOf s b).map (·.1)).Sublist (b.labels.map (·.1)) := by
  unfold labelsOf newLabels
  induction b.labels with
  | nil => exact .slnil
  | cons l rest ih =>
    rw [List.filterMap_cons, List.map_cons]
    cases position : l.2.bind (newPosition (settleAll b.nodes) (gotosOf s b)) with
    | none => exact ih.cons _
    | some p => exact ih.cons_cons _

theorem labelsOf_distinct (linked : Linked s text b) : ((labelsOf s b).map (·.1)).Nodup :=
  (List.nodup_append.mp linked.healthy.labelled.distinct).1.sublist (labelsOf_names s b)

theorem labelsOf_lowered (linked : Linked s text b) :
    ∀ l ∈ labelsOf s b, Text.lower l.1 = l.1 := by
  intro l member
  obtain ⟨i, inside, _⟩ := mem_labelsOf member
  exact linked.healthy.labelled.lowered l.1
    (List.mem_append_left _ (List.mem_map.mpr ⟨_, inside, rfl⟩))

theorem labelsOf_lt (linked : Linked s text b) :
    ∀ l ∈ labelsOf s b, l.2 < (bodyOf b).length := by
  intro l member
  obtain ⟨i, inside, position⟩ := mem_labelsOf member
  exact newPosition_lt linked (linked.healthy.labelled.targets _ inside i rfl) position

end Labels

/-- A script that compiles to a graph, with digests that are not empty, is read into a draft that the
graph comes of. -/
theorem compileWith_comes {hash : String → String} {s : Settings} {name text : String}
    {c : Compilation} {g : Graph} (digests : ∀ content, hash content ≠ "")
    (compiled : compileWith hash s name text = .ok c) (graph : c.graph = some g) :
    ∃ b, Linked s text b ∧ b.diagnostics <+: c.diagnostics ∧ ComesOf s name b g := by
  obtain ⟨b, linked, notes, _, made⟩ := compileWith_graph compiled graph
  obtain ⟨named, first, header, labels, marked⟩ := ofNodes_eq_ok made
  have positive : 0 < s.textIdLength := Nat.lt_of_lt_of_le (by decide) s.id_range.1
  have ids := TextId.assignNodes_named digests positive (plainNodes s b)
    ((givenOf s b).map (·.1)).reverse
  refine ⟨b, linked, notes, named, ?_, ⟨_, marked, ids⟩, first, header, ?_⟩
  · exact (forall₂_comp ids marked).imp fun n₀ n ⟨n₁, isNamed, isMarked⟩ =>
      built_of_marked isNamed isMarked
  · rw [labels]
    refine foldLabels_eq_self ?_ ?_
    · rw [List.map_map]
      exact labelsOf_distinct linked
    · intro l member
      obtain ⟨l', inside, rfl⟩ := List.mem_map.mp member
      exact labelsOf_lowered linked l' inside

/-- A script that compiles to a graph is read into a draft that the graph comes of. -/
theorem compile_graph {s : Settings} {name text : String} {c : Compilation} {g : Graph}
    (compiled : compile s name text = .ok c) (graph : c.graph = some g) :
    ∃ b, Linked s text b ∧ b.diagnostics <+: c.diagnostics ∧ ComesOf s name b g :=
  compileWith_comes TextId.digest_ne_empty compiled graph

/-! ### Nodes of the graph -/

section Build

variable (labels : List (String × Nat)) (i : Nat) (d : Draft) (edges : List Edge)

theorem buildNode_index : (buildNode labels i d edges).index = i := by
  unfold buildNode
  cases d.step <;> rfl

theorem buildNode_kind : (buildNode labels i d edges).kind = d.step.kind := by
  unfold buildNode
  cases d.step <;> rfl

theorem buildNode_edges : (buildNode labels i d edges).edges = edges := by
  unfold buildNode
  cases d.step <;> rfl

theorem buildNode_labels : (buildNode labels i d edges).labels = labelsAt labels i := by
  unfold buildNode
  cases d.step <;> rfl

theorem buildNode_line : (buildNode labels i d edges).line = .ofNat d.line := by
  unfold buildNode
  cases d.step <;> rfl

theorem buildNode_hasChoices : (buildNode labels i d edges).hasChoices = false := by
  unfold buildNode
  cases d.step <;> rfl

end Build

namespace Built

variable {n₀ n : Node}

theorem index (built : Built n₀ n) : n.index = n₀.index := by rw [built.same]

theorem kind (built : Built n₀ n) : n.kind = n₀.kind := by rw [built.same]

theorem labels (built : Built n₀ n) : n.labels = n₀.labels := by rw [built.same]

theorem line (built : Built n₀ n) : n.line = n₀.line := by rw [built.same]

/-- An edge after ids and the edge that it was. -/
theorem edge_right (built : Built n₀ n) {k : Nat} {e : Edge} (there : n.edges[k]? = some e) :
    ∃ e₀, n₀.edges[k]? = some e₀ ∧ TextId.NamedEdge e₀ e :=
  forall₂_right built.edges there

theorem edges_length (built : Built n₀ n) : n.edges.length = n₀.edges.length :=
  built.edges.length_eq.symm

end Built

namespace ComesOf

variable {s : Settings} {name : String} {b : Builder} {g : Graph}

theorem nodes_length (comes : ComesOf s name b g) :
    g.nodes.length = (bodyOf b).length + b.header.length := by
  rw [← comes.nodes.length_eq, plainNodes_length]

/-- A node of the body and the draft that it comes of. -/
theorem body (comes : ComesOf s name b g) {p : Nat} {n : Node} (there : g.nodes[p]? = some n)
    (inside : p < (bodyOf b).length) :
    ∃ i d, (settleAll b.nodes)[i]? = some d ∧ d.gotoLabel? = none
      ∧ keptBefore (settleAll b.nodes) i = p ∧ Built (bodyNode s b d p) n := by
  obtain ⟨n₀, before, built⟩ := forall₂_right comes.nodes there
  rw [plainNodes_body inside] at before
  obtain ⟨d, isKept, rfl⟩ := Option.map_eq_some_iff.mp before
  obtain ⟨i, found, noGoto, count⟩ := exists_of_getElem?_filter isKept
  exact ⟨i, d, found, Option.isNone_iff_eq_none.mp noGoto, count, built⟩

/-- A step of the header and the draft that it comes of. -/
theorem headerStep (comes : ComesOf s name b g) {k : Nat} {n : Node}
    (there : g.nodes[(bodyOf b).length + k]? = some n) :
    ∃ d, b.header[k]? = some d ∧ Built (headerNode s b d k) n := by
  obtain ⟨n₀, before, built⟩ := forall₂_right comes.nodes there
  rw [plainNodes_header] at before
  obtain ⟨d, found, rfl⟩ := Option.map_eq_some_iff.mp before
  exact ⟨d, found, built⟩

/-- A draft that is no goto and the node that it becomes. -/
theorem node_of_draft (comes : ComesOf s name b g) {i : Nat} {d : Draft}
    (there : (settleAll b.nodes)[i]? = some d) (noGoto : d.gotoLabel? = none) :
    ∃ n, g.nodes[keptBefore (settleAll b.nodes) i]? = some n
      ∧ Built (bodyNode s b d (keptBefore (settleAll b.nodes) i)) n := by
  have before : (plainNodes s b)[keptBefore (settleAll b.nodes) i]?
      = some (bodyNode s b d (keptBefore (settleAll b.nodes) i)) := by
    rw [plainNodes_body (keptBefore_lt there noGoto), kept_getElem? there noGoto]
    rfl
  exact forall₂_left comes.nodes before

/-- An edge of a node of the body and the edge of the draft that it comes of. -/
theorem edge_at_body {d : Draft} {p : Nat} {n : Node} (built : Built (bodyNode s b d p) n)
    {k : Nat} {e : Edge} (there : n.edges[k]? = some e) :
    ∃ e₀, d.edges[k]? = some e₀ ∧ e.kind = e₀.kind ∧ e.condition = e₀.condition
      ∧ e.text = e₀.text ∧ e.params = e₀.params
      ∧ e.target = (newTarget (settleAll b.nodes) (gotosOf s b) e₀).map Ref.ofNat := by
  obtain ⟨e₁, before, named⟩ := built.edge_right there
  rw [bodyNode, buildNode_edges, List.getElem?_map] at before
  obtain ⟨e₀, found, rfl⟩ := Option.map_eq_some_iff.mp before
  rw [named.same]
  exact ⟨e₀, found, rfl, rfl, rfl, rfl, rfl⟩

theorem edge_of_body {d : Draft} {p : Nat} {n : Node} (built : Built (bodyNode s b d p) n)
    {e : Edge} (member : e ∈ n.edges) :
    ∃ e₀ ∈ d.edges, e.kind = e₀.kind ∧ e.condition = e₀.condition ∧ e.text = e₀.text
      ∧ e.params = e₀.params
      ∧ e.target = (newTarget (settleAll b.nodes) (gotosOf s b) e₀).map Ref.ofNat := by
  obtain ⟨k, there⟩ := List.mem_iff_getElem?.mp member
  obtain ⟨e₀, found, same⟩ := edge_at_body built there
  exact ⟨e₀, List.mem_of_getElem? found, same⟩

end ComesOf

end Script

end Colloquy
