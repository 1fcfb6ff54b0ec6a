import Colloquy.Proofs.Script.Links
import Colloquy.Proofs.Script.TextIds
import Colloquy.Script.Compile
/-!
# The graph of a draft

The nodes of a graph are those of its draft without the gotos, in their order, and then those of the
header. Nothing of a node is lost but the number of its place.
-/

namespace Colloquy.Script

/-! ### Positions without gotos -/

/-- Counting what comes before gives the place among what is kept. -/
theorem getElem?_filter_countP {α : Type} {p : α → Bool} {l : List α} {i : Nat} {a : α}
    (there : l[i]? = some a) (kept : p a = true) :
    (l.filter p)[(l.take i).countP p]? = some a := by
  induction l generalizing i with
  | nil => cases there
  | cons x rest ih =>
    cases i with
    | zero =>
      have same : x = a := Option.some.inj there
      subst same
      simp [List.filter_cons_of_pos kept]
    | succ i =>
      have later := ih (i := i) there
      rw [List.take_succ_cons, List.countP_cons, List.filter_cons]
      split
      · simpa using later
      · simpa using later

theorem exists_of_getElem?_filter {α : Type} {p : α → Bool} {l : List α} {k : Nat} {a : α}
    (there : (l.filter p)[k]? = some a) :
    ∃ i, l[i]? = some a ∧ p a = true ∧ (l.take i).countP p = k := by
  induction l generalizing k with
  | nil => cases there
  | cons x rest ih =>
    rw [List.filter_cons] at there
    split at there
    next kept =>
      cases k with
      | zero =>
        have same : x = a := Option.some.inj there
        subst same
        exact ⟨0, rfl, kept, rfl⟩
      | succ k =>
        obtain ⟨i, found, keeps, count⟩ := ih (k := k) there
        exact ⟨i + 1, found, keeps, by simp [kept, count]⟩
    next dropped =>
      obtain ⟨i, found, keeps, count⟩ := ih there
      exact ⟨i + 1, found, keeps, by simp [dropped, count]⟩

/-- The nodes that are no gotos. -/
def kept (nodes : List Draft) : List Draft :=
  nodes.filter (·.gotoLabel?.isNone)

theorem kept_getElem? {nodes : List Draft} {i : Nat} {d : Draft} (there : nodes[i]? = some d)
    (noGoto : d.gotoLabel? = none) : (kept nodes)[keptBefore nodes i]? = some d :=
  getElem?_filter_countP there (by rw [noGoto]; rfl)

theorem keptBefore_lt {nodes : List Draft} {i : Nat} {d : Draft} (there : nodes[i]? = some d)
    (noGoto : d.gotoLabel? = none) : keptBefore nodes i < (kept nodes).length :=
  (List.getElem?_eq_some_iff.mp (kept_getElem? there noGoto)).1

/-! ### What a script compiles to -/

/-- A draft that a script is read into and that links without a fatal fault. -/
structure Linked (s : Settings) (text : String) (b : Builder) : Prop where
  read : Builder.readScript s (Text.lines text.toList) = .ok b
  clear : (resolveGotos s.endLabel (settleAll b.nodes) b.labels).diagnostics = []

/-- The entries of the gotos of a draft. -/
def gotosOf (s : Settings) (b : Builder) : List (Nat × Option Nat) :=
  (resolveGotos s.endLabel (settleAll b.nodes) b.labels).targets

/-- The labels of the graph of a draft. -/
def labelsOf (s : Settings) (b : Builder) : List (String × Nat) :=
  newLabels (settleAll b.nodes) (gotosOf s b) b.labels

/-- The nodes of the graph of a draft before they have ids. -/
def plainNodes (s : Settings) (b : Builder) : List Node :=
  bodyNodes (settleAll b.nodes) (gotosOf s b) (labelsOf s b)
    ++ headerNodes b.header (kept (settleAll b.nodes)).length (labelsOf s b)

theorem bodyNodes_length (nodes : List Draft) (gotos : List (Nat × Option Nat))
    (labels : List (String × Nat)) : (bodyNodes nodes gotos labels).length = (kept nodes).length := by
  simp [bodyNodes, kept]

/-- The ids that the script gives to the nodes of a graph and to their options, with their lines. -/
def givenOf (s : Settings) (b : Builder) : List (String × Nat) :=
  ((plainNodes s b).zip (kept (settleAll b.nodes) ++ b.header)).flatMap fun n =>
    TextId.explicit n.1 (sourceLines n.2).1 (sourceLines n.2).2

/-- The graph that a script compiles to comes of a linked draft, and what its nodes are warned of is
among the diagnostics. -/
theorem compileWith_graph {hash : String → String} {s : Settings} {name text : String}
    {c : Compilation} {g : Graph} (compiled : compileWith hash s name text = .ok c)
    (graph : c.graph = some g) :
    ∃ b, Linked s text b
      ∧ b.diagnostics <+: c.diagnostics
      ∧ TextId.repeated [] (givenOf s b)
          ++ mixedWarnings
            (TextId.assignNodes hash s.textIdLength (plainNodes s b) ((givenOf s b).map (·.1)).reverse)
            ((kept (settleAll b.nodes) ++ b.header).map (·.line)) ⊆ c.diagnostics
      ∧ Graph.ofNodes name
          (TextId.assignNodes hash s.textIdLength (plainNodes s b) ((givenOf s b).map (·.1)).reverse)
          (if (settleAll b.nodes).isEmpty then none
            else (newPosition (settleAll b.nodes) (gotosOf s b) 0).map Ref.ofNat)
          (if b.header.isEmpty then none
            else some (Ref.ofNat (kept (settleAll b.nodes)).length))
          ((labelsOf s b).map fun l => (l.1, .ofNat l.2)) = .ok g := by
  obtain ⟨b, read, rest⟩ := bind_eq_ok.mp compiled
  dsimp only at rest
  split at rest
  · cases rest
    cases graph
  next clear =>
    obtain ⟨⟨g', warnings⟩, built, rest⟩ := bind_eq_ok.mp rest
    cases rest
    cases graph
    -- a goto that cannot be resolved would have been fatal
    have none : (resolveGotos s.endLabel (settleAll b.nodes) b.labels).diagnostics = [] := by
      rw [List.eq_nil_iff_forall_not_mem]
      intro d member
      simp only [List.any_eq_true, not_exists, not_and] at clear
      exact clear d (List.mem_append_right _ member) (resolveGotos_fatal d member)
    unfold buildGraph at built
    dsimp only at built
    split at built
    next g' made =>
      cases built
      rw [bodyNodes_length] at made
      refine ⟨b, ⟨read, none⟩, (List.prefix_append _ _).trans (List.prefix_append _ _), ?_, made⟩
      rw [givenOf, plainNodes, ← bodyNodes_length]
      exact fun _ member => List.mem_append_right _ member
    · cases built

/-! ### Nodes of the graph -/

/-- A node of a graph and the node that it was before it got ids and the note whether it has
choices. -/
structure Built (n₀ n : Node) : Prop where
  same : n = { n₀ with textId := n.textId, edges := n.edges, hasChoices := n.hasChoices }
  kept : TextId.content? n₀ = none → n.textId = n₀.textId
  filled : TextId.content? n₀ ≠ none → n.textId ≠ ""
  edges : List.Forall₂ TextId.NamedEdge n₀.edges n.edges
  plain : n₀.kind ≠ .text → n.hasChoices = n₀.hasChoices

theorem markChoices_same {nodes : List Node} {n n' : Node}
    (marked : Graph.markChoices nodes n = .ok n') :
    n' = { n with hasChoices := n'.hasChoices } ∧ (n.kind ≠ .text → n' = n) := by
  unfold Graph.markChoices at marked
  split at marked
  next text =>
    obtain ⟨found, _, rest⟩ := bind_eq_ok.mp marked
    cases rest
    exact ⟨rfl, fun other => absurd text other⟩
  · cases marked
    exact ⟨rfl, fun _ => rfl⟩

theorem ofNodes_eq_ok {name : String} {nodes : List Node} {first header : Option Ref}
    {labels : List (String × Ref)} {g : Graph}
    (made : Graph.ofNodes name nodes first header labels = .ok g) :
    g.name = name ∧ g.first = first ∧ g.header = header ∧ g.labels = foldLabels labels
      ∧ List.Forall₂ (fun n n' => Graph.markChoices nodes n = .ok n') nodes g.nodes := by
  obtain ⟨marked, each, rest⟩ := bind_eq_ok.mp made
  cases rest
  exact ⟨rfl, rfl, rfl, rfl, mapM_eq_ok.mp each⟩

theorem built_of_marked {n₀ n₁ n : Node} {nodes : List Node} (named : TextId.Named n₀ n₁)
    (marked : Graph.markChoices nodes n₁ = .ok n) : Built n₀ n := by
  obtain ⟨same, still⟩ := markChoices_same marked
  have ids : n.textId = n₁.textId := by rw [same]
  have edges : n.edges = n₁.edges := by rw [same]
  refine ⟨?_, fun none => ids ▸ named.kept none, fun some => ids ▸ named.filled some,
    edges ▸ named.edges, fun other => ?_⟩
  · rw [ids, edges]
    conv_lhs => rw [same, named.same]
  · have kind : n₁.kind = n₀.kind := by rw [named.same]
    rw [still (kind ▸ other), named.same]

/-- A node of the body of a graph before it has an id. -/
def bodyNode (s : Settings) (b : Builder) (d : Draft) (position : Nat) : Node :=
  buildNode (labelsOf s b) position d
    (d.edges.map fun e => buildEdge (newTarget (settleAll b.nodes) (gotosOf s b) e) e)

/-- A step of the header of a graph before it has an id. -/
def headerNode (s : Settings) (b : Builder) (d : Draft) (k : Nat) : Node :=
  buildNode (labelsOf s b) ((kept (settleAll b.nodes)).length + k) d
    (if k + 1 < b.header.length then
      [{ kind := .continue, target := some (.ofNat ((kept (settleAll b.nodes)).length + k + 1)) }]
    else [])

theorem plainNodes_body {s : Settings} {b : Builder} {p : Nat}
    (body : p < (kept (settleAll b.nodes)).length) :
    (plainNodes s b)[p]? = (kept (settleAll b.nodes))[p]?.map (bodyNode s b · p) := by
  rw [plainNodes, List.getElem?_append_left (by rw [bodyNodes_length]; exact body), bodyNodes,
    List.getElem?_mapIdx]
  rfl

theorem plainNodes_header {s : Settings} {b : Builder} (k : Nat) :
    (plainNodes s b)[(kept (settleAll b.nodes)).length + k]?
      = b.header[k]?.map (headerNode s b · k) := by
  rw [plainNodes, List.getElem?_append_right (by rw [bodyNodes_length]; exact Nat.le_add_right _ _),
    bodyNodes_length, Nat.add_sub_cancel_left, headerNodes, List.getElem?_mapIdx]
  rfl

theorem plainNodes_length (s : Settings) (b : Builder) :
    (plainNodes s b).length = (kept (settleAll b.nodes)).length + b.header.length := by
  simp [plainNodes, bodyNodes_length, headerNodes]

/-! ### Where edges lead -/

section Targets

variable {s : Settings} {text : String} {b : Builder}

theorem Linked.healthy (linked : Linked s text b) : b.Healthy :=
  Builder.readScript_healthy linked.read

/-- What stood at a position of the draft stands in the graph where the gotos from there lead. -/
theorem newPosition_eq (linked : Linked s text b) {i : Nat} (bound : i < b.nodes.length) :
    ∃ target, Leads s.endLabel (settleAll b.nodes) b.labels (some i) target
      ∧ newPosition (settleAll b.nodes) (gotosOf s b) i
          = target.map (keptBefore (settleAll b.nodes)) := by
  have inside : ∀ l ∈ b.labels, ∀ i, l.2 = some i → i < (settleAll b.nodes).length := by
    rw [settleAll_length]
    exact linked.healthy.labelled.targets
  obtain ⟨d, there⟩ : ∃ d, (settleAll b.nodes)[i]? = some d :=
    ⟨_, List.getElem?_eq_getElem (by rw [settleAll_length]; exact bound)⟩
  cases goto : d.gotoLabel? with
  | none =>
    refine ⟨some i, .kept there goto, ?_⟩
    simp [newPosition, there, goto]
  | some label =>
    obtain ⟨target, found, leads⟩ := resolveGotos_leads inside linked.clear there goto
    refine ⟨target, leads, ?_⟩
    have found' : (gotosOf s b).lookup i = some target := found
    simp [newPosition, there, goto, found']

/-- A position of the graph that an edge or a label leads to is one of the body. -/
theorem newPosition_lt (linked : Linked s text b) {i p : Nat} (bound : i < b.nodes.length)
    (position : newPosition (settleAll b.nodes) (gotosOf s b) i = some p) :
    p < (kept (settleAll b.nodes)).length := by
  obtain ⟨target, leads, place⟩ := newPosition_eq linked bound
  rw [position] at place
  obtain ⟨j, rfl, rfl⟩ := Option.map_eq_some_iff.mp place.symm
  obtain ⟨d, there, noGoto⟩ := leads.target_kept
  exact keptBefore_lt there noGoto

theorem newTarget_lt (linked : Linked s text b) {e : DraftEdge} {p : Nat}
    (bound : ∀ i, e.destination = .to i → i < b.nodes.length)
    (target : newTarget (settleAll b.nodes) (gotosOf s b) e = some p) :
    p < (kept (settleAll b.nodes)).length := by
  unfold newTarget at target
  split at target
  next i leads => exact newPosition_lt linked (bound i leads) target
  · cases target

end Targets

end Colloquy.Script
