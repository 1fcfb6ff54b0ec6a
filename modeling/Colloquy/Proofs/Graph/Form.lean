import Colloquy.Graph.Form
import Colloquy.Proofs.Expression.Reading
import Colloquy.Proofs.Graph.Unseen
/-!
# Saved graphs read again

Saving leaves out what a kind of node or edge does not need, and expressions are saved as their
texts. A graph is read as it was but for what is left out; one whose nodes and edges carry nothing
but what their kinds need is read as it was.
-/

namespace Colloquy

/-! ### What is read again -/

/-- A reference that is read as it was saved, to one of so many nodes. -/
structure Ref.Fits (count : Nat) (r : Ref) : Prop where
  read : Schema.count? (Graph.refForm r) = some r
  below : (r.compareNat? count).elim false (· = .lt) = true

/-- An edge of which the saved form is read. -/
structure Edge.Writable (count : Nat) (e : Edge) : Prop where
  target : ∀ r, e.target = some r → r.Fits count
  condition : ∀ c, e.condition = some c → c.Readable
  params : ∀ p ∈ e.params, p ≠ ""

/-- Whether a node carries what its kind needs. -/
def Node.Equipped (n : Node) : Prop :=
  match n.kind with
  | .text => ∀ p ∈ n.params, p ≠ ""
  | .setVariable => n.identifier ≠ "" ∧ ∃ e, n.expression = some e ∧ e.Readable
  | .event => n.eventName ≠ "" ∧ ∀ a ∈ n.eventArgs, a.Readable
  | .choice | .select => True
  | .goto => False

/-- A node of which the saved form is read. -/
structure Node.Writable (count : Nat) (n : Node) : Prop where
  line : Schema.count? (Graph.refForm n.line) = some n.line
  edges : ∀ e ∈ n.edges, e.Writable count
  equipped : n.Equipped

/-- An edge with nothing but what is saved of it. -/
def Edge.pruned (e : Edge) : Edge :=
  if e.kind = .decision then e
  else { kind := e.kind, target := e.target, condition := e.condition }

/-- A node with nothing but what is saved of it, beside its labels and the note whether it has
choices. -/
def Node.pruned (n : Node) : Node :=
  let bare : Node := {
    index := n.index
    kind := n.kind
    line := n.line
    edges := n.edges.map Edge.pruned
    labels := n.labels
    hasChoices := n.hasChoices }
  match n.kind with
  | .text => { bare with speaker := n.speaker, text := n.text, textId := n.textId, params := n.params }
  | .setVariable =>
    { bare with
      identifier := n.identifier
      expression := n.expression
      text := if n.textId = "" then "" else n.text
      textId := n.textId }
  | .event => { bare with eventName := n.eventName, eventArgs := n.eventArgs }
  | _ => bare

/-! ### What is saved whole -/

/-- An edge that is saved whole. -/
structure Edge.Savable (e : Edge) : Prop where
  target : ∀ r, e.target = some r → ∃ p, r = .ofNat p
  condition : ∀ c, e.condition = some c → c.Readable
  params : ∀ p ∈ e.params, p ≠ ""
  bare : e.kind ≠ .decision → e.text = "" ∧ e.textId = "" ∧ e.params = []

/-- Whether a node carries what its kind needs and nothing else. -/
def Node.Proper (n : Node) : Prop :=
  match n.kind with
  | .text =>
    (∀ p ∈ n.params, p ≠ "") ∧ n.identifier = "" ∧ n.expression = none ∧ n.eventName = ""
      ∧ n.eventArgs = []
  | .setVariable =>
    n.speaker = "" ∧ n.params = [] ∧ n.identifier ≠ ""
      ∧ (∃ e, n.expression = some e ∧ e.Readable) ∧ (n.textId = "" → n.text = "")
      ∧ n.eventName = "" ∧ n.eventArgs = []
  | .event =>
    n.speaker = "" ∧ n.text = "" ∧ n.textId = "" ∧ n.params = [] ∧ n.identifier = ""
      ∧ n.expression = none ∧ n.eventName ≠ "" ∧ ∀ a ∈ n.eventArgs, a.Readable
  | .choice | .select =>
    n.speaker = "" ∧ n.text = "" ∧ n.textId = "" ∧ n.params = [] ∧ n.identifier = ""
      ∧ n.expression = none ∧ n.eventName = "" ∧ n.eventArgs = []
  | .goto => False

/-- A node that is saved whole, but for the note whether it has choices. -/
structure Node.Savable (n : Node) : Prop where
  line : ∃ k, n.line = .ofNat k
  edges : ∀ e ∈ n.edges, e.Savable
  proper : n.Proper

namespace Schema

/-! ### Fields -/

theorem field?_nil (name : String) : Json.field? [] name = none :=
  rfl

theorem field?_cons (f : String × Json) (rest : List (String × Json)) (name : String) :
    Json.field? (f :: rest) name =
      (Json.field? rest name).or (if f.1 = name then some f.2 else none) := by
  rw [Json.field?, Json.field?, List.reverse_cons, List.find?_append, Option.map_or]
  congr 1
  by_cases same : f.1 = name <;> simp [same]

theorem list?_textList {texts : List String} (filled : ∀ t ∈ texts, t ≠ "") :
    list? filled? (Graph.textList texts) = some texts := by
  have each : ∀ t ∈ texts, filled? (.text t) = some t :=
    fun t member => if_neg (filled t member)
  have whole := @mapM_some _ _ _ Json.text filled? id texts each
  rw [List.map_id] at whole
  exact whole

theorem filled?_text {s : String} (filled : s ≠ "") : filled? (.text s) = some s :=
  if_neg filled

theorem count?_ofNat (p : Nat) : count? (Graph.refForm (.ofNat p)) = some (.ofNat p) := by
  have notNegative : ¬ (p : Int) < 0 := by omega
  simp [count?, Graph.refForm, Ref.ofNat, notNegative]

theorem countOrNull?_refOrNull {r : Option Ref}
    (counts : ∀ p, r = some p → count? (Graph.refForm p) = some p) :
    countOrNull? (Graph.refOrNull r) = some r := by
  cases r with
  | none => rfl
  | some p =>
    have read := counts p rfl
    cases p with
    | «at» i =>
      change (count? (Graph.refForm (.at i))).map some = _
      rw [read, Option.map_some]
    | decimal x =>
      change (count? (Graph.refForm (.decimal x))).map some = _
      rw [read, Option.map_some]

theorem edgeKind_ofName?_name (k : EdgeKind) : EdgeKind.ofName? k.name = some k := by
  cases k <;> decide

/-! ### Edges -/

/-- The data that an edge is saved as. -/
def edgeRecord (e : Edge) : EdgeRecord where
  kind := e.kind
  target := e.target
  condition := e.condition.map (·.source)
  text := if e.kind = .decision then some e.text else none
  textId := if e.kind = .decision then some e.textId else none
  params := if e.kind = .decision ∧ e.params ≠ [] then some e.params else none

theorem edge?_edgeForm {count : Nat} {e : Edge} (writable : e.Writable count) :
    edge? (Graph.edgeForm e) = some (edgeRecord e) := by
  have targets := countOrNull?_refOrNull fun r there => (writable.target r there).read
  have params := list?_textList writable.params
  have guarded (c : Expression) (guard : e.condition = some c) :
      filled? (.text c.source) = some c.source :=
    filled?_text (writable.condition c guard).source_ne_empty
  -- only options have parameters, and nothing that is empty is written
  by_cases decision : e.kind = .decision
  · cases guard : e.condition with
    | none =>
      cases empty : e.params with
      | nil =>
        simp [Graph.edgeForm, edge?, edgeRecord, fields?, required, optional, field?_cons,
          field?_nil, text?, targets, Graph.paramFields, decision, guard, empty,
          edgeKind_ofName?_name]
      | cons p rest =>
        rw [empty] at params
        simp [Graph.edgeForm, edge?, edgeRecord, fields?, required, optional, field?_cons,
          field?_nil, text?, targets, Graph.paramFields, decision, guard, empty,
          edgeKind_ofName?_name, params]
    | some c =>
      cases empty : e.params with
      | nil =>
        simp [Graph.edgeForm, edge?, edgeRecord, fields?, required, optional, field?_cons,
          field?_nil, text?, targets, Graph.paramFields, decision, guard, empty,
          edgeKind_ofName?_name, guarded c guard]
      | cons p rest =>
        rw [empty] at params
        simp [Graph.edgeForm, edge?, edgeRecord, fields?, required, optional, field?_cons,
          field?_nil, text?, targets, Graph.paramFields, decision, guard, empty,
          edgeKind_ofName?_name, guarded c guard, params]
  · cases guard : e.condition with
    | none =>
      simp [Graph.edgeForm, edge?, edgeRecord, fields?, required, optional, field?_cons,
        field?_nil, text?, targets, decision, guard, edgeKind_ofName?_name]
    | some c =>
      simp [Graph.edgeForm, edge?, edgeRecord, fields?, required, optional, field?_cons,
        field?_nil, text?, targets, decision, guard, edgeKind_ofName?_name, guarded c guard]

/-! ### Nodes -/

/-- The data that a node is saved as. -/
def nodeRecord (n : Node) : NodeRecord :=
  let base : NodeRecord :=
    ⟨n.kind, some n.line, n.edges.map edgeRecord, none, none, none, none, none, none, none, none⟩
  match n.kind with
  | .text =>
    { base with
      speaker := some n.speaker
      text := some n.text
      textId := some n.textId
      params := if n.params = [] then none else some n.params }
  | .setVariable =>
    { base with
      identifier := some n.identifier
      expression := some (n.expression.elim "" (·.source))
      text := if n.textId = "" then none else some n.text
      textId := if n.textId = "" then none else some n.textId }
  | .event =>
    { base with
      event := some n.eventName
      args := some (n.eventArgs.map (·.source)) }
  | _ => base

theorem nodeKind_ofName?_name (k : NodeKind) : NodeKind.ofName? k.name = some k := by
  cases k <;> decide

theorem bind_of_some {α β : Type} {x : Option α} {f : α → Option β} {a : α} {b : β}
    (first : x = some a) (later : f a = some b) : (x >>= f) = some b := by
  rw [first]
  exact later

/-- An object is read as a node when each of its fields is read. -/
theorem node?_of_fields {fields : List (String × Json)} {r : NodeRecord}
    (named : fields.all (fun f => ["type", "line", "edges", "speaker", "text", "text_id", "params",
      "identifier", "expression", "event", "args"].contains f.1) = true)
    (type : required fields "type" text? = some r.kind.name)
    (line : optional fields "line" count? = some r.line)
    (edges : required fields "edges" (list? edge?) = some r.edges)
    (speaker : optional fields "speaker" text? = some r.speaker)
    (text : optional fields "text" text? = some r.text)
    (textId : optional fields "text_id" text? = some r.textId)
    (params : optional fields "params" (list? filled?) = some r.params)
    (identifier : optional fields "identifier" filled? = some r.identifier)
    (expression : optional fields "expression" filled? = some r.expression)
    (event : optional fields "event" filled? = some r.event)
    (args : optional fields "args" (list? filled?) = some r.args)
    (complete : isComplete r = true) : node? (.object fields) = some r := by
  -- the parts are read in the order of the definition, so each is rewritten where it stands
  refine bind_of_some (if_pos named) (bind_of_some type ?_)
  refine bind_of_some (nodeKind_ofName?_name r.kind) (bind_of_some line ?_)
  refine bind_of_some edges (bind_of_some speaker (bind_of_some text ?_))
  refine bind_of_some textId (bind_of_some params (bind_of_some identifier ?_))
  exact bind_of_some expression (bind_of_some event (bind_of_some args (if_pos complete)))

theorem node?_nodeForm {count : Nat} {n : Node} (writable : n.Writable count) :
    node? (Graph.nodeForm n) = some (nodeRecord n) := by
  have lines := writable.line
  have edges : list? edge? (.list (n.edges.map Graph.edgeForm)) = some (n.edges.map edgeRecord) :=
    mapM_some fun e member => edge?_edgeForm (writable.edges e member)
  have equipped := writable.equipped
  unfold Node.Equipped at equipped
  unfold Graph.nodeForm nodeRecord Graph.payloadFields
  -- fields that a kind does not have are left out and read as absent
  cases kind : n.kind with
  | text =>
    rw [kind] at equipped
    have params := list?_textList equipped
    cases empty : n.params with
    | nil =>
      refine node?_of_fields rfl rfl ?_ ?_ rfl rfl rfl rfl rfl rfl rfl rfl rfl <;>
        simp [Graph.paramFields, optional, required, field?_cons, field?_nil, lines, edges]
    | cons p rest =>
      rw [empty] at params
      refine node?_of_fields rfl rfl ?_ ?_ rfl rfl rfl ?_ rfl rfl rfl rfl rfl <;>
        simp [Graph.paramFields, optional, required, field?_cons, field?_nil, lines, edges, params]
  | setVariable =>
    rw [kind] at equipped
    obtain ⟨named, e, expression, readable⟩ := equipped
    have identifier := filled?_text named
    have source := filled?_text readable.source_ne_empty
    rw [expression]
    by_cases id : n.textId = ""
    · rw [if_pos id, if_pos id, if_pos id]
      refine node?_of_fields rfl rfl ?_ ?_ rfl rfl rfl rfl ?_ ?_ rfl rfl rfl <;>
        simp [optional, required, field?_cons, field?_nil, lines, edges, identifier, source]
    · rw [if_neg id, if_neg id, if_neg id]
      refine node?_of_fields rfl rfl ?_ ?_ rfl rfl rfl rfl ?_ ?_ rfl rfl rfl <;>
        simp [optional, required, field?_cons, field?_nil, lines, edges, identifier, source]
  | event =>
    rw [kind] at equipped
    obtain ⟨named, readable⟩ := equipped
    have event := filled?_text named
    have args : list? filled? (Graph.textList (n.eventArgs.map (·.source)))
        = some (n.eventArgs.map (·.source)) := by
      refine list?_textList fun source member => ?_
      obtain ⟨a, inside, rfl⟩ := List.mem_map.mp member
      exact (readable a inside).source_ne_empty
    refine node?_of_fields rfl rfl ?_ ?_ rfl rfl rfl rfl rfl rfl ?_ ?_ rfl <;>
      simp [optional, required, field?_cons, field?_nil, lines, edges, event, args]
  | choice | select =>
    refine node?_of_fields rfl rfl ?_ ?_ rfl rfl rfl rfl rfl rfl rfl rfl rfl <;>
      simp [optional, required, field?_cons, field?_nil, lines, edges]
  | goto =>
    rw [kind] at equipped
    exact equipped.elim

end Schema

/-! ### Reading again -/

/-- A node without the note whether it has choices. -/
def Node.unmarked (n : Node) : Node :=
  { n with hasChoices := false }

namespace GraphRecord

open Schema

theorem readExpression_source {e : Expression} (readable : e.Readable) (place : Place) :
    readExpression place e.source = .ok e := by
  rw [readExpression, readable]

theorem readOptional_source {guard : Option Expression}
    (readable : ∀ c, guard = some c → c.Readable) (place : Place) :
    readOptional place (guard.map (·.source)) = .ok guard := by
  cases guard with
  | none => rfl
  | some c =>
    rw [Option.map_some, readOptional, readExpression_source (readable c rfl)]
    rfl

theorem checkRef_fits {count : Nat} {r : Option Ref} (place : Place)
    (fits : ∀ p, r = some p → p.Fits count) : checkRef count place r = .ok () := by
  cases r with
  | none => rfl
  | some p => exact if_pos (fits p rfl).below

/-- An edge is read as it was saved. -/
theorem readEdge_edgeRecord {count node k : Nat} {e : Edge} (writable : e.Writable count) :
    readEdge count node (edgeRecord e) k = .ok e.pruned := by
  have target : checkRef count (.edge node k) (edgeRecord e).target = .ok () :=
    checkRef_fits _ writable.target
  have condition : readOptional (.edge node k) (edgeRecord e).condition = .ok e.condition :=
    readOptional_source writable.condition _
  rw [readEdge, target, condition]
  by_cases decision : e.kind = .decision
  · cases empty : e.params with
    | nil =>
      cases e
      simp_all [bind, Except.bind, pure, Except.pure, edgeRecord, Edge.pruned]
    | cons p rest =>
      cases e
      simp_all [bind, Except.bind, pure, Except.pure, edgeRecord, Edge.pruned]
  · simp [bind, Except.bind, pure, Except.pure, edgeRecord, Edge.pruned, decision]

/-- The labels of a position. -/
def labelsAt (labels : List (String × Ref)) (i : Nat) : List String :=
  (labels.filter fun l => l.2.isAt i).map (·.1)

/-- A node is read as it was saved, with the labels that the record gives it. -/
theorem readNode_nodeRecord {g : GraphRecord} {n : Node} (writable : n.Writable g.nodes.length) :
    g.readNode (nodeRecord n) n.index
      = .ok { n.unmarked.pruned with labels := labelsAt g.labels n.index } := by
  have edges : (nodeRecord n).edges = n.edges.map edgeRecord := by
    unfold nodeRecord
    cases n.kind <;> rfl
  have readEdges : ((n.edges.map edgeRecord).zipIdx.mapM fun e =>
      readEdge g.nodes.length n.index e.1 e.2) = .ok (n.edges.map Edge.pruned) :=
    mapM_zipIdx fun k e there =>
      readEdge_edgeRecord (writable.edges e (List.mem_of_getElem? there))
  have equipped := writable.equipped
  rw [readNode, edges, readEdges]
  unfold Node.Equipped at equipped
  cases kind : n.kind with
  | text =>
    by_cases empty : n.params = [] <;>
      simp [bind, Except.bind, pure, Except.pure, nodeRecord, readOptional, Node.unmarked,
        Node.pruned, labelsAt, kind, empty]
  | setVariable =>
    rw [kind] at equipped
    obtain ⟨_, e, expression, readable⟩ := equipped
    have source := readExpression_source readable (.node n.index)
    by_cases id : n.textId = "" <;>
      simp [bind, Except.bind, pure, Except.pure, nodeRecord, readOptional, Except.map,
        Node.unmarked, Node.pruned, labelsAt, kind, id, expression, source]
  | event =>
    rw [kind] at equipped
    have args : (n.eventArgs.map (·.source)).mapM (readExpression (.node n.index))
        = .ok n.eventArgs := by
      refine mapM_eq_ok.mpr (List.forall₂_map_left_iff.mpr ?_)
      exact List.forall₂_same.mpr fun a member => readExpression_source (equipped.2 a member) _
    simp [bind, Except.bind, pure, Except.pure, nodeRecord, readOptional, Node.unmarked,
      Node.pruned, labelsAt, kind, args]
  | choice | select =>
    simp [bind, Except.bind, pure, Except.pure, nodeRecord, readOptional, Node.unmarked,
      Node.pruned, labelsAt, kind]
  | goto =>
    rw [kind] at equipped
    exact equipped.elim

end GraphRecord

/-! ### Whole graphs -/

/-- A node as it is read from its saved form in a graph of these labels. -/
def Node.reread (labels : List (String × Ref)) (n : Node) : Node :=
  { n.pruned with labels := GraphRecord.labelsAt labels n.index }

theorem Edge.pruned_target (e : Edge) : e.pruned.target = e.target := by
  unfold Edge.pruned
  split <;> rfl

/-- No search sees what is left out. -/
theorem Node.reread_unseen (labels : List (String × Ref)) : Unseen (Node.reread labels) := by
  have targets (es : List Edge) : (es.map Edge.pruned).map (·.target) = es.map (·.target) := by
    rw [List.map_map]
    exact List.map_congr_left fun e _ => e.pruned_target
  refine ⟨fun n => ?_, fun n b => ?_⟩
  · unfold Node.reread Node.pruned
    cases kind : n.kind <;> exact ⟨rfl, kind.symm, targets n.edges⟩
  · unfold Node.reread Node.pruned
    cases n.kind <;> rfl

namespace Graph

/-- A graph of which the saved form is read. -/
structure Writable (g : Graph) : Prop where
  nodes : ∀ n ∈ g.nodes, n.Writable g.nodes.length
  index : ∀ (i : Nat) (n : Node), g.nodes[i]? = some n → n.index = i
  first : ∀ r, g.first = some r → r.Fits g.nodes.length
  header : ∀ r, g.header = some r → r.Fits g.nodes.length
  labels : ∀ l ∈ g.labels, l.2.Fits g.nodes.length
  -- Which lines have choices can be found out again.
  marked : (g.nodes.map Node.unmarked).mapM (markChoices (g.nodes.map Node.unmarked)) = .ok g.nodes

/-- A graph as it is read from its saved form. -/
def reread (g : Graph) : Graph :=
  { g with nodes := g.nodes.map (Node.reread g.labels), labels := foldLabels g.labels }

/-- The data that a graph is saved as. -/
def record (g : Graph) : GraphRecord :=
  ⟨g.name, g.first, g.header, g.labels, g.nodes.map Schema.nodeRecord⟩

namespace Writable

variable {g : Graph}

theorem graph?_form (writable : g.Writable) : Schema.graph? g.form = some g.record := by
  have first := Schema.countOrNull?_refOrNull fun r there => (writable.first r there).read
  have header := Schema.countOrNull?_refOrNull fun r there => (writable.header r there).read
  have labels : Schema.labels? (.object (g.labels.map fun l => (l.1, refForm l.2)))
      = some g.labels := by
    have each : ∀ l ∈ g.labels, (Schema.count? (refForm l.2)).map (l.1, ·) = some l := by
      intro l member
      rw [(writable.labels l member).read, Option.map_some]
    have whole := @mapM_some _ _ _ (fun l : String × Ref => (l.1, refForm l.2))
      (fun f => (Schema.count? f.2).map (f.1, ·)) id g.labels each
    rw [List.map_id] at whole
    exact whole
  have nodes : Schema.list? Schema.node? (.list (g.nodes.map nodeForm))
      = some (g.nodes.map Schema.nodeRecord) :=
    mapM_some fun n member => Schema.node?_nodeForm (writable.nodes n member)
  have version : Schema.version? (.int 1) = some () := by decide
  simp [form, record, Schema.graph?, Schema.fields?, Schema.required, Schema.field?_cons,
    Schema.field?_nil, Schema.text?, version, first, header, labels, nodes]

/-- A graph is read as it was saved, but for what saving leaves out. -/
theorem ofForm_form (writable : g.Writable) : ofForm g.form = .ok g.reread := by
  have count : g.record.nodes.length = g.nodes.length := List.length_map _
  have first : GraphRecord.checkRef g.record.nodes.length .first g.record.first = .ok () := by
    rw [count]
    exact GraphRecord.checkRef_fits _ writable.first
  have header : GraphRecord.checkRef g.record.nodes.length .header g.record.header = .ok () := by
    rw [count]
    exact GraphRecord.checkRef_fits _ writable.header
  have labels : (g.record.labels.forM fun l =>
      GraphRecord.checkRef g.record.nodes.length (.label l.1) (some l.2)) = .ok () := by
    rw [count]
    -- all labels are checked against the same count of nodes
    have each := writable.labels
    change (g.labels.forM fun l => _) = _
    generalize g.labels = labels at each
    induction labels with
    | nil => rfl
    | cons l rest ih =>
      have here := GraphRecord.checkRef_fits (.label l.1) fun r (same : some l.2 = some r) =>
        Option.some.inj same ▸ each l (List.mem_cons_self ..)
      change (GraphRecord.checkRef g.nodes.length (.label l.1) (some l.2) >>= fun _ => _) = _
      rw [here]
      exact ih fun l member => each l (List.mem_cons_of_mem _ member)
  have nodes : (g.record.nodes.zipIdx.mapM fun n => g.record.readNode n.1 n.2)
      = .ok ((g.nodes.map Node.unmarked).map (Node.reread g.labels)) := by
    rw [List.map_map]
    refine mapM_zipIdx fun i n there => ?_
    have own := writable.nodes n (List.mem_of_getElem? there)
    rw [← count] at own
    rw [Nat.zero_add, ← writable.index i n there]
    exact GraphRecord.readNode_nodeRecord own
  have made : ofNodes g.record.name ((g.nodes.map Node.unmarked).map (Node.reread g.labels))
      g.record.first g.record.header g.record.labels = .ok g.reread := by
    rw [(Node.reread_unseen g.labels).ofNodes_map, ofNodes, writable.marked]
    rfl
  rw [ofForm, writable.graph?_form]
  simp only [GraphRecord.toGraph, first, header, labels, nodes, made, bind, Except.bind]
  rfl

end Writable

end Graph

/-! ### Graphs that are saved whole -/

/-- Whether a reference is to one of so many nodes. -/
def Ref.Within (count : Nat) (r : Ref) : Prop :=
  ∃ k, r = .ofNat k ∧ k < count

theorem Ref.isAt_ofNat (p i : Nat) : (Ref.ofNat p).isAt i = decide (p = i) := by
  simp only [Ref.isAt, Ref.compareNat?, Ref.ofNat, Option.some.injEq, decide_eq_decide,
    Int.compare_eq_eq]
  omega

theorem Ref.Within.fits {count : Nat} {r : Ref} (inside : r.Within count) : r.Fits count := by
  obtain ⟨k, rfl, less⟩ := inside
  have before : (Ref.ofNat k).compareNat? count = some .lt := by
    simp only [Ref.ofNat, Ref.compareNat?, Option.some.injEq]
    exact Int.compare_eq_lt.mpr (by omega)
  exact ⟨Schema.count?_ofNat k, by simp [before]⟩

theorem Edge.Savable.writable {count : Nat} {e : Edge} (savable : e.Savable)
    (inside : ∀ r, e.target = some r → r.Within count) : e.Writable count :=
  ⟨fun r there => (inside r there).fits, savable.condition, savable.params⟩

theorem Edge.Savable.pruned_eq {e : Edge} (savable : e.Savable) : e.pruned = e := by
  unfold Edge.pruned
  split
  · rfl
  next plain =>
    obtain ⟨text, id, params⟩ := savable.bare plain
    cases e
    simp_all

/-- What is proper has what it needs. -/
theorem Node.Proper.equipped {n : Node} (proper : n.Proper) : n.Equipped := by
  unfold Node.Proper at proper
  unfold Node.Equipped
  cases kind : n.kind with
  | text =>
    rw [kind] at proper
    exact proper.1
  | setVariable =>
    rw [kind] at proper
    obtain ⟨_, _, named, readable, _⟩ := proper
    exact ⟨named, readable⟩
  | event =>
    rw [kind] at proper
    obtain ⟨_, _, _, _, _, _, named, readable⟩ := proper
    exact ⟨named, readable⟩
  | choice | select => trivial
  | goto =>
    rw [kind] at proper
    exact proper

theorem Node.Savable.writable {count : Nat} {n : Node} (savable : n.Savable)
    (inside : ∀ e ∈ n.edges, ∀ r, e.target = some r → r.Within count) : n.Writable count := by
  obtain ⟨k, line⟩ := savable.line
  refine ⟨?_, fun e own => (savable.edges e own).writable (inside e own), savable.proper.equipped⟩
  rw [line]
  exact Schema.count?_ofNat k

theorem Node.Savable.pruned_eq {n : Node} (savable : n.Savable) : n.pruned = n := by
  have edges : n.edges.map Edge.pruned = n.edges :=
    (List.map_congr_left fun e own => (savable.edges e own).pruned_eq).trans (List.map_id' _)
  have proper := savable.proper
  unfold Node.Proper at proper
  unfold Node.pruned
  rw [edges]
  cases n with
  | mk index kind =>
    cases kind <;> simp_all

namespace Graph

/-- A graph that is read as it was saved. -/
structure Savable (g : Graph) : Prop where
  nodes : ∀ n ∈ g.nodes, n.Savable
  index : ∀ (i : Nat) (n : Node), g.nodes[i]? = some n → n.index = i
  labelled : ∀ (i : Nat) (n : Node), g.nodes[i]? = some n →
    (g.labels.filter fun l => l.2.isAt i).map (·.1) = n.labels
  targets : ∀ n ∈ g.nodes, ∀ e ∈ n.edges, ∀ r, e.target = some r → r.Within g.nodes.length
  first : ∀ r, g.first = some r → r.Within g.nodes.length
  header : ∀ r, g.header = some r → r.Within g.nodes.length
  labels : ∀ l ∈ g.labels, l.2.Within g.nodes.length
  folded : foldLabels g.labels = g.labels
  -- Which lines have choices can be found out again.
  marked : (g.nodes.map Node.unmarked).mapM (markChoices (g.nodes.map Node.unmarked)) = .ok g.nodes

namespace Savable

variable {g : Graph}

theorem writable (savable : g.Savable) : g.Writable :=
  ⟨fun n member => (savable.nodes n member).writable (savable.targets n member), savable.index,
    fun r there => (savable.first r there).fits, fun r there => (savable.header r there).fits,
    fun l member => (savable.labels l member).fits, savable.marked⟩

theorem reread_eq (savable : g.Savable) : g.reread = g := by
  have nodes : g.nodes.map (Node.reread g.labels) = g.nodes := by
    refine List.ext_getElem? fun i => ?_
    rw [List.getElem?_map]
    cases there : g.nodes[i]? with
    | none => rfl
    | some n =>
      have labels : GraphRecord.labelsAt g.labels n.index = n.labels := by
        rw [savable.index i n there]
        exact savable.labelled i n there
      rw [Option.map_some, Node.reread,
        (savable.nodes n (List.mem_of_getElem? there)).pruned_eq, labels]
  rw [reread, nodes, savable.folded]

theorem graph?_form (savable : g.Savable) : Schema.graph? g.form = some g.record :=
  savable.writable.graph?_form

/-- A graph is read as it was saved. -/
theorem ofForm_form (savable : g.Savable) : ofForm g.form = .ok g := by
  rw [savable.writable.ofForm_form, savable.reread_eq]

end Savable

end Graph

end Colloquy
