import Colloquy.Proofs.Graph.Form
/-!
# What the schema admits

Data that the schema admits are read into records whose references are written as they were, whose
names and parameters are not empty, and whose nodes have the fields that their kinds require.
-/

namespace Colloquy

/-- What the schema promises of the data of an edge. -/
structure EdgeRecord.Admitted (record : EdgeRecord) : Prop where
  target : ∀ r, record.target = some r → Schema.count? (Graph.refForm r) = some r
  params : ∀ ps, record.params = some ps → ∀ p ∈ ps, p ≠ ""

/-- What the schema promises of the data of a node. -/
structure NodeRecord.Admitted (record : NodeRecord) : Prop where
  line : ∀ r, record.line = some r → Schema.count? (Graph.refForm r) = some r
  edges : ∀ e ∈ record.edges, e.Admitted
  params : ∀ ps, record.params = some ps → ∀ p ∈ ps, p ≠ ""
  identifier : ∀ name, record.identifier = some name → name ≠ ""
  event : ∀ name, record.event = some name → name ≠ ""
  complete : Schema.isComplete record = true

/-- What the schema promises of the data of a graph. -/
structure GraphRecord.Admitted (record : GraphRecord) : Prop where
  first : ∀ r, record.first = some r → Schema.count? (Graph.refForm r) = some r
  header : ∀ r, record.header = some r → Schema.count? (Graph.refForm r) = some r
  labels : ∀ l ∈ record.labels, Schema.count? (Graph.refForm l.2) = some l.2
  nodes : ∀ n ∈ record.nodes, n.Admitted

namespace Schema

/-! ### Fields -/

/-- A reference is saved as it was written. -/
theorem refForm_of_count? {value : Json} {r : Ref} (read : count? value = some r) :
    Graph.refForm r = value := by
  unfold count? at read
  split at read
  · split at read
    · cases read
    · cases read
      rfl
  · split at read
    · cases read
      rfl
    · cases read
  · cases read

theorem count?_again {value : Json} {r : Ref} (read : count? value = some r) :
    count? (Graph.refForm r) = some r := by
  rw [refForm_of_count? read, read]

theorem countOrNull?_again {value : Json} {o : Option Ref} (read : countOrNull? value = some o)
    {r : Ref} (there : o = some r) : count? (Graph.refForm r) = some r := by
  unfold countOrNull? at read
  split at read
  · cases read
    cases there
  · obtain ⟨r', counted, rfl⟩ := Option.map_eq_some_iff.1 read
    cases there
    exact count?_again counted

theorem filled?_some {value : Json} {s : String} (read : filled? value = some s) : s ≠ "" := by
  unfold filled? at read
  split at read
  · split at read
    · cases read
    next filled => exact Option.some.inj read ▸ filled
  · cases read

theorem mem_of_mapM {α β : Type} {f : α → Option β} {xs : List α} {ys : List β}
    (read : xs.mapM f = some ys) {y : β} (member : y ∈ ys) : ∃ x ∈ xs, f x = some y := by
  induction xs generalizing ys with
  | nil =>
    cases read
    cases member
  | cons x rest ih =>
    rw [List.mapM_cons] at read
    obtain ⟨y', first, later⟩ := Option.bind_eq_some_iff.1 read
    obtain ⟨more, others, same⟩ := Option.bind_eq_some_iff.1 later
    cases same
    obtain _ | ⟨_, member⟩ := member
    · exact ⟨x, List.mem_cons_self, first⟩
    · obtain ⟨x', inside, found⟩ := ih others member
      exact ⟨x', List.mem_cons_of_mem _ inside, found⟩

theorem list?_some {α : Type} {item : Json → Option α} {value : Json} {xs : List α}
    (read : list? item value = some xs) {x : α} (member : x ∈ xs) : ∃ v, item v = some x := by
  unfold list? at read
  split at read
  · obtain ⟨v, _, found⟩ := mem_of_mapM read member
    exact ⟨v, found⟩
  · cases read

theorem required_some {α : Type} {fields : List (String × Json)} {name : String}
    {item : Json → Option α} {a : α} (read : required fields name item = some a) :
    ∃ v, item v = some a := by
  obtain ⟨v, _, found⟩ := Option.bind_eq_some_iff.1 read
  exact ⟨v, found⟩

theorem optional_some {α : Type} {fields : List (String × Json)} {name : String}
    {item : Json → Option α} {o : Option α} (read : optional fields name item = some o) {a : α}
    (there : o = some a) : ∃ v, item v = some a := by
  unfold optional at read
  split at read
  · cases read
    cases there
  next v _ =>
    obtain ⟨a', found, rfl⟩ := Option.map_eq_some_iff.1 read
    cases there
    exact ⟨v, found⟩

theorem optional_filled {fields : List (String × Json)} {name : String} {o : Option String}
    (read : optional fields name filled? = some o) {s : String} (there : o = some s) : s ≠ "" := by
  obtain ⟨v, found⟩ := optional_some read there
  exact filled?_some found

theorem optional_list_filled {fields : List (String × Json)} {name : String}
    {o : Option (List String)} (read : optional fields name (list? filled?) = some o)
    {texts : List String} (there : o = some texts) : ∀ t ∈ texts, t ≠ "" := by
  obtain ⟨v, found⟩ := optional_some read there
  intro t member
  obtain ⟨v', filled⟩ := list?_some found member
  exact filled?_some filled

/-! ### Records -/

theorem edge?_admitted {value : Json} {record : EdgeRecord} (read : edge? value = some record) :
    record.Admitted := by
  unfold edge? at read
  obtain ⟨fields, _, read⟩ := Option.bind_eq_some_iff.1 read
  obtain ⟨kindName, _, read⟩ := Option.bind_eq_some_iff.1 read
  obtain ⟨kind, _, read⟩ := Option.bind_eq_some_iff.1 read
  obtain ⟨target, targetRead, read⟩ := Option.bind_eq_some_iff.1 read
  obtain ⟨condition, _, read⟩ := Option.bind_eq_some_iff.1 read
  obtain ⟨text, _, read⟩ := Option.bind_eq_some_iff.1 read
  obtain ⟨textId, _, read⟩ := Option.bind_eq_some_iff.1 read
  obtain ⟨params, paramsRead, read⟩ := Option.bind_eq_some_iff.1 read
  cases read
  obtain ⟨v, counted⟩ := required_some targetRead
  exact ⟨fun r => countOrNull?_again counted, fun ps => optional_list_filled paramsRead⟩

theorem node?_admitted {value : Json} {record : NodeRecord} (read : node? value = some record) :
    record.Admitted := by
  unfold node? at read
  obtain ⟨fields, _, read⟩ := Option.bind_eq_some_iff.1 read
  obtain ⟨kindName, _, read⟩ := Option.bind_eq_some_iff.1 read
  obtain ⟨kind, _, read⟩ := Option.bind_eq_some_iff.1 read
  obtain ⟨line, lineRead, read⟩ := Option.bind_eq_some_iff.1 read
  obtain ⟨edges, edgesRead, read⟩ := Option.bind_eq_some_iff.1 read
  obtain ⟨speaker, _, read⟩ := Option.bind_eq_some_iff.1 read
  obtain ⟨text, _, read⟩ := Option.bind_eq_some_iff.1 read
  obtain ⟨textId, _, read⟩ := Option.bind_eq_some_iff.1 read
  obtain ⟨params, paramsRead, read⟩ := Option.bind_eq_some_iff.1 read
  obtain ⟨identifier, identifierRead, read⟩ := Option.bind_eq_some_iff.1 read
  obtain ⟨expression, _, read⟩ := Option.bind_eq_some_iff.1 read
  obtain ⟨event, eventRead, read⟩ := Option.bind_eq_some_iff.1 read
  obtain ⟨args, _, read⟩ := Option.bind_eq_some_iff.1 read
  dsimp only at read
  split at read
  next complete =>
    cases read
    refine ⟨fun r there => ?_, fun e member => ?_, fun ps => optional_list_filled paramsRead,
      fun s => optional_filled identifierRead, fun s => optional_filled eventRead, complete⟩
    · obtain ⟨v, counted⟩ := optional_some lineRead there
      exact count?_again counted
    · obtain ⟨v, listed⟩ := required_some edgesRead
      obtain ⟨v, admitted⟩ := list?_some listed member
      exact edge?_admitted admitted
  · cases read

theorem labels?_again {value : Json} {labels : List (String × Ref)}
    (read : labels? value = some labels) : ∀ l ∈ labels, count? (Graph.refForm l.2) = some l.2 := by
  unfold labels? at read
  split at read
  · intro l member
    obtain ⟨field, _, found⟩ := mem_of_mapM read member
    obtain ⟨r, counted, rfl⟩ := Option.map_eq_some_iff.1 found
    exact count?_again counted
  · cases read

theorem graph?_admitted {value : Json} {record : GraphRecord} (read : graph? value = some record) :
    record.Admitted := by
  unfold graph? at read
  obtain ⟨fields, _, read⟩ := Option.bind_eq_some_iff.1 read
  obtain ⟨version, _, read⟩ := Option.bind_eq_some_iff.1 read
  obtain ⟨name, _, read⟩ := Option.bind_eq_some_iff.1 read
  obtain ⟨first, firstRead, read⟩ := Option.bind_eq_some_iff.1 read
  obtain ⟨header, headerRead, read⟩ := Option.bind_eq_some_iff.1 read
  obtain ⟨labels, labelsRead, read⟩ := Option.bind_eq_some_iff.1 read
  obtain ⟨nodes, nodesRead, read⟩ := Option.bind_eq_some_iff.1 read
  cases read
  obtain ⟨_, first⟩ := required_some firstRead
  obtain ⟨_, header⟩ := required_some headerRead
  obtain ⟨_, labels⟩ := required_some labelsRead
  obtain ⟨_, nodes⟩ := required_some nodesRead
  refine ⟨fun r => countOrNull?_again first, fun r => countOrNull?_again header,
    labels?_again labels, fun n member => ?_⟩
  obtain ⟨v, admitted⟩ := list?_some nodes member
  exact node?_admitted admitted

end Schema

end Colloquy
