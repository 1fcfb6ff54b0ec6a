import Colloquy.Proofs.Graph.Loading
/-!
# Graphs written again

The saved form of a graph that was read is a normal form: it is read again, and what is read of it is
saved as it was. The data that the graph was first read from may have been wider, with fields that a
kind of node or edge does not need, labels in any case, expressions between blanks, and lists left out;
all this is gone once the graph has been written.
-/

namespace Colloquy

/-- A result is not looked at where it is a fault. -/
abbrev Whenever {ε α : Type} (ok : α → Prop) (x : Except ε α) : Prop :=
  Comes ok (fun _ => True) x

/-! ### What has been read can be written -/

namespace GraphRecord

theorem checkRef_fits_of_admitted {count : Nat} {place : Place} {o : Option Ref}
    (counted : ∀ r, o = some r → Schema.count? (Graph.refForm r) = some r) :
    Whenever (fun _ => ∀ r, o = some r → r.Fits count) (checkRef count place o) := by
  unfold checkRef
  split
  · exact fun _ none => by cases none
  next r =>
    split
    next below =>
      rintro _ ⟨⟩
      exact ⟨counted r rfl, below⟩
    · trivial

theorem readExpression_readable (place : Place) (source : String) :
    Whenever Expression.Readable (readExpression place source) := by
  unfold readExpression
  split
  next read => exact Expression.readable_of_parse read
  · trivial
  · trivial

theorem readOptional_readable (place : Place) (source : Option String) :
    Whenever (fun o => (∀ e, o = some e → e.Readable) ∧ (source.isSome → o.isSome))
      (readOptional place source) := by
  cases source with
  | none => exact ⟨fun _ none => (by cases none), id⟩
  | some text =>
    refine (readExpression_readable place text).map fun e readable => ⟨fun e' same => ?_, fun _ => rfl⟩
    exact Option.some.inj same ▸ readable

theorem readEdge_writable {count node k : Nat} {record : EdgeRecord} (admitted : record.Admitted) :
    Whenever (Edge.Writable count) (readEdge count node record k) := by
  rw [readEdge]
  refine (checkRef_fits_of_admitted admitted.target).bind fun _ target => ?_
  refine (readOptional_readable _ record.condition).bind fun condition readable => ?_
  refine ⟨target, readable.1, ?_⟩
  cases given : record.params with
  | none => exact fun _ none => absurd none List.not_mem_nil
  | some params => exact admitted.params params given

/-- What is known of a node that was read at a position. -/
structure Arrives (count position : Nat) (n : Node) : Prop where
  writable : n.Writable count
  index : n.index = position
  unmarked : n.unmarked = n

theorem readNode_arrives {g : GraphRecord} {record : NodeRecord} {i : Nat}
    (admitted : record.Admitted) : Whenever (Arrives g.nodes.length i) (g.readNode record i) := by
  have edges : Whenever (fun es => ∀ e ∈ es, e.Writable g.nodes.length)
      (record.edges.zipIdx.mapM fun e => readEdge g.nodes.length i e.1 e.2) := by
    refine (Comes.mapM (r := fun _ => Edge.Writable g.nodes.length) fun x member =>
      readEdge_writable (admitted.edges x.1 (List.fst_mem_of_mem_zipIdx member))).mono
        fun es all e member => ?_
    obtain ⟨k, there⟩ := List.mem_iff_getElem?.1 member
    obtain ⟨_, _, writable⟩ := forall₂_right all there
    exact writable
  have args : Whenever (fun es => ∀ e ∈ es, e.Readable)
      ((record.args.getD []).mapM (readExpression (.node i))) := by
    refine (Comes.mapM (r := fun _ => Expression.Readable) fun text _ =>
      readExpression_readable (.node i) text).mono fun es all e member => ?_
    obtain ⟨k, there⟩ := List.mem_iff_getElem?.1 member
    obtain ⟨_, _, readable⟩ := forall₂_right all there
    exact readable
  rw [readNode]
  refine edges.bind fun es writable => (readOptional_readable _ record.expression).bind
    fun expression read => args.bind fun arguments readable => ⟨⟨?_, writable, ?_⟩, rfl, rfl⟩
  · cases given : record.line with
    | none => rfl
    | some r => exact admitted.line r given
  · -- the schema requires of each kind of node what it needs
    have complete := admitted.complete
    unfold Schema.isComplete at complete
    unfold Node.Equipped
    dsimp only
    cases kind : record.kind with
    | text =>
      cases given : record.params with
      | none => exact fun _ none => absurd none List.not_mem_nil
      | some params => exact admitted.params params given
    | setVariable =>
      simp only [kind, Bool.and_eq_true] at complete
      obtain ⟨name, named⟩ := Option.isSome_iff_exists.1 complete.1
      obtain ⟨e, there⟩ := Option.isSome_iff_exists.1 (read.2 complete.2)
      refine ⟨?_, e, there, read.1 e there⟩
      rw [named]
      exact admitted.identifier name named
    | event =>
      simp only [kind] at complete
      obtain ⟨name, named⟩ := Option.isSome_iff_exists.1 complete
      refine ⟨?_, readable⟩
      rw [named]
      exact admitted.event name named
    | choice | select => trivial
    | goto =>
      rw [kind] at complete
      cases complete

/-- Every node of the arena of a record can be written. -/
theorem arena_arrives {record : GraphRecord} (admitted : record.Admitted) {nodes : List Node}
    (arena : record.arena = .ok nodes) : nodes.length = record.nodes.length
      ∧ ∀ i n, nodes[i]? = some n → Arrives record.nodes.length i n := by
  have each := mapM_eq_ok.1 arena
  refine ⟨?_, fun i n there => ?_⟩
  · rw [← each.length_eq, List.length_zipIdx]
  · obtain ⟨x, place, fromRecord⟩ := forall₂_right each there
    rw [List.getElem?_zipIdx] at place
    obtain ⟨source, own, rfl⟩ := Option.map_eq_some_iff.1 place
    rw [Nat.zero_add] at fromRecord
    exact (readNode_arrives (admitted.nodes source (List.mem_of_getElem? own))).holds fromRecord

theorem labels_fit {record : GraphRecord} (admitted : record.Admitted) :
    Whenever (fun _ => ∀ l ∈ record.labels, l.2.Fits record.nodes.length)
      (record.labels.forM fun l => checkRef record.nodes.length (.label l.1) (some l.2)) := by
  refine Comes.forM (p := fun l : String × Ref => l.2.Fits record.nodes.length) fun l member => ?_
  refine (checkRef_fits_of_admitted fun r same => ?_).mono fun _ all => all l.2 rfl
  exact Option.some.inj same ▸ admitted.labels l member

end GraphRecord

/-- The note whether a node has choices does not matter to its saved form. -/
theorem Node.Writable.of_unmarked {count : Nat} {n : Node} (writable : n.unmarked.Writable count) :
    n.Writable count :=
  ⟨writable.line, writable.edges, writable.equipped⟩

/-- Labels in lower case are kept. -/
theorem foldLabels_foldLabels (labels : List (String × Ref)) :
    foldLabels (foldLabels labels) = foldLabels labels := by
  refine foldLabels_eq_self ?_ fun l member => ?_
  · rw [foldLabels_eq]
    exact @setEntries_nodup _ [] List.nodup_nil _
  · obtain ⟨l', _, rfl⟩ := mem_foldLabels member
    exact Text.lower_lower l'.1

namespace Graph

theorem unmarked_of_marked {nodes plain marked : List Node}
    (each : List.Forall₂ (fun n n' => markChoices nodes n = .ok n') plain marked)
    (unmarked : ∀ n ∈ plain, n.unmarked = n) : marked.map Node.unmarked = plain := by
  induction each with
  | nil => rfl
  | cons noted _ ih =>
    obtain ⟨first, others⟩ := List.forall_mem_cons.1 unmarked
    rw [List.map_cons, ih others, (Script.markChoices_same noted).1]
    exact congrArg (· :: _) first

/-- A graph that was read can be written, with its labels in lower case. -/
theorem writable_of_ofForm {d : Json} {g : Graph} (accepted : ofForm d = .ok g) :
    g.Writable ∧ foldLabels g.labels = g.labels := by
  unfold ofForm at accepted
  split at accepted
  · cases accepted
  next record read =>
  have admitted := Schema.graph?_admitted read
  obtain ⟨_, firstChecked, accepted⟩ := bind_eq_ok.1 accepted
  obtain ⟨_, headerChecked, accepted⟩ := bind_eq_ok.1 accepted
  obtain ⟨_, labelsChecked, accepted⟩ := bind_eq_ok.1 accepted
  obtain ⟨nodes, arena, accepted⟩ := bind_eq_ok.1 accepted
  split at accepted
  · next made =>
    cases accepted
    have first := (GraphRecord.checkRef_fits_of_admitted admitted.first).holds firstChecked
    have header := (GraphRecord.checkRef_fits_of_admitted admitted.header).holds headerChecked
    have labels := (GraphRecord.labels_fit admitted).holds labelsChecked
    obtain ⟨length, arrives⟩ := GraphRecord.arena_arrives admitted arena
    obtain ⟨-, sameFirst, sameHeader, sameLabels, marked⟩ := Script.ofNodes_eq_ok made
    have count : g.nodes.length = record.nodes.length := marked.length_eq.symm.trans length
    have unmarked : g.nodes.map Node.unmarked = nodes := by
      refine unmarked_of_marked marked fun n member => ?_
      obtain ⟨i, there⟩ := List.mem_iff_getElem?.1 member
      exact (arrives i n there).unmarked
    -- without the notes which lines have choices, a node of the graph is one that was read
    have arrived (i : Nat) (n : Node) (there : g.nodes[i]? = some n) :
        GraphRecord.Arrives record.nodes.length i n.unmarked := by
      refine arrives i n.unmarked ?_
      rw [← unmarked, List.getElem?_map, there, Option.map_some]
    refine ⟨⟨fun n member => ?_, fun i n there => (arrived i n there).index, ?_, ?_,
      fun l member => ?_, ?_⟩, ?_⟩
    · obtain ⟨i, there⟩ := List.mem_iff_getElem?.1 member
      rw [count]
      exact (arrived i n there).writable.of_unmarked
    · rw [sameFirst, count]
      exact first
    · rw [sameHeader, count]
      exact header
    · rw [sameLabels] at member
      obtain ⟨l', inside, rfl⟩ := mem_foldLabels member
      rw [count]
      exact labels l' inside
    · rw [unmarked]
      exact mapM_eq_ok.2 marked
    · rw [sameLabels, foldLabels_foldLabels]
  · cases accepted

/-! ### Writing again -/

theorem edgeForm_pruned (e : Edge) : edgeForm e.pruned = edgeForm e := by
  unfold Edge.pruned
  split
  · rfl
  next plain => simp [edgeForm, plain]

theorem nodeForm_reread (labels : List (String × Ref)) (n : Node) :
    nodeForm (n.reread labels) = nodeForm n := by
  have edges : (n.edges.map Edge.pruned).map edgeForm = n.edges.map edgeForm := by
    rw [List.map_map]
    exact List.map_congr_left fun e _ => edgeForm_pruned e
  unfold nodeForm payloadFields Node.reread Node.pruned
  cases kind : n.kind with
  | setVariable => by_cases id : n.textId = "" <;> simp [edges, id]
  | _ => simp [edges]

/-- What saving leaves out does not matter to the saved form. -/
theorem form_reread {g : Graph} (folded : foldLabels g.labels = g.labels) :
    g.reread.form = g.form := by
  have nodes : (g.nodes.map (Node.reread g.labels)).map nodeForm = g.nodes.map nodeForm := by
    rw [List.map_map]
    exact List.map_congr_left fun n _ => nodeForm_reread g.labels n
  rw [form, form, reread, folded, nodes]

end Graph

/-- The saved form of a graph that was read, from whatever data, is read again, and what is read of it is
saved as the same data. -/
theorem form_of_ofForm_form {d : Json} {g : Graph} (accepted : Graph.ofForm d = .ok g) :
    ∃ g', Graph.ofForm g.form = .ok g' ∧ g'.form = g.form := by
  obtain ⟨writable, folded⟩ := Graph.writable_of_ofForm accepted
  exact ⟨g.reread, writable.ofForm_form, Graph.form_reread folded⟩

/-- The number one, written with a decimal point. -/
def decimalOne : Json :=
  .float (.ofUnits false Binary64.unitsOfOne)

/-- Data that are wider than what is written: a version and references with a decimal point, labels
that differ only in case, an expression between blanks, fields that a node or an edge of its kind
does not need, a line and arguments left out. -/
def wideForm : Json :=
  .object [("version", decimalOne), ("name", .text "w"), ("first", .int 0), ("header", .null),
    ("labels", .object [("A", .int 0), ("B", decimalOne), ("a", .int 1)]), ("nodes", .list
      [.object [("type", .text "text"), ("speaker", .text "A"), ("text", .text "hi"),
        ("text_id", .text "x"), ("params", .list []), ("event", .text "unused"),
        ("edges", .list [.object [("type", .text "continue"), ("target", .int 1),
          ("text", .text "unused"), ("params", .list [.text "p"])]])],
      .object [("type", .text "select"), ("line", decimalOne), ("edges", .list
        [.object [("type", .text "condition"), ("target", .null),
          ("condition", .text " {n} > 1 ")]])],
      .object [("type", .text "set_variable"), ("identifier", .text "n"),
        ("expression", .text "1"), ("text", .text "unused"), ("edges", .list [])],
      .object [("type", .text "event"), ("event", .text "go"), ("edges", .list
        [.object [("type", .text "continue"), ("target", decimalOne)]])]])]

/-- Wide data are read, something else is written, and that stays as it is. -/
theorem form_of_ofForm_form_wide :
    ∃ g, Graph.ofForm wideForm = .ok g ∧ g.labels.map (·.1) = ["a", "b"]
      ∧ Json.same g.form wideForm = false
      ∧ ∃ g', Graph.ofForm g.form = .ok g' ∧ g'.form = g.form := by
  have reads : ((Graph.ofForm wideForm).toOption.any fun g =>
      g.labels.map (·.1) = ["a", "b"] && !Json.same g.form wideForm) = true := by
    decide +kernel
  obtain ⟨g, accepted, both⟩ := exists_ok_of_any reads
  obtain ⟨labels, apart⟩ := Bool.and_eq_true_iff.1 both
  exact ⟨g, accepted, of_decide_eq_true labels, Bool.not_eq_true' _ ▸ apart,
    form_of_ofForm_form accepted⟩

end Colloquy
