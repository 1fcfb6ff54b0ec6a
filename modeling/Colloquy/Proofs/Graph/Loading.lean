import Colloquy.Proofs.Graph.Admitting
import Colloquy.Proofs.Graph.Sturdy
import Colloquy.Table
/-!
# Graphs of any data

Data either are refused as no graph or give one that is sound: its references are to nodes that it has,
and a node is found by each of its labels. This needs references that are written as whole numbers,
labels that stay apart when case is left out, and selects that are not nested too deep.
-/

namespace Colloquy

/-- Data are refused: the schema does not admit them, or a reference or an expression of theirs is
wrong. -/
def GraphFault.refuses : GraphFault → Prop
  | .schema | .badRef .. | .badExpression .. => True
  | _ => False

/-- A graph that leads nowhere but to its nodes, which are found by their labels. -/
structure Graph.Sound (g : Graph) : Prop where
  first : ∀ r, g.first = some r → r.Within g.nodes.length
  header : ∀ r, g.header = some r → r.Within g.nodes.length
  target : ∀ n ∈ g.nodes, ∀ e ∈ n.edges, ∀ r, e.target = some r → r.Within g.nodes.length
  label : ∀ l ∈ g.labels, l.2.Within g.nodes.length
  listed : ∀ n ∈ g.nodes, ∀ label ∈ n.labels, g.nodeByLabel label = .ok (some n)

namespace GraphRecord

/-- All references of a record. -/
def refs (record : GraphRecord) : List Ref :=
  record.first.toList ++ record.header.toList ++ record.labels.map (·.2)
    ++ record.nodes.flatMap fun n => n.edges.filterMap (·.target)

/-- The texts of a record that are read as expressions. -/
def sources (record : GraphRecord) : List String :=
  record.nodes.flatMap fun n =>
    n.expression.toList ++ n.args.getD [] ++ n.edges.filterMap (·.condition)

/-- The nodes that a record describes. -/
def arena (record : GraphRecord) : Except GraphFault (List Node) :=
  record.nodes.zipIdx.mapM fun n => record.readNode n.1 n.2

/-- A record without references that are written with a decimal point, without labels that clash when
case is left out, and without selects that are nested too deep; and no numeral of an expression is
beyond the digit limit. -/
structure Orderly (record : GraphRecord) : Prop where
  whole : ∀ r ∈ record.refs, ∃ i, r = .at i
  apart : ∀ l ∈ record.labels, ∀ l' ∈ record.labels, Text.lower l.1 = Text.lower l'.1 → l.2 = l'.2
  shallow : ∀ nodes, record.arena = .ok nodes → Searchable nodes
  short : ∀ source ∈ record.sources, Expression.parse source ≠ .error .tooManyDigits

end GraphRecord

/-! ### What the schema admits -/

namespace Schema

/-- A reference that the schema admits: a position, or one that is written with a decimal point. -/
def Admits (r : Ref) : Prop :=
  (∃ k, r = .ofNat k) ∨ ∃ x, r = .decimal x

theorem admits_of_count? {value : Json} {r : Ref} (read : count? value = some r) : Admits r := by
  unfold count? at read
  split at read
  next n =>
    split at read
    · cases read
    next positive =>
      cases read
      obtain ⟨k, same⟩ := Int.eq_ofNat_of_zero_le (Int.not_lt.1 positive)
      exact .inl ⟨k, congrArg Ref.at same⟩
  next x =>
    split at read
    · cases read
      exact .inr ⟨x, rfl⟩
    · cases read
  · cases read

/-- The schema admits no negative references. -/
theorem graph?_admits {value : Json} {record : GraphRecord} (read : graph? value = some record) :
    ∀ r ∈ record.refs, Admits r := by
  obtain ⟨first, header, labels, nodes⟩ := graph?_admitted read
  intro r member
  simp only [GraphRecord.refs, List.mem_append] at member
  obtain ((inFirst | inHeader) | inLabels) | inNodes := member
  · exact admits_of_count? (first r (Option.mem_toList.1 inFirst))
  · exact admits_of_count? (header r (Option.mem_toList.1 inHeader))
  · obtain ⟨l, there, rfl⟩ := List.mem_map.1 inLabels
    exact admits_of_count? (labels l there)
  · obtain ⟨n, there, own⟩ := List.mem_flatMap.1 inNodes
    obtain ⟨e, edge, target⟩ := List.mem_filterMap.1 own
    exact admits_of_count? (((nodes n there).edges e edge).target r target)

end Schema

/-! ### Reading what is admitted -/

namespace GraphRecord

theorem checkRef_comes {count : Nat} {place : Place} {o : Option Ref}
    (counts : ∀ r, o = some r → ∃ k, r = .ofNat k) :
    Comes (fun _ => ∀ r, o = some r → r.Within count) GraphFault.refuses
      (checkRef count place o) := by
  unfold checkRef
  split
  · exact fun _ none => by cases none
  next r =>
    split
    next less =>
      rintro _ ⟨⟩
      obtain ⟨k, rfl⟩ := counts r rfl
      have before : compare (k : Int) (count : Int) = .lt := of_decide_eq_true less
      exact ⟨k, rfl, Int.ofNat_lt.1 (Int.compare_eq_lt.1 before)⟩
    next => trivial

theorem readExpression_comes {place : Place} {source : String}
    (short : Expression.parse source ≠ .error .tooManyDigits) :
    Comes (fun _ => True) GraphFault.refuses (readExpression place source) := by
  unfold readExpression
  split
  · trivial
  · trivial
  next long => exact short long

theorem readOptional_comes {place : Place} {source : Option String}
    (short : ∀ text ∈ source.toList, Expression.parse text ≠ .error .tooManyDigits) :
    Comes (fun _ => True) GraphFault.refuses (readOptional place source) := by
  cases source with
  | none => trivial
  | some text =>
    exact (readExpression_comes (short text (List.mem_singleton.2 rfl))).map fun _ _ => trivial

theorem readEdge_comes {count node k : Nat} {record : EdgeRecord}
    (counts : ∀ r ∈ record.target.toList, ∃ k, r = .ofNat k)
    (short : ∀ text ∈ record.condition.toList, Expression.parse text ≠ .error .tooManyDigits) :
    Comes (fun e => ∀ r, e.target = some r → r.Within count) GraphFault.refuses
      (readEdge count node record k) := by
  have target := @checkRef_comes count (.edge node k) record.target
    fun r there => counts r (Option.mem_toList.2 there)
  rw [readEdge]
  exact target.bind fun _ inside => (readOptional_comes short).bind fun _ _ => inside

/-- What is known of a node that has been read. -/
structure Reads (record : GraphRecord) (position : Nat) (n : Node) : Prop where
  index : n.index = position
  labels : n.labels = (record.labels.filter fun l => l.2.isAt position).map (·.1)
  target : ∀ e ∈ n.edges, ∀ r, e.target = some r → r.Within record.nodes.length

theorem readNode_comes {record : GraphRecord} {n : NodeRecord} {index : Nat}
    (counts : ∀ e ∈ n.edges, ∀ r ∈ e.target.toList, ∃ k, r = .ofNat k)
    (short : ∀ text ∈ n.expression.toList ++ n.args.getD [] ++ n.edges.filterMap (·.condition),
      Expression.parse text ≠ .error .tooManyDigits) :
    Comes (record.Reads index) GraphFault.refuses (record.readNode n index) := by
  have edges : Comes (fun es => ∀ e ∈ es, ∀ r, e.target = some r → r.Within record.nodes.length)
      GraphFault.refuses (n.edges.zipIdx.mapM fun e => readEdge record.nodes.length index e.1 e.2) := by
    refine (Comes.mapM (r := fun _ e => ∀ r, e.target = some r → r.Within record.nodes.length)
      fun x member => ?_).mono fun es all e member => ?_
    · have own := List.fst_mem_of_mem_zipIdx member
      refine readEdge_comes (counts x.1 own) fun text there => short text ?_
      refine List.mem_append_right _ (List.mem_filterMap.2 ⟨x.1, own, Option.mem_toList.1 there⟩)
    · obtain ⟨i, there⟩ := List.mem_iff_getElem?.1 member
      obtain ⟨_, _, inside⟩ := forall₂_right all there
      exact inside
  have expression := @readOptional_comes (.node index) n.expression
    fun text there => short text (List.mem_append_left _ (List.mem_append_left _ there))
  have args : Comes (fun _ => True) GraphFault.refuses
      ((n.args.getD []).mapM (readExpression (.node index))) :=
    (Comes.mapM (r := fun _ _ => True) fun text member => readExpression_comes
      (short text (List.mem_append_left _ (List.mem_append_right _ member)))).mono fun _ _ => trivial
  rw [readNode]
  exact edges.bind fun es inside => expression.bind fun _ _ => args.bind fun _ _ => ⟨rfl, rfl, inside⟩

theorem arena_comes {record : GraphRecord} (counts : ∀ r ∈ record.refs, ∃ k, r = .ofNat k)
    (short : ∀ source ∈ record.sources, Expression.parse source ≠ .error .tooManyDigits) :
    Comes (fun nodes => nodes.length = record.nodes.length
        ∧ ∀ i n, nodes[i]? = some n → record.Reads i n)
      GraphFault.refuses record.arena := by
  refine (Comes.mapM (r := fun x n => record.Reads x.2 n) fun x member => ?_).mono
    fun nodes read => ⟨?_, fun i n there => ?_⟩
  · have own := List.fst_mem_of_mem_zipIdx member
    refine readNode_comes (fun e edge r target => counts r ?_) fun text there => short text ?_
    · exact List.mem_append_right _ (List.mem_flatMap.2 ⟨x.1, own,
        List.mem_filterMap.2 ⟨e, edge, Option.mem_toList.1 target⟩⟩)
    · exact List.mem_flatMap.2 ⟨x.1, own, there⟩
  · rw [← read.length_eq, List.length_zipIdx]
  · obtain ⟨x, place, reads⟩ := forall₂_right read there
    rw [List.getElem?_zipIdx] at place
    obtain ⟨record', _, rfl⟩ := Option.map_eq_some_iff.1 place
    rw [Nat.zero_add] at reads
    exact reads

end GraphRecord

/-! ### Labels -/

/-- Labels with their targets, in lower case. -/
def lowered (labels : List (String × Ref)) : List (String × Ref) :=
  labels.map fun l => (Text.lower l.1, l.2)

theorem foldLabels_eq (labels : List (String × Ref)) :
    foldLabels labels = setEntries [] (lowered labels) := by
  rw [foldLabels, setEntries, lowered, List.foldl_map]

theorem mem_foldLabels {labels : List (String × Ref)} {l : String × Ref}
    (member : l ∈ foldLabels labels) : ∃ l' ∈ labels, (Text.lower l'.1, l'.2) = l := by
  rw [foldLabels_eq] at member
  exact List.mem_map.1 ((mem_setEntries member).resolve_left List.not_mem_nil)

/-- A label that others share when case is left out is found if they all have one target. -/
theorem lookup_foldLabels {labels : List (String × Ref)} {l : String × Ref} (member : l ∈ labels)
    (apart : ∀ l' ∈ labels, Text.lower l'.1 = Text.lower l.1 → l'.2 = l.2) :
    (foldLabels labels).lookup (Text.lower l.1) = some l.2 := by
  suffices finds : ∀ table, table.lookup (Text.lower l.1) = some l.2 ∨ l ∈ labels →
      (labels.foldl (fun table l => setEntry table (Text.lower l.1) l.2) table).lookup
        (Text.lower l.1) = some l.2 from finds [] (.inr member)
  clear member
  induction labels with
  | nil => exact fun table known => known.resolve_right List.not_mem_nil
  | cons first rest ih =>
    obtain ⟨here, others⟩ := List.forall_mem_cons.1 apart
    intro table known
    refine ih others _ ?_
    rw [lookup_setEntry]
    split
    next same => exact .inl (congrArg some (here same.symm))
    next other =>
      refine known.imp id fun member => ?_
      obtain _ | ⟨_, later⟩ := member
      · exact absurd rfl other
      · exact later

/-! ### Whole graphs -/

namespace GraphRecord

theorem rooted_of_reads {record : GraphRecord} {nodes : List Node}
    (length : nodes.length = record.nodes.length)
    (reads : ∀ i n, nodes[i]? = some n → record.Reads i n) : Rooted nodes := by
  refine ⟨fun i n there => (reads i n there).index, fun n member e own r target => ?_⟩
  obtain ⟨i, there⟩ := List.mem_iff_getElem?.1 member
  obtain ⟨p, rfl, inside⟩ := (reads i n there).target e own r target
  rw [← length] at inside
  exact ⟨p, nodes[p], rfl, List.getElem?_eq_getElem inside⟩

/-- A graph of nodes that were read from a record is sound if the references of the record are of its
nodes. -/
theorem sound_of_reads {record : GraphRecord} (orderly : record.Orderly) {nodes : List Node}
    (length : nodes.length = record.nodes.length)
    (reads : ∀ i n, nodes[i]? = some n → record.Reads i n)
    (first : ∀ r, record.first = some r → r.Within record.nodes.length)
    (header : ∀ r, record.header = some r → r.Within record.nodes.length)
    (labels : ∀ l ∈ record.labels, l.2.Within record.nodes.length) :
    Graph.Sound ⟨record.name, nodes, record.first, record.header, foldLabels record.labels⟩ := by
  refine ⟨?_, ?_, fun n member => ?_, fun l member => ?_, fun n member label own => ?_⟩
  · rw [length]
    exact first
  · rw [length]
    exact header
  · obtain ⟨i, there⟩ := List.mem_iff_getElem?.1 member
    rw [length]
    exact (reads i n there).target
  · obtain ⟨l', inside, rfl⟩ := mem_foldLabels member
    rw [length]
    exact labels l' inside
  · obtain ⟨i, there⟩ := List.mem_iff_getElem?.1 member
    rw [(reads i n there).labels] at own
    obtain ⟨l, kept, rfl⟩ := List.mem_map.1 own
    obtain ⟨inside, here⟩ := List.mem_filter.1 kept
    obtain ⟨k, ref, _⟩ := labels l inside
    rw [ref, Ref.isAt_ofNat] at here
    have same := of_decide_eq_true here
    rw [Graph.nodeByLabel, lookup_foldLabels inside fun l' other lowered =>
      orderly.apart l' other l inside lowered, ref, same, Graph.node?_ofNat, there]

/-- The graph of a record that is in order is sound, unless the record is refused. -/
theorem toGraph_comes {record : GraphRecord} (orderly : record.Orderly)
    (admitted : ∀ r ∈ record.refs, Schema.Admits r) :
    Comes Graph.Sound GraphFault.refuses record.toGraph := by
  have counts (r : Ref) (member : r ∈ record.refs) : ∃ k, r = .ofNat k := by
    obtain counts | ⟨x, rfl⟩ := admitted r member
    · exact counts
    · obtain ⟨i, whole⟩ := orderly.whole _ member
      cases whole
  have inFirst (r : Ref) (there : record.first = some r) : r ∈ record.refs := by
    simp [refs, there]
  have inHeader (r : Ref) (there : record.header = some r) : r ∈ record.refs := by
    simp [refs, there]
  have inLabels (l : String × Ref) (there : l ∈ record.labels) : l.2 ∈ record.refs :=
    List.mem_append_left _ (List.mem_append_right _ (List.mem_map_of_mem there))
  have labelled : Comes (fun _ => ∀ l ∈ record.labels, l.2.Within record.nodes.length)
      GraphFault.refuses
      (record.labels.forM fun l => checkRef record.nodes.length (.label l.1) (some l.2)) := by
    refine Comes.forM fun l member => (checkRef_comes fun r same => ?_).mono fun _ all => all l.2 rfl
    exact counts r (Option.some.inj same ▸ inLabels l member)
  rw [toGraph]
  refine (checkRef_comes fun r there => counts r (inFirst r there)).bind fun _ first => ?_
  refine (checkRef_comes fun r there => counts r (inHeader r there)).bind fun _ header => ?_
  refine labelled.bind fun _ labels => ?_
  refine (arena_comes counts orderly.short).known.bind fun nodes built => ?_
  obtain ⟨arena, length, reads⟩ := built
  have rooted := rooted_of_reads length reads
  obtain ⟨marked, mark⟩ := (mapM_markChoices rooted).1.2 (orderly.shallow nodes arena)
  have made : Graph.ofNodes record.name nodes record.first record.header record.labels
      = .ok ⟨record.name, marked, record.first, record.header, foldLabels record.labels⟩ := by
    rw [Graph.ofNodes, mark]
    rfl
  rw [made]
  have each := mapM_eq_ok.1 mark
  refine sound_of_reads orderly (each.length_eq.symm.trans length) (fun i n there => ?_) first header
    labels
  -- a node of the graph is one that was read, but for the note whether it has choices
  obtain ⟨n₀, before, noted⟩ := forall₂_right each there
  obtain ⟨index, labels, target⟩ := reads i n₀ before
  rw [(Script.markChoices_same noted).1]
  exact ⟨index, labels, target⟩

end GraphRecord

/-- Data whose record is in order either are refused or give a sound graph; nothing else comes of
them. -/
theorem ofForm_sound (data : Json)
    (orderly : ∀ record, Schema.graph? data = some record → record.Orderly) :
    (∃ f, Graph.ofForm data = .error f ∧ f.refuses) ∨ ∃ g, Graph.ofForm data = .ok g ∧ g.Sound := by
  have comes : Comes Graph.Sound GraphFault.refuses (Graph.ofForm data) := by
    rw [Graph.ofForm]
    cases admitted : Schema.graph? data with
    | none => trivial
    | some record =>
      exact GraphRecord.toGraph_comes (orderly record admitted) (Schema.graph?_admits admitted)
  cases made : Graph.ofForm data with
  | error f =>
    rw [made] at comes
    exact .inl ⟨f, rfl, comes⟩
  | ok g =>
    rw [made] at comes
    exact .inr ⟨g, rfl, comes⟩

/-- The saved form of two lines, with labels and what the first line leads to. -/
def twoLines (target : Json) (labels : List (String × Json)) : Json :=
  .object [("version", .int 1), ("name", .text "g"), ("first", .int 0), ("header", .null),
    ("labels", .object labels), ("nodes", .list
      [.object [("type", .text "text"), ("speaker", .text "A"), ("text", .text "hi"),
        ("text_id", .text "a"),
        ("edges", .list [.object [("type", .text "continue"), ("target", target)]])],
      .object [("type", .text "text"), ("speaker", .text "B"), ("text", .text "ho"),
        ("text_id", .text "b"), ("edges", .list [])]])]

/-- Two lines of which the second has a label. -/
theorem ofForm_sound_twoLines :
    (∀ record, Schema.graph? (twoLines (.int 1) [("End", .int 1)]) = some record → record.Orderly)
      ∧ ((∃ f, Graph.ofForm (twoLines (.int 1) [("End", .int 1)]) = .error f ∧ f.refuses)
        ∨ ∃ g, Graph.ofForm (twoLines (.int 1) [("End", .int 1)]) = .ok g ∧ g.Sound) := by
  have orderly : ∀ record, Schema.graph? (twoLines (.int 1) [("End", .int 1)]) = some record →
      record.Orderly := by
    intro record admitted
    have known : Schema.graph? (twoLines (.int 1) [("End", .int 1)]) = some
        ⟨"g", some (.at 0), none, [("End", .at 1)],
          [⟨.text, none, [⟨.continue, some (.at 1), none, none, none, none⟩], some "A", some "hi",
            some "a", none, none, none, none, none⟩,
          ⟨.text, none, [], some "B", some "ho", some "b", none, none, none, none, none⟩]⟩ := by
      rfl
    cases known.symm.trans admitted
    refine ⟨by simp [GraphRecord.refs], by simp, fun nodes built => ?_, by simp [GraphRecord.sources]⟩
    cases built
    -- only the first line leads on, and it leads to a line
    intro line member text start begins
    obtain _ | ⟨_, _ | ⟨_, ⟨⟩⟩⟩ := member
    · cases begins
      decide
    · cases begins
  exact ⟨orderly, ofForm_sound _ orderly⟩

/-- A reference that is written with a decimal point makes loading fail in a way of its own, and of two
labels that clash one is listed on a node that it does not lead to. -/
theorem decimal_target_lost :
    Graph.ofForm (twoLines (.float (.ofUnits false Binary64.unitsOfOne)) [])
        = .error (.lost .notWhole)
      ∧ ¬ GraphFault.refuses (.lost .notWhole)
      ∧ ∃ g, Graph.ofForm (twoLines (.int 1) [("A", .int 0), ("a", .int 1)]) = .ok g ∧ ¬ g.Sound := by
  refine ⟨by decide +kernel, id, ?_⟩
  have clash : ((Graph.ofForm (twoLines (.int 1) [("A", .int 0), ("a", .int 1)])).toOption.any
      fun g => g.nodes.any fun n => n.labels = ["A"] && g.nodeByLabel "A" ≠ .ok (some n)) = true := by
    decide +kernel
  obtain ⟨g, made, clash⟩ := exists_ok_of_any clash
  obtain ⟨n, member, both⟩ := List.any_eq_true.1 clash
  obtain ⟨labels, elsewhere⟩ := Bool.and_eq_true_iff.1 both
  refine ⟨g, made, fun sound => of_decide_eq_true elsewhere (sound.listed n member "A" ?_)⟩
  rw [of_decide_eq_true labels]
  exact List.mem_singleton.2 rfl

end Colloquy
