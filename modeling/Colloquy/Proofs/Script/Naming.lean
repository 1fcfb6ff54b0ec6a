import Colloquy.Proofs.Script.WellFormed
import Mathlib.Data.List.Flatten
import Mathlib.Data.List.Nodup
import Mathlib.Data.List.Pairwise
/-!
# Text ids tell texts apart

An id that is made is not in use yet, and of an id that is given twice there is a warning. In a
script without such a warning all ids differ: every line is found by its id, and the table of texts
has one entry for each text that can be translated.
-/

namespace Colloquy

theorem Number.natText_inj {m n : Nat} : Number.natText m = Number.natText n ↔ m = n := by
  constructor
  · intro same
    have digits := String.ofList_inj.mp same
    rw [← @Nat.ofDigitChars_ten_toDigits m, digits, Nat.ofDigitChars_ten_toDigits]
  · rintro rfl
    rfl

namespace Script.TextId

/-! ### Ids that are made -/

theorem candidates_nodup (base : String) (count : Nat) : (candidates base count).Nodup := by
  rw [candidates, List.nodup_cons]
  constructor
  · intro member
    obtain ⟨k, _, same⟩ := List.mem_map.mp member
    have lengths := congrArg (fun s => s.toList.length) same
    simp at lengths
  · refine List.nodup_range.map fun k k' same => ?_
    have tails := congrArg String.toList same
    simp only [String.toList_append] at tails
    have numbers := Number.natText_inj.mp (String.toList_inj.mp (List.append_cancel_left tails))
    omega

/-- There is one candidate more than there are ids in use, so one of them is free. -/
theorem make_not_mem (hash : String → String) (length : Nat) (content : String)
    (used : List String) : make hash length content used ∉ used := by
  let base := String.ofList (((hash content).toList.take length).map Char.toUpper)
  change ((candidates base used.length).find? fun id => !used.contains id).getD base ∉ used
  cases found : (candidates base used.length).find? fun id => !used.contains id with
  | some id => simpa using List.find?_some found
  | none =>
    have taken : candidates base used.length ⊆ used := by
      intro id member
      simpa using List.find?_eq_none.mp found id member
    have room := (List.subperm_of_subset (candidates_nodup base used.length) taken).length_le
    rw [candidates, List.length_cons, List.length_map, List.length_range] at room
    omega

/-! ### Ids one after the other -/

/-- The ids of an edge: that of an option, if it has one. -/
def edgeIds (e : Edge) : List String :=
  if e.kind = .decision ∧ e.textId ≠ "" then [e.textId] else []

/-- The ids of nodes and of their options. -/
def idsOf (nodes : List Node) : List String :=
  (nodes.flatMap Node.strings).map (·.1)

theorem idsOf_cons (n : Node) (nodes : List Node) :
    idsOf (n :: nodes)
      = (if n.textId = "" then [] else [n.textId]) ++ n.edges.flatMap edgeIds ++ idsOf nodes := by
  have options : (n.edges.filterMap fun e =>
      if e.kind = .decision && e.textId ≠ "" then some (e.textId, e.text) else none).map (·.1)
        = n.edges.flatMap edgeIds := by
    induction n.edges with
    | nil => rfl
    | cons e rest ih =>
      rw [List.filterMap_cons, List.flatMap_cons, ← ih, edgeIds]
      by_cases named : e.kind = .decision ∧ e.textId ≠ ""
      · simp [named]
      · simp only [named, if_false, Bool.and_eq_true, decide_eq_true_eq, List.nil_append]
  rw [idsOf, List.flatMap_cons, List.map_append, Node.strings, List.map_append, options]
  by_cases free : n.textId = ""
  · simp [free, idsOf]
  · simp [free, idsOf]

/-- What becomes of ids: those that are `given` are kept, and what is added to them in `ids` was not
among the ids in use, `used`, which are `used'` in the end. -/
structure Issues (given ids used used' : List String) : Prop where
  grows : used ⊆ used'
  taken : given ⊆ used → ids ⊆ used'
  origin : ∀ id ∈ ids, id ∈ given ∨ id ∉ used
  apart : given ⊆ used → given.Nodup → ids.Nodup

namespace Issues

theorem none (used : List String) : Issues [] [] used used :=
  ⟨List.Subset.refl used, fun inUse => inUse, by simp, fun _ distinct => distinct⟩

theorem kept (id : String) (used : List String) : Issues [id] [id] used used :=
  ⟨List.Subset.refl used, fun inUse => inUse, fun _ same => .inl same, fun _ distinct => distinct⟩

theorem fresh {id : String} {used : List String} (free : id ∉ used) :
    Issues [] [id] used (id :: used) := by
  refine ⟨List.subset_cons_self _ _, fun _ => by simp, ?_, fun _ _ => List.nodup_singleton id⟩
  intro id' member
  rw [List.mem_singleton.mp member]
  exact .inr free

theorem append {given given' ids ids' used between used' : List String}
    (first : Issues given ids used between) (second : Issues given' ids' between used') :
    Issues (given ++ given') (ids ++ ids') used used' := by
  refine ⟨List.Subset.trans first.grows second.grows, fun inUse => ?_, ?_, fun inUse distinct => ?_⟩
  · obtain ⟨here, there⟩ := List.append_subset.mp inUse
    exact List.append_subset.mpr ⟨List.Subset.trans (first.taken here) second.grows,
      second.taken (List.Subset.trans there first.grows)⟩
  · intro id member
    rcases List.mem_append.mp member with early | late
    · exact (first.origin id early).imp_left (List.mem_append_left given')
    · exact (second.origin id late).imp (List.mem_append_right given) fun free inUse =>
        free (first.grows inUse)
  · obtain ⟨here, there⟩ := List.append_subset.mp inUse
    obtain ⟨own, others, disjoint⟩ := List.nodup_append.mp distinct
    refine List.nodup_append.mpr ⟨first.apart here own,
      second.apart (List.Subset.trans there first.grows) others, ?_⟩
    -- A later id is in use by then if it is also an earlier one, so both are given.
    rintro id early id' late rfl
    rcases second.origin id late with given | free
    · rcases first.origin id early with given' | free
      · exact disjoint id given' id given rfl
      · exact free (there given)
    · exact free (first.taken here early)

end Issues

section Assign

variable {hash : String → String} {length : Nat} (digests : ∀ content, hash content ≠ "")
  (positive : 0 < length)

include digests positive

theorem assignEdge_issues (e : Edge) (used : List String) :
    Issues (edgeIds e) (edgeIds (assignEdge hash length e used).1) used
      (assignEdge hash length e used).2 := by
  unfold assignEdge
  by_cases option : e.kind = .decision
  · by_cases free : e.textId = ""
    · have made := make_ne_empty digests positive ("\x00" ++ e.text) used
      simpa [edgeIds, option, free, made] using
        Issues.fresh (make_not_mem hash length ("\x00" ++ e.text) used)
    · simpa [edgeIds, option, free] using Issues.kept e.textId used
  · simpa [edgeIds, option] using Issues.none used

theorem assignEdges_issues (edges : List Edge) (used : List String) :
    Issues (edges.flatMap edgeIds) ((assignEdges hash length edges used).1.flatMap edgeIds) used
      (assignEdges hash length edges used).2 := by
  induction edges generalizing used with
  | nil => exact .none used
  | cons e rest ih => exact (assignEdge_issues digests positive e used).append (ih _)

omit digests positive in
/-- A node that has no id and needs one gets it before its options do. -/
theorem assignNode_made {n : Node} {content : String} (free : n.textId = "")
    (needs : content? n = some content) (used : List String) :
    assignNode hash length n used =
      ({ n with
          textId := make hash length content used
          edges := (assignEdges hash length n.edges (make hash length content used :: used)).1 },
        (assignEdges hash length n.edges (make hash length content used :: used)).2) := by
  unfold assignNode
  rw [if_pos free, needs]

omit digests positive in
theorem assignNode_kept {n : Node} (other : n.textId ≠ "" ∨ content? n = none)
    (used : List String) :
    assignNode hash length n used =
      ({ n with edges := (assignEdges hash length n.edges used).1 },
        (assignEdges hash length n.edges used).2) := by
  have nothing : (if n.textId = "" then content? n else none) = none := by
    split
    · exact other.resolve_left (not_not_intro ‹_›)
    · rfl
  unfold assignNode
  rw [nothing]

theorem assignNodes_issues (nodes : List Node) (used : List String) :
    ∃ used', Issues (idsOf nodes) (idsOf (assignNodes hash length nodes used)) used used' := by
  induction nodes generalizing used with
  | nil => exact ⟨used, .none used⟩
  | cons n rest ih =>
    obtain ⟨used', later⟩ := ih (assignNode hash length n used).2
    refine ⟨used', ?_⟩
    rw [assignNodes, idsOf_cons, idsOf_cons]
    refine Issues.append ?_ later
    have options := assignEdges_issues digests positive n.edges
    by_cases free : n.textId = ""
    · cases needs : content? n with
      | some content =>
        have filled := make_ne_empty digests positive content used
        rw [assignNode_made free needs, if_pos free, if_neg filled]
        exact (Issues.fresh (make_not_mem hash length content used)).append (options _)
      | none =>
        rw [assignNode_kept (.inr needs), if_pos free]
        exact (Issues.none used).append (options used)
    · rw [assignNode_kept (.inl free), if_neg free]
      exact (Issues.kept n.textId used).append (options used)

end Assign

/-! ### Ids that are given -/

/-- The warning of an id that is given twice. -/
def repetition (line : Nat) (id : String) : Diagnostic :=
  .warn line ("Text id @" ++ id ++ "@ is used more than once")

/-- Ids of which there is no warning differ from each other and from those before. -/
theorem nodup_of_repeated {used : List String} {given : List (String × Nat)}
    (unique : ∀ line id, repetition line id ∉ repeated used given) :
    (given.map (·.1)).Nodup ∧ ∀ id ∈ given.map (·.1), id ∉ used := by
  induction given generalizing used with
  | nil => exact ⟨List.nodup_nil, fun _ none => by cases none⟩
  | cons g rest ih =>
    obtain ⟨id, line⟩ := g
    rw [repeated] at unique
    have first : id ∉ used := by
      intro again
      refine unique line id ?_
      rw [if_pos (List.contains_iff_mem.mpr again)]
      exact List.mem_cons_self ..
    have fresh : ¬ used.contains id = true := fun again => first (List.contains_iff_mem.mp again)
    rw [if_neg fresh] at unique
    obtain ⟨distinct, apart⟩ := ih unique
    rw [List.map_cons, List.nodup_cons]
    refine ⟨⟨fun again => apart id again (List.mem_cons_self ..), distinct⟩, ?_⟩
    rintro id' (_ | ⟨_, member⟩)
    · exact first
    · exact fun inUse => apart id' member (List.mem_cons_of_mem _ inUse)

theorem options_lined {edges : List Edge} {drafts : List DraftEdge}
    (same : edges.length = drafts.length) :
    edges.flatMap edgeIds = ((edges.zip (drafts.map (·.line))).filterMap fun e =>
      if e.1.kind = .decision && e.1.textId ≠ "" then some (e.1.textId, e.2) else none).map
        (·.1) := by
  induction edges generalizing drafts with
  | nil => rfl
  | cons e rest ih =>
    cases drafts with
    | nil => cases same
    | cons d others =>
      have later := ih (Nat.succ.inj same)
      rw [List.map_cons, List.zip_cons_cons, List.filterMap_cons, List.flatMap_cons, later, edgeIds]
      by_cases named : e.kind = .decision ∧ e.textId ≠ ""
      · simp [named]
      · simp only [named, if_false, Bool.and_eq_true, decide_eq_true_eq, List.nil_append]

/-- The ids of nodes are among those that the script gives, as long as each option has a line. -/
theorem idsOf_sublist {nodes : List Node} {drafts : List Draft}
    (lined : List.Forall₂ (fun n d =>
      n.edges.length = d.edges.length ∨ ∀ e ∈ n.edges, e.kind ≠ .decision) nodes drafts) :
    (idsOf nodes).Sublist (((nodes.zip drafts).flatMap fun n =>
      explicit n.1 (sourceLines n.2).1 (sourceLines n.2).2).map (·.1)) := by
  induction lined with
  | nil => exact List.nil_sublist _
  | @cons n d nodes drafts lines _ ih =>
    rw [List.zip_cons_cons, List.flatMap_cons, List.map_append, idsOf_cons]
    refine List.Sublist.append ?_ ih
    unfold explicit
    rw [List.map_append]
    refine List.Sublist.append ?_ ?_
    · by_cases free : n.textId = "" <;> simp [free]
    · rcases lines with same | plain
      · exact options_lined same ▸ List.Sublist.refl _
      · have none : n.edges.flatMap edgeIds = [] :=
          List.flatMap_eq_nil_iff.mpr fun e member => by simp [edgeIds, plain e member]
        rw [none]
        exact List.nil_sublist _

end Script.TextId

namespace Script

open TextId

variable {hash : String → String} {s : Settings} {name text : String} {c : Compilation} {g : Graph}

/-- What a graph notes of choices changes no ids. -/
theorem idsOf_marked {plain nodes all : List Node}
    (marked : List.Forall₂ (fun n n' => Graph.markChoices all n = .ok n') plain nodes) :
    idsOf nodes = idsOf plain := by
  induction marked with
  | nil => rfl
  | @cons n n' _ _ first _ ih =>
    obtain ⟨same, _⟩ := markChoices_same first
    have id : n'.textId = n.textId := by rw [same]
    have edges : n'.edges = n.edges := by rw [same]
    rw [idsOf_cons, idsOf_cons, id, edges, ih]

theorem plainNodes_lined (s : Settings) (b : Builder) :
    List.Forall₂ (fun n d => n.edges.length = d.edges.length ∨ ∀ e ∈ n.edges, e.kind ≠ .decision)
      (plainNodes s b) (kept (settleAll b.nodes) ++ b.header) := by
  refine List.rel_append (forall₂_mapIdx_self _ fun i d => ?_) (forall₂_mapIdx_self _ fun k d => ?_)
  · left
    rw [buildNode_edges, List.length_map]
  · right
    rw [buildNode_edges]
    intro e member
    split at member
    · rw [List.mem_singleton.mp member]
      exact EdgeKind.noConfusion
    · cases member

/-- Without a warning of an id given twice all ids of a graph differ. -/
theorem idsOf_nodup (digests : ∀ content, hash content ≠ "")
    (compiled : compileWith hash s name text = .ok c) (graph : c.graph = some g)
    (unique : ∀ line id, repetition line id ∉ c.diagnostics) : (idsOf g.nodes).Nodup := by
  obtain ⟨b, linked, _, warned, made⟩ := compileWith_graph compiled graph
  obtain ⟨_, _, _, _, marked⟩ := ofNodes_eq_ok made
  obtain ⟨distinct, _⟩ := nodup_of_repeated fun line id member =>
    unique line id (warned (List.mem_append_left _ member))
  have positive : 0 < s.textIdLength := Nat.lt_of_lt_of_le (by decide) s.id_range.1
  have given := idsOf_sublist (plainNodes_lined s b)
  obtain ⟨_, issues⟩ := assignNodes_issues digests positive (plainNodes s b)
    ((givenOf s b).map (·.1)).reverse
  rw [idsOf_marked marked]
  exact issues.apart (fun id inside => List.mem_reverse.mpr (given.subset inside))
    (distinct.sublist given)

/-- Where all ids differ, a node is known by the ids that it brings. -/
theorem eq_of_shared_id {nodes : List Node} (distinct : (idsOf nodes).Nodup) {m n : Node}
    (first : m ∈ nodes) (second : n ∈ nodes) (named : n.textId ≠ "")
    (same : m.textId = n.textId) : m = n := by
  rw [idsOf, List.map_flatMap] at distinct
  have apart := (List.nodup_flatMap.mp distinct).2
  by_contra other
  have symm : Std.Symm (Function.onFun List.Disjoint fun k : Node => k.strings.map (·.1)) :=
    ⟨fun _ _ => List.disjoint_symm⟩
  have disjoint := apart.forall first second other
  have own : ∀ k : Node, k.textId = n.textId → n.textId ∈ k.strings.map (·.1) := by
    intro k id
    simp [Node.strings, id, named]
  exact disjoint (own m same) (own n rfl)

/-- In a script without a warning of an id given twice every line has an id and is found by it. -/
theorem nodeByTextId_of_compile (digests : ∀ content, hash content ≠ "")
    (compiled : compileWith hash s name text = .ok c) (graph : c.graph = some g)
    (unique : ∀ line id, repetition line id ∉ c.diagnostics) {n : Node} (member : n ∈ g.nodes)
    (line : n.kind = .text) : n.textId ≠ "" ∧ g.nodeByTextId n.textId = some n := by
  have named : n.textId ≠ "" := by
    obtain ⟨b, _, _, comes⟩ := compileWith_comes digests compiled graph
    obtain ⟨i, there⟩ := List.mem_iff_getElem?.mp member
    obtain ⟨n₀, _, built⟩ := forall₂_right comes.nodes there
    refine built.filled ?_
    rw [content?, ← built.kind, line]
    exact Option.some_ne_none _
  refine ⟨named, ?_⟩
  unfold Graph.nodeByTextId
  cases found : g.nodes.reverse.find? fun m => m.kind = .text && m.textId = n.textId with
  | none =>
    have absent := List.find?_eq_none.mp found n (List.mem_reverse.mpr member)
    simp [line] at absent
  | some m =>
    have test := List.find?_some found
    simp only [Bool.and_eq_true, decide_eq_true_eq] at test
    have other : m ∈ g.nodes := List.mem_reverse.mp (List.mem_of_find?_eq_some found)
    exact congrArg some (eq_of_shared_id (idsOf_nodup digests compiled graph unique) other member
      named test.2)

end Script

/-! ### Texts that can be translated -/

namespace Node

/-- The text that a node sets a variable to, if it sets it to a text literal. -/
def literalText? (n : Node) : Option String :=
  if n.kind = .setVariable then
    match n.expression.bind Expression.literal? with
    | some (Value.text t) => some t
    | _ => none
  else none

/-- What a node says or sets a variable to, an empty literal apart, with its id. -/
def ownTexts (n : Node) : List (String × String) :=
  if n.kind = .text then [(n.textId, n.text)]
  else
    match n.literalText? with
    | some t => if t = "" then [] else [(n.textId, t)]
    | none => []

/-- The options of a node with their ids. -/
def optionTexts (n : Node) : List (String × String) :=
  (n.edges.filter (·.kind = .decision)).map fun e => (e.textId, e.text)

/-- All that can be translated of a node, with its ids. -/
def translatable (n : Node) : List (String × String) :=
  n.ownTexts ++ n.optionTexts

/-- What the ids of a node tell: a line and an option have one, an assignment of a text literal has
one unless that is empty, when it may have one, and nothing else has one. -/
structure Told (n : Node) : Prop where
  line : n.kind = .text → n.textId ≠ ""
  literal : ∀ t, n.literalText? = some t → n.text = t ∧ (t ≠ "" → n.textId ≠ "")
  other : n.kind ≠ .text → n.literalText? = none → n.textId = ""
  options : ∀ e ∈ n.edges, e.kind = .decision → e.textId ≠ ""

namespace Told

variable {n : Node}

theorem named (told : n.Told) : ∀ t ∈ n.translatable, t.1 ≠ "" := by
  intro t member
  rcases List.mem_append.mp member with own | option
  · unfold ownTexts at own
    split at own
    next line =>
      rw [List.mem_singleton.mp own]
      exact told.line line
    next =>
      split at own
      next t' literal =>
        split at own
        · cases own
        next filled =>
          rw [List.mem_singleton.mp own]
          exact (told.literal t' literal).2 filled
      next => cases own
  · obtain ⟨e, inside, rfl⟩ := List.mem_map.mp option
    obtain ⟨edge, decision⟩ := List.mem_filter.mp inside
    exact told.options e edge (of_decide_eq_true decision)

/-- The texts of a node are those that can be translated and, if it has an id, an empty literal. -/
theorem strings_eq (told : n.Told) :
    n.strings = (if n.textId ≠ "" ∧ n.literalText? = some "" then [(n.textId, "")] else [])
      ++ n.translatable := by
  have options : (n.edges.filterMap fun e =>
      if e.kind = .decision && e.textId ≠ "" then some (e.textId, e.text) else none)
        = n.optionTexts := by
    rw [optionTexts, ← List.filterMap_eq_map, List.filterMap_filter]
    refine List.filterMap_congr fun e member => ?_
    by_cases decision : e.kind = .decision
    · simp [decision, told.options e member decision]
    · simp [decision]
  rw [Node.strings, options, translatable, ← List.append_assoc]
  refine congrArg (· ++ n.optionTexts) ?_
  unfold ownTexts
  by_cases line : n.kind = .text
  · have noLiteral : n.literalText? = none := by simp [literalText?, line]
    simp [line, told.line line, noLiteral]
  · cases literal : n.literalText? with
    | none => simp [line, told.other line literal]
    | some t =>
      obtain ⟨rfl, filled⟩ := told.literal t literal
      by_cases empty : n.text = ""
      · by_cases free : n.textId = "" <;> simp [line, empty, free]
      · simp [line, empty, filled empty]

end Told

end Node

namespace Script

variable {hash : String → String} {s : Settings} {name text : String} {c : Compilation} {g : Graph}

/-- What a node sets its variable to is what its draft does. -/
theorem literalText?_buildNode (labels : List (String × Nat)) (i : Nat) {d : Draft}
    (edges : List Edge) (sound : d.step.Sound) :
    (∀ t, (buildNode labels i d edges).literalText? = some t →
      (buildNode labels i d edges).text = t ∧ (buildNode labels i d edges).kind = .setVariable)
    ∧ ((buildNode labels i d edges).kind ≠ .text →
      (buildNode labels i d edges).literalText? = none →
      (buildNode labels i d edges).textId = ""
        ∧ TextId.content? (buildNode labels i d edges) = none) := by
  unfold buildNode
  cases step : d.step with
  | assign name e text textId =>
    rw [step] at sound
    have translates := sound.2.2
    unfold Step.Translates at translates
    cases value : e.literal? with
    | none =>
      rw [value] at translates
      simp [Node.literalText?, TextId.content?, Step.kind, value, translates]
    | some v =>
      rw [value] at translates
      cases v <;> simp [Node.literalText?, TextId.content?, Step.kind, value, translates]
  | text => simp [Node.literalText?, Step.kind]
  | choice | select | event | goto => simp [Node.literalText?, TextId.content?, Step.kind]

/-- A node of a graph tells what it should if its draft is sound. -/
theorem Built.told {n₀ n : Node} {labels : List (String × Nat)} {i : Nat} {d : Draft}
    {edges : List Edge} (built : Built n₀ n) (node : n₀ = buildNode labels i d edges)
    (sound : d.step.Sound) : n.Told := by
  have literal : n.literalText? = n₀.literalText? := by rw [built.same]; rfl
  have text : n.text = n₀.text := by rw [built.same]
  obtain ⟨assigned, others⟩ := node ▸ literalText?_buildNode labels i edges sound
  refine ⟨fun line => built.filled ?_, fun t set => ?_, fun noLine noLiteral => ?_, ?_⟩
  · rw [TextId.content?, ← built.kind, line]
    exact Option.some_ne_none _
  · obtain ⟨own, kind⟩ := assigned t (literal ▸ set)
    refine ⟨text.trans own, fun filled => built.filled ?_⟩
    rw [TextId.content?, kind, own]
    simp [filled]
  · obtain ⟨free, nothing⟩ := others (built.kind ▸ noLine) (literal ▸ noLiteral)
    rw [built.kept nothing, free]
  · intro e member decision
    obtain ⟨k, there⟩ := List.mem_iff_getElem?.mp member
    obtain ⟨e₀, _, named⟩ := built.edge_right there
    refine named.filled ?_
    rw [← decision, named.same]

/-- Every node of a graph tells what it should. -/
theorem ComesOf.told {b : Builder} (linked : Linked s text b) (comes : ComesOf s name b g)
    {n : Node} (member : n ∈ g.nodes) : n.Told := by
  obtain ⟨i, there⟩ := List.mem_iff_getElem?.mp member
  by_cases inside : i < (bodyOf b).length
  · obtain ⟨_, d, _, _, sound, built, _⟩ := comes.sound_body linked there inside
    exact built.told rfl sound.step
  · obtain ⟨k, rfl⟩ := Nat.exists_eq_add_of_le (Nat.le_of_not_lt inside)
    obtain ⟨d, found, built⟩ := comes.headerStep there
    exact built.told rfl (linked.healthy.header d (List.mem_of_getElem? found)).2.1

/-- In a script without a warning of an id given twice, all that can be translated has an id of its
own. The table of texts has just these ids, each with its text, and those that empty literals were
given, and every line is found by its id. -/
theorem ids_apart_of_compile (digests : ∀ content, hash content ≠ "")
    (compiled : compileWith hash s name text = .ok c) (graph : c.graph = some g)
    (unique : ∀ line id, TextId.repetition line id ∉ c.diagnostics) :
    (∀ t ∈ g.nodes.flatMap Node.translatable, t.1 ≠ "")
      ∧ ((g.nodes.flatMap Node.translatable).map (·.1)).Nodup
      ∧ (g.strings.map (·.1)).Nodup
      ∧ (∀ id t, (id, t) ∈ g.strings ↔ (id, t) ∈ g.nodes.flatMap Node.translatable
        ∨ (t = "" ∧ id ≠ "" ∧ ∃ n ∈ g.nodes, n.literalText? = some "" ∧ n.textId = id))
      ∧ ∀ n ∈ g.nodes, n.kind = .text → g.nodeByTextId n.textId = some n := by
  obtain ⟨b, linked, _, comes⟩ := compileWith_comes digests compiled graph
  have told : ∀ n ∈ g.nodes, n.Told := fun n member => comes.told linked member
  have distinct := idsOf_nodup digests compiled graph unique
  have table : g.strings = g.nodes.flatMap Node.strings := by
    have entries : (g.nodes.flatMap Node.strings).foldl (fun table e => setEntry table e.1 e.2) []
        = [] ++ (g.nodes.flatMap Node.strings).map fun e => (e.1, e.2) :=
      foldl_setEntry_of_nodup (fun e : String × String => e.1) (fun e => e.2) distinct
    rw [Graph.strings, setEntries, entries]
    simp
  refine ⟨?_, ?_, ?_, ?_, ?_⟩
  · intro t member
    obtain ⟨n, inside, own⟩ := List.mem_flatMap.mp member
    exact (told n inside).named t own
  · -- What can be translated is part of the texts, whose ids differ.
    refine distinct.sublist (List.Sublist.map _ (List.Sublist.flatMap_right _ ?_))
    intro n member
    rw [(told n member).strings_eq]
    exact List.sublist_append_right _ _
  · rw [table]
    exact distinct
  · intro id t
    rw [table, List.mem_flatMap, List.mem_flatMap]
    constructor
    · rintro ⟨n, member, own⟩
      rw [(told n member).strings_eq] at own
      rcases List.mem_append.mp own with empty | translated
      · split at empty
        next marked =>
          cases List.mem_singleton.mp empty
          exact .inr ⟨rfl, marked.1, n, member, marked.2, rfl⟩
        · cases empty
      · exact .inl ⟨n, member, translated⟩
    · rintro (⟨n, member, translated⟩ | ⟨rfl, given, n, member, empty, rfl⟩)
      · refine ⟨n, member, ?_⟩
        rw [(told n member).strings_eq]
        exact List.mem_append_right _ translated
      · refine ⟨n, member, ?_⟩
        rw [(told n member).strings_eq, if_pos ⟨given, empty⟩]
        exact List.mem_append_left _ (List.mem_singleton_self _)
  · intro n member line
    exact (nodeByTextId_of_compile digests compiled graph unique member line).2

/-- With one digest for all contents, and an id given to a line that is the next to be made: lines,
options and assignments, in the header too, with an empty literal that was given an id. -/
theorem ids_apart_of_one_digest :
    ∃ c g, compileWith (fun _ => "ab") .standard "script"
        "===\n[set x \"\"] @E@\n===\nA: hi @AB_2@\nB: hi\n* go\n* go\n  [set n = \"on\"]" = .ok c
      ∧ c.graph = some g ∧ g.strings = [("AB_2", "hi"), ("AB", "hi"), ("AB_3", "go"),
        ("AB_4", "go"), ("AB_5", "on"), ("E", "")]
      ∧ (∀ t ∈ g.nodes.flatMap Node.translatable, t.1 ≠ "")
      ∧ ((g.nodes.flatMap Node.translatable).map (·.1)).Nodup
      ∧ (g.strings.map (·.1)).Nodup
      ∧ (∀ id t, (id, t) ∈ g.strings ↔ (id, t) ∈ g.nodes.flatMap Node.translatable
        ∨ (t = "" ∧ id ≠ "" ∧ ∃ n ∈ g.nodes, n.literalText? = some "" ∧ n.textId = id))
      ∧ ∀ n ∈ g.nodes, n.kind = .text → g.nodeByTextId n.textId = some n := by
  have gives : ((compileWith (fun _ => "ab") .standard "script"
      "===\n[set x \"\"] @E@\n===\nA: hi @AB_2@\nB: hi\n* go\n* go\n  [set n = \"on\"]").toOption.any
        fun c => c.diagnostics = [] && c.graph.any fun g =>
          g.strings = [("AB_2", "hi"), ("AB", "hi"), ("AB_3", "go"), ("AB_4", "go"), ("AB_5", "on"),
            ("E", "")]) = true := by
    decide +kernel
  obtain ⟨c, compiled, gives⟩ := exists_ok_of_any gives
  obtain ⟨silent, gives⟩ := Bool.and_eq_true_iff.1 gives
  obtain ⟨g, graph, table⟩ := (Option.any_eq_true _ _).1 gives
  have unique : ∀ line id, TextId.repetition line id ∉ c.diagnostics := by
    rw [of_decide_eq_true silent]
    exact fun _ _ none => by cases none
  exact ⟨c, g, compiled, graph, of_decide_eq_true table,
    ids_apart_of_compile (fun _ => by decide) compiled graph unique⟩

end Script

end Colloquy
