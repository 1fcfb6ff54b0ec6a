import Colloquy.Proofs.Dialogue.Conversation
import Colloquy.Proofs.Script.Choosing
/-!
# The options that a script says

A line that an option list follows offers, in their order, those options of the list all of whose
blocks select their branch: the first one whose condition holds. The draft holds the list as edges of
choices and selects, and the graph has the edges of the draft.
-/

namespace Colloquy.Script

open Direct (Variables)

/-! ### From the draft to the graph -/

section Standing

variable (s : Settings) (b : Builder) (g : Graph)

/-- Whether what stands at a position of the draft becomes a node of the graph. -/
def Becomes (k : Nat) (n : Node) : Prop :=
  ∃ d, (settleAll b.nodes)[k]? = some d ∧ d.gotoLabel? = none
    ∧ g.nodes[keptBefore (settleAll b.nodes) k]? = some n
    ∧ Built (bodyNode s b d (keptBefore (settleAll b.nodes) k)) n

/-- Whether where an edge of the draft leads becomes a node of the graph, or is the end. -/
def Lands : Destination → Option Node → Prop
  | .end, o => o = none
  | .to k, o => ∃ n, o = some n ∧ Becomes s b g k n
  | _, _ => False

end Standing

section Standing

variable {s : Settings} {name : String} {b : Builder} {g : Graph} {k : Nat} {n : Node}

theorem settled_of_draft {d₀ : Draft} (there : b.nodes[k]? = some d₀) :
    ∃ d, (settleAll b.nodes)[k]? = some d ∧ d.step = d₀.step := by
  refine ⟨settleDraft b.nodes k d₀, ?_, Draft.step_eq_of_core (settleDraft_core k d₀)⟩
  rw [settleAll_getElem?, there, Option.map_some]

theorem Becomes.kind (becomes : Becomes s b g k n) {d₀ : Draft} (there : b.nodes[k]? = some d₀) :
    n.kind = d₀.step.kind := by
  obtain ⟨d, settled, _, _, built⟩ := becomes
  obtain ⟨d', same, step⟩ := settled_of_draft there
  cases settled.symm.trans same
  rw [built.kind, bodyNode, buildNode_kind, step]

/-- What is no goto becomes a node. -/
theorem exists_becomes (comes : ComesOf s name b g) {d₀ : Draft} (there : b.nodes[k]? = some d₀)
    (noGoto : ∀ label, d₀.step ≠ .goto label) : ∃ n, Becomes s b g k n := by
  obtain ⟨d, settled, step⟩ := settled_of_draft there
  have kept : d.gotoLabel? = none := by
    unfold Draft.gotoLabel?
    split
    next label goto => exact absurd (step.symm.trans goto) (noGoto label)
    · rfl
  obtain ⟨n, node, built⟩ := comes.node_of_draft settled kept
  exact ⟨n, d, settled, kept, node, built⟩

theorem Becomes.edge (becomes : Becomes s b g k n) {j : Nat} {e₀ : DraftEdge}
    (there : edgeAt b.nodes ⟨k, j⟩ = some e₀) :
    ∃ e, n.edges[j]? = some e ∧ e.kind = e₀.kind ∧ e.condition = e₀.condition ∧ e.text = e₀.text
      ∧ e.params = e₀.params ∧ (e₀.textId ≠ "" → e.textId = e₀.textId)
      ∧ ∀ o, Lands s b g e₀.destination o → Arrives g e o := by
  obtain ⟨d, settled, _, _, built⟩ := becomes
  have linked := edgeAt_settleAll there
  have core := @settleEdge_core b.nodes e₀
  obtain ⟨d', same, slot⟩ := edgeAt_eq_some.mp linked
  cases settled.symm.trans same
  obtain ⟨e, edge, named⟩ := forall₂_left built.edges (i := j) (by
    rw [bodyNode, buildNode_edges, List.getElem?_map, slot, Option.map_some])
  have kind := congrArg DraftEdge.kind core
  have condition := congrArg DraftEdge.condition core
  have text := congrArg DraftEdge.text core
  have params := congrArg DraftEdge.params core
  have textId := congrArg DraftEdge.textId core
  change (settleEdge b.nodes e₀).textId = e₀.textId at textId
  refine ⟨e, edge, ?_, ?_, ?_, ?_, fun given => ?_, fun o lands => ?_⟩
  · rw [named.same]
    exact kind
  · rw [named.same]
    exact condition
  · rw [named.same]
    exact text
  · rw [named.same]
    exact params
  · rw [← textId] at given ⊢
    exact named.given given
  · have target : e.target = (newTarget (settleAll b.nodes) (gotosOf s b)
        (settleEdge b.nodes e₀)).map Ref.ofNat := by
      rw [named.same]
      rfl
    cases leads : e₀.destination with
    | «end» =>
      rw [leads] at lands
      rw [show o = none from lands]
      rw [settleEdge, leads, newTarget, leads] at target
      exact target
    | «to» m =>
      rw [leads] at lands
      obtain ⟨n', rfl, d', there', noGoto, node, _⟩ := lands
      refine ⟨_, ?_, node⟩
      rw [target, settleEdge, leads, newTarget, leads]
      simp [newPosition, there', noGoto]
    | _ =>
      rw [leads] at lands
      cases lands

theorem Becomes.count (becomes : Becomes s b g k n) {count : Nat} (counts : Counts b.nodes k count)
    (settled : ¬ RunsOn b.nodes k) : n.edges.length = count := by
  obtain ⟨d, there, _, _, built⟩ := becomes
  obtain ⟨d', same, length⟩ := counts.mono settleAll_extends fun ⟨d, there, loose⟩ =>
    settled ⟨d, there, (isLoose_iff.mp loose).1⟩
  cases there.symm.trans same
  rw [built.edges_length, bodyNode, buildNode_edges, List.length_map, length]

end Standing

/-! ### What is offered -/

/-- Whether an edge of the graph is the option of a line. -/
structure Line.Makes (l : Line) (e : Edge) : Prop where
  kind : e.kind = .decision
  text : Statement.read l.body = .option e.text
  params : e.params = Template.params e.text
  given : l.textId ≠ "" → e.textId = l.textId

section Offers

variable {g : Graph} {vars : Variables} {e : Edge} {rest out : List Edge}

theorem offers_decision (offers : g.Offers vars (e :: rest) out) (kind : e.kind = .decision) :
    ∃ later, out = e :: later ∧ g.Offers vars rest later := by
  cases offers with
  | decision _ later => exact ⟨_, rfl, later⟩
  | enters other | skips other | chained other | passes other => cases kind.symm.trans other

theorem offers_chained (offers : g.Offers vars (e :: rest) out) (kind : e.kind = .chained)
    {o : Option Node} (leads : g.target e = .ok o) :
    ∃ inside later, out = inside ++ later ∧ g.Offers vars (optionEdges o) inside
      ∧ g.Offers vars rest later := by
  cases offers with
  | chained _ leads' inner later =>
    cases leads.symm.trans leads'
    exact ⟨_, _, rfl, inner, later⟩
  | decision other | enters other | skips other | passes other => cases kind.symm.trans other

theorem offers_condition (offers : g.Offers vars (e :: rest) out) (kind : e.kind = .condition)
    {x : Expression} (condition : e.condition = some x) {o : Option Node}
    (leads : g.target e = .ok o) :
    Direct.holds vars x = .ok true ∧ g.Offers vars (optionEdges o) out
      ∨ Direct.holds vars x = .ok false ∧ g.Offers vars rest out := by
  cases offers with
  | enters _ condition' holds leads' inner =>
    cases condition.symm.trans condition'
    cases leads.symm.trans leads'
    exact .inl ⟨holds, inner⟩
  | skips _ fails later => exact .inr ⟨fails x condition, later⟩
  | decision other | chained other | passes other => cases kind.symm.trans other

end Offers

theorem drop_of_getElem? {α : Type} {l : List α} {j : Nat} {a : α} (there : l[j]? = some a) :
    l.drop j = a :: l.drop (j + 1) := by
  obtain ⟨bound, rfl⟩ := List.getElem?_eq_some_iff.mp there
  exact List.drop_eq_getElem_cons bound

section Tells

variable (s : Settings) (b : Builder) (g : Graph) (vars : Variables)

/-- Whether at the edges of a list first those options are offered that the list selects. -/
def OptionList.Tells (items : OptionList) : Prop :=
  ∀ {k j j' : Nat} {n : Node} {out : List Edge}, items.AddsAt b.nodes k j j' → Becomes s b g k n →
    g.Offers vars (n.edges.drop j) out →
    ∃ chosen inside later, items.selected vars = .ok chosen
      ∧ List.Forall₂ Line.Makes chosen inside ∧ out = inside ++ later
      ∧ g.Offers vars (n.edges.drop j') later

/-- Whether at the edges of branches those options are offered that the branches select. -/
def Branching.Tells (more : Branching) : Prop :=
  ∀ {k j : Nat} {n : Node} {out : List Edge}, IsSelect b.nodes k → more.AddsAt b.nodes k j →
    Becomes s b g k n → g.Offers vars (n.edges.drop j) out →
    ∃ chosen, more.selected vars = .ok chosen ∧ List.Forall₂ Line.Makes chosen out

end Tells

section Cases

variable {s : Settings} {name : String} {b : Builder} {g : Graph} {vars : Variables}
  {items rest : OptionList} {more : Branching} {line : Line} {condition : Expression}

theorem OptionList.Tells.nil : OptionList.Tells s b g vars .nil := by
  intro k j j' n out adds becomes offers
  cases adds
  exact ⟨[], [], out, rfl, .nil, rfl, offers⟩

theorem OptionList.Tells.option {content : List Line} (later : rest.Tells s b g vars) :
    OptionList.Tells s b g vars (.option line content rest) := by
  intro k j j' n out adds becomes offers
  obtain ⟨edge, added⟩ : OptionEdge b.nodes k j line ∧ rest.AddsAt b.nodes k (j + 1) j' := by
    cases adds with
    | option edge added => exact ⟨edge, added⟩
  obtain ⟨e₀, there, kind₀, text₀, textId₀, params₀⟩ := edge
  obtain ⟨e, slot, kind, _, text, params, given, _⟩ := becomes.edge there
  rw [drop_of_getElem? slot] at offers
  obtain ⟨out', rfl, others⟩ := offers_decision offers (kind.trans kind₀)
  obtain ⟨chosen, inside, last, selected, makes, rfl, ahead⟩ := later added becomes others
  have first : line.Makes e := by
    refine ⟨kind.trans kind₀, ?_, ?_, fun filled => ?_⟩
    · rw [text]
      exact text₀
    · rw [params, text]
      exact params₀
    · rw [← textId₀] at filled ⊢
      exact given filled
  refine ⟨line :: chosen, e :: inside, last, ?_, .cons first makes, rfl, ahead⟩
  rw [OptionList.selected, selected]
  rfl

/-- What leads to a list offers what the list selects. -/
theorem OptionList.Tells.enters (comes : ComesOf s name b g) (tells : items.Tells s b g vars)
    {destination : Destination} (enters : items.Enters b.nodes destination) :
    ∃ o, Lands s b g destination o ∧ ∀ out, g.Offers vars (optionEdges o) out →
      ∃ chosen, items.selected vars = .ok chosen ∧ List.Forall₂ Line.Makes chosen out := by
  cases enters with
  | nil =>
    refine ⟨none, rfl, fun out offers => ?_⟩
    cases offers
    exact ⟨[], rfl, .nil⟩
  | @choice _ k n count choice counts adds =>
    have settled := choice.not_runsOn
    obtain ⟨d, there, step, _⟩ := choice
    obtain ⟨root, becomes⟩ := exists_becomes comes there fun label goto => by
      cases step.symm.trans goto
    have kind : root.kind = .choice := by
      rw [becomes.kind there, step]
      rfl
    refine ⟨some root, ⟨root, rfl, becomes⟩, fun out offers => ?_⟩
    have edges : optionEdges (some root) = root.edges.drop 0 := by simp [optionEdges, kind]
    rw [edges] at offers
    obtain ⟨chosen, inside, later, selected, makes, rfl, ahead⟩ := tells adds becomes offers
    -- the choice has no edges after those of the list
    rw [← becomes.count counts settled, List.drop_length] at ahead
    cases ahead
    rw [List.append_nil]
    exact ⟨chosen, selected, makes⟩

/-- An edge of a select offers what its branch selects, or leaves it to the edges after it. -/
theorem offers_branch (comes : ComesOf s name b g) (tells : items.Tells s b g vars) {k j : Nat}
    {n : Node} {destination : Destination} {out : List Edge}
    (edge : BranchEdge b.nodes k j condition destination)
    (enters : items.Enters b.nodes destination) (becomes : Becomes s b g k n)
    (offers : g.Offers vars (n.edges.drop j) out) :
    Direct.holds vars condition = .ok true
        ∧ (∃ chosen, items.selected vars = .ok chosen ∧ List.Forall₂ Line.Makes chosen out)
      ∨ Direct.holds vars condition = .ok false ∧ g.Offers vars (n.edges.drop (j + 1)) out := by
  obtain ⟨e₀, there, kind₀, condition₀, rfl⟩ := edge
  obtain ⟨e, slot, kind, sameCondition, _, _, _, arrives⟩ := becomes.edge there
  obtain ⟨o, lands, told⟩ := tells.enters comes enters
  rw [drop_of_getElem? slot] at offers
  obtain ⟨holds, inner⟩ | ⟨fails, later⟩ := offers_condition offers (kind.trans kind₀)
    (sameCondition.trans condition₀) (node?_of_arrives (arrives o lands))
  · exact .inl ⟨holds, told out inner⟩
  · exact .inr ⟨fails, later⟩

theorem Branching.Tells.endIf : Branching.Tells s b g vars (.endIf line) := by
  intro k j n out isSelect adds becomes offers
  cases adds with
  | endIf counts =>
    rw [← becomes.count counts isSelect.not_runsOn, List.drop_length] at offers
    cases offers
    exact ⟨[], rfl, .nil⟩

theorem Branching.Tells.otherwise {last : Line} (comes : ComesOf s name b g)
    (inside : items.Tells s b g vars) :
    Branching.Tells s b g vars (.otherwise line items last) := by
  intro k j n out _ adds becomes offers
  cases adds with
  | otherwise edge enters =>
    obtain ⟨_, told⟩ | ⟨fails, _⟩ := offers_branch comes inside edge enters becomes offers
    · exact told
    · cases fails

theorem Branching.Tells.elseIf (comes : ComesOf s name b g) (inside : items.Tells s b g vars)
    (others : more.Tells s b g vars) :
    Branching.Tells s b g vars (.elseIf line condition items more) := by
  intro k j n out isSelect adds becomes offers
  cases adds with
  | elseIf edge enters added =>
    obtain ⟨holds, chosen, selected, makes⟩ | ⟨fails, later⟩ :=
      offers_branch comes inside edge enters becomes offers
    · exact ⟨chosen, guarded_eq_ok.mpr (.inl ⟨holds, selected⟩), makes⟩
    · obtain ⟨chosen, selected, makes⟩ := others isSelect added becomes later
      exact ⟨chosen, guarded_eq_ok.mpr (.inr ⟨fails, selected⟩), makes⟩

/-- A block offers what its branches select, before what comes after it in the list. -/
theorem OptionList.Tells.block (comes : ComesOf s name b g) (inside : items.Tells s b g vars)
    (others : more.Tells s b g vars) (later : rest.Tells s b g vars) :
    OptionList.Tells s b g vars (.block line condition items more rest) := by
  intro k j j' n out adds becomes offers
  cases adds with
  | @block _ _ _ _ _ _ _ _ select edge branches added =>
    obtain ⟨isSelect, e₀, there, kind₀, leads₀⟩ := edge
    obtain ⟨d, node, step⟩ := id isSelect
    obtain ⟨e, slot, kind, _, _, _, _, arrives⟩ := becomes.edge there
    obtain ⟨n', becomes'⟩ := exists_becomes comes node fun label goto => by
      cases step.symm.trans goto
    have kind' : n'.kind = .select := by
      rw [becomes'.kind node, step]
      rfl
    have reaches := node?_of_arrives (arrives (some n') (leads₀ ▸ ⟨n', rfl, becomes'⟩))
    rw [drop_of_getElem? slot] at offers
    obtain ⟨first, more, rfl, inner, ahead⟩ :=
      offers_chained offers (kind.trans kind₀) reaches
    have edges : optionEdges (some n') = n'.edges.drop 0 := by simp [optionEdges, kind']
    rw [edges] at inner
    obtain ⟨chosen, selected, makes⟩ :=
      Branching.Tells.elseIf comes inside others isSelect branches becomes' inner
    obtain ⟨chosen', inside', last, selected', makes', rfl, end'⟩ := later added becomes ahead
    refine ⟨chosen ++ chosen', first ++ inside', last, ?_, List.rel_append makes makes',
      (List.append_assoc ..).symm, end'⟩
    rw [Branching.selected] at selected
    rw [OptionList.selected, selected, selected']
    rfl

end Cases

section Whole

variable {s : Settings} {name : String} {b : Builder} {g : Graph} (comes : ComesOf s name b g)
  (vars : Variables)

include comes

mutual

theorem OptionList.tells : ∀ items : OptionList, items.Tells s b g vars
  | .nil => OptionList.Tells.nil
  | .option _ _ rest => OptionList.Tells.option (OptionList.tells rest)
  | .block _ _ items more rest => OptionList.Tells.block comes (OptionList.tells items)
      (Branching.tells more) (OptionList.tells rest)

theorem Branching.tells : ∀ more : Branching, more.Tells s b g vars
  | .endIf _ => Branching.Tells.endIf
  | .otherwise _ items _ => Branching.Tells.otherwise comes (OptionList.tells items)
  | .elseIf _ _ items more => Branching.Tells.elseIf comes (OptionList.tells items)
      (Branching.tells more)

end

end Whole

/-! ### A line and its options -/

/-- The choices of a line that leads straight to a choice are those of that choice. -/
theorem nextChoice_of_choice {nodes : List Node} {line root : Node} {e : Edge} {p : Nat}
    (edges : line.edges = [e]) (target : e.target = some (.ofNat p)) (there : nodes[p]? = some root)
    (kind : root.kind = .choice) : nextChoice nodes line = .ok (some root) := by
  have next : successor nodes line = .ok (some root) := by
    rw [successor, edges]
    dsimp only
    rw [target]
    dsimp only
    rw [follow_ofNat there]
    rfl
  have stays (fuel : Nat) : skipSteps nodes (fuel + 1) (some root) [] = .ok (some root) := by
    simp [skipSteps, kind]
  have sighted : leadsToChoice nodes root = .ok true := by
    rw [leadsToChoice, searchDepth, sightFrom, if_pos kind]
    rfl
  rw [nextChoice, edges, if_neg (by simp), next]
  change (skipSteps nodes (nodes.length + 1 + 1) (some root) [] >>= _) = _
  rw [stays]
  change (leadsToChoice nodes root >>= _) = _
  rw [sighted]
  rfl

section Lines

variable {s : Settings} {name text : String} {c : Compilation} {g : Graph} {vars : Variables}
  {before after : List Line} {t : Line} {items : OptionList} {n : Nat}

/-- In a script without diagnostics a line that an option list follows presents the options that the
list selects. -/
theorem presents_selected (compiled : compile s name text = .ok c) (clean : c.diagnostics = [])
    (graph : c.graph = some g) (lines : bodyLines s text = before ++ t :: (items.lines ++ after))
    (said : t.isSaid = true) (deep : t.indent ≤ n) (written : items.Indented n)
    (filled : items ≠ .nil) (joined : items.isJoined = true) (whole : IsWhole before t n after)
    {line : Node} (member : line ∈ g.nodes) (kind : line.kind = .text)
    (place : line.line = .ofNat t.number) {out : List Edge}
    (presents : g.Presents vars (some line) out) :
    ∃ chosen, items.selected vars = .ok chosen ∧ List.Forall₂ Line.Makes chosen out := by
  have sturdy := sturdy_of_compile compiled graph
  obtain ⟨b, linked, notes, comes⟩ := compile_graph compiled graph
  rw [clean] at notes
  obtain ⟨b₀, same, finishes⟩ := finishes_of_readScript linked.read (List.prefix_nil.mp notes)
  have sorted : (bodyLines s text).Pairwise (·.number < ·.number) := bodyFrom_sorted
  rw [lines] at finishes sorted
  obtain ⟨i, destination, only, ⟨e₀, there, leads⟩, enters⟩ :=
    finishes.behind joined filled written said deep whole same.nodes sorted
  -- the line comes of the node of the draft that leads to the list
  obtain ⟨p, node⟩ := List.mem_iff_getElem?.mp member
  have inside : p < (bodyOf b).length := by
    by_contra outside
    rw [← Nat.add_sub_cancel' (Nat.le_of_not_lt outside)] at node
    have other := (ComesOf.headerStep_kind linked comes node).1
    rw [kind] at other
    cases other
  obtain ⟨j, d, settled, noGoto, rfl, built⟩ := comes.body node inside
  have number : d.line = t.number := by
    rw [built.line, bodyNode, buildNode_line, ofNat_inj] at place
    exact place
  obtain ⟨d₀, drafted, rfl⟩ : ∃ d₀, b.nodes[j]? = some d₀ ∧ settleDraft b.nodes j d₀ = d := by
    rw [settleAll_getElem?] at settled
    exact Option.map_eq_some_iff.mp settled
  rw [Draft.line_eq_of_core (settleDraft_core j d₀)] at number
  obtain rfl := only j d₀ drafted number
  have becomes : Becomes s b g j line := ⟨_, settled, noGoto, node, built⟩
  obtain ⟨o, lands, told⟩ :=
    OptionList.Tells.enters comes (OptionList.tells comes vars items) enters
  obtain ⟨e, slot, _, _, _, _, _, arrives⟩ := becomes.edge there
  have arrives := arrives o (leads ▸ lands)
  cases enters with
  | nil => exact absurd rfl filled
  | choice choice counts adds =>
    obtain ⟨root, rfl, becomes'⟩ := lands
    obtain ⟨q, target, root'⟩ := arrives
    obtain ⟨d₁, drafted', step, _⟩ := choice
    have isChoice : root.kind = .choice := by
      rw [becomes'.kind drafted', step]
      rfl
    obtain ⟨e', edges⟩ := sturdy.text_edges member kind
    rw [edges] at slot
    cases slot
    have found : g.nextChoice line = .ok (some root) :=
      nextChoice_of_choice edges target root' isChoice
    cases presents with
    | only plain _ =>
      obtain ⟨o, found', noted⟩ := sturdy.root line member kind
      cases found.symm.trans found'
      rw [plain] at noted
      cases noted
    | choices _ found' offers =>
      cases found.symm.trans found'
      exact told out offers

/-- In a conversation on the graph of a script without diagnostics, a line that an option list
follows offers, in their order, the options of the list all of whose blocks select their branch: the
first one whose condition holds. -/
theorem choices_are_selected (compiled : compile s name text = .ok c) (clean : c.diagnostics = [])
    (graph : c.graph = some g) (lines : bodyLines s text = before ++ t :: (items.lines ++ after))
    (said : t.isSaid = true) (deep : t.indent ≤ n) (written : items.Indented n)
    (filled : items ≠ .nil) (joined : items.isJoined = true) (whole : IsWhole before t n after)
    {η δ : Type} {host : Host η δ} {first scene : Scene η δ} (quiet : Quiet host first)
    (conversed : Conversed host g first vars scene) {line : Node}
    (current : scene.dialogue.current = some line) (place : line.line = .ofNat t.number) :
    ∃ chosen, items.selected vars = .ok chosen
      ∧ List.Forall₂ Line.Makes chosen scene.dialogue.choices := by
  have sturdy := sturdy_of_compile compiled graph
  obtain ⟨member, kind⟩ := (conversed.reached.onstage sturdy quiet).line line current
  have presents := conversed.presents sturdy quiet
  rw [current] at presents
  exact presents_selected compiled clean graph lines said deep written filled joined whole member
    kind place presents

end Lines

/-- A list with an option before a block and one after it. -/
def listAroundBlock : String :=
  "A: hi\n* one\n    B: x\n[if true]\n    * two\n[else]\n[endif]\n* three\n"

/-- The line before the list. -/
def lineBefore : Line :=
  ⟨1, 0, "A: hi".toList, ""⟩

/-- The items of the list. -/
def itemsAroundBlock : OptionList :=
  .option ⟨2, 0, "* one".toList, ""⟩ [⟨3, 4, "B: x".toList, ""⟩]
    (.block ⟨4, 0, "[if true]".toList, ""⟩ Expression.always
      (.option ⟨5, 4, "* two".toList, ""⟩ [] .nil)
      (.otherwise ⟨6, 0, "[else]".toList, ""⟩ .nil ⟨7, 0, "[endif]".toList, ""⟩)
      (.option ⟨8, 0, "* three".toList, ""⟩ [] .nil))

example : (itemsAroundBlock.selected []).toOption.map (·.map (·.number)) = some [2, 5, 8] := by
  decide +kernel

theorem choices_are_selected_around_block :
    ∃ c g vars scene line, compile .standard "script" listAroundBlock = .ok c
      ∧ c.diagnostics = [] ∧ c.graph = some g
      ∧ bodyLines .standard listAroundBlock = [] ++ lineBefore :: (itemsAroundBlock.lines ++ [])
      ∧ lineBefore.isSaid = true ∧ lineBefore.indent ≤ 0 ∧ itemsAroundBlock.Indented 0
      ∧ itemsAroundBlock ≠ .nil ∧ itemsAroundBlock.isJoined = true ∧ IsWhole [] lineBefore 0 []
      ∧ Quiet (Host.silent 9 9) (Scene.alone g)
      ∧ Conversed (Host.silent 9 9) g (Scene.alone g) vars scene
      ∧ scene.dialogue.current = some line ∧ line.line = .ofNat lineBefore.number
      ∧ ∃ chosen, itemsAroundBlock.selected vars = .ok chosen
        ∧ List.Forall₂ Line.Makes chosen scene.dialogue.choices := by
  have opens : (compile .standard "script" listAroundBlock).toOption.any (fun c =>
      c.diagnostics = [] && c.graph.any fun g => (Scene.opening? (Host.silent 9 9) g).any fun scene =>
        scene.dialogue.current.any fun line => line.line = .ofNat lineBefore.number) = true := by
    decide +kernel
  obtain ⟨c, compiled, opens⟩ := exists_ok_of_any opens
  simp only [Bool.and_eq_true, decide_eq_true_eq, Option.any_eq_true] at opens
  obtain ⟨clean, g, graph, scene, opens, line, current, place⟩ := opens
  obtain ⟨vars, conversed⟩ := opening_conversed opens
  have quiet := alone_quiet 9 9 g
  have lines : bodyLines .standard listAroundBlock
      = [] ++ lineBefore :: (itemsAroundBlock.lines ++ []) := by
    decide +kernel
  have said : lineBefore.isSaid = true := by decide +kernel
  have written : itemsAroundBlock.Indented 0 := by
    refine ⟨rfl, by decide +kernel, by decide, ⟨"true", ⟨rfl, by decide +kernel⟩, by decide +kernel⟩,
      ⟨4, by decide, rfl, by decide +kernel, by decide, trivial⟩, ⟨⟨rfl, by decide +kernel⟩,
      ⟨0, by decide, trivial⟩, rfl, by decide +kernel⟩, rfl, by decide +kernel, by decide, trivial⟩
  have whole : IsWhole [] lineBefore 0 [] := fun l none => by cases none
  have filled : itemsAroundBlock ≠ .nil := OptionList.noConfusion
  exact ⟨c, g, vars, scene, line, compiled, clean, graph, lines, said, by decide, written, filled,
    rfl, whole, quiet, conversed, current, place, choices_are_selected compiled clean graph lines said
      (by decide) written filled rfl whole quiet conversed current place⟩

/-- A list that begins with a block within a block, and an option after it. -/
def listWithinBlocks : String :=
  "A: hi\n[if true]\n    [if true]\n        * x\n            B: p\n    [endif]\n[endif]\n"
    ++ "* y\n    B: q\n"

/-- The items of that list. -/
def itemsWithinBlocks : OptionList :=
  .block ⟨2, 0, "[if true]".toList, ""⟩ Expression.always
    (.block ⟨3, 4, "[if true]".toList, ""⟩ Expression.always
      (.option ⟨4, 8, "* x".toList, ""⟩ [⟨5, 12, "B: p".toList, ""⟩] .nil)
      (.endIf ⟨6, 4, "[endif]".toList, ""⟩) .nil)
    (.endIf ⟨7, 0, "[endif]".toList, ""⟩)
    (.option ⟨8, 0, "* y".toList, ""⟩ [⟨9, 4, "B: q".toList, ""⟩] .nil)

/-- A block at the beginning of a list that does not stand directly before an option hides the
options after it. -/
theorem unjoined_block_hides_option :
    ∃ c g vars scene line, compile .standard "script" listWithinBlocks = .ok c
      ∧ c.diagnostics = [] ∧ c.graph = some g
      ∧ bodyLines .standard listWithinBlocks = [] ++ lineBefore :: (itemsWithinBlocks.lines ++ [])
      ∧ lineBefore.isSaid = true ∧ lineBefore.indent ≤ 0 ∧ itemsWithinBlocks.Indented 0
      ∧ itemsWithinBlocks ≠ .nil ∧ IsWhole [] lineBefore 0 []
      ∧ Quiet (Host.silent 9 9) (Scene.alone g)
      ∧ Conversed (Host.silent 9 9) g (Scene.alone g) vars scene
      ∧ scene.dialogue.current = some line ∧ line.line = .ofNat lineBefore.number
      ∧ ¬ ∃ chosen, itemsWithinBlocks.selected vars = .ok chosen
        ∧ List.Forall₂ Line.Makes chosen scene.dialogue.choices := by
  have opens : (compile .standard "script" listWithinBlocks).toOption.any (fun c =>
      c.diagnostics = [] && c.graph.any fun g => (Scene.opening? (Host.silent 9 9) g).any fun scene =>
        scene.dialogue.choices.length = 1 && scene.dialogue.current.any fun line =>
          line.line = .ofNat lineBefore.number) = true := by
    decide +kernel
  obtain ⟨c, compiled, opens⟩ := exists_ok_of_any opens
  simp only [Bool.and_eq_true, decide_eq_true_eq, Option.any_eq_true] at opens
  obtain ⟨clean, g, graph, scene, opens, single, line, current, place⟩ := opens
  obtain ⟨vars, conversed⟩ := opening_conversed opens
  have filled : itemsWithinBlocks ≠ .nil := OptionList.noConfusion
  have whole : IsWhole [] lineBefore 0 [] := fun l none => by cases none
  refine ⟨c, g, vars, scene, line, compiled, clean, graph, by decide +kernel, by decide +kernel,
    by decide, ?_, filled, whole, alone_quiet 9 9 g, conversed, current, place, ?_⟩
  · refine ⟨⟨"true", ⟨rfl, by decide +kernel⟩, by decide +kernel⟩, ⟨4, by decide,
      ⟨"true", ⟨rfl, by decide +kernel⟩, by decide +kernel⟩, ⟨8, by decide, rfl, by decide +kernel,
      by decide, trivial⟩, ⟨rfl, by decide +kernel⟩, trivial⟩, ⟨rfl, by decide +kernel⟩, rfl,
      by decide +kernel, by decide, trivial⟩
  · rintro ⟨chosen, selected, makes⟩
    cases selected
    cases makes.length_eq.trans single

end Colloquy.Script
