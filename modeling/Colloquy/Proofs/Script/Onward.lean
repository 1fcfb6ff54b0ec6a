import Colloquy.Proofs.Graph.Sturdy
import Colloquy.Proofs.Script.Falling
import Colloquy.Proofs.Script.Gotos
/-!
# Where branches and blocks lead

Nodes come in the order of their lines, and what waits for a node is tied to one that comes later. So
in a graph the way from a choice to a block and the branches of a select lead onward, except for a
branch that begins with a goto: it leads wherever the label of the goto stands.
-/

namespace Colloquy.Script

/-! ### While lines are read -/

section Read

variable {s : Settings} {lines : List (List Char)} {b : Builder}

theorem grows_of_readScript (read : Builder.readScript s lines = .ok b) :
    Builder.Grows (fun _ _ => True) 0 {} b := by
  obtain ⟨c, first, done⟩ := bind_eq_ok.mp read
  cases done
  have whole : Builder.Proceeds (fun _ _ => True) 0 0 {} c :=
    Builder.Proceeds.readLines Builder.founded_start
      (fun _ _ _ _ _ => ⟨Nat.zero_le _, trivial⟩) first
  exact whole.1.trans (Builder.Grows.finish c lines.length)

theorem onward_of_readScript (read : Builder.readScript s lines = .ok b) {r : EdgeRef}
    {e : DraftEdge} (there : edgeAt b.nodes r = some e) (kind : e.kind ≠ .continue) :
    e.Onward r.node := by
  obtain old | onward := (grows_of_readScript read).stems.onward r e there kind
  · simp [edgeAt] at old
  · exact onward

/-- What is made up to a line comes before what is made on later lines. -/
theorem line_le_of_readScript (read : Builder.readScript s lines = .ok b) {i j : Nat}
    {d d' : Draft} (first : b.nodes[i]? = some d) (second : b.nodes[j]? = some d') (le : i ≤ j) :
    d.line ≤ d'.line := by
  have bound := line_lt_of_read read second
  obtain ⟨c, reading, done⟩ := bind_eq_ok.mp read
  cases done
  obtain ⟨within, rest, toLine, fromLine⟩ :=
    (reaches_of_readLines reading).split (Nat.le_add_left 1 d'.line) (by
      dsimp only
      omega)
  have before : Builder.Proceeds (fun line _ => line ≤ d'.line) 0 0 {} within :=
    toLine.proceeds Builder.founded_start fun l _ early =>
      ⟨Nat.zero_le _, Nat.le_of_lt_succ early⟩
  have after : Builder.Proceeds (fun line _ => d'.line < line) 0 0 within c :=
    fromLine.proceeds before.2 fun l ahead _ => ⟨Nat.zero_le _, number_le_of_bodyFrom ahead⟩
  have grown := after.1.trans (Builder.Grows.finish c lines.length)
  have inside := grown.old_of_place second (Nat.lt_irrefl _)
  obtain ⟨d₀, there, core⟩ := grown.old_core first (Nat.lt_of_le_of_lt le inside)
  rw [Draft.line_eq_of_core core]
  exact before.1.place_of_start there

end Read

/-! ### In the linked draft -/

section Linked

variable {s : Settings} {text name : String} {b : Builder} {g : Graph}

/-- An edge that is settled leads onward if it did before. -/
theorem DraftEdge.Onward.settled {nodes : List Draft} {i : Nat} {e : DraftEdge}
    (onward : e.Onward i) : (settleEdge nodes e).Onward i := by
  obtain ⟨ahead, later⟩ := onward
  unfold settleEdge
  split
  next start left =>
    refine ⟨fun j target => ?_, fun start' left' => ?_⟩
    · exact Nat.lt_of_lt_of_le (later start left) (fallthrough?_spec (elim_end_to target)).1
    · dsimp only at left'
      cases found : fallthrough? nodes start e.reach e.path <;> rw [found] at left' <;> cases left'
  · exact ⟨ahead, later⟩

/-- In the linked draft an option, a branch or the way to a block leads to a later node. -/
theorem Linked.onward (linked : Linked s text b) {i j : Nat} {d : Draft} {e : DraftEdge}
    (there : (settleAll b.nodes)[i]? = some d) (own : e ∈ d.edges) (kind : e.kind ≠ .continue)
    (target : e.destination = .to j) : i < j := by
  rw [settleAll_getElem?] at there
  obtain ⟨d₀, before, rfl⟩ := Option.map_eq_some_iff.mp there
  unfold settleDraft at own
  split at own
  · cases List.mem_singleton.mp own
    exact absurd rfl kind
  · obtain ⟨e₀, member, rfl⟩ := List.mem_map.mp own
    obtain ⟨k, slot⟩ := List.mem_iff_getElem?.mp member
    have isKind := DraftEdge.kind_eq_of_core (@settleEdge_core b.nodes e₀)
    have was : edgeAt b.nodes ⟨i, k⟩ = some e₀ := edgeAt_eq_some.mpr ⟨d₀, before, slot⟩
    exact (onward_of_readScript linked.read was (isKind ▸ kind)).settled.1 j target

/-- Nodes of the linked draft come in the order of their lines. -/
theorem Linked.line_le (linked : Linked s text b) {i j : Nat} {d d' : Draft}
    (first : (settleAll b.nodes)[i]? = some d) (second : (settleAll b.nodes)[j]? = some d')
    (le : i ≤ j) : d.line ≤ d'.line := by
  rw [settleAll_getElem?] at first second
  obtain ⟨d₀, before, rfl⟩ := Option.map_eq_some_iff.mp first
  obtain ⟨d₀', before', rfl⟩ := Option.map_eq_some_iff.mp second
  rw [Draft.line_eq_of_core (settleDraft_core i d₀), Draft.line_eq_of_core (settleDraft_core j d₀')]
  exact line_le_of_readScript linked.read before before' le

/-- A goto that stands for a node stands for the one that its label names. -/
theorem nodeByLabel_of_goto (linked : Linked s text b) (comes : ComesOf s name b g) {j p : Nat}
    {d : Draft} {label : String} (there : (settleAll b.nodes)[j]? = some d)
    (goto : d.gotoLabel? = some label)
    (position : newPosition (settleAll b.nodes) (gotosOf s b) j = some p) :
    g.nodeByLabel label = .ok g.nodes[p]? := by
  have bound : j < b.nodes.length := by
    rw [← @settleAll_length b.nodes]
    exact (List.getElem?_eq_some_iff.mp there).1
  obtain ⟨target, leads, place⟩ := Script.newPosition_eq linked bound
  rw [position] at place
  obtain ⟨t, rfl, rfl⟩ := Option.map_eq_some_iff.mp place.symm
  cases leads with
  | kept there' noGoto =>
    cases there.symm.trans there'
    rw [goto] at noGoto
    cases noGoto
  | @jump _ _ label' next _ there' goto' notEnd declared onward =>
    cases there.symm.trans there'
    cases goto.symm.trans goto'
    have lowered : Text.lower label = label := linked.healthy.labelled.lowered label
      (List.mem_append_left _ (List.mem_map.mpr ⟨_, mem_of_lookup declared, rfl⟩))
    cases next with
    | none => cases onward
    | some k =>
      have inside := linked.healthy.labelled.targets _ (mem_of_lookup declared) k rfl
      obtain ⟨t', leads', place'⟩ := Script.newPosition_eq linked inside
      cases leads'.unique onward
      rw [Graph.nodeByLabel, lowered, lookup_labels linked comes declared, Option.bind_some, place',
        Option.map_some, Option.map_some, Graph.node?_ofNat]

/-! ### In the graph -/

/-- Nodes that stay keep their order. -/
theorem keptBefore_strict {nodes : List Draft} {i j : Nat} {d : Draft} (there : nodes[i]? = some d)
    (noGoto : d.gotoLabel? = none) (less : i < j) : keptBefore nodes i < keptBefore nodes j := by
  have counted : keptBefore nodes (i + 1) = keptBefore nodes i + 1 := by
    rw [keptBefore, keptBefore, List.take_add_one, there, List.countP_append]
    simp [noGoto]
  have more : keptBefore nodes (i + 1) ≤ keptBefore nodes j :=
    (List.take_sublist_take_left less).countP_le
  omega

/-- What leads to a goto, if it is no option and no step, is a branch: a block is not chained to a
choice by a goto. -/
theorem select_of_goto {nodes : List Draft} {d d' : Draft} {e : DraftEdge} {j : Nat} {label : String}
    (sound : d.Sound nodes) (own : e ∈ d.edges) (kind : e.kind = .condition ∨ e.kind = .chained)
    (destination : e.destination = .to j) (there : nodes[j]? = some d')
    (goto : d'.gotoLabel? = some label) : d.step.kind = .select := by
  have suits := sound.edges e own
  cases step : d.step.kind with
  | select => rfl
  | goto =>
    rw [step] at suits
    exact suits.elim
  | choice =>
    rw [step] at suits
    obtain ⟨decision, _⟩ | ⟨_, _, i, leads, select⟩ := suits
    · rw [decision] at kind
      obtain kind | kind := kind <;> cases kind
    · cases destination.symm.trans leads
      rw [Draft.gotoLabel?, Builder.Sound.isSelect_eq select there] at goto
      cases goto
  | _ =>
    rw [step] at suits
    rw [suits.1] at kind
    obtain kind | kind := kind <;> cases kind

/-- A branch of a block that begins with a goto: the line of the goto comes no sooner than that of the
block, and the node that it goes to is the one that its label names. -/
def GoesBy (s : Settings) (text : String) (g : Graph) (select target : Node) : Prop :=
  ∃ l ∈ bodyLines s text, ∃ label line, Statement.read l.body = .goto label
    ∧ g.nodeByLabel label = .ok (some target) ∧ select.line = .ofNat line ∧ line ≤ l.number

/-- An edge of the graph, but the one to the next step, comes of an edge of the draft, and where it leads
has its place there. -/
theorem draft_of_edge (linked : Linked s text b) (comes : ComesOf s name b g) {x y : Node}
    (member : x ∈ g.nodes) {e : Edge} (own : e ∈ x.edges) (other : e.kind ≠ .continue)
    (leads : g.target e = .ok (some y)) :
    ∃ i d e₀ q, (settleAll b.nodes)[i]? = some d ∧ d.gotoLabel? = none ∧ e₀ ∈ d.edges
      ∧ e.kind = e₀.kind ∧ x.kind = d.step.kind ∧ x.line = .ofNat d.line
      ∧ x.index = keptBefore (settleAll b.nodes) i
      ∧ newTarget (settleAll b.nodes) (gotosOf s b) e₀ = some q ∧ g.nodes[q]? = some y := by
  have formed := comes.wellFormed linked
  obtain ⟨p, place⟩ := List.mem_iff_getElem?.mp member
  have inside : p < (bodyOf b).length := by
    rw [← comes.bodyLength]
    by_contra late
    exact other (formed.header_edges p x (Nat.le_of_not_lt late) place e own).1
  obtain ⟨i, d, there, noGoto, count, built⟩ := comes.body place inside
  obtain ⟨e₀, own₀, sameKind, _, _, _, target⟩ := ComesOf.edge_of_body built own
  obtain ⟨r, aimed, found⟩ : ∃ r, e.target = some r ∧ g.node? (some r) = .ok (some y) := by
    cases aimed : e.target with
    | none =>
      rw [Graph.target, aimed] at leads
      cases leads
    | some r => exact ⟨r, rfl, by rw [← aimed]; exact leads⟩
  rw [aimed] at target
  obtain ⟨q, position, rfl⟩ := Option.map_eq_some_iff.mp target.symm
  rw [Graph.node?_ofNat, Except.ok.injEq] at found
  refine ⟨i, d, e₀, q, there, noGoto, own₀, sameKind, ?_, ?_, ?_, position, found⟩
  · rw [built.kind, bodyNode, buildNode_kind]
  · rw [built.line, bodyNode, buildNode_line]
  · rw [formed.index p x place, count]

/-- Ways to blocks and branches lead onward, unless a branch begins with a goto. -/
theorem onward_of_linked (linked : Linked s text b) (comes : ComesOf s name b g) {x y : Node}
    (member : x ∈ g.nodes) {e : Edge} (own : e ∈ x.edges)
    (kind : e.kind = .condition ∨ e.kind = .chained) (leads : g.target e = .ok (some y)) :
    x.index < y.index ∨ x.kind = .select ∧ GoesBy s text g x y := by
  have other : e.kind ≠ .continue := by
    obtain same | same := kind <;> rw [same] <;> exact EdgeKind.noConfusion
  obtain ⟨i, d, e₀, q, there, noGoto, own₀, sameKind, isKind, line, index, target, found⟩ :=
    draft_of_edge linked comes member own other leads
  have sound := settleAll_sheet linked.healthy.sound.sheet d (List.mem_of_getElem? there)
  unfold newTarget at target
  split at target
  next j destination =>
    have less := linked.onward there own₀ (sameKind ▸ other) destination
    obtain ⟨d', there'⟩ : ∃ d', (settleAll b.nodes)[j]? = some d' :=
      ⟨_, List.getElem?_eq_getElem (sound.targets e₀ own₀ j destination)⟩
    -- nodes keep their order, but an edge to a goto is led on to where that goes
    cases goto : d'.gotoLabel? with
    | none =>
      left
      have same : keptBefore (settleAll b.nodes) j = q := by
        simpa [newPosition, there', goto] using target
      rw [index, (comes.wellFormed linked).index q y found, ← same]
      exact keptBefore_strict there noGoto less
    | some label =>
      right
      have branch := select_of_goto sound own₀ (sameKind ▸ kind) destination there' goto
      have named := nodeByLabel_of_goto linked comes there' goto target
      rw [found] at named
      have mark := mem_marks_of_goto (List.mem_of_getElem? there') goto
      rw [marks_settleAll] at mark
      obtain ⟨l, inBody, number, reads⟩ :=
        ((signposted_of_readScript linked.read).gotos _ _).mp mark
      refine ⟨isKind.trans branch, l, inBody, label, d.line, reads, named, line, ?_⟩
      rw [number]
      exact linked.line_le there there' (Nat.le_of_lt less)
  · cases target

end Linked

end Colloquy.Script
