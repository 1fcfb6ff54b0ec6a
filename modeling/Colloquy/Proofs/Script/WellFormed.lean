import Colloquy.Proofs.Script.Compiled
/-!
# Compiled graphs are well formed

A dialogue follows edges and indexes nodes without looking twice. It can rely on this of every graph
that a script compiles to: nodes know their places, edges lead to nodes of the right part, and every
node has the edges that its kind needs.
-/

namespace Colloquy

namespace Graph

/-- How many nodes the body has: those before the header. -/
def bodyLength (g : Graph) : Nat :=
  match g.header with
  | some (.at i) => i.toNat
  | _ => g.nodes.length

/-- A graph that a dialogue can run on. -/
structure WellFormed (g : Graph) : Prop where
  index : ∀ (i : Nat) (n : Node), g.nodes[i]? = some n → n.index = i
  noGoto : ∀ n ∈ g.nodes, n.kind ≠ .goto
  -- The header stands behind the body.
  body_le : g.bodyLength ≤ g.nodes.length
  header : g.header = if g.bodyLength < g.nodes.length then some (.ofNat g.bodyLength) else none
  header_kind : ∀ (i : Nat) (n : Node), g.bodyLength ≤ i → g.nodes[i]? = some n →
    n.kind = .setVariable
  header_edges : ∀ (i : Nat) (n : Node), g.bodyLength ≤ i → g.nodes[i]? = some n →
    ∀ e ∈ n.edges,
      e.kind = .continue ∧ e.target = some (.ofNat (i + 1)) ∧ i + 1 < g.nodes.length
  body_target : ∀ (i : Nat) (n : Node), i < g.bodyLength → g.nodes[i]? = some n →
    ∀ e ∈ n.edges, ∀ r, e.target = some r → ∃ p, r = .ofNat p ∧ p < g.bodyLength
  step : ∀ (i : Nat) (n : Node), i < g.bodyLength → g.nodes[i]? = some n →
    n.kind = .text ∨ n.kind = .setVariable ∨ n.kind = .event →
      ∃ e, n.edges = [e] ∧ e.kind = .continue
  choice : ∀ n ∈ g.nodes, n.kind = .choice → n.edges ≠ [] ∧ ∀ e ∈ n.edges,
    e.kind = .decision ∨ (e.kind = .chained ∧ ∃ (p : Nat) (m : Node),
      e.target = some (.ofNat p) ∧ g.nodes[p]? = some m ∧ m.kind = .select)
  select : ∀ n ∈ g.nodes, n.kind = .select → n.edges ≠ [] ∧ ∀ e ∈ n.edges,
    e.kind = .condition ∧ e.condition.isSome = true
  label_target : ∀ l ∈ g.labels, ∃ p, l.2 = .ofNat p ∧ p < g.bodyLength
  first : ∀ r, g.first = some r → ∃ p, r = .ofNat p ∧ p < g.bodyLength
  labelled : ∀ (i : Nat) (n : Node), g.nodes[i]? = some n → ∀ name,
    name ∈ n.labels ↔ g.labels.lookup name = some (.ofNat i)

end Graph

namespace Script

section

variable {s : Settings} {name text : String} {b : Builder} {g : Graph}

theorem ofNat_inj {m n : Nat} : Ref.ofNat m = Ref.ofNat n ↔ m = n := by
  constructor
  · intro same
    have := Ref.at.inj same
    omega
  · rintro rfl
    rfl

theorem noGoto_kind {d : Draft} (noGoto : d.gotoLabel? = none) : d.step.kind ≠ .goto := by
  unfold Draft.gotoLabel? at noGoto
  cases step : d.step with
  | goto label =>
    rw [step] at noGoto
    cases noGoto
  | _ => exact fun same => by cases same

namespace ComesOf

theorem bodyLength (comes : ComesOf s name b g) : g.bodyLength = (bodyOf b).length := by
  rw [Graph.bodyLength, comes.header, comes.nodes_length]
  cases empty : b.header.isEmpty with
  | true => simp [List.isEmpty_iff.mp empty]
  | false => simp [Ref.ofNat]

/-- A draft that a node of the body comes of, sound like all of them. -/
theorem sound_body (linked : Linked s text b) (comes : ComesOf s name b g) {p : Nat} {n : Node}
    (there : g.nodes[p]? = some n) (inside : p < (bodyOf b).length) :
    ∃ (i : Nat) (d : Draft), (settleAll b.nodes)[i]? = some d ∧ d.gotoLabel? = none
      ∧ d.Sound (settleAll b.nodes) ∧ Built (bodyNode s b d p) n ∧ n.kind = d.step.kind := by
  obtain ⟨i, d, found, noGoto, _, built⟩ := comes.body there inside
  refine ⟨i, d, found, noGoto, ?_, built, ?_⟩
  · exact settleAll_sheet linked.healthy.sound.sheet d (List.mem_of_getElem? found)
  · rw [built.kind, bodyNode, buildNode_kind]

theorem headerStep_kind (linked : Linked s text b) (comes : ComesOf s name b g) {k : Nat}
    {n : Node} (there : g.nodes[(bodyOf b).length + k]? = some n) :
    n.kind = .setVariable ∧ k < b.header.length
      ∧ n.edges = if k + 1 < b.header.length then
        [{ kind := .continue, target := some (.ofNat ((bodyOf b).length + k + 1)) }] else [] := by
  obtain ⟨d, found, built⟩ := comes.headerStep there
  obtain ⟨_, _, kind⟩ := linked.healthy.header d (List.mem_of_getElem? found)
  refine ⟨?_, (List.getElem?_eq_some_iff.mp found).1, ?_⟩
  · rw [built.kind, headerNode, buildNode_kind, kind]
  · have edges := built.edges
    rw [headerNode, buildNode_edges] at edges
    split
    next more =>
      rw [if_pos more] at edges
      obtain ⟨e, rest, named, none, whole⟩ := List.forall₂_cons_left_iff.mp edges
      cases none
      rw [whole, named.same, named.kept EdgeKind.noConfusion]
    next last =>
      rw [if_neg last] at edges
      exact List.forall₂_nil_left_iff.mp edges

theorem kind_goto {n : Node} {i : Nat} (linked : Linked s text b) (comes : ComesOf s name b g)
    (there : g.nodes[i]? = some n) : n.kind ≠ .goto := by
  by_cases inside : i < (bodyOf b).length
  · obtain ⟨_, d, _, noGoto, _, _, kind⟩ := comes.sound_body linked there inside
    rw [kind]
    exact noGoto_kind noGoto
  · obtain ⟨k, rfl⟩ := Nat.exists_eq_add_of_le (Nat.le_of_not_lt inside)
    rw [(comes.headerStep_kind linked there).1]
    exact NodeKind.noConfusion

/-- The edge of a draft's goto-free target leads to a node of the body. -/
theorem target_of_body {d : Draft} {p : Nat} {n : Node} (linked : Linked s text b)
    (sound : d.Sound (settleAll b.nodes)) (built : Built (bodyNode s b d p) n) {e : Edge}
    (member : e ∈ n.edges) {r : Ref} (target : e.target = some r) :
    ∃ q, r = .ofNat q ∧ q < (bodyOf b).length := by
  obtain ⟨e₀, inside, _, _, _, _, leads⟩ := edge_of_body built member
  rw [target] at leads
  obtain ⟨q, place, rfl⟩ := Option.map_eq_some_iff.mp leads.symm
  refine ⟨q, rfl, newTarget_lt linked (fun i leadsTo => ?_) place⟩
  rw [← settleAll_length]
  exact sound.targets e₀ inside i leadsTo

/-- A chained edge of a draft leads to a select, which is no goto and so keeps its place. -/
theorem select_of_chained (linked : Linked s text b) (comes : ComesOf s name b g) {i : Nat}
    (select : IsSelect (settleAll b.nodes) i) {e₀ : DraftEdge} (leadsTo : e₀.destination = .to i) :
    ∃ (p : Nat) (m : Node), newTarget (settleAll b.nodes) (gotosOf s b) e₀ = some p
      ∧ g.nodes[p]? = some m ∧ m.kind = .select := by
  obtain ⟨d, there, step⟩ := select
  have noGoto : d.gotoLabel? = none := by rw [Draft.gotoLabel?, step]
  obtain ⟨m, found, built⟩ := comes.node_of_draft there noGoto
  refine ⟨_, m, ?_, found, by rw [built.kind, bodyNode, buildNode_kind, step]; rfl⟩
  have bound : i < b.nodes.length := by
    rw [← @settleAll_length b.nodes]
    exact (List.getElem?_eq_some_iff.mp there).1
  obtain ⟨target, leads, place⟩ := newPosition_eq linked bound
  have same : some i = target := Leads.unique (.kept there noGoto) leads
  rw [newTarget, leadsTo]
  simp only
  rw [place, ← same]
  rfl

/-- A node that is no assignment belongs to the body. -/
theorem inside_of_kind (linked : Linked s text b) (comes : ComesOf s name b g) {i : Nat} {n : Node}
    (there : g.nodes[i]? = some n) (kind : n.kind ≠ .setVariable) : i < (bodyOf b).length := by
  by_contra late
  obtain ⟨k, rfl⟩ := Nat.exists_eq_add_of_le (Nat.le_of_not_lt late)
  exact kind (comes.headerStep_kind linked there).1

/-- What a node is called, and what it is labelled with, is its place. -/
theorem place_of_node (comes : ComesOf s name b g) {i : Nat} {n : Node}
    (there : g.nodes[i]? = some n) : n.index = i ∧ n.labels = labelsAt (labelsOf s b) i := by
  obtain ⟨n₀, before, built⟩ := forall₂_right comes.nodes there
  rw [built.index, built.labels]
  by_cases inside : i < (bodyOf b).length
  · rw [plainNodes_body inside] at before
    obtain ⟨d, _, rfl⟩ := Option.map_eq_some_iff.mp before
    exact ⟨buildNode_index _ _ _ _, buildNode_labels _ _ _ _⟩
  · obtain ⟨k, rfl⟩ := Nat.exists_eq_add_of_le (Nat.le_of_not_lt inside)
    rw [plainNodes_header] at before
    obtain ⟨d, _, rfl⟩ := Option.map_eq_some_iff.mp before
    exact ⟨buildNode_index _ _ _ _, buildNode_labels _ _ _ _⟩

theorem labelled (linked : Linked s text b) (comes : ComesOf s name b g) {i : Nat} {n : Node}
    (there : g.nodes[i]? = some n) (label : String) :
    label ∈ n.labels ↔ g.labels.lookup label = some (.ofNat i) := by
  have distinct : (((labelsOf s b).map fun l => (l.1, Ref.ofNat l.2)).map (·.1)).Nodup := by
    rw [List.map_map]
    exact labelsOf_distinct linked
  rw [(comes.place_of_node there).2, comes.labels, lookup_eq_some_iff distinct]
  simp only [labelsAt, List.mem_map, List.mem_filter, decide_eq_true_eq, Prod.mk.injEq, ofNat_inj]
  constructor
  · rintro ⟨l, ⟨member, place⟩, rfl⟩
    exact ⟨l, member, rfl, place⟩
  · rintro ⟨l, member, rfl, place⟩
    exact ⟨l, ⟨member, place⟩, rfl⟩

theorem step_edges (linked : Linked s text b) (comes : ComesOf s name b g) {i : Nat} {n : Node}
    (inside : i < (bodyOf b).length) (there : g.nodes[i]? = some n)
    (kinds : n.kind = .text ∨ n.kind = .setVariable ∨ n.kind = .event) :
    ∃ e, n.edges = [e] ∧ e.kind = .continue := by
  obtain ⟨j, d, found, _, sound, built, kind⟩ := comes.sound_body linked there inside
  have sequential : d.step.isSequential = true := by
    rw [kind] at kinds
    cases step : d.step <;> rw [step] at kinds <;> simp [Step.kind, Step.isSequential] at kinds ⊢
  have single := settleAll_single linked.healthy.sound.sheet found sequential
  have one : n.edges.length = 1 := by
    rw [built.edges_length, bodyNode, buildNode_edges, List.length_map, single]
  obtain ⟨e, edges⟩ := List.length_eq_one_iff.mp one
  refine ⟨e, edges, ?_⟩
  obtain ⟨e₀, member, kindOf, _⟩ := edge_of_body built (edges ▸ List.mem_singleton_self e)
  have suits := sound.edges e₀ member
  rw [kindOf]
  cases step : d.step with
  | text | assign | event =>
    rw [step] at suits
    exact suits.1
  | choice | select | goto =>
    rw [step] at sequential
    cases sequential

/-- A node that branches has an edge, and so has the draft that it comes of. -/
theorem edges_ne_nil (linked : Linked s text b) {i p : Nat} {d : Draft} {n : Node}
    (found : (settleAll b.nodes)[i]? = some d) (branches : Builder.Branches d.step)
    (built : Built (bodyNode s b d p) n) : n.edges ≠ [] := by
  intro empty
  have count := built.edges_length
  rw [empty, bodyNode, buildNode_edges, List.length_map] at count
  exact settleAll_filled linked.healthy.filled i d found branches
    (List.length_eq_zero_iff.mp count.symm)

theorem choice_edges (linked : Linked s text b) (comes : ComesOf s name b g) {n : Node}
    (member : n ∈ g.nodes) (choice : n.kind = .choice) :
    n.edges ≠ [] ∧ ∀ e ∈ n.edges, e.kind = .decision ∨ (e.kind = .chained
      ∧ ∃ (p : Nat) (m : Node), e.target = some (.ofNat p) ∧ g.nodes[p]? = some m
        ∧ m.kind = .select) := by
  obtain ⟨i, there⟩ := List.mem_iff_getElem?.mp member
  have inside := comes.inside_of_kind linked there (by rw [choice]; exact NodeKind.noConfusion)
  obtain ⟨j, d, found, _, sound, built, kind⟩ := comes.sound_body linked there inside
  have step : d.step = .choice := Builder.step_eq_choice (kind ▸ choice)
  refine ⟨edges_ne_nil linked found (Or.inl step) built, fun e within => ?_⟩
  obtain ⟨e₀, own, kindOf, _, _, _, target⟩ := edge_of_body built within
  have suits := sound.edges e₀ own
  rw [step] at suits
  rcases suits with ⟨decision, _⟩ | ⟨chained, _, k, leadsTo, select⟩
  · exact Or.inl (kindOf.trans decision)
  · obtain ⟨p, m, place, leads, isSelect⟩ := comes.select_of_chained linked select leadsTo
    exact Or.inr ⟨kindOf.trans chained, p, m, by rw [target, place]; rfl, leads, isSelect⟩

theorem select_edges (linked : Linked s text b) (comes : ComesOf s name b g) {n : Node}
    (member : n ∈ g.nodes) (select : n.kind = .select) :
    n.edges ≠ [] ∧ ∀ e ∈ n.edges, e.kind = .condition ∧ e.condition.isSome = true := by
  obtain ⟨i, there⟩ := List.mem_iff_getElem?.mp member
  have inside := comes.inside_of_kind linked there (by rw [select]; exact NodeKind.noConfusion)
  obtain ⟨j, d, found, _, sound, built, kind⟩ := comes.sound_body linked there inside
  have step : d.step = .select := by
    rw [kind] at select
    cases step : d.step <;> rw [step] at select <;> first | rfl | cases select
  refine ⟨edges_ne_nil linked found (Or.inr step) built, fun e within => ?_⟩
  obtain ⟨e₀, own, kindOf, condition, _⟩ := edge_of_body built within
  have suits := sound.edges e₀ own
  rw [step] at suits
  obtain ⟨isCondition, ⟨c, some, _⟩, _⟩ := suits
  exact ⟨kindOf.trans isCondition, by rw [condition, some]; rfl⟩

theorem header_eq (comes : ComesOf s name b g) :
    g.header = if g.bodyLength < g.nodes.length then some (.ofNat g.bodyLength) else none := by
  rw [comes.header, comes.bodyLength, comes.nodes_length]
  cases empty : b.header.isEmpty with
  | true => simp [List.isEmpty_iff.mp empty]
  | false =>
    have filled := List.length_pos_iff.mpr (List.isEmpty_eq_false_iff.mp empty)
    rw [if_neg Bool.noConfusion, if_pos (by omega)]

theorem header_edges (linked : Linked s text b) (comes : ComesOf s name b g) {k : Nat} {n : Node}
    (there : g.nodes[(bodyOf b).length + k]? = some n) :
    ∀ e ∈ n.edges, e.kind = .continue ∧ e.target = some (.ofNat ((bodyOf b).length + k + 1))
      ∧ (bodyOf b).length + k + 1 < g.nodes.length := by
  intro e member
  obtain ⟨_, _, edges⟩ := comes.headerStep_kind linked there
  rw [edges] at member
  split at member
  · rw [List.mem_singleton.mp member, comes.nodes_length]
    exact ⟨rfl, rfl, by omega⟩
  · cases member

theorem first_target (linked : Linked s text b) (comes : ComesOf s name b g) {r : Ref}
    (first : g.first = some r) : ∃ p, r = .ofNat p ∧ p < (bodyOf b).length := by
  rw [comes.first] at first
  split at first
  · cases first
  next filled =>
    obtain ⟨p, place, rfl⟩ := Option.map_eq_some_iff.mp first
    refine ⟨p, rfl, newPosition_lt linked ?_ place⟩
    rw [← @settleAll_length b.nodes]
    exact List.length_pos_iff.mpr (by simpa using filled)

/-- The graph of a draft is well formed. -/
theorem wellFormed (linked : Linked s text b) (comes : ComesOf s name b g) : g.WellFormed where
  index _ _ there := (comes.place_of_node there).1
  noGoto n member := by
    obtain ⟨i, there⟩ := List.mem_iff_getElem?.mp member
    exact comes.kind_goto linked there
  body_le := by
    rw [comes.bodyLength, comes.nodes_length]
    exact Nat.le_add_right _ _
  header := comes.header_eq
  header_kind i n late there := by
    rw [comes.bodyLength] at late
    obtain ⟨k, rfl⟩ := Nat.exists_eq_add_of_le late
    exact (comes.headerStep_kind linked there).1
  header_edges i n late there := by
    rw [comes.bodyLength] at late
    obtain ⟨k, rfl⟩ := Nat.exists_eq_add_of_le late
    exact comes.header_edges linked there
  body_target i n inside there e member r target := by
    rw [comes.bodyLength] at inside ⊢
    obtain ⟨_, d, _, _, sound, built, _⟩ := comes.sound_body linked there inside
    exact target_of_body linked sound built member target
  step i n inside there kinds :=
    comes.step_edges linked (by rw [← comes.bodyLength]; exact inside) there kinds
  choice _ member choice := comes.choice_edges linked member choice
  select _ member select := comes.select_edges linked member select
  label_target l member := by
    rw [comes.labels] at member
    obtain ⟨l', inside, rfl⟩ := List.mem_map.mp member
    exact ⟨l'.2, rfl, by rw [comes.bodyLength]; exact labelsOf_lt linked l' inside⟩
  first r first := by
    rw [comes.bodyLength]
    exact comes.first_target linked first
  labelled _ _ there label := comes.labelled linked there label

end ComesOf

end

end Script

end Colloquy
