import Colloquy.Proofs.Graph.Sturdy
/-!
# Blocks that mix choices with other steps

A script is warned of every block of which one branch begins with a choice and another one with a
step of another kind. So without such a warning the branches of a select lead to choices all, or not
at all. A branch that begins with a block of its own is no choice: what stands in there is not looked
at.
-/

namespace Colloquy

/-- If one branch of a select leads to a choice all of them do, but for those that lead to the end. -/
def Graph.Unmixed (g : Graph) : Prop :=
  ∀ x ∈ g.nodes, x.kind = .select →
    ∀ e ∈ x.edges, ∀ m, g.target e = .ok (some m) → m.kind = .choice →
    ∀ e' ∈ x.edges, ∀ m', g.target e' = .ok (some m') → m'.kind = .choice

/-- A select shows by its own branches what stands behind it: one of them leads to a choice, or none
to anything but a select. -/
def Graph.Overt (g : Graph) (x : Node) : Prop :=
  (∃ e ∈ x.edges, ∃ m, g.target e = .ok (some m) ∧ m.kind = .choice)
    ∨ ∀ e ∈ x.edges, ∀ m, g.target e = .ok (some m) → m.kind = .select

/-- Whether every select of a graph is overt. -/
def Graph.isOvert (g : Graph) : Bool :=
  let leads (kind : NodeKind) (e : Edge) (whenEnded : Bool) : Bool :=
    (g.target e).toOption.any fun o => o.elim whenEnded (·.kind = kind)
  g.nodes.all fun x => x.kind ≠ .select || x.edges.any (leads .choice · false)
    || x.edges.all (leads .select · true)

theorem Graph.overt_of_isOvert {g : Graph} (overt : g.isOvert = true) {x : Node}
    (member : x ∈ g.nodes) (select : x.kind = .select) : g.Overt x := by
  have here := List.all_eq_true.1 overt x member
  simp only [select, ne_eq, not_true_eq_false, decide_false, Bool.false_or, Bool.or_eq_true] at here
  refine here.imp (fun some => ?_) fun all e own m leads => ?_
  · obtain ⟨e, own, found⟩ := List.any_eq_true.1 some
    cases leads : g.target e with
    | error f =>
      rw [leads] at found
      cases found
    | ok o =>
      rw [leads] at found
      cases o with
      | none => cases found
      | some m => exact ⟨e, own, m, leads, of_decide_eq_true found⟩
  · have there := List.all_eq_true.1 all e own
    rw [leads] at there
    exact of_decide_eq_true there

/-- The branches of an overt select lead to choices all, or to selects all. -/
theorem Graph.Overt.branches {g : Graph} {x : Node} (overt : g.Overt x) (unmixed : g.Unmixed)
    (member : x ∈ g.nodes) (select : x.kind = .select) {e : Edge} (own : e ∈ x.edges) {m : Node}
    (leads : g.target e = .ok (some m)) : m.kind = .choice ∨ m.kind = .select := by
  obtain ⟨e', own', m', leads', choice⟩ | selects := overt
  · exact .inl (unmixed x member select e' own' m' leads' choice e own m leads)
  · exact .inr (selects e own m leads)

namespace Script

/-- The warning of a block that mixes choices with other steps. -/
def mixing (line : Nat) : Diagnostic :=
  .warn line ("[if] block mixes choices with other lines, "
    ++ "choices are only shown when every branch leads to them")

theorem mixing_mem {nodes : List Node} {lines : List Nat} (same : nodes.length = lines.length)
    {i : Nat} {n : Node} (there : nodes[i]? = some n) (mixed : isMixed nodes n = true) :
    ∃ line, mixing line ∈ mixedWarnings nodes lines := by
  obtain ⟨bound, rfl⟩ := List.getElem?_eq_some_iff.1 there
  have paired : (nodes[i], lines[i]) ∈ nodes.zip lines := by
    refine List.mem_of_getElem? (i := i) ?_
    rw [List.getElem?_zip_eq_some]
    exact ⟨there, List.getElem?_eq_getElem _⟩
  exact ⟨lines[i], List.mem_map.2 ⟨_, List.mem_filter.2 ⟨paired, mixed⟩, rfl⟩⟩

/-- Where an edge of the graph leads, its source and its target stand in the arena that the graph was
made of. -/
theorem mem_targets {nodes : List Node} {g : Graph} (rooted : Rooted g.nodes)
    (marked : List.Forall₂ (fun n n' => Graph.markChoices nodes n = .ok n') nodes g.nodes)
    {x : Node} (member : x ∈ g.nodes) {e : Edge} (own : e ∈ x.edges) {m : Node}
    (leads : g.target e = .ok (some m)) :
    ∃ m₀, m₀.kind = m.kind ∧ m₀ ∈ x.edges.filterMap fun e =>
      match e.target with
      | some (.at i) => nodes[i.toNat]?
      | _ => none := by
  cases target : e.target with
  | none =>
    rw [Graph.target, target] at leads
    cases leads
  | some r =>
    obtain ⟨p, m', rfl, there⟩ := rooted.target x member e own r target
    rw [Graph.target, target, Graph.node?_ofNat, there] at leads
    cases leads
    obtain ⟨m₀, before, mark⟩ := forall₂_right marked there
    refine ⟨m₀, (alike_of_marked mark).kind.symm, List.mem_filterMap.2 ⟨e, own, ?_⟩⟩
    rw [target]
    exact before

/-- A graph of an arena in which no select is mixed. -/
theorem unmixed_of_ofNodes {name : String} {nodes : List Node} {first header : Option Ref}
    {labels : List (String × Ref)} {g : Graph}
    (made : Graph.ofNodes name nodes first header labels = .ok g) (rooted : Rooted nodes)
    (clean : ∀ n ∈ nodes, isMixed nodes n = false) : g.Unmixed := by
  have marked := (ofNodes_eq_ok made).2.2.2.2
  have rooted' := (navigable_of_ofNodes made rooted).rooted
  intro x member select e own m leads choice e' own' m' leads'
  by_contra other
  obtain ⟨i, there⟩ := List.mem_iff_getElem?.1 member
  -- marking the lines with choices changed neither the kind of the select nor its edges
  obtain ⟨x₀, before, mark⟩ := forall₂_right marked there
  have same := (markChoices_same mark).1
  have edges : x₀.edges = x.edges := by rw [same]
  have kind : x₀.kind = .select := by rw [← select, same]
  obtain ⟨m₀, kind₀, inside⟩ := mem_targets rooted' marked member own leads
  obtain ⟨m₁, kind₁, inside'⟩ := mem_targets rooted' marked member own' leads'
  have mixed : isMixed nodes x₀ = true := by
    rw [isMixed, kind, edges, Bool.and_eq_true, Bool.and_eq_true, List.any_eq_true, List.any_eq_true]
    refine ⟨⟨rfl, m₀, inside, decide_eq_true (kind₀.trans choice)⟩, m₁, inside', ?_⟩
    exact decide_eq_true (kind₁ ▸ other)
  rw [clean x₀ (List.mem_of_getElem? before)] at mixed
  cases mixed

/-- A script that is not warned of a mixed block compiles to a graph without one. -/
theorem unmixed_of_compile {s : Settings} {name text : String} {c : Compilation} {g : Graph}
    (compiled : compile s name text = .ok c) (graph : c.graph = some g)
    (clean : ∀ line, mixing line ∉ c.diagnostics) : g.Unmixed := by
  obtain ⟨b, linked, _, warned, made⟩ := compileWith_graph compiled graph
  have positive : 0 < s.textIdLength := Nat.lt_of_lt_of_le (by decide) s.id_range.1
  have ids := TextId.assignNodes_named TextId.digest_ne_empty positive (plainNodes s b)
    ((givenOf s b).map (·.1)).reverse
  have rooted := (plainNodes_rooted linked).ofAlike (ids.imp fun _ _ => alike_of_named)
  refine unmixed_of_ofNodes made rooted fun n member => ?_
  by_contra mixed
  obtain ⟨i, there⟩ := List.mem_iff_getElem?.1 member
  -- the warnings are made from the lines of the drafts, one for each node
  let lines := (kept (settleAll b.nodes) ++ b.header).map (·.line)
  have same : (TextId.assignNodes TextId.digest s.textIdLength (plainNodes s b)
      ((givenOf s b).map (·.1)).reverse).length = lines.length := by
    rw [ids.length_eq.symm.trans (plainNodes_length s b), List.length_map, List.length_append]
  obtain ⟨line, inside⟩ := mixing_mem same there (Bool.not_eq_false _ ▸ mixed)
  exact clean line (warned (List.mem_append_right _ inside))

end Script

end Colloquy
