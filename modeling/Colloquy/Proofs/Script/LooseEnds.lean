import Colloquy.Proofs.Script.Soundness
/-!
# Loose ends

A loose end is an edge that is open, or a step that has no successor yet. Those near are tied by the
next node, those far away wait in a frame until its block closes. Here it is told, for each change of
a draft, which loose ends it ties and where the others wait from then on.
-/

namespace Colloquy.Script

/-- Whether the step at a position waits for its successor. -/
def LooseAt (nodes : List Draft) (i : Nat) : Prop :=
  ∃ d, nodes[i]? = some d ∧ d.isLoose = true

/-- Whether an edge, or the edge that a step is to get, does not know where it leads. -/
def Unsettled (nodes : List Draft) (r : EdgeRef) : Prop :=
  (∃ e, edgeAt nodes r = some e ∧ e.destination = .open) ∨ (r.slot = 0 ∧ LooseAt nodes r.node)

/-- Whether a loose end waits for a block to close. -/
def Block.Parks (nodes : List Draft) (block : Block) (r : EdgeRef) : Prop :=
  r ∈ block.looseEdges ∨ (r.slot = 0 ∧ LooseAt nodes r.node ∧ r.node ∈ block.looseNodes)

namespace Builder

/-- Whether the next node ties a loose end. -/
def Near (b : Builder) (r : EdgeRef) : Prop :=
  r ∈ b.looseEdges ∨ (r.slot = 0 ∧ LooseAt b.nodes r.node
    ∧ (r.node ∈ b.looseNodes ∨ b.top.last = some r.node))

/-- Whether a loose end waits in the frame at a depth, the innermost being at none. -/
def Far (b : Builder) (depth : Nat) (r : EdgeRef) : Prop :=
  ∃ f block, b.stack[depth]? = some f ∧ f.kind = .block block ∧ block.Parks b.nodes r

end Builder

theorem isLoose_iff {d : Draft} :
    d.isLoose = true ↔ d.step.isSequential = true ∧ d.edges = [] := by
  simp [Draft.isLoose]

theorem looseAt_lt {nodes : List Draft} {i : Nat} (loose : LooseAt nodes i) : i < nodes.length := by
  obtain ⟨d, there, _⟩ := loose
  exact (List.getElem?_eq_some_iff.mp there).1

/-- A step that waits for its successor has no edge. -/
theorem edgeAt_of_loose {nodes : List Draft} {r : EdgeRef} (loose : LooseAt nodes r.node) :
    edgeAt nodes r = none := by
  obtain ⟨d, there, isLoose⟩ := loose
  simp [edgeAt, there, (isLoose_iff.mp isLoose).2]

/-! ### A further node -/

theorem foldl_continueTo_getElem? (target : Nat) (is : List Nat) (nodes : List Draft) (i : Nat) :
    (is.foldl (continueTo target) nodes)[i]? = nodes[i]?.map fun d =>
      if i ∈ is ∧ d.edges = [] then { d with edges := [continueEdge target] } else d := by
  induction is generalizing nodes with
  | nil => simp
  | cons j rest ih =>
    rw [List.foldl_cons, ih, continueTo_getElem?]
    cases nodes[i]? with
    | none => simp
    | some d =>
      by_cases here : j = i
      · subst here
        by_cases bare : d.edges = [] <;> simp [bare]
      · have other : i ≠ j := fun same => here same.symm
        simp [here, other]

/-! ### A further edge -/

section Attach

variable {nodes : List Draft} {i : Nat} {edge : DraftEdge}

/-- A node after an edge was added somewhere. -/
theorem attach_old {j : Nat} {d₁ : Draft} (there : (attach nodes i edge)[j]? = some d₁) :
    ∃ d₀, nodes[j]? = some d₀ ∧ d₁.core = d₀.core
      ∧ d₁.edges = if i = j then d₀.edges ++ [edge] else d₀.edges := by
  rw [attach_getElem?] at there
  split at there
  next here =>
    obtain ⟨d₀, before, rfl⟩ := Option.map_eq_some_iff.mp there
    exact ⟨d₀, before, rfl, by rw [if_pos here]⟩
  next other => exact ⟨d₁, there, rfl, by rw [if_neg other]⟩

theorem edgeAt_attach_some {r : EdgeRef} {e : DraftEdge}
    (there : edgeAt (attach nodes i edge) r = some e) :
    edgeAt nodes r = some e ∨ (r = nextEdge nodes i ∧ e = edge) := by
  obtain ⟨d, node, slot⟩ := edgeAt_eq_some.mp there
  rw [attach_getElem?] at node
  split at node
  next here =>
    obtain ⟨d₀, before, rfl⟩ := Option.map_eq_some_iff.mp node
    rw [List.getElem?_append] at slot
    split at slot
    · exact Or.inl (edgeAt_eq_some.mpr ⟨d₀, before, slot⟩)
    next late =>
      have last : r.slot - d₀.edges.length = 0 := by
        have := (List.getElem?_eq_some_iff.mp slot).1
        rw [List.length_singleton] at this
        omega
      rw [last] at slot
      refine Or.inr ⟨?_, (Option.some.inj slot).symm⟩
      obtain ⟨n, k⟩ := r
      dsimp only at here before late last
      subst here
      rw [nextEdge, before, Option.elim_some, EdgeRef.mk.injEq]
      exact ⟨rfl, by omega⟩
  · exact Or.inl (edgeAt_eq_some.mpr ⟨d, node, slot⟩)

/-- An edge for a node that is no step unties no step. -/
theorem looseAt_attach (noStep : ∀ d, nodes[i]? = some d → d.step.isSequential = false) (j : Nat) :
    LooseAt (attach nodes i edge) j ↔ LooseAt nodes j := by
  unfold LooseAt
  rw [attach_getElem?]
  by_cases here : i = j
  · subst here
    rw [if_pos rfl]
    cases there : nodes[i]? with
    | none => simp
    | some d => simp [isLoose_iff, noStep d there]
  · rw [if_neg here]

theorem parks_attach (noStep : ∀ d, nodes[i]? = some d → d.step.isSequential = false)
    (block : Block) (r : EdgeRef) :
    block.Parks (attach nodes i edge) r ↔ block.Parks nodes r := by
  rw [Block.Parks, Block.Parks, looseAt_attach noStep]

theorem unsettled_attach (noStep : ∀ d, nodes[i]? = some d → d.step.isSequential = false)
    {r : EdgeRef} (unsettled : Unsettled (attach nodes i edge) r) :
    Unsettled nodes r ∨ r = nextEdge nodes i := by
  rcases unsettled with ⟨e, there, isOpen⟩ | ⟨first, loose⟩
  · rcases edgeAt_attach_some there with old | ⟨new, _⟩
    · exact Or.inl (Or.inl ⟨e, old, isOpen⟩)
    · exact Or.inr new
  · exact Or.inl (Or.inr ⟨first, (looseAt_attach noStep r.node).mp loose⟩)

theorem notSequential_of_select (select : IsSelect nodes i) :
    ∀ d, nodes[i]? = some d → d.step.isSequential = false := by
  obtain ⟨d₀, there, step⟩ := select
  intro d found
  rw [there] at found
  cases found
  rw [step]
  rfl

end Attach

namespace Builder

theorem tieLast_getElem? (target : Nat) (last : Option Nat) (nodes : List Draft) (i : Nat) :
    (tieLast target true last nodes)[i]? = nodes[i]?.map fun d =>
      if last = some i ∧ d.isLoose = true then { d with edges := [continueEdge target] } else d := by
  unfold tieLast
  cases last with
  | none => simp
  | some l =>
    dsimp only
    rw [Bool.true_and]
    split
    next loose =>
      rw [continueTo_getElem?]
      cases there : nodes[i]? with
      | none => simp
      | some d =>
        by_cases here : l = i
        · subst here
          rw [there, Option.elim_some] at loose
          simp [loose, (isLoose_iff.mp loose).2]
        · simp [here]
    next settled =>
      cases there : nodes[i]? with
      | none => rfl
      | some d =>
        by_cases here : l = i
        · subst here
          rw [there, Option.elim_some] at settled
          simp [settled]
        · simp [here]

section Append

variable {b : Builder} {d : Draft}

/-- A node that was there before another was added: if it was near it continues to the new node,
else its edges are as they were but for those that were near. -/
theorem append_old (sound : b.Sound) (d : Draft) {i : Nat} {d₀ : Draft}
    (there : b.nodes[i]? = some d₀) :
    ∃ d₁, (b.append d true).nodes[i]? = some d₁ ∧ d₁.core = d₀.core
      ∧ ((LooseAt b.nodes i ∧ b.Near ⟨i, 0⟩ ∧ d₁.edges = [continueEdge b.nodes.length])
        ∨ (¬ (LooseAt b.nodes i ∧ (i ∈ b.looseNodes ∨ b.top.last = some i))
          ∧ d₁.edges.length = d₀.edges.length
          ∧ ∀ k, edgeAt (b.append d true).nodes ⟨i, k⟩ =
              if ⟨i, k⟩ ∈ b.looseEdges then
                (edgeAt b.nodes ⟨i, k⟩).map (·.aimed (.to b.nodes.length))
              else edgeAt b.nodes ⟨i, k⟩)) := by
  have bound := (List.getElem?_eq_some_iff.mp there).1
  have extended : (b.extended d)[i]? = some d₀ := by
    rw [Builder.extended, List.getElem?_append_left bound, there]
  have edges : ∀ k, edgeAt (b.extended d) ⟨i, k⟩ = edgeAt b.nodes ⟨i, k⟩ := by
    intro k
    simp only [edgeAt, extended, there]
  -- First the edges that wait are aimed, which leaves their number as it is.
  obtain ⟨d₁, aimed, core, count⟩ :=
    (Extends.foldl_aim (.to b.nodes.length) b.looseEdges (b.extended d)).node extended
  have length : d₁.edges.length = d₀.edges.length := count id
  have slots : ∀ k, d₁.edges[k]? =
      if (⟨i, k⟩ : EdgeRef) ∈ b.looseEdges then
        (edgeAt b.nodes ⟨i, k⟩).map (·.aimed (.to b.nodes.length))
      else edgeAt b.nodes ⟨i, k⟩ := by
    intro k
    have := edgeAt_foldl_aim (.to b.nodes.length) b.looseEdges (b.extended d) ⟨i, k⟩
    rw [edges] at this
    rw [← this]
    simp only [edgeAt, aimed, Option.bind_some]
  have bare : d₁.edges = [] ↔ d₀.edges = [] := by
    rw [← List.length_eq_zero_iff, ← List.length_eq_zero_iff, length]
  have step : d₁.step = d₀.step := Draft.step_eq_of_core core
  have after : (b.append d true).nodes[i]? = some
      (if (i ∈ b.looseNodes ∨ b.top.last = some i) ∧ d₀.isLoose = true
        then { d₁ with edges := [continueEdge b.nodes.length] } else d₁) := by
    rw [append_nodes, tieLast_getElem?, foldl_continueTo_getElem?, aimed, Option.map_some,
      Option.map_some]
    by_cases member : i ∈ b.looseNodes
    · obtain ⟨d', found, sequential⟩ := sound.loose i member
      rw [there] at found
      cases found
      by_cases none : d₀.edges = []
      · simp [member, none, bare.mpr none, isLoose_iff, sequential]
      · have some : d₁.edges ≠ [] := fun empty => none (bare.mp empty)
        simp [member, none, some, isLoose_iff]
    · simp only [member, false_and, false_or, if_false, isLoose_iff, step, bare]
  by_cases near : (i ∈ b.looseNodes ∨ b.top.last = some i) ∧ d₀.isLoose = true
  · rw [if_pos near] at after
    have loose : LooseAt b.nodes i := ⟨d₀, there, near.2⟩
    exact ⟨_, after, core, Or.inl ⟨loose, Or.inr ⟨rfl, loose, near.1⟩, rfl⟩⟩
  · rw [if_neg near] at after
    refine ⟨d₁, after, core, Or.inr ⟨?_, length, fun k => ?_⟩⟩
    · rintro ⟨⟨d', found, loose⟩, waits⟩
      rw [there] at found
      cases found
      exact near ⟨waits, loose⟩
    · rw [← slots k]
      simp only [edgeAt, after, Option.bind_some]

/-- The node that is added. -/
theorem append_new (sound : b.Sound) (fresh : d.edges = []) :
    ∃ d₁, (b.append d true).nodes[b.nodes.length]? = some d₁
      ∧ d₁.core = { d with reach := b.top.reach, path := b.path, edges := [] } ∧ d₁.edges = [] := by
  obtain ⟨d₁, there, core⟩ := append_getElem?_length b d true
  refine ⟨d₁, there, core, ?_⟩
  have extended : (b.extended d)[b.nodes.length]?
      = some { d with reach := b.top.reach, path := b.path } := by
    simp [Builder.extended]
  obtain ⟨d', now, _, count⟩ := (append_extends b d true).node extended
  rw [there] at now
  cases now
  have free : ¬ (b.nodes.length ∈ b.looseNodes ∨ b.top.last = some b.nodes.length) := by
    rintro (member | last)
    · obtain ⟨d', there, _⟩ := sound.loose _ member
      exact absurd (List.getElem?_eq_some_iff.mp there).1 (Nat.lt_irrefl _)
    · exact absurd (sound.top.last _ last) (Nat.lt_irrefl _)
  rw [← List.length_eq_zero_iff, count free, fresh, List.length_nil]

/-- An edge after a further node: one that was near leads there, the others are as they were. -/
theorem append_edge (sound : b.Sound) (fresh : d.edges = []) {r : EdgeRef} {e : DraftEdge}
    (there : edgeAt (b.append d true).nodes r = some e) :
    (edgeAt b.nodes r = some e ∧ r ∉ b.looseEdges)
      ∨ (e.destination = .to b.nodes.length ∧ b.Near r
        ∧ (LooseAt b.nodes r.node ∨ ∃ e₀, edgeAt b.nodes r = some e₀ ∧ e.core = e₀.core)) := by
  obtain ⟨d₁, node, slot⟩ := edgeAt_eq_some.mp there
  have bound := (List.getElem?_eq_some_iff.mp node).1
  rw [append_length] at bound
  -- a loose step is given its first edge, edges that wait are tied, the new node has none
  rcases Nat.lt_succ_iff_lt_or_eq.mp bound with old | new
  · obtain ⟨d', now, _, ⟨loose, near, only⟩ | ⟨_, _, slots⟩⟩ :=
      append_old sound d (List.getElem?_eq_getElem old)
    · rw [node] at now
      cases now
      rw [only] at slot
      have first : r.slot = 0 := by
        have := (List.getElem?_eq_some_iff.mp slot).1
        rw [List.length_singleton] at this
        omega
      rw [first] at slot
      cases slot
      rw [← first] at near
      exact Or.inr ⟨rfl, near, Or.inl loose⟩
    · have same := slots r.slot
      rw [there] at same
      by_cases waits : r ∈ b.looseEdges
      · rw [if_pos waits] at same
        obtain ⟨e₀, before, rfl⟩ := Option.map_eq_some_iff.mp same.symm
        exact Or.inr ⟨rfl, Or.inl waits, Or.inr ⟨e₀, before, rfl⟩⟩
      · rw [if_neg waits] at same
        exact Or.inl ⟨same.symm, waits⟩
  · obtain ⟨d', now, _, none⟩ := append_new (b := b) sound fresh
    rw [new] at node
    rw [node] at now
    cases now
    rw [none] at slot
    cases slot

/-- A step that waits for its successor after a further node waited far away, or is that node. -/
theorem append_looseAt (sound : b.Sound) {i : Nat} (loose : LooseAt (b.append d true).nodes i) :
    (LooseAt b.nodes i ∧ ¬ b.Near ⟨i, 0⟩)
      ∨ (i = b.nodes.length ∧ d.step.isSequential = true) := by
  obtain ⟨d₁, node, isLoose⟩ := loose
  have bound := (List.getElem?_eq_some_iff.mp node).1
  rw [append_length] at bound
  rcases Nat.lt_succ_iff_lt_or_eq.mp bound with old | new
  · obtain ⟨d', now, core, ⟨_, _, only⟩ | ⟨away, count, _⟩⟩ :=
      append_old sound d (List.getElem?_eq_getElem old)
    · rw [node] at now
      cases now
      rw [(isLoose_iff.mp isLoose).2] at only
      cases only
    · rw [node] at now
      cases now
      obtain ⟨sequential, bare⟩ := isLoose_iff.mp isLoose
      have was : LooseAt b.nodes i := by
        refine ⟨_, List.getElem?_eq_getElem old, isLoose_iff.mpr ⟨?_, ?_⟩⟩
        · rw [← Draft.step_eq_of_core core]
          exact sequential
        · rw [← List.length_eq_zero_iff, ← count, bare, List.length_nil]
      refine Or.inl ⟨was, ?_⟩
      rintro (edge | ⟨_, _, waits⟩)
      · -- An edge that waits is there, but a loose step has none.
        obtain ⟨e, found, _⟩ := sound.edges _ edge
        rw [edgeAt_of_loose was] at found
        cases found
      · exact away ⟨was, waits⟩
  · refine Or.inr ⟨new, ?_⟩
    obtain ⟨d', now, core⟩ := append_getElem?_length b d true
    rw [new, now] at node
    cases node
    have step := congrArg Draft.step core
    change d₁.step = d.step at step
    rw [← step]
    exact (isLoose_iff.mp isLoose).1

theorem append_near (sound : b.Sound) {r : EdgeRef} (near : (b.append d true).Near r) :
    r = ⟨b.nodes.length, 0⟩ ∧ d.step.isSequential = true := by
  rcases near with edge | ⟨first, loose, node | last⟩
  · cases edge
  · cases node
  · have here : b.nodes.length = r.node := Option.some.inj last
    rcases append_looseAt sound loose with ⟨old, _⟩ | ⟨_, sequential⟩
    · have := looseAt_lt old
      omega
    · obtain ⟨node, slot⟩ := r
      cases first
      cases here
      exact ⟨rfl, sequential⟩

/-- A frame after a further node is one that was there, but for its last node. -/
theorem append_stack (b : Builder) (d : Draft) {depth : Nat} {f f₀ : Frame}
    (there : (b.append d true).stack[depth]? = some f) (before : b.stack[depth]? = some f₀) :
    f.kind = f₀.kind := by
  cases depth with
  | zero =>
    cases there
    cases before
    rfl
  | succ depth =>
    cases there.symm.trans before
    rfl

theorem append_far (sound : b.Sound) {depth : Nat} {r : EdgeRef}
    (far : (b.append d true).Far depth r) : b.Far depth r := by
  obtain ⟨f, block, there, isBlock, parks⟩ := far
  have bound : depth < b.stack.length := (List.getElem?_eq_some_iff.mp there).1
  have before := List.getElem?_eq_getElem bound
  have kind := (append_stack b d there before).symm.trans isBlock
  refine ⟨_, block, before, kind, ?_⟩
  rcases parks with edge | ⟨first, loose, member⟩
  · exact Or.inl edge
  · rcases append_looseAt sound loose with ⟨old, _⟩ | ⟨new, _⟩
    · exact Or.inr ⟨first, old, member⟩
    · -- What is parked was there before.
      obtain ⟨_, _, nodes⟩ := (sound.frames _ (List.mem_of_getElem? before)).block block kind
      obtain ⟨d', found, _⟩ := nodes _ member
      have := (List.getElem?_eq_some_iff.mp found).1
      omega

/-- What is unsettled after a further node waits where it did, far away, or is the new node. -/
theorem append_unsettled (sound : b.Sound) (fresh : d.edges = []) {r : EdgeRef}
    (unsettled : Unsettled (b.append d true).nodes r) :
    (Unsettled b.nodes r ∧ ¬ b.Near r ∧ ∀ depth, b.Far depth r → (b.append d true).Far depth r)
      ∨ (b.append d true).Near r := by
  -- A frame parks the same block as before, so only the nodes are looked at anew.
  have stays : ∀ depth, (∀ block : Block, block.Parks b.nodes r →
      block.Parks (b.append d true).nodes r) → b.Far depth r → (b.append d true).Far depth r := by
    rintro depth still ⟨f, block, before, isBlock, parks⟩
    have bound : depth < (b.append d true).stack.length :=
      (List.getElem?_eq_some_iff.mp before).1
    have there := List.getElem?_eq_getElem bound
    exact ⟨_, block, there, (append_stack b d there before).trans isBlock, still block parks⟩
  rcases unsettled with ⟨e, there, isOpen⟩ | ⟨first, loose⟩
  · rcases append_edge sound fresh there with ⟨old, free⟩ | ⟨target, _⟩
    · have tight : ¬ LooseAt b.nodes r.node := fun loose => by
        rw [edgeAt_of_loose loose] at old
        cases old
      refine Or.inl ⟨Or.inl ⟨e, old, isOpen⟩, ?_, fun depth => stays depth ?_⟩
      · rintro (waits | ⟨_, loose, _⟩)
        · exact free waits
        · exact tight loose
      · rintro block (edge | ⟨_, loose, _⟩)
        · exact Or.inl edge
        · exact absurd loose tight
    · rw [isOpen] at target
      cases target
  · rcases append_looseAt sound loose with ⟨old, away⟩ | ⟨new, _⟩
    · have same : r = ⟨r.node, 0⟩ := by rw [← first]
      refine Or.inl ⟨Or.inr ⟨first, old⟩, same ▸ away, fun depth => stays depth ?_⟩
      rintro block (edge | ⟨_, _, member⟩)
      · exact Or.inl edge
      · exact Or.inr ⟨first, loose, member⟩
    · refine Or.inr (Or.inr ⟨first, loose, Or.inr ?_⟩)
      rw [new]
      rfl

end Append

/-! ### Blocks -/

section Blocks

variable {b : Builder}

/-- The innermost frame is the nearest of those far away. -/
theorem far_zero {block : Block} (kind : b.top.kind = .block block) (r : EdgeRef) :
    b.Far 0 r ↔ block.Parks b.nodes r := by
  refine ⟨?_, fun parks => ⟨b.top, block, rfl, kind, parks⟩⟩
  rintro ⟨f, block', there, isBlock, parks⟩
  cases there
  rw [kind] at isBlock
  cases isBlock
  exact parks

/-- The loose ends that a block has at the end of a branch. -/
theorem closedBlock_parks {block : Block} (sound : b.Sound) (kind : b.top.kind = .block block)
    (r : EdgeRef) : (b.closedBlock block).Parks b.nodes r ↔ b.Near r ∨ b.Far 0 r := by
  rw [far_zero kind]
  obtain ⟨select, _, _⟩ := sound.top.block block kind
  have noStep := notSequential_of_select select
  constructor
  · rintro (edge | ⟨first, loose, member⟩)
    · rcases List.mem_append.mp edge with parked | waits
      · exact Or.inr (Or.inl parked)
      · exact Or.inl (Or.inl waits)
    · rcases List.mem_append.mp member with before | own
      · rcases List.mem_append.mp before with parked | waits
        · exact Or.inr (Or.inr ⟨first, loose, parked⟩)
        · exact Or.inl (Or.inr ⟨first, loose, Or.inl waits⟩)
      · exact Or.inl (Or.inr ⟨first, loose, Or.inr (unfinished_last own)⟩)
  · rintro ((waits | ⟨first, loose, member | last⟩) | (parked | ⟨first, loose, member⟩))
    · exact Or.inl (List.mem_append_right _ waits)
    · exact Or.inr ⟨first, loose, List.mem_append_left _ (List.mem_append_right _ member)⟩
    · -- The last node of the branch is a step, so it is not the select.
      refine Or.inr ⟨first, loose, List.mem_append_right _ ?_⟩
      obtain ⟨d, there, isLoose⟩ := loose
      have other : r.node ≠ block.select := by
        rintro same
        rw [same] at there
        have := noStep d there
        rw [(isLoose_iff.mp isLoose).1] at this
        cases this
      simp [unfinished, last, there, isLoose, other]
    · exact Or.inl (List.mem_append_left _ parked)
    · exact Or.inr ⟨first, loose, List.mem_append_left _ (List.mem_append_left _ member)⟩

/-- A block that begins: the edge of its first branch is near, what was far is one block further. -/
theorem enterBlock_near {f : Frame} {select : Nat} {edge : DraftEdge} {r : EdgeRef}
    (isSelect : IsSelect b.nodes select) (last : f.last = some select) (nodes : b.looseNodes = [])
    (near : (b.enterBlock f select edge).Near r) : r = nextEdge b.nodes select := by
  rcases near with waits | ⟨_, loose, member | isLast⟩
  · exact List.mem_singleton.mp waits
  · change r.node ∈ b.looseNodes at member
    rw [nodes] at member
    cases member
  · have same : select = r.node := Option.some.inj (last.symm.trans isLast)
    have noStep := notSequential_of_select isSelect
    obtain ⟨d, there, isLoose⟩ := (looseAt_attach noStep r.node).mp loose
    rw [← same] at there
    have := noStep d there
    rw [(isLoose_iff.mp isLoose).1] at this
    cases this

theorem enterBlock_far {f : Frame} {select : Nat} {edge : DraftEdge} {depth : Nat} {r : EdgeRef}
    (isSelect : IsSelect b.nodes select) :
    (b.enterBlock f select edge).Far (depth + 1) r ↔ b.Far depth r := by
  have same := @parks_attach _ _ edge (notSequential_of_select isSelect)
  constructor
  · rintro ⟨g, block, there, isBlock, parks⟩
    exact ⟨g, block, there, isBlock, (same block r).mp parks⟩
  · rintro ⟨g, block, there, isBlock, parks⟩
    exact ⟨g, block, there, isBlock, (same block r).mpr parks⟩

/-- At the next branch the edge of that branch is near, and what was near is parked. -/
theorem toBranch_near {block : Block} {line : Nat} {condition : Option Expression} {r : EdgeRef}
    (isSelect : IsSelect b.nodes block.select) (near : (b.toBranch block line condition).Near r) :
    r = nextEdge b.nodes block.select := by
  rcases near with waits | ⟨_, loose, member | isLast⟩
  · exact List.mem_singleton.mp waits
  · cases member
  · have same : block.select = r.node := Option.some.inj isLast
    have noStep := notSequential_of_select isSelect
    obtain ⟨d, there, isLoose⟩ := (looseAt_attach noStep r.node).mp loose
    rw [← same] at there
    have := noStep d there
    rw [(isLoose_iff.mp isLoose).1] at this
    cases this

theorem toBranch_far {block : Block} {line : Nat} {condition : Option Expression} {depth : Nat}
    {r : EdgeRef} (sound : b.Sound) (kind : b.top.kind = .block block) :
    (b.toBranch block line condition).Far depth r ↔ b.Far depth r ∨ (depth = 0 ∧ b.Near r) := by
  obtain ⟨isSelect, _, _⟩ := sound.top.block block kind
  have noStep := notSequential_of_select isSelect
  cases depth with
  | zero =>
    have isBlock : (b.toBranch block line condition).top.kind
        = .block (b.nextBranch block condition.isNone) := rfl
    rw [far_zero isBlock]
    refine (parks_attach noStep _ r).trans ?_
    have gathered := closedBlock_parks sound kind r
    change (b.closedBlock block).Parks b.nodes r ↔ _
    rw [gathered]
    constructor
    · rintro (near | far)
      · exact Or.inr ⟨rfl, near⟩
      · exact Or.inl far
    · rintro (far | ⟨_, near⟩)
      · exact Or.inr far
      · exact Or.inl near
  | succ depth =>
    have other : ¬ (depth + 1 = 0 ∧ b.Near r) := fun zero => Nat.succ_ne_zero depth zero.1
    rw [or_iff_left other]
    constructor
    · rintro ⟨g, block', there, isBlock, parks⟩
      exact ⟨g, block', there, isBlock, (parks_attach noStep block' r).mp parks⟩
    · rintro ⟨g, block', there, isBlock, parks⟩
      exact ⟨g, block', there, isBlock, (parks_attach noStep block' r).mpr parks⟩

/-- The draft after a block, but for the branch that the block may lack. -/
def afterBlock (b : Builder) (block : Block) (outer : Frame) (rest : List Frame) : Builder :=
  { b with
    top := resumed block outer
    below := rest
    looseEdges := (b.closedBlock block).looseEdges
    looseNodes := (b.closedBlock block).looseNodes }

/-- After a block all its loose ends are near. -/
theorem afterBlock_near {block : Block} {outer : Frame} {rest : List Frame} {r : EdgeRef}
    (sound : b.Sound) (kind : b.top.kind = .block block) (after : block.after = block.select) :
    (b.afterBlock block outer rest).Near r ↔ b.Near r ∨ b.Far 0 r := by
  rw [← closedBlock_parks sound kind r]
  obtain ⟨select, _, _⟩ := sound.top.block block kind
  have noStep := notSequential_of_select select
  constructor
  · rintro (waits | ⟨first, loose, member | last⟩)
    · exact Or.inl waits
    · exact Or.inr ⟨first, loose, member⟩
    · -- The last node after a block is its select, which is no step.
      have same : block.after = r.node := Option.some.inj last
      obtain ⟨d, there, isLoose⟩ := loose
      rw [after] at same
      rw [← same] at there
      have := noStep d there
      rw [(isLoose_iff.mp isLoose).1] at this
      cases this
  · rintro (waits | ⟨first, loose, member⟩)
    · exact Or.inl waits
    · exact Or.inr ⟨first, loose, Or.inl member⟩

theorem afterBlock_far {block : Block} {outer : Frame} {rest : List Frame} {depth : Nat}
    {r : EdgeRef} (below : b.below = outer :: rest) :
    (b.afterBlock block outer rest).Far depth r ↔ b.Far (depth + 1) r := by
  cases depth with
  | zero =>
    constructor
    · rintro ⟨f, inner, there, isBlock, parks⟩
      cases there
      exact ⟨outer, inner, by simp [stack, below], isBlock, parks⟩
    · rintro ⟨f, inner, there, isBlock, parks⟩
      have same : outer = f := by simpa [stack, below] using there
      subst same
      exact ⟨resumed block outer, inner, rfl, isBlock, parks⟩
  | succ depth =>
    have same : (b.afterBlock block outer rest).stack[depth + 1]? = b.stack[depth + 1 + 1]? := by
      simp [stack, afterBlock, below]
    constructor
    · rintro ⟨f, inner, there, isBlock, parks⟩
      exact ⟨f, inner, same.symm.trans there, isBlock, parks⟩
    · rintro ⟨f, inner, there, isBlock, parks⟩
      exact ⟨f, inner, same.trans there, isBlock, parks⟩

/-- The draft with a further branch of a select, whose edge waits. -/
def withBranch (b : Builder) (select : Nat) (edge : DraftEdge) : Builder :=
  { b with
    nodes := attach b.nodes select edge
    looseEdges := b.looseEdges ++ [nextEdge b.nodes select] }

theorem withBranch_near {select : Nat} {edge : DraftEdge} {r : EdgeRef}
    (isSelect : IsSelect b.nodes select) :
    (b.withBranch select edge).Near r ↔ b.Near r ∨ r = nextEdge b.nodes select := by
  have same := @looseAt_attach _ _ edge (notSequential_of_select isSelect) r.node
  have edges : r ∈ (b.withBranch select edge).looseEdges
      ↔ r ∈ b.looseEdges ∨ r = nextEdge b.nodes select := by
    simp [withBranch]
  rw [Near, Near, edges, or_right_comm]
  exact or_congr_left (or_congr_right (and_congr_right fun _ => and_congr_left fun _ => same))

theorem withBranch_far {select : Nat} {edge : DraftEdge} {depth : Nat} {r : EdgeRef}
    (isSelect : IsSelect b.nodes select) :
    (b.withBranch select edge).Far depth r ↔ b.Far depth r := by
  have same := @parks_attach _ _ edge (notSequential_of_select isSelect)
  constructor
  · rintro ⟨f, block, there, isBlock, parks⟩
    exact ⟨f, block, there, isBlock, (same block r).mp parks⟩
  · rintro ⟨f, block, there, isBlock, parks⟩
    exact ⟨f, block, there, isBlock, (same block r).mpr parks⟩

/-- A block that is not chained closes with an else branch, which may be one that is empty. -/
theorem closeBlock_eq {block : Block} {outer : Frame} {rest : List Frame}
    (unchained : block.chained = false) :
    b.closeBlock block outer rest =
      if block.hasElse then b.afterBlock block outer rest
      else (b.afterBlock block outer rest).withBranch block.select (b.fallbackEdge outer rest) := by
  cases hasElse : block.hasElse with
  | true =>
    rw [closeBlock_complete b outer rest unchained hasElse]
    rfl
  | false =>
    rw [closeBlock_partial b outer rest unchained hasElse]
    rfl

end Blocks

end Builder

end Colloquy.Script
