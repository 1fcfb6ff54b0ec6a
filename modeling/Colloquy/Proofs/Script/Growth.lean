import Colloquy.Proofs.Script.Drafts
/-!
# Growth

While lines are read a draft only grows. What may still change of it is bounded: only nodes that a
frame or a loose end holds get further edges, and only edges that wait are aimed. `Grows` says so
of the frames above the `n` outermost ones, which stay as they are; with no frame left alone it
says so of the whole draft. New nodes lie in all branches of the frames that stay, an edge that is
left to a search now looks only at nodes that come later, and edges of new options are of the lines
that have been read.
-/

namespace Colloquy.Script

/-! ### What is held -/

/-- Whether a frame may bring about further edges of a node. -/
def Frame.Holds (f : Frame) (i : Nat) : Prop :=
  f.last = some i ∨ ∃ block, f.kind = .block block ∧
    (i = block.select ∨ i = block.after ∨ i ∈ block.looseNodes)

/-- The edges that wait in a frame until its block closes. -/
def Frame.parked (f : Frame) : List EdgeRef :=
  match f.kind with
  | .block block => block.looseEdges
  | _ => []

/-- The frames above the `n` outermost ones. -/
def above (n : Nat) (frames : List Frame) : List Frame :=
  frames.take (frames.length - n)

/-- The `n` outermost frames. -/
def outermost (n : Nat) (frames : List Frame) : List Frame :=
  frames.drop (frames.length - n)

theorem above_cons {n : Nat} {frames : List Frame} (f : Frame) (deep : n ≤ frames.length) :
    above n (f :: frames) = f :: above n frames := by
  have count : (f :: frames).length - n = frames.length - n + 1 := by
    rw [List.length_cons]
    omega
  rw [above, count, List.take_succ_cons, above]

theorem outermost_cons {n : Nat} {frames : List Frame} (f : Frame) (deep : n ≤ frames.length) :
    outermost n (f :: frames) = outermost n frames := by
  have count : (f :: frames).length - n = frames.length - n + 1 := by
    rw [List.length_cons]
    omega
  rw [outermost, count, List.drop_succ_cons, outermost]

@[simp] theorem above_zero (frames : List Frame) : above 0 frames = frames := by
  simp [above]

theorem outermost_length_self (frames : List Frame) : outermost frames.length frames = frames := by
  simp [outermost]

namespace Builder

/-- The frames, the innermost first. -/
def stack (b : Builder) : List Frame :=
  b.top :: b.below

/-- Whether a node may get further edges without the `n` outermost frames. -/
def Holds (n : Nat) (b : Builder) (i : Nat) : Prop :=
  i ∈ b.looseNodes ∨ ∃ f ∈ above n b.stack, f.Holds i

/-- Whether an edge waits without the `n` outermost frames. -/
def Waits (n : Nat) (b : Builder) (r : EdgeRef) : Prop :=
  r ∈ b.looseEdges ∨ ∃ f ∈ above n b.stack, r ∈ f.parked

/-- What is known of a node that is new: its line and indent satisfy `made`, and it lies in the
branches of the frames around it. -/
structure Fresh (made : Nat → Nat → Prop) (around : List Frame) (d : Draft) : Prop where
  place : made d.line d.indent
  path : ∀ f ∈ around, ∀ branch, f.branch? = some branch → branch ∈ d.path

theorem Fresh.of_core {made : Nat → Nat → Prop} {around : List Frame} {d d' : Draft}
    (fresh : Fresh made around d) (same : d'.core = d.core) : Fresh made around d' := by
  refine ⟨?_, ?_⟩
  · rw [Draft.line_eq_of_core same, Draft.indent_eq_of_core same]
    exact fresh.place
  · rw [Draft.path_eq_of_core same]
    exact fresh.path

/-- `new` comes of `old` with the `n` outermost frames left alone. The lines and indents of the
nodes that are new satisfy `made`. -/
structure Grows (made : Nat → Nat → Prop) (n : Nat) (old new : Builder) : Prop where
  deep : n ≤ new.below.length
  outer : outermost n new.stack = outermost n old.stack
  nodes : Extends (old.Holds n) (old.Waits n) old.nodes new.nodes
  fresh : ∀ i d, new.nodes[i]? = some d → old.nodes.length ≤ i →
    Fresh made (outermost n old.stack) d
  stems : Stems (fun line => ∃ indent, made line indent) old.nodes new.nodes
  held : ∀ i, new.Holds n i → old.Holds n i ∨ old.nodes.length ≤ i
  waiting : ∀ r, new.Waits n r → old.Waits n r ∨ edgeAt old.nodes r = none
  notes : old.diagnostics <+: new.diagnostics

namespace Grows

variable {made : Nat → Nat → Prop} {n : Nat} {a b c : Builder}

/-- Growth that goes on: what changes then may be what could change at first, or what is new. -/
theorem goOn (first : Grows made n a b) (deep : n ≤ c.below.length)
    (outer : outermost n c.stack = outermost n b.stack)
    (nodes : Extends (fun i => a.Holds n i ∨ a.nodes.length ≤ i)
      (fun r => a.Waits n r ∨ edgeAt a.nodes r = none) b.nodes c.nodes)
    (fresh : ∀ i d, c.nodes[i]? = some d → b.nodes.length ≤ i → Fresh made (outermost n b.stack) d)
    (stems : Stems (fun line => ∃ indent, made line indent) b.nodes c.nodes)
    (held : ∀ i, c.Holds n i → a.Holds n i ∨ a.nodes.length ≤ i)
    (waiting : ∀ r, c.Waits n r → a.Waits n r ∨ edgeAt a.nodes r = none)
    (notes : b.diagnostics <+: c.diagnostics) : Grows made n a c where
  deep := deep
  outer := outer.trans first.outer
  nodes := first.nodes.trans_new nodes
  fresh i d there late := by
    by_cases old : i < b.nodes.length
    · have before := List.getElem?_eq_getElem old
      obtain ⟨d', now, same, _⟩ := nodes.node before
      rw [there] at now
      cases now
      exact (first.fresh i _ before late).of_core same
    · rw [← first.outer]
      exact fresh i d there (by omega)
  stems := by
    have later := nodes.length_le
    exact first.stems.trans stems first.nodes.length_le later
  held := held
  waiting := waiting
  notes := first.notes.trans notes

theorem trans (first : Grows made n a b) (second : Grows made n b c) : Grows made n a c := by
  refine first.goOn second.deep second.outer (second.nodes.mono first.held first.waiting)
    second.fresh second.stems ?_ ?_ second.notes
  · intro i later
    rcases second.held i later with before | fresh
    · exact first.held i before
    · have grown := first.nodes.length_le
      exact Or.inr (by omega)
  · intro r later
    rcases second.waiting r later with before | fresh
    · exact first.waiting r before
    · right
      cases there : edgeAt a.nodes r with
      | none => rfl
      | some e =>
        obtain ⟨e', still, _⟩ := first.nodes.edge there
        rw [fresh] at still
        cases still

/-- Nothing changes but what is held and what waits, and neither becomes more. -/
theorem regroup (nodes : b.nodes = a.nodes) (deep : n ≤ b.below.length)
    (outer : outermost n b.stack = outermost n a.stack)
    (held : ∀ i, b.Holds n i → a.Holds n i) (waiting : ∀ r, b.Waits n r → a.Waits n r)
    (notes : a.diagnostics <+: b.diagnostics) : Grows made n a b where
  deep := deep
  outer := outer
  nodes := by rw [nodes]; exact Extends.refl _ _ _
  fresh i d there late := by
    rw [nodes] at there
    exact absurd (List.getElem?_eq_some_iff.mp there).1 (by omega)
  stems := nodes ▸ Stems.refl _
  held i later := Or.inl (held i later)
  waiting r later := Or.inl (waiting r later)
  notes := notes

/-- Frames, nodes and loose ends stay as they are. -/
theorem unchanged (deep : n ≤ a.below.length) (nodes : b.nodes = a.nodes) (top : b.top = a.top)
    (below : b.below = a.below) (edges : b.looseEdges = a.looseEdges)
    (loose : b.looseNodes = a.looseNodes) (notes : a.diagnostics <+: b.diagnostics) :
    Grows made n a b := by
  refine regroup nodes (by rw [below]; exact deep) (by simp only [stack, top, below]) ?_ ?_ notes
  · intro i later
    simpa only [Holds, stack, top, below, loose] using later
  · intro r later
    simpa only [Waits, stack, top, below, edges] using later

theorem refl (b : Builder) (deep : n ≤ b.below.length) : Grows made n b b :=
  unchanged deep rfl rfl rfl rfl rfl (List.prefix_refl _)

theorem mono {made' : Nat → Nat → Prop} (grown : Grows made n b c)
    (more : ∀ line indent, made line indent → made' line indent) : Grows made' n b c where
  deep := grown.deep
  outer := grown.outer
  nodes := grown.nodes
  fresh i d there late := by
    obtain ⟨place, path⟩ := grown.fresh i d there late
    exact ⟨more _ _ place, path⟩
  stems := by
    refine ⟨grown.stems.searches, fun r e there isOption => ?_, grown.stems.onward⟩
    obtain old | ⟨indent, place⟩ := grown.stems.options r e there isOption
    · exact .inl old
    · exact .inr ⟨indent, more _ _ place⟩
  held := grown.held
  waiting := grown.waiting
  notes := grown.notes

variable {i : Nat} {d : Draft}

/-- A node that was there is still there, as far as its edges are left aside. -/
theorem old_core (grown : Grows made n b c) (there : c.nodes[i]? = some d)
    (old : i < b.nodes.length) : ∃ d₀, b.nodes[i]? = some d₀ ∧ d.core = d₀.core := by
  have before := List.getElem?_eq_getElem old
  obtain ⟨d', now, core, _⟩ := grown.nodes.node before
  cases there.symm.trans now
  exact ⟨_, before, core⟩

/-- A node of which no line that was read since can be the origin was there before. -/
theorem old_of_place (grown : Grows made n b c) (there : c.nodes[i]? = some d)
    (other : ¬ made d.line d.indent) : i < b.nodes.length := by
  refine Nat.lt_of_not_le fun late => ?_
  exact other (grown.fresh i d there late).place

theorem place_of_start (grown : Grows made n {} c) (there : c.nodes[i]? = some d) :
    made d.line d.indent :=
  (grown.fresh i d there (Nat.zero_le i)).place

end Grows

/-! ### Held and waiting, by frames -/

section Frames

variable {n : Nat} {b : Builder}

theorem holds_cons (deep : n ≤ b.below.length) (i : Nat) :
    b.Holds n i ↔ i ∈ b.looseNodes ∨ b.top.Holds i ∨ ∃ f ∈ above n b.below, f.Holds i := by
  simp [Holds, stack, above_cons b.top deep]

theorem waits_cons (deep : n ≤ b.below.length) (r : EdgeRef) :
    b.Waits n r ↔ r ∈ b.looseEdges ∨ r ∈ b.top.parked ∨ ∃ f ∈ above n b.below, r ∈ f.parked := by
  simp [Waits, stack, above_cons b.top deep]

theorem holds_last (deep : n ≤ b.below.length) {i : Nat} (last : b.top.last = some i) :
    b.Holds n i :=
  (holds_cons deep i).mpr (Or.inr (Or.inl (Or.inl last)))

theorem holds_select (deep : n ≤ b.below.length) {block : Block}
    (kind : b.top.kind = .block block) : b.Holds n block.select :=
  (holds_cons deep _).mpr (Or.inr (Or.inl (Or.inr ⟨block, kind, Or.inl rfl⟩)))

end Frames

/-! ### Nodes -/

/-- The nodes after a node is added and before any loose end is tied. -/
def extended (b : Builder) (d : Draft) : List Draft :=
  b.nodes ++ [{ d with reach := b.top.reach, path := b.path }]

/-- Makes the last node of a frame continue to another, if it runs on and has no edge yet. -/
def tieLast (target : Nat) (connect : Bool) (last : Option Nat) (nodes : List Draft) :
    List Draft :=
  match last with
  | some l =>
    if connect && (nodes[l]?.elim false Draft.isLoose) then continueTo target nodes l else nodes
  | none => nodes

theorem tieLast_length (target : Nat) (connect : Bool) (last : Option Nat) (nodes : List Draft) :
    (tieLast target connect last nodes).length = nodes.length := by
  unfold tieLast
  repeat' split
  all_goals simp

theorem tieLast_extends (target : Nat) (connect : Bool) (last : Option Nat) (nodes : List Draft) :
    Extends (fun i => last = some i) (fun _ => False) nodes
      (tieLast target connect last nodes) := by
  unfold tieLast
  cases last with
  | none => exact Extends.refl _ _ _
  | some l =>
    dsimp only
    split
    · exact (Extends.continueTo target nodes l).mono (fun i same => by rw [same]) fun _ => id
    · exact Extends.refl _ _ _

theorem append_nodes (b : Builder) (d : Draft) (connect : Bool) :
    (b.append d connect).nodes = tieLast b.nodes.length connect b.top.last
      (b.looseNodes.foldl (continueTo b.nodes.length)
        (b.looseEdges.foldl (aim (.to b.nodes.length)) (b.extended d))) := rfl

@[simp] theorem append_length (b : Builder) (d : Draft) (connect : Bool) :
    (b.append d connect).nodes.length = b.nodes.length + 1 := by
  simp [append_nodes, tieLast_length, extended]

/-- What adding a node ties: the edges that wait, the nodes that wait, and the last node. -/
theorem append_extends (b : Builder) (d : Draft) (connect : Bool) :
    Extends (fun i => i ∈ b.looseNodes ∨ b.top.last = some i) (· ∈ b.looseEdges) (b.extended d)
      (b.append d connect).nodes := by
  rw [append_nodes]
  have edges := Extends.foldl_aim (.to b.nodes.length) b.looseEdges (b.extended d)
  have nodes := Extends.foldl_continueTo b.nodes.length b.looseNodes
    (b.looseEdges.foldl (aim (.to b.nodes.length)) (b.extended d))
  have last := tieLast_extends b.nodes.length connect b.top.last
    (b.looseNodes.foldl (continueTo b.nodes.length)
      (b.looseEdges.foldl (aim (.to b.nodes.length)) (b.extended d)))
  exact ((edges.mono (fun _ => False.elim) fun _ => id).trans
    (nodes.mono (fun _ => Or.inl) fun _ => False.elim)).trans
    (last.mono (fun _ => Or.inr) fun _ => False.elim)

/-- The node that is added, as it was given but for its place among the blocks. -/
theorem append_getElem?_length (b : Builder) (d : Draft) (connect : Bool) :
    ∃ d', (b.append d connect).nodes[b.nodes.length]? = some d'
      ∧ d'.core = { d with reach := b.top.reach, path := b.path, edges := [] } := by
  have there : (b.extended d)[b.nodes.length]?
      = some { d with reach := b.top.reach, path := b.path } := by
    simp [extended]
  obtain ⟨d', now, same, _⟩ := (append_extends b d connect).node there
  exact ⟨d', now, same⟩

/-- The branches of the outermost frames are among those that a new node lies in. -/
theorem mem_path_of_outermost {n : Nat} {b : Builder} {f : Frame} {branch : Branch}
    (member : f ∈ outermost n b.stack) (inside : f.branch? = some branch) : branch ∈ b.path := by
  refine List.mem_filterMap.mpr ⟨f, ?_, inside⟩
  rw [List.mem_reverse]
  exact List.mem_of_mem_drop member

theorem tieLast_stems {place : Nat → Prop} (target : Nat) (connect : Bool) (last : Option Nat)
    (nodes : List Draft) : Stems place nodes (tieLast target connect last nodes) := by
  unfold tieLast
  split
  next l =>
    split
    · exact Stems.continueTo target nodes l
    · exact Stems.refl _
  · exact Stems.refl _

/-- The new node has no edge yet, so what is tied to it comes before it. -/
theorem edgeAt_extended (b : Builder) {d : Draft} (bare : d.edges = []) (r : EdgeRef) :
    edgeAt (b.extended d) r = edgeAt b.nodes r := by
  unfold edgeAt extended
  obtain old | late := Nat.lt_or_ge r.node b.nodes.length
  · rw [List.getElem?_append_left old]
  · rw [List.getElem?_append_right late, List.getElem?_eq_none late]
    cases r.node - b.nodes.length with
    | zero => simp [bare]
    | succ _ => rfl

theorem tieLast_edge {target : Nat} {connect : Bool} {last : Option Nat} {nodes : List Draft}
    {r : EdgeRef} {e : DraftEdge} (there : edgeAt (tieLast target connect last nodes) r = some e) :
    edgeAt nodes r = some e ∨ e = continueEdge target := by
  unfold tieLast at there
  cases last with
  | none => exact .inl there
  | some l =>
    dsimp only at there
    split at there
    · exact edgeAt_continueTo_some there
    · exact .inl there

/-- The edges after a further node: those that waited lead to it, and steps may have got one that
leads there. -/
theorem append_edges {b : Builder} {d : Draft} {connect : Bool} (bare : d.edges = [])
    {r : EdgeRef} {e : DraftEdge} (there : edgeAt (b.append d connect).nodes r = some e) :
    e = continueEdge b.nodes.length ∨ ∃ e₀, edgeAt b.nodes r = some e₀
      ∧ e = if r ∈ b.looseEdges then e₀.aimed (.to b.nodes.length) else e₀ := by
  rw [append_nodes] at there
  obtain tied | new := tieLast_edge there
  · obtain aimed | new := edgeAt_foldl_continueTo_some tied
    · rw [edgeAt_foldl_aim, edgeAt_extended b bare] at aimed
      split at aimed
      next waits =>
        obtain ⟨e₀, before, rfl⟩ := Option.map_eq_some_iff.mp aimed
        exact .inr ⟨e₀, before, by rw [if_pos waits]⟩
      next known => exact .inr ⟨e, aimed, by rw [if_neg known]⟩
    · exact .inl new
  · exact .inl new

/-- Adding a node leaves no edge to a search and adds none of an option. -/
theorem append_stems {place : Nat → Prop} (b : Builder) {d : Draft} (connect : Bool)
    (bare : d.edges = []) : Stems place b.nodes (b.append d connect).nodes := by
  have added : Stems place b.nodes (b.extended d) := Stems.append b.nodes bare
  have before {r : EdgeRef} {e : DraftEdge} (there : edgeAt (b.extended d) r = some e) :
      r.node < b.nodes.length := by
    rw [edgeAt_extended b bare] at there
    exact edgeAt_lt there
  have aimed : Stems place (b.extended d) _ :=
    Stems.foldl_aim (.to b.nodes.length) b.looseEdges (b.extended d) (by intro _ same; cases same)
      (by rintro _ ⟨⟩ r e there; exact before there)
  have continued : Stems place _ _ := Stems.foldl_continueTo b.nodes.length b.looseNodes
    (b.looseEdges.foldl (aim (.to b.nodes.length)) (b.extended d))
  have tied : Stems place _ _ := tieLast_stems b.nodes.length connect b.top.last
    (b.looseNodes.foldl (continueTo b.nodes.length)
      (b.looseEdges.foldl (aim (.to b.nodes.length)) (b.extended d)))
  rw [append_nodes]
  refine added.trans ?_ (by simp [extended]) (by simp [tieLast_length])
  exact (aimed.trans continued (by simp) (by simp)).trans tied (by simp) (by simp [tieLast_length])

theorem Grows.append {made : Nat → Nat → Prop} {n : Nat} (b : Builder) (d : Draft) (connect : Bool)
    (deep : n ≤ b.below.length) (bare : d.edges = []) (place : made d.line d.indent) :
    Grows made n b (b.append d connect) where
  deep := deep
  outer := by
    change outermost n (_ :: b.below) = outermost n (_ :: b.below)
    rw [outermost_cons _ deep, outermost_cons _ deep]
  nodes := by
    have added : Extends (b.Holds n) (b.Waits n) b.nodes (b.extended d) :=
      (Extends.append b.nodes _).mono (fun _ => False.elim) fun _ => False.elim
    refine added.trans ((append_extends b d connect).mono ?_ fun _ => Or.inl)
    rintro i (member | last)
    · exact Or.inl member
    · exact holds_last deep last
  fresh i d' there late := by
    have bound := (List.getElem?_eq_some_iff.mp there).1
    rw [append_length] at bound
    have new : i = b.nodes.length := by omega
    obtain ⟨d'', now, same⟩ := append_getElem?_length b d connect
    rw [← new, there] at now
    cases now
    have given : Fresh made (outermost n b.stack)
        { d with reach := b.top.reach, path := b.path, edges := [] } :=
      ⟨place, fun _ member _ inside => mem_path_of_outermost member inside⟩
    exact given.of_core same
  stems := append_stems b connect bare
  held i later := by
    -- what is held is the new node, or was held before
    rcases (holds_cons (b := b.append d connect) deep i).mp later with member | top | ⟨f, member, holds⟩
    · cases member
    · rcases top with new | ⟨block, kind, holds⟩
      · right
        have : b.nodes.length = i := Option.some.inj new
        omega
      · exact Or.inl ((holds_cons deep i).mpr (Or.inr (Or.inl (Or.inr ⟨block, kind, holds⟩))))
    · exact Or.inl ((holds_cons deep i).mpr (Or.inr (Or.inr ⟨f, member, holds⟩)))
  waiting r later := by
    rcases (waits_cons (b := b.append d connect) deep r).mp later with member | parked | rest
    · cases member
    · exact Or.inl ((waits_cons deep r).mpr (Or.inr (Or.inl parked)))
    · exact Or.inl ((waits_cons deep r).mpr (Or.inr (Or.inr rest)))
  notes := List.prefix_refl _

theorem nextEdge_absent (nodes : List Draft) (i : Nat) : edgeAt nodes (nextEdge nodes i) = none := by
  unfold edgeAt nextEdge
  cases nodes[i]? <;> simp

/-- The edge that is added is the next edge. -/
theorem edgeAt_attach {nodes : List Draft} {i : Nat} (edge : DraftEdge) (bound : i < nodes.length) :
    edgeAt (Script.attach nodes i edge) (nextEdge nodes i) = some edge := by
  have there := List.getElem?_eq_getElem bound
  refine edgeAt_eq_some.mpr ⟨{ nodes[i] with edges := nodes[i].edges ++ [edge] }, ?_, ?_⟩
  · simp [attach_getElem?, nextEdge, there]
  · simp [nextEdge, there]

/-- Adds an edge to a node that is held; the edge may wait from then on. -/
theorem Grows.attach {made : Nat → Nat → Prop} {n : Nat} (b : Builder) {i : Nat} (edge : DraftEdge)
    {edges : List EdgeRef} (deep : n ≤ b.below.length) (held : b.Holds n i)
    (known : ∀ start, edge.destination ≠ .search start)
    (ahead : ∀ j, edge.destination = .to j → i < j)
    (line : edge.kind = .decision → ∃ indent, made edge.line indent)
    (waiting : ∀ r ∈ edges, r ∈ b.looseEdges ∨ r = nextEdge b.nodes i) :
    Grows made n b { b with nodes := Script.attach b.nodes i edge, looseEdges := edges } where
  deep := deep
  outer := rfl
  nodes := (Extends.attach b.nodes i edge).mono (fun _ same => by rw [same]; exact held)
    fun _ => False.elim
  fresh j d there late := by
    have bound := (List.getElem?_eq_some_iff.mp there).1
    rw [attach_length] at bound
    omega
  stems := Stems.attach b.nodes i known ahead line
  held _ := Or.inl
  waiting r later := by
    rcases later with member | rest
    · rcases waiting r member with before | next
      · exact Or.inl (Or.inl before)
      · right
        rw [next, nextEdge_absent]
    · exact Or.inl (Or.inr rest)
  notes := List.prefix_refl _

theorem Grows.release {made : Nat → Nat → Prop} {n : Nat} (b : Builder) (deep : n ≤ b.below.length) :
    Grows made n b b.release where
  deep := deep
  outer := rfl
  nodes := (Extends.foldl_aim (.search b.nodes.length) b.looseEdges b.nodes).mono
    (fun _ => False.elim) fun _ => Or.inl
  fresh i d there late := by
    have bound := (List.getElem?_eq_some_iff.mp there).1
    rw [Builder.release, foldl_aim_length] at bound
    omega
  stems := by
    refine Stems.foldl_aim (.search b.nodes.length) b.looseEdges b.nodes (fun start same => ?_) ?_
    · cases same
      rfl
    · rintro _ ⟨⟩
  held i later := by
    rcases later with member | rest
    · cases member
    · exact Or.inl (Or.inr rest)
  waiting r later := by
    rcases later with member | rest
    · cases member
    · exact Or.inl (Or.inr rest)
  notes := List.prefix_refl _

theorem Grows.note {made : Nat → Nat → Prop} {n : Nat} (b : Builder) (d : Diagnostic)
    (deep : n ≤ b.below.length) : Grows made n b (b.note d) :=
  Grows.unchanged deep rfl rfl rfl rfl rfl (List.prefix_append _ _)

/-! ### Blocks -/

/-- The last node of a branch that has been read, if it waits for a successor. -/
def unfinished (b : Builder) (block : Block) : List Nat :=
  match b.top.last with
  | some last =>
    if last ≠ block.select && (b.nodes[last]?.elim false Draft.isLoose) then [last] else []
  | none => []

theorem unfinished_last {b : Builder} {block : Block} {i : Nat}
    (member : i ∈ b.unfinished block) : b.top.last = some i := by
  unfold unfinished at member
  split at member
  next last here =>
    split at member
    · rw [here, List.mem_singleton.mp member]
    · cases member
  · cases member

/-- A block with the loose ends of the branch that has been read set aside. -/
def closedBlock (b : Builder) (block : Block) : Block :=
  { block with
    looseEdges := block.looseEdges ++ b.looseEdges
    looseNodes := block.looseNodes ++ b.looseNodes ++ b.unfinished block }

theorem closeBranch_eq (b : Builder) (block : Block) :
    b.closeBranch block
      = ({ b with looseEdges := [], looseNodes := [] }, b.closedBlock block) := rfl

/-- The frame that a closed block leaves. -/
def resumed (block : Block) (outer : Frame) : Frame :=
  { outer with last := some block.after }

/-- The branch that a block without an else branch gets when it closes. -/
def fallbackEdge (b : Builder) (outer : Frame) (rest : List Frame) : DraftEdge :=
  { kind := .condition
    condition := some Expression.always
    line := b.top.line
    reach := b.top.reach
    path := ((outer :: rest).reverse).filterMap Frame.branch? }

theorem closeBlock_chained (b : Builder) {block : Block} (outer : Frame) (rest : List Frame)
    (chained : block.chained = true) :
    b.closeBlock block outer rest =
      { b with
        nodes := (b.closedBlock block).looseEdges.foldl (aim .end) b.nodes
        top := resumed block outer
        below := rest
        looseEdges := []
        looseNodes := (b.closedBlock block).looseNodes } := by
  have same : (b.closedBlock block).chained = true := chained
  simp only [closeBlock, closeBranch_eq, same, if_true]
  rfl

theorem closeBlock_complete (b : Builder) {block : Block} (outer : Frame) (rest : List Frame)
    (chained : block.chained = false) (hasElse : block.hasElse = true) :
    b.closeBlock block outer rest =
      { b with
        top := resumed block outer
        below := rest
        looseEdges := (b.closedBlock block).looseEdges
        looseNodes := (b.closedBlock block).looseNodes } := by
  have first : (b.closedBlock block).chained = false := chained
  have second : (b.closedBlock block).hasElse = true := hasElse
  simp only [closeBlock, closeBranch_eq, first, second, if_true, Bool.false_eq_true, if_false]
  rfl

theorem path_resumed (block : Block) (outer : Frame) (rest : List Frame) :
    ((resumed block outer :: rest).reverse).filterMap Frame.branch?
      = ((outer :: rest).reverse).filterMap Frame.branch? := by
  simp only [List.reverse_cons, List.filterMap_append]
  rfl

theorem closeBlock_partial (b : Builder) {block : Block} (outer : Frame) (rest : List Frame)
    (chained : block.chained = false) (hasElse : block.hasElse = false) :
    b.closeBlock block outer rest =
      { b with
        nodes := attach b.nodes block.select (b.fallbackEdge outer rest)
        top := resumed block outer
        below := rest
        looseEdges := (b.closedBlock block).looseEdges ++ [nextEdge b.nodes block.select]
        looseNodes := (b.closedBlock block).looseNodes } := by
  have first : (b.closedBlock block).chained = false := chained
  have second : (b.closedBlock block).hasElse = false := hasElse
  simp only [closeBlock, closeBranch_eq, first, second, Bool.false_eq_true, if_false, addBranchEdge,
    path]
  rw [fallbackEdge, ← path_resumed block outer rest]
  rfl

section Close

variable {made : Nat → Nat → Prop} {n : Nat} {b c : Builder} {block : Block} {outer : Frame}
  {rest : List Frame}

/-- What the loose ends of a closing block may become. -/
theorem Grows.closing (deep : n ≤ rest.length) (kind : b.top.kind = .block block)
    (below : b.below = outer :: rest) (top : c.top = resumed block outer) (left : c.below = rest)
    (nodes : Extends (b.Holds n) (b.Waits n) b.nodes c.nodes)
    (stems : Stems (fun line => ∃ indent, made line indent) b.nodes c.nodes)
    (count : c.nodes.length = b.nodes.length)
    (loose : c.looseNodes = (b.closedBlock block).looseNodes)
    (edges : ∀ r ∈ c.looseEdges,
      r ∈ (b.closedBlock block).looseEdges ∨ edgeAt b.nodes r = none)
    (notes : b.diagnostics = c.diagnostics) : Grows made n b c := by
  have inside : n ≤ b.below.length := by
    rw [below, List.length_cons]
    omega
  have still : n ≤ c.below.length := by rw [left]; exact deep
  have isBlock : ∀ i, (i = block.select ∨ i = block.after ∨ i ∈ block.looseNodes) → b.Holds n i :=
    fun i here => (holds_cons inside i).mpr (Or.inr (Or.inl (Or.inr ⟨block, kind, here⟩)))
  have isOuter : ∀ f ∈ above n b.below, ∀ i, f.Holds i → b.Holds n i :=
    fun f member i holds => (holds_cons inside i).mpr (Or.inr (Or.inr ⟨f, member, holds⟩))
  have outerMember : outer ∈ above n b.below := by
    rw [below, above_cons outer deep]
    exact List.mem_cons_self ..
  have restMember : ∀ f ∈ above n rest, f ∈ above n b.below := by
    intro f member
    rw [below, above_cons outer deep]
    exact List.mem_cons_of_mem outer member
  refine ⟨still, ?_, nodes, ?_, stems, ?_, ?_, notes ▸ List.prefix_refl _⟩
  · rw [stack, stack, outermost_cons _ still, outermost_cons _ inside, left, below,
      outermost_cons _ deep]
  · intro i d there late
    have bound := (List.getElem?_eq_some_iff.mp there).1
    omega
  · intro i later
    left
    -- the frame around the block takes over its last node and its loose ends
    rcases (holds_cons still i).mp later with member | holds | ⟨f, member, holds⟩
    · rw [loose, closedBlock] at member
      rcases List.mem_append.mp member with before | own
      · rcases List.mem_append.mp before with parked | waits
        · exact isBlock i (Or.inr (Or.inr parked))
        · exact Or.inl waits
      · exact holds_last inside (unfinished_last own)
    · rw [top] at holds
      rcases holds with last | ⟨block', kind', holds⟩
      · exact isBlock i (Or.inr (Or.inl (Option.some.inj last).symm))
      · exact isOuter outer outerMember i (Or.inr ⟨block', kind', holds⟩)
    · rw [left] at member
      exact isOuter f (restMember f member) i holds
  · intro r later
    rcases (waits_cons still r).mp later with member | parked | ⟨f, member, parked⟩
    · rcases edges r member with old | absent
      · left
        rcases List.mem_append.mp old with parked | waits
        · refine (waits_cons inside r).mpr (Or.inr (Or.inl ?_))
          rw [Frame.parked, kind]
          exact parked
        · exact Or.inl waits
      · exact Or.inr absent
    · rw [top] at parked
      exact Or.inl ((waits_cons inside r).mpr (Or.inr (Or.inr ⟨outer, outerMember, parked⟩)))
    · rw [left] at member
      exact Or.inl ((waits_cons inside r).mpr (Or.inr (Or.inr ⟨f, restMember f member, parked⟩)))

theorem Grows.closeBlock (deep : n ≤ rest.length) (kind : b.top.kind = .block block)
    (below : b.below = outer :: rest) : Grows made n b (b.closeBlock block outer rest) := by
  have inside : n ≤ b.below.length := by
    rw [below, List.length_cons]
    omega
  cases chained : block.chained with
  | true =>
    -- the ways out of a chained block are ended
    rw [closeBlock_chained b outer rest chained]
    refine Grows.closing deep kind below rfl rfl ?_
      (Stems.foldl_aim .end _ _ (by intro _ same; cases same) (by intro _ same; cases same))
      (foldl_aim_length _ _ _) rfl (by simp) rfl
    refine (Extends.foldl_aim .end _ b.nodes).mono (fun _ => False.elim) ?_
    intro r member
    rcases List.mem_append.mp member with parked | waits
    · refine (waits_cons inside r).mpr (Or.inr (Or.inl ?_))
      rw [Frame.parked, kind]
      exact parked
    · exact Or.inl waits
  | false =>
    cases hasElse : block.hasElse with
    | true =>
      rw [closeBlock_complete b outer rest chained hasElse]
      exact Grows.closing deep kind below rfl rfl (Extends.refl _ _ _) (Stems.refl _) rfl rfl
        (fun _ => Or.inl) rfl
    | false =>
      rw [closeBlock_partial b outer rest chained hasElse]
      refine Grows.closing deep kind below rfl rfl ?_ 
        (Stems.attach _ _ (by intro _ same; cases same) (by intro _ same; cases same)
          (by intro same; cases same))
        (attach_length _ _ _) rfl ?_ rfl
      · exact (Extends.attach b.nodes _ _).mono
          (fun i same => by rw [same]; exact holds_select inside kind) fun _ => False.elim
      · intro r member
        rcases List.mem_append.mp member with old | next
        · exact Or.inl old
        · right
          rw [List.mem_singleton.mp next, nextEdge_absent]

theorem Grows.pop (line : Nat) (deep : n < b.below.length) : Grows made n b (b.pop line) := by
  unfold Builder.pop
  split
  · exact Grows.refl b (by omega)
  next outer rest below =>
    have less : n ≤ rest.length := by
      rw [below, List.length_cons] at deep
      omega
    split
    next block kind =>
      generalize Diagnostic.complain _ _ = missing
      have noted : Grows made n b (b.note missing) := Grows.note b missing (by omega)
      exact noted.trans (Grows.closeBlock (b := b.note missing) less kind below)
    next noBlock =>
      -- the edges that wait are left to a search before the frame goes
      refine (Grows.release b (by omega)).trans ?_
      refine Grows.regroup rfl less ?_ ?_ ?_ (List.prefix_refl _)
      · change outermost n (outer :: rest) = outermost n (b.top :: b.below)
        rw [outermost_cons b.top (by omega), below]
      · intro i later
        rcases later with member | ⟨f, member, holds⟩
        · cases member
        · refine Or.inr ⟨f, ?_, holds⟩
          change f ∈ above n (b.top :: b.below)
          rw [above_cons b.top (by omega), below]
          exact List.mem_cons_of_mem b.top member
      · intro r later
        rcases later with member | ⟨f, member, parked⟩
        · cases member
        · refine Or.inr ⟨f, ?_, parked⟩
          change f ∈ above n (b.top :: b.below)
          rw [above_cons b.top (by omega), below]
          exact List.mem_cons_of_mem b.top member

end Close

end Builder

end Colloquy.Script
