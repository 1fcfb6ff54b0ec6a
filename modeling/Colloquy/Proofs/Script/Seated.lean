import Colloquy.Proofs.Script.Acts
import Colloquy.Proofs.Script.LooseEnds
/-!
# Frames around frames

What every frame owes to the frames around it, whatever a script holds. The outermost frame alone is
the root. A frame closes no earlier than the one around it. The frame of an option is around what
follows the choice that the option belongs to, and reaches as far as that choice is indented; a block
reaches as far as the frame around it, and its select lies in the branches of the frames around it.
A choice that a frame ends with, or that a block leaves, lies in the branches of just that frame.
-/

namespace Colloquy.Script

/-- The branches that frames are in, the outermost first. -/
def branchesOf (frames : List Frame) : List Branch :=
  frames.reverse.filterMap Frame.branch?

theorem branchesOf_cons (f : Frame) (rest : List Frame) :
    branchesOf (f :: rest) = branchesOf rest ++ f.branch?.toList := by
  rw [branchesOf, List.reverse_cons, List.filterMap_append, branchesOf]
  cases inside : f.branch? <;> simp [inside]

theorem mem_branchesOf {frames : List Frame} {branch : Branch} :
    branch ∈ branchesOf frames ↔ ∃ f ∈ frames, f.branch? = some branch := by
  simp [branchesOf, List.mem_filterMap]

/-- Whether the node at a position has a step and lies in the branches of just some frames. -/
def Lies (nodes : List Draft) (step : Step) (frames : List Frame) (i : Nat) : Prop :=
  ∃ d, nodes[i]? = some d ∧ d.step = step ∧ d.path = branchesOf frames

/-- Whether there is a node at a position that, if it is a choice, lies in the branches of just some
frames. -/
def EndsIn (nodes : List Draft) (frames : List Frame) (i : Nat) : Prop :=
  ∃ d, nodes[i]? = some d ∧ (d.step = .choice → d.path = branchesOf frames)

/-- What the frame of an option owes to the frame around it. -/
def OptionOf (nodes : List Draft) (reach : Nat) (outer : Frame) : Prop :=
  ∃ choice d, outer.last = some choice ∧ nodes[choice]? = some d ∧ d.step = .choice
    ∧ reach = d.indent

/-- What a block owes to the frames around it: its select is among them, and so is the node that
counts as the last one after the block, the choice that it is chained to or else its select. -/
structure Block.Seated (nodes : List Draft) (block : Block) (frames : List Frame) : Prop where
  select : Lies nodes .select frames block.select
  after : Lies nodes (if block.chained then .choice else .select) frames block.after

/-- What a frame owes to the frames around it. -/
structure Frame.Seated (nodes : List Draft) (f outer : Frame) (rest : List Frame) : Prop where
  inner : f.kind ≠ .root
  threshold : outer.threshold ≤ f.threshold
  option : f.kind = .option → OptionOf nodes f.reach outer
  block : ∀ block, f.kind = .block block →
    f.reach = outer.reach ∧ block.Seated nodes (outer :: rest)

/-- Frames each of which is seated in those around it. -/
inductive Seated (nodes : List Draft) : List Frame → Prop where
  | root {f : Frame} (kind : f.kind = .root) (threshold : f.threshold = 0) (reach : f.reach = 0)
    (last : ∀ i, f.last = some i → EndsIn nodes [f] i) : Seated nodes [f]
  | inner {f outer : Frame} {rest : List Frame}
    (last : ∀ i, f.last = some i → EndsIn nodes (f :: outer :: rest) i)
    (seated : f.Seated nodes outer rest) (around : Seated nodes (outer :: rest)) :
    Seated nodes (f :: outer :: rest)

/-- All of a frame but the last node and where reading its block stands. -/
def Frame.core (f : Frame) : Frame :=
  { f with
    last := none
    kind :=
      match f.kind with
      | .block block => .block { select := block.select, chained := block.chained, after := block.after }
      | kind => kind }

section Core

variable {f g : Frame}

theorem Frame.threshold_eq_of_core (same : g.core = f.core) : g.threshold = f.threshold := by
  have := congrArg Frame.threshold same
  exact this

theorem Frame.reach_eq_of_core (same : g.core = f.core) : g.reach = f.reach := by
  have := congrArg Frame.reach same
  exact this

theorem Frame.root_of_core (same : g.core = f.core) (kind : f.kind = .root) : g.kind = .root := by
  have kinds := congrArg Frame.kind same
  simp only [Frame.core, kind] at kinds
  cases other : g.kind with
  | root => rfl
  | _ => rw [other] at kinds; cases kinds

theorem Frame.option_of_core (same : g.core = f.core) (kind : f.kind = .option) :
    g.kind = .option := by
  have kinds := congrArg Frame.kind same
  simp only [Frame.core, kind] at kinds
  cases other : g.kind with
  | option => rfl
  | _ => rw [other] at kinds; cases kinds

theorem Frame.block_of_core (same : g.core = f.core) {block : Block}
    (kind : f.kind = .block block) :
    ∃ block', g.kind = .block block' ∧ block'.select = block.select
      ∧ block'.chained = block.chained ∧ block'.after = block.after := by
  have kinds := congrArg Frame.kind same
  simp only [Frame.core, kind] at kinds
  cases other : g.kind with
  | block block' =>
    rw [other] at kinds
    simp only [FrameKind.block.injEq, Block.mk.injEq] at kinds
    exact ⟨block', rfl, kinds.1, kinds.2.2.1, kinds.2.2.2.1⟩
  | _ => rw [other] at kinds; cases kinds

end Core

section Growth

variable {held : Nat → Prop} {loose : EdgeRef → Prop} {a b : List Draft} {frames : List Frame}

theorem Lies.mono {step : Step} {i : Nat} (grown : Extends held loose a b)
    (lies : Lies a step frames i) : Lies b step frames i := by
  obtain ⟨d, there, isStep, within⟩ := lies
  obtain ⟨d', now, core, _⟩ := grown.node there
  exact ⟨d', now, (Draft.step_eq_of_core core).trans isStep,
    (Draft.path_eq_of_core core).trans within⟩

theorem EndsIn.mono {i : Nat} (grown : Extends held loose a b) (ends : EndsIn a frames i) :
    EndsIn b frames i := by
  obtain ⟨d, there, within⟩ := ends
  obtain ⟨d', now, core, _⟩ := grown.node there
  refine ⟨d', now, fun choice => ?_⟩
  rw [Draft.path_eq_of_core core]
  rw [Draft.step_eq_of_core core] at choice
  exact within choice

theorem OptionOf.mono {reach : Nat} {outer : Frame} (grown : Extends held loose a b)
    (option : OptionOf a reach outer) : OptionOf b reach outer := by
  obtain ⟨choice, d, last, there, step, same⟩ := option
  obtain ⟨d', now, core, _⟩ := grown.node there
  exact ⟨choice, d', last, now, (Draft.step_eq_of_core core).trans step,
    same.trans (Draft.indent_eq_of_core core).symm⟩

theorem Block.Seated.mono {block : Block} (grown : Extends held loose a b)
    (seated : block.Seated a frames) : block.Seated b frames :=
  ⟨seated.select.mono grown, seated.after.mono grown⟩

theorem Frame.Seated.mono {f outer : Frame} {rest : List Frame} (grown : Extends held loose a b)
    (seated : f.Seated a outer rest) : f.Seated b outer rest where
  inner := seated.inner
  threshold := seated.threshold
  option kind := (seated.option kind).mono grown
  block block kind := ⟨(seated.block block kind).1, (seated.block block kind).2.mono grown⟩

theorem Seated.mono (grown : Extends held loose a b) (seated : Seated a frames) :
    Seated b frames := by
  induction seated with
  | root kind threshold reach last =>
    exact .root kind threshold reach fun i here => (last i here).mono grown
  | inner last seated _ ih =>
    exact .inner (fun i here => (last i here).mono grown) (seated.mono grown) ih

end Growth

namespace Seated

variable {nodes : List Draft} {f g outer : Frame} {rest : List Frame}

theorem last (seated : Seated nodes (f :: rest)) {i : Nat} (here : f.last = some i) :
    EndsIn nodes (f :: rest) i := by
  cases seated with
  | root _ _ _ last => exact last i here
  | inner last _ _ => exact last i here

theorem frame (seated : Seated nodes (f :: outer :: rest)) : f.Seated nodes outer rest := by
  cases seated with
  | inner _ seated _ => exact seated

theorem around (seated : Seated nodes (f :: outer :: rest)) : Seated nodes (outer :: rest) := by
  cases seated with
  | inner _ _ around => exact around

theorem threshold_le (seated : Seated nodes (f :: rest)) : ∀ g ∈ rest, g.threshold ≤ f.threshold := by
  generalize frames : f :: rest = all at seated
  induction seated generalizing f rest with
  | root _ _ _ _ =>
    cases frames
    intro g none
    cases none
  | inner _ seated _ ih =>
    cases frames
    intro g member
    obtain rfl | further := List.mem_cons.mp member
    · exact seated.threshold
    · exact (ih rfl g further).trans seated.threshold

/-- The innermost frame may change in all but its core. -/
theorem retop (seated : Seated nodes (f :: rest)) (same : g.core = f.core)
    (last : ∀ i, g.last = some i → EndsIn nodes (g :: rest) i) : Seated nodes (g :: rest) := by
  have threshold := Frame.threshold_eq_of_core same
  have reach := Frame.reach_eq_of_core same
  cases seated with
  | root kind zero none _ =>
    exact .root (Frame.root_of_core same kind) (threshold.trans zero) (reach.trans none) last
  | inner _ seated around =>
    refine .inner last ⟨fun root => ?_, threshold ▸ seated.threshold, fun option => ?_,
      fun block kind => ?_⟩ around
    · exact seated.inner (Frame.root_of_core same.symm root)
    · rw [reach]
      exact seated.option (Frame.option_of_core same.symm option)
    · obtain ⟨before, was, select, chained, after⟩ := Frame.block_of_core same.symm kind
      obtain ⟨reaches, block⟩ := seated.block before was
      refine ⟨reach.trans reaches, ?_, ?_⟩
      · rw [← select]
        exact block.select
      · rw [← after, ← chained]
        exact block.after

end Seated

/-! ### Paths of edges -/

/-- Whether an edge is an option or a branch. -/
def DraftEdge.Ties (e : DraftEdge) : Prop :=
  e.kind = .decision ∨ e.kind = .condition

/-- Whether options and branches are searched for in the branches of the node that they leave. -/
def Routed (nodes : List Draft) : Prop :=
  ∀ r d e, nodes[r.node]? = some d → edgeAt nodes r = some e → e.Ties → e.path = d.path

namespace Routed

variable {nodes : List Draft}

theorem nil : Routed [] := by
  intro r d e there
  cases there

/-- Nodes that have got no edge but those of steps. -/
theorem of_edges {held : Nat → Prop} {loose : EdgeRef → Prop} {a b : List Draft} (routed : Routed a)
    (grown : Extends held loose a b)
    (edges : ∀ r e, edgeAt b r = some e → e.Ties → ∃ e₀, edgeAt a r = some e₀ ∧ e₀.core = e.core) :
    Routed b := by
  intro r d e there found ties
  obtain ⟨e₀, before, same⟩ := edges r e found ties
  obtain ⟨d₀, was, _⟩ := edgeAt_eq_some.mp before
  obtain ⟨d', now, core, _⟩ := grown.node was
  cases there.symm.trans now
  have kind := DraftEdge.kind_eq_of_core same
  have path := DraftEdge.path_eq_of_core same
  have ties₀ : e₀.Ties := by
    rw [DraftEdge.Ties, kind]
    exact ties
  rw [← path, routed r d₀ e₀ was before ties₀, Draft.path_eq_of_core core]

theorem foldl_aim (routed : Routed nodes) (destination : Destination) (refs : List EdgeRef) :
    Routed (refs.foldl (aim destination) nodes) := by
  refine routed.of_edges (Extends.foldl_aim destination refs nodes) fun r e found _ => ?_
  rw [edgeAt_foldl_aim] at found
  split at found
  · obtain ⟨e₀, before, rfl⟩ := Option.map_eq_some_iff.mp found
    exact ⟨e₀, before, rfl⟩
  · exact ⟨e, found, rfl⟩

theorem attach (routed : Routed nodes) {i : Nat} {edge : DraftEdge}
    (path : edge.Ties → ∀ d, nodes[i]? = some d → edge.path = d.path) :
    Routed (attach nodes i edge) := by
  intro r d e there found ties
  obtain ⟨d₀, was, core, edges⟩ := attach_old there
  rw [Draft.path_eq_of_core core]
  obtain old | ⟨new, rfl⟩ := edgeAt_attach_some found
  · exact routed r d₀ e was old ties
  · rw [new] at was
    exact path ties d₀ was

theorem append {b : Builder} {d : Draft} (routed : Routed b.nodes) (connect : Bool)
    (bare : d.edges = []) : Routed (b.append d connect).nodes := by
  have added : Extends (fun _ => False) (fun _ => False) b.nodes (b.extended d) :=
    Extends.append b.nodes _
  refine routed.of_edges ((added.mono (fun _ => False.elim) fun _ => False.elim).trans
    (Builder.append_extends b d connect)) fun r e found ties => ?_
  obtain rfl | ⟨e₀, before, rfl⟩ := Builder.append_edges bare found
  · obtain wrong | wrong := ties <;> cases wrong
  · refine ⟨e₀, before, ?_⟩
    split <;> rfl

end Routed

/-! ### What a draft keeps -/

theorem Lies.endsIn {nodes : List Draft} {step : Step} {frames : List Frame} {i : Nat}
    (lies : Lies nodes step frames i) : EndsIn nodes frames i := by
  obtain ⟨d, there, _, path⟩ := lies
  exact ⟨d, there, fun _ => path⟩

theorem EndsIn.lies {nodes : List Draft} {frames : List Frame} {i : Nat} {d : Draft}
    (ends : EndsIn nodes frames i) (there : nodes[i]? = some d) (choice : d.step = .choice) :
    Lies nodes .choice frames i := by
  obtain ⟨d', same, path⟩ := ends
  cases there.symm.trans same
  exact ⟨d, there, choice, path choice⟩

theorem EndsIn.of_select {nodes : List Draft} {around frames : List Frame} {i : Nat}
    (select : Lies nodes .select around i) : EndsIn nodes frames i := by
  obtain ⟨d, there, step, _⟩ := select
  exact ⟨d, there, fun choice => by rw [step] at choice; cases choice⟩

/-- Another last node puts a frame in no other branch. -/
theorem branchesOf_kind {f g : Frame} (kind : g.kind = f.kind) (rest : List Frame) :
    branchesOf (g :: rest) = branchesOf (f :: rest) := by
  rw [branchesOf_cons, branchesOf_cons, Frame.branch?, Frame.branch?, kind]

theorem EndsIn.of_kind {nodes : List Draft} {f g : Frame} {rest : List Frame} {i : Nat}
    (kind : g.kind = f.kind) (ends : EndsIn nodes (f :: rest) i) : EndsIn nodes (g :: rest) i := by
  rw [EndsIn, branchesOf_kind kind]
  exact ends

theorem Lies.of_kind {nodes : List Draft} {step : Step} {f g : Frame} {rest : List Frame} {i : Nat}
    (kind : g.kind = f.kind) (lies : Lies nodes step (f :: rest) i) :
    Lies nodes step (g :: rest) i := by
  rw [Lies, branchesOf_kind kind]
  exact lies

namespace Builder

variable {b c : Builder}

/-- Whether each frame of a draft is seated in those around it, and each option and branch is
searched for in the branches of its node. -/
structure Orderly (b : Builder) : Prop where
  frames : Seated b.nodes b.stack
  routed : Routed b.nodes

namespace Orderly

theorem start : ({} : Builder).Orderly := by
  refine ⟨.root rfl rfl rfl fun i none => ?_, .nil⟩
  cases none

theorem of_same (orderly : b.Orderly) (same : b.SameBody c) : c.Orderly := by
  refine ⟨?_, ?_⟩
  · rw [same.nodes, same.stack]
    exact orderly.frames
  · rw [same.nodes]
    exact orderly.routed

theorem note (orderly : b.Orderly) (d : Diagnostic) : (b.note d).Orderly :=
  orderly.of_same (note_sameBody b d)

/-- The node that is added lies in the branches of all frames. -/
theorem append_lies (b : Builder) (d : Draft) (connect : Bool) :
    Lies (b.append d connect).nodes d.step (b.append d connect).stack b.nodes.length := by
  obtain ⟨d', now, core⟩ := append_getElem?_length b d connect
  have path := congrArg Draft.path core
  have step := congrArg Draft.step core
  have same : branchesOf (b.append d connect).stack = branchesOf b.stack :=
    branchesOf_kind (f := b.top) (g := (b.append d connect).top) rfl b.below
  exact ⟨d', now, step, path.trans same.symm⟩

theorem append {d : Draft} (orderly : b.Orderly) (connect : Bool) (bare : d.edges = []) :
    (b.append d connect).Orderly := by
  refine ⟨?_, orderly.routed.append connect bare⟩
  have added : Extends (fun _ => False) (fun _ => False) b.nodes (b.extended d) :=
    Extends.append b.nodes _
  have grown := (added.mono (fun _ => False.elim) fun _ => False.elim).trans
    (append_extends b d connect)
  refine (orderly.frames.mono grown).retop rfl fun i here => ?_
  cases here
  exact (append_lies b d connect).endsIn

theorem release (orderly : b.Orderly) : b.release.Orderly :=
  ⟨orderly.frames.mono (Extends.foldl_aim (.search b.nodes.length) b.looseEdges b.nodes),
    orderly.routed.foldl_aim _ _⟩

theorem closeBlock {block : Block} {outer : Frame} {rest : List Frame} (orderly : b.Orderly)
    (kind : b.top.kind = .block block) (below : b.below = outer :: rest) :
    (b.closeBlock block outer rest).Orderly := by
  have grown : Grows (fun _ _ => True) 0 b (b.closeBlock block outer rest) :=
    Grows.closeBlock (Nat.zero_le _) kind below
  have frames := orderly.frames
  rw [stack, below] at frames
  obtain ⟨_, select, after⟩ := frames.frame.block block kind
  refine ⟨?_, ?_⟩
  · obtain ⟨top, left⟩ := closeBlock_top b block outer rest
    rw [stack, top, left]
    refine (frames.around.mono grown.nodes).retop rfl fun i here => ?_
    cases here
    exact (after.mono grown.nodes).endsIn.of_kind (f := outer) rfl
  · cases chained : block.chained with
    | true =>
      rw [closeBlock_chained b outer rest chained]
      exact orderly.routed.foldl_aim _ _
    | false =>
      cases hasElse : block.hasElse with
      | true =>
        rw [closeBlock_complete b outer rest chained hasElse]
        exact orderly.routed
      | false =>
        rw [closeBlock_partial b outer rest chained hasElse]
        refine orderly.routed.attach fun _ d there => ?_
        obtain ⟨d', same, _, path⟩ := select
        cases there.symm.trans same
        exact path.symm

theorem pop (orderly : b.Orderly) (line : Nat) : (b.pop line).Orderly := by
  unfold Builder.pop
  split
  · exact orderly
  next outer rest below =>
    split
    next block kind => exact (orderly.note _).closeBlock kind below
    · have released := orderly.release
      refine ⟨?_, released.routed⟩
      have frames := released.frames
      rw [stack, show b.release.below = b.below from rfl, below] at frames
      exact frames.around

theorem settle (orderly : b.Orderly) (line indent : Nat) : (b.settle line indent).Orderly :=
  settle_keeps (fun _ orderly => orderly.pop line) orderly indent

/-- A line is indented enough to be in the innermost frame that it leaves open. -/
theorem settle_fits (orderly : b.Orderly) (line indent : Nat) :
    (b.settle line indent).top.threshold ≤ indent := by
  obtain below | fits := @popAbove_stops b line indent b.below.length (Nat.le_refl _)
  · have frames := (orderly.settle line indent).frames
    rw [stack, show (b.settle line indent).below = [] from below] at frames
    cases frames with
    | root _ zero _ _ => exact (Nat.le_of_eq zero).trans (Nat.zero_le _)
  · exact fits

/-! ### Statements -/

theorem atChoice (orderly : b.Orderly) (line indent : Nat) : (b.atChoice line indent).Orderly := by
  unfold Builder.atChoice
  split
  · exact orderly.release
  · exact orderly.append true rfl

theorem option (orderly : b.Orderly) {indent : Nat} (fits : b.top.threshold ≤ indent) (line : Nat)
    (text textId : String) : (b.option line indent text textId).Orderly := by
  obtain ⟨choice, last⟩ := atChoice_last b line indent
  obtain ⟨d, there, step⟩ := Sound.atChoice_choice last
  have lies := ((orderly.atChoice line indent).frames.last last).lies there step
  have threshold : (b.atChoice line indent).top.threshold = b.top.threshold := by
    unfold Builder.atChoice
    split <;> rfl
  rw [option_eq text textId last]
  generalize orderly.atChoice line indent = base
  generalize b.atChoice line indent = a at base last there lies threshold
  have grown := Extends.attach a.nodes choice (a.optionEdge choice line text textId)
  refine ⟨.inner (fun i none => ?_) ⟨fun root => ?_, ?_, fun _ => ?_, fun block kind => ?_⟩
    (base.frames.mono grown), ?_⟩
  · cases none
  · cases root
  · exact (threshold ▸ fits).trans (Nat.le_succ indent)
  · refine OptionOf.mono grown ⟨choice, d, last, there, step, ?_⟩
    simp [optionFrame, there]
  · cases kind
  · refine base.routed.attach fun _ d' same => ?_
    obtain ⟨d'', found, _, path⟩ := lies
    cases same.symm.trans found
    exact path.symm

/-- Enters a block that is seated. -/
theorem enterBlock {f : Frame} {edge : DraftEdge} (block : Block) (orderly : b.Orderly)
    (seated : block.Seated b.nodes b.stack) (kind : f.kind = .block block)
    (last : f.last = some block.select) (threshold : b.top.threshold ≤ f.threshold)
    (reach : f.reach = b.top.reach) (path : edge.path = b.path) :
    (b.enterBlock f block.select edge).Orderly := by
  have grown := Extends.attach b.nodes block.select edge
  refine ⟨.inner (fun i here => ?_) ⟨fun root => ?_, threshold, fun option => ?_,
    fun block' isBlock => ?_⟩ (orderly.frames.mono grown), ?_⟩
  · cases last.symm.trans here
    exact EndsIn.of_select (seated.select.mono grown)
  · cases kind.symm.trans root
  · cases kind.symm.trans option
  · cases kind.symm.trans isBlock
    exact ⟨reach, seated.mono grown⟩
  · refine orderly.routed.attach fun _ d there => ?_
    obtain ⟨d', same, _, lies⟩ := seated.select
    cases there.symm.trans same
    exact path.trans lies.symm

theorem openIf (orderly : b.Orderly) {indent : Nat} (fits : b.top.threshold ≤ indent) (line : Nat)
    (condition : Expression) (optionNext : Bool) :
    (b.openIf line indent condition optionNext).Orderly := by
  cases chained : b.follows indent || optionNext with
  | true =>
    obtain ⟨choice, last⟩ := atHead_last (b := b) line indent
    obtain ⟨d, there, step⟩ := atHead_choice last
    rw [openIf_chained condition chained last]
    have head : (b.atHead line indent).Orderly
        ∧ (b.atHead line indent).top.threshold = b.top.threshold := by
      unfold Builder.atHead
      split
      · exact ⟨orderly, rfl⟩
      · exact ⟨orderly.append true rfl, rfl⟩
    generalize b.atHead line indent = h at head last there
    obtain ⟨base, threshold⟩ := head
    have lies := (base.frames.last last).lies there step
    -- The select comes after the choice and takes its place as the last node of the frame.
    let added := h.release.append ⟨.select, line, indent, [], 0, []⟩ false
    have grows : Grows (fun _ _ => True) 0 h (h.withChained choice line indent) :=
      Grows.withChained line indent (Nat.zero_le _) trivial last
        (List.getElem?_eq_some_iff.mp there).1
    have attached := Extends.attach added.nodes choice (chainEdge h.nodes.length line)
    have select : Lies added.nodes .select added.stack h.nodes.length := by
      have lies := append_lies h.release ⟨.select, line, indent, [], 0, []⟩ false
      rw [show h.release.nodes.length = h.nodes.length from foldl_aim_length _ _ _] at lies
      exact lies
    have within : (h.withChained choice line indent).Orderly := by
      have before := base.release.append (d := ⟨.select, line, indent, [], 0, []⟩) false rfl
      refine ⟨before.frames.mono attached, before.routed.attach fun ties => ?_⟩
      obtain wrong | wrong := ties <;> cases wrong
    have after : Lies _ .choice (h.withChained choice line indent).stack choice :=
      (lies.mono grows.nodes).of_kind (f := h.top) rfl
    exact within.enterBlock { select := h.nodes.length, chained := true, after := choice }
      ⟨select.mono attached, after⟩ rfl rfl (threshold ▸ fits) rfl rfl
  | false =>
    simp only [Bool.or_eq_false_iff] at chained
    rw [chained.2, openIf_unchained condition chained.1]
    have select : Lies (b.withSelect line indent).nodes .select (b.withSelect line indent).stack
        b.nodes.length := append_lies b ⟨.select, line, indent, [], 0, []⟩ true
    exact enterBlock { select := b.nodes.length, chained := false, after := b.nodes.length }
      (orderly.append true rfl) ⟨select, select⟩ rfl rfl fits rfl rfl

theorem addBranch (orderly : b.Orderly) (line : Nat) (condition : Option Expression)
    (keyword : String) : (b.addBranch line condition keyword).Orderly := by
  cases kind : b.top.kind with
  | block block =>
    cases more : block.hasElse with
    | true =>
      simp only [Builder.addBranch, kind, more, if_true]
      exact orderly.note _
    | false =>
      rw [addBranch_eq line condition keyword kind more]
      obtain ⟨outer, rest, below⟩ : ∃ outer rest, b.below = outer :: rest := by
        have frames := orderly.frames
        rw [stack] at frames
        cases below : b.below with
        | cons outer rest => exact ⟨outer, rest, rfl⟩
        | nil =>
          rw [below] at frames
          cases frames with
          | root root _ _ _ => cases kind.symm.trans root
      have frames := orderly.frames
      rw [stack, below] at frames
      obtain ⟨_, select, _⟩ := frames.frame.block block kind
      have grown : Extends _ _ b.nodes (b.toBranch block line condition).nodes :=
        Extends.attach b.nodes block.select _
      refine ⟨?_, orderly.routed.attach fun _ d there => ?_⟩
      · refine (orderly.frames.mono grown).retop ?_ fun i here => ?_
        · simp [Frame.core, kind, toBranch, nextBranch, closedBlock]
        · cases here
          exact EndsIn.of_select (select.mono grown)
      · obtain ⟨d', same, _, lies⟩ := select
        cases there.symm.trans same
        rw [lies, ← below]
        rfl
  | root =>
    simp only [Builder.addBranch, kind]
    exact orderly.note _
  | option =>
    simp only [Builder.addBranch, kind]
    exact orderly.note _

theorem endIf (orderly : b.Orderly) (line : Nat) : (b.endIf line).Orderly := by
  unfold Builder.endIf
  split
  next block outer rest kind below => exact orderly.closeBlock kind below
  · exact orderly.note _

theorem acts {l : Line} (orderly : b.Orderly) (fits : b.top.threshold ≤ l.indent)
    (acts : Acts l b c) : c.Orderly := by
  induction acts with
  | nothing same => exact orderly.of_same same
  | noted d _ ih => exact ih (orderly.note d) fits
  | append _ _ bare _ => exact orderly.append true bare
  | option _ text => exact orderly.option fits _ _ _
  | openIf _ condition next => exact orderly.openIf fits _ _ _
  | addBranch _ condition keyword => exact orderly.addBranch _ _ _
  | endIf _ _ => exact orderly.endIf _

theorem readBodyLine {s : Settings} {l : Line} {rest : List (List Char)} (orderly : b.Orderly)
    (read : b.readBodyLine s l rest = .ok c) : c.Orderly :=
  (orderly.settle l.number l.indent).acts (orderly.settle_fits l.number l.indent)
    (acts_of_readBodyLine read)

theorem readLine {s : Settings} {number : Nat} {raw : List Char} {rest : List (List Char)}
    (orderly : b.Orderly) (read : b.readLine s number raw rest = .ok c) : c.Orderly := by
  obtain ⟨l, _, _, body, _⟩ | ⟨same, _⟩ := readLine_cases read
  · exact orderly.readBodyLine body
  · exact orderly.of_same same

end Orderly

end Builder

end Colloquy.Script
