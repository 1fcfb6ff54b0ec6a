import Colloquy.Proofs.Script.Growing
import Mathlib.Order.Monotone.Basic
/-!
# Drafts whose lines are moved

Two scripts that differ in where their lines stand, and in how far they are indented, are read side
by side. Line numbers are only written down, and an indent is only compared with other indents and
with bounds, so the drafts stay the same but for the places of their lines.
-/

namespace Colloquy.Script

/-- How the lines of a script are moved: their numbers, and their indents in a way that keeps what is
further in further in. What stands on no line has the number zero. With `Keeps` no number changes, not
even that of the last line. -/
structure Shift where
  line : Nat → Nat
  indent : Nat → Nat
  Keeps : Prop
  line_zero : line 0 = 0
  rises : StrictMono indent
  kept : Keeps → ∀ n, line n = n

namespace Shift

variable (σ : Shift)

/-- Whether two bounds have the same indents below them. -/
def Bounds (a a' : Nat) : Prop :=
  ∀ n, n < a ↔ σ.indent n < a'

/-- Whether a diagnostic says of a moved line what another says of the line: its text may name other
lines. -/
structure Echoes (d d' : Diagnostic) : Prop where
  severity : d'.severity = d.severity
  fatal : d'.fatal = d.fatal
  same : σ.Keeps → d' = d

variable {σ}

theorem bounds_zero : σ.Bounds 0 0 := by
  intro n
  simp

theorem bounds_indent (n : Nat) : σ.Bounds n (σ.indent n) :=
  fun _ => σ.rises.lt_iff_lt.symm

theorem bounds_succ (n : Nat) : σ.Bounds (n + 1) (σ.indent n + 1) := by
  intro m
  rw [Nat.lt_succ_iff, Nat.lt_succ_iff]
  exact σ.rises.le_iff_le.symm

theorem Bounds.decide_le {a a' : Nat} (bounds : σ.Bounds a a') (n : Nat) :
    decide (a' ≤ σ.indent n) = decide (a ≤ n) := by
  rw [decide_eq_decide, ← Nat.not_lt, ← Nat.not_lt, bounds n]

theorem echoes_complain {line line' : Nat} {message message' : String}
    (same : σ.Keeps → line' = line ∧ message' = message) :
    σ.Echoes (.complain line message) (.complain line' message') := by
  refine ⟨rfl, rfl, fun keeps => ?_⟩
  rw [(same keeps).1, (same keeps).2]

theorem echoes_warn (line : Nat) (message : String) :
    σ.Echoes (.warn line message) (.warn (σ.line line) message) := by
  refine ⟨rfl, rfl, fun keeps => ?_⟩
  rw [σ.kept keeps line]

theorem echoes_refuse (line : Nat) (message : String) :
    σ.Echoes (.refuse line message) (.refuse (σ.line line) message) := by
  refine ⟨rfl, rfl, fun keeps => ?_⟩
  rw [σ.kept keeps line]

end Shift

/-! ### What is moved -/

/-- An edge and the same edge of a moved line. -/
structure DraftEdge.Moved (σ : Shift) (e e' : DraftEdge) : Prop where
  same : e' = { e with line := e'.line, reach := e'.reach }
  line : e'.line = σ.line e.line
  reach : σ.Bounds e.reach e'.reach

/-- A node and the same node of a moved line. -/
structure Draft.Moved (σ : Shift) (d d' : Draft) : Prop where
  step : d'.step = d.step
  path : d'.path = d.path
  line : d'.line = σ.line d.line
  indent : d'.indent = σ.indent d.indent
  reach : σ.Bounds d.reach d'.reach
  edges : List.Forall₂ (DraftEdge.Moved σ) d.edges d'.edges

/-- A frame and the same frame of a moved line. -/
structure Frame.Moved (σ : Shift) (f f' : Frame) : Prop where
  kind : f'.kind = f.kind
  last : f'.last = f.last
  threshold : σ.Bounds f.threshold f'.threshold
  reach : σ.Bounds f.reach f'.reach
  line : f'.line = σ.line f.line

/-- A step of a header that stands on a moved line; its indent does not count. -/
def Draft.renumbered (σ : Shift) (d : Draft) : Draft :=
  { d with
    line := σ.line d.line
    edges := d.edges.map fun e => { e with line := σ.line e.line } }

/-- The drafts of two scripts of which one has the lines of the other, moved. -/
structure Builder.Moved (σ : Shift) (b b' : Builder) : Prop where
  nodes : List.Forall₂ (Draft.Moved σ) b.nodes b'.nodes
  header : b'.header = b.header.map (Draft.renumbered σ)
  top : b.top.Moved σ b'.top
  below : List.Forall₂ (Frame.Moved σ) b.below b'.below
  looseEdges : b'.looseEdges = b.looseEdges
  looseNodes : b'.looseNodes = b.looseNodes
  waiting : b'.waiting = b.waiting.map fun l => (l.1, σ.line l.2)
  labels : b'.labels = b.labels
  headerState : b'.headerState = b.headerState
  diagnostics : List.Forall₂ σ.Echoes b.diagnostics b'.diagnostics

variable {σ : Shift}

/-! ### Changing moved drafts -/

theorem DraftEdge.Moved.aimed {e e' : DraftEdge} (moved : e.Moved σ e')
    (destination : Destination) :
    DraftEdge.Moved σ { e with destination := destination }
      { e' with destination := destination } :=
  ⟨by rw [moved.same], moved.line, moved.reach⟩

theorem Draft.Moved.isLoose {d d' : Draft} (moved : d.Moved σ d') : d'.isLoose = d.isLoose := by
  rw [Draft.isLoose, Draft.isLoose, moved.step, forall₂_isEmpty moved.edges]

theorem Frame.Moved.branch? {f f' : Frame} (moved : f.Moved σ f') : f'.branch? = f.branch? := by
  rw [Frame.branch?, Frame.branch?, moved.kind]

section Nodes

variable {nodes nodes' : List Draft} (moved : List.Forall₂ (Draft.Moved σ) nodes nodes')

include moved

theorem aim_moved (destination : Destination) (r : EdgeRef) :
    List.Forall₂ (Draft.Moved σ) (aim destination nodes r) (aim destination nodes' r) :=
  forall₂_modify _ moved fun _ _ node =>
    { node with edges := forall₂_modify _ node.edges fun _ _ edge => edge.aimed destination }

theorem foldl_aim_moved (destination : Destination) (refs : List EdgeRef) :
    List.Forall₂ (Draft.Moved σ) (refs.foldl (aim destination) nodes)
      (refs.foldl (aim destination) nodes') := by
  induction refs generalizing nodes nodes' with
  | nil => exact moved
  | cons r rest ih => exact ih (aim_moved moved destination r)

theorem attach_moved (i : Nat) {e e' : DraftEdge} (edge : e.Moved σ e') :
    List.Forall₂ (Draft.Moved σ) (attach nodes i e) (attach nodes' i e') :=
  forall₂_modify _ moved fun _ _ node =>
    { node with edges := List.rel_append node.edges (.cons edge .nil) }

theorem continueTo_moved (target i : Nat) :
    List.Forall₂ (Draft.Moved σ) (continueTo target nodes i) (continueTo target nodes' i) := by
  refine forall₂_modify _ moved fun d d' node => ?_
  rw [forall₂_isEmpty node.edges]
  split
  · -- The new edge stands on no line and has no bound.
    exact { node with edges := .cons ⟨rfl, σ.line_zero.symm, Shift.bounds_zero⟩ .nil }
  · exact node

theorem foldl_continueTo_moved (target : Nat) (is : List Nat) :
    List.Forall₂ (Draft.Moved σ) (is.foldl (continueTo target) nodes)
      (is.foldl (continueTo target) nodes') := by
  induction is generalizing nodes nodes' with
  | nil => exact moved
  | cons i rest ih => exact ih (continueTo_moved moved target i)

theorem isLoose_moved (i : Nat) :
    nodes'[i]?.elim false Draft.isLoose = nodes[i]?.elim false Draft.isLoose :=
  rel_elim (q := fun x y => y = x) rfl (forall₂_getElem? moved i) fun _ _ node => node.isLoose

theorem nextEdge_moved (i : Nat) : nextEdge nodes' i = nextEdge nodes i := by
  have slots : nodes'[i]?.elim 0 (·.edges.length) = nodes[i]?.elim 0 (·.edges.length) :=
    rel_elim (q := fun x y => y = x) rfl (forall₂_getElem? moved i) fun _ _ node =>
      node.edges.length_eq.symm
  rw [nextEdge, nextEdge, slots]

end Nodes

namespace Builder.Moved

variable {b b' : Builder}

theorem start : Builder.Moved σ {} {} where
  nodes := .nil
  header := rfl
  top := ⟨rfl, rfl, Shift.bounds_zero, Shift.bounds_zero, σ.line_zero.symm⟩
  below := .nil
  looseEdges := rfl
  looseNodes := rfl
  waiting := rfl
  labels := rfl
  headerState := rfl
  diagnostics := .nil

variable (moved : b.Moved σ b')

include moved

theorem count : b'.nodes.length = b.nodes.length :=
  moved.nodes.length_eq.symm

theorem lastOf {f f' : Frame} (frame : f.Moved σ f') :
    Option.Rel (Draft.Moved σ) (b.lastOf f) (b'.lastOf f') := by
  rw [Builder.lastOf, Builder.lastOf, frame.last]
  cases f.last with
  | none => exact .none
  | some i => exact forall₂_getElem? moved.nodes i

theorem path : b'.path = b.path := by
  have branches := forall₂_filterMap (List.Forall₂.cons moved.top moved.below)
    fun _ _ frame => frame.branch?
  rw [Builder.path, Builder.path, List.filterMap_reverse, List.filterMap_reverse, branches]

theorem note {d d' : Diagnostic} (echoes : σ.Echoes d d') : (b.note d).Moved σ (b'.note d') :=
  { moved with diagnostics := List.rel_append moved.diagnostics (.cons echoes .nil) }

theorem complain {line line' : Nat} {message message' : String}
    (same : σ.Keeps → line' = line ∧ message' = message) :
    (b.note (.complain line message)).Moved σ (b'.note (.complain line' message')) :=
  moved.note (Shift.echoes_complain same)

theorem append {d d' : Draft} (draft : d.Moved σ d') (connect : Bool) :
    (b.append d connect).Moved σ (b'.append d' connect) := by
  -- The node takes its bound from the frame that it is added to, not from its own line.
  have placed : List.Forall₂ (Draft.Moved σ)
      (b.nodes ++ [{ d with reach := b.top.reach, path := b.path }])
      (b'.nodes ++ [{ d' with reach := b'.top.reach, path := b'.path }]) :=
    List.rel_append moved.nodes
      (.cons { draft with path := moved.path, reach := moved.top.reach } .nil)
  have tied := foldl_continueTo_moved (foldl_aim_moved placed (.to b.nodes.length) b.looseEdges)
    b.nodes.length b.looseNodes
  constructor
  case nodes =>
    unfold Builder.append
    dsimp only
    rw [moved.top.last, moved.count, moved.looseEdges, moved.looseNodes]
    cases b.top.last with
    | none => exact tied
    | some last =>
      dsimp only
      rw [isLoose_moved tied last]
      split
      · exact continueTo_moved tied _ last
      · exact tied
  case top =>
    refine { moved.top with last := ?_ }
    exact congrArg some moved.count
  case labels =>
    unfold Builder.append
    dsimp only
    rw [moved.labels, moved.waiting, moved.count, List.foldl_map]
  case header => exact moved.header
  case below => exact moved.below
  case headerState => exact moved.headerState
  case diagnostics => exact moved.diagnostics
  case looseEdges | looseNodes | waiting => rfl

theorem release : b.release.Moved σ b'.release := by
  refine { moved with nodes := ?_, looseEdges := rfl, looseNodes := rfl }
  rw [Builder.release, Builder.release]
  dsimp only
  rw [moved.looseEdges, moved.count]
  exact foldl_aim_moved moved.nodes _ _

/-! ### Blocks -/

theorem closedBlock (block : Block) : b'.closedBlock block = b.closedBlock block := by
  have own : b'.unfinished block = b.unfinished block := by
    rw [Builder.unfinished, Builder.unfinished, moved.top.last]
    cases b.top.last with
    | none => rfl
    | some last =>
      dsimp only
      rw [isLoose_moved moved.nodes last]
  rw [Builder.closedBlock, Builder.closedBlock, moved.looseEdges, moved.looseNodes, own]

theorem closeBlock (block : Block) {outer outer' : Frame} {rest rest' : List Frame}
    (frame : outer.Moved σ outer') (frames : List.Forall₂ (Frame.Moved σ) rest rest') :
    (b.closeBlock block outer rest).Moved σ (b'.closeBlock block outer' rest') := by
  have resumes : (resumed block outer).Moved σ (resumed block outer') :=
    { frame with last := rfl }
  cases chained : block.chained with
  | true =>
    rw [closeBlock_chained b outer rest chained, closeBlock_chained b' outer' rest' chained,
      moved.closedBlock block]
    exact { moved with
      nodes := foldl_aim_moved moved.nodes _ _
      top := resumes
      below := frames
      looseEdges := rfl
      looseNodes := rfl }
  | false =>
    cases hasElse : block.hasElse with
    | true =>
      rw [closeBlock_complete b outer rest chained hasElse,
        closeBlock_complete b' outer' rest' chained hasElse, moved.closedBlock block]
      exact { moved with top := resumes, below := frames, looseEdges := rfl, looseNodes := rfl }
    | false =>
      have paths := forall₂_filterMap (List.Forall₂.cons frame frames) fun _ _ f => f.branch?
      have edge : (b.fallbackEdge outer rest).Moved σ (b'.fallbackEdge outer' rest') := by
        refine ⟨?_, moved.top.line, moved.top.reach⟩
        unfold fallbackEdge
        rw [List.filterMap_reverse, List.filterMap_reverse, paths]
      -- The branch that is added stands on the line of the if, in the bound of its frame.
      rw [closeBlock_partial b outer rest chained hasElse,
        closeBlock_partial b' outer' rest' chained hasElse, moved.closedBlock block,
        nextEdge_moved moved.nodes]
      exact { moved with
        nodes := attach_moved moved.nodes _ edge
        top := resumes
        below := frames
        looseEdges := rfl
        looseNodes := rfl }

theorem pop {line line' : Nat} (near : σ.Keeps → line' = line) :
    (b.pop line).Moved σ (b'.pop line') := by
  unfold Builder.pop
  cases below : b.below with
  | nil =>
    have frames := moved.below
    rw [below] at frames
    rw [List.forall₂_nil_left_iff.mp frames]
    exact moved
  | cons outer rest =>
    have frames := moved.below
    rw [below] at frames
    obtain ⟨outer', rest', frame, frames, whole⟩ := List.forall₂_cons_left_iff.mp frames
    rw [whole]
    dsimp only
    rw [moved.top.kind]
    cases kind : b.top.kind with
    | block block =>
      -- The complaint names the line of the if as well, which is kept where numbers are.
      refine (moved.complain fun keeps => ⟨near keeps, ?_⟩).closeBlock block frame frames
      rw [moved.top.line, σ.kept keeps]
    | root | option => exact { moved.release with top := frame, below := frames }

theorem settle {line line' : Nat} (near : σ.Keeps → line' = line) (indent : Nat) :
    (b.settle line indent).Moved σ (b'.settle line' (σ.indent indent)) := by
  unfold Builder.settle
  rw [← moved.below.length_eq]
  generalize b.below.length = fuel
  induction fuel generalizing b b' with
  | zero => exact moved
  | succ fuel ih =>
    -- The same frames close, since the same indents are below their thresholds.
    rw [popAbove, popAbove, forall₂_isEmpty moved.below, moved.top.threshold.decide_le]
    split
    · exact moved
    · exact ih (moved.pop near)

theorem popAll {line line' : Nat} (near : σ.Keeps → line' = line) (fuel : Nat) :
    (Builder.popAll line fuel b).Moved σ (Builder.popAll line' fuel b') := by
  induction fuel generalizing b b' with
  | zero => exact moved
  | succ fuel ih =>
    rw [Builder.popAll, Builder.popAll, forall₂_isEmpty moved.below]
    split
    · exact moved
    · exact ih (moved.pop near)

/-! ### Statements -/

omit moved in
/-- A node without edges that a moved line makes. -/
theorem draft_moved (step : Step) (line indent : Nat) :
    Draft.Moved σ ⟨step, line, indent, [], 0, []⟩ ⟨step, σ.line line, σ.indent indent, [], 0, []⟩ :=
  ⟨rfl, rfl, rfl, rfl, Shift.bounds_zero, .nil⟩

theorem option (line indent : Nat) (text textId : String) :
    (b.option line indent text textId).Moved σ
      (b'.option (σ.line line) (σ.indent indent) text textId) := by
  have joined : ((b'.lastOf b'.top).filter (·.step.kind = .choice)).isSome
      = ((b.lastOf b.top).filter (·.step.kind = .choice)).isSome := by
    rw [Option.isSome_filter, Option.isSome_filter]
    refine rel_any (moved.lastOf moved.top) fun _ _ node => ?_
    rw [node.step]
  have choice : (b.atChoice line indent).Moved σ (b'.atChoice (σ.line line) (σ.indent indent)) := by
    unfold atChoice
    rw [joined]
    split
    · exact moved.release
    · exact moved.append (draft_moved _ _ _) true
  obtain ⟨i, last⟩ := atChoice_last (b := b) line indent
  have last' := choice.top.last.trans last
  -- An option is bounded by the indent of the choice that it belongs to, which may be an earlier
  -- line.
  have reach : σ.Bounds ((b.atChoice line indent).nodes[i]?.elim 0 (·.indent))
      ((b'.atChoice (σ.line line) (σ.indent indent)).nodes[i]?.elim 0 (·.indent)) := by
    refine rel_elim (q := σ.Bounds) Shift.bounds_zero (forall₂_getElem? choice.nodes i)
      fun _ _ node => ?_
    rw [node.indent]
    exact Shift.bounds_indent _
  rw [option_eq text textId last, option_eq text textId last', nextEdge_moved choice.nodes]
  have edge : DraftEdge.Moved σ ((b.atChoice line indent).optionEdge i line text textId)
      ((b'.atChoice (σ.line line) (σ.indent indent)).optionEdge i (σ.line line) text textId) := by
    refine ⟨?_, rfl, reach⟩
    rw [optionEdge, optionEdge, choice.path]
  exact { choice with
    nodes := attach_moved choice.nodes i edge
    top := ⟨rfl, rfl, Shift.bounds_succ indent, reach, rfl⟩
    below := .cons choice.top choice.below
    looseEdges := rfl }

theorem follows (indent : Nat) : b'.follows (σ.indent indent) = b.follows indent := by
  refine rel_elim (q := fun x y => y = x) rfl (moved.lastOf moved.top) fun _ _ node => ?_
  rw [node.step, node.indent, decide_eq_decide.mpr (σ.rises.le_iff_le (a := _) (b := indent))]

theorem enterBlock {f f' : Frame} {e e' : DraftEdge} (frame : f.Moved σ f') (select : Nat)
    (edge : e.Moved σ e') : (b.enterBlock f select e).Moved σ (b'.enterBlock f' select e') := by
  have next := nextEdge_moved moved.nodes select
  exact { moved with
    nodes := attach_moved moved.nodes select edge
    top := frame
    below := .cons moved.top moved.below
    looseEdges := congrArg (fun r => [r]) next }

theorem withChained (choice line indent : Nat) :
    (b.withChained choice line indent).Moved σ
      (b'.withChained choice (σ.line line) (σ.indent indent)) := by
  have added := moved.release.append (draft_moved .select line indent) false
  unfold Builder.withChained
  rw [moved.count]
  exact { added with
    nodes := attach_moved added.nodes choice ⟨rfl, rfl, Shift.bounds_zero⟩ }

omit moved in
theorem blockFrame_moved {reach reach' : Nat} (bounds : σ.Bounds reach reach')
    (select after line indent : Nat) (chained : Bool) :
    Frame.Moved σ (blockFrame select after line indent reach chained)
      (blockFrame select after (σ.line line) (σ.indent indent) reach' chained) :=
  ⟨rfl, rfl, Shift.bounds_indent indent, bounds, rfl⟩

omit moved in
theorem branchEdge_moved {reach reach' : Nat} (bounds : σ.Bounds reach reach') (line : Nat)
    (path : List Branch) (condition : Expression) :
    DraftEdge.Moved σ (branchEdge line reach path condition)
      (branchEdge (σ.line line) reach' path condition) :=
  ⟨rfl, rfl, bounds⟩

theorem openIf (line indent : Nat) (condition : Expression) (optionNext : Bool) :
    (b.openIf line indent condition optionNext).Moved σ
      (b'.openIf (σ.line line) (σ.indent indent) condition optionNext) := by
  -- A block that is chained has a choice before it, which is there already or is made for it.
  by_cases chained : (b.follows indent || optionNext) = true
  · have head : (b.atHead line indent).Moved σ (b'.atHead (σ.line line) (σ.indent indent)) := by
      unfold atHead
      rw [moved.follows indent]
      split
      · exact moved
      · exact moved.append (draft_moved _ _ _) true
    obtain ⟨choice, last⟩ := atHead_last (b := b) line indent
    have select := head.withChained choice line indent
    rw [openIf_chained condition chained last,
      openIf_chained condition (by rw [moved.follows]; exact chained) (head.top.last.trans last),
      head.count, select.path]
    exact select.enterBlock (blockFrame_moved head.top.reach _ _ line indent _) _
      (branchEdge_moved head.top.reach line _ condition)
  · simp only [Bool.or_eq_true, not_or, Bool.not_eq_true] at chained
    obtain ⟨alone, rfl⟩ := chained
    have select := moved.append (draft_moved .select line indent) true
    rw [openIf_unchained condition alone,
      openIf_unchained condition ((moved.follows indent).trans alone), moved.count]
    unfold withSelect
    rw [select.path]
    exact select.enterBlock (blockFrame_moved moved.top.reach _ _ line indent _) _
      (branchEdge_moved moved.top.reach line _ condition)

theorem addBranch (line : Nat) (condition : Option Expression) (keyword : String) :
    (b.addBranch line condition keyword).Moved σ
      (b'.addBranch (σ.line line) condition keyword) := by
  cases kind : b.top.kind with
  | block block =>
    have kind' := moved.top.kind.trans kind
    cases hasElse : block.hasElse with
    | true =>
      unfold Builder.addBranch
      rw [kind', kind]
      dsimp only
      rw [if_pos hasElse, if_pos hasElse]
      refine moved.complain fun keeps => ⟨σ.kept keeps line, ?_⟩
      rw [moved.top.line, σ.kept keeps]
    | false =>
      have paths := forall₂_filterMap moved.below fun _ _ f => f.branch?
      have edge : DraftEdge.Moved σ
          (branchEdge line b.top.reach ((b.below.reverse).filterMap Frame.branch?)
            (condition.getD Expression.always))
          (branchEdge (σ.line line) b'.top.reach ((b'.below.reverse).filterMap Frame.branch?)
            (condition.getD Expression.always)) := by
        rw [List.filterMap_reverse, List.filterMap_reverse, paths]
        exact branchEdge_moved moved.top.reach line _ _
      have next : b'.nextBranch block condition.isNone = b.nextBranch block condition.isNone := by
        unfold nextBranch
        rw [moved.closedBlock]
      rw [addBranch_eq line condition keyword kind hasElse,
        addBranch_eq (σ.line line) condition keyword kind' hasElse]
      exact { moved with
        nodes := attach_moved moved.nodes block.select edge
        top := { moved.top with kind := congrArg FrameKind.block next, last := rfl }
        looseEdges := congrArg (fun r => [r]) (nextEdge_moved moved.nodes block.select)
        looseNodes := rfl }
  | root | option =>
    have kind' := moved.top.kind.trans kind
    unfold Builder.addBranch
    rw [kind', kind]
    exact moved.complain fun keeps => ⟨σ.kept keeps line, rfl⟩

theorem endIf (line : Nat) : (b.endIf line).Moved σ (b'.endIf (σ.line line)) := by
  have stray : (b.note (.complain line "[endif] without a matching [if]")).Moved σ
      (b'.note (.complain (σ.line line) "[endif] without a matching [if]")) :=
    moved.complain fun keeps => ⟨σ.kept keeps line, rfl⟩
  have frames := moved.below
  unfold Builder.endIf
  rw [moved.top.kind]
  cases b.top.kind with
  | root | option => exact stray
  | block block =>
    cases below : b.below with
    | nil =>
      rw [below] at frames
      rw [List.forall₂_nil_left_iff.mp frames]
      exact stray
    | cons outer rest =>
      rw [below] at frames
      obtain ⟨outer', rest', frame, others, whole⟩ := List.forall₂_cons_left_iff.mp frames
      rw [whole]
      exact moved.closeBlock block frame others

theorem label (endLabel : String) (line : Nat) (name : String) :
    (b.label endLabel line name).Moved σ (b'.label endLabel (σ.line line) name) := by
  have waits : b'.waiting.any (·.1 = name) = b.waiting.any (·.1 = name) := by
    rw [moved.waiting, List.any_map]
    rfl
  unfold Builder.label
  rw [waits, moved.labels]
  split
  · exact moved.complain fun keeps => ⟨σ.kept keeps line, rfl⟩
  · split
    · exact moved.note (Shift.echoes_warn line _)
    · refine { moved with waiting := ?_, labels := rfl }
      rw [moved.waiting, List.map_append]
      rfl

theorem bare (line indent : Nat) (text textId : String) :
    (b.bare line indent text textId).Moved σ
      (b'.bare (σ.line line) (σ.indent indent) text textId) := by
  have nobody : (b.note (.complain line ("Text line has no speaker: '" ++ text ++ "'"))).Moved σ
      (b'.note (.complain (σ.line line) ("Text line has no speaker: '" ++ text ++ "'"))) :=
    moved.complain fun keeps => ⟨σ.kept keeps line, rfl⟩
  have last := moved.lastOf moved.top
  unfold Builder.bare
  generalize b.lastOf b.top = before at last ⊢
  generalize b'.lastOf b'.top = before' at last ⊢
  cases last with
  | none => exact nobody
  | @some d d' node =>
    obtain ⟨step, _, indent₀, _, _, _⟩ := d
    obtain ⟨step', _, indent₀', _, _, _⟩ := d'
    cases node.step
    cases node.indent
    cases step with
    | text =>
      dsimp only
      -- What counts is whether the line is further out than the text that it goes on.
      by_cases out : indent < indent₀
      · rw [if_pos out, if_pos (σ.rises out)]
        exact nobody
      · rw [if_neg out, if_neg (mt σ.rises.lt_iff_lt.mp out)]
        exact moved.append (draft_moved _ _ _) true
    | choice | select | assign | event | goto => exact nobody

/-! ### Header and end -/

theorem delimiter (line : Nat) : (b.delimiter line).Moved σ (b'.delimiter (σ.line line)) := by
  have waits : b'.waiting.isEmpty = b.waiting.isEmpty := by
    rw [moved.waiting, List.isEmpty_map]
  have opened (state : HeaderState) :
      Builder.Moved σ { b with headerState := state } { b' with headerState := state } :=
    { moved with headerState := rfl }
  unfold Builder.delimiter
  dsimp only
  rw [moved.headerState, forall₂_isEmpty moved.nodes, waits]
  split
  · exact opened _
  · split
    · exact (opened _).complain fun keeps => ⟨σ.kept keeps line, rfl⟩
    · split
      · exact (opened _).complain fun keeps => ⟨σ.kept keeps line, rfl⟩
      · exact opened _

theorem headerStep (d : Draft) :
    (b.headerStep d).Moved σ (b'.headerStep (d.renumbered σ)) := by
  unfold Builder.headerStep
  rw [moved.headerState]
  split
  · refine { moved with header := ?_, headerState := rfl }
    rw [moved.header, List.map_append]
    rfl
  · exact moved

theorem finish {last last' : Nat} (near : σ.Keeps → last' = last) :
    (b.finish last).Moved σ (b'.finish last') := by
  have closed : (b.closed last).Moved σ (b'.closed last') := by
    unfold Builder.closed
    dsimp only
    rw [moved.headerState]
    split
    · have noted : (b.note (.complain last "Header block is never closed with '==='")).Moved σ
          (b'.note (.complain last' "Header block is never closed with '==='")) :=
        moved.complain fun keeps => ⟨near keeps, rfl⟩
      rw [← noted.below.length_eq]
      exact (noted.popAll near _).release
    · rw [← moved.below.length_eq]
      exact (moved.popAll near _).release
  -- Labels that nothing follows lead to the end.
  have ended : ∀ (waiting : List (String × Nat)) {c c' : Builder}, c.Moved σ c' →
      (c.endLabels waiting).Moved σ
        (c'.endLabels (waiting.map fun l => (l.1, σ.line l.2))) := by
    intro waiting
    induction waiting with
    | nil => exact fun moved => moved
    | cons l rest ih =>
      intro c c' moved
      refine ih (c := { c.note _ with labels := setEntry c.labels l.1 none }) ?_
      exact { moved.note (Shift.echoes_warn l.2 _) with
        labels := congrArg (setEntry · l.1 none) moved.labels }
  rw [finish_eq, finish_eq, closed.waiting]
  exact { ended _ closed with waiting := rfl }

end Builder.Moved

end Colloquy.Script
