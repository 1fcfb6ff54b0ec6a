import Colloquy.Proofs.Script.Growing
import Colloquy.Proofs.Script.Sheet
import Colloquy.Proofs.Script.Statement
import Colloquy.Table
/-!
# Sound builders

While a script is read the nodes are sound, whatever waits is an option, a branch or a step that runs
on, and no edge waits in two places. This holds at the start and after every line, faulty lines
included.
-/

namespace Colloquy.Script

/-- A frame that is sound over nodes. -/
structure Frame.Sound (nodes : List Draft) (f : Frame) : Prop where
  last : ∀ i, f.last = some i → i < nodes.length
  block : ∀ block, f.kind = .block block →
    IsSelect nodes block.select ∧ block.after < nodes.length
      ∧ ∀ i ∈ block.looseNodes, RunsOn nodes i
  parked : ∀ r ∈ f.parked, Tieable nodes r

theorem Frame.Sound.mono {held : Nat → Prop} {loose : EdgeRef → Prop} {a b : List Draft} {f : Frame}
    (h : Extends held loose a b) (sound : f.Sound a) : f.Sound b where
  last i last := Nat.lt_of_lt_of_le (sound.last i last) h.length_le
  block block kind := by
    obtain ⟨select, after, nodes⟩ := sound.block block kind
    exact ⟨select.mono h, Nat.lt_of_lt_of_le after h.length_le,
      fun i member => (nodes i member).mono h⟩
  parked r member := (sound.parked r member).mono h

namespace Builder

/-- All edges that wait. -/
def pending (b : Builder) : List EdgeRef :=
  b.looseEdges ++ b.stack.flatMap Frame.parked

/-- A sound builder. -/
structure Sound (b : Builder) : Prop where
  sheet : Sheet b.nodes
  edges : ∀ r ∈ b.looseEdges, Tieable b.nodes r
  loose : ∀ i ∈ b.looseNodes, RunsOn b.nodes i
  frames : ∀ f ∈ b.stack, f.Sound b.nodes
  apart : b.pending.Nodup

namespace Sound

variable {b : Builder}

theorem top (sound : b.Sound) : b.top.Sound b.nodes :=
  sound.frames b.top (List.mem_cons_self ..)

/-- What waits is there. -/
theorem pending_tieable (sound : b.Sound) {r : EdgeRef} (member : r ∈ b.pending) :
    Tieable b.nodes r := by
  rcases List.mem_append.mp member with waits | parked
  · exact sound.edges r waits
  · obtain ⟨f, inside, parks⟩ := List.mem_flatMap.mp parked
    exact (sound.frames f inside).parked r parks

/-- An edge that is added next does not wait yet. -/
theorem nextEdge_not_pending (sound : b.Sound) (i : Nat) : nextEdge b.nodes i ∉ b.pending := by
  intro member
  obtain ⟨e, there, _⟩ := sound.pending_tieable member
  rw [nextEdge_absent] at there
  cases there

theorem of_same {c : Builder} (sound : b.Sound) (nodes : c.nodes = b.nodes)
    (edges : c.looseEdges = b.looseEdges) (loose : c.looseNodes = b.looseNodes)
    (stack : c.stack = b.stack) : c.Sound := by
  refine ⟨nodes ▸ sound.sheet, ?_, ?_, ?_, ?_⟩
  · rw [nodes, edges]
    exact sound.edges
  · rw [nodes, loose]
    exact sound.loose
  · rw [nodes, stack]
    exact sound.frames
  · rw [pending, edges, stack]
    exact sound.apart

theorem note (sound : b.Sound) (d : Diagnostic) : (b.note d).Sound :=
  sound.of_same rfl rfl rfl rfl

theorem tieLast_sheet {nodes : List Draft} {target : Nat} {connect : Bool} {last : Option Nat}
    (sheet : Sheet nodes) (bound : target < nodes.length) :
    Sheet (tieLast target connect last nodes) := by
  unfold tieLast
  cases last with
  | none => exact sheet
  | some l =>
    dsimp only
    split
    next loose =>
      refine sheet.continueTo ?_ bound
      cases there : nodes[l]? with
      | none => simp [there] at loose
      | some d =>
        simp only [there, Option.elim_some, Draft.isLoose, Bool.and_eq_true] at loose
        exact ⟨d, there, loose.2.1⟩
    · exact sheet

theorem append {d : Draft} (sound : b.Sound) (connect : Bool) (step : d.step.Sound)
    (fresh : d.edges = []) : (b.append d connect).Sound := by
  have added : Extends (fun _ => False) (fun _ => False) b.nodes (b.extended d) :=
    Extends.append b.nodes _
  have grown := append_extends b d connect
  have last : b.nodes.length < (b.extended d).length := by simp [extended]
  have sheet : Sheet (b.append d connect).nodes := by
    rw [append_nodes]
    -- the node is put behind the others, and then all that waits is tied to it
    have first : Sheet (b.extended d) := sound.sheet.append step fresh
    have second : Sheet (b.looseEdges.foldl (aim (.to b.nodes.length)) (b.extended d)) := by
      refine first.foldl_aim (fun r member => (sound.edges r member).mono added) ?_
      intro i target
      cases target
      exact last
    have third : Sheet (b.looseNodes.foldl (continueTo b.nodes.length)
        (b.looseEdges.foldl (aim (.to b.nodes.length)) (b.extended d))) := by
      refine second.foldl_continueTo (fun i member => ?_) ?_
      · exact ((sound.loose i member).mono added).mono
          (Extends.foldl_aim (.to b.nodes.length) b.looseEdges (b.extended d))
      · rw [foldl_aim_length]
        exact last
    refine tieLast_sheet third ?_
    rw [foldl_continueTo_length, foldl_aim_length]
    exact last
  refine ⟨sheet, fun r member => (by cases member), fun i member => (by cases member), ?_, ?_⟩
  · intro f member
    rcases List.mem_cons.mp member with rfl | below
    · have before := (sound.top.mono added).mono grown
      refine ⟨fun i isLast => ?_, before.block, before.parked⟩
      have new : b.nodes.length = i := Option.some.inj isLast
      rw [append_length]
      omega
    · exact ((sound.frames f (List.mem_cons_of_mem b.top below)).mono added).mono grown
  · exact sound.apart.sublist (List.sublist_append_right b.looseEdges _)

theorem release (sound : b.Sound) : b.release.Sound := by
  have grown := Extends.foldl_aim (.search b.nodes.length) b.looseEdges b.nodes
  refine ⟨?_, fun r member => (by cases member), fun i member => (by cases member), ?_, ?_⟩
  · exact sound.sheet.foldl_aim sound.edges fun i target => by cases target
  · exact fun f member => (sound.frames f member).mono grown
  · exact sound.apart.sublist (List.sublist_append_right b.looseEdges _)

/-- Adds an edge that suits its node and waits from then on, if it may be aimed. -/
theorem attach (sound : b.Sound) {i : Nat} (edge : DraftEdge) (edges : List EdgeRef)
    (suits : ∀ d, b.nodes[i]? = some d →
      d.step.isSequential = false ∧ edge.Suits b.nodes d.step.kind)
    (bound : ∀ j, edge.destination = .to j → j < b.nodes.length)
    (loose : edges = b.looseEdges ∨ (edges = b.looseEdges ++ [nextEdge b.nodes i]
      ∧ i < b.nodes.length ∧ (edge.kind = .decision ∨ edge.kind = .condition))) :
    { b with nodes := Script.attach b.nodes i edge, looseEdges := edges }.Sound := by
  have grown := Extends.attach b.nodes i edge
  refine ⟨sound.sheet.attach suits bound, ?_, fun j member => (sound.loose j member).mono grown,
    fun f member => (sound.frames f member).mono grown, ?_⟩
  · intro r member
    rcases loose with same | ⟨more, inside, kind⟩
    · exact (sound.edges r (same ▸ member)).mono grown
    · rcases List.mem_append.mp (more ▸ member) with old | new
      · exact (sound.edges r old).mono grown
      · rw [List.mem_singleton.mp new]
        exact ⟨edge, edgeAt_attach edge inside, kind⟩
  · rcases loose with rfl | ⟨rfl, _, _⟩
    · exact sound.apart
    · have apart := List.nodup_cons.mpr ⟨sound.nextEdge_not_pending i, sound.apart⟩
      refine (List.Perm.nodup_iff ?_).mp apart
      change (_ :: (b.looseEdges ++ b.stack.flatMap Frame.parked)).Perm
        (b.looseEdges ++ [nextEdge b.nodes i] ++ b.stack.flatMap Frame.parked)
      rw [List.append_assoc, List.singleton_append]
      exact List.perm_middle.symm

/-- Opens a frame in which no edge is parked. -/
theorem enter {f : Frame} (sound : b.Sound) (frame : f.Sound b.nodes) (parked : f.parked = []) :
    { b with top := f, below := b.stack }.Sound := by
  refine ⟨sound.sheet, sound.edges, sound.loose, ?_, ?_⟩
  · intro g member
    rcases List.mem_cons.mp member with rfl | below
    · exact frame
    · exact sound.frames g below
  · have same : ({ b with top := f, below := b.stack } : Builder).pending = b.pending := by
      simp only [pending, stack, List.flatMap_cons, parked, List.nil_append]
    rw [same]
    exact sound.apart

theorem resumed_sound {block : Block} {outer : Frame} {nodes : List Draft}
    (outerSound : outer.Sound nodes) (after : block.after < nodes.length) :
    (resumed block outer).Sound nodes where
  last i last := by
    have same : block.after = i := Option.some.inj last
    omega
  block := outerSound.block
  parked := outerSound.parked

theorem unfinished_runs {block : Block} {i : Nat} (member : i ∈ b.unfinished block) :
    RunsOn b.nodes i := by
  unfold unfinished at member
  cases last : b.top.last with
  | none => simp [last] at member
  | some l =>
    simp only [last] at member
    split at member
    next loose =>
      rw [List.mem_singleton.mp member]
      cases there : b.nodes[l]? with
      | none => simp [there] at loose
      | some d =>
        simp only [there, Option.elim_some, Draft.isLoose, Bool.and_eq_true] at loose
        exact ⟨d, there, loose.2.1⟩
    · cases member

theorem closedBlock_loose {block : Block} (sound : b.Sound) (kind : b.top.kind = .block block) :
    ∀ i ∈ (b.closedBlock block).looseNodes, RunsOn b.nodes i := by
  intro i member
  obtain ⟨_, _, nodes⟩ := sound.top.block block kind
  rcases List.mem_append.mp member with before | own
  · rcases List.mem_append.mp before with parked | waits
    · exact nodes i parked
    · exact sound.loose i waits
  · exact unfinished_runs own

theorem closedBlock_pending {block : Block} (kind : b.top.kind = .block block) :
    b.pending.Perm ((b.closedBlock block).looseEdges ++ b.below.flatMap Frame.parked) := by
  have own : b.top.parked = block.looseEdges := by rw [Frame.parked, kind]
  rw [pending, stack, List.flatMap_cons, own, ← List.append_assoc]
  exact List.Perm.append_right _ List.perm_append_comm

theorem closedBlock_edges {block : Block} (sound : b.Sound) (kind : b.top.kind = .block block) :
    ∀ r ∈ (b.closedBlock block).looseEdges, Tieable b.nodes r := fun _ member =>
  sound.pending_tieable ((closedBlock_pending kind).mem_iff.mpr (List.mem_append_left _ member))

theorem fallbackEdge_suits {outer : Frame} {rest : List Frame} {d : Draft}
    (select : d.step = .select) :
    d.step.isSequential = false
      ∧ (b.fallbackEdge outer rest).Suits b.nodes d.step.kind := by
  rw [select]
  exact ⟨rfl, rfl, ⟨_, rfl, Expression.always_readable⟩, rfl, rfl, rfl⟩

theorem isSelect_eq {nodes : List Draft} {i : Nat} {d : Draft} (select : IsSelect nodes i)
    (there : nodes[i]? = some d) : d.step = .select := by
  obtain ⟨d', found, step⟩ := select
  rw [there] at found
  cases found
  exact step

theorem closeBlock {block : Block} {outer : Frame} {rest : List Frame} (sound : b.Sound)
    (kind : b.top.kind = .block block) (below : b.below = outer :: rest) :
    (b.closeBlock block outer rest).Sound := by
  obtain ⟨select, after, _⟩ := sound.top.block block kind
  have edges := closedBlock_edges sound kind
  have loose := closedBlock_loose sound kind
  -- what was set aside in the block waits near from now on
  have apart : ((b.closedBlock block).looseEdges
      ++ (resumed block outer :: rest).flatMap Frame.parked).Nodup := by
    have := (closedBlock_pending kind).nodup_iff.mp sound.apart
    rw [below] at this
    exact this
  have inner : ∀ f ∈ resumed block outer :: rest, f.Sound b.nodes := by
    intro f member
    rcases List.mem_cons.mp member with rfl | inside
    · refine resumed_sound (sound.frames outer ?_) after
      simp [stack, below]
    · exact sound.frames f (by simp [stack, below, inside])
  cases chained : block.chained with
  | true =>
    rw [closeBlock_chained b outer rest chained]
    have grown := Extends.foldl_aim .end (b.closedBlock block).looseEdges b.nodes
    refine ⟨sound.sheet.foldl_aim edges fun i target => (by cases target),
      fun r member => (by cases member), fun i member => (loose i member).mono grown,
      fun f member => (inner f member).mono grown, ?_⟩
    exact apart.sublist (List.sublist_append_right _ _)
  | false =>
    cases hasElse : block.hasElse with
    | true =>
      rw [closeBlock_complete b outer rest chained hasElse]
      exact ⟨sound.sheet, edges, loose, inner, apart⟩
    | false =>
      rw [closeBlock_partial b outer rest chained hasElse]
      let closing : Builder := { b with
        top := resumed block outer
        below := rest
        looseEdges := (b.closedBlock block).looseEdges
        looseNodes := (b.closedBlock block).looseNodes }
      have base : closing.Sound := ⟨sound.sheet, edges, loose, inner, apart⟩
      exact base.attach _ _ (fun d there => fallbackEdge_suits (isSelect_eq select there))
        (fun j target => by cases target) (Or.inr ⟨rfl, select.lt, Or.inr rfl⟩)

theorem pop (sound : b.Sound) (line : Nat) : (b.pop line).Sound := by
  unfold Builder.pop
  split
  · exact sound
  next outer rest below =>
    split
    next block kind => exact (sound.note _).closeBlock kind below
    next noBlock =>
      have released := sound.release
      refine ⟨released.sheet, released.edges, released.loose, ?_, ?_⟩
      · exact fun f member => released.frames f (by
          change f ∈ b.top :: b.below
          rw [below]
          exact List.mem_cons_of_mem b.top member)
      · refine released.apart.sublist ?_
        change ((outer :: rest).flatMap Frame.parked).Sublist
          (b.top.parked ++ b.below.flatMap Frame.parked)
        rw [below]
        exact List.sublist_append_right _ _

theorem popAbove (sound : b.Sound) (line indent fuel : Nat) :
    (Builder.popAbove line indent fuel b).Sound := by
  induction fuel generalizing b with
  | zero => exact sound
  | succ fuel ih =>
    rw [Builder.popAbove]
    split
    · exact sound
    · exact ih (sound.pop line)

theorem popAll (sound : b.Sound) (line fuel : Nat) : (Builder.popAll line fuel b).Sound := by
  induction fuel generalizing b with
  | zero => exact sound
  | succ fuel ih =>
    rw [Builder.popAll]
    split
    · exact sound
    · exact ih (sound.pop line)

/-! ### Options and blocks -/

theorem atChoice_choice {line indent choice : Nat}
    (last : (b.atChoice line indent).top.last = some choice) :
    ∃ d, (b.atChoice line indent).nodes[choice]? = some d ∧ d.step = .choice := by
  unfold Builder.atChoice at last ⊢
  split
  next joined =>
    rw [if_pos joined] at last
    simp only [Option.isSome_filter, Option.any_eq_true, decide_eq_true_eq] at joined
    obtain ⟨d, found, kind⟩ := joined
    obtain ⟨i, isLast, there⟩ := Option.bind_eq_some_iff.mp found
    have same : i = choice := Option.some.inj (isLast.symm.trans last)
    subst same
    have grown := Extends.foldl_aim (.search b.nodes.length) b.looseEdges b.nodes
    obtain ⟨d', now, core, _⟩ := grown.node there
    exact ⟨d', now, (Draft.step_eq_of_core core).trans (step_eq_choice kind)⟩
  next apart =>
    rw [if_neg apart] at last
    have same : b.nodes.length = choice := Option.some.inj last
    subst same
    exact append_there b _ true

theorem atChoice (sound : b.Sound) (line indent : Nat) : (b.atChoice line indent).Sound := by
  unfold Builder.atChoice
  split
  · exact sound.release
  · exact sound.append true trivial rfl

theorem atChoice_loose (b : Builder) (line indent : Nat) :
    (b.atChoice line indent).looseEdges = [] ∧ (b.atChoice line indent).looseNodes = [] := by
  unfold Builder.atChoice
  split <;> exact ⟨rfl, rfl⟩

theorem option (sound : b.Sound) (line indent : Nat) (text textId : String) :
    (b.option line indent text textId).Sound := by
  obtain ⟨choice, last⟩ := atChoice_last b line indent
  obtain ⟨d, there, step⟩ := atChoice_choice last
  obtain ⟨noEdges, _⟩ := atChoice_loose b line indent
  rw [option_eq text textId last]
  have base := sound.atChoice line indent
  have added := base.attach ((b.atChoice line indent).optionEdge choice line text textId)
    [nextEdge (b.atChoice line indent).nodes choice]
    (fun d' node => by
      rw [there] at node
      cases node
      rw [step]
      exact ⟨rfl, Or.inl ⟨rfl, rfl, fun p member => Template.params_ne_empty member⟩⟩)
    (fun j target => by cases target)
    (Or.inr ⟨by rw [noEdges]; rfl, (List.getElem?_eq_some_iff.mp there).1, Or.inl rfl⟩)
  refine added.enter (f := (b.atChoice line indent).optionFrame choice line indent) ?_ rfl
  refine ⟨fun i none => ?_, fun block kind => ?_, fun r member => ?_⟩
  · cases none
  · cases kind
  · cases member

/-- Entering a block whose select has no other frame. -/
theorem enterBlock {f : Frame} (block : Block) (sound : b.Sound) {line reach : Nat}
    {path : List Branch} {condition : Expression} (none : b.looseEdges = [])
    (kind : f.kind = .block block) (last : f.last = some block.select)
    (select : IsSelect b.nodes block.select) (after : block.after < b.nodes.length)
    (edges : block.looseEdges = []) (nodes : block.looseNodes = [])
    (readable : condition.Readable) :
    (b.enterBlock f block.select (branchEdge line reach path condition)).Sound := by
  have parked : f.parked = [] := by rw [Frame.parked, kind]; exact edges
  have added := sound.attach (branchEdge line reach path condition)
    [nextEdge b.nodes block.select]
    (fun d there => by
      rw [isSelect_eq select there]
      exact ⟨rfl, rfl, ⟨condition, rfl, readable⟩, rfl, rfl, rfl⟩)
    (fun j target => by cases target)
    (Or.inr ⟨by rw [none]; rfl, select.lt, Or.inr rfl⟩)
  refine added.enter (f := f) ⟨fun i isLast => ?_, fun block' kind' => ?_, ?_⟩ parked
  · have same : block.select = i := Option.some.inj (last.symm.trans isLast)
    rw [← same, attach_length]
    exact select.lt
  · have same : block = block' := FrameKind.block.inj (kind.symm.trans kind')
    subst same
    refine ⟨select.mono (Extends.attach _ _ _), by rw [attach_length]; exact after, ?_⟩
    rw [nodes]
    exact fun i member => by cases member
  · rw [parked]
    exact fun r member => by cases member

theorem atHead (sound : b.Sound) (line indent : Nat) : (b.atHead line indent).Sound := by
  unfold Builder.atHead
  split
  · exact sound
  · exact sound.append true trivial rfl

theorem withChained {choice : Nat} (sound : b.Sound) (line indent : Nat)
    (isChoice : ∃ d, b.nodes[choice]? = some d ∧ d.step = .choice) :
    (b.withChained choice line indent).Sound
      ∧ IsSelect (b.withChained choice line indent).nodes b.nodes.length := by
  let added := b.release.append ⟨.select, line, indent, [], 0, []⟩ false
  have base : added.Sound := sound.release.append false trivial rfl
  have whole : Grows (fun _ _ => True) 0 b added :=
    (Grows.release b (Nat.zero_le _)).trans
      (Grows.append b.release _ false (Nat.zero_le _) rfl trivial)
  have grown := whole.nodes
  have released : b.release.nodes.length = b.nodes.length := foldl_aim_length _ _ _
  have select : IsSelect added.nodes b.nodes.length := by
    rw [← released]
    exact append_there b.release _ false
  refine ⟨?_, select.mono (Extends.attach _ _ _)⟩
  obtain ⟨d, there, step⟩ := isChoice
  refine base.attach (chainEdge b.nodes.length line) [] (fun d' node => ?_) ?_ (Or.inl rfl)
  · obtain ⟨d'', now, core, _⟩ := grown.node there
    rw [now] at node
    cases node
    rw [Draft.step_eq_of_core core, step]
    exact ⟨rfl, Or.inr ⟨rfl, ⟨rfl, rfl, rfl, rfl⟩, _, rfl, select⟩⟩
  · intro j target
    cases target
    exact select.lt

theorem openIf (sound : b.Sound) (line indent : Nat) {condition : Expression}
    (optionNext : Bool) (readable : condition.Readable) :
    (b.openIf line indent condition optionNext).Sound := by
  cases chained : b.follows indent || optionNext with
  | true =>
    obtain ⟨choice, last⟩ := atHead_last (b := b) line indent
    obtain ⟨base, select⟩ :=
      (sound.atHead line indent).withChained line indent (atHead_choice last)
    rw [openIf_chained condition chained last]
    obtain ⟨d, there, _⟩ := atHead_choice last
    let block : Block :=
      { select := (b.atHead line indent).nodes.length, chained := true, after := choice }
    have bound : choice < ((b.atHead line indent).withChained choice line indent).nodes.length := by
      rw [withChained_length]
      exact Nat.lt_succ_of_lt (List.getElem?_eq_some_iff.mp there).1
    exact base.enterBlock block rfl rfl rfl select bound rfl rfl readable
  | false =>
    simp only [Bool.or_eq_false_iff] at chained
    rw [chained.2, openIf_unchained condition chained.1]
    let block : Block :=
      { select := b.nodes.length, chained := false, after := b.nodes.length }
    have base : (b.withSelect line indent).Sound := sound.append true trivial rfl
    have select : IsSelect (b.withSelect line indent).nodes b.nodes.length :=
      append_there b _ true
    exact base.enterBlock block rfl rfl rfl select select.lt rfl rfl readable

theorem addBranch (sound : b.Sound) (line : Nat) {condition : Option Expression}
    (keyword : String) (readable : ∀ c ∈ condition, c.Readable) :
    (b.addBranch line condition keyword).Sound := by
  cases kind : b.top.kind with
  | block block =>
    cases more : block.hasElse with
    | true =>
      simp only [Builder.addBranch, kind, more, if_true]
      exact sound.note _
    | false =>
      rw [addBranch_eq line condition keyword kind more]
      obtain ⟨select, after, _⟩ := sound.top.block block kind
      -- First the loose ends are set aside, then the branch begins.
      let closing : Builder := { b with
        top := { b.top with
          kind := .block (b.nextBranch block condition.isNone)
          last := some block.select }
        looseEdges := []
        looseNodes := [] }
      have base : closing.Sound := by
        refine ⟨sound.sheet, fun r member => (by cases member), fun i member => (by cases member),
          ?_, ?_⟩
        · intro f member
          rcases List.mem_cons.mp member with rfl | below
          · refine ⟨fun i last => ?_, fun block' kind' => ?_, closedBlock_edges sound kind⟩
            · have same : block.select = i := Option.some.inj last
              rw [← same]
              exact select.lt
            · cases kind'
              exact ⟨select, after, closedBlock_loose sound kind⟩
          · exact sound.frames f (List.mem_cons_of_mem b.top below)
        · exact (closedBlock_pending kind).nodup_iff.mp sound.apart
      refine base.attach _ _ (fun d there => ?_) (fun j target => by cases target)
        (Or.inr ⟨rfl, select.lt, Or.inr rfl⟩)
      rw [isSelect_eq select there]
      refine ⟨rfl, rfl, ⟨_, rfl, ?_⟩, rfl, rfl, rfl⟩
      cases condition with
      | none => exact Expression.always_readable
      | some c => exact readable c rfl
  | root =>
    simp only [Builder.addBranch, kind]
    exact sound.note _
  | option =>
    simp only [Builder.addBranch, kind]
    exact sound.note _

theorem label (sound : b.Sound) (endLabel : String) (line : Nat) (name : String) :
    (b.label endLabel line name).Sound := by
  unfold Builder.label
  split
  · exact sound.note _
  · split
    · exact sound.note _
    · exact sound.of_same rfl rfl rfl rfl

end Sound

end Builder

end Colloquy.Script
