import Colloquy.Proofs.Result
import Colloquy.Proofs.Script.Growth
import Colloquy.Script.Reading
/-!
# Reading lets drafts grow

Lines that are indented at least as far as a frame that is no block leave the frames around it
alone: what they close are the frames opened since.
-/

namespace Colloquy.Script

/-- Frames of which the `n` outermost lie around one that is no block and that lines indented by
`floor` do not close, while they close no less than all frames above it. -/
inductive Founded (n floor : Nat) : List Frame → Prop where
  | floor {f : Frame} {rest : List Frame} (count : rest.length = n) (bound : f.threshold = floor)
      (noBlock : ∀ block, f.kind ≠ .block block) : Founded n floor (f :: rest)
  | above {f : Frame} {rest : List Frame} (bound : floor ≤ f.threshold)
      (founded : Founded n floor rest) : Founded n floor (f :: rest)

namespace Founded

variable {n floor : Nat} {f g : Frame} {rest : List Frame}

theorem deep (h : Founded n floor (f :: rest)) : n ≤ rest.length := by
  generalize stack : f :: rest = frames at h
  induction h generalizing f rest with
  | floor count _ _ => cases stack; omega
  | above _ founded ih =>
    cases stack
    cases founded with
    | floor count _ _ => rw [List.length_cons]; omega
    | above _ _ => have := ih rfl; rw [List.length_cons]; omega

/-- The innermost frame may change as long as its threshold stays and it does not become a block. -/
theorem retop (h : Founded n floor (f :: rest)) (threshold : g.threshold = f.threshold)
    (kind : ∀ block, g.kind = .block block → ∃ block', f.kind = .block block') :
    Founded n floor (g :: rest) := by
  cases h with
  | floor count bound noBlock =>
    refine .floor count (by omega) fun block isBlock => ?_
    obtain ⟨block', was⟩ := kind block isBlock
    exact noBlock block' was
  | above bound founded => exact .above (by omega) founded

/-- A block is not the frame that stays. -/
theorem below_block (h : Founded n floor (f :: rest)) {block : Block} (kind : f.kind = .block block) :
    Founded n floor rest := by
  cases h with
  | floor _ _ noBlock => exact absurd kind (noBlock block)
  | above _ founded => exact founded

/-- Neither is a frame that a line closes. -/
theorem below_closed (h : Founded n floor (f :: rest)) (closed : floor < f.threshold) :
    Founded n floor rest := by
  cases h with
  | floor _ bound _ => omega
  | above _ founded => exact founded

end Founded

namespace Builder

variable {made : Nat → Nat → Prop} {n floor : Nat} {b : Builder}

theorem closeBlock_top (b : Builder) (block : Block) (outer : Frame) (rest : List Frame) :
    (b.closeBlock block outer rest).top = resumed block outer
      ∧ (b.closeBlock block outer rest).below = rest := by
  cases chained : block.chained with
  | true => simp [closeBlock_chained b outer rest chained]
  | false =>
    cases hasElse : block.hasElse with
    | true => simp [closeBlock_complete b outer rest chained hasElse]
    | false => simp [closeBlock_partial b outer rest chained hasElse]

theorem closeBlock_founded {block : Block} {outer : Frame} {rest : List Frame}
    (founded : Founded n floor (outer :: rest)) :
    Founded n floor (b.closeBlock block outer rest).stack := by
  obtain ⟨top, below⟩ := closeBlock_top b block outer rest
  rw [stack, top, below]
  exact founded.retop rfl fun block' kind => ⟨block', kind⟩

theorem pop_founded (line : Nat) (founded : Founded n floor b.stack)
    (inner : Founded n floor b.below) : Founded n floor (b.pop line).stack := by
  unfold Builder.pop
  split
  · exact founded
  next outer rest below =>
    rw [below] at inner
    split
    · exact closeBlock_founded inner
    · exact inner

theorem pop_below {outer : Frame} {rest : List Frame} (below : b.below = outer :: rest)
    (line : Nat) : (b.pop line).below = rest := by
  unfold pop
  rw [below]
  dsimp only
  split
  · exact (closeBlock_top _ _ outer rest).2
  · rfl

theorem popAbove_stops {line indent fuel : Nat} (enough : b.below.length ≤ fuel) :
    (popAbove line indent fuel b).below = []
      ∨ (popAbove line indent fuel b).top.threshold ≤ indent := by
  induction fuel generalizing b with
  | zero => exact .inl (List.length_eq_zero_iff.mp (Nat.le_zero.mp enough))
  | succ fuel ih =>
    rw [popAbove]
    split
    next stops => simpa using stops
    next closes =>
      refine ih ?_
      cases below : b.below with
      | nil => simp [below] at closes
      | cons outer rest =>
        rw [pop_below below]
        rw [below] at enough
        exact Nat.le_of_succ_le_succ enough

/-- A line that has closed its frames closes no more. -/
theorem readBodyLine_settle (s : Settings) (b : Builder) (l : Line) (rest : List (List Char)) :
    (b.settle l.number l.indent).readBodyLine s l rest = b.readBodyLine s l rest := by
  have again : (b.settle l.number l.indent).settle l.number l.indent
      = b.settle l.number l.indent := by
    have stops := @popAbove_stops b l.number l.indent b.below.length (Nat.le_refl _)
    rw [settle]
    cases fuel : (b.settle l.number l.indent).below.length with
    | zero => rfl
    | succ fuel =>
      rw [popAbove, if_pos]
      rw [Bool.or_eq_true, List.isEmpty_iff, decide_eq_true_eq]
      exact stops
  rw [readBodyLine, again]
  rfl

theorem Grows.popAbove (line indent : Nat) (fuel : Nat) (founded : Founded n floor b.stack)
    (bound : floor ≤ indent) :
    Grows made n b (popAbove line indent fuel b)
      ∧ Founded n floor (popAbove line indent fuel b).stack := by
  induction fuel generalizing b with
  | zero => exact ⟨Grows.refl b founded.deep, founded⟩
  | succ fuel ih =>
    rw [Builder.popAbove]
    split
    · exact ⟨Grows.refl b founded.deep, founded⟩
    next open_ =>
      simp only [Bool.or_eq_true, decide_eq_true_eq, not_or, Nat.not_le] at open_
      have inner : Founded n floor b.below := founded.below_closed (by omega)
      have popped := pop_founded line founded inner
      have deep : n < b.below.length := by
        cases below : b.below with
        | nil => simp [below] at open_
        | cons outer rest =>
          rw [below] at inner
          have := inner.deep
          rw [List.length_cons]
          omega
      obtain ⟨grown, still⟩ := ih popped
      exact ⟨(Grows.pop line deep).trans grown, still⟩

theorem append_founded {d : Draft} {connect : Bool} (founded : Founded n floor b.stack) :
    Founded n floor (b.append d connect).stack :=
  founded.retop rfl fun block kind => ⟨block, kind⟩

/-! ### Options -/

/-- What an option is added to: the choice that the frame ends with, or a new one. -/
def atChoice (b : Builder) (line indent : Nat) : Builder :=
  if ((b.lastOf b.top).filter (·.step.kind = .choice)).isSome then b.release
  else b.append ⟨.choice, line, indent, [], 0, []⟩ true

/-- The edge of an option that is added to a choice. -/
def optionEdge (b : Builder) (choice line : Nat) (text textId : String) : DraftEdge :=
  { kind := .decision
    text := text
    textId := textId
    params := Template.params text
    line := line
    reach := b.nodes[choice]?.elim 0 (·.indent)
    path := b.path }

/-- The frame of an option that is added to a choice. -/
def optionFrame (b : Builder) (choice line indent : Nat) : Frame :=
  ⟨.option, none, indent + 1, b.nodes[choice]?.elim 0 (·.indent), line⟩

theorem atChoice_last (b : Builder) (line indent : Nat) :
    ∃ choice, (b.atChoice line indent).top.last = some choice := by
  unfold atChoice
  split
  next joined =>
    simp only [Option.isSome_filter, Option.any_eq_true] at joined
    obtain ⟨d, found, _⟩ := joined
    obtain ⟨choice, last, _⟩ := Option.bind_eq_some_iff.mp found
    exact ⟨choice, last⟩
  · exact ⟨_, rfl⟩

theorem option_eq {b : Builder} {line indent choice : Nat} (text textId : String)
    (last : (b.atChoice line indent).top.last = some choice) :
    b.option line indent text textId =
      { b.atChoice line indent with
        nodes := attach (b.atChoice line indent).nodes choice
          ((b.atChoice line indent).optionEdge choice line text textId)
        top := (b.atChoice line indent).optionFrame choice line indent
        below := (b.atChoice line indent).stack
        looseEdges := [nextEdge (b.atChoice line indent).nodes choice] } := by
  unfold option
  dsimp only
  split
  · next absent => cases last.symm.trans absent
  · next found =>
    cases last.symm.trans found
    rfl

/-- Lines that an option contains leave the frames around it alone. -/
theorem option_founded (b : Builder) (line indent : Nat) (text textId : String) :
    Founded (b.option line indent text textId).below.length (indent + 1)
      (b.option line indent text textId).stack := by
  obtain ⟨choice, last⟩ := atChoice_last b line indent
  rw [option_eq text textId last]
  exact .floor rfl rfl fun _ kind => by cases kind

theorem Grows.atChoice (line indent : Nat) (deep : n ≤ b.below.length) (here : made line indent) :
    Grows made n b (b.atChoice line indent) := by
  unfold Builder.atChoice
  split
  · exact Grows.release b deep
  · exact Grows.append b _ true deep rfl here

theorem atChoice_below (b : Builder) (line indent : Nat) :
    (b.atChoice line indent).below = b.below := by
  unfold atChoice
  split <;> rfl

theorem atChoice_founded (line indent : Nat) (founded : Founded n floor b.stack) :
    Founded n floor (b.atChoice line indent).stack := by
  unfold atChoice
  split
  · exact founded
  · exact append_founded founded

/-- Opens a frame that holds nothing but what is held already. -/
theorem Grows.enter {f : Frame} (deep : n ≤ b.below.length) (held : ∀ i, f.Holds i → b.Holds n i)
    (parked : f.parked = []) : Grows made n b { b with top := f, below := b.stack } := by
  have more : n ≤ b.stack.length := by
    rw [stack, List.length_cons]
    omega
  refine Grows.regroup rfl more (outermost_cons f more) ?_ ?_ (List.prefix_refl _)
  · intro i later
    rcases (holds_cons (b := { b with top := f, below := b.stack }) more i).mp later with
      member | holds | rest
    · exact Or.inl member
    · exact held i holds
    · exact Or.inr rest
  · intro r later
    rcases (waits_cons (b := { b with top := f, below := b.stack }) more r).mp later with
      member | parks | rest
    · exact Or.inl member
    · rw [parked] at parks
      cases parks
    · exact Or.inr rest

theorem Grows.option (line indent : Nat) (text textId : String) (deep : n ≤ b.below.length)
    (here : made line indent) : Grows made n b (b.option line indent text textId) := by
  obtain ⟨choice, last⟩ := atChoice_last b line indent
  have still : n ≤ (b.atChoice line indent).below.length := by rw [atChoice_below]; exact deep
  rw [option_eq text textId last]
  refine ((Grows.atChoice line indent deep here).trans
    (Grows.attach _ _ still (holds_last still last) (by intro _ same; cases same)
      (by intro _ same; cases same)
      (fun _ => ⟨indent, here⟩) ?_)).trans
      (Grows.enter (f := (b.atChoice line indent).optionFrame choice line indent) still ?_ rfl)
  · intro r member
    exact Or.inr (List.mem_singleton.mp member)
  · rintro i (none | ⟨block, kind, _⟩)
    · cases none
    · cases kind

/-! ### Conditional blocks -/

/-- Whether a block at an indent follows an option of the same frame. -/
def follows (b : Builder) (indent : Nat) : Bool :=
  (b.lastOf b.top).elim false fun d => d.step.kind = .choice && d.indent ≤ indent

/-- What a chained block is added to: the choice that it follows, or a new one. -/
def atHead (b : Builder) (line indent : Nat) : Builder :=
  if b.follows indent then b else b.append ⟨.choice, line, indent, [], 0, []⟩ true

/-- A branch edge as it is added. -/
def branchEdge (line reach : Nat) (path : List Branch) (condition : Expression) : DraftEdge :=
  { kind := .condition, condition := some condition, line := line, reach := reach, path := path }

/-- The edge from a choice to a chained block. -/
def chainEdge (select line : Nat) : DraftEdge :=
  { kind := .chained, destination := .to select, line := line }

/-- The frame of a block that begins. -/
def blockFrame (select after line indent reach : Nat) (chained : Bool) : Frame :=
  ⟨.block { select := select, chained := chained, after := after }, some select, indent, reach,
    line⟩

/-- The draft with the select of a chained block. -/
def withChained (b : Builder) (choice line indent : Nat) : Builder :=
  let added := b.release.append ⟨.select, line, indent, [], 0, []⟩ false
  { added with nodes := attach added.nodes choice (chainEdge b.nodes.length line) }

/-- The draft with the select of a block that is not chained. -/
def withSelect (b : Builder) (line indent : Nat) : Builder :=
  b.append ⟨.select, line, indent, [], 0, []⟩ true

/-- Enters the first branch of a block. -/
def enterBlock (b : Builder) (f : Frame) (select : Nat) (edge : DraftEdge) : Builder :=
  { b with
    nodes := attach b.nodes select edge
    top := f
    below := b.stack
    looseEdges := [nextEdge b.nodes select] }

theorem openIf_unchained {b : Builder} {line indent : Nat} (condition : Expression)
    (follows : b.follows indent = false) :
    b.openIf line indent condition false =
      (b.withSelect line indent).enterBlock
        (blockFrame b.nodes.length b.nodes.length line indent b.top.reach false) b.nodes.length
        (branchEdge line b.top.reach (b.withSelect line indent).path condition) := by
  have no : ((b.lastOf b.top).elim false fun d => d.step.kind = .choice && d.indent ≤ indent)
      = false := follows
  simp only [openIf, no, Bool.false_or, Bool.and_false, Bool.false_eq_true, if_false]
  rfl

theorem atHead_last {b : Builder} (line indent : Nat) :
    ∃ choice, (b.atHead line indent).top.last = some choice := by
  unfold atHead
  split
  next yes =>
    unfold follows lastOf at yes
    cases last : b.top.last with
    | none => simp [last] at yes
    | some choice => exact ⟨choice, rfl⟩
  · exact ⟨_, rfl⟩

theorem step_eq_choice {s : Step} (kind : s.kind = .choice) : s = .choice := by
  cases s <;> first | rfl | cases kind

/-- What is added next is where the frame ends. -/
theorem append_there (b : Builder) (d : Draft) (connect : Bool) :
    ∃ d', (b.append d connect).nodes[b.nodes.length]? = some d' ∧ d'.step = d.step := by
  obtain ⟨d', there, same⟩ := append_getElem?_length b d connect
  have kept := congrArg Draft.step same
  exact ⟨d', there, kept⟩

theorem atHead_choice {b : Builder} {line indent choice : Nat}
    (last : (b.atHead line indent).top.last = some choice) :
    ∃ d, (b.atHead line indent).nodes[choice]? = some d ∧ d.step = .choice := by
  unfold Builder.atHead at last ⊢
  split
  next joined =>
    rw [if_pos joined] at last
    unfold follows lastOf at joined
    rw [last, Option.bind_some] at joined
    cases there : b.nodes[choice]? with
    | none => simp [there] at joined
    | some d =>
      simp only [there, Option.elim_some, Bool.and_eq_true, decide_eq_true_eq] at joined
      exact ⟨d, rfl, step_eq_choice joined.1⟩
  next apart =>
    rw [if_neg apart] at last
    have same : b.nodes.length = choice := Option.some.inj last
    subst same
    exact append_there b _ true

theorem atHead_lt {b : Builder} {line indent choice : Nat}
    (last : (b.atHead line indent).top.last = some choice) :
    choice < (b.atHead line indent).nodes.length := by
  obtain ⟨d, there, _⟩ := atHead_choice last
  exact (List.getElem?_eq_some_iff.mp there).1

theorem openIf_chained {b : Builder} {line indent choice : Nat} (condition : Expression)
    {optionNext : Bool} (chained : (b.follows indent || optionNext) = true)
    (last : (b.atHead line indent).top.last = some choice) :
    b.openIf line indent condition optionNext =
      ((b.atHead line indent).withChained choice line indent).enterBlock
        (blockFrame (b.atHead line indent).nodes.length choice line indent
          (b.atHead line indent).top.reach true) (b.atHead line indent).nodes.length
        (branchEdge line (b.atHead line indent).top.reach
          ((b.atHead line indent).withChained choice line indent).path condition) := by
  have meaning : ((b.lastOf b.top).elim false fun d =>
      d.step.kind = .choice && d.indent ≤ indent) = b.follows indent := rfl
  cases yes : b.follows indent with
  | true =>
    have head : b.atHead line indent = b := by rw [atHead, if_pos yes]
    rw [head] at last ⊢
    simp only [openIf, meaning, yes, Bool.true_or, Bool.not_true, Bool.false_and,
      Bool.false_eq_true, if_false, if_true, last, Option.getD_some]
    rfl
  | false =>
    have head : b.atHead line indent = b.append ⟨.choice, line, indent, [], 0, []⟩ true := by
      rw [atHead, if_neg (by rw [yes]; exact Bool.noConfusion)]
    rw [yes, Bool.false_or] at chained
    rw [head] at last ⊢
    simp only [openIf, meaning, yes, chained, Bool.or_true, Bool.not_false, Bool.true_and,
      if_true, last, Option.getD_some]
    rfl

theorem Grows.withSelect (line indent : Nat) (deep : n ≤ b.below.length) (here : made line indent) :
    Grows made n b (b.withSelect line indent) :=
  Grows.append b _ true deep rfl here

theorem withChained_length (b : Builder) (choice line indent : Nat) :
    (b.withChained choice line indent).nodes.length = b.nodes.length + 1 := by
  simp [withChained, release]

theorem Grows.withChained {choice : Nat} (line indent : Nat) (deep : n ≤ b.below.length)
    (here : made line indent) (last : b.top.last = some choice) (there : choice < b.nodes.length) :
    Grows made n b (b.withChained choice line indent) := by
  let added := b.release.append ⟨.select, line, indent, [], 0, []⟩ false
  have first : Grows made n b added :=
    (Grows.release b deep).trans (Grows.append b.release _ false deep rfl here)
  -- The choice is not held any more once the select is there, but it was held before.
  refine first.goOn (c := b.withChained choice line indent) deep rfl ?_ ?_
    (Stems.attach _ _ (by intro _ same; cases same) (by rintro _ ⟨⟩; exact there)
      (by intro same; cases same)) first.held
    first.waiting (List.prefix_refl _)
  · exact (Extends.attach added.nodes choice (chainEdge b.nodes.length line)).mono
      (fun i same => by rw [same]; exact Or.inl (holds_last deep last)) fun _ => False.elim
  · intro i d there late
    have bound := (List.getElem?_eq_some_iff.mp there).1
    have count : (b.withChained choice line indent).nodes.length = added.nodes.length := by
      simp [Builder.withChained, added]
    omega

/-- Entering a block adds an edge to its select, which is new, and holds the node that counts as
the last one after the block. -/
theorem Grows.enterBlock {a : Builder} {f : Frame} (block : Block) (edge : DraftEdge)
    (first : Grows made n a b) (known : ∀ start, edge.destination ≠ .search start)
    (ahead : ∀ j, edge.destination = .to j → block.select < j)
    (line : edge.kind = .decision → ∃ indent, made edge.line indent)
    (kind : f.kind = .block block) (last : f.last = some block.select) (parked : block.looseEdges = [])
    (nodes : block.looseNodes = []) (new : a.nodes.length ≤ block.select)
    (after : a.Holds n block.after ∨ a.nodes.length ≤ block.after) :
    Grows made n a (b.enterBlock f block.select edge) := by
  have more : n ≤ b.stack.length := by
    have := first.deep
    rw [stack, List.length_cons]
    omega
  refine first.goOn more (outermost_cons f more) ?_ ?_ (Stems.attach _ _ known ahead line) ?_ ?_
    (List.prefix_refl _)
  · exact (Extends.attach b.nodes block.select edge).mono
      (fun i same => by rw [same]; exact Or.inr new) fun _ => False.elim
  · intro i d there late
    have bound := (List.getElem?_eq_some_iff.mp there).1
    simp only [Builder.enterBlock, attach_length] at bound
    omega
  · intro i later
    rcases (holds_cons (b := b.enterBlock f block.select edge) more i).mp later with
      member | holds | rest
    · exact first.held i (Or.inl member)
    · rcases holds with isLast | ⟨block', kind', place⟩
      · have same : block.select = i := Option.some.inj (last.symm.trans isLast)
        exact Or.inr (same ▸ new)
      · have same : block = block' := FrameKind.block.inj (kind.symm.trans kind')
        subst same
        rcases place with isSelect | isAfter | isLoose
        · exact Or.inr (isSelect ▸ new)
        · exact isAfter ▸ after
        · rw [nodes] at isLoose
          cases isLoose
    · exact first.held i (Or.inr rest)
  · intro r later
    rcases (waits_cons (b := b.enterBlock f block.select edge) more r).mp later with
      member | parks | rest
    · right
      have next : r = nextEdge b.nodes block.select := List.mem_singleton.mp member
      cases there : edgeAt a.nodes r with
      | none => rfl
      | some e =>
        have bound := edgeAt_lt there
        rw [next] at bound
        exact absurd bound (Nat.not_lt.mpr new)
    · have none : f.parked = [] := by rw [Frame.parked, kind]; exact parked
      change r ∈ f.parked at parks
      rw [none] at parks
      cases parks
    · exact first.waiting r (Or.inr rest)

theorem Grows.atHead (line indent : Nat) (deep : n ≤ b.below.length) (here : made line indent) :
    Grows made n b (b.atHead line indent) := by
  unfold Builder.atHead
  split
  · exact Grows.refl b deep
  · exact Grows.append b _ true deep rfl here

theorem atHead_below (b : Builder) (line indent : Nat) :
    (b.atHead line indent).below = b.below := by
  unfold atHead
  split <;> rfl

theorem Grows.openIf (line indent : Nat) (condition : Expression) (optionNext : Bool)
    (deep : n ≤ b.below.length) (here : made line indent) :
    Grows made n b (b.openIf line indent condition optionNext) := by
  cases chained : b.follows indent || optionNext with
  | true =>
    obtain ⟨choice, last⟩ := atHead_last (b := b) line indent
    have still : n ≤ (b.atHead line indent).below.length := by rw [atHead_below]; exact deep
    rw [openIf_chained condition chained last]
    let block : Block :=
      { select := (b.atHead line indent).nodes.length, chained := true, after := choice }
    exact (Grows.atHead line indent deep here).trans
      (Grows.enterBlock block _ (Grows.withChained line indent still here last (atHead_lt last))
        (by intro _ same; cases same) (by intro _ same; cases same) (by intro same; cases same) rfl rfl rfl rfl
        (Nat.le_refl _) (Or.inl (holds_last still last)))
  | false =>
    simp only [Bool.or_eq_false_iff] at chained
    rw [chained.2, openIf_unchained condition chained.1]
    let block : Block :=
      { select := b.nodes.length, chained := false, after := b.nodes.length }
    exact Grows.enterBlock block _ (Grows.withSelect line indent deep here)
      (by intro _ same; cases same) (by intro _ same; cases same) (by intro same; cases same) rfl rfl rfl rfl
      (Nat.le_refl _) (Or.inr (Nat.le_refl _))

/-- An if makes a node at least. -/
theorem openIf_grows (b : Builder) (line indent : Nat) (condition : Expression)
    (optionNext : Bool) :
    b.nodes.length < (b.openIf line indent condition optionNext).nodes.length := by
  cases chained : b.follows indent || optionNext with
  | true =>
    obtain ⟨choice, last⟩ := atHead_last (b := b) line indent
    have head : b.nodes.length ≤ (b.atHead line indent).nodes.length := by
      unfold Builder.atHead
      split
      · exact Nat.le_refl _
      · rw [append_length]
        exact Nat.le_succ _
    rw [openIf_chained condition chained last, enterBlock, attach_length, withChained_length]
    exact Nat.lt_succ_of_le head
  | false =>
    simp only [Bool.or_eq_false_iff] at chained
    rw [chained.2, openIf_unchained condition chained.1, enterBlock, attach_length, withSelect,
      append_length]
    exact Nat.lt_succ_self _

/-- A block at its next branch. -/
def nextBranch (b : Builder) (block : Block) (last : Bool) : Block :=
  { b.closedBlock block with branch := block.branch + 1, hasElse := last }

/-- The draft at the next branch of its innermost block. -/
def toBranch (b : Builder) (block : Block) (line : Nat) (condition : Option Expression) :
    Builder :=
  { b with
    nodes := attach b.nodes block.select
      (branchEdge line b.top.reach ((b.below.reverse).filterMap Frame.branch?)
        (condition.getD Expression.always))
    top := { b.top with
      kind := .block (b.nextBranch block condition.isNone)
      last := some block.select }
    looseEdges := [nextEdge b.nodes block.select]
    looseNodes := [] }

theorem addBranch_eq {b : Builder} {block : Block} (line : Nat) (condition : Option Expression)
    (keyword : String) (kind : b.top.kind = .block block) (more : block.hasElse = false) :
    b.addBranch line condition keyword = b.toBranch block line condition := by
  simp only [addBranch, kind, more, Bool.false_eq_true, if_false, closeBranch_eq, addBranchEdge]
  rfl

theorem Grows.addBranch {block : Block} (line : Nat) (condition : Option Expression)
    (keyword : String) (deep : n ≤ b.below.length) (kind : b.top.kind = .block block)
    (more : block.hasElse = false) : Grows made n b (b.addBranch line condition keyword) := by
  rw [addBranch_eq line condition keyword kind more]
  have isBlock : ∀ i, (i = block.select ∨ i = block.after ∨ i ∈ block.looseNodes) → b.Holds n i :=
    fun i here => (holds_cons deep i).mpr (Or.inr (Or.inl (Or.inr ⟨block, kind, here⟩)))
  have isParked : ∀ r ∈ block.looseEdges, b.Waits n r := fun r member =>
    (waits_cons deep r).mpr (Or.inr (Or.inl (by rw [Frame.parked, kind]; exact member)))
  refine ⟨deep, ?_, ?_, ?_,
    Stems.attach _ _ (by intro _ same; cases same) (by intro _ same; cases same)
      (by intro same; cases same), ?_, ?_, List.prefix_refl _⟩
  · exact (outermost_cons _ deep).trans (outermost_cons b.top deep).symm
  · exact (Extends.attach b.nodes block.select _).mono
      (fun i same => by rw [same]; exact isBlock _ (Or.inl rfl)) fun _ => False.elim
  · intro i d there late
    have bound := (List.getElem?_eq_some_iff.mp there).1
    simp only [toBranch, attach_length] at bound
    omega
  · intro i later
    left
    rcases (holds_cons (b := b.toBranch block line condition) deep i).mp later with member | holds | rest
    · cases member
    · rcases holds with last | ⟨block', kind', place⟩
      · exact isBlock i (Or.inl (Option.some.inj last).symm)
      · cases kind'
        rcases place with isSelect | isAfter | isLoose
        · exact isBlock i (Or.inl isSelect)
        · exact isBlock i (Or.inr (Or.inl isAfter))
        · rcases List.mem_append.mp isLoose with before | own
          · rcases List.mem_append.mp before with parks | waits
            · exact isBlock i (Or.inr (Or.inr parks))
            · exact Or.inl waits
          · exact holds_last deep (unfinished_last own)
    · exact (holds_cons deep i).mpr (Or.inr (Or.inr rest))
  · intro r later
    rcases (waits_cons (b := b.toBranch block line condition) deep r).mp later with member | parks | rest
    · right
      rw [List.mem_singleton.mp member, nextEdge_absent]
    · left
      rcases List.mem_append.mp parks with before | waits
      · exact isParked r before
      · exact Or.inl waits
    · exact Or.inl ((waits_cons deep r).mpr (Or.inr (Or.inr rest)))

/-! ### Lines -/

/-- The draft grows and the frames that lie around stay around. -/
def Proceeds (made : Nat → Nat → Prop) (n floor : Nat) (b b' : Builder) : Prop :=
  Grows made n b b' ∧ Founded n floor b'.stack

theorem Proceeds.trans {a b c : Builder} (first : Proceeds made n floor a b)
    (second : Proceeds made n floor b c) : Proceeds made n floor a c :=
  ⟨first.1.trans second.1, second.2⟩

theorem Proceeds.refl (founded : Founded n floor b.stack) : Proceeds made n floor b b :=
  ⟨Grows.refl b founded.deep, founded⟩

theorem Proceeds.note (founded : Founded n floor b.stack) (d : Diagnostic) :
    Proceeds made n floor b (b.note d) :=
  ⟨Grows.note b d founded.deep, founded⟩

theorem Proceeds.append (founded : Founded n floor b.stack) (d : Draft) (connect : Bool)
    (bare : d.edges = []) (here : made d.line d.indent) :
    Proceeds made n floor b (b.append d connect) :=
  ⟨Grows.append b d connect founded.deep bare here, append_founded founded⟩

theorem Proceeds.settle (founded : Founded n floor b.stack) (line : Nat) {indent : Nat}
    (bound : floor ≤ indent) : Proceeds made n floor b (b.settle line indent) :=
  Grows.popAbove line indent b.below.length founded bound

theorem Proceeds.option (founded : Founded n floor b.stack) (line : Nat) {indent : Nat}
    (text textId : String) (bound : floor ≤ indent) (here : made line indent) :
    Proceeds made n floor b (b.option line indent text textId) := by
  refine ⟨Grows.option line indent text textId founded.deep here, ?_⟩
  obtain ⟨choice, last⟩ := atChoice_last b line indent
  rw [option_eq text textId last]
  exact .above (Nat.le_succ_of_le bound) (atChoice_founded line indent founded)

theorem Proceeds.openIf (founded : Founded n floor b.stack) (line : Nat) {indent : Nat}
    (condition : Expression) (optionNext : Bool) (bound : floor ≤ indent) (here : made line indent) :
    Proceeds made n floor b (b.openIf line indent condition optionNext) := by
  refine ⟨Grows.openIf line indent condition optionNext founded.deep here, ?_⟩
  cases chained : b.follows indent || optionNext with
  | true =>
    obtain ⟨choice, last⟩ := atHead_last (b := b) line indent
    rw [openIf_chained condition chained last]
    refine .above bound ?_
    have head : Founded n floor (b.atHead line indent).stack := by
      unfold Builder.atHead
      split
      · exact founded
      · exact append_founded founded
    exact head.retop rfl fun block kind => ⟨block, kind⟩
  | false =>
    simp only [Bool.or_eq_false_iff] at chained
    rw [chained.2, openIf_unchained condition chained.1]
    exact .above bound (append_founded founded)

theorem Proceeds.addBranch (founded : Founded n floor b.stack) (line : Nat)
    (condition : Option Expression) (keyword : String) :
    Proceeds made n floor b (b.addBranch line condition keyword) := by
  cases kind : b.top.kind with
  | block block =>
    cases more : block.hasElse with
    | true =>
      simp only [Builder.addBranch, kind, more, if_true]
      exact Proceeds.note founded _
    | false =>
      refine ⟨Grows.addBranch line condition keyword founded.deep kind more, ?_⟩
      rw [addBranch_eq line condition keyword kind more]
      exact founded.retop rfl fun _ _ => ⟨block, kind⟩
  | root =>
    simp only [Builder.addBranch, kind]
    exact Proceeds.note founded _
  | option =>
    simp only [Builder.addBranch, kind]
    exact Proceeds.note founded _

theorem Proceeds.endIf (founded : Founded n floor b.stack) (line : Nat) :
    Proceeds made n floor b (b.endIf line) := by
  unfold Builder.endIf
  split
  next block outer rest kind below =>
    have inner : Founded n floor b.below := founded.below_block kind
    rw [below] at inner
    exact ⟨Grows.closeBlock inner.deep kind below, closeBlock_founded inner⟩
  · exact Proceeds.note founded _

theorem Proceeds.label (founded : Founded n floor b.stack) (endLabel : String) (line : Nat)
    (name : String) : Proceeds made n floor b (b.label endLabel line name) := by
  unfold Builder.label
  split
  · exact Proceeds.note founded _
  · split
    · exact Proceeds.note founded _
    · exact ⟨Grows.unchanged founded.deep rfl rfl rfl rfl rfl (List.prefix_refl _), founded⟩

theorem Proceeds.bare (founded : Founded n floor b.stack) (line indent : Nat)
    (text textId : String) (here : made line indent) :
    Proceeds made n floor b (b.bare line indent text textId) := by
  unfold Builder.bare
  split
  · split
    · exact Proceeds.note founded _
    · exact Proceeds.append founded _ true rfl here
  · exact Proceeds.note founded _

/-- A condition that is read leaves the draft alone, but for a diagnostic if it is faulty. -/
theorem readCondition_cases {b' : Builder} {line : Nat} {text : String} {condition : Expression}
    (read : b.readCondition line text = .ok (b', condition)) :
    (readExpression text = .ok (.ok condition) ∧ b' = b) ∨
      ∃ message, readExpression text = .ok (.error message) ∧ condition = Expression.never
        ∧ b' = b.note (.complain line ("Bad condition: " ++ message)) := by
  unfold readCondition at read
  cases given : readExpression text with
  | error f => simp [given, bind, Except.bind] at read
  | ok answer =>
    cases answer with
    | ok e =>
      simp only [given, bind, Except.bind, pure, Except.pure, Except.ok.injEq,
        Prod.mk.injEq] at read
      obtain ⟨rfl, rfl⟩ := read
      exact Or.inl ⟨rfl, rfl⟩
    | error message =>
      simp only [given, bind, Except.bind, pure, Except.pure, Except.ok.injEq,
        Prod.mk.injEq] at read
      obtain ⟨rfl, rfl⟩ := read
      exact Or.inr ⟨message, rfl, rfl, rfl⟩

/-- An assignment that is read leaves the draft alone, but for a diagnostic if it is faulty. -/
theorem readAssignment_cases {b' : Builder} {line indent : Nat} {name text textId : String}
    {draft : Option Draft}
    (read : b.readAssignment line indent name text textId = .ok (b', draft)) :
    (∃ e, readExpression text = .ok (.ok e) ∧ b' = b
        ∧ draft = some ⟨assignStep name e textId, line, indent, [], 0, []⟩) ∨
      ∃ message, readExpression text = .ok (.error message) ∧ draft = none
        ∧ b' = b.note (.complain line ("Bad expression in [set " ++ name ++ "]: " ++ message)) := by
  unfold readAssignment at read
  cases given : readExpression text with
  | error f => simp [given, bind, Except.bind] at read
  | ok answer =>
    cases answer with
    | ok e =>
      simp only [given, bind, Except.bind, pure, Except.pure, Except.ok.injEq,
        Prod.mk.injEq] at read
      obtain ⟨rfl, rfl⟩ := read
      exact Or.inl ⟨e, rfl, rfl, rfl⟩
    | error message =>
      simp only [given, bind, Except.bind, pure, Except.pure, Except.ok.injEq,
        Prod.mk.injEq] at read
      obtain ⟨rfl, rfl⟩ := read
      exact Or.inr ⟨message, rfl, rfl, rfl⟩

theorem Proceeds.readCondition {b' : Builder} {line : Nat} {text : String}
    {condition : Expression} (founded : Founded n floor b.stack)
    (read : b.readCondition line text = .ok (b', condition)) : Proceeds made n floor b b' := by
  rcases readCondition_cases read with ⟨_, rfl⟩ | ⟨_, _, _, rfl⟩
  · exact Proceeds.refl founded
  · exact Proceeds.note founded _

theorem Proceeds.readAssignment {b' : Builder} {line indent : Nat} {name text textId : String}
    {draft : Option Draft} (founded : Founded n floor b.stack) (here : made line indent)
    (read : b.readAssignment line indent name text textId = .ok (b', draft)) :
    Proceeds made n floor b b' ∧ ∀ d ∈ draft, d.edges = [] ∧ made d.line d.indent := by
  rcases readAssignment_cases read with ⟨e, _, rfl, rfl⟩ | ⟨_, _, rfl, rfl⟩
  · exact ⟨Proceeds.refl founded, fun d member => by cases member; exact ⟨rfl, here⟩⟩
  · exact ⟨Proceeds.note founded _, fun d member => by cases member⟩

theorem Proceeds.delimiter (founded : Founded n floor b.stack) (line : Nat) :
    Proceeds made n floor b (b.delimiter line) := by
  unfold Builder.delimiter
  refine ⟨?_, ?_⟩
  · dsimp only
    repeat' split
    all_goals
      exact Grows.unchanged founded.deep rfl rfl rfl rfl rfl
        (by first | exact List.prefix_refl _ | exact List.prefix_append _ _)
  · dsimp only
    repeat' split
    all_goals exact founded

theorem Proceeds.readHeaderLine {b' : Builder} {l : Line} (founded : Founded n floor b.stack)
    (read : b.readHeaderLine l = .ok b') : Proceeds made n floor b b' := by
  unfold Builder.readHeaderLine at read
  split at read
  next name text _ =>
    obtain ⟨⟨b₁, draft⟩, given, rest⟩ := bind_eq_ok.mp read
    cases rest
    have first : Proceeds made n floor b b₁ := by
      rcases readAssignment_cases given with ⟨_, _, rfl, _⟩ | ⟨_, _, _, rfl⟩
      · exact Proceeds.refl founded
      · exact Proceeds.note founded _
    cases draft with
    | none => exact first
    | some d =>
      refine first.trans ⟨Grows.unchanged first.2.deep ?_ ?_ ?_ ?_ ?_ ?_, ?_⟩
      all_goals
        simp only [Option.elim_some, Builder.headerStep]
        split
      all_goals first | rfl | exact List.prefix_refl _ | exact first.2
  · cases read
    exact Proceeds.note founded _

theorem Proceeds.readBodyLine {s : Settings} {b' : Builder} {l : Line} {rest : List (List Char)}
    (founded : Founded n floor b.stack) (bound : floor ≤ l.indent) (here : made l.number l.indent)
    (read : b.readBodyLine s l rest = .ok b') : Proceeds made n floor b b' := by
  have settled : Proceeds made n floor b (b.settle l.number l.indent) :=
    Proceeds.settle founded l.number bound
  refine settled.trans ?_
  replace founded := settled.2
  unfold Builder.readBodyLine at read
  dsimp only at read
  -- the frames that the line is not in are closed by now
  generalize b.settle l.number l.indent = c at founded read
  split at read
  · cases read
    exact Proceeds.option founded _ _ _ bound here
  · obtain ⟨⟨c', condition⟩, given, last⟩ := bind_eq_ok.mp read
    cases last
    have first : Proceeds made n floor c c' := Proceeds.readCondition founded given
    exact first.trans (Proceeds.openIf first.2 _ _ _ bound here)
  · obtain ⟨⟨c', condition⟩, given, last⟩ := bind_eq_ok.mp read
    cases last
    have first : Proceeds made n floor c c' := Proceeds.readCondition founded given
    exact first.trans (Proceeds.addBranch first.2 _ _ _)
  · cases read
    exact Proceeds.addBranch founded _ _ _
  · cases read
    exact Proceeds.endIf founded _
  · cases read
    exact Proceeds.label founded _ _ _
  · cases read
    exact Proceeds.append founded _ true rfl here
  · obtain ⟨⟨c', draft⟩, given, last⟩ := bind_eq_ok.mp read
    cases last
    obtain ⟨first, place⟩ := Proceeds.readAssignment founded here given
    cases draft with
    | none => exact first
    | some d =>
      obtain ⟨bare, there⟩ := place d rfl
      exact first.trans (Proceeds.append first.2 d true bare there)
  · obtain ⟨answer, _, last⟩ := bind_eq_ok.mp read
    cases answer with
    | ok args =>
      cases last
      exact Proceeds.append founded _ true rfl here
    | error message =>
      cases last
      exact Proceeds.note founded _
  · cases read
    exact Proceeds.append founded _ true rfl here
  · cases read
    exact Proceeds.bare founded _ _ _ _ here
  · cases read
    exact Proceeds.note founded _

/-- A line lets the draft grow by nodes of its own, around frames that it is indented enough to be
in. -/
theorem Proceeds.readLine {s : Settings} {b' : Builder} {number : Nat} {raw : List Char}
    {rest : List (List Char)} (founded : Founded n floor b.stack)
    (within : b.headerState.inside = false → ∀ l, scan s.tabWidth number raw = .line l →
      floor ≤ l.indent ∧ made l.number l.indent)
    (read : b.readLine s number raw rest = .ok b') : Proceeds made n floor b b' := by
  unfold Builder.readLine at read
  split at read
  · cases read
    exact Proceeds.refl founded
  · cases read
    exact Proceeds.delimiter founded number
  next l scanned =>
    split at read
    · exact Proceeds.readHeaderLine founded read
    next outside =>
      rw [Bool.not_eq_true] at outside
      obtain ⟨bound, here⟩ := within outside l scanned
      exact Proceeds.readBodyLine founded bound here read

/-- So do lines one after the other. -/
theorem Proceeds.readLines {s : Settings} {b' : Builder} {number : Nat}
    {lines : List (List Char)} (founded : Founded n floor b.stack)
    (within : ∀ raw ∈ lines, ∀ k l, scan s.tabWidth k raw = .line l →
      floor ≤ l.indent ∧ made l.number l.indent)
    (read : Builder.readLines s b number lines = .ok b') : Proceeds made n floor b b' := by
  induction lines generalizing b number with
  | nil =>
    cases read
    exact Proceeds.refl founded
  | cons raw rest ih =>
    obtain ⟨c, first, later⟩ := bind_eq_ok.mp read
    have grown : Proceeds made n floor b c := Proceeds.readLine founded
      (fun _ => within raw (List.mem_cons_self ..) number) first
    exact grown.trans (ih grown.2 (fun raw' member => within raw' (List.mem_cons_of_mem raw member))
      later)

/-! ### End of the script -/

theorem Grows.popAll (line fuel : Nat) (b : Builder) :
    Grows made 0 b (Builder.popAll line fuel b) := by
  induction fuel generalizing b with
  | zero => exact Grows.refl b (Nat.zero_le _)
  | succ fuel ih =>
    rw [Builder.popAll]
    split
    · exact Grows.refl b (Nat.zero_le _)
    next more =>
      have deep : 0 < b.below.length := by
        rw [List.length_pos_iff]
        rintro empty
        simp [empty] at more
      exact (Grows.pop line deep).trans (ih _)

/-- The draft once all frames but the outermost are closed and all loose ends are left to searches. -/
def closed (b : Builder) (lastLine : Nat) : Builder :=
  let b :=
    if b.headerState.inside then
      b.note (.complain lastLine "Header block is never closed with '==='")
    else b
  (Builder.popAll lastLine b.below.length b).release

/-- What a label that no node follows comes to. -/
def endLabels (b : Builder) (waiting : List (String × Nat)) : Builder :=
  waiting.foldl
    (fun b l =>
      { b.note (.warn l.2
          ("Label ':" ++ l.1 ++ "' has no lines after it and ends the dialogue")) with
        labels := setEntry b.labels l.1 none })
    b

theorem finish_eq (b : Builder) (lastLine : Nat) :
    b.finish lastLine = { (b.closed lastLine).endLabels (b.closed lastLine).waiting with
      waiting := [] } := rfl

theorem endLabels_same (b : Builder) (waiting : List (String × Nat)) :
    (b.endLabels waiting).nodes = b.nodes ∧ (b.endLabels waiting).top = b.top
      ∧ (b.endLabels waiting).below = b.below ∧ (b.endLabels waiting).looseEdges = b.looseEdges
      ∧ (b.endLabels waiting).looseNodes = b.looseNodes
      ∧ (b.endLabels waiting).header = b.header
      ∧ b.diagnostics <+: (b.endLabels waiting).diagnostics := by
  unfold endLabels
  induction waiting generalizing b with
  | nil => simp
  | cons l rest ih =>
    rw [List.foldl_cons]
    obtain ⟨nodes, top, below, edges, loose, header, notes⟩ := ih
      { b.note (.warn l.2
          ("Label ':" ++ l.1 ++ "' has no lines after it and ends the dialogue")) with
        labels := setEntry b.labels l.1 none }
    exact ⟨nodes, top, below, edges, loose, header, (List.prefix_append _ _).trans notes⟩

theorem Grows.closed (b : Builder) (lastLine : Nat) : Grows made 0 b (b.closed lastLine) := by
  unfold Builder.closed
  refine Grows.trans ?_ ((Grows.popAll lastLine _ _).trans (Grows.release _ (Nat.zero_le _)))
  split
  · exact Grows.note b _ (Nat.zero_le _)
  · exact Grows.refl b (Nat.zero_le _)

theorem Grows.finish (b : Builder) (lastLine : Nat) : Grows made 0 b (b.finish lastLine) := by
  refine (Grows.closed b lastLine).trans ?_
  obtain ⟨nodes, top, below, edges, loose, _, notes⟩ :=
    (b.closed lastLine).endLabels_same (b.closed lastLine).waiting
  rw [finish_eq]
  exact Grows.unchanged (Nat.zero_le _) nodes top below edges loose notes

theorem founded_start : Founded 0 0 ({} : Builder).stack :=
  .floor rfl rfl fun _ kind => by cases kind

end Builder

end Colloquy.Script
