import Colloquy.Proofs.Script.Passage
import Colloquy.Proofs.Script.Seated
/-!
# The order of frames

Frames lie in each other in order: none closes before one that it lies in, and what is known of the
branches of a block agrees with the blocks around it. So a line, which looks at the innermost frame
alone, closes just the frames that have a threshold above its indent.
-/

namespace Colloquy.Script

namespace Seated

variable {nodes : List Draft} {frames : List Frame}

theorem ends_root (seated : Seated nodes frames) :
    ∃ inner base, frames = inner ++ [base] ∧ base.kind = .root ∧ ∀ f ∈ inner, f.kind ≠ .root := by
  induction seated with
  | @root f kind _ _ _ => exact ⟨[], f, rfl, kind, fun _ none => by cases none⟩
  | @inner f _ _ _ seated _ ih =>
    obtain ⟨inner, base, same, root, others⟩ := ih
    refine ⟨f :: inner, base, by rw [same]; rfl, root, fun g member => ?_⟩
    obtain rfl | further := List.mem_cons.mp member
    · exact seated.inner
    · exact others g further

theorem pairwise (seated : Seated nodes frames) :
    frames.Pairwise fun inner outer => outer.threshold ≤ inner.threshold := by
  induction seated with
  | root _ _ _ _ => exact List.pairwise_singleton ..
  | inner last seated around ih => exact .cons (Seated.inner last seated around).threshold_le ih

theorem ends (seated : Seated nodes frames) :
    ∀ f ∈ frames, ∀ i, f.last = some i → i < nodes.length := by
  have here {f : Frame} {rest : List Frame} {i : Nat} (seated : Seated nodes (f :: rest))
      (last : f.last = some i) : i < nodes.length := by
    obtain ⟨_, there, _⟩ := seated.last last
    exact (List.getElem?_eq_some_iff.mp there).1
  induction seated with
  | root kind threshold reach last =>
    intro f member
    obtain rfl := List.mem_singleton.mp member
    exact fun i isLast => here (.root kind threshold reach last) isLast
  | inner last seated around ih =>
    intro f member
    obtain rfl | further := List.mem_cons.mp member
    · exact fun i isLast => here (.inner last seated around) isLast
    · exact ih f further

/-- A block in any frame is seated in the frames around that. -/
theorem block_at (seated : Seated nodes frames) {inner outer : List Frame} {f : Frame}
    {block : Block} (stack : frames = inner ++ f :: outer) (kind : f.kind = .block block) :
    block.Seated nodes outer := by
  induction seated generalizing inner with
  | root root _ _ _ =>
    cases inner with
    | nil =>
      obtain ⟨rfl, _⟩ := List.cons.inj stack
      cases root.symm.trans kind
    | cons _ _ => simp at stack
  | inner _ seated _ ih =>
    cases inner with
    | nil =>
      obtain ⟨rfl, rfl⟩ := List.cons.inj stack
      exact (seated.block block kind).2
    | cons _ _ => exact ih (List.cons.inj stack).2

end Seated

namespace Builder

variable {b c : Builder}

/-- Whether the frames of a draft are in order, the innermost first. -/
structure WellOrdered (b : Builder) : Prop where
  /-- Only the outermost frame is the root. -/
  root : ∃ inner base, b.stack = inner ++ [base] ∧ base.kind = .root
    ∧ ∀ f ∈ inner, f.kind ≠ .root
  /-- No frame has a higher threshold than one that lies in it. -/
  thresholds : b.stack.Pairwise fun inner outer => outer.threshold ≤ inner.threshold
  /-- What a frame ends with is there. -/
  ends : ∀ f ∈ b.stack, ∀ i, f.last = some i → i < b.nodes.length
  /-- The select of a block is there, and it and all its branches lie in the branches of the frames
  around the block. -/
  selects : ∀ inner f outer block, b.stack = inner ++ f :: outer → f.kind = .block block →
    ∃ d, b.nodes[block.select]? = some d ∧ d.step = .select ∧ d.path = branchesOf outer
      ∧ ∀ e ∈ d.edges, e.kind = .condition → e.path = branchesOf outer
  /-- The branches of a select lie where it lies, also once its block has closed. -/
  branches : ∀ d ∈ b.nodes, ∀ e ∈ d.edges, e.kind = .condition → e.path = d.path

theorem Orderly.wellOrdered (orderly : b.Orderly) : b.WellOrdered := by
  have branches : ∀ d ∈ b.nodes, ∀ e ∈ d.edges, e.kind = .condition → e.path = d.path := by
    intro d member e inside isBranch
    obtain ⟨i, there⟩ := List.mem_iff_getElem?.mp member
    obtain ⟨k, slot⟩ := List.mem_iff_getElem?.mp inside
    exact orderly.routed ⟨i, k⟩ d e there (edgeAt_eq_some.mpr ⟨d, there, slot⟩) (.inr isBranch)
  refine ⟨orderly.frames.ends_root, orderly.frames.pairwise, orderly.frames.ends, ?_, branches⟩
  intro inner f outer block stack kind
  obtain ⟨d, there, step, path⟩ := (orderly.frames.block_at stack kind).select
  refine ⟨d, there, step, path, fun e member isBranch => ?_⟩
  rw [← path]
  exact branches d (List.mem_of_getElem? there) e member isBranch

/-! ### Closing frames by their thresholds -/

/-- Closing a frame changes of the one around it the last node at most. -/
theorem pop_stack {outer : Frame} {rest : List Frame} (below : b.below = outer :: rest)
    (line : Nat) : ∃ last, (b.pop line).top = { outer with last := last } := by
  unfold pop
  rw [below]
  dsimp only
  split
  next block _ => exact ⟨some block.after, (closeBlock_top _ block outer rest).1⟩
  · exact ⟨outer.last, rfl⟩

/-- Whether of the frames of a draft those are left that a line with an indent leaves open, the
innermost perhaps with another last node. -/
def LeftBy (indent : Nat) (b c : Builder) : Prop :=
  ∃ f last, b.stack.filter (·.threshold ≤ indent) = f :: c.below ∧ c.top = { f with last := last }

theorem leftBy_self (orderly : b.Orderly) {indent : Nat}
    (stops : b.below = [] ∨ b.top.threshold ≤ indent) : LeftBy indent b b := by
  refine ⟨b.top, b.top.last, List.filter_eq_self.mpr fun f member => ?_, rfl⟩
  rw [decide_eq_true_eq]
  have frames := orderly.frames
  rw [stack] at frames member
  obtain none | fits := stops
  · rw [none] at frames member
    obtain rfl := List.mem_singleton.mp member
    cases frames with
    | root _ zero _ _ => omega
  · obtain rfl | further := List.mem_cons.mp member
    · exact fits
    · exact (frames.threshold_le f further).trans fits

/-- Frames close from the innermost on, and since thresholds do not get lower towards it, those that are
left are just those with a threshold that the indent reaches. -/
theorem popAbove_leftBy (orderly : b.Orderly) (line : Nat) {indent fuel : Nat}
    (enough : b.below.length ≤ fuel) : LeftBy indent b (popAbove line indent fuel b) := by
  induction fuel generalizing b with
  | zero => exact leftBy_self orderly (.inl (List.length_eq_zero_iff.mp (Nat.le_zero.mp enough)))
  | succ fuel ih =>
    rw [popAbove]
    split
    next stops => exact leftBy_self orderly (by simpa using stops)
    next closes =>
      simp only [Bool.or_eq_true, List.isEmpty_iff, decide_eq_true_eq, not_or, Nat.not_le] at closes
      obtain ⟨outer, rest, below⟩ := List.exists_cons_of_ne_nil closes.1
      have left := pop_below below line
      obtain ⟨last, top⟩ := pop_stack below line
      obtain ⟨f, last', kept, same⟩ := ih (orderly.pop line) (by
        rw [left]
        rw [below] at enough
        exact Nat.le_of_succ_le_succ enough)
      rw [stack, top, left] at kept
      have all : b.stack.filter (·.threshold ≤ indent)
          = (outer :: rest).filter (·.threshold ≤ indent) := by
        rw [stack, below, List.filter_cons_of_neg (by simpa using closes.2)]
      -- The frame around the one that closes stays with its new last node, or closes as well.
      by_cases fits : outer.threshold ≤ indent
      · rw [List.filter_cons_of_pos (by simpa using fits)] at kept
        obtain ⟨rfl, further⟩ := List.cons.inj kept
        exact ⟨outer, last', by rw [all, List.filter_cons_of_pos (by simpa using fits), further],
          same⟩
      · rw [List.filter_cons_of_neg (by simpa using fits)] at kept
        exact ⟨f, last', by rw [all, List.filter_cons_of_neg (by simpa using fits), kept], same⟩

/-! ### What a line does to the frames -/

/-- The frames of a draft without their last nodes and without where reading their blocks stands. -/
def cores (b : Builder) : List Frame :=
  b.stack.map Frame.core

theorem cores_of_leftBy {indent : Nat} (left : LeftBy indent b c) :
    c.cores = (b.stack.filter (·.threshold ≤ indent)).map Frame.core := by
  obtain ⟨f, last, kept, top⟩ := left
  rw [kept, cores, stack, List.map_cons, List.map_cons, top]
  rfl

/-- What the statement of a line does to the frames that are open then: it may open one more, an
`[endif]` closes the innermost one if that is a block, and all others stay in place. -/
inductive Turns (statement : Statement) (before after : List Frame) : Prop where
  | stays (same : after = before)
  | opens (f : Frame) (more : after = f :: before)
  | ends (f : Frame) (block : Block) (reads : statement = .endIf) (kind : f.kind = .block block)
    (less : before = f.core :: after)

theorem acts_turns {l : Line} (acts : Acts l b c) :
    Turns (Statement.read l.body) b.cores c.cores := by
  induction acts with
  | nothing same => exact .stays (by rw [cores, cores, same.stack])
  | noted _ _ ih => exact ih
  | append _ _ _ _ => exact .stays rfl
  | option b text =>
    obtain ⟨choice, last⟩ := atChoice_last b l.number l.indent
    rw [option_eq text l.textId last]
    have around : (b.atChoice l.number l.indent).cores = b.cores := by
      unfold atChoice
      split <;> rfl
    exact .opens _ (by rw [← around]; rfl)
  | openIf b condition next =>
    cases chained : b.follows l.indent || next with
    | true =>
      obtain ⟨choice, last⟩ := atHead_last (b := b) l.number l.indent
      rw [openIf_chained condition chained last]
      have around : (b.atHead l.number l.indent).cores = b.cores := by
        unfold atHead
        split <;> rfl
      exact .opens _ (by rw [← around]; rfl)
    | false =>
      simp only [Bool.or_eq_false_iff] at chained
      rw [chained.2, openIf_unchained condition chained.1]
      exact .opens _ rfl
  | addBranch b condition keyword =>
    cases kind : b.top.kind with
    | block block =>
      cases more : block.hasElse with
      | true =>
        simp only [addBranch, kind, more, if_true]
        exact .stays rfl
      | false =>
        -- A further branch moves the block on, which the core of its frame leaves out.
        rw [addBranch_eq l.number condition keyword kind more]
        refine .stays ?_
        simp [cores, stack, toBranch, Frame.core, kind, nextBranch, closedBlock]
    | _ =>
      simp only [addBranch, kind]
      exact .stays rfl
  | endIf b reads =>
    unfold endIf
    split
    next block outer rest kind below =>
      obtain ⟨top, left⟩ := closeBlock_top b block outer rest
      refine .ends b.top block reads kind ?_
      rw [cores, cores, stack, stack, top, left, below]
      rfl
    · exact .stays rfl

/-- What a line of the body that is read does to the frames. -/
structure Shuts (b : Builder) (l : Line) (c : Builder) : Prop where
  /-- First it closes the frames with a threshold above its indent, and no other. -/
  closes : LeftBy l.indent b (b.settle l.number l.indent)
  ordered : (b.settle l.number l.indent).WellOrdered
  /-- The frames that it leaves open stay in place, but for what its statement says. -/
  stays : Turns (Statement.read l.body)
    ((b.stack.filter (·.threshold ≤ l.indent)).map Frame.core) c.cores

theorem Orderly.shuts {s : Settings} {l : Line} {rest : List (List Char)} (orderly : b.Orderly)
    (read : b.readBodyLine s l rest = .ok c) : b.Shuts l c := by
  have left : LeftBy l.indent b (b.settle l.number l.indent) :=
    popAbove_leftBy orderly l.number (Nat.le_refl _)
  refine ⟨left, (orderly.settle l.number l.indent).wellOrdered, ?_⟩
  rw [← cores_of_leftBy left]
  exact acts_turns (acts_of_readBodyLine read)

end Builder

/-- Wherever reading a script stands, the frames are in order, and the next line of the body closes
just those that have a threshold above its indent. -/
theorem frames_ordered {s : Settings} {lines : List (List Char)} {r : Reader}
    (reaches : Reaches s ⟨{}, 1, lines⟩ r) :
    r.builder.WellOrdered ∧ ∀ l rest c, r.builder.readBodyLine s l rest = .ok c →
      r.builder.Shuts l c := by
  have orderly : r.builder.Orderly :=
    reaches.keeps Builder.Orderly (fun kept read => kept.readLine read) .start
  exact ⟨orderly.wellOrdered, fun l rest c read => orderly.shuts read⟩

/-- An option whose block is not closed, and in it another option. -/
def unclosedBlock : List (List Char) :=
  ["* one", "    [if x > 1]", "        * two"].map String.toList

/-- A line that is in the first option alone closes the second one and the block. -/
theorem frames_ordered_unclosed :
    ∃ b c l, Reaches .standard ⟨{}, 1, unclosedBlock⟩ ⟨b, 4, []⟩
      ∧ b.readBodyLine .standard l [] = .ok c
      ∧ b.stack.map (·.threshold) = [9, 4, 1, 0] ∧ l.indent = 2
      ∧ c.stack.map (·.threshold) = [1, 0] ∧ b.WellOrdered ∧ b.Shuts l c := by
  let late : Line := ⟨4, 2, "A: late".toList, ""⟩
  have reads : (Builder.readLines .standard {} 1 unclosedBlock).toOption.any
      (fun b => b.stack.map (·.threshold) = [9, 4, 1, 0]
        && (b.readBodyLine .standard late []).toOption.any
          (·.stack.map (·.threshold) = [1, 0])) = true := by
    decide +kernel
  obtain ⟨b, read, facts⟩ := exists_ok_of_any reads
  simp only [Bool.and_eq_true, decide_eq_true_eq] at facts
  obtain ⟨c, body, thresholds⟩ := exists_ok_of_any facts.2
  rw [decide_eq_true_eq] at thresholds
  have reaches := reaches_of_readLines read
  obtain ⟨ordered, shuts⟩ := frames_ordered reaches
  exact ⟨b, c, late, reaches, body, facts.1, rfl, thresholds, ordered, shuts late [] c body⟩

end Colloquy.Script
