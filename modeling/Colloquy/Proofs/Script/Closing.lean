import Colloquy.Proofs.Script.Body
/-!
# Closing frames without complaint

Where nothing is complained about a line closes no blocks, so all it does to the draft is to leave
the loose ends of options to a search. The frames that it closes are those with a threshold above
its indent.
-/

namespace Colloquy.Script

theorem dropWhile_lower (frames : List Frame) {i n : Nat} (lower : i ≤ n) :
    (frames.dropWhile fun f => n < f.threshold).dropWhile (fun f => i < f.threshold)
      = frames.dropWhile fun f => i < f.threshold := by
  induction frames with
  | nil => rfl
  | cons f rest ih =>
    by_cases above : n < f.threshold
    · have further : i < f.threshold := Nat.lt_of_le_of_lt lower above
      rw [List.dropWhile_cons_of_pos (by simpa using above),
        List.dropWhile_cons_of_pos (by simpa using further), ih]
    · rw [List.dropWhile_cons_of_neg (by simpa using above)]

namespace Builder

variable {b c : Builder} {f : Frame} {rest : List Frame} {n i : Nat}

/-- What a draft is after the frames with a threshold above an indent have been closed, none of
which is a block. -/
structure Leaves (b c : Builder) (indent : Nat) : Prop where
  stack : c.stack = b.stack.dropWhile fun f => indent < f.threshold
  nodes : Extends (fun _ => False) (· ∈ b.looseEdges) b.nodes c.nodes
  count : c.nodes.length = b.nodes.length
  stays : b.top.threshold ≤ indent → c = b

theorem settle_of_le (fits : b.top.threshold ≤ i) (line : Nat) : b.settle line i = b := by
  unfold settle
  cases b.below.length with
  | zero => rfl
  | succ fuel =>
    rw [popAbove]
    simp [fits]

theorem leaves_of_le (fits : b.top.threshold ≤ i) : b.Leaves b i := by
  refine ⟨?_, .refl _ _ _, rfl, fun _ => rfl⟩
  rw [stack, List.dropWhile_cons_of_neg (by simpa using fits)]

/-- The draft after the innermost frame has been closed, which is no block. -/
def drop (b : Builder) (outer : Frame) (rest : List Frame) : Builder :=
  { b.release with top := outer, below := rest }

theorem drop_leaves {outer : Frame} (below : b.below = outer :: rest) (above : i < b.top.threshold)
    (leaves : (b.drop outer rest).Leaves c i) : b.Leaves c i := by
  have released := Extends.foldl_aim (.search b.nodes.length) b.looseEdges b.nodes
  refine ⟨?_, ?_, ?_, fun fits => absurd fits (Nat.not_le.mpr above)⟩
  · rw [leaves.stack]
    conv_rhs => rw [stack, List.dropWhile_cons_of_pos (by simpa using above), below]
    rfl
  · refine released.trans (leaves.nodes.mono (fun _ => id) fun r member => ?_)
    cases member
  · exact leaves.count.trans (foldl_aim_length _ _ _)

/-- A block that a line closes is complained about. -/
theorem pop_block_complains {block : Block} (kind : b.top.kind = .block block) {outer : Frame}
    (below : b.below = outer :: rest) (line : Nat) : (b.pop line).diagnostics ≠ [] := by
  have grown : Grows (fun _ _ => True) 0 _ _ :=
    Grows.closeBlock (b := b.note (.complain line
      ("Missing [endif] for the [if] on line " ++ Number.natText b.top.line))) (Nat.zero_le _)
      kind below
  unfold pop
  rw [below]
  dsimp only
  rw [kind]
  intro none
  have notes := grown.notes
  rw [none] at notes
  have := List.prefix_nil.mp notes
  simp [note] at this

theorem pop_of_no_block (noBlock : ∀ block, b.top.kind ≠ .block block) {outer : Frame}
    (below : b.below = outer :: rest) (line : Nat) : b.pop line = b.drop outer rest := by
  unfold pop
  rw [below]
  dsimp only
  split
  next block kind => exact absurd kind (noBlock block)
  · rfl

/-- A line is indented enough to be in the innermost frame that it leaves open. -/
theorem settle_fits (founded : Founded 0 0 b.stack) (line indent : Nat) :
    (b.settle line indent).top.threshold ≤ indent := by
  obtain below | fits := @popAbove_stops b line indent b.below.length (Nat.le_refl _)
  · have still : Proceeds (fun _ _ => True) 0 0 b (b.settle line indent) :=
      Proceeds.settle founded line (Nat.zero_le _)
    have outermost := still.2
    rw [stack, show (b.settle line indent).below = [] from below] at outermost
    cases outermost with
    | floor _ bound _ => exact (Nat.le_of_eq bound).trans (Nat.zero_le _)
    | above _ founded => cases founded
  · exact fits

theorem settle_leaves (founded : Founded 0 0 b.stack) {line : Nat}
    (clean : (b.settle line i).diagnostics = []) : b.Leaves (b.settle line i) i := by
  unfold settle at clean ⊢
  generalize count : b.below.length = fuel at clean ⊢
  induction fuel generalizing b with
  | zero =>
    have below := List.length_eq_zero_iff.mp count
    have fits : b.top.threshold ≤ i := by
      rw [stack, below] at founded
      cases founded with
      | floor _ bound _ => omega
      | above _ founded => cases founded
    exact leaves_of_le fits
  | succ fuel ih =>
    obtain ⟨outer, rest, below⟩ : ∃ outer rest, b.below = outer :: rest :=
      List.exists_cons_of_length_eq_add_one count
    rw [popAbove] at clean ⊢
    by_cases fits : b.top.threshold ≤ i
    · rw [if_pos (by simp [fits])]
      exact leaves_of_le fits
    · have open_ : ¬ (b.below.isEmpty || b.top.threshold ≤ i) = true := by simp [below, fits]
      rw [if_neg open_] at clean ⊢
      have inner : Founded 0 0 b.below := founded.below_closed (by omega)
      rw [below] at inner
      have popped := pop_founded line founded (below ▸ inner)
      -- a block that a line closes would leave a diagnostic
      by_cases isBlock : ∃ block, b.top.kind = .block block
      · obtain ⟨block, kind⟩ := isBlock
        have more : Grows (fun _ _ => True) 0 (b.pop line) _ :=
          (Grows.popAbove line i fuel popped (Nat.zero_le _)).1
        have notes := more.notes
        rw [clean] at notes
        exact absurd (List.prefix_nil.mp notes) (pop_block_complains kind below line)
      · rw [pop_of_no_block (not_exists.mp isBlock) below] at clean ⊢
        have count : (b.drop outer rest).below.length = fuel := by
          rw [below] at count
          exact Nat.succ.inj count
        exact drop_leaves below (by omega) (ih inner count clean)

/-- At the end of a script all frames are closed. -/
theorem popAll_spares {line fuel : Nat} (clean : (popAll line fuel b).diagnostics = []) :
    Extends (fun _ => False) (fun _ => True) b.nodes (popAll line fuel b).nodes := by
  induction fuel generalizing b with
  | zero => exact .refl _ _ _
  | succ fuel ih =>
    rw [popAll] at clean ⊢
    cases below : b.below with
    | nil => exact .refl _ _ _
    | cons outer rest =>
      rw [below] at clean
      rw [if_neg (by simp)] at clean ⊢
      by_cases isBlock : ∃ block, b.top.kind = .block block
      · obtain ⟨block, kind⟩ := isBlock
        have more : Grows (fun _ _ => True) 0 (b.pop line) _ := Grows.popAll line fuel _
        have notes := more.notes
        rw [clean] at notes
        exact absurd (List.prefix_nil.mp notes) (pop_block_complains kind below line)
      · rw [pop_of_no_block (not_exists.mp isBlock) below] at clean ⊢
        have released := Extends.foldl_aim (.search b.nodes.length) b.looseEdges b.nodes
        exact (released.mono (fun _ => id) fun _ _ => trivial).trans (ih clean)

theorem finish_spares {last : Nat} (clean : (b.finish last).diagnostics = []) :
    Extends (fun _ => False) (fun _ => True) b.nodes (b.finish last).nodes := by
  obtain ⟨nodes, _, _, _, _, _, notes⟩ :=
    (b.closed last).endLabels_same (b.closed last).waiting
  rw [finish_eq] at clean ⊢
  have quiet : (b.closed last).diagnostics = [] := by
    rw [show _ = _ from clean] at notes
    exact List.prefix_nil.mp notes
  change Extends _ _ b.nodes ((b.closed last).endLabels (b.closed last).waiting).nodes
  rw [nodes]
  unfold closed at quiet ⊢
  dsimp only at quiet ⊢
  generalize ended : (if b.headerState.inside then
    b.note (.complain last "Header block is never closed with '==='") else b) = e at quiet ⊢
  have same : b.nodes = e.nodes := by
    rw [← ended]
    split <;> rfl
  rw [same]
  exact (popAll_spares quiet).trans
    ((Extends.foldl_aim _ _ _).mono (fun _ => id) fun _ _ => trivial)

/-! ### Where reading is back -/

/-- Whether the frame `f` over `rest` is the innermost one once a line with an indent has closed
what it closes. -/
def Back (b : Builder) (indent : Nat) (f : Frame) (rest : List Frame) : Prop :=
  b.stack.dropWhile (fun f => indent < f.threshold) = f :: rest

theorem back_of_stack (stack : b.stack = f :: rest) (fits : f.threshold ≤ n) : b.Back n f rest := by
  rw [Back, stack, List.dropWhile_cons_of_neg (by simpa using fits)]

theorem Back.fits (back : b.Back n f rest) : f.threshold ≤ n := by
  have head := List.head?_dropWhile_not (fun f : Frame => decide (n < f.threshold)) b.stack
  rw [show _ = _ from back] at head
  exact Nat.le_of_not_lt (by simpa using head)

/-- A line that is indented less finds itself in the same frame, unless it closes that. -/
theorem Back.lower (back : b.Back n f rest) (lower : i ≤ n) (fits : f.threshold ≤ i) :
    b.Back i f rest := by
  rw [Back, ← dropWhile_lower b.stack lower, show _ = _ from back,
    List.dropWhile_cons_of_neg (by simpa using fits)]

/-- Frames around one that is back are back once lines in that one have been read. -/
theorem back_of_founded {k : Nat} {frames : List Frame} (founded : Founded k (n + 1) frames)
    (outer : outermost k frames = f :: rest) (fits : f.threshold ≤ n) :
    frames.dropWhile (fun f => n < f.threshold) = f :: rest := by
  induction founded with
  | @floor g inner count bound _ =>
    rw [List.dropWhile_cons_of_pos (by simp [bound])]
    have same : outermost k (g :: inner) = inner := by
      rw [outermost_cons g (Nat.le_of_eq count.symm), ← count, outermost_length_self]
    rw [← same, outer, List.dropWhile_cons_of_neg (by simpa using fits)]
  | @above g inner bound founded ih =>
    have deep : k ≤ inner.length := (Founded.above bound founded).deep
    rw [List.dropWhile_cons_of_pos (by simp; omega)]
    exact ih (outermost_cons g deep ▸ outer)

/-- A line that does not close a frame leaves it where it finds it. -/
theorem Back.leaves (back : b.Back n f rest) (leaves : b.Leaves c i) (fits : f.threshold ≤ i) :
    c.Back n f rest := by
  obtain lower | upper := Nat.le_total n i
  · rw [Back, leaves.stack, dropWhile_lower b.stack lower]
    exact back
  · have stack : c.stack = f :: rest := leaves.stack.trans (back.lower upper fits)
    rw [Back, stack, List.dropWhile_cons_of_neg (by simpa using back.fits)]

theorem Leaves.back (leaves : b.Leaves c i) (back : b.Back i f rest) : c.stack = f :: rest :=
  leaves.stack.trans back

end Builder

end Colloquy.Script
