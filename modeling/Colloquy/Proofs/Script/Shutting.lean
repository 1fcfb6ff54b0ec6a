import Colloquy.Proofs.Script.Closing
import Colloquy.Proofs.Script.Health
import Colloquy.Proofs.Script.Notes
/-!
# Closing frames at an earlier line

Which line closes a frame is only seen in what is complained about: the draft is the same whether
frames are closed at once or some of them by a line before. What a script has beside its body is left
alone.
-/

namespace Colloquy.Script

/-- The complaint about a block that is closed without an endif at a line. -/
def missingEnd (line opened : Nat) : Diagnostic :=
  .complain line ("Missing [endif] for the [if] on line " ++ Number.natText opened)

/-- The line of a block that is complained about if its frame is closed. -/
def Frame.unclosed (f : Frame) : List Nat :=
  match f.kind with
  | .block _ => [f.line]
  | _ => []

/-- The lines of the blocks that are complained about if the frames with certain thresholds are
closed, the outermost being kept. -/
def unclosed (closes : Nat → Bool) : List Frame → List Nat
  | f :: outer :: rest =>
    if closes f.threshold then f.unclosed ++ unclosed closes (outer :: rest) else []
  | _ => []

namespace Builder

variable {b : Builder} {closes : Nat → Bool}

/-- Closes the innermost frame without a complaint, if it is not the outermost. -/
def shutTop (b : Builder) : Builder :=
  match b.below with
  | [] => b
  | outer :: rest =>
    match b.top.kind with
    | .block block => b.closeBlock block outer rest
    | _ => b.drop outer rest

/-- Closes frames without a complaint as long as the threshold of the innermost is such. -/
def shutWhile (closes : Nat → Bool) : Nat → Builder → Builder
  | 0, b => b
  | fuel + 1, b =>
    if b.below.isEmpty || !closes b.top.threshold then b else shutWhile closes fuel b.shutTop

/-- The draft after the frames with certain thresholds have been closed. -/
def shut (b : Builder) (closes : Nat → Bool) : Builder :=
  shutWhile closes b.below.length b

/-! ### What is left alone -/

theorem shutTop_beside (b x : Builder) : (b.beside x).shutTop = b.shutTop.beside x := by
  have frames : (b.beside x).below = b.below := rfl
  have top : (b.beside x).top = b.top := rfl
  unfold shutTop
  rw [frames, top]
  cases b.below with
  | nil => rfl
  | cons outer rest =>
    cases b.top.kind with
    | block block => exact closeBlock_beside b x block outer rest
    | root | option => rfl

theorem shutWhile_beside (closes : Nat → Bool) (fuel : Nat) (b x : Builder) :
    shutWhile closes fuel (b.beside x) = (shutWhile closes fuel b).beside x := by
  induction fuel generalizing b with
  | zero => rfl
  | succ fuel ih =>
    have frames : (b.beside x).below = b.below := rfl
    have top : (b.beside x).top = b.top := rfl
    rw [shutWhile, shutWhile, frames, top, shutTop_beside, ih]
    split <;> rfl

theorem shut_beside (b x : Builder) : (b.beside x).shut closes = (b.shut closes).beside x :=
  shutWhile_beside closes b.below.length b x

/-- Closing frames leaves alone what is beside the body. -/
theorem shut_alone (b : Builder) (closes : Nat → Bool) :
    b.shut closes = (b.shut closes).beside b :=
  shut_beside b b

theorem shutTop_below (b : Builder) : b.shutTop.below = b.below.tail := by
  unfold shutTop
  cases below : b.below with
  | nil => exact below
  | cons outer rest =>
    cases b.top.kind with
    | block block => exact (closeBlock_top b block outer rest).2
    | root | option => rfl

/-- The frame that becomes the innermost is the one that was below, but for its last node. -/
theorem shutTop_top {outer : Frame} {rest : List Frame} (below : b.below = outer :: rest) :
    ∃ last, b.shutTop.top = { outer with last := last } := by
  unfold shutTop
  rw [below]
  dsimp only
  split
  next block _ => exact ⟨_, (closeBlock_top b block outer rest).1⟩
  · exact ⟨outer.last, rfl⟩

/-- What closes is a matter of thresholds. -/
theorem unclosed_last (closes : Nat → Bool) (f : Frame) (last : Option Nat) (rest : List Frame) :
    unclosed closes ({ f with last := last } :: rest) = unclosed closes (f :: rest) := by
  cases rest <;> rfl

/-! ### Closing all that closes -/

theorem shut_of_stays (closes : Nat → Bool) (stays : b.below = [] ∨ closes b.top.threshold = false) :
    b.shut closes = b ∧ unclosed closes b.stack = [] := by
  unfold shut stack
  rcases stays with below | high
  · rw [below]
    exact ⟨rfl, rfl⟩
  · cases below : b.below with
    | nil => exact ⟨rfl, rfl⟩
    | cons outer rest =>
      refine ⟨?_, ?_⟩
      · rw [List.length_cons, shutWhile, high]
        simp
      · rw [unclosed, high]
        rfl

theorem shut_of_closes {outer : Frame} {rest : List Frame} (below : b.below = outer :: rest)
    (low : closes b.top.threshold = true) :
    b.shut closes = b.shutTop.shut closes
      ∧ unclosed closes b.stack = b.top.unclosed ++ unclosed closes b.shutTop.stack := by
  obtain ⟨last, top⟩ := shutTop_top below
  refine ⟨?_, ?_⟩
  · unfold shut
    rw [shutTop_below, below, List.length_cons, shutWhile, below, low]
    rfl
  · rw [stack, stack, below, unclosed, if_pos low, top, shutTop_below, below, List.tail_cons]
    exact congrArg (b.top.unclosed ++ ·) (unclosed_last closes outer last rest).symm

/-- Frames that some line has closed before are closed all the same, and complained about once. -/
theorem shut_shut (closes wider : Nat → Bool)
    (more : ∀ f ∈ b.stack, closes f.threshold = true → wider f.threshold = true) :
    (b.shut closes).shut wider = b.shut wider
      ∧ unclosed wider b.stack = unclosed closes b.stack ++ unclosed wider (b.shut closes).stack := by
  generalize count : b.below.length = fuel
  induction fuel generalizing b with
  | zero =>
    obtain ⟨same, none⟩ := shut_of_stays closes (.inl (List.length_eq_zero_iff.mp count))
    rw [same, none]
    exact ⟨rfl, rfl⟩
  | succ fuel ih =>
    obtain ⟨outer, rest, below⟩ := List.exists_cons_of_length_eq_add_one count
    cases low : closes b.top.threshold with
    | false =>
      obtain ⟨same, none⟩ := shut_of_stays closes (.inr low)
      rw [same, none]
      exact ⟨rfl, rfl⟩
    | true =>
      -- The innermost frame closes either way; the frames below it are those that were there.
      have low' := more b.top (List.mem_cons_self ..) low
      obtain ⟨last, top⟩ := shutTop_top below
      have tail := shutTop_below b
      rw [below, List.tail_cons] at tail
      obtain ⟨first, notes⟩ := shut_of_closes below low
      obtain ⟨first', notes'⟩ := shut_of_closes below low'
      obtain ⟨again, notes''⟩ := ih (b := b.shutTop) (by
        intro f member
        rw [stack, top, tail] at member
        rcases List.mem_cons.mp member with rfl | deeper
        · exact more outer (List.mem_cons_of_mem _ (by rw [below]; exact List.mem_cons_self ..))
        · exact more f (List.mem_cons_of_mem _
            (by rw [below]; exact List.mem_cons_of_mem _ deeper))) (by
        rw [tail]
        rw [below, List.length_cons] at count
        omega)
      rw [first, first', again, notes, notes', notes'', List.append_assoc]
      exact ⟨rfl, rfl⟩

/-! ### Complaints -/

/-- Adds diagnostics. -/
def noteAll (b : Builder) (ds : List Diagnostic) : Builder :=
  { b with diagnostics := b.diagnostics ++ ds }

theorem noteAll_nil (b : Builder) : b.noteAll [] = b := by
  rw [noteAll, List.append_nil]

theorem noteAll_noteAll (b : Builder) (ds ds' : List Diagnostic) :
    (b.noteAll ds).noteAll ds' = b.noteAll (ds ++ ds') := by
  simp [noteAll]

/-- What is beside the body is left alone, so a complaint can be made afterwards. -/
theorem beside_noteAll {c : Builder} (alone : c.beside b = c) (ds : List Diagnostic) :
    c.beside (b.noteAll ds) = c.noteAll ds := by
  rw [← alone]
  rfl

theorem shutTop_noteAll (b : Builder) (ds : List Diagnostic) :
    (b.noteAll ds).shutTop = b.shutTop.noteAll ds :=
  (shutTop_beside b (b.noteAll ds)).trans (beside_noteAll (shutTop_beside b b).symm ds)

theorem shut_noteAll (b : Builder) (ds : List Diagnostic) :
    (b.noteAll ds).shut closes = (b.shut closes).noteAll ds :=
  (shut_beside b (b.noteAll ds)).trans (beside_noteAll (shut_alone b closes).symm ds)

theorem pop_shut {outer : Frame} {rest : List Frame} (below : b.below = outer :: rest) (line : Nat) :
    b.pop line = b.shutTop.noteAll (b.top.unclosed.map (missingEnd line)) := by
  -- The complaint comes before the frame is closed, but closing does not look at it.
  rw [← shutTop_noteAll]
  unfold pop shutTop
  have frames : (b.noteAll (b.top.unclosed.map (missingEnd line))).below = b.below := rfl
  have top : (b.noteAll (b.top.unclosed.map (missingEnd line))).top = b.top := rfl
  rw [frames, top, below, Frame.unclosed]
  dsimp only
  cases b.top.kind with
  | block block => rfl
  | root | option =>
    rw [List.map_nil, noteAll_nil]
    rfl

/-- Closing frames one after the other, each with its complaint, is closing them all. -/
theorem pops_shut {pops : Nat → Builder → Builder} (line : Nat) (zero : ∀ b, pops 0 b = b)
    (succ : ∀ fuel b, pops (fuel + 1) b
      = if b.below.isEmpty || !closes b.top.threshold then b else pops fuel (b.pop line))
    (b : Builder) : pops b.below.length b
      = (b.shut closes).noteAll ((unclosed closes b.stack).map (missingEnd line)) := by
  generalize count : b.below.length = fuel
  induction fuel generalizing b with
  | zero =>
    obtain ⟨same, none⟩ := shut_of_stays closes (.inl (List.length_eq_zero_iff.mp count))
    rw [zero, same, none, List.map_nil, noteAll_nil]
  | succ fuel ih =>
    obtain ⟨outer, rest, below⟩ := List.exists_cons_of_length_eq_add_one count
    cases low : closes b.top.threshold with
    | false =>
      obtain ⟨same, none⟩ := shut_of_stays closes (.inr low)
      rw [succ, low, same, none, List.map_nil, noteAll_nil]
      simp
    | true =>
      obtain ⟨first, notes⟩ := shut_of_closes below low
      have rest' : (b.pop line).below.length = fuel := by
        rw [pop_below below]
        rw [below, List.length_cons] at count
        omega
      have go : (b.below.isEmpty || !closes b.top.threshold) = false := by rw [below, low]; rfl
      have frames : (b.shutTop.noteAll (b.top.unclosed.map (missingEnd line))).stack
          = b.shutTop.stack := rfl
      rw [succ, go, if_neg Bool.false_ne_true, ih (b.pop line) rest', first, notes, pop_shut below,
        shut_noteAll, noteAll_noteAll, frames, List.map_append]

theorem settle_shut (b : Builder) (line indent : Nat) :
    b.settle line indent = (b.shut (indent < ·)).noteAll
      ((unclosed (indent < ·) b.stack).map (missingEnd line)) := by
  refine pops_shut line (fun _ => rfl) (fun fuel b => ?_) b
  -- A frame stays if its threshold is not above the indent, and closes if it is.
  have same : (!decide (indent < b.top.threshold)) = decide (b.top.threshold ≤ indent) := by
    rw [← decide_not, decide_eq_decide]
    exact Nat.not_lt
  rw [popAbove, same]

theorem popAll_shut (b : Builder) (line : Nat) :
    popAll line b.below.length b = (b.shut fun _ => true).noteAll
      ((unclosed (fun _ => true) b.stack).map (missingEnd line)) := by
  refine pops_shut line (fun _ => rfl) (fun fuel b => ?_) b
  rw [popAll, Bool.not_true, Bool.or_false]

/-! ### Between the lines of the body -/

theorem shutTop_keeps (b : Builder) :
    b.shutTop.waiting = b.waiting ∧ b.shutTop.nodes.length = b.nodes.length := by
  unfold shutTop
  cases b.below with
  | nil => exact ⟨rfl, rfl⟩
  | cons outer rest =>
    cases b.top.kind with
    | block block =>
      obtain ⟨_, waiting, _, count⟩ := closeBlock_labels b block outer rest
      exact ⟨waiting, count⟩
    | root | option => exact ⟨rfl, foldl_aim_length _ _ _⟩

theorem shut_keeps (b : Builder) (closes : Nat → Bool) :
    (b.shut closes).waiting = b.waiting ∧ (b.shut closes).nodes.length = b.nodes.length := by
  unfold shut
  generalize b.below.length = fuel
  induction fuel generalizing b with
  | zero => exact ⟨rfl, rfl⟩
  | succ fuel ih =>
    rw [shutWhile]
    split
    · exact ⟨rfl, rfl⟩
    · obtain ⟨waiting, count⟩ := ih b.shutTop
      obtain ⟨waiting', count'⟩ := shutTop_keeps b
      exact ⟨waiting.trans waiting', count.trans count'⟩

theorem shut_headerState (b : Builder) (closes : Nat → Bool) :
    (b.shut closes).headerState = b.headerState := by
  rw [shut_alone]
  rfl

/-- What changes a draft beside its body does so before and after frames are closed. -/
theorem shut_of_beside {c d : Builder} (alone : c = b.beside c)
    (same : d = (b.shut closes).beside c) : d = c.shut closes := by
  rw [same, ← shut_beside, ← alone]

/-- A header delimiter is seen beside the body, if there are nodes or labels all the same. -/
theorem delimiter_beside {d : Builder} (waiting : d.waiting = b.waiting)
    (count : d.nodes.length = b.nodes.length) (line : Nat) :
    (d.beside b).delimiter line = d.beside (b.delimiter line) := by
  have nodes : (d.beside b).nodes.isEmpty = b.nodes.isEmpty := by
    rw [Bool.eq_iff_iff, List.isEmpty_iff_length_eq_zero, List.isEmpty_iff_length_eq_zero, ← count]
    rfl
  have begun : (!(d.beside b).nodes.isEmpty || !(d.beside b).waiting.isEmpty)
      = (!b.nodes.isEmpty || !b.waiting.isEmpty) := by
    rw [nodes, ← waiting]
    rfl
  have state : (d.beside b).headerState = b.headerState := rfl
  unfold delimiter
  dsimp only
  rw [state, begun]
  split
  · rfl
  · split
    · rfl
    · split <;> rfl

theorem shut_delimiter (b : Builder) (closes : Nat → Bool) (line : Nat) :
    (b.shut closes).delimiter line = (b.delimiter line).shut closes := by
  obtain ⟨waiting, count⟩ := shut_keeps b closes
  refine shut_of_beside (delimiter_beside rfl rfl line) ?_
  rw [← delimiter_beside waiting count, ← shut_beside]
  rfl

theorem readHeaderLine_beside (b d : Builder) (l : Line) :
    Both (fun x y => y = d.beside x) (b.readHeaderLine l) ((d.beside b).readHeaderLine l) := by
  unfold readHeaderLine
  cases Statement.read l.body with
  | assign name text =>
    -- Only the header and the diagnostics can change.
    have read : Both (fun x y : Builder × Option Draft => y = (d.beside x.1, x.2))
        (b.readAssignment l.number 0 name text l.textId)
        ((d.beside b).readAssignment l.number 0 name text l.textId) := by
      refine Both.bind_same (readExpression text) fun answer => ?_
      cases answer with
      | ok e => exact .ok rfl
      | error message => exact .ok rfl
    refine Both.bind read ?_
    rintro ⟨c, draft⟩ _ rfl
    cases draft with
    | none => exact .ok rfl
    | some step =>
      refine .ok ?_
      have state : (d.beside c).headerState = c.headerState := rfl
      dsimp only [Option.elim_some]
      unfold headerStep
      rw [state]
      split <;> rfl
  | _ => exact .ok rfl

theorem shut_readHeaderLine (b : Builder) (closes : Nat → Bool) (l : Line) :
    Both (fun x y => y = x.shut closes) (b.readHeaderLine l)
      ((b.shut closes).readHeaderLine l) := by
  have here : Both (fun x y => y = b.beside x) (b.readHeaderLine l) (b.readHeaderLine l) :=
    readHeaderLine_beside b b l
  have there := readHeaderLine_beside b (b.shut closes) l
  rw [← shut_alone] at there
  generalize b.readHeaderLine l = x at here there
  generalize (b.shut closes).readHeaderLine l = y at there
  cases there with
  | ok same =>
    cases here with
    | ok own => exact .ok (shut_of_beside own same)
  | error e => exact .error e

end Builder

end Colloquy.Script
