import Colloquy.Proofs.Script.Growing
/-!
# Diagnostics that are there already

Reading only adds diagnostics and never looks at those that are there: whatever has been found wrong
before, the rest of a script is read in the same way.
-/

namespace Colloquy.Script.Builder

/-- A draft before which other diagnostics were found. -/
def after (earlier : List Diagnostic) (b : Builder) : Builder :=
  { b with diagnostics := earlier ++ b.diagnostics }

/-- A draft with what another has beside its body: the header and the diagnostics. -/
def beside (b x : Builder) : Builder :=
  { b with header := x.header, headerState := x.headerState, diagnostics := x.diagnostics }

variable (earlier : List Diagnostic) (b : Builder)

theorem note_after (d : Diagnostic) : (b.after earlier).note d = (b.note d).after earlier := by
  simp [note, after]

theorem append_after (d : Draft) (connect : Bool) :
    (b.after earlier).append d connect = (b.append d connect).after earlier := rfl

theorem release_after : (b.after earlier).release = b.release.after earlier := rfl

/-- Closing a block sees nothing of what is beside the body. -/
theorem closeBlock_beside (b x : Builder) (block : Block) (outer : Frame) (rest : List Frame) :
    (b.beside x).closeBlock block outer rest = (b.closeBlock block outer rest).beside x := by
  cases chained : block.chained with
  | true =>
    rw [closeBlock_chained _ outer rest chained, closeBlock_chained _ outer rest chained]
    rfl
  | false =>
    cases hasElse : block.hasElse with
    | true =>
      rw [closeBlock_complete _ outer rest chained hasElse,
        closeBlock_complete _ outer rest chained hasElse]
      rfl
    | false =>
      rw [closeBlock_partial _ outer rest chained hasElse,
        closeBlock_partial _ outer rest chained hasElse]
      rfl

theorem closeBlock_after (block : Block) (outer : Frame) (rest : List Frame) :
    (b.after earlier).closeBlock block outer rest
      = (b.closeBlock block outer rest).after earlier := by
  have alone : b.closeBlock block outer rest = (b.closeBlock block outer rest).beside b :=
    closeBlock_beside b b block outer rest
  have moved := closeBlock_beside b (b.after earlier) block outer rest
  rw [alone] at moved ⊢
  exact moved

theorem pop_after (line : Nat) : (b.after earlier).pop line = (b.pop line).after earlier := by
  have frames : (b.after earlier).below = b.below := rfl
  have top : (b.after earlier).top = b.top := rfl
  unfold pop
  rw [frames, top]
  cases b.below with
  | nil => rfl
  | cons outer rest =>
    cases b.top.kind with
    | block block =>
      dsimp only
      rw [note_after, closeBlock_after]
    | root | option => rfl

theorem popAbove_after (line indent fuel : Nat) :
    popAbove line indent fuel (b.after earlier) = (popAbove line indent fuel b).after earlier := by
  induction fuel generalizing b with
  | zero => rfl
  | succ fuel ih =>
    have frames : (b.after earlier).below = b.below := rfl
    have top : (b.after earlier).top = b.top := rfl
    -- Whether the next frame closes is a matter of its threshold alone.
    rw [popAbove, popAbove, pop_after, ih, frames, top]
    split <;> rfl

theorem settle_after (line indent : Nat) :
    (b.after earlier).settle line indent = (b.settle line indent).after earlier :=
  popAbove_after earlier b line indent _

theorem popAll_after (line fuel : Nat) :
    popAll line fuel (b.after earlier) = (popAll line fuel b).after earlier := by
  induction fuel generalizing b with
  | zero => rfl
  | succ fuel ih =>
    have frames : (b.after earlier).below = b.below := rfl
    rw [popAll, popAll, pop_after, ih, frames]
    split <;> rfl

/-! ### Statements -/

theorem option_after (line indent : Nat) (text textId : String) :
    (b.after earlier).option line indent text textId
      = (b.option line indent text textId).after earlier := by
  have choice : (b.after earlier).atChoice line indent = (b.atChoice line indent).after earlier := by
    have last : (b.after earlier).lastOf (b.after earlier).top = b.lastOf b.top := rfl
    unfold atChoice
    rw [last]
    split <;> rfl
  -- Both options belong to the same choice, so the draft after them has the same form.
  obtain ⟨i, last⟩ := atChoice_last b line indent
  have last' : ((b.after earlier).atChoice line indent).top.last = some i := by
    rw [choice]
    exact last
  rw [option_eq text textId last, option_eq text textId last', choice]
  rfl

theorem openIf_after (line indent : Nat) (condition : Expression) (optionNext : Bool) :
    (b.after earlier).openIf line indent condition optionNext
      = (b.openIf line indent condition optionNext).after earlier := by
  have follows : (b.after earlier).follows indent = b.follows indent := rfl
  -- The block is chained in both drafts or in neither.
  by_cases chained : (b.follows indent || optionNext) = true
  · have head : (b.after earlier).atHead line indent = (b.atHead line indent).after earlier := by
      unfold atHead
      rw [follows]
      split <;> rfl
    obtain ⟨choice, last⟩ := atHead_last (b := b) line indent
    have last' : ((b.after earlier).atHead line indent).top.last = some choice := by
      rw [head]
      exact last
    rw [openIf_chained condition chained last, openIf_chained condition (follows ▸ chained) last',
      head]
    rfl
  · simp only [Bool.or_eq_true, not_or, Bool.not_eq_true] at chained
    obtain ⟨alone, rfl⟩ := chained
    rw [openIf_unchained condition alone, openIf_unchained condition (follows.trans alone)]
    rfl

theorem addBranch_after (line : Nat) (condition : Option Expression) (keyword : String) :
    (b.after earlier).addBranch line condition keyword
      = (b.addBranch line condition keyword).after earlier := by
  have top : (b.after earlier).top = b.top := rfl
  cases kind : b.top.kind with
  | block block =>
    have kind' : (b.after earlier).top.kind = .block block := kind
    cases hasElse : block.hasElse with
    | true =>
      unfold addBranch
      rw [top, kind]
      dsimp only
      rw [if_pos hasElse, if_pos hasElse]
      exact note_after earlier b _
    | false =>
      rw [addBranch_eq line condition keyword kind hasElse,
        addBranch_eq line condition keyword kind' hasElse]
      rfl
  | root | option =>
    unfold addBranch
    rw [top, kind]
    exact note_after earlier b _

theorem endIf_after (line : Nat) :
    (b.after earlier).endIf line = (b.endIf line).after earlier := by
  have top : (b.after earlier).top = b.top := rfl
  have frames : (b.after earlier).below = b.below := rfl
  unfold endIf
  rw [top, frames]
  cases b.top.kind with
  | root | option => exact note_after earlier b _
  | block block =>
    cases b.below with
    | nil => exact note_after earlier b _
    | cons outer rest => exact closeBlock_after earlier b block outer rest

theorem label_after (endLabel : String) (line : Nat) (name : String) :
    (b.after earlier).label endLabel line name = (b.label endLabel line name).after earlier := by
  have labels : (b.after earlier).labels = b.labels := rfl
  have waiting : (b.after earlier).waiting = b.waiting := rfl
  unfold label
  rw [labels, waiting]
  split
  · exact note_after earlier b _
  · split
    · exact note_after earlier b _
    · rfl

theorem bare_after (line indent : Nat) (text textId : String) :
    (b.after earlier).bare line indent text textId
      = (b.bare line indent text textId).after earlier := by
  have last : (b.after earlier).lastOf (b.after earlier).top = b.lastOf b.top := rfl
  unfold bare
  rw [last]
  split
  · split
    · exact note_after earlier b _
    · rfl
  · exact note_after earlier b _

theorem delimiter_after (line : Nat) :
    (b.after earlier).delimiter line = (b.delimiter line).after earlier := by
  have state : (b.after earlier).headerState = b.headerState := rfl
  have nodes : (b.after earlier).nodes = b.nodes := rfl
  have waiting : (b.after earlier).waiting = b.waiting := rfl
  unfold delimiter
  dsimp only
  rw [state, nodes, waiting]
  split
  · rfl
  · split
    · exact note_after earlier { b with headerState := ⟨true, false, true⟩ } _
    · split
      · exact note_after earlier { b with headerState := ⟨true, false, true⟩ } _
      · rfl

theorem headerStep_after (d : Draft) :
    (b.after earlier).headerStep d = (b.headerStep d).after earlier := by
  have state : (b.after earlier).headerState = b.headerState := rfl
  unfold headerStep
  rw [state]
  split <;> rfl

/-! ### Lines -/

/-- Two readings of which one starts with further diagnostics. -/
abbrev SameAfter (earlier : List Diagnostic) (x y : Except CompileFault Builder) : Prop :=
  Both (fun c c' : Builder => c' = c.after earlier) x y

theorem readCondition_after (line : Nat) (text : String) :
    Both (fun x y : Builder × Expression => y = (x.1.after earlier, x.2))
      (b.readCondition line text) ((b.after earlier).readCondition line text) := by
  refine Both.bind_same (readExpression text) fun answer => ?_
  cases answer with
  | ok e => exact .ok rfl
  | error message => exact .ok (congrArg (·, _) (note_after earlier b _))

theorem readAssignment_after (line indent : Nat) (name text textId : String) :
    Both (fun x y : Builder × Option Draft => y = (x.1.after earlier, x.2))
      (b.readAssignment line indent name text textId)
      ((b.after earlier).readAssignment line indent name text textId) := by
  refine Both.bind_same (readExpression text) fun answer => ?_
  cases answer with
  | ok e => exact .ok rfl
  | error message => exact .ok (congrArg (·, _) (note_after earlier b _))

theorem readHeaderLine_after (l : Line) :
    SameAfter earlier (b.readHeaderLine l) ((b.after earlier).readHeaderLine l) := by
  unfold readHeaderLine
  cases Statement.read l.body with
  | assign name text =>
    refine Both.bind (readAssignment_after earlier b l.number 0 name text l.textId) ?_
    rintro ⟨c, d⟩ _ rfl
    cases d with
    | none => exact .ok rfl
    | some d => exact .ok (headerStep_after earlier c d)
  | _ => exact .ok (note_after earlier b _)

/-- What a line of the body adds once it has closed the frames that it closes. -/
def readStatement (s : Settings) (b : Builder) (l : Line) (rest : List (List Char)) :
    Except CompileFault Builder :=
  match Statement.read l.body with
  | .option text => return b.option l.number l.indent text l.textId
  | .openIf text => do
    let (b, condition) ← b.readCondition l.number text
    return b.openIf l.number l.indent condition (optionNext rest)
  | .elseIf text => do
    let (b, condition) ← b.readCondition l.number text
    return b.addBranch l.number (some condition) "[elseif]"
  | .otherwise => return b.addBranch l.number none "[else]"
  | .endIf => return b.endIf l.number
  | .label name => return b.label s.endLabel l.number name
  | .goto name => return b.append ⟨.goto name, l.number, l.indent, [], 0, []⟩ true
  | .assign name text => do
    let (b, draft) ← b.readAssignment l.number l.indent name text l.textId
    return draft.elim b (b.append · true)
  | .event name text => do
    match ← readArguments ((arguments text.toList).map String.ofList) with
    | .ok args => return b.append ⟨.event name args, l.number, l.indent, [], 0, []⟩ true
    | .error message =>
      return b.note (.complain l.number
        ("Bad argument to [event " ++ name ++ "]: " ++ message))
  | .speech speaker text =>
    return b.append
      ⟨.text speaker text l.textId (Template.params text), l.number, l.indent, [], 0, []⟩ true
  | .bare text => return b.bare l.number l.indent text l.textId
  | .unknown text => return b.note (.complain l.number ("Unknown command '" ++ text ++ "'"))

theorem readBodyLine_eq (s : Settings) (l : Line) (rest : List (List Char)) :
    b.readBodyLine s l rest = (b.settle l.number l.indent).readStatement s l rest := rfl

theorem readStatement_after (s : Settings) (l : Line) (rest : List (List Char)) :
    SameAfter earlier (b.readStatement s l rest) ((b.after earlier).readStatement s l rest) := by
  unfold readStatement
  cases Statement.read l.body with
  | option text => exact .ok (option_after earlier b _ _ _ _)
  | openIf text =>
    refine Both.bind (readCondition_after earlier b l.number text) ?_
    rintro ⟨c, e⟩ _ rfl
    exact .ok (openIf_after earlier c _ _ _ _)
  | elseIf text =>
    refine Both.bind (readCondition_after earlier b l.number text) ?_
    rintro ⟨c, e⟩ _ rfl
    exact .ok (addBranch_after earlier c _ _ _)
  | otherwise => exact .ok (addBranch_after earlier b _ _ _)
  | endIf => exact .ok (endIf_after earlier b _)
  | label name => exact .ok (label_after earlier b _ _ _)
  | goto name => exact .ok (append_after earlier b _ _)
  | assign name text =>
    refine Both.bind (readAssignment_after earlier b l.number l.indent name text l.textId) ?_
    rintro ⟨c, d⟩ _ rfl
    cases d with
    | none => exact .ok rfl
    | some d => exact .ok (append_after earlier c d true)
  | event name text =>
    refine Both.bind_same (readArguments _) fun answer => ?_
    cases answer with
    | ok args => exact .ok (append_after earlier b _ _)
    | error message => exact .ok (note_after earlier b _)
  | speech speaker text => exact .ok (append_after earlier b _ _)
  | bare text => exact .ok (bare_after earlier b _ _ _ _)
  | unknown text => exact .ok (note_after earlier b _)

theorem readLine_after (s : Settings) (number : Nat) (raw : List Char)
    (rest : List (List Char)) :
    SameAfter earlier (b.readLine s number raw rest)
      ((b.after earlier).readLine s number raw rest) := by
  have state : (b.after earlier).headerState = b.headerState := rfl
  unfold readLine
  rw [state]
  cases scan s.tabWidth number raw with
  | empty => exact .ok rfl
  | delimiter => exact .ok (delimiter_after earlier b number)
  | line l =>
    dsimp only
    split
    · exact readHeaderLine_after earlier b l
    · rw [readBodyLine_eq, readBodyLine_eq, settle_after]
      exact readStatement_after earlier _ s l rest

theorem readLines_after (s : Settings) (number : Nat) (lines : List (List Char)) :
    SameAfter earlier (readLines s b number lines)
      (readLines s (b.after earlier) number lines) := by
  induction lines generalizing b number with
  | nil => exact .ok rfl
  | cons raw rest ih =>
    -- What a line leaves differs in the same diagnostics, so the next line starts as this one did.
    refine Both.bind (readLine_after earlier b s number raw rest) ?_
    rintro c _ rfl
    exact ih c (number + 1)

theorem endLabels_after (waiting : List (String × Nat)) :
    (b.after earlier).endLabels waiting = (b.endLabels waiting).after earlier := by
  induction waiting generalizing b with
  | nil => rfl
  | cons l rest ih =>
    unfold endLabels at ih ⊢
    rw [List.foldl_cons, List.foldl_cons, ← ih, note_after]
    rfl

theorem closed_after (lastLine : Nat) :
    (b.after earlier).closed lastLine = (b.closed lastLine).after earlier := by
  have state : (b.after earlier).headerState = b.headerState := rfl
  unfold closed
  dsimp only
  rw [state]
  split
  · rw [note_after, popAll_after, release_after]
    rfl
  · rw [popAll_after, release_after]
    rfl

theorem finish_after (lastLine : Nat) :
    (b.after earlier).finish lastLine = (b.finish lastLine).after earlier := by
  rw [finish_eq, finish_eq, closed_after]
  have waiting : ((b.closed lastLine).after earlier).waiting = (b.closed lastLine).waiting := rfl
  rw [waiting, endLabels_after]
  rfl

end Colloquy.Script.Builder
