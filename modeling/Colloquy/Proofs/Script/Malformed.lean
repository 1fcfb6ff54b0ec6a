import Colloquy.Proofs.Script.Shutting
/-!
# Malformed lines

A line of the body that is found wrong and makes no node and no edge leaves its errors and nothing
else, but it has closed the frames that its indent closes before it is found wrong.
-/

namespace Colloquy.Script

namespace Builder

variable {b c : Builder}

/-! ### What a line comes to -/

/-- What reading a line comes to: it leaves nothing but errors, or it leaves no errors, or it makes
a node or an edge. -/
inductive Outcome (b : Builder) (number : Nat) (c : Builder) : Prop where
  | skipped (errors : List Diagnostic) (same : c = b.noteAll errors)
      (each : ∀ d ∈ errors, d.line = number ∧ d.isError = true)
  | accepted (warnings : List Diagnostic) (notes : c.diagnostics = b.diagnostics ++ warnings)
      (mild : ∀ d ∈ warnings, d.isError = false)
  | made (nodes : c.nodes ≠ b.nodes)

namespace Outcome

variable {number : Nat} {errors : List Diagnostic}

/-- A further error after those of the same line. -/
theorem complain (each : ∀ d ∈ errors, d.line = number ∧ d.isError = true) (message : String) :
    b.Outcome number ((b.noteAll errors).note (.complain number message)) := by
  have same : (b.noteAll errors).note (.complain number message)
      = b.noteAll (errors ++ [.complain number message]) :=
    noteAll_noteAll b errors [Diagnostic.complain number message]
  refine .skipped _ same ?_
  intro d member
  rcases List.mem_append.mp member with old | new
  · exact each d old
  · rw [List.mem_singleton.mp new]
    exact ⟨rfl, rfl⟩

theorem note (b : Builder) (number : Nat) (message : String) :
    b.Outcome number (b.note (.complain number message)) :=
  .skipped [.complain number message] rfl fun d member => by
    rw [List.mem_singleton.mp member]
    exact ⟨rfl, rfl⟩

theorem quiet (notes : c.diagnostics = b.diagnostics) : b.Outcome number c :=
  .accepted [] (by rw [notes, List.append_nil]) fun d member => by cases member

theorem append (b : Builder) (number : Nat) (d : Draft) (connect : Bool) :
    b.Outcome number (b.append d connect) :=
  .quiet rfl

theorem option (b : Builder) (number indent : Nat) (text textId : String) :
    b.Outcome number (b.option number indent text textId) := by
  obtain ⟨choice, last⟩ := atChoice_last b number indent
  rw [option_eq text textId last]
  refine .quiet ?_
  unfold Builder.atChoice
  split <;> rfl

theorem attach_ne {nodes : List Draft} {i : Nat} (inside : i < nodes.length) (edge : DraftEdge) :
    attach nodes i edge ≠ nodes := by
  intro same
  have there := attach_getElem? nodes i i edge
  rw [same, if_pos rfl, List.getElem?_eq_getElem inside, Option.map_some] at there
  have edges := congrArg (·.edges.length) (Option.some.inj there)
  simp at edges

/-- A branch of an open block makes an edge; elsewhere it is out of place. -/
theorem addBranch (sound : b.Sound) (each : ∀ d ∈ errors, d.line = number ∧ d.isError = true)
    (condition : Option Expression) (keyword : String) :
    b.Outcome number ((b.noteAll errors).addBranch number condition keyword) := by
  have top : (b.noteAll errors).top = b.top := rfl
  cases kind : b.top.kind with
  | root | option =>
    unfold Builder.addBranch
    rw [top, kind]
    exact complain each _
  | block block =>
    cases hasElse : block.hasElse with
    | true =>
      unfold Builder.addBranch
      rw [top, kind]
      dsimp only
      rw [if_pos hasElse]
      exact complain each _
    | false =>
      -- The select of an open block is among the nodes, so the new edge makes a difference.
      rw [addBranch_eq (b := b.noteAll errors) number condition keyword kind hasElse]
      exact .made (attach_ne (sound.top.block block kind).1.lt _)

theorem closeBlock_diagnostics (b : Builder) (block : Block) (outer : Frame) (rest : List Frame) :
    (b.closeBlock block outer rest).diagnostics = b.diagnostics :=
  (congrArg Builder.diagnostics (closeBlock_beside b b block outer rest)).trans rfl

theorem endIf (b : Builder) (number : Nat) : b.Outcome number (b.endIf number) := by
  unfold Builder.endIf
  split
  · exact .quiet (closeBlock_diagnostics _ _ _ _)
  · exact note b number _

theorem label (b : Builder) (endLabel : String) (number : Nat) (name : String) :
    b.Outcome number (b.label endLabel number name) := by
  unfold Builder.label
  split
  · exact note b number _
  · split
    · refine .accepted [_] rfl fun d member => ?_
      rw [List.mem_singleton.mp member]
      rfl
    · exact .quiet rfl

theorem bare (b : Builder) (number indent : Nat) (text textId : String) :
    b.Outcome number (b.bare number indent text textId) := by
  unfold Builder.bare
  split
  · split
    · exact note b number _
    · exact append b number _ _
  · exact note b number _

/-- Reading the condition of a branch leaves one error at most. -/
theorem readCondition {text : String} {condition : Expression}
    (read : b.readCondition number text = .ok (c, condition)) :
    ∃ errors, c = b.noteAll errors ∧ ∀ d ∈ errors, d.line = number ∧ d.isError = true := by
  obtain ⟨_, rfl⟩ | ⟨message, _, _, rfl⟩ := readCondition_cases read
  · exact ⟨[], (noteAll_nil _).symm, fun d member => by cases member⟩
  · refine ⟨[_], rfl, fun d member => ?_⟩
    rw [List.mem_singleton.mp member]
    exact ⟨rfl, rfl⟩

theorem readStatement {s : Settings} {l : Line} {rest : List (List Char)} (sound : b.Sound)
    (read : b.readStatement s l rest = .ok c) : b.Outcome l.number c := by
  unfold Builder.readStatement at read
  cases statement : Statement.read l.body <;> rw [statement] at read <;> dsimp only at read
  case option =>
    cases read
    exact option b _ _ _ _
  case openIf =>
    obtain ⟨⟨c', condition⟩, given, last⟩ := bind_eq_ok.mp read
    cases last
    obtain ⟨errors, rfl, _⟩ := readCondition given
    -- A faulty condition is an error as well, but the block begins all the same.
    refine .made fun same => ?_
    have grows := openIf_grows (b.noteAll errors) l.number l.indent condition (optionNext rest)
    rw [same] at grows
    exact Nat.lt_irrefl _ grows
  case elseIf =>
    obtain ⟨⟨c', condition⟩, given, last⟩ := bind_eq_ok.mp read
    cases last
    obtain ⟨errors, rfl, each⟩ := readCondition given
    exact addBranch sound each _ _
  case otherwise =>
    cases read
    have alone : b.Outcome l.number ((b.noteAll []).addBranch l.number none "[else]") :=
      addBranch sound (fun d member => by cases member) none "[else]"
    rwa [noteAll_nil] at alone
  case endIf =>
    cases read
    exact endIf b _
  case label =>
    cases read
    exact label b _ _ _
  case goto =>
    cases read
    exact append b _ _ _
  case assign =>
    obtain ⟨⟨c', draft⟩, given, last⟩ := bind_eq_ok.mp read
    cases last
    obtain ⟨_, _, rfl, rfl⟩ | ⟨_, _, rfl, rfl⟩ := readAssignment_cases given
    · exact append _ _ _ _
    · exact note b _ _
  case event =>
    obtain ⟨answer, _, last⟩ := bind_eq_ok.mp read
    cases answer with
    | ok args =>
      cases last
      exact append b _ _ _
    | error message =>
      cases last
      exact note b _ _
  case speech =>
    cases read
    exact append b _ _ _
  case bare =>
    cases read
    exact bare b _ _ _ _
  case unknown =>
    cases read
    exact note b _ _

end Outcome

end Builder

/-! ### Malformed lines -/

/-- A line of the body is found wrong and makes no node and no edge; `errors` is what is found wrong
once it has closed the frames that it closes. -/
structure Malformed (s : Settings) (b : Builder) (number : Nat) (raw : List Char)
    (rest : List (List Char)) (l : Line) (errors : List Diagnostic) : Prop where
  scanned : scan s.tabWidth number raw = .line l
  body : b.headerState.inside = false
  read : ∃ c, b.readBodyLine s l rest = .ok c ∧ c.nodes = (b.settle l.number l.indent).nodes
    ∧ c.diagnostics = (b.settle l.number l.indent).diagnostics ++ errors
  reported : ∃ d ∈ errors, d.isError = true

/-- What is complained about at a line when the blocks that an indent closes are closed there. -/
def missingEnds (b : Builder) (indent line : Nat) : List Diagnostic :=
  (unclosed (indent < ·) b.stack).map (missingEnd line)

namespace Malformed

variable {s : Settings} {b : Builder} {number : Nat} {raw : List Char} {rest : List (List Char)}
  {l : Line} {errors : List Diagnostic}

/-- A malformed line closes the frames that it closes, and leaves its errors. -/
theorem readLine (malformed : Malformed s b number raw rest l errors) (healthy : b.Healthy) :
    b.readLine s number raw rest
        = .ok ((b.shut (l.indent < ·)).noteAll (missingEnds b l.indent l.number ++ errors))
      ∧ ∀ d ∈ errors, d.line = l.number ∧ d.isError = true := by
  obtain ⟨c, read, nodes, notes⟩ := malformed.read
  obtain ⟨error, member, isError⟩ := malformed.reported
  have outcome := Builder.Outcome.readStatement (healthy.settle l.number l.indent).sound
    ((Builder.readBodyLine_eq b s l rest).symm.trans read)
  -- Of the three outcomes only the first leaves an error and no node or edge.
  cases outcome with
  | made changed => exact absurd nodes changed
  | accepted warnings more mild =>
    rw [more] at notes
    rw [← List.append_cancel_left notes] at member
    rw [mild error member] at isError
    cases isError
  | skipped own same each =>
    have same' := congrArg Builder.diagnostics same
    rw [notes] at same'
    rw [← List.append_cancel_left same'] at same each
    refine ⟨?_, each⟩
    unfold Builder.readLine
    rw [malformed.scanned]
    dsimp only
    rw [malformed.body, if_neg Bool.false_ne_true, read, same, Builder.settle_shut,
      Builder.noteAll_noteAll]
    rfl

end Malformed

end Colloquy.Script
