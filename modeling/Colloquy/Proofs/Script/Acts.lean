import Colloquy.Proofs.Script.Contents
import Colloquy.Proofs.Script.Health
/-!
# What a line comes to

All that a line of the body can do, once it has closed the frames that it closes: it opens, continues
or closes a block, opens an option, adds a step, or leaves nodes and frames alone.
-/

namespace Colloquy.Script

/-- What a line of the body does to a draft in which it has closed the frames that it closes. -/
inductive Acts (l : Line) : Builder → Builder → Prop where
  | nothing {b c : Builder} (same : b.SameBody c) : Acts l b c
  | noted {b c : Builder} (d : Diagnostic) (acts : Acts l (b.note d) c) : Acts l b c
  | append (b : Builder) {d : Draft} (plain : ¬ Builder.Branches d.step) (bare : d.edges = [])
    (line : d.line = l.number) : Acts l b (b.append d true)
  | option (b : Builder) (text : String) :
    Acts l b (b.option l.number l.indent text l.textId)
  | openIf (b : Builder) (condition : Expression) (optionNext : Bool) :
    Acts l b (b.openIf l.number l.indent condition optionNext)
  | addBranch (b : Builder) (condition : Option Expression) (keyword : String) :
    Acts l b (b.addBranch l.number condition keyword)
  | endIf (b : Builder) (reads : Statement.read l.body = .endIf) : Acts l b (b.endIf l.number)

namespace Builder

variable {b c : Builder}

theorem note_sameBody (b : Builder) (d : Diagnostic) : b.SameBody (b.note d) :=
  ⟨rfl, rfl, rfl, rfl⟩

theorem label_sameBody (b : Builder) (endLabel : String) (line : Nat) (name : String) :
    b.SameBody (b.label endLabel line name) := by
  unfold label
  repeat' split
  all_goals exact ⟨rfl, rfl, rfl, rfl⟩

theorem bare_acts (b : Builder) (l : Line) (text textId : String) :
    Acts l b (b.bare l.number l.indent text textId) := by
  unfold bare
  split
  · split
    · exact .nothing (note_sameBody b _)
    · exact .append b (by rintro (wrong | wrong) <;> cases wrong) rfl rfl
  · exact .nothing (note_sameBody b _)

/-- A condition that is read leaves at most a diagnostic before what its line comes to. -/
theorem acts_of_readCondition {l : Line} {text : String} {condition : Expression} {b₁ : Builder}
    (read : b.readCondition l.number text = .ok (b₁, condition)) (acts : Acts l b₁ c) :
    Acts l b c := by
  obtain ⟨_, rfl⟩ | ⟨message, _, _, rfl⟩ := readCondition_cases read
  · exact acts
  · exact .noted _ acts

/-- Whatever the statement of a line, it acts in one of these ways. A statement that is refused only
leaves a diagnostic. -/
theorem acts_of_readBodyLine {s : Settings} {l : Line} {rest : List (List Char)}
    (read : b.readBodyLine s l rest = .ok c) : Acts l (b.settle l.number l.indent) c := by
  unfold readBodyLine at read
  dsimp only at read
  -- the frames that the line is not in are closed by now
  generalize b.settle l.number l.indent = settled at read ⊢
  cases statement : Statement.read l.body with
  | option text =>
    rw [statement] at read
    cases read
    exact .option settled text
  | openIf text =>
    rw [statement] at read
    obtain ⟨⟨_, condition⟩, given, last⟩ := bind_eq_ok.mp read
    cases last
    exact acts_of_readCondition given (.openIf _ condition _)
  | elseIf text =>
    rw [statement] at read
    obtain ⟨⟨_, condition⟩, given, last⟩ := bind_eq_ok.mp read
    cases last
    exact acts_of_readCondition given (.addBranch _ _ _)
  | otherwise =>
    rw [statement] at read
    cases read
    exact .addBranch settled _ _
  | endIf =>
    rw [statement] at read
    cases read
    exact .endIf settled statement
  | label name =>
    rw [statement] at read
    cases read
    exact .nothing (label_sameBody ..)
  | goto name =>
    rw [statement] at read
    cases read
    exact .append settled (by rintro (wrong | wrong) <;> cases wrong) rfl rfl
  | assign name text =>
    rw [statement] at read
    obtain ⟨⟨_, draft⟩, given, last⟩ := bind_eq_ok.mp read
    cases last
    obtain ⟨e, _, rfl, rfl⟩ | ⟨_, _, rfl, rfl⟩ := readAssignment_cases given
    · refine .append _ ?_ rfl rfl
      unfold assignStep
      split <;> rintro (wrong | wrong) <;> cases wrong
    · exact .nothing (note_sameBody ..)
  | event name text =>
    rw [statement] at read
    obtain ⟨answer, _, last⟩ := bind_eq_ok.mp read
    cases answer with
    | ok args =>
      cases last
      exact .append settled (by rintro (wrong | wrong) <;> cases wrong) rfl rfl
    | error message =>
      cases last
      exact .nothing (note_sameBody ..)
  | speech speaker text =>
    rw [statement] at read
    cases read
    exact .append settled (by rintro (wrong | wrong) <;> cases wrong) rfl rfl
  | bare text =>
    rw [statement] at read
    cases read
    exact bare_acts settled l text l.textId
  | unknown text =>
    rw [statement] at read
    cases read
    exact .nothing (note_sameBody ..)

/-! ### Closing frames -/

section Closing

variable {kept : Builder → Prop} {line : Nat}

/-- What the closing of one frame keeps, a line keeps that closes several. -/
theorem popAbove_keeps (pop : ∀ b, kept b → kept (b.pop line)) (start : kept b)
    (indent fuel : Nat) : kept (popAbove line indent fuel b) := by
  induction fuel generalizing b with
  | zero => exact start
  | succ fuel ih =>
    rw [popAbove]
    split
    · exact start
    · exact ih (pop b start)

theorem settle_keeps (pop : ∀ b, kept b → kept (b.pop line)) (start : kept b) (indent : Nat) :
    kept (b.settle line indent) :=
  popAbove_keeps pop start indent _

theorem popAll_keeps (pop : ∀ b, kept b → kept (b.pop line)) (start : kept b) (fuel : Nat) :
    kept (popAll line fuel b) := by
  induction fuel generalizing b with
  | zero => exact start
  | succ fuel ih =>
    rw [popAll]
    split
    · exact start
    · exact ih (pop b start)

end Closing

end Builder

end Colloquy.Script
