import Colloquy.Proofs.Script.Contents
import Colloquy.Proofs.Script.Direct
/-!
# Lists of options as they are written

An option list consists of options, each followed by the lines that it contains, and of conditional
blocks whose branches hold option lists again. Which of its options are there to choose from with
which values of the variables is told by its lines alone: of each block those of the first branch
whose condition holds.

A list is known to be one by its first lines: it begins with an option, or with a block whose
condition stands directly before an option. A block that comes later is known by what is before it.
-/

namespace Colloquy.Script

open Direct (Variables)

/-- What evaluating conditions gives, or why it fails. -/
abbrev Evaluated (α : Type) := Except Expression.EvalFault α

mutual

/-- A list of options as it is written: options, each with the lines that it contains, and
conditional blocks, each with its first branch and what follows that. -/
inductive OptionList where
  | nil
  | option (line : Line) (content : List Line) (rest : OptionList)
  | block (line : Line) (condition : Expression) (items : OptionList) (more : Branching)
      (rest : OptionList)

/-- What follows a branch of a block of options: its end, a last branch, or a further one. -/
inductive Branching where
  | endIf (line : Line)
  | otherwise (line : Line) (items : OptionList) (last : Line)
  | elseIf (line : Line) (condition : Expression) (items : OptionList) (more : Branching)

end

/-! ### Lines -/

mutual

/-- The lines of an option list. -/
def OptionList.lines : OptionList → List Line
  | .nil => []
  | .option line content rest => line :: (content ++ rest.lines)
  | .block line _ items more rest => line :: (items.lines ++ (more.lines ++ rest.lines))

/-- The lines of what follows a branch. -/
def Branching.lines : Branching → List Line
  | .endIf line => [line]
  | .otherwise line items last => line :: (items.lines ++ [last])
  | .elseIf line _ items more => line :: (items.lines ++ more.lines)

end

namespace Line

/-- Whether a line says something at an indent. -/
def Says (l : Line) (indent : Nat) (statement : Statement) : Prop :=
  l.indent = indent ∧ Statement.read l.body = statement

/-- Whether a line begins a branch at an indent: it is made by a statement of the text of a
condition. -/
def Guards (l : Line) (indent : Nat) (statement : String → Statement) (condition : Expression) :
    Prop :=
  ∃ text, l.Says indent (statement text) ∧ expression? text = some condition

/-- Whether a line begins a further branch at an indent: one with a condition, or the last one. -/
def Branches (l : Line) (indent : Nat) : Option Expression → Prop
  | some condition => l.Guards indent .elseIf condition
  | none => l.Says indent .otherwise

/-- Whether a line is said, by a speaker or by the one before it. -/
def isSaid (l : Line) : Bool :=
  match Statement.read l.body with
  | .speech _ _ | .bare _ => true
  | _ => false

/-- Whether a line declares a label. -/
def isLabel (l : Line) : Bool :=
  match Statement.read l.body with
  | .label _ => true
  | _ => false

/-- Whether a line goes on with a list of options that it comes after. -/
def joins (l : Line) : Bool :=
  match Statement.read l.body with
  | .option _ | .openIf _ => true
  | _ => false

theorem Branches.indent {l : Line} {indent : Nat} {condition : Option Expression}
    (branches : l.Branches indent condition) : l.indent = indent := by
  cases condition with
  | some condition =>
    obtain ⟨_, ⟨same, _⟩, _⟩ := branches
    exact same
  | none => exact branches.1

end Line

mutual

/-- Whether an option list is written at an indent: its options and the lines of its blocks have
that indent, what options contain is indented more, and the lists in its branches not less. -/
def OptionList.Indented : OptionList → Nat → Prop
  | .nil, _ => True
  | .option line content rest, n =>
    line.indent = n ∧ line.isOption = true ∧ (∀ l ∈ content, n < l.indent) ∧ rest.Indented n
  | .block line condition items more rest, n =>
    line.Guards n .openIf condition ∧ (∃ m, n ≤ m ∧ items.Indented m) ∧ more.Indented n
      ∧ rest.Indented n

/-- Whether what follows a branch is written at an indent. -/
def Branching.Indented : Branching → Nat → Prop
  | .endIf line, n => line.Says n .endIf
  | .otherwise line items last, n =>
    line.Says n .otherwise ∧ (∃ m, n ≤ m ∧ items.Indented m) ∧ last.Says n .endIf
  | .elseIf line condition items more, n =>
    line.Guards n .elseIf condition ∧ (∃ m, n ≤ m ∧ items.Indented m) ∧ more.Indented n

end

/-- Whether an option list at an indent, which follows the line `t`, is whole: what comes after it
but for labels is not indented more, and goes on with a list only if it lies outside of an option
that contains `t`. -/
def IsWhole (before : List Line) (t : Line) (indent : Nat) (after : List Line) : Prop :=
  ∀ l, after.find? (!·.isLabel) = some l → l.indent ≤ indent
    ∧ (l.joins = false ∨ ∃ o : Line, o.Encloses before ∧ o.indent < t.indent ∧ l.indent ≤ o.indent)

/-! ### Beginnings -/

/-- Whether an option list begins with an option. -/
def OptionList.beginsWithOption : OptionList → Bool
  | .option .. => true
  | _ => false

mutual

/-- Whether an option list is known to be one, unless it is empty, and so is each list in it: it
begins with an option, or with a block whose condition stands directly before one. -/
def OptionList.isJoined : OptionList → Bool
  | .nil => true
  | .option _ _ rest => rest.isInward
  | .block _ _ items more rest =>
    items.beginsWithOption && items.isJoined && more.isJoined && rest.isInward

/-- Whether each list in the branches of an option list is known to be one, unless it is empty. -/
def OptionList.isInward : OptionList → Bool
  | .nil => true
  | .option _ _ rest => rest.isInward
  | .block _ _ items more rest => items.isJoined && more.isJoined && rest.isInward

/-- Whether each list in what follows a branch is known to be one, unless it is empty. -/
def Branching.isJoined : Branching → Bool
  | .endIf _ => true
  | .otherwise _ items _ => items.isJoined
  | .elseIf _ _ items more => items.isJoined && more.isJoined

end

theorem OptionList.isInward_of_isJoined {items : OptionList} (joined : items.isJoined = true) :
    items.isInward = true := by
  cases items with
  | nil => rfl
  | option => exact joined
  | block line condition items more rest =>
    simp only [isJoined, isInward, Bool.and_eq_true] at joined ⊢
    obtain ⟨⟨⟨_, first⟩, other⟩, inward⟩ := joined
    exact ⟨⟨first, other⟩, inward⟩

/-! ### Meaning -/

section Meaning

variable (vars : Variables)

/-- What comes of a branch if its condition holds, and otherwise of what follows it. -/
def guarded {α : Type} (condition : Expression) (inside otherwise : Evaluated α) : Evaluated α := do
  if ← Direct.holds vars condition then inside else otherwise

mutual

/-- The options of a list all of whose blocks select their branch: the first one whose condition
holds. -/
def OptionList.selected : OptionList → Evaluated (List Line)
  | .nil => return []
  | .option line _ rest => return line :: (← rest.selected)
  | .block _ condition items more rest => do
    return (← guarded vars condition items.selected more.selected) ++ (← rest.selected)

/-- The options of the branch that is selected after one that is not. -/
def Branching.selected : Branching → Evaluated (List Line)
  | .endIf _ => return []
  | .otherwise _ items _ => items.selected
  | .elseIf _ condition items more => guarded vars condition items.selected more.selected

end

end Meaning

theorem guarded_eq_ok {vars : Variables} {α : Type} {condition : Expression}
    {inside otherwise : Evaluated α} {a : α} : guarded vars condition inside otherwise = .ok a ↔
    Direct.holds vars condition = .ok true ∧ inside = .ok a
      ∨ Direct.holds vars condition = .ok false ∧ otherwise = .ok a := by
  unfold guarded
  cases Direct.holds vars condition with
  | error f => simp [bind, Except.bind]
  | ok held => cases held <;> simp [bind, Except.bind]

end Colloquy.Script
