import Colloquy.Proofs.Graph.Renumbered
import Colloquy.Proofs.Script.Lookahead
import Colloquy.Proofs.Script.Shift
import Colloquy.Script.Compile
/-!
# Scripts side by side

Two scripts have the same lines if those of one are those of the other, moved, and what it has more
says nothing. Read side by side they give the same draft but for the places of lines, and they
compile to the same graph.
-/

namespace Colloquy.Script

/-! ### Lines -/

/-- A line that is moved. -/
def Line.moved (σ : Shift) (l : Line) : Line :=
  { l with number := σ.line l.number, indent := σ.indent l.indent }

/-- What is left of a line that is moved. -/
def Scanned.moved (σ : Shift) : Scanned → Scanned
  | .line l => .line (l.moved σ)
  | other => other

/-- Lines and the lines of another script from two numbers on: each of them is there, moved, and
others of the second script say nothing. -/
inductive Abreast (tabWidth : Nat) (σ : Shift) :
    Nat → List (List Char) → Nat → List (List Char) → Prop
  | nil (n n' : Nat) : Abreast tabWidth σ n [] n' []
  | both {n n' : Nat} {raw raw' : List Char} {rest rest' : List (List Char)}
      (number : n' = σ.line n) (same : scan tabWidth n' raw' = (scan tabWidth n raw).moved σ)
      (later : Abreast tabWidth σ (n + 1) rest (n' + 1) rest') :
      Abreast tabWidth σ n (raw :: rest) n' (raw' :: rest')
  | added {n n' : Nat} {raw' : List Char} {rest rest' : List (List Char)}
      (silent : scan tabWidth n' raw' = .empty)
      (later : Abreast tabWidth σ n rest (n' + 1) rest') :
      Abreast tabWidth σ n rest n' (raw' :: rest')

variable {σ : Shift} {tabWidth n n' : Nat} {lines lines' : List (List Char)}

/-- Looking ahead passes over what says nothing, so it sees the same in both scripts. -/
theorem Abreast.optionNext (abreast : Abreast tabWidth σ n lines n' lines') :
    optionNext lines' = optionNext lines := by
  induction abreast with
  | nil => rfl
  | @both n n' raw raw' rest rest' number same later ih =>
    rw [optionNext_cons tabWidth n' raw', optionNext_cons tabWidth n raw, same]
    cases scan tabWidth n raw with
    | empty => exact ih
    | delimiter => rfl
    | line l => rfl
  | @added n n' raw' rest rest' silent later ih =>
    rw [optionNext_cons tabWidth n' raw', silent]
    exact ih

/-! ### Reading -/

namespace Builder.Moved

variable {b b' : Builder} {s : Settings}

section Statements

variable (moved : b.Moved σ b')

include moved

theorem readCondition (line : Nat) (text : String) :
    Both (fun x y : Builder × Expression => x.1.Moved σ y.1 ∧ y.2 = x.2)
      (b.readCondition line text) (b'.readCondition (σ.line line) text) := by
  refine Both.bind_same (readExpression text) fun answer => ?_
  cases answer with
  | ok e => exact .ok ⟨moved, rfl⟩
  | error message => exact .ok ⟨moved.complain fun keeps => ⟨σ.kept keeps line, rfl⟩, rfl⟩

theorem readAssignment (line indent indent' : Nat) (name text textId : String) :
    Both (fun x y : Builder × Option Draft => x.1.Moved σ y.1 ∧
        Option.Rel (fun d d' => ∃ step : Step, d = ⟨step, line, indent, [], 0, []⟩
          ∧ d' = ⟨step, σ.line line, indent', [], 0, []⟩) x.2 y.2)
      (b.readAssignment line indent name text textId)
      (b'.readAssignment (σ.line line) indent' name text textId) := by
  refine Both.bind_same (readExpression text) fun answer => ?_
  cases answer with
  | ok e => exact .ok ⟨moved, .some ⟨_, rfl, rfl⟩⟩
  | error message => exact .ok ⟨moved.complain fun keeps => ⟨σ.kept keeps line, rfl⟩, .none⟩

theorem readHeaderLine (l : Line) :
    Both (Builder.Moved σ) (b.readHeaderLine l) (b'.readHeaderLine (l.moved σ)) := by
  unfold Builder.readHeaderLine
  rw [show (l.moved σ).body = l.body from rfl]
  cases Statement.read l.body with
  | assign name text =>
    refine Both.bind (moved.readAssignment l.number 0 0 name text l.textId) ?_
    rintro ⟨c, d⟩ ⟨c', d'⟩ ⟨moved, drafts⟩
    cases drafts with
    | none => exact .ok moved
    | some made =>
      obtain ⟨step, rfl, rfl⟩ := made
      exact .ok (moved.headerStep _)
  | _ => exact .ok (moved.complain fun keeps => ⟨σ.kept keeps l.number, rfl⟩)

theorem readBodyLine (l : Line) {rest rest' : List (List Char)}
    (ahead : optionNext rest' = optionNext rest) :
    Both (Builder.Moved σ) (b.readBodyLine s l rest) (b'.readBodyLine s (l.moved σ) rest') := by
  have moved := moved.settle (fun keeps => σ.kept keeps l.number) l.indent
  unfold Builder.readBodyLine
  simp only [Line.moved]
  cases Statement.read l.body with
  | option text => exact .ok (moved.option _ _ _ _)
  | openIf text =>
    refine Both.bind (moved.readCondition l.number text) ?_
    rintro ⟨c, e⟩ ⟨c', e'⟩ ⟨moved, rfl⟩
    rw [ahead]
    exact .ok (moved.openIf _ _ _ _)
  | elseIf text =>
    refine Both.bind (moved.readCondition l.number text) ?_
    rintro ⟨c, e⟩ ⟨c', e'⟩ ⟨moved, rfl⟩
    exact .ok (moved.addBranch _ _ _)
  | otherwise => exact .ok (moved.addBranch _ _ _)
  | endIf => exact .ok (moved.endIf _)
  | label name => exact .ok (moved.label _ _ _)
  | goto name => exact .ok (moved.append (draft_moved _ _ _) true)
  | assign name text =>
    refine Both.bind (moved.readAssignment l.number l.indent (σ.indent l.indent) name text
      l.textId) ?_
    rintro ⟨c, d⟩ ⟨c', d'⟩ ⟨moved, drafts⟩
    cases drafts with
    | none => exact .ok moved
    | some made =>
      obtain ⟨step, rfl, rfl⟩ := made
      exact .ok (moved.append (draft_moved _ _ _) true)
  | event name text =>
    refine Both.bind_same (readArguments _) fun answer => ?_
    cases answer with
    | ok args => exact .ok (moved.append (draft_moved _ _ _) true)
    | error message => exact .ok (moved.complain fun keeps => ⟨σ.kept keeps l.number, rfl⟩)
  | speech speaker text => exact .ok (moved.append (draft_moved _ _ _) true)
  | bare text => exact .ok (moved.bare _ _ _ _)
  | unknown text => exact .ok (moved.complain fun keeps => ⟨σ.kept keeps l.number, rfl⟩)

end Statements

theorem readLines (abreast : Abreast s.tabWidth σ n lines n' lines') (moved : b.Moved σ b') :
    Both (Builder.Moved σ) (Builder.readLines s b n lines) (Builder.readLines s b' n' lines') := by
  induction abreast generalizing b b' with
  | nil => exact .ok moved
  | @both n n' raw raw' rest rest' number same later ih =>
    -- A line that is there in both is read in both, and looks ahead to the same.
    refine Both.bind ?_ fun _ _ next => ih next
    unfold Builder.readLine
    rw [same]
    cases scanned : scan s.tabWidth n raw with
    | empty => exact .ok moved
    | delimiter =>
      rw [number]
      exact .ok (moved.delimiter n)
    | line l =>
      simp only [Scanned.moved]
      rw [moved.headerState]
      split
      · exact moved.readHeaderLine l
      · exact moved.readBodyLine l later.optionNext
  | @added n n' raw' rest rest' silent later ih =>
    -- The second script reads a line that leaves its draft as it is.
    have nothing : b'.readLine s n' raw' rest' = .ok b' := by
      unfold Builder.readLine
      rw [silent]
      rfl
    rw [Builder.readLines, nothing]
    exact ih moved

theorem readScript (abreast : Abreast s.tabWidth σ 1 lines 1 lines')
    (count : σ.Keeps → lines'.length = lines.length) :
    Both (Builder.Moved σ) (Builder.readScript s lines) (Builder.readScript s lines') :=
  Both.bind (readLines abreast .start) fun _ _ moved => .ok (moved.finish count)

end Builder.Moved

end Colloquy.Script
