import Colloquy.Proofs.Expression.Tree
/-!
# How trees are written as tokens

Every operator asks of its operands that they bind tightly enough: the left operand of a binary
operator at least as tightly as the operator, the right one more tightly, the operand of a unary
operator as tightly as that. Brackets bind most tightly and may stand around any operand. The
ordering of tokens turns each writing of a tree into the postfix form of that tree.
-/

namespace Colloquy.Expression

/-- The token of an operator: the sign of a minus is the same with one operand and with two. -/
def Operator.token : Operator → Token
  | .neg => .operator .sub
  | op => .operator op

/-- `Tree.Reads n t tokens`: the tokens write the tree `t` where the strength `n` is asked for. -/
inductive Tree.Reads : Nat → Tree → List Token → Prop where
  | literal (n : Nat) (l : Literal) : Reads n (.literal l) [.literal l.value]
  | named (n : Nat) (x : Name) : Reads n (.named x) [.variable x.text]
  | unary {n : Nat} {op : Operator} {single : op.isUnary = true} {a : Tree} {tokens : List Token}
      (tight : n ≤ op.strength) (inner : Reads op.strength a tokens) :
      Reads n (.unary op single a) (op.token :: tokens)
  | binary {n : Nat} {op : Operator} {double : op.isUnary = false} {a b : Tree}
      {before after : List Token} (tight : n ≤ op.strength) (left : Reads op.strength a before)
      (right : Reads (op.strength + 1) b after) :
      Reads n (.binary op double a b) (before ++ op.token :: after)
  | bracketed (n : Nat) {t : Tree} {tokens : List Token} (inner : Reads 0 t tokens) :
      Reads n t (.opening :: tokens ++ [.closing])

namespace Operator

theorem strength_of_unary {op : Operator} (single : op.isUnary = true) : op.strength = 7 := by
  cases op with
  | not | neg => rfl
  | _ => cases single

theorem strength_lt_of_binary {op : Operator} (double : op.isUnary = false) : op.strength < 7 := by
  cases op with
  | not | neg => cases double
  | _ => decide

end Operator

namespace Sorter

/-- Nothing that waits is let go by an operator that may follow where `n` is asked for: either it
binds less tightly, or no binary operator can follow there without brackets. -/
def Holds (n : Nat) : List Waiting → Prop
  | .operator op :: _ => op.strength < n ∨ 7 ≤ n
  | _ => True

theorem Holds.mono {n m : Nat} {waiting : List Waiting} (holds : Holds n waiting) (le : n ≤ m) :
    Holds m waiting := by
  cases waiting with
  | nil => trivial
  | cons w waiting =>
    cases w with
    | bracket => trivial
    | operator op => exact holds.imp (Nat.lt_of_lt_of_le · le) (Nat.le_trans · le)

/-- Operators that wait, the last one first. -/
def queue (ops : List Operator) : List Waiting :=
  ops.map .operator

/-- The steps once the operators that wait have been let go. -/
def letGo (ops : List Operator) (steps : List Step) : List Step :=
  ops.foldl (fun steps op => .apply op :: steps) steps

theorem letGo_append (ops more : List Operator) (steps : List Step) :
    letGo (ops ++ more) steps = letGo more (letGo ops steps) :=
  List.foldl_append

theorem release_queue {n : Nat} {ops : List Operator} (tight : ∀ op ∈ ops, n ≤ op.strength)
    (steps : List Step) (waiting : List Waiting) :
    release n steps (queue ops ++ waiting) = release n (letGo ops steps) waiting := by
  induction ops generalizing steps with
  | nil => rfl
  | cons op ops ih =>
    have first : op.strength ≥ n := tight op List.mem_cons_self
    simp only [queue, List.map_cons, List.cons_append, release, first, if_true]
    exact ih (fun o mem => tight o (List.mem_cons_of_mem _ mem)) _

theorem release_of_holds {n m : Nat} (le : n ≤ m) (lt : m < 7) {waiting : List Waiting}
    (holds : Holds n waiting) (steps : List Step) :
    release m steps waiting = (steps, waiting) := by
  cases waiting with
  | nil => rfl
  | cons w waiting =>
    cases w with
    | bracket => rfl
    | operator op =>
      have loose : ¬ op.strength ≥ m := by
        obtain less | high := holds <;> omega
      simp only [release, loose, if_false]

theorem close_queue (ops : List Operator) (steps : List Step) (waiting : List Waiting) :
    close steps (queue ops ++ .bracket :: waiting) = .ok ⟨letGo ops steps, waiting, false⟩ := by
  induction ops generalizing steps with
  | nil => rfl
  | cons op ops ih => exact ih _

theorem drain_queue (ops : List Operator) (steps : List Step) :
    drain steps (queue ops) = .ok (letGo ops steps) := by
  induction ops generalizing steps with
  | nil => rfl
  | cons op ops ih => exact ih _

theorem take_unary {op : Operator} (single : op.isUnary = true) (steps : List Step)
    (waiting : List Waiting) :
    take ⟨steps, waiting, true⟩ op.token = .ok ⟨steps, .operator op :: waiting, true⟩ := by
  cases op with
  | not | neg => rfl
  | _ => cases single

theorem take_binary {op : Operator} (double : op.isUnary = false) (steps : List Step)
    (waiting : List Waiting) :
    take ⟨steps, waiting, false⟩ op.token
      = .ok ⟨(release op.strength steps waiting).1,
          .operator op :: (release op.strength steps waiting).2, true⟩ := by
  cases op with
  | not | neg => cases double
  | _ => rfl

/-- A sorter that has taken a writing of `t` on top of `steps` and `waiting`: what waits anew are
operators that bind at least as tightly as `n`, and letting them go completes the postfix form. -/
structure Took (n : Nat) (t : Tree) (steps : List Step) (waiting : List Waiting) (s : Sorter) :
    Prop where
  full : s.wantsOperand = false
  pending : ∃ ops, s.waiting = queue ops ++ waiting ∧ (∀ op ∈ ops, n ≤ op.strength) ∧
    letGo ops s.steps = t.steps.reverse ++ steps

/-- Taking any writing of a tree. -/
theorem take_reads {n : Nat} {t : Tree} {tokens : List Token} (reads : t.Reads n tokens)
    (steps : List Step) (waiting : List Waiting) (holds : Holds n waiting) :
    ∃ s, tokens.foldlM take ⟨steps, waiting, true⟩ = .ok s ∧ Took n t steps waiting s := by
  induction reads generalizing steps waiting with
  | literal n l => exact ⟨_, rfl, rfl, [], rfl, by simp, rfl⟩
  | named n x => exact ⟨_, rfl, rfl, [], rfl, by simp, rfl⟩
  | @unary n op single a tokens tight inner ih =>
    have seven := Operator.strength_of_unary single
    obtain ⟨s, taken, full, ops, waits, above, completes⟩ :=
      ih steps (.operator op :: waiting) (.inr (by omega))
    refine ⟨s, ?_, full, ops ++ [op], ?_, ?_, ?_⟩
    · rw [List.foldlM_cons, take_unary single]
      exact taken
    · simp [waits, queue]
    · intro o mem
      obtain mem | mem := List.mem_append.1 mem
      · have := above o mem
        omega
      · rwa [List.mem_singleton.1 mem]
    · rw [letGo_append, completes]
      simp [letGo, Tree.steps]
  | @binary n op double a b before after tight left right ihLeft ihRight =>
    have seven := Operator.strength_lt_of_binary double
    -- what waits for the left operand is what the operator must not let go
    have kept : Holds op.strength waiting := holds.mono tight
    obtain ⟨s, takenLeft, full, ops, waits, above, completes⟩ := ihLeft steps waiting kept
    obtain ⟨u, takenRight, fullRight, more, waitsRight, aboveRight, completesRight⟩ :=
      ihRight (a.steps.reverse ++ steps) (.operator op :: waiting)
        (.inl (Nat.lt_succ_self _))
    refine ⟨u, ?_, fullRight, more ++ [op], ?_, ?_, ?_⟩
    · rw [List.foldlM_append, takenLeft]
      change List.foldlM take s (op.token :: after) = _
      have shape : s = ⟨s.steps, queue ops ++ waiting, false⟩ := by rw [← waits, ← full]
      rw [shape, List.foldlM_cons, take_binary double, release_queue above, completes,
        release_of_holds (Nat.le_refl _) seven kept]
      exact takenRight
    · simp [waitsRight, queue]
    · intro o mem
      obtain mem | mem := List.mem_append.1 mem
      · have := aboveRight o mem
        omega
      · rwa [List.mem_singleton.1 mem]
    · rw [letGo_append, completesRight]
      simp [letGo, Tree.steps]
  | @bracketed n t tokens inner ih =>
    obtain ⟨s, taken, full, ops, waits, -, completes⟩ :=
      ih steps (.bracket :: waiting) trivial
    refine ⟨⟨t.steps.reverse ++ steps, waiting, false⟩, ?_, rfl, [], rfl, by simp, rfl⟩
    rw [List.cons_append, List.foldlM_cons]
    change List.foldlM take ⟨steps, .bracket :: waiting, true⟩ (tokens ++ [.closing]) = _
    rw [List.foldlM_append, taken]
    change (close s.steps s.waiting >>= pure) = _
    rw [bind_pure, waits, close_queue, completes]

end Sorter

/-- Every writing of a tree has the postfix form of that tree. -/
theorem toPostfix_reads {t : Tree} {tokens : List Token} (reads : t.Reads 0 tokens) :
    toPostfix tokens = .ok t.steps := by
  obtain ⟨s, taken, full, ops, waits, -, completes⟩ :=
    Sorter.take_reads reads [] [] trivial
  rw [List.append_nil] at waits completes
  rw [toPostfix, Sorter.start, taken]
  change s.finish = _
  rw [Sorter.finish, full, waits, Sorter.drain_queue, completes]
  simp [Except.map]

end Colloquy.Expression
