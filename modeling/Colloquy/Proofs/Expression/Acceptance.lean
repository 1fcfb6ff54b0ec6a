import Colloquy.Proofs.Expression.Completeness
/-!
# Which tokens make an expression

Tokens are brought into postfix form without a grammar. The ordering only keeps track of whether an
operand is to come and of what waits, so it takes some lists of tokens that derive from no
expression: it lets a bracket open after an operand and close where an operand is to come. Where no
bracket stands so, it takes just what derives from the grammar, and running the steps that come of
it never lacks an operand and leaves one.
-/

namespace Colloquy.Expression

/-- The grammar of expressions, the strength of operators apart. -/
inductive Derives : List Token → Prop where
  | literal (v : Value) : Derives [.literal v]
  | named (name : String) : Derives [.variable name]
  | negation {a : List Token} (operand : Derives a) : Derives (.operator .not :: a)
  | minus {a : List Token} (operand : Derives a) : Derives (.operator .sub :: a)
  | binary {op : Operator} {a b : List Token} (double : op.isUnary = false) (left : Derives a)
      (right : Derives b) : Derives (a ++ .operator op :: b)
  | brackets {a : List Token} (inner : Derives a) : Derives (.opening :: a ++ [.closing])

/-- Whether an operand is to come after a token. -/
def Token.wantsOperand : Token → Bool
  | .operator _ | .opening => true
  | _ => false

/-- A bracket opens where an operand is to come and closes where none is. -/
def Token.Fits (wanted : Bool) : Token → Prop
  | .opening => wanted = true
  | .closing => wanted = false
  | _ => True

/-- Whether every bracket stands where it may, an operand being to come first or not. -/
def FitsFrom : Bool → List Token → Prop
  | _, [] => True
  | wanted, token :: rest => token.Fits wanted ∧ FitsFrom token.wantsOperand rest

/-- Whether every bracket of a list of tokens stands where it may. -/
def Bracketed (tokens : List Token) : Prop :=
  FitsFrom true tokens

/-! ### No token is the sign of a minus before its operand

The sign of a minus is read as that of a subtraction, wherever it stands. -/

section

theorem scanSymbol_ne_neg {s tail : List Char} {token : Token}
    (scanned : scanSymbol s = some (token, tail)) : token ≠ .operator .neg := by
  unfold scanSymbol at scanned
  split at scanned <;> cases scanned <;> simp

theorem wordToken?_ne_neg {word : String} {token : Token} (known : wordToken? word = some token) :
    token ≠ .operator .neg := by
  unfold wordToken? at known
  split at known <;> cases known <;> simp

theorem scanNumber_ne_symbol {s tail : List Char} {token : Token} :
    scanNumber s ≠ some (.symbol token, tail) := by
  unfold scanNumber
  split <;> dsimp only <;> split <;> simp

theorem scanLexeme_ne_neg {s tail : List Char} {token : Token}
    (scanned : scanLexeme s = some (.symbol token, tail)) : token ≠ .operator .neg := by
  unfold scanLexeme at scanned
  split at scanned
  next number =>
    cases scanned
    exact absurd number scanNumber_ne_symbol
  · split at scanned
    · cases scanned
    · obtain ⟨r, -, equal⟩ := Option.map_eq_some_iff.1 scanned
      cases equal
    · obtain ⟨r, -, equal⟩ := Option.map_eq_some_iff.1 scanned
      cases equal
    · split at scanned
      · cases scanned
      · obtain ⟨⟨symbol, rest⟩, found, equal⟩ := Option.map_eq_some_iff.1 scanned
        cases equal
        exact scanSymbol_ne_neg found

theorem Lexeme.token_ne_neg {s tail : List Char} {lexeme : Lexeme} {token : Token}
    (scanned : scanLexeme s = some (lexeme, tail)) (meant : lexeme.token = .ok token) :
    token ≠ .operator .neg := by
  unfold Lexeme.token at meant
  split at meant
  · split at meant <;> cases meant
    simp
  · cases meant
    simp
  · cases meant
    simp
  · cases meant
    simp
  · cases meant
    exact scanLexeme_ne_neg scanned
  · split at meant <;> cases meant
    next known => exact wordToken?_ne_neg known

theorem tokensFrom_ne_neg {size fuel : Nat} {rest : List Char} {tokens : List Token}
    (read : tokensFrom size fuel rest = .ok tokens) : .operator .neg ∉ tokens := by
  induction fuel generalizing rest tokens with
  | zero =>
    cases read
    simp
  | succ fuel ih =>
    rw [tokensFrom] at read
    split at read
    · cases read
      simp
    · split at read
      · cases read
      next lexeme tail scanned =>
        obtain ⟨token, meant, read⟩ := bind_eq_ok.1 read
        obtain ⟨others, later, equal⟩ := bind_eq_ok.1 read
        cases equal
        rintro (_ | ⟨_, among⟩)
        · exact Lexeme.token_ne_neg scanned meant rfl
        · exact ih later among

end

/-! ### What the ordering keeps track of -/

/-- Whether an operand is to come, and how many brackets are open. -/
structure Stance where
  wantsOperand : Bool
  depth : Nat

/-- The stance after a token, if it is taken. -/
def Stance.take (p : Stance) : Token → Option Stance
  | .literal _ | .variable _ => if p.wantsOperand then some ⟨false, p.depth⟩ else none
  | .opening => some ⟨true, p.depth + 1⟩
  | .closing => if p.depth = 0 then none else some ⟨false, p.depth - 1⟩
  | .operator op =>
    if p.wantsOperand then if op = .sub ∨ op = .not then some p else none
    else if op = .not then none else some ⟨true, p.depth⟩

namespace Sorter

/-- Where an ordering stands, the operators aside. -/
def stance (s : Sorter) : Stance :=
  ⟨s.wantsOperand, s.waiting.count .bracket⟩

theorem count_release (strength : Nat) (steps : List Step) (waiting : List Waiting) :
    (release strength steps waiting).2.count .bracket = waiting.count .bracket := by
  induction waiting generalizing steps with
  | nil => rfl
  | cons w waiting ih =>
    cases w with
    | bracket => rfl
    | operator op =>
      rw [release]
      split
      · simpa using ih _
      · rfl

theorem stance_close (steps : List Step) (waiting : List Waiting) :
    (close steps waiting).toOption.map stance
      = if waiting.count .bracket = 0 then none else some ⟨false, waiting.count .bracket - 1⟩ := by
  induction waiting generalizing steps with
  | nil => rfl
  | cons w waiting ih =>
    cases w with
    | bracket => simp [close, Except.toOption, stance]
    | operator op => simpa [close] using ih _

theorem stance_take (s : Sorter) (token : Token) :
    (s.take token).toOption.map stance = s.stance.take token := by
  obtain ⟨steps, waiting, wants⟩ := s
  cases token with
  | literal v | «variable» name => cases wants <;> rfl
  | opening => simp [take, stance, Stance.take, Except.toOption]
  | closing => exact stance_close steps waiting
  | operator op =>
    cases wants with
    | true => cases op <;> simp [take, operator, stance, Stance.take, Except.toOption]
    | false =>
      by_cases negates : op = .not
      · simp [take, operator, stance, Stance.take, negates, Except.toOption]
      · simp [take, operator, stance, Stance.take, negates, Except.toOption, count_release]

theorem stance_foldlM (s : Sorter) (tokens : List Token) :
    (tokens.foldlM take s).toOption.map stance = tokens.foldlM Stance.take s.stance := by
  induction tokens generalizing s with
  | nil => rfl
  | cons token rest ih =>
    rw [List.foldlM_cons, List.foldlM_cons, ← stance_take]
    cases s.take token with
    | error e => rfl
    | ok next => exact ih next

theorem drain_isOk (steps : List Step) (waiting : List Waiting) :
    (∃ all, drain steps waiting = .ok all) ↔ waiting.count .bracket = 0 := by
  induction waiting generalizing steps with
  | nil => simp [drain]
  | cons w waiting ih =>
    cases w with
    | bracket => simp [drain]
    | operator op => simpa [drain] using ih _

theorem finish_isOk (s : Sorter) : (∃ steps, s.finish = .ok steps) ↔ s.stance = ⟨false, 0⟩ := by
  obtain ⟨steps, waiting, wants⟩ := s
  cases wants with
  | true => simp [finish, stance]
  | false =>
    rw [finish, if_neg Bool.false_ne_true, stance, Stance.mk.injEq, ← drain_isOk steps waiting]
    simp [map_eq_ok]

end Sorter

/-- A list of tokens has a postfix form if no operand is missing at its end and no bracket is
open there. -/
theorem toPostfix_isOk (tokens : List Token) :
    (∃ steps, toPostfix tokens = .ok steps)
      ↔ tokens.foldlM Stance.take ⟨true, 0⟩ = some ⟨false, 0⟩ := by
  have runs := Sorter.stance_foldlM Sorter.start tokens
  change _ = tokens.foldlM Stance.take ⟨true, 0⟩ at runs
  rw [← runs, toPostfix]
  cases tokens.foldlM Sorter.take Sorter.start with
  | error e => simp [bind, Except.bind, Except.toOption]
  | ok s => simpa [bind, Except.bind, Except.toOption] using s.finish_isOk

/-! ### What derives is taken -/

theorem Derives.fitsFrom {tokens rest : List Token} (derives : Derives tokens)
    (later : FitsFrom false rest) : FitsFrom true (tokens ++ rest) := by
  induction derives generalizing rest with
  | literal v => exact ⟨trivial, later⟩
  | named name => exact ⟨trivial, later⟩
  | negation _ ih => exact ⟨trivial, ih later⟩
  | minus _ ih => exact ⟨trivial, ih later⟩
  | binary double _ _ left right =>
    rw [List.append_assoc]
    exact left ⟨trivial, right later⟩
  | brackets _ ih =>
    rw [List.append_assoc]
    exact ⟨rfl, ih ⟨rfl, later⟩⟩

theorem Derives.bracketed {tokens : List Token} (derives : Derives tokens) : Bracketed tokens := by
  rw [Bracketed, ← List.append_nil tokens]
  exact derives.fitsFrom trivial

theorem Derives.taken {tokens : List Token} (derives : Derives tokens) (depth : Nat) :
    tokens.foldlM Stance.take ⟨true, depth⟩ = some ⟨false, depth⟩ := by
  induction derives generalizing depth with
  | literal v => rfl
  | named name => rfl
  | negation _ ih => exact ih depth
  | minus _ ih => exact ih depth
  | @binary op a b double _ _ left right =>
    have next : Stance.take ⟨false, depth⟩ (.operator op) = some ⟨true, depth⟩ := by
      cases op with
      | not | neg => cases double
      | _ => rfl
    rw [List.foldlM_append, left depth]
    change List.foldlM Stance.take ⟨false, depth⟩ (.operator op :: b) = _
    rw [List.foldlM_cons, next]
    exact right depth
  | @brackets a _ ih =>
    rw [List.cons_append, List.foldlM_cons]
    change List.foldlM Stance.take ⟨true, depth + 1⟩ (a ++ [.closing]) = _
    rw [List.foldlM_append, ih (depth + 1)]
    rfl

/-! ### What is taken derives

While tokens are taken, the innermost open bracket has before it the tokens of the brackets around
it, and after it either the beginning of an expression or an expression. -/

/-- The beginning of an expression, an operand being to come. -/
def Begins (tokens : List Token) : Prop :=
  ∀ operand, Derives operand → Derives (tokens ++ operand)

/-- Tokens that end with an open bracket, so many being open, each where an operand is to come. -/
inductive Opened : Nat → List Token → Prop where
  | none : Opened 0 []
  | bracket {depth : Nat} {outer tokens : List Token} (before : Opened depth outer)
      (begins : Begins tokens) : Opened (depth + 1) (outer ++ tokens ++ [.opening])

/-- What the tokens taken so far are. -/
def Taken (p : Stance) (tokens : List Token) : Prop :=
  ∃ outer inner, tokens = outer ++ inner ∧ Opened p.depth outer
    ∧ if p.wantsOperand then Begins inner else Derives inner

theorem begins_nil : Begins [] := fun _ operand => operand

theorem Begins.unary {tokens : List Token} (begins : Begins tokens) {op : Operator}
    (single : op = .sub ∨ op = .not) : Begins (tokens ++ [.operator op]) := by
  intro operand derives
  rw [List.append_assoc]
  obtain rfl | rfl := single
  · exact begins _ (.minus derives)
  · exact begins _ (.negation derives)

theorem Derives.begins {tokens : List Token} (derives : Derives tokens) {op : Operator}
    (double : op.isUnary = false) : Begins (tokens ++ [.operator op]) := by
  intro operand right
  rw [List.append_assoc]
  exact .binary double derives right

/-- Taking one token. -/
theorem Taken.take {p q : Stance} {tokens : List Token} {token : Token} (taken : Taken p tokens)
    (fits : token.Fits p.wantsOperand) (written : token ≠ .operator .neg)
    (next : p.take token = some q) :
    q.wantsOperand = token.wantsOperand ∧ Taken q (tokens ++ [token]) := by
  obtain ⟨wants, depth⟩ := p
  obtain ⟨outer, inner, rfl, opened, shape⟩ := taken
  cases token with
  | literal v =>
    cases wants with
    | false => cases next
    | true =>
      cases next
      exact ⟨rfl, outer, _, List.append_assoc .., opened, shape _ (.literal v)⟩
  | «variable» name =>
    cases wants with
    | false => cases next
    | true =>
      cases next
      exact ⟨rfl, outer, _, List.append_assoc .., opened, shape _ (.named name)⟩
  | opening =>
    obtain rfl : wants = true := fits
    cases next
    exact ⟨rfl, _, [], (List.append_nil _).symm, .bracket opened shape, begins_nil⟩
  | closing =>
    -- the bracket that is closed is the last one that was opened
    obtain rfl : wants = false := fits
    cases opened with
    | none => cases next
    | @bracket depth outer tokens before begins =>
      cases next
      refine ⟨rfl, outer, tokens ++ (.opening :: inner ++ [.closing]), by simp, before, ?_⟩
      exact begins _ (.brackets shape)
  | operator op =>
    cases wants with
    | true =>
      by_cases single : op = .sub ∨ op = .not
      · simp only [Stance.take, if_true, if_pos single, Option.some.injEq] at next
        subst next
        exact ⟨rfl, outer, _, List.append_assoc .., opened, shape.unary single⟩
      · simp [Stance.take, single] at next
    | false =>
      by_cases negates : op = .not
      · simp [Stance.take, negates] at next
      · have double : op.isUnary = false := by
          cases op with
          | not => exact absurd rfl negates
          | neg => exact absurd rfl written
          | _ => rfl
        simp only [Stance.take, Bool.false_eq_true, if_false, if_neg negates,
          Option.some.injEq] at next
        subst next
        exact ⟨rfl, outer, _, List.append_assoc .., opened, Derives.begins shape double⟩

/-- Taking all tokens. -/
theorem Taken.run {p q : Stance} {before tokens : List Token} (taken : Taken p before)
    (fits : FitsFrom p.wantsOperand tokens) (written : .operator .neg ∉ tokens)
    (run : tokens.foldlM Stance.take p = some q) : Taken q (before ++ tokens) := by
  induction tokens generalizing p before with
  | nil =>
    cases run
    rwa [List.append_nil]
  | cons token rest ih =>
    obtain ⟨first, others⟩ := fits
    rw [List.mem_cons, not_or] at written
    rw [List.foldlM_cons] at run
    obtain ⟨between, next, later⟩ := Option.bind_eq_some_iff.1 run
    obtain ⟨wants, now⟩ := taken.take first (Ne.symm written.1) next
    rw [List.append_cons]
    exact ih now (wants ▸ others) written.2 later

/-- Tokens that are taken and whose brackets stand where they may derive from the grammar. -/
theorem derives_of_taken {tokens : List Token} (written : .operator .neg ∉ tokens)
    (bracketed : Bracketed tokens)
    (run : tokens.foldlM Stance.take ⟨true, 0⟩ = some ⟨false, 0⟩) : Derives tokens := by
  have none : Taken ⟨true, 0⟩ [] := ⟨[], [], rfl, .none, begins_nil⟩
  obtain ⟨outer, inner, equal, opened, derives⟩ := none.run bracketed written run
  cases opened
  rw [List.nil_append, List.nil_append] at equal
  rwa [equal]

/-! ### Operands while the ordering runs -/

/-- How many operators that wait have an operand already and want another one. -/
def halves (waiting : List Waiting) : Nat :=
  waiting.countP fun
    | .operator op => !op.isUnary
    | .bracket => false

/-- Whether the steps so far find their operands, and leave one for each operator that waits
between two and one more if no operand is to come. -/
def Sorter.Balanced (s : Sorter) : Prop :=
  s.steps.reverse.foldlM Step.operands 0
    = some (halves s.waiting + if s.wantsOperand then 0 else 1)

namespace Sorter

/-- Letting an operator go. -/
theorem Balanced.letGo {steps : List Step} {op : Operator} {waiting : List Waiting}
    (balanced : Balanced ⟨steps, .operator op :: waiting, false⟩) :
    Balanced ⟨.apply op :: steps, waiting, false⟩ := by
  simp only [Balanced, Bool.false_eq_true, if_false] at balanced ⊢
  rw [List.reverse_cons, List.foldlM_append, balanced]
  cases single : op.isUnary with
  | true => simp [halves, single, Step.operands]
  | false => simp [halves, single, Step.operands]

theorem Balanced.release {steps : List Step} {waiting : List Waiting}
    (balanced : Balanced ⟨steps, waiting, false⟩) (strength : Nat) :
    Balanced ⟨(release strength steps waiting).1, (release strength steps waiting).2, false⟩ := by
  induction waiting generalizing steps with
  | nil => exact balanced
  | cons w waiting ih =>
    cases w with
    | bracket => exact balanced
    | operator op =>
      rw [Sorter.release]
      split
      · exact ih balanced.letGo
      · exact balanced

theorem Balanced.close {steps : List Step} {waiting : List Waiting} {s : Sorter}
    (balanced : Balanced ⟨steps, waiting, false⟩) (closed : close steps waiting = .ok s) :
    s.wantsOperand = false ∧ s.Balanced := by
  induction waiting generalizing steps with
  | nil => cases closed
  | cons w waiting ih =>
    cases w with
    | bracket =>
      cases closed
      exact ⟨rfl, balanced⟩
    | operator op => exact ih balanced.letGo closed

theorem Balanced.drain {steps all : List Step} {waiting : List Waiting}
    (balanced : Balanced ⟨steps, waiting, false⟩) (drained : drain steps waiting = .ok all) :
    all.reverse.foldlM Step.operands 0 = some 1 := by
  induction waiting generalizing steps with
  | nil =>
    cases drained
    exact balanced
  | cons w waiting ih =>
    cases w with
    | bracket => cases drained
    | operator op => exact ih balanced.letGo drained

/-- Taking an operand. -/
theorem Balanced.operand {s next : Sorter} (balanced : s.Balanced) {token : Token} {step : Step}
    (one : ∀ n, step.operands n = some (n + 1)) (taken : s.operand token step = .ok next) :
    next.wantsOperand = false ∧ next.Balanced := by
  obtain ⟨steps, waiting, wants⟩ := s
  cases wants with
  | false => cases taken
  | true =>
    cases taken
    refine ⟨rfl, ?_⟩
    simp only [Balanced, if_true] at balanced ⊢
    rw [List.reverse_cons, List.foldlM_append, balanced]
    simp [one]

/-- Taking an operator. -/
theorem Balanced.operator {s next : Sorter} (balanced : s.Balanced) {op : Operator}
    (written : op ≠ .neg) (taken : s.operator op = .ok next) :
    next.wantsOperand = true ∧ next.Balanced := by
  obtain ⟨steps, waiting, wants⟩ := s
  cases wants with
  | true =>
    cases op with
    | sub | not =>
      cases taken
      exact ⟨rfl, balanced⟩
    | _ => cases taken
  | false =>
    have released := balanced.release op.strength
    have double : op ≠ .not → op.isUnary = false := fun negates => by
      cases op with
      | not => exact absurd rfl negates
      | neg => exact absurd rfl written
      | _ => rfl
    simp only [Sorter.operator, Bool.false_eq_true, if_false] at taken
    split at taken
    · cases taken
    next negates =>
      cases taken
      refine ⟨rfl, ?_⟩
      simp only [Balanced, Bool.false_eq_true, if_false, if_true] at released ⊢
      rw [released]
      simp [halves, double negates]

/-- Taking a token. -/
theorem Balanced.take {s next : Sorter} (balanced : s.Balanced) {token : Token}
    (fits : token.Fits s.wantsOperand) (written : token ≠ .operator .neg)
    (taken : s.take token = .ok next) :
    next.wantsOperand = token.wantsOperand ∧ next.Balanced := by
  cases token with
  | literal v => exact balanced.operand (fun n => rfl) taken
  | «variable» name => exact balanced.operand (fun n => rfl) taken
  | operator op => exact balanced.operator (fun equal => written (equal ▸ rfl)) taken
  | opening =>
    obtain ⟨steps, waiting, wants⟩ := s
    obtain rfl : wants = true := fits
    cases taken
    exact ⟨rfl, balanced⟩
  | closing =>
    obtain ⟨steps, waiting, wants⟩ := s
    obtain rfl : wants = false := fits
    exact balanced.close taken

theorem Balanced.run {s last : Sorter} (balanced : s.Balanced) {tokens : List Token}
    (fits : FitsFrom s.wantsOperand tokens) (written : .operator .neg ∉ tokens)
    (taken : tokens.foldlM Sorter.take s = .ok last) : last.Balanced := by
  induction tokens generalizing s with
  | nil =>
    cases taken
    exact balanced
  | cons token rest ih =>
    obtain ⟨first, others⟩ := fits
    rw [List.mem_cons, not_or] at written
    obtain ⟨next, one, more⟩ := bind_eq_ok.1 taken
    obtain ⟨wants, now⟩ := balanced.take first (Ne.symm written.1) one
    exact ih now (wants ▸ others) written.2 more

end Sorter

/-- The steps of a list of tokens whose brackets stand where they may find their operands and
leave one. -/
theorem operands_toPostfix {tokens : List Token} {steps : List Step}
    (written : .operator .neg ∉ tokens) (bracketed : Bracketed tokens)
    (accepted : toPostfix tokens = .ok steps) : steps.foldlM Step.operands 0 = some 1 := by
  obtain ⟨⟨sorted, waiting, wants⟩, taken, finished⟩ := bind_eq_ok.1 accepted
  have start : Sorter.start.Balanced := rfl
  have balanced := start.run bracketed written taken
  cases wants with
  | true => cases finished
  | false =>
    obtain ⟨all, drained, rfl⟩ := map_eq_ok.1 finished
    exact balanced.drain drained

/-! ### Operators find their operands -/

section

variable {op : Operator} {a b : Datum}

theorem refuse_ne_missing {α : Type} (r : Refusal) :
    (refuse r : Except EvalFault α) ≠ .error .missingOperand := by
  rw [refuse]
  split <;> simp

theorem map_ne_missing {α β : Type} {x : Except EvalFault α} {f : α → β}
    (finds : x ≠ .error .missingOperand) : x.map f ≠ .error .missingOperand := by
  cases x with
  | error e => simpa [Except.map] using finds
  | ok y => simp [Except.map]

theorem asFloat_ne_missing {v : Value} (number : v.isNumber = true) :
    asFloat v ≠ .error .missingOperand := by
  cases v with
  | int n =>
    rw [asFloat]
    cases Binary64.ofInt n <;> simp [converted]
  | float x => simp [asFloat]
  | _ => cases number

theorem wholeArithmetic_ne_missing {m n : Int} :
    wholeArithmetic op m n ≠ .error .missingOperand := by
  cases op with
  | div =>
    refine map_ne_missing ?_
    rw [wholeQuotient]
    cases (Binary64.ofFraction ((m < 0) != (n < 0)) m.natAbs n.natAbs).truncate? <;> simp
  | _ => simp [wholeArithmetic]

theorem floats_ne_missing {x y : Value} {r : Binary64 → Binary64 → Binary64}
    (numbers : x.isNumber = true ∧ y.isNumber = true) :
    (do let u ← asFloat x; let w ← asFloat y; return Value.float (r u w))
      ≠ .error .missingOperand := by
  have left := asFloat_ne_missing numbers.1
  have right := asFloat_ne_missing numbers.2
  cases first : asFloat x with
  | error f => simpa [first, bind, Except.bind] using left
  | ok u =>
    cases second : asFloat y with
    | error f => simpa [second, bind, Except.bind] using right
    | ok w => simp [bind, Except.bind, pure, Except.pure]

theorem arithmetic_ne_missing : arithmetic op a b ≠ .error .missingOperand := by
  cases a with
  | value x =>
    cases b with
    | value y =>
      simp only [arithmetic]
      split
      · exact refuse_ne_missing _
      next numbers =>
        simp only [Bool.not_eq_true', Bool.not_eq_false, Bool.and_eq_true] at numbers
        split
        · exact refuse_ne_missing _
        · cases x with
          | int m =>
            cases y with
            | int n => exact wholeArithmetic_ne_missing
            | _ => exact floats_ne_missing numbers
          | _ => exact floats_ne_missing numbers
    | _ => exact refuse_ne_missing _
  | _ => exact refuse_ne_missing _

theorem comparison_ne_missing : comparison op a b ≠ .error .missingOperand := by
  unfold comparison
  split
  · simp
  · split
    · simp
    · exact refuse_ne_missing _
  · exact refuse_ne_missing _

theorem applyBinary_ne_missing : applyBinary op a b ≠ .error .missingOperand := by
  cases op with
  | and | or | eq | ne => simp [applyBinary]
  | lt | gt | le | ge => exact comparison_ne_missing
  | add =>
    simp only [applyBinary]
    split
    · simp
    · exact arithmetic_ne_missing
  | sub | mul | div | mod | not | neg => exact arithmetic_ne_missing

theorem negate_ne_missing : negate a ≠ .error .missingOperand := by
  unfold negate
  split
  · simp
  · simp
  · exact refuse_ne_missing _

theorem combine_ne_missing {env : Environment} {x y : Operand} :
    Operand.combine env op x y ≠ .error .missingOperand := by
  unfold Operand.combine
  split
  · simp
  · simp
  · exact applyBinary_ne_missing

end

section

variable {env : Environment}

/-- An operator that is applied to its operands does not miss one. -/
theorem Step.run_ne_missing {step : Step} {stack : List Operand}
    (finds : step.operands stack.length ≠ none) :
    step.run env stack ≠ .error .missingOperand := by
  cases step with
  | push v => simp [Step.run]
  | load name => simp [Step.run]
  | apply op =>
    cases stack with
    | nil => cases single : op.isUnary <;> simp [Step.operands, single] at finds
    | cons b rest =>
      have combined := fun a => @combine_ne_missing op env a b
      cases op with
      | not => simp [Step.run]
      | neg => exact map_ne_missing negate_ne_missing
      | _ =>
        cases rest with
        | nil => simp [Step.operands, Operator.isUnary] at finds
        | cons a rest =>
          simp only [Step.run, Operator.isUnary, Bool.false_eq_true, if_false]
          exact map_ne_missing (combined a)

/-- Steps that find their operands do not miss one when they are run. -/
theorem runSteps_ne_missing {steps : List Step} {stack : List Operand} {n : Nat}
    (finds : steps.foldlM Step.operands stack.length = some n) :
    runSteps env steps stack ≠ .error .missingOperand := by
  induction steps generalizing stack with
  | nil => simp [runSteps]
  | cons step rest ih =>
    rw [List.foldlM_cons] at finds
    obtain ⟨m, first, later⟩ := Option.bind_eq_some_iff.1 finds
    have here := @Step.run_ne_missing env step stack (by simp [first])
    rw [runSteps]
    cases done : step.run env stack with
    | error f => simpa [done, bind, Except.bind] using here
    | ok after =>
      obtain rfl : m = after.length := Option.some.inj (first.symm.trans (Step.run_ok done))
      exact ih later

end

/-! ### Acceptance -/

/-- **What is read as an expression.** A list of tokens derives from the grammar just if it has a
postfix form and every bracket opens where an operand is to come and closes where none is. The steps
of such a form never lack an operand, whatever the variables are, and leave one. -/
theorem derives_iff_toPostfix {source : String} {tokens : List Token}
    (read : tokenize source = .ok tokens) :
    (Derives tokens ↔ (∃ steps, toPostfix tokens = .ok steps) ∧ Bracketed tokens)
      ∧ ∀ steps, toPostfix tokens = .ok steps → Bracketed tokens → ∀ env : Environment,
        runSteps env steps [] ≠ .error .missingOperand
          ∧ ∀ stack, runSteps env steps [] = .ok stack → stack.length = 1 := by
  have written : .operator .neg ∉ tokens := tokensFrom_ne_neg read
  refine ⟨⟨fun derives => ?_, fun ⟨accepted, bracketed⟩ => ?_⟩, ?_⟩
  · exact ⟨(toPostfix_isOk tokens).2 (derives.taken 0), derives.bracketed⟩
  · exact derives_of_taken written bracketed ((toPostfix_isOk tokens).1 accepted)
  · intro steps accepted bracketed env
    have finds := operands_toPostfix written bracketed accepted
    refine ⟨runSteps_ne_missing finds, fun stack done => ?_⟩
    exact Option.some.inj ((runSteps_ok done).symm.trans finds)

/-- A minus before brackets. -/
theorem derives_iff_toPostfix_brackets :
    tokenize "-({x} + 2)" = .ok [.operator .sub, .opening, .variable "x", .operator .add,
        .literal (.int 2), .closing]
      ∧ Derives [.operator .sub, .opening, .variable "x", .operator .add, .literal (.int 2),
        .closing] := by
  have read : tokenize "-({x} + 2)" = .ok [.operator .sub, .opening, .variable "x",
      .operator .add, .literal (.int 2), .closing] := by rfl
  have bracketed : Bracketed [.operator .sub, .opening, .variable "x", .operator .add,
      .literal (.int 2), .closing] := ⟨trivial, rfl, trivial, trivial, trivial, rfl, trivial⟩
  exact ⟨read, (derives_iff_toPostfix read).1.2 ⟨⟨_, rfl⟩, bracketed⟩⟩

/-- Empty brackets are taken although they derive from nothing, and running them fails for want of
an operand. -/
theorem empty_brackets_taken :
    ∃ tokens steps, tokenize "()" = .ok tokens ∧ toPostfix tokens = .ok steps ∧ ¬ Derives tokens
      ∧ Expression.evaluate ⟨"()", steps⟩ (fun _ => .unset) = .error .missingOperand := by
  refine ⟨[.opening, .closing], [], by rfl, rfl, fun derives => ?_, rfl⟩
  cases derives.bracketed.2.1

end Colloquy.Expression
