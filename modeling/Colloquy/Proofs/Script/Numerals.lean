import Colloquy.Script.Reading
import Colloquy.Proofs.Result
/-!
# Numerals of a script

Reading a script can only fail on a numeral: a whole number that is written with more digits than a
numeral may have. Where all numerals of the expressions of a script keep within the limit, the
script is read to its end, whatever else is wrong with it.
-/

namespace Colloquy

namespace Expression

/-- The lexemes of the rest of a text, up to the first place where none begins. -/
def lexemesFrom (fuel : Nat) (rest : List Char) : List Lexeme :=
  match fuel with
  | 0 => []
  | fuel + 1 =>
    match scanLexeme (Text.trimLeft rest) with
    | none => []
    | some (lexeme, tail) => lexeme :: lexemesFrom fuel tail

/-- The lexemes of a text that is read as an expression. -/
def lexemes (text : String) : List Lexeme :=
  let s := Text.trimRight (Text.trimString text).toList
  lexemesFrom s.length s

/-- Whether the whole numbers of a text have no more digits than a numeral may have. -/
def NumeralsFit (text : String) : Prop :=
  ∀ digits, .whole digits ∈ lexemes text → digits.length ≤ Number.digitLimit

/-- Whether a lexeme is no whole number beyond the limit of digits. -/
def Lexeme.fits : Lexeme → Bool
  | .whole digits => digits.length ≤ Number.digitLimit
  | _ => true

instance (text : String) : Decidable (NumeralsFit text) :=
  decidable_of_iff (∀ lexeme ∈ lexemes text, lexeme.fits = true) (by
    constructor
    · intro fits digits member
      exact of_decide_eq_true (fits _ member)
    · intro fits lexeme member
      cases lexeme with
      | whole digits => exact decide_eq_true (fits digits member)
      | _ => rfl)

theorem token_ne_tooMany {lexeme : Lexeme}
    (fits : ∀ digits, lexeme = .whole digits → digits.length ≤ Number.digitLimit) :
    lexeme.token ≠ .error .tooManyDigits := by
  cases lexeme with
  | whole digits =>
    have short := fits digits rfl
    rw [Lexeme.token, if_neg (by omega)]
    exact nofun
  | word letters =>
    rw [Lexeme.token]
    cases wordToken? (String.ofList (letters.map Char.toLower)) <;> exact nofun
  | _ => exact nofun

theorem tokensFrom_ne_tooMany (size fuel : Nat) (rest : List Char)
    (fits : ∀ digits, .whole digits ∈ lexemesFrom fuel rest →
      digits.length ≤ Number.digitLimit) :
    tokensFrom size fuel rest ≠ .error .tooManyDigits := by
  induction fuel generalizing rest with
  | zero => exact nofun
  | succ fuel ih =>
    rw [tokensFrom]
    split
    · exact nofun
    rw [lexemesFrom] at fits
    cases scanned : scanLexeme (Text.trimLeft rest) with
    | none => exact nofun
    | some piece =>
      obtain ⟨lexeme, tail⟩ := piece
      rw [scanned] at fits
      -- The first numeral beyond the limit would be this lexeme or one of the rest.
      have here : lexeme.token ≠ .error .tooManyDigits :=
        token_ne_tooMany fun digits whole => fits digits (whole ▸ List.mem_cons_self ..)
      have later := ih tail fun digits member => fits digits (List.mem_cons_of_mem _ member)
      dsimp only
      cases token : lexeme.token with
      | error f =>
        intro failed
        have same : f = .tooManyDigits := Except.error.inj failed
        exact here (same ▸ token)
      | ok t =>
        cases tokens : tokensFrom size fuel tail with
        | error f =>
          intro failed
          have same : f = .tooManyDigits := Except.error.inj failed
          exact later (same ▸ tokens)
        | ok ts => exact nofun

/-- Reading an expression fails for its numerals alone. -/
theorem parse_ne_tooMany {text : String} (fits : NumeralsFit text) :
    parse text ≠ .error .tooManyDigits := by
  unfold parse
  dsimp only
  split
  · exact nofun
  have tokenized : tokenize (Text.trimString text) ≠ .error .tooManyDigits :=
    tokensFrom_ne_tooMany _ _ _ fits
  cases tokens : tokenize (Text.trimString text) with
  | error f =>
    intro failed
    have same : f = .tooManyDigits := Except.error.inj failed
    exact tokenized (same ▸ tokens)
  | ok ts =>
    simp only [bind, Except.bind]
    split <;> exact nofun

end Expression

namespace Script

/-- The texts of a line that are read as expressions. -/
def Statement.expressions : Statement → List String
  | .openIf text | .elseIf text | .assign _ text => [text]
  | .event _ text => (arguments text.toList).map String.ofList
  | _ => []

/-- Whether the numerals of all expressions of some lines keep within the limit of digits. -/
def NumeralsFit (s : Settings) (lines : List (List Char)) : Prop :=
  ∀ raw ∈ lines, ∀ number l, scan s.tabWidth number raw = .line l →
    ∀ text ∈ (Statement.read l.body).expressions, Expression.NumeralsFit text

/-- The texts that are read as expressions in a line as it is written. -/
def lineExpressions (tabWidth : Nat) (raw : List Char) : List String :=
  match scan tabWidth 0 raw with
  | .line l => (Statement.read l.body).expressions
  | _ => []

/-- What is read as an expression does not depend on which line of a script it stands in. -/
theorem lineExpressions_of_scan {tabWidth number : Nat} {raw : List Char} {l : Line}
    (scanned : scan tabWidth number raw = .line l) :
    lineExpressions tabWidth raw = (Statement.read l.body).expressions := by
  rw [lineExpressions]
  unfold scan at scanned ⊢
  dsimp only at scanned ⊢
  split at scanned
  · cases scanned
  next heard =>
    split at scanned
    · cases scanned
    next other =>
      cases scanned
      rw [if_neg heard, if_neg other]

instance (s : Settings) (lines : List (List Char)) : Decidable (NumeralsFit s lines) :=
  decidable_of_iff
    (∀ raw ∈ lines, ∀ text ∈ lineExpressions s.tabWidth raw, Expression.NumeralsFit text) (by
    constructor
    · intro fits raw member number l scanned text inside
      exact fits raw member text (lineExpressions_of_scan scanned ▸ inside)
    · intro fits raw member text inside
      unfold lineExpressions at inside
      split at inside
      next l scanned => exact fits raw member 0 l scanned text inside
      · cases inside)

theorem readExpression_ok {text : String} (fits : Expression.NumeralsFit text) :
    ∃ result, readExpression text = .ok result := by
  have parses := Expression.parse_ne_tooMany fits
  unfold readExpression
  split
  · exact ⟨_, rfl⟩
  · exact ⟨_, rfl⟩
  next tooMany => exact absurd tooMany parses

theorem readArguments_ok {texts : List String}
    (fits : ∀ text ∈ texts, Expression.NumeralsFit text) :
    ∃ result, readArguments texts = .ok result := by
  induction texts with
  | nil => exact ⟨_, rfl⟩
  | cons text rest ih =>
    obtain ⟨first, parsed⟩ := readExpression_ok (fits text (List.mem_cons_self ..))
    obtain ⟨others, read⟩ := ih fun t member => fits t (List.mem_cons_of_mem _ member)
    rw [readArguments, parsed, read]
    cases first with
    | error message => exact ⟨_, rfl⟩
    | ok e => cases others <;> exact ⟨_, rfl⟩

namespace Builder

theorem readCondition_ok {b : Builder} {line : Nat} {text : String}
    (fits : Expression.NumeralsFit text) : ∃ result, b.readCondition line text = .ok result := by
  obtain ⟨e, parsed⟩ := readExpression_ok fits
  rw [readCondition, parsed]
  cases e <;> exact ⟨_, rfl⟩

theorem readAssignment_ok {b : Builder} {line indent : Nat} {name text textId : String}
    (fits : Expression.NumeralsFit text) :
    ∃ result, b.readAssignment line indent name text textId = .ok result := by
  obtain ⟨e, parsed⟩ := readExpression_ok fits
  rw [readAssignment, parsed]
  cases e <;> exact ⟨_, rfl⟩

theorem readHeaderLine_ok {b : Builder} {l : Line}
    (fits : ∀ text ∈ (Statement.read l.body).expressions, Expression.NumeralsFit text) :
    ∃ b', b.readHeaderLine l = .ok b' := by
  unfold readHeaderLine
  split
  next name text statement =>
    rw [statement] at fits
    obtain ⟨⟨b', draft⟩, read⟩ :=
      @readAssignment_ok b l.number 0 name text l.textId (fits text (List.mem_singleton_self _))
    rw [read]
    exact ⟨_, rfl⟩
  · exact ⟨_, rfl⟩

theorem readBodyLine_ok {s : Settings} {b : Builder} {l : Line} {rest : List (List Char)}
    (fits : ∀ text ∈ (Statement.read l.body).expressions, Expression.NumeralsFit text) :
    ∃ b', b.readBodyLine s l rest = .ok b' := by
  unfold readBodyLine
  generalize b.settle l.number l.indent = b
  -- Only the statements that have an expression can fail.
  cases statement : Statement.read l.body with
  | openIf text | elseIf text =>
    rw [statement] at fits
    obtain ⟨⟨b', e⟩, read⟩ :=
      @readCondition_ok b l.number text (fits text (List.mem_singleton_self _))
    dsimp only
    rw [read]
    exact ⟨_, rfl⟩
  | assign name text =>
    rw [statement] at fits
    obtain ⟨⟨b', draft⟩, read⟩ := @readAssignment_ok b l.number l.indent name text l.textId
      (fits text (List.mem_singleton_self _))
    dsimp only
    rw [read]
    exact ⟨_, rfl⟩
  | event name text =>
    rw [statement] at fits
    obtain ⟨result, read⟩ := readArguments_ok fits
    dsimp only [Statement.expressions] at read ⊢
    rw [read]
    cases result <;> exact ⟨_, rfl⟩
  | option | otherwise | endIf | label | goto | speech | bare | unknown => exact ⟨_, rfl⟩

theorem readLines_ok {s : Settings} {lines : List (List Char)} (fits : NumeralsFit s lines)
    (b : Builder) (number : Nat) : ∃ b', readLines s b number lines = .ok b' := by
  induction lines generalizing b number with
  | nil => exact ⟨b, rfl⟩
  | cons raw rest ih =>
    have later := ih fun r member => fits r (List.mem_cons_of_mem _ member)
    suffices ∃ b', b.readLine s number raw rest = .ok b' by
      obtain ⟨b', read⟩ := this
      rw [readLines, read]
      exact later b' (number + 1)
    unfold readLine
    split
    · exact ⟨_, rfl⟩
    · exact ⟨_, rfl⟩
    next l scanned =>
      have own := fits raw (List.mem_cons_self ..) number l scanned
      split
      · exact readHeaderLine_ok own
      · exact readBodyLine_ok own

/-- A script whose numerals keep within the limit is read to its end. -/
theorem readScript_ok {s : Settings} {lines : List (List Char)} (fits : NumeralsFit s lines) :
    ∃ b, readScript s lines = .ok b := by
  obtain ⟨b, read⟩ := readLines_ok fits {} 1
  rw [readScript, read]
  exact ⟨_, rfl⟩

end Builder

end Script

end Colloquy
