import Colloquy.Expression.Token
import Colloquy.Proofs.Result
import Mathlib.Data.List.TakeWhile
/-!
# What lexemes look like

The lexeme at the start of a text is found character by character. The pieces of text that make one
are described here on their own. A text that is cut into tokens is a row of such pieces, with
blanks before each of them.
-/

namespace Colloquy.Expression

/-- The characters that the signs of operators are made of. -/
def operatorSigns : List Char :=
  ['=', '!', '<', '>', '&', '|', '-', '+', '*', '/', '%']

/-- What may stand between quotes: a quote or a backslash only behind a backslash. -/
inductive Protected : List Char → Prop where
  | nil : Protected []
  | plain {c : Char} {rest : List Char} (quote : c ≠ '"') (slash : c ≠ '\\')
      (later : Protected rest) : Protected (c :: rest)
  | behind (c : Char) {rest : List Char} (later : Protected rest) : Protected ('\\' :: c :: rest)

/-- The pieces of text that make a lexeme. -/
inductive Lexeme.Form : Lexeme → List Char → Prop where
  | whole {digits : List Char} (some : digits ≠ []) (all : ∀ c ∈ digits, Text.isDigit c = true) :
      Form (.whole digits) digits
  | decimal {digits places : List Char} (all : ∀ c ∈ digits, Text.isDigit c = true)
      (after : ∀ c ∈ places, Text.isDigit c = true) :
      Form (.decimal digits places) (digits ++ '.' :: places)
  | text {inner : List Char} (content : List Char) (inside : Protected inner) :
      Form (.text content) ('"' :: inner ++ ['"'])
  | named {left name right : List Char} (front : ∀ c ∈ left, Text.isBlank c = true)
      (some : name ≠ []) (all : ∀ c ∈ name, Text.isDotted c = true)
      (back : ∀ c ∈ right, Text.isBlank c = true) :
      Form (.variable name) ('\x7b' :: (left ++ (name ++ (right ++ ['\x7d']))))
  | operator {signs : List Char} (op : Operator) (some : signs ≠ [])
      (all : ∀ c ∈ signs, c ∈ operatorSigns) : Form (.symbol (.operator op)) signs
  | opening : Form (.symbol .opening) ['(']
  | closing : Form (.symbol .closing) [')']
  | word {c : Char} {rest : List Char} (first : startsWord c = true)
      (all : ∀ d ∈ rest, Text.isWord d = true) : Form (.word (c :: rest)) (c :: rest)

namespace Lexeme

theorem Form.ne_nil {lexeme : Lexeme} {piece : List Char} (form : lexeme.Form piece) :
    piece ≠ [] := by
  cases form with
  | whole some all => exact some
  | operator op some all => exact some
  | decimal all after => simp
  | _ => exact List.cons_ne_nil _ _

/-- What lexemes mean, up to the values of literals: names and signs mean themselves, and a word is
that of an operator or of a value. -/
inductive Means : Lexeme → Token → Prop where
  | whole (digits : List Char) (v : Value) : Means (.whole digits) (.literal v)
  | decimal (digits places : List Char) (v : Value) : Means (.decimal digits places) (.literal v)
  | text (content : List Char) (v : Value) : Means (.text content) (.literal v)
  | variable (name : List Char) : Means (.variable name) (.variable (String.ofList name))
  | symbol (token : Token) : Means (.symbol token) token
  | operator (letters : List Char) (op : Operator) : Means (.word letters) (.operator op)
  | value (letters : List Char) (v : Value) : Means (.word letters) (.literal v)

theorem means_of_token {lexeme : Lexeme} {token : Token} (meant : lexeme.token = .ok token) :
    lexeme.Means token := by
  cases lexeme with
  | whole digits =>
    rw [Lexeme.token] at meant
    split at meant <;> cases meant
    exact .whole _ _
  | decimal digits places =>
    cases meant
    exact .decimal _ _ _
  | text content =>
    cases meant
    exact .text _ _
  | «variable» name =>
    cases meant
    exact .variable _
  | symbol token =>
    cases meant
    exact .symbol _
  | word letters =>
    rw [Lexeme.token] at meant
    split at meant
    next known =>
      cases meant
      unfold wordToken? at known
      split at known <;> cases known <;> constructor
    · cases meant

end Lexeme

theorem form_of_scanNumber {s tail : List Char} {lexeme : Lexeme}
    (scanned : scanNumber s = some (lexeme, tail)) : ∃ piece, s = piece ++ tail ∧ lexeme.Form piece := by
  have cut := (s.takeWhile_append_dropWhile (p := Text.isDigit)).symm
  have digits (t : List Char) : ∀ c ∈ t.takeWhile Text.isDigit, Text.isDigit c = true :=
    fun c member => List.mem_takeWhile_imp member
  unfold scanNumber at scanned
  dsimp only at scanned
  split at scanned
  next rest after =>
    split at scanned
    · cases scanned
    · cases scanned
      refine ⟨_, ?_, .decimal (digits s) (digits rest)⟩
      rw [List.append_assoc, List.cons_append, List.takeWhile_append_dropWhile, ← after]
      exact cut
  next rest _ =>
    split at scanned
    · cases scanned
    next some =>
      cases scanned
      exact ⟨_, cut, .whole (by simpa using some) (digits s)⟩

theorem protected_of_scanText {s content tail : List Char}
    (scanned : scanText s = some (content, tail)) :
    ∃ inner, s = inner ++ '"' :: tail ∧ Protected inner := by
  fun_induction scanText s generalizing content with
  | case1 => cases scanned
  | case2 rest =>
    cases scanned
    exact ⟨[], rfl, .nil⟩
  | case3 rest => cases scanned
  | case4 c rest _ ih =>
    obtain ⟨⟨inner, tail⟩, found, same⟩ := Option.map_eq_some_iff.1 scanned
    cases same
    obtain ⟨inner, rfl, later⟩ := ih found
    exact ⟨_, rfl, .behind c later⟩
  | case5 => cases scanned
  | case6 c rest quote _ slash ih =>
    obtain ⟨⟨inner, tail⟩, found, same⟩ := Option.map_eq_some_iff.1 scanned
    cases same
    obtain ⟨inner, rfl, later⟩ := ih found
    exact ⟨_, rfl, .plain quote slash later⟩

theorem form_of_scanVariable {s name tail : List Char}
    (scanned : scanVariable s = some (name, tail)) :
    ∃ piece, '\x7b' :: s = piece ++ tail ∧ Lexeme.Form (.variable name) piece := by
  unfold scanVariable at scanned
  dsimp only at scanned
  split at scanned
  next rest after =>
    split at scanned
    · cases scanned
    next some =>
      cases scanned
      have front := (s.takeWhile_append_dropWhile (p := Text.isBlank)).symm
      have named := ((Text.trimLeft s).takeWhile_append_dropWhile (p := Text.isDotted)).symm
      have back := (((Text.trimLeft s).dropWhile Text.isDotted).takeWhile_append_dropWhile
        (p := Text.isBlank)).symm
      rw [← Text.trimLeft, after] at back
      rw [← Text.trimLeft, named, back] at front
      refine ⟨'\x7b' :: (s.takeWhile Text.isBlank ++ ((Text.trimLeft s).takeWhile Text.isDotted
        ++ (((Text.trimLeft s).dropWhile Text.isDotted).takeWhile Text.isBlank ++ ['\x7d']))),
        ?_, .named ?_ (by simpa using some) ?_ ?_⟩
      · conv_lhs => rw [front]
        simp
      all_goals exact fun c member => List.mem_takeWhile_imp member
  · cases scanned

theorem form_of_scanSymbol {s tail : List Char} {token : Token}
    (scanned : scanSymbol s = some (token, tail)) :
    ∃ piece, s = piece ++ tail ∧ Lexeme.Form (.symbol token) piece := by
  unfold scanSymbol at scanned
  split at scanned
  case h_17 =>
    cases scanned
    exact ⟨['('], rfl, .opening⟩
  case h_18 =>
    cases scanned
    exact ⟨[')'], rfl, .closing⟩
  case h_19 => cases scanned
  all_goals cases scanned
  -- the signs of operators, of two characters and of one
  all_goals first
    | exact ⟨[_, _], rfl, .operator _ (List.cons_ne_nil _ _) (by simp [operatorSigns])⟩
    | exact ⟨[_], rfl, .operator _ (List.cons_ne_nil _ _) (by simp [operatorSigns])⟩

/-- The lexeme at the start of a text is a piece of it that has the form of the lexeme. -/
theorem form_of_scanLexeme {s tail : List Char} {lexeme : Lexeme}
    (scanned : scanLexeme s = some (lexeme, tail)) :
    ∃ piece, s = piece ++ tail ∧ lexeme.Form piece := by
  unfold scanLexeme at scanned
  split at scanned
  next result number =>
    cases scanned
    exact form_of_scanNumber number
  · split at scanned
    · cases scanned
    next rest =>
      obtain ⟨⟨content, tail⟩, found, same⟩ := Option.map_eq_some_iff.1 scanned
      cases same
      obtain ⟨inner, rfl, inside⟩ := protected_of_scanText found
      exact ⟨_, by simp, .text content inside⟩
    next rest =>
      obtain ⟨⟨name, tail⟩, found, same⟩ := Option.map_eq_some_iff.1 scanned
      cases same
      exact form_of_scanVariable found
    next c rest _ _ _ =>
      split at scanned
      next letter =>
        cases scanned
        refine ⟨_, ?_, .word letter fun d member => List.mem_takeWhile_imp member⟩
        rw [List.cons_append, List.takeWhile_append_dropWhile]
      · obtain ⟨⟨token, tail⟩, found, same⟩ := Option.map_eq_some_iff.1 scanned
        cases same
        exact form_of_scanSymbol found

/-- A text is a row of pieces, one for each token, each with blanks before it. -/
inductive CutInto : List Token → List Char → Prop where
  | nil : CutInto [] []
  | cons {blanks piece rest : List Char} {lexeme : Lexeme} {token : Token} {tokens : List Token}
      (blank : ∀ c ∈ blanks, Text.isBlank c = true) (form : lexeme.Form piece)
      (meant : lexeme.Means token) (later : CutInto tokens rest) :
      CutInto (token :: tokens) (blanks ++ (piece ++ rest))

/-- Every character of a text that is read belongs to a token or is a blank before one. -/
theorem cutInto_of_tokensFrom {size fuel : Nat} {rest : List Char} {tokens : List Token}
    (enough : rest.length ≤ fuel) (read : tokensFrom size fuel rest = .ok tokens) :
    CutInto tokens rest := by
  induction fuel generalizing rest tokens with
  | zero =>
    cases read
    rw [List.length_eq_zero_iff.1 (Nat.le_zero.1 enough)]
    exact .nil
  | succ fuel ih =>
    rw [tokensFrom] at read
    split at read
    next none =>
      cases read
      rw [List.isEmpty_iff.1 none]
      exact .nil
    · split at read
      · cases read
      next lexeme tail scanned =>
        obtain ⟨token, meant, read⟩ := bind_eq_ok.1 read
        obtain ⟨others, later, equal⟩ := bind_eq_ok.1 read
        cases equal
        obtain ⟨piece, cut, form⟩ := form_of_scanLexeme scanned
        have whole : rest = rest.takeWhile Text.isBlank ++ (piece ++ tail) := by
          rw [← cut]
          exact (List.takeWhile_append_dropWhile ..).symm
        -- a piece is not empty, so the fuel lasts for what follows it
        have some : 0 < piece.length := List.length_pos_iff.2 form.ne_nil
        have less : tail.length ≤ fuel := by
          have lengths := congrArg List.length whole
          simp only [List.length_append] at lengths
          omega
        rw [whole]
        exact .cons (fun c member => List.mem_takeWhile_imp member) form
          (Lexeme.means_of_token meant) (ih less later)

theorem cutInto_of_tokenize {source : String} {tokens : List Token}
    (read : tokenize source = .ok tokens) : CutInto tokens (Text.trimRight source.toList) :=
  cutInto_of_tokensFrom (Nat.le_refl _) read

end Colloquy.Expression
