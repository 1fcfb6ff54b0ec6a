import Colloquy.Proofs.Expression.Lexemes
import Colloquy.Proofs.Expression.Locality
import Colloquy.Proofs.Expression.Spelling
import Colloquy.Proofs.Listing
/-!
# The variables of an expression

The names of an expression are collected from its steps. They are what a plain look at its text
finds: whatever stands in braces outside quotes, in the order in which it is written. Cutting the
text into lexemes and bringing the tokens into postfix form loses no operand and changes places with
none.
-/

namespace Colloquy.Expression

/-! ### What a text writes in braces -/

/-- A character that is not of a class is not among characters of it. -/
theorem ne_of_class {p : Char → Bool} {d : Char} (other : p d = false) {s : List Char}
    (all : ∀ c ∈ s, p c = true) : ∀ c ∈ s, c ≠ d := by
  rintro c member rfl
  exact Bool.noConfusion (other.symm.trans (all c member))

/-- What stands in braces in the rest of a text, without the blanks around it. Inside quotes braces
mean nothing, and a backslash protects the character after it. -/
def variablesFrom : Bool → List Char → List String
  | _, [] => []
  | true, '\\' :: _ :: rest => variablesFrom true rest
  | true, c :: rest => variablesFrom (c ≠ '"') rest
  | false, c :: rest =>
    if c = '\x7b' then
      String.ofList (Text.trim (rest.takeWhile (· ≠ '\x7d'))) :: variablesFrom false rest
    else variablesFrom (c = '"') rest

/-- The variables that a text writes, as often as it writes them. -/
def writtenNames (text : String) : List String :=
  variablesFrom false text.toList

/-- Before any rest, a text writes so many variables, and no quote is left open behind it. -/
def Writes (piece : List Char) (names : List String) : Prop :=
  ∀ rest, variablesFrom false (piece ++ rest) = names ++ variablesFrom false rest

namespace Writes

theorem append {s t : List Char} {ms ns : List String} (first : Writes s ms)
    (second : Writes t ns) : Writes (s ++ t) (ms ++ ns) := by
  intro rest
  rw [List.append_assoc, first, second, List.append_assoc]

/-- Characters that are neither a quote nor a brace that opens write nothing. -/
theorem plain {s : List Char} (all : ∀ c ∈ s, c ≠ '"' ∧ c ≠ '\x7b') : Writes s [] := by
  induction s with
  | nil => exact fun rest => rfl
  | cons c later ih =>
    obtain ⟨⟨quote, brace⟩, others⟩ := List.forall_mem_cons.1 all
    intro rest
    rw [List.cons_append, variablesFrom.eq_def]
    simp only [brace, quote, if_false, decide_false]
    exact ih others rest

theorem ofClass {p : Char → Bool} {s : List Char} (quote : p '"' = false)
    (brace : p '\x7b' = false) (all : ∀ c ∈ s, p c = true) : Writes s [] :=
  plain fun c member => ⟨ne_of_class quote all c member, ne_of_class brace all c member⟩

end Writes

/-- Between quotes nothing is written. -/
theorem Protected.skipped {inner : List Char} (inside : Protected inner) (rest : List Char) :
    variablesFrom true (inner ++ '"' :: rest) = variablesFrom false rest := by
  induction inside with
  | nil => rfl
  | plain quote slash _ ih =>
    rw [List.cons_append, variablesFrom]
    · rw [decide_eq_true quote]
      exact ih
    · intro _ _ backslash
      exact absurd backslash slash
  | behind c _ ih => exact ih

/-- The name of a token that is a variable. -/
def Token.name? : Token → Option String
  | .variable name => some name
  | _ => none

/-- The same of a lexeme. -/
def Lexeme.name? : Lexeme → Option String
  | .variable name => some (String.ofList name)
  | .symbol token => token.name?
  | _ => none

theorem Lexeme.Means.name? {lexeme : Lexeme} {token : Token} (meant : lexeme.Means token) :
    token.name? = lexeme.name? := by
  cases meant <;> rfl

/-- A lexeme writes its name, if it has one. -/
theorem Lexeme.Form.writes {lexeme : Lexeme} {piece : List Char} (form : lexeme.Form piece) :
    Writes piece lexeme.name?.toList := by
  cases form with
  | whole some all => exact .ofClass (by decide) (by decide) all
  | decimal all after =>
    have digits {t : List Char} (all : ∀ c ∈ t, Text.isDigit c = true) : Writes t [] :=
      .ofClass (by decide) (by decide) all
    have point : Writes ['.'] [] := .plain (by simp)
    exact (digits all).append (point.append (digits after))
  | text content inside =>
    intro rest
    rw [List.append_assoc]
    exact inside.skipped rest
  | @named left name right front some all back =>
    have solid : ∀ c ∈ name, Text.isBlank c = false := fun c member =>
      isBlank_of_isDotted (all c member)
    have inner : Writes (left ++ (name ++ (right ++ ['\x7d']))) [] := by
      have blanks {t : List Char} (all : ∀ c ∈ t, Text.isBlank c = true) : Writes t [] :=
        .ofClass (by decide) (by decide) all
      have letters : Writes name [] := .ofClass (by decide) (by decide) all
      have brace : Writes ['\x7d'] [] := .plain (by simp)
      exact (blanks front).append (letters.append ((blanks back).append brace))
    -- the name is cut off at the first closing brace, which is the one after it
    have close (rest : List Char) :
        (left ++ (name ++ (right ++ ['\x7d'])) ++ rest).takeWhile (· ≠ '\x7d')
          = left ++ (name ++ right) := by
      have before : ∀ c ∈ left ++ (name ++ right), decide (c ≠ '\x7d') = true := by
        intro c member
        rw [List.mem_append, List.mem_append] at member
        obtain member | member | member := member
        · exact decide_eq_true (ne_of_class (by decide) front c member)
        · exact decide_eq_true (ne_of_class (by decide) all c member)
        · exact decide_eq_true (ne_of_class (by decide) back c member)
      have whole : left ++ (name ++ (right ++ ['\x7d'])) ++ rest
          = left ++ (name ++ right) ++ '\x7d' :: rest := by simp
      rw [whole, List.takeWhile_append_of_pos before]
      simp
    intro rest
    rw [List.cons_append, variablesFrom, if_pos rfl, close, inner,
      Text.trim_between front some solid back]
    rfl
  | operator op some all =>
    have apart : ∀ c ∈ operatorSigns, c ≠ '"' ∧ c ≠ '\x7b' := by simp [operatorSigns]
    exact .plain fun c member => apart c (all c member)
  | opening => exact .plain (by simp)
  | closing => exact .plain (by simp)
  | @word c rest first all =>
    have letter : Writes [c] [] :=
      .ofClass (p := startsWord) (by decide) (by decide) (by simpa using first)
    exact letter.append (.ofClass (by decide) (by decide) all)

/-- A text that is cut into tokens writes their names. -/
theorem CutInto.writes {tokens : List Token} {s : List Char} (cut : CutInto tokens s) :
    Writes s (tokens.filterMap Token.name?) := by
  induction cut with
  | nil => exact .plain (List.forall_mem_nil _)
  | @cons blanks piece rest lexeme token tokens blank form meant _ ih =>
    have named : (token :: tokens).filterMap Token.name?
        = lexeme.name?.toList ++ tokens.filterMap Token.name? := by
      rw [← meant.name?]
      cases named : token.name? <;> simp [named]
    rw [named]
    have front : Writes blanks [] := .ofClass (by decide) (by decide) blank
    exact front.append (form.writes.append ih)

/-! ### Operands keep their order -/

namespace Sorter

/-- The variables that the steps so far read. -/
def reads (steps : List Step) : List String :=
  steps.reverse.filterMap Step.name?

theorem reads_apply (op : Operator) (steps : List Step) : reads (.apply op :: steps) = reads steps := by
  simp [reads, Step.name?]

theorem reads_release (strength : Nat) (steps : List Step) (waiting : List Waiting) :
    reads (release strength steps waiting).1 = reads steps := by
  fun_induction release strength steps waiting with
  | case1 steps op rest _ ih => rw [ih, reads_apply]
  | case2 => rfl
  | case3 => rfl

theorem reads_close {steps : List Step} {waiting : List Waiting} {next : Sorter}
    (closed : close steps waiting = .ok next) : reads next.steps = reads steps := by
  fun_induction close steps waiting with
  | case1 => cases closed
  | case2 => cases closed; rfl
  | case3 steps op rest ih => rw [ih closed, reads_apply]

theorem reads_drain {steps all : List Step} {waiting : List Waiting}
    (drained : drain steps waiting = .ok all) : reads all = reads steps := by
  fun_induction drain steps waiting with
  | case1 => cases drained; rfl
  | case2 => cases drained
  | case3 steps op rest ih => rw [ih drained, reads_apply]

theorem reads_operator {s next : Sorter} {op : Operator} (taken : s.operator op = .ok next) :
    reads next.steps = reads s.steps := by
  unfold operator at taken
  split at taken
  · split at taken <;> cases taken <;> rfl
  · split at taken
    · cases taken
    · cases taken
      exact reads_release ..

/-- An operand joins the steps as it is taken; operators join them later. -/
theorem reads_take {s next : Sorter} {token : Token} (taken : s.take token = .ok next) :
    reads next.steps = reads s.steps ++ token.name?.toList := by
  obtain ⟨steps, waiting, wants⟩ := s
  cases token with
  | literal v | «variable» name =>
    simp only [take, operand] at taken
    split at taken <;> cases taken
    simp [reads, Step.name?, Token.name?]
  | opening =>
    cases taken
    exact (List.append_nil _).symm
  | closing => rw [reads_close taken]; exact (List.append_nil _).symm
  | operator op => rw [reads_operator taken]; exact (List.append_nil _).symm

theorem reads_foldlM {s last : Sorter} {tokens : List Token}
    (taken : tokens.foldlM take s = .ok last) :
    reads last.steps = reads s.steps ++ tokens.filterMap Token.name? := by
  induction tokens generalizing s with
  | nil =>
    cases taken
    exact (List.append_nil _).symm
  | cons token rest ih =>
    obtain ⟨next, one, more⟩ := bind_eq_ok.1 taken
    rw [ih more, reads_take one, List.append_assoc]
    cases named : token.name? <;> simp [named]

end Sorter

/-- The steps read the variables in the order of the tokens. -/
theorem names_toPostfix {tokens : List Token} {steps : List Step}
    (sorted : toPostfix tokens = .ok steps) :
    steps.filterMap Step.name? = tokens.filterMap Token.name? := by
  obtain ⟨last, taken, finished⟩ := bind_eq_ok.1 sorted
  unfold Sorter.finish at finished
  split at finished
  · cases finished
  · obtain ⟨all, drained, rfl⟩ := map_eq_ok.1 finished
    exact (Sorter.reads_drain drained).trans (Sorter.reads_foldlM taken)

/-- The names are those that the text writes. -/
theorem names_of_parse {text : String} {e : Expression} (read : parse text = .ok e) :
    e.steps.filterMap Step.name? = writtenNames text := by
  unfold parse at read
  dsimp only at read
  split at read
  · cases read
  · obtain ⟨tokens, cut, read⟩ := bind_eq_ok.1 read
    split at read
    next steps sorted =>
      cases read
      obtain ⟨left, right, whole, front, back⟩ := Text.exists_trim text.toList
      have blanks {t : List Char} (all : ∀ c ∈ t, Text.isBlank c = true) : Writes t [] :=
        .ofClass (by decide) (by decide) all
      have inner := (cutInto_of_tokenize cut).writes
      rw [Text.trimString, String.toList_ofList, Text.trimRight_of_trim (Text.trim_trim _)] at inner
      have writes := (blanks front).append (inner.append (blanks back)) []
      rw [← whole, List.append_nil, List.append_nil] at writes
      rw [names_toPostfix sorted, writtenNames, writes]
      simp [variablesFrom]
    · cases read

/-- An expression names what its text writes, each variable once and in the order in which they are
first written, and what it comes to depends on nothing else. -/
theorem parse_announces {text : String} {e : Expression} (read : parse text = .ok e) :
    ListsOnce e.names (writtenNames text)
      ∧ ∀ env env' : Environment, (∀ name ∈ e.names, env name = env' name) →
        e.evaluate env = e.evaluate env' := by
  refine ⟨?_, fun env env' agree => evaluate_congr agree⟩
  rw [← names_of_parse read]
  exact listsOnce_eraseDups _

theorem parse_announces_each_once :
    ∃ e, parse "\x7bB\x7d + \"\x7bC\x7d\" * -(\x7bA.x\x7d - \x7b B \x7d)" = .ok e
      ∧ writtenNames e.source = ["B", "A.x", "B"] ∧ e.names = ["B", "A.x"]
      ∧ ListsOnce e.names (writtenNames e.source)
      ∧ ∀ env env' : Environment, (∀ name ∈ e.names, env name = env' name) →
        e.evaluate env = e.evaluate env' := by
  have read : parse "\x7bB\x7d + \"\x7bC\x7d\" * -(\x7bA.x\x7d - \x7b B \x7d)"
      = .ok ⟨"\x7bB\x7d + \"\x7bC\x7d\" * -(\x7bA.x\x7d - \x7b B \x7d)",
        [.load "B", .push (.text "\x7bC\x7d"), .load "A.x", .load "B", .apply .sub, .apply .neg,
          .apply .mul, .apply .add]⟩ := by decide +kernel
  have announces := parse_announces read
  exact ⟨_, read, by decide +kernel, by decide +kernel, announces⟩

end Colloquy.Expression
