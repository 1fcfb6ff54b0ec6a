import Colloquy.Proofs.Expression.Grammar
import Colloquy.Proofs.Expression.Reading
import Colloquy.Proofs.Number.Digits
import Mathlib.Data.List.Forall2
/-!
# How trees are written as text

Every token is spelled by a word, and a text writes a tree if it is made of the words of one of its
writings, single spaces between them. Reading any such text gives the postfix form of the tree, so
it has the value of the tree wherever it is evaluated.
-/

namespace Colloquy.Expression

/-- The content of a text literal, quotes and backslashes protected. -/
def escape : List Char → List Char
  | [] => []
  | c :: rest => if c = '"' ∨ c = '\\' then '\\' :: c :: escape rest else c :: escape rest

/-- The word of a literal. -/
def Literal.word : Literal → List Char
  | .whole n _ => Nat.toDigits 10 n
  | .text s => '"' :: escape s.toList ++ ['"']
  | .truth b => if b then "true".toList else "false".toList
  | .gender g => g.name.toList

/-- The word of a variable. -/
def Name.word (x : Name) : List Char :=
  '\x7b' :: x.text.toList ++ ['\x7d']

/-- The words of an operator, the usual one first. -/
def Operator.words : Operator → List String
  | .or => ["or", "||"]
  | .and => ["and", "&&"]
  | .eq => ["==", "="]
  | .ne => ["!=", "<>"]
  | .lt => ["<"]
  | .gt => [">"]
  | .le => ["<="]
  | .ge => [">="]
  | .add => ["+"]
  | .sub | .neg => ["-"]
  | .mul => ["*"]
  | .div => ["/"]
  | .mod => ["%"]
  | .not => ["not", "!"]

/-- `Spells token word`: the word may stand for the token. -/
inductive Spells : Token → List Char → Prop where
  | literal (l : Literal) : Spells (.literal l.value) l.word
  | named (x : Name) : Spells (.variable x.text) x.word
  | operator {op : Operator} {word : String} (known : word ∈ op.words) : Spells op.token word.toList
  | opening : Spells .opening ['(']
  | closing : Spells .closing [')']

/-- Words with single spaces between them. -/
def spaced (words : List (List Char)) : String :=
  String.ofList ([' '].intercalate words)

namespace Tree

/-- Whether a text writes a tree: with the brackets that it needs and any others. -/
def Written (t : Tree) (source : String) : Prop :=
  ∃ tokens words, t.Reads 0 tokens ∧ List.Forall₂ Spells tokens words ∧ source = spaced words

/-- Words in brackets if they need them. -/
def bracketedIf (needed : Bool) (words : List (List Char)) : List (List Char) :=
  if needed then ['('] :: words ++ [[')']] else words

/-- The words of a tree where the strength `n` is asked for, with no more brackets than needed. -/
def words (n : Nat) : Tree → List (List Char)
  | .literal l => [l.word]
  | .named x => [x.word]
  | .unary op _ a =>
    bracketedIf (op.strength < n) ((op.words.head!).toList :: a.words op.strength)
  | .binary op _ a b =>
    bracketedIf (op.strength < n)
      (a.words op.strength ++ (op.words.head!).toList :: b.words (op.strength + 1))

/-- The text of a tree. -/
def source (t : Tree) : String :=
  spaced (t.words 0)

end Tree

/-! ### The text of a tree writes it -/

theorem Operator.head_mem_words (op : Operator) : op.words.head! ∈ op.words := by
  cases op <;> exact List.mem_cons_self

/-- Brackets where they are needed and none elsewhere. -/
theorem Tree.reads_bracketedIf {n : Nat} {op : Operator} {t : Tree} {tokens : List Token}
    {words : List (List Char)} (reads : ∀ m ≤ op.strength, t.Reads m tokens)
    (spelled : List.Forall₂ Spells tokens words) :
    ∃ all, t.Reads n all ∧ List.Forall₂ Spells all (bracketedIf (op.strength < n) words) := by
  by_cases loose : op.strength < n
  · refine ⟨_, .bracketed n (reads 0 (Nat.zero_le _)), ?_⟩
    rw [bracketedIf, if_pos (decide_eq_true loose)]
    exact .cons .opening (List.rel_append spelled (.cons .closing .nil))
  · refine ⟨tokens, reads n (by omega), ?_⟩
    rwa [bracketedIf, if_neg (by simpa using loose)]

theorem Tree.reads_words (t : Tree) (n : Nat) :
    ∃ tokens, t.Reads n tokens ∧ List.Forall₂ Spells tokens (t.words n) := by
  induction t generalizing n with
  | literal l => exact ⟨_, .literal n l, .cons (.literal l) .nil⟩
  | named x => exact ⟨_, .named n x, .cons (.named x) .nil⟩
  | unary op single a ih =>
    obtain ⟨tokens, reads, spelled⟩ := ih op.strength
    exact reads_bracketedIf (fun m tight => .unary tight reads)
      (.cons (.operator op.head_mem_words) spelled)
  | binary op double a b left right =>
    obtain ⟨before, readsLeft, spelledLeft⟩ := left op.strength
    obtain ⟨after, readsRight, spelledRight⟩ := right (op.strength + 1)
    exact reads_bracketedIf (fun m tight => .binary tight readsLeft readsRight)
      (List.rel_append spelledLeft (.cons (.operator op.head_mem_words) spelledRight))

theorem Tree.written_source (t : Tree) : t.Written t.source := by
  obtain ⟨tokens, reads, spelled⟩ := t.reads_words 0
  exact ⟨tokens, _, reads, spelled, rfl⟩

/-! ### Scanning a word -/

/-- What may follow a word: nothing, or a space. -/
def Apart (rest : List Char) : Prop :=
  ∀ c, rest.head? = some c → c = ' '

section

variable {rest : List Char} (apart : Apart rest)

include apart

theorem takeWhile_of_apart {p : Char → Bool} (space : p ' ' = false) {word : List Char}
    (all : ∀ c ∈ word, p c = true) : (word ++ rest).takeWhile p = word := by
  rw [List.takeWhile_append_of_pos all]
  cases rest with
  | nil => simp
  | cons c r =>
    obtain rfl := apart c rfl
    simp [space]

theorem dropWhile_of_apart {p : Char → Bool} (space : p ' ' = false) {word : List Char}
    (all : ∀ c ∈ word, p c = true) : (word ++ rest).dropWhile p = rest := by
  rw [List.dropWhile_append_of_pos all]
  cases rest with
  | nil => rfl
  | cons c r =>
    obtain rfl := apart c rfl
    simp [space]

theorem scan_digits {digits : List Char} (nonempty : digits ≠ [])
    (all : ∀ c ∈ digits, Text.isDigit c = true) :
    scanLexeme (digits ++ rest) = some (.whole digits, rest) := by
  have number : scanNumber (digits ++ rest) = some (.whole digits, rest) := by
    rw [scanNumber, takeWhile_of_apart apart rfl all, dropWhile_of_apart apart rfl all]
    cases rest with
    | nil => simp [nonempty]
    | cons c r =>
      obtain rfl := apart c rfl
      simp [nonempty]
  unfold scanLexeme
  rw [number]

end

theorem scanText_escape (s rest : List Char) :
    scanText (escape s ++ '"' :: rest) = some (s, rest) := by
  induction s with
  | nil => rfl
  | cons c s ih =>
    by_cases quote : c = '"'
    · subst quote
      simp [escape, scanText, ih]
    · by_cases slash : c = '\\'
      · subst slash
        simp [escape, scanText, ih]
      · simp only [escape, quote, slash, or_self, if_false, List.cons_append]
        rw [scanText]
        · simp [slash, ih]
        all_goals simp_all

/-! ### Characters of words -/

/-- The blanks beyond ASCII. -/
def wideBlanks : List Nat :=
  [0x85, 0xA0, 0x1680, 0x2000, 0x2001, 0x2002, 0x2003, 0x2004, 0x2005, 0x2006, 0x2007, 0x2008,
    0x2009, 0x200A, 0x2028, 0x2029, 0x202F, 0x205F, 0x3000]

theorem mem_wideBlanks {c : Char} (blank : Text.isBlank c = true) (wide : ¬ c.toNat < 128) :
    c.toNat ∈ wideBlanks := by
  simp only [Text.isBlank, Bool.or_eq_true, Bool.and_eq_true, decide_eq_true_eq] at blank
  simp only [wideBlanks, List.mem_cons, List.not_mem_nil, or_false]
  omega

/-- No character of a name is a blank. -/
theorem isBlank_of_isDotted {c : Char} (dotted : Text.isDotted c = true) :
    Text.isBlank c = false := by
  rw [Bool.eq_false_iff]
  intro blank
  by_cases ascii : c.toNat < 128
  · have table : ∀ n < 128, Text.isBlank (Char.ofNat n) = true →
        Text.isDotted (Char.ofNat n) = false := by decide +kernel
    have := table c.toNat ascii
    rw [Char.ofNat_toNat] at this
    rw [this blank] at dotted
    cases dotted
  · have table : ∀ n ∈ wideBlanks, Text.covers Text.wordRanges n = false := by decide +kernel
    have apart : c ≠ '.' := by
      rintro rfl
      exact ascii (by decide)
    rw [Text.isDotted, Text.isWord, if_neg ascii, table _ (mem_wideBlanks blank ascii)] at dotted
    simp [apart] at dotted

theorem isBlank_of_isDigit {c : Char} (digit : c.isDigit = true) : Text.isBlank c = false := by
  have range : 48 ≤ c.toNat ∧ c.toNat ≤ 57 := by
    simpa [Char.isDigit, UInt32.le_iff_toNat_le] using digit
  simp only [Text.isBlank, Bool.or_eq_false_iff, Bool.and_eq_false_iff, decide_eq_false_iff_not]
  omega

/-! ### Words as lexemes -/

/-- A word that is scanned as one lexeme wherever it stands apart. -/
def Scans (token : Token) (word : List Char) : Prop :=
  ∀ rest, Apart rest →
    ∃ lexeme, scanLexeme (word ++ rest) = some (lexeme, rest) ∧ lexeme.token = .ok token

theorem scans_literal (l : Literal) : Scans (.literal l.value) l.word := by
  intro rest apart
  cases l with
  | whole n short =>
    refine ⟨.whole (Nat.toDigits 10 n),
      scan_digits apart Nat.toDigits_ne_nil fun c => Text.isDigit_of_mem_toDigits, ?_⟩
    rw [Lexeme.token, if_neg (by omega), Text.numeralValue_toDigits]
    rfl
  | text s =>
    refine ⟨.text s.toList, ?_, by simp [Lexeme.token, Literal.value]⟩
    change (scanText (escape s.toList ++ ['"'] ++ rest)).map _ = _
    rw [List.append_assoc, List.singleton_append, scanText_escape]
    rfl
  | truth b =>
    refine ⟨.word (Literal.word (.truth b)), ?_, by cases b <;> rfl⟩
    cases rest with
    | nil => cases b <;> rfl
    | cons c r =>
      obtain rfl := apart c rfl
      cases b <;> rfl
  | gender g =>
    refine ⟨.word g.name.toList, ?_, by cases g <;> rfl⟩
    cases rest with
    | nil => cases g <;> rfl
    | cons c r =>
      obtain rfl := apart c rfl
      cases g <;> rfl

theorem scans_named (x : Name) : Scans (.variable x.text) x.word := by
  intro rest apart
  refine ⟨.variable x.text.toList, ?_, by simp [Lexeme.token]⟩
  change (scanVariable (x.text.toList ++ ['\x7d'] ++ rest)).map _ = _
  have dotted : ∀ c ∈ x.text.toList, Text.isDotted c = true := List.all_eq_true.1 x.dotted
  have body : Text.trimLeft (x.text.toList ++ '\x7d' :: rest) = x.text.toList ++ '\x7d' :: rest := by
    apply Text.trimLeft_eq_self
    intro c first
    rw [List.head?_append_of_ne_nil _ x.nonempty] at first
    exact isBlank_of_isDotted (dotted c (List.mem_of_mem_head? first))
  have stop : Text.isDotted '\x7d' = false := by decide
  have named : (x.text.toList ++ '\x7d' :: rest).takeWhile Text.isDotted = x.text.toList := by
    rw [List.takeWhile_append_of_pos dotted, List.takeWhile_cons_of_neg (by simp [stop]),
      List.append_nil]
  have left : (x.text.toList ++ '\x7d' :: rest).dropWhile Text.isDotted = '\x7d' :: rest := by
    rw [List.dropWhile_append_of_pos dotted, List.dropWhile_cons_of_neg (by simp [stop])]
  have closing : Text.trimLeft ('\x7d' :: rest) = '\x7d' :: rest := rfl
  rw [List.append_assoc, List.singleton_append, scanVariable, body,
    named, left, closing]
  simp [x.nonempty]

theorem scans_operator {op : Operator} {word : String} (known : word ∈ op.words) :
    Scans op.token word.toList := by
  intro rest apart
  -- what follows decides how long the word is, so both cases of it are computed
  have computed : ∀ r, r = [] ∨ r = ' ' :: rest.tail →
      ∃ lexeme, scanLexeme (word.toList ++ r) = some (lexeme, r) ∧ lexeme.token = .ok op.token := by
    rintro r (rfl | rfl) <;> cases op <;>
      simp only [Operator.words, List.mem_cons, List.not_mem_nil, or_false] at known <;>
      obtain rfl | rfl := known <;> exact ⟨_, rfl, rfl⟩
  cases rest with
  | nil => exact computed [] (.inl rfl)
  | cons c r =>
    obtain rfl := apart c rfl
    exact computed _ (.inr rfl)

theorem Spells.scans {token : Token} {word : List Char} (spells : Spells token word) :
    Scans token word := by
  cases spells with
  | literal l => exact scans_literal l
  | named x => exact scans_named x
  | operator known => exact scans_operator known
  | opening | closing =>
    intro rest apart
    exact ⟨_, rfl, rfl⟩

/-- A word begins and ends with characters that are no blanks. -/
structure Solid (word : List Char) : Prop where
  nonempty : word ≠ []
  first : ∀ c, word.head? = some c → Text.isBlank c = false
  last : ∀ c, word.getLast? = some c → Text.isBlank c = false

theorem solid_of_all {word : List Char} (nonempty : word ≠ [])
    (all : word.all (fun c => !Text.isBlank c) = true) : Solid word := by
  have each : ∀ c ∈ word, Text.isBlank c = false := by simpa using all
  exact ⟨nonempty, fun c first => each c (List.mem_of_mem_head? first),
    fun c last => each c (List.mem_of_mem_getLast? last)⟩

/-- A word between two characters that are no blanks. -/
theorem solid_between {a b : Char} (before : Text.isBlank a = false)
    (after : Text.isBlank b = false) (inner : List Char) : Solid (a :: inner ++ [b]) := by
  constructor
  · simp
  · intro c first
    obtain rfl : a = c := by simpa using first
    exact before
  · intro c last
    obtain rfl : b = c := by simpa [List.getLast?_cons, List.getLast?_append] using last
    exact after

theorem Spells.solid {token : Token} {word : List Char} (spells : Spells token word) :
    Solid word := by
  cases spells with
  | literal l =>
    cases l with
    | whole n short =>
      apply solid_of_all Nat.toDigits_ne_nil
      simp only [List.all_eq_true, Bool.not_eq_true']
      intro c mem
      exact isBlank_of_isDigit (Nat.isDigit_of_mem_toDigits (by omega) (by omega) mem)
    | text s => exact solid_between rfl rfl _
    | truth b => cases b <;> exact solid_of_all (List.cons_ne_nil _ _) rfl
    | gender g => cases g <;> exact solid_of_all (List.cons_ne_nil _ _) rfl
  | named x => exact solid_between rfl rfl _
  | @operator op word known =>
    have all : op.words.all (fun w => !w.toList.isEmpty && w.toList.all fun c => !Text.isBlank c)
        = true := by
      cases op <;> rfl
    have both := List.all_eq_true.1 all word known
    rw [Bool.and_eq_true, Bool.not_eq_true', List.isEmpty_eq_false_iff] at both
    exact solid_of_all both.1 both.2
  | opening | closing => exact solid_of_all (List.cons_ne_nil _ _) rfl

/-! ### Reading words -/

/-- Words after other words. -/
def following (words : List (List Char)) : List Char :=
  words.flatMap (' ' :: ·)

theorem apart_following (words : List (List Char)) : Apart (following words) := by
  cases words with
  | nil =>
    intro c first
    cases first
  | cons w words =>
    intro c first
    exact (Option.some.inj first).symm

theorem intercalate_cons (word : List Char) (words : List (List Char)) :
    [' '].intercalate (word :: words) = word ++ following words := by
  induction words generalizing word with
  | nil => simp [following]
  | cons w words ih =>
    rw [List.intercalate_cons_cons, ih]
    simp [following]

theorem tokensFrom_word {size fuel : Nat} {s rest word : List Char} {token : Token}
    (spells : Spells token word) (apart : Apart rest) (trimmed : Text.trimLeft s = word ++ rest) :
    tokensFrom size (fuel + 1) s = (tokensFrom size fuel rest).map (token :: ·) := by
  obtain ⟨lexeme, scanned, meaning⟩ := spells.scans rest apart
  have nonempty : s.isEmpty = false := by
    cases s with
    | nil =>
      have := spells.solid.nonempty
      simp_all [Text.trimLeft]
    | cons c s => rfl
  rw [tokensFrom, nonempty, trimmed, scanned]
  simp only [Bool.false_eq_true, if_false, meaning]
  cases tokensFrom size fuel rest <;> rfl

theorem Spells.trimLeft_append {token : Token} {word : List Char} (spells : Spells token word)
    (rest : List Char) : Text.trimLeft (word ++ rest) = word ++ rest := by
  apply Text.trimLeft_eq_self
  intro c first
  rw [List.head?_append_of_ne_nil _ spells.solid.nonempty] at first
  exact spells.solid.first c first

/-- Reading the words that follow others. -/
theorem tokensFrom_following {tokens : List Token} {words : List (List Char)}
    (spelled : List.Forall₂ Spells tokens words) (size : Nat) {fuel : Nat}
    (enough : (following words).length ≤ fuel) :
    tokensFrom size fuel (following words) = .ok tokens := by
  induction spelled generalizing fuel with
  | nil => cases fuel <;> rfl
  | @cons token word tokens words spells rest ih =>
    have split : following (word :: words) = ' ' :: word ++ following words := rfl
    have trimmed : Text.trimLeft (following (word :: words)) = word ++ following words :=
      spells.trimLeft_append _
    rw [split, List.cons_append, List.length_cons, List.length_append] at enough
    cases fuel with
    | zero => omega
    | succ fuel =>
      rw [tokensFrom_word spells (apart_following words) trimmed, ih (by omega)]
      rfl

theorem Solid.trimLeft {s : List Char} (solid : Solid s) : Text.trimLeft s = s :=
  Text.trimLeft_eq_self solid.first

theorem Solid.trimRight {s : List Char} (solid : Solid s) : Text.trimRight s = s := by
  have reversed : Text.trimLeft s.reverse = s.reverse := by
    apply Text.trimLeft_eq_self
    intro c first
    exact solid.last c (by simpa using first)
  rw [Text.trimRight]
  change (Text.trimLeft s.reverse).reverse = s
  rw [reversed, List.reverse_reverse]

theorem Solid.append {s word : List Char} (solid : Solid s) (more : Solid word) :
    Solid (s ++ ' ' :: word) := by
  constructor
  · simp
  · intro c first
    rw [List.head?_append_of_ne_nil _ solid.nonempty] at first
    exact solid.first c first
  · intro c last
    rw [List.getLast?_append_of_ne_nil _ (by simp), List.getLast?_cons_of_ne_nil more.nonempty]
      at last
    exact more.last c last

theorem Solid.following {s : List Char} (solid : Solid s) {words : List (List Char)}
    (all : ∀ word ∈ words, Solid word) : Solid (s ++ following words) := by
  induction words generalizing s with
  | nil => simpa [Expression.following] using solid
  | cons word words ih =>
    obtain ⟨first, rest⟩ := List.forall_mem_cons.1 all
    have := ih (solid.append first) rest
    simpa [Expression.following] using this

theorem solid_of_spelled {tokens : List Token} {words : List (List Char)}
    (spelled : List.Forall₂ Spells tokens words) : ∀ word ∈ words, Solid word := by
  induction spelled with
  | nil => simp
  | cons spells _ ih => exact List.forall_mem_cons.2 ⟨spells.solid, ih⟩

/-- Reading the text of a list of words gives the tokens that they spell. -/
theorem tokenize_spaced {token : Token} {tokens : List Token} {words : List (List Char)}
    (spelled : List.Forall₂ Spells (token :: tokens) words) :
    tokenize (spaced words) = .ok (token :: tokens) := by
  obtain ⟨word, more, spells, rest, rfl⟩ := List.forall₂_cons_left_iff.1 spelled
  have solid := spells.solid.following (solid_of_spelled rest)
  rw [tokenize, spaced, String.toList_ofList, intercalate_cons, solid.trimRight]
  have positive : 0 < word.length := List.length_pos_of_ne_nil spells.solid.nonempty
  obtain ⟨fuel, size⟩ : ∃ fuel, (word ++ following more).length = fuel + 1 :=
    ⟨_, (Nat.succ_pred_eq_of_pos (by rw [List.length_append]; omega)).symm⟩
  rw [List.length_append] at size
  rw [List.length_append, size,
    tokensFrom_word spells (apart_following more) (spells.trimLeft_append _),
    tokensFrom_following rest _ (by omega)]
  rfl

theorem trimString_spaced {token : Token} {tokens : List Token} {words : List (List Char)}
    (spelled : List.Forall₂ Spells (token :: tokens) words) :
    spaced words ≠ "" ∧ Text.trimString (spaced words) = spaced words := by
  obtain ⟨word, more, spells, rest, rfl⟩ := List.forall₂_cons_left_iff.1 spelled
  have solid := spells.solid.following (solid_of_spelled rest)
  rw [Text.trimString, Text.trim, spaced, String.toList_ofList, intercalate_cons, solid.trimLeft,
    solid.trimRight]
  refine ⟨?_, rfl⟩
  intro empty
  exact solid.nonempty (by simpa using congrArg String.toList empty)

/-- Reading a text that writes a tree. -/
theorem parse_of_written {t : Tree} {source : String} (written : t.Written source) :
    parse source = .ok ⟨source, t.steps⟩ := by
  obtain ⟨tokens, words, reads, spelled, rfl⟩ := written
  cases tokens with
  | nil => cases toPostfix_reads reads
  | cons token tokens =>
    obtain ⟨nonempty, trimmed⟩ := trimString_spaced spelled
    rw [parse, trimmed, if_neg nonempty, tokenize_spaced spelled]
    simp only [bind, Except.bind, toPostfix_reads reads]
    rfl

/-- **The value of a tree.** Every tree has a text with no more brackets than it needs; that text,
and every other that writes the tree, is read as an expression, which in every environment has the
value of the tree or fails as the tree does. -/
theorem evaluate_written (t : Tree) :
    t.Written t.source ∧ ∀ source, t.Written source →
      ∃ e, parse source = .ok e ∧ e.source = source ∧ ∀ env, e.evaluate env = t.evaluate env :=
  ⟨t.written_source, fun source written =>
    ⟨_, parse_of_written written, rfl, fun env => t.evaluate_steps env source⟩⟩

/-- The minus needs no brackets, the sum does. -/
example :
    (Tree.binary .mul rfl (.unary .neg rfl (.literal (.whole 2 (by decide))))
      (.binary .add rfl (.named ⟨"n", by decide, by decide⟩)
        (.literal (.whole 1 (by decide))))).source = "- 2 * ( \x7bn\x7d + 1 )" := by
  decide +kernel

end Colloquy.Expression
