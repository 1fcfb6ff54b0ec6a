import Colloquy.Proofs.Expression.Acceptance
import Colloquy.Proofs.Expression.Lexemes
import Colloquy.Proofs.Text.Trim
import Colloquy.Script.Statement
/-!
# Splitting arguments that were joined

An event keeps its arguments in one text, which is split where commas stand outside quotes and
brackets. Expressions are cut into lexemes by other rules; but lexeme by lexeme the two agree on
where quotes end and which brackets are open. An expression that is read has no comma outside
quotes, and as many brackets close in it as open, so arguments that are read one by one come out as
they went in.
-/

namespace Colloquy

namespace Expression

/-- The brackets that are open after a token and were not before it. -/
def Token.opened : Token → Int
  | .opening => 1
  | .closing => -1
  | _ => 0

/-- The same of a lexeme. -/
def Lexeme.opened : Lexeme → Int
  | .symbol token => token.opened
  | _ => 0

theorem Lexeme.Means.opened {lexeme : Lexeme} {token : Token} (meant : lexeme.Means token) :
    token.opened = lexeme.opened := by
  cases meant <;> rfl

theorem Stance.depth_take {p q : Stance} {token : Token} (taken : p.take token = some q) :
    (q.depth : Int) = p.depth + token.opened := by
  cases token with
  | literal v | «variable» name =>
    simp only [take, Option.ite_none_right_eq_some] at taken
    obtain ⟨_, ⟨⟩⟩ := taken
    simp [Token.opened]
  | opening =>
    cases taken
    simp [Token.opened]
  | closing =>
    simp only [take, Option.ite_none_left_eq_some] at taken
    obtain ⟨some, ⟨⟩⟩ := taken
    simp only [Token.opened]
    omega
  | operator op =>
    have same : q.depth = p.depth := by
      simp only [take] at taken
      repeat' split at taken
      all_goals cases taken
      all_goals rfl
    simp [same, Token.opened]

/-- How many more brackets lexemes open than they close. -/
def openedBy : List Token → Int
  | [] => 0
  | token :: rest => token.opened + openedBy rest

theorem Stance.depth_foldlM {p q : Stance} {tokens : List Token}
    (taken : tokens.foldlM Stance.take p = some q) :
    (q.depth : Int) = p.depth + openedBy tokens := by
  induction tokens generalizing p with
  | nil =>
    cases taken
    exact (Int.add_zero _).symm
  | cons token rest ih =>
    obtain ⟨between, first, later⟩ := Option.bind_eq_some_iff.1 taken
    rw [ih later, Stance.depth_take first, openedBy, Int.add_assoc]

/-- As many brackets close in what is read as open. -/
theorem opened_of_toPostfix {tokens : List Token} {steps : List Step}
    (sorted : toPostfix tokens = .ok steps) : openedBy tokens = 0 := by
  have taken := Stance.depth_foldlM ((toPostfix_isOk tokens).1 ⟨steps, sorted⟩)
  simpa using taken.symm

end Expression

namespace Script

open Expression

/-- Characters that mean something where arguments are split. -/
def signs : List Char :=
  ['"', '(', ')', '\x7b', '\x7d', ',']

/-- Splitting goes through a text without stopping: `before` brackets are open before it, and
`after` behind it. -/
def Passes (before : Int) (text : List Char) (after : Int) : Prop :=
  ∀ current rest, argumentsFrom current before false (text ++ rest)
    = argumentsFrom (text.reverse ++ current) after false rest

theorem argumentsFrom_outside (current : List Char) (depth : Int) (c : Char) (rest : List Char) :
    argumentsFrom current depth false (c :: rest) =
      if c = '"' then argumentsFrom (c :: current) depth true rest
      else if c = '(' || c = '\x7b' then argumentsFrom (c :: current) (depth + 1) false rest
      else if c = ')' || c = '\x7d' then argumentsFrom (c :: current) (depth - 1) false rest
      else if c = ',' && depth = 0 then current.reverse :: argumentsFrom [] depth false rest
      else argumentsFrom (c :: current) depth false rest := by
  rw [argumentsFrom.eq_def]
  rfl

theorem argumentsFrom_inside (current : List Char) (depth : Int) {c : Char} (rest : List Char)
    (plain : c ≠ '\\') : argumentsFrom current depth true (c :: rest)
      = argumentsFrom (c :: current) depth (c ≠ '"') rest := by
  rw [argumentsFrom.eq_def]
  simp [plain]

/-- Inside quotes a backslash protects the character after it. -/
theorem argumentsFrom_protected (current : List Char) (depth : Int) (c : Char) (rest : List Char) :
    argumentsFrom current depth true ('\\' :: c :: rest)
      = argumentsFrom (c :: '\\' :: current) depth true rest := by
  rw [argumentsFrom.eq_def]
  rfl

namespace Passes

variable {a b c : Int} {s t : List Char}

theorem nil (a : Int) : Passes a [] a :=
  fun _ _ => rfl

theorem append (first : Passes a s b) (second : Passes b t c) : Passes a (s ++ t) c := by
  intro current rest
  rw [List.append_assoc, first, second, List.reverse_append, List.append_assoc]

theorem cons {x : Char} (first : Passes a [x] b) (second : Passes b t c) : Passes a (x :: t) c :=
  first.append second

/-- A character that means nothing is passed. -/
theorem single {x : Char} (a : Int) (plain : x ∉ signs) : Passes a [x] a := by
  intro current rest
  simp only [signs, List.mem_cons, List.not_mem_nil, or_false, not_or] at plain
  obtain ⟨quote, opening, closing, brace, unbrace, comma⟩ := plain
  rw [List.singleton_append, argumentsFrom_outside]
  simp [quote, opening, closing, brace, unbrace, comma]

theorem plain (a : Int) (all : ∀ x ∈ s, x ∉ signs) : Passes a s a := by
  induction s with
  | nil => exact nil a
  | cons x rest ih =>
    obtain ⟨first, others⟩ := List.forall_mem_cons.1 all
    exact cons (single a first) (ih others)

/-- Characters of a class that has no sign in it are passed. -/
theorem ofClass {p : Char → Bool} (a : Int) (apart : signs.all (!p ·) = true)
    (all : ∀ x ∈ s, p x = true) : Passes a s a := by
  refine plain a fun x member sign => ?_
  have other := List.all_eq_true.1 apart x sign
  rw [all x member] at other
  cases other

theorem opening (a : Int) {x : Char} (bracket : x = '(' ∨ x = '\x7b') : Passes a [x] (a + 1) := by
  intro current rest
  obtain rfl | rfl := bracket <;> exact argumentsFrom_outside ..

theorem closing (a : Int) {x : Char} (bracket : x = ')' ∨ x = '\x7d') : Passes a [x] (a - 1) := by
  intro current rest
  obtain rfl | rfl := bracket <;> exact argumentsFrom_outside ..

end Passes

/-! ### Lexemes -/

/-- Inside quotes splitting skips what a backslash protects, and stops at the quote that closes. -/
theorem protected_passes {inner : List Char} (inside : Protected inner) (current : List Char)
    (depth : Int) (rest : List Char) :
    argumentsFrom current depth true (inner ++ '"' :: rest)
      = argumentsFrom ('"' :: inner.reverse ++ current) depth false rest := by
  induction inside generalizing current with
  | nil => exact argumentsFrom_inside current depth rest (by decide)
  | plain quote slash _ ih =>
    rw [List.cons_append, argumentsFrom_inside _ _ _ slash, decide_eq_true quote, ih]
    simp
  | behind c _ ih =>
    rw [List.cons_append, List.cons_append, argumentsFrom_protected, ih]
    simp

/-- Every lexeme is passed as a whole. -/
theorem form_passes {lexeme : Lexeme} {piece : List Char} (form : lexeme.Form piece)
    (depth : Int) : Passes depth piece (depth + lexeme.opened) := by
  have level : depth + 0 = depth := Int.add_zero depth
  cases form with
  | whole some all => exact level.symm ▸ .ofClass depth (by decide) all
  | @decimal digits places all after =>
    have point : Passes depth ['.'] depth := .single depth (by decide)
    have parts := (Passes.ofClass depth (by decide) all).append
      (point.append (.ofClass depth (by decide) after))
    exact level.symm ▸ parts
  | @text inner content inside =>
    intro current rest
    rw [List.append_assoc, List.cons_append, argumentsFrom_outside, if_pos rfl,
      List.singleton_append, protected_passes inside]
    simp [Lexeme.opened]
  | @named left name right front some all back =>
    -- the braces close and open what is between them: blanks, a name, and blanks again
    have close : Passes (depth + 1) ['\x7d'] (depth + 1 - 1) := .closing _ (.inr rfl)
    rw [Int.add_sub_cancel] at close
    have blanks {t : List Char} (all : ∀ c ∈ t, Text.isBlank c = true) :
        Passes (depth + 1) t (depth + 1) := .ofClass _ (by decide) all
    have letters : Passes (depth + 1) name (depth + 1) := .ofClass _ (by decide) all
    have inner := (blanks front).append (letters.append ((blanks back).append close))
    exact level.symm ▸ .cons (.opening depth (.inr rfl)) inner
  | operator op some all =>
    have apart : ∀ c ∈ operatorSigns, c ∉ signs := by simp [operatorSigns, signs]
    exact level.symm ▸ .plain depth fun c member => apart c (all c member)
  | opening => exact .opening depth (.inl rfl)
  | closing => exact .closing depth (.inl rfl)
  | @word c rest first all =>
    have letter : Passes depth [c] depth :=
      .ofClass (p := startsWord) depth (by decide) (by simpa using first)
    exact level.symm ▸ .cons letter (.ofClass depth (by decide) all)

/-- Splitting goes through what is cut into tokens, whose brackets count as its own. -/
theorem cutInto_passes {tokens : List Token} {s : List Char} (cut : CutInto tokens s)
    (depth : Int) : Passes depth s (depth + openedBy tokens) := by
  induction cut generalizing depth with
  | nil => simpa [openedBy] using Passes.nil depth
  | cons blank form meant _ ih =>
    rw [openedBy, ← Int.add_assoc, meant.opened]
    have front := Passes.ofClass depth (by decide) blank
    exact front.append ((form_passes form depth).append (ih _))

/-! ### Expressions as arguments -/

/-- In an expression that is read every quote is closed and every bracket, and no comma stands
outside them. -/
theorem passes_of_parse {text : List Char} {e : Expression}
    (read : parse (String.ofList text) = .ok e) (trimmed : Text.trim text = text) :
    Passes 0 text 0 := by
  have same : Text.trimString (String.ofList text) = String.ofList text := by
    simp [Text.trimString, trimmed]
  unfold parse at read
  simp only [same] at read
  split at read
  · cases read
  · obtain ⟨tokens, cut, read⟩ := bind_eq_ok.1 read
    split at read
    next steps sorted =>
      have passes := cutInto_passes (cutInto_of_tokenize cut) 0
      rw [String.toList_ofList, Text.trimRight_of_trim trimmed] at passes
      rw [opened_of_toPostfix sorted] at passes
      exact passes
    · cases read

/-- Texts with a comma and a space between them. -/
def joined (args : List (List Char)) : List Char :=
  [',', ' '].intercalate args

theorem joined_cons (first second : List Char) (others : List (List Char)) :
    joined (first :: second :: others) = first ++ ',' :: ' ' :: joined (second :: others) := by
  simp [joined]

/-- Splitting stops at the commas between texts that it goes through, and nowhere else. -/
theorem argumentsFrom_joined {first : List Char} {others : List (List Char)}
    (pass : ∀ arg ∈ first :: others, Passes 0 arg 0) (current : List Char) :
    argumentsFrom current 0 false (joined (first :: others))
      = (current.reverse ++ first) :: others.map (' ' :: ·) := by
  induction others generalizing first current with
  | nil =>
    have passed := pass first (List.mem_cons_self ..) current []
    simpa [joined, argumentsFrom] using passed
  | cons second others ih =>
    obtain ⟨now, later⟩ := List.forall_mem_cons.1 pass
    have comma : argumentsFrom (first.reverse ++ current) 0 false
        (',' :: ' ' :: joined (second :: others))
          = (first.reverse ++ current).reverse
            :: argumentsFrom [' '] 0 false (joined (second :: others)) := by
      have space := argumentsFrom_outside [] 0 ' ' (joined (second :: others))
      rw [argumentsFrom_outside]
      simpa using space
    rw [joined_cons, now, comma, ih later]
    simp

/-- Joined texts end as the last of them does. -/
theorem trimRight_joined {args : List (List Char)} (filled : ∀ arg ∈ args, arg ≠ [])
    (trimmed : ∀ arg ∈ args, Text.trim arg = arg) :
    Text.trimRight (joined args) = joined args := by
  induction args with
  | nil => rfl
  | cons first others ih =>
    obtain ⟨_, filled⟩ := List.forall_mem_cons.1 filled
    obtain ⟨solid, trimmed⟩ := List.forall_mem_cons.1 trimmed
    cases others with
    | nil => simpa [joined] using Text.trimRight_of_trim solid
    | cons second others =>
      have rest := ih filled trimmed
      have some : joined (second :: others) ≠ [] := by
        have solid := filled second (List.mem_cons_self ..)
        cases others <;> simp [joined, solid]
      have cut : joined (first :: second :: others)
          = (first ++ [',', ' ']) ++ joined (second :: others) := by
        rw [joined_cons, List.append_assoc]
        rfl
      rw [cut, Text.trimRight_append _ (by rw [rest]; exact some), rest]

/-- Between trimmed texts there are commas and spaces, but none around them. -/
theorem trim_joined {args : List (List Char)} (filled : ∀ arg ∈ args, arg ≠ [])
    (trimmed : ∀ arg ∈ args, Text.trim arg = arg) : Text.trim (joined args) = joined args := by
  cases args with
  | nil => rfl
  | cons first others =>
    have starts : Text.trimLeft (joined (first :: others)) = joined (first :: others) := by
      refine Text.trimLeft_eq_self fun c head => ?_
      have some := filled first (List.mem_cons_self ..)
      have same : (joined (first :: others)).head? = first.head? := by
        cases others with
        | nil => simp [joined]
        | cons second others => simp [joined, List.head?_append_of_ne_nil _ some]
      rw [same] at head
      exact Text.isBlank_of_trim (trimmed first (List.mem_cons_self ..)) head
    rw [Text.trim, starts, trimRight_joined filled trimmed]

/-- Arguments that are read one by one are found again when they have been joined. -/
theorem arguments_joined {args : List (List Char)} (filled : ∀ arg ∈ args, arg ≠ [])
    (trimmed : ∀ arg ∈ args, Text.trim arg = arg) (pass : ∀ arg ∈ args, Passes 0 arg 0) :
    arguments (joined args) = args := by
  cases args with
  | nil => rfl
  | cons first others =>
    have same : ((first :: others.map (' ' :: ·)).map Text.trim) = first :: others := by
      have spaced : (others.map (' ' :: ·)).map Text.trim = others := by
        rw [List.map_map]
        conv_rhs => rw [← List.map_id others]
        refine List.map_congr_left fun arg member => ?_
        exact trimmed arg (List.mem_cons_of_mem _ member)
      rw [List.map_cons, spaced, trimmed first (List.mem_cons_self ..)]
    unfold arguments
    rw [argumentsFrom_joined pass, List.reverse_nil, List.nil_append, same]
    split
    next alone =>
      cases alone
      exact absurd rfl (filled [] (List.mem_cons_self ..))
    · rfl

end Script

end Colloquy
