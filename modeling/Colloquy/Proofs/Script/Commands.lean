import Colloquy.Proofs.Expression.Spelling
import Colloquy.Proofs.Script.Arguments
import Colloquy.Proofs.Script.Sources
import Colloquy.Proofs.Script.Totality
import Mathlib.Data.Bool.AllAny
/-!
# Commands read as they are written

An event line gives one node with its name and its arguments, and a set line one with its variable
and its expression, whatever stands around them in the script. A set line without an expression is
refused, unless its name ends in a digit: that digit is taken for the expression.
-/

namespace Colloquy

/-- Whether a node publishes an event with some arguments. -/
def Node.Publishes (name : String) (args : List String) (n : Node) : Prop :=
  n.kind = .event ∧ n.eventName = name ∧ n.eventArgs.map Expression.source = args

/-- Whether a node sets a variable to an expression. -/
def Node.Assigns (name source : String) (n : Node) : Prop :=
  n.kind = .setVariable ∧ n.identifier = name ∧ n.expression.map Expression.source = some source

/-- Whether a text is an expression and can stand within a line as it is. -/
structure Expression.Inline (text : String) : Prop where
  read : ∃ e, parse text = .ok e
  trimmed : Text.trim text.toList = text.toList
  unbroken : ∀ c ∈ text.toList, c ≠ '\t' ∧ Text.endsLine c = false

namespace Expression.Inline

variable {text : String}

theorem of_isSome (ok : (parse text).toOption.isSome = true)
    (trimmed : Text.trim text.toList = text.toList)
    (unbroken : ∀ c ∈ text.toList, c ≠ '\t' ∧ Text.endsLine c = false) : Inline text := by
  refine ⟨?_, trimmed, unbroken⟩
  cases parsed : parse text with
  | ok e => exact ⟨e, rfl⟩
  | error => simp [parsed, Except.toOption] at ok

theorem filled (inline : Inline text) : text.toList ≠ [] := by
  intro empty
  obtain ⟨e, read⟩ := inline.read
  have nothing : text = "" := String.toList_eq_nil_iff.1 empty
  rw [nothing] at read
  exact (readable_of_parse read).source_ne_empty (source_of_parse read)

theorem source (inline : Inline text) {e : Expression} (read : parse text = .ok e) :
    e.source = text := by
  rw [source_of_parse read, Text.trimString, inline.trimmed, String.ofList_toList]

theorem passes (inline : Inline text) : Script.Passes 0 text.toList 0 := by
  obtain ⟨e, read⟩ := inline.read
  rw [← String.ofList_toList (s := text)] at read
  exact Script.passes_of_parse read inline.trimmed

/-- No expression begins with a sign of equality. -/
theorem no_equality (inline : Inline text) {rest : List Char} : text.toList ≠ '=' :: rest := by
  intro begins
  obtain ⟨e, read⟩ := inline.read
  have same : Text.trimString text = text := by
    rw [Text.trimString, inline.trimmed, String.ofList_toList]
  unfold parse at read
  simp only [same] at read
  split at read
  · cases read
  · obtain ⟨tokens, cut, read⟩ := bind_eq_ok.1 read
    -- the first token is an operator with nothing before it
    have first : ∃ others, tokens = .operator .eq :: others := by
      rw [tokenize, Text.trimRight_of_trim inline.trimmed, begins, List.length_cons, tokensFrom]
        at cut
      have scanned : ∃ tail,
          scanLexeme (Text.trimLeft ('=' :: rest)) = some (.symbol (.operator .eq), tail) := by
        cases rest with
        | nil => exact ⟨_, rfl⟩
        | cons c tail =>
          by_cases double : c = '='
          · subst double
            exact ⟨_, rfl⟩
          · refine ⟨c :: tail, ?_⟩
            change (scanSymbol ('=' :: c :: tail)).map _ = _
            have single : scanSymbol ('=' :: c :: tail) = some (.operator .eq, c :: tail) := by
              unfold scanSymbol
              split <;> simp_all
            rw [single]
            rfl
      obtain ⟨tail, scanned⟩ := scanned
      rw [scanned] at cut
      obtain ⟨token, meant, cut⟩ := bind_eq_ok.1 cut
      obtain ⟨others, _, equal⟩ := bind_eq_ok.1 cut
      cases meant
      cases equal
      exact ⟨others, rfl⟩
    obtain ⟨others, rfl⟩ := first
    cases read

end Expression.Inline

namespace Expression

theorem scanNumber_lone {c : Char} (other : Text.isDigit c = false) : scanNumber [c] = none := by
  unfold scanNumber
  by_cases point : c = '.'
  · subst point
    rfl
  · simp [other, point]

/-- A character of a name that is no digit begins no expression. -/
theorem tokensFrom_lone {c : Char} (dotted : Text.isDotted c = true)
    (other : Text.isDigit c = false) : ∃ fault, tokensFrom 1 1 [c] = .error (.rejected fault) := by
  have starts : Text.trimLeft [c] = [c] :=
    Text.trimLeft_eq_self fun x first => by
      cases first
      exact isBlank_of_isDotted dotted
  -- no sign of an expression can stand in a name
  have apart :
      ∀ x ∈ ['"', '\x7b', '-', '+', '*', '/', '%', '<', '>', '!', '=', '(', ')'], c ≠ x := by
    have plain : ∀ x ∈ ['"', '\x7b', '-', '+', '*', '/', '%', '<', '>', '!', '=', '(', ')'],
        Text.isDotted x = false := List.all_iff_forall_prop.1 (by decide)
    rintro x member rfl
    rw [plain c member] at dotted
    cases dotted
  simp only [List.forall_mem_cons] at apart
  obtain ⟨quote, brace, apart⟩ := apart
  have scanned : scanLexeme [c] = if startsWord c then some (.word [c], []) else none := by
    unfold scanLexeme
    rw [scanNumber_lone other]
    have symbol : scanSymbol [c] = none := by
      unfold scanSymbol
      split <;> simp_all
    split
    · contradiction
    · split <;> simp_all
  rw [tokensFrom, List.isEmpty_cons, if_neg Bool.false_ne_true, starts, scanned]
  -- a letter alone is no word of an expression
  by_cases letter : startsWord c = true
  · have unknown : wordToken? (String.ofList [c.toLower]) = none := by
      unfold wordToken?
      split
      all_goals first
        | rfl
        | next same => exact absurd (congrArg (·.toList.length) same) (by simp)
    refine ⟨.unknownWord (String.ofList [c]), ?_⟩
    rw [if_pos letter]
    change (do let token ← Lexeme.token (.word [c]); _) = _
    rw [Lexeme.token, List.map_singleton, unknown]
    rfl
  · rw [if_neg letter]
    exact ⟨_, rfl⟩

/-- A single character of a name is an expression if it is a digit, and else none. -/
theorem parse_lone {c : Char} (dotted : Text.isDotted c = true) :
    if Text.isDigit c then ∃ e, parse (String.ofList [c]) = .ok e ∧ e.source = String.ofList [c]
    else ∃ fault, parse (String.ofList [c]) = .error (.rejected fault) := by
  have solid := isBlank_of_isDotted dotted
  have trimmed : Text.trim [c] = [c] := by
    simp [Text.trim, Text.trimLeft, Text.trimRight, solid]
  have same : Text.trimString (String.ofList [c]) = String.ofList [c] := by
    rw [Text.trimString, String.toList_ofList, trimmed]
  have filled : String.ofList [c] ≠ "" := Script.ofList_ne_empty (List.cons_ne_nil _ _)
  have cut : tokenize (String.ofList [c]) = tokensFrom 1 1 [c] := by
    rw [tokenize, String.toList_ofList, Text.trimRight_of_trim trimmed]
    rfl
  split
  next digit =>
    have scanned : scanLexeme [c] = some (.whole [c], []) := by
      simp [scanLexeme, scanNumber, digit]
    have tokens : tokensFrom 1 1 [c] = .ok [.literal (.int (Text.numeralValue [c]))] := by
      rw [tokensFrom, List.isEmpty_cons, if_neg Bool.false_ne_true, Text.trimLeft_of_trim trimmed,
        scanned]
      rfl
    have read : parse (String.ofList [c])
        = .ok ⟨String.ofList [c], [.push (.int (Text.numeralValue [c]))]⟩ := by
      unfold parse
      simp only [same, if_neg filled, cut, tokens]
      rfl
    exact ⟨_, read, rfl⟩
  next other =>
    obtain ⟨fault, failed⟩ := tokensFrom_lone dotted (Bool.eq_false_iff.2 other)
    refine ⟨fault, ?_⟩
    unfold parse
    simp only [same, if_neg filled, cut, failed]
    rfl

end Expression

namespace Script

open Expression (Inline)
open Outline (Point)

/-! ### Statements of commands -/

/-- A text that begins with the keyword of an event is no other command. -/
theorem command?_event (rest : List Char) :
    command? ('e' :: 'v' :: 'e' :: 'n' :: 't' :: rest)
      = (namedOperand? rest).map fun r =>
        .event (String.ofList r.1) (String.ofList (Text.trim r.2)) := by
  generalize whole : 'e' :: 'v' :: 'e' :: 'n' :: 't' :: rest = s
  have noIf : afterKeyword? ['i', 'f'] s = none := by rw [← whole]; rfl
  have noElse : afterKeyword? ['e', 'l', 's', 'e'] s = none := by rw [← whole]; rfl
  have noElseIf : afterKeywords? ['e', 'l', 's', 'e'] ['i', 'f'] s = none := by rw [← whole]; rfl
  have noEndIf : afterKeywords? ['e', 'n', 'd'] ['i', 'f'] s = none := by rw [← whole]; rfl
  have noGoto : afterKeywords? ['g', 'o'] ['t', 'o'] s = none := by rw [← whole]; rfl
  have noSet : afterKeyword? ['s', 'e', 't'] s = none := by rw [← whole]; rfl
  have event : afterKeyword? ['e', 'v', 'e', 'n', 't'] s = some rest := by rw [← whole]; rfl
  unfold command?
  simp only [noIf, noElse, noElseIf, noEndIf, noGoto, noSet, event, Option.bind_none,
    Option.bind_some, Option.map_none, reduceCtorEq, if_false]
  cases namedOperand? rest <;> rfl

/-- A text that begins with the keyword of an assignment is no other command. -/
theorem command?_set (rest : List Char) :
    command? ('s' :: 'e' :: 't' :: rest)
      = (splitAssignment? rest).map fun r => .assign (String.ofList r.1) (String.ofList r.2) := by
  generalize whole : 's' :: 'e' :: 't' :: rest = s
  have noIf : afterKeyword? ['i', 'f'] s = none := by rw [← whole]; rfl
  have noElse : afterKeyword? ['e', 'l', 's', 'e'] s = none := by rw [← whole]; rfl
  have noElseIf : afterKeywords? ['e', 'l', 's', 'e'] ['i', 'f'] s = none := by rw [← whole]; rfl
  have noEndIf : afterKeywords? ['e', 'n', 'd'] ['i', 'f'] s = none := by rw [← whole]; rfl
  have noGoto : afterKeywords? ['g', 'o'] ['t', 'o'] s = none := by rw [← whole]; rfl
  have noEvent : afterKeyword? ['e', 'v', 'e', 'n', 't'] s = none := by rw [← whole]; rfl
  have set : afterKeyword? ['s', 'e', 't'] s = some rest := by rw [← whole]; rfl
  unfold command?
  simp only [noIf, noElse, noElseIf, noEndIf, noGoto, noEvent, set, Option.bind_none,
    Option.bind_some, Option.map_none, reduceCtorEq, if_false]
  cases splitAssignment? rest <;> rfl

theorem read_bracketed {inner : List Char} {c : Statement} (known : command? inner = some c) :
    Statement.read (bracketed inner) = c := by
  have found : (bracketed? (bracketed inner)).bind command? = some c := by
    rw [bracketed?_bracketed, Option.bind_some, known]
  unfold Statement.read
  rw [found]
  rfl

theorem read_unknown {inner : List Char} (none : command? inner = none) :
    Statement.read (bracketed inner) = .unknown (String.ofList (bracketed inner)) := by
  have found : (bracketed? (bracketed inner)).bind command? = Option.none := by
    rw [bracketed?_bracketed, Option.bind_some, none]
  unfold Statement.read
  rw [found]
  rfl

/-- A name is found between a space and what is no part of a name. -/
theorem namedOperand?_space {name rest : List Char} (filled : name ≠ [])
    (dotted : ∀ c ∈ name, Text.isDotted c = true)
    (ends : ∀ c, rest.head? = some c → Text.isDotted c = false) :
    namedOperand? (' ' :: (name ++ rest)) = some (name, rest) := by
  have starts : Text.trimLeft (name ++ rest) = name ++ rest := by
    refine Text.trimLeft_eq_self fun c first => ?_
    rw [List.head?_append_of_ne_nil _ filled] at first
    exact Expression.isBlank_of_isDotted (dotted c (List.mem_of_mem_head? first))
  have body : operand? (' ' :: (name ++ rest)) = some (name ++ rest) := by
    have space : Text.isBlank ' ' = true := by decide
    rw [operand?, if_pos space, starts]
    cases name with
    | nil => exact absurd rfl filled
    | cons c tail => rfl
  have taken : (name ++ rest).takeWhile Text.isDotted = name := by
    rw [List.takeWhile_append_of_pos dotted]
    cases rest with
    | nil => simp
    | cons c tail => simp [ends c rfl]
  have left : (name ++ rest).dropWhile Text.isDotted = rest := by
    rw [List.dropWhile_append_of_pos dotted]
    cases rest with
    | nil => rfl
    | cons c tail => simp [ends c rfl]
  rw [namedOperand?, body]
  change (if (List.takeWhile Text.isDotted (name ++ rest)).isEmpty then none
    else some (List.takeWhile Text.isDotted (name ++ rest),
      List.dropWhile Text.isDotted (name ++ rest))) = _
  rw [taken, left, if_neg (by simpa using filled)]

/-! ### Nodes of commands -/

/-- Whether a command makes one node: alone in a script, and wherever it stands in a body. -/
structure MakesNode (inner : List Char) (p : Node → Prop) : Prop where
  alone : ∀ s name, ∃ c g n, compile s name (String.ofList (bracketed inner)) = .ok c
    ∧ c.graph = some g ∧ g.nodes = [n] ∧ p n
  inside : ∀ s name text c g number, compile s name text = .ok c → c.graph = some g →
    Stands s text number (bracketed inner) →
      ∃ n, g.nodes.filter (·.line = .ofNat number) = [n] ∧ p n

/-- Whether a command is refused with an error and makes no node: alone in a script, which compiles,
and wherever it stands in the body of one. -/
structure Refused (inner : List Char) : Prop where
  alone : ∀ s name, ∃ c g, compile s name (String.ofList (bracketed inner)) = .ok c
    ∧ c.graph = some g ∧ g.nodes = [] ∧ ∃ message, Diagnostic.complain 1 message ∈ c.diagnostics
  inside : ∀ s name text c number, compile s name text = .ok c →
    Stands s text number (bracketed inner) →
      (∃ message, Diagnostic.complain number message ∈ c.diagnostics)
        ∧ ∀ g, c.graph = some g → g.nodes.filter (·.line = .ofNat number) = []

theorem linesFrom_unbroken {line text : List Char} (unbroken : ∀ c ∈ text, Text.endsLine c = false)
    (filled : line ≠ [] ∨ text ≠ []) : Text.linesFrom line text = [line.reverse ++ text] := by
  induction text generalizing line with
  | nil =>
    have some : line ≠ [] := filled.resolve_right fun none => none rfl
    simp [Text.linesFrom, some]
  | cons c rest ih =>
    obtain ⟨now, later⟩ := List.forall_mem_cons.1 unbroken
    rw [Text.linesFrom, now, if_neg Bool.false_ne_true, ih later (.inl (List.cons_ne_nil _ _))]
    · simp
    · rintro rest rfl
      cases now

section Alone

variable {inner : List Char} (clean : ∀ c ∈ inner, c ≠ '\t' ∧ Text.endsLine c = false)
  {s : Settings} {name : String}

include clean

theorem lines_bracketed :
    Text.lines (String.ofList (bracketed inner)).toList = [bracketed inner] := by
  have unbroken : ∀ c ∈ bracketed inner, Text.endsLine c = false := by
    intro c member
    simp only [bracketed, List.mem_cons, List.mem_append, List.not_mem_nil, or_false] at member
    obtain rfl | inside | rfl := member
    · decide
    · exact (clean c inside).2
    · decide
  rw [String.toList_ofList]
  exact linesFrom_unbroken unbroken (.inr (List.cons_ne_nil _ _))

theorem scan_alone (tabWidth : Nat) :
    ∃ indent, scan tabWidth 1 (bracketed inner) = .line ⟨1, indent, bracketed inner, ""⟩ := by
  have trimmed : Text.trim (bracketed inner) = bracketed inner := by
    simp [bracketed, Text.trim, Text.trimLeft, Text.trimRight, Text.isBlank]
  exact scan_bracketed tabWidth 1 trimmed fun tab => (clean _ tab).1 rfl

theorem stands_alone : Stands s (String.ofList (bracketed inner)) 1 (bracketed inner) := by
  obtain ⟨indent, scanned⟩ := scan_alone clean s.tabWidth
  refine ⟨⟨⟨1, indent, bracketed inner, ""⟩, ?_, rfl⟩, ?_⟩
  · rw [bodyLines, lines_bracketed clean, bodyFrom, scanned]
    exact List.mem_singleton_self _
  · rw [lines_bracketed clean]
    simp [bracketed, Text.trim, Text.trimLeft, Text.trimRight, Text.isBlank]

/-- A script of one command compiles to a graph, if what is read needs no search. -/
theorem compile_alone {b : Nat → Builder}
    (read : ∀ indent,
      Builder.readBodyLine s {} ⟨1, indent, bracketed inner, ""⟩ [] = .ok (b indent))
    (clear : ∀ indent, refuses s ((b indent).finish 1) = false)
    (few : ∀ indent, (plainNodes s ((b indent).finish 1)).countP (·.kind = .select) = 0) :
    ∃ c g indent, compile s name (String.ofList (bracketed inner)) = .ok c ∧ c.graph = some g
      ∧ g.nodes.length = (plainNodes s ((b indent).finish 1)).length := by
  obtain ⟨indent, scanned⟩ := scan_alone clean s.tabWidth
  have whole : Builder.readScript s (Text.lines (String.ofList (bracketed inner)).toList)
      = .ok ((b indent).finish 1) := by
    have line : Builder.readLine s {} 1 (bracketed inner) [] = .ok (b indent) := by
      rw [Builder.readLine, scanned]
      exact read indent
    rw [Builder.readScript, lines_bracketed clean, Builder.readLines, line]
    rfl
  have linked := linked_of_not_refuses whole (clear indent)
  have searchable := searchable_of_few (plainNodes_rooted linked) (by rw [few]; decide)
  obtain ⟨c, compiled⟩ := (@compile_of_linked s name _ _ whole (clear indent)).1.2 searchable
  have graph : ∃ g, c.graph = some g := by
    have made := compiled
    unfold compile compileWith at made
    rw [whole] at made
    obtain ⟨⟨g, warnings⟩, _, equal⟩ :=
      bind_eq_ok.1 ((if_neg (Bool.eq_false_iff.1 (clear indent))).symm.trans made)
    cases equal
    exact ⟨g, rfl⟩
  obtain ⟨g, graph⟩ := graph
  obtain ⟨b', linked', _, comes⟩ := compile_graph compiled graph
  cases whole.symm.trans linked'.read
  exact ⟨c, g, indent, compiled, graph, comes.nodes.length_eq.symm⟩

/-- A command that is read as a step, and begins one point wherever it stands, makes one node. -/
theorem makesNode_of_step (point : Line → Point) (step : Step) {p : Node → Prop}
    (begins : ∀ l : Line, l.body = bracketed inner → l.Begins [point l])
    (own : ∀ l, (point l).step? = some l)
    (tells : ∀ (l : Line) n, l.body = bracketed inner → l.ToldBy n → p n)
    (read : ∀ s indent, Builder.readBodyLine s {} ⟨1, indent, bracketed inner, ""⟩ []
      = .ok (Builder.append {} ⟨step, 1, indent, [], 0, []⟩ true))
    (kind : step.kind = .event ∨ step.kind = .setVariable) :
    MakesNode inner p := by
  have inside (s : Settings) (name text : String) (c : Compilation) (g : Graph) (number : Nat)
      (compiled : compile s name text = .ok c) (graph : c.graph = some g)
      (stands : Stands s text number (bracketed inner)) :
      ∃ n, g.nodes.filter (·.line = .ofNat number) = [n] ∧ p n := by
    -- the nodes of a graph are told by the points of the outline, and a goto alone leaves none
    obtain ⟨b, linked, _, comes⟩ := compile_graph compiled graph
    obtain ⟨l, member, rfl, body⟩ := stands.line fun tab => (clean _ tab).1 rfl
    have stays : (point l).kind ≠ .goto := by
      intro goto
      have step := own l
      cases isPoint : point l <;> rw [isPoint] at goto step <;> cases goto
      cases step
    obtain ⟨n, place, only, became⟩ := comes.one_node linked member (begins l body) stays
    exact ⟨n, only, tells l n body (became.toldBy (outline_coherent s text) (own l))⟩
  refine ⟨fun s name => ?_, inside⟩
  -- what is read of the command alone is one draft, which leads nowhere
  have lone (indent : Nat) :
      let b := (Builder.append {} ⟨step, 1, indent, [], 0, []⟩ true).finish 1
      refuses s b = false ∧ (plainNodes s b).countP (·.kind = .select) = 0
        ∧ (plainNodes s b).length = 1 := by
    cases step with
    | event | assign => exact ⟨rfl, rfl, rfl⟩
    | text | choice | select | goto => obtain kind | kind := kind <;> cases kind
  obtain ⟨c, g, indent, compiled, graph, count⟩ := @compile_alone _ clean s name _ (read s)
    (fun indent => (lone indent).1) fun indent => (lone indent).2.1
  obtain ⟨n, only, tells⟩ := inside s name _ c g 1 compiled graph (stands_alone clean)
  obtain ⟨m, single⟩ := List.length_eq_one_iff.1 (count.trans (lone indent).2.2)
  have same : m = n := by
    have member : n ∈ g.nodes := (List.mem_filter.1 (only ▸ List.mem_singleton_self n)).1
    rw [single] at member
    exact (List.mem_singleton.1 member).symm
  exact ⟨c, g, n, compiled, graph, same ▸ single, tells⟩

/-- A command that begins nothing and leaves a complaint is refused. -/
theorem refused_of_complaint (message : Nat → String)
    (begins : ∀ l : Line, l.body = bracketed inner → l.Begins [])
    (read : ∀ s (b : Builder) l rest, l.body = bracketed inner →
      b.readBodyLine s l rest
        = .ok ((b.settle l.number l.indent).note (.complain l.number (message l.number)))) :
    Refused inner := by
  have inside (s : Settings) (name text : String) (c : Compilation) (number : Nat)
      (compiled : compile s name text = .ok c) (stands : Stands s text number (bracketed inner)) :
      (∃ message, Diagnostic.complain number message ∈ c.diagnostics)
        ∧ ∀ g, c.graph = some g → g.nodes.filter (·.line = .ofNat number) = [] := by
    obtain ⟨l, member, rfl, body⟩ := stands.line fun tab => (clean _ tab).1 rfl
    refine ⟨⟨message l.number, ?_⟩, fun g graph => ?_⟩
    · refine complaint_of_line compiled member fun b after rest isRead => ?_
      cases (read s b l rest body).symm.trans isRead
      exact List.mem_append_right _ (List.mem_singleton_self _)
    · obtain ⟨b, linked, _, comes⟩ := compile_graph compiled graph
      exact comes.no_node linked member (begins l body)
  refine ⟨fun s name => ?_, inside⟩
  obtain ⟨c, g, _, compiled, graph, count⟩ := @compile_alone _ clean s name
    (fun _ => Builder.note {} (.complain 1 (message 1)))
    (fun indent => read s {} ⟨1, indent, bracketed inner, ""⟩ [] rfl) (fun _ => rfl) fun _ => rfl
  obtain ⟨complaint, _⟩ := inside s name _ c 1 compiled (stands_alone clean)
  exact ⟨c, g, compiled, graph, List.length_eq_zero_iff.1 count, complaint⟩

end Alone

/-! ### Events -/

/-- What stands in the brackets of an event line: its name, some spaces and its arguments. -/
def eventText (name : String) (spaces : Nat) (args : List String) : List Char :=
  'e' :: 'v' :: 'e' :: 'n' :: 't' :: ' ' ::
    (name.toList ++ (List.replicate spaces ' ' ++ joined (args.map String.toList)))

theorem mem_joined {args : List (List Char)} {c : Char} (member : c ∈ joined args) :
    c = ',' ∨ c = ' ' ∨ ∃ arg ∈ args, c ∈ arg := by
  induction args with
  | nil => cases member
  | cons first others ih =>
    cases others with
    | nil => exact .inr (.inr ⟨first, by simp, by simpa [joined] using member⟩)
    | cons second others =>
      rw [joined_cons, List.mem_append, List.mem_cons, List.mem_cons] at member
      obtain own | comma | space | later := member
      · exact .inr (.inr ⟨first, List.mem_cons_self .., own⟩)
      · exact .inl comma
      · exact .inr (.inl space)
      · obtain comma | space | ⟨arg, inside, own⟩ := ih later
        · exact .inl comma
        · exact .inr (.inl space)
        · exact .inr (.inr ⟨arg, List.mem_cons_of_mem _ inside, own⟩)

theorem isBlank_of_endsLine {c : Char} (ends : Text.endsLine c = true) : Text.isBlank c = true := by
  simp only [Text.endsLine, Bool.or_eq_true, Bool.and_eq_true, decide_eq_true_eq] at ends
  simp only [Text.isBlank, Bool.or_eq_true, Bool.and_eq_true, decide_eq_true_eq]
  omega

/-- A name has no tab in it and no line break. -/
theorem clean_of_isDotted {c : Char} (dotted : Text.isDotted c = true) :
    c ≠ '\t' ∧ Text.endsLine c = false := by
  have solid := Expression.isBlank_of_isDotted dotted
  constructor
  · rintro rfl
    cases solid
  · rw [Bool.eq_false_iff]
    intro ends
    rw [isBlank_of_endsLine ends] at solid
    cases solid

section Events

variable {name : String} {args : List String} {spaces : Nat}

theorem readArguments_inline (inline : ∀ arg ∈ args, Inline arg) :
    ∃ es, readArguments args = .ok (.ok es) ∧ es.map Expression.source = args := by
  induction args with
  | nil => exact ⟨[], rfl, rfl⟩
  | cons arg rest ih =>
    obtain ⟨now, later⟩ := List.forall_mem_cons.1 inline
    obtain ⟨e, read⟩ := now.read
    obtain ⟨es, others, sources⟩ := ih later
    refine ⟨e :: es, ?_, by rw [List.map_cons, now.source read, sources]⟩
    rw [readArguments, readExpression, read, others]
    rfl

theorem joined_inline (inline : ∀ arg ∈ args, Inline arg) :
    Text.trim (joined (args.map String.toList)) = joined (args.map String.toList)
      ∧ (arguments (joined (args.map String.toList))).map String.ofList = args := by
  have filled : ∀ arg ∈ args.map String.toList, arg ≠ [] :=
    List.forall_mem_map.2 fun arg member => (inline arg member).filled
  have trimmed : ∀ arg ∈ args.map String.toList, Text.trim arg = arg :=
    List.forall_mem_map.2 fun arg member => (inline arg member).trimmed
  have pass : ∀ arg ∈ args.map String.toList, Passes 0 arg 0 :=
    List.forall_mem_map.2 fun arg member => (inline arg member).passes
  refine ⟨trim_joined filled trimmed, ?_⟩
  rw [arguments_joined filled trimmed pass, List.map_map]
  simp

theorem eventText_clean (dotted : ∀ c ∈ name.toList, Text.isDotted c = true)
    (inline : ∀ arg ∈ args, Inline arg) :
    ∀ c ∈ eventText name spaces args, c ≠ '\t' ∧ Text.endsLine c = false := by
  intro c member
  have word : ∀ c ∈ ['e', 'v', 'n', 't', ' ', ','], c ≠ '\t' ∧ Text.endsLine c = false :=
    List.all_iff_forall_prop.1 (by decide)
  simp only [eventText, List.mem_cons, List.mem_append] at member
  obtain rfl | rfl | rfl | rfl | rfl | rfl | inside | space | further := member
  all_goals try exact word _ (by decide)
  · exact clean_of_isDotted (dotted c inside)
  · exact word c (by simp [(List.mem_replicate.1 space).2])
  · obtain rfl | rfl | ⟨arg, among, own⟩ := mem_joined further
    · exact word _ (by decide)
    · exact word _ (by decide)
    · obtain ⟨text, inside, rfl⟩ := List.mem_map.1 among
      exact (inline text inside).unbroken c own

theorem read_eventText (filled : name ≠ "") (dotted : ∀ c ∈ name.toList, Text.isDotted c = true)
    (inline : ∀ arg ∈ args, Inline arg) (apart : args ≠ [] → spaces ≠ 0) :
    Statement.read (bracketed (eventText name spaces args))
      = .event name (String.ofList (joined (args.map String.toList))) := by
  have letters : name.toList ≠ [] := fun empty => filled (String.toList_eq_nil_iff.1 empty)
  have ends : ∀ c, (List.replicate spaces ' ' ++ joined (args.map String.toList)).head? = some c →
      Text.isDotted c = false := by
    intro c first
    cases spaces with
    | zero =>
      have none : args = [] := by
        by_contra more
        exact apart more rfl
      subst none
      cases first
    | succ n =>
      cases first
      decide
  have spaced : Text.trim (List.replicate spaces ' ' ++ joined (args.map String.toList))
      = joined (args.map String.toList) := by
    refine Text.trim_append (fun c member => ?_) (joined_inline inline).1
    rw [(List.mem_replicate.1 member).2]
    decide
  apply read_bracketed
  rw [eventText, command?_event, namedOperand?_space letters dotted ends, Option.map_some, spaced,
    String.ofList_toList]

/-- An event line gives one node, with its name and its arguments in order: alone in a script, and
wherever it stands in the body of one. -/
theorem event_line_made (filled : name ≠ "") (dotted : ∀ c ∈ name.toList, Text.isDotted c = true)
    (inline : ∀ arg ∈ args, Inline arg) (apart : args ≠ [] → spaces ≠ 0) :
    MakesNode (eventText name spaces args) (·.Publishes name args) := by
  obtain ⟨es, known, sources⟩ := readArguments_inline inline
  have read := read_eventText filled dotted inline apart
  have given : readArguments
      ((arguments (String.ofList (joined (args.map String.toList))).toList).map String.ofList)
        = .ok (.ok es) := by
    rw [String.toList_ofList, (joined_inline inline).2, known]
  refine makesNode_of_step (eventText_clean dotted inline) (.event · name es) (.event name es)
    (fun l body => ?_) (fun _ => rfl) (fun l n body told => ?_) (fun s indent => ?_) (.inl rfl)
  · exact .event (by rw [body, read]) given
  · have tells := told.2
    rw [body, read] at tells
    obtain ⟨kind, isName, isArgs⟩ := tells
    cases given.symm.trans isArgs
    exact ⟨kind, isName, sources⟩
  · unfold Builder.readBodyLine
    rw [read]
    dsimp only
    rw [given]
    rfl

/-- An event with a quoted comma, an escaped quote, brackets in a text and a group in another. -/
theorem event_line_made_nested :
    ("a.b" : String) ≠ "" ∧ (∀ c ∈ "a.b".toList, Text.isDotted c = true)
      ∧ (∀ arg ∈ ["\"x, \\\"(\"", "((1 + 2) * \x7bn\x7d)"], Inline arg)
      ∧ (["\"x, \\\"(\"", "((1 + 2) * \x7bn\x7d)"] ≠ [] → (1 : Nat) ≠ 0)
      ∧ MakesNode (eventText "a.b" 1 ["\"x, \\\"(\"", "((1 + 2) * \x7bn\x7d)"])
        (·.Publishes "a.b" ["\"x, \\\"(\"", "((1 + 2) * \x7bn\x7d)"]) := by
  have dotted : ∀ c ∈ "a.b".toList, Text.isDotted c = true :=
    List.all_iff_forall_prop.1 (by decide +kernel)
  have inline : ∀ arg ∈ ["\"x, \\\"(\"", "((1 + 2) * \x7bn\x7d)"], Inline arg := by
    intro arg member
    simp only [List.mem_cons, List.not_mem_nil, or_false] at member
    obtain rfl | rfl := member
    · exact .of_isSome (by decide +kernel) (by decide +kernel)
        (List.all_iff_forall_prop.1 (by decide +kernel))
    · exact .of_isSome (by decide +kernel) (by decide +kernel)
        (List.all_iff_forall_prop.1 (by decide +kernel))
  have apart : ["\"x, \\\"(\"", "((1 + 2) * \x7bn\x7d)"] ≠ [] → (1 : Nat) ≠ 0 := fun _ => by decide
  exact ⟨by decide, dotted, inline, apart, event_line_made (by decide) dotted inline apart⟩

end Events

/-! ### Assignments -/

/-- What stands in the brackets of a set line: the name of a variable, a sign and an expression. -/
def setText (name : String) (sign : List Char) (source : String) : List Char :=
  's' :: 'e' :: 't' :: ' ' :: (name.toList ++ (sign ++ source.toList))

section Assignments

variable {name source : String} {sign : List Char}

theorem splitAssignment?_inline (letters : name.toList ≠ [])
    (dotted : ∀ c ∈ name.toList, Text.isDotted c = true) (inline : Inline source)
    (known : sign = [' '] ∨ sign = [' ', '=', ' ']) :
    splitAssignment? (' ' :: (name.toList ++ (sign ++ source.toList)))
      = some (name.toList, source.toList) := by
  have space : ∀ c ∈ [' '], Text.isBlank c = true := List.forall_mem_singleton.2 (by decide)
  have trimmed := inline.trimmed
  have found : namedOperand? (' ' :: (name.toList ++ (sign ++ source.toList)))
      = some (name.toList, sign ++ source.toList) := by
    refine namedOperand?_space letters dotted fun c first => ?_
    obtain rfl | rfl := known
    · cases first
      decide
    · cases first
      decide
  rw [splitAssignment?, found]
  obtain rfl | rfl := known
  · have left : Text.trimLeft ([' '] ++ source.toList) = source.toList :=
      Text.trimLeft_append space fun c first => Text.isBlank_of_trim trimmed first
    have filled : ¬ ([' '] ++ source.toList).isEmpty = true := Bool.false_ne_true
    simp only [Option.bind_eq_bind, Option.bind_some]
    rw [if_neg filled, left]
    split
    next begins => exact absurd begins inline.no_equality
    · rw [Text.trimRight_of_trim trimmed]
  · change some (name.toList, Text.trim ([' '] ++ source.toList)) = _
    rw [Text.trim_append space trimmed]

theorem setText_clean (dotted : ∀ c ∈ name.toList, Text.isDotted c = true)
    (plain : ∀ c ∈ sign, c = ' ' ∨ c = '=')
    (unbroken : ∀ c ∈ source.toList, c ≠ '\t' ∧ Text.endsLine c = false) :
    ∀ c ∈ setText name sign source, c ≠ '\t' ∧ Text.endsLine c = false := by
  intro c member
  have word : ∀ c ∈ ['s', 'e', 't', ' ', '='], c ≠ '\t' ∧ Text.endsLine c = false :=
    List.all_iff_forall_prop.1 (by decide)
  simp only [setText, List.mem_cons, List.mem_append] at member
  obtain rfl | rfl | rfl | rfl | inside | among | own := member
  all_goals try exact word _ (by decide)
  · exact clean_of_isDotted (dotted c inside)
  · obtain rfl | rfl := plain c among
    · exact word _ (by decide)
    · exact word _ (by decide)
  · exact unbroken c own

theorem setText_bare_clean (dotted : ∀ c ∈ name.toList, Text.isDotted c = true) :
    ∀ c ∈ setText name [] "", c ≠ '\t' ∧ Text.endsLine c = false :=
  setText_clean dotted nofun nofun

/-- A line that is read as an assignment of an expression gives one node. -/
theorem makesNode_of_assign {inner : List Char} {name text : String}
    (clean : ∀ c ∈ inner, c ≠ '\t' ∧ Text.endsLine c = false)
    (read : Statement.read (bracketed inner) = .assign name text) {e : Expression}
    (known : Expression.parse text = .ok e) : MakesNode inner (·.Assigns name e.source) := by
  have given : readExpression text = .ok (.ok e) := by
    rw [readExpression, known]
  obtain ⟨literal, textId, step⟩ := assignStep_eq name e ""
  refine makesNode_of_step clean (.assign · name e) (Builder.assignStep name e "")
    (fun l body => ?_) (fun _ => rfl) (fun l n body told => ?_) (fun s indent => ?_)
    (.inr (by rw [step]; rfl))
  · exact .assign (by rw [body, read]) known
  · have tells := told.2
    rw [body, read] at tells
    obtain ⟨kind, isName, e', isValue, isRead⟩ := tells
    cases given.symm.trans isRead
    exact ⟨kind, isName, by rw [isValue]; rfl⟩
  · unfold Builder.readBodyLine Builder.readAssignment
    rw [read]
    dsimp only
    rw [given]
    rfl

/-- A set line without an expression is read as if the last character of its name were one. -/
theorem command?_bare (letters : name.toList ≠ [])
    (dotted : ∀ c ∈ name.toList, Text.isDotted c = true) {front : List Char} {last : Char}
    (split : name.toList = front ++ [last]) :
    command? (setText name [] "") = if front = [] then none
      else some (.assign (String.ofList front) (String.ofList [last])) := by
  have found : namedOperand? (' ' :: (name.toList ++ [])) = some (name.toList, []) :=
    namedOperand?_space letters dotted nofun
  have assigned : splitAssignment? (' ' :: (name.toList ++ [])) =
      if name.toList.length < 2 then none
      else some (name.toList.dropLast, name.toList.drop (name.toList.length - 1)) := by
    rw [splitAssignment?, found]
    rfl
  rw [setText, command?_set]
  change Option.map _ (splitAssignment? (' ' :: (name.toList ++ []))) = _
  rw [assigned, split]
  cases front with
  | nil => rfl
  | cons first rest =>
    have long : ¬ (first :: rest ++ [last]).length < 2 := by simp
    rw [if_neg long, if_neg (List.cons_ne_nil _ _), List.dropLast_concat]
    simp

/-- A set line with an expression gives one node, whatever sign stands between. -/
theorem makesNode_setText (letters : name.toList ≠ [])
    (dotted : ∀ c ∈ name.toList, Text.isDotted c = true)
    (known : sign = [' '] ∨ sign = [' ', '=', ' ']) (inline : Inline source) :
    MakesNode (setText name sign source) (·.Assigns name source) := by
  have plain : ∀ c ∈ sign, c = ' ' ∨ c = '=' := by
    obtain rfl | rfl := known <;> exact List.all_iff_forall_prop.1 (by decide)
  have read : Statement.read (bracketed (setText name sign source)) = .assign name source := by
    apply read_bracketed
    rw [setText, command?_set, splitAssignment?_inline letters dotted inline known]
    simp
  obtain ⟨e, parsed⟩ := inline.read
  have made := makesNode_of_assign (setText_clean dotted plain inline.unbroken) read parsed
  rwa [inline.source parsed] at made

/-- A digit at the end of a name is an expression, so the line sets what is left of the name. -/
theorem makesNode_setText_digit (dotted : ∀ c ∈ name.toList, Text.isDotted c = true)
    {front : String} {digit : Char} (some : front ≠ "") (isDigit : Text.isDigit digit = true)
    (split : name = front.push digit) :
    MakesNode (setText name [] "") (·.Assigns front (String.singleton digit)) := by
  have cut : name.toList = front.toList ++ [digit] := by
    rw [split, String.toList_push]
  have letters : name.toList ≠ [] := by simp [cut]
  have nonempty : front.toList ≠ [] := fun empty => some (String.toList_eq_nil_iff.1 empty)
  have read : Statement.read (bracketed (setText name [] "")) =
      .assign front (String.ofList [digit]) := by
    apply read_bracketed
    rw [command?_bare letters dotted cut, if_neg nonempty, String.ofList_toList]
  have lone := Expression.parse_lone (dotted digit (by simp [cut]))
  rw [if_pos isDigit] at lone
  obtain ⟨e, parsed, source⟩ := lone
  have made := makesNode_of_assign (setText_bare_clean dotted) read parsed
  rwa [source] at made

/-- Any other character at the end of a name is no expression; and of a name of one character nothing
is left. -/
theorem refused_setText (letters : name.toList ≠ [])
    (dotted : ∀ c ∈ name.toList, Text.isDotted c = true)
    (none : ∀ front digit, front ≠ "" → Text.isDigit digit = true → name ≠ front.push digit) :
    Refused (setText name [] "") := by
  have clean := setText_bare_clean dotted
  obtain ⟨front, last, cut⟩ : ∃ front last, name.toList = front ++ [last] :=
    ⟨_, _, (List.dropLast_append_getLast letters).symm⟩
  have command := command?_bare letters dotted cut
  by_cases short : front = []
  · -- the line is no command at all
    rw [if_pos short] at command
    have read := read_unknown command
    refine refused_of_complaint clean
      (fun _ => "Unknown command '" ++ String.ofList (bracketed (setText name [] "")) ++ "'")
      (fun l body => .unknown (by rw [body, read])) fun s b l rest body => ?_
    unfold Builder.readBodyLine
    rw [body, read]
    rfl
  · -- the line sets what is left to an expression that cannot be read
    rw [if_neg short] at command
    have read := read_bracketed command
    have lone := Expression.parse_lone (dotted last (by simp [cut]))
    have other : ¬ Text.isDigit last = true := by
      intro digit
      refine none (String.ofList front) last (ofList_ne_empty short) digit ?_
      rw [← String.toList_inj, cut, String.toList_push, String.toList_ofList]
    rw [if_neg other] at lone
    obtain ⟨fault, faulty⟩ := lone
    refine refused_of_complaint clean
      (fun _ => "Bad expression in [set " ++ String.ofList front ++ "]: "
        ++ fault.message (Text.trimString (String.ofList [last])))
      (fun l body => .refused (by rw [body, read]) faulty) fun s b l rest body => ?_
    unfold Builder.readBodyLine Builder.readAssignment readExpression
    rw [body, read]
    dsimp only
    rw [faulty]
    rfl

/-- A set line gives one node, with its variable and its expression, with or without a sign of
equality: alone in a script, and wherever it stands in the body of one. Without an expression the
line is refused, unless something is left of the name before a digit at its end: then it sets what
is left to that digit. -/
theorem set_line_made (filled : name ≠ "") (dotted : ∀ c ∈ name.toList, Text.isDotted c = true) :
    (∀ sign source, sign = [' '] ∨ sign = [' ', '=', ' '] → Inline source →
        MakesNode (setText name sign source) (·.Assigns name source))
      ∧ (∀ front digit, front ≠ "" → Text.isDigit digit = true → name = front.push digit →
        MakesNode (setText name [] "") (·.Assigns front (String.singleton digit)))
      ∧ ((∀ front digit, front ≠ "" → Text.isDigit digit = true → name ≠ front.push digit) →
        Refused (setText name [] "")) := by
  have letters : name.toList ≠ [] := fun empty => filled (String.toList_eq_nil_iff.1 empty)
  refine ⟨fun sign source known inline => ?_, fun front digit some isDigit split => ?_,
    fun none => ?_⟩
  · exact makesNode_setText letters dotted known inline
  · exact makesNode_setText_digit dotted some isDigit split
  · exact refused_setText letters dotted none

/-- A name with a digit at its end is set as it is written if an expression follows, and is cut in
two if none does. -/
theorem set_line_made_digit :
    ("x1" : String) ≠ "" ∧ (∀ c ∈ "x1".toList, Text.isDotted c = true)
      ∧ MakesNode (setText "x1" [' ', '=', ' '] "\x7bx1\x7d + 1") (·.Assigns "x1" "\x7bx1\x7d + 1")
      ∧ MakesNode (setText "x1" [] "") (·.Assigns "x" "1") := by
  have dotted : ∀ c ∈ "x1".toList, Text.isDotted c = true :=
    List.all_iff_forall_prop.1 (by decide +kernel)
  have inline : Inline "\x7bx1\x7d + 1" :=
    .of_isSome (by decide +kernel) (by decide +kernel)
      (List.all_iff_forall_prop.1 (by decide +kernel))
  obtain ⟨written, cut, _⟩ := @set_line_made "x1" (by decide) dotted
  exact ⟨by decide, dotted, written _ _ (.inr rfl) inline,
    cut "x" '1' (by decide) (by decide) (by decide)⟩

/-- Not every set line without an expression is refused. -/
theorem bare_set_not_refused : ¬ ∀ name : String, name ≠ "" →
    (∀ c ∈ name.toList, Text.isDotted c = true) → Refused (setText name [] "") := by
  intro refused
  have cut := refused "x1" (by decide) (List.all_iff_forall_prop.1 (by decide +kernel))
  obtain ⟨c, g, compiled, graph, empty, _⟩ := cut.alone .standard "script"
  have nodes :
      (compile .standard "script" (String.ofList (bracketed (setText "x1" [] "")))).toOption.map
      (fun c => c.graph.map (·.nodes.length)) = some (some 1) := by
    decide +kernel
  rw [compiled] at nodes
  simp [Except.toOption, graph, empty] at nodes

end Assignments

end Script

end Colloquy
