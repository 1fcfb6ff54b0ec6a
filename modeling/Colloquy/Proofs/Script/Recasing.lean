import Colloquy.Proofs.Dialogue.Quiet
import Colloquy.Proofs.Script.Sources
import Colloquy.Proofs.Text.Case
import Mathlib.Data.Bool.AllAny
/-!
# Labels in any mixture of cases

A line that declares a label or goes to one says the same in any mixture of cases. Read side by
side, two scripts that differ in the case of such lines give the same draft; only messages that
quote a line are worded otherwise. The draft is linked in the same way as long as the label that
ends a dialogue is compared with the same result, and a graph finds its labels in any mixture of
cases.
-/

namespace Colloquy

/-- Whether a diagnostic says as much of a line as another, in whatever words. -/
structure Diagnostic.Restates (d d' : Diagnostic) : Prop where
  line : d'.line = d.line
  severity : d'.severity = d.severity
  fatal : d'.fatal = d.fatal

theorem Diagnostic.Restates.refl (ds : List Diagnostic) : List.Forall₂ Diagnostic.Restates ds ds :=
  List.forall₂_same.2 fun _ _ => ⟨rfl, rfl, rfl⟩

/-- Whether a compilation gives the same graph as another, and says as much of the same lines. -/
def Compilation.Echoes (c c' : Compilation) : Prop :=
  c'.graph = c.graph ∧ List.Forall₂ Diagnostic.Restates c.diagnostics c'.diagnostics

namespace Script

open Text (SameLetter Alike)

/-! ### Statements that name a label -/

/-- Whether a statement declares a label or goes to it. -/
def Statement.Names (name : String) (c : Statement) : Prop :=
  c = .label name ∨ c = .goto name

/-- What comes after a sign that a text begins with. -/
def afterSign? (sign : Char) : List Char → Option (List Char)
  | [] => none
  | c :: rest => if c = sign then some rest else none

theorem afterSign?_none {sign : Char} {s : List Char} (other : ∀ rest, s ≠ sign :: rest) :
    afterSign? sign s = none := by
  cases s with
  | nil => rfl
  | cons c rest => exact if_neg fun begins => other rest (by rw [begins])

theorem afterSign?_alike {sign : Char} (plain : sign.isAlpha = false) {s t : List Char}
    (alike : Alike s t) : Option.Rel Alike (afterSign? sign s) (afterSign? sign t) := by
  cases alike with
  | nil => exact .none
  | @cons c d s t first rest =>
    have begins : c = sign ↔ d = sign := first.eq_sign plain
    rw [afterSign?, afterSign?]
    by_cases same : c = sign
    · rw [if_pos same, if_pos (begins.1 same)]
      exact .some rest
    · rw [if_neg same, if_neg fun other => same (begins.2 other)]
      exact .none

theorem standsFor_alike {c d : Char} (same : SameLetter c d) (letter : Char) :
    standsFor c letter = standsFor d letter := by
  have wide (x : Char) (plain : x.isAlpha = false) : decide (c = x) = decide (d = x) :=
    decide_eq_decide.2 (same.eq_sign plain)
  have low : c.toLower = d.toLower := same
  rw [standsFor, standsFor, low, wide '\u0130' rfl, wide '\u0131' rfl, wide '\u017f' rfl]

theorem afterKeyword?_alike {s t : List Char} (alike : Alike s t) (keyword : List Char) :
    Option.Rel Alike (afterKeyword? keyword s) (afterKeyword? keyword t) := by
  induction keyword generalizing s t with
  | nil => exact .some alike
  | cons letter keyword ih =>
    cases alike with
    | nil => exact .none
    | @cons c d s t first rest =>
      rw [afterKeyword?, afterKeyword?, standsFor_alike first]
      split
      · exact ih rest
      · exact .none

theorem afterKeywords?_alike {s t : List Char} (alike : Alike s t) (first second : List Char) :
    Option.Rel Alike (afterKeywords? first second s) (afterKeywords? first second t) :=
  rel_bind (afterKeyword?_alike alike first) fun _ _ rest =>
    afterKeyword?_alike rest.trimLeft second

theorem operand?_alike {s t : List Char} (alike : Alike s t) :
    Option.Rel Alike (operand? s) (operand? t) := by
  cases alike with
  | nil => exact .none
  | @cons c d s t first rest =>
    have trimmed : Alike (Text.trimLeft s) (Text.trimLeft t) := Alike.trimLeft rest
    rw [operand?, operand?, first.isBlank]
    generalize Text.trimLeft s = u at trimmed
    generalize Text.trimLeft t = v at trimmed
    split
    · cases trimmed with
      | nil => exact rel_map (Alike.getLast? rest) fun _ _ same => .cons same .nil
      | cons first' rest' => exact .some (.cons first' rest')
    · exact .none

/-- A word with nothing after it but blanks. -/
def onlyWord? (body : List Char) : Option (List Char) :=
  let name := body.takeWhile Text.isWord
  if name ≠ [] ∧ Text.trimLeft (body.dropWhile Text.isWord) = [] then some name else none

theorem onlyWord?_alike {s t : List Char} (alike : Alike s t) :
    Option.Rel Alike (onlyWord? s) (onlyWord? t) := by
  have word := alike.takeWhile fun _ _ => SameLetter.isWord
  have rest := (alike.dropWhile fun _ _ => SameLetter.isWord).trimLeft
  unfold onlyWord?
  dsimp only
  by_cases named : s.takeWhile Text.isWord ≠ [] ∧ Text.trimLeft (s.dropWhile Text.isWord) = []
  · rw [if_pos named, if_pos ⟨fun empty => named.1 (word.eq_nil.2 empty), rest.eq_nil.1 named.2⟩]
    exact .some word
  · rw [if_neg named, if_neg fun other =>
      named ⟨fun empty => other.1 (word.eq_nil.1 empty), rest.eq_nil.2 other.2⟩]
    exact .none

theorem label?_eq (s : List Char) :
    label? s = (afterSign? ':' s).bind fun rest => onlyWord? (Text.trimLeft rest) := by
  unfold label?
  split
  · rfl
  next other =>
    rw [afterSign?_none other]
    rfl

theorem label?_alike {s t : List Char} (alike : Alike s t) :
    Option.Rel Alike (label? s) (label? t) := by
  rw [label?_eq, label?_eq]
  exact rel_bind (afterSign?_alike rfl alike) fun _ _ rest => onlyWord?_alike rest.trimLeft

/-- A text that begins with the keyword of a goto is no other command. -/
theorem command?_goto {s rest : List Char}
    (begins : afterKeywords? ['g', 'o'] ['t', 'o'] s = some rest) :
    command? s = ((operand? rest).bind onlyWord?).map fun name =>
      .goto (Text.lower (String.ofList name)) := by
  cases s with
  | nil => cases begins
  | cons c tail =>
    -- what stands for the first letter of the keyword stands for that of no other
    have letter : standsFor c 'g' = true := by
      by_contra other
      simp [afterKeywords?, afterKeyword?, other] at begins
    have low : c.toLower = 'g' := by simpa [standsFor] using letter
    have apart (x : Char) (wide : x.toLower ≠ 'g') : c ≠ x := by
      rintro rfl
      exact wide low
    have others : standsFor c 'i' = false ∧ standsFor c 'e' = false ∧ standsFor c 's' = false := by
      simp [standsFor, low, apart '\u0130' (by decide), apart '\u0131' (by decide),
        apart '\u017f' (by decide)]
    obtain ⟨noIf, noElse, noSet⟩ := others
    have none {first : Char} {keyword : List Char} (other : standsFor c first = false) :
        afterKeyword? (first :: keyword) (c :: tail) = Option.none := by
      rw [afterKeyword?, other, if_neg Bool.false_ne_true]
    have nones {first : Char} {keyword second : List Char} (other : standsFor c first = false) :
        afterKeywords? (first :: keyword) second (c :: tail) = Option.none := by
      rw [afterKeywords?, none other]
      rfl
    unfold command?
    simp only [begins, none noIf, none noElse, none noSet, nones noElse, Option.bind_none,
      Option.map_none, Option.bind_some]
    cases operand? rest with
    | none => rfl
    | some body =>
      rw [Option.bind_some, onlyWord?]
      dsimp only
      by_cases named : body.takeWhile Text.isWord ≠ []
          ∧ Text.trimLeft (body.dropWhile Text.isWord) = []
      · simp [named]
      · simp only [if_neg named, Option.map_none]
        rfl

/-- A command that is a goto begins with its keyword. -/
theorem afterKeywords?_of_goto {s : List Char} {name : String}
    (found : command? s = some (.goto name)) :
    ∃ rest, afterKeywords? ['g', 'o'] ['t', 'o'] s = some rest := by
  unfold command? at found
  dsimp only at found
  repeat' split at found
  all_goals try cases found
  next go _ =>
    obtain ⟨rest, begins, _⟩ := Option.bind_eq_some_iff.1 go
    exact ⟨rest, begins⟩

theorem command?_goto_alike {s t : List Char} (alike : Alike s t) {name : String}
    (found : command? s = some (.goto name)) : command? t = some (.goto name) := by
  obtain ⟨rest, begins⟩ := afterKeywords?_of_goto found
  obtain ⟨rest', begins', further⟩ :=
    rel_some (afterKeywords?_alike alike ['g', 'o'] ['t', 'o']) begins
  rw [command?_goto begins] at found
  obtain ⟨word, named, same⟩ := Option.map_eq_some_iff.1 found
  obtain ⟨word', named', both⟩ :=
    rel_some (rel_bind (operand?_alike further) fun _ _ => onlyWord?_alike) named
  rw [command?_goto begins', named', Option.map_some, ← both.lower_ofList, same]

theorem bracketed?_eq (s : List Char) : bracketed? s = (afterSign? '[' s).bind fun rest =>
    (afterSign? ']' rest.reverse).map List.reverse := by
  unfold bracketed?
  split
  next rest =>
    rw [afterSign?, if_pos rfl, Option.bind_some, ← List.head?_reverse]
    rw [← List.reverse_reverse rest, List.dropLast_reverse, List.reverse_reverse]
    cases rest.reverse with
    | nil => rfl
    | cons d before =>
      by_cases closing : d = ']' <;> simp [afterSign?, closing]
  next other =>
    rw [afterSign?_none other]
    rfl

theorem bracketed?_alike {s t : List Char} (alike : Alike s t) :
    Option.Rel Alike (bracketed? s) (bracketed? t) := by
  rw [bracketed?_eq, bracketed?_eq]
  exact rel_bind (afterSign?_alike rfl alike) fun _ _ rest =>
    rel_map (afterSign?_alike rfl rest.reverse) fun _ _ inner => inner.reverse

theorem option?_of_names {s : List Char} {name : String} (names : (Statement.read s).Names name) :
    option? s = none := by
  unfold Statement.Names Statement.read at names
  split at names
  · obtain same | same := names <;> cases same
  next none =>
    cases read : option? s with
    | none => rfl
    | some text => exact absurd read (none text)

theorem option?_eq (s : List Char) : option? s = (afterSign? '*' s).bind fun rest =>
    if rest.isEmpty then none else some (Text.trim rest) := by
  unfold option?
  split
  · rfl
  next other =>
    rw [afterSign?_none other]
    rfl

theorem option?_alike {s t : List Char} (alike : Alike s t) :
    Option.Rel Alike (option? s) (option? t) := by
  rw [option?_eq, option?_eq]
  refine rel_bind (afterSign?_alike rfl alike) fun u v rest => ?_
  rw [rest.isEmpty]
  split
  · exact .none
  · exact .some rest.trim

/-- What names a label says the same in any mixture of cases. -/
theorem Statement.Names.alike {s t : List Char} {name : String}
    (names : (Statement.read s).Names name) (alike : Alike s t) :
    Statement.read t = Statement.read s := by
  have noOption := option?_of_names names
  have noOption' : option? t = none := rel_none (option?_alike alike) noOption
  have brackets := bracketed?_alike alike
  cases command : (bracketed? s).bind command? with
  | some c =>
    have read : Statement.read s = c := by
      rw [Statement.read, noOption, command]
    obtain ⟨inner, opened, found⟩ := Option.bind_eq_some_iff.1 command
    obtain ⟨inner', opened', both⟩ := rel_some brackets opened
    rw [read] at names
    obtain rfl | rfl := names
    · exact absurd rfl ((command?_names found).2.2 name)
    · have command' : (bracketed? t).bind command? = some (.goto name) := by
        rw [opened', Option.bind_some, command?_goto_alike both found]
      rw [read, Statement.read, noOption', command']
  | none =>
    cases label : label? s with
    | none =>
      -- what is no command and declares no label is said, or cannot be read
      have apart : ¬ (Statement.read s).Names name := by
        unfold Statement.read
        simp only [noOption, command, label]
        rintro (same | same)
        all_goals
          repeat' split at same
          all_goals cases same
      exact absurd names apart
    | some word =>
      obtain ⟨word', label', both⟩ := rel_some (label?_alike alike) label
      have command' : (bracketed? t).bind command? = none := by
        cases opened : bracketed? t with
        | none => rfl
        | some inner =>
          unfold bracketed? at opened
          split at opened
          · cases label'
          · cases opened
      have read : Statement.read s = .label (Text.lower (String.ofList word)) := by
        rw [Statement.read, noOption, command, label]
      rw [read, both.lower_ofList, Statement.read, noOption', command', label']

/-! ### Lines that name a label -/

theorem isSilent_alike {s t : List Char} (alike : Alike s t) : isSilent s = isSilent t := by
  have hash : decide (s.head? = some '#') = decide (t.head? = some '#') :=
    decide_eq_decide.2 (alike.head rfl)
  rw [isSilent, isSilent, alike.isEmpty, hash]

theorem isDelimiter_alike {s t : List Char} (alike : Alike s t) :
    s = ['=', '=', '='] ↔ t = ['=', '=', '='] := by
  have plain : ∀ c ∈ ['=', '=', '='], c.isAlpha = false := List.all_iff_forall_prop.1 (by decide)
  constructor
  · rintro rfl
    exact (alike.eq_of_plain plain).symm
  · rintro rfl
    exact (alike.symm.eq_of_plain plain).symm

/-- What stands before the id at the end of a text, if there is one. -/
def beforeId? (s : List Char) : Option (List Char) :=
  (afterSign? '@' s.reverse).bind fun rest =>
    (afterSign? '@' (rest.dropWhile Text.isWord)).bind fun before =>
      if (rest.takeWhile Text.isWord).isEmpty then none else some (Text.trimRight before.reverse)

theorem splitId_fst (s : List Char) : (splitId s).1 = (beforeId? s).getD s := by
  unfold splitId beforeId?
  split
  next rest back =>
    rw [back, afterSign?, if_pos rfl, Option.bind_some]
    dsimp only
    split
    next before opening =>
      rw [opening, afterSign?, if_pos rfl, Option.bind_some]
      split <;> rfl
    next other =>
      rw [afterSign?_none other]
      rfl
  next other =>
    rw [afterSign?_none other]
    rfl

/-- An id is taken off alike texts at the same place. -/
theorem splitId_alike {s t : List Char} (alike : Alike s t) :
    Alike (splitId s).1 (splitId t).1 := by
  have before : Option.Rel Alike (beforeId? s) (beforeId? t) := by
    refine rel_bind (afterSign?_alike rfl alike.reverse) fun u v rest => ?_
    have id := rest.takeWhile fun _ _ => SameLetter.isWord
    have further := rest.dropWhile fun _ _ => SameLetter.isWord
    refine rel_bind (afterSign?_alike rfl further) fun u v before => ?_
    rw [id.isEmpty]
    split
    · exact .none
    · exact .some before.reverse.trimRight
  rw [splitId_fst, splitId_fst]
  cases found : beforeId? s with
  | some u =>
    obtain ⟨v, found', both⟩ := rel_some before found
    rw [found']
    exact both
  | none =>
    rw [rel_none before found]
    exact alike

theorem scan_alike (tabWidth number : Nat) {raw raw' : List Char} (alike : Alike raw raw')
    {l : Line} (scanned : scan tabWidth number raw = .line l) :
    ∃ l', scan tabWidth number raw' = .line l' ∧ l'.number = l.number ∧ l'.indent = l.indent
      ∧ Alike l.body l'.body := by
  have line := alike.trimRight.expandTabsFrom tabWidth 0
  have stripped := line.trimLeft
  unfold scan at scanned ⊢
  dsimp only at scanned ⊢
  rw [Text.expandTabs] at scanned ⊢
  generalize Text.expandTabsFrom tabWidth 0 (Text.trimRight raw) = u at line stripped scanned
  generalize Text.expandTabsFrom tabWidth 0 (Text.trimRight raw') = v at line stripped
  rw [← isSilent_alike stripped, ← line.length_eq, ← stripped.length_eq]
  split at scanned
  · cases scanned
  next loud =>
    split at scanned
    · cases scanned
    next text =>
      cases scanned
      rw [if_neg loud, if_neg fun other => text ((isDelimiter_alike stripped).2 other)]
      exact ⟨_, rfl, rfl, rfl, splitId_alike stripped⟩

theorem scan_renumber {tabWidth number : Nat} {raw : List Char} {l : Line}
    (scanned : scan tabWidth number raw = .line l) (other : Nat) :
    scan tabWidth other raw = .line { l with number := other } := by
  unfold scan at scanned ⊢
  dsimp only at scanned ⊢
  split at scanned
  · cases scanned
  · split at scanned
    · cases scanned
    · cases scanned
      simp [*]

/-- Whether a line of a script names a label. -/
def LineNames (tabWidth : Nat) (raw : List Char) (name : String) : Prop :=
  ∃ number l, scan tabWidth number raw = .line l ∧ (Statement.read l.body).Names name

/-- Whether a line is the same, or names a label and is the same but for the case of letters. -/
def Recased (tabWidth : Nat) (raw raw' : List Char) : Prop :=
  raw' = raw ∨ Alike raw raw' ∧ ∃ name, LineNames tabWidth raw name

theorem optionNext_recased {tabWidth : Nat} {lines lines' : List (List Char)}
    (recased : List.Forall₂ (Recased tabWidth) lines lines') :
    optionNext lines' = optionNext lines := by
  induction recased with
  | nil => rfl
  | @cons raw raw' rest rest' first _ ih =>
    obtain rfl | ⟨alike, _⟩ := first
    · rw [optionNext, optionNext, ih]
    · have star : decide ((Text.trim raw).head? = some '*')
          = decide ((Text.trim raw').head? = some '*') :=
        decide_eq_decide.2 (alike.trim.head rfl)
      rw [optionNext, optionNext, ih]
      simp only [isSilent_alike alike.trim, star]

/-! ### Reading side by side -/

namespace Builder

/-- Whether two drafts are the same but for the words of diagnostics. -/
def Echoes (b b' : Builder) : Prop :=
  ∃ core ds ds', b = after ds core ∧ b' = after ds' core ∧ List.Forall₂ Diagnostic.Restates ds ds'

theorem Echoes.refl (b : Builder) : b.Echoes b :=
  ⟨b, [], [], rfl, rfl, .nil⟩

theorem Echoes.note (b : Builder) {d d' : Diagnostic} (same : d.Restates d') :
    (b.note d).Echoes (b.note d') := by
  refine ⟨{ b with diagnostics := [] }, b.diagnostics ++ [d], b.diagnostics ++ [d'], ?_, ?_, ?_⟩
  · simp [Builder.note, after]
  · simp [Builder.note, after]
  · exact List.rel_append (Diagnostic.Restates.refl _) (.cons same .nil)

theorem Echoes.after {b b' : Builder} (echoes : b.Echoes b') {ds ds' : List Diagnostic}
    (same : List.Forall₂ Diagnostic.Restates ds ds') :
    (Builder.after ds b).Echoes (Builder.after ds' b') := by
  obtain ⟨core, es, es', rfl, rfl, further⟩ := echoes
  refine ⟨core, ds ++ es, ds' ++ es', ?_, ?_, List.rel_append same further⟩
  · simp [Builder.after]
  · simp [Builder.after]

section Reading

variable {s s' : Settings} {raw raw' : List Char} {rest rest' : List (List Char)} {number : Nat}

/-- Reading a line looks at the settings only to compare a label with the one that ends a dialogue,
and at the lines after it only to see whether an option is next. -/
theorem readBodyLine_congr (b : Builder) (l : Line) (next : optionNext rest' = optionNext rest)
    (ends : ∀ name, (Statement.read l.body).Names name → (name = s.endLabel ↔ name = s'.endLabel)) :
    readBodyLine s' b l rest' = readBodyLine s b l rest := by
  unfold readBodyLine
  -- all other statements are read without the settings and the lines that follow
  cases read : Statement.read l.body with
  | openIf => rw [next]
  | label name =>
    dsimp only
    rw [label, label]
    exact congrArg Except.ok (if_congr (ends name (.inl read)).symm rfl rfl)
  | _ => rfl

/-- A line that names a label is read by its number, its indent and what it says. -/
theorem readBodyLine_names (b : Builder) {l l' : Line} {name : String}
    (names : (Statement.read l.body).Names name)
    (read : Statement.read l'.body = Statement.read l.body) (place : l'.number = l.number)
    (indent : l'.indent = l.indent) :
    readBodyLine s b l' rest = readBodyLine s b l rest := by
  unfold readBodyLine
  rw [read, place, indent]
  obtain same | same := names <;> rw [same]

/-- In the header a line that names a label is complained of, in words that quote it. -/
theorem readHeaderLine_names (b : Builder) {l l' : Line} {name : String}
    (names : (Statement.read l.body).Names name)
    (read : Statement.read l'.body = Statement.read l.body) (place : l'.number = l.number) :
    Both Echoes (b.readHeaderLine l) (b.readHeaderLine l') := by
  unfold readHeaderLine
  rw [read, place]
  obtain same | same := names <;> rw [same] <;> exact .ok (.note b ⟨rfl, rfl, rfl⟩)

/-- A line read from the same draft, in either spelling. -/
theorem readLine_recased (b : Builder) (width : s'.tabWidth = s.tabWidth)
    (ends : ∀ name, LineNames s.tabWidth raw name → (name = s.endLabel ↔ name = s'.endLabel))
    (first : Recased s.tabWidth raw raw') (later : List.Forall₂ (Recased s.tabWidth) rest rest') :
    Both Echoes (b.readLine s number raw rest) (b.readLine s' number raw' rest') := by
  have next := optionNext_recased later
  unfold readLine
  rw [width]
  obtain rfl | ⟨alike, name, known, l₀, scanned₀, names⟩ := first
  · cases scanned : scan s.tabWidth number raw' with
    | empty => exact .ok (.refl b)
    | delimiter => exact .ok (.refl _)
    | line l =>
      dsimp only
      rw [readBodyLine_congr b l next fun name names => ends name ⟨number, l, scanned, names⟩]
      split
      · exact .refl .refl _
      · exact .refl .refl _
  · -- the name was found under some number, and is found under this one as well
    have scanned := scan_renumber scanned₀ number
    obtain ⟨l', scanned', place, indent, both⟩ := scan_alike s.tabWidth number alike scanned
    have read := names.alike both
    rw [scanned, scanned']
    dsimp only
    split
    · exact readHeaderLine_names b names read place
    · have same := @readBodyLine_names s rest b ⟨number, l₀.indent, l₀.body, l₀.textId⟩ l' name
        names read place indent
      have other : readBodyLine s' b l' rest' = readBodyLine s b l' rest := by
        refine readBodyLine_congr b l' next fun label isNamed => ?_
        rw [read] at isNamed
        exact ends label ⟨known, l₀, scanned₀, isNamed⟩
      rw [other, same]
      exact .refl .refl _

/-- A line read from drafts that differ in the words of diagnostics. -/
theorem Echoes.readLine {b b' : Builder} (echoes : b.Echoes b') (width : s'.tabWidth = s.tabWidth)
    (ends : ∀ name, LineNames s.tabWidth raw name → (name = s.endLabel ↔ name = s'.endLabel))
    (first : Recased s.tabWidth raw raw') (later : List.Forall₂ (Recased s.tabWidth) rest rest') :
    Both Echoes (b.readLine s number raw rest) (b'.readLine s' number raw' rest') := by
  obtain ⟨core, ds, ds', rfl, rfl, restates⟩ := echoes
  -- all three readings go alongside that from the draft without the diagnostics
  have left := (readLine_after ds core s number raw rest).flip
  have right := readLine_after ds' core s' number raw' rest'
  refine ((left.comp (readLine_recased core width ends first later)).comp right).mono ?_
  rintro c c' ⟨_, ⟨_, rfl, same⟩, rfl⟩
  exact same.after restates

theorem readLines_recased {lines lines' : List (List Char)} (width : s'.tabWidth = s.tabWidth)
    (ends : ∀ raw ∈ lines, ∀ name, LineNames s.tabWidth raw name →
      (name = s.endLabel ↔ name = s'.endLabel))
    (recased : List.Forall₂ (Recased s.tabWidth) lines lines') {b b' : Builder}
    (echoes : b.Echoes b') :
    Both Echoes (readLines s b number lines) (readLines s' b' number lines') := by
  induction recased generalizing b b' number with
  | nil => exact .ok echoes
  | cons first later ih =>
    obtain ⟨now, afterwards⟩ := List.forall_mem_cons.1 ends
    exact (echoes.readLine width now first later).bind fun c c' echoes => ih afterwards echoes

theorem Echoes.finish {b b' : Builder} (echoes : b.Echoes b') (lastLine : Nat) :
    (b.finish lastLine).Echoes (b'.finish lastLine) := by
  obtain ⟨core, ds, ds', rfl, rfl, restates⟩ := echoes
  rw [finish_after, finish_after]
  exact (Echoes.refl _).after restates

end Reading

end Builder

/-! ### Linking side by side -/

section Linking

variable {nodes : List Draft} {ends ends' : String}

/-- Gotos are followed in the same way if their labels are told from the end in the same way. -/
theorem followGotos_congr
    (same : ∀ (i : Nat) d label, nodes[i]? = some d → d.gotoLabel? = some label →
      (label = ends ↔ label = ends'))
    (labels : List (String × Option Nat)) (targets : List (Nat × Option Nat)) (start fuel : Nat)
    (way : Option Nat) (chain : List Nat) :
    followGotos ends' nodes labels targets start fuel way chain
      = followGotos ends nodes labels targets start fuel way chain := by
  induction fuel generalizing way chain with
  | zero => rfl
  | succ fuel ih =>
    cases way with
    | none => rfl
    | some i =>
      rw [followGotos, followGotos]
      cases there : nodes[i]? with
      | none => rfl
      | some d =>
        dsimp only
        cases goto : d.gotoLabel? with
        | none => rfl
        | some label =>
          dsimp only
          have isEnd := same i d label there goto
          simp only [ih]
          by_cases last : label = ends
          · rw [if_pos last, if_pos (isEnd.1 last)]
          · rw [if_neg last, if_neg fun other => last (isEnd.2 other)]

theorem resolveGotos_congr
    (same : ∀ (i : Nat) d label, nodes[i]? = some d → d.gotoLabel? = some label →
      (label = ends ↔ label = ends')) (labels : List (String × Option Nat)) :
    resolveGotos ends' nodes labels = resolveGotos ends nodes labels := by
  have step : resolveGoto ends' nodes labels = resolveGoto ends nodes labels := by
    funext table i
    rw [resolveGoto, resolveGoto, followGotos_congr same]
  rw [resolveGotos, resolveGotos, step]

end Linking

/-- The points of an outline are begun by lines of the body. -/
theorem outline_begun {s : Settings} {text : String} :
    ∀ point ∈ (outline s text).points, point.line ∈ bodyLines s text := by
  obtain ⟨points, grown, own⟩ :=
    Outline.addAll_begun {} (bodyAhead s false 1 (Text.lines text.toList))
  rw [bodyAhead_lines] at own
  intro point member
  rw [outline, Outline.leaveAll_points, grown] at member
  exact own point member

/-- Every goto of a draft goes to a label that a line names. -/
theorem lineNames_of_goto {s : Settings} {text : String} {b : Builder}
    (read : Builder.readScript s (Text.lines text.toList) = .ok b) {i : Nat} {d : Draft}
    {label : String} (there : (settleAll b.nodes)[i]? = some d) (goto : d.gotoLabel? = some label) :
    ∃ raw ∈ Text.lines text.toList, LineNames s.tabWidth raw label := by
  rw [settleAll_getElem?, Option.map_eq_some_iff] at there
  obtain ⟨d, there, rfl⟩ := there
  rw [settleDraft_gotoLabel?] at goto
  have told := (Builder.traces_of_readScript read).nodes i
  rw [gists, List.getElem?_map, there, Option.map_some] at told
  obtain ⟨point, begun, same⟩ := Option.map_eq_some_iff.1 told.symm
  have step : d.step = point.step := (congrArg Draft.step same).symm
  -- the draft was made for a point of the outline, which a line of the body began
  have member := List.mem_of_getElem? begun
  have genuine := (outline_coherent s text).genuine point member
  have inside := outline_begun point member
  rw [Draft.gotoLabel?, step] at goto
  cases point with
  | goto l name =>
    cases goto
    obtain ⟨raw, found, scanned⟩ := scan_of_mem_bodyFrom inside
    exact ⟨raw, List.mem_of_getElem? found, l.number, l, scanned, .inr genuine⟩
  | assign l name e =>
    obtain ⟨_, _, assigns⟩ := assignStep_eq name e l.textId
    rw [Outline.Point.step, assigns] at goto
    cases goto
  | _ => cases goto

/-- What compiling makes of a draft after some diagnostics: they are only handed on. -/
theorem compile_after {s : Settings} {name text : String} {core : Builder} {ds : List Diagnostic}
    (read : Builder.readScript s (Text.lines text.toList) = .ok (Builder.after ds core)) :
    compile s name text =
      let b := { core with nodes := settleAll core.nodes }
      let gotos := resolveGotos s.endLabel b.nodes b.labels
      let diagnostics := ds ++ core.diagnostics ++ gotos.diagnostics
      if diagnostics.any (·.fatal) then .ok ⟨none, diagnostics⟩
      else (buildGraph TextId.digest s name b gotos.targets).bind fun r =>
        .ok ⟨some r.1, diagnostics ++ r.2⟩ := by
  unfold compile compileWith
  rw [read]
  rfl

/-- Scripts that differ in the case of labels compile to the same graph, if their labels are told
from the end in the same way. -/
theorem compile_recased {s s' : Settings} (name : String) {text text' : String}
    (width : s'.tabWidth = s.tabWidth) (digits : s'.textIdLength = s.textIdLength)
    (ends : ∀ raw ∈ Text.lines text.toList, ∀ label, LineNames s.tabWidth raw label →
      (label = s.endLabel ↔ label = s'.endLabel))
    (recased :
      List.Forall₂ (Recased s.tabWidth) (Text.lines text.toList) (Text.lines text'.toList)) :
    Both Compilation.Echoes (compile s name text) (compile s' name text') := by
  have scripts : Both Builder.Echoes (Builder.readScript s (Text.lines text.toList))
      (Builder.readScript s' (Text.lines text'.toList)) := by
    unfold Builder.readScript
    rw [← recased.length_eq]
    exact (Builder.readLines_recased width ends recased (.refl {})).bind fun c c' echoes =>
      .ok (echoes.finish _)
  obtain ⟨_, _, read, read', core, ds, ds', rfl, rfl, restates⟩ | ⟨f, read, read'⟩ :=
    scripts.outcomes
  · -- the drafts are linked in the same way, and only their diagnostics differ
    have gotos : resolveGotos s'.endLabel (settleAll core.nodes) core.labels
        = resolveGotos s.endLabel (settleAll core.nodes) core.labels := by
      refine resolveGotos_congr (fun i d label there goto => ?_) core.labels
      obtain ⟨raw, member, names⟩ := lineNames_of_goto read there goto
      exact ends raw member label names
    have built (b : Builder) :
        buildGraph TextId.digest s' name b = buildGraph TextId.digest s name b := by
      unfold buildGraph
      rw [digits]
    rw [compile_after read, compile_after read']
    dsimp only
    rw [gotos]
    simp only [built]
    generalize resolveGotos s.endLabel (settleAll core.nodes) core.labels = table
    have notes : List.Forall₂ Diagnostic.Restates (ds ++ core.diagnostics ++ table.diagnostics)
        (ds' ++ core.diagnostics ++ table.diagnostics) :=
      List.rel_append (List.rel_append restates (Diagnostic.Restates.refl _))
        (Diagnostic.Restates.refl _)
    rw [forall₂_any notes fun d d' (same : d.Restates d') => same.fatal]
    split
    · exact .ok ⟨rfl, notes⟩
    · refine .bind_same _ fun r => ?_
      exact .ok ⟨rfl, List.rel_append notes (Diagnostic.Restates.refl _)⟩
  · unfold compile compileWith
    rw [read, read']
    exact .error f

/-! ### Looking labels up -/

/-- A graph finds the same node by a label in any mixture of cases. -/
theorem nodeByLabel_alike (g : Graph) {label label' : String}
    (alike : Alike label.toList label'.toList) : g.nodeByLabel label' = g.nodeByLabel label := by
  rw [Graph.nodeByLabel, Graph.nodeByLabel, alike.lower]

section Starting

variable {η δ α β : Type} {scene : Scene η δ}

/-- Whether two ways of going on from a scene come to the same, but for what is entered in the
journal, or fail with the same fault. -/
def ComeToSame (x y : Play η δ α) (scene : Scene η δ) : Prop :=
  (∃ a j j', x scene = .ok a { scene with journal := j }
      ∧ y scene = .ok a { scene with journal := j' })
    ∨ ∃ f, x scene = .error f scene ∧ y scene = .error f scene

/-- What is looked up in the scene first is the same for both ways. -/
theorem ComeToSame.look {x : Play η δ α} {f f' : α → Play η δ β} {a : α}
    (found : x scene = .ok a scene) (further : ComeToSame (f a) (f' a) scene) :
    ComeToSame (x >>= f) (x >>= f') scene := by
  rw [ComeToSame, Play.bind_ok found, Play.bind_ok found]
  exact further

theorem ComeToSame.fail {x : Play η δ α} {f f' : α → Play η δ β} {fault : Fault}
    (failed : x scene = .error fault scene) : ComeToSame (x >>= f) (x >>= f') scene :=
  .inr ⟨fault, Play.bind_error failed, Play.bind_error failed⟩

/-- A dialogue starts from the same node by a label in any mixture of cases. -/
theorem startNode_alike {label label' : String} (alike : Alike label.toList label'.toList)
    (scene : Scene η δ) :
    ComeToSame (Dialogue.startNode (some label)) (Dialogue.startNode (some label')) scene := by
  have blank : label = "" ↔ label' = "" := by
    rw [← String.toList_eq_nil_iff, ← String.toList_eq_nil_iff]
    exact alike.eq_nil
  rw [Dialogue.startNode, Dialogue.startNode]
  refine .look rfl ?_
  cases scene.dialogue.graph.firstNode with
  | error f => exact .fail rfl
  | ok first =>
    refine .look rfl ?_
    rw [Option.getD_some, Option.getD_some]
    by_cases empty : label = ""
    · rw [if_pos empty, if_pos (blank.1 empty)]
      exact .inl ⟨first, _, _, rfl, rfl⟩
    · rw [if_neg empty, if_neg fun other => empty (blank.2 other), nodeByLabel_alike _ alike]
      cases scene.dialogue.graph.nodeByLabel label with
      | error f => exact .fail rfl
      | ok named =>
        refine .look rfl ?_
        cases named with
        | none => exact .inl ⟨first, _, _, rfl, rfl⟩
        | some node =>
          dsimp only
          split
          · exact .inl ⟨first, _, _, rfl, rfl⟩
          · exact .inl ⟨some node, _, _, rfl, rfl⟩

end Starting

/-! ### Labels, whatever their case -/

theorem read_goto {s : List Char} {name : String} (read : Statement.read s = .goto name) :
    Text.lower name = name := by
  cases command : (bracketed? s).bind command? with
  | none =>
    obtain ⟨_, same⟩ | ⟨_, same⟩ | ⟨_, _, same⟩ | ⟨_, same⟩ | ⟨_, same⟩ :=
      read_of_no_command command <;> rw [read] at same <;> cases same
  | some c =>
    obtain ⟨inner, _, found⟩ := Option.bind_eq_some_iff.mp command
    obtain ⟨_, same⟩ | same := read_of_command command
    · rw [read] at same
      cases same
    · rw [← same, read] at found
      obtain ⟨rest, begins⟩ := afterKeywords?_of_goto found
      rw [command?_goto begins] at found
      obtain ⟨word, _, named⟩ := Option.map_eq_some_iff.1 found
      cases named
      exact Text.lower_lower _

/-- A line names a label in lower case. -/
theorem LineNames.lower {tabWidth : Nat} {raw : List Char} {name : String}
    (names : LineNames tabWidth raw name) : Text.lower name = name := by
  obtain ⟨_, _, _, label | goto⟩ := names
  · exact read_label label
  · exact read_goto goto

/-- The case of letters in labels makes no difference: not to the graph that a script compiles to,
nor to whether it does, nor to the node that a graph or a dialogue finds by a label. That goes for
the label that ends a dialogue as well, unless a line names it and it is given in lower case only
once. -/
theorem labels_caseless {s s' : Settings} (name : String) {text text' : String}
    (width : s'.tabWidth = s.tabWidth) (digits : s'.textIdLength = s.textIdLength)
    (ends : Alike s.endLabel.toList s'.endLabel.toList)
    (folded : (Text.lower s.endLabel = s.endLabel ↔ Text.lower s'.endLabel = s'.endLabel)
      ∨ ∀ raw ∈ Text.lines text.toList, ¬ LineNames s.tabWidth raw (Text.lower s.endLabel))
    (recased :
      List.Forall₂ (Recased s.tabWidth) (Text.lines text.toList) (Text.lines text'.toList)) :
    Both Compilation.Echoes (compile s name text) (compile s' name text')
      ∧ ∀ label label' : String, Alike label.toList label'.toList →
        (∀ g : Graph, g.nodeByLabel label' = g.nodeByLabel label)
          ∧ ∀ (η δ : Type) (scene : Scene η δ),
            ComeToSame (Dialogue.startNode (some label)) (Dialogue.startNode (some label'))
              scene := by
  refine ⟨compile_recased name width digits ?_ recased, fun label label' alike =>
    ⟨fun g => nodeByLabel_alike g alike, fun η δ scene => startNode_alike alike scene⟩⟩
  intro raw member label names
  -- a label that a line names is the end's only if that is given in lower case
  have isEnd (last : String) : label = last ↔ label = Text.lower last ∧ Text.lower last = last := by
    constructor
    · rintro rfl
      exact ⟨names.lower.symm, names.lower⟩
    · rintro ⟨same, low⟩
      exact same.trans low
  -- both end labels have the same lower case, so they differ only in whether it is their own
  rw [isEnd s.endLabel, isEnd s'.endLabel, ← ends.lower]
  refine and_congr_right fun same => ?_
  have named : LineNames s.tabWidth raw (Text.lower s.endLabel) := same ▸ names
  have both := folded.resolve_right fun unnamed => unnamed raw member named
  rwa [← ends.lower] at both

/-- The standard settings but for the label that ends a dialogue. -/
def endingAt (label : String) (given : label ≠ "") : Settings :=
  { Settings.standard with endLabel := label, label_range := given }

/-- Labels in any mixture of cases, where the end has a label that no line of the script names. -/
theorem labels_caseless_mixed :
    ((compile (endingAt "Quit" (by decide)) "script"
        "A: hi\n:Bar\nB: x\n[goto bar]").toOption.any (·.graph.isSome)) = true
      ∧ Both Compilation.Echoes
          (compile (endingAt "Quit" (by decide)) "script" "A: hi\n:Bar\nB: x\n[goto bar]")
          (compile (endingAt "qUIT" (by decide)) "script" "A: hi\n:bAR\nB: x\n[Goto BaR]")
      ∧ ∀ g : Graph, g.nodeByLabel "BAR" = g.nodeByLabel "Bar" := by
  have label : LineNames 4 ":Bar".toList "bar" :=
    ⟨0, ⟨0, 0, ":Bar".toList, ""⟩, by decide +kernel, .inl (by decide +kernel)⟩
  have goto : LineNames 4 "[goto bar]".toList "bar" :=
    ⟨0, ⟨0, 0, "[goto bar]".toList, ""⟩, by decide +kernel, .inr (by decide +kernel)⟩
  have recased : List.Forall₂ (Recased 4)
      ["A: hi".toList, ":Bar".toList, "B: x".toList, "[goto bar]".toList]
      ["A: hi".toList, ":bAR".toList, "B: x".toList, "[Goto BaR]".toList] :=
    .cons (.inl rfl) (.cons (.inr ⟨by decide +kernel, _, label⟩) (.cons (.inl rfl)
      (.cons (.inr ⟨by decide +kernel, _, goto⟩) .nil)))
  have both := @labels_caseless (endingAt "Quit" (by decide)) (endingAt "qUIT" (by decide)) "script"
    "A: hi\n:Bar\nB: x\n[goto bar]" "A: hi\n:bAR\nB: x\n[Goto BaR]" rfl rfl (by decide +kernel)
    (.inl (by decide +kernel)) recased
  exact ⟨by decide +kernel, both.1, (both.2 "Bar" "BAR" (by decide +kernel)).1⟩

/-- The label that ends a dialogue is not the same in any case: a line can name it only if it is
given in lower case. -/
theorem end_label_not_folded : ¬ ∀ (s s' : Settings) (name text text' : String),
    s'.tabWidth = s.tabWidth → s'.textIdLength = s.textIdLength →
    Alike s.endLabel.toList s'.endLabel.toList →
    List.Forall₂ (Recased s.tabWidth) (Text.lines text.toList) (Text.lines text'.toList) →
    Both (fun c c' => c'.graph = c.graph) (compile s name text) (compile s' name text') := by
  intro caseless
  have both := caseless .standard (endingAt "END" (by decide)) "script" "A: hi\n[goto end]\n"
    "A: hi\n[goto end]\n" rfl rfl (by decide +kernel) (List.forall₂_same.2 fun _ _ => .inl rfl)
  have graph : ((compile .standard "script" "A: hi\n[goto end]\n").toOption.map
      fun c => c.graph.isSome) = some true := by
    decide +kernel
  have noGraph : ((compile (endingAt "END" (by decide)) "script"
      "A: hi\n[goto end]\n").toOption.map fun c => c.graph.isSome) = some false := by
    decide +kernel
  obtain ⟨c, c', compiled, compiled', same⟩ | ⟨f, failed, _⟩ := both.outcomes
  · rw [compiled] at graph
    rw [compiled'] at noGraph
    simp only [Except.toOption, Option.map_some, Option.some.injEq, same] at graph noGraph
    rw [graph] at noGraph
    cases noGraph
  · rw [failed] at graph
    cases graph

end Script

end Colloquy
