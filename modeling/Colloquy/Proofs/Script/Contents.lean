import Colloquy.Proofs.Script.Growing
/-!
# The contents of options

An option contains the lines after it that are indented more than it is, up to the first one that is
not. Only lines of the body count: blank lines, comments and the header say nothing about it.
-/

namespace Colloquy.Script

theorem scan_number {tabWidth number : Nat} {raw : List Char} {l : Line}
    (scanned : scan tabWidth number raw = .line l) : l.number = number := by
  unfold scan at scanned
  dsimp only at scanned
  repeat' split at scanned
  all_goals cases scanned
  rfl

/-- The lines of the body among lines of which the first has a number. `inside` tells whether the
header is open before them. -/
def bodyFrom (s : Settings) : Bool → Nat → List (List Char) → List Line
  | _, _, [] => []
  | inside, number, raw :: rest =>
    match scan s.tabWidth number raw with
    | .empty => bodyFrom s inside (number + 1) rest
    | .delimiter => bodyFrom s (!inside) (number + 1) rest
    | .line l =>
      if inside then bodyFrom s inside (number + 1) rest
      else l :: bodyFrom s inside (number + 1) rest

/-- The lines of the body of a script. -/
def bodyLines (s : Settings) (text : String) : List Line :=
  bodyFrom s false 1 (Text.lines text.toList)

/-- Whether a line begins an option. -/
def Line.isOption (l : Line) : Bool :=
  match Statement.read l.body with
  | .option _ => true
  | _ => false

/-- Whether an option is among some lines and contains all that come after it. -/
def Line.Encloses (o : Line) (lines : List Line) : Prop :=
  ∃ earlier between, lines = earlier ++ o :: between ∧ o.isOption = true
    ∧ ∀ l ∈ between, o.indent < l.indent

/-- Whether an option contains the line with a number, among the lines of the body. -/
def Contains (lines : List Line) (o : Line) (number : Nat) : Prop :=
  o.number < number ∧ ∀ l ∈ lines, o.number < l.number → l.number ≤ number → o.indent < l.indent

instance (lines : List Line) (o : Line) (number : Nat) : Decidable (Contains lines o number) :=
  inferInstanceAs (Decidable (_ ∧ _))

theorem number_le_of_bodyFrom {s : Settings} {inside : Bool} {number : Nat}
    {lines : List (List Char)} {l : Line} (member : l ∈ bodyFrom s inside number lines) :
    number ≤ l.number := by
  induction lines generalizing inside number with
  | nil => cases member
  | cons raw rest ih =>
    have later {inside : Bool} (there : l ∈ bodyFrom s inside (number + 1) rest) :
        number ≤ l.number :=
      Nat.le_of_succ_le (ih there)
    rw [bodyFrom] at member
    split at member
    · exact later member
    · exact later member
    next first scanned =>
      split at member
      · exact later member
      · obtain rfl | there := List.mem_cons.1 member
        · exact Nat.le_of_eq (scan_number scanned).symm
        · exact later there

/-- The lines of a body are numbered in their order. -/
theorem bodyFrom_sorted {s : Settings} {inside : Bool} {number : Nat} {lines : List (List Char)} :
    (bodyFrom s inside number lines).Pairwise (·.number < ·.number) := by
  induction lines generalizing inside number with
  | nil => exact .nil
  | cons raw rest ih =>
    rw [bodyFrom]
    split
    · exact ih
    · exact ih
    next first scanned =>
      split
      · exact ih
      · refine .cons (fun l member => ?_) ih
        rw [scan_number scanned]
        exact number_le_of_bodyFrom member

theorem readBodyLine_option {s : Settings} {b c : Builder} {o : Line} {rest : List (List Char)}
    (isOption : o.isOption = true) (read : b.readBodyLine s o rest = .ok c) :
    ∃ text, c = (b.settle o.number o.indent).option o.number o.indent text o.textId := by
  unfold Line.isOption at isOption
  unfold Builder.readBodyLine at read
  cases statement : Statement.read o.body with
  | option text =>
    rw [statement] at read
    cases read
    exact ⟨text, rfl⟩
  | _ =>
    rw [statement] at isOption
    cases isOption

/-! ### The header in lines of the body -/

namespace Builder

variable {b c : Builder}

/-- What has been read of the header, and where reading it stands. -/
def heading (b : Builder) : List Draft × HeaderState :=
  (b.header, b.headerState)

theorem closeBlock_heading (b : Builder) (block : Block) (outer : Frame) (rest : List Frame) :
    (b.closeBlock block outer rest).heading = b.heading := by
  cases chained : block.chained with
  | true =>
    rw [closeBlock_chained b outer rest chained]
    rfl
  | false =>
    cases hasElse : block.hasElse with
    | true =>
      rw [closeBlock_complete b outer rest chained hasElse]
      rfl
    | false =>
      rw [closeBlock_partial b outer rest chained hasElse]
      rfl

theorem settle_heading (b : Builder) (line indent : Nat) :
    (b.settle line indent).heading = b.heading := by
  have popped (b : Builder) : (b.pop line).heading = b.heading := by
    unfold pop
    split
    · rfl
    · split
      · exact closeBlock_heading _ _ _ _
      · rfl
  unfold settle
  generalize b.below.length = fuel
  induction fuel generalizing b with
  | zero => rfl
  | succ fuel ih =>
    rw [popAbove]
    split
    · rfl
    · exact (ih _).trans (popped b)

theorem option_heading (b : Builder) (line indent : Nat) (text textId : String) :
    (b.option line indent text textId).heading = b.heading := by
  obtain ⟨choice, last⟩ := atChoice_last b line indent
  rw [option_eq text textId last]
  change (b.atChoice line indent).heading = b.heading
  unfold atChoice
  split <;> rfl

theorem openIf_heading (b : Builder) (line indent : Nat) (condition : Expression)
    (optionNext : Bool) :
    (b.openIf line indent condition optionNext).heading = b.heading := by
  cases chained : b.follows indent || optionNext with
  | true =>
    obtain ⟨choice, last⟩ := atHead_last (b := b) line indent
    rw [openIf_chained condition chained last]
    change (b.atHead line indent).heading = b.heading
    unfold atHead
    split <;> rfl
  | false =>
    simp only [Bool.or_eq_false_iff] at chained
    rw [chained.2, openIf_unchained condition chained.1]
    rfl

theorem addBranch_heading (b : Builder) (line : Nat) (condition : Option Expression)
    (keyword : String) : (b.addBranch line condition keyword).heading = b.heading := by
  unfold addBranch
  split
  · split <;> rfl
  · rfl

theorem readBodyLine_heading {s : Settings} {l : Line} {rest : List (List Char)}
    (read : b.readBodyLine s l rest = .ok c) : c.heading = b.heading := by
  rw [← settle_heading b l.number l.indent]
  unfold readBodyLine at read
  dsimp only at read
  generalize b.settle l.number l.indent = settled at read
  have condition_heading {c' : Builder} {text : String} {condition : Expression}
      (given : settled.readCondition l.number text = .ok (c', condition)) :
      c'.heading = settled.heading := by
    obtain ⟨_, rfl⟩ | ⟨_, _, _, rfl⟩ := readCondition_cases given <;> rfl
  split at read
  · cases read
    exact option_heading ..
  · obtain ⟨⟨c', condition⟩, given, last⟩ := bind_eq_ok.mp read
    cases last
    exact (openIf_heading ..).trans (condition_heading given)
  · obtain ⟨⟨c', condition⟩, given, last⟩ := bind_eq_ok.mp read
    cases last
    exact (addBranch_heading ..).trans (condition_heading given)
  · cases read
    exact addBranch_heading ..
  · cases read
    unfold endIf
    split
    · exact closeBlock_heading _ _ _ _
    · rfl
  · cases read
    unfold label
    repeat' split
    all_goals rfl
  · cases read
    rfl
  · obtain ⟨⟨c', draft⟩, given, last⟩ := bind_eq_ok.mp read
    cases last
    obtain ⟨_, _, rfl, rfl⟩ | ⟨_, _, rfl, rfl⟩ := readAssignment_cases given <;> rfl
  · obtain ⟨answer, _, last⟩ := bind_eq_ok.mp read
    cases answer <;> cases last <;> rfl
  · cases read
    rfl
  · cases read
    unfold bare
    repeat' split
    all_goals rfl
  · cases read
    rfl

theorem readBodyLine_headerState {s : Settings} {l : Line} {rest : List (List Char)}
    (read : b.readBodyLine s l rest = .ok c) : c.headerState = b.headerState :=
  congrArg Prod.snd (readBodyLine_heading read)

theorem readBodyLine_header {s : Settings} {l : Line} {rest : List (List Char)}
    (read : b.readBodyLine s l rest = .ok c) : c.header = b.header :=
  congrArg Prod.fst (readBodyLine_heading read)

/-! ### Reading line by line -/

/-- Two drafts that agree in all but labels, header and diagnostics. -/
structure SameBody (b c : Builder) : Prop where
  nodes : c.nodes = b.nodes
  stack : c.stack = b.stack
  looseEdges : c.looseEdges = b.looseEdges
  looseNodes : c.looseNodes = b.looseNodes

theorem SameBody.refl (b : Builder) : b.SameBody b :=
  ⟨rfl, rfl, rfl, rfl⟩

theorem SameBody.trans {a b c : Builder} (first : a.SameBody b) (second : b.SameBody c) :
    a.SameBody c :=
  ⟨second.nodes.trans first.nodes, second.stack.trans first.stack,
    second.looseEdges.trans first.looseEdges, second.looseNodes.trans first.looseNodes⟩

theorem delimiter_sameBody (b : Builder) (line : Nat) : b.SameBody (b.delimiter line) := by
  unfold delimiter
  dsimp only
  repeat' split
  all_goals exact ⟨rfl, rfl, rfl, rfl⟩

theorem delimiter_inside (b : Builder) (line : Nat) :
    (b.delimiter line).headerState.inside = !b.headerState.inside := by
  unfold delimiter
  dsimp only
  cases b.headerState.inside with
  | true => rfl
  | false =>
    rw [if_neg Bool.false_ne_true]
    repeat' split
    all_goals rfl

theorem readHeaderLine_same {l : Line} (read : b.readHeaderLine l = .ok c) :
    b.SameBody c ∧ c.headerState = b.headerState := by
  unfold readHeaderLine at read
  split at read
  · obtain ⟨⟨b₁, draft⟩, given, last⟩ := bind_eq_ok.mp read
    cases last
    obtain ⟨e, _, rfl, rfl⟩ | ⟨message, _, rfl, rfl⟩ := readAssignment_cases given
    · simp only [Option.elim_some, headerStep]
      split <;> exact ⟨⟨rfl, rfl, rfl, rfl⟩, rfl⟩
    · exact ⟨⟨rfl, rfl, rfl, rfl⟩, rfl⟩
  · cases read
    exact ⟨⟨rfl, rfl, rfl, rfl⟩, rfl⟩

/-- A line that is read either is one of the body, or changes nothing of it. -/
theorem readLine_cases {s : Settings} {number : Nat} {raw : List Char} {rest : List (List Char)}
    (read : b.readLine s number raw rest = .ok c) :
    (∃ l, scan s.tabWidth number raw = .line l ∧ b.headerState.inside = false
        ∧ b.readBodyLine s l rest = .ok c
        ∧ bodyFrom s b.headerState.inside number (raw :: rest)
          = l :: bodyFrom s c.headerState.inside (number + 1) rest)
      ∨ b.SameBody c ∧ bodyFrom s b.headerState.inside number (raw :: rest)
          = bodyFrom s c.headerState.inside (number + 1) rest := by
  unfold readLine at read
  rw [bodyFrom]
  cases scanned : scan s.tabWidth number raw with
  | empty =>
    rw [scanned] at read
    cases read
    exact .inr ⟨⟨rfl, rfl, rfl, rfl⟩, rfl⟩
  | delimiter =>
    rw [scanned] at read
    cases read
    refine .inr ⟨delimiter_sameBody b number, ?_⟩
    rw [delimiter_inside]
  | line l =>
    rw [scanned] at read
    dsimp only at read ⊢
    cases inside : b.headerState.inside with
    | true =>
      rw [inside, if_pos rfl] at read
      obtain ⟨same, header⟩ := readHeaderLine_same read
      exact .inr ⟨same, by rw [header, inside, if_pos rfl]⟩
    | false =>
      rw [inside, if_neg Bool.false_ne_true] at read
      refine .inl ⟨l, rfl, rfl, read, ?_⟩
      rw [if_neg Bool.false_ne_true, readBodyLine_headerState read, inside]

end Builder

end Colloquy.Script
