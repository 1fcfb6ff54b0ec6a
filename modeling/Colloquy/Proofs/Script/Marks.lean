import Colloquy.Proofs.Script.Contents
import Colloquy.Proofs.Script.Links
/-!
# What a line adds to a draft

Of what a line does to a draft, gotos and labels see little: which nodes it adds at the end, and
whether labels that wait get one of them. Everything else that happens while a line is read, such as
the closing of frames and the tying of loose ends, neither moves a node nor touches a label.
-/

namespace Colloquy.Script

/-- Where a node comes from and what it does. -/
def Draft.mark (d : Draft) : Nat × Step :=
  (d.line, d.step)

/-- The marks of all nodes. -/
def marks (nodes : List Draft) : List (Nat × Step) :=
  nodes.map Draft.mark

/-! ### Changes of edges -/

section Edges

variable (nodes : List Draft)

theorem marks_modify (i : Nat) {change : Draft → Draft} (same : ∀ d, (change d).mark = d.mark) :
    marks (nodes.modify i change) = marks nodes := by
  refine List.ext_getElem? fun j => ?_
  rw [marks, marks, List.getElem?_map, List.getElem?_map, List.getElem?_modify]
  cases nodes[j]? with
  | none => rfl
  | some d =>
    simp only [Option.map_some]
    split
    · exact congrArg some (same d)
    · rfl

@[simp] theorem marks_aim (destination : Destination) (r : EdgeRef) :
    marks (aim destination nodes r) = marks nodes :=
  marks_modify nodes r.node fun _ => rfl

@[simp] theorem marks_attach (i : Nat) (edge : DraftEdge) :
    marks (attach nodes i edge) = marks nodes :=
  marks_modify nodes i fun _ => rfl

@[simp] theorem marks_continueTo (target i : Nat) :
    marks (continueTo target nodes i) = marks nodes :=
  marks_modify nodes i fun d => by split <;> rfl

@[simp] theorem marks_foldl_aim (destination : Destination) (refs : List EdgeRef) :
    marks (refs.foldl (aim destination) nodes) = marks nodes := by
  induction refs generalizing nodes with
  | nil => rfl
  | cons r rest ih => rw [List.foldl_cons, ih, marks_aim]

@[simp] theorem marks_foldl_continueTo (target : Nat) (is : List Nat) :
    marks (is.foldl (continueTo target) nodes) = marks nodes := by
  induction is generalizing nodes with
  | nil => rfl
  | cons i rest ih => rw [List.foldl_cons, ih, marks_continueTo]

theorem marks_settleAll : marks (settleAll nodes) = marks nodes := by
  refine List.ext_getElem? fun i => ?_
  rw [marks, marks, List.getElem?_map, List.getElem?_map, settleAll_getElem?]
  cases nodes[i]? with
  | none => rfl
  | some d =>
    have same := @settleDraft_core nodes i d
    exact congrArg some (Prod.ext (Draft.line_eq_of_core same) (Draft.step_eq_of_core same))

end Edges

namespace Builder

@[simp] theorem marks_tieLast (target : Nat) (connect : Bool) (last : Option Nat)
    (nodes : List Draft) : marks (tieLast target connect last nodes) = marks nodes := by
  unfold tieLast
  split
  · split
    · exact marks_continueTo nodes target _
    · rfl
  · rfl

theorem marks_append (b : Builder) (d : Draft) (connect : Bool) :
    marks (b.append d connect).nodes = marks b.nodes ++ [d.mark] := by
  rw [append_nodes, marks_tieLast, marks_foldl_continueTo, marks_foldl_aim, extended, marks,
    List.map_append]
  rfl

/-! ### What is added -/

/-- The labels once those that wait have got the next node. -/
def withNext (b : Builder) : List (String × Option Nat) :=
  b.waiting.foldl (fun labels l => setEntry labels l.1 (some b.nodes.length)) b.labels

/-- `c` is `b` with new nodes, whose marks are `new`. The labels that wait get the first of them,
and nothing that is found wrong on the way is fatal. -/
structure Adds (new : List (Nat × Step)) (b c : Builder) : Prop where
  marks : marks c.nodes = marks b.nodes ++ new
  idle : new = [] → c.labels = b.labels ∧ c.waiting = b.waiting
  busy : new ≠ [] → c.labels = b.withNext ∧ c.waiting = []
  calm : ∀ d ∈ c.diagnostics, d.fatal = true → d ∈ b.diagnostics

namespace Adds

variable {a b c : Builder} {new more : List (Nat × Step)}

theorem length_eq (adds : Adds [] a b) : b.nodes.length = a.nodes.length := by
  have same := congrArg List.length adds.marks
  simpa [Script.marks] using same

theorem trans (first : Adds new a b) (second : Adds more b c) : Adds (new ++ more) a c := by
  refine ⟨?_, fun none => ?_, fun some => ?_, fun d member fatal => ?_⟩
  · rw [second.marks, first.marks, List.append_assoc]
  · obtain ⟨rfl, rfl⟩ := List.append_eq_nil_iff.mp none
    obtain ⟨labels, waiting⟩ := first.idle rfl
    obtain ⟨labels', waiting'⟩ := second.idle rfl
    exact ⟨labels'.trans labels, waiting'.trans waiting⟩
  · cases new with
    | nil =>
      -- The labels that wait have waited since the beginning.
      obtain ⟨labels, waiting⟩ := first.idle rfl
      obtain ⟨labels', waiting'⟩ := second.busy some
      refine ⟨labels'.trans ?_, waiting'⟩
      rw [withNext, withNext, labels, waiting, first.length_eq]
    | cons m rest =>
      obtain ⟨labels, waiting⟩ := first.busy (List.cons_ne_nil m rest)
      cases more with
      | nil =>
        obtain ⟨labels', waiting'⟩ := second.idle rfl
        exact ⟨labels'.trans labels, waiting'.trans waiting⟩
      | cons m' rest' =>
        obtain ⟨labels', waiting'⟩ := second.busy (List.cons_ne_nil m' rest')
        refine ⟨labels'.trans ?_, waiting'⟩
        rw [withNext, waiting]
        exact labels
  · exact first.calm d (second.calm d member fatal) fatal

/-- Nothing but edges and frames changes. -/
theorem still (nodes : Script.marks c.nodes = Script.marks b.nodes) (labels : c.labels = b.labels)
    (waiting : c.waiting = b.waiting) (notes : c.diagnostics = b.diagnostics) : Adds [] b c :=
  ⟨by rw [nodes, List.append_nil], fun _ => ⟨labels, waiting⟩, fun some => absurd rfl some,
    fun _ member _ => notes ▸ member⟩

theorem refl (b : Builder) : Adds [] b b :=
  .still rfl rfl rfl rfl

theorem note (b : Builder) {d : Diagnostic} (mild : d.fatal = false) : Adds [] b (b.note d) := by
  refine ⟨(List.append_nil _).symm, fun _ => ⟨rfl, rfl⟩, fun some => absurd rfl some,
    fun d' member fatal => ?_⟩
  obtain old | rfl := List.mem_append.mp member |>.imp_right List.mem_singleton.mp
  · exact old
  · rw [mild] at fatal
    cases fatal

theorem append (b : Builder) (d : Draft) (connect : Bool) :
    Adds [d.mark] b (b.append d connect) :=
  ⟨marks_append b d connect, fun none => absurd none (List.cons_ne_nil _ _),
    fun _ => ⟨rfl, rfl⟩, fun _ member _ => member⟩

theorem release (b : Builder) : Adds [] b b.release :=
  .still (marks_foldl_aim _ _ _) rfl rfl rfl

theorem closeBlock (b : Builder) (block : Block) (outer : Frame) (rest : List Frame) :
    Adds [] b (b.closeBlock block outer rest) := by
  cases chained : block.chained with
  | true =>
    rw [closeBlock_chained b outer rest chained]
    exact .still (marks_foldl_aim _ _ _) rfl rfl rfl
  | false =>
    cases hasElse : block.hasElse with
    | true =>
      rw [closeBlock_complete b outer rest chained hasElse]
      exact .still rfl rfl rfl rfl
    | false =>
      rw [closeBlock_partial b outer rest chained hasElse]
      exact .still (marks_attach _ _ _) rfl rfl rfl

theorem pop (b : Builder) (line : Nat) : Adds [] b (b.pop line) := by
  unfold Builder.pop
  split
  · exact .refl b
  · split
    · exact (note b rfl).trans (closeBlock _ _ _ _)
    · exact .still (marks_foldl_aim _ _ _) rfl rfl rfl

theorem settle (b : Builder) (line indent : Nat) : Adds [] b (b.settle line indent) := by
  unfold Builder.settle
  generalize b.below.length = fuel
  induction fuel generalizing b with
  | zero => exact .refl b
  | succ fuel ih =>
    rw [popAbove]
    split
    · exact .refl b
    · exact (pop b line).trans (ih _)

theorem popAll (b : Builder) (line fuel : Nat) : Adds [] b (popAll line fuel b) := by
  induction fuel generalizing b with
  | zero => exact .refl b
  | succ fuel ih =>
    rw [Builder.popAll]
    split
    · exact .refl b
    · exact (pop b line).trans (ih _)

/-! ### Statements -/

theorem option (b : Builder) (line indent : Nat) (text textId : String) :
    ∃ new, Adds new b (b.option line indent text textId) ∧ ∀ m ∈ new, m = (line, .choice) := by
  obtain ⟨choice, last⟩ := atChoice_last b line indent
  have head : ∃ new, Adds new b (b.atChoice line indent) ∧ ∀ m ∈ new, m = (line, .choice) := by
    unfold Builder.atChoice
    split
    · exact ⟨[], release b, by simp⟩
    · exact ⟨_, append b _ true, by simp [Draft.mark]⟩
  obtain ⟨new, adds, made⟩ := head
  rw [option_eq text textId last]
  refine ⟨new ++ [], adds.trans (.still (marks_attach _ _ _) rfl rfl rfl), ?_⟩
  rwa [List.append_nil]

theorem openIf (b : Builder) (line indent : Nat) (condition : Expression) (optionNext : Bool) :
    ∃ new, Adds new b (b.openIf line indent condition optionNext)
      ∧ ∀ m ∈ new, m = (line, .choice) ∨ m = (line, .select) := by
  cases chained : b.follows indent || optionNext with
  | true =>
    obtain ⟨choice, last⟩ := atHead_last (b := b) line indent
    have head : ∃ new, Adds new b (b.atHead line indent) ∧ ∀ m ∈ new, m = (line, .choice) := by
      unfold Builder.atHead
      split
      · exact ⟨[], .refl b, by simp⟩
      · exact ⟨_, append b _ true, by simp [Draft.mark]⟩
    obtain ⟨new, adds, made⟩ := head
    rw [openIf_chained condition chained last]
    have select := (release (b.atHead line indent)).trans
      (append (b.atHead line indent).release ⟨.select, line, indent, [], 0, []⟩ false)
    have entered : Adds [] ((b.atHead line indent).release.append
        ⟨.select, line, indent, [], 0, []⟩ false) (((b.atHead line indent).withChained choice line
          indent).enterBlock (blockFrame (b.atHead line indent).nodes.length choice line indent
            (b.atHead line indent).top.reach true) (b.atHead line indent).nodes.length
          (branchEdge line (b.atHead line indent).top.reach
            ((b.atHead line indent).withChained choice line indent).path condition)) :=
      .still ((marks_attach _ _ _).trans (marks_attach _ _ _)) rfl rfl rfl
    refine ⟨_, (adds.trans select).trans entered, fun m member => ?_⟩
    simp only [List.nil_append, List.append_nil, List.mem_append, List.mem_singleton] at member
    exact member.imp (made m) id
  | false =>
    simp only [Bool.or_eq_false_iff] at chained
    rw [chained.2, openIf_unchained condition chained.1]
    refine ⟨_, (append b ⟨.select, line, indent, [], 0, []⟩ true).trans
      (.still (marks_attach _ _ _) rfl rfl rfl), ?_⟩
    simp [Draft.mark]

theorem addBranch (b : Builder) (line : Nat) (condition : Option Expression) (keyword : String) :
    Adds [] b (b.addBranch line condition keyword) := by
  unfold Builder.addBranch
  split
  · split
    · exact note b rfl
    · exact .still (marks_attach _ _ _) rfl rfl rfl
  · exact note b rfl

theorem endIf (b : Builder) (line : Nat) : Adds [] b (b.endIf line) := by
  unfold Builder.endIf
  split
  · exact closeBlock _ _ _ _
  · exact note b rfl

theorem readCondition {line : Nat} {text : String} {condition : Expression}
    (read : b.readCondition line text = .ok (c, condition)) : Adds [] b c := by
  obtain ⟨_, rfl⟩ | ⟨_, _, _, rfl⟩ := readCondition_cases read
  · exact .refl _
  · exact note b rfl

theorem bare (b : Builder) (line indent : Nat) (text textId : String) :
    ∃ new, Adds new b (b.bare line indent text textId)
      ∧ ∀ m ∈ new, m.1 = line ∧ ∀ label, m.2 ≠ .goto label := by
  unfold Builder.bare
  split
  · split
    · exact ⟨[], note b rfl, by simp⟩
    · exact ⟨_, append b _ true, by simp [Draft.mark]⟩
  · exact ⟨[], note b rfl, by simp⟩

theorem delimiter (b : Builder) (line : Nat) : Adds [] b (b.delimiter line) := by
  have entered (state : HeaderState) : Adds [] b { b with headerState := state } :=
    .still rfl rfl rfl rfl
  unfold Builder.delimiter
  dsimp only
  split
  · exact entered _
  · split
    · exact (entered _).trans (note _ rfl)
    · split
      · exact (entered _).trans (note _ rfl)
      · exact entered _

theorem readHeaderLine {l : Line} (read : b.readHeaderLine l = .ok c) : Adds [] b c := by
  unfold Builder.readHeaderLine at read
  split at read
  · obtain ⟨⟨b', draft⟩, given, last⟩ := bind_eq_ok.mp read
    cases last
    obtain ⟨e, _, rfl, rfl⟩ | ⟨message, _, rfl, rfl⟩ := readAssignment_cases given
    · simp only [Option.elim_some, headerStep]
      split
      · exact .still rfl rfl rfl rfl
      · exact .refl _
    · exact note b rfl
  · cases read
    exact note b rfl

end Adds

/-! ### Lines -/

/-- Whether nodes can come of a line: they are of that line, and one is a goto just if the line
says so. -/
def ComeOf (l : Line) (new : List (Nat × Step)) : Prop :=
  (∀ m ∈ new, m.1 = l.number)
    ∧ ∀ label, (l.number, .goto label) ∈ new ↔ Statement.read l.body = .goto label

/-- Nodes of a line that is no goto. -/
theorem comeOf_of_plain {l : Line} {new : List (Nat × Step)}
    (other : ∀ label, Statement.read l.body ≠ .goto label)
    (made : ∀ m ∈ new, m.1 = l.number ∧ ∀ label, m.2 ≠ .goto label) : ComeOf l new :=
  ⟨fun m member => (made m member).1, fun label =>
    ⟨fun member => absurd rfl ((made _ member).2 label), fun goto => absurd goto (other label)⟩⟩

theorem assignStep_ne_goto (name : String) (e : Expression) (textId label : String) :
    assignStep name e textId ≠ .goto label := by
  unfold assignStep
  split <;> exact Step.noConfusion

/-- What a line of the body does besides closing frames: it declares a label, or adds nodes. -/
theorem readBodyLine_adds {s : Settings} {b c : Builder} {l : Line} {rest : List (List Char)}
    (read : b.readBodyLine s l rest = .ok c) :
    (∃ name, Statement.read l.body = .label name
        ∧ c = (b.settle l.number l.indent).label s.endLabel l.number name)
      ∨ (∀ name, Statement.read l.body ≠ .label name)
        ∧ ∃ new, Adds new (b.settle l.number l.indent) c ∧ ComeOf l new := by
  unfold readBodyLine at read
  dsimp only at read
  generalize b.settle l.number l.indent = b at read
  cases statement : Statement.read l.body with
  | label name =>
    rw [statement] at read
    cases read
    exact .inl ⟨name, rfl, rfl⟩
  | goto name =>
    rw [statement] at read
    cases read
    refine .inr ⟨fun _ => Statement.noConfusion, _, .append b _ true, ?_, fun label => ?_⟩
    · simp [Draft.mark]
    · simp [Draft.mark, statement, eq_comm]
  | option text =>
    rw [statement] at read
    cases read
    obtain ⟨new, adds, made⟩ := Adds.option b l.number l.indent text l.textId
    refine .inr ⟨fun _ => Statement.noConfusion, new, adds,
      comeOf_of_plain (by simp [statement]) fun m member => ?_⟩
    simp [made m member]
  | openIf text =>
    rw [statement] at read
    obtain ⟨⟨b', condition⟩, given, last⟩ := bind_eq_ok.mp read
    cases last
    obtain ⟨new, adds, made⟩ := Adds.openIf b' l.number l.indent condition (optionNext rest)
    refine .inr ⟨fun _ => Statement.noConfusion, new, (Adds.readCondition given).trans adds,
      comeOf_of_plain (by simp [statement]) fun m member => ?_⟩
    obtain rfl | rfl := made m member <;> simp
  | elseIf text =>
    rw [statement] at read
    obtain ⟨⟨b', condition⟩, given, last⟩ := bind_eq_ok.mp read
    cases last
    exact .inr ⟨fun _ => Statement.noConfusion, [],
      (Adds.readCondition given).trans (.addBranch b' _ _ _),
      comeOf_of_plain (by simp [statement]) (by simp)⟩
  | otherwise =>
    rw [statement] at read
    cases read
    exact .inr ⟨fun _ => Statement.noConfusion, [], .addBranch b _ _ _,
      comeOf_of_plain (by simp [statement]) (by simp)⟩
  | endIf =>
    rw [statement] at read
    cases read
    exact .inr ⟨fun _ => Statement.noConfusion, [], .endIf b _,
      comeOf_of_plain (by simp [statement]) (by simp)⟩
  | assign name text =>
    rw [statement] at read
    obtain ⟨⟨b', draft⟩, given, last⟩ := bind_eq_ok.mp read
    cases last
    obtain ⟨e, _, rfl, rfl⟩ | ⟨message, _, rfl, rfl⟩ := readAssignment_cases given
    · refine .inr ⟨fun _ => Statement.noConfusion, _, .append _ _ true,
        comeOf_of_plain (by simp [statement]) ?_⟩
      simp [Draft.mark, assignStep_ne_goto]
    · exact .inr ⟨fun _ => Statement.noConfusion, [], .note b rfl,
        comeOf_of_plain (by simp [statement]) (by simp)⟩
  | event name text =>
    rw [statement] at read
    obtain ⟨answer, _, last⟩ := bind_eq_ok.mp read
    cases answer with
    | ok args =>
      cases last
      refine .inr ⟨fun _ => Statement.noConfusion, _, .append b _ true,
        comeOf_of_plain (by simp [statement]) ?_⟩
      simp [Draft.mark]
    | error message =>
      cases last
      exact .inr ⟨fun _ => Statement.noConfusion, [], .note b rfl,
        comeOf_of_plain (by simp [statement]) (by simp)⟩
  | speech speaker text =>
    rw [statement] at read
    cases read
    refine .inr ⟨fun _ => Statement.noConfusion, _, .append b _ true,
      comeOf_of_plain (by simp [statement]) ?_⟩
    simp [Draft.mark]
  | bare text =>
    rw [statement] at read
    cases read
    refine .inr ⟨fun _ => Statement.noConfusion, ?_⟩
    obtain ⟨new, adds, made⟩ := Adds.bare b l.number l.indent text l.textId
    exact ⟨new, adds, comeOf_of_plain (by simp [statement]) made⟩
  | unknown text =>
    rw [statement] at read
    cases read
    exact .inr ⟨fun _ => Statement.noConfusion, [], .note b rfl,
      comeOf_of_plain (by simp [statement]) (by simp)⟩

/-- A line outside the body adds nothing, and a line of the body is read as one. -/
theorem readLine_adds {s : Settings} {b c : Builder} {number : Nat} {raw : List Char}
    {rest : List (List Char)} (read : b.readLine s number raw rest = .ok c) :
    (∃ l, l.number = number ∧ b.readBodyLine s l rest = .ok c
        ∧ bodyFrom s b.headerState.inside number (raw :: rest)
          = l :: bodyFrom s c.headerState.inside (number + 1) rest)
      ∨ Adds [] b c ∧ bodyFrom s b.headerState.inside number (raw :: rest)
          = bodyFrom s c.headerState.inside (number + 1) rest := by
  unfold readLine at read
  rw [bodyFrom]
  cases scanned : scan s.tabWidth number raw with
  | empty =>
    rw [scanned] at read
    cases read
    exact .inr ⟨.refl b, rfl⟩
  | delimiter =>
    rw [scanned] at read
    cases read
    refine .inr ⟨.delimiter b number, ?_⟩
    rw [delimiter_inside]
  | line l =>
    rw [scanned] at read
    dsimp only at read ⊢
    cases inside : b.headerState.inside with
    | true =>
      rw [inside, if_pos rfl] at read
      refine .inr ⟨.readHeaderLine read, ?_⟩
      rw [(readHeaderLine_same read).2, inside, if_pos rfl]
    | false =>
      rw [inside, if_neg Bool.false_ne_true] at read
      refine .inl ⟨l, scan_number scanned, read, ?_⟩
      rw [if_neg Bool.false_ne_true, readBodyLine_headerState read, inside]

end Builder

end Colloquy.Script
