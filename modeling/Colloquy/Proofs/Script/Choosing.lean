import Colloquy.Proofs.Script.Collecting
/-!
# Reading option lists

A list of options begins with a choice, to which all edges lead that wait before the list. From then
on its options and blocks are added to that choice, and the lists in the branches of a block begin
choices of their own. So in the end the edges of the choice are those of the list.
-/

namespace Colloquy.Script

/-! ### Beginning a list -/

namespace Builder

variable {b : Builder} {line indent : Nat}

/-- What waits leads to a node that is added. -/
theorem append_leads (sound : b.Sound) (d : Draft) {r : EdgeRef} (near : b.Near r) :
    EdgeLeads (b.append d true).nodes r (.to b.nodes.length) := by
  obtain ⟨i, slot⟩ := r
  have bound : i < b.nodes.length := by
    obtain member | ⟨_, loose, _⟩ := near
    · obtain ⟨e, there, _⟩ := sound.edges _ member
      exact edgeAt_lt there
    · exact looseAt_lt loose
  obtain ⟨d₁, now, _, ⟨loose, _, only⟩ | ⟨away, _, slots⟩⟩ :=
    append_old sound d (List.getElem?_eq_getElem bound)
  · obtain member | ⟨rfl, _⟩ := near
    · obtain ⟨e, there, _⟩ := sound.edges _ member
      rw [edgeAt_of_loose loose] at there
      cases there
    · exact ⟨continueEdge b.nodes.length, edgeAt_eq_some.mpr ⟨d₁, now, by rw [only]; rfl⟩, rfl⟩
  · obtain member | ⟨_, loose, waits⟩ := near
    · obtain ⟨e, there, _⟩ := sound.edges _ member
      refine ⟨e.aimed (.to b.nodes.length), ?_, rfl⟩
      rw [slots, if_pos member, there]
      rfl
    · exact absurd ⟨loose, waits⟩ away

/-- What is near waits in no frame. -/
theorem Sound.not_parked (sound : b.Sound) {r : EdgeRef} (near : b.Near r) :
    r ∉ b.stack.flatMap Frame.parked := by
  intro parked
  obtain member | ⟨_, loose, _⟩ := near
  · exact (List.nodup_append.mp sound.apart).2.2 r member r parked rfl
  · obtain ⟨e, there, _⟩ := sound.pending_tieable (List.mem_append_right _ parked)
    rw [edgeAt_of_loose loose] at there
    cases there

/-- Whether the innermost frame ends with a choice. -/
def EndsWithChoice (b : Builder) : Prop :=
  ∃ d, b.lastOf b.top = some d ∧ d.step.kind = .choice

theorem atChoice_begins (other : ¬ b.EndsWithChoice) :
    b.atChoice line indent = b.append ⟨.choice, line, indent, [], 0, []⟩ true := by
  unfold atChoice
  rw [if_neg]
  simpa [EndsWithChoice, Option.any_eq_true] using other

theorem follows_begins (other : ¬ b.EndsWithChoice) (indent : Nat) : b.follows indent = false := by
  unfold follows
  cases last : b.lastOf b.top with
  | none => rfl
  | some d =>
    have : d.step.kind ≠ .choice := fun kind => other ⟨d, last, kind⟩
    simp [this]

/-- A choice that has just begun. -/
theorem lastOf_append (b : Builder) (line indent : Nat) :
    ∃ d, (b.append ⟨.choice, line, indent, [], 0, []⟩ true).nodes[b.nodes.length]? = some d
      ∧ d.step = .choice ∧ d.indent = indent := by
  obtain ⟨d, there, core⟩ := append_getElem?_length b ⟨.choice, line, indent, [], 0, []⟩ true
  have step := congrArg Draft.step core
  have place := congrArg Draft.indent core
  exact ⟨d, there, step, place⟩

/-- An option that begins a list may find the choice begun. -/
theorem option_begun (other : ¬ b.EndsWithChoice) (text textId : String) :
    (b.append ⟨.choice, line, indent, [], 0, []⟩ true).option line indent text textId
      = b.option line indent text textId := by
  have begins : b.atChoice line indent = _ := atChoice_begins other
  obtain ⟨d, there, step, _⟩ := lastOf_append b line indent
  have joins : (b.append ⟨.choice, line, indent, [], 0, []⟩ true).atChoice line indent
      = b.append ⟨.choice, line, indent, [], 0, []⟩ true := by
    unfold atChoice lastOf
    rw [show (b.append ⟨.choice, line, indent, [], 0, []⟩ true).top.last = some b.nodes.length
      from rfl, Option.bind_some, there]
    simp only [step, Step.kind, Option.filter_some, decide_true, if_true, Option.isSome_some]
    rfl
  have ends : (b.append ⟨.choice, line, indent, [], 0, []⟩ true).top.last = some b.nodes.length :=
    rfl
  rw [option_eq text textId (by rw [joins]; exact ends),
    option_eq text textId (by rw [begins]; exact ends), joins, begins]

/-- So may a block that begins a list. -/
theorem openIf_begun (other : ¬ b.EndsWithChoice) (condition : Expression) :
    (b.append ⟨.choice, line, indent, [], 0, []⟩ true).openIf line indent condition true
      = b.openIf line indent condition true := by
  have apart := follows_begins other indent
  have head : b.atHead line indent = b.append ⟨.choice, line, indent, [], 0, []⟩ true := by
    rw [atHead, if_neg (by rw [apart]; exact Bool.noConfusion)]
  obtain ⟨d, there, step, place⟩ := lastOf_append b line indent
  have follows : (b.append ⟨.choice, line, indent, [], 0, []⟩ true).follows indent = true := by
    unfold follows lastOf
    rw [show (b.append ⟨.choice, line, indent, [], 0, []⟩ true).top.last = some b.nodes.length
      from rfl, Option.bind_some, there]
    simp [step, Step.kind, place]
  have joins : (b.append ⟨.choice, line, indent, [], 0, []⟩ true).atHead line indent
      = b.append ⟨.choice, line, indent, [], 0, []⟩ true := by
    rw [atHead, if_pos follows]
  have ends : (b.append ⟨.choice, line, indent, [], 0, []⟩ true).top.last = some b.nodes.length :=
    rfl
  rw [openIf_chained condition (Bool.or_true _) (by rw [joins]; exact ends),
    openIf_chained condition (Bool.or_true _) (by rw [head]; exact ends), joins, head]

end Builder

/-- Whether a line begins a list of options, being an option or an [if] directly before one. -/
def Line.Starts (l : Line) (ls : List Line) : Prop :=
  l.isOption = true
    ∨ (∃ condition, l.Guards l.indent .openIf condition) ∧ starred ls = true

theorem starred_of_isOption {l : Line} {ls : List Line} (isOption : l.isOption = true) :
    starred (l :: ls) = true := by
  unfold Line.isOption at isOption
  cases statement : Statement.read l.body with
  | option text => simp [starred, head?_of_option statement]
  | _ =>
    rw [statement] at isOption
    cases isOption

/-- A list that is known to be one starts with its first line. -/
theorem OptionList.starts {items : OptionList} (joined : items.isJoined = true)
    (filled : items ≠ .nil) {n : Nat} (written : items.Indented n) (ls : List Line) :
    ∃ l ls', items.lines ++ ls = l :: ls' ∧ l.indent = n ∧ l.Starts ls' := by
  cases items with
  | nil => exact absurd rfl filled
  | option line content rest => exact ⟨line, _, rfl, written.1, .inl written.2.1⟩
  | block line condition items more rest =>
    obtain ⟨guards, ⟨m, _, inside⟩, _⟩ := written
    have indent : line.indent = n := guards.choose_spec.1.1
    refine ⟨line, _, rfl, indent, .inr ⟨⟨condition, indent ▸ guards⟩, ?_⟩⟩
    cases items with
    | option => exact starred_of_isOption inside.2.1
    | _ => simp [isJoined, beginsWithOption] at joined

/-- A list of options may find the choice of its options begun. -/
theorem Finishes.begun {s : Settings} {final b : Builder} {l : Line} {ls : List Line}
    (finishes : Finishes s final b (l :: ls)) (fits : b.top.threshold ≤ l.indent)
    (other : ¬ b.EndsWithChoice) (starts : l.Starts ls) :
    Finishes s final (b.append ⟨.choice, l.number, l.indent, [], 0, []⟩ true) (l :: ls) := by
  cases finishes with
  | @line _ c b' _ _ rest steady read clean ahead same later =>
    refine .line ⟨steady.sound.append true trivial rfl, Builder.append_founded steady.founded,
      steady.clean⟩ (Eq.trans ?_ read) clean ahead same later
    unfold Builder.readBodyLine at read ⊢
    rw [Builder.settle_of_le fits] at read ⊢
    rw [Builder.settle_of_le (b := b.append ⟨.choice, l.number, l.indent, [], 0, []⟩ true) fits]
    obtain isOption | ⟨⟨condition, text, ⟨_, statement⟩, given⟩, next⟩ := starts
    · unfold Line.isOption at isOption
      cases statement : Statement.read l.body with
      | option text => exact congrArg Except.ok (Builder.option_begun other text l.textId)
      | _ =>
        rw [statement] at isOption
        cases isOption
    · rw [statement] at read ⊢
      dsimp only at read ⊢
      rw [Finishes.readCondition_of_expression? given] at read
      rw [Finishes.readCondition_of_expression? given, Finishes.readCondition_of_expression? given]
      cases read
      rw [ahead Finishes.openIf_filled, next]
      exact congrArg Except.ok (Builder.openIf_begun other condition)

/-! ### Reading a list -/

section Reading

variable (s : Settings) (final : Builder)

/-- Whether reading an option list at the indent of a choice adds it to that choice. -/
def OptionList.Adds (items : OptionList) : Prop :=
  ∀ {b : Builder} {n : Nat} {f : Frame} {rest : List Frame} {k count : Nat} {ls : List Line},
    items.Indented n → Collects b n f rest k count → Finishes s final b (items.lines ++ ls) →
    ∃ b' count', Finishes s final b' ls ∧ Collects b' n f rest k count'
      ∧ Widens final.nodes (fun i => i = k) b.nodes b'.nodes
      ∧ items.AddsAt final.nodes k count count'

/-- Whether reading what follows a branch adds it to the select of its block, and what waits in the
block is to end. -/
def Branching.Adds (more : Branching) : Prop :=
  ∀ {b : Builder} {n : Nat} {g : Frame} {block : Block} {f : Frame} {rest : List Frame}
    {count : Nat} {ls : List Line},
    more.Indented n → Splits b n g block f rest count → block.hasElse = false →
    Finishes s final b (more.lines ++ ls) →
    ∃ b', Finishes s final b' ls ∧ b'.stack = { f with last := some block.after } :: rest
      ∧ Widens final.nodes (fun i => i = block.select) b.nodes b'.nodes
      ∧ more.AddsAt final.nodes block.select count
      ∧ (∀ r ∈ block.looseEdges, EdgeLeads final.nodes r .end) ∧ EndsOpen final.nodes b n

end Reading

section Beginning

variable {s : Settings} {final b : Builder} {n : Nat} {ls : List Line}

/-- A list that begins one adds its options to a choice to which everything before leads. -/
theorem OptionList.Adds.begins {items : OptionList} (adds : items.Adds s final)
    (joined : items.isJoined = true) (filled : items ≠ .nil) (written : items.Indented n)
    (finishes : Finishes s final b (items.lines ++ ls)) (fits : b.top.threshold ≤ n)
    (other : ¬ b.EndsWithChoice) :
    ∃ b' k count, Finishes s final b' ls
      ∧ Collects b' n { b.top with last := some k } b.below k count
      ∧ Widens final.nodes (fun _ => False) b.nodes b'.nodes
      ∧ (∀ r, b.Near r → EdgeLeads final.nodes r (.to k))
      ∧ items.AddsAt final.nodes k 0 count := by
  obtain ⟨l, ls', lines, rfl, starts⟩ := items.starts joined filled written ls
  rw [lines] at finishes
  have begun := finishes.begun fits other starts
  have sound := finishes.sound
  obtain ⟨d, there, step, indent⟩ := Builder.lastOf_append b l.number l.indent
  have collects : Collects (b.append ⟨.choice, l.number, l.indent, [], 0, []⟩ true) l.indent
      { b.top with last := some b.nodes.length } b.below b.nodes.length 0 := by
    refine ⟨Builder.back_of_stack rfl fits, rfl, ⟨d, there, step, indent⟩,
      Builder.append_counts sound rfl true, fun g member retains => ?_⟩
    obtain rfl | inside := List.mem_cons.mp member
    · exact absurd (sound.top.endless.lt_of_retains retains) (Nat.lt_irrefl _)
    · have frame := sound.frames g (List.mem_cons_of_mem _ inside)
      exact absurd (frame.lt_of_retains retains) (Nat.lt_irrefl _)
  have grown := Builder.append_runs sound ⟨.choice, l.number, l.indent, [], 0, []⟩ true
  obtain ⟨b', count, later, now, widens, added⟩ := adds written collects (lines ▸ begun)
  refine ⟨b', b.nodes.length, count, later, now, ?_, fun r near => ?_, added⟩
  · refine Widens.trans_new (grown.mono (fun i runs => .inr (runs.mono begun.grows.nodes))
      fun _ _ => trivial) (widens.mono ?_)
    rintro i rfl
    exact .inr (Nat.le_refl _)
  · obtain ⟨e, leads, destination⟩ := Builder.append_leads sound _ near
    obtain ⟨e', last, _, fixed⟩ := begun.edge leads
    refine ⟨e', last, ?_⟩
    rw [fixed fun waits => ?_]
    · exact destination
    · exact sound.not_parked near waits

/-- Whether a line ends a branch of a block at an indent. -/
def Line.EndsBranch (l : Line) (indent : Nat) : Prop :=
  l.indent = indent ∧ l.joins = false ∧ l.isLabel = false

theorem Line.EndsBranch.of_read {l : Line} {statement : Statement} (indent : l.indent = n)
    (read : Statement.read l.body = statement)
    (kind : statement = .endIf ∨ statement = .otherwise ∨ ∃ text, statement = .elseIf text) :
    l.EndsBranch n := by
  refine ⟨indent, ?_, ?_⟩
  · unfold Line.joins
    obtain rfl | rfl | ⟨text, rfl⟩ := kind <;> rw [read]
  · unfold Line.isLabel
    obtain rfl | rfl | ⟨text, rfl⟩ := kind <;> rw [read]

/-- What follows a branch begins with a line that ends it. -/
theorem Branching.Indented.endsBranch {more : Branching} (written : more.Indented n) (ls : List Line) :
    ∃ l ls', more.lines ++ ls = l :: ls' ∧ l.EndsBranch n := by
  cases more with
  | endIf line => exact ⟨line, _, rfl, .of_read written.1 written.2 (.inl rfl)⟩
  | otherwise line items last =>
    exact ⟨line, _, rfl, .of_read written.1.1 written.1.2 (.inr (.inl rfl))⟩
  | elseIf line condition items more =>
    obtain ⟨text, ⟨indent, read⟩, _⟩ := written.1
    exact ⟨line, _, rfl, .of_read indent read (.inr (.inr ⟨text, rfl⟩))⟩

/-- The list in a branch, which leads to the choice of the list or, if that is empty, to the end as
soon as everything does that waits at the end of the branch. -/
theorem Begins.items {items : OptionList} (adds : items.Adds s final)
    (joined : items.isJoined = true) {g f : Frame} {block : Block} {rest : List Frame}
    {slot : Nat} {condition : Expression} (begins : Begins b n g block f rest slot condition)
    (written : ∃ m, n ≤ m ∧ items.Indented m) {l : Line} (ends : l.EndsBranch n)
    (finishes : Finishes s final b (items.lines ++ l :: ls)) :
    ∃ b' g', Finishes s final b' (l :: ls) ∧ Splits b' n g' block f rest (slot + 1)
      ∧ Widens final.nodes (fun _ => False) b.nodes b'.nodes
      ∧ (EndsOpen final.nodes b' n → ∃ destination,
        BranchEdge final.nodes block.select slot condition destination
          ∧ items.Enters final.nodes destination) := by
  obtain ⟨m, inside, written⟩ := written
  obtain ⟨destination, e, there, kind, sameCondition, _⟩ := begins.edge
  obtain ⟨e', last, core, _⟩ := finishes.edge there
  have branch {destination : Destination}
      (leads : EdgeLeads final.nodes ⟨block.select, slot⟩ destination) :
      BranchEdge final.nodes block.select slot condition destination := by
    obtain ⟨e₁, found, leads⟩ := leads
    cases last.symm.trans found
    exact ⟨e', found, (DraftEdge.kind_eq_of_core core).trans kind,
      (congrArg DraftEdge.condition core).trans sameCondition, leads⟩
  obtain ⟨rfl, below⟩ := List.cons.inj begins.stack
  have isSelect := (finishes.sound.top.block block begins.splits.kind).1
  by_cases filled : items = .nil
  · subst filled
    refine ⟨b, _, finishes, begins.splits, .refl _ _ _, fun ended => ⟨.end, branch ?_, .nil⟩⟩
    refine ended begins.splits.back.fits ⟨block.select, slot⟩ ?_
    rw [begins.near]
    exact List.mem_singleton_self _
  · have other : ¬ b.EndsWithChoice := by
      rintro ⟨d, ends, choice⟩
      obtain ⟨d', there, step⟩ := isSelect
      rw [Builder.lastOf, begins.last, Option.bind_some, there] at ends
      cases ends
      rw [step] at choice
      cases choice
    obtain ⟨b', k, count, later, collects, widens, leads, added⟩ :=
      adds.begins joined filled written finishes
        (Nat.le_trans begins.splits.back.fits inside) other
    rw [below] at collects
    have counts : Counts final.nodes k count := by
      refine collects.closed later fun l' first => ?_
      rw [List.find?_cons_of_pos (by simp [ends.2.2])] at first
      cases first
      exact ⟨ends.1 ▸ inside, .inl ends.2.1⟩
    have choice : IsChoice final.nodes k m := collects.choice.mono later.grows.nodes
    have free : ¬ (False ∨ RunsOn final.nodes block.select) := by
      rintro (no | runs)
      · exact no
      · exact (isSelect.mono finishes.grows.nodes).not_runsOn runs
    refine ⟨b', _, later, ⟨collects.back.lower inside begins.splits.back.fits, begins.splits.kind,
      begins.splits.chained, begins.splits.counts.mono widens free, begins.splits.alone,
      begins.splits.apart⟩, widens, fun _ => ⟨.to k, branch ?_, .choice choice counts added⟩⟩
    refine leads ⟨block.select, slot⟩ (.inl ?_)
    rw [begins.near]
    exact List.mem_singleton_self _

end Beginning

/-! ### Case by case -/

section Cases

variable {s : Settings} {final : Builder} {items rest : OptionList} {more : Branching} {line : Line}
  {condition : Expression}

theorem OptionList.Adds.nil : OptionList.Adds s final .nil :=
  fun _ collects finishes => ⟨_, _, finishes, collects, .refl _ _ _, .nil⟩

theorem OptionList.Adds.option {content : List Line} (later : rest.Adds s final) :
    OptionList.Adds s final (.option line content rest) := by
  intro b n f frames k count ls written collects finishes
  obtain ⟨indent, isOption, inside, written⟩ := written
  rw [lines, List.cons_append, List.append_assoc] at finishes
  obtain ⟨b₁, finishes, collects, first, edge⟩ :=
    collects.option finishes indent isOption inside
  obtain ⟨b₂, count', finishes, collects, second, added⟩ := later written collects finishes
  exact ⟨b₂, count', finishes, collects, first.trans second, .option edge added⟩

/-- A block adds one edge to the choice, as what is in its branches adds none. -/
theorem OptionList.Adds.block (joined : items.isJoined = true) (inside : items.Adds s final)
    (others : more.Adds s final) (later : rest.Adds s final) :
    OptionList.Adds s final (.block line condition items more rest) := by
  intro b n f frames k count ls written collects finishes
  obtain ⟨guards, list, branches, written⟩ := written
  rw [lines, List.cons_append, List.append_assoc, List.append_assoc] at finishes
  obtain ⟨b₁, g, block, finishes, begins, after, open_, late, counts, first, chain⟩ :=
    collects.openIf finishes guards
  obtain ⟨l, ls', next, ends⟩ := branches.endsBranch (rest.lines ++ ls)
  rw [next] at finishes
  obtain ⟨b₂, g', finishes, splits, second, enters⟩ :=
    begins.items inside joined list ends finishes
  rw [← next] at finishes
  obtain ⟨b₃, finishes, frame, third, added, _, ended⟩ := others branches splits open_ finishes
  obtain ⟨destination, edge, enters⟩ := enters ended
  -- the choice has been left alone since its edge was added
  have bound := collects.choice.lt
  have choice := ((collects.choice.mono first).mono second).mono third
  have runs : ¬ RunsOn final.nodes k := (choice.mono finishes.grows.nodes).not_runsOn
  have now : Collects b₃ n f frames k (count + 1) := by
    have same : { f with last := some block.after } = f := by
      rw [after, ← collects.last]
    rw [same] at frame
    refine ⟨Builder.back_of_stack frame collects.back.fits, collects.last, choice, ?_,
      collects.alone⟩
    refine (counts.mono second ?_).mono third ?_
    · exact fun held => held.elim id runs
    · rintro (here | held)
      · omega
      · exact runs held
  obtain ⟨b₄, count', finishes, collects, fourth, more⟩ := later written now finishes
  refine ⟨b₄, count', finishes, collects, ?_, .block chain (.elseIf edge enters added) more⟩
  refine (first.trans_new ((second.mono fun _ => False.elim).trans (third.mono ?_))).trans fourth
  rintro i rfl
  exact .inr late

theorem Branching.Adds.endIf : Branching.Adds s final (.endIf line) := by
  intro b n g block f frames count ls written splits _ finishes
  obtain ⟨b', finishes, frame, widens, counts, leads, ended⟩ := splits.close finishes written
  exact ⟨b', finishes, frame, widens.mono fun _ => False.elim, .endIf counts, leads, ended⟩

theorem Branching.Adds.otherwise {last : Line} (joined : items.isJoined = true)
    (inside : items.Adds s final) : Branching.Adds s final (.otherwise line items last) := by
  intro b n g block f frames count ls written splits open_ finishes
  obtain ⟨first, list, final⟩ := written
  rw [lines, List.cons_append, List.append_assoc] at finishes
  have first : line.Branches n none := first
  obtain ⟨b₁, g₁, block₁, finishes, begins, select, after, _, started, earlier, waiting⟩ :=
    splits.branch open_ finishes first
  obtain ⟨b₂, g₂, finishes, splits, widens, enters⟩ :=
    begins.items inside joined list (.of_read final.1 final.2 (.inl rfl)) finishes
  obtain ⟨b₃, finishes, frame, ended, _, leads, closed⟩ := splits.close finishes final
  obtain ⟨destination, edge, enters⟩ := enters closed
  rw [select] at edge
  rw [after] at frame
  exact ⟨b₃, finishes, frame,
    (started.trans (widens.mono fun _ => False.elim)).trans (ended.mono fun _ => False.elim),
    .otherwise edge enters, fun r member => leads r (earlier r member),
    fun upper r member => leads r (waiting upper r member)⟩

theorem Branching.Adds.elseIf (joined : items.isJoined = true) (inside : items.Adds s final)
    (others : more.Adds s final) : Branching.Adds s final (.elseIf line condition items more) := by
  intro b n g block f frames count ls written splits open_ finishes
  obtain ⟨guards, list, branches⟩ := written
  have guards : line.Branches n (some condition) := guards
  rw [lines, List.cons_append, List.append_assoc] at finishes
  obtain ⟨b₁, g₁, block₁, finishes, begins, select, after, still, started, earlier, waiting⟩ :=
    splits.branch open_ finishes guards
  obtain ⟨l, ls', next, ends⟩ := branches.endsBranch ls
  rw [next] at finishes
  obtain ⟨b₂, g₂, finishes, splits, widens, enters⟩ :=
    begins.items inside joined list ends finishes
  rw [← next] at finishes
  obtain ⟨b₃, finishes, frame, more, added, leads, closed⟩ := others branches splits still finishes
  obtain ⟨destination, edge, enters⟩ := enters closed
  rw [select] at edge more added
  rw [after] at frame
  exact ⟨b₃, finishes, frame, (started.trans (widens.mono fun _ => False.elim)).trans more,
    .elseIf edge enters added, fun r member => leads r (earlier r member),
    fun upper r member => leads r (waiting upper r member)⟩

end Cases

section Whole

variable (s : Settings) (final : Builder)

mutual

/-- Reading an option list at the indent of a choice adds it to that choice. -/
theorem OptionList.adds : ∀ items : OptionList, items.isInward = true → items.Adds s final
  | .nil, _ => OptionList.Adds.nil
  | .option _ _ rest, inward => OptionList.Adds.option (OptionList.adds rest inward)
  | .block _ _ items more rest, inward => by
    simp only [OptionList.isInward, Bool.and_eq_true] at inward
    obtain ⟨⟨joined, branches⟩, later⟩ := inward
    exact OptionList.Adds.block joined
      (OptionList.adds items (OptionList.isInward_of_isJoined joined))
      (Branching.adds more branches) (OptionList.adds rest later)

/-- Reading what follows a branch adds it to the select of its block. -/
theorem Branching.adds : ∀ more : Branching, more.isJoined = true → more.Adds s final
  | .endIf _, _ => Branching.Adds.endIf
  | .otherwise _ items _, joined =>
    Branching.Adds.otherwise joined
      (OptionList.adds items (OptionList.isInward_of_isJoined joined))
  | .elseIf _ _ items more, joined => by
    simp only [Branching.isJoined, Bool.and_eq_true] at joined
    exact Branching.Adds.elseIf joined.1
      (OptionList.adds items (OptionList.isInward_of_isJoined joined.1))
      (Branching.adds more joined.2)

end

end Whole

/-! ### Behind a line -/

section Behind

variable {s : Settings} {final b : Builder} {n : Nat} {t : Line} {ls before after : List Line}

theorem Founded.dropWhile {m floor : Nat} {frames : List Frame} (founded : Founded m floor frames)
    (bound : floor ≤ n) : Founded m floor (frames.dropWhile fun f => n < f.threshold) := by
  induction founded with
  | @floor f rest count same noBlock =>
    rw [List.dropWhile_cons_of_neg (by simp; omega)]
    exact .floor count same noBlock
  | @above f rest above founded ih =>
    by_cases closes : n < f.threshold
    · rw [List.dropWhile_cons_of_pos (by simpa using closes)]
      exact ih
    · rw [List.dropWhile_cons_of_neg (by simpa using closes)]
      exact .above above founded

theorem Founded.le_threshold {m floor : Nat} {f : Frame} {rest : List Frame}
    (founded : Founded m floor (f :: rest)) : floor ≤ f.threshold := by
  cases founded with
  | floor _ same _ => exact Nat.le_of_eq same.symm
  | above above _ => exact above

/-- Of a line that is said comes one node, which leads to the list of options that follows it. -/
theorem Finishes.behind {items : OptionList} (joined : items.isJoined = true)
    (filled : items ≠ .nil) (written : items.Indented n) (said : t.isSaid = true)
    (deep : t.indent ≤ n) (whole : IsWhole before t n after)
    (finishes : Finishes s final b (before ++ t :: (items.lines ++ after))) (start : b.nodes = [])
    (sorted : (before ++ t :: (items.lines ++ after)).Pairwise (·.number < ·.number)) :
    ∃ i destination, (∀ j d, final.nodes[j]? = some d → d.line = t.number → j = i)
      ∧ EdgeLeads final.nodes ⟨i, 0⟩ destination ∧ items.Enters final.nodes destination := by
  obtain ⟨_, ordered, earlier⟩ := List.pairwise_append.mp sorted
  obtain ⟨b₁, atLine, proceeds, encloses⟩ := finishes.through
  obtain ⟨first, _⟩ := proceeds finishes.steady.founded fun _ _ => Nat.zero_le _
  obtain ⟨c, leaves, fits, now⟩ := atLine.settled
  obtain ⟨speaker, text, b₂, same, later⟩ := now.at_said fits said
  have appended := Builder.append_runs now.sound ⟨.text speaker text t.textId
    (Template.params text), t.number, t.indent, [], 0, []⟩ true
  rw [← same.nodes] at appended
  obtain ⟨d, there, core, bare⟩ := Builder.append_new (b := c) (d := ⟨.text speaker text t.textId
    (Template.params text), t.number, t.indent, [], 0, []⟩) now.sound rfl
  rw [← same.nodes] at there
  have step : d.step = .text speaker text t.textId (Template.params text) :=
    congrArg Draft.step core
  obtain ⟨top, below⟩ := List.cons.inj same.stack
  have last : b₂.top.last = some c.nodes.length := by
    rw [top]
    rfl
  have threshold : b₂.top.threshold = c.top.threshold := by
    rw [top]
    rfl
  have other : ¬ b₂.EndsWithChoice := by
    rintro ⟨d', ends, choice⟩
    rw [Builder.lastOf, last, Option.bind_some, there] at ends
    cases ends
    rw [step] at choice
    cases choice
  obtain ⟨b₃, k, count, finishes, collects, _, leads, added⟩ :=
    OptionList.Adds.begins (items.adds s final (OptionList.isInward_of_isJoined joined)) joined
      filled written later (by omega) other
  have counts : Counts final.nodes k count := by
    refine collects.closed finishes fun l found => ?_
    obtain ⟨lower, alone | ⟨o, inside, around, outside⟩⟩ := whole l found
    · exact ⟨lower, .inl alone⟩
    · -- the frame of the line is in that of the option, which a line outside closes
      obtain ⟨m, founded⟩ := encloses o inside
      have still := founded.dropWhile (n := t.indent) around
      rw [← leaves.stack] at still
      have := still.le_threshold
      exact ⟨lower, .inr (by show _ < b₂.top.threshold; omega)⟩
  refine ⟨c.nodes.length, .to k, fun j d' node number => ?_, leads _ (.inr ⟨rfl, ?_, .inr last⟩),
    .choice (collects.choice.mono finishes.grows.nodes) counts added⟩
  · have bound : j < b₂.nodes.length := by
      refine later.grows.old_of_place node fun ⟨l, member, place, _⟩ => ?_
      have := (List.pairwise_cons.mp ordered).1 l member
      omega
    have length : b₂.nodes.length = c.nodes.length + 1 := by
      rw [same.nodes]
      exact Builder.append_length ..
    by_contra different
    have old : j < b₁.nodes.length := by
      rw [← leaves.count]
      omega
    have node₁ := List.getElem?_eq_getElem old
    obtain ⟨d₂, node₂, core₂, _⟩ := leaves.nodes.node node₁
    obtain ⟨d₃, node₃, core₃, _⟩ := appended.node node₂
    obtain ⟨d₄, node₄, core₄, _⟩ := later.grows.nodes.node node₃
    cases node.symm.trans node₄
    have line := Draft.line_eq_of_core ((core₄.trans core₃).trans core₂)
    obtain ⟨l, member, place, _⟩ := (first.fresh j _ node₁ (by rw [start]; exact Nat.zero_le _)).place
    have := earlier l member t List.mem_cons_self
    omega
  · exact ⟨d, there, isLoose_iff.mpr ⟨by rw [step]; rfl, bare⟩⟩

end Behind

end Colloquy.Script
