import Colloquy.Proofs.Script.Closing
import Colloquy.Proofs.Script.LooseEnds
import Colloquy.Proofs.Script.Options
/-!
# Joining options

What the lines of an option list do to a draft, none of which is complained about. An option adds an
edge to the choice that its frame ends with, or begins one; so does a block, whose select holds the
branches.
-/

namespace Colloquy.Script

open Builder (Leaves Steady)

/-! ### What stays -/

/-- `new` comes of `old` by additions that give a further edge only to nodes in `held` and to steps
that run on. -/
def Widens (final : List Draft) (held : Nat → Prop) (old new : List Draft) : Prop :=
  Extends (fun i => held i ∨ RunsOn final i) (fun _ => True) old new

/-- Whether the node at a position has so many edges. -/
def Counts (nodes : List Draft) (i count : Nat) : Prop :=
  ∃ d, nodes[i]? = some d ∧ d.edges.length = count

/-- Whether there is a choice at a position, made at an indent. -/
def IsChoice (nodes : List Draft) (i indent : Nat) : Prop :=
  ∃ d, nodes[i]? = some d ∧ d.step = .choice ∧ d.indent = indent

section Persistence

variable {held : Nat → Prop} {loose : EdgeRef → Prop} {a b : List Draft} {i n : Nat}

theorem IsChoice.mono (grown : Extends held loose a b) (choice : IsChoice a i n) :
    IsChoice b i n := by
  obtain ⟨d, there, step, indent⟩ := choice
  obtain ⟨d', now, same, _⟩ := grown.node there
  exact ⟨d', now, (Draft.step_eq_of_core same).trans step,
    (Draft.indent_eq_of_core same).trans indent⟩

theorem IsChoice.lt (choice : IsChoice a i n) : i < a.length := by
  obtain ⟨d, there, _⟩ := choice
  exact (List.getElem?_eq_some_iff.mp there).1

theorem Counts.mono (grown : Extends held loose a b) {count : Nat} (counts : Counts a i count)
    (free : ¬ held i) : Counts b i count := by
  obtain ⟨d, there, length⟩ := counts
  obtain ⟨d', now, _, same⟩ := grown.node there
  exact ⟨d', now, (same free).trans length⟩

theorem IsChoice.not_runsOn (choice : IsChoice a i n) : ¬ RunsOn a i := by
  obtain ⟨d, there, step, _⟩ := choice
  rintro ⟨d', same, runs⟩
  cases there.symm.trans same
  rw [step] at runs
  cases runs

theorem IsChoice.ne_select (choice : IsChoice a i n) {select : Nat} (isSelect : IsSelect a select) :
    select ≠ i := by
  rintro rfl
  obtain ⟨d, there, step, _⟩ := choice
  obtain ⟨d', same, other⟩ := isSelect
  cases there.symm.trans same
  rw [step] at other
  cases other

theorem IsSelect.not_runsOn (select : IsSelect a i) : ¬ RunsOn a i := by
  obtain ⟨d, there, step⟩ := select
  rintro ⟨d', same, runs⟩
  cases there.symm.trans same
  rw [step] at runs
  cases runs

/-- Adding an edge to a node. -/
theorem Counts.attach {count : Nat} (counts : Counts a i count) (edge : DraftEdge) :
    Counts (attach a i edge) i (count + 1) := by
  obtain ⟨d, there, rfl⟩ := counts
  refine ⟨{ d with edges := d.edges ++ [edge] }, ?_, by simp⟩
  rw [attach_getElem?, if_pos rfl, there]
  rfl

/-- Where the next edge of a node will be there is none yet. -/
theorem Counts.absent {count : Nat} (counts : Counts a i count) : edgeAt a ⟨i, count⟩ = none := by
  obtain ⟨d, there, rfl⟩ := counts
  simp [edgeAt, there]

theorem nextEdge_of_counts {count : Nat} (counts : Counts a i count) :
    nextEdge a i = ⟨i, count⟩ := by
  obtain ⟨d, there, rfl⟩ := counts
  simp [nextEdge, there]

end Persistence

namespace Widens

variable {final : List Draft} {held held' : Nat → Prop} {a b c : List Draft}

theorem of_extends {loose : EdgeRef → Prop} (grown : Extends held loose a b) :
    Widens final held a b :=
  grown.mono (fun _ => .inl) fun _ _ => trivial

theorem trans (first : Widens final held a b) (second : Widens final held b c) :
    Widens final held a c :=
  Extends.trans first second

/-- What is added later may give further edges to nodes that are new. -/
theorem trans_new (first : Widens final held a b)
    (second : Widens final (fun i => held i ∨ a.length ≤ i) b c) : Widens final held a c := by
  refine Extends.trans_new first (second.mono ?_ fun _ => .inl)
  rintro i ((taken | late) | runs)
  · exact .inl (.inl taken)
  · exact .inr late
  · exact .inl (.inr runs)

theorem mono (widens : Widens final held a b) (more : ∀ i, held i → held' i) :
    Widens final held' a b :=
  Extends.mono widens (fun i => Or.imp_left (more i)) fun _ => id

end Widens

namespace Builder

variable {b : Builder}

theorem tieLast_runs (target : Nat) (connect : Bool) (last : Option Nat) (nodes : List Draft) :
    Extends (RunsOn nodes) (fun _ => False) nodes (tieLast target connect last nodes) := by
  unfold tieLast
  split
  next l =>
    split
    next loose =>
      refine (Extends.continueTo target nodes l).mono ?_ fun _ => id
      rintro i rfl
      cases there : nodes[i]? with
      | none => simp [there] at loose
      | some d =>
        simp only [there, Option.elim_some, Draft.isLoose, Bool.and_eq_true] at loose
        exact ⟨d, there, loose.2.1⟩
    · exact .refl _ _ _
  · exact .refl _ _ _

/-- Adding a node gives a further edge only to steps that run on. -/
theorem append_runs (sound : b.Sound) (d : Draft) (connect : Bool) :
    Extends (RunsOn (b.append d connect).nodes) (· ∈ b.looseEdges) b.nodes
      (b.append d connect).nodes := by
  have added : Extends (fun _ => False) (fun _ => False) b.nodes (b.extended d) :=
    Extends.append b.nodes _
  have whole := (added.mono (fun _ => False.elim) fun _ => False.elim).trans
    (append_extends b d connect)
  have aimed := Extends.foldl_aim (.to b.nodes.length) b.looseEdges (b.extended d)
  have continued := Extends.foldl_continueTo b.nodes.length b.looseNodes
    (b.looseEdges.foldl (aim (.to b.nodes.length)) (b.extended d))
  have tied := tieLast_runs b.nodes.length connect b.top.last
    (b.looseNodes.foldl (continueTo b.nodes.length)
      (b.looseEdges.foldl (aim (.to b.nodes.length)) (b.extended d)))
  rw [append_nodes] at whole ⊢
  refine (added.mono (fun _ => False.elim) fun _ => False.elim).trans
    ((aimed.mono (fun _ => False.elim) fun _ => id).trans
      ((continued.mono (fun i member => ?_) fun _ => False.elim).trans
        (tied.mono (fun i runs => ?_) fun _ => False.elim)))
  · exact (sound.loose i member).mono whole
  · exact runs.mono (tieLast_extends b.nodes.length connect b.top.last _)

/-- A node that is added has no edge yet. -/
theorem append_counts (sound : b.Sound) {d : Draft} (fresh : d.edges = []) (connect : Bool) :
    Counts (b.append d connect).nodes b.nodes.length 0 := by
  have there : (b.extended d)[b.nodes.length]?
      = some { d with reach := b.top.reach, path := b.path } := by
    simp [extended]
  obtain ⟨d', now, _, count⟩ := (append_extends b d connect).node there
  refine ⟨d', now, ?_⟩
  have free : ¬ (b.nodes.length ∈ b.looseNodes ∨ b.top.last = some b.nodes.length) := by
    rintro (member | last)
    · obtain ⟨d', there, _⟩ := sound.loose _ member
      exact absurd (List.getElem?_eq_some_iff.mp there).1 (Nat.lt_irrefl _)
    · exact absurd (sound.top.last _ last) (Nat.lt_irrefl _)
  rw [count free, fresh]
  rfl

/-- A text without a speaker is not complained about only if the line before it has one. -/
theorem bare_eq {line indent : Nat} {text textId : String}
    (clean : (b.bare line indent text textId).diagnostics = []) :
    ∃ speaker, b.bare line indent text textId = b.append
      ⟨.text speaker text textId (Template.params text), line, indent, [], 0, []⟩ true := by
  unfold bare at clean ⊢
  split
  · split
    · simp_all [note]
    · exact ⟨_, rfl⟩
  · simp_all [note]

theorem waits_zero {r : EdgeRef} : b.Waits 0 r ↔ r ∈ b.pending := by
  simp [Waits, pending]

end Builder

/-! ### To the end -/

namespace Finishes

variable {s : Settings} {final b : Builder} {ls : List Line}

theorem sound (finishes : Finishes s final b ls) : b.Sound :=
  finishes.steady.sound

/-- An edge stays, and unless it waits it leads where it does. -/
theorem edge (finishes : Finishes s final b ls) {r : EdgeRef} {e : DraftEdge}
    (there : edgeAt b.nodes r = some e) :
    ∃ e', edgeAt final.nodes r = some e' ∧ e'.core = e.core ∧ (r ∉ b.pending → e' = e) := by
  obtain ⟨e', now, core, fixed⟩ := finishes.grows.nodes.edge there
  exact ⟨e', now, core, fun idle => fixed fun waits => idle (Builder.waits_zero.mp waits)⟩

theorem counts (finishes : Finishes s final b ls) {i count : Nat} (counts : Counts b.nodes i count)
    (free : ¬ b.Holds 0 i) : Counts final.nodes i count :=
  counts.mono finishes.grows.nodes free

/-! ### Reading a line -/

variable {l : Line}

/-- A line first closes the frames that it is not indented enough for. -/
theorem settled (finishes : Finishes s final b (l :: ls)) :
    ∃ c, b.Leaves c l.indent ∧ c.top.threshold ≤ l.indent ∧ Finishes s final c (l :: ls) := by
  cases finishes with
  | @line _ c b' _ _ rest steady read clean ahead same later =>
    have settled : Builder.Proceeds (fun _ _ => True) 0 0 b (b.settle l.number l.indent) :=
      Builder.Proceeds.settle steady.founded l.number (Nat.zero_le _)
    rw [← Builder.readBodyLine_settle] at read
    have proceeds : Builder.Proceeds (fun _ _ => True) 0 0 (b.settle l.number l.indent) c :=
      Builder.Proceeds.readBodyLine settled.2 (Nat.zero_le _) trivial read
    have notes := proceeds.1.notes
    rw [clean] at notes
    have quiet := List.prefix_nil.mp notes
    refine ⟨_, Builder.settle_leaves steady.founded quiet,
      Builder.settle_fits steady.founded l.number l.indent, ?_⟩
    exact .line ⟨steady.sound.popAbove _ _ _, settled.2, quiet⟩ read clean ahead same later

/-- What a line says is done to the draft at once if it closes no frame. -/
theorem reads (finishes : Finishes s final b (l :: ls)) (fits : b.top.threshold ≤ l.indent) :
    ∃ c b' rest, b.settle l.number l.indent = b ∧ b.readBodyLine s l rest = .ok c
      ∧ c.diagnostics = [] ∧ (c.nodes ≠ [] → optionNext rest = starred ls) ∧ c.SameBody b'
      ∧ Finishes s final b' ls := by
  cases finishes with
  | line _ read clean ahead same later =>
    exact ⟨_, _, _, Builder.settle_of_le fits _, read, clean, ahead, same, later⟩

theorem at_said (finishes : Finishes s final b (l :: ls)) (fits : b.top.threshold ≤ l.indent)
    (said : l.isSaid = true) :
    ∃ speaker text b', (b.append ⟨.text speaker text l.textId (Template.params text), l.number,
        l.indent, [], 0, []⟩ true).SameBody b' ∧ Finishes s final b' ls := by
  obtain ⟨c, b', rest, same, read, clean, _, body, later⟩ := finishes.reads fits
  unfold Line.isSaid at said
  unfold Builder.readBodyLine at read
  rw [same] at read
  cases statement : Statement.read l.body with
  | speech speaker text =>
    rw [statement] at read
    cases read
    exact ⟨speaker, text, b', body, later⟩
  | bare text =>
    rw [statement] at read
    cases read
    obtain ⟨speaker, appended⟩ := Builder.bare_eq clean
    exact ⟨speaker, text, b', appended ▸ body, later⟩
  | _ =>
    rw [statement] at said
    cases said

theorem at_option (finishes : Finishes s final b (l :: ls)) (fits : b.top.threshold ≤ l.indent)
    (isOption : l.isOption = true) :
    ∃ text b', Statement.read l.body = .option text
      ∧ (b.option l.number l.indent text l.textId).SameBody b' ∧ Finishes s final b' ls := by
  obtain ⟨c, b', rest, same, read, _, _, body, later⟩ := finishes.reads fits
  unfold Line.isOption at isOption
  unfold Builder.readBodyLine at read
  rw [same] at read
  cases statement : Statement.read l.body with
  | option text =>
    rw [statement] at read
    cases read
    exact ⟨text, b', rfl, body, later⟩
  | _ =>
    rw [statement] at isOption
    cases isOption

theorem readCondition_of_expression? {text : String} {condition : Expression} {line : Nat}
    (given : expression? text = some condition) :
    b.readCondition line text = .ok (b, condition) := by
  unfold expression? at given
  unfold Builder.readCondition readExpression
  cases parsed : Expression.parse text with
  | ok e =>
    rw [parsed] at given
    cases given
    rfl
  | error f =>
    rw [parsed] at given
    cases given

theorem openIf_filled {line indent : Nat} {condition : Expression} {next : Bool} :
    (b.openIf line indent condition next).nodes ≠ [] := by
  have positive := Nat.zero_lt_of_lt (b.openIf_grows line indent condition next)
  exact List.ne_nil_of_length_pos positive

theorem at_openIf (finishes : Finishes s final b (l :: ls)) (fits : b.top.threshold ≤ l.indent)
    {condition : Expression} (guards : l.Guards l.indent .openIf condition) :
    ∃ b', (b.openIf l.number l.indent condition (starred ls)).SameBody b'
      ∧ Finishes s final b' ls := by
  obtain ⟨c, b', rest, same, read, _, ahead, body, later⟩ := finishes.reads fits
  obtain ⟨text, ⟨_, statement⟩, given⟩ := guards
  unfold Builder.readBodyLine at read
  rw [same, statement] at read
  dsimp only at read
  rw [readCondition_of_expression? given] at read
  cases read
  rw [ahead openIf_filled] at body
  exact ⟨b', body, later⟩

/-- A further branch, with a condition or the last one. -/
theorem at_branch (finishes : Finishes s final b (l :: ls)) (fits : b.top.threshold ≤ l.indent)
    {condition : Option Expression} (branches : l.Branches l.indent condition) :
    ∃ keyword b', (b.addBranch l.number condition keyword).SameBody b' ∧ Finishes s final b' ls := by
  obtain ⟨c, b', rest, same, read, _, _, body, later⟩ := finishes.reads fits
  unfold Builder.readBodyLine at read
  rw [same] at read
  cases condition with
  | some condition =>
    obtain ⟨text, ⟨_, statement⟩, given⟩ := branches
    rw [statement] at read
    dsimp only at read
    rw [readCondition_of_expression? given] at read
    cases read
    exact ⟨_, b', body, later⟩
  | none =>
    rw [show _ = _ from branches.2] at read
    cases read
    exact ⟨_, b', body, later⟩

theorem at_endIf (finishes : Finishes s final b (l :: ls)) (fits : b.top.threshold ≤ l.indent)
    (ends : l.Says l.indent .endIf) :
    ∃ b', (b.endIf l.number).SameBody b' ∧ Finishes s final b' ls := by
  obtain ⟨c, b', rest, same, read, _, _, body, later⟩ := finishes.reads fits
  unfold Builder.readBodyLine at read
  rw [same, ends.2] at read
  cases read
  exact ⟨b', body, later⟩

theorem at_label (finishes : Finishes s final b (l :: ls)) (fits : b.top.threshold ≤ l.indent)
    (isLabel : l.isLabel = true) : ∃ b', b.SameBody b' ∧ Finishes s final b' ls := by
  obtain ⟨c, b', rest, same, read, _, _, body, later⟩ := finishes.reads fits
  unfold Line.isLabel at isLabel
  unfold Builder.readBodyLine at read
  rw [same] at read
  cases statement : Statement.read l.body with
  | label name =>
    rw [statement] at read
    cases read
    have unchanged : b.SameBody (b.label s.endLabel l.number name) := by
      unfold Builder.label
      repeat' split
      all_goals exact ⟨rfl, rfl, rfl, rfl⟩
    exact ⟨b', unchanged.trans body, later⟩
  | _ =>
    rw [statement] at isLabel
    cases isLabel

end Finishes

end Colloquy.Script
