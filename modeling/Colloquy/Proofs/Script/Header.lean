import Colloquy.Proofs.Graph.Search
import Colloquy.Proofs.Script.Passage
import Colloquy.Proofs.Script.WellFormed
/-!
# What the header sets

A line of the header that assigns an expression makes a step of it, as long as the header stands
where it may. Nothing else makes one. So the header of a graph has a step for each such line, in the
order of the lines, and each leads to the next.
-/

namespace Colloquy.Script

/-- A variable that a line of the header sets, and the expression of its value. -/
structure Preset where
  line : Nat
  name : String
  value : Expression

/-- The variable that a line sets if the header is open before it. A header that is not valid sets
none. -/
def Builder.preset? (s : Settings) (b : Builder) (number : Nat) (raw : List Char) :
    Option Preset :=
  if b.headerState.inside && b.headerState.valid then
    match scan s.tabWidth number raw with
    | .line l =>
      match Statement.read l.body with
      | .assign name source => (Expression.parse source).toOption.map (⟨number, name, ·⟩)
      | _ => none
    | _ => none
  else none

/-- Where reading a script begins. -/
def Reader.start (text : String) : Reader :=
  ⟨{}, 1, Text.lines text.toList⟩

/-- One of the lines that are left sets a variable in the header. -/
def Reader.Presets (s : Settings) (r : Reader) (x : Preset) : Prop :=
  ∃ b number raw rest, Reaches s r ⟨b, number, raw :: rest⟩ ∧ b.preset? s number raw = some x

/-- The draft of a step of the header. -/
def Preset.Drafted (x : Preset) (d : Draft) : Prop :=
  d.line = x.line ∧ ∃ text textId, d.step = .assign x.name x.value text textId

/-- What a line adds to the header is the step that it makes, if it makes one. -/
def AddsPreset (s : Settings) (number : Nat) (raw : List Char) (b c : Builder) : Prop :=
  ∃ made, c.header = b.header ++ made
    ∧ List.Forall₂ Preset.Drafted (b.preset? s number raw).toList made

/-- A node that sets a variable as a line of the header does. -/
structure Preset.Made (x : Preset) (n : Node) : Prop where
  kind : n.kind = .setVariable
  line : n.line = .ofNat x.line
  name : n.identifier = x.name
  value : n.expression = some x.value

section Lines

variable {s : Settings} {b c : Builder} {number : Nat} {raw : List Char} {rest : List (List Char)}
  {x : Preset}

theorem preset?_line (set : b.preset? s number raw = some x) : x.line = number := by
  unfold Builder.preset? at set
  repeat' split at set
  all_goals
    try cases set
  obtain ⟨e, _, rfl⟩ := Option.map_eq_some_iff.mp set
  rfl

theorem preset?_outside (outside : b.headerState.inside = false) :
    b.preset? s number raw = none := by
  rw [Builder.preset?, outside]
  rfl

theorem delimiter_header (b : Builder) (line : Nat) : (b.delimiter line).header = b.header := by
  unfold Builder.delimiter
  dsimp only
  repeat' split
  all_goals rfl

theorem assignStep_eq (name : String) (e : Expression) (id : String) :
    ∃ text textId, Builder.assignStep name e id = .assign name e text textId := by
  unfold Builder.assignStep
  split <;> exact ⟨_, _, rfl⟩

theorem parse_of_readExpression {source : String} {e : Expression}
    (read : readExpression source = .ok (.ok e)) : Expression.parse source = .ok e := by
  unfold readExpression at read
  split at read
  next parsed => cases read; exact parsed
  all_goals cases read

theorem parse_of_refused {source message : String}
    (read : readExpression source = .ok (.error message)) :
    (Expression.parse source).toOption = none := by
  unfold readExpression at read
  split at read
  next => cases read
  next parsed => rw [parsed]; rfl
  next => cases read

theorem AddsPreset.unchanged (same : c.header = b.header) (nothing : b.preset? s number raw = none) :
    AddsPreset s number raw b c :=
  ⟨[], by rw [same, List.append_nil], by rw [nothing]; exact .nil⟩

theorem readHeaderLine_adds {l : Line} (inside : b.headerState.inside = true)
    (scanned : scan s.tabWidth number raw = .line l) (read : b.readHeaderLine l = .ok c) :
    AddsPreset s number raw b c := by
  unfold Builder.readHeaderLine at read
  split at read
  next name source statement =>
    obtain ⟨⟨b₁, draft⟩, given, last⟩ := bind_eq_ok.mp read
    cases last
    obtain ⟨e, parsed, rfl, rfl⟩ | ⟨message, refused, rfl, rfl⟩ :=
      Builder.readAssignment_cases given
    · have sets : b₁.preset? s number raw
          = if b₁.headerState.valid then some ⟨number, name, e⟩ else none := by
        simp [Builder.preset?, inside, scanned, statement, parse_of_readExpression parsed,
          Except.toOption]
      rw [AddsPreset, Option.elim_some, Builder.headerStep, sets]
      cases b₁.headerState.valid with
      | true => exact ⟨_, rfl, .cons ⟨scan_number scanned, assignStep_eq ..⟩ .nil⟩
      | false => exact ⟨[], (List.append_nil _).symm, .nil⟩
    · exact .unchanged rfl (by
        simp [Builder.preset?, scanned, statement, parse_of_refused refused])
  next other =>
    cases read
    refine .unchanged rfl ?_
    rw [Builder.preset?, scanned]
    dsimp only
    split
    · split
      next name source statement => exact absurd statement (other name source)
      · rfl
    · rfl

/-- A line adds to the header the step that it makes, if it makes one. -/
theorem readLine_adds (read : b.readLine s number raw rest = .ok c) :
    AddsPreset s number raw b c := by
  unfold Builder.readLine at read
  cases scanned : scan s.tabWidth number raw with
  | empty =>
    rw [scanned] at read
    cases read
    exact .unchanged rfl (by simp [Builder.preset?, scanned])
  | delimiter =>
    rw [scanned] at read
    cases read
    exact .unchanged (delimiter_header b number) (by simp [Builder.preset?, scanned])
  | line l =>
    rw [scanned] at read
    dsimp only at read
    cases inside : b.headerState.inside with
    | false =>
      rw [inside, if_neg Bool.false_ne_true] at read
      exact .unchanged (Builder.readBodyLine_header read) (preset?_outside inside)
    | true =>
      rw [inside, if_pos rfl] at read
      exact readHeaderLine_adds inside scanned read

/-- Of some lines the first sets a variable, or one of those after it. -/
theorem presets_cons (read : b.readLine s number raw rest = .ok c) :
    Reader.Presets s ⟨b, number, raw :: rest⟩ x
      ↔ b.preset? s number raw = some x ∨ Reader.Presets s ⟨c, number + 1, rest⟩ x := by
  constructor
  · rintro ⟨b', number', raw', rest', reaches, sets⟩
    cases reaches with
    | refl => exact .inl sets
    | next read' later =>
      cases read.symm.trans read'
      exact .inr ⟨b', number', raw', rest', later, sets⟩
  · rintro (sets | ⟨b', number', raw', rest', later, sets⟩)
    · exact ⟨b, number, raw, rest, .refl _, sets⟩
    · exact ⟨b', number', raw', rest', .next read later, sets⟩

/-- Reading lines adds a step to the header for each line that sets a variable in it, in their
order. -/
theorem readLines_header {lines : List (List Char)}
    (read : Builder.readLines s b number lines = .ok c) :
    ∃ (sets : List Preset) (made : List Draft), c.header = b.header ++ made
      ∧ List.Forall₂ Preset.Drafted sets made ∧ sets.Pairwise (·.line < ·.line)
      ∧ ∀ x, x ∈ sets ↔ Reader.Presets s ⟨b, number, lines⟩ x := by
  induction lines generalizing b number with
  | nil =>
    cases read
    refine ⟨[], [], (List.append_nil _).symm, .nil, .nil, fun x => ⟨fun none => (by cases none), ?_⟩⟩
    rintro ⟨_, _, _, _, reaches, _⟩
    cases reaches
  | cons raw rest ih =>
    obtain ⟨between, first, later⟩ := bind_eq_ok.mp read
    obtain ⟨here, grown, now⟩ := readLine_adds first
    obtain ⟨sets, made, further, then', sorted, exactly⟩ := ih later
    refine ⟨(b.preset? s number raw).toList ++ sets, here ++ made, ?_, List.rel_append now then', ?_,
      fun x => ?_⟩
    · rw [further, grown, List.append_assoc]
    · refine List.pairwise_append.mpr ⟨?_, sorted, fun x first y second => ?_⟩
      · cases b.preset? s number raw <;> simp
      · obtain ⟨_, _, _, _, reaches, sets⟩ := (exactly y).mp second
        rw [preset?_line (Option.mem_toList.mp first), preset?_line sets]
        exact reaches.number_le
    · rw [presets_cons first, List.mem_append, Option.mem_toList, exactly]

theorem finish_header (b : Builder) (lastLine : Nat) : (b.finish lastLine).header = b.header := by
  rw [Builder.finish_eq]
  refine (Builder.endLabels_same _ _).2.2.2.2.2.1.trans ?_
  refine (Builder.popAll_labels lastLine _ _).2.2.1.trans ?_
  split <;> rfl

end Lines

/-! ### In the graph -/

section Graph

variable {s : Settings} {name text : String} {b : Builder} {g : Graph}

/-- The node that comes of a step of the header sets the variable of its line. -/
theorem made_of_built {x : Preset} {d : Draft} {k : Nat} {n : Node} (drafted : x.Drafted d)
    (built : Built (headerNode s b d k) n) : x.Made n := by
  obtain ⟨line, textOf, textId, step⟩ := drafted
  rw [headerNode] at built
  refine ⟨?_, ?_, ?_, ?_⟩
  · rw [built.kind, buildNode_kind, step]
    rfl
  · rw [built.line, buildNode_line, line]
  · rw [built.same, buildNode, step]
  · rw [built.same, buildNode, step]

/-- The nodes behind the body come of the steps of the header, one of each. -/
theorem ComesOf.headerSteps (comes : ComesOf s name b g) :
    List.Forall₂ (fun d n => ∃ k, Built (headerNode s b d k) n) b.header
      (g.nodes.drop g.bodyLength) := by
  have plain : (plainNodes s b).drop g.bodyLength = b.header.mapIdx fun k d => headerNode s b d k := by
    rw [comes.bodyLength, plainNodes, List.drop_left' (bodyNodes_length ..)]
    rfl
  have made : List.Forall₂ (fun n₀ d => ∃ k, n₀ = headerNode s b d k)
      (b.header.mapIdx fun k d => headerNode s b d k) b.header :=
    forall₂_mapIdx_self b.header fun k _ => ⟨k, rfl⟩
  have built := List.forall₂_drop g.bodyLength comes.nodes
  rw [plain] at built
  refine (forall₂_comp (List.Forall₂.flip made) built).imp fun d n step => ?_
  obtain ⟨_, ⟨k, rfl⟩, built⟩ := step
  exact ⟨k, built⟩

/-- The header of a graph has a step for each line that sets a variable in the header, in the order
of the lines. -/
theorem header_made (linked : Linked s text b) (comes : ComesOf s name b g) :
    ∃ sets : List Preset, sets.Pairwise (·.line < ·.line)
      ∧ (∀ x, x ∈ sets ↔ (Reader.start text).Presets s x)
      ∧ List.Forall₂ Preset.Made sets (g.nodes.drop g.bodyLength) := by
  obtain ⟨c, read, done⟩ := bind_eq_ok.mp linked.read
  cases done
  obtain ⟨sets, made, grown, drafted, sorted, exactly⟩ := readLines_header read
  refine ⟨sets, sorted, exactly, ?_⟩
  have steps := comes.headerSteps
  rw [finish_header, grown, List.nil_append] at steps
  exact (forall₂_comp drafted steps).imp fun x n ⟨d, drafted, k, built⟩ =>
    made_of_built drafted built

/-- Behind a step of the header comes the next one. -/
theorem header_next (linked : Linked s text b) (comes : ComesOf s name b g) {i : Nat} {n : Node}
    (behind : g.bodyLength ≤ i) (there : g.nodes[i]? = some n) :
    g.next n = .ok g.nodes[i + 1]? := by
  rw [comes.bodyLength] at behind
  obtain ⟨k, rfl⟩ := Nat.exists_eq_add_of_le behind
  have edges := (comes.headerStep_kind linked there).2.2
  rw [Graph.next, successor, edges]
  have count := comes.nodes_length
  by_cases more : k + 1 < b.header.length
  · have inside : (bodyOf b).length + k + 1 < g.nodes.length := by omega
    have next := List.getElem?_eq_getElem inside
    rw [if_pos more, next]
    dsimp only
    rw [follow_ofNat next]
    rfl
  · rw [if_neg more, List.getElem?_eq_none (by omega)]

end Graph

end Colloquy.Script
