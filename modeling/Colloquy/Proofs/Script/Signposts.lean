import Colloquy.Proofs.Script.Marks
/-!
# Labels and gotos of a draft

While the lines of a body are read, a label waits for the first node that is made after the line
that declares it, a label that is declared again changes nothing, and every line with a goto makes
one. So when all lines have been read, labels and gotos of the draft can be told from the lines.
-/

namespace Colloquy.Script

/-- The line that declares a label: the first that does. The label of the end is reserved. -/
def declaration? (endLabel : String) (lines : List Line) (name : String) : Option Line :=
  if name = endLabel then none else lines.find? fun l => Statement.read l.body = .label name

/-- The first node made after a line. -/
def firstAfter? (nodes : List Draft) (number : Nat) : Option Nat :=
  nodes.findIdx? fun d => number < d.line

theorem firstAfter?_eq (nodes : List Draft) (number : Nat) :
    firstAfter? nodes number = (marks nodes).findIdx? fun m => number < m.1 := by
  rw [marks, List.findIdx?_map]
  rfl

theorem lookup_map_const {α β : Type} (table : List (String × α)) (entry : β) (key : String) :
    (table.map fun e => (e.1, entry)).lookup key = (table.lookup key).map fun _ => entry := by
  induction table with
  | nil => rfl
  | cons e rest ih =>
    rw [List.map_cons, List.lookup_cons, List.lookup_cons, ih]
    split <;> rfl

theorem isSome_lookup {β : Type} (table : List (String × β)) (key : String) :
    (table.lookup key).isSome = table.any (·.1 = key) := by
  induction table with
  | nil => rfl
  | cons e rest ih =>
    rw [List.lookup_cons, List.any_cons, ← ih]
    by_cases same : key = e.1
    · simp [same]
    · have other : (key == e.1) = false := beq_false_of_ne same
      simp [other, Ne.symm same]

/-! ### Labels while lines are read -/

/-- What gotos and labels are to a draft into which some lines have been read, those that come later
being numbered from `number` on. -/
structure Placed (s : Settings) (before : List Line) (number : Nat) (b : Builder) : Prop where
  past : ∀ l ∈ before, l.number < number
  made : ∀ m ∈ marks b.nodes, m.1 < number
  gotos : ∀ n label, (n, .goto label) ∈ marks b.nodes ↔
    ∃ l ∈ before, l.number = n ∧ Statement.read l.body = .goto label
  known : ∀ l ∈ b.labels, l.2 ≠ none
  labels : ∀ name, (b.labels ++ b.waiting.map fun w : String × Nat => (w.1, none)).lookup name
    = (declaration? s.endLabel before name).map fun l => firstAfter? b.nodes l.number
  calm : ∀ d ∈ b.diagnostics, d.fatal = false

theorem declaration?_mem {endLabel name : String} {lines : List Line} {l : Line}
    (found : declaration? endLabel lines name = some l) : l ∈ lines := by
  unfold declaration? at found
  split at found
  · cases found
  · exact List.mem_of_find?_eq_some found

theorem declaration?_append (endLabel name : String) (lines more : List Line) :
    declaration? endLabel (lines ++ more) name
      = (declaration? endLabel lines name).or (declaration? endLabel more name) := by
  unfold declaration?
  split
  · rfl
  · rw [List.find?_append]

theorem declaration?_label {endLabel name n : String} {l : Line}
    (label : Statement.read l.body = .label name) :
    declaration? endLabel [l] n = if n = name ∧ n ≠ endLabel then some l else none := by
  unfold declaration?
  by_cases reserved : n = endLabel
  · simp [reserved]
  · simp [reserved, label, List.find?_singleton, eq_comm]

/-- A line that declares nothing leaves all declarations to the lines before. -/
theorem declaration?_skip {endLabel : String} {lines : List Line} {l : Line}
    (other : ∀ name, Statement.read l.body ≠ .label name) (name : String) :
    declaration? endLabel (lines ++ [l]) name = declaration? endLabel lines name := by
  have none : declaration? endLabel [l] name = none := by
    unfold declaration?
    split
    · rfl
    · simp [other name]
  rw [declaration?_append, none, Option.or_none]

/-- Nodes made on later lines are the first after a line that has none yet. -/
theorem firstAfter?_append {nodes nodes' : List Draft} {new : List (Nat × Step)} {number : Nat}
    (added : marks nodes' = marks nodes ++ new) (some : new ≠ [])
    (later : ∀ m ∈ new, number < m.1) :
    firstAfter? nodes' number = (firstAfter? nodes number).or (.some nodes.length) := by
  obtain ⟨m, rest, rfl⟩ := List.exists_cons_of_ne_nil some
  have first : number < m.1 := later m List.mem_cons_self
  have length : (marks nodes).length = nodes.length := List.length_map _
  rw [firstAfter?_eq, firstAfter?_eq, added, List.findIdx?_append, length]
  simp [List.findIdx?_cons, first]

namespace Placed

variable {s : Settings} {before : List Line} {number : Nat} {b c : Builder}

theorem later (placed : Placed s before number b) {k : Nat} (le : number ≤ k) :
    Placed s before k b :=
  { placed with
    past := fun l member => Nat.lt_of_lt_of_le (placed.past l member) le
    made := fun m member => Nat.lt_of_lt_of_le (placed.made m member) le }

theorem start (s : Settings) (number : Nat) : Placed s [] number {} where
  past := by simp
  made := by simp [marks]
  gotos := by simp [marks]
  known := by simp
  labels name := by simp [declaration?]
  calm := by simp

/-- What is fatal has been found before. -/
theorem calm_of_adds (placed : Placed s before number b) {new : List (Nat × Step)}
    (adds : Builder.Adds new b c) : ∀ d ∈ c.diagnostics, d.fatal = false := by
  intro d member
  cases fatal : d.fatal with
  | false => rfl
  | true => exact fatal.symm.trans (placed.calm d (adds.calm d member fatal))

/-- Nothing is added. -/
theorem idle (placed : Placed s before number b) (adds : Builder.Adds [] b c) :
    Placed s before number c := by
  have marks_eq : marks c.nodes = marks b.nodes := by rw [adds.marks, List.append_nil]
  obtain ⟨labels, waiting⟩ := adds.idle rfl
  refine ⟨placed.past, marks_eq ▸ placed.made, marks_eq ▸ placed.gotos, labels ▸ placed.known,
    fun name => ?_, placed.calm_of_adds adds⟩
  rw [labels, waiting, placed.labels name]
  simp only [firstAfter?_eq, marks_eq]

/-- The labels after nodes have been added. -/
theorem labels_busy (placed : Placed s before number b) (labelled : b.Labelled)
    {new : List (Nat × Step)} (adds : Builder.Adds new b c) (some : new ≠ [])
    (here : ∀ m ∈ new, m.1 = number) (name : String) :
    c.labels.lookup name
      = (declaration? s.endLabel before name).map fun l => firstAfter? c.nodes l.number := by
  have labels : c.labels = b.labels ++ b.waiting.map fun w => (w.1, Option.some b.nodes.length) :=
    (adds.busy some).1.trans (foldl_setEntry_of_nodup (fun w : String × Nat => w.1)
      (fun _ => Option.some b.nodes.length) labelled.distinct)
  have old := placed.labels name
  rw [List.lookup_append, lookup_map_const] at old
  rw [labels, List.lookup_append, lookup_map_const]
  cases declared : declaration? s.endLabel before name with
  | none =>
    rw [declared, Option.map_none, Option.or_eq_none_iff, Option.map_eq_none_iff] at old
    rw [old.1, old.2]
    rfl
  | some l =>
    have early := placed.past l (declaration?_mem declared)
    have late : ∀ m ∈ new, l.number < m.1 := fun m member => by
      rw [here m member]
      exact early
    have grown := firstAfter?_append adds.marks some late
    rw [declared, Option.map_some] at old
    rw [Option.map_some, grown]
    cases entry : b.labels.lookup name with
    | some place =>
      -- The label has its node already.
      rw [entry, Option.some_or, Option.some.injEq] at old
      rw [Option.some_or, ← old]
      cases place with
      | none => exact absurd rfl (placed.known _ (mem_of_lookup entry))
      | some i => rfl
    | none =>
      -- The label waits, so no node has been made after its line.
      rw [entry, Option.none_or, Option.map_eq_some_iff] at old
      obtain ⟨line, waits, none⟩ := old
      rw [waits, ← none]
      rfl

/-- A line of the body that declares no label. -/
theorem line (placed : Placed s before number b) (labelled : b.Labelled) {l : Line}
    (here : l.number = number) (noLabel : ∀ name, Statement.read l.body ≠ .label name)
    {new : List (Nat × Step)} (adds : Builder.Adds new b c) (comes : Builder.ComeOf l new) :
    Placed s (before ++ [l]) (number + 1) c := by
  subst here
  refine ⟨fun l' member => ?_, fun m member => ?_, fun n label => ?_, fun e member => ?_,
    fun name => ?_, placed.calm_of_adds adds⟩
  · obtain old | last := List.mem_append.mp member
    · exact Nat.lt_succ_of_lt (placed.past l' old)
    · rw [List.mem_singleton.mp last]
      exact Nat.lt_succ_self _
  · rw [adds.marks] at member
    obtain old | last := List.mem_append.mp member
    · exact Nat.lt_succ_of_lt (placed.made m old)
    · rw [comes.1 m last]
      exact Nat.lt_succ_self _
  · rw [adds.marks, List.mem_append, placed.gotos]
    constructor
    · rintro (⟨l', member, goto⟩ | member)
      · exact ⟨l', List.mem_append_left _ member, goto⟩
      · obtain rfl : n = l.number := comes.1 _ member
        exact ⟨l, List.mem_append_right _ (List.mem_singleton_self l), rfl,
          (comes.2 label).mp member⟩
    · rintro ⟨l', member, rfl, goto⟩
      obtain old | last := List.mem_append.mp member
      · exact .inl ⟨l', old, rfl, goto⟩
      · rw [List.mem_singleton.mp last] at goto ⊢
        exact .inr ((comes.2 label).mpr goto)
  · cases new with
    | nil => exact placed.known e ((adds.idle rfl).1 ▸ member)
    | cons m rest =>
      have labels := (adds.busy (List.cons_ne_nil m rest)).1.trans
        (foldl_setEntry_of_nodup (fun w : String × Nat => w.1)
          (fun _ => some b.nodes.length) labelled.distinct)
      rw [labels] at member
      obtain old | waited := List.mem_append.mp member
      · exact placed.known e old
      · obtain ⟨w, _, rfl⟩ := List.mem_map.mp waited
        exact Option.some_ne_none _
  · rw [declaration?_skip noLabel]
    -- labels that wait are placed at the first node that the line makes
    cases new with
    | nil => exact (placed.idle adds).labels name
    | cons m rest =>
      rw [(adds.busy (List.cons_ne_nil m rest)).2, List.map_nil, List.append_nil]
      exact placed.labels_busy labelled adds (List.cons_ne_nil m rest) comes.1 name

/-- Whether a label has been declared. -/
theorem declared_iff (placed : Placed s before number b) (name : String) :
    (b.labels.any (·.1 = name) || b.waiting.any (·.1 = name)) = true
      ↔ (declaration? s.endLabel before name).isSome := by
  have labels := congrArg Option.isSome (placed.labels name)
  rw [Option.isSome_map, List.lookup_append, Option.isSome_or, lookup_map_const, Option.isSome_map,
    isSome_lookup, isSome_lookup] at labels
  rw [labels]

/-- No node has been made after what is yet to come. -/
theorem firstAfter?_none (placed : Placed s before number b) :
    firstAfter? b.nodes number = none := by
  rw [firstAfter?_eq, List.findIdx?_eq_none_iff]
  intro m member
  have early := placed.made m member
  simp only [decide_eq_false_iff_not]
  omega

/-- A line of the body that declares a label: if the label is new, it waits for a node. -/
theorem declare (placed : Placed s before number b) {l : Line} {name : String}
    (here : l.number = number) (label : Statement.read l.body = .label name) :
    Placed s (before ++ [l]) (number + 1) (b.label s.endLabel l.number name) := by
  subst here
  have outcome {c : Builder} (nodes : c.nodes = b.nodes) (labels : c.labels = b.labels)
      (calm : ∀ d ∈ c.diagnostics, d.fatal = false)
      (names : ∀ n, (c.labels ++ c.waiting.map fun w : String × Nat => (w.1, none)).lookup n
        = (declaration? s.endLabel (before ++ [l]) n).map fun l => firstAfter? b.nodes l.number) :
      Placed s (before ++ [l]) (l.number + 1) c := by
    refine ⟨fun l' member => ?_, fun m member => ?_, fun n target => ?_, labels ▸ placed.known,
      nodes ▸ names, calm⟩
    · obtain old | last := List.mem_append.mp member
      · exact Nat.lt_succ_of_lt (placed.past l' old)
      · rw [List.mem_singleton.mp last]
        exact Nat.lt_succ_self _
    · exact Nat.lt_succ_of_lt (placed.made m (nodes ▸ member))
    · rw [nodes, placed.gotos]
      simp [or_and_right, exists_or, label]
  have note {d : Diagnostic} (mild : d.fatal = false) :
      ∀ d' ∈ (b.note d).diagnostics, d'.fatal = false :=
    placed.calm_of_adds (.note b mild)
  have fresh := placed.declared_iff name
  -- a label is refused if it is that of the end or is declared already
  unfold Builder.label
  split
  next reserved =>
    refine outcome rfl rfl (note rfl) fun n => ?_
    rw [declaration?_append, declaration?_label label, if_neg (fun both => both.2 (both.1 ▸ reserved)),
      Option.or_none]
    exact placed.labels n
  next free =>
    split
    next double =>
      refine outcome rfl rfl (note rfl) fun n => ?_
      have first := fresh.mp double
      rw [declaration?_append, declaration?_label label]
      by_cases same : n = name
      · rw [same, Option.or_of_isSome first]
        exact placed.labels name
      · rw [if_neg (fun both => same both.1), Option.or_none]
        exact placed.labels n
    next new =>
      refine outcome rfl rfl placed.calm fun n => ?_
      have old := placed.labels n
      rw [declaration?_append, declaration?_label label, List.map_append, ← List.append_assoc,
        List.lookup_append, old]
      by_cases same : n = name
      · have none : declaration? s.endLabel before n = none := by
          rw [← Option.not_isSome_iff_eq_none, same]
          exact fun some => new (fresh.mpr some)
        subst same
        simp [none, free, placed.firstAfter?_none]
      · simp [same, List.lookup_cons, beq_false_of_ne same]

/-- Reading one line. -/
theorem readLine (placed : Placed s before number b) (healthy : b.Healthy) {raw : List Char}
    {rest : List (List Char)} (read : b.readLine s number raw rest = .ok c) :
    ∃ now, Placed s (before ++ now) (number + 1) c
      ∧ bodyFrom s b.headerState.inside number (raw :: rest)
        = now ++ bodyFrom s c.headerState.inside (number + 1) rest := by
  obtain ⟨l, here, body, lines⟩ | ⟨adds, lines⟩ := Builder.readLine_adds read
  · refine ⟨[l], ?_, lines⟩
    have settled := placed.idle (.settle b l.number l.indent)
    obtain ⟨name, label, rfl⟩ | ⟨noLabel, new, adds, comes⟩ := Builder.readBodyLine_adds body
    · exact settled.declare here label
    · exact settled.line (healthy.settle _ _).labelled here noLabel adds comes
  · refine ⟨[], ?_, lines⟩
    rw [List.append_nil]
    exact (placed.idle adds).later (Nat.le_succ _)

/-- Reading all lines. -/
theorem readLines (placed : Placed s before number b) (healthy : b.Healthy)
    {lines : List (List Char)} (read : Builder.readLines s b number lines = .ok c) :
    Placed s (before ++ bodyFrom s b.headerState.inside number lines) (number + lines.length) c := by
  induction lines generalizing b number before with
  | nil =>
    cases read
    rwa [bodyFrom, List.append_nil]
  | cons raw rest ih =>
    obtain ⟨b', first, later⟩ := bind_eq_ok.mp read
    obtain ⟨now, next, body⟩ := placed.readLine healthy first
    rw [body, ← List.append_assoc, List.length_cons, Nat.add_comm rest.length 1, ← Nat.add_assoc]
    exact ih next (healthy.readLine first) later

end Placed

/-! ### A script that has been read -/

/-- What gotos and labels are to the draft of a whole script. -/
structure Signposted (s : Settings) (text : String) (b : Builder) : Prop where
  gotos : ∀ n label, (n, .goto label) ∈ marks b.nodes ↔
    ∃ l ∈ bodyLines s text, l.number = n ∧ Statement.read l.body = .goto label
  labels : ∀ name, b.labels.lookup name
    = (declaration? s.endLabel (bodyLines s text) name).map fun l => firstAfter? b.nodes l.number
  calm : ∀ d ∈ b.diagnostics, d.fatal = false

theorem Builder.Adds.closed (b : Builder) (last : Nat) : Builder.Adds [] b (b.closed last) := by
  unfold Builder.closed
  dsimp only
  split
  · exact ((note b rfl).trans (popAll _ _ _)).trans (release _)
  · exact (popAll _ _ _).trans (release _)

theorem Builder.endLabels_calm {b : Builder} {waiting : List (String × Nat)}
    (calm : ∀ d ∈ b.diagnostics, d.fatal = false) :
    ∀ d ∈ (b.endLabels waiting).diagnostics, d.fatal = false := by
  unfold endLabels
  induction waiting generalizing b with
  | nil => exact calm
  | cons w rest ih =>
    refine ih fun d member => ?_
    obtain old | new := List.mem_append.mp member
    · exact calm d old
    · rw [List.mem_singleton.mp new]
      rfl

/-- A script that has been read. -/
theorem signposted_of_readScript {s : Settings} {text : String} {b : Builder}
    (read : Builder.readScript s (Text.lines text.toList) = .ok b) : Signposted s text b := by
  obtain ⟨b, lines, done⟩ := bind_eq_ok.mp read
  cases done
  have healthy := Builder.Healthy.start.readLines lines
  have placed := (Placed.start s 1).readLines .start lines
  rw [List.nil_append] at placed
  have closed := placed.idle (.closed b (Text.lines text.toList).length)
  have nodes : (b.finish (Text.lines text.toList).length).nodes
      = (b.closed (Text.lines text.toList).length).nodes :=
    (Builder.endLabels_same _ _).1
  refine ⟨nodes ▸ closed.gotos, fun name => ?_, ?_⟩
  · rw [healthy.finish_labels, nodes]
    exact closed.labels name
  · exact Builder.endLabels_calm closed.calm

end Colloquy.Script
