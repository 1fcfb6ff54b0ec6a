import Colloquy.Proofs.Dialogue.Circling
import Colloquy.Proofs.Dialogue.Conversation
import Colloquy.Proofs.Script.Mixed
/-!
# What collecting meets

Collecting the options of a line is meant to enter choices and selects only; what else it meets is
reported as an error of the script. Without a warning of a mixed block it meets nothing else behind
selects that are overt. A select that leads to choices through other selects alone is not overt: of
it no warning is given, whatever its other branches lead to.
-/

namespace Colloquy

open Relation (ReflTransGen)
open Script.Direct (Variables)

variable {η δ : Type} {host : Host η δ} {scene after : Scene η δ} {g : Graph} {vars : Variables}

/-- A node is met while options are collected from another one on. -/
def Graph.Meets (g : Graph) (vars : Variables) (root n : Node) : Prop :=
  ReflTransGen (g.Into vars) root n

/-- A node from which options can be collected. -/
def Node.Gathers (n : Node) : Prop :=
  (n.kind = .choice ∨ n.kind = .select) ∧ ∀ e ∈ n.edges, e.kind ≠ .continue

section

variable (sturdy : g.Sturdy)

include sturdy

/-- In a graph that a script compiles to no choice or select just goes on. -/
theorem gathers_of_kind {n : Node} (member : n ∈ g.nodes) (kind : n.kind = .choice ∨ n.kind = .select) :
    n.Gathers := by
  refine ⟨kind, fun e own goesOn => ?_⟩
  obtain choice | select := kind
  · obtain decision | ⟨chained, _⟩ := (sturdy.formed.choice n member choice).2 e own
    · cases goesOn.symm.trans decision
    · cases goesOn.symm.trans chained
  · cases goesOn.symm.trans ((sturdy.formed.select n member select).2 e own).1

/-- A block that a choice leads to is a select, and so is or leads to choices what an overt select
leads to. -/
theorem Graph.Into.kind (unmixed : g.Unmixed) {x n : Node} (member : x ∈ g.nodes)
    (into : g.Into vars x n) (overt : x.kind = .select → g.Overt x) :
    n.kind = .choice ∨ n.kind = .select := by
  obtain ⟨e, own, kind, leads⟩ := into.edge
  obtain choice | select : x.kind = .choice ∨ x.kind = .select := by
    by_contra other
    have enters := into
    rw [Graph.Into, optionEdges, if_neg (by simpa using other)] at enters
    cases enters
  · obtain decision | ⟨_, p, m, target, there, isSelect⟩ :=
      (sturdy.formed.choice x member choice).2 e own
    · rw [decision] at kind
      obtain kind | kind := kind <;> cases kind
    · rw [Graph.target, target, Graph.node?_ofNat, there] at leads
      cases leads
      exact .inr isSelect
  · exact (overt select).branches unmixed member select own leads

/-- What is met from a node that options can be collected from: only such nodes, unless a select on
the way is not overt. -/
theorem gathers_or_covert (unmixed : g.Unmixed) {root n : Node} (member : root ∈ g.nodes)
    (kind : root.kind = .choice ∨ root.kind = .select) (met : g.Meets vars root n) :
    n.Gathers ∨ ∃ x, g.Meets vars root x ∧ g.Into vars x n ∧ x.kind = .select ∧ ¬ g.Overt x := by
  -- only the last step counts: what `x` leads to depends on nothing before it
  obtain rfl | ⟨x, before, into⟩ := met.cases_tail
  · exact .inl (gathers_of_kind sturdy member kind)
  have there := mem_of_entered sturdy.rooted before member
  by_cases overt : x.kind = .select → g.Overt x
  · exact .inl (gathers_of_kind sturdy (into.mem sturdy.rooted there)
      (into.kind sturdy unmixed there overt))
  · push Not at overt
    exact .inr ⟨x, before, into, overt⟩

end

/-! ### What is reported -/

/-- A note that evaluating the conditions of a script leaves: a participant was asked for a variable,
or a condition was refused. -/
inductive Note.Inquires (name : String) : Note δ → Prop where
  | asked (key : Nat) (asked speaker : String) : Inquires name (.told key (.requested asked) speaker)
  | refused (n : Node) (e : Expression) (r : Expression.Refusal) :
      Inquires name (.logged ⟨.error, "Error in " ++ name ++ " line " ++ n.line.display ++ ": "
        ++ r.message e.source⟩)

/-- A scene after which nothing was entered in the journal but what evaluating conditions leaves. -/
structure Scene.Inquired (scene after : Scene η δ) : Prop where
  name : after.dialogue.name = scene.dialogue.name
  journal : ∃ notes, after.journal = scene.journal ++ notes
    ∧ ∀ n ∈ notes, n.Inquires scene.dialogue.name

namespace Scene.Inquired

theorem refl (scene : Scene η δ) : scene.Inquired scene :=
  ⟨rfl, [], (List.append_nil _).symm, fun _ none => by cases none⟩

theorem trans {last : Scene η δ} (first : scene.Inquired after) (second : after.Inquired last) :
    scene.Inquired last := by
  obtain ⟨name, notes, journal, own⟩ := first
  obtain ⟨name', more, journal', own'⟩ := second
  refine ⟨name'.trans name, notes ++ more, ?_, List.forall_mem_append.2 ⟨own, name ▸ own'⟩⟩
  rw [journal', journal, List.append_assoc]

end Scene.Inquired

theorem requests_inquire (quiet : Quiet host scene) {names : List String}
    (done : names.forM (Dialogue.request host) scene = .ok () after) : scene.Inquired after := by
  induction names generalizing scene with
  | nil =>
    cases done
    exact .refl _
  | cons name rest ih =>
    obtain ⟨_, between, first, later⟩ := Play.bind_inv done
    rw [request_quiet quiet] at first
    cases first
    have asked : scene.Inquired (scene.told (.requested name)) := by
      refine ⟨rfl, _, rfl, fun n member => ?_⟩
      obtain ⟨p, _, rfl⟩ := List.mem_map.1 member
      exact .asked p.key name _
    exact asked.trans (ih ((told_goesOn scene _).quiet quiet) later)

theorem evaluate_inquires (quiet : Quiet host scene) (e : Expression) (node : Node) :
    Yields (Dialogue.evaluate host e node) scene (fun _ => scene.Inquired)
      (fun _ => scene.Inquired) := by
  obtain ⟨asked, done, _⟩ := requests_quiet quiet e.names
  have inquired := requests_inquire quiet done
  have read : Play.dialogue asked = .ok asked.dialogue asked := rfl
  rw [Dialogue.evaluate]
  refine .step done (.step read ?_)
  cases e.evaluate asked.dialogue.environment with
  | ok v => exact .of_ok rfl inquired
  | error f =>
    cases f with
    | refused r =>
      refine .of_ok rfl (inquired.trans ⟨rfl, _, rfl, fun n member => ?_⟩)
      rw [List.mem_singleton.1 member]
      exact .refused node e r
    | _ => exact .of_error rfl inquired

theorem holds_inquires (quiet : Quiet host scene) (e : Expression) (node : Node) :
    Yields (Dialogue.holds host node (some e)) scene (fun _ => scene.Inquired)
      (fun _ => scene.Inquired) :=
  (evaluate_inquires quiet e node).bind fun _ _ inquired => .of_ok rfl inquired

section

variable (rooted : Rooted g.nodes)

include rooted

/-- Collecting from edges of which none just goes on reports nothing, if collecting from where they
lead reports nothing. -/
theorem collectEdges_inquires {enter : Option Node → Play η δ Unit} {gathering : Nat} {n : Node}
    (member : n ∈ g.nodes) {edges : List Edge} (own : edges ⊆ n.edges)
    (ways : ∀ e ∈ n.edges, e.kind ≠ .continue) (quiet : Quiet host scene)
    (graph : scene.dialogue.graph = g) (current : scene.dialogue.gathering = gathering)
    (enters : ∀ (between : Scene η δ) (o : Option Node), Quiet host between →
      between.dialogue.graph = g → between.dialogue.gathering = gathering →
      between.dialogue.vars = scene.dialogue.vars → g.Holds o →
      g.Enters scene.dialogue.vars edges o →
      Yields (enter o) between
        (fun _ last => between.Inquired last ∧ ∃ out, Added between out last)
        (fun _ => between.Inquired)) :
    Yields (Dialogue.collectEdges host gathering enter n edges) scene
      (fun _ => scene.Inquired) (fun _ => scene.Inquired) := by
  induction edges generalizing scene with
  | nil => exact .of_ok rfl (.refl scene)
  | cons e rest ih =>
    obtain ⟨here, others⟩ := List.cons_subset.1 own
    have later {out : List Edge} {between : Scene η δ} (inquired : scene.Inquired between)
        (added : Added scene out between)
        (passed : e.kind = .condition →
          ∀ x, e.condition = some x → Script.Direct.holds scene.dialogue.vars x = .ok false) :
        Yields (Dialogue.collectEdges host gathering enter n rest) between
          (fun _ => scene.Inquired) (fun _ => scene.Inquired) := by
      refine (ih others (added.quiet quiet) (added.graph.trans graph) (added.gathering.trans current)
        fun last o quiet graph same vars inside enter => ?_).mono
        (fun _ _ more => inquired.trans more) fun _ _ more => inquired.trans more
      rw [added.sameVars] at vars enter
      exact enters last o quiet graph same vars inside (.later passed enter)
    obtain ⟨o, leads, inside⟩ := Graph.target_holds rooted member here
    rw [Dialogue.collectEdges]
    cases kind : e.kind with
    | decision =>
      have offered : Play.changeDialogue (fun d => d.offer gathering e) scene
          = .ok () { scene with dialogue := scene.dialogue.offer gathering e } := rfl
      have added : Added scene [e] { scene with dialogue := scene.dialogue.offer gathering e } :=
        ⟨if_pos current, rfl, rfl⟩
      refine .step offered (later ⟨?_, [], (List.append_nil _).symm, fun _ none => by cases none⟩
        added ?_)
      · rw [added.dialogue]
        rfl
      · rw [kind]
        rintro ⟨⟩
    | condition =>
      cases condition : e.condition with
      | none =>
        exact later (.refl scene) (.refl scene) fun _ x some => by cases condition.symm.trans some
      | some x =>
        have written := Graph.mem_expressions_of_condition member here condition
        refine (((holds_yields quiet written n).and (holds_inquires quiet x n)).mono_fails
          fun _ _ => And.right).bind fun held between result => ?_
        obtain ⟨⟨holds, goes⟩, inquired⟩ := result
        have added := goes.added
        cases held with
        | true =>
          -- the branch is taken, and the edges after it are not looked at
          rw [if_pos rfl]
          refine .step (target_yields (added.graph.trans graph) leads) ?_
          exact (enters between o (added.quiet quiet) (added.graph.trans graph)
            (added.gathering.trans current) added.sameVars inside
            (.holds kind condition holds leads)).mono (fun _ _ more => inquired.trans more.1)
            fun _ _ more => inquired.trans more
        | false =>
          rw [if_neg Bool.noConfusion]
          refine later inquired added fun _ y same => ?_
          cases condition.symm.trans same
          exact holds
    | chained =>
      refine .step (target_yields graph leads) ?_
      refine (enters scene o quiet graph current rfl inside (.chained kind leads)).bind
        fun _ between result => ?_
      obtain ⟨inquired, out, added⟩ := result
      refine later inquired added ?_
      rw [kind]
      rintro ⟨⟩
    | «continue» => exact absurd kind (ways e here)

/-- Collecting that enters no node but those that options can be collected from reports nothing. -/
theorem collect_inquires {gathering : Nat} (fuel : Nat) {n : Node} (member : n ∈ g.nodes)
    (quiet : Quiet host scene) (graph : scene.dialogue.graph = g)
    (current : scene.dialogue.gathering = gathering)
    (gathers : ∀ m, g.Meets scene.dialogue.vars n m → m.Gathers) :
    Yields (Dialogue.collect host gathering fuel (some n)) scene (fun _ => scene.Inquired)
      (fun _ => scene.Inquired) := by
  have there : (n.kind = .choice || n.kind = .select) = true := by
    simpa using (gathers n .refl).1
  induction fuel generalizing scene n with
  | zero =>
    rw [Dialogue.collect, if_pos there]
    exact .of_error rfl (.refl scene)
  | succ fuel ih =>
    rw [Dialogue.collect, if_pos there]
    refine collectEdges_inquires rooted member (List.Subset.refl _) (gathers n .refl).2 quiet graph
      current fun between o quiet' graph' same vars inside enters => ?_
    have added := (collect_yields rooted fuel inside quiet' graph' same).mono
      (fun _ last collected => collected.imp fun _ => And.right) fun _ _ _ => trivial
    refine (Yields.and ?_ added).mono_fails fun _ _ => And.left
    cases o with
    | none => cases fuel <;> exact .of_ok rfl (.refl between)
    | some m =>
      have into : g.Into scene.dialogue.vars n m := by
        rw [Graph.Into, optionEdges, if_pos there]
        exact enters
      -- collecting sets no variables, so what is met from `m` is met from `n` too
      have further (k : Node) (met : g.Meets between.dialogue.vars m k) : k.Gathers :=
        gathers k (.head into (vars ▸ met))
      exact ih (inside m rfl) quiet' graph' same further (by simpa using (further m .refl).1)

end

namespace Script

variable {s : Settings} {name text : String} {c : Compilation}

/-- **Mixed blocks.** In a script that is not warned of a mixed block, collecting the choices of a line
meets choices and selects only, of which none just goes on, but for where a select leads that is not
overt. If all selects that it meets are overt it reports nothing, with any variables, but conditions
that are refused. -/
theorem collecting_unmixed (compiled : compile s name text = .ok c) (graph : c.graph = some g)
    (clean : ∀ line, mixing line ∉ c.diagnostics) (quiet : Quiet host scene)
    (stands : scene.dialogue.graph = g) {line : Node} (member : line ∈ g.nodes)
    (isText : line.kind = .text) (has : line.hasChoices = true) :
    ∃ root ∈ g.nodes, g.nextChoice line = .ok (some root)
      ∧ (∀ n, g.Meets scene.dialogue.vars root n → n.Gathers
          ∨ ∃ x, g.Meets scene.dialogue.vars root x ∧ g.Into scene.dialogue.vars x n
            ∧ x.kind = .select ∧ ¬ g.Overt x)
      ∧ ((∀ x, g.Meets scene.dialogue.vars root x → x.kind = .select → g.Overt x) →
          (∀ n, g.Meets scene.dialogue.vars root n → n.Gathers)
          ∧ ∀ fuel, Yields (Dialogue.collect host scene.dialogue.gathering fuel (some root)) scene
            (fun _ => scene.Inquired) (fun _ => scene.Inquired)) := by
  have sturdy := sturdy_of_compile compiled graph
  have unmixed := unmixed_of_compile compiled graph clean
  obtain ⟨o, found, noted⟩ := sturdy.root line member isText
  rw [has] at noted
  obtain ⟨root, rfl⟩ := Option.isSome_iff_exists.1 noted
  obtain ⟨there, kind⟩ := sturdy.rooted.nextChoice_root member found
  have meets (n : Node) (met : g.Meets scene.dialogue.vars root n) :=
    gathers_or_covert sturdy unmixed there kind met
  refine ⟨root, there, found, meets, fun overt => ?_⟩
  have gathers (n : Node) (met : g.Meets scene.dialogue.vars root n) : n.Gathers := by
    obtain gathers | ⟨x, before, _, select, covert⟩ := meets n met
    · exact gathers
    · exact absurd (overt x before select) covert
  exact ⟨gathers, fun fuel =>
    collect_inquires sturdy.rooted fuel there quiet stands rfl gathers⟩

/-- A line whose only option stands in a block of a block. The list has a label, so the inner block
is a branch of the outer one by itself. -/
def optionInNested : String :=
  "A: hi\n[if true]\n    [if true]\n        :l\n        * one\n            B: x\n    [endif]\n[endif]\n"

/-- Collecting the option of a block within a block. -/
theorem collecting_unmixed_nested :
    ∃ c g line root, compile .standard "script" optionInNested = .ok c ∧ c.graph = some g
      ∧ (∀ line, mixing line ∉ c.diagnostics) ∧ Quiet (Host.silent 9 9) (Scene.alone g)
      ∧ (Scene.alone g).dialogue.graph = g ∧ line ∈ g.nodes ∧ line.kind = .text
      ∧ line.hasChoices = true ∧ g.nextChoice line = .ok (some root)
      ∧ (∀ x, g.Meets (Scene.alone g).dialogue.vars root x → x.kind = .select → g.Overt x)
      ∧ (∀ n, g.Meets (Scene.alone g).dialogue.vars root n → n.Gathers)
      ∧ ∀ fuel, Yields
        (Dialogue.collect (Host.silent 9 9) (Scene.alone g).dialogue.gathering fuel (some root))
        (Scene.alone g) (fun _ => (Scene.alone g).Inquired) (fun _ => (Scene.alone g).Inquired) := by
  have opens : ((compile .standard "script" optionInNested).toOption.any fun c =>
      c.diagnostics = [] && c.graph.any fun g => g.isOvert && g.nodes.any fun line =>
        line.kind = .text && line.hasChoices) = true := by
    decide +kernel
  obtain ⟨c, compiled, opens⟩ := exists_ok_of_any opens
  simp only [Bool.and_eq_true, decide_eq_true_eq, Option.any_eq_true, List.any_eq_true] at opens
  obtain ⟨none, g, graph, isOvert, line, member, isText, has⟩ := opens
  have clean : ∀ line, mixing line ∉ c.diagnostics := by simp [none]
  have quiet := alone_quiet 9 9 g
  have rooted := (sturdy_of_compile compiled graph).rooted
  obtain ⟨root, there, found, _, reports⟩ :=
    collecting_unmixed compiled graph clean quiet rfl member isText has
  have overt (x : Node) (met : g.Meets (Scene.alone g).dialogue.vars root x)
      (select : x.kind = .select) : g.Overt x :=
    Graph.overt_of_isOvert isOvert (mem_of_entered rooted met there) select
  exact ⟨c, g, line, root, compiled, graph, clean, quiet, rfl, member, isText, has, found, overt,
    reports overt⟩

/-- The same with another line in a branch of the outer block. Neither branch is a choice, so that
nothing is warned of. -/
def lineBesideNested : String :=
  "A: hi\n[if false]\n    [if true]\n        :l\n        * one\n            B: x\n    [endif]\n"
    ++ "[else]\n    C: text\n[endif]\n"

/-- Nothing is found wrong with the script, but collecting the choices of its first line meets the
line in the other branch. -/
theorem collecting_meets_line :
    ∃ c g line root after, compile .standard "script" lineBesideNested = .ok c
      ∧ c.diagnostics = [] ∧ c.graph = some g ∧ line ∈ g.nodes ∧ line.kind = .text
      ∧ line.hasChoices = true ∧ g.nextChoice line = .ok (some root)
      ∧ Dialogue.collect (Host.silent 9 9) 0 9 (some root) (Scene.alone g) = .ok () after
      ∧ after.journal.filterMap Note.entry?
        = [⟨.error, "Error in script line 9: expected a choice, found a TEXT node"⟩] := by
  have opens : ((compile .standard "script" lineBesideNested).toOption.any fun c =>
      c.diagnostics = [] && c.graph.any fun g => g.nodes.any fun line =>
        line.kind = .text && line.hasChoices && (g.nextChoice line).toOption.any fun o =>
          o.any fun root =>
            ((Dialogue.collect (Host.silent 9 9) 0 9 (some root)).done? (Scene.alone g)).any
              fun result => result.2.journal.filterMap Note.entry?
                = [⟨.error, "Error in script line 9: expected a choice, found a TEXT node"⟩])
        = true := by
    decide +kernel
  obtain ⟨c, compiled, opens⟩ := exists_ok_of_any opens
  simp only [Bool.and_eq_true, decide_eq_true_eq, Option.any_eq_true, List.any_eq_true,
    toOption_eq_some] at opens
  obtain ⟨clean, g, graph, line, member, ⟨isText, has⟩, _, found, root, rfl, ⟨_, after⟩, done,
    logged⟩ := opens
  exact ⟨c, g, line, root, after, compiled, clean, graph, member, isText, has, found,
    Play.of_done? done, logged⟩

end Script

end Colloquy
