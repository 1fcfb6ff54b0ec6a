import Colloquy.Proofs.Circle
import Colloquy.Proofs.Dialogue.Offering
import Colloquy.Proofs.Script.Onward
/-!
# Where collecting ends

Collecting the options of a line goes from a choice or select into those that its edges lead to. It
ends if it comes round to none of those that it is inside of; in the graph of a script it comes round
only by a branch that goes back by a goto.
-/

namespace Colloquy

open Relation (ReflTransGen TransGen)
open Script.Direct (Variables)

variable {η δ : Type} {host : Host η δ} {scene : Scene η δ} {g : Graph} {vars : Variables}

/-- While options are collected at a node, they are also collected at another. -/
def Graph.Into (g : Graph) (vars : Variables) (n m : Node) : Prop :=
  g.Enters vars (optionEdges (some n)) (some m)

theorem Graph.Into.edge {n m : Node} (into : g.Into vars n m) :
    ∃ e ∈ n.edges, (e.kind = .condition ∨ e.kind = .chained) ∧ g.target e = .ok (some m) := by
  obtain ⟨e, member, way⟩ := Graph.Enters.edge into
  rw [optionEdges] at member
  split at member
  · exact ⟨e, member, way⟩
  · cases member

/-- Where options have been collected, all ways that collecting took came to an end. -/
theorem Graph.Offers.acc {edges out : List Edge} (offers : g.Offers vars edges out) (m : Node)
    (enters : g.Enters vars edges (some m)) : Acc (fun m n => g.Into vars n m) m := by
  -- whatever is entered is what has been collected from, and that is well founded
  induction offers generalizing m with
  | nil => cases enters
  | decision kind _ ih =>
    cases enters with
    | holds kind' | chained kind' =>
      rw [kind] at kind'
      cases kind'
    | later _ enters => exact ih m enters
  | enters kind condition holds leads _ ih =>
    cases enters with
    | holds _ _ _ leads' =>
      cases leads.symm.trans leads'
      exact ⟨m, fun k into => ih k into⟩
    | chained kind' =>
      rw [kind] at kind'
      cases kind'
    | later passed =>
      have fails := passed kind _ condition
      rw [holds] at fails
      cases fails
  | skips kind fails _ ih =>
    cases enters with
    | holds _ condition holds =>
      rw [fails _ condition] at holds
      cases holds
    | chained kind' =>
      rw [kind] at kind'
      cases kind'
    | later _ enters => exact ih m enters
  | chained kind leads _ _ inner later =>
    cases enters with
    | holds kind' =>
      rw [kind] at kind'
      cases kind'
    | chained _ leads' =>
      cases leads.symm.trans leads'
      exact ⟨m, fun k into => inner k into⟩
    | later _ enters => exact later m enters
  | passes kind _ ih =>
    cases enters with
    | holds kind' | chained kind' =>
      rw [kind] at kind'
      cases kind'
    | later _ enters => exact ih m enters

/-- Where options have been collected collecting went straight. -/
theorem Graph.Offers.straight {n : Node} {out : List Edge}
    (offers : g.Offers vars (optionEdges (some n)) out) : Straight (g.Into vars) n :=
  straight_of_acc ⟨n, fun m into => offers.acc m into⟩

section

variable (rooted : Rooted g.nodes)

include rooted

/-- Collecting that goes straight ends, unless an expression cannot be evaluated. -/
theorem collect_straight {gathering fuel : Nat} {n : Node} (member : n ∈ g.nodes)
    (quiet : Quiet host scene) (graph : scene.dialogue.graph = g)
    (current : scene.dialogue.gathering = gathering)
    (straight : Straight (g.Into scene.dialogue.vars) n) {path : List Node}
    (trail : Trail (g.Into scene.dialogue.vars) g.nodes path n)
    (enough : g.nodes.length ≤ path.length + fuel) :
    Yields (Dialogue.collect host gathering fuel (some n)) scene
      (fun _ => Collected g (optionEdges (some n)) scene)
      (Fell g False (optionEdges (some n)) scene) := by
  induction fuel generalizing scene n path with
  | zero => exact absurd enough (Nat.not_le.2 (trail.length_lt member straight))
  | succ fuel ih =>
    rw [Dialogue.collect]
    split
    next there =>
      rw [optionEdges, if_pos there]
      refine collectEdges_yields rooted member (List.Subset.refl _) quiet graph current
        fun between o quiet' graph' same vars inside enters => ?_
      cases o with
      | none =>
        cases fuel <;> exact .of_ok rfl ⟨[], .nil, .refl between⟩
      | some m =>
        -- what is entered comes next on the way, so the trail grows as the bound sinks
        have into : g.Into scene.dialogue.vars n m := by
          rw [Graph.Into, optionEdges, if_pos there]
          exact enters
        have further := trail.next member straight into
        rw [← vars] at further
        refine ih (inside m rfl) quiet' graph' same (vars ▸ straight.step into) further ?_
        rw [List.length_cons]
        omega
    next other => exact outside_yields other

/-- Collecting that ends has gone straight. -/
theorem straight_of_collected {gathering fuel : Nat} {n : Node} {after : Scene η δ} (member : n ∈ g.nodes)
    (quiet : Quiet host scene) (graph : scene.dialogue.graph = g)
    (current : scene.dialogue.gathering = gathering)
    (collected : Dialogue.collect host gathering fuel (some n) scene = .ok () after) :
    Straight (g.Into scene.dialogue.vars) n := by
  have inside : g.Holds (some n) := fun m same => Option.some.inj same ▸ member
  obtain ⟨out, offers, _⟩ :=
    (collect_yields rooted fuel inside quiet graph current).of_done collected
  exact offers.straight

theorem Graph.Into.mem {n m : Node} (into : g.Into vars n m) (member : n ∈ g.nodes) :
    m ∈ g.nodes := by
  obtain ⟨e, own, _, leads⟩ := into.edge
  exact Graph.holds_of_target rooted member own leads m rfl

theorem mem_of_entered {n m : Node} (entered : ReflTransGen (g.Into vars) n m)
    (member : n ∈ g.nodes) : m ∈ g.nodes := by
  induction entered with
  | refl => exact member
  | tail _ into ih => exact into.mem rooted ih

end

/-- Whether a fault is that calls or choices are nested too deep. -/
def Fault.isTooDeep : Fault → Bool
  | .tooDeep => true
  | _ => false

namespace Script

variable {s : Settings} {name text : String} {c : Compilation}

/-- In the graph of a script collecting comes round only by a branch that goes back by a goto. -/
theorem goesBack_of_circle (compiled : compile s name text = .ok c) (graph : c.graph = some g)
    {n : Node} (member : n ∈ g.nodes) (circle : TransGen (g.Into vars) n n) :
    ∃ x y, ReflTransGen (g.Into vars) n x ∧ g.Into vars x y ∧ ReflTransGen (g.Into vars) y n
      ∧ x.kind = .select ∧ y.index ≤ x.index ∧ GoesBy s text g x y := by
  obtain ⟨b, linked, _, comes⟩ := compile_graph compiled graph
  have rooted := (sturdy_of_compile compiled graph).rooted
  obtain ⟨x, y, before, into, after, back⟩ := exists_back Node.index circle
  obtain ⟨e, own, kind, leads⟩ := into.edge
  obtain onward | ⟨select, goes⟩ :=
    onward_of_linked linked comes (mem_of_entered rooted before member) own kind leads
  · exact absurd onward (Nat.not_lt.2 back)
  · exact ⟨x, y, before, into, after, select, back, goes⟩

/-- **Collecting choices.** On every line with choices, with any variables, collecting enters no node
that it is inside of and ends, unless an expression cannot be evaluated; or it comes round in a circle
and never ends, and then a branch in the circle goes back by a goto. -/
theorem collecting_ends (compiled : compile s name text = .ok c) (graph : c.graph = some g)
    (quiet : Quiet host scene) (stands : scene.dialogue.graph = g) {line : Node}
    (member : line ∈ g.nodes) (isText : line.kind = .text) (has : line.hasChoices = true) :
    ∃ root ∈ g.nodes, g.nextChoice line = .ok (some root)
      ∧ (Straight (g.Into scene.dialogue.vars) root
          ∧ (∀ fuel, g.nodes.length ≤ fuel →
            Yields (Dialogue.collect host scene.dialogue.gathering fuel (some root)) scene
              (fun _ => Collected g (optionEdges (some root)) scene) (Broke g))
        ∨ (∃ x y, ReflTransGen (g.Into scene.dialogue.vars) root x
            ∧ g.Into scene.dialogue.vars x y ∧ ReflTransGen (g.Into scene.dialogue.vars) y x
            ∧ x.kind = .select ∧ y.index ≤ x.index ∧ GoesBy s text g x y)
          ∧ ∀ fuel after, Dialogue.collect host scene.dialogue.gathering fuel (some root) scene
              ≠ .ok () after) := by
  have sturdy := sturdy_of_compile compiled graph
  obtain ⟨o, found, noted⟩ := sturdy.root line member isText
  rw [has] at noted
  obtain ⟨root, rfl⟩ := Option.isSome_iff_exists.1 noted
  have there := (sturdy.rooted.nextChoice_root member found).1
  refine ⟨root, there, found, ?_⟩
  -- a way that comes round leads back somewhere, and only a goto does
  by_cases straight : Straight (g.Into scene.dialogue.vars) root
  · refine .inl ⟨straight, fun fuel enough => ?_⟩
    refine (collect_straight sturdy.rooted there quiet stands rfl straight (.start ..) ?_).mono_fails
      fun f after fell => fell.cause.resolve_right And.right
    rw [List.length_nil, Nat.zero_add]
    exact enough
  · refine .inr ⟨?_, fun fuel after collected => ?_⟩
    · obtain ⟨n, reached, circle⟩ : ∃ n, ReflTransGen (g.Into scene.dialogue.vars) root n
          ∧ TransGen (g.Into scene.dialogue.vars) n n := by
        by_contra none
        exact straight fun n reached circle => none ⟨n, reached, circle⟩
      obtain ⟨x, y, before, into, after, back⟩ := goesBack_of_circle compiled graph
        (mem_of_entered sturdy.rooted reached there) circle
      exact ⟨x, y, reached.trans before, into, after.trans before, back⟩
    · exact straight (straight_of_collected sturdy.rooted there quiet stands rfl collected)

/-- A line whose second option stands in a block. -/
def optionInBlock : String :=
  "A: hi\n* one\n    B: x\n[if true]\n    * two\n        B: y\n[endif]\n"

/-- Collecting the options of a line of which one stands in a block. -/
theorem collecting_ends_inBlock :
    ∃ c g line root, compile .standard "script" optionInBlock = .ok c ∧ c.graph = some g
      ∧ Quiet (Host.silent 9 9) (Scene.alone g) ∧ (Scene.alone g).dialogue.graph = g
      ∧ line ∈ g.nodes ∧ line.kind = .text ∧ line.hasChoices = true
      ∧ g.nextChoice line = .ok (some root)
      ∧ Straight (g.Into (Scene.alone g).dialogue.vars) root
      ∧ ∀ fuel, g.nodes.length ≤ fuel → Yields
        (Dialogue.collect (Host.silent 9 9) (Scene.alone g).dialogue.gathering fuel (some root))
        (Scene.alone g) (fun _ => Collected g (optionEdges (some root)) (Scene.alone g))
        (Broke g) := by
  have opens : ((compile .standard "script" optionInBlock).toOption.any fun c =>
      c.graph.any fun g => g.nodes.any fun line => line.kind = .text && line.hasChoices
        && (g.nextChoice line).toOption.any fun o =>
          ((Dialogue.collect (Host.silent 9 9) (Scene.alone g).dialogue.gathering 9 o).done?
            (Scene.alone g)).isSome) = true := by
    decide +kernel
  obtain ⟨c, compiled, opens⟩ := exists_ok_of_any opens
  obtain ⟨g, graph, opens⟩ := (Option.any_eq_true _ _).1 opens
  obtain ⟨line, member, opens⟩ := List.any_eq_true.1 opens
  simp only [Bool.and_eq_true, decide_eq_true_eq] at opens
  obtain ⟨⟨isText, has⟩, opens⟩ := opens
  obtain ⟨o, found, collected⟩ := exists_ok_of_any opens
  obtain ⟨⟨_, after⟩, done⟩ := Option.isSome_iff_exists.1 collected
  have quiet := alone_quiet 9 9 g
  obtain ⟨root, _, same, ⟨straight, ends⟩ | ⟨_, never⟩⟩ :=
    collecting_ends compiled graph quiet rfl member isText has
  · exact ⟨c, g, line, root, compiled, graph, quiet, rfl, member, isText, has, same, straight, ends⟩
  · cases found.symm.trans same
    exact absurd (Play.of_done? done) (never 9 after)

/-- A line whose options stand in a block, of which one branch goes back to before the block. -/
def circling : String :=
  "A: hi\n:c\n[if false]\n    * one\n        B: x\n[else]\n    [goto c]\n[endif]\n"

/-- Nothing is found wrong with the script, and its first line has choices, but collecting them leads
back to where it began. -/
theorem circling_round :
    ∃ c g line root, compile .standard "script" circling = .ok c ∧ c.diagnostics = []
      ∧ c.graph = some g ∧ line ∈ g.nodes ∧ line.kind = .text ∧ line.hasChoices = true
      ∧ g.nextChoice line = .ok (some root) ∧ ¬ Straight (g.Into []) root := by
  have opens : ((compile .standard "script" circling).toOption.any fun c =>
      c.diagnostics = [] && c.graph.any fun g => g.nodes.length ≤ 9 && g.nodes.any fun line =>
        line.kind = .text && line.hasChoices && (g.nextChoice line).toOption.any fun o =>
          ((Dialogue.collect (Host.silent 9 9) 0 9 o).fault? (Scene.alone g)).any Fault.isTooDeep)
        = true := by
    decide +kernel
  obtain ⟨c, compiled, opens⟩ := exists_ok_of_any opens
  obtain ⟨clean, opens⟩ := Bool.and_eq_true_iff.1 opens
  obtain ⟨g, graph, opens⟩ := (Option.any_eq_true _ _).1 opens
  obtain ⟨small, opens⟩ := Bool.and_eq_true_iff.1 opens
  obtain ⟨line, member, opens⟩ := List.any_eq_true.1 opens
  simp only [Bool.and_eq_true, decide_eq_true_eq] at opens
  obtain ⟨⟨isText, has⟩, opens⟩ := opens
  obtain ⟨o, found, deep⟩ := exists_ok_of_any opens
  have sturdy := sturdy_of_compile compiled graph
  obtain ⟨o', found', noted⟩ := sturdy.root line member isText
  cases found.symm.trans found'
  rw [has] at noted
  obtain ⟨root, rfl⟩ := Option.isSome_iff_exists.1 noted
  have there := (sturdy.rooted.nextChoice_root member found).1
  refine ⟨c, g, line, root, compiled, of_decide_eq_true clean, graph, member, isText, has, found,
    fun straight => ?_⟩
  -- on a straight way so few nodes could not be nested so deep
  obtain ⟨f, fault, deep⟩ := (Option.any_eq_true _ _).1 deep
  obtain ⟨after, failed⟩ := Play.of_fault? fault
  obtain ⟨e, _, fault, rfl, _⟩ | ⟨_, none⟩ := ((collect_straight sturdy.rooted there
    (alone_quiet 9 9 g) rfl rfl straight (.start ..) (by simpa using small)).of_failed failed).cause
  · cases deep
  · exact none

/-- Collecting may come round and then never ends. -/
theorem collecting_circles :
    ∃ c g line root, compile .standard "script" circling = .ok c ∧ c.diagnostics = []
      ∧ c.graph = some g ∧ line ∈ g.nodes ∧ line.kind = .text ∧ line.hasChoices = true
      ∧ g.nextChoice line = .ok (some root) ∧ ¬ Straight (g.Into []) root
      ∧ ∀ fuel after, Dialogue.collect (Host.silent 9 9) 0 fuel (some root) (Scene.alone g)
        ≠ .ok () after := by
  obtain ⟨c, g, line, root, compiled, clean, graph, member, isText, has, found, round⟩ :=
    circling_round
  have sturdy := sturdy_of_compile compiled graph
  have there := (sturdy.rooted.nextChoice_root member found).1
  refine ⟨c, g, line, root, compiled, clean, graph, member, isText, has, found, round,
    fun fuel after collected => round ?_⟩
  exact straight_of_collected sturdy.rooted there (alone_quiet 9 9 g) rfl rfl collected

end Script

end Colloquy
