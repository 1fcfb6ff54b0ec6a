import Colloquy.Proofs.Graph.Form
import Colloquy.Proofs.Script.WellFormed
/-!
# Saving compiled graphs

Every graph that a script compiles to can be saved and read again without a loss. What the compiler
puts into a node is what the kind of the node needs, names are not empty, and expressions were read
from the texts that they are saved as.
-/

namespace Colloquy.Script

section Parts

variable {s : Settings} {text : String} {b : Builder}

/-- A node that comes of a sound step carries what its kind needs and nothing else. -/
theorem Built.proper {labels : List (String × Nat)} {i : Nat} {d : Draft} {edges : List Edge}
    {n : Node} (built : Built (buildNode labels i d edges) n) (sound : d.step.Sound)
    (noGoto : d.gotoLabel? = none) : n.Proper := by
  obtain ⟨same, kept, filled, _, _⟩ := built
  unfold buildNode at same kept filled
  unfold Draft.gotoLabel? at noGoto
  unfold Node.Proper
  cases step : d.step with
  | text speaker text id params =>
    rw [step] at same sound
    rw [same]
    exact ⟨sound, rfl, rfl, rfl, rfl⟩
  | assign name e text id =>
    rw [step] at same sound filled
    dsimp only at same filled
    have translated : n.textId = "" → text = "" := by
      intro empty
      by_contra content
      exact filled (by simp [TextId.content?, Step.kind, content]) empty
    rw [same]
    exact ⟨rfl, rfl, sound.1, ⟨e, rfl, sound.2.1⟩, translated, rfl, rfl⟩
  | event name args =>
    rw [step] at same sound kept
    dsimp only at same kept
    have id : n.textId = "" := kept rfl
    rw [same]
    exact ⟨rfl, rfl, id, rfl, rfl, rfl, sound⟩
  | choice | select =>
    rw [step] at same kept
    dsimp only at same kept
    have id : n.textId = "" := kept rfl
    rw [same]
    exact ⟨rfl, rfl, id, rfl, rfl, rfl, rfl, rfl⟩
  | goto label =>
    rw [step] at noGoto
    cases noGoto

/-- An edge that comes of one that suits a node. -/
theorem savable_of_suits {nodes : List Draft} {kind : NodeKind} {e₀ : DraftEdge}
    {target : Option Nat} {e : Edge} (suits : e₀.Suits nodes kind)
    (named : TextId.NamedEdge (buildEdge target e₀) e) : e.Savable := by
  obtain ⟨same, kept, _⟩ := named
  have aimed : e.target = target.map Ref.ofNat := by rw [same]; rfl
  have kindOf : e.kind = e₀.kind := by rw [same]; rfl
  have condition : e.condition = e₀.condition := by rw [same]; rfl
  have textOf : e.text = e₀.text := by rw [same]; rfl
  have params : e.params = e₀.params := by rw [same]; rfl
  have id (other : e.kind ≠ .decision) : e.textId = e₀.textId :=
    kept fun decision => other (kindOf.trans decision)
  have refs : ∀ r, e.target = some r → ∃ p, r = .ofNat p := by
    intro r there
    rw [aimed] at there
    obtain ⟨p, _, same⟩ := Option.map_eq_some_iff.mp there
    exact ⟨p, same.symm⟩
  -- But for options and guards there is nothing to an edge but where it leads.
  have bare (plain : e₀.IsBare) : e.Savable := by
    obtain ⟨noGuard, noText, noId, noParams⟩ := plain
    refine ⟨refs, ?_, ?_, fun other => ⟨textOf.trans noText, (id other).trans noId,
      params.trans noParams⟩⟩
    · rw [condition, noGuard]
      exact fun _ none => by cases none
    · rw [params, noParams]
      exact fun _ none => by cases none
  cases kind with
  | text | setVariable | event => exact bare suits.2
  | choice =>
    rcases suits with ⟨decision, noGuard, filled⟩ | ⟨_, plain, _⟩
    · refine ⟨refs, ?_, by rw [params]; exact filled, fun other => ?_⟩
      · rw [condition, noGuard]
        exact fun _ none => by cases none
      · exact absurd (kindOf.trans decision) other
    · exact bare plain
  | select =>
    obtain ⟨_, ⟨c, guard, readable⟩, noText, noId, noParams⟩ := suits
    refine ⟨refs, ?_, ?_, fun other => ⟨textOf.trans noText, (id other).trans noId,
      params.trans noParams⟩⟩
    · rw [condition, guard]
      rintro _ ⟨⟩
      exact readable
    · rw [params, noParams]
      exact fun _ none => by cases none
  | goto => exact suits.elim

end Parts

namespace ComesOf

variable {s : Settings} {name text : String} {b : Builder} {g : Graph}

theorem line_of_node (comes : ComesOf s name b g) {i : Nat} {n : Node}
    (there : g.nodes[i]? = some n) : ∃ k, n.line = .ofNat k := by
  obtain ⟨n₀, before, built⟩ := forall₂_right comes.nodes there
  rw [built.line]
  by_cases inside : i < (bodyOf b).length
  · rw [plainNodes_body inside] at before
    obtain ⟨d, _, rfl⟩ := Option.map_eq_some_iff.mp before
    exact ⟨d.line, buildNode_line _ _ _ _⟩
  · obtain ⟨k, rfl⟩ := Nat.exists_eq_add_of_le (Nat.le_of_not_lt inside)
    rw [plainNodes_header] at before
    obtain ⟨d, _, rfl⟩ := Option.map_eq_some_iff.mp before
    exact ⟨d.line, buildNode_line _ _ _ _⟩

theorem node_savable (linked : Linked s text b) (comes : ComesOf s name b g) {n : Node}
    (member : n ∈ g.nodes) : n.Savable := by
  obtain ⟨i, there⟩ := List.mem_iff_getElem?.mp member
  have line := comes.line_of_node there
  -- the nodes of the header come after those of the body
  by_cases inside : i < (bodyOf b).length
  · obtain ⟨_, d, _, noGoto, sound, built, _⟩ := comes.sound_body linked there inside
    refine ⟨line, fun e own => ?_, built.proper sound.step noGoto⟩
    obtain ⟨k, slot⟩ := List.mem_iff_getElem?.mp own
    obtain ⟨e₁, before, named⟩ := built.edge_right slot
    rw [bodyNode, buildNode_edges, List.getElem?_map] at before
    obtain ⟨e₀, found, rfl⟩ := Option.map_eq_some_iff.mp before
    exact savable_of_suits (sound.edges e₀ (List.mem_of_getElem? found)) named
  · obtain ⟨k, rfl⟩ := Nat.exists_eq_add_of_le (Nat.le_of_not_lt inside)
    obtain ⟨d, found, built⟩ := comes.headerStep there
    obtain ⟨_, sound, kind⟩ := linked.healthy.header d (List.mem_of_getElem? found)
    have noGoto : d.gotoLabel? = none := by
      unfold Draft.gotoLabel?
      cases step : d.step with
      | goto label =>
        rw [step] at kind
        cases kind
      | _ => rfl
    refine ⟨line, fun e own => ?_, built.proper sound noGoto⟩
    obtain ⟨_, _, edges⟩ := comes.headerStep_kind linked there
    rw [edges] at own
    split at own
    · rw [List.mem_singleton.mp own]
      exact ⟨fun r there => ⟨_, (Option.some.inj there).symm⟩, fun _ none => (by cases none),
        fun _ none => (by cases none), fun _ => ⟨rfl, rfl, rfl⟩⟩
    · cases own

theorem plainNodes_hasChoices {n : Node} (member : n ∈ plainNodes s b) : n.hasChoices = false := by
  rcases List.mem_append.mp member with body | header
  · obtain ⟨i, there⟩ := List.mem_iff_getElem?.mp body
    rw [bodyNodes, List.getElem?_mapIdx] at there
    obtain ⟨d, _, rfl⟩ := Option.map_eq_some_iff.mp there
    exact buildNode_hasChoices _ _ _ _
  · obtain ⟨i, there⟩ := List.mem_iff_getElem?.mp header
    rw [headerNodes, List.getElem?_mapIdx] at there
    obtain ⟨d, _, rfl⟩ := Option.map_eq_some_iff.mp there
    exact buildNode_hasChoices _ _ _ _

/-- The nodes without the notes which lines have choices are those that the notes were made of. -/
theorem marked_unmarked (comes : ComesOf s name b g) :
    (g.nodes.map Node.unmarked).mapM (Graph.markChoices (g.nodes.map Node.unmarked))
      = .ok g.nodes := by
  obtain ⟨plain, marked, named⟩ := comes.marked
  have unmarked : g.nodes.map Node.unmarked = plain := by
    refine List.ext_getElem? fun i => ?_
    rw [List.getElem?_map]
    cases there : g.nodes[i]? with
    | none =>
      have outside := List.getElem?_eq_none_iff.mp there
      rw [← marked.length_eq] at outside
      exact (List.getElem?_eq_none outside).symm
    | some n' =>
      obtain ⟨n, before, mark⟩ := forall₂_right marked there
      obtain ⟨n₀, first, ids⟩ := forall₂_right named before
      have same : n.hasChoices = n₀.hasChoices := by rw [ids.same]
      have plainly : n.hasChoices = false :=
        same.trans (plainNodes_hasChoices (List.mem_of_getElem? first))
      rw [before, Option.map_some, Node.unmarked, (markChoices_same mark).1]
      simp only [← plainly]
  rw [unmarked]
  exact mapM_eq_ok.mpr marked

theorem savable (linked : Linked s text b) (comes : ComesOf s name b g) : g.Savable := by
  have formed := comes.wellFormed linked
  have bound : g.bodyLength ≤ g.nodes.length := formed.body_le
  refine ⟨fun n member => comes.node_savable linked member, formed.index, ?_, ?_, ?_, ?_, ?_, ?_,
    comes.marked_unmarked⟩
  · intro i n there
    rw [(comes.place_of_node there).2, comes.labels, List.filter_map, List.map_map]
    have same : (fun l : String × Nat => decide (l.2 = i))
        = (fun l : String × Ref => l.2.isAt i) ∘ fun l => (l.1, Ref.ofNat l.2) :=
      funext fun l => (Ref.isAt_ofNat l.2 i).symm
    rw [← same]
    rfl
  · intro n member e own r target
    obtain ⟨i, there⟩ := List.mem_iff_getElem?.mp member
    by_cases inside : i < g.bodyLength
    · obtain ⟨p, ref, less⟩ := formed.body_target i n inside there e own r target
      exact ⟨p, ref, by omega⟩
    · obtain ⟨_, next, less⟩ := formed.header_edges i n (Nat.le_of_not_lt inside) there e own
      exact ⟨i + 1, Option.some.inj (target.symm.trans next), less⟩
  · intro r first
    obtain ⟨p, ref, less⟩ := formed.first r first
    exact ⟨p, ref, by omega⟩
  · intro r header
    rw [formed.header] at header
    split at header
    next more => exact ⟨g.bodyLength, (Option.some.inj header).symm, more⟩
    · cases header
  · intro l member
    obtain ⟨p, ref, less⟩ := formed.label_target l member
    exact ⟨p, ref, by omega⟩
  · rw [comes.labels]
    refine foldLabels_eq_self ?_ ?_
    · rw [List.map_map]
      exact labelsOf_distinct linked
    · intro l member
      obtain ⟨l', inside, rfl⟩ := List.mem_map.mp member
      exact labelsOf_lowered linked l' inside

end ComesOf

/-- A graph that a script compiles to passes the schema and is read as it was saved, with all its
nodes and edges, its labels and so also its texts and speakers. -/
theorem ofForm_compiled {s : Settings} {name text : String} {c : Compilation} {g : Graph}
    (compiled : compile s name text = .ok c) (graph : c.graph = some g) :
    (Schema.graph? g.form).isSome = true ∧ Graph.ofForm g.form = .ok g := by
  obtain ⟨b, linked, _, comes⟩ := compile_graph compiled graph
  have savable := comes.savable linked
  refine ⟨?_, savable.ofForm_form⟩
  rw [savable.graph?_form]
  rfl

/-- A script with a line, an option and an assignment is saved and read again. -/
theorem ofForm_compiled_option :
    ∃ c g, compile .standard "script" "A: hi {n}\n* go\n  [set n = \"on\"]" = .ok c
      ∧ c.graph = some g ∧ Graph.ofForm g.form = .ok g := by
  have gives : ((compile .standard "script"
      "A: hi {n}\n* go\n  [set n = \"on\"]").toOption.any (·.graph.isSome)) = true := by
    decide +kernel
  obtain ⟨c, compiled, gives⟩ := exists_ok_of_any gives
  obtain ⟨g, graph⟩ := Option.isSome_iff_exists.mp gives
  exact ⟨c, g, compiled, graph, (ofForm_compiled compiled graph).2⟩

end Colloquy.Script
