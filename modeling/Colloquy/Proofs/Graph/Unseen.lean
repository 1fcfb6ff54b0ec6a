import Colloquy.Proofs.Graph.Alike
/-!
# Changes that no search sees

A search looks at the places and kinds of nodes and at where their edges lead, wherever that is. A
change of every node that keeps these commutes with each search, and so with the making of a graph.
-/

namespace Colloquy

/-- What a search does with an edge, which depends on its target alone: it looks on where that leads,
unless it has met a choice. -/
def lookOn (nodes : List Node) (search : Node → List Nat → Except RefFault Sighting)
    (sighting : Sighting) (target : Option Ref) : Except RefFault Sighting :=
  match sighting.1, target with
  | false, some r => do search (← follow nodes r) sighting.2
  | _, _ => .ok sighting

theorem sightFrom_succ (nodes : List Node) (depth : Nat) (n : Node) (seen : List Nat) :
    sightFrom nodes (depth + 1) n seen
      = if n.kind = .choice then .ok (true, seen)
        else if n.kind ≠ .select || seen.contains n.index then .ok (false, seen)
        else (n.edges.map (·.target)).foldlM (lookOn nodes (sightFrom nodes depth))
          (false, n.index :: seen) := by
  rw [sightFrom, List.foldlM_map]
  rfl

/-- A change of nodes that a search does not see, and that leaves alone the note whether a node has
choices. -/
structure Unseen (change : Node → Node) : Prop where
  alike : ∀ n : Node, n.Alike (change n)
  marked : ∀ (n : Node) (b : Bool), change { n with hasChoices := b } = { change n with hasChoices := b }

namespace Unseen

variable {change : Node → Node} (unseen : Unseen change) (nodes : List Node)

theorem follow_map (change : Node → Node) (r : Ref) :
    follow (nodes.map change) r = (follow nodes r).map change := by
  cases r with
  | «at» i =>
    unfold follow
    dsimp only
    rw [List.length_map, List.getElem?_map]
    generalize (if i < 0 then i + (nodes.length : Int) else i) = position
    split
    · rfl
    · cases nodes[position.toNat]? <;> rfl
  | decimal x => rfl

/-- Searches that see no change look on alike. -/
theorem lookOn_map {search other : Node → List Nat → Except RefFault Sighting}
    (same : ∀ n seen, search (change n) seen = other n seen) :
    lookOn (nodes.map change) search = lookOn nodes other := by
  funext sighting target
  unfold lookOn
  split
  · rw [follow_map]
    cases follow nodes _ with
    | error f => rfl
    | ok m => exact same m _
  · rfl

include unseen

theorem edges_length (n : Node) : (change n).edges.length = n.edges.length := by
  simpa using congrArg List.length (unseen.alike n).targets

theorem successor_map (n : Node) :
    successor (nodes.map change) (change n) = (successor nodes n).map (Option.map change) := by
  have targets := (unseen.alike n).targets
  unfold successor
  cases edges : n.edges with
  | nil =>
    rw [edges] at targets
    rw [List.map_eq_nil_iff.1 targets]
    rfl
  | cons e rest =>
    rw [edges] at targets
    obtain ⟨e', rest', edges', target, -⟩ := List.map_eq_cons_iff.1 targets
    rw [edges']
    dsimp only at target ⊢
    rw [target]
    cases e.target with
    | none => rfl
    | some r =>
      dsimp only
      rw [follow_map]
      cases follow nodes r <;> rfl

theorem sightFrom_map (depth : Nat) (n : Node) (seen : List Nat) :
    sightFrom (nodes.map change) depth (change n) seen = sightFrom nodes depth n seen := by
  induction depth generalizing n seen with
  | zero => rfl
  | succ depth ih =>
    obtain ⟨index, kind, targets⟩ := unseen.alike n
    have step := lookOn_map nodes ih
    rw [sightFrom_succ, sightFrom_succ, index, kind, targets, step]

theorem leadsToChoice_map (n : Node) :
    leadsToChoice (nodes.map change) (change n) = leadsToChoice nodes n := by
  rw [leadsToChoice, leadsToChoice, unseen.sightFrom_map]

theorem skipSteps_map (fuel : Nat) (start : Option Node) (seen : List Nat) :
    skipSteps (nodes.map change) fuel (start.map change) seen
      = (skipSteps nodes fuel start seen).map (Option.map change) := by
  induction fuel generalizing start seen with
  | zero => rfl
  | succ fuel ih =>
    cases start with
    | none => rfl
    | some n =>
      rw [Option.map_some, skipSteps, skipSteps, unseen.successor_map, (unseen.alike n).kind,
        (unseen.alike n).index]
      split
      · split
        · rfl
        · cases successor nodes n with
          | error f => rfl
          | ok next => exact ih next _
      · rfl

theorem nextChoice_map (line : Node) :
    nextChoice (nodes.map change) (change line) = (nextChoice nodes line).map (Option.map change) := by
  unfold nextChoice
  rw [unseen.edges_length, List.length_map, unseen.successor_map]
  split
  · rfl
  · cases successor nodes line with
    | error f => rfl
    | ok next =>
      simp only [Except.map, bind, Except.bind]
      rw [unseen.skipSteps_map]
      cases skipSteps nodes (nodes.length + 2) next [] with
      | error f => rfl
      | ok root =>
        cases root with
        | none => rfl
        | some root =>
          simp only [Except.map, Option.map_some, unseen.leadsToChoice_map]
          cases leadsToChoice nodes root with
          | error f => rfl
          | ok leads => cases leads <;> rfl

theorem markChoices_map (n : Node) :
    Graph.markChoices (nodes.map change) (change n)
      = (Graph.markChoices nodes n).map change := by
  unfold Graph.markChoices
  by_cases text : n.kind = .text
  · rw [if_pos text, if_pos ((unseen.alike n).kind.trans text), unseen.nextChoice_map]
    cases nextChoice nodes n with
    | error f => rfl
    | ok root => cases root <;> exact congrArg Except.ok (unseen.marked n _).symm
  · rw [if_neg text, if_neg ((unseen.alike n).kind ▸ text)]
    rfl

theorem mapM_markChoices_map (ns : List Node) :
    (ns.map change).mapM (Graph.markChoices (nodes.map change))
      = (ns.mapM (Graph.markChoices nodes)).map (List.map change) := by
  induction ns with
  | nil => rfl
  | cons n rest ih =>
    rw [List.map_cons, List.mapM_cons, List.mapM_cons, unseen.markChoices_map, ih]
    cases Graph.markChoices nodes n with
    | error f => rfl
    | ok first => cases rest.mapM (Graph.markChoices nodes) <;> rfl

/-- A graph of changed nodes is the graph of the nodes, with the nodes changed. -/
theorem ofNodes_map (name : String) (first header : Option Ref) (labels : List (String × Ref)) :
    Graph.ofNodes name (nodes.map change) first header labels
      = (Graph.ofNodes name nodes first header labels).map
        fun g => { g with nodes := g.nodes.map change } := by
  unfold Graph.ofNodes
  rw [unseen.mapM_markChoices_map]
  cases nodes.mapM (Graph.markChoices nodes) <;> rfl

end Unseen

end Colloquy
