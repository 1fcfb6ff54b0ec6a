import Colloquy.Proofs.Graph.Unseen
/-!
# Lines of nodes

A node notes the line that it comes from, but nothing that is searched for in a graph depends on it.
-/

namespace Colloquy

/-- The reference to a line after lines have been given other numbers. -/
def Ref.renumbered (place : Nat → Nat) : Ref → Ref
  | .at (.ofNat n) => .ofNat (place n)
  | r => r

/-- A node whose line has been given another number. -/
def Node.renumbered (place : Nat → Nat) (n : Node) : Node :=
  { n with line := n.line.renumbered place }

/-- A graph whose lines have been given other numbers. -/
def Graph.renumbered (place : Nat → Nat) (g : Graph) : Graph :=
  { g with nodes := g.nodes.map (Node.renumbered place) }

/-- Numbers that are kept change nothing. -/
theorem Graph.renumbered_of_kept {place : Nat → Nat} (kept : ∀ n, place n = n) (g : Graph) :
    g.renumbered place = g := by
  have lines : ∀ r : Ref, r.renumbered place = r := by
    intro r
    cases r with
    | «at» i =>
      cases i with
      | ofNat n => exact congrArg Ref.ofNat (kept n)
      | negSucc n => rfl
    | decimal x => rfl
  have nodes : ∀ n : Node, n.renumbered place = n := by
    intro n
    rw [Node.renumbered, lines]
  rw [Graph.renumbered, List.map_congr_left fun n _ => nodes n, List.map_id']

/-- No search looks at the lines of nodes. -/
theorem Node.renumbered_unseen (place : Nat → Nat) : Unseen (Node.renumbered place) :=
  ⟨fun _ => ⟨rfl, rfl, rfl⟩, fun _ _ => rfl⟩

/-- A graph is made in the same way whatever the lines of its nodes are. -/
theorem Graph.ofNodes_renumbered (place : Nat → Nat) (name : String) (nodes : List Node)
    (first header : Option Ref) (labels : List (String × Ref)) :
    Graph.ofNodes name (nodes.map (Node.renumbered place)) first header labels
      = (Graph.ofNodes name nodes first header labels).map (renumbered place) :=
  (Node.renumbered_unseen place).ofNodes_map nodes name first header labels

end Colloquy
