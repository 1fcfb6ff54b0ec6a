import Colloquy.Proofs.Graph.Sturdy
/-!
# The order of options

The options behind a line form a tree: that of the edges of a choice or select, in which conditions and
chained edges lead on to the edges of another. An option has an address in the tree, the places of the
edges that lead to it, and options that are listed in the order of the tree have growing addresses.
-/

namespace Colloquy

/-- The edges from which options are collected at a node. -/
def optionEdges : Option Node → List Edge
  | none => []
  | some n => if n.kind = .choice || n.kind = .select then n.edges else []

namespace Graph

/-- All ways on are edges of nodes of the graph. -/
def Owns (g : Graph) (edges : List Edge) : Prop :=
  ∀ e ∈ edges, ∃ n ∈ g.nodes, e ∈ n.edges

/-- `g.OptionAt edges address e`: the option `e` has this address in the tree of these edges. -/
inductive OptionAt (g : Graph) : List Edge → List Nat → Edge → Prop where
  | here {edges : List Edge} {k : Nat} {e : Edge} (there : edges[k]? = some e)
      (kind : e.kind = .decision) : OptionAt g edges [k] e
  | within {edges : List Edge} {k : Nat} {e option : Edge} {o : Option Node} {address : List Nat}
      (there : edges[k]? = some e) (kind : e.kind = .condition ∨ e.kind = .chained)
      (leads : g.target e = .ok o) (inner : OptionAt g (optionEdges o) address option) :
      OptionAt g edges (k :: address) option

/-- Options of the tree of some edges, in the order of the tree. -/
def InOrder (g : Graph) (edges out : List Edge) : Prop :=
  ∃ addresses : List (List Nat), addresses.Pairwise (· < ·)
    ∧ List.Forall₂ (g.OptionAt edges) addresses out

variable {g : Graph}

theorem owns_optionEdges {o : Option Node} (inside : g.Holds o) : g.Owns (optionEdges o) := by
  intro e member
  cases o with
  | none => cases member
  | some n =>
    refine ⟨n, inside n rfl, ?_⟩
    rw [optionEdges] at member
    split at member
    · exact member
    · cases member

namespace OptionAt

/-- An option is a decision of a node of the graph. -/
theorem decision (rooted : Rooted g.nodes) {edges : List Edge} {address : List Nat} {e : Edge}
    (option : g.OptionAt edges address e) (owned : g.Owns edges) :
    e.kind = .decision ∧ ∃ n ∈ g.nodes, e ∈ n.edges := by
  induction option with
  | here there kind => exact ⟨kind, owned _ (List.mem_of_getElem? there)⟩
  | within there _ leads _ ih =>
    obtain ⟨n, member, own⟩ := owned _ (List.mem_of_getElem? there)
    exact ih (owns_optionEdges (holds_of_target rooted member own leads))

/-- An edge that comes before the others moves them one place on. -/
theorem later {edges : List Edge} {address : List Nat} {e : Edge} (first : Edge)
    (option : g.OptionAt edges address e) :
    g.OptionAt (first :: edges) (address.modifyHead (· + 1)) e := by
  cases option with
  | here there kind => exact .here there kind
  | within there kind leads inner => exact .within there kind leads inner

end OptionAt

theorem modifyHead_succ_lt {a b : List Nat} (before : a < b) :
    a.modifyHead (· + 1) < b.modifyHead (· + 1) := by
  cases a with
  | nil =>
    cases b with
    | nil => exact absurd before (List.lt_irrefl [])
    | cons j b => exact .nil
  | cons i a =>
    cases b with
    | nil => exact absurd before (List.not_lt_nil _)
    | cons j b =>
      rw [List.modifyHead_cons, List.modifyHead_cons, List.cons_lt_cons_iff]
      rw [List.cons_lt_cons_iff] at before
      exact before.imp Nat.succ_lt_succ (And.imp_left (congrArg _))

namespace InOrder

theorem nil (edges : List Edge) : g.InOrder edges [] :=
  ⟨[], .nil, .nil⟩

/-- Options of the first of some edges come before those of the others. -/
theorem append {e : Edge} {rest inside out : List Edge} {inner : List (List Nat)}
    (ordered : inner.Pairwise (· < ·))
    (first : List.Forall₂ (fun a option => g.OptionAt (e :: rest) (0 :: a) option) inner inside)
    (others : g.InOrder rest out) : g.InOrder (e :: rest) (inside ++ out) := by
  obtain ⟨addresses, growing, options⟩ := others
  refine ⟨inner.map (0 :: ·) ++ addresses.map (List.modifyHead (· + 1)), ?_, ?_⟩
  · refine List.pairwise_append.2 ⟨?_, ?_, ?_⟩
    · exact ordered.map _ fun a b before => List.cons_lt_cons_iff.2 (.inr ⟨rfl, before⟩)
    · exact growing.map _ fun a b => modifyHead_succ_lt
    · intro a here b there
      obtain ⟨a, _, rfl⟩ := List.mem_map.1 here
      obtain ⟨b, member, rfl⟩ := List.mem_map.1 there
      obtain ⟨i, place⟩ := List.mem_iff_getElem?.1 member
      obtain ⟨option, _, under⟩ := forall₂_left options place
      cases under with
      | here => exact .rel (Nat.succ_pos _)
      | within => exact .rel (Nat.succ_pos _)
  · refine List.rel_append (List.forall₂_map_left_iff.2 first) ?_
    exact List.forall₂_map_left_iff.2 (options.imp fun _ _ option => option.later e)

theorem skip {rest out : List Edge} (e : Edge) (others : g.InOrder rest out) :
    g.InOrder (e :: rest) out :=
  append .nil .nil others

theorem decision {e : Edge} {rest out : List Edge} (kind : e.kind = .decision)
    (others : g.InOrder rest out) : g.InOrder (e :: rest) (e :: out) :=
  append (List.pairwise_singleton _ []) (.cons (.here rfl kind) .nil) others

/-- The options behind an edge come before those of the other edges. -/
theorem within {e : Edge} {o : Option Node} {rest inside out : List Edge}
    (kind : e.kind = .condition ∨ e.kind = .chained) (leads : g.target e = .ok o)
    (inner : g.InOrder (optionEdges o) inside) (others : g.InOrder rest out) :
    g.InOrder (e :: rest) (inside ++ out) := by
  obtain ⟨addresses, growing, options⟩ := inner
  exact append growing (options.imp fun _ _ option => .within rfl kind leads option) others

/-- Options in order are decisions of nodes of the graph. -/
theorem decisions (rooted : Rooted g.nodes) {edges out : List Edge} (ordered : g.InOrder edges out)
    (owned : g.Owns edges) : ∀ e ∈ out, e.kind = .decision ∧ ∃ n ∈ g.nodes, e ∈ n.edges := by
  obtain ⟨addresses, _, options⟩ := ordered
  intro e member
  obtain ⟨i, place⟩ := List.mem_iff_getElem?.1 member
  obtain ⟨address, _, option⟩ := forall₂_right options place
  exact option.decision rooted owned

theorem owns (rooted : Rooted g.nodes) {edges out : List Edge} (ordered : g.InOrder edges out)
    (owned : g.Owns edges) : g.Owns out :=
  fun e member => (ordered.decisions rooted owned e member).2

end InOrder

end Graph

end Colloquy
