import Colloquy.Script.TextId
import Mathlib.Data.List.Forall2
/-!
# What text ids change

Giving ids changes nothing of a node but its id and those of its options. Afterwards every option and
every text that can be translated has an id.
-/

namespace Colloquy.Script.TextId

/-- An edge that may have got an id: only options without one get one, and they all do. -/
structure NamedEdge (e e' : Edge) : Prop where
  same : e' = { e with textId := e'.textId }
  kept : e.kind ≠ .decision → e'.textId = e.textId
  given : e.textId ≠ "" → e'.textId = e.textId
  filled : e.kind = .decision → e'.textId ≠ ""

/-- A node that may have got ids. -/
structure Named (n n' : Node) : Prop where
  same : n' = { n with textId := n'.textId, edges := n'.edges }
  kept : content? n = none → n'.textId = n.textId
  filled : content? n ≠ none → n'.textId ≠ ""
  edges : List.Forall₂ NamedEdge n.edges n'.edges

section Ids

variable {hash : String → String} {length : Nat}

theorem toList_ne_nil {s : String} (filled : s ≠ "") : s.toList ≠ [] := by
  intro empty
  exact filled (String.toList_inj.mp (empty.trans rfl))

/-- An id that is made is not empty, as long as digests are not. -/
theorem make_ne_empty (digests : ∀ content, hash content ≠ "") (positive : 0 < length)
    (content : String) (used : List String) : make hash length content used ≠ "" := by
  let base := String.ofList (((hash content).toList.take length).map Char.toUpper)
  have start : base.toList ≠ [] := by
    simp only [base, String.toList_ofList, ne_eq, List.map_eq_nil_iff, List.take_eq_nil_iff, not_or]
    exact ⟨by omega, toList_ne_nil (digests content)⟩
  have notEmpty : base ≠ "" := fun empty => start (by rw [empty]; rfl)
  have all : ∀ id ∈ candidates base used.length, id ≠ "" := by
    intro id member
    rcases List.mem_cons.mp member with rfl | numbered
    · exact notEmpty
    · obtain ⟨k, _, rfl⟩ := List.mem_map.mp numbered
      intro empty
      have := congrArg String.toList empty
      simp [start] at this
  unfold make
  change ((candidates base used.length).find? fun id => !used.contains id).getD base ≠ ""
  cases found : (candidates base used.length).find? fun id => !used.contains id with
  | none => exact notEmpty
  | some id => exact all id (List.mem_of_find?_eq_some found)

variable (digests : ∀ content, hash content ≠ "") (positive : 0 < length)

include digests positive

theorem assignEdge_named (e : Edge) (used : List String) :
    NamedEdge e (assignEdge hash length e used).1 := by
  unfold assignEdge
  split
  next free =>
    simp only [Bool.and_eq_true, decide_eq_true_eq] at free
    exact ⟨rfl, fun other => absurd free.1 other, fun given => absurd free.2 given,
      fun _ => make_ne_empty digests positive _ _⟩
  next bound =>
    refine ⟨rfl, fun _ => rfl, fun _ => rfl, fun option empty => bound ?_⟩
    simp only [Bool.and_eq_true, decide_eq_true_eq]
    exact ⟨option, empty⟩

theorem assignEdges_named (edges : List Edge) (used : List String) :
    List.Forall₂ NamedEdge edges (assignEdges hash length edges used).1 := by
  induction edges generalizing used with
  | nil => exact .nil
  | cons e rest ih => exact .cons (assignEdge_named digests positive e used) (ih _)

theorem assignNode_named (n : Node) (used : List String) :
    Named n (assignNode hash length n used).1 := by
  have edges := fun used => assignEdges_named digests positive n.edges used
  unfold assignNode
  cases found : if n.textId = "" then content? n else none with
  | some content =>
    refine ⟨rfl, fun none => ?_, fun _ => make_ne_empty digests positive _ _, edges _⟩
    split at found
    · rw [found] at none
      cases none
    · cases found
  | none =>
    refine ⟨rfl, fun _ => rfl, fun some empty => ?_, edges _⟩
    change n.textId = "" at empty
    rw [if_pos empty] at found
    exact some found

theorem assignNodes_named (nodes : List Node) (used : List String) :
    List.Forall₂ Named nodes (assignNodes hash length nodes used) := by
  induction nodes generalizing used with
  | nil => exact .nil
  | cons n rest ih => exact .cons (assignNode_named digests positive n used) (ih _)

end Ids

/-- Digests are not empty. -/
theorem digest_ne_empty (content : String) : digest content ≠ "" := by
  intro empty
  have := congrArg String.toList empty
  simp [digest, Digest.sha256, Digest.State.words, Digest.wordBytes, Text.hexDigits] at this

end Colloquy.Script.TextId
