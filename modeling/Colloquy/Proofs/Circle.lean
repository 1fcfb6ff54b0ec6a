import Mathlib.Data.List.Perm.Subperm
import Mathlib.Logic.Relation
/-!
# Going straight

A search that follows a relation over finitely many items goes straight from an item if it comes round
to none of the items on its way. Then its depth is less than the number of the items.
-/

namespace Colloquy

open Relation (ReflTransGen TransGen)

variable {α : Type} {r : α → α → Prop}

/-- From an item nothing is reached that leads back to itself. -/
def Straight (r : α → α → Prop) (a : α) : Prop :=
  ∀ b, ReflTransGen r a b → ¬ TransGen r b b

theorem Straight.step {a b : α} (straight : Straight r a) (step : r a b) : Straight r b :=
  fun _ reached => straight _ (.head step reached)

/-- From an item it goes straight if it does from all that come next. -/
theorem Straight.of_next {a : α} (onward : ∀ b, r a b → Straight r b) : Straight r a := by
  intro c reached circle
  obtain rfl | ⟨b, step, later⟩ := reached.cases_head
  · -- a circle through the item itself goes through the next one
    obtain ⟨b, step, back⟩ := TransGen.head'_iff.1 circle
    exact onward b step b .refl (.tail' back step)
  · exact onward b step c later circle

/-- If all ways from an item come to an end, they go straight. -/
theorem straight_of_acc {a : α} (acc : Acc (fun b a => r a b) a) : Straight r a := by
  induction acc with
  | intro a _ ih => exact .of_next ih

/-- A circle has a step that does not lead onward. -/
theorem exists_back {a : α} (index : α → Nat) (circle : TransGen r a a) :
    ∃ x y, ReflTransGen r a x ∧ r x y ∧ ReflTransGen r y a ∧ index y ≤ index x := by
  have between {b : α} (way : TransGen r a b) : index a < index b
      ∨ ∃ x y, ReflTransGen r a x ∧ r x y ∧ ReflTransGen r y b ∧ index y ≤ index x := by
    induction way with
    | @single b step =>
      by_cases onward : index a < index b
      · exact .inl onward
      · exact .inr ⟨a, b, .refl, step, .refl, Nat.le_of_not_lt onward⟩
    | @tail b c way step ih =>
      obtain onward | ⟨x, y, before, back, after, le⟩ := ih
      · by_cases further : index b < index c
        · exact .inl (Nat.lt_trans onward further)
        · exact .inr ⟨b, c, way.to_reflTransGen, step, .refl, Nat.le_of_not_lt further⟩
      · exact .inr ⟨x, y, before, back, after.tail step, le⟩
  obtain onward | back := between circle
  · exact absurd onward (Nat.lt_irrefl _)
  · exact back

/-- The items on the way to one of them, all of which lead there. -/
structure Trail (r : α → α → Prop) (items path : List α) (a : α) : Prop where
  apart : path.Nodup
  inside : path ⊆ items
  leads : ∀ b ∈ path, TransGen r b a

namespace Trail

variable {items path : List α} {a b : α}

theorem start (r : α → α → Prop) (items : List α) (a : α) : Trail r items [] a :=
  ⟨.nil, List.nil_subset _, fun _ none => by cases none⟩

/-- An item that is reached on a straight way is new. -/
theorem visit (trail : Trail r items path a) (member : a ∈ items) (straight : Straight r a) :
    (a :: path).Nodup ∧ a :: path ⊆ items := by
  refine ⟨List.nodup_cons.2 ⟨fun visited => ?_, trail.apart⟩, ?_⟩
  · exact straight a .refl (trail.leads a visited)
  · exact List.cons_subset.2 ⟨member, trail.inside⟩

theorem length_lt (trail : Trail r items path a) (member : a ∈ items) (straight : Straight r a) :
    path.length < items.length := by
  obtain ⟨apart, inside⟩ := trail.visit member straight
  exact (List.subperm_of_subset apart inside).length_le

theorem next (trail : Trail r items path a) (member : a ∈ items) (straight : Straight r a)
    (step : r a b) : Trail r items (a :: path) b := by
  obtain ⟨apart, inside⟩ := trail.visit member straight
  refine ⟨apart, inside, fun c visited => ?_⟩
  obtain rfl | before := List.mem_cons.1 visited
  · exact .single step
  · exact (trail.leads c before).tail step

end Trail

end Colloquy
