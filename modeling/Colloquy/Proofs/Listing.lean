import Mathlib.Data.List.Basic
import Mathlib.Data.List.Induction
/-!
# Lists without repetition

What a list holds can be listed once, in the order in which it first occurs.
-/

namespace Colloquy

variable {α : Type} [DecidableEq α]

/-- The items of `ys` are listed in the order in which they first occur, and so each once. -/
structure ListsOnce (xs ys : List α) : Prop where
  same : ∀ x, x ∈ xs ↔ x ∈ ys
  inOrder : xs.Pairwise fun x y => ys.idxOf x < ys.idxOf y

namespace ListsOnce

variable {xs ys : List α}

/-- The items keep their places when one more follows. -/
theorem inOrder_append (lists : ListsOnce xs ys) (y : α) :
    xs.Pairwise fun x z => (ys ++ [y]).idxOf x < (ys ++ [y]).idxOf z := by
  refine lists.inOrder.imp_of_mem fun {x z} first second before => ?_
  rw [List.idxOf_append_of_mem ((lists.same x).1 first),
    List.idxOf_append_of_mem ((lists.same z).1 second)]
  exact before

/-- An item that is listed already is not listed again. -/
theorem append_known (lists : ListsOnce xs ys) {y : α} (known : y ∈ ys) :
    ListsOnce xs (ys ++ [y]) where
  same x := by
    rw [lists.same x, List.mem_append, List.mem_singleton]
    exact ⟨.inl, fun either => either.elim id fun equal => equal ▸ known⟩
  inOrder := lists.inOrder_append y

/-- A new item is listed last. -/
theorem append_new (lists : ListsOnce xs ys) {y : α} (new : y ∉ ys) :
    ListsOnce (xs ++ [y]) (ys ++ [y]) where
  same x := by rw [List.mem_append, List.mem_append, lists.same x]
  inOrder := by
    refine List.pairwise_append.2 ⟨lists.inOrder_append y, List.pairwise_singleton .., ?_⟩
    intro x earlier z last
    rw [List.mem_singleton.1 last]
    have member : x ∈ ys := (lists.same x).1 earlier
    have length : (ys ++ [y]).idxOf y = ys.length := by
      simp [List.idxOf_append_of_notMem new]
    rw [List.idxOf_append_of_mem member, length]
    exact List.idxOf_lt_length_iff.2 member

end ListsOnce

theorem listsOnce_eraseDups (ys : List α) : ListsOnce ys.eraseDups ys := by
  induction ys using List.reverseRecOn with
  | nil => exact ⟨fun x => by simp, by simp⟩
  | append_singleton ys y lists =>
    rw [List.eraseDups_append]
    by_cases known : y ∈ ys
    · simpa [List.removeAll, known] using lists.append_known known
    · simpa [List.removeAll, known, List.eraseDups_cons] using lists.append_new known

end Colloquy
