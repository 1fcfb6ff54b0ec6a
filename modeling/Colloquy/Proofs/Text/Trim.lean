import Colloquy.Text.Line
import Mathlib.Data.List.DropRight
import Mathlib.Data.List.TakeWhile
/-!
# Trimming

A trimmed text neither begins nor ends with a blank, so trimming it again changes nothing.
-/

namespace Colloquy.Text

theorem trimRight_prefix (s : List Char) : trimRight s <+: s :=
  List.rdropWhile_prefix isBlank s

/-- Trimming the end of a text keeps its first character, unless nothing is left. -/
theorem trimRight_head? {s : List Char} (left : trimRight s ≠ []) :
    (trimRight s).head? = s.head? := by
  obtain ⟨rest, whole⟩ := trimRight_prefix s
  conv_rhs => rw [← whole]
  exact (List.head?_append_of_ne_nil _ left).symm

theorem trimRight_ne_nil {s : List Char} {c : Char} (member : c ∈ s) (solid : isBlank c = false) :
    trimRight s ≠ [] := by
  intro empty
  have all := List.dropWhile_eq_nil_iff.mp (List.reverse_eq_nil_iff.mp empty) c
    (List.mem_reverse.mpr member)
  rw [solid] at all
  cases all

/-- Trimming the end of a text leaves alone what stands before something that remains. -/
theorem trimRight_append (s : List Char) {t : List Char} (left : trimRight t ≠ []) :
    trimRight (s ++ t) = s ++ trimRight t := by
  have some : (t.reverse.dropWhile isBlank).isEmpty = false := by
    cases rest : t.reverse.dropWhile isBlank with
    | nil => exact absurd (by rw [trimRight, rest]; rfl) left
    | cons => rfl
  rw [trimRight, List.reverse_append, List.dropWhile_append, some, if_neg Bool.noConfusion,
    List.reverse_append, List.reverse_reverse]
  rfl

/-- Blanks before a text that begins with none are trimmed. -/
theorem trimLeft_append {blanks rest : List Char} (blank : ∀ c ∈ blanks, isBlank c = true)
    (first : ∀ c, rest.head? = some c → isBlank c = false) : trimLeft (blanks ++ rest) = rest := by
  rw [trimLeft, List.dropWhile_append, List.dropWhile_eq_nil_iff.mpr blank, List.isEmpty_nil,
    if_pos rfl]
  cases rest with
  | nil => rfl
  | cons c tail => exact List.dropWhile_cons_of_neg (by simp [first c rfl])

theorem isBlank_of_head?_trimLeft {s : List Char} {c : Char}
    (first : (trimLeft s).head? = some c) : isBlank c = false := by
  have := List.head?_dropWhile_not isBlank s
  unfold trimLeft at first
  rw [first] at this
  exact this

theorem trimLeft_eq_self {s : List Char} (first : ∀ c, s.head? = some c → isBlank c = false) :
    trimLeft s = s :=
  trimLeft_append (fun _ none => absurd none List.not_mem_nil) first

@[simp] theorem trimRight_trimRight (s : List Char) : trimRight (trimRight s) = trimRight s :=
  List.rdropWhile_idempotent isBlank s

theorem trimLeft_trim (s : List Char) : trimLeft (trim s) = trim s := by
  apply trimLeft_eq_self
  intro c first
  have left : trimRight (trimLeft s) ≠ [] := by
    rintro empty
    simp [trim, empty] at first
  rw [trim, trimRight_head? left] at first
  exact isBlank_of_head?_trimLeft first

@[simp] theorem trim_trim (s : List Char) : trim (trim s) = trim s := by
  conv_lhs => rw [trim, trimLeft_trim, trim, trimRight_trimRight]
  rfl

theorem trimLeft_of_trim {s : List Char} (trimmed : trim s = s) : trimLeft s = s := by
  rw [← trimmed, trimLeft_trim]

theorem trimRight_of_trim {s : List Char} (trimmed : trim s = s) : trimRight s = s := by
  rw [← trimmed, trim, trimRight_trimRight]

theorem isBlank_of_trim {s : List Char} (trimmed : trim s = s) {c : Char}
    (first : s.head? = some c) : isBlank c = false := by
  rw [← trimLeft_of_trim trimmed] at first
  exact isBlank_of_head?_trimLeft first

/-- Trimming takes off the blanks before a trimmed text. -/
theorem trim_append {blanks s : List Char} (blank : ∀ c ∈ blanks, isBlank c = true)
    (trimmed : trim s = s) : trim (blanks ++ s) = s := by
  rw [trim, trimLeft_append blank fun c first => isBlank_of_trim trimmed first,
    trimRight_of_trim trimmed]

/-- A text without the blanks at both its ends. -/
theorem exists_trim (s : List Char) : ∃ left right, s = left ++ (trim s ++ right)
    ∧ (∀ c ∈ left, isBlank c = true) ∧ ∀ c ∈ right, isBlank c = true := by
  refine ⟨s.takeWhile isBlank, ((trimLeft s).reverse.takeWhile isBlank).reverse, ?_,
    fun c member => List.mem_takeWhile_imp member,
    fun c member => List.mem_takeWhile_imp (List.mem_reverse.1 member)⟩
  rw [trim, trimRight, ← List.reverse_append, List.takeWhile_append_dropWhile,
    List.reverse_reverse]
  exact (List.takeWhile_append_dropWhile ..).symm

/-- Blanks on both sides of a text of other characters are trimmed. -/
theorem trim_between {left s right : List Char} (front : ∀ c ∈ left, isBlank c = true)
    (some : s ≠ []) (solid : ∀ c ∈ s, isBlank c = false)
    (back : ∀ c ∈ right, isBlank c = true) : trim (left ++ (s ++ right)) = s := by
  have first : ∀ c, (s ++ right).head? = Option.some c → isBlank c = false := by
    intro c head
    rw [List.head?_append_of_ne_nil _ some] at head
    exact solid c (List.mem_of_head? head)
  have last : trimLeft (right.reverse ++ s.reverse) = s.reverse := by
    refine trimLeft_append (fun c member => back c (List.mem_reverse.1 member)) fun c head => ?_
    exact solid c (List.mem_reverse.1 (List.mem_of_head? head))
  rw [trim, trimLeft_append front first, trimRight, List.reverse_append]
  change (trimLeft _).reverse = s
  rw [last, List.reverse_reverse]

@[simp] theorem trimString_trimString (s : String) :
    trimString (trimString s) = trimString s := by
  simp [trimString]

end Colloquy.Text
