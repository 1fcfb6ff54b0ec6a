import Colloquy.Proofs.Text.Fold
import Colloquy.Script.Statement
import Colloquy.Template
import Mathlib.Data.List.Basic
/-!
# What statements are made of

Names in statements are never empty, and the names of labels are in lower case.
-/

namespace Colloquy

namespace Script

theorem ofList_ne_empty {s : List Char} (filled : s ≠ []) : String.ofList s ≠ "" := by
  intro empty
  have := congrArg String.toList empty
  simp only [String.toList_ofList] at this
  exact filled this

theorem namedOperand?_ne_nil {s name rest : List Char}
    (found : namedOperand? s = some (name, rest)) : name ≠ [] := by
  unfold namedOperand? at found
  obtain ⟨body, _, found⟩ := Option.bind_eq_some_iff.mp found
  dsimp only at found
  split at found
  · cases found
  next filled =>
    cases found
    simpa using filled

theorem splitAssignment?_ne_nil {s name expression : List Char}
    (found : splitAssignment? s = some (name, expression)) : name ≠ [] := by
  unfold splitAssignment? at found
  obtain ⟨⟨whole, rest⟩, named, found⟩ := Option.bind_eq_some_iff.mp found
  dsimp only at found
  split at found
  · split at found
    · cases found
    next long =>
      cases found
      intro empty
      have := congrArg List.length empty
      rw [List.length_dropLast, List.length_nil] at this
      omega
  · split at found
    all_goals
      cases found
      exact namedOperand?_ne_nil named

/-- The names that a command holds are not empty. -/
theorem command?_names {s : List Char} {c : Statement} (found : command? s = some c) :
    (∀ name e, c = .assign name e → name ≠ "") ∧ (∀ name args, c = .event name args → name ≠ "")
      ∧ ∀ name, c ≠ .label name := by
  unfold command? at found
  dsimp only at found
  repeat' split at found
  all_goals cases found
  all_goals refine ⟨?_, ?_, fun _ same => by cases same⟩
  all_goals
    intro _ _ same
    cases same
  · rename_i parts
    obtain ⟨rest, _, named⟩ := Option.bind_eq_some_iff.mp parts
    exact ofList_ne_empty (splitAssignment?_ne_nil named)
  · rename_i parts
    obtain ⟨rest, _, named⟩ := Option.bind_eq_some_iff.mp parts
    exact ofList_ne_empty (namedOperand?_ne_nil named)

/-- What a line says, if it is no command. -/
theorem read_of_no_command {s : List Char} (none : (bracketed? s).bind command? = none) :
    (∃ text, Statement.read s = .option text) ∨
      (∃ name, Statement.read s = .label (Text.lower name)) ∨
      (∃ speaker text, Statement.read s = .speech speaker text) ∨
      (∃ text, Statement.read s = .unknown text) ∨ ∃ text, Statement.read s = .bare text := by
  unfold Statement.read
  simp only [none]
  repeat' split
  all_goals simp

theorem read_of_command {s : List Char} {c : Statement}
    (found : (bracketed? s).bind command? = some c) :
    (∃ text, Statement.read s = .option text) ∨ Statement.read s = c := by
  unfold Statement.read
  simp only [found]
  split <;> simp

theorem read_assign {s : List Char} {name e : String} (read : Statement.read s = .assign name e) :
    name ≠ "" := by
  cases command : (bracketed? s).bind command? with
  | none =>
    obtain ⟨_, same⟩ | ⟨_, same⟩ | ⟨_, _, same⟩ | ⟨_, same⟩ | ⟨_, same⟩ :=
      read_of_no_command command <;> rw [read] at same <;> cases same
  | some c =>
    obtain ⟨inner, _, found⟩ := Option.bind_eq_some_iff.mp command
    obtain ⟨_, same⟩ | same := read_of_command command
    · rw [read] at same
      cases same
    · exact (command?_names found).1 name e (same.symm.trans read)

theorem read_event {s : List Char} {name args : String}
    (read : Statement.read s = .event name args) : name ≠ "" := by
  cases command : (bracketed? s).bind command? with
  | none =>
    obtain ⟨_, same⟩ | ⟨_, same⟩ | ⟨_, _, same⟩ | ⟨_, same⟩ | ⟨_, same⟩ :=
      read_of_no_command command <;> rw [read] at same <;> cases same
  | some c =>
    obtain ⟨inner, _, found⟩ := Option.bind_eq_some_iff.mp command
    obtain ⟨_, same⟩ | same := read_of_command command
    · rw [read] at same
      cases same
    · exact (command?_names found).2.1 name args (same.symm.trans read)

theorem read_label {s : List Char} {name : String} (read : Statement.read s = .label name) :
    Text.lower name = name := by
  cases command : (bracketed? s).bind command? with
  | none =>
    obtain ⟨_, same⟩ | ⟨_, same⟩ | ⟨_, _, same⟩ | ⟨_, same⟩ | ⟨_, same⟩ :=
      read_of_no_command command <;> rw [read] at same <;> cases same
    exact Text.lower_lower _
  | some c =>
    obtain ⟨inner, _, found⟩ := Option.bind_eq_some_iff.mp command
    obtain ⟨_, same⟩ | same := read_of_command command
    · rw [read] at same
      cases same
    · exact absurd (same.symm.trans read) ((command?_names found).2.2 name)

end Script

namespace Template

theorem paramAt?_ne_nil {s name : List Char} (found : paramAt? s = some name) : name ≠ [] := by
  unfold paramAt? at found
  dsimp only at found
  split at found
  next filled =>
    cases found
    exact filled.1
  · cases found

theorem param_ne_nil {skip : Nat} {s name : List Char} (member : .param name ∈ piecesAfter skip s) :
    name ≠ [] := by
  induction s generalizing skip with
  | nil => simp [piecesAfter] at member
  | cons c rest ih =>
    cases skip with
    | succ skip => exact ih member
    | zero =>
      simp only [piecesAfter] at member
      split at member
      next found =>
        rcases List.mem_cons.mp member with first | later
        · cases first
          split at found
          · exact paramAt?_ne_nil found
          · cases found
        · exact ih later
      · rcases List.mem_cons.mp member with first | later
        · cases first
        · exact ih later

theorem params_ne_empty {text name : String} (member : name ∈ params text) : name ≠ "" := by
  obtain ⟨piece, there, named⟩ := List.mem_filterMap.mp (List.mem_eraseDups.mp member)
  cases piece with
  | char c => cases named
  | param chars =>
    cases named
    exact Script.ofList_ne_empty (param_ne_nil there)

end Template

end Colloquy
