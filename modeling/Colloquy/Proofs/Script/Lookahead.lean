import Colloquy.Proofs.Text.Trim
import Colloquy.Script.Line
import Colloquy.Script.Statement
/-!
# Looking ahead

Whether the next line that says something begins an option is seen from the text of the line before
its tabs are replaced and its id is taken off. Neither changes the character that it begins with.
-/

namespace Colloquy

namespace Text

theorem head?_trimLeft_expandTabsFrom (width column : Nat) (s : List Char) :
    (trimLeft (expandTabsFrom width column s)).head? = (trimLeft s).head? := by
  induction s generalizing column with
  | nil => rfl
  | cons c rest ih =>
    rw [expandTabsFrom]
    split
    next tab =>
      subst tab
      have gap : ∀ n tail, trimLeft (List.replicate n ' ' ++ tail) = trimLeft tail := by
        intro n tail
        induction n with
        | zero => rfl
        | succ n again => exact again
      dsimp only
      rw [gap, ih]
      rfl
    next noTab =>
      cases blank : isBlank c with
      | true =>
        have skip : ∀ tail, trimLeft (c :: tail) = trimLeft tail := fun tail =>
          List.dropWhile_cons_of_pos blank
        rw [skip, skip, ih]
      | false =>
        have stay : ∀ tail, trimLeft (c :: tail) = c :: tail := fun tail =>
          List.dropWhile_cons_of_neg (by simp [blank])
        rw [stay, stay]
        rfl

/-- Trimming both ends in either order leaves the same first character. -/
theorem head?_trimLeft_trimRight (s : List Char) :
    (trimLeft (trimRight s)).head? = (trim s).head? := by
  cases rest : trimLeft s with
  | nil =>
    have blank : ∀ c ∈ s, isBlank c = true := List.dropWhile_eq_nil_iff.mp rest
    have none : trimRight s = [] := by
      rw [trimRight, List.dropWhile_eq_nil_iff.mpr (by simpa using blank)]
      rfl
    rw [trim, rest, none]
    rfl
  | cons c tail =>
    have solid : isBlank c = false := isBlank_of_head?_trimLeft (by rw [rest]; rfl)
    have whole : s = s.takeWhile isBlank ++ c :: tail := by
      conv_lhs => rw [← List.takeWhile_append_dropWhile (p := isBlank) (l := s)]
      exact congrArg (s.takeWhile isBlank ++ ·) rest
    have kept : trimRight (c :: tail) ≠ [] := trimRight_ne_nil (List.mem_cons_self ..) solid
    have first : (trimRight (c :: tail)).head? = some c := trimRight_head? kept
    have before : ∀ x ∈ s.takeWhile isBlank, isBlank x = true := fun x member =>
      List.mem_takeWhile_imp member
    -- The blanks before are left alone, since something remains behind them.
    rw [trim, rest, whole, trimRight_append _ kept, trimLeft_append before]
    intro x isFirst
    rw [first] at isFirst
    cases isFirst
    exact solid

end Text

namespace Script

theorem isSilent_of_head? {s t : List Char} (same : s.head? = t.head?) : isSilent s = isSilent t := by
  cases s <;> cases t <;> simp_all [isSilent]

/-- Taking its id off a text does not change whether it begins with an asterisk. -/
theorem splitId_asterisk (s : List Char) :
    (splitId s).1.head? = some '*' ↔ s.head? = some '*' := by
  unfold splitId
  split
  next rest at₁ =>
    dsimp only
    split
    next before at₂ =>
      split
      · exact Iff.rfl
      · -- The text is what stands before the id, the id, and the signs around it.
        have whole : s = before.reverse ++ '@' :: (rest.takeWhile Text.isWord).reverse ++ ['@'] := by
          have split := List.takeWhile_append_dropWhile (p := Text.isWord) (l := rest)
          rw [at₂] at split
          have := congrArg List.reverse at₁
          rw [List.reverse_reverse, ← split] at this
          rw [this]
          simp
        constructor
        · intro first
          have left : Text.trimRight before.reverse ≠ [] := by
            intro empty
            rw [empty] at first
            cases first
          rw [Text.trimRight_head? left] at first
          rw [whole, List.append_assoc, List.head?_append, first]
          rfl
        · intro first
          cases start : before.reverse with
          | nil =>
            rw [whole, start] at first
            cases first
          | cons c tail =>
            have same : c = '*' := by
              rw [whole, start] at first
              exact Option.some.inj first
            subst same
            exact Text.trimRight_head?
              (Text.trimRight_ne_nil (List.mem_cons_self ..) (by decide : Text.isBlank '*' = false))
    · exact Iff.rfl
  · exact Iff.rfl

/-- What looking ahead sees, from the lines as they are scanned. -/
theorem optionNext_cons (tabWidth number : Nat) (raw : List Char) (rest : List (List Char)) :
    optionNext (raw :: rest) =
      match scan tabWidth number raw with
      | .empty => optionNext rest
      | .delimiter => false
      | .line l => decide (l.body.head? = some '*') := by
  have first : (Text.trimLeft (Text.expandTabs tabWidth (Text.trimRight raw))).head?
      = (Text.trim raw).head? :=
    (Text.head?_trimLeft_expandTabsFrom tabWidth 0 _).trans (Text.head?_trimLeft_trimRight raw)
  rw [optionNext, scan]
  dsimp only
  rw [← isSilent_of_head? first, ← first]
  generalize Text.trimLeft (Text.expandTabs tabWidth (Text.trimRight raw)) = stripped
  by_cases silent : isSilent stripped = true
  · rw [if_pos silent, if_pos silent]
  · rw [if_neg silent, if_neg silent]
    by_cases delimiter : stripped = ['=', '=', '=']
    · rw [if_pos delimiter, delimiter]
      rfl
    · rw [if_neg delimiter]
      exact (decide_eq_decide.mpr (splitId_asterisk stripped)).symm

/-- An option begins with an asterisk. -/
theorem head?_of_option {s : List Char} {text : String} (read : Statement.read s = .option text) :
    s.head? = some '*' := by
  unfold Statement.read at read
  split at read
  next found =>
    unfold option? at found
    split at found
    · rfl
    · cases found
  · split at read
    next found =>
      obtain ⟨inside, _, given⟩ := Option.bind_eq_some_iff.mp found
      unfold command? at given
      dsimp only at given
      repeat' split at given
      all_goals cases given <;> cases read
    · repeat' split at read
      all_goals cases read

/-- A line that begins with an asterisk is an option, or a text that is the asterisk alone. -/
theorem read_asterisk {s : List Char} (first : s.head? = some '*') :
    (∃ text, Statement.read s = .option text) ∨ Statement.read s = .bare "*" := by
  cases s with
  | nil => cases first
  | cons c rest =>
    cases first
    cases rest with
    | nil => exact Or.inr (by decide +kernel)
    | cons d tail => exact Or.inl ⟨_, rfl⟩

end Script

end Colloquy
