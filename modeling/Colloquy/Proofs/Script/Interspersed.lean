import Colloquy.Proofs.Script.Parallel
/-!
# Blank lines and comments

A script says the same with blank lines and comments added anywhere: only the numbers of its lines
change, and with them those of the nodes.
-/

namespace Colloquy.Script

/-! ### Lines that say nothing -/

/-- Whether a line is blank or a comment. -/
def SaysNothing (raw : List Char) : Prop :=
  Text.trimLeft raw = [] ∨ (Text.trimLeft raw).head? = some '#'

instance : DecidablePred SaysNothing :=
  fun raw => inferInstanceAs (Decidable (Text.trimLeft raw = [] ∨ _))

theorem SaysNothing.scan {raw : List Char} (silent : SaysNothing raw) (tabWidth number : Nat) :
    scan tabWidth number raw = .empty := by
  have first : (Text.trimLeft (Text.expandTabs tabWidth (Text.trimRight raw))).head?
      = (Text.trim raw).head? :=
    (Text.head?_trimLeft_expandTabsFrom tabWidth 0 _).trans (Text.head?_trimLeft_trimRight raw)
  have trimmed : isSilent (Text.trim raw) = true := by
    rcases silent with blank | comment
    · rw [Text.trim, blank]
      rfl
    · have left : Text.trimRight (Text.trimLeft raw) ≠ [] :=
        Text.trimRight_ne_nil (List.mem_of_mem_head? comment) (by decide)
      rw [isSilent, Text.trim, Text.trimRight_head? left, comment]
      simp
  rw [Script.scan]
  dsimp only
  rw [isSilent_of_head? first, if_pos trimmed]

/-- Lines among others that say nothing: `place` gives the position of each among all. -/
structure Interspersed (place : Nat → Nat) (lines lines' : List (List Char)) : Prop where
  rises : ∀ j < lines.length, ∀ i < j, place i < place j
  kept : ∀ i < lines.length, lines'[place i]? = lines[i]?
  added : ∀ k (inside : k < lines'.length), (∀ i < lines.length, place i ≠ k) →
    SaysNothing lines'[k]

namespace Interspersed

variable {place : Nat → Nat} {raw raw' : List Char} {lines lines' rest rest' : List (List Char)}

theorem nil_right (among : Interspersed place lines []) : lines = [] := by
  cases lines with
  | nil => rfl
  | cons raw rest => cases among.kept 0 (Nat.zero_lt_succ _)

theorem le_place (among : Interspersed place (raw :: rest) lines') {i : Nat}
    (inside : i < (raw :: rest).length) : place 0 ≤ place i := by
  cases i with
  | zero => exact Nat.le_refl _
  | succ i => exact Nat.le_of_lt (among.rises (i + 1) inside 0 (Nat.zero_lt_succ i))

/-- A line that is the first of all is the first of those that were there. -/
theorem tail_kept (among : Interspersed place (raw :: rest) (raw' :: rest')) (first : place 0 = 0) :
    raw' = raw ∧ (∀ i, i < rest.length → 0 < place (i + 1))
      ∧ Interspersed (fun i => place (i + 1) - 1) rest rest' := by
  have later : ∀ i, i < rest.length → 0 < place (i + 1) := fun i inside =>
    first ▸ among.rises (i + 1) (Nat.succ_lt_succ inside) 0 (Nat.zero_lt_succ i)
  refine ⟨?_, later, ?_, ?_, ?_⟩
  · have same := among.kept 0 (Nat.zero_lt_succ _)
    rw [first] at same
    exact Option.some.inj same
  · intro j inside i less
    have rises := among.rises (j + 1) (Nat.succ_lt_succ inside) (i + 1) (Nat.succ_lt_succ less)
    have positive := later i (Nat.lt_trans less inside)
    omega
  · intro i inside
    have same := among.kept (i + 1) (Nat.succ_lt_succ inside)
    obtain ⟨k, position⟩ := Nat.exists_eq_add_of_lt (later i inside)
    rw [Nat.zero_add] at position
    rw [position] at same ⊢
    exact same
  · intro k there free
    refine among.added (k + 1) (Nat.succ_lt_succ there) fun i inside => ?_
    cases i with
    | zero => omega
    | succ i =>
      have apart := free i (Nat.lt_of_succ_lt_succ inside)
      omega

/-- A line before the first of those that were there says nothing. -/
theorem tail_added (among : Interspersed place lines (raw' :: rest'))
    (new : ∀ i, i < lines.length → 0 < place i) :
    SaysNothing raw' ∧ Interspersed (fun i => place i - 1) lines rest' := by
  refine ⟨?_, ?_, ?_, ?_⟩
  · exact among.added 0 (Nat.zero_lt_succ _) fun i inside => Nat.ne_of_gt (new i inside)
  · intro j inside i less
    have rises := among.rises j inside i less
    have positive := new i (Nat.lt_trans less inside)
    omega
  · intro i inside
    have same := among.kept i inside
    obtain ⟨k, position⟩ := Nat.exists_eq_add_of_lt (new i inside)
    rw [Nat.zero_add] at position
    rw [position] at same ⊢
    exact same
  · intro k there free
    refine among.added (k + 1) (Nat.succ_lt_succ there) fun i inside => ?_
    have apart := free i inside
    have positive := new i inside
    omega

end Interspersed

/-! ### Numbers of lines -/

/-- The number of a line, counted from one, after the lines have moved to other positions. -/
def movedNumber (place : Nat → Nat) : Nat → Nat
  | 0 => 0
  | i + 1 => place i + 1

/-- Lines move to other positions and keep their indents. -/
def Shift.ofPlace (place : Nat → Nat) : Shift :=
  ⟨movedNumber place, id, False, rfl, strictMono_id, False.elim⟩

theorem scan_moved (σ : Shift) (kept : ∀ n, σ.indent n = n) (tabWidth number : Nat)
    (raw : List Char) :
    scan tabWidth (σ.line number) raw = (scan tabWidth number raw).moved σ := by
  unfold scan
  dsimp only
  split
  · rfl
  · split
    · rfl
    · simp only [Scanned.moved, Line.moved, kept]

theorem Interspersed.abreast {place : Nat → Nat} {lines lines' : List (List Char)}
    (among : Interspersed place lines lines') (σ : Shift) (kept : ∀ n, σ.indent n = n)
    (tabWidth : Nat) {n n' : Nat} (numbers : ∀ i, i < lines.length → σ.line (n + i) = n' + place i) :
    Abreast tabWidth σ n lines n' lines' := by
  induction lines' generalizing place lines n n' with
  | nil =>
    rw [among.nil_right]
    exact .nil n n'
  | cons raw' rest' ih =>
    -- Either the first line is new, or it is the first of those that were there.
    by_cases new : ∀ i, i < lines.length → 0 < place i
    · obtain ⟨silent, among⟩ := among.tail_added new
      refine .added (silent.scan tabWidth n') (ih among fun i inside => ?_)
      have number := numbers i inside
      have positive := new i inside
      omega
    · cases lines with
      | nil => exact absurd (fun i none => by cases none) new
      | cons raw rest =>
        have first : place 0 = 0 := by
          obtain ⟨i, inside, none⟩ : ∃ i, i < (raw :: rest).length ∧ place i = 0 := by
            simpa using new
          have := among.le_place inside
          omega
        obtain ⟨rfl, later, among⟩ := among.tail_kept first
        have number := numbers 0 (Nat.zero_lt_succ _)
        rw [Nat.add_zero, first, Nat.add_zero] at number
        refine .both number.symm ?_ (ih among fun i inside => ?_)
        · rw [← number]
          exact scan_moved σ kept tabWidth n raw'
        · have number := numbers (i + 1) (Nat.succ_lt_succ inside)
          have positive := later i inside
          rw [Nat.add_right_comm, Nat.add_assoc, number]
          omega

/-- Blank lines and comments that are added to a script change the numbers of lines and nothing else:
compiling fails or gives a graph as before, with the same diagnostics but for the lines that they
name, and the nodes of the graph are the same but for their lines. -/
theorem compile_interspersed (hash : String → String) (s : Settings) (name : String)
    {text text' : String} {place : Nat → Nat}
    (among : Interspersed place (Text.lines text.toList) (Text.lines text'.toList)) :
    Both (fun c c' : Compilation =>
        c'.graph = c.graph.map (Graph.renumbered (movedNumber place))
          ∧ List.Forall₂ (fun d d' => d'.severity = d.severity ∧ d'.fatal = d.fatal)
            c.diagnostics c'.diagnostics)
      (compileWith hash s name text) (compileWith hash s name text') := by
  have abreast : Abreast s.tabWidth (.ofPlace place) 1 (Text.lines text.toList) 1
      (Text.lines text'.toList) := by
    refine among.abreast (.ofPlace place) (fun _ => rfl) s.tabWidth fun i _ => ?_
    rw [Nat.add_comm, Nat.add_comm 1]
    rfl
  refine (compileWith_moved hash name abreast False.elim).mono fun c c' moved => ⟨moved.graph, ?_⟩
  exact moved.diagnostics.imp fun _ _ echoes => ⟨echoes.severity, echoes.fatal⟩

/-- A comment at the start, a blank line in the header, and both between an if and the option that it
is chained for. -/
theorem compile_interspersed_option :
    Interspersed ([1, 3, 4, 5, 6, 9, 10, 11].getD · 0)
        (Text.lines "===\n[set x 1]\n===\nA: hi\n[if x]\n  * go\n    B: so\n[endif]".toList)
        (Text.lines ("# top\n===\n\n[set x 1]\n===\nA: hi\n[if x]\n\n      # now\n  * go\n    B: so\n"
          ++ "[endif]\n\n").toList)
      ∧ Both (fun c c' : Compilation =>
          c'.graph = c.graph.map
            (Graph.renumbered (movedNumber ([1, 3, 4, 5, 6, 9, 10, 11].getD · 0)))
          ∧ List.Forall₂ (fun d d' => d'.severity = d.severity ∧ d'.fatal = d.fatal)
            c.diagnostics c'.diagnostics)
        (compileWith TextId.digest .standard "script"
          "===\n[set x 1]\n===\nA: hi\n[if x]\n  * go\n    B: so\n[endif]")
        (compileWith TextId.digest .standard "script"
          ("# top\n===\n\n[set x 1]\n===\nA: hi\n[if x]\n\n      # now\n  * go\n    B: so\n"
            ++ "[endif]\n\n")) := by
  have among : Interspersed ([1, 3, 4, 5, 6, 9, 10, 11].getD · 0)
      (Text.lines "===\n[set x 1]\n===\nA: hi\n[if x]\n  * go\n    B: so\n[endif]".toList)
      (Text.lines ("# top\n===\n\n[set x 1]\n===\nA: hi\n[if x]\n\n      # now\n  * go\n    B: so\n"
        ++ "[endif]\n\n").toList) := by
    refine ⟨?_, ?_, ?_⟩ <;> decide +kernel
  exact ⟨among, compile_interspersed TextId.digest .standard "script" among⟩

end Colloquy.Script
