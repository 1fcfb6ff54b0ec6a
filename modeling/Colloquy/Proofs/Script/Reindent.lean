import Colloquy.Proofs.Script.Parallel
/-!
# Indents

Nothing depends on how far a line is indented but which lines are indented further than others.
Where no line has a tab, any change of indents that keeps their order leaves a script as it is.
-/

namespace Colloquy

namespace Text

/-- A line indented by so many spaces as `indent` gives for the blanks that it begins with. A blank
line is kept. -/
def reindent (indent : Nat → Nat) (line : List Char) : List Char :=
  if trimLeft line = [] then line
  else List.replicate (indent (line.takeWhile isBlank).length) ' ' ++ trimLeft line

theorem expandTabsFrom_eq_self (width column : Nat) {line : List Char} (noTab : '\t' ∉ line) :
    expandTabsFrom width column line = line := by
  induction line generalizing column with
  | nil => rfl
  | cons c rest ih =>
    have first : c ≠ '\t' := fun tab => noTab (tab ▸ List.mem_cons_self ..)
    rw [expandTabsFrom, if_neg first, ih _ fun tab => noTab (List.mem_cons_of_mem c tab)]

end Text

namespace Script

/-- What is left of a line that begins with blanks. -/
theorem scan_append {blanks rest : List Char} (tabWidth number : Nat)
    (blank : ∀ c ∈ blanks, Text.isBlank c = true) {c : Char} (first : rest.head? = some c)
    (solid : Text.isBlank c = false) (noTab : '\t' ∉ blanks ++ rest) :
    scan tabWidth number (blanks ++ rest) =
      if isSilent (Text.trimRight rest) then .empty
      else if Text.trimRight rest = ['=', '=', '='] then .delimiter
      else .line ⟨number, blanks.length, (splitId (Text.trimRight rest)).1,
        (splitId (Text.trimRight rest)).2⟩ := by
  have left : Text.trimRight rest ≠ [] := Text.trimRight_ne_nil (List.mem_of_mem_head? first) solid
  -- Only tabs could make the blanks wider, and there are none.
  have line : Text.expandTabs tabWidth (Text.trimRight (blanks ++ rest))
      = blanks ++ Text.trimRight rest := by
    rw [Text.trimRight_append blanks left]
    refine Text.expandTabsFrom_eq_self tabWidth 0 fun tab => noTab ?_
    rw [← Text.trimRight_append blanks left] at tab
    exact (Text.trimRight_prefix _).subset tab
  have stripped : Text.trimLeft (blanks ++ Text.trimRight rest) = Text.trimRight rest := by
    refine Text.trimLeft_append blank fun c' start => ?_
    rw [Text.trimRight_head? left, first] at start
    cases start
    exact solid
  have indent : (blanks ++ Text.trimRight rest).length - (Text.trimRight rest).length
      = blanks.length := by
    rw [List.length_append, Nat.add_sub_cancel]
  rw [scan]
  dsimp only
  rw [line, stripped, indent]

/-- The numbers of lines are kept while their indents are changed in order. -/
def Shift.ofIndent (indent : Nat → Nat) (rises : StrictMono indent) : Shift :=
  ⟨id, indent, True, rfl, rises, fun _ _ => rfl⟩

/-- A line that is indented otherwise differs in its indent alone. -/
theorem scan_reindent {indent : Nat → Nat} (rises : StrictMono indent) (tabWidth number : Nat)
    {raw : List Char} (noTab : '\t' ∉ raw) :
    scan tabWidth number (Text.reindent indent raw)
      = (scan tabWidth number raw).moved (.ofIndent indent rises) := by
  unfold Text.reindent
  cases rest : Text.trimLeft raw with
  | nil =>
    have blank : ∀ c ∈ raw, Text.isBlank c = true := List.dropWhile_eq_nil_iff.mp rest
    have none : Text.trimRight raw = [] := by
      rw [Text.trimRight, List.dropWhile_eq_nil_iff.mpr (by simpa using blank)]
      rfl
    have nothing : scan tabWidth number raw = .empty := by
      rw [scan, none]
      rfl
    rw [if_pos rfl, nothing]
    rfl
  | cons c tail =>
    have solid : Text.isBlank c = false := Text.isBlank_of_head?_trimLeft (by rw [rest]; rfl)
    -- Before and after, the line is blanks and the same text.
    have whole : raw.takeWhile Text.isBlank ++ c :: tail = raw := by
      rw [← rest]
      exact List.takeWhile_append_dropWhile
    have before : ∀ x ∈ raw.takeWhile Text.isBlank, Text.isBlank x = true := fun x member =>
      List.mem_takeWhile_imp member
    have spaces : ∀ x ∈ List.replicate (indent (raw.takeWhile Text.isBlank).length) ' ',
        Text.isBlank x = true := by
      intro x member
      rw [(List.mem_replicate.mp member).2]
      decide
    have still : '\t' ∉ List.replicate (indent (raw.takeWhile Text.isBlank).length) ' '
        ++ c :: tail := by
      intro tab
      rcases List.mem_append.mp tab with space | later
      · exact absurd (List.mem_replicate.mp space).2 (by decide)
      · exact noTab (whole ▸ List.mem_append_right _ later)
    rw [if_neg (List.cons_ne_nil c tail), scan_append tabWidth number spaces rfl solid still]
    conv_rhs => rw [← whole]
    rw [scan_append tabWidth number before rfl solid (by rw [whole]; exact noTab)]
    rw [List.length_replicate]
    split
    · rfl
    · split <;> rfl

/-- Lines of which each is indented otherwise. -/
theorem abreast_reindent {indent : Nat → Nat} (rises : StrictMono indent) (tabWidth number : Nat)
    {lines : List (List Char)} (noTab : ∀ raw ∈ lines, '\t' ∉ raw) :
    Abreast tabWidth (.ofIndent indent rises) number lines number
      (lines.map (Text.reindent indent)) := by
  induction lines generalizing number with
  | nil => exact .nil _ _
  | cons raw rest ih =>
    exact .both rfl (scan_reindent rises tabWidth number (noTab raw (List.mem_cons_self ..)))
      (ih (number + 1) fun raw' member => noTab raw' (List.mem_cons_of_mem raw member))

/-- Lines without tabs may be indented in any way that keeps the order of indents: the script
compiles to the same, with the same diagnostics, or fails in the same way. -/
theorem compile_reindent (hash : String → String) (s : Settings) (name : String)
    {text text' : String} {indent : Nat → Nat} (rises : StrictMono indent)
    (noTab : ∀ raw ∈ Text.lines text.toList, '\t' ∉ raw)
    (lines : Text.lines text'.toList = (Text.lines text.toList).map (Text.reindent indent)) :
    compileWith hash s name text' = compileWith hash s name text := by
  have abreast := abreast_reindent rises s.tabWidth 1 noTab
  rw [← lines] at abreast
  have count : (Text.lines text'.toList).length = (Text.lines text.toList).length := by
    rw [lines, List.length_map]
  refine ((compileWith_moved hash name abreast fun _ => count).mono fun c c' moved => ?_).eq
  -- No line gets another number, so nothing at all is different.
  have same : Graph.renumbered (Shift.ofIndent indent rises).line = id :=
    funext (Graph.renumbered_of_kept fun _ => rfl)
  have graph : c'.graph = c.graph := by
    rw [moved.graph, same, Option.map_id]
    rfl
  have notes : c'.diagnostics = c.diagnostics :=
    (List.forall₂_eq_eq_eq ▸ moved.diagnostics.imp fun _ _ echoes => (echoes.same trivial).symm :
      c.diagnostics = c'.diagnostics).symm
  cases c'
  cases graph
  cases notes
  rfl

/-- A script with options, blocks and a loose end, indented by blanks of either width. -/
theorem compile_reindent_option :
    StrictMono (fun n : Nat => 3 * n + 1)
      ∧ (∀ raw ∈ Text.lines "A: hi\n\n* go\n  [if x]\n   B: so\n# no\n* stay\nC: end".toList,
        '\t' ∉ raw)
      ∧ compileWith TextId.digest .standard "script"
          " A: hi\n\n * go\n       [if x]\n          B: so\n # no\n * stay\n C: end"
        = compileWith TextId.digest .standard "script"
          "A: hi\n\n* go\n  [if x]\n   B: so\n# no\n* stay\nC: end" := by
  have rises : StrictMono (fun n : Nat => 3 * n + 1) := fun a b less => by
    dsimp only
    omega
  have noTab : ∀ raw ∈ Text.lines
      "A: hi\n\n* go\n  [if x]\n   B: so\n# no\n* stay\nC: end".toList, '\t' ∉ raw := by
    decide +kernel
  exact ⟨rises, noTab, compile_reindent TextId.digest .standard "script" rises noTab
    (by decide +kernel)⟩

end Script

end Colloquy
