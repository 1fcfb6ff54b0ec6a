import Colloquy.Proofs.Script.Totality
/-!
# Blocks one after the other

A script may be free of faults and still not compile. Behind its first line stand blocks that say
nothing; each is a select whose branches lead to the next one, so the search for the choices of the
line goes one node deeper for every block.
-/

namespace Colloquy

namespace Script

open Builder

/-- The expression `1`. -/
def one : Expression :=
  ⟨"1", [.push (.int 1)]⟩

/-- The line that the blocks stand behind. -/
def caption (edges : List DraftEdge) : Draft :=
  ⟨.text "A" "hi" "" [], 1, 0, edges, 0, []⟩

/-- The select of the block of a number, both its branches leading to one place. -/
def emptyBlock (i : Nat) (d : Destination) : Draft :=
  ⟨.select, 2 * i, 0,
    [{ kind := .condition, destination := d, condition := some one, line := 2 * i },
      { kind := .condition, destination := d, condition := some .always, line := 2 * i }],
    0, []⟩

/-- The line and the blocks before the block of a number. -/
def blocksBefore : Nat → List Draft
  | 0 => []
  | 1 => [caption [{ kind := .continue, destination := .to 1 }]]
  | i + 2 => blocksBefore (i + 1) ++ [emptyBlock (i + 1) (.to (i + 2))]

/-- The draft after so many blocks have been read. -/
def blocksRead : Nat → Builder
  | 0 => { nodes := [caption []], top := ⟨.root, some 0, 0, 0, 0⟩ }
  | i + 1 =>
    { nodes := blocksBefore (i + 1) ++ [emptyBlock (i + 1) .open]
      top := ⟨.root, some (i + 1), 0, 0, 0⟩
      looseEdges := [⟨i + 1, 0⟩, ⟨i + 1, 1⟩] }

theorem blocksBefore_length (i : Nat) : (blocksBefore i).length = i := by
  induction i using blocksBefore.induct with
  | case1 => rfl
  | case2 => rfl
  | case3 i ih => simp [blocksBefore, ih]

theorem blocksBefore_getElem? {k i : Nat} (positive : 1 ≤ k) (inside : k < i) :
    (blocksBefore i)[k]? = some (emptyBlock k (.to (k + 1))) := by
  induction i using blocksBefore.induct with
  | case1 => omega
  | case2 => omega
  | case3 i ih =>
    have length := blocksBefore_length (i + 1)
    rw [blocksBefore]
    by_cases last : k = i + 1
    · rw [List.getElem?_append_right (by omega), last, length, Nat.sub_self]
      rfl
    · rw [List.getElem?_append_left (by omega)]
      exact ih (by omega)

/-- Changing what stands between two parts of a list. -/
theorem modify_middle {α : Type} (front : List α) (x : α) (rest : List α) (f : α → α) :
    (front ++ x :: rest).modify front.length f = front ++ f x :: rest := by
  induction front with
  | nil => rfl
  | cons y front ih => simp [ih]

/-- Reading one more block. -/
theorem blocksRead_next (i : Nat) :
    ((blocksRead i).openIf (2 * (i + 1)) 0 one false).endIf (2 * (i + 1) + 1)
      = blocksRead (i + 1) := by
  cases i with
  | zero => rfl
  | succ i =>
    have length := blocksBefore_length (i + 1)
    have last (x : Draft) (rest : List Draft) (f : Draft → Draft) :
        (blocksBefore (i + 1) ++ x :: rest).modify (i + 1) f
          = blocksBefore (i + 1) ++ f x :: rest := by
      have whole := modify_middle (blocksBefore (i + 1)) x rest f
      rwa [length] at whole
    have next (x y : Draft) (f : Draft → Draft) :
        (blocksBefore (i + 1) ++ [x, y]).modify (i + 2) f = blocksBefore (i + 1) ++ [x, f y] := by
      have whole := modify_middle (blocksBefore (i + 1) ++ [x]) y [] f
      simpa [length] using whole
    simp [blocksRead, blocksBefore, emptyBlock, openIf, endIf, lastOf, append, closeBlock,
      closeBranch, addBranchEdge, aim, attach, nextEdge, path, length, last, next, Step.kind,
      Draft.isLoose, Step.isSequential, Frame.branch?]

/-! ### Reading the script -/

/-- The two lines of a block. -/
def blockLines : List (List Char) :=
  [['[', 'i', 'f', ' ', '1', ']'], ['[', 'e', 'n', 'd', 'i', 'f', ']']]

/-- A line that is said. -/
def captionLine : List Char :=
  ['A', ':', ' ', 'h', 'i']

/-- The text of a line and so many blocks. -/
def lineAndBlocks (n : Nat) : List Char :=
  captionLine ++ '\n' :: (List.replicate n (blockLines.flatMap (· ++ ['\n']))).flatten

theorem lines_lineAndBlocks (n : Nat) :
    Text.lines (lineAndBlocks n) = captionLine :: (List.replicate n blockLines).flatten := by
  have blocks : Text.linesFrom [] (List.replicate n (blockLines.flatMap (· ++ ['\n']))).flatten
      = (List.replicate n blockLines).flatten := by
    induction n with
    | zero => rfl
    | succ n ih =>
      rw [List.replicate_succ, List.replicate_succ, List.flatten_cons, List.flatten_cons, ← ih]
      rfl
  rw [← blocks]
  rfl

theorem scan_blockLines (s : Settings) (number : Nat) :
    scan s.tabWidth number ['[', 'i', 'f', ' ', '1', ']']
        = .line ⟨number, 0, ['[', 'i', 'f', ' ', '1', ']'], ""⟩
      ∧ scan s.tabWidth number ['[', 'e', 'n', 'd', 'i', 'f', ']']
        = .line ⟨number, 0, ['[', 'e', 'n', 'd', 'i', 'f', ']'], ""⟩ :=
  ⟨rfl, rfl⟩

theorem read_blockLines :
    Statement.read ['[', 'i', 'f', ' ', '1', ']'] = .openIf "1"
      ∧ Statement.read ['[', 'e', 'n', 'd', 'i', 'f', ']'] = .endIf := by
  decide +kernel

theorem parse_one : Expression.parse "1" = .ok one := by
  decide +kernel

theorem blocksRead_outside (i : Nat) :
    (blocksRead i).below = [] ∧ (blocksRead i).headerState.inside = false := by
  cases i <;> exact ⟨rfl, rfl⟩

theorem openIf_outside (i line : Nat) :
    ((blocksRead i).openIf line 0 one false).top.threshold = 0
      ∧ ((blocksRead i).openIf line 0 one false).headerState.inside = false := by
  have follows : (blocksRead i).follows 0 = false := by
    cases i with
    | zero => rfl
    | succ i => simp [follows, lastOf, blocksRead, blocksBefore_length, emptyBlock, Step.kind]
  rw [openIf_unchained one follows]
  exact ⟨rfl, (blocksRead_outside i).2⟩

/-- The two lines of a block, read one after the other. -/
theorem readLines_block (s : Settings) (i : Nat) (rest : List (List Char)) :
    readLines s (blocksRead i) (2 * (i + 1)) (blockLines ++ rest)
      = readLines s (blocksRead (i + 1)) (2 * (i + 2)) rest := by
  obtain ⟨below, outside⟩ := blocksRead_outside i
  obtain ⟨threshold, outside'⟩ := openIf_outside i (2 * (i + 1))
  have still (line : Nat) : (blocksRead i).settle line 0 = blocksRead i := by
    rw [settle, below]
    rfl
  have opened (rest : List (List Char)) :
      readLine s (blocksRead i) (2 * (i + 1)) ['[', 'i', 'f', ' ', '1', ']']
        (['[', 'e', 'n', 'd', 'i', 'f', ']'] :: rest)
        = .ok ((blocksRead i).openIf (2 * (i + 1)) 0 one false) := by
    simp only [readLine, (scan_blockLines s _).1, outside, readBodyLine, still, read_blockLines.1,
      readCondition, readExpression, parse_one]
    rfl
  rw [← blocksRead_next i]
  generalize (blocksRead i).openIf (2 * (i + 1)) 0 one false = b at *
  have settled (line : Nat) : b.settle line 0 = b := by
    rw [settle]
    cases b.below.length with
    | zero => rfl
    | succ fuel => rw [popAbove, if_pos (by simp [threshold])]
  have closed : readLine s b (2 * (i + 1) + 1) ['[', 'e', 'n', 'd', 'i', 'f', ']'] rest
      = .ok (b.endIf (2 * (i + 1) + 1)) := by
    simp only [readLine, (scan_blockLines s _).2, outside', readBodyLine, settled,
      read_blockLines.2]
    rfl
  simp only [blockLines, List.cons_append, List.nil_append, readLines, opened, closed, bind,
    Except.bind]
  rfl

theorem readLines_blocks (s : Settings) (i n : Nat) :
    readLines s (blocksRead i) (2 * (i + 1)) (List.replicate n blockLines).flatten
      = .ok (blocksRead (i + n)) := by
  induction n generalizing i with
  | zero => rfl
  | succ n ih =>
    rw [List.replicate_succ, List.flatten_cons, readLines_block, ih (i + 1)]
    congr 2
    omega

/-- The draft of a line and so many blocks and one more. -/
def blocksDraft (n : Nat) : Builder :=
  { nodes := blocksBefore (n + 1) ++ [emptyBlock (n + 1) (.search (n + 2))]
    top := ⟨.root, some (n + 1), 0, 0, 0⟩ }

theorem readScript_blocks (s : Settings) (n : Nat) :
    readScript s (Text.lines (lineAndBlocks (n + 1))) = .ok (blocksDraft n) := by
  have first (rest : List (List Char)) :
      readLine s {} 1 captionLine rest = .ok (blocksRead 0) := by
    have speech : Statement.read captionLine = .speech "A" "hi" := by decide +kernel
    have scanned : scan s.tabWidth 1 captionLine = .line ⟨1, 0, captionLine, ""⟩ := rfl
    have params : Template.params "hi" = [] := by decide +kernel
    simp only [readLine, scanned, readBodyLine, speech, params]
    rfl
  have blocks := readLines_blocks s 0 (n + 1)
  have finished (line : Nat) : (blocksRead (n + 1)).finish line = blocksDraft n := by
    have last (x : Draft) (f : Draft → Draft) :
        (blocksBefore (n + 1) ++ [x]).modify (n + 1) f = blocksBefore (n + 1) ++ [f x] := by
      have whole := modify_middle (blocksBefore (n + 1)) x [] f
      rwa [blocksBefore_length] at whole
    simp [finish, popAll, release, blocksRead, blocksDraft, emptyBlock, aim, last,
      blocksBefore_length]
  simp only [Nat.zero_add] at blocks
  rw [lines_lineAndBlocks, readScript, readLines, first]
  simp only [bind, Except.bind]
  rw [blocks]
  simp only [pure, Except.pure, finished]

/-! ### Searching behind the line -/

theorem blocksBefore_noGoto (i : Nat) : ∀ d ∈ blocksBefore i, d.gotoLabel? = none := by
  induction i using blocksBefore.induct with
  | case1 => exact fun d none => by cases none
  | case2 =>
    intro d member
    rw [List.mem_singleton.mp member]
    rfl
  | case3 i ih =>
    intro d member
    rcases List.mem_append.mp member with earlier | last
    · exact ih d earlier
    · rw [List.mem_singleton.mp last]
      rfl

theorem blocksDraft_noGoto (n : Nat) :
    ∀ d ∈ settleAll (blocksDraft n).nodes, d.gotoLabel? = none := by
  intro d member
  obtain ⟨i, there⟩ := List.mem_iff_getElem?.mp member
  rw [settleAll_getElem?] at there
  obtain ⟨d₀, there₀, rfl⟩ := Option.map_eq_some_iff.mp there
  have noGoto : d₀.gotoLabel? = none := by
    rcases List.mem_append.mp (List.mem_of_getElem? there₀) with earlier | last
    · exact blocksBefore_noGoto _ d₀ earlier
    · rw [List.mem_singleton.mp last]
      rfl
  rw [settleDraft_gotoLabel?]
  exact noGoto

/-- Without gotos all nodes keep their places. -/
theorem plainNodes_of_noGoto {s : Settings} {b : Builder}
    (noGoto : ∀ d ∈ settleAll b.nodes, d.gotoLabel? = none) {k : Nat} {d : Draft}
    (there : (settleAll b.nodes)[k]? = some d) :
    ∃ n, (plainNodes s b)[k]? = some n ∧ n.kind = d.step.kind
      ∧ n.edges.map (·.target) = d.edges.map fun e =>
        (newTarget (settleAll b.nodes) (gotosOf s b) e).map .ofNat := by
  have all : bodyOf b = settleAll b.nodes :=
    List.filter_eq_self.mpr fun d member => by rw [noGoto d member]; rfl
  have inside : k < (bodyOf b).length := by
    rw [all]
    exact (List.getElem?_eq_some_iff.mp there).1
  refine ⟨bodyNode s b d k, ?_, buildNode_kind _ _ _ _, ?_⟩
  · rw [plainNodes_body inside]
    change Option.map _ (bodyOf b)[k]? = _
    rw [all, there]
    rfl
  · rw [bodyNode, buildNode_edges, List.map_map]
    rfl

theorem newTarget_of_noGoto {s : Settings} {b : Builder}
    (noGoto : ∀ d ∈ settleAll b.nodes, d.gotoLabel? = none) {e : DraftEdge} {i : Nat}
    (leadsTo : e.destination = .to i) (bound : i ≤ (settleAll b.nodes).length) :
    newTarget (settleAll b.nodes) (gotosOf s b) e = some i := by
  have before : keptBefore (settleAll b.nodes) i = i := by
    have count : ((settleAll b.nodes).take i).countP (·.gotoLabel?.isNone)
        = ((settleAll b.nodes).take i).length :=
      List.countP_eq_length.mpr fun d member => by rw [noGoto d (List.mem_of_mem_take member)]; rfl
    rw [keptBefore, count, List.length_take, Nat.min_eq_left bound]
  rw [newTarget, leadsTo]
  dsimp only [newPosition]
  cases there : (settleAll b.nodes)[i]? with
  | none => simp [before]
  | some d => simp [before, noGoto d (List.mem_of_getElem? there)]

/-- The nodes of the blocks are a row of selects. -/
theorem blocksDraft_row (s : Settings) (n : Nat) (k : Nat) (positive : 1 ≤ k) (within : k ≤ n + 1) :
    ∃ m, (plainNodes s (blocksDraft n))[k]? = some m ∧ m.kind = .select
      ∧ (k < n + 1 → ∃ e rest, m.edges = e :: rest ∧ e.target = some (.ofNat (k + 1))) := by
  have length := blocksBefore_length (n + 1)
  have noGoto := blocksDraft_noGoto n
  have count : (settleAll (blocksDraft n).nodes).length = n + 2 := by
    simp [blocksDraft, length]
  have settled (destination : Destination)
      (there : (blocksDraft n).nodes[k]? = some (emptyBlock k destination)) :
      (settleAll (blocksDraft n).nodes)[k]? = some { emptyBlock k destination with
        edges := (emptyBlock k destination).edges.map (settleEdge (blocksDraft n).nodes) } := by
    rw [settleAll_getElem?, there, Option.map_some, settleDraft_of_edges rfl]
  -- every block leads to the next one, and the last one searches for what follows
  by_cases more : k < n + 1
  · have there : (blocksDraft n).nodes[k]? = some (emptyBlock k (.to (k + 1))) := by
      rw [blocksDraft, List.getElem?_append_left (by omega)]
      exact blocksBefore_getElem? positive more
    obtain ⟨m, found, kind, targets⟩ :=
      @plainNodes_of_noGoto s (blocksDraft n) noGoto k _ (settled _ there)
    refine ⟨m, found, kind, fun _ => ?_⟩
    cases edges : m.edges with
    | nil =>
      rw [edges] at targets
      cases targets
    | cons e rest =>
      rw [edges] at targets
      refine ⟨e, rest, rfl, (List.cons.inj targets).1.trans ?_⟩
      have leads := @newTarget_of_noGoto s (blocksDraft n) noGoto
        { kind := .condition, destination := .to (k + 1), condition := some one, line := 2 * k }
        (k + 1) rfl (by omega)
      exact congrArg (Option.map Ref.ofNat) leads
  · have same : k = n + 1 := by omega
    subst same
    have there : (blocksDraft n).nodes[n + 1]?
        = some (emptyBlock (n + 1) (.search (n + 2))) := by
      rw [blocksDraft, List.getElem?_append_right (by omega), length, Nat.sub_self]
      rfl
    obtain ⟨m, found, kind, _⟩ :=
      @plainNodes_of_noGoto s (blocksDraft n) noGoto (n + 1) _ (settled _ there)
    exact ⟨m, found, kind, fun less => absurd less more⟩

/-- The choices of the line are searched from the first block on. -/
theorem blocksDraft_line (s : Settings) (n : Nat) :
    ∃ line start, line ∈ plainNodes s (blocksDraft n) ∧ line.kind = .text
      ∧ (plainNodes s (blocksDraft n))[1]? = some start
      ∧ choiceStart (plainNodes s (blocksDraft n)) line = some start := by
  have first (i : Nat) :
      (blocksBefore (i + 1))[0]? = some (caption [{ kind := .continue, destination := .to 1 }]) := by
    induction i with
    | zero => rfl
    | succ i ih =>
      rw [blocksBefore, List.getElem?_append_left (by rw [blocksBefore_length]; omega)]
      exact ih
  have noGoto := blocksDraft_noGoto n
  have count : (settleAll (blocksDraft n).nodes).length = n + 2 := by
    simp [blocksDraft, blocksBefore_length]
  have there : (blocksDraft n).nodes[0]?
      = some (caption [{ kind := .continue, destination := .to 1 }]) := by
    rw [blocksDraft, List.getElem?_append_left (by rw [blocksBefore_length]; omega)]
    exact first n
  have settled : (settleAll (blocksDraft n).nodes)[0]?
      = some (caption [{ kind := .continue, destination := .to 1 }]) := by
    rw [settleAll_getElem?, there, Option.map_some, settleDraft_of_edges rfl]
    rfl
  obtain ⟨line, found, kind, targets⟩ :=
    @plainNodes_of_noGoto s (blocksDraft n) noGoto 0 _ settled
  obtain ⟨start, next, select, _⟩ := blocksDraft_row s n 1 (Nat.le_refl 1) (by omega)
  refine ⟨line, start, List.mem_of_getElem? found, kind, next, ?_⟩
  have leads := @newTarget_of_noGoto s (blocksDraft n) noGoto
    { kind := .continue, destination := .to 1 } 1 rfl (by omega)
  have targets' : line.edges.map (·.target) = [some (.ofNat 1)] := by
    rw [targets]
    exact congrArg (fun target => [Option.map Ref.ofNat target]) leads
  obtain ⟨e, edges, target⟩ := List.map_eq_singleton_iff.mp targets'
  have lands : ahead (plainNodes s (blocksDraft n)) line = some start := by
    rw [ahead, edges]
    simp only [List.head?_cons, Option.bind_some, landing, target, follow_ofNat next]
    rfl
  rw [choiceStart, edges, lands, skipped, select]
  rfl

/-- Without gotos none is faulty. -/
theorem resolveGotos_of_noGoto (endLabel : String) {nodes : List Draft}
    (labels : List (String × Option Nat)) (noGoto : ∀ d ∈ nodes, d.gotoLabel? = none) :
    (resolveGotos endLabel nodes labels).diagnostics = [] := by
  have still (table : GotoTable) (i : Nat) : resolveGoto endLabel nodes labels table i = table := by
    have none : nodes[i]?.bind Draft.gotoLabel? = none := by
      cases there : nodes[i]? with
      | none => rfl
      | some d => exact noGoto d (List.mem_of_getElem? there)
    rw [resolveGoto, none]
    rfl
  have fixed (is : List Nat) : is.foldl (resolveGoto endLabel nodes labels) {} = {} := by
    induction is with
    | nil => rfl
    | cons i rest ih => rw [List.foldl_cons, still, ih]
  rw [resolveGotos, fixed]

/-- A script of a line and too many blocks does not compile, with no numeral but `1`. -/
theorem compile_blocks (s : Settings) (name : String) (n : Nat) (many : searchDepth ≤ n) :
    compile s name (String.ofList (lineAndBlocks (n + 1))) = .error (.lost .tooDeep) := by
  have read : readScript s (Text.lines (String.ofList (lineAndBlocks (n + 1))).toList)
      = .ok (blocksDraft n) := by
    rw [String.toList_ofList]
    exact readScript_blocks s n
  have clear : refuses s (blocksDraft n) = false := by
    rw [refuses, resolveGotos_of_noGoto _ _ (blocksDraft_noGoto n)]
    rfl
  have rooted := plainNodes_rooted (linked_of_not_refuses read clear)
  have deep : ¬ Searchable (plainNodes s (blocksDraft n)) := by
    intro fits
    obtain ⟨line, start, member, text, next, begins⟩ := blocksDraft_line s n
    have shallow := fits line member text start begins
    have size : n + 1 < (plainNodes s (blocksDraft n)).length := by
      obtain ⟨m, there, _⟩ := blocksDraft_row s n (n + 1) (by omega) (Nat.le_refl _)
      exact (List.getElem?_eq_some_iff.mp there).1
    have far := row_le_levels rooted (blocksDraft_row s n)
      ((plainNodes s (blocksDraft n)).length + 1) 1 (Nat.le_refl 1) (by omega) (by omega) next
      (fun i none => (List.not_mem_nil none).elim)
    rw [choiceSight] at shallow
    omega
  obtain ⟨returns, only⟩ := @compile_of_linked s name _ _ read clear
  cases compiled : compile s name (String.ofList (lineAndBlocks (n + 1))) with
  | ok c => exact absurd (returns.mp ⟨c, compiled⟩) deep
  | error f => rw [only f compiled]

theorem lineAndBlocks_fits (s : Settings) (n : Nat) :
    NumeralsFit s (Text.lines (lineAndBlocks n)) := by
  have digits : Expression.NumeralsFit "1" := by decide +kernel
  intro raw member number l scanned text written
  rw [lines_lineAndBlocks] at member
  -- Of the three lines only the condition has an expression.
  rcases List.mem_cons.mp member with rfl | inside
  · have speech : (Statement.read captionLine).expressions = [] := by decide +kernel
    have line : scan s.tabWidth number captionLine = .line ⟨number, 0, captionLine, ""⟩ := rfl
    cases line.symm.trans scanned
    rw [speech] at written
    cases written
  · obtain ⟨block, one, inside⟩ := List.mem_flatten.mp inside
    rw [List.eq_of_mem_replicate one, blockLines] at inside
    rcases List.mem_cons.mp inside with rfl | last
    · cases (scan_blockLines s number).1.symm.trans scanned
      rw [read_blockLines.1, Statement.expressions, List.mem_singleton] at written
      rw [written]
      exact digits
    · rw [List.mem_singleton.mp last] at scanned
      cases (scan_blockLines s number).2.symm.trans scanned
      rw [read_blockLines.2] at written
      cases written

/-- Numerals that fit do not suffice for a script to compile. -/
theorem fitting_script_fails :
    NumeralsFit .standard (Text.lines (String.ofList (lineAndBlocks 330)).toList)
      ∧ ∀ c, compile .standard "script" (String.ofList (lineAndBlocks 330)) ≠ .ok c := by
  rw [String.toList_ofList]
  refine ⟨lineAndBlocks_fits .standard 330, fun c compiled => ?_⟩
  rw [compile_blocks .standard "script" 329 (Nat.le_refl _)] at compiled
  cases compiled

end Script

end Colloquy
