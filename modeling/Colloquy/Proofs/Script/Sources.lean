import Colloquy.Proofs.Script.Accounting
import Colloquy.Proofs.Script.Notes
import Colloquy.Proofs.Script.Reindent
/-!
# What becomes of one line

Every point of an outline is begun by one line, and every node comes of one point. So the nodes of a
graph can be told apart by their lines. Of a line that begins the same points wherever it stands,
the graph has the nodes of just these points; and what a line complains of stays among the
diagnostics.
-/

namespace Colloquy

/-! ### Lines as they are written -/

namespace Text

theorem isBlank_expandTabsFrom (width column : Nat) {blanks : List Char}
    (blank : ∀ c ∈ blanks, isBlank c = true) :
    ∀ c ∈ expandTabsFrom width column blanks, isBlank c = true := by
  induction blanks generalizing column with
  | nil => exact blank
  | cons c rest ih =>
    obtain ⟨now, later⟩ := List.forall_mem_cons.1 blank
    intro x member
    unfold expandTabsFrom at member
    split at member
    · obtain space | further := List.mem_append.1 member
      · rw [(List.mem_replicate.1 space).2]
        decide
      · exact ih _ later x further
    · obtain rfl | further := List.mem_cons.1 member
      · exact now
      · exact ih _ later x further

/-- Tabs in front of a text without tabs leave the text alone. -/
theorem expandTabsFrom_append (width column : Nat) (s : List Char) {t : List Char}
    (noTab : '\t' ∉ t) :
    expandTabsFrom width column (s ++ t) = expandTabsFrom width column s ++ t := by
  induction s generalizing column with
  | nil => exact expandTabsFrom_eq_self width column noTab
  | cons c rest ih =>
    rw [List.cons_append, expandTabsFrom, expandTabsFrom]
    dsimp only
    split
    · rw [ih, List.append_assoc]
    · rw [ih, List.cons_append]

end Text

namespace Script

open Outline (Point Entry)

/-- A text in square brackets. -/
def bracketed (inner : List Char) : List Char :=
  '[' :: (inner ++ [']'])

theorem bracketed?_bracketed (inner : List Char) : bracketed? (bracketed inner) = some inner := by
  simp [bracketed, bracketed?]

/-- A command is read as it is written, however it is indented, and no id is taken off it. -/
theorem scan_bracketed (tabWidth number : Nat) {raw inner : List Char}
    (written : Text.trim raw = bracketed inner) (noTab : '\t' ∉ inner) :
    ∃ indent, scan tabWidth number raw = .line ⟨number, indent, bracketed inner, ""⟩ := by
  have tabless : '\t' ∉ bracketed inner := by
    simp [bracketed, noTab]
  -- blanks before the command are all that its indent is measured from
  have left : Text.trimRight (Text.trimLeft raw) ≠ [] := by
    rw [← Text.trim, written]
    exact List.cons_ne_nil _ _
  have trimmed : Text.trimRight raw = raw.takeWhile Text.isBlank ++ bracketed inner := by
    conv_lhs => rw [← List.takeWhile_append_dropWhile (p := Text.isBlank) (l := raw)]
    rw [← Text.trimLeft, Text.trimRight_append _ left, ← written]
    rfl
  have blank : ∀ c ∈ Text.expandTabsFrom tabWidth 0 (raw.takeWhile Text.isBlank),
      Text.isBlank c = true :=
    Text.isBlank_expandTabsFrom _ _ fun c member => List.mem_takeWhile_imp member
  have stripped :
      Text.trimLeft (Text.expandTabs tabWidth (Text.trimRight raw)) = bracketed inner := by
    rw [trimmed, Text.expandTabs, Text.expandTabsFrom_append _ _ _ tabless]
    refine Text.trimLeft_append blank fun c first => ?_
    cases first
    decide
  have noId : splitId (bracketed inner) = (bracketed inner, "") := by
    rw [splitId, bracketed, ← List.cons_append, List.reverse_append]
    rfl
  refine ⟨(Text.expandTabs tabWidth (Text.trimRight raw)).length - (bracketed inner).length, ?_⟩
  rw [scan]
  dsimp only
  rw [stripped, noId]
  rfl

/-- A line of the body is what its own text in the script is scanned as. -/
theorem scan_of_mem_bodyFrom {s : Settings} {inside : Bool} {number : Nat}
    {lines : List (List Char)} {l : Line} (member : l ∈ bodyFrom s inside number lines) :
    ∃ raw, lines[l.number - number]? = some raw ∧ scan s.tabWidth l.number raw = .line l := by
  induction lines generalizing inside number with
  | nil => cases member
  | cons raw rest ih =>
    have later {inside : Bool} (there : l ∈ bodyFrom s inside (number + 1) rest) :
        ∃ raw', (raw :: rest)[l.number - number]? = some raw'
          ∧ scan s.tabWidth l.number raw' = .line l := by
      obtain ⟨raw', found, scanned⟩ := ih there
      have behind := number_le_of_bodyFrom there
      have next : l.number - number = l.number - (number + 1) + 1 := by omega
      exact ⟨raw', by rw [next, List.getElem?_cons_succ, found], scanned⟩
    rw [bodyFrom] at member
    split at member
    · exact later member
    · exact later member
    next first scanned =>
      split at member
      · exact later member
      · obtain rfl | there := List.mem_cons.1 member
        · have same := scan_number scanned
          exact ⟨raw, by simp [same], by rw [same, scanned]⟩
        · exact later there

/-- Whether a line of the body has a number and a text, whatever blanks are around it. -/
structure Stands (s : Settings) (text : String) (number : Nat) (written : List Char) : Prop where
  inside : ∃ l ∈ bodyLines s text, l.number = number
  written : ((Text.lines text.toList)[number - 1]?).map Text.trim = some written

/-- A command that stands in the body is one of its lines. -/
theorem Stands.line {s : Settings} {text : String} {number : Nat} {inner : List Char}
    (stands : Stands s text number (bracketed inner)) (noTab : '\t' ∉ inner) :
    ∃ l ∈ bodyLines s text, l.number = number ∧ l.body = bracketed inner := by
  obtain ⟨l, member, rfl⟩ := stands.inside
  obtain ⟨raw, there, scanned⟩ := scan_of_mem_bodyFrom member
  have written := stands.written
  rw [there, Option.map_some, Option.some.injEq] at written
  obtain ⟨indent, scanned'⟩ := scan_bracketed s.tabWidth l.number written noTab
  exact ⟨l, member, rfl, congrArg Line.body (Scanned.line.inj (scanned.symm.trans scanned'))⟩

/-! ### Points of a line -/

namespace Outline

variable {o : Outline} {l : Line} {points : List Point}

theorem leave_points (o : Outline) : o.leave.points = o.points := by
  unfold leave
  split <;> rfl

theorem settle_points (o : Outline) (indent : Nat) : (o.settle indent).points = o.points := by
  unfold settle
  generalize o.below.length = fuel
  induction fuel generalizing o with
  | zero => rfl
  | succ fuel ih =>
    rw [leaveAbove]
    split
    · rfl
    · rw [ih, leave_points]

theorem leaveAll_points (o : Outline) (fuel : Nat) : (o.leaveAll fuel).points = o.points := by
  induction fuel generalizing o with
  | zero => rfl
  | succ fuel ih =>
    rw [leaveAll]
    split
    · rfl
    · rw [ih, leave_points]

/-- What one outline has over another was begun by some lines. -/
def Begun (ls : List Line) (o c : Outline) : Prop :=
  ∃ points, c.points = o.points ++ points ∧ ∀ point ∈ points, point.line ∈ ls

namespace Begun

variable {a b c : Outline} {ls more : List Line}

theorem of_same (same : c.points = b.points) : Begun ls b c :=
  ⟨[], by rw [same, List.append_nil], nofun⟩

theorem trans (first : Begun ls a b) (second : Begun more b c) : Begun (ls ++ more) a c := by
  obtain ⟨points, grown, own⟩ := first
  obtain ⟨points', grown', own'⟩ := second
  refine ⟨points ++ points', by rw [grown', grown, List.append_assoc], fun point member => ?_⟩
  obtain early | late := List.mem_append.1 member
  · exact List.mem_append_left _ (own point early)
  · exact List.mem_append_right _ (own' point late)

theorem of_point {point : Point} (grown : c.points = b.points ++ [point]) (own : point.line = l) :
    Begun [l] b c := by
  refine ⟨[point], grown, fun p member => ?_⟩
  rw [List.mem_singleton.1 member, own]
  exact List.mem_singleton_self l

end Begun

theorem appendRead_begun {α : Type} (o : Outline) (point : α → Point) (fault : String)
    (result : Except CompileFault (Except String α)) (own : ∀ a, (point a).line = l) :
    Begun [l] o (o.appendRead l point fault result) := by
  unfold appendRead
  split
  next a => exact .of_point rfl (own a)
  · exact .of_same rfl
  · exact .of_same rfl

theorem openIf_begun (o : Outline) (l : Line) (isNext : Bool) :
    Begun [l] o (o.openIf l isNext) := by
  unfold openIf
  split
  · exact .of_point rfl rfl
  · refine ⟨[.list l, .block l], ?_, by simp [Point.line]⟩
    simp [openAt, enter, append]
  · exact .of_point rfl rfl

theorem further_begun (o : Outline) (l : Line) (keyword : String) :
    Begun [l] o (o.further l keyword) := by
  unfold further
  repeat' split
  all_goals exact .of_same rfl

theorem endIf_begun (o : Outline) (l : Line) : Begun [l] o o.endIf := by
  unfold endIf
  split
  · exact .of_same (leave_points o)
  · exact .of_same rfl

theorem option_begun (o : Outline) (l : Line) : Begun [l] o (o.option l) := by
  unfold option
  cases o.list? with
  | some => exact .of_same rfl
  | none => exact @Begun.of_point l _ _ (.list l) rfl rfl

theorem bare_begun (o : Outline) (l : Line) (text : String) : Begun [l] o (o.bare l text) := by
  unfold bare
  split
  · exact .of_point rfl rfl
  · exact .of_same rfl

/-- A line begins what is its own. -/
theorem add_begun (o : Outline) (l : Line) (isNext : Bool) : Begun [l] o (o.add l isNext) := by
  -- leaving lists and blocks begins nothing, so only the statement matters
  have settled : Begun [] o (o.settle l.indent) := .of_same (settle_points o l.indent)
  refine Begun.trans settled ?_
  unfold add
  dsimp only
  generalize o.settle l.indent = o
  cases Statement.read l.body with
  | option => exact option_begun o l
  | openIf => exact openIf_begun o l isNext
  | elseIf | otherwise => exact further_begun o l _
  | endIf => exact endIf_begun o l
  | goto | speech => exact .of_point rfl rfl
  | assign | event => exact appendRead_begun o _ _ _ fun _ => rfl
  | bare => exact bare_begun o l _
  | label | unknown => exact .of_same rfl

theorem addAll_begun (o : Outline) (ls : List (Line × Bool)) :
    Begun (ls.map (·.1)) o (o.addAll ls) := by
  induction ls generalizing o with
  | nil => exact .of_same rfl
  | cons l rest ih => exact (add_begun o l.1 l.2).trans (ih _)

end Outline

/-- Whether a line begins some points wherever it stands. -/
def Line.Begins (l : Line) (points : List Point) : Prop :=
  ∀ o isNext, (Outline.add o l isNext).points = o.points ++ points

namespace Line.Begins

variable {l : Line} {points : List Point}

theorem own (begins : l.Begins points) : ∀ point ∈ points, point.line = l := by
  obtain ⟨points', grown, own⟩ := Outline.add_begun {} l false
  have same : points = points' := by
    have both := (begins {} false).symm.trans grown
    exact List.append_cancel_left both
  intro point member
  exact List.mem_singleton.1 (own point (same ▸ member))

/-- An outline has what a line begins, and nothing else that has its number. -/
theorem outline (begins : l.Begins points) {s : Settings} {text : String}
    (member : l ∈ bodyLines s text) :
    (outline s text).points.filter (·.line.number = l.number) = points := by
  have sorted : (bodyLines s text).Pairwise (·.number < ·.number) := bodyFrom_sorted
  have ahead : (bodyAhead s false 1 (Text.lines text.toList)).map (·.1) = bodyLines s text :=
    bodyAhead_lines
  rw [Script.outline, Outline.leaveAll_points]
  rw [← ahead] at member sorted
  obtain ⟨⟨l', isNext⟩, inside, same⟩ := List.mem_map.1 member
  obtain rfl : l = l' := same.symm
  obtain ⟨before, after, split⟩ := List.append_of_mem inside
  rw [split, List.map_append, List.map_cons, List.pairwise_append, List.pairwise_cons] at sorted
  obtain ⟨_, ⟨late, _⟩, early⟩ := sorted
  -- the points of the lines before it, its own, and those of the lines after it
  obtain ⟨first, grown, own⟩ := Outline.addAll_begun {} before
  obtain ⟨last, grown', own'⟩ :=
    Outline.addAll_begun (Outline.add (Outline.addAll {} before) l isNext) after
  have whole : (Outline.addAll {} (bodyAhead s false 1 (Text.lines text.toList))).points
      = first ++ points ++ last := by
    rw [split, Outline.addAll, List.foldl_append, List.foldl_cons]
    refine grown'.trans ?_
    rw [begins, grown]
    rfl
  have noneBefore : first.filter (·.line.number = l.number) = [] := by
    refine List.filter_eq_nil_iff.2 fun point there => ?_
    have less : point.line.number < l.number :=
      early _ (own point there) l (List.mem_cons_self ..)
    simp only [decide_eq_true_eq]
    omega
  have noneAfter : last.filter (·.line.number = l.number) = [] := by
    refine List.filter_eq_nil_iff.2 fun point there => ?_
    have more : l.number < point.line.number := late _ (own' point there)
    simp only [decide_eq_true_eq]
    omega
  have all : points.filter (·.line.number = l.number) = points := by
    refine List.filter_eq_self.2 fun point there => ?_
    rw [begins.own point there]
    exact decide_eq_true rfl
  rw [whole, List.filter_append, List.filter_append, noneBefore, noneAfter, all, List.nil_append,
    List.append_nil]

/-! ### Lines that begin the same wherever they stand -/

theorem event {name text : String} {args : List Expression}
    (read : Statement.read l.body = .event name text)
    (known : readArguments ((arguments text.toList).map String.ofList) = .ok (.ok args)) :
    l.Begins [.event l name args] := by
  intro o isNext
  unfold Outline.add
  rw [read, ← Outline.settle_points o l.indent]
  dsimp only
  rw [known]
  rfl

theorem assign {name text : String} {e : Expression}
    (read : Statement.read l.body = .assign name text) (known : Expression.parse text = .ok e) :
    l.Begins [.assign l name e] := by
  intro o isNext
  unfold Outline.add
  rw [read, ← Outline.settle_points o l.indent]
  dsimp only
  rw [readExpression, known]
  rfl

theorem refused {name text : String} {fault : Expression.ParseError}
    (read : Statement.read l.body = .assign name text)
    (faulty : Expression.parse text = .error (.rejected fault)) : l.Begins [] := by
  intro o isNext
  unfold Outline.add
  rw [read, ← Outline.settle_points o l.indent, List.append_nil]
  dsimp only
  rw [readExpression, faulty]
  rfl

theorem unknown {text : String} (read : Statement.read l.body = .unknown text) : l.Begins [] := by
  intro o isNext
  unfold Outline.add
  rw [read, ← Outline.settle_points o l.indent, List.append_nil]

end Line.Begins

/-! ### Nodes of a line -/

section Graph

variable {s : Settings} {name text : String} {b : Builder} {g : Graph} {l : Line}

/-- No step of the header has the number of a line of the body. -/
theorem header_apart (linked : Linked s text b) (comes : ComesOf s name b g)
    (member : l ∈ bodyLines s text) :
    (g.nodes.drop g.bodyLength).filter (·.line = .ofNat l.number) = [] := by
  obtain ⟨sets, _, exactly, made⟩ := header_made linked comes
  refine List.filter_eq_nil_iff.2 fun n inside => ?_
  obtain ⟨i, there⟩ := List.mem_iff_getElem?.1 inside
  obtain ⟨x, preset, isMade⟩ := forall₂_right made there
  obtain ⟨reader, number, raw, rest, reaches, sets⟩ := (exactly x).1 (List.mem_of_getElem? preset)
  rw [isMade.line, decide_eq_true_eq, ofNat_inj]
  intro same
  -- reading comes to the line of the step with the header open, so it is no line of the body
  rw [preset?_line sets] at same
  have ahead : l ∈ Reader.body s ⟨reader, number, raw :: rest⟩ :=
    (reaches.mem_body l).2 ⟨member, Nat.le_of_eq same⟩
  have inside : reader.headerState.inside = true := by
    unfold Builder.preset? at sets
    split at sets
    next opened => exact (Bool.and_eq_true_iff.1 opened).1
    · cases sets
  rw [Reader.body, inside, bodyFrom] at ahead
  have later {inside : Bool} (there : l ∈ bodyFrom s inside (number + 1) rest) : False := by
    have behind := number_le_of_bodyFrom there
    omega
  unfold Builder.preset? at sets
  cases scanned : scan s.tabWidth number raw with
  | empty => simp [scanned] at sets
  | delimiter => simp [scanned] at sets
  | line first =>
    rw [scanned] at ahead
    exact later ahead

/-- The nodes with the number of a line are what the points with its number became. -/
theorem ComesOf.became_of_line (linked : Linked s text b) (comes : ComesOf s name b g)
    (member : l ∈ bodyLines s text) :
    List.Forall₂ (Became s b (outline s text)) (g.nodes.filter (·.line = .ofNat l.number))
      ((outline s text).kept.filter (·.1.line.number = l.number)) := by
  rw [← List.take_append_drop g.bodyLength g.nodes, List.filter_append,
    header_apart linked comes member, List.append_nil]
  refine forall₂_filter (comes.became linked) fun n x became => ?_
  rw [became.line]
  exact decide_eq_decide.2 ofNat_inj.symm

/-- A line that begins nothing makes no node. -/
theorem ComesOf.no_node (linked : Linked s text b) (comes : ComesOf s name b g)
    (member : l ∈ bodyLines s text) (begins : l.Begins []) :
    g.nodes.filter (·.line = .ofNat l.number) = [] := by
  have nodes := comes.became_of_line linked member
  have none : (outline s text).kept.filter (·.1.line.number = l.number) = [] := by
    refine List.filter_eq_nil_iff.2 fun x inside isLine => ?_
    have own : x.1 ∈ (outline s text).points.filter (·.line.number = l.number) := by
      refine List.mem_filter.2 ⟨?_, isLine⟩
      have placed := (List.mem_filter.1 inside).1
      rw [← List.zipIdx_map_fst 0 (outline s text).points]
      exact List.mem_map_of_mem placed
    rw [begins.outline member] at own
    cases own
  rw [none] at nodes
  exact List.forall₂_nil_right_iff.1 nodes

/-- A line that begins one point, no goto, makes one node. -/
theorem ComesOf.one_node (linked : Linked s text b) (comes : ComesOf s name b g)
    (member : l ∈ bodyLines s text) {point : Point} (begins : l.Begins [point])
    (stays : point.kind ≠ .goto) :
    ∃ n place, g.nodes.filter (·.line = .ofNat l.number) = [n]
      ∧ Became s b (outline s text) n (point, place) := by
  have nodes := comes.became_of_line linked member
  have alone : ((outline s text).kept.filter (·.1.line.number = l.number)).map (·.1) = [point] := by
    have same : ((outline s text).points.zipIdx.filter (·.1.line.number = l.number)).map (·.1)
        = (outline s text).points.filter (·.line.number = l.number) := by
      conv_rhs => rw [← List.zipIdx_map_fst 0 (outline s text).points, List.filter_map]
      rfl
    rw [Outline.kept, List.filter_filter, ← begins.outline member, ← same]
    refine congrArg _ (List.filter_congr fun x inside => ?_)
    by_cases here : x.1.line.number = l.number
    · have own : x.1 ∈ (outline s text).points.filter (·.line.number = l.number) := by
        rw [← same]
        exact List.mem_map_of_mem (List.mem_filter.2 ⟨inside, decide_eq_true here⟩)
      rw [begins.outline member, List.mem_singleton] at own
      simp [own, stays]
    · simp [here]
  obtain ⟨⟨_, place⟩, only, rfl⟩ := List.map_eq_singleton_iff.1 alone
  rw [only] at nodes
  obtain ⟨n, rest, became, none, whole⟩ := List.forall₂_cons_right_iff.1 nodes
  rw [List.forall₂_nil_right_iff.1 none] at whole
  exact ⟨n, place, whole, became⟩

end Graph

/-! ### Complaints of a line -/

theorem Builder.after_diagnostics (b : Builder) :
    Builder.after b.diagnostics { b with diagnostics := [] } = b := by
  rw [Builder.after, List.append_nil]

/-- What was found wrong is still among the diagnostics after more lines. -/
theorem Reaches.notes {s : Settings} {q r : Reader} (reaches : Reaches s q r)
    {d : Diagnostic} (found : d ∈ q.builder.diagnostics) : d ∈ r.builder.diagnostics := by
  refine reaches.keeps (d ∈ ·.diagnostics) (fun {b c number raw rest} found read => ?_) found
  -- reading does the same on a draft without diagnostics, and adds to those that are there
  have after := Builder.readLine_after b.diagnostics { b with diagnostics := [] } s number raw rest
  rw [b.after_diagnostics, read] at after
  obtain ⟨c', _, grown⟩ := after.ok_right
  rw [grown]
  exact List.mem_append_left _ found

theorem finish_notes (b : Builder) (lastLine : Nat) {d : Diagnostic} (found : d ∈ b.diagnostics) :
    d ∈ (b.finish lastLine).diagnostics := by
  have after := Builder.finish_after b.diagnostics { b with diagnostics := [] } lastLine
  rw [b.after_diagnostics] at after
  rw [after]
  exact List.mem_append_left _ found

/-- A compilation has all that was found wrong while the script was read. -/
theorem compile_read {s : Settings} {name text : String} {c : Compilation}
    (compiled : compile s name text = .ok c) :
    ∃ b, Builder.readScript s (Text.lines text.toList) = .ok b
      ∧ b.diagnostics <+: c.diagnostics := by
  obtain ⟨b, read, rest⟩ := bind_eq_ok.1 compiled
  refine ⟨b, read, ?_⟩
  dsimp only at rest
  split at rest
  · cases rest
    exact List.prefix_append _ _
  · obtain ⟨⟨g, warnings⟩, _, equal⟩ := bind_eq_ok.1 rest
    cases equal
    rw [List.append_assoc]
    exact List.prefix_append _ _

/-- What a line of the body complains of wherever it stands is among the diagnostics. -/
theorem complaint_of_line {s : Settings} {name text : String} {c : Compilation}
    (compiled : compile s name text = .ok c) {l : Line} (member : l ∈ bodyLines s text)
    {d : Diagnostic} (complains : ∀ (b c : Builder) rest, b.readBodyLine s l rest = .ok c →
      d ∈ c.diagnostics) : d ∈ c.diagnostics := by
  obtain ⟨b, read, kept⟩ := compile_read compiled
  obtain ⟨last, lines, done⟩ := bind_eq_ok.1 read
  cases done
  have reaches := reaches_of_readLines lines
  obtain ⟨raw, there, _⟩ := scan_of_mem_bodyFrom member
  have bound := (List.getElem?_eq_some_iff.1 there).1
  have before : l.number < 1 + (Text.lines text.toList).length := by omega
  obtain ⟨_, _, rest, after, _, body, _, later⟩ := reaches.at_line member before
  have found := later.notes (complains _ after rest body)
  exact kept.subset (finish_notes last _ found)

end Script

end Colloquy
