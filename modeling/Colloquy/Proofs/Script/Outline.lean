import Colloquy.Proofs.Script.Contents
/-!
# Outlines

What the lines of a script come to, told by the lines alone. Each line that begins something gets a
place, in source order: what is said or done, a list of options, a block. An option is entered at the
place of its list, a branch at the place of its block, and a block that offers options at the place of
the list that it belongs to. A block that closes gets a last branch of its own unless it has an else
branch or belongs to a list. A line that nothing can come of is refused with a message.
-/

namespace Colloquy.Script

/-! ### Kinds of lines -/

/-- Whether a line says or does something. -/
def Line.isStep (l : Line) : Bool :=
  match Statement.read l.body with
  | .speech .. | .bare _ | .assign .. | .event .. => true
  | _ => false

/-- Whether a line begins a block. -/
def Line.isOpening (l : Line) : Bool :=
  match Statement.read l.body with
  | .openIf _ => true
  | _ => false

/-- Whether a line is the else branch of a block. -/
def Line.isElse (l : Line) : Bool :=
  match Statement.read l.body with
  | .otherwise => true
  | _ => false

/-- Whether a line is a further branch of a block. -/
def Line.isFurther (l : Line) : Bool :=
  match Statement.read l.body with
  | .elseIf _ | .otherwise => true
  | _ => false

/-- The condition that a text is. One that is faulty never holds. -/
def conditionOf (text : String) : Expression :=
  match readExpression text with
  | .ok (.ok e) => e
  | _ => Expression.never

/-- The condition of the branch that a line begins. That of an else branch always holds. -/
def Line.guard (l : Line) : Expression :=
  match Statement.read l.body with
  | .openIf text | .elseIf text => conditionOf text
  | _ => Expression.always

/-! ### Outlines -/

namespace Outline

/-- A point of an outline, which is what a line begins. -/
inductive Point where
  | speech (l : Line) (speaker text : String)
  | assign (l : Line) (name : String) (e : Expression)
  | event (l : Line) (name : String) (args : List Expression)
  | goto (l : Line) (name : String)
  | list (l : Line)
  | block (l : Line)
  deriving DecidableEq

/-- The line of a point. -/
def Point.line : Point → Line
  | .speech l .. | .assign l .. | .event l .. | .goto l .. | .list l | .block l => l

/-- The kind of node that a point becomes. -/
def Point.kind : Point → NodeKind
  | .speech .. => .text
  | .assign .. => .setVariable
  | .event .. => .event
  | .goto .. => .goto
  | .list _ => .choice
  | .block _ => .select

/-- What is entered at the place of a list or of a block: an option, a branch, the branch of a block
that has no else branch, or the place of a block that offers options. -/
inductive Entry where
  | option (l : Line)
  | branch (l : Line)
  | fallback
  | block (place : Nat)
  deriving DecidableEq

/-- A block that is open: its place, the number of its line, whether it belongs to a list, and whether
its else branch has begun. -/
structure Open where
  place : Nat
  line : Nat
  listed : Bool
  hasElse : Bool := false
  deriving DecidableEq

/-- Lines that belong together: they are indented at least by `threshold`, the last thing that they
began has a place, and they may be a branch of a block. -/
structure Layer where
  threshold : Nat
  last : Option Nat := none
  block : Option Open := none
  deriving DecidableEq

end Outline

open Outline in
/-- What lines have come to: what they began, place by place, what was entered where, the layers that
are open, and the lines that were refused. -/
structure Outline where
  points : List Point := []
  entries : List (Nat × Entry) := []
  top : Layer := ⟨0, none, none⟩
  below : List Layer := []
  refused : List (Line × String) := []
  deriving DecidableEq

namespace Outline

/-- What is entered at a place. -/
def entered (o : Outline) (place : Nat) : List Entry :=
  (o.entries.filter (·.1 = place)).map (·.2)

/-- What the innermost layer ends with. -/
def ending (o : Outline) : Option Point :=
  o.top.last.bind (o.points[·]?)

/-- Whether a line was refused. -/
def refuses (o : Outline) (l : Line) : Bool :=
  o.refused.any (·.1 = l)

/-! ### What lines do -/

/-- Begins something. -/
def append (o : Outline) (point : Point) : Outline :=
  { o with points := o.points ++ [point], top := { o.top with last := some o.points.length } }

/-- Enters something at a place. -/
def enter (o : Outline) (place : Nat) (entry : Entry) : Outline :=
  { o with entries := o.entries ++ [(place, entry)] }

/-- Refuses a line. -/
def refuse (o : Outline) (l : Line) (message : String) : Outline :=
  { o with refused := o.refused ++ [(l, message)] }

/-- Begins what a line comes to if it can be read, and refuses it else. -/
def appendRead {α : Type} (o : Outline) (l : Line) (point : α → Point) (fault : String) :
    Except CompileFault (Except String α) → Outline
  | .ok (.ok a) => o.append (point a)
  | .ok (.error message) => o.refuse l (fault ++ message)
  | .error _ => o.refuse l fault

/-- The branch that a block gets when it closes. -/
def closing : Option Open → List (Nat × Entry)
  | some u => if u.listed || u.hasElse then [] else [(u.place, .fallback)]
  | none => []

/-- Leaves the innermost layer, if it is not the outermost. -/
def leave (o : Outline) : Outline :=
  match o.below with
  | [] => o
  | outer :: rest =>
    { o with entries := o.entries ++ closing o.top.block, top := outer, below := rest }

/-- Leaves layers while the innermost has a threshold above `indent`; `fuel` is at least the number of
layers that can be left. -/
def leaveAbove (indent : Nat) : Nat → Outline → Outline
  | 0, o => o
  | fuel + 1, o =>
    if o.below.isEmpty || o.top.threshold ≤ indent then o else leaveAbove indent fuel o.leave

/-- Leaves the layers that a line with an indent does not belong to. -/
def settle (o : Outline) (indent : Nat) : Outline :=
  leaveAbove indent o.below.length o

/-- Leaves all layers but the outermost. -/
def leaveAll : Nat → Outline → Outline
  | 0, o => o
  | fuel + 1, o => if o.below.isEmpty then o else leaveAll fuel o.leave

/-- The list that the innermost layer ends with, if it does: its place and the line that it begins
with. -/
def list? (o : Outline) : Option (Nat × Line) :=
  match o.top.last, o.ending with
  | some place, some (.list l) => some (place, l)
  | _, _ => none

/-- An option joins the list that the layer ends with, or begins one. -/
def option (o : Outline) (l : Line) : Outline :=
  let (o, place) :=
    match o.list? with
    | some (place, _) => (o, place)
    | none => (o.append (.list l), o.points.length)
  { o.enter place (.option l) with top := ⟨l.indent + 1, none, none⟩, below := o.top :: o.below }

/-- Begins a block at the next place and enters its first branch. -/
def openAt (o : Outline) (l : Line) (outer : Layer) (listed : Bool) : Outline :=
  let place := o.points.length
  { o with
    points := o.points ++ [.block l]
    entries := o.entries ++ [(place, .branch l)]
    top := ⟨l.indent, some place, some ⟨place, l.number, listed, false⟩⟩
    below := outer :: o.below }

/-- A block belongs to the list that it follows, unless that is indented more, or else to one that begins
with it if an option is next. -/
def openIf (o : Outline) (l : Line) (isNext : Bool) : Outline :=
  match o.list?.filter (·.2.indent ≤ l.indent), isNext with
  | some (place, _), _ => (o.enter place (.block o.points.length)).openAt l o.top true
  | none, true =>
    let o := o.append (.list l)
    (o.enter (o.points.length - 1) (.block o.points.length)).openAt l o.top true
  | none, false => o.openAt l { o.top with last := some o.points.length } false

/-- A further branch of the innermost block, unless its else branch has begun. -/
def further (o : Outline) (l : Line) (keyword : String) : Outline :=
  match o.top.block with
  | some u =>
    if u.hasElse then
      o.refuse l (keyword ++ " after [else] in the [if] on line " ++ Number.natText u.line)
    else
      { o.enter u.place (.branch l) with
        top := { o.top with last := some u.place, block := some { u with hasElse := l.isElse } } }
  | none => o.refuse l (keyword ++ " without a matching [if]")

/-- The end of the innermost block. -/
def endIf (o : Outline) : Outline :=
  if o.top.block.isSome then o.leave else o

/-- Who says a text without a speaker: the speaker of the line that the layer ends with, if that is
indented no more. -/
def speaker? (o : Outline) (indent : Nat) : Option String :=
  match o.ending with
  | some (.speech l speaker _) => if l.indent ≤ indent then some speaker else none
  | _ => none

/-- A text without a speaker, said by somebody. -/
def bare (o : Outline) (l : Line) (text : String) : Outline :=
  match o.speaker? l.indent with
  | some speaker => o.append (.speech l speaker text)
  | none => o.refuse l ("Text line has no speaker: '" ++ text ++ "'")

/-- The outline after a line; `isNext` tells whether an option is next. -/
def add (o : Outline) (l : Line) (isNext : Bool) : Outline :=
  let o := o.settle l.indent
  match Statement.read l.body with
  | .option _ => o.option l
  | .openIf _ => o.openIf l isNext
  | .elseIf _ => o.further l "[elseif]"
  | .otherwise => o.further l "[else]"
  | .endIf => o.endIf
  | .goto name => o.append (.goto l name)
  | .assign name text =>
    o.appendRead l (.assign l name) ("Bad expression in [set " ++ name ++ "]: ") (readExpression text)
  | .event name text =>
    o.appendRead l (.event l name) ("Bad argument to [event " ++ name ++ "]: ")
      (readArguments ((arguments text.toList).map String.ofList))
  | .speech speaker text => o.append (.speech l speaker text)
  | .bare text => o.bare l text
  | .label _ | .unknown _ => o

end Outline

/-- The lines of the body among lines of which the first has a number, each with whether an option is
next. -/
def bodyAhead (s : Settings) : Bool → Nat → List (List Char) → List (Line × Bool)
  | _, _, [] => []
  | inside, number, raw :: rest =>
    match scan s.tabWidth number raw with
    | .empty => bodyAhead s inside (number + 1) rest
    | .delimiter => bodyAhead s (!inside) (number + 1) rest
    | .line l =>
      if inside then bodyAhead s inside (number + 1) rest
      else (l, optionNext rest) :: bodyAhead s inside (number + 1) rest

/-- An outline after some lines. -/
def Outline.addAll (o : Outline) (ls : List (Line × Bool)) : Outline :=
  ls.foldl (fun o l => o.add l.1 l.2) o

/-- The outline of a script. -/
def outline (s : Settings) (text : String) : Outline :=
  let o := Outline.addAll {} (bodyAhead s false 1 (Text.lines text.toList))
  o.leaveAll o.below.length

theorem bodyAhead_lines {s : Settings} {inside : Bool} {number : Nat} {lines : List (List Char)} :
    (bodyAhead s inside number lines).map (·.1) = bodyFrom s inside number lines := by
  induction lines generalizing inside number with
  | nil => rfl
  | cons raw rest ih =>
    rw [bodyAhead, bodyFrom]
    cases scan s.tabWidth number raw with
    | empty => exact ih
    | delimiter => exact ih
    | line l =>
      cases inside with
      | true => exact ih
      | false => exact congrArg (l :: ·) ih

/-! ### What holds of outlines -/

namespace Outline

/-- Whether what a line began is what the line says. -/
def Point.Genuine : Point → Prop
  | .speech l speaker text =>
    Statement.read l.body = .speech speaker text ∨ Statement.read l.body = .bare text
  | .assign l name e =>
    ∃ text, Statement.read l.body = .assign name text ∧ readExpression text = .ok (.ok e)
  | .event l name args =>
    ∃ text, Statement.read l.body = .event name text
      ∧ readArguments ((arguments text.toList).map String.ofList) = .ok (.ok args)
  | .goto l name => Statement.read l.body = .goto name
  | .list _ => True
  | .block l => l.isOpening = true

/-- Whether something may be entered at the place of a point. -/
def Entry.Suits (points : List Point) : Entry → Point → Prop
  | .option _, .list _ => True
  | .block place, .list _ => ∃ l, points[place]? = some (.block l)
  | .branch _, .block _ | .fallback, .block _ => True
  | _, _ => False

/-- The blocks that are open, the innermost first. -/
def opens (o : Outline) : List Open :=
  (o.top :: o.below).filterMap Layer.block

/-- The block that the outermost layer is a branch of. -/
def ground (o : Outline) : Option Open :=
  (o.top :: o.below).getLast?.bind Layer.block

/-- Whether a block belongs to a list. -/
def lists (o : Outline) (place : Nat) : Bool :=
  o.entries.any (·.2 = .block place)

/-- What is entered at the place of a block: the branches that lines begin, the first of which is that of
its own line, and then `tail`. -/
structure Stands (o : Outline) (place : Nat) (listed hasElse : Bool) (tail : List Entry) : Prop where
  lists : o.lists place = listed
  branches : ∃ l others, o.points[place]? = some (.block l)
    ∧ o.entered place = (l :: others).map Entry.branch ++ tail ∧ others.any Line.isElse = hasElse

/-- Everything is entered where it belongs. A block that is open has the branches that lines began; one
that is closed and has no else branch has one more, unless it belongs to a list. -/
structure Coherent (o : Outline) : Prop where
  genuine : ∀ point ∈ o.points, point.Genuine
  placed : ∀ e ∈ o.entries, ∃ point, o.points[e.1]? = some point ∧ e.2.Suits o.points point
  nested : o.opens.Pairwise fun u v => v.place < u.place
  grounded : o.ground = none
  opened : ∀ u ∈ o.opens, o.Stands u.place u.listed u.hasElse []
  closed : ∀ place l, o.points[place]? = some (.block l) → (∀ u ∈ o.opens, u.place ≠ place) →
    ∃ listed hasElse, o.Stands place listed hasElse (if listed || hasElse then [] else [.fallback])

variable {o c : Outline} {l : Line} {place : Nat}

theorem getElem?_append_of_some {α : Type} {l : List α} {i : Nat} {a : α} (more : List α)
    (there : l[i]? = some a) : (l ++ more)[i]? = some a := by
  rw [List.getElem?_append_left (List.getElem?_eq_some_iff.mp there).1, there]

theorem Entry.Suits.mono {points : List Point} {entry : Entry} {point : Point} (more : List Point)
    (suits : entry.Suits points point) : entry.Suits (points ++ more) point := by
  cases entry with
  | block place =>
    cases point with
    | list =>
      obtain ⟨l, there⟩ := suits
      exact ⟨l, getElem?_append_of_some more there⟩
    | _ => exact suits
  | _ => cases point <;> exact suits

/-- What is entered at a place after more has been entered. -/
theorem entered_of_append {more : List (Nat × Entry)} (entries : c.entries = o.entries ++ more)
    (place : Nat) :
    c.entered place = o.entered place ++ (more.filter (·.1 = place)).map (·.2) := by
  rw [entered, entries, List.filter_append, List.map_append]
  rfl

theorem lists_of_append {more : List (Nat × Entry)} (entries : c.entries = o.entries ++ more)
    (place : Nat) : c.lists place = (o.lists place || more.any (·.2 = .block place)) := by
  rw [lists, entries, List.any_append]
  rfl

theorem leave_of_nil (below : o.below = []) : o.leave = o := by
  rw [leave, below]

theorem leave_of_below {outer : Layer} {rest : List Layer} (below : o.below = outer :: rest) :
    o.leave = { o with entries := o.entries ++ closing o.top.block, top := outer, below := rest } := by
  rw [leave, below]

theorem ground_of_top (below : c.below = o.below) (top : c.top.block = o.top.block) :
    c.ground = o.ground := by
  rw [ground, ground, below]
  cases o.below with
  | nil => exact top
  | cons => rfl

/-- Around the innermost layer there are others, the last of which is the ground. -/
theorem ground_of_below {outer : Layer} {rest : List Layer} (below : o.below = outer :: rest) :
    o.ground = (outer :: rest).getLast?.bind Layer.block := by
  rw [ground, below]
  rfl

theorem opens_of_block {u : Open} (block : o.top.block = some u) :
    o.opens = u :: o.below.filterMap Layer.block := by
  rw [opens, List.filterMap_cons_some block]

/-- What is entered elsewhere leaves a block as it is. -/
theorem Stands.of_append {listed hasElse : Bool} {tail : List Entry}
    (stands : o.Stands place listed hasElse tail) {points : List Point} {more : List (Nat × Entry)}
    (begun : c.points = o.points ++ points) (entries : c.entries = o.entries ++ more)
    (elsewhere : ∀ e ∈ more, e.1 ≠ place ∧ e.2 ≠ .block place) :
    c.Stands place listed hasElse tail := by
  obtain ⟨lists, l, others, there, entered, hasElse⟩ := stands
  refine ⟨?_, l, others, begun ▸ getElem?_append_of_some points there, ?_, hasElse⟩
  · rw [lists_of_append entries, lists, List.any_eq_false.2, Bool.or_false]
    intro e member
    simpa using (elsewhere e member).2
  · rw [entered_of_append entries, List.filter_eq_nil_iff.2, List.map_nil, List.append_nil, entered]
    intro e member
    simpa using (elsewhere e member).1

namespace Coherent

/-- Coherence is about what was begun and entered and about the blocks that are open. -/
theorem of_same (coherent : o.Coherent) (points : c.points = o.points) (entries : c.entries = o.entries)
    (opens : c.opens = o.opens) (ground : c.ground = o.ground) : c.Coherent where
  genuine := points ▸ coherent.genuine
  placed := by
    rw [points, entries]
    exact coherent.placed
  nested := opens ▸ coherent.nested
  grounded := ground.trans coherent.grounded
  opened u member :=
    (coherent.opened u (opens ▸ member)).of_append (points.trans (List.append_nil _).symm)
      (entries.trans (List.append_nil _).symm) nofun
  closed place l there shut := by
    rw [points] at there
    rw [opens] at shut
    obtain ⟨listed, hasElse, stands⟩ := coherent.closed place l there shut
    exact ⟨listed, hasElse, stands.of_append (points.trans (List.append_nil _).symm)
      (entries.trans (List.append_nil _).symm) nofun⟩

theorem start : ({} : Outline).Coherent :=
  ⟨nofun, nofun, .nil, rfl, nofun, nofun⟩

theorem lt_length (coherent : o.Coherent) {e : Nat × Entry} (member : e ∈ o.entries) :
    e.1 < o.points.length := by
  obtain ⟨_, there, _⟩ := coherent.placed e member
  exact (List.getElem?_eq_some_iff.mp there).1

/-- Nothing is entered at the next place. -/
theorem entered_next (coherent : o.Coherent) : o.entered o.points.length = [] := by
  rw [entered, List.filter_eq_nil_iff.2, List.map_nil]
  intro e member
  simpa using Nat.ne_of_lt (coherent.lt_length member)

/-- The next place is in no list. -/
theorem lists_next (coherent : o.Coherent) : o.lists o.points.length = false := by
  refine List.any_eq_false.2 fun e member => ?_
  obtain ⟨point, _, suits⟩ := coherent.placed e member
  intro next
  rw [of_decide_eq_true next] at suits
  cases point with
  | list =>
    obtain ⟨_, there⟩ := suits
    exact Nat.lt_irrefl _ (List.getElem?_eq_some_iff.mp there).1
  | _ => exact suits

theorem isBlock (coherent : o.Coherent) {u : Open} (member : u ∈ o.opens) :
    ∃ l, o.points[u.place]? = some (.block l) := by
  obtain ⟨_, l, _, there, _⟩ := coherent.opened u member
  exact ⟨l, there⟩

/-- A block is never the outermost layer. -/
theorem below_of_block (coherent : o.Coherent) {u : Open} (block : o.top.block = some u) :
    ∃ outer rest, o.below = outer :: rest := by
  cases below : o.below with
  | nil =>
    have grounded := coherent.grounded
    rw [ground, below, List.getLast?_singleton, Option.bind_some, block] at grounded
    cases grounded
  | cons outer rest => exact ⟨outer, rest, rfl⟩

/-- A line begins something that is no block. -/
theorem append {point : Point} (coherent : o.Coherent) (genuine : point.Genuine)
    (other : ∀ l, point ≠ .block l) : (o.append point).Coherent where
  genuine point' member := by
    obtain old | new := List.mem_append.1 member
    · exact coherent.genuine point' old
    · rw [List.mem_singleton.1 new]
      exact genuine
  placed e member := by
    obtain ⟨point', there, suits⟩ := coherent.placed e member
    exact ⟨point', getElem?_append_of_some [point] there, suits.mono [point]⟩
  nested := coherent.nested
  grounded := (ground_of_top (o := o) (c := o.append point) rfl rfl).trans coherent.grounded
  opened u member :=
    (coherent.opened u member).of_append rfl (List.append_nil _).symm nofun
  closed place l there shut := by
    obtain old | ⟨_, new⟩ := getElem?_concat_cases there
    · obtain ⟨listed, hasElse, stands⟩ := coherent.closed place l old shut
      exact ⟨listed, hasElse, stands.of_append rfl (List.append_nil _).symm nofun⟩
    · exact absurd new.symm (other l)

theorem append_list (coherent : o.Coherent) (l : Line) : (o.append (.list l)).Coherent :=
  coherent.append trivial nofun

/-- An option is entered at the place of a list. -/
theorem enter (coherent : o.Coherent) {first : Line} (list : o.points[place]? = some (.list first)) :
    (o.enter place (.option l)).Coherent where
  genuine := coherent.genuine
  placed e member := by
    obtain old | new := List.mem_append.1 member
    · exact coherent.placed e old
    · rw [List.mem_singleton.1 new]
      exact ⟨_, list, trivial⟩
  nested := coherent.nested
  grounded := coherent.grounded
  opened u member := by
    obtain ⟨l', block⟩ := coherent.isBlock member
    refine (coherent.opened u member).of_append (List.append_nil _).symm rfl fun e new => ?_
    rw [List.mem_singleton.1 new]
    refine ⟨?_, nofun⟩
    rintro rfl
    cases list.symm.trans block
  closed place' l' there shut := by
    obtain ⟨listed, hasElse, stands⟩ := coherent.closed place' l' there shut
    refine ⟨listed, hasElse, stands.of_append (List.append_nil _).symm rfl fun e new => ?_⟩
    rw [List.mem_singleton.1 new]
    refine ⟨?_, nofun⟩
    rintro rfl
    cases list.symm.trans there

/-- The block that begins at the next place has the branch of its line. -/
theorem stands_next (coherent : o.Coherent) {more : List (Nat × Entry)}
    (points : c.points = o.points ++ [.block l])
    (entries : c.entries = o.entries ++ (more ++ [(o.points.length, .branch l)]))
    (inList : ∀ e ∈ more,
      e.2 = .block o.points.length ∧ ∃ first, o.points[e.1]? = some (.list first)) :
    c.Stands o.points.length (!more.isEmpty) false [] := by
  refine ⟨?_, l, [], by rw [points]; exact List.getElem?_concat_length, ?_, rfl⟩
  · rw [lists_of_append entries, coherent.lists_next]
    cases more with
    | nil => simp
    | cons e rest => simp [(inList e (List.mem_cons_self ..)).1]
  · have before : more.filter (·.1 = o.points.length) = [] := by
      refine List.filter_eq_nil_iff.2 fun e member => ?_
      obtain ⟨_, first, list⟩ := inList e member
      simpa using Nat.ne_of_lt (List.getElem?_eq_some_iff.mp list).1
    rw [entered_of_append entries, coherent.entered_next, List.filter_append, before]
    simp

/-- A block is begun at the next place. If it belongs to a list, it is entered there. -/
theorem openAt (coherent : o.Coherent) (more : List (Nat × Entry)) (opening : l.isOpening = true)
    (outer : Layer) (layers : outer.block = o.top.block)
    (inList : ∀ e ∈ more,
      e.2 = .block o.points.length ∧ ∃ first, o.points[e.1]? = some (.list first)) :
    ({ o with entries := o.entries ++ more }.openAt l outer (!more.isEmpty)).Coherent := by
  have opens : ({ o with entries := o.entries ++ more }.openAt l outer (!more.isEmpty)).opens
      = ⟨o.points.length, l.number, !more.isEmpty, false⟩ :: o.opens := by
    simp only [Outline.opens, Outline.openAt, List.filterMap_cons, layers]
  have entries : ({ o with entries := o.entries ++ more }.openAt l outer (!more.isEmpty)).entries
      = o.entries ++ (more ++ [(o.points.length, .branch l)]) :=
    List.append_assoc ..
  have here : (o.points ++ [Point.block l])[o.points.length]? = some (.block l) :=
    List.getElem?_concat_length
  -- blocks that were there before are neither in the list nor at the next place
  have elsewhere {place : Nat} {l' : Line} (block : o.points[place]? = some (.block l')) :
      ∀ e ∈ more ++ [(o.points.length, Entry.branch l)], e.1 ≠ place ∧ e.2 ≠ .block place := by
    have bound := (List.getElem?_eq_some_iff.mp block).1
    intro e member
    obtain old | new := List.mem_append.1 member
    · obtain ⟨next, first, list⟩ := inList e old
      refine ⟨fun same => ?_, fun same => ?_⟩
      · cases (same ▸ list).symm.trans block
      · exact Nat.ne_of_gt bound (Entry.block.inj (next.symm.trans same))
    · rw [List.mem_singleton.1 new]
      exact ⟨Nat.ne_of_gt bound, nofun⟩
  refine ⟨fun point member => ?_, fun e member => ?_, ?_, ?_, fun u member => ?_,
    fun place l' there shut => ?_⟩
  · obtain old | new := List.mem_append.1 member
    · exact coherent.genuine point old
    · rw [List.mem_singleton.1 new]
      exact opening
  · rw [entries] at member
    obtain old | new := List.mem_append.1 member
    · obtain ⟨point, there, suits⟩ := coherent.placed e old
      exact ⟨point, getElem?_append_of_some _ there, suits.mono _⟩
    · obtain way | own := List.mem_append.1 new
      · obtain ⟨next, first, list⟩ := inList e way
        exact ⟨_, getElem?_append_of_some _ list, next ▸ ⟨l, here⟩⟩
      · rw [List.mem_singleton.1 own]
        exact ⟨_, here, trivial⟩
  · rw [opens]
    refine .cons (fun u member => ?_) coherent.nested
    obtain ⟨_, block⟩ := coherent.isBlock member
    exact (List.getElem?_eq_some_iff.mp block).1
  · exact (ground_of_top (o := o) (c := { o with top := outer }) rfl layers).trans coherent.grounded
  · rw [opens] at member
    obtain rfl | old := List.mem_cons.1 member
    · exact coherent.stands_next rfl entries inList
    · obtain ⟨_, block⟩ := coherent.isBlock old
      exact (coherent.opened u old).of_append rfl entries (elsewhere block)
  · rw [opens] at shut
    obtain old | ⟨rfl, _⟩ := getElem?_concat_cases there
    · obtain ⟨listed', hasElse, stands⟩ :=
        coherent.closed place l' old fun u member => shut u (List.mem_cons_of_mem _ member)
      exact ⟨listed', hasElse, stands.of_append rfl entries (elsewhere old)⟩
    · exact absurd rfl (shut _ (List.mem_cons_self ..))

/-- The innermost block gets branches, and it stays open or is closed with them. The blocks around it and
those that are closed have no part in that. -/
theorem innermost (coherent : o.Coherent) {u : Open} {outer : List Open} (opens : o.opens = u :: outer)
    {more : List (Nat × Entry)} (points : c.points = o.points) (entries : c.entries = o.entries ++ more)
    (branches : ∀ e ∈ more, e.1 = u.place ∧ ∀ l, e.2.Suits o.points (.block l))
    (nested : c.opens.Pairwise fun u v => v.place < u.place) (grounded : c.ground = none)
    (opened : ∀ v ∈ c.opens, v ∈ outer ∨ c.Stands v.place v.listed v.hasElse [])
    (closed : ∀ place, (∀ v ∈ c.opens, v.place ≠ place) →
      (u.place ≠ place ∧ ∀ v ∈ outer, v.place ≠ place) ∨ ∃ listed hasElse,
        c.Stands place listed hasElse (if listed || hasElse then [] else [.fallback])) :
    c.Coherent := by
  obtain ⟨l', block⟩ := coherent.isBlock (u := u) (opens ▸ List.mem_cons_self ..)
  have inside := (List.pairwise_cons.1 (opens ▸ coherent.nested)).1
  have same := points.trans (List.append_nil _).symm
  -- the new branches are of the innermost block and nowhere else
  have elsewhere {place : Nat} (apart : u.place ≠ place) :
      ∀ e ∈ more, e.1 ≠ place ∧ e.2 ≠ .block place := fun e new => by
    obtain ⟨here, suits⟩ := branches e new
    refine ⟨here ▸ apart, fun inList => ?_⟩
    rw [inList] at suits
    exact suits l'
  refine ⟨points ▸ coherent.genuine, fun e member => ?_, nested, grounded, fun v member => ?_,
    fun place l there shut => ?_⟩
  · rw [entries] at member
    rw [points]
    obtain old | new := List.mem_append.1 member
    · exact coherent.placed e old
    · obtain ⟨here, suits⟩ := branches e new
      exact ⟨_, here ▸ block, suits l'⟩
  · obtain around | stands := opened v member
    · exact (coherent.opened v (opens ▸ List.mem_cons_of_mem u around)).of_append same entries
        (elsewhere (Nat.ne_of_gt (inside v around)))
    · exact stands
  · obtain ⟨apart, around⟩ | stands := closed place shut
    · have before : ∀ v ∈ o.opens, v.place ≠ place := by
        rw [opens]
        exact List.forall_mem_cons.2 ⟨apart, around⟩
      obtain ⟨listed, hasElse, stands⟩ := coherent.closed place l (points ▸ there) before
      exact ⟨listed, hasElse, stands.of_append same entries (elsewhere apart)⟩
    · exact stands

/-- A further branch of the block that is open. -/
theorem further (coherent : o.Coherent) (keyword : String) : (o.further l keyword).Coherent := by
  unfold Outline.further
  split
  next u block =>
    split
    · exact coherent.of_same rfl rfl rfl rfl
    next only =>
      have opens := opens_of_block block
      obtain ⟨outer, rest, below⟩ := coherent.below_of_block block
      have nested := coherent.nested
      rw [opens, List.pairwise_cons] at nested
      have grounded := (ground_of_below below).symm.trans coherent.grounded
      refine coherent.innermost opens rfl rfl (fun e new => ?_) (List.pairwise_cons.2 nested)
        (.trans (ground_of_below below) grounded)
        (fun v member => ?_) fun place shut => .inl (List.forall_mem_cons.1 shut)
      · rw [List.mem_singleton.1 new]
        exact ⟨rfl, fun _ => trivial⟩
      · obtain rfl | around := List.mem_cons.1 member
        · obtain ⟨lists, first, others, there, entered, noElse⟩ :=
            coherent.opened u (opens ▸ List.mem_cons_self ..)
          refine .inr ⟨?_, first, others ++ [l], there, ?_, ?_⟩
          · rw [lists_of_append rfl, lists]
            simp
          · rw [entered_of_append rfl, entered]
            simp
          · rw [List.any_append, noElse, Bool.eq_false_iff.2 only]
            simp
        · exact .inl around
  · exact coherent.of_same rfl rfl rfl rfl

/-- A layer is left. If it was a block, that is closed. -/
theorem leave (coherent : o.Coherent) : o.leave.Coherent := by
  unfold Outline.leave
  split
  · exact coherent
  next outer rest below =>
    have grounded := (ground_of_below below).symm.trans coherent.grounded
    cases block : o.top.block with
    | none =>
      refine coherent.of_same rfl (List.append_nil _) ?_ (grounded.trans coherent.grounded.symm)
      rw [Outline.opens, Outline.opens, List.filterMap_cons_none block, below]
    | some u =>
      have opens := opens_of_block block
      rw [below] at opens
      have nested := coherent.nested
      rw [opens, List.pairwise_cons] at nested
      -- all that is entered is the fallback of a block without an else branch
      have only : ∀ e ∈ closing (some u), e = (u.place, Entry.fallback) := by
        unfold closing
        dsimp only
        split <;> simp
      refine coherent.innermost opens rfl rfl (fun e new => ?_) nested.2 grounded
        (fun v member => .inl member) fun place shut => ?_
      · rw [only e new]
        exact ⟨rfl, fun _ => trivial⟩
      · by_cases same : u.place = place
        · subst same
          obtain ⟨lists, first, others, there, entered, hasElse⟩ :=
            coherent.opened u (opens ▸ List.mem_cons_self ..)
          refine .inr ⟨u.listed, u.hasElse, ?_, first, others, there, ?_, hasElse⟩
          · rw [lists_of_append rfl, lists, List.any_eq_false.2, Bool.or_false]
            intro e new
            rw [only e new]
            simp
          · rw [entered_of_append rfl, entered, List.append_nil, closing]
            split <;> simp
        · exact .inl ⟨same, shut⟩

theorem settle (coherent : o.Coherent) (indent : Nat) : (o.settle indent).Coherent := by
  unfold Outline.settle
  generalize o.below.length = fuel
  induction fuel generalizing o with
  | zero => exact coherent
  | succ fuel ih =>
    rw [leaveAbove]
    split
    · exact coherent
    · exact ih coherent.leave

theorem leaveAll (coherent : o.Coherent) (fuel : Nat) : (o.leaveAll fuel).Coherent := by
  induction fuel generalizing o with
  | zero => exact coherent
  | succ fuel ih =>
    rw [Outline.leaveAll]
    split
    · exact coherent
    · exact ih coherent.leave

end Coherent

theorem list?_eq_some {first : Line} (list : o.list? = some (place, first)) :
    o.top.last = some place ∧ o.points[place]? = some (.list first) := by
  unfold list? at list
  split at list
  next last ends =>
    cases list
    rw [ending, last] at ends
    exact ⟨last, ends⟩
  · cases list

namespace Coherent

theorem option (coherent : o.Coherent) (l : Line) : (o.option l).Coherent := by
  unfold Outline.option
  cases list : o.list? with
  | some found => exact (coherent.enter (list?_eq_some list).2).of_same rfl rfl rfl rfl
  | none =>
    have begun := coherent.append_list l
    exact (begun.enter List.getElem?_concat_length).of_same rfl rfl rfl rfl

theorem openIf (coherent : o.Coherent) (opening : l.isOpening = true) (isNext : Bool) :
    (o.openIf l isNext).Coherent := by
  unfold Outline.openIf
  split
  next followed =>
    have list := (Option.filter_eq_some_iff.1 followed).1
    refine coherent.openAt [(_, .block o.points.length)] opening o.top rfl fun e member => ?_
    rw [List.mem_singleton.1 member]
    exact ⟨rfl, _, (list?_eq_some list).2⟩
  · have begun := coherent.append_list l
    refine begun.openAt [_] opening _ rfl fun e member => ?_
    rw [List.mem_singleton.1 member]
    exact ⟨rfl, l, by simp [Outline.append]⟩
  · have opened := coherent.openAt [] opening { o.top with last := some o.points.length } rfl nofun
    rw [List.append_nil] at opened
    exact opened

theorem endIf (coherent : o.Coherent) : o.endIf.Coherent := by
  unfold Outline.endIf
  split
  · exact coherent.leave
  · exact coherent

theorem refuse (coherent : o.Coherent) (l : Line) (message : String) : (o.refuse l message).Coherent :=
  coherent.of_same rfl rfl rfl rfl

theorem appendRead {α : Type} {point : α → Point} {fault : String}
    {result : Except CompileFault (Except String α)} (coherent : o.Coherent)
    (genuine : ∀ a, result = .ok (.ok a) → (point a).Genuine) (other : ∀ a l, point a ≠ .block l) :
    (o.appendRead l point fault result).Coherent := by
  unfold Outline.appendRead
  split
  next a => exact coherent.append (genuine a rfl) (other a)
  · exact coherent.refuse ..
  · exact coherent.refuse ..

theorem bare (coherent : o.Coherent) {text : String}
    (statement : Statement.read l.body = .bare text) : (o.bare l text).Coherent := by
  unfold Outline.bare
  split
  · exact coherent.append (.inr statement) nofun
  · exact coherent.refuse ..

theorem add (coherent : o.Coherent) (l : Line) (isNext : Bool) : (o.add l isNext).Coherent := by
  have settled := coherent.settle l.indent
  unfold Outline.add
  dsimp only
  cases statement : Statement.read l.body with
  | option => exact settled.option l
  | openIf => exact settled.openIf (by simp [Line.isOpening, statement]) isNext
  | elseIf => exact settled.further _
  | otherwise => exact settled.further _
  | endIf => exact settled.endIf
  | label => exact settled
  | goto => exact settled.append statement nofun
  | assign _ text => exact settled.appendRead (fun _ read => ⟨text, statement, read⟩) nofun
  | event _ text => exact settled.appendRead (fun _ read => ⟨text, statement, read⟩) nofun
  | speech => exact settled.append (.inl statement) nofun
  | bare => exact settled.bare statement
  | unknown => exact settled

theorem addAll (coherent : o.Coherent) (ls : List (Line × Bool)) : (o.addAll ls).Coherent := by
  induction ls generalizing o with
  | nil => exact coherent
  | cons l rest ih => exact ih (coherent.add l.1 l.2)

end Coherent

end Outline

theorem outline_coherent (s : Settings) (text : String) : (outline s text).Coherent :=
  (Outline.Coherent.start.addAll _).leaveAll _

end Colloquy.Script
