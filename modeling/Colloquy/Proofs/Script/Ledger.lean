import Colloquy.Proofs.Script.Outline
import Mathlib.Data.List.Nodup
/-!
# What outlines account for

An outline has every line of the body in its place, and just once: what the lines say or do and the
blocks that they begin in source order, and the options and branches that they are as they were entered.
Only lines that were refused are left out. At the end no block is open, so the branches of each block are
all there: those of its lines, and one more if it has no else branch and belongs to no list.
-/

namespace Colloquy.Script

/-- What has keys is found by its keys, place by place. -/
theorem perm_flatMap_filterMap {α β : Type} (key : α → Nat) {f : α → Option β} {places : List Nat}
    (xs : List α) (distinct : places.Nodup) (covered : ∀ x ∈ xs, f x ≠ none → key x ∈ places) :
    (places.flatMap fun k => (xs.filter (key · = k)).filterMap f).Perm (xs.filterMap f) := by
  induction xs with
  | nil => simp
  | cons x rest ih =>
    have later := ih fun x' member => covered x' (List.mem_cons_of_mem x member)
    cases picked : f x with
    | none =>
      have same (k : Nat) : ((x :: rest).filter (key · = k)).filterMap f
          = (rest.filter (key · = k)).filterMap f := by
        rw [List.filter_cons]
        split
        · rw [List.filterMap_cons_none picked]
        · rfl
      rw [List.filterMap_cons_none picked]
      simpa only [same] using later
    | some y =>
      -- it is found at its own place and at no other
      obtain ⟨before, after, rfl⟩ :=
        List.append_of_mem (covered x (List.mem_cons_self ..) (by rw [picked]; exact nofun))
      have other {k : Nat} (apart : k ≠ key x) : ((x :: rest).filter (key · = k)).filterMap f
          = (rest.filter (key · = k)).filterMap f := by
        rw [List.filter_cons_of_neg (by simpa using apart.symm)]
      have here : ((x :: rest).filter (key · = key x)).filterMap f
          = y :: (rest.filter (key · = key x)).filterMap f := by
        rw [List.filter_cons_of_pos (by simp), List.filterMap_cons_some picked]
      have outside : key x ∉ before ++ after :=
        (List.nodup_cons.1 (List.nodup_middle.1 distinct)).1
      have left := List.flatMap_congr fun k (member : k ∈ before) =>
        other fun same => outside (List.mem_append_left after (same ▸ member))
      have right := List.flatMap_congr fun k (member : k ∈ after) =>
        other fun same => outside (List.mem_append_right before (same ▸ member))
      rw [List.filterMap_cons_some picked, List.flatMap_append, List.flatMap_cons, here, left, right,
        List.cons_append]
      rw [List.flatMap_append, List.flatMap_cons] at later
      exact List.perm_middle.trans (later.cons y)

namespace Outline

/-- The line that a point says or does. -/
def Point.step? : Point → Option Line
  | .speech l .. | .assign l .. | .event l .. => some l
  | _ => none

/-- The line that a block begins with. -/
def Point.opening? : Point → Option Line
  | .block l => some l
  | _ => none

/-- The line of an option. -/
def Entry.option? : Entry → Option Line
  | .option l => some l
  | _ => none

/-- The line of a branch. -/
def Entry.branch? : Entry → Option Line
  | .branch l => some l
  | _ => none

/-- What an outline has of some lines. -/
structure Accounts (o : Outline) (ls : List Line) : Prop where
  steps : o.points.filterMap Point.step? = ls.filter fun l => l.isStep && !o.refuses l
  openings : o.points.filterMap Point.opening? = ls.filter Line.isOpening
  options : o.entries.filterMap (·.2.option?) = ls.filter Line.isOption
  branches : o.entries.filterMap (·.2.branch?)
    = ls.filter fun l => l.isOpening || (l.isFurther && !o.refuses l)
  refused : ∀ r ∈ o.refused, r.1 ∈ ls ∧ (r.1.isStep || r.1.isFurther) = true

/-- `c` is `o` with what comes of a line: it is begun or entered, or refused. -/
structure Gains (o c : Outline) (l : Line) (points : List Point) (entries : List (Nat × Entry))
    (refused : List (Line × String)) : Prop where
  samePoints : c.points = o.points ++ points
  sameEntries : c.entries = o.entries ++ entries
  sameRefused : c.refused = o.refused ++ refused
  steps : points.filterMap Point.step? = [l].filter fun l => l.isStep && refused.isEmpty
  openings : points.filterMap Point.opening? = [l].filter Line.isOpening
  options : entries.filterMap (·.2.option?) = [l].filter Line.isOption
  branches : entries.filterMap (·.2.branch?)
    = [l].filter fun l => l.isOpening || (l.isFurther && refused.isEmpty)
  refused : ∀ r ∈ refused, r.1 = l ∧ (l.isStep || l.isFurther) = true

variable {o c : Outline} {l : Line} {ls : List Line}

namespace Accounts

theorem start : ({} : Outline).Accounts [] :=
  ⟨rfl, rfl, rfl, rfl, nofun⟩

theorem not_refuses (accounts : o.Accounts ls) (new : l ∉ ls) : o.refuses l = false := by
  refine List.any_eq_false.2 fun r member same => new ?_
  rw [← of_decide_eq_true same]
  exact (accounts.refused r member).1

/-- The outline after a line has that as well. -/
theorem gains (accounts : o.Accounts ls) (new : l ∉ ls) {points : List Point}
    {entries : List (Nat × Entry)} {refused : List (Line × String)}
    (gains : Gains o c l points entries refused) : c.Accounts (ls ++ [l]) := by
  have refuses (l' : Line) : c.refuses l' = (o.refuses l' || refused.any (·.1 = l')) := by
    rw [Outline.refuses, gains.sameRefused, List.any_append]
    rfl
  have before {l' : Line} (member : l' ∈ ls) : c.refuses l' = o.refuses l' := by
    rw [refuses, List.any_eq_false.2, Bool.or_false]
    intro r inside same
    refine new ?_
    rw [← (gains.refused r inside).1, of_decide_eq_true same]
    exact member
  have now : (!c.refuses l) = refused.isEmpty := by
    rw [refuses, accounts.not_refuses new, Bool.false_or]
    cases refused with
    | nil => rfl
    | cons r rest => simp [(gains.refused r (List.mem_cons_self ..)).1]
  refine ⟨?_, ?_, ?_, ?_, fun r member => ?_⟩
  · rw [gains.samePoints, List.filterMap_append, accounts.steps, gains.steps, List.filter_append]
    refine congrArg₂ _ (List.filter_congr fun l' member => ?_) (List.filter_congr fun l' member => ?_)
    · rw [before member]
    · rw [List.mem_singleton.1 member, now]
  · rw [gains.samePoints, List.filterMap_append, accounts.openings, gains.openings, List.filter_append]
  · rw [gains.sameEntries, List.filterMap_append, accounts.options, gains.options, List.filter_append]
  · rw [gains.sameEntries, List.filterMap_append, accounts.branches, gains.branches,
      List.filter_append]
    refine congrArg₂ _ (List.filter_congr fun l' member => ?_) (List.filter_congr fun l' member => ?_)
    · rw [before member]
    · rw [List.mem_singleton.1 member, now]
  · rw [gains.sameRefused] at member
    obtain old | fresh := List.mem_append.1 member
    · obtain ⟨inside, kind⟩ := accounts.refused r old
      exact ⟨List.mem_append_left _ inside, kind⟩
    · obtain ⟨same, kind⟩ := gains.refused r fresh
      rw [same]
      exact ⟨List.mem_append_right _ (List.mem_singleton_self l), kind⟩

/-- What a block gets when it closes is no line. -/
theorem leave (accounts : o.Accounts ls) : o.leave.Accounts ls := by
  unfold Outline.leave
  split
  · exact accounts
  · have noOption : (closing o.top.block).filterMap (·.2.option?) = [] := by
      unfold closing
      repeat' split
      all_goals rfl
    have noBranch : (closing o.top.block).filterMap (·.2.branch?) = [] := by
      unfold closing
      repeat' split
      all_goals rfl
    refine ⟨accounts.steps, accounts.openings, ?_, ?_, accounts.refused⟩
    · rw [List.filterMap_append, noOption, List.append_nil, accounts.options]
    · rw [List.filterMap_append, noBranch, List.append_nil, accounts.branches]
      rfl

theorem settle (accounts : o.Accounts ls) (indent : Nat) : (o.settle indent).Accounts ls := by
  unfold Outline.settle
  generalize o.below.length = fuel
  induction fuel generalizing o with
  | zero => exact accounts
  | succ fuel ih =>
    rw [leaveAbove]
    split
    · exact accounts
    · exact ih accounts.leave

theorem leaveAll (accounts : o.Accounts ls) (fuel : Nat) : (o.leaveAll fuel).Accounts ls := by
  induction fuel generalizing o with
  | zero => exact accounts
  | succ fuel ih =>
    rw [Outline.leaveAll]
    split
    · exact accounts
    · exact ih accounts.leave

end Accounts

/-! ### What comes of a line -/

/-- Whether a line is a step, begins a block, is an option, or is a further branch. -/
structure IsKind (l : Line) (step opening option further : Bool) : Prop where
  step : l.isStep = step
  opening : l.isOpening = opening
  option : l.isOption = option
  further : l.isFurther = further

theorem refuse_gains (message : String) {step further : Bool} (kind : IsKind l step false false further)
    (refusable : (step || further) = true) :
    Gains o (o.refuse l message) l [] [] [(l, message)] := by
  refine ⟨(List.append_nil _).symm, (List.append_nil _).symm, rfl, ?_, ?_, ?_, ?_, fun r member => ?_⟩
  · simp
  · simp [kind.opening]
  · simp [kind.option]
  · simp [kind.opening]
  · rw [List.mem_singleton.1 member, kind.step, kind.further]
    exact ⟨rfl, refusable⟩

theorem append_gains {point : Point} (said : point.step? = some l) (noBlock : point.opening? = none)
    (kind : IsKind l true false false false) : Gains o (o.append point) l [point] [] [] := by
  refine ⟨rfl, (List.append_nil _).symm, (List.append_nil _).symm, ?_, ?_, ?_, ?_, nofun⟩
  · simp [said, kind.step]
  · simp [noBlock, kind.opening]
  · simp [kind.option]
  · simp [kind.opening, kind.further]

/-- What is entered of an option, at the place of a list that may have begun with it. -/
theorem option_gains (kind : IsKind l false false true false) :
    ∃ points entries, Gains o (o.option l) l points entries [] := by
  have entered {c : Outline} {place : Nat} {points : List Point}
      (begun : c.points = o.points ++ points) (entries : c.entries = o.entries ++ [(place, .option l)])
      (refused : c.refused = o.refused) (lists : ∀ point ∈ points, point = .list l) :
      Gains o c l points [(place, .option l)] [] := by
    refine ⟨begun, entries, refused.trans (List.append_nil _).symm, ?_, ?_, ?_, ?_, nofun⟩
    · rw [List.filterMap_eq_nil_iff.2 fun point member => by rw [lists point member]; rfl]
      simp [kind.step]
    · rw [List.filterMap_eq_nil_iff.2 fun point member => by rw [lists point member]; rfl]
      simp [kind.opening]
    · simp [kind.option, Entry.option?]
    · simp [kind.opening, kind.further, Entry.branch?]
  unfold Outline.option
  cases list : o.list? with
  | some found => exact ⟨[], _, entered (List.append_nil _).symm rfl rfl nofun⟩
  | none => exact ⟨[.list l], _, entered rfl rfl rfl fun _ member => List.mem_singleton.1 member⟩

/-- What is begun and entered of a block. -/
theorem openIf_gains (isNext : Bool) (kind : IsKind l false true false false) :
    ∃ points entries, Gains o (o.openIf l isNext) l points entries [] := by
  -- lists and blocks that are made on the way count for nothing that the line comes to
  have begun {c : Outline} {place : Nat} (points : List Point) (entries : List (Nat × Entry))
      (begun : c.points = o.points ++ (points ++ [.block l]))
      (same : c.entries = o.entries ++ (entries ++ [(place, .branch l)]))
      (refused : c.refused = o.refused) (lists : ∀ point ∈ points, point = .list l)
      (blocks : ∀ e ∈ entries, ∃ i, e.2 = .block i) :
      Gains o c l (points ++ [.block l]) (entries ++ [(place, .branch l)]) [] := by
    refine ⟨begun, same, refused.trans (List.append_nil _).symm, ?_, ?_, ?_, ?_, nofun⟩
    · rw [List.filterMap_append,
        List.filterMap_eq_nil_iff.2 fun point member => by rw [lists point member]; rfl]
      simp [kind.step, Point.step?]
    · rw [List.filterMap_append,
        List.filterMap_eq_nil_iff.2 fun point member => by rw [lists point member]; rfl]
      simp [kind.opening, Point.opening?]
    · rw [List.filterMap_append, List.filterMap_eq_nil_iff.2 fun e member => by
        obtain ⟨i, block⟩ := blocks e member
        rw [block]
        rfl]
      simp [kind.option, Entry.option?]
    · rw [List.filterMap_append, List.filterMap_eq_nil_iff.2 fun e member => by
        obtain ⟨i, block⟩ := blocks e member
        rw [block]
        rfl]
      simp [kind.opening, Entry.branch?]
  unfold Outline.openIf
  split
  · refine ⟨_, _, begun [] [_] rfl (List.append_assoc ..) rfl nofun ?_⟩
    rintro _ (_ | ⟨_, ⟨⟩⟩)
    exact ⟨_, rfl⟩
  · refine ⟨_, _, begun [.list l] [_] (List.append_assoc ..)
      (List.append_assoc ..) rfl (fun _ member => List.mem_singleton.1 member) ?_⟩
    rintro _ (_ | ⟨_, ⟨⟩⟩)
    exact ⟨_, rfl⟩
  · exact ⟨_, _, begun [] [] rfl rfl rfl nofun nofun⟩

theorem further_gains (keyword : String) (kind : IsKind l false false false true) :
    ∃ entries refused, Gains o (o.further l keyword) l [] entries refused := by
  unfold Outline.further
  split
  · split
    · exact ⟨_, _, refuse_gains _ kind rfl⟩
    · refine ⟨_, _, (List.append_nil _).symm, rfl, (List.append_nil _).symm, ?_, ?_, ?_, ?_, nofun⟩
      · simp [kind.step]
      · simp [kind.opening]
      · simp [kind.option, Entry.option?]
      · simp [kind.further, Entry.branch?]
  · exact ⟨_, _, refuse_gains _ kind rfl⟩

/-- A line of which nothing is to be accounted for. -/
theorem idle_gains {points : List Point} (begun : c.points = o.points ++ points)
    (entries : c.entries = o.entries) (refused : c.refused = o.refused)
    (silent : ∀ point ∈ points, point.step? = none ∧ point.opening? = none)
    (kind : IsKind l false false false false) : Gains o c l points [] [] := by
  refine ⟨begun, entries.trans (List.append_nil _).symm, refused.trans (List.append_nil _).symm,
    ?_, ?_, ?_, ?_, nofun⟩
  · rw [List.filterMap_eq_nil_iff.2 fun point member => (silent point member).1]
    simp [kind.step]
  · rw [List.filterMap_eq_nil_iff.2 fun point member => (silent point member).2]
    simp [kind.opening]
  · simp [kind.option]
  · simp [kind.opening, kind.further]

theorem bare_gains (text : String) (kind : IsKind l true false false false) :
    ∃ points refused, Gains o (o.bare l text) l points [] refused := by
  unfold Outline.bare
  split
  · exact ⟨_, _, append_gains rfl rfl kind⟩
  · exact ⟨_, _, refuse_gains _ kind rfl⟩

theorem appendRead_gains {α : Type} (point : α → Point) (fault : String)
    (result : Except CompileFault (Except String α)) (said : ∀ a, (point a).step? = some l)
    (noBlock : ∀ a, (point a).opening? = none) (kind : IsKind l true false false false) :
    ∃ points refused, Gains o (o.appendRead l point fault result) l points [] refused := by
  unfold Outline.appendRead
  split
  next a => exact ⟨_, _, append_gains (said a) (noBlock a) kind⟩
  · exact ⟨_, _, refuse_gains _ kind rfl⟩
  · exact ⟨_, _, refuse_gains _ kind rfl⟩

namespace Accounts

/-- What the lines up to one came to and what the line comes to are all there is to account for. -/
theorem add (accounts : o.Accounts ls) (new : l ∉ ls) (isNext : Bool) :
    (o.add l isNext).Accounts (ls ++ [l]) := by
  replace accounts := accounts.settle l.indent
  have kind : IsKind l l.isStep l.isOpening l.isOption l.isFurther := ⟨rfl, rfl, rfl, rfl⟩
  unfold Line.isStep Line.isOpening Line.isOption Line.isFurther at kind
  unfold Outline.add
  dsimp only
  generalize o.settle l.indent = o at accounts
  cases statement : Statement.read l.body with
  | option =>
    rw [statement] at kind
    obtain ⟨_, _, gains⟩ := option_gains kind
    exact accounts.gains new gains
  | openIf =>
    rw [statement] at kind
    obtain ⟨_, _, gains⟩ := openIf_gains isNext kind
    exact accounts.gains new gains
  | elseIf | otherwise =>
    rw [statement] at kind
    obtain ⟨_, _, gains⟩ := further_gains _ kind
    exact accounts.gains new gains
  | endIf =>
    rw [statement] at kind
    have left : o.endIf.Accounts ls := by
      unfold Outline.endIf
      split
      · exact accounts.leave
      · exact accounts
    exact left.gains new (idle_gains (List.append_nil _).symm rfl rfl nofun kind)
  | label | unknown =>
    rw [statement] at kind
    exact accounts.gains new (idle_gains (List.append_nil _).symm rfl rfl nofun kind)
  | goto =>
    rw [statement] at kind
    refine accounts.gains new (idle_gains rfl rfl rfl (fun point member => ?_) kind)
    rw [List.mem_singleton.1 member]
    exact ⟨rfl, rfl⟩
  | assign name =>
    rw [statement] at kind
    obtain ⟨_, _, gains⟩ :=
      appendRead_gains (.assign l name) _ _ (fun _ => rfl) (fun _ => rfl) kind
    exact accounts.gains new gains
  | event name =>
    rw [statement] at kind
    obtain ⟨_, _, gains⟩ :=
      appendRead_gains (.event l name) _ _ (fun _ => rfl) (fun _ => rfl) kind
    exact accounts.gains new gains
  | speech =>
    rw [statement] at kind
    exact accounts.gains new (append_gains rfl rfl kind)
  | bare =>
    rw [statement] at kind
    obtain ⟨_, _, gains⟩ := bare_gains _ kind
    exact accounts.gains new gains

theorem addAll (accounts : o.Accounts ls) {more : List (Line × Bool)}
    (distinct : (ls ++ more.map (·.1)).Nodup) : (o.addAll more).Accounts (ls ++ more.map (·.1)) := by
  induction more generalizing o ls with
  | nil =>
    rw [List.map_nil, List.append_nil]
    exact accounts
  | cons l rest ih =>
    have split : ls ++ (l :: rest).map (·.1) = ls ++ [l.1] ++ rest.map (·.1) := by simp
    rw [split] at distinct ⊢
    refine ih (accounts.add (fun member => ?_) l.2) distinct
    have apart := (List.nodup_append.1 (List.nodup_append.1 distinct).1).2.2
    exact apart l.1 member l.1 (List.mem_singleton_self _) rfl

end Accounts

end Outline

/-- The outline of a script has every line of its body that was not refused. -/
theorem outline_accounts (s : Settings) (text : String) :
    (outline s text).Accounts (bodyLines s text) := by
  have distinct : (bodyLines s text).Nodup := by
    refine List.Pairwise.imp ?_ bodyFrom_sorted
    rintro l _ before rfl
    exact Nat.lt_irrefl _ before
  rw [bodyLines, ← bodyAhead_lines] at distinct ⊢
  exact (Outline.Accounts.start.addAll distinct).leaveAll _

/-! ### Places of an outline -/

namespace Outline

/-- The points that stay in the graph, each with its place: all but the gotos. -/
def kept (o : Outline) : List (Point × Nat) :=
  o.points.zipIdx.filter (·.1.kind ≠ .goto)

/-- The points of a kind, each with its place. -/
def places (o : Outline) (kind : NodeKind) : List (Point × Nat) :=
  o.points.zipIdx.filter (·.1.kind = kind)

section Places

variable {o : Outline} {kind : NodeKind} {x : Point × Nat}

theorem mem_places : x ∈ o.places kind ↔ o.points[x.2]? = some x.1 ∧ x.1.kind = kind := by
  rw [places, List.mem_filter, List.mem_iff_getElem?, decide_eq_true_eq]
  refine and_congr_left fun _ => ⟨?_, fun there => ⟨x.2, ?_⟩⟩
  · rintro ⟨i, there⟩
    rw [List.getElem?_zipIdx, Option.map_eq_some_iff] at there
    obtain ⟨point, there, rfl⟩ := there
    simpa using there
  · rw [List.getElem?_zipIdx, there]
    simp

theorem mem_entered {place : Nat} {entry : Entry} :
    entry ∈ o.entered place ↔ (place, entry) ∈ o.entries := by
  simp [entered]

/-- A block belongs to a list if it is entered in one. -/
theorem lists_iff {k : Nat} : o.lists k = true ↔ ∃ place, Entry.block k ∈ o.entered place := by
  simp [lists, mem_entered]

theorem kept_places (o : Outline) (other : kind ≠ .goto) :
    o.kept.filter (·.1.kind = kind) = o.places kind := by
  rw [kept, places, List.filter_filter]
  refine List.filter_congr fun x _ => ?_
  by_cases here : x.1.kind = kind
  · simp [here, other]
  · simp [here]

/-- What is picked from the points of a sort is picked from all, if nothing is picked from the others. -/
theorem filterMap_points (o : Outline) (sort : Point → Bool) {f : Point → Option Line}
    (within : ∀ point, sort point = false → f point = none) :
    (o.points.zipIdx.filter (sort ·.1)).filterMap (f ·.1) = o.points.filterMap f := by
  conv_rhs => rw [← List.zipIdx_map_fst 0 o.points, List.filterMap_map]
  rw [List.filterMap_filter]
  refine List.filterMap_congr fun x _ => ?_
  rw [Function.comp_apply]
  cases here : sort x.1 with
  | true => rfl
  | false => rw [within x.1 here, if_neg Bool.false_ne_true]

/-- The kind of the points at whose places an entry may be. -/
def Entry.host : Entry → NodeKind
  | .option _ | .block _ => .choice
  | .branch _ | .fallback => .select

theorem Entry.Suits.host {points : List Point} {entry : Entry} {point : Point}
    (suits : entry.Suits points point) : point.kind = entry.host := by
  cases entry with
  | option | block =>
    cases point with
    | list => rfl
    | _ => exact suits.elim
  | branch | fallback =>
    cases point with
    | block => rfl
    | _ => exact suits.elim

/-- What is entered at places of a kind, place by place, is all that is entered and suits no other. -/
theorem entered_perm {f : Entry → Option Line} (kind : NodeKind) (coherent : o.Coherent)
    (within : ∀ entry, f entry ≠ none → entry.host = kind) :
    ((o.places kind).flatMap fun x => (o.entered x.2).filterMap f).Perm
      (o.entries.filterMap (f ·.2)) := by
  have distinct : ((o.places kind).map (·.2)).Nodup := by
    have all : (o.points.zipIdx.map (·.2)).Nodup := by
      rw [List.zipIdx_map_snd]
      exact List.nodup_range'
    exact all.sublist (List.filter_sublist.map _)
  have found := perm_flatMap_filterMap Prod.fst (f := fun e : Nat × Entry => f e.2) o.entries
    distinct fun e member picked => by
      obtain ⟨point, there, suits⟩ := coherent.placed e member
      exact List.mem_map.2 ⟨(point, e.1), mem_places.2 ⟨there, suits.host.trans (within _ picked)⟩, rfl⟩
  rw [List.flatMap_map] at found
  refine .trans (.of_eq (List.flatMap_congr fun x _ => ?_)) found
  rw [entered, List.filterMap_map]
  rfl

end Places

end Outline

/-! ### Blocks of an outline -/

/-- A block: the line that it begins with, the lines of its further branches, and whether it belongs to
a list. -/
structure Conditional where
  opening : Line
  others : List Line
  listed : Bool
  deriving DecidableEq

namespace Conditional

/-- The lines of the branches of a block. -/
def lines (c : Conditional) : List Line :=
  c.opening :: c.others

/-- The conditions of the branches of a block. One without an else branch has one more branch, which is
taken if no other is, unless the block belongs to a list. -/
def guards (c : Conditional) : List Expression :=
  c.lines.map Line.guard ++ if c.listed || c.others.any Line.isElse then [] else [Expression.always]

end Conditional

namespace Outline

/-- The block at a place. -/
def conditional (o : Outline) (x : Point × Nat) : Conditional :=
  ⟨x.1.line, ((o.entered x.2).filterMap Entry.branch?).tail, o.lists x.2⟩

/-- The blocks of an outline. -/
def conditionals (o : Outline) : List Conditional :=
  (o.places .select).map o.conditional

/-- The condition of the branch that an entry is. -/
def Entry.guard? : Entry → Option Expression
  | .branch l => some l.guard
  | .fallback => some Expression.always
  | _ => none

theorem leaveAll_below {o : Outline} {fuel : Nat} (enough : o.below.length ≤ fuel) :
    (o.leaveAll fuel).below = [] := by
  induction fuel generalizing o with
  | zero => exact List.length_eq_zero_iff.1 (Nat.le_zero.1 enough)
  | succ fuel ih =>
    rw [leaveAll]
    cases below : o.below with
    | nil => simpa using below
    | cons outer rest =>
      rw [if_neg (by simp), leave_of_below below]
      rw [below, List.length_cons] at enough
      exact ih (Nat.le_of_succ_le_succ enough)

end Outline

/-- At the end of a script no block is open. -/
theorem outline_opens (s : Settings) (text : String) : (outline s text).opens = [] := by
  have below : (outline s text).below = [] := Outline.leaveAll_below (Nat.le_refl _)
  have grounded := (outline_coherent s text).grounded
  rw [Outline.ground, below, List.getLast?_singleton, Option.bind_some] at grounded
  rw [Outline.opens, below, List.filterMap_cons_none grounded]
  rfl

section Blocks

open Outline (Point Entry)

variable {s : Settings} {text : String} {x : Point × Nat}

theorem branches_of_lines (ls : List Line) : (ls.map Entry.branch).filterMap Entry.branch? = ls := by
  rw [List.filterMap_map]
  exact List.filterMap_some

theorem guards_of_lines (ls : List Line) :
    (ls.map Entry.branch).filterMap Entry.guard? = ls.map Line.guard := by
  rw [List.filterMap_map]
  exact congrFun (List.filterMap_eq_map (f := Line.guard)) ls

/-- What is entered at the place of a block are its branches. -/
theorem entered_block (block : x ∈ (outline s text).places .select) :
    ((outline s text).entered x.2).filterMap Entry.branch? = ((outline s text).conditional x).lines
      ∧ ((outline s text).entered x.2).filterMap Entry.guard?
        = ((outline s text).conditional x).guards := by
  obtain ⟨there, kind⟩ := Outline.mem_places.1 block
  obtain ⟨l, own⟩ : ∃ l, x.1 = .block l := by
    cases point : x.1 with
    | block l => exact ⟨l, rfl⟩
    | _ =>
      rw [point] at kind
      cases kind
  rw [own] at there
  obtain ⟨listed, hasElse, stands⟩ := (outline_coherent s text).closed x.2 l there fun u opened => by
    rw [outline_opens] at opened
    cases opened
  obtain ⟨l', others, there', entered, elses⟩ := stands.branches
  cases there.symm.trans there'
  have branches : ((outline s text).entered x.2).filterMap Entry.branch? = l :: others := by
    rw [entered, List.filterMap_append, branches_of_lines]
    split <;> simp [Entry.branch?]
  have same : (outline s text).conditional x = ⟨l, others, listed⟩ := by
    rw [Outline.conditional, branches, own, stands.lists]
    rfl
  refine ⟨by rw [branches, same]; rfl, ?_⟩
  rw [same, entered, List.filterMap_append, guards_of_lines, Conditional.guards, elses]
  split <;> rfl

/-- The blocks of a script begin with its lines that begin blocks. -/
theorem outline_openings (s : Settings) (text : String) :
    (outline s text).conditionals.map Conditional.opening
      = (bodyLines s text).filter Line.isOpening := by
  have blocks := (outline s text).filterMap_points (f := Outline.Point.opening?)
    (fun point => point.kind = .select) fun point other => by
      cases point with
      | block => cases other
      | _ => rfl
  rw [← (outline_accounts s text).openings, ← blocks, Outline.conditionals, List.map_map,
    ← List.filterMap_eq_map]
  refine List.filterMap_congr fun x block => ?_
  obtain ⟨point, place⟩ := x
  cases point with
  | block => rfl
  | _ => cases (Outline.mem_places.1 block).2

/-- The branches of the blocks of a script are its lines that are branches, but for those refused. -/
theorem outline_branches (s : Settings) (text : String) :
    ((outline s text).conditionals.flatMap Conditional.lines).Perm
      ((bodyLines s text).filter fun l =>
        l.isOpening || (l.isFurther && !(outline s text).refuses l)) := by
  rw [← (outline_accounts s text).branches, Outline.conditionals, List.flatMap_map]
  have perm := Outline.entered_perm (f := Entry.branch?) .select (outline_coherent s text)
    fun entry picked => by
      cases entry with
      | branch => rfl
      | _ => exact absurd rfl picked
  refine .trans (.of_eq (List.flatMap_congr fun x block => ?_)) perm
  exact (entered_block block).1.symm

end Blocks

end Colloquy.Script
