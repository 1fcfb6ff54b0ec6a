import Colloquy.Proofs.Script.Passage
import Colloquy.Proofs.Script.Tended
/-!
# How searches come about

An edge that waits is left to a search only when the option that it waits in ends, or the script, and
it ends the dialogue only when a block closes that is chained to a choice. So whatever a script holds,
each edge without a target has been there, open, in a draft on the way through the script, when a
frame closed that it waited in.
-/

namespace Colloquy.Script

/-! ### Drafts on the way -/

/-- Whether reading comes to a line of the body with a draft. -/
def ComesTo (s : Settings) (lines : List (List Char)) (b : Builder) (l : Line) : Prop :=
  ∃ raw rest, Reaches s ⟨{}, 1, lines⟩ ⟨b, l.number, raw :: rest⟩
    ∧ b.headerState.inside = false ∧ scan s.tabWidth l.number raw = .line l

/-- The draft at the end of the script, before its frames close. -/
def Builder.ending (b : Builder) (lastLine : Nat) : Builder :=
  if b.headerState.inside then
    b.note (.complain lastLine "Header block is never closed with '==='")
  else b

/-- The drafts on the way through a script of which the innermost frame closes next: it has a
threshold above the indent of a line, as the frames that the line has closed already, or it is the
block that an `[endif]` ends, or the script has ended. -/
inductive Closing (s : Settings) (lines : List (List Char)) : Builder → Prop where
  | line {b : Builder} {l : Line} (comes : ComesTo s lines b l) (fuel : Nat)
    (above : l.indent < (Builder.popAbove l.number l.indent fuel b).top.threshold) :
    Closing s lines (Builder.popAbove l.number l.indent fuel b)
  | endIf {b : Builder} {l : Line} (comes : ComesTo s lines b l)
    (reads : Statement.read l.body = .endIf) : Closing s lines (b.settle l.number l.indent)
  | ended {b : Builder} {number : Nat} (reaches : Reaches s ⟨{}, 1, lines⟩ ⟨b, number, []⟩)
    (fuel : Nat) : Closing s lines (Builder.popAll lines.length fuel (b.ending lines.length))

/-- The choice whose option is the innermost one that is open. -/
def ownerOf (nodes : List Draft) : List Frame → Option Draft
  | f :: outer :: rest =>
    match f.kind with
    | .option => outer.last.bind (nodes[·]?)
    | _ => ownerOf nodes (outer :: rest)
  | _ => none

/-- The choice whose option the innermost frame of a draft is in, if it is in any. -/
def Builder.owner? (b : Builder) : Option Draft :=
  ownerOf b.nodes b.stack

/-- A frame reaches as far as the choice is indented whose option it is in. -/
theorem Seated.reach_eq {nodes : List Draft} {f : Frame} {rest : List Frame}
    (seated : Seated nodes (f :: rest)) :
    f.reach = (ownerOf nodes (f :: rest)).elim 0 (·.indent) := by
  generalize frames : f :: rest = all at seated ⊢
  induction seated generalizing f rest with
  | root _ _ none _ =>
    cases frames
    exact none
  | @inner g _ _ _ seated _ ih =>
    cases frames
    cases kind : g.kind with
    | root => exact absurd kind seated.inner
    | option =>
      obtain ⟨choice, d, last, there, _, reach⟩ := seated.option kind
      simp only [ownerOf, kind, last, Option.bind_some, there, Option.elim_some]
      exact reach
    | block block =>
      simp only [ownerOf, kind]
      exact (seated.block block kind).1.trans (ih rfl)

theorem Builder.Orderly.reach_eq {b : Builder} (orderly : b.Orderly) :
    b.top.reach = b.owner?.elim 0 (·.indent) :=
  orderly.frames.reach_eq

/-! ### Edges that do not wait any more -/

/-- Whether an edge neither waits nor leads to a node. -/
def DraftEdge.GivenUp (e : DraftEdge) : Prop :=
  e.destination = .end ∨ ∃ start, e.destination = .search start

/-- Whether no edge has been given up. -/
def Spares (a b : List Draft) : Prop :=
  ∀ r e, edgeAt b r = some e → e.GivenUp → edgeAt a r = some e

namespace Spares

variable {a b c : List Draft}

theorem refl (nodes : List Draft) : Spares nodes nodes :=
  fun _ _ there _ => there

theorem trans (first : Spares a b) (second : Spares b c) : Spares a c :=
  fun r e there givenUp => first r e (second r e there givenUp) givenUp

theorem attach (nodes : List Draft) (i : Nat) {edge : DraftEdge} (kept : ¬ edge.GivenUp) :
    Spares nodes (attach nodes i edge) := by
  intro r e there givenUp
  obtain old | ⟨_, rfl⟩ := edgeAt_attach_some there
  · exact old
  · exact absurd givenUp kept

theorem append (b : Builder) {d : Draft} (connect : Bool) (bare : d.edges = []) :
    Spares b.nodes (b.append d connect).nodes := by
  intro r e there givenUp
  obtain rfl | ⟨e₀, before, rfl⟩ := Builder.append_edges bare there
  · obtain wrong | ⟨_, wrong⟩ := givenUp <;> cases wrong
  · split at givenUp
    · obtain wrong | ⟨_, wrong⟩ := givenUp <;> cases wrong
    next known =>
      rw [if_neg known]
      exact before

end Spares

theorem not_givenUp_open {e : DraftEdge} (isOpen : e.destination = .open) : ¬ e.GivenUp := by
  rintro (wrong | ⟨_, wrong⟩) <;> cases isOpen.symm.trans wrong

/-! ### New nodes -/

/-- Whether the nodes that are new come of a line and have been put where a reach and a path say. -/
def Lays (line reach : Nat) (path : List Branch) (a b : List Draft) : Prop :=
  ∀ i d, b[i]? = some d → (∃ d₀, a[i]? = some d₀ ∧ d.core = d₀.core)
    ∨ a.length ≤ i ∧ d.line = line ∧ d.reach = reach ∧ d.path = path

namespace Lays

variable {line reach : Nat} {path : List Branch} {a b c : List Draft}

theorem of_extends {held : Nat → Prop} {loose : EdgeRef → Prop} (grown : Extends held loose a b)
    (count : b.length = a.length) : Lays line reach path a b := by
  intro i d there
  have bound : i < a.length := count ▸ (List.getElem?_eq_some_iff.mp there).1
  have before := List.getElem?_eq_getElem bound
  obtain ⟨d', now, core, _⟩ := grown.node before
  cases there.symm.trans now
  exact .inl ⟨_, before, core⟩

theorem trans (first : Lays line reach path a b) (second : Lays line reach path b c)
    (grown : a.length ≤ b.length) : Lays line reach path a c := by
  intro i d there
  obtain ⟨d₁, between, core⟩ | ⟨late, new⟩ := second i d there
  · obtain ⟨d₀, before, same⟩ | ⟨late, new⟩ := first i d₁ between
    · exact .inl ⟨d₀, before, core.trans same⟩
    · refine .inr ⟨late, ?_⟩
      rw [Draft.line_eq_of_core core, Draft.reach_eq_of_core core, Draft.path_eq_of_core core]
      exact new
  · exact .inr ⟨grown.trans late, new⟩

theorem attach (nodes : List Draft) (i : Nat) (edge : DraftEdge) :
    Lays line reach path nodes (attach nodes i edge) :=
  of_extends (Extends.attach nodes i edge) (attach_length nodes i edge)

theorem append (b : Builder) (d : Draft) (connect : Bool) :
    Lays d.line b.top.reach b.path b.nodes (b.append d connect).nodes := by
  intro i d' there
  have bound := (List.getElem?_eq_some_iff.mp there).1
  rw [Builder.append_length] at bound
  obtain old | rfl := Nat.lt_succ_iff_lt_or_eq.mp bound
  · have added : Extends (fun _ => False) (fun _ => False) b.nodes (b.extended d) :=
      Extends.append b.nodes _
    have grown := (added.mono (fun _ => False.elim) fun _ => False.elim).trans
      (Builder.append_extends b d connect)
    have before := List.getElem?_eq_getElem old
    obtain ⟨d'', now, core, _⟩ := grown.node before
    cases there.symm.trans now
    exact .inl ⟨_, before, core⟩
  · obtain ⟨d'', now, core⟩ := Builder.append_getElem?_length b d connect
    cases there.symm.trans now
    have line := congrArg Draft.line core
    have reach := congrArg Draft.reach core
    have path := congrArg Draft.path core
    exact .inr ⟨Nat.le_refl _, line, reach, path⟩

end Lays

namespace Builder

variable {b c : Builder} {l : Line}

theorem path_append (b : Builder) (d : Draft) (connect : Bool) :
    (b.append d connect).path = b.path :=
  branchesOf_kind (f := b.top) (g := (b.append d connect).top) rfl b.below

theorem release_lays (b : Builder) (line reach : Nat) (path : List Branch) :
    Lays line reach path b.nodes b.release.nodes :=
  .of_extends (Extends.foldl_aim (.search b.nodes.length) b.looseEdges b.nodes)
    (foldl_aim_length _ _ _)

theorem option_lays (b : Builder) (line indent : Nat) (text textId : String) :
    Lays line b.top.reach b.path b.nodes (b.option line indent text textId).nodes := by
  obtain ⟨choice, last⟩ := atChoice_last b line indent
  rw [option_eq text textId last]
  have first : Lays line b.top.reach b.path b.nodes (b.atChoice line indent).nodes
      ∧ b.nodes.length ≤ (b.atChoice line indent).nodes.length := by
    unfold atChoice
    split
    · exact ⟨release_lays b _ _ _, Nat.le_of_eq (foldl_aim_length _ _ _).symm⟩
    · exact ⟨.append b ⟨.choice, line, indent, [], 0, []⟩ true, by simp⟩
  exact first.1.trans (.attach _ _ _) first.2

theorem openIf_lays (b : Builder) (line indent : Nat) (condition : Expression)
    (optionNext : Bool) :
    Lays line b.top.reach b.path b.nodes (b.openIf line indent condition optionNext).nodes := by
  cases chained : b.follows indent || optionNext with
  | true =>
    obtain ⟨choice, last⟩ := atHead_last (b := b) line indent
    rw [openIf_chained condition chained last]
    have head : Lays line b.top.reach b.path b.nodes (b.atHead line indent).nodes
        ∧ b.nodes.length ≤ (b.atHead line indent).nodes.length
        ∧ (b.atHead line indent).top.reach = b.top.reach
        ∧ (b.atHead line indent).path = b.path := by
      unfold atHead
      split
      · exact ⟨.of_extends (Extends.refl (fun _ => False) (fun _ => False) _) rfl, Nat.le_refl _,
          rfl, rfl⟩
      · exact ⟨.append b ⟨.choice, line, indent, [], 0, []⟩ true, by simp, rfl, path_append ..⟩
    generalize b.atHead line indent = h at head
    obtain ⟨first, more, reach, path⟩ := head
    have added : Lays line b.top.reach b.path h.release.nodes
        (h.release.append ⟨.select, line, indent, [], 0, []⟩ false).nodes := by
      rw [← reach, ← path]
      exact .append h.release ⟨.select, line, indent, [], 0, []⟩ false
    have count : h.release.nodes.length = h.nodes.length := foldl_aim_length _ _ _
    have select := (first.trans (release_lays h _ _ _) more).trans added (count ▸ more)
    have grown : b.nodes.length
        ≤ (h.release.append ⟨.select, line, indent, [], 0, []⟩ false).nodes.length := by
      rw [append_length, count]
      exact Nat.le_succ_of_le more
    exact (select.trans (.attach _ choice (chainEdge h.nodes.length line)) grown).trans
      (.attach _ _ _) (by rw [attach_length]; exact grown)
  | false =>
    simp only [Bool.or_eq_false_iff] at chained
    rw [chained.2, openIf_unchained condition chained.1]
    exact (Lays.append b ⟨.select, line, indent, [], 0, []⟩ true).trans (.attach _ _ _)
      (by rw [append_length]; exact Nat.le_succ _)

theorem closeBlock_lays (b : Builder) (block : Block) (outer : Frame) (rest : List Frame)
    (line reach : Nat) (path : List Branch) :
    Lays line reach path b.nodes (b.closeBlock block outer rest).nodes := by
  cases chained : block.chained with
  | true =>
    rw [closeBlock_chained b outer rest chained]
    exact .of_extends (Extends.foldl_aim .end _ b.nodes) (foldl_aim_length _ _ _)
  | false =>
    cases hasElse : block.hasElse with
    | true =>
      rw [closeBlock_complete b outer rest chained hasElse]
      exact .of_extends (Extends.refl (fun _ => False) (fun _ => False) _) rfl
    | false =>
      rw [closeBlock_partial b outer rest chained hasElse]
      exact .attach _ _ _

/-- The nodes that a line makes are put where the innermost frame is that it leaves open. -/
theorem acts_lays (acts : Acts l b c) : Lays l.number b.top.reach b.path b.nodes c.nodes := by
  induction acts with
  | @nothing b c same =>
    rw [same.nodes]
    exact .of_extends (Extends.refl (fun _ => False) (fun _ => False) _) rfl
  | noted _ _ ih => exact ih
  | @append b d _ _ line =>
    rw [← line]
    exact .append b d true
  | option b text => exact option_lays b _ _ _ _
  | openIf b condition next => exact openIf_lays b _ _ _ _
  | addBranch b condition keyword =>
    have same : Lays l.number b.top.reach b.path b.nodes b.nodes :=
      .of_extends (Extends.refl (fun _ => False) (fun _ => False) _) rfl
    cases kind : b.top.kind with
    | block block =>
      cases more : block.hasElse with
      | true =>
        simp only [addBranch, kind, more, if_true]
        exact same
      | false =>
        rw [addBranch_eq l.number condition keyword kind more]
        exact .attach _ _ _
    | _ =>
      simp only [addBranch, kind]
      exact same
  | endIf b _ =>
    unfold endIf
    split
    next block outer rest _ _ => exact closeBlock_lays b block outer rest _ _ _
    · exact .of_extends (Extends.refl (fun _ => False) (fun _ => False) _) rfl

/-! ### What a line gives up -/

theorem option_spares (tended : b.Tended) (line indent : Nat) (text textId : String) :
    Spares b.nodes (b.option line indent text textId).nodes := by
  obtain ⟨choice, last⟩ := atChoice_last b line indent
  rw [option_eq text textId last]
  have first : Spares b.nodes (b.atChoice line indent).nodes := by
    unfold atChoice
    split
    next joined =>
      rw [Tended.release_nodes (tended.edges_of_joined joined)]
      exact .refl _
    · exact .append b true rfl
  exact first.trans (.attach _ _ (not_givenUp_open rfl))

theorem openIf_spares (tended : b.Tended) (line indent : Nat) (condition : Expression)
    (optionNext : Bool) : Spares b.nodes (b.openIf line indent condition optionNext).nodes := by
  cases chained : b.follows indent || optionNext with
  | true =>
    obtain ⟨choice, last⟩ := atHead_last (b := b) line indent
    rw [openIf_chained condition chained last]
    have first : Spares b.nodes (b.atHead line indent).nodes := by
      unfold atHead
      split
      · exact .refl _
      · exact .append b true rfl
    have none : (b.atHead line indent).looseEdges = [] := tended.atHead_edges last
    generalize b.atHead line indent = h at first none
    have added := Spares.append h.release (d := ⟨.select, line, indent, [], 0, []⟩) false rfl
    rw [Tended.release_nodes none] at added
    have way : ¬ (chainEdge h.nodes.length line).GivenUp := by
      rintro (wrong | ⟨_, wrong⟩) <;> cases wrong
    exact ((first.trans added).trans (.attach _ choice way)).trans
      (.attach _ _ (not_givenUp_open rfl))
  | false =>
    simp only [Bool.or_eq_false_iff] at chained
    rw [chained.2, openIf_unchained condition chained.1]
    exact (Spares.append b true rfl).trans (.attach _ _ (not_givenUp_open rfl))

/-- Once a line has closed the frames that it closes, only an `[endif]` can give up edges. -/
theorem acts_spares (tended : b.Tended) (acts : Acts l b c) :
    Spares b.nodes c.nodes ∨ Statement.read l.body = .endIf ∧ ∃ x block outer rest,
      b.SameBody x ∧ x.top.kind = .block block ∧ c = x.closeBlock block outer rest := by
  induction acts with
  | @nothing b c same =>
    rw [same.nodes]
    exact .inl (.refl _)
  | @noted b c d _ ih =>
    obtain spares | ⟨reads, x, block, outer, rest, same, closes⟩ := ih (tended.note d)
    · exact .inl spares
    · exact .inr ⟨reads, x, block, outer, rest, (note_sameBody b d).trans same, closes⟩
  | append b _ bare _ => exact .inl (.append b true bare)
  | option b text => exact .inl (option_spares tended _ _ _ _)
  | openIf b condition next => exact .inl (openIf_spares tended _ _ _ _)
  | addBranch b condition keyword =>
    left
    cases kind : b.top.kind with
    | block block =>
      cases more : block.hasElse with
      | true =>
        simp only [addBranch, kind, more, if_true]
        exact .refl _
      | false =>
        rw [addBranch_eq l.number condition keyword kind more]
        exact .attach _ _ (not_givenUp_open rfl)
    | _ =>
      simp only [addBranch, kind]
      exact .refl _
  | endIf b reads =>
    unfold endIf
    split
    next block outer rest kind _ =>
      exact .inr ⟨reads, b, block, outer, rest, .refl b, kind, rfl⟩
    · exact .inl (.refl _)

end Builder

end Colloquy.Script
