import Colloquy.Proofs.Script.Gotos
import Colloquy.Proofs.Script.Searches
import Colloquy.Proofs.Script.WellFormed
/-!
# Edges that lead nowhere

No loose end is lost while a script is read. An edge of a graph without a target has led to a goto
that leads to the end; or it waited until the option that it was in closed, or the script ended, and
no later node is one that it may go on at; or it was the edge of a branch when a block closed that is
chained to a choice. This holds at every point of reading, so blocks that are not well formed lose
none either.
-/

namespace Colloquy.Script

/-! ### What is known of edges -/

section Known

variable (s : Settings) (lines : List (List Char))

/-- Whether an edge of a draft does not know where it leads. -/
def OpenIn (nodes : List Draft) (r : EdgeRef) : Prop :=
  ∃ e, edgeAt nodes r = some e ∧ e.destination = .open

/-- Whether an edge has been left to a search, from `start` on, when the frame closed that it waited
in: an option of a choice, or the frame of the whole script, in the option of no choice. -/
def LeftToSearch (r : EdgeRef) (start : Nat) (owner : Option Draft) : Prop :=
  ∃ m, Closing s lines m ∧ (∀ block, m.top.kind ≠ .block block) ∧ r ∈ m.looseEdges
    ∧ OpenIn m.nodes r ∧ m.nodes.length = start ∧ m.owner? = owner

/-- Whether an edge has been open in a chained block when that closed. -/
def EndedByBlock (r : EdgeRef) : Prop :=
  ∃ m block, Closing s lines m ∧ m.top.kind = .block block ∧ block.chained = true
    ∧ (r ∈ block.looseEdges ∨ r ∈ m.looseEdges) ∧ OpenIn m.nodes r

/-- Whether a node has been put into the option of a choice, or of none, and into branches by the
line that it comes of: where the innermost frame is that the line leaves open. -/
def PutInto (i : Nat) (d : Draft) (owner : Option Draft) : Prop :=
  ∃ b l, ComesTo s lines b l ∧ d.line = l.number ∧ (b.settle l.number l.indent).nodes.length ≤ i
    ∧ (b.settle l.number l.indent).owner? = owner ∧ (b.settle l.number l.indent).path = d.path

/-- The indent that a search asks for less than: that of the choice whose option the loose end is
in. -/
def reachOf (owner : Option Draft) : Nat :=
  owner.elim 0 (·.indent)

/-- Whether it is known of all edges that have been given up how they came to be so, and of all nodes
where they have been put. -/
structure Explained (nodes : List Draft) : Prop where
  searches : ∀ r e start, edgeAt nodes r = some e → e.destination = .search start →
    e.Ties ∧ ∃ owner, LeftToSearch s lines r start owner ∧ e.reach = reachOf owner
  ends : ∀ r e, edgeAt nodes r = some e → e.destination = .end →
    e.kind = .condition ∧ EndedByBlock s lines r
  places : ∀ i d, nodes[i]? = some d →
    ∃ owner, PutInto s lines i d owner ∧ d.reach = reachOf owner

end Known

namespace Builder

/-- What closing a block does to the nodes depends on nodes, frames and loose ends alone. -/
theorem closeBlock_nodes_same {m x : Builder} (same : m.SameBody x) (block : Block) (outer : Frame)
    (rest : List Frame) :
    (x.closeBlock block outer rest).nodes = (m.closeBlock block outer rest).nodes := by
  obtain ⟨top, _⟩ : x.top = m.top ∧ x.below = m.below := List.cons.inj same.stack
  cases chained : block.chained with
  | true =>
    simp [closeBlock_chained, chained, closedBlock, same.nodes, same.looseEdges]
  | false =>
    cases hasElse : block.hasElse with
    | true => simp [closeBlock_complete, chained, hasElse, same.nodes]
    | false =>
      simp [closeBlock_partial, chained, hasElse, same.nodes, fallbackEdge, top]

/-- Closing one frame more is closing one after the others. -/
theorem pops_succ {pops : Nat → Builder → Builder} {stops : Builder → Bool} {line : Nat}
    (zero : ∀ b, pops 0 b = b)
    (succ : ∀ fuel b, pops (fuel + 1) b = if stops b then b else pops fuel (b.pop line))
    (fuel : Nat) (b : Builder) :
    pops (fuel + 1) b = if stops (pops fuel b) then pops fuel b else (pops fuel b).pop line := by
  induction fuel generalizing b with
  | zero => rw [succ, zero, zero]
  | succ fuel ih =>
    rw [succ]
    cases stopped : stops b with
    | true => simp [succ fuel b, stopped]
    | false => simpa [succ fuel b, stopped] using ih (b.pop line)

/-- In the end only the outermost frame is open. -/
theorem popAll_below (line fuel : Nat) (b : Builder) (enough : b.below.length ≤ fuel) :
    (popAll line fuel b).below = [] := by
  induction fuel generalizing b with
  | zero => exact List.length_eq_zero_iff.mp (Nat.le_zero.mp enough)
  | succ fuel ih =>
    rw [popAll]
    split
    next none => exact List.isEmpty_iff.mp none
    next more =>
      obtain ⟨outer, rest, below⟩ := List.exists_cons_of_ne_nil (mt List.isEmpty_iff.mpr more)
      refine ih _ ?_
      rw [pop_below below]
      rw [below, List.length_cons] at enough
      exact Nat.le_of_succ_le_succ enough

end Builder

namespace Explained

variable {s : Settings} {lines : List (List Char)} {nodes more : List Draft} {b m : Builder}

theorem nil : Explained s lines [] := by
  refine ⟨fun r e start there => ?_, fun r e there => ?_, fun i d there => ?_⟩
  all_goals cases there

/-- A node that has not been moved is where it was put. -/
theorem place_of_core {i : Nat} {d d₀ : Draft} (core : d.core = d₀.core)
    (place : ∃ owner, PutInto s lines i d₀ owner ∧ d₀.reach = reachOf owner) :
    ∃ owner, PutInto s lines i d owner ∧ d.reach = reachOf owner := by
  obtain ⟨owner, put, reach⟩ := place
  refine ⟨owner, ?_, (Draft.reach_eq_of_core core).trans reach⟩
  rw [PutInto, Draft.line_eq_of_core core, Draft.path_eq_of_core core]
  exact put

/-- Nodes among which nothing has been given up. -/
theorem of_spares (explained : Explained s lines nodes) (spares : Spares nodes more)
    (places : ∀ i d, more[i]? = some d →
      ∃ owner, PutInto s lines i d owner ∧ d.reach = reachOf owner) : Explained s lines more where
  searches r e start there left :=
    explained.searches r e start (spares r e there (.inr ⟨start, left⟩)) left
  ends r e there ended := explained.ends r e (spares r e there (.inl ended)) ended
  places := places

theorem places_of_extends {held : Nat → Prop} {loose : EdgeRef → Prop}
    (explained : Explained s lines nodes) (grown : Extends held loose nodes more)
    (count : more.length = nodes.length) : ∀ i d, more[i]? = some d →
      ∃ owner, PutInto s lines i d owner ∧ d.reach = reachOf owner := by
  intro i d there
  obtain ⟨d₀, before, core⟩ | ⟨late, _⟩ :=
    (Lays.of_extends grown count : Lays 0 0 [] nodes more) i d there
  · exact place_of_core core (explained.places i d₀ before)
  · exact absurd (List.getElem?_eq_some_iff.mp there).1 (by omega)

/-! ### Frames that close -/

/-- Where an option or the whole script closes, what waits is left to a search. -/
theorem release (explained : Explained s lines m.nodes) (closing : Closing s lines m)
    (kept : m.Kept) (noBlock : ∀ block, m.top.kind ≠ .block block) :
    Explained s lines m.release.nodes := by
  have grown := Extends.foldl_aim (.search m.nodes.length) m.looseEdges m.nodes
  refine ⟨fun r e start there left => ?_, fun r e there ended => ?_,
    explained.places_of_extends grown (foldl_aim_length _ _ _)⟩
  · rw [Builder.release, edgeAt_foldl_aim] at there
    split at there
    next waits =>
      obtain ⟨e₀, before, rfl⟩ := Option.map_eq_some_iff.mp there
      cases left
      obtain ⟨e', same, isOpen, reach, kind⟩ := kept.tended.near r waits
      cases before.symm.trans same
      have ties : e₀.Ties := by
        obtain isBranch | ⟨isOption, _⟩ := kind
        · exact .inr isBranch
        · exact .inl isOption
      exact ⟨ties, m.owner?, ⟨m, closing, noBlock, waits, ⟨e₀, before, isOpen⟩, rfl, rfl⟩,
        reach.trans kept.orderly.reach_eq⟩
    · exact explained.searches r e start there left
  · rw [Builder.release, edgeAt_foldl_aim] at there
    split at there
    · obtain ⟨_, _, rfl⟩ := Option.map_eq_some_iff.mp there
      cases ended
    · exact explained.ends r e there ended

theorem closeBlock {block : Block} (explained : Explained s lines m.nodes)
    (closing : Closing s lines m) (kept : m.Kept) (kind : m.top.kind = .block block)
    (outer : Frame) (rest : List Frame) : Explained s lines (m.closeBlock block outer rest).nodes := by
  cases chained : block.chained with
  | true =>
    rw [Builder.closeBlock_chained m outer rest chained]
    have grown := Extends.foldl_aim .end (m.closedBlock block).looseEdges m.nodes
    refine ⟨fun r e start there left => ?_, fun r e there ended => ?_,
      explained.places_of_extends grown (foldl_aim_length _ _ _)⟩
    · rw [edgeAt_foldl_aim] at there
      split at there
      · obtain ⟨_, _, rfl⟩ := Option.map_eq_some_iff.mp there
        cases left
      · exact explained.searches r e start there left
    · rw [edgeAt_foldl_aim] at there
      split at there
      next waits =>
        obtain ⟨e₀, before, rfl⟩ := Option.map_eq_some_iff.mp there
        obtain ⟨e', same, isOpen, _, isBranch | ⟨_, isOption⟩⟩ :=
          Builder.Tended.closedBlock_awaits kept.tended kind r waits
        · cases before.symm.trans same
          exact ⟨isBranch, m, block, closing, kind, chained, List.mem_append.mp waits,
            ⟨e₀, before, isOpen⟩⟩
        · cases kind.symm.trans isOption
      · exact explained.ends r e there ended
  | false =>
    cases hasElse : block.hasElse with
    | true =>
      rw [Builder.closeBlock_complete m outer rest chained hasElse]
      exact explained
    | false =>
      rw [Builder.closeBlock_partial m outer rest chained hasElse]
      exact explained.of_spares (.attach _ _ (not_givenUp_open rfl))
        (explained.places_of_extends (Extends.attach _ _ _) (attach_length _ _ _))

theorem pop (explained : Explained s lines m.nodes) (closing : Closing s lines m) (kept : m.Kept)
    (line : Nat) : Explained s lines (m.pop line).nodes := by
  unfold Builder.pop
  split
  · exact explained
  next outer rest _ =>
    split
    next block kind =>
      rw [Builder.closeBlock_nodes_same (Builder.note_sameBody m _)]
      exact explained.closeBlock closing kept kind outer rest
    next noBlock => exact explained.release closing kept noBlock

/-- Frames that close one after the other. -/
theorem pops {pops : Nat → Builder → Builder} {stops : Builder → Bool} {line : Nat}
    (zero : ∀ b, pops 0 b = b)
    (succ : ∀ fuel b, pops (fuel + 1) b = if stops b then b else pops fuel (b.pop line))
    (explained : Explained s lines b.nodes) (kept : ∀ fuel, (pops fuel b).Kept)
    (closing : ∀ fuel, stops (pops fuel b) = false → Closing s lines (pops fuel b)) (fuel : Nat) :
    Explained s lines (pops fuel b).nodes := by
  induction fuel with
  | zero =>
    rw [zero]
    exact explained
  | succ fuel ih =>
    rw [Builder.pops_succ zero succ]
    cases still : stops (pops fuel b) with
    | true => exact ih
    | false => exact ih.pop (closing fuel still) (kept fuel) line

/-! ### Lines -/

theorem popAbove {l : Line} (explained : Explained s lines b.nodes) (comes : ComesTo s lines b l)
    (kept : b.Kept) (fuel : Nat) :
    Explained s lines (Builder.popAbove l.number l.indent fuel b).nodes := by
  refine pops (fun _ => rfl) (fun _ _ => rfl) explained (kept.popAbove l.number l.indent)
    (fun fuel closes => .line comes fuel ?_) fuel
  simp only [Bool.or_eq_false_iff, decide_eq_false_iff_not, Nat.not_le] at closes
  exact closes.2

theorem readBodyLine {l : Line} {rest : List (List Char)} {c : Builder}
    (explained : Explained s lines b.nodes) (comes : ComesTo s lines b l) (kept : b.Kept)
    (read : b.readBodyLine s l rest = .ok c) : Explained s lines c.nodes := by
  have settled : Explained s lines (b.settle l.number l.indent).nodes :=
    explained.popAbove comes kept b.below.length
  have still : (b.settle l.number l.indent).Kept := kept.popAbove l.number l.indent b.below.length
  have acts := Builder.acts_of_readBodyLine read
  have places : ∀ i d, c.nodes[i]? = some d →
      ∃ owner, PutInto s lines i d owner ∧ d.reach = reachOf owner := by
    intro i d there
    obtain ⟨d₀, before, core⟩ | ⟨late, line, reach, path⟩ := Builder.acts_lays acts i d there
    · exact place_of_core core (settled.places i d₀ before)
    · exact ⟨_, ⟨b, l, comes, line, late, rfl, path.symm⟩, reach.trans still.orderly.reach_eq⟩
  obtain spares | ⟨reads, x, block, outer, around, same, kind, rfl⟩ :=
    Builder.acts_spares still.tended acts
  · exact settled.of_spares spares places
  · rw [Builder.closeBlock_nodes_same same]
    obtain ⟨top, _⟩ : x.top = (b.settle l.number l.indent).top ∧ _ := List.cons.inj same.stack
    exact settled.closeBlock (.endIf comes reads) still (top ▸ kind) outer around

theorem readLine {number : Nat} {raw : List Char} {rest : List (List Char)} {c : Builder}
    (explained : Explained s lines b.nodes)
    (reaches : Reaches s ⟨{}, 1, lines⟩ ⟨b, number, raw :: rest⟩) (kept : b.Kept)
    (read : b.readLine s number raw rest = .ok c) : Explained s lines c.nodes := by
  obtain ⟨l, scanned, outside, body, _⟩ | ⟨same, _⟩ := Builder.readLine_cases read
  · obtain rfl := scan_number scanned
    exact explained.readBodyLine ⟨raw, rest, reaches, outside, scanned⟩ kept body
  · rw [same.nodes]
    exact explained

/-! ### Whole scripts -/

/-- At every point of reading it is known how edges came to be given up. -/
theorem of_reaches {q : Reader} (reaches : Reaches s ⟨{}, 1, lines⟩ q) :
    q.builder.Healthy ∧ q.builder.Kept ∧ Explained s lines q.builder.nodes := by
  refine reaches.keeps_on (fun b => b.Healthy ∧ b.Kept ∧ Explained s lines b.nodes)
    (fun onward kept read => ?_) ⟨.start, .start, nil⟩
  obtain ⟨healthy, kept, explained⟩ := kept
  exact ⟨healthy.readLine read, kept.readLine healthy read, explained.readLine onward kept read⟩

theorem popAll {number : Nat} (explained : Explained s lines (b.ending lines.length).nodes)
    (reaches : Reaches s ⟨{}, 1, lines⟩ ⟨b, number, []⟩) (kept : (b.ending lines.length).Kept)
    (fuel : Nat) :
    Explained s lines (Builder.popAll lines.length fuel (b.ending lines.length)).nodes :=
  pops (fun _ => rfl) (fun _ _ => rfl) explained (kept.popAll lines.length)
    (fun fuel _ => .ended reaches fuel) fuel

end Explained

/-- The outermost frame is no block. -/
theorem Seated.root_kind {nodes : List Draft} {f : Frame} (seated : Seated nodes [f])
    (block : Block) : f.kind ≠ .block block := by
  cases seated with
  | root kind => exact fun other => by cases kind.symm.trans other

/-- A script that has been read: all edges that have been given up are explained, none waits
any more, and each is searched for in the branches of its node. -/
theorem explained_of_readScript {s : Settings} {lines : List (List Char)} {b : Builder}
    (read : Builder.readScript s lines = .ok b) :
    Explained s lines b.nodes ∧ Routed b.nodes
      ∧ ∀ r e, edgeAt b.nodes r = some e → e.destination ≠ .open := by
  obtain ⟨c, first, done⟩ := bind_eq_ok.mp read
  cases done
  have reaches := reaches_of_readLines first
  obtain ⟨healthy, kept, explained⟩ := Explained.of_reaches reaches
  have ending : (c.ending lines.length).Kept ∧ (c.ending lines.length).nodes = c.nodes := by
    unfold Builder.ending
    split
    · exact ⟨kept.note _, rfl⟩
    · exact ⟨kept, rfl⟩
  generalize last : Builder.popAll lines.length (c.ending lines.length).below.length
    (c.ending lines.length) = m
  have below : m.below = [] := last ▸ Builder.popAll_below _ _ _ (Nat.le_refl _)
  have still : m.Kept := last ▸ ending.1.popAll _ _
  have closing : Closing s lines m := last ▸ .ended reaches _
  have known : Explained s lines m.nodes :=
    last ▸ Explained.popAll (ending.2 ▸ explained) reaches ending.1 _
  have nodes : (c.finish lines.length).nodes = m.release.nodes := by
    rw [← last]
    exact (Builder.endLabels_same _ _).1
  have root : m.stack = [m.top] := by rw [Builder.stack, below]
  have seated : Seated m.nodes [m.top] := root ▸ still.orderly.frames
  rw [nodes]
  refine ⟨known.release closing still seated.root_kind, still.orderly.routed.foldl_aim _ _,
    fun r e there isOpen => ?_⟩
  rw [Builder.release, edgeAt_foldl_aim] at there
  split at there
  · obtain ⟨_, _, rfl⟩ := Option.map_eq_some_iff.mp there
    cases isOpen
  next far =>
    obtain near | ⟨f, member, parks⟩ := Builder.mem_pending.mp (still.tended.opens r e there isOpen)
    · exact far near
    · -- The outermost frame is no block, so nothing is set aside in it.
      rw [root] at member
      cases List.mem_singleton.mp member
      rw [Frame.parked] at parks
      split at parks
      next block kind => exact seated.root_kind block kind
      · cases parks

/-! ### Searches that find nothing -/

/-- Whether a loose end in the option of a choice and in branches may go on at the node at a position:
one that is indented less than the choice and lies in no branch but those. -/
def Qualifies (nodes : List Draft) (owner : Option Draft) (path : List Branch) (j : Nat) : Prop :=
  ∃ choice d, owner = some choice ∧ nodes[j]? = some d ∧ d.indent < choice.indent
    ∧ ∀ branch ∈ d.path, branch ∈ path

theorem accepts_iff {owner : Option Draft} {path : List Branch} {d : Draft} :
    accepts (reachOf owner) path d = true
      ↔ ∃ choice, owner = some choice ∧ d.indent < choice.indent ∧ ∀ branch ∈ d.path, branch ∈ path := by
  rw [accepts, Bool.and_eq_true, decide_eq_true_eq, List.all_eq_true]
  simp only [List.contains_iff_mem]
  cases owner with
  | none =>
    -- Outside of all options a search asks for an indent below the least one.
    constructor
    · exact fun ⟨low, _⟩ => absurd low (Nat.not_lt_zero _)
    · rintro ⟨_, ⟨⟩, _⟩
  | some choice =>
    constructor
    · exact fun ⟨low, inside⟩ => ⟨choice, rfl, low, inside⟩
    · rintro ⟨_, ⟨⟩, low, inside⟩
      exact ⟨low, inside⟩

/-- A search finds nothing just if no node from where it starts qualifies. -/
theorem fallthrough?_eq_none_iff {nodes : List Draft} {owner : Option Draft} {path : List Branch}
    {start : Nat} : fallthrough? nodes start (reachOf owner) path = none
      ↔ ∀ j, start ≤ j → ¬ Qualifies nodes owner path j := by
  rw [fallthrough?, Option.map_eq_none_iff, List.findIdx?_eq_none_iff]
  constructor
  · rintro none j late ⟨choice, d, owned, there, low, inside⟩
    have member : d ∈ nodes.drop start := by
      refine List.mem_of_getElem? (i := j - start) ?_
      rw [List.getElem?_drop, Nat.add_sub_cancel' late]
      exact there
    have refused := none d member
    rw [accepts_iff.mpr ⟨choice, owned, low, inside⟩] at refused
    cases refused
  · intro none d member
    obtain ⟨k, there⟩ := List.mem_iff_getElem?.mp member
    rw [List.getElem?_drop] at there
    refine Bool.eq_false_iff.mpr fun accepted => ?_
    obtain ⟨choice, owned, low, inside⟩ := accepts_iff.mp accepted
    exact none (start + k) (Nat.le_add_right _ _) ⟨choice, d, owned, there, low, inside⟩

/-- Why an edge of a node, that has been put into the option of `owner`, has no target. -/
inductive Stranded (s : Settings) (text : String) (nodes : List Draft) (owner : Option Draft)
    (d : Draft) (r : EdgeRef) : EdgeKind → Prop where
  /-- it led to a goto that leads to the end -/
  | goto {e : DraftEdge} {j : Nat} {d' : Draft} {label : String}
    (there : edgeAt (settleAll nodes) r = some e) (leads : e.destination = .to j)
    (next : nodes[j]? = some d') (goto : d'.gotoLabel? = some label)
    (ends : GoesTo s.endLabel (bodyLines s text) (settleAll nodes) label none) :
    Stranded s text nodes owner d r e.kind
  /-- no later node qualifies, for an option or a branch that was open when its context closed -/
  | searched {e : DraftEdge} {start : Nat} {context : Option Draft}
    (there : edgeAt nodes r = some e) (left : e.destination = .search start)
    (closed : LeftToSearch s (Text.lines text.toList) r start context)
    (none : ∀ j, start ≤ j → ¬ Qualifies nodes context d.path j) :
    Stranded s text nodes owner d r e.kind
  /-- no later node qualifies, for a step without a successor -/
  | step (loose : d.isLoose = true) (none : ∀ j, r.node < j → ¬ Qualifies nodes owner d.path j) :
    Stranded s text nodes owner d r .continue
  /-- a block chained to a choice closed around an open branch -/
  | chained (ended : EndedByBlock s (Text.lines text.toList) r) :
    Stranded s text nodes owner d r .condition

/-- An edge that leads to no node after all searches is the one of a step whose search found nothing,
or was open, ended or searched for in vain before. -/
theorem edge_of_settleDraft {nodes : List Draft} {i k : Nat} {d : Draft} {e : DraftEdge}
    (there : nodes[i]? = some d) (slot : (settleDraft nodes i d).edges[k]? = some e)
    (lost : ∀ j, e.destination ≠ .to j) :
    (d.isLoose = true ∧ e.kind = .continue ∧ fallthrough? nodes (i + 1) d.reach d.path = none)
      ∨ ∃ e₀, edgeAt nodes ⟨i, k⟩ = some e₀ ∧ e₀.kind = e.kind
        ∧ (e₀.destination = .open ∨ e₀.destination = .end ∨ ∃ start,
          e₀.destination = .search start ∧ fallthrough? nodes start e₀.reach e₀.path = none) := by
  cases loose : d.isLoose with
  | true =>
    left
    rw [settleDraft, if_pos loose] at slot
    obtain rfl := List.mem_singleton.mp (List.mem_of_getElem? slot)
    refine ⟨rfl, rfl, Option.eq_none_iff_forall_ne_some.mpr fun j found => lost j ?_⟩
    simp only [found, Option.elim_some]
  | false =>
    right
    rw [settleDraft_of_edges loose, List.getElem?_map] at slot
    obtain ⟨e₀, before, rfl⟩ := Option.map_eq_some_iff.mp slot
    refine ⟨e₀, edgeAt_eq_some.mpr ⟨d, there, before⟩, ?_, ?_⟩
    · exact (DraftEdge.kind_eq_of_core (settleEdge_core e₀)).symm
    · cases destination : e₀.destination with
      | «open» => exact .inl rfl
      | «end» => exact .inr (.inl rfl)
      | «to» j => exact absurd (by simp only [settleEdge, destination]) (lost j)
      | search start =>
        refine .inr (.inr ⟨start, rfl, Option.eq_none_iff_forall_ne_some.mpr fun j found => ?_⟩)
        refine lost j ?_
        simp only [settleEdge, destination, found, Option.elim_some]

section Graph

variable {s : Settings} {name text : String} {b : Builder} {g : Graph}

/-- An edge that leads to a node of the draft but to none of the graph leads to a goto. -/
theorem stranded_goto {owner : Option Draft} {d : Draft} {r : EdgeRef} {e : DraftEdge} {j : Nat}
    (linked : Linked s text b) (there : edgeAt (settleAll b.nodes) r = some e)
    (leads : e.destination = .to j) (lost : newPosition (settleAll b.nodes) (gotosOf s b) j = none) :
    Stranded s text b.nodes owner d r e.kind := by
  obtain ⟨d₀, node, slot⟩ := edgeAt_eq_some.mp there
  have bound := (settleAll_sheet linked.healthy.sound.sheet d₀ (List.mem_of_getElem? node)).targets e
    (List.mem_of_getElem? slot) j leads
  rw [settleAll_length] at bound
  obtain ⟨target, ⟨d', next, leads'⟩, position⟩ :=
    (signposted_of_readScript linked.read).newPosition_eq linked bound
  rw [lost] at position
  obtain rfl : target = none := Option.map_eq_none_iff.mp position.symm
  obtain ⟨_, itself⟩ | ⟨label, goto, ends⟩ := leads'
  · cases itself
  · rw [settleAll_getElem?] at next
    obtain ⟨d'', before, rfl⟩ := Option.map_eq_some_iff.mp next
    exact .goto there leads before ((settleDraft_gotoLabel? j d'').symm.trans goto) ends

/-- An edge of a draft that leads to no node of the graph is stranded. -/
theorem stranded_of_lost {i k : Nat} {d : Draft} {e : DraftEdge} (linked : Linked s text b)
    (there : b.nodes[i]? = some d) (slot : (settleDraft b.nodes i d).edges[k]? = some e)
    (lost : newTarget (settleAll b.nodes) (gotosOf s b) e = none) :
    ∃ owner, PutInto s (Text.lines text.toList) i d owner
      ∧ Stranded s text b.nodes owner d ⟨i, k⟩ e.kind := by
  obtain ⟨explained, routed, settled⟩ := explained_of_readScript linked.read
  obtain ⟨owner, put, reach⟩ := explained.places i d there
  refine ⟨owner, put, ?_⟩
  by_cases aimed : ∃ j, e.destination = .to j
  · obtain ⟨j, leads⟩ := aimed
    have after : edgeAt (settleAll b.nodes) ⟨i, k⟩ = some e := by
      refine edgeAt_eq_some.mpr ⟨settleDraft b.nodes i d, ?_, slot⟩
      rw [settleAll_getElem?, there, Option.map_some]
    refine stranded_goto linked after leads ?_
    rw [newTarget, leads] at lost
    exact lost
  · obtain ⟨loose, isStep, none⟩ | ⟨e₀, old, same, known⟩ :=
      edge_of_settleDraft there slot fun j leads => aimed ⟨j, leads⟩
    · rw [isStep]
      rw [reach] at none
      exact .step loose (fallthrough?_eq_none_iff.mp none)
    · rw [← same]
      obtain opens | ended | ⟨start, left, none⟩ := known
      · exact absurd opens (settled _ e₀ old)
      · obtain ⟨isBranch, byBlock⟩ := explained.ends _ e₀ old ended
        rw [isBranch]
        exact .chained byBlock
      · -- The search has looked for the indent and the branches of the context that closed.
        obtain ⟨ties, context, closed, asks⟩ := explained.searches _ e₀ start old left
        rw [asks, routed _ d e₀ there old ties] at none
        exact .searched old left closed (fallthrough?_eq_none_iff.mp none)

/-- An option has a target or is left to a search. -/
theorem option_searched {r : EdgeRef} {e : DraftEdge}
    (read : Builder.readScript s (Text.lines text.toList) = .ok b)
    (there : edgeAt b.nodes r = some e) (isOption : e.kind = .decision) :
    (∃ j, e.destination = .to j) ∨ ∃ start owner, e.destination = .search start
      ∧ LeftToSearch s (Text.lines text.toList) r start owner := by
  obtain ⟨explained, _, settled⟩ := explained_of_readScript read
  cases destination : e.destination with
  | «open» => exact absurd destination (settled r e there)
  | «to» j => exact .inl ⟨j, rfl⟩
  | search start =>
    obtain ⟨_, owner, left, _⟩ := explained.searches r e start there destination
    exact .inr ⟨start, owner, rfl, left⟩
  | «end» =>
    -- Only branches are ended by a block.
    obtain ⟨isBranch, _⟩ := explained.ends r e there destination
    cases isOption.symm.trans isBranch

/-- **No loose end is lost.** An edge of the body without a target comes of a node that its line has
put into the option of a choice, if it is in any, and into branches; and it led to a goto that leads
to the end, or no node after its context closed qualifies for it, or it was the edge of a branch when
a block closed around it that is chained to a choice. An option always has a target or is searched
for. -/
theorem targetless_edges {c : Compilation} (compiled : compile s name text = .ok c)
    (made : c.graph = some g) :
    ∃ b, Builder.readScript s (Text.lines text.toList) = .ok b ∧ ComesOf s name b g
      ∧ (∀ p n k e, p < g.bodyLength → g.nodes[p]? = some n → n.edges[k]? = some e →
          e.target = none → ∃ i d owner, b.nodes[i]? = some d ∧ d.gotoLabel? = none
            ∧ keptBefore (settleAll b.nodes) i = p ∧ PutInto s (Text.lines text.toList) i d owner
            ∧ Stranded s text b.nodes owner d ⟨i, k⟩ e.kind)
      ∧ ∀ r e, edgeAt b.nodes r = some e → e.kind = .decision → (∃ j, e.destination = .to j)
          ∨ ∃ start owner, e.destination = .search start
            ∧ LeftToSearch s (Text.lines text.toList) r start owner := by
  obtain ⟨b, linked, _, comes⟩ := compile_graph compiled made
  refine ⟨b, linked.read, comes, fun p n k e inside there slot lost => ?_,
    fun r e there isOption => option_searched linked.read there isOption⟩
  rw [comes.bodyLength] at inside
  obtain ⟨i, d', found, noGoto, place, built⟩ := comes.body there inside
  obtain ⟨e₁, slot₁, kind, _, _, _, target⟩ := ComesOf.edge_at_body built slot
  rw [lost] at target
  rw [settleAll_getElem?] at found
  obtain ⟨d, before, rfl⟩ := Option.map_eq_some_iff.mp found
  have same : d.gotoLabel? = none := (settleDraft_gotoLabel? i d).symm.trans noGoto
  obtain ⟨owner, put, stranded⟩ :=
    stranded_of_lost linked before slot₁ (Option.map_eq_none_iff.mp target.symm)
  exact ⟨i, d, owner, before, same, place, put, kind ▸ stranded⟩

end Graph

/-- An option with a goto to the end, one without content, one that ends with a step, and a block
chained to them whose only branch is empty. -/
def leadingNowhere : String :=
  "A: q\n* one\n    [goto end]\n* two\n* three\n    B: x\n[if a]\n[endif]\n"

/-- Four edges without a target, one for each reason. -/
theorem targetless_edges_each :
    ∃ b c g, Builder.readScript .standard (Text.lines leadingNowhere.toList) = .ok b
      ∧ compile .standard "script" leadingNowhere = .ok c ∧ c.graph = some g
      ∧ ∀ place ∈ [(1, 0), (1, 1), (2, 0), (3, 0)], ∃ n e i d owner,
        g.nodes[place.1]? = some n ∧ n.edges[place.2]? = some e ∧ e.target = none
          ∧ keptBefore (settleAll b.nodes) i = place.1 ∧ b.nodes[i]? = some d
          ∧ Stranded .standard leadingNowhere b.nodes owner d ⟨i, place.2⟩ e.kind := by
  have opens : (compile .standard "script" leadingNowhere).toOption.any (fun c =>
      c.graph.any fun g => [(1, 0), (1, 1), (2, 0), (3, 0)].all fun place =>
        place.1 < g.bodyLength && g.nodes[place.1]?.any fun n =>
          n.edges[place.2]?.any (·.target.isNone)) = true := by
    decide +kernel
  obtain ⟨c, compiled, made⟩ := exists_ok_of_any opens
  obtain ⟨g, graph, shows⟩ := (Option.any_eq_true _ _).mp made
  obtain ⟨b, read, _, reasons, _⟩ := targetless_edges compiled graph
  refine ⟨b, c, g, read, compiled, graph, fun place listed => ?_⟩
  have found := List.all_eq_true.mp shows place listed
  simp only [Bool.and_eq_true, decide_eq_true_eq, Option.any_eq_true,
    Option.isNone_iff_eq_none] at found
  obtain ⟨inside, n, there, e, slot, lost⟩ := found
  obtain ⟨i, d, owner, before, _, position, _, stranded⟩ :=
    reasons place.1 n place.2 e inside there slot lost
  exact ⟨n, e, i, d, owner, there, slot, lost, position, before, stranded⟩

end Colloquy.Script
