import Colloquy.Proofs.Script.Seated
/-!
# Edges that wait

Where the edges are that do not know yet where they lead. Each waits for the next node or is set
aside in a block that is open. It reaches as far as the frame that it waits in, and the edge of an
option waits in the frame of that option alone. Nothing waits where a choice was the last to be read.
-/

namespace Colloquy.Script

/-- Whether an edge may wait in a frame. -/
def Frame.Awaits (nodes : List Draft) (f : Frame) (r : EdgeRef) : Prop :=
  ∃ e, edgeAt nodes r = some e ∧ e.destination = .open ∧ e.reach = f.reach
    ∧ (e.kind = .condition ∨ e.kind = .decision ∧ f.kind = .option)

theorem Frame.Awaits.mono {held : Nat → Prop} {loose : EdgeRef → Prop} {a b : List Draft} {f : Frame}
    {r : EdgeRef} (grown : Extends held loose a b) (free : ¬ loose r) (awaits : f.Awaits a r) :
    f.Awaits b r := by
  obtain ⟨e, there, known⟩ := awaits
  obtain ⟨e', now, _, same⟩ := grown.edge there
  cases same free
  exact ⟨e, now, known⟩

/-- What waits in a block may wait in any frame that reaches as far. -/
theorem Frame.Awaits.of_block {nodes : List Draft} {f g : Frame} {block : Block} {r : EdgeRef}
    (awaits : f.Awaits nodes r) (kind : f.kind = .block block) (reach : f.reach = g.reach) :
    g.Awaits nodes r := by
  obtain ⟨e, there, opens, reaches, isBranch | ⟨_, isOption⟩⟩ := awaits
  · exact ⟨e, there, opens, reaches.trans reach, .inl isBranch⟩
  · cases kind.symm.trans isOption

namespace Builder

variable {b c : Builder}

/-- Whether every edge of a draft that does not know where it leads waits somewhere, and waits where
it may. -/
structure Tended (b : Builder) : Prop where
  near : ∀ r ∈ b.looseEdges, b.top.Awaits b.nodes r
  parked : ∀ f ∈ b.stack, ∀ r ∈ f.parked, f.Awaits b.nodes r
  choice : ∀ i d, b.top.last = some i → b.nodes[i]? = some d → d.step = .choice →
    b.looseEdges = []
  opens : ∀ r e, edgeAt b.nodes r = some e → e.destination = .open → r ∈ b.pending

theorem mem_pending {r : EdgeRef} :
    r ∈ b.pending ↔ r ∈ b.looseEdges ∨ ∃ f ∈ b.stack, r ∈ f.parked := by
  simp [pending]

/-- What is set aside does not wait for the next node. -/
theorem Sound.not_near_of_parked (sound : b.Sound) {f : Frame} {r : EdgeRef} (member : f ∈ b.stack)
    (parks : r ∈ f.parked) : r ∉ b.looseEdges := fun waits =>
  (List.nodup_append.mp sound.apart).2.2 r waits r (List.mem_flatMap.mpr ⟨f, member, parks⟩) rfl

namespace Tended

theorem start : ({} : Builder).Tended := by
  refine ⟨fun r none => ?_, fun f member r parks => ?_, fun _ _ _ _ _ => rfl, fun r e there => ?_⟩
  · cases none
  · cases List.mem_singleton.mp member
    cases parks
  · cases there

theorem of_same (tended : b.Tended) (same : b.SameBody c) : c.Tended := by
  obtain ⟨top, below⟩ : c.top = b.top ∧ c.below = b.below := List.cons.inj same.stack
  have pending : c.pending = b.pending := by
    rw [Builder.pending, Builder.pending, same.looseEdges, same.stack]
  refine ⟨?_, ?_, ?_, ?_⟩
  · rw [same.nodes, same.looseEdges, top]
    exact tended.near
  · rw [same.nodes, same.stack]
    exact tended.parked
  · rw [same.nodes, same.looseEdges, top]
    exact tended.choice
  · rw [same.nodes, pending]
    exact tended.opens

theorem note (tended : b.Tended) (d : Diagnostic) : (b.note d).Tended :=
  tended.of_same (note_sameBody b d)

theorem append {d : Draft} (tended : b.Tended) (sound : b.Sound) (connect : Bool)
    (bare : d.edges = []) : (b.append d connect).Tended := by
  have added : Extends (fun _ => False) (fun _ => False) b.nodes (b.extended d) :=
    Extends.append b.nodes _
  have grown := (added.mono (fun _ => False.elim) fun _ => False.elim).trans
    (append_extends b d connect)
  refine ⟨fun r none => ?_, fun f member r parks => ?_, fun _ _ _ _ _ => rfl,
    fun r e there isOpen => ?_⟩
  · cases none
  · obtain rfl | below := List.mem_cons.mp member
    · have top : b.top ∈ b.stack := List.mem_cons_self ..
      exact (tended.parked b.top top r parks).mono grown (sound.not_near_of_parked top parks)
    · have inside : f ∈ b.stack := List.mem_cons_of_mem b.top below
      exact (tended.parked f inside r parks).mono grown (sound.not_near_of_parked inside parks)
  · obtain rfl | ⟨e₀, before, rfl⟩ := append_edges bare there
    · cases isOpen
    · split at isOpen
      · cases isOpen
      next known =>
        obtain near | parked := mem_pending.mp (tended.opens r e₀ before isOpen)
        · exact absurd near known
        · obtain ⟨f, member, parks⟩ := parked
          refine mem_pending.mpr (.inr ?_)
          obtain rfl | below := List.mem_cons.mp member
          · exact ⟨_, List.mem_cons_self .., parks⟩
          · exact ⟨f, List.mem_cons_of_mem _ below, parks⟩

/-- Nothing is left to a search where nothing waits. -/
theorem release_nodes (none : b.looseEdges = []) : b.release.nodes = b.nodes := by
  rw [Builder.release, none]
  rfl

theorem release (tended : b.Tended) (none : b.looseEdges = []) : b.release.Tended := by
  have nodes := release_nodes none
  refine ⟨fun r none => ?_, ?_, fun _ _ _ _ _ => rfl, ?_⟩
  · cases none
  · rw [nodes]
    exact tended.parked
  · rw [nodes]
    intro r e there isOpen
    have waits := mem_pending.mp (tended.opens r e there isOpen)
    rw [none] at waits
    exact mem_pending.mpr waits

/-- Adds an edge that knows where it leads where nothing waits. -/
theorem attach (tended : b.Tended) (i : Nat) {edge : DraftEdge} (none : b.looseEdges = [])
    (known : edge.destination ≠ .open) : { b with nodes := attach b.nodes i edge }.Tended := by
  have grown := Extends.attach b.nodes i edge
  refine ⟨fun r waits => ?_, fun f member r parks => ?_, fun _ _ _ _ _ => none,
    fun r e there isOpen => ?_⟩
  · rw [none] at waits
    cases waits
  · exact (tended.parked f member r parks).mono grown id
  · obtain old | ⟨_, rfl⟩ := edgeAt_attach_some there
    · exact tended.opens r e old isOpen
    · exact absurd isOpen known

/-- Opens a frame with an edge that waits in it. -/
theorem enter {f : Frame} {i : Nat} {edge : DraftEdge} (tended : b.Tended)
    (none : b.looseEdges = []) (bound : i < b.nodes.length) (isOpen : edge.destination = .open)
    (reach : edge.reach = f.reach)
    (kind : edge.kind = .condition ∨ edge.kind = .decision ∧ f.kind = .option)
    (parked : f.parked = [])
    (last : ∀ i d, f.last = some i → b.nodes[i]? = some d → d.step ≠ .choice) :
    { b with
      nodes := Script.attach b.nodes i edge
      top := f
      below := b.stack
      looseEdges := [nextEdge b.nodes i] }.Tended := by
  have grown := Extends.attach b.nodes i edge
  refine ⟨fun r near => ?_, fun g member r parks => ?_, fun j d ends there choice => ?_,
    fun r e there opens => ?_⟩
  · obtain rfl := List.mem_singleton.mp near
    exact ⟨edge, edgeAt_attach edge bound, isOpen, reach, kind⟩
  · obtain rfl | below := List.mem_cons.mp member
    · rw [parked] at parks
      cases parks
    · exact (tended.parked g below r parks).mono grown id
  · obtain ⟨d₀, before, core, _⟩ := attach_old there
    exact absurd ((Draft.step_eq_of_core core).symm.trans choice) (last j d₀ ends before)
  · obtain old | ⟨rfl, _⟩ := edgeAt_attach_some there
    · obtain near | ⟨g, member, parks⟩ := mem_pending.mp (tended.opens r e old opens)
      · rw [none] at near
        cases near
      · exact mem_pending.mpr (.inr ⟨g, List.mem_cons_of_mem f member, parks⟩)
    · exact mem_pending.mpr (.inl (List.mem_singleton.mpr rfl))

/-! ### Closing frames -/

/-- Of a block that closes what was set aside waits like what was not. -/
theorem closedBlock_awaits {block : Block} (tended : b.Tended) (kind : b.top.kind = .block block) :
    ∀ r ∈ (b.closedBlock block).looseEdges, b.top.Awaits b.nodes r := by
  intro r member
  obtain parks | near := List.mem_append.mp member
  · refine tended.parked b.top (List.mem_cons_self ..) r ?_
    rw [Frame.parked, kind]
    exact parks
  · exact tended.near r near

theorem closedBlock_free {block : Block} (sound : b.Sound) (kind : b.top.kind = .block block)
    {f : Frame} {r : EdgeRef} (member : f ∈ b.below) (parks : r ∈ f.parked) :
    r ∉ (b.closedBlock block).looseEdges := fun waits =>
  (List.nodup_append.mp ((Sound.closedBlock_pending kind).nodup_iff.mp sound.apart)).2.2 r waits r
    (List.mem_flatMap.mpr ⟨f, member, parks⟩) rfl

/-- An edge that waits when a block closes waits in the block or in a frame around it. -/
theorem pending_closing {block : Block} (kind : b.top.kind = .block block) {r : EdgeRef}
    (waits : r ∈ b.pending) :
    r ∈ (b.closedBlock block).looseEdges ∨ ∃ f ∈ b.below, r ∈ f.parked := by
  obtain inside | around := List.mem_append.mp ((Sound.closedBlock_pending kind).mem_iff.mp waits)
  · exact .inl inside
  · exact .inr (List.mem_flatMap.mp around)

theorem parked_resumed {block : Block} {outer : Frame} {rest : List Frame} {r : EdgeRef}
    (parked : ∃ f ∈ outer :: rest, r ∈ f.parked) :
    ∃ f ∈ resumed block outer :: rest, r ∈ f.parked := by
  obtain ⟨f, member, parks⟩ := parked
  obtain rfl | further := List.mem_cons.mp member
  · exact ⟨_, List.mem_cons_self .., parks⟩
  · exact ⟨f, List.mem_cons_of_mem _ further, parks⟩

section Closing

variable {block : Block} {outer : Frame} {rest : List Frame} (tended : b.Tended) (sound : b.Sound)
  (orderly : b.Orderly) (kind : b.top.kind = .block block) (below : b.below = outer :: rest)

include tended orderly kind below

/-- What waits in a block that closes may wait in the frame around it. -/
theorem closing_near :
    ∀ r ∈ (b.closedBlock block).looseEdges, (resumed block outer).Awaits b.nodes r := by
  intro r member
  have frames := orderly.frames
  rw [stack, below] at frames
  obtain ⟨reach, _⟩ := frames.frame.block block kind
  exact (closedBlock_awaits tended kind r member).of_block kind reach

omit tended in
/-- A block that is not chained leaves its select, which is no choice. -/
theorem closing_last {held : Nat → Prop} {loose : EdgeRef → Prop} {nodes : List Draft}
    (grown : Extends held loose b.nodes nodes) (chained : block.chained = false) {i : Nat} {d : Draft}
    (last : (resumed block outer).last = some i) (there : nodes[i]? = some d) :
    d.step ≠ .choice := by
  have frames := orderly.frames
  rw [stack, below] at frames
  obtain ⟨_, _, after⟩ := frames.frame.block block kind
  cases last
  rw [chained] at after
  obtain ⟨d', now, step, _⟩ := after.mono grown
  cases there.symm.trans now
  rw [step]
  rintro ⟨⟩

omit orderly in
theorem closing_opens {r : EdgeRef} {e : DraftEdge} (there : edgeAt b.nodes r = some e)
    (isOpen : e.destination = .open) : r ∈ (b.closedBlock block).looseEdges
      ∨ ∃ f ∈ resumed block outer :: rest, r ∈ f.parked := by
  obtain inside | around := pending_closing kind (tended.opens r e there isOpen)
  · exact .inl inside
  · rw [below] at around
    exact .inr (parked_resumed around)

include sound

omit orderly in
/-- What is set aside around a block that closes stays so, and is nothing that waits in the block. -/
theorem closing_parked : ∀ f ∈ resumed block outer :: rest, ∀ r ∈ f.parked,
    f.Awaits b.nodes r ∧ r ∉ (b.closedBlock block).looseEdges := by
  intro f member r parks
  obtain rfl | further := List.mem_cons.mp member
  · have inside : outer ∈ b.below := by simp [below]
    exact ⟨tended.parked outer (List.mem_cons_of_mem b.top inside) r parks,
      closedBlock_free sound kind inside parks⟩
  · have inside : f ∈ b.below := by simp [below, further]
    exact ⟨tended.parked f (List.mem_cons_of_mem b.top inside) r parks,
      closedBlock_free sound kind inside parks⟩

theorem closeBlock : (b.closeBlock block outer rest).Tended := by
  have near := closing_near tended orderly kind below
  have parked := closing_parked tended sound kind below
  cases chained : block.chained with
  | true =>
    rw [closeBlock_chained b outer rest chained]
    have grown := Extends.foldl_aim .end (b.closedBlock block).looseEdges b.nodes
    refine ⟨fun r none => ?_, fun f member r parks => ?_, fun _ _ _ _ _ => rfl,
      fun r e there isOpen => ?_⟩
    · cases none
    · exact (parked f member r parks).1.mono grown (parked f member r parks).2
    · -- All that waited in the block has been ended.
      rw [edgeAt_foldl_aim] at there
      split at there
      · obtain ⟨_, _, rfl⟩ := Option.map_eq_some_iff.mp there
        cases isOpen
      next outside =>
        obtain inside | around := closing_opens tended kind below there isOpen
        · exact absurd inside outside
        · exact mem_pending.mpr (.inr around)
  | false =>
    cases hasElse : block.hasElse with
    | true =>
      rw [closeBlock_complete b outer rest chained hasElse]
      refine ⟨near, fun f member r parks => (parked f member r parks).1, fun i d last there choice => ?_,
        fun r e there isOpen => mem_pending.mpr (closing_opens tended kind below there isOpen)⟩
      have same := Extends.refl (fun _ => False) (fun _ => False) b.nodes
      exact absurd choice (closing_last orderly kind below same chained last there)
    | false =>
      rw [closeBlock_partial b outer rest chained hasElse]
      have grown := Extends.attach b.nodes block.select (b.fallbackEdge outer rest)
      have bound : block.select < b.nodes.length := (sound.top.block block kind).1.lt
      have frames := orderly.frames
      rw [stack, below] at frames
      obtain ⟨reach, _⟩ := frames.frame.block block kind
      refine ⟨fun r member => ?_, fun f member r parks => (parked f member r parks).1.mono grown id,
        fun i d last there choice =>
          absurd choice (closing_last orderly kind below grown chained last there),
        fun r e there isOpen => ?_⟩
      · obtain old | new := List.mem_append.mp member
        · exact (near r old).mono grown id
        · obtain rfl := List.mem_singleton.mp new
          exact ⟨_, edgeAt_attach _ bound, rfl, reach, .inl rfl⟩
      · -- Only the edge of the empty else branch is new.
        obtain old | ⟨rfl, _⟩ := edgeAt_attach_some there
        · obtain inside | around := closing_opens tended kind below old isOpen
          · exact mem_pending.mpr (.inl (List.mem_append_left _ inside))
          · exact mem_pending.mpr (.inr around)
        · exact mem_pending.mpr (.inl (List.mem_append_right _ (List.mem_singleton.mpr rfl)))

end Closing

theorem pop (tended : b.Tended) (sound : b.Sound) (orderly : b.Orderly) (line : Nat) :
    (b.pop line).Tended := by
  unfold Builder.pop
  split
  · exact tended
  next outer rest below =>
    split
    next block kind =>
      exact (tended.note _).closeBlock (sound.note _) (orderly.note _) kind below
    next noBlock =>
      have grown := Extends.foldl_aim (.search b.nodes.length) b.looseEdges b.nodes
      have around : ∀ f ∈ outer :: rest, f ∈ b.stack := by
        rw [← below]
        exact fun f => List.mem_cons_of_mem b.top
      refine ⟨fun r none => ?_, fun f member r parks => ?_, fun _ _ _ _ _ => rfl,
        fun r e there isOpen => ?_⟩
      · cases none
      · exact (tended.parked f (around f member) r parks).mono grown
          (sound.not_near_of_parked (around f member) parks)
      · rw [Builder.release, edgeAt_foldl_aim] at there
        split at there
        · obtain ⟨_, _, rfl⟩ := Option.map_eq_some_iff.mp there
          cases isOpen
        next far =>
          refine mem_pending.mpr (.inr ?_)
          obtain near | ⟨f, member, parks⟩ := mem_pending.mp (tended.opens r e there isOpen)
          · exact absurd near far
          · rw [stack, below] at member
            obtain rfl | inside := List.mem_cons.mp member
            · -- The frame that closes is no block, so nothing is set aside in it.
              rw [Frame.parked] at parks
              split at parks
              next block kind => exact absurd kind (noBlock block)
              · cases parks
            · exact ⟨f, inside, parks⟩

/-! ### Statements -/

/-- Where an option joins a choice nothing waits. -/
theorem edges_of_joined (tended : b.Tended)
    (joined : ((b.lastOf b.top).filter (·.step.kind = .choice)).isSome = true) :
    b.looseEdges = [] := by
  simp only [Option.isSome_filter, Option.any_eq_true, decide_eq_true_eq] at joined
  obtain ⟨d, found, kind⟩ := joined
  obtain ⟨i, last, there⟩ := Option.bind_eq_some_iff.mp found
  exact tended.choice i d last there (step_eq_choice kind)

theorem atChoice {line indent : Nat} (tended : b.Tended) (sound : b.Sound) :
    (b.atChoice line indent).Tended := by
  unfold Builder.atChoice
  split
  next joined => exact tended.release (tended.edges_of_joined joined)
  · exact tended.append sound true rfl

theorem option (tended : b.Tended) (sound : b.Sound) (line indent : Nat) (text textId : String) :
    (b.option line indent text textId).Tended := by
  obtain ⟨choice, last⟩ := atChoice_last b line indent
  obtain ⟨d, there, _⟩ := Sound.atChoice_choice last
  rw [option_eq text textId last]
  refine (tended.atChoice sound).enter (Sound.atChoice_loose b line indent).1
    (List.getElem?_eq_some_iff.mp there).1 rfl rfl (.inr ⟨rfl, rfl⟩) rfl fun i d none => ?_
  cases none

/-- Enters a block with the edge of its first branch. -/
theorem enterBlock {f : Frame} {edge : DraftEdge} (block : Block) (tended : b.Tended)
    (none : b.looseEdges = []) (select : IsSelect b.nodes block.select)
    (kind : f.kind = .block block) (last : f.last = some block.select)
    (edges : block.looseEdges = []) (isOpen : edge.destination = .open)
    (reach : edge.reach = f.reach) (isBranch : edge.kind = .condition) :
    (b.enterBlock f block.select edge).Tended := by
  refine tended.enter none select.lt isOpen reach (.inl isBranch) ?_ fun i d ends there => ?_
  · rw [Frame.parked, kind]
    exact edges
  · cases last.symm.trans ends
    rw [Sound.isSelect_eq select there]
    rintro ⟨⟩

/-- Neither does anything wait where a block is chained to a choice. -/
theorem atHead_edges {line indent choice : Nat} (tended : b.Tended)
    (last : (b.atHead line indent).top.last = some choice) :
    (b.atHead line indent).looseEdges = [] := by
  obtain ⟨d, there, step⟩ := atHead_choice last
  unfold Builder.atHead at last there ⊢
  split
  next follows =>
    rw [if_pos follows] at last there
    exact tended.choice choice d last there step
  · rfl

theorem openIf (tended : b.Tended) (sound : b.Sound) (line indent : Nat) (condition : Expression)
    (optionNext : Bool) : (b.openIf line indent condition optionNext).Tended := by
  cases chained : b.follows indent || optionNext with
  | true =>
    obtain ⟨choice, last⟩ := atHead_last (b := b) line indent
    obtain ⟨d, there, step⟩ := atHead_choice last
    rw [openIf_chained condition chained last]
    have head : (b.atHead line indent).Tended := by
      unfold Builder.atHead
      split
      · exact tended
      · exact tended.append sound true rfl
    have none := tended.atHead_edges last
    have soundHead := sound.atHead line indent
    obtain ⟨_, select⟩ := soundHead.withChained line indent ⟨d, there, step⟩
    generalize b.atHead line indent = h at head none soundHead select
    have added := (head.release none).append (d := ⟨.select, line, indent, [], 0, []⟩)
      soundHead.release false rfl
    have within : (h.withChained choice line indent).Tended :=
      added.attach choice rfl (by rintro ⟨⟩)
    exact within.enterBlock { select := h.nodes.length, chained := true, after := choice }
      rfl select rfl rfl rfl rfl rfl rfl
  | false =>
    simp only [Bool.or_eq_false_iff] at chained
    rw [chained.2, openIf_unchained condition chained.1]
    have select : IsSelect (b.withSelect line indent).nodes b.nodes.length :=
      append_there b ⟨.select, line, indent, [], 0, []⟩ true
    exact enterBlock { select := b.nodes.length, chained := false, after := b.nodes.length }
      (tended.append sound true rfl) rfl select rfl rfl rfl rfl rfl rfl

theorem addBranch (tended : b.Tended) (sound : b.Sound) (line : Nat)
    (condition : Option Expression) (keyword : String) :
    (b.addBranch line condition keyword).Tended := by
  cases kind : b.top.kind with
  | block block =>
    cases more : block.hasElse with
    | true =>
      simp only [Builder.addBranch, kind, more, if_true]
      exact tended.note _
    | false =>
      rw [addBranch_eq line condition keyword kind more]
      obtain ⟨select, _, _⟩ := sound.top.block block kind
      have grown : Extends _ _ b.nodes (b.toBranch block line condition).nodes :=
        Extends.attach b.nodes block.select _
      refine ⟨fun r near => ?_, fun f member r parks => ?_, fun i d last there choice => ?_,
        fun r e there isOpen => ?_⟩
      · obtain rfl := List.mem_singleton.mp near
        exact ⟨_, edgeAt_attach _ select.lt, rfl, rfl, .inl rfl⟩
      · obtain rfl | below := List.mem_cons.mp member
        · have waits := closedBlock_awaits tended kind r parks
          exact Frame.Awaits.mono grown id (waits.of_block kind rfl)
        · exact (tended.parked f (List.mem_cons_of_mem b.top below) r parks).mono grown id
      · cases last
        have := Sound.isSelect_eq (select.mono grown) there
        cases this.symm.trans choice
      · obtain old | ⟨rfl, _⟩ := edgeAt_attach_some there
        · refine mem_pending.mpr (.inr ?_)
          obtain inside | ⟨f, member, parks⟩ := pending_closing kind (tended.opens r e old isOpen)
          · exact ⟨_, List.mem_cons_self .., inside⟩
          · exact ⟨f, List.mem_cons_of_mem _ member, parks⟩
        · exact mem_pending.mpr (.inl (List.mem_singleton.mpr rfl))
  | root =>
    simp only [Builder.addBranch, kind]
    exact tended.note _
  | option =>
    simp only [Builder.addBranch, kind]
    exact tended.note _

theorem endIf (tended : b.Tended) (sound : b.Sound) (orderly : b.Orderly) (line : Nat) :
    (b.endIf line).Tended := by
  unfold Builder.endIf
  split
  next block outer rest kind below => exact tended.closeBlock sound orderly kind below
  · exact tended.note _

theorem acts {l : Line} (tended : b.Tended) (sound : b.Sound) (orderly : b.Orderly)
    (acts : Acts l b c) : c.Tended := by
  induction acts with
  | nothing same => exact tended.of_same same
  | noted d _ ih => exact ih (tended.note d) (sound.note d) (orderly.note d)
  | append _ _ bare _ => exact tended.append sound true bare
  | option _ text => exact tended.option sound _ _ _ _
  | openIf _ condition next => exact tended.openIf sound _ _ _ _
  | addBranch _ condition keyword => exact tended.addBranch sound _ _ _
  | endIf _ _ => exact tended.endIf sound orderly _

end Tended

/-! ### Whole lines -/

/-- All that holds of a draft between two lines and between two frames that a line closes, as far as
frames and waiting edges are concerned. -/
structure Kept (b : Builder) : Prop where
  sound : b.Sound
  orderly : b.Orderly
  tended : b.Tended

namespace Kept

theorem start : ({} : Builder).Kept :=
  ⟨Healthy.start.sound, .start, .start⟩

theorem note (kept : b.Kept) (d : Diagnostic) : (b.note d).Kept :=
  ⟨kept.sound.note d, kept.orderly.note d, kept.tended.note d⟩

theorem pop (kept : b.Kept) (line : Nat) : (b.pop line).Kept :=
  ⟨kept.sound.pop line, kept.orderly.pop line, kept.tended.pop kept.sound kept.orderly line⟩

theorem popAbove (kept : b.Kept) (line indent fuel : Nat) :
    (popAbove line indent fuel b).Kept :=
  popAbove_keeps (fun _ kept => kept.pop line) kept indent fuel

theorem popAll (kept : b.Kept) (line fuel : Nat) : (popAll line fuel b).Kept :=
  popAll_keeps (fun _ kept => kept.pop line) kept fuel

theorem readLine {s : Settings} {number : Nat} {raw : List Char} {rest : List (List Char)}
    (kept : b.Kept) (healthy : b.Healthy) (read : b.readLine s number raw rest = .ok c) : c.Kept := by
  refine ⟨(healthy.readLine read).sound, kept.orderly.readLine read, ?_⟩
  obtain ⟨l, _, _, body, _⟩ | ⟨same, _⟩ := readLine_cases read
  · have settled := kept.popAbove l.number l.indent b.below.length
    exact settled.tended.acts settled.sound settled.orderly (acts_of_readBodyLine body)
  · exact kept.tended.of_same same

end Kept

end Builder

end Colloquy.Script
