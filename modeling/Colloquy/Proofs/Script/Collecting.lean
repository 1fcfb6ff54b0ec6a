import Colloquy.Proofs.Script.Falling
import Colloquy.Proofs.Script.Joining
/-!
# Collecting options

How an option list stands in a draft that has been read to its end. The options of a list are the
edges of one choice, and so are its blocks, each by way of a select whose branches hold further
lists. No other edges come between these, and none after them once the list is whole.
-/

namespace Colloquy.Script

/-! ### Edges of a list -/

section Edges

variable (nodes : List Draft)

/-- Whether an edge leads somewhere. -/
def EdgeLeads (r : EdgeRef) (destination : Destination) : Prop :=
  ∃ e, edgeAt nodes r = some e ∧ e.destination = destination

/-- Whether an edge of a node is the option of a line. -/
def OptionEdge (k j : Nat) (l : Line) : Prop :=
  ∃ e, edgeAt nodes ⟨k, j⟩ = some e ∧ e.kind = .decision
    ∧ Statement.read l.body = .option e.text ∧ e.textId = l.textId
    ∧ e.params = Template.params e.text

/-- Whether an edge of a choice leads to a select. -/
def ChainEdge (k j select : Nat) : Prop :=
  IsSelect nodes select
    ∧ ∃ e, edgeAt nodes ⟨k, j⟩ = some e ∧ e.kind = .chained ∧ e.destination = .to select

/-- Whether an edge of a select is a branch with a condition and leads somewhere. -/
def BranchEdge (k j : Nat) (condition : Expression) (destination : Destination) : Prop :=
  ∃ e, edgeAt nodes ⟨k, j⟩ = some e ∧ e.kind = .condition ∧ e.condition = some condition
    ∧ e.destination = destination

mutual

/-- Whether the edges of a choice between two places are those of an option list. -/
inductive OptionList.AddsAt : OptionList → Nat → Nat → Nat → Prop where
  | nil {k j : Nat} : OptionList.AddsAt .nil k j j
  | option {line : Line} {content : List Line} {rest : OptionList} {k j j' : Nat}
      (edge : OptionEdge nodes k j line) (later : OptionList.AddsAt rest k (j + 1) j') :
      OptionList.AddsAt (.option line content rest) k j j'
  | block {line : Line} {condition : Expression} {items rest : OptionList} {more : Branching}
      {k j j' select : Nat} (edge : ChainEdge nodes k j select)
      (branches : Branching.AddsAt (.elseIf line condition items more) select 0)
      (later : OptionList.AddsAt rest k (j + 1) j') :
      OptionList.AddsAt (.block line condition items more rest) k j j'

/-- Whether the edges of a select from a place on are those of branches. -/
inductive Branching.AddsAt : Branching → Nat → Nat → Prop where
  | endIf {line : Line} {select j : Nat} (counts : Counts nodes select j) :
      Branching.AddsAt (.endIf line) select j
  | otherwise {line last : Line} {items : OptionList} {select j : Nat} {destination : Destination}
      (edge : BranchEdge nodes select j Expression.always destination)
      (enters : OptionList.Enters items destination) :
      Branching.AddsAt (.otherwise line items last) select j
  | elseIf {line : Line} {condition : Expression} {items : OptionList} {more : Branching}
      {select j : Nat} {destination : Destination}
      (edge : BranchEdge nodes select j condition destination)
      (enters : OptionList.Enters items destination)
      (later : Branching.AddsAt more select (j + 1)) :
      Branching.AddsAt (.elseIf line condition items more) select j

/-- Whether what leads to an option list leads to the choice of its options, and to the end if there
are none. -/
inductive OptionList.Enters : OptionList → Destination → Prop where
  | nil : OptionList.Enters .nil .end
  | choice {items : OptionList} {k n count : Nat} (choice : IsChoice nodes k n)
      (counts : Counts nodes k count) (adds : OptionList.AddsAt items k 0 count) :
      OptionList.Enters items (.to k)

end

end Edges

/-! ### Frames that end with a choice -/

/-- Whether a frame ends with a node, or leaves it as the last one after its block. -/
def Frame.Retains (f : Frame) (i : Nat) : Prop :=
  f.last = some i ∨ ∃ block, f.kind = .block block ∧ block.after = i

theorem Frame.Sound.lt_of_retains {nodes : List Draft} {f : Frame} (sound : f.Sound nodes) {i : Nat}
    (retains : f.Retains i) : i < nodes.length := by
  obtain last | ⟨block, kind, rfl⟩ := retains
  · exact sound.last i last
  · exact (sound.block block kind).2.1

/-- A frame is sound whatever it ends with is left out. -/
theorem Frame.Sound.endless {nodes : List Draft} {f : Frame} (sound : f.Sound nodes) :
    Frame.Sound nodes { f with last := none } :=
  ⟨fun _ => nofun, sound.block, sound.parked⟩

theorem Frame.Sound.lt_of_holds {nodes : List Draft} {f : Frame} (sound : f.Sound nodes) {i : Nat}
    (holds : f.Holds i) : i < nodes.length := by
  obtain last | ⟨block, kind, rfl | rfl | member⟩ := holds
  · exact sound.last i last
  · exact (sound.block block kind).1.lt
  · exact (sound.block block kind).2.1
  · obtain ⟨d, there, _⟩ := (sound.block block kind).2.2 i member
    exact (List.getElem?_eq_some_iff.mp there).1

namespace Builder

variable {b c : Builder} {i k n count : Nat}

/-- A choice that may get further edges is retained by a frame. -/
theorem Sound.retained (sound : b.Sound) (choice : IsChoice b.nodes k n) (holds : b.Holds 0 k) :
    ∃ f ∈ b.stack, f.Retains k := by
  obtain member | ⟨f, member, holds⟩ := holds
  · exact absurd (sound.loose k member) choice.not_runsOn
  · rw [above_zero] at member
    refine ⟨f, member, ?_⟩
    obtain last | ⟨block, kind, rfl | after | waits⟩ := holds
    · exact .inl last
    · exact absurd rfl (choice.ne_select ((sound.frames f member).block block kind).1)
    · exact .inr ⟨block, kind, after.symm⟩
    · exact absurd (((sound.frames f member).block block kind).2.2 k waits) choice.not_runsOn

theorem withChained_stack (b : Builder) (choice line indent : Nat) :
    (b.withChained choice line indent).stack
      = { b.top with last := some b.nodes.length } :: b.below := by
  have length : b.release.nodes.length = b.nodes.length := foldl_aim_length ..
  rw [← length]
  rfl

/-- Chaining a select to a choice. -/
theorem chains (sound : b.Sound) (choice : IsChoice b.nodes k n) (counts : Counts b.nodes k count)
    (line indent : Nat) :
    IsSelect (b.withChained k line indent).nodes b.nodes.length
      ∧ Counts (b.withChained k line indent).nodes b.nodes.length 0
      ∧ Counts (b.withChained k line indent).nodes k (count + 1)
      ∧ edgeAt (b.withChained k line indent).nodes ⟨k, count⟩
        = some (chainEdge b.nodes.length line)
      ∧ Extends (fun i => i = k ∨ RunsOn (b.withChained k line indent).nodes i) (fun _ => True)
        b.nodes (b.withChained k line indent).nodes := by
  let added := b.release.append ⟨.select, line, indent, [], 0, []⟩ false
  have released : Extends (fun _ => False) (· ∈ b.looseEdges) b.nodes b.release.nodes :=
    Extends.foldl_aim (.search b.nodes.length) b.looseEdges b.nodes
  have length : b.release.nodes.length = b.nodes.length := foldl_aim_length ..
  have appended : Extends (RunsOn added.nodes) (· ∈ b.release.looseEdges) b.release.nodes
      added.nodes := append_runs sound.release _ false
  have attached : Extends (fun i => i = k) (fun _ => False) added.nodes
      (b.withChained k line indent).nodes := Extends.attach added.nodes k _
  have still := (choice.mono released).mono appended
  have now := (counts.mono released id).mono appended still.not_runsOn
  obtain ⟨_, isSelect⟩ := sound.withChained line indent
    (choice.imp fun d there => ⟨there.1, there.2.1⟩)
  have empty : Counts added.nodes b.release.nodes.length 0 := append_counts sound.release rfl false
  rw [length] at empty
  refine ⟨isSelect, empty.mono attached (Nat.ne_of_gt choice.lt), now.attach _, ?_, ?_⟩
  · rw [← nextEdge_of_counts now]
    exact edgeAt_attach _ still.lt
  · refine (released.mono (fun _ => False.elim) fun _ _ => trivial).trans
      ((appended.mono (fun i runs => .inr (runs.mono attached)) fun _ _ => trivial).trans
        (attached.mono (fun _ => .inl) fun _ => False.elim))

theorem closeBlock_extends (b : Builder) (block : Block) (outer : Frame) (rest : List Frame) :
    Extends (fun i => i = block.select) (fun _ => True) b.nodes
      (b.closeBlock block outer rest).nodes := by
  cases chained : block.chained with
  | true =>
    rw [closeBlock_chained b outer rest chained]
    exact (Extends.foldl_aim _ _ _).mono (fun _ => False.elim) fun _ _ => trivial
  | false =>
    cases hasElse : block.hasElse with
    | true =>
      rw [closeBlock_complete b outer rest chained hasElse]
      exact .refl _ _ _
    | false =>
      rw [closeBlock_partial b outer rest chained hasElse]
      exact (Extends.attach _ _ _).mono (fun _ => id) fun _ => False.elim

end Builder

/-- A draft in which options are added to a choice. The frame `f`, around which are the frames
`rest`, ends with it, and no other does. -/
structure Collects (b : Builder) (indent : Nat) (f : Frame) (rest : List Frame) (k count : Nat) :
    Prop where
  back : b.Back indent f rest
  last : f.last = some k
  choice : IsChoice b.nodes k indent
  counts : Counts b.nodes k count
  alone : ∀ g ∈ { f with last := none } :: rest, ¬ g.Retains k

namespace Collects

variable {s : Settings} {final b c : Builder} {n k count : Nat} {f : Frame} {rest : List Frame}
  {l : Line} {ls : List Line}

/-- What leaves the frame alone and adds edges to other nodes only. -/
theorem keep (collects : Collects b n f rest k count) {held : Nat → Prop} {loose : EdgeRef → Prop}
    (grown : Extends held loose b.nodes c.nodes) (free : ¬ held k) (back : c.Back n f rest) :
    Collects c n f rest k count :=
  ⟨back, collects.last, collects.choice.mono grown, collects.counts.mono grown free,
    collects.alone⟩

/-- A further node in the frame leaves the choice as it is. -/
theorem append (collects : Collects b n f rest k count) (sound : b.Sound)
    (stack : b.stack = f :: rest) (d : Draft) (connect : Bool) :
    Counts (b.append d connect).nodes k count ∧ ∀ g ∈ (b.append d connect).stack, ¬ g.Retains k := by
  obtain ⟨rfl, rfl⟩ := List.cons.inj stack
  have grown := Builder.append_runs sound d connect
  refine ⟨collects.counts.mono grown (collects.choice.mono grown).not_runsOn, fun g member => ?_⟩
  obtain rfl | inside := List.mem_cons.mp member
  · rintro (last | block)
    · cases last
      exact absurd collects.choice.lt (Nat.lt_irrefl _)
    · exact collects.alone _ List.mem_cons_self (.inr block)
  · exact collects.alone g (List.mem_cons_of_mem _ inside)

/-- So does a further branch of the block that the frame is. -/
theorem toBranch (collects : Collects b n f rest k count) (sound : b.Sound)
    (stack : b.stack = f :: rest) {block : Block} (kind : b.top.kind = .block block) (line : Nat)
    (condition : Option Expression) :
    Counts (b.toBranch block line condition).nodes k count
      ∧ ∀ g ∈ (b.toBranch block line condition).stack, ¬ g.Retains k := by
  obtain ⟨rfl, rfl⟩ := List.cons.inj stack
  have other := collects.choice.ne_select (sound.top.block block kind).1
  refine ⟨collects.counts.mono (Extends.attach _ _ _) other.symm, fun g member => ?_⟩
  obtain rfl | inside := List.mem_cons.mp member
  · rintro (last | ⟨block', same, after⟩)
    · exact other (Option.some.inj last)
    · cases same
      exact collects.alone _ List.mem_cons_self (.inr ⟨block, kind, after⟩)
  · exact collects.alone g (List.mem_cons_of_mem _ inside)

/-- And so does its end. -/
theorem closeBlock (collects : Collects b n f rest k count) (sound : b.Sound)
    (stack : b.stack = f :: rest) {block : Block} (kind : b.top.kind = .block block)
    {outer : Frame} {frames : List Frame} (below : b.below = outer :: frames) :
    Counts (b.closeBlock block outer frames).nodes k count
      ∧ ∀ g ∈ (b.closeBlock block outer frames).stack, ¬ g.Retains k := by
  obtain ⟨rfl, rfl⟩ := List.cons.inj stack
  have other := collects.choice.ne_select (sound.top.block block kind).1
  obtain ⟨top, left⟩ := Builder.closeBlock_top b block outer frames
  refine ⟨collects.counts.mono (Builder.closeBlock_extends ..) other.symm, fun g member => ?_⟩
  have alone := collects.alone
  rw [below] at alone
  rw [Builder.stack, top, left] at member
  obtain rfl | inside := List.mem_cons.mp member
  · rintro (last | inner)
    · exact alone _ List.mem_cons_self (.inr ⟨block, kind, Option.some.inj last⟩)
    · exact alone outer (List.mem_cons_of_mem _ List.mem_cons_self) (.inr inner)
  · exact alone g (List.mem_cons_of_mem _ (List.mem_cons_of_mem _ inside))

/-- A line of the frame that is no label and goes on with no list leaves the choice as it is, and
nothing adds to that any more. -/
theorem moves (collects : Collects b n f rest k count) (finishes : Finishes s final b (l :: ls))
    (stack : b.stack = f :: rest) (fits : b.top.threshold ≤ l.indent)
    (noLabel : l.isLabel = false) (apart : l.joins = false) : Counts final.nodes k count := by
  obtain ⟨c, b', ahead, same, read, clean, _, body, later⟩ := finishes.reads fits
  have sound := finishes.sound
  -- nothing that is read later adds to a choice that no frame retains
  suffices left : Counts c.nodes k count ∧ ∀ g ∈ c.stack, ¬ g.Retains k by
    have proceeds : Builder.Proceeds (fun _ _ => True) 0 0 b c :=
      Builder.Proceeds.readBodyLine finishes.steady.founded (Nat.zero_le _) trivial read
    have choice := collects.choice.mono proceeds.1.nodes
    rw [← body.nodes] at choice
    refine later.counts (body.nodes ▸ left.1) fun holds => ?_
    obtain ⟨g, member, retains⟩ := later.sound.retained choice holds
    exact left.2 g (body.stack ▸ member) retains
  have branch (condition : Option Expression) (keyword : String)
      (quiet : (b.addBranch l.number condition keyword).diagnostics = []) :
      Counts (b.addBranch l.number condition keyword).nodes k count
        ∧ ∀ g ∈ (b.addBranch l.number condition keyword).stack, ¬ g.Retains k := by
    cases kind : b.top.kind with
    | block block =>
      cases more : block.hasElse with
      | true => simp [Builder.addBranch, kind, more, Builder.note] at quiet
      | false =>
        rw [Builder.addBranch_eq l.number condition keyword kind more]
        exact collects.toBranch sound stack kind l.number condition
    | _ => simp [Builder.addBranch, kind, Builder.note] at quiet
  unfold Builder.readBodyLine at read
  rw [same] at read
  unfold Line.isLabel at noLabel
  unfold Line.joins at apart
  cases statement : Statement.read l.body with
  | option text =>
    rw [statement] at apart
    cases apart
  | openIf text =>
    rw [statement] at apart
    cases apart
  | label name =>
    rw [statement] at noLabel
    cases noLabel
  | elseIf text =>
    rw [statement] at read
    obtain ⟨⟨c', condition⟩, given, last⟩ := bind_eq_ok.mp read
    cases last
    obtain ⟨_, rfl⟩ | ⟨message, _, _, rfl⟩ := Builder.readCondition_cases given
    · exact branch _ _ clean
    · have noted : Builder.Proceeds (fun _ _ => True) 0 0 _ _ :=
        Builder.Proceeds.addBranch (b := b.note (.complain l.number ("Bad condition: " ++ message)))
          finishes.steady.founded l.number (some condition) "[elseif]"
      have notes := noted.1.notes
      rw [clean] at notes
      have := List.prefix_nil.mp notes
      simp [Builder.note] at this
  | otherwise =>
    rw [statement] at read
    cases read
    exact branch _ _ clean
  | endIf =>
    rw [statement] at read
    cases read
    unfold Builder.endIf at clean ⊢
    split
    next block outer frames kind below => exact collects.closeBlock sound stack kind below
    · simp [Builder.note] at clean
  | goto name =>
    rw [statement] at read
    cases read
    exact collects.append sound stack _ _
  | assign name text =>
    rw [statement] at read
    obtain ⟨⟨c', draft⟩, given, last⟩ := bind_eq_ok.mp read
    cases last
    obtain ⟨_, _, rfl, rfl⟩ | ⟨_, _, rfl, rfl⟩ := Builder.readAssignment_cases given
    · exact collects.append sound stack _ _
    · simp [Builder.note] at clean
  | event name text =>
    rw [statement] at read
    obtain ⟨answer, _, last⟩ := bind_eq_ok.mp read
    cases answer with
    | ok args =>
      cases last
      exact collects.append sound stack _ _
    | error message =>
      cases last
      simp [Builder.note] at clean
  | speech speaker text =>
    rw [statement] at read
    cases read
    exact collects.append sound stack _ _
  | bare text =>
    rw [statement] at read
    cases read
    obtain ⟨speaker, appended⟩ := Builder.bare_eq clean
    rw [appended]
    exact collects.append sound stack _ _
  | unknown text =>
    rw [statement] at read
    cases read
    simp [Builder.note] at clean

/-- Once no line that goes on with the list can reach its frame, the choice stays as it is. -/
theorem closed (collects : Collects b n f rest k count) (finishes : Finishes s final b ls)
    (apart : ∀ l, ls.find? (!·.isLabel) = some l →
      l.indent ≤ n ∧ (l.joins = false ∨ l.indent < f.threshold)) : Counts final.nodes k count := by
  induction ls generalizing b with
  | nil =>
    cases finishes with
    | ended _ last done clean =>
      rw [← done] at clean ⊢
      exact collects.counts.mono (Builder.finish_spares clean) id
  | cons l ls ih =>
    obtain ⟨c, leaves, fits, now⟩ := finishes.settled
    by_cases closes : l.indent < f.threshold
    · -- the frame is closed, and the ones around it do not end with the choice
      have lower : l.indent ≤ n := Nat.le_of_lt (Nat.lt_of_lt_of_le closes collects.back.fits)
      have stack : c.stack = rest.dropWhile fun f => l.indent < f.threshold := by
        rw [leaves.stack, ← dropWhile_lower b.stack lower,
          show _ = _ from collects.back, List.dropWhile_cons_of_pos (by simpa using closes)]
      have choice := collects.choice.mono leaves.nodes
      refine now.counts (collects.counts.mono leaves.nodes id) fun holds => ?_
      obtain ⟨g, member, retains⟩ := now.sound.retained choice holds
      rw [stack] at member
      exact collects.alone g
        (List.mem_cons_of_mem _ ((List.dropWhile_sublist _).subset member)) retains
    · have within := Nat.le_of_not_lt closes
      cases label : l.isLabel with
      | true =>
        obtain ⟨b', same, later⟩ := now.at_label fits label
        have back : b'.Back n f rest := by
          rw [Builder.Back, same.stack]
          exact collects.back.leaves leaves within
        have grown : Extends (fun _ => False) (· ∈ b.looseEdges) b.nodes b'.nodes :=
          same.nodes ▸ leaves.nodes
        refine ih (collects.keep grown id back) later fun l' found => apart l' ?_
        rw [List.find?_cons_of_neg (by simp [label])]
        exact found
      | false =>
        obtain ⟨lower, joins | outside⟩ := apart l (List.find?_cons_of_pos (by simp [label]))
        · have stack : c.stack = f :: rest := leaves.stack.trans (collects.back.lower lower within)
          have back : c.Back n f rest := collects.back.leaves leaves within
          exact (collects.keep leaves.nodes id back).moves now stack fits label joins
        · exact absurd outside closes

/-! ### An option -/

/-- A line that closes no frame around the choice finds its frame innermost. -/
theorem settled (collects : Collects b n f rest k count) (leaves : b.Leaves c n) :
    Collects c n f rest k count ∧ c.stack = f :: rest :=
  ⟨collects.keep leaves.nodes id (collects.back.leaves leaves collects.back.fits),
    leaves.back collects.back⟩

theorem atChoice_eq (collects : Collects b n f rest k count) (stack : b.stack = f :: rest)
    (line indent : Nat) : b.atChoice line indent = b.release := by
  obtain ⟨rfl, rfl⟩ := List.cons.inj stack
  obtain ⟨d, there, step, _⟩ := collects.choice
  unfold Builder.atChoice Builder.lastOf
  rw [collects.last, Option.bind_some, there]
  simp [step, Step.kind]

theorem option (collects : Collects b n f rest k count) {content : List Line}
    (finishes : Finishes s final b (l :: (content ++ ls))) (indent : l.indent = n)
    (isOption : l.isOption = true) (inside : ∀ l' ∈ content, n < l'.indent) :
    ∃ b', Finishes s final b' ls ∧ Collects b' n f rest k (count + 1)
      ∧ Widens final.nodes (fun i => i = k) b.nodes b'.nodes
      ∧ OptionEdge final.nodes k count l := by
  subst indent
  obtain ⟨c, leaves, fits, now⟩ := finishes.settled
  obtain ⟨settled, stack⟩ := collects.settled leaves
  have joins := settled.atChoice_eq stack l.number l.indent
  obtain ⟨rfl, rfl⟩ := List.cons.inj stack
  obtain ⟨text, o, statement, same, later⟩ := now.at_option fits isOption
  have last : (c.atChoice l.number l.indent).top.last = some k := by
    rw [joins]
    exact collects.last
  have opened := Builder.option_eq text l.textId last
  rw [joins] at opened
  have released : Extends (fun _ => False) (· ∈ c.looseEdges) c.nodes c.release.nodes :=
    Extends.foldl_aim (.search c.nodes.length) c.looseEdges c.nodes
  have counts := settled.counts.mono released id
  have nodes : o.nodes = attach c.release.nodes k
      (c.release.optionEdge k l.number text l.textId) := by
    rw [same.nodes, opened]
  have frames : o.stack = c.release.optionFrame k l.number l.indent :: c.top :: c.below := by
    rw [same.stack, opened]
    rfl
  -- the content of the option leaves the frame of the choice and the choice alone
  obtain ⟨b', ended, proceeds, _⟩ := later.through
  have founded : Founded (c.top :: c.below).length (l.indent + 1) o.stack := by
    rw [frames]
    exact .floor rfl rfl fun _ kind => by cases kind
  obtain ⟨grown, still⟩ := proceeds founded inside
  have free (i : Nat) : ¬ o.Holds (c.top :: c.below).length i := by
    have none := @Builder.holds_option c l.number l.indent text l.textId i
    rw [Builder.Holds, same.looseNodes, same.stack]
    rw [opened] at none ⊢
    exact none
  have outer : outermost (c.top :: c.below).length b'.stack = c.top :: c.below := by
    rw [grown.outer, frames, outermost_cons _ (Nat.le_refl _), outermost_length_self]
  have first : Extends (fun i => i = k) (fun _ => True) b.nodes o.nodes := by
    rw [nodes]
    exact ((leaves.nodes.mono (fun _ => False.elim) fun _ _ => trivial).trans
      (released.mono (fun _ => False.elim) fun _ _ => trivial)).trans
      ((Extends.attach _ k _).mono (fun _ => id) fun _ => False.elim)
  refine ⟨b', ended, ⟨Builder.back_of_founded still outer collects.back.fits, collects.last,
    (collects.choice.mono first).mono grown.nodes, ?_, collects.alone⟩,
    Widens.of_extends (first.trans (grown.nodes.mono (fun i holds => absurd holds (free i))
      fun _ _ => trivial)), ?_⟩
  · refine Counts.mono grown.nodes ?_ (free k)
    rw [nodes]
    exact counts.attach _
  · have there : edgeAt o.nodes ⟨k, count⟩
        = some (c.release.optionEdge k l.number text l.textId) := by
      rw [nodes, ← nextEdge_of_counts counts]
      exact Builder.edgeAt_attach _ (settled.choice.mono released).lt
    obtain ⟨e, now, core, _⟩ := later.edge there
    have sameText : e.text = text := congrArg DraftEdge.text core
    have sameParams : e.params = Template.params text := congrArg DraftEdge.params core
    refine ⟨e, now, DraftEdge.kind_eq_of_core core, ?_, congrArg DraftEdge.textId core, ?_⟩
    · rw [sameText]
      exact statement
    · rw [sameText]
      exact sameParams

end Collects

/-! ### Blocks -/

/-- A draft within the block `block`, which is chained to the choice that the frame `f` ends with.
The frame `g` of the block is in that one, and of the select so many branches have been read. -/
structure Splits (b : Builder) (indent : Nat) (g : Frame) (block : Block) (f : Frame)
    (rest : List Frame) (count : Nat) : Prop where
  back : b.Back indent g ({ f with last := some block.select } :: rest)
  kind : g.kind = .block block
  chained : block.chained = true
  counts : Counts b.nodes block.select count
  alone : ∀ h ∈ { f with last := none } :: rest, ¬ h.Holds block.select
  apart : block.after ≠ block.select

/-- A draft at the beginning of a branch, the edge of which waits for what the branch leads to. -/
structure Begins (b : Builder) (indent : Nat) (g : Frame) (block : Block) (f : Frame)
    (rest : List Frame) (slot : Nat) (condition : Expression) : Prop where
  splits : Splits b indent g block f rest (slot + 1)
  stack : b.stack = g :: { f with last := some block.select } :: rest
  last : g.last = some block.select
  near : b.looseEdges = [⟨block.select, slot⟩]
  edge : ∃ destination, BranchEdge b.nodes block.select slot condition destination

/-- Whether the edges that wait lead to the end if a line at an indent closes no frame before it
closes a branch. -/
def EndsOpen (nodes : List Draft) (b : Builder) (indent : Nat) : Prop :=
  b.top.threshold ≤ indent → ∀ r ∈ b.looseEdges, EdgeLeads nodes r .end

namespace Collects

variable {s : Settings} {final b : Builder} {n k count : Nat} {f : Frame} {rest : List Frame}
  {l : Line} {ls : List Line}

/-- A block at the indent of a choice is chained to it. -/
theorem openIf (collects : Collects b n f rest k count) (finishes : Finishes s final b (l :: ls))
    {condition : Expression} (guards : l.Guards n .openIf condition) :
    ∃ b' g block, Finishes s final b' ls ∧ Begins b' n g block f rest 0 condition
      ∧ block.after = k ∧ block.hasElse = false ∧ b.nodes.length ≤ block.select
      ∧ Counts b'.nodes k (count + 1) ∧ Widens final.nodes (fun i => i = k) b.nodes b'.nodes
      ∧ ChainEdge final.nodes k count block.select := by
  obtain rfl : l.indent = n := guards.choose_spec.1.1
  obtain ⟨c, leaves, fits, now⟩ := finishes.settled
  obtain ⟨settled, stack⟩ := collects.settled leaves
  obtain ⟨rfl, rfl⟩ := List.cons.inj stack
  obtain ⟨b', same, later⟩ := now.at_openIf fits guards
  have follows : c.follows l.indent = true := by
    obtain ⟨d, there, step, indent⟩ := settled.choice
    unfold Builder.follows Builder.lastOf
    rw [collects.last, Option.bind_some, there]
    simp [step, Step.kind, indent]
  have head : c.atHead l.number l.indent = c := by rw [Builder.atHead, if_pos follows]
  have last : (c.atHead l.number l.indent).top.last = some k := by
    rw [head]
    exact collects.last
  have opened := Builder.openIf_chained condition
    (show (c.follows l.indent || starred ls) = true by rw [follows, Bool.true_or]) last
  rw [head] at opened
  obtain ⟨isSelect, empty, counts, chain, grown⟩ :=
    Builder.chains now.sound settled.choice settled.counts l.number l.indent
  let block : Block := { select := c.nodes.length, chained := true, after := k }
  let g := Builder.blockFrame c.nodes.length k l.number l.indent c.top.reach true
  let edge := Builder.branchEdge l.number c.top.reach
    (c.withChained k l.number l.indent).path condition
  have nodes : b'.nodes = attach (c.withChained k l.number l.indent).nodes c.nodes.length edge := by
    rw [same.nodes, opened]
    rfl
  have frames : b'.stack = g :: { c.top with last := some c.nodes.length } :: c.below := by
    rw [same.stack, opened, ← Builder.withChained_stack c k l.number l.indent]
    rfl
  have near : b'.looseEdges = [⟨c.nodes.length, 0⟩] := by
    rw [same.looseEdges, opened, ← nextEdge_of_counts empty]
    rfl
  generalize c.withChained k l.number l.indent = w at isSelect empty counts chain grown nodes edge
  have attached : Extends (fun i => i = c.nodes.length) (fun _ => False) w.nodes b'.nodes := by
    rw [nodes]
    exact Extends.attach ..
  have other : k ≠ c.nodes.length := Nat.ne_of_lt settled.choice.lt
  have filled : Counts b'.nodes c.nodes.length 1 := by
    rw [nodes]
    exact empty.attach _
  have whole : Extends (fun i => i = k ∨ RunsOn b'.nodes i) (fun _ => True) c.nodes b'.nodes := by
    refine grown.trans_new (attached.mono (fun i here => ?_) fun _ => False.elim) |>.mono ?_ fun _ => id
    · exact .inr (Nat.le_of_eq here.symm)
    · exact fun i => Or.imp_right fun runs => runs.mono attached
  refine ⟨b', g, block, later, ⟨⟨?_, rfl, rfl, filled, ?_, other⟩, frames, rfl, near, ?_⟩, rfl, rfl,
    Nat.le_of_eq leaves.count.symm, counts.mono attached other, ?_, ?_⟩
  · exact Builder.back_of_stack frames (Nat.le_refl _)
  · intro h member holds
    obtain rfl | inside := List.mem_cons.mp member
    · exact absurd (now.sound.top.endless.lt_of_holds holds) (Nat.lt_irrefl _)
    · have sound := now.sound.frames h (List.mem_cons_of_mem _ inside)
      exact absurd (sound.lt_of_holds holds) (Nat.lt_irrefl _)
  · refine ⟨_, edge, ?_, rfl, rfl, rfl⟩
    rw [nodes, ← nextEdge_of_counts empty]
    exact Builder.edgeAt_attach _ isSelect.lt
  · refine (Widens.of_extends (leaves.nodes.mono (fun _ => False.elim) fun _ => id)).trans
      (whole.mono ?_ fun _ => id)
    exact fun i => Or.imp_right fun runs => runs.mono later.grows.nodes
  · -- the edge is new, so none of those that wait, and the only one that begins to wait is another
    obtain ⟨e, there, _, fixed⟩ := attached.edge chain
    cases fixed id
    obtain ⟨e, now', _, fixed⟩ := later.edge there
    refine ⟨(isSelect.mono attached).mono later.grows.nodes, e, now', ?_⟩
    rw [fixed fun waits => ?_]
    · exact ⟨rfl, rfl⟩
    · have pending : (⟨k, count⟩ : EdgeRef) ∉ c.pending := fun member => by
        obtain ⟨e, found, _⟩ := now.sound.pending_tieable member
        rw [settled.counts.absent] at found
        cases found
      obtain member | parked := List.mem_append.mp waits
      · rw [near, List.mem_singleton] at member
        exact other (congrArg EdgeRef.node member)
      · rw [frames] at parked
        exact pending (List.mem_append_right _ parked)

end Collects

namespace Splits

variable {s : Settings} {final b c : Builder} {n count : Nat} {g f : Frame} {block : Block}
  {rest : List Frame} {l : Line} {ls : List Line}

/-- What leaves the frame alone and adds edges to other nodes only. -/
theorem keep (splits : Splits b n g block f rest count) {held : Nat → Prop}
    {loose : EdgeRef → Prop} (grown : Extends held loose b.nodes c.nodes)
    (free : ¬ held block.select)
    (back : c.Back n g ({ f with last := some block.select } :: rest)) :
    Splits c n g block f rest count :=
  ⟨back, splits.kind, splits.chained, splits.counts.mono grown free, splits.alone, splits.apart⟩

/-- A line that closes no frame around the block finds its frame innermost. -/
theorem settled (splits : Splits b n g block f rest count) (leaves : b.Leaves c n) :
    Splits c n g block f rest count
      ∧ c.stack = g :: { f with last := some block.select } :: rest :=
  ⟨splits.keep leaves.nodes id (splits.back.leaves leaves splits.back.fits),
    leaves.back splits.back⟩

/-- A further branch of the block. What waits at the end of the one before is kept until the block
ends. -/
theorem branch (splits : Splits b n g block f rest count) (more : block.hasElse = false)
    (finishes : Finishes s final b (l :: ls)) {condition : Option Expression}
    (branches : l.Branches n condition) :
    ∃ b' g' block', Finishes s final b' ls
      ∧ Begins b' n g' block' f rest count (condition.getD Expression.always)
      ∧ block'.select = block.select ∧ block'.after = block.after
      ∧ block'.hasElse = condition.isNone
      ∧ Widens final.nodes (fun i => i = block.select) b.nodes b'.nodes
      ∧ (∀ r ∈ block.looseEdges, r ∈ block'.looseEdges)
      ∧ (b.top.threshold ≤ n → ∀ r ∈ b.looseEdges, r ∈ block'.looseEdges) := by
  obtain rfl : l.indent = n := branches.indent
  obtain ⟨c, leaves, fits, now⟩ := finishes.settled
  obtain ⟨settled, stack⟩ := splits.settled leaves
  obtain ⟨rfl, below⟩ := List.cons.inj stack
  obtain ⟨keyword, b', same, later⟩ := now.at_branch fits branches
  rw [Builder.addBranch_eq l.number condition keyword splits.kind more] at same
  have nodes : b'.nodes = attach c.nodes block.select _ := same.nodes
  have attached : Extends (fun i => i = block.select) (fun _ => False) c.nodes b'.nodes := by
    rw [nodes]
    exact Extends.attach ..
  have frames : b'.stack = _ :: c.below := same.stack
  rw [below] at frames
  have bound : block.select < c.nodes.length := (now.sound.top.block block splits.kind).1.lt
  refine ⟨b', _, c.nextBranch block condition.isNone, later, ⟨⟨?_, rfl, splits.chained, ?_,
    splits.alone, splits.apart⟩, frames, rfl, ?_, ?_⟩, rfl, rfl, rfl, ?_, ?_, ?_⟩
  · exact Builder.back_of_stack frames splits.back.fits
  · rw [nodes]
    exact settled.counts.attach _
  · exact same.looseEdges.trans (congrArg (fun r => [r]) (nextEdge_of_counts settled.counts))
  · have there := Builder.edgeAt_attach (Builder.branchEdge l.number c.top.reach
      ((c.below.reverse).filterMap Frame.branch?) (condition.getD Expression.always)) bound
    rw [nextEdge_of_counts settled.counts] at there
    exact ⟨.open, _, nodes ▸ there, rfl, rfl, rfl⟩
  · exact (Widens.of_extends (leaves.nodes.mono (fun _ => False.elim) fun _ => id)).trans
      (Widens.of_extends attached)
  · exact fun r member => List.mem_append_left _ member
  · intro upper r member
    rw [leaves.stays upper]
    exact List.mem_append_right _ member

/-- At the end of a chained block what waits in it is to end, and its select has all its branches. -/
theorem close (splits : Splits b n g block f rest count) (finishes : Finishes s final b (l :: ls))
    (ends : l.Says n .endIf) :
    ∃ b', Finishes s final b' ls ∧ b'.stack = { f with last := some block.after } :: rest
      ∧ Widens final.nodes (fun _ => False) b.nodes b'.nodes
      ∧ Counts final.nodes block.select count
      ∧ (∀ r ∈ block.looseEdges, EdgeLeads final.nodes r .end)
      ∧ EndsOpen final.nodes b n := by
  obtain rfl : l.indent = n := ends.1
  obtain ⟨c, leaves, fits, now⟩ := finishes.settled
  obtain ⟨settled, stack⟩ := splits.settled leaves
  obtain ⟨rfl, below⟩ := List.cons.inj stack
  obtain ⟨b', same, later⟩ := now.at_endIf fits ends
  have closed : c.endIf l.number
      = c.closeBlock block { f with last := some block.select } rest := by
    unfold Builder.endIf
    rw [splits.kind, below]
  rw [closed, Builder.closeBlock_chained c _ rest splits.chained] at same
  have nodes : b'.nodes = (c.closedBlock block).looseEdges.foldl (aim .end) c.nodes := same.nodes
  have frames : b'.stack = { f with last := some block.after } :: rest := same.stack
  have aimed : Extends (fun _ => False) (· ∈ (c.closedBlock block).looseEdges) c.nodes b'.nodes := by
    rw [nodes]
    exact Extends.foldl_aim ..
  -- an edge of the block waits nowhere else
  have leads : ∀ r ∈ (c.closedBlock block).looseEdges, EdgeLeads final.nodes r .end := by
    intro r member
    obtain ⟨e, there, _⟩ := now.sound.closedBlock_edges splits.kind r member
    have ended : edgeAt b'.nodes r = some (e.aimed .end) := by
      rw [nodes, edgeAt_foldl_aim, if_pos member, there]
      rfl
    obtain ⟨e', last, _, fixed⟩ := later.edge ended
    refine ⟨e', last, ?_⟩
    rw [fixed fun waits => ?_]
    · rfl
    · have apart := (Builder.Sound.closedBlock_pending splits.kind).nodup_iff.mp now.sound.apart
      rw [below] at apart
      obtain none | parked := List.mem_append.mp waits
      · rw [show b'.looseEdges = [] from same.looseEdges] at none
        cases none
      · rw [frames] at parked
        exact (List.nodup_append.mp apart).2.2 r member r parked rfl
  refine ⟨b', later, frames, ?_, ?_, ?_, ?_⟩
  · exact Widens.of_extends ((leaves.nodes.mono (fun _ => id) fun _ _ => trivial).trans
      (aimed.mono (fun _ => id) fun _ _ => trivial))
  · refine later.counts (settled.counts.mono aimed id) fun holds => ?_
    have isSelect := (now.sound.top.block block splits.kind).1
    obtain member | ⟨h, member, holds⟩ := holds
    · rw [show b'.looseNodes = _ from same.looseNodes] at member
      exact isSelect.not_runsOn (now.sound.closedBlock_loose splits.kind _ member)
    · rw [above_zero, frames] at member
      obtain rfl | inside := List.mem_cons.mp member
      · obtain last | isBlock := holds
        · exact splits.apart (Option.some.inj last)
        · exact splits.alone _ List.mem_cons_self (.inr isBlock)
      · exact splits.alone h (List.mem_cons_of_mem _ inside) holds
  · exact fun r member => leads r (List.mem_append_left _ member)
  · intro upper r member
    refine leads r (List.mem_append_right _ ?_)
    rw [leaves.stays upper]
    exact member

end Splits

end Colloquy.Script
