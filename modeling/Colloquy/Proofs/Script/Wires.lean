import Colloquy.Proofs.Script.LooseEnds
import Colloquy.Proofs.Script.Outlook
/-!
# Wiring follows the outlook

While the lines of a script are read, every node of the draft does what its line does, every edge
leads where execution arrives, and every loose end waits where the outlook of the lines ahead will
tie it to just that place. Selects have the branches that have been read, and the outlook has those
that are still to come.
-/

namespace Colloquy.Script.Builder

/-- A draft whose edges lead where execution arrives, or will, given the outlook of the lines
ahead. -/
structure Wired (script : List Item) (o : Outlook) (b : Builder) : Prop where
  steps : ∀ (i : Nat) (d : Draft), b.nodes[i]? = some d →
    ∃ item rest, (stations script)[i]? = some (item :: rest) ∧ item.Fits d.step
  near : ∀ r, b.Near r → Wants script r o.near
  far : ∀ depth r, b.Far depth r → Wants script r (o.far depth)
  settled : ∀ r e, edgeAt b.nodes r = some e → e.destination = .open ∨
    ∃ (j : Nat) (lines : List Item), e.destination = .to j ∧ (stations script)[j]? = some lines
      ∧ Wants script r lines
  waits : ∀ r, Unsettled b.nodes r → b.Near r ∨ ∃ depth, b.Far depth r

namespace Wired

variable {script lines : List Item} {o o' : Outlook} {b : Builder} {d : Draft}

/-- A further node ties what is near; only a step is near from then on. -/
theorem append (wired : Wired script o b) (sound : b.Sound) (fresh : d.edges = [])
    {item : Item} {rest : List Item}
    (station : (stations script)[b.nodes.length]? = some (item :: rest)) (fits : item.Fits d.step)
    (here : o.near = item :: rest) (far : o'.far = o.far)
    (near : d.step.isSequential = true → Wants script ⟨b.nodes.length, 0⟩ o'.near) :
    Wired script o' (b.append d true) where
  steps i d₁ there := by
    have bound := (List.getElem?_eq_some_iff.mp there).1
    rw [append_length] at bound
    rcases Nat.lt_succ_iff_lt_or_eq.mp bound with old | rfl
    · obtain ⟨d', now, core, _⟩ := append_old sound d (List.getElem?_eq_getElem old)
      rw [there] at now
      cases now
      rw [Draft.step_eq_of_core core]
      exact wired.steps i _ (List.getElem?_eq_getElem old)
    · obtain ⟨d', now, core, _⟩ := append_new sound fresh
      rw [there] at now
      cases now
      refine ⟨item, rest, station, ?_⟩
      have step := congrArg Draft.step core
      change d₁.step = d.step at step
      rw [step]
      exact fits
  near r isNear := by
    obtain ⟨rfl, sequential⟩ := append_near sound isNear
    exact near sequential
  far depth r isFar := by
    rw [far]
    exact wired.far depth r (append_far sound isFar)
  settled r e there := by
    rcases append_edge sound fresh there with ⟨old, _⟩ | ⟨target, isNear, _⟩
    · exact wired.settled r e old
    · exact Or.inr ⟨_, _, target, station, here ▸ wired.near r isNear⟩
  waits r unsettled := by
    rcases append_unsettled sound fresh unsettled with ⟨was, notNear, stays⟩ | isNear
    · rcases wired.waits r was with isNear | ⟨depth, isFar⟩
      · exact absurd isNear notNear
      · exact Or.inr ⟨depth, stays depth isFar⟩
    · exact Or.inl isNear

/-- A block that begins over a draft in which nothing is near. -/
theorem enterBlock {f : Frame} {block : Block} {edge : DraftEdge} (wired : Wired script o b)
    (isSelect : IsSelect b.nodes block.select) (kind : f.kind = .block block)
    (last : f.last = some block.select) (edges : block.looseEdges = [])
    (parked : block.looseNodes = []) (nodes : b.looseNodes = []) (free : ∀ r, ¬ b.Near r)
    (isOpen : edge.destination = .open) (far : ∀ depth, o'.far (depth + 1) = o.far depth)
    (near : Wants script (nextEdge b.nodes block.select) o'.near) :
    Wired script o' (b.enterBlock f block.select edge) where
  steps i d₁ there := by
    obtain ⟨d₀, before, core, _⟩ := attach_old there
    rw [Draft.step_eq_of_core core]
    exact wired.steps i d₀ before
  near r isNear := by
    rw [enterBlock_near isSelect last nodes isNear]
    exact near
  far depth r isFar := by
    cases depth with
    | zero =>
      have empty := (far_zero (b := b.enterBlock f block.select edge) kind r).mp isFar
      rcases empty with waits | ⟨_, _, member⟩
      · rw [edges] at waits
        cases waits
      · rw [parked] at member
        cases member
    | succ depth =>
      rw [far]
      exact wired.far depth r ((enterBlock_far isSelect).mp isFar)
  settled r e there := by
    rcases edgeAt_attach_some there with old | ⟨_, rfl⟩
    · exact wired.settled r e old
    · exact Or.inl isOpen
  waits r unsettled := by
    rcases unsettled_attach (notSequential_of_select isSelect) unsettled with was | rfl
    · rcases wired.waits r was with isNear | ⟨depth, isFar⟩
      · exact absurd isNear (free r)
      · exact Or.inr ⟨depth + 1, (enterBlock_far isSelect).mpr isFar⟩
    · exact Or.inl (Or.inl (List.mem_singleton_self _))

/-- The next branch of the innermost block. -/
theorem toBranch {block : Block} {line : Nat} {condition : Option Expression}
    (wired : Wired script o b) (sound : b.Sound) (kind : b.top.kind = .block block)
    (joined : o.near = o.far 0) (far : o'.far = o.far)
    (near : Wants script (nextEdge b.nodes block.select) o'.near) :
    Wired script o' (b.toBranch block line condition) := by
  obtain ⟨isSelect, _, _⟩ := sound.top.block block kind
  refine ⟨fun i d₁ there => ?_, fun r isNear => ?_, fun depth r isFar => ?_,
    fun r e there => ?_, fun r unsettled => ?_⟩
  · obtain ⟨d₀, before, core, _⟩ := attach_old there
    rw [Draft.step_eq_of_core core]
    exact wired.steps i d₀ before
  · rw [toBranch_near isSelect isNear]
    exact near
  · rw [far]
    rcases (toBranch_far sound kind).mp isFar with was | ⟨rfl, isNear⟩
    · exact wired.far depth r was
    · exact joined ▸ wired.near r isNear
  · rcases edgeAt_attach_some there with old | ⟨_, rfl⟩
    · exact wired.settled r e old
    · exact Or.inl rfl
  · rcases unsettled_attach (notSequential_of_select isSelect) unsettled with was | rfl
    · rcases wired.waits r was with isNear | ⟨depth, isFar⟩
      · exact Or.inr ⟨0, (toBranch_far sound kind).mpr (Or.inr ⟨rfl, isNear⟩)⟩
      · exact Or.inr ⟨depth, (toBranch_far sound kind).mpr (Or.inl isFar)⟩
    · exact Or.inl (Or.inl (List.mem_singleton_self _))

/-- The end of the innermost block, but for the branch that it may lack. -/
theorem afterBlock {block : Block} {outer : Frame} {rest : List Frame}
    (wired : Wired script o b) (sound : b.Sound) (kind : b.top.kind = .block block)
    (after : block.after = block.select) (below : b.below = outer :: rest)
    (joined : o.far 0 = o.near) (near : o'.near = o.near)
    (far : ∀ depth, o'.far depth = o.far (depth + 1)) :
    Wired script o' (b.afterBlock block outer rest) where
  steps := wired.steps
  near r isNear := by
    rw [near]
    rcases (afterBlock_near sound kind after).mp isNear with was | isFar
    · exact wired.near r was
    · exact joined ▸ wired.far 0 r isFar
  far depth r isFar := by
    rw [far]
    exact wired.far (depth + 1) r ((afterBlock_far below).mp isFar)
  settled := wired.settled
  waits r unsettled := by
    rcases wired.waits r unsettled with isNear | ⟨_ | depth, isFar⟩
    · exact Or.inl ((afterBlock_near sound kind after).mpr (Or.inl isNear))
    · exact Or.inl ((afterBlock_near sound kind after).mpr (Or.inr isFar))
    · exact Or.inr ⟨depth, (afterBlock_far below).mpr isFar⟩

/-- The branch that a block may lack. -/
theorem withBranch {select : Nat} {edge : DraftEdge} (wired : Wired script o b)
    (isSelect : IsSelect b.nodes select) (isOpen : edge.destination = .open)
    (near : Wants script (nextEdge b.nodes select) o.near) :
    Wired script o (b.withBranch select edge) where
  steps i d₁ there := by
    obtain ⟨d₀, before, core, _⟩ := attach_old there
    rw [Draft.step_eq_of_core core]
    exact wired.steps i d₀ before
  near r isNear := by
    rcases (withBranch_near isSelect).mp isNear with was | rfl
    · exact wired.near r was
    · exact near
  far depth r isFar := wired.far depth r ((withBranch_far isSelect).mp isFar)
  settled r e there := by
    rcases edgeAt_attach_some there with old | ⟨_, rfl⟩
    · exact wired.settled r e old
    · exact Or.inl isOpen
  waits r unsettled := by
    rcases unsettled_attach (notSequential_of_select isSelect) unsettled with was | rfl
    · rcases wired.waits r was with isNear | ⟨depth, isFar⟩
      · exact Or.inl ((withBranch_near isSelect).mpr (Or.inl isNear))
      · exact Or.inr ⟨depth, (withBranch_far isSelect).mpr isFar⟩
    · exact Or.inl ((withBranch_near isSelect).mpr (Or.inr rfl))

/-- The node of the line that opens a block is a select. -/
theorem isSelect (wired : Wired script o b) {i : Nat} {c : Expression} {rest : List Item}
    (bound : i < b.nodes.length) (station : (stations script)[i]? = some (.openIf c :: rest)) :
    IsSelect b.nodes i := by
  have there := List.getElem?_eq_getElem bound
  obtain ⟨item, lines, found, fits⟩ := wired.steps i _ there
  rw [station] at found
  cases found
  exact ⟨_, there, fits⟩

end Wired

/-! ### Branches -/

/-- Whether a block is open at a depth. -/
def Opens (b : Builder) (depth : Nat) (block : Block) : Prop :=
  ∃ f, b.stack[depth]? = some f ∧ f.kind = .block block

/-- A draft whose selects have their branches up to those that the outlook has. -/
structure Branched (script : List Item) (o : Outlook) (b : Builder) : Prop where
  conditions : ∀ (r : EdgeRef) (e : DraftEdge), edgeAt b.nodes r = some e →
    ∀ c rest, (stations script)[r.node]? = some (.openIf c :: rest) →
      ∃ arm, (armsOf c rest)[r.slot]? = some arm ∧ e.condition = some arm.1
  blocks : ∀ depth block, b.Opens depth block → block.chained = false ∧ block.after = block.select
    ∧ ∃ d c rest, b.nodes[block.select]? = some d
      ∧ (stations script)[block.select]? = some (.openIf c :: rest)
      ∧ (armsOf c rest).drop d.edges.length = o.left depth block.hasElse
  apart : ∀ depth depth' block block', b.Opens depth block → b.Opens depth' block' →
    block.select = block'.select → depth = depth'

/-- Whether a select that is not open has all its branches. -/
def Complete (script : List Item) (b : Builder) (i : Nat) : Prop :=
  ∀ d c rest, b.nodes[i]? = some d → (stations script)[i]? = some (.openIf c :: rest) →
    (∃ depth block, b.Opens depth block ∧ block.select = i)
      ∨ (armsOf c rest).length ≤ d.edges.length

section Branches

variable {script : List Item} {o o' : Outlook} {b : Builder} {d : Draft}

theorem append_opens (b : Builder) (d : Draft) (depth : Nat) (block : Block) :
    (b.append d true).Opens depth block ↔ b.Opens depth block := by
  cases depth with
  | zero =>
    constructor
    · rintro ⟨f, there, kind⟩
      cases there
      exact ⟨b.top, rfl, kind⟩
    · rintro ⟨f, there, kind⟩
      cases there
      exact ⟨_, rfl, kind⟩
  | succ depth => exact Iff.rfl

/-- The number of branches of a select stays as it is when a node is added. -/
theorem append_select (wired : Wired script o b) (sound : b.Sound) {i : Nat} {c : Expression}
    {rest : List Item} {d₁ : Draft} (bound : i < b.nodes.length)
    (station : (stations script)[i]? = some (.openIf c :: rest))
    (there : (b.append d true).nodes[i]? = some d₁) :
    ∃ d₀, b.nodes[i]? = some d₀ ∧ d₁.edges.length = d₀.edges.length := by
  have before := List.getElem?_eq_getElem bound
  obtain ⟨d', now, _, ⟨⟨d₀, found, loose⟩, _⟩ | ⟨_, count, _⟩⟩ := append_old sound d before
  · have noStep := notSequential_of_select (wired.isSelect bound station) d₀ found
    rw [(isLoose_iff.mp loose).1] at noStep
    cases noStep
  · rw [there] at now
    cases now
    exact ⟨_, before, count⟩

theorem Branched.append (branched : Branched script o b) (wired : Wired script o b)
    (sound : b.Sound) (fresh : d.edges = []) (left : o'.left = o.left) :
    Branched script o' (b.append d true) where
  conditions r e there c rest station := by
    rcases append_edge sound fresh there with ⟨old, _⟩ | ⟨_, _, loose | ⟨e₀, old, core⟩⟩
    · exact branched.conditions r e old c rest station
    · have noStep := notSequential_of_select (wired.isSelect (looseAt_lt loose) station)
      obtain ⟨d₀, found, isLoose⟩ := loose
      have := noStep d₀ found
      rw [(isLoose_iff.mp isLoose).1] at this
      cases this
    · obtain ⟨arm, chosen, condition⟩ := branched.conditions r e₀ old c rest station
      have same := congrArg DraftEdge.condition core
      exact ⟨arm, chosen, same.trans condition⟩
  blocks depth block opens := by
    obtain ⟨unchained, after, d₀, c, rest, there, station, ahead⟩ :=
      branched.blocks depth block ((append_opens b d depth block).mp opens)
    have bound := (List.getElem?_eq_some_iff.mp there).1
    obtain ⟨d₁, now⟩ : ∃ d₁, (b.append d true).nodes[block.select]? = some d₁ :=
      ⟨_, List.getElem?_eq_getElem (by rw [append_length]; omega)⟩
    obtain ⟨d', found, count⟩ := append_select wired sound bound station now
    rw [there] at found
    cases found
    exact ⟨unchained, after, d₁, c, rest, now, station, by rw [count, ahead, left]⟩
  apart depth depth' block block' opens opens' :=
    branched.apart depth depth' block block' ((append_opens b d depth block).mp opens)
      ((append_opens b d depth' block').mp opens')

theorem Complete.append {i : Nat} (complete : Complete script b i) (wired : Wired script o b)
    (sound : b.Sound) (bound : i < b.nodes.length) : Complete script (b.append d true) i := by
  intro d₁ c rest there station
  obtain ⟨d₀, before, count⟩ := append_select wired sound bound station there
  rcases complete d₀ c rest before station with ⟨depth, block, opens, same⟩ | enough
  · exact Or.inl ⟨depth, block, (append_opens b d depth block).mpr opens, same⟩
  · exact Or.inr (count ▸ enough)

/-- The branch that a select gets next is the first of those that are still to come. -/
theorem next_arm {nodes : List Draft} {i : Nat} {d₀ : Draft} {arms later : List Arm} {arm : Arm}
    (there : nodes[i]? = some d₀) (left : arms.drop d₀.edges.length = arm :: later) :
    arms[(nextEdge nodes i).slot]? = some arm
      ∧ arms.drop (d₀.edges.length + 1) = later := by
  have slot : (nextEdge nodes i).slot = d₀.edges.length := by simp [nextEdge, there]
  constructor
  · rw [slot]
    have first : (arms.drop d₀.edges.length)[0]? = some arm := by rw [left]; rfl
    rwa [List.getElem?_drop, Nat.add_zero] at first
  · have tail : (arms.drop d₀.edges.length).drop 1 = later := by rw [left]; rfl
    rwa [List.drop_drop] at tail

theorem enterBlock_opens {f : Frame} {block : Block} {edge : DraftEdge} {select : Nat}
    (kind : f.kind = .block block) {depth : Nat} {block' : Block}
    (opens : (b.enterBlock f select edge).Opens depth block') :
    (depth = 0 ∧ block' = block) ∨ ∃ k, depth = k + 1 ∧ b.Opens k block' := by
  obtain ⟨g, there, isBlock⟩ := opens
  cases depth with
  | zero =>
    cases there
    have same : FrameKind.block block = .block block' := kind.symm.trans isBlock
    cases same
    exact Or.inl ⟨rfl, rfl⟩
  | succ k => exact Or.inr ⟨k, rfl, g, there, isBlock⟩

/-- A branch whose condition is that of the arm it stands for. -/
theorem Branched.conditions_attach (branched : Branched script o b) {i : Nat} {edge : DraftEdge}
    (fits : ∀ c rest, (stations script)[i]? = some (.openIf c :: rest) →
      ∃ arm, (armsOf c rest)[(nextEdge b.nodes i).slot]? = some arm ∧ edge.condition = some arm.1)
    (r : EdgeRef) (e : DraftEdge) (there : edgeAt (attach b.nodes i edge) r = some e)
    (c : Expression) (rest : List Item)
    (station : (stations script)[r.node]? = some (.openIf c :: rest)) :
    ∃ arm, (armsOf c rest)[r.slot]? = some arm ∧ e.condition = some arm.1 := by
  rcases edgeAt_attach_some there with old | ⟨rfl, rfl⟩
  · exact branched.conditions r e old c rest station
  · exact fits c rest station

/-- A node other than the one that gets an edge has the edges it had. -/
theorem attach_other {nodes : List Draft} {i j : Nat} {edge : DraftEdge} (other : i ≠ j) :
    (attach nodes i edge)[j]? = nodes[j]? := by
  rw [attach_getElem?, if_neg other]

theorem attach_same {nodes : List Draft} {i : Nat} {edge : DraftEdge} {d₀ : Draft}
    (there : nodes[i]? = some d₀) :
    (attach nodes i edge)[i]? = some { d₀ with edges := d₀.edges ++ [edge] } := by
  rw [attach_getElem?, if_pos rfl, there, Option.map_some]

/-- A block that begins. Its select is new, so it is that of no other block. -/
theorem Branched.enterBlock {f : Frame} {block : Block} {edge : DraftEdge} {d₀ : Draft}
    {c : Expression} {rest : List Item} (branched : Branched script o b)
    (kind : f.kind = .block block) (unchained : block.chained = false)
    (after : block.after = block.select) (noElse : block.hasElse = false)
    (there : b.nodes[block.select]? = some d₀) (bare : d₀.edges = [])
    (station : (stations script)[block.select]? = some (.openIf c :: rest))
    (condition : edge.condition = some c)
    (new : ∀ depth block', b.Opens depth block' → block'.select ≠ block.select)
    (first : o'.left 0 false = laterArms false 0 rest)
    (left : ∀ depth, o'.left (depth + 1) = o.left depth) :
    Branched script o' (b.enterBlock f block.select edge) where
  conditions := by
    refine branched.conditions_attach fun c' rest' station' => ?_
    rw [station] at station'
    cases station'
    refine ⟨(c, rest), ?_, condition⟩
    simp [nextEdge, there, bare, armsOf]
  blocks depth block' opens := by
    rcases enterBlock_opens kind opens with ⟨rfl, rfl⟩ | ⟨k, rfl, outer⟩
    · refine ⟨unchained, after, _, c, rest, attach_same there, station, ?_⟩
      rw [noElse, first, bare]
      rfl
    · obtain ⟨unchained', after', d, c', rest', there', station', ahead⟩ :=
        branched.blocks k block' outer
      refine ⟨unchained', after', d, c', rest', ?_, station', by rw [ahead, left]⟩
      exact (attach_other (new k block' outer).symm).trans there'
  apart depth depth' bl bl' opens opens' same := by
    rcases enterBlock_opens kind opens with ⟨rfl, rfl⟩ | ⟨k, rfl, outer⟩ <;>
      rcases enterBlock_opens kind opens' with ⟨rfl, rfl⟩ | ⟨k', rfl, outer'⟩
    · rfl
    · exact absurd same.symm (new k' bl' outer')
    · exact absurd same (new k bl outer)
    · rw [branched.apart k k' bl bl' outer outer' same]

theorem Complete.enterBlock {f : Frame} {block : Block} {edge : DraftEdge} {i : Nat}
    (complete : i ≠ block.select → Complete script b i) (kind : f.kind = .block block) :
    Complete script (b.enterBlock f block.select edge) i := by
  intro d₁ c rest there station
  by_cases same : i = block.select
  · exact Or.inl ⟨0, block, ⟨f, rfl, kind⟩, same.symm⟩
  · change (attach b.nodes block.select edge)[i]? = some d₁ at there
    rw [attach_other fun equal => same equal.symm] at there
    rcases complete same d₁ c rest there station with ⟨depth, bl, ⟨g, inside, isBlock⟩, is⟩ | enough
    · exact Or.inl ⟨depth + 1, bl, ⟨g, inside, isBlock⟩, is⟩
    · exact Or.inr enough

theorem toBranch_opens {block : Block} {line : Nat} {condition : Option Expression} {depth : Nat}
    {block' : Block} (opens : (b.toBranch block line condition).Opens depth block') :
    (depth = 0 ∧ block' = b.nextBranch block condition.isNone)
      ∨ ∃ k, depth = k + 1 ∧ b.Opens (k + 1) block' := by
  obtain ⟨g, there, isBlock⟩ := opens
  cases depth with
  | zero =>
    cases there
    cases isBlock
    exact Or.inl ⟨rfl, rfl⟩
  | succ k => exact Or.inr ⟨k, rfl, g, there, isBlock⟩

/-- The next branch of the innermost block. -/
theorem Branched.toBranch {block : Block} {line : Nat} {condition : Option Expression} {arm : Arm}
    (branched : Branched script o b) (kind : b.top.kind = .block block)
    (guard : condition.getD Expression.always = arm.1)
    (next : o.left 0 block.hasElse = arm :: o'.left 0 condition.isNone)
    (left : ∀ depth, o'.left (depth + 1) = o.left (depth + 1)) :
    Branched script o' (b.toBranch block line condition) := by
  have here : b.Opens 0 block := ⟨b.top, rfl, kind⟩
  obtain ⟨unchained, after, d₀, c, rest, there, station, ahead⟩ := branched.blocks 0 block here
  rw [next] at ahead
  obtain ⟨chosen, later⟩ := next_arm there ahead
  refine ⟨branched.conditions_attach fun c' rest' station' => ?_, fun depth block' opens => ?_,
    fun depth depth' bl bl' opens opens' same => ?_⟩
  · rw [station] at station'
    cases station'
    exact ⟨arm, chosen, congrArg some guard⟩
  · rcases toBranch_opens opens with ⟨rfl, rfl⟩ | ⟨k, rfl, outer⟩
    · refine ⟨unchained, after, _, c, rest, attach_same there, station, ?_⟩
      rw [List.length_append, List.length_singleton, later]
      rfl
    · obtain ⟨unchained', after', d, c', rest', there', station', ahead'⟩ :=
        branched.blocks (k + 1) block' outer
      have other : block.select ≠ block'.select := fun same => by
        cases branched.apart 0 (k + 1) block block' here outer same
      refine ⟨unchained', after', d, c', rest', ?_, station', by rw [ahead', left]⟩
      exact (attach_other other).trans there'
  · rcases toBranch_opens opens with ⟨rfl, rfl⟩ | ⟨k, rfl, outer⟩ <;>
      rcases toBranch_opens opens' with ⟨rfl, rfl⟩ | ⟨k', rfl, outer'⟩
    · rfl
    · exact branched.apart 0 (k' + 1) block bl' here outer' same
    · exact branched.apart (k + 1) 0 bl block outer here same
    · exact branched.apart (k + 1) (k' + 1) bl bl' outer outer' same

theorem Complete.toBranch {block : Block} {line : Nat} {condition : Option Expression} {i : Nat}
    (complete : Complete script b i) (kind : b.top.kind = .block block) :
    Complete script (b.toBranch block line condition) i := by
  intro d₁ c rest there station
  by_cases same : i = block.select
  · exact Or.inl ⟨0, _, ⟨_, rfl, rfl⟩, same.symm⟩
  · change (attach b.nodes block.select _)[i]? = some d₁ at there
    rw [attach_other fun equal => same equal.symm] at there
    rcases complete d₁ c rest there station with ⟨depth, bl, ⟨g, inside, isBlock⟩, is⟩ | enough
    · cases depth with
      | zero =>
        cases inside
        rw [kind] at isBlock
        cases isBlock
        exact absurd is.symm same
      | succ k => exact Or.inl ⟨k + 1, bl, ⟨g, inside, isBlock⟩, is⟩
    · exact Or.inr enough

theorem afterBlock_opens {block : Block} {outer : Frame} {rest : List Frame}
    (below : b.below = outer :: rest) (depth : Nat) (block' : Block) :
    (b.afterBlock block outer rest).Opens depth block' ↔ b.Opens (depth + 1) block' := by
  cases depth with
  | zero =>
    constructor
    · rintro ⟨f, there, isBlock⟩
      cases there
      exact ⟨outer, by simp [stack, below], isBlock⟩
    · rintro ⟨f, there, isBlock⟩
      have same : outer = f := by simpa [stack, below] using there
      subst same
      exact ⟨_, rfl, isBlock⟩
  | succ depth =>
    have same : (b.afterBlock block outer rest).stack[depth + 1]? = b.stack[depth + 1 + 1]? := by
      simp [stack, afterBlock, below]
    rw [Opens, Opens, same]

theorem Branched.afterBlock {block : Block} {outer : Frame} {rest : List Frame}
    (branched : Branched script o b) (below : b.below = outer :: rest)
    (left : ∀ depth, o'.left depth = o.left (depth + 1)) :
    Branched script o' (b.afterBlock block outer rest) where
  conditions := branched.conditions
  blocks depth block' opens := by
    rw [left]
    exact branched.blocks (depth + 1) block' ((afterBlock_opens below depth block').mp opens)
  apart depth depth' bl bl' opens opens' same := by
    have := branched.apart (depth + 1) (depth' + 1) bl bl' ((afterBlock_opens below depth bl).mp opens)
      ((afterBlock_opens below depth' bl').mp opens') same
    omega

/-- The branch that a block may lack; the block is open no more. -/
theorem Branched.withBranch {select : Nat} {edge : DraftEdge} {d₀ : Draft} {c : Expression}
    {rest : List Item} {arm : Arm} {later : List Arm} (branched : Branched script o b)
    (new : ∀ depth block, b.Opens depth block → block.select ≠ select)
    (there : b.nodes[select]? = some d₀)
    (station : (stations script)[select]? = some (.openIf c :: rest))
    (next : (armsOf c rest).drop d₀.edges.length = arm :: later)
    (condition : edge.condition = some arm.1) : Branched script o (b.withBranch select edge) where
  conditions := by
    refine branched.conditions_attach fun c' rest' station' => ?_
    rw [station] at station'
    cases station'
    exact ⟨arm, (next_arm there next).1, condition⟩
  blocks depth block opens := by
    obtain ⟨unchained, after, d, c', rest', there', station', ahead⟩ :=
      branched.blocks depth block opens
    refine ⟨unchained, after, d, c', rest', ?_, station', ahead⟩
    exact (attach_other (new depth block opens).symm).trans there'
  apart := branched.apart

end Branches

/-! ### Lines -/

/-- A draft that agrees with the outlook of the lines ahead. -/
structure Tracks (script : List Item) (o : Outlook) (b : Builder) : Prop where
  wired : Wired script o b
  branched : Branched script o b
  complete : ∀ i, Complete script b i

namespace Tracks

variable {script rest : List Item} {b : Builder}

/-- Nothing but nodes, frames and loose ends counts. -/
theorem of_same {o : Outlook} {c : Builder} (tracks : Tracks script o b)
    (nodes : c.nodes = b.nodes) (stack : c.stack = b.stack) (edges : c.looseEdges = b.looseEdges)
    (loose : c.looseNodes = b.looseNodes) : Tracks script o c := by
  have near : ∀ r, c.Near r ↔ b.Near r := by
    intro r
    have top : c.top = b.top := (List.cons.inj stack).1
    rw [Near, Near, nodes, edges, loose, top]
  have far : ∀ depth r, c.Far depth r ↔ b.Far depth r := by
    intro depth r
    rw [Far, Far, nodes, stack]
  have opens : ∀ depth block, c.Opens depth block ↔ b.Opens depth block := by
    intro depth block
    rw [Opens, Opens, stack]
  obtain ⟨wired, branched, complete⟩ := tracks
  refine ⟨⟨?_, ?_, ?_, ?_, ?_⟩, ⟨?_, ?_, ?_⟩, fun i => ?_⟩
  · rw [nodes]
    exact wired.steps
  · exact fun r isNear => wired.near r ((near r).mp isNear)
  · exact fun depth r isFar => wired.far depth r ((far depth r).mp isFar)
  · rw [nodes]
    exact wired.settled
  · rw [nodes]
    simp only [near, far]
    exact wired.waits
  · rw [nodes]
    exact branched.conditions
  · rw [nodes]
    simp only [opens]
    exact branched.blocks
  · simp only [opens]
    exact branched.apart
  · have before := complete i
    rw [Complete] at before ⊢
    rw [nodes]
    simp only [opens]
    exact before

/-- A line that makes a node and opens no block. -/
theorem append {item : Item} {d : Draft} (tracks : Tracks script (outlook (item :: rest)) b)
    (sound : b.Sound) (fresh : d.edges = []) (makes : item.makesNode = true)
    (noBlock : ∀ c, item ≠ .openIf c) (fits : item.Fits d.step)
    (station : (stations script)[b.nodes.length]? = some (item :: rest)) :
    Tracks script (outlook rest) (b.append d true) := by
  obtain ⟨wired, branched, complete⟩ := tracks
  rw [outlook_step rest makes noBlock] at wired branched
  refine ⟨wired.append sound fresh station fits rfl rfl fun _ => .onward station noBlock,
    branched.append wired sound fresh rfl, fun i => ?_⟩
  by_cases old : i < b.nodes.length
  · exact (complete i).append wired sound old
  · -- The new node is no select.
    intro d₁ c lines there station'
    have bound := (List.getElem?_eq_some_iff.mp there).1
    rw [append_length] at bound
    have here : i = b.nodes.length := by omega
    rw [here, station] at station'
    cases station'
    exact absurd rfl (noBlock c)

/-- The line that opens a block. -/
theorem openIf {c : Expression} {line indent : Nat}
    (tracks : Tracks script (outlook (.openIf c :: rest)) b) (sound : b.Sound)
    (station : (stations script)[b.nodes.length]? = some (.openIf c :: rest))
    (follows : b.follows indent = false) :
    Tracks script (outlook rest) (b.openIf line indent c false) := by
  obtain ⟨wired, branched, complete⟩ := tracks
  rw [outlook_openIf] at wired branched
  rw [openIf_unchained c follows]
  let select : Draft := ⟨.select, line, indent, [], 0, []⟩
  have fresh : select.edges = [] := rfl
  obtain ⟨d₀, there, core, bare⟩ := append_new sound fresh
  have isSelect : IsSelect (b.append select true).nodes b.nodes.length := by
    have step := congrArg Draft.step core
    exact ⟨d₀, there, step⟩
  let between : Outlook :=
    { near := [], far := fun depth => (outlook rest).far (depth + 1),
      left := fun depth => (outlook rest).left (depth + 1) }
  have wired' : Wired script between (b.append select true) :=
    wired.append sound fresh station rfl rfl rfl fun sequential => by cases sequential
  have branched' : Branched script between (b.append select true) :=
    branched.append wired sound fresh rfl
  -- The select of a block that is open was there before.
  have new : ∀ depth block, (b.append select true).Opens depth block →
      block.select ≠ b.nodes.length := by
    intro depth block opens
    obtain ⟨_, _, d, _, _, found, _⟩ :=
      branched.blocks depth block ((append_opens b select depth block).mp opens)
    have := (List.getElem?_eq_some_iff.mp found).1
    omega
  have next : nextEdge (b.append select true).nodes b.nodes.length = ⟨b.nodes.length, 0⟩ := by
    rw [nextEdge, there, Option.elim_some, bare]
    rfl
  let block : Block := ⟨b.nodes.length, 0, false, b.nodes.length, false, [], []⟩
  have kind : (⟨.block block, some b.nodes.length, indent, b.top.reach, line⟩ : Frame).kind
    = .block block := rfl
  refine ⟨?_, ?_, fun i => ?_⟩
  · refine wired'.enterBlock isSelect kind rfl rfl rfl rfl (fun r near => ?_) rfl (fun _ => rfl) ?_
    · obtain ⟨_, sequential⟩ := append_near sound near
      cases sequential
    · rw [next]
      exact @Wants.branch _ _ _ _ _ (c, rest) station rfl
  · exact branched'.enterBlock kind rfl rfl rfl there bare station rfl new rfl fun _ => rfl
  · refine Complete.enterBlock (fun other => ?_) kind
    by_cases old : i < b.nodes.length
    · exact (complete i).append wired sound old
    · intro d₁ c' lines found
      have bound : i < (b.append select true).nodes.length :=
        (List.getElem?_eq_some_iff.mp found).1
      rw [append_length] at bound
      exact absurd (show i = b.nodes.length by omega) other

/-- The line that begins a further branch. -/
theorem addBranch {condition : Option Expression} {block : Block} {line : Nat} {keyword : String}
    (tracks : Tracks script (outlook (condition.elim .otherwise .elseIf :: rest)) b)
    (sound : b.Sound) (kind : b.top.kind = .block block) (more : block.hasElse = false) :
    Tracks script (outlook rest) (b.addBranch line condition keyword) := by
  obtain ⟨wired, branched, complete⟩ := tracks
  obtain ⟨near, far, first, left⟩ := outlook_branch rest condition
  have next : (outlook (condition.elim .otherwise .elseIf :: rest)).left 0 block.hasElse
      = (condition.getD Expression.always, rest) :: (outlook rest).left 0 condition.isNone := by
    rw [more]
    exact first
  rw [addBranch_eq line condition keyword kind more]
  obtain ⟨_, _, d₀, c, lines, there, station, ahead⟩ :=
    branched.blocks 0 block ⟨b.top, rfl, kind⟩
  rw [next] at ahead
  have chosen := (next_arm there ahead).1
  refine ⟨wired.toBranch sound kind (by rw [near, far]) far.symm (.branch station chosen),
    branched.toBranch kind rfl next fun depth => (left depth).symm,
    fun i => (complete i).toBranch kind⟩

/-- The line that ends a block. -/
theorem closeBlock {block : Block} {outer : Frame} {below : List Frame}
    (tracks : Tracks script (outlook (.endIf :: rest)) b) (sound : b.Sound)
    (kind : b.top.kind = .block block) (stack : b.below = outer :: below) :
    Tracks script (outlook rest) (b.closeBlock block outer below) := by
  obtain ⟨wired, branched, complete⟩ := tracks
  rw [outlook_endIf] at wired branched
  have here : b.Opens 0 block := ⟨b.top, rfl, kind⟩
  obtain ⟨unchained, after, d₀, c, lines, there, station, ahead⟩ := branched.blocks 0 block here
  obtain ⟨isSelect, _, _⟩ := sound.top.block block kind
  have wired' : Wired script (outlook rest) (b.afterBlock block outer below) :=
    wired.afterBlock sound kind after stack rfl rfl fun _ => rfl
  have branched' : Branched script (outlook rest) (b.afterBlock block outer below) :=
    branched.afterBlock stack fun _ => rfl
  -- The select of the block is open no more, and all others are open as before.
  have new : ∀ depth block', (b.afterBlock block outer below).Opens depth block' →
      block'.select ≠ block.select := by
    intro depth block' opens same
    cases branched.apart (depth + 1) 0 block' block ((afterBlock_opens stack depth block').mp opens)
      here same
  have others : ∀ i, i ≠ block.select → Complete script (b.afterBlock block outer below) i := by
    intro i other d c' lines' found station'
    rcases complete i d c' lines' found station' with ⟨_ | depth, bl, opens, same⟩ | enough
    · obtain ⟨f, inside, isBlock⟩ := opens
      cases inside
      rw [kind] at isBlock
      cases isBlock
      exact absurd same.symm other
    · exact Or.inl ⟨depth, bl, (afterBlock_opens stack depth bl).mpr opens, same⟩
    · exact Or.inr enough
  rw [closeBlock_eq unchained]
  cases hasElse : block.hasElse with
  | true =>
    rw [if_pos rfl]
    refine ⟨wired', branched', fun i => ?_⟩
    by_cases same : i = block.select
    · subst same
      intro d c' lines' found station'
      cases there.symm.trans found
      cases station.symm.trans station'
      rw [hasElse] at ahead
      exact Or.inr (List.drop_eq_nil_iff.mp ahead)
    · exact others i same
  | false =>
    rw [if_neg Bool.noConfusion]
    rw [hasElse] at ahead
    obtain ⟨chosen, later⟩ := next_arm there ahead
    refine ⟨wired'.withBranch isSelect rfl (.branch station chosen),
      branched'.withBranch new there station ahead rfl, fun i => ?_⟩
    by_cases same : i = block.select
    · subst same
      intro d c' lines' found station'
      cases (attach_same there).symm.trans found
      cases station.symm.trans station'
      rw [List.length_append, List.length_singleton]
      exact Or.inr (List.drop_eq_nil_iff.mp later)
    · intro d c' lines' found station'
      have before := (attach_other fun equal => same equal.symm).symm.trans found
      exact others i same d c' lines' before station'

end Tracks

end Colloquy.Script.Builder
