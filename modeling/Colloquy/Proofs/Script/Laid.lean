import Colloquy.Proofs.Script.Compiled
import Colloquy.Proofs.Script.Tracking
/-!
# Scripts without choices once they are linked

When a script without choices has been read and linked, its nodes are its lines that make one, in
their order. Every edge leads where execution arrives, a select has just the branches of its block,
and a label leads to the line after its first declaration.
-/

namespace Colloquy.Script

/-- Whether a position, or the end, stands for the lines ahead. -/
def StandsAt (script : List Item) (way : Option Nat) (lines : List Item) : Prop :=
  match way with
  | none => lines = []
  | some i => (stations script)[i]? = some lines

/-- Nodes and labels that are laid out as a script without choices has it. -/
structure Laid (script : List Item) (nodes : List Draft) (labels : List (String × Option Nat)) :
    Prop where
  count : nodes.length = (stations script).length
  steps : ∀ (i : Nat) (d : Draft), nodes[i]? = some d →
    ∃ item rest, (stations script)[i]? = some (item :: rest) ∧ item.Fits d.step
  edges : ∀ r e, edgeAt nodes r = some e →
    ∃ way lines, Wants script r lines ∧ StandsAt script way lines
      ∧ e.destination = way.elim .end .to
  single : ∀ d ∈ nodes, d.step.isSequential = true → d.edges.length = 1
  branches : ∀ (i : Nat) (d : Draft) (c : Expression) (rest : List Item), nodes[i]? = some d →
    (stations script)[i]? = some (.openIf c :: rest) →
      d.edges.map (·.condition) = (armsOf c rest).map fun arm => some arm.1
  labels : ∀ name target, labels.lookup name = some target →
    ∃ rest, afterLabel? name script = some rest ∧ StandsAt script target (nextMade rest)
  first : (nodes = [] ∧ arrive script = []) ∨ (stations script)[0]? = some (arrive script)

namespace Builder

section Finish

variable {script : List Item} {b : Builder} {lastLine : Nat}

/-- Without an error the end of a script closes nothing. -/
theorem closed_eq (follows : Follows script [] b) (clean : (b.finish lastLine).Clean) :
    b.below = [] ∧ b.closed lastLine = b.release := by
  obtain ⟨_, _, _, _, _, _, notes⟩ :=
    (b.closed lastLine).endLabels_same (b.closed lastLine).waiting
  have clean' : (b.closed lastLine).Clean := by
    rw [finish_eq] at clean
    exact Clean.of_prefix (b := (b.closed lastLine).endLabels (b.closed lastLine).waiting) clean
      notes
  unfold closed at clean' ⊢
  rw [follows.outside] at clean' ⊢
  obtain ⟨below, same⟩ := @popAll_eq b lastLine _ follows.nested (Nat.le_refl _) clean'
  exact ⟨below, congrArg release same⟩

theorem finish_nodes (follows : Follows script [] b) (clean : (b.finish lastLine).Clean) :
    (b.finish lastLine).nodes = b.looseEdges.foldl (aim (.search b.nodes.length)) b.nodes := by
  obtain ⟨nodes, _⟩ := (b.closed lastLine).endLabels_same (b.closed lastLine).waiting
  have same : (b.finish lastLine).nodes = (b.closed lastLine).nodes := nodes
  rw [same, (closed_eq follows clean).2]
  rfl

/-- A search from the end of a draft finds nothing. -/
theorem fallthrough?_end (nodes : List Draft) (reach : Nat) (path : List Branch) :
    fallthrough? nodes nodes.length reach path = none := by
  simp [fallthrough?]

/-- A search that reaches no indent finds nothing. -/
theorem fallthrough?_flat (nodes : List Draft) (start : Nat) (path : List Branch) :
    fallthrough? nodes start 0 path = none := by
  simp [fallthrough?, accepts]

/-- What is unsettled when all lines are read is near. -/
theorem near_of_unsettled (follows : Follows script [] b) (founded : Founded 0 0 b.stack)
    (below : b.below = []) {r : EdgeRef} (unsettled : Unsettled b.nodes r) : b.Near r := by
  rcases follows.tracks.wired.waits r unsettled with near | ⟨depth, f, block, there, kind, _⟩
  · exact near
  · rw [stack, below] at there founded
    cases depth with
    | zero =>
      cases there
      cases founded with
      | floor _ _ noBlock => exact absurd kind (noBlock block)
      | above _ founded => cases founded
    | succ depth => cases there

/-- The edges of a script that has been read and linked. -/
theorem finish_edges (follows : Follows script [] b) (founded : Founded 0 0 b.stack)
    (clean : (b.finish lastLine).Clean) (r : EdgeRef) (e : DraftEdge)
    (there : edgeAt (settleAll (b.finish lastLine).nodes) r = some e) :
    ∃ way lines, Wants script r lines ∧ StandsAt script way lines
      ∧ e.destination = way.elim .end .to := by
  have below := (closed_eq follows clean).1
  have nodes := finish_nodes follows clean
  have wired := follows.tracks.wired
  have nowhere : (outlook []).near = [] := arrive_nil
  have length : (b.finish lastLine).nodes.length = b.nodes.length := by
    rw [nodes, foldl_aim_length]
  obtain ⟨d, node, slot⟩ := edgeAt_eq_some.mp there
  rw [settleAll_getElem?] at node
  obtain ⟨d₀, before, rfl⟩ := Option.map_eq_some_iff.mp node
  cases loose : d₀.isLoose with
  | true =>
    -- A step without a successor goes on to what a search finds, and that is nothing.
    obtain ⟨d₁, was, core, count⟩ : ∃ d₁, b.nodes[r.node]? = some d₁ ∧ d₀.core = d₁.core
        ∧ d₀.edges.length = d₁.edges.length := by
      have bound := (List.getElem?_eq_some_iff.mp before).1
      rw [length] at bound
      have was := List.getElem?_eq_getElem bound
      obtain ⟨d', now, core, count⟩ :=
        (Extends.foldl_aim (.search b.nodes.length) b.looseEdges b.nodes).node was
      rw [← nodes, before] at now
      cases now
      exact ⟨_, was, core, count id⟩
    obtain ⟨sequential, bare⟩ := isLoose_iff.mp loose
    have flat : d₀.reach = 0 := by
      rw [Draft.reach_eq_of_core core]
      exact follows.flat.1 r.node d₁ was
    rw [settleDraft, if_pos loose, flat, fallthrough?_flat] at slot
    have zero : r.slot = 0 := by
      have := (List.getElem?_eq_some_iff.mp slot).1
      rw [List.length_singleton] at this
      omega
    rw [zero] at slot
    cases slot
    have wasLoose : LooseAt b.nodes r.node := by
      refine ⟨d₁, was, isLoose_iff.mpr ⟨?_, ?_⟩⟩
      · rw [← Draft.step_eq_of_core core]
        exact sequential
      · rw [← List.length_eq_zero_iff, ← count, bare, List.length_nil]
    have near := near_of_unsettled follows founded below (Or.inr ⟨zero, wasLoose⟩)
    exact ⟨none, [], nowhere ▸ wired.near r near, rfl, rfl⟩
  | false =>
    rw [settleDraft_of_edges loose, List.getElem?_map] at slot
    obtain ⟨e₀, old, rfl⟩ := Option.map_eq_some_iff.mp slot
    have found : edgeAt (b.finish lastLine).nodes r = some e₀ :=
      edgeAt_eq_some.mpr ⟨d₀, before, old⟩
    rw [nodes, edgeAt_foldl_aim] at found
    by_cases waits : r ∈ b.looseEdges
    · rw [if_pos waits] at found
      obtain ⟨e₁, _, rfl⟩ := Option.map_eq_some_iff.mp found
      refine ⟨none, [], nowhere ▸ wired.near r (Or.inl waits), rfl, ?_⟩
      rw [settleEdge]
      dsimp only [DraftEdge.aimed]
      rw [← length, fallthrough?_end]
    · rw [if_neg waits] at found
      rcases wired.settled r e₀ found with isOpen | ⟨j, lines, target, station, wants⟩
      · rcases near_of_unsettled follows founded below (Or.inl ⟨e₀, found, isOpen⟩) with
          near | ⟨_, loose, _⟩
        · exact absurd near waits
        · rw [edgeAt_of_loose loose] at found
          cases found
      · refine ⟨some j, lines, wants, station, ?_⟩
        rw [settleEdge, target]
        exact target

/-- The branches of a script that has been read and linked. -/
theorem finish_branches (follows : Follows script [] b) (founded : Founded 0 0 b.stack)
    (clean : (b.finish lastLine).Clean) {i : Nat} {d : Draft} {c : Expression} {rest : List Item}
    (there : (settleAll (b.finish lastLine).nodes)[i]? = some d)
    (station : (stations script)[i]? = some (.openIf c :: rest)) :
    d.edges.map (·.condition) = (armsOf c rest).map fun arm => some arm.1 := by
  have below := (closed_eq follows clean).1
  obtain ⟨wired, branched, complete⟩ := follows.tracks
  have length : (b.finish lastLine).nodes.length = b.nodes.length := by
    rw [finish_nodes follows clean, foldl_aim_length]
  have bound : i < b.nodes.length := by
    have := (List.getElem?_eq_some_iff.mp there).1
    rwa [settleAll_length, length] at this
  -- All that happens to a select after its block is that its edges are aimed.
  have grown : Extends (fun _ => False) (· ∈ b.looseEdges) b.nodes (b.finish lastLine).nodes := by
    rw [finish_nodes follows clean]
    exact Extends.foldl_aim _ _ _
  have before := List.getElem?_eq_getElem bound
  obtain ⟨d₁, aimed, core, count⟩ := grown.node before
  have noStep := notSequential_of_select (wired.isSelect bound station) _ before
  have tight : d₁.isLoose = false := by
    rw [Draft.isLoose, Draft.step_eq_of_core core, noStep]
    rfl
  rw [settleAll_getElem?, aimed, Option.map_some, settleDraft_of_edges tight] at there
  cases there
  have enough : (armsOf c rest).length ≤ d₁.edges.length := by
    rw [count id]
    rcases complete i _ c rest before station with ⟨depth, block, ⟨f, inside, kind⟩, _⟩ | enough
    · rw [stack, below] at inside founded
      cases depth with
      | zero =>
        cases inside
        cases founded with
        | floor _ _ noBlock => exact absurd kind (noBlock block)
        | above _ founded => cases founded
      | succ depth => cases inside
    · exact enough
  refine List.ext_getElem? fun k => ?_
  rw [List.map_map, List.getElem?_map, List.getElem?_map]
  by_cases slot : k < d₁.edges.length
  · have old : k < b.nodes[i].edges.length := by
      rw [← count id]
      exact slot
    have edge : edgeAt b.nodes ⟨i, k⟩ = some b.nodes[i].edges[k] :=
      edgeAt_eq_some.mpr ⟨_, before, List.getElem?_eq_getElem old⟩
    obtain ⟨arm, chosen, condition⟩ := branched.conditions ⟨i, k⟩ _ edge c rest station
    obtain ⟨e₁, found, same, _⟩ := grown.edge edge
    obtain ⟨d', there, place⟩ := edgeAt_eq_some.mp found
    cases aimed.symm.trans there
    dsimp only at chosen place
    rw [chosen, place, Option.map_some, Option.map_some, ← condition]
    have settled := congrArg DraftEdge.condition (@settleEdge_core (b.finish lastLine).nodes e₁)
    have kept := congrArg DraftEdge.condition same
    exact congrArg some (settled.trans kept)
  · rw [List.getElem?_eq_none_iff.mpr (by omega), List.getElem?_eq_none_iff.mpr (by omega)]
    rfl

end Finish

end Builder

/-- A script without choices that leaves no error is laid out as it has it. -/
theorem Linked.laid {s : Settings} {text : String} {b : Builder} (linked : Linked s text b)
    (clean : b.Clean) (plain : IsPlain s (Text.lines text.toList)) :
    Laid (program s text) (settleAll b.nodes) b.labels := by
  obtain ⟨b₀, read, finished⟩ := bind_eq_ok.mp linked.read
  cases finished
  have grown := (@Builder.Grows.finish (fun _ _ => True) b₀ (Text.lines text.toList).length).notes
  have healthy := Builder.Healthy.start.readLines read
  have founded := (@Builder.Proceeds.readLines (fun _ _ => True) 0 0 {} s b₀ 1
    (Text.lines text.toList) Builder.founded_start
    (fun _ _ _ _ _ => ⟨Nat.zero_le _, trivial⟩) read).2
  have follows : Builder.Follows (program s text) [] b₀ :=
    (Builder.Follows.start (program s text)).readLines Builder.Healthy.start Builder.founded_start
      (clean.of_prefix grown) plain read
  have nodes := Builder.finish_nodes follows clean
  have length : (b₀.finish (Text.lines text.toList).length).nodes.length = b₀.nodes.length := by
    rw [nodes, foldl_aim_length]
  have aimed : Extends (fun _ => False) (· ∈ b₀.looseEdges) b₀.nodes
      (b₀.finish (Text.lines text.toList).length).nodes := by
    rw [nodes]
    exact Extends.foldl_aim _ _ _
  -- A node that is linked does what the node did that was read.
  have was : ∀ (i : Nat) (d : Draft),
      (settleAll (b₀.finish (Text.lines text.toList).length).nodes)[i]? = some d →
        ∃ d₀, b₀.nodes[i]? = some d₀ ∧ d.step = d₀.step := by
    intro i d there
    have bound := (List.getElem?_eq_some_iff.mp there).1
    rw [settleAll_length, length] at bound
    have before := List.getElem?_eq_getElem bound
    obtain ⟨d₁, now, core, _⟩ := aimed.node before
    rw [settleAll_getElem?, now] at there
    cases there
    exact ⟨_, before, (Draft.step_eq_of_core (settleDraft_core i d₁)).trans
      (Draft.step_eq_of_core core)⟩
  refine ⟨?_, fun i d there => ?_, Builder.finish_edges follows founded clean,
    fun d member sequential => ?_, fun i d c rest => Builder.finish_branches follows founded clean,
    fun name target found => ?_, ?_⟩
  · rw [settleAll_length, length]
    have most : (stations (program s text)).length ≤ b₀.nodes.length :=
      List.drop_eq_nil_iff.mp follows.ahead
    have least : b₀.nodes.length ≤ (stations (program s text)).length := by
      by_contra more
      have bound : (stations (program s text)).length < b₀.nodes.length := by omega
      obtain ⟨_, _, station, _⟩ :=
        follows.tracks.wired.steps _ _ (List.getElem?_eq_getElem bound)
      have := (List.getElem?_eq_some_iff.mp station).1
      omega
    omega
  · obtain ⟨d₀, before, step⟩ := was i d there
    rw [step]
    exact follows.tracks.wired.steps i d₀ before
  · obtain ⟨i, there⟩ := List.mem_iff_getElem?.mp member
    exact settleAll_single (healthy.finish _).sound.sheet there sequential
  · have labels := healthy.finish_labels (Text.lines text.toList).length
    rw [(Builder.closed_eq follows clean).2] at labels
    have member := mem_of_lookup found
    rw [labels] at member
    rcases List.mem_append.mp member with placed | waits
    · obtain ⟨i, rest, same, after, station⟩ := follows.signed.placed _ placed
      dsimp only at same
      subst same
      exact ⟨rest, after, station⟩
    · obtain ⟨l, inside, same⟩ := List.mem_map.mp waits
      cases same
      obtain ⟨rest, after, next⟩ := follows.signed.waits l inside
      exact ⟨rest, after, next⟩
  · rcases follows.begun with ⟨empty, _, same⟩ | ⟨_, first⟩
    · refine Or.inl ⟨List.length_eq_zero_iff.mp ?_, same.trans arrive_nil⟩
      rw [settleAll_length, length, empty]
      rfl
    · exact Or.inr first

end Colloquy.Script
