import Colloquy.Proofs.Graph.Search
/-!
# Arenas that a search cannot tell apart

A search looks at the places and kinds of nodes and at where their edges lead. Ids and the notes
which lines have choices make no difference to it.
-/

namespace Colloquy

/-- Nodes that a search cannot tell apart. -/
structure Node.Alike (n n' : Node) : Prop where
  index : n'.index = n.index
  kind : n'.kind = n.kind
  targets : n'.edges.map (·.target) = n.edges.map (·.target)

/-- Both nodes or none. -/
inductive AlikeAt : Option Node → Option Node → Prop where
  | none : AlikeAt none none
  | some {n n' : Node} (alike : n.Alike n') : AlikeAt (some n) (some n')

/-- Where a whole number leads. -/
theorem landing_at (nodes : List Node) (i : Int) :
    landing nodes (some (.at i)) =
      if (if i < 0 then i + nodes.length else i) < 0 then none
      else nodes[(if i < 0 then i + nodes.length else i).toNat]? := by
  simp only [landing, Option.bind_some, follow]
  generalize (if i < 0 then i + nodes.length else i) = position
  split
  · rfl
  · cases nodes[position.toNat]? <;> rfl

theorem Node.Alike.symm {n n' : Node} (alike : n.Alike n') : n'.Alike n :=
  ⟨alike.index.symm, alike.kind.symm, alike.targets.symm⟩

theorem alike_symm {nodes nodes' : List Node} (alike : List.Forall₂ Node.Alike nodes nodes') :
    List.Forall₂ Node.Alike nodes' nodes :=
  (List.Forall₂.flip alike).imp fun _ _ => Node.Alike.symm

section Arenas

variable {nodes nodes' : List Node} (alike : List.Forall₂ Node.Alike nodes nodes')

include alike

theorem getElem?_alike (i : Nat) : AlikeAt nodes[i]? nodes'[i]? := by
  cases here : nodes[i]? with
  | some n =>
    obtain ⟨n', there, same⟩ := forall₂_left alike here
    rw [there]
    exact .some same
  | none =>
    have outside : nodes'[i]? = none :=
      List.getElem?_eq_none (alike.length_eq ▸ List.getElem?_eq_none_iff.mp here)
    rw [outside]
    exact .none

theorem Rooted.ofAlike (rooted : Rooted nodes) : Rooted nodes' := by
  refine ⟨fun i n' there' => ?_, fun n' member e' own r target => ?_⟩
  · obtain ⟨n, there, same⟩ := forall₂_right alike there'
    rw [same.index, rooted.index i n there]
  · obtain ⟨i, there'⟩ := List.mem_iff_getElem?.mp member
    obtain ⟨n, there, same⟩ := forall₂_right alike there'
    have targets : e'.target ∈ n.edges.map (·.target) :=
      same.targets ▸ List.mem_map.mpr ⟨e', own, rfl⟩
    obtain ⟨e, own₀, target₀⟩ := List.mem_map.mp targets
    obtain ⟨p, m, rfl, leads⟩ :=
      rooted.target n (List.mem_of_getElem? there) e own₀ r (target₀.trans target)
    obtain ⟨m', leads', _⟩ := forall₂_left alike leads
    exact ⟨p, m', rfl, leads'⟩

theorem landing_alike (target : Option Ref) :
    AlikeAt (landing nodes target) (landing nodes' target) := by
  cases target with
  | none => exact .none
  | some r =>
    cases r with
    | decimal x => exact .none
    | «at» i =>
      rw [landing_at, landing_at, alike.length_eq]
      generalize (if i < 0 then i + nodes'.length else i) = position
      split
      · exact .none
      · exact getElem?_alike alike _

theorem ahead_alike {n n' : Node} (same : n.Alike n') : AlikeAt (ahead nodes n) (ahead nodes' n') := by
  have heads : n'.edges.head?.map (·.target) = n.edges.head?.map (·.target) := by
    rw [← List.head?_map, ← List.head?_map, same.targets]
  unfold ahead
  cases first : n.edges.head? with
  | none =>
    rw [first] at heads
    rw [Option.map_eq_none_iff.mp heads]
    exact .none
  | some e =>
    rw [first] at heads
    obtain ⟨e', first', target⟩ := Option.map_eq_some_iff.mp heads
    rw [first']
    simp only [Option.bind_some, target]
    exact landing_alike alike e.target

theorem skipped_alike (fuel : Nat) {n n' : Option Node} (same : AlikeAt n n') (seen : List Nat) :
    AlikeAt (skipped nodes fuel n seen) (skipped nodes' fuel n' seen) := by
  induction fuel generalizing n n' seen with
  | zero => exact .none
  | succ fuel ih =>
    cases same with
    | none => exact .none
    | some same =>
      rw [skipped, skipped, same.kind, same.index]
      split
      · split
        · exact .none
        · exact ih (ahead_alike alike same) _
      · exact .some same

theorem choiceStart_alike {line line' : Node} (same : line.Alike line') :
    AlikeAt (choiceStart nodes line) (choiceStart nodes' line') := by
  have edges : line'.edges.length = line.edges.length := by
    simpa using congrArg List.length same.targets
  unfold choiceStart
  rw [edges, ← alike.length_eq]
  split
  · exact .none
  · exact skipped_alike alike _ (ahead_alike alike same) _

/-- A search comes to the same. -/
theorem sight_alike (fuel : Nat) {n n' : Node} (same : n.Alike n') (seen : List Nat) :
    sight nodes' fuel n' seen = sight nodes fuel n seen := by
  induction fuel generalizing n n' seen with
  | zero => rfl
  | succ fuel ih =>
    have step (s : Sight) (target : Option Ref) :
        s.through (sight nodes' fuel) (landing nodes' target)
          = s.through (sight nodes fuel) (landing nodes target) := by
      have lands := landing_alike alike target
      generalize landing nodes target = m at lands ⊢
      generalize landing nodes' target = m' at lands ⊢
      cases lands with
      | none => simp [Sight.through]
      | some there => cases found : s.found <;> simp [Sight.through, found, ih there]
    have fold (es : List Edge) (s : Sight) :
        es.foldl (fun s e => s.through (sight nodes' fuel) (landing nodes' e.target)) s
          = (es.map (·.target)).foldl
            (fun s target => s.through (sight nodes fuel) (landing nodes target)) s := by
      rw [List.foldl_map]
      simp only [step]
    rw [sight, sight, same.kind, same.index, fold, same.targets, List.foldl_map]

theorem choiceSight_alike {start start' : Node} (same : start.Alike start') :
    choiceSight nodes' start' = choiceSight nodes start := by
  rw [choiceSight, sight_alike alike _ same, ← alike.length_eq]
  rfl

/-- The root of the choices of a line is found at the same place. -/
theorem nextChoice_alike (rooted : Rooted nodes) {line line' : Node} (member : line ∈ nodes)
    (member' : line' ∈ nodes') (same : line.Alike line') {o : Option Node}
    (found : nextChoice nodes line = .ok o) :
    ∃ o', nextChoice nodes' line' = .ok o' ∧ AlikeAt o o' := by
  have starts := choiceStart_alike alike same
  rw [rooted.nextChoice_eq member] at found
  rw [(rooted.ofAlike alike).nextChoice_eq member']
  generalize choiceStart nodes' line' = begins' at starts ⊢
  cases begins : choiceStart nodes line with
  | none =>
    rw [begins] at starts found
    cases starts
    cases found
    exact ⟨none, rfl, .none⟩
  | some start =>
    rw [begins] at starts found
    cases starts with
    | @some _ start' alikeStart =>
      dsimp only at found ⊢
      rw [choiceSight_alike alike alikeStart]
      split at found
      next shallow =>
        cases found
        rw [if_pos shallow]
        refine ⟨_, rfl, ?_⟩
        split
        · exact .some alikeStart
        · exact .none
      · cases found

/-- An arena can be searched if one that is alike can be. -/
theorem searchable_alike (fits : Searchable nodes) : Searchable nodes' := by
  intro line' member text start' begins'
  obtain ⟨i, there'⟩ := List.mem_iff_getElem?.mp member
  obtain ⟨line, there, same⟩ := forall₂_right alike there'
  have starts := choiceStart_alike alike same
  rw [begins'] at starts
  cases begins : choiceStart nodes line with
  | none =>
    rw [begins] at starts
    cases starts
  | some start =>
    rw [begins] at starts
    cases starts with
    | some sameStart =>
      have shallow := fits line (List.mem_of_getElem? there) (same.kind ▸ text) start begins
      rw [choiceSight, sight_alike alike _ sameStart, ← alike.length_eq]
      exact shallow

end Arenas

end Colloquy
