import Colloquy.Proofs.Script.Health
import Colloquy.Script.Linking
import Mathlib.Data.List.Perm.Subperm
/-!
# What linking does

Searches give loose ends a node of the draft or the end, and leave all else as it is. Gotos are
followed through further gotos; if nothing is found wrong, every goto has the node, or the end, that
its label leads to.
-/

namespace Colloquy.Script

/-! ### Searches -/

section Searches

variable {nodes : List Draft}

theorem fallthrough?_spec {start reach i : Nat} {path : List Branch}
    (found : fallthrough? nodes start reach path = some i) :
    start ≤ i ∧ ∃ d, nodes[i]? = some d ∧ accepts reach path d = true := by
  obtain ⟨k, first, rfl⟩ := Option.map_eq_some_iff.mp found
  obtain ⟨bound, accepted, _⟩ := List.findIdx?_eq_some_iff_getElem.mp first
  refine ⟨Nat.le_add_left _ _, (nodes.drop start)[k], ?_, accepted⟩
  rw [Nat.add_comm, ← List.getElem?_drop]
  exact List.getElem?_eq_getElem bound

theorem settleAll_getElem? (i : Nat) :
    (settleAll nodes)[i]? = nodes[i]?.map (settleDraft nodes i) := by
  rw [settleAll, List.getElem?_mapIdx]

@[simp] theorem settleAll_length : (settleAll nodes).length = nodes.length := by
  simp [settleAll]

theorem settleEdge_core (e : DraftEdge) : (settleEdge nodes e).core = e.core := by
  unfold settleEdge
  split <;> rfl

theorem settleDraft_core (i : Nat) (d : Draft) : (settleDraft nodes i d).core = d.core := by
  unfold settleDraft
  split <;> rfl

theorem settleDraft_gotoLabel? (i : Nat) (d : Draft) :
    (settleDraft nodes i d).gotoLabel? = d.gotoLabel? := by
  unfold settleDraft
  split <;> rfl

/-- A node that has an edge is not loose, so its edges are settled one by one. -/
theorem settleDraft_of_edges {i : Nat} {d : Draft} (filled : d.isLoose = false) :
    settleDraft nodes i d = { d with edges := d.edges.map (settleEdge nodes) } := by
  rw [settleDraft, if_neg (by rw [filled]; exact Bool.noConfusion)]

theorem edgeAt_settleAll {r : EdgeRef} {e : DraftEdge} (found : edgeAt nodes r = some e) :
    edgeAt (settleAll nodes) r = some (settleEdge nodes e) := by
  obtain ⟨d, there, slot⟩ := edgeAt_eq_some.mp found
  have filled : d.isLoose = false := by
    cases edges : d.edges with
    | nil => rw [edges] at slot; cases slot
    | cons => simp [Draft.isLoose, edges]
  refine edgeAt_eq_some.mpr ⟨settleDraft nodes r.node d, ?_, ?_⟩
  · rw [settleAll_getElem?, there, Option.map_some]
  · rw [settleDraft_of_edges filled]
    simp [slot]

/-- Linking aims the edges that are left to searches, and no others; only nodes without a successor
get a further edge. -/
theorem settleAll_extends :
    Extends (fun i => ∃ d, nodes[i]? = some d ∧ d.isLoose = true)
      (fun r => ∃ e start, edgeAt nodes r = some e ∧ e.destination = .search start) nodes
      (settleAll nodes) where
  node {i d} there := by
    refine ⟨settleDraft nodes i d, ?_, settleDraft_core i d, fun tight => ?_⟩
    · rw [settleAll_getElem?, there, Option.map_some]
    · cases loose : d.isLoose with
      | true => exact absurd ⟨d, there, loose⟩ tight
      | false => simp [settleDraft_of_edges loose]
  edge {r e} found := by
    refine ⟨settleEdge nodes e, edgeAt_settleAll found, settleEdge_core e, fun free => ?_⟩
    unfold settleEdge
    split
    next start search => exact absurd ⟨e, start, found, search⟩ free
    · rfl

theorem elim_end_to {o : Option Nat} {i : Nat} (same : o.elim Destination.end .to = .to i) :
    o = some i := by
  cases o with
  | none => cases same
  | some j => cases same; rfl

/-- A settled edge leads where it did, or where its search found a node. -/
theorem settleEdge_target {e : DraftEdge} {i : Nat}
    (target : (settleEdge nodes e).destination = .to i) :
    e.destination = .to i ∨ i < nodes.length := by
  unfold settleEdge at target
  split at target
  · obtain ⟨_, d, there, _⟩ := fallthrough?_spec (elim_end_to target)
    exact Or.inr (List.getElem?_eq_some_iff.mp there).1
  · exact Or.inl target

theorem settleEdge_suits {kind : NodeKind} {e : DraftEdge} (suits : e.Suits nodes kind) :
    (settleEdge nodes e).Suits nodes kind := by
  unfold settleEdge
  split
  next start search =>
    -- An edge that is left to a search is not chained, since those lead to a node.
    cases kind with
    | choice =>
      rcases suits with option | ⟨_, _, i, target, _⟩
      · exact Or.inl option
      · rw [search] at target
        cases target
    | _ => exact suits
  · exact suits

theorem settleAll_sheet (sheet : Sheet nodes) : Sheet (settleAll nodes) := by
  intro d' member
  obtain ⟨i, there⟩ := List.mem_iff_getElem?.mp member
  rw [settleAll_getElem?] at there
  obtain ⟨d, before, rfl⟩ := Option.map_eq_some_iff.mp there
  have sound := sheet d (List.mem_of_getElem? before)
  refine Draft.Sound.mono settleAll_extends ?_
  -- a step without an edge is given one; all other edges are settled in their places
  cases loose : d.isLoose with
  | true =>
    have sequential : d.step.isSequential = true := by
      simp only [Draft.isLoose, Bool.and_eq_true] at loose
      exact loose.1
    rw [settleDraft, if_pos loose]
    refine ⟨sound.step, ?_, ?_, fun _ => Nat.le_refl 1⟩
    · intro e inside
      rw [List.mem_singleton.mp inside]
      exact continue_suits sequential rfl ⟨rfl, rfl, rfl, rfl⟩
    · intro e inside j target
      rw [List.mem_singleton.mp inside] at target
      obtain ⟨_, d₁, found, _⟩ := fallthrough?_spec (elim_end_to target)
      exact (List.getElem?_eq_some_iff.mp found).1
  | false =>
    rw [settleDraft_of_edges loose]
    refine ⟨sound.step, ?_, ?_, ?_⟩
    · intro e inside
      obtain ⟨e₀, old, rfl⟩ := List.mem_map.mp inside
      exact settleEdge_suits (sound.edges e₀ old)
    · intro e inside j target
      obtain ⟨e₀, old, rfl⟩ := List.mem_map.mp inside
      rcases settleEdge_target target with same | bound
      · exact sound.targets e₀ old j same
      · exact bound
    · intro sequential
      rw [List.length_map]
      exact sound.single sequential

/-- After linking every step that runs on has its edge. -/
theorem settleAll_single (sheet : Sheet nodes) {i : Nat} {d : Draft}
    (there : (settleAll nodes)[i]? = some d) (sequential : d.step.isSequential = true) :
    d.edges.length = 1 := by
  have most := (settleAll_sheet sheet d (List.mem_of_getElem? there)).single sequential
  rw [settleAll_getElem?] at there
  obtain ⟨d₀, before, rfl⟩ := Option.map_eq_some_iff.mp there
  rw [Draft.step_eq_of_core (settleDraft_core i d₀)] at sequential
  cases loose : d₀.isLoose with
  | true => rw [settleDraft, if_pos loose]; rfl
  | false =>
    rw [settleDraft_of_edges loose] at most ⊢
    simp only [List.length_map] at most ⊢
    simp only [Draft.isLoose, sequential, Bool.true_and, List.isEmpty_eq_false_iff] at loose
    have := List.length_pos_iff.mpr loose
    omega

theorem settleAll_filled (filled : Builder.FilledBut (fun _ => False) nodes) :
    Builder.FilledBut (fun _ => False) (settleAll nodes) :=
  filled.extends settleAll_extends settleAll_length

end Searches

/-! ### Gotos -/

/-- Where a way leads once gotos are followed: to a node that is no goto, or to the end. -/
inductive Leads (endLabel : String) (nodes : List Draft) (labels : List (String × Option Nat)) :
    Option Nat → Option Nat → Prop where
  | done : Leads endLabel nodes labels none none
  | kept {i : Nat} {d : Draft} (there : nodes[i]? = some d) (noGoto : d.gotoLabel? = none) :
      Leads endLabel nodes labels (some i) (some i)
  | ended {i : Nat} {d : Draft} (there : nodes[i]? = some d)
      (goto : d.gotoLabel? = some endLabel) : Leads endLabel nodes labels (some i) none
  | jump {i : Nat} {d : Draft} {label : String} {next target : Option Nat}
      (there : nodes[i]? = some d) (goto : d.gotoLabel? = some label) (notEnd : label ≠ endLabel)
      (declared : labels.lookup label = some next) (onward : Leads endLabel nodes labels next target) :
      Leads endLabel nodes labels (some i) target

section Gotos

variable {endLabel : String} {nodes : List Draft} {labels : List (String × Option Nat)}

/-- Where a way leads there is a node, and no goto. -/
theorem Leads.target_kept {way : Option Nat} {i : Nat}
    (leads : Leads endLabel nodes labels way (some i)) :
    ∃ d, nodes[i]? = some d ∧ d.gotoLabel? = none := by
  generalize same : some i = target at leads
  induction leads with
  | done => cases same
  | kept there noGoto =>
    cases same
    exact ⟨_, there, noGoto⟩
  | ended => cases same
  | jump _ _ _ _ _ ih => exact ih same

/-- A way leads to one place. -/
theorem Leads.unique {way target target' : Option Nat}
    (leads : Leads endLabel nodes labels way target)
    (leads' : Leads endLabel nodes labels way target') : target = target' := by
  -- what stands at a node decides which case applies
  induction leads with
  | done =>
    cases leads'
    rfl
  | kept there noGoto =>
    cases leads' with
    | kept => rfl
    | ended there' goto | jump there' goto =>
      rw [there] at there'
      cases there'
      rw [noGoto] at goto
      cases goto
  | ended there goto =>
    cases leads' with
    | kept there' noGoto =>
      rw [there] at there'
      cases there'
      rw [noGoto] at goto
      cases goto
    | ended => rfl
    | jump there' goto' notEnd =>
      rw [there] at there'
      cases there'
      rw [goto] at goto'
      cases goto'
      exact absurd rfl notEnd
  | jump there goto notEnd declared _ ih =>
    cases leads' with
    | kept there' noGoto =>
      rw [there] at there'
      cases there'
      rw [noGoto] at goto
      cases goto
    | ended there' goto' =>
      rw [there] at there'
      cases there'
      rw [goto] at goto'
      cases goto'
      exact absurd rfl notEnd
    | jump there' goto' _ declared' onward' =>
      rw [there] at there'
      cases there'
      rw [goto] at goto'
      cases goto'
      rw [declared] at declared'
      cases declared'
      exact ih onward'

/-- Whether the gotos resolved so far lead where the table has it. -/
def GotoTable.Right (endLabel : String) (nodes : List Draft) (labels : List (String × Option Nat))
    (targets : List (Nat × Option Nat)) : Prop :=
  ∀ entry ∈ targets, Leads endLabel nodes labels (some entry.1) entry.2

/-- Distinct numbers below a bound are no more than the bound. -/
theorem length_le_of_bounded {chain : List Nat} {n : Nat} (distinct : chain.Nodup)
    (bounded : ∀ j ∈ chain, j < n) : chain.length ≤ n := by
  have within : chain ⊆ List.range n := fun j member => List.mem_range.mpr (bounded j member)
  have := (List.subperm_of_subset distinct within).length_le
  rwa [List.length_range] at this

theorem followGotos_prefix {targets : List (Nat × Option Nat)} {start fuel : Nat}
    {way : Option Nat} {chain : List Nat} :
    chain <+: (followGotos endLabel nodes labels targets start fuel way chain).chain := by
  induction fuel generalizing way chain with
  | zero => exact List.prefix_refl _
  | succ fuel ih =>
    cases way with
    | none => exact List.prefix_refl _
    | some i =>
      rw [followGotos]
      dsimp only
      repeat' split
      all_goals first
        | exact List.prefix_refl _
        | exact List.prefix_append _ _
        | exact List.IsPrefix.trans (List.prefix_append _ _) ih

/-- A trail along which nothing is wrong: all on it lead where it ends. The fuel suffices, since no
goto is passed twice. -/
theorem followGotos_leads {targets : List (Nat × Option Nat)} {start fuel : Nat}
    {way : Option Nat} {chain : List Nat}
    (right : GotoTable.Right endLabel nodes labels targets)
    (inside : ∀ l ∈ labels, ∀ i, l.2 = some i → i < nodes.length)
    (here : ∀ i, way = some i → i < nodes.length)
    (passed : ∀ j ∈ chain, ∀ target, Leads endLabel nodes labels way target →
      Leads endLabel nodes labels (some j) target)
    (distinct : chain.Nodup) (bounded : ∀ j ∈ chain, j < nodes.length)
    (enough : nodes.length < chain.length + fuel)
    (clear : (followGotos endLabel nodes labels targets start fuel way chain).fault = none) :
    Leads endLabel nodes labels way
        (followGotos endLabel nodes labels targets start fuel way chain).target
      ∧ (∀ j ∈ (followGotos endLabel nodes labels targets start fuel way chain).chain,
          Leads endLabel nodes labels (some j)
            (followGotos endLabel nodes labels targets start fuel way chain).target) := by
  induction fuel generalizing way chain with
  | zero =>
    have := length_le_of_bounded distinct bounded
    omega
  | succ fuel ih =>
    cases way with
    | none => exact ⟨.done, fun j member => passed j member none .done⟩
    | some i =>
      obtain ⟨d, there⟩ : ∃ d, nodes[i]? = some d :=
        ⟨_, List.getElem?_eq_getElem (here i rfl)⟩
      rw [followGotos, there] at clear ⊢
      dsimp only at clear ⊢
      cases goto : d.gotoLabel? with
      | none =>
        have kept : Leads endLabel nodes labels (some i) (some i) := .kept there goto
        exact ⟨kept, fun j member => passed j member _ kept⟩
      | some label =>
        simp only [goto] at clear ⊢
        -- the trail may end at a goto that was resolved before
        cases known : targets.lookup i with
        | some target =>
          have leads := right _ (mem_of_lookup known)
          exact ⟨leads, fun j member => passed j member _ leads⟩
        | none =>
          simp only [known] at clear ⊢
          -- a goto that is passed again would be a fault
          by_cases again : chain.contains i
          · rw [if_pos again] at clear
            cases clear
          · rw [if_neg again] at clear ⊢
            have new : i ∉ chain := by simpa using again
            by_cases ends : label = endLabel
            · rw [if_pos ends]
              have leads : Leads endLabel nodes labels (some i) none := .ended there (ends ▸ goto)
              refine ⟨leads, fun j member => ?_⟩
              rcases List.mem_append.mp member with old | last
              · exact passed j old none leads
              · rw [List.mem_singleton.mp last]
                exact leads
            · rw [if_neg ends] at clear ⊢
              cases declared : labels.lookup label with
              | none =>
                rw [declared] at clear
                cases clear
              | some next =>
                simp only [declared] at clear ⊢
                have jump : ∀ target, Leads endLabel nodes labels next target →
                    Leads endLabel nodes labels (some i) target :=
                  fun target onward => .jump there goto ends declared onward
                obtain ⟨leads, all⟩ := ih
                  (fun k same => inside _ (mem_of_lookup declared) k same)
                  (fun j member target onward => by
                    rcases List.mem_append.mp member with old | last
                    · exact passed j old target (jump target onward)
                    · rw [List.mem_singleton.mp last]
                      exact jump target onward)
                  (List.nodup_append.mpr ⟨distinct, by simp,
                    fun x old y last => by
                      rintro rfl
                      exact new (List.mem_singleton.mp last ▸ old)⟩)
                  (fun j member => by
                    rcases List.mem_append.mp member with old | last
                    · exact bounded j old
                    · rw [List.mem_singleton.mp last]
                      exact here i rfl)
                  (by rw [List.length_append, List.length_singleton]; omega) clear
                exact ⟨jump _ leads, all⟩

/-- A goto that a trail begins with is on it. -/
theorem followGotos_start {targets : List (Nat × Option Nat)} {start fuel i : Nat} {d : Draft}
    {label : String} (there : nodes[i]? = some d) (goto : d.gotoLabel? = some label)
    (unknown : targets.lookup i = none) :
    i ∈ (followGotos endLabel nodes labels targets start (fuel + 1) (some i) []).chain := by
  rw [followGotos, there]
  simp only [goto, unknown, List.contains_nil, Bool.false_eq_true, if_false, List.nil_append]
  split
  · exact List.mem_singleton_self i
  · split
    · exact List.mem_singleton_self i
    · exact followGotos_prefix.subset (List.mem_singleton_self i)

/-- A table without a diagnostic has every goto lead where its label leads. -/
theorem resolveGoto_right {table : GotoTable} {i : Nat}
    (inside : ∀ l ∈ labels, ∀ i, l.2 = some i → i < nodes.length)
    (right : GotoTable.Right endLabel nodes labels table.targets)
    (clear : (resolveGoto endLabel nodes labels table i).diagnostics = []) :
    GotoTable.Right endLabel nodes labels (resolveGoto endLabel nodes labels table i).targets := by
  unfold resolveGoto at clear ⊢
  split
  · exact right
  next new =>
    rw [if_neg new] at clear
    simp only [List.append_eq_nil_iff, Option.toList_eq_nil_iff] at clear
    simp only [Bool.or_eq_true, not_or, Bool.not_eq_true, Option.isNone_eq_false_iff] at new
    obtain ⟨label, goto⟩ := Option.isSome_iff_exists.mp new.1
    obtain ⟨d, there, _⟩ := Option.bind_eq_some_iff.mp goto
    have all : ∀ j ∈ (followGotos endLabel nodes labels table.targets i (nodes.length + 2) (some i)
        []).chain, Leads endLabel nodes labels (some j) (followGotos endLabel nodes labels
          table.targets i (nodes.length + 2) (some i) []).target := by
      refine (followGotos_leads right inside ?_ ?_ List.nodup_nil ?_ ?_ clear.2).2
      · intro k same
        cases same
        exact (List.getElem?_eq_some_iff.mp there).1
      · intro j member
        cases member
      · intro j member
        cases member
      · simp
    intro entry member
    rcases List.mem_append.mp member with old | added
    · exact right entry old
    · obtain ⟨j, onTrail, rfl⟩ := List.mem_map.mp added
      exact all j onTrail

theorem resolveGoto_diagnostics (table : GotoTable) (i : Nat) :
    table.diagnostics <+: (resolveGoto endLabel nodes labels table i).diagnostics := by
  unfold resolveGoto
  split
  · exact List.prefix_refl _
  · exact List.prefix_append _ _

theorem isSome_lookup_append {α : Type} {table more : List (Nat × α)} {i : Nat}
    (found : (table.lookup i).isSome) : ((table ++ more).lookup i).isSome := by
  rw [List.lookup_append]
  cases known : table.lookup i with
  | none => rw [known] at found; cases found
  | some entry => rfl

theorem isSome_lookup_of_mem {α : Type} {table : List (Nat × α)} {i : Nat} {entry : α}
    (member : (i, entry) ∈ table) : (table.lookup i).isSome := by
  induction table with
  | nil => cases member
  | cons e rest ih =>
    obtain ⟨j, other⟩ := e
    rw [List.lookup_cons]
    split
    · rfl
    next apart =>
      rcases List.mem_cons.mp member with here | later
      · cases here
        simp at apart
      · exact ih later

/-- A goto that is resolved stays so. -/
theorem resolveGoto_keeps {table : GotoTable} {i j : Nat} (found : (table.targets.lookup j).isSome) :
    ((resolveGoto endLabel nodes labels table i).targets.lookup j).isSome := by
  unfold resolveGoto
  split
  · exact found
  · exact isSome_lookup_append found

/-- Resolving a goto gives it an entry. -/
theorem resolveGoto_finds {table : GotoTable} {i : Nat} {d : Draft} {label : String}
    (there : nodes[i]? = some d) (goto : d.gotoLabel? = some label) :
    ((resolveGoto endLabel nodes labels table i).targets.lookup i).isSome := by
  unfold resolveGoto
  split
  next known =>
    simp only [there, Option.bind_some, goto, Option.isNone_some, Bool.false_or] at known
    exact known
  next unknown =>
    simp only [there, Option.bind_some, goto, Option.isNone_some, Bool.false_or,
      Bool.not_eq_true, Option.isSome_eq_false_iff, Option.isNone_iff_eq_none] at unknown
    have onTrail : i ∈ (followGotos endLabel nodes labels table.targets i (nodes.length + 2)
        (some i) []).chain := followGotos_start there goto unknown
    refine isSome_lookup_of_mem (List.mem_append_right _ (List.mem_map.mpr ⟨i, onTrail, rfl⟩))

theorem resolveAll_diagnostics (is : List Nat) (table : GotoTable) :
    table.diagnostics <+: (is.foldl (resolveGoto endLabel nodes labels) table).diagnostics := by
  induction is generalizing table with
  | nil => exact List.prefix_refl _
  | cons i rest ih => exact (resolveGoto_diagnostics table i).trans (ih _)

theorem resolveAll_right {is : List Nat} {table : GotoTable}
    (inside : ∀ l ∈ labels, ∀ i, l.2 = some i → i < nodes.length)
    (right : GotoTable.Right endLabel nodes labels table.targets)
    (clear : (is.foldl (resolveGoto endLabel nodes labels) table).diagnostics = []) :
    GotoTable.Right endLabel nodes labels
      (is.foldl (resolveGoto endLabel nodes labels) table).targets := by
  induction is generalizing table with
  | nil => exact right
  | cons i rest ih =>
    have first : (resolveGoto endLabel nodes labels table i).diagnostics = [] :=
      List.prefix_nil.mp (clear ▸ resolveAll_diagnostics rest _)
    exact ih (resolveGoto_right inside right first) clear

theorem resolveAll_keeps {is : List Nat} {table : GotoTable} {j : Nat}
    (found : (table.targets.lookup j).isSome) :
    ((is.foldl (resolveGoto endLabel nodes labels) table).targets.lookup j).isSome := by
  induction is generalizing table with
  | nil => exact found
  | cons i rest ih => exact ih (resolveGoto_keeps found)

theorem resolveAll_finds {is : List Nat} {table : GotoTable} {i : Nat} {d : Draft}
    {label : String} (there : nodes[i]? = some d) (goto : d.gotoLabel? = some label)
    (member : i ∈ is) :
    ((is.foldl (resolveGoto endLabel nodes labels) table).targets.lookup i).isSome := by
  induction is generalizing table with
  | nil => cases member
  | cons j rest ih =>
    rw [List.foldl_cons]
    rcases List.mem_cons.mp member with rfl | later
    · exact resolveAll_keeps (resolveGoto_finds there goto)
    · exact ih later

/-- If nothing is found wrong with the gotos, every one of them has an entry, and what it has there
is where its label leads. -/
theorem resolveGotos_leads (inside : ∀ l ∈ labels, ∀ i, l.2 = some i → i < nodes.length)
    (clear : (resolveGotos endLabel nodes labels).diagnostics = []) {i : Nat} {d : Draft}
    {label : String} (there : nodes[i]? = some d) (goto : d.gotoLabel? = some label) :
    ∃ target, (resolveGotos endLabel nodes labels).targets.lookup i = some target
      ∧ Leads endLabel nodes labels (some i) target := by
  have bound := (List.getElem?_eq_some_iff.mp there).1
  have known : ((resolveGotos endLabel nodes labels).targets.lookup i).isSome :=
    resolveAll_finds there goto (List.mem_range.mpr bound)
  obtain ⟨target, found⟩ := Option.isSome_iff_exists.mp known
  have right : GotoTable.Right endLabel nodes labels
      (resolveGotos endLabel nodes labels).targets :=
    resolveAll_right inside (fun entry member => by cases member) clear
  exact ⟨target, found, right _ (mem_of_lookup found)⟩

/-- What is found wrong with gotos is fatal. -/
theorem followGotos_fatal {targets : List (Nat × Option Nat)} {start fuel : Nat}
    {way : Option Nat} {chain : List Nat} {d : Diagnostic}
    (wrong : (followGotos endLabel nodes labels targets start fuel way chain).fault = some d) :
    d.fatal = true := by
  induction fuel generalizing way chain with
  | zero => cases wrong
  | succ fuel ih =>
    cases way with
    | none => cases wrong
    | some i =>
      rw [followGotos] at wrong
      dsimp only at wrong
      repeat' split at wrong
      all_goals first
        | cases wrong
          rfl
        | exact ih wrong
        | cases wrong

theorem resolveGotos_fatal :
    ∀ d ∈ (resolveGotos endLabel nodes labels).diagnostics, d.fatal = true := by
  suffices ∀ (is : List Nat) (table : GotoTable), (∀ d ∈ table.diagnostics, d.fatal = true) →
      ∀ d ∈ (is.foldl (resolveGoto endLabel nodes labels) table).diagnostics, d.fatal = true from
    this _ _ fun d member => by cases member
  intro is
  induction is with
  | nil => exact fun _ fatal => fatal
  | cons i rest ih =>
    intro table fatal
    refine ih _ fun d member => ?_
    unfold resolveGoto at member
    split at member
    · exact fatal d member
    · rcases List.mem_append.mp member with old | new
      · exact fatal d old
      · exact followGotos_fatal (Option.mem_toList.mp new)

end Gotos

end Colloquy.Script
