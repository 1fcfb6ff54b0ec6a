import Colloquy.Expression.Basic
import Colloquy.Proofs.Expression.Reading
import Colloquy.Proofs.Script.Drafts
/-!
# Sound drafts

What holds of the nodes of a draft at any time: every edge suits the kind of its node, no edge leads
out of the draft, a step has one successor at most, and names and expressions are such that they
can be written down and read again.
-/

namespace Colloquy.Script

/-! ### Sound nodes -/

/-- Whether an edge has nothing to say but where it leads. -/
def DraftEdge.IsBare (e : DraftEdge) : Prop :=
  e.condition = none ∧ e.text = "" ∧ e.textId = "" ∧ e.params = []

/-- Whether there is a select at a position. -/
def IsSelect (nodes : List Draft) (i : Nat) : Prop :=
  ∃ d, nodes[i]? = some d ∧ d.step = .select

/-- Whether an edge may belong to a node of a kind. -/
def DraftEdge.Suits (nodes : List Draft) (kind : NodeKind) (e : DraftEdge) : Prop :=
  match kind with
  | .text | .setVariable | .event => e.kind = .continue ∧ e.IsBare
  | .choice =>
    (e.kind = .decision ∧ e.condition = none ∧ ∀ p ∈ e.params, p ≠ "") ∨
      (e.kind = .chained ∧ e.IsBare ∧ ∃ i, e.destination = .to i ∧ IsSelect nodes i)
  | .select =>
    e.kind = .condition ∧ (∃ c, e.condition = some c ∧ c.Readable) ∧ e.text = "" ∧ e.textId = ""
      ∧ e.params = []
  | .goto => False

/-- Whether a text and an id are those of an assignment: the text is the one that the variable is
set to, and where it is not set to a text literal there is neither. -/
def Step.Translates (e : Expression) (text textId : String) : Prop :=
  match e.literal? with
  | some (Value.text t) => text = t
  | _ => text = "" ∧ textId = ""

/-- Whether the names and expressions of a step can be written down, and its text is what it says. -/
def Step.Sound : Step → Prop
  | .text _ _ _ params => ∀ p ∈ params, p ≠ ""
  | .assign name e t textId => name ≠ "" ∧ e.Readable ∧ Translates e t textId
  | .event name args => name ≠ "" ∧ ∀ a ∈ args, a.Readable
  | _ => True

/-- A node that is sound among nodes. -/
structure Draft.Sound (nodes : List Draft) (d : Draft) : Prop where
  step : d.step.Sound
  edges : ∀ e ∈ d.edges, e.Suits nodes d.step.kind
  targets : ∀ e ∈ d.edges, ∀ i, e.destination = .to i → i < nodes.length
  single : d.step.isSequential = true → d.edges.length ≤ 1

/-- Nodes that are sound. -/
def Sheet (nodes : List Draft) : Prop :=
  ∀ d ∈ nodes, d.Sound nodes

/-- Whether an edge may be aimed: it is an option or a branch. -/
def Tieable (nodes : List Draft) (r : EdgeRef) : Prop :=
  ∃ e, edgeAt nodes r = some e ∧ (e.kind = .decision ∨ e.kind = .condition)

/-- Whether a node runs on. -/
def RunsOn (nodes : List Draft) (i : Nat) : Prop :=
  ∃ d, nodes[i]? = some d ∧ d.step.isSequential = true

theorem IsSelect.lt {nodes : List Draft} {i : Nat} (select : IsSelect nodes i) :
    i < nodes.length := by
  obtain ⟨d, there, _⟩ := select
  exact (List.getElem?_eq_some_iff.mp there).1

section Persistence

variable {held : Nat → Prop} {loose : EdgeRef → Prop} {a b : List Draft}

theorem IsSelect.mono (h : Extends held loose a b) {i : Nat} (select : IsSelect a i) :
    IsSelect b i := by
  obtain ⟨d, there, step⟩ := select
  obtain ⟨d', now, same, _⟩ := h.node there
  exact ⟨d', now, (Draft.step_eq_of_core same).trans step⟩

theorem RunsOn.mono (h : Extends held loose a b) {i : Nat} (runs : RunsOn a i) : RunsOn b i := by
  obtain ⟨d, there, step⟩ := runs
  obtain ⟨d', now, same, _⟩ := h.node there
  exact ⟨d', now, by rw [Draft.step_eq_of_core same]; exact step⟩

theorem Tieable.mono (h : Extends held loose a b) {r : EdgeRef} (tieable : Tieable a r) :
    Tieable b r := by
  obtain ⟨e, there, kind⟩ := tieable
  obtain ⟨e', now, same, _⟩ := h.edge there
  exact ⟨e', now, by rw [DraftEdge.kind_eq_of_core same]; exact kind⟩

theorem DraftEdge.Suits.mono (h : Extends held loose a b) {kind : NodeKind} {e : DraftEdge}
    (suits : e.Suits a kind) : e.Suits b kind := by
  cases kind with
  | choice =>
    rcases suits with option | ⟨chained, bare, i, target, select⟩
    · exact Or.inl option
    · exact Or.inr ⟨chained, bare, i, target, select.mono h⟩
  | _ => exact suits

theorem Draft.Sound.mono (h : Extends held loose a b) {d : Draft} (sound : d.Sound a) :
    d.Sound b where
  step := sound.step
  edges e member := (sound.edges e member).mono h
  targets e member i target := Nat.lt_of_lt_of_le (sound.targets e member i target) h.length_le
  single := sound.single

end Persistence

/-! ### Changes that keep nodes sound -/

/-- An option or a branch suits its node wherever it leads. -/
theorem DraftEdge.Suits.aimed {nodes : List Draft} {kind : NodeKind} {e : DraftEdge}
    (suits : e.Suits nodes kind) (tieable : e.kind = .decision ∨ e.kind = .condition)
    (destination : Destination) : (e.aimed destination).Suits nodes kind := by
  cases kind with
  | choice =>
    rcases suits with option | ⟨chained, _⟩
    · exact Or.inl option
    · rw [chained] at tieable
      rcases tieable with wrong | wrong <;> cases wrong
  | _ => exact suits

theorem Sheet.aim {nodes : List Draft} {r : EdgeRef} {destination : Destination}
    (sheet : Sheet nodes) (tieable : Tieable nodes r)
    (bound : ∀ i, destination = .to i → i < nodes.length) :
    Sheet (aim destination nodes r) := by
  intro d' member
  have grown := Extends.aim destination nodes r
  obtain ⟨i, there⟩ := List.mem_iff_getElem?.mp member
  rw [aim_getElem?] at there
  by_cases same : r.node = i
  · rw [if_pos same] at there
    obtain ⟨d, before, rfl⟩ := Option.map_eq_some_iff.mp there
    have sound := sheet d (List.mem_of_getElem? before)
    obtain ⟨e, found, kind⟩ := tieable
    obtain ⟨d₀, node, slot⟩ := edgeAt_eq_some.mp found
    rw [same, before] at node
    cases node
    -- Every edge is as it was but for the one that is aimed.
    have aimedOr : ∀ f ∈ d.edges.modify r.slot (·.aimed destination),
        f ∈ d.edges ∨ f = e.aimed destination := by
      intro f inside
      obtain ⟨k, at_k⟩ := List.mem_iff_getElem?.mp inside
      rw [List.getElem?_modify] at at_k
      split at at_k
      next here =>
        rw [here] at slot
        rw [slot] at at_k
        cases at_k
        exact Or.inr rfl
      · obtain ⟨f', was, rfl⟩ := Option.map_eq_some_iff.mp at_k
        exact Or.inl (List.mem_of_getElem? was)
    have own : e ∈ d.edges := List.mem_of_getElem? slot
    refine ⟨sound.step, ?_, ?_, ?_⟩
    · intro f inside
      rcases aimedOr f inside with old | rfl
      · exact (sound.edges f old).mono grown
      · exact ((sound.edges e own).aimed kind destination).mono grown
    · intro f inside j target
      rw [aim_length]
      rcases aimedOr f inside with old | rfl
      · exact sound.targets f old j target
      · exact bound j target
    · intro sequential
      rw [List.length_modify]
      exact sound.single sequential
  · rw [if_neg same] at there
    exact (sheet d' (List.mem_of_getElem? there)).mono grown

theorem Sheet.foldl_aim {nodes : List Draft} {refs : List EdgeRef} {destination : Destination}
    (sheet : Sheet nodes) (tieable : ∀ r ∈ refs, Tieable nodes r)
    (bound : ∀ i, destination = .to i → i < nodes.length) :
    Sheet (refs.foldl (Script.aim destination) nodes) := by
  induction refs generalizing nodes with
  | nil => exact sheet
  | cons r rest ih =>
    refine ih (sheet.aim (tieable r (List.mem_cons_self ..)) bound) ?_ ?_
    · intro q later
      exact (tieable q (List.mem_cons_of_mem r later)).mono (Extends.aim destination nodes r)
    · intro i target
      rw [aim_length]
      exact bound i target

theorem Sheet.attach {nodes : List Draft} {i : Nat} {edge : DraftEdge} (sheet : Sheet nodes)
    (suits : ∀ d, nodes[i]? = some d →
      d.step.isSequential = false ∧ edge.Suits nodes d.step.kind)
    (bound : ∀ j, edge.destination = .to j → j < nodes.length) :
    Sheet (attach nodes i edge) := by
  intro d' member
  have grown := Extends.attach nodes i edge
  obtain ⟨j, there⟩ := List.mem_iff_getElem?.mp member
  rw [attach_getElem?] at there
  by_cases same : i = j
  · rw [if_pos same] at there
    obtain ⟨d, before, rfl⟩ := Option.map_eq_some_iff.mp there
    have sound := sheet d (List.mem_of_getElem? before)
    obtain ⟨branching, fits⟩ := suits d (same ▸ before)
    refine ⟨sound.step, ?_, ?_, fun sequential => ?_⟩
    · intro e inside
      rcases List.mem_append.mp inside with old | new
      · exact (sound.edges e old).mono grown
      · rw [List.mem_singleton.mp new]
        exact fits.mono grown
    · intro e inside k target
      rw [attach_length]
      rcases List.mem_append.mp inside with old | new
      · exact sound.targets e old k target
      · rw [List.mem_singleton.mp new] at target
        exact bound k target
    · rw [branching] at sequential
      cases sequential
  · rw [if_neg same] at there
    exact (sheet d' (List.mem_of_getElem? there)).mono grown

/-- The edge of a step that runs on suits it. -/
theorem continue_suits {nodes : List Draft} {s : Step} {e : DraftEdge}
    (sequential : s.isSequential = true) (kind : e.kind = .continue) (bare : e.IsBare) :
    e.Suits nodes s.kind := by
  cases s with
  | text | assign | event => exact ⟨kind, bare⟩
  | choice | select | goto => cases sequential

theorem Sheet.continueTo {nodes : List Draft} {i target : Nat} (sheet : Sheet nodes)
    (runs : RunsOn nodes i) (bound : target < nodes.length) :
    Sheet (continueTo target nodes i) := by
  intro d' member
  have grown := Extends.continueTo target nodes i
  obtain ⟨j, there⟩ := List.mem_iff_getElem?.mp member
  rw [continueTo_getElem?] at there
  by_cases same : i = j
  · rw [if_pos same] at there
    obtain ⟨d, before, rfl⟩ := Option.map_eq_some_iff.mp there
    have sound := sheet d (List.mem_of_getElem? before)
    split
    · obtain ⟨d₀, node, sequential⟩ := runs
      rw [same, before] at node
      cases node
      refine ⟨sound.step, ?_, ?_, fun _ => Nat.le_refl 1⟩
      · intro e inside
        rw [List.mem_singleton.mp inside]
        exact (continue_suits sequential rfl ⟨rfl, rfl, rfl, rfl⟩).mono grown
      · intro e inside k aimed
        rw [List.mem_singleton.mp inside] at aimed
        cases aimed
        rw [continueTo_length]
        exact bound
    · exact sound.mono grown
  · rw [if_neg same] at there
    exact (sheet d' (List.mem_of_getElem? there)).mono grown

theorem Sheet.foldl_continueTo {nodes : List Draft} {is : List Nat} {target : Nat}
    (sheet : Sheet nodes) (runs : ∀ i ∈ is, RunsOn nodes i) (bound : target < nodes.length) :
    Sheet (is.foldl (Script.continueTo target) nodes) := by
  induction is generalizing nodes with
  | nil => exact sheet
  | cons i rest ih =>
    refine ih (sheet.continueTo (runs i (List.mem_cons_self ..)) bound) ?_ ?_
    · intro j later
      exact (runs j (List.mem_cons_of_mem i later)).mono (Extends.continueTo target nodes i)
    · rw [continueTo_length]
      exact bound

theorem Sheet.append {nodes : List Draft} {d : Draft} (sheet : Sheet nodes) (step : d.step.Sound)
    (fresh : d.edges = []) : Sheet (nodes ++ [d]) := by
  intro d' member
  rcases List.mem_append.mp member with old | new
  · exact (sheet d' old).mono (Extends.append nodes [d])
  · rw [List.mem_singleton.mp new]
    refine ⟨step, ?_, ?_, fun _ => by rw [fresh]; exact Nat.zero_le 1⟩
    · intro e inside
      rw [fresh] at inside
      cases inside
    · intro e inside
      rw [fresh] at inside
      cases inside

end Colloquy.Script
