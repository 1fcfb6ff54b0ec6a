import Colloquy.Script.Wiring
import Mathlib.Data.List.Basic
/-!
# How drafts change

While a script is read, nodes are only added, edges of a node are only added, and of what is there
already nothing changes but the destinations of edges. `Extends` states this together with the
nodes that may get further edges and the edges that may get another destination.
-/

namespace Colloquy.Script

/-- The edge that a reference is to. -/
def edgeAt (nodes : List Draft) (r : EdgeRef) : Option DraftEdge :=
  nodes[r.node]?.bind (·.edges[r.slot]?)

/-- An edge with another destination. -/
def DraftEdge.aimed (destination : Destination) (e : DraftEdge) : DraftEdge :=
  { e with destination := destination }

/-- All of an edge but where it leads. -/
def DraftEdge.core (e : DraftEdge) : DraftEdge :=
  e.aimed .open

/-- All of a node but its edges. -/
def Draft.core (d : Draft) : Draft :=
  { d with edges := [] }

theorem DraftEdge.kind_eq_of_core {e f : DraftEdge} (same : e.core = f.core) : e.kind = f.kind := by
  have := congrArg DraftEdge.kind same
  exact this

theorem DraftEdge.line_eq_of_core {e f : DraftEdge} (same : e.core = f.core) : e.line = f.line := by
  have := congrArg DraftEdge.line same
  exact this

theorem DraftEdge.path_eq_of_core {e f : DraftEdge} (same : e.core = f.core) : e.path = f.path := by
  have := congrArg DraftEdge.path same
  exact this

theorem Draft.step_eq_of_core {d c : Draft} (same : d.core = c.core) : d.step = c.step := by
  have := congrArg Draft.step same
  exact this

theorem Draft.line_eq_of_core {d c : Draft} (same : d.core = c.core) : d.line = c.line := by
  have := congrArg Draft.line same
  exact this

theorem Draft.indent_eq_of_core {d c : Draft} (same : d.core = c.core) : d.indent = c.indent := by
  have := congrArg Draft.indent same
  exact this

theorem Draft.reach_eq_of_core {d c : Draft} (same : d.core = c.core) : d.reach = c.reach := by
  have := congrArg Draft.reach same
  exact this

theorem Draft.path_eq_of_core {d c : Draft} (same : d.core = c.core) : d.path = c.path := by
  have := congrArg Draft.path same
  exact this

theorem edgeAt_eq_some {nodes : List Draft} {r : EdgeRef} {e : DraftEdge} :
    edgeAt nodes r = some e ↔ ∃ d, nodes[r.node]? = some d ∧ d.edges[r.slot]? = some e := by
  simp [edgeAt, Option.bind_eq_some_iff]

theorem edgeAt_lt {nodes : List Draft} {r : EdgeRef} {e : DraftEdge}
    (found : edgeAt nodes r = some e) : r.node < nodes.length := by
  obtain ⟨d, there, _⟩ := edgeAt_eq_some.mp found
  exact (List.getElem?_eq_some_iff.mp there).1

/-! ### Aiming edges -/

@[simp] theorem aim_length (destination : Destination) (nodes : List Draft) (r : EdgeRef) :
    (aim destination nodes r).length = nodes.length := by
  simp [aim]

theorem aim_getElem? (destination : Destination) (nodes : List Draft) (r : EdgeRef) (i : Nat) :
    (aim destination nodes r)[i]? =
      if r.node = i then nodes[i]?.map fun d =>
        { d with edges := d.edges.modify r.slot (·.aimed destination) }
      else nodes[i]? := by
  unfold aim
  rw [List.getElem?_modify]
  split <;> cases nodes[i]? <;> rfl

/-- Aiming changes the edge that is aimed and no other. -/
theorem edgeAt_aim (destination : Destination) (nodes : List Draft) (r q : EdgeRef) :
    edgeAt (aim destination nodes r) q =
      if r = q then (edgeAt nodes q).map (·.aimed destination) else edgeAt nodes q := by
  unfold edgeAt
  rw [aim_getElem?]
  by_cases same : r.node = q.node
  · rw [if_pos same]
    cases there : nodes[q.node]? with
    | none => simp
    | some d =>
      simp only [Option.map_some, Option.bind_some, List.getElem?_modify]
      by_cases slot : r.slot = q.slot
      · have equal : r = q := by cases r; cases q; simp_all
        cases d.edges[q.slot]? <;> simp [equal]
      · have apart : r ≠ q := fun equal => slot (congrArg EdgeRef.slot equal)
        cases d.edges[q.slot]? <;> simp [slot, apart]
  · have apart : r ≠ q := fun equal => same (congrArg EdgeRef.node equal)
    rw [if_neg same, if_neg apart]

@[simp] theorem foldl_aim_length (destination : Destination) (refs : List EdgeRef)
    (nodes : List Draft) : (refs.foldl (aim destination) nodes).length = nodes.length := by
  induction refs generalizing nodes with
  | nil => rfl
  | cons r rest ih => simp [ih]

theorem edgeAt_foldl_aim (destination : Destination) (refs : List EdgeRef) (nodes : List Draft)
    (q : EdgeRef) :
    edgeAt (refs.foldl (aim destination) nodes) q =
      if q ∈ refs then (edgeAt nodes q).map (·.aimed destination) else edgeAt nodes q := by
  induction refs generalizing nodes with
  | nil => simp
  | cons r rest ih =>
    rw [List.foldl_cons, ih, edgeAt_aim]
    by_cases first : r = q
    · subst first
      by_cases again : r ∈ rest
      · simp [again, Option.map_map, Function.comp_def, DraftEdge.aimed]
      · simp [again]
    · have other : q ≠ r := fun equal => first equal.symm
      simp [first, other]

/-! ### Adding edges and nodes -/

@[simp] theorem attach_length (nodes : List Draft) (i : Nat) (edge : DraftEdge) :
    (attach nodes i edge).length = nodes.length := by
  simp [attach]

theorem attach_getElem? (nodes : List Draft) (i j : Nat) (edge : DraftEdge) :
    (attach nodes i edge)[j]? =
      if i = j then nodes[j]?.map fun d => { d with edges := d.edges ++ [edge] }
      else nodes[j]? := by
  unfold attach
  rw [List.getElem?_modify]
  split <;> cases nodes[j]? <;> rfl

@[simp] theorem continueTo_length (target : Nat) (nodes : List Draft) (i : Nat) :
    (continueTo target nodes i).length = nodes.length := by
  simp [continueTo]

/-- The only edge of a step that runs on to a position. -/
def continueEdge (target : Nat) : DraftEdge :=
  { kind := .continue, destination := .to target }

theorem continueTo_getElem? (target : Nat) (nodes : List Draft) (i j : Nat) :
    (continueTo target nodes i)[j]? =
      if i = j then nodes[j]?.map fun d =>
        if d.edges.isEmpty then { d with edges := [continueEdge target] } else d
      else nodes[j]? := by
  unfold continueTo
  rw [List.getElem?_modify]
  split <;> cases nodes[j]? <;> rfl

@[simp] theorem foldl_continueTo_length (target : Nat) (is : List Nat) (nodes : List Draft) :
    (is.foldl (continueTo target) nodes).length = nodes.length := by
  induction is generalizing nodes with
  | nil => rfl
  | cons i rest ih => simp [ih]

/-! ### Extension -/

/-- `new` comes of `old` by additions: further nodes, further edges of nodes in `held`, and other
destinations of edges in `loose`. -/
structure Extends (held : Nat → Prop) (loose : EdgeRef → Prop) (old new : List Draft) : Prop where
  node : ∀ {i d}, old[i]? = some d →
    ∃ d', new[i]? = some d' ∧ d'.core = d.core ∧ (¬ held i → d'.edges.length = d.edges.length)
  edge : ∀ {r e}, edgeAt old r = some e →
    ∃ e', edgeAt new r = some e' ∧ e'.core = e.core ∧ (¬ loose r → e' = e)

namespace Extends

variable {held held' : Nat → Prop} {loose loose' : EdgeRef → Prop} {a b c : List Draft}

theorem refl (held : Nat → Prop) (loose : EdgeRef → Prop) (nodes : List Draft) :
    Extends held loose nodes nodes where
  node there := ⟨_, there, rfl, fun _ => rfl⟩
  edge there := ⟨_, there, rfl, fun _ => rfl⟩

theorem mono (h : Extends held loose a b) (nodes : ∀ i, held i → held' i)
    (edges : ∀ r, loose r → loose' r) : Extends held' loose' a b where
  node there := by
    obtain ⟨d', new, same, count⟩ := h.node there
    exact ⟨d', new, same, fun free => count fun taken => free (nodes _ taken)⟩
  edge there := by
    obtain ⟨e', new, same, fixed⟩ := h.edge there
    exact ⟨e', new, same, fun free => fixed fun taken => free (edges _ taken)⟩

/-- Additions one after the other. What is added later may concern, beside `held` and `loose`,
all that is new since. -/
theorem trans_new (first : Extends held loose a b)
    (second : Extends (fun i => held i ∨ a.length ≤ i)
      (fun r => loose r ∨ edgeAt a r = none) b c) :
    Extends held loose a c where
  node {i d} there := by
    obtain ⟨d₁, new₁, same₁, count₁⟩ := first.node there
    obtain ⟨d₂, new₂, same₂, count₂⟩ := second.node new₁
    refine ⟨d₂, new₂, same₂.trans same₁, fun free => ?_⟩
    have old : i < a.length := (List.getElem?_eq_some_iff.mp there).1
    rw [count₂ (by rintro (taken | late) <;> [exact free taken; omega]), count₁ free]
  edge {r e} there := by
    obtain ⟨e₁, new₁, same₁, fixed₁⟩ := first.edge there
    obtain ⟨e₂, new₂, same₂, fixed₂⟩ := second.edge new₁
    refine ⟨e₂, new₂, same₂.trans same₁, fun free => ?_⟩
    have old : ¬ (loose r ∨ edgeAt a r = none) := by
      rintro (taken | absent)
      · exact free taken
      · rw [absent] at there; cases there
    rw [fixed₂ old, fixed₁ free]

theorem trans (first : Extends held loose a b) (second : Extends held loose b c) :
    Extends held loose a c :=
  first.trans_new (second.mono (fun _ => Or.inl) (fun _ => Or.inl))

theorem length_le (h : Extends held loose a b) : a.length ≤ b.length := by
  by_contra shorter
  have bound : b.length < a.length := by omega
  obtain ⟨d', new, _, _⟩ := h.node (List.getElem?_eq_getElem bound)
  exact absurd (List.getElem?_eq_some_iff.mp new).1 (Nat.lt_irrefl _)

theorem aim (destination : Destination) (nodes : List Draft) (r : EdgeRef) :
    Extends (fun _ => False) (fun q => q = r) nodes (aim destination nodes r) where
  node {i d} there := by
    rw [aim_getElem?, there]
    by_cases same : r.node = i
    · rw [if_pos same]
      exact ⟨_, rfl, rfl, by simp⟩
    · rw [if_neg same]
      exact ⟨_, rfl, rfl, by simp⟩
  edge {q e} there := by
    rw [edgeAt_aim, there]
    by_cases same : r = q
    · rw [if_pos same]
      exact ⟨_, rfl, rfl, fun free => absurd same.symm free⟩
    · rw [if_neg same]
      exact ⟨_, rfl, rfl, fun _ => rfl⟩

theorem foldl_aim (destination : Destination) (refs : List EdgeRef) (nodes : List Draft) :
    Extends (fun _ => False) (· ∈ refs) nodes (refs.foldl (Script.aim destination) nodes) := by
  induction refs generalizing nodes with
  | nil => exact refl _ _ _
  | cons r rest ih =>
    have first : Extends (fun _ => False) (· ∈ r :: rest) nodes (Script.aim destination nodes r) :=
      (aim destination nodes r).mono (fun _ => id) (by simp)
    exact first.trans ((ih _).mono (fun _ => id) fun q later => List.mem_cons_of_mem r later)

theorem attach (nodes : List Draft) (i : Nat) (edge : DraftEdge) :
    Extends (fun j => j = i) (fun _ => False) nodes (attach nodes i edge) where
  node {j d} there := by
    rw [attach_getElem?, there]
    by_cases same : i = j
    · rw [if_pos same]
      exact ⟨_, rfl, rfl, fun free => absurd same.symm free⟩
    · rw [if_neg same]
      exact ⟨_, rfl, rfl, fun _ => rfl⟩
  edge {r e} there := by
    obtain ⟨d, node, found⟩ := edgeAt_eq_some.mp there
    refine ⟨e, edgeAt_eq_some.mpr ?_, rfl, fun _ => rfl⟩
    rw [attach_getElem?, node]
    by_cases same : i = r.node
    · rw [if_pos same]
      refine ⟨_, rfl, ?_⟩
      rw [List.getElem?_append_left (List.getElem?_eq_some_iff.mp found).1, found]
    · exact ⟨d, by rw [if_neg same], found⟩

theorem continueTo (target : Nat) (nodes : List Draft) (i : Nat) :
    Extends (fun j => j = i) (fun _ => False) nodes (continueTo target nodes i) where
  node {j d} there := by
    rw [continueTo_getElem?, there]
    by_cases same : i = j
    · rw [if_pos same, Option.map_some]
      refine ⟨_, rfl, ?_, fun free => absurd same.symm free⟩
      split <;> rfl
    · rw [if_neg same]
      exact ⟨_, rfl, rfl, fun _ => rfl⟩
  edge {r e} there := by
    obtain ⟨d, node, found⟩ := edgeAt_eq_some.mp there
    refine ⟨e, edgeAt_eq_some.mpr ?_, rfl, fun _ => rfl⟩
    rw [continueTo_getElem?, node]
    by_cases same : i = r.node
    · refine ⟨d, ?_, found⟩
      have filled : d.edges ≠ [] := by rintro empty; rw [empty] at found; simp at found
      rw [if_pos same]
      simp [filled]
    · exact ⟨d, by rw [if_neg same], found⟩

theorem foldl_continueTo (target : Nat) (is : List Nat) (nodes : List Draft) :
    Extends (· ∈ is) (fun _ => False) nodes (is.foldl (Script.continueTo target) nodes) := by
  induction is generalizing nodes with
  | nil => exact refl _ _ _
  | cons i rest ih =>
    have first : Extends (· ∈ i :: rest) (fun _ => False) nodes
        (Script.continueTo target nodes i) :=
      (continueTo target nodes i).mono (by simp) (fun _ => id)
    exact first.trans ((ih _).mono (fun j later => List.mem_cons_of_mem i later) fun _ => id)

theorem append (nodes more : List Draft) :
    Extends (fun _ => False) (fun _ => False) nodes (nodes ++ more) where
  node {i d} there := by
    have old := (List.getElem?_eq_some_iff.mp there).1
    exact ⟨d, by rw [List.getElem?_append_left old, there], rfl, fun _ => rfl⟩
  edge {r e} there := by
    obtain ⟨d, node, found⟩ := edgeAt_eq_some.mp there
    have old := (List.getElem?_eq_some_iff.mp node).1
    refine ⟨e, edgeAt_eq_some.mpr ⟨d, ?_, found⟩, rfl, fun _ => rfl⟩
    rw [List.getElem?_append_left old, node]

end Extends

/-! ### Where edges come from -/

/-- An item of a list with one more item is an old one or that one. -/
theorem getElem?_concat_cases {α : Type} {l : List α} {a x : α} {k : Nat}
    (there : (l ++ [a])[k]? = some x) : l[k]? = some x ∨ k = l.length ∧ x = a := by
  rw [List.getElem?_append] at there
  split at there
  · exact .inl there
  next late =>
    rw [List.getElem?_singleton] at there
    split at there
    · exact .inr ⟨by omega, (Option.some.inj there).symm⟩
    · cases there

theorem edgeAt_continueTo_some {target i : Nat} {nodes : List Draft} {r : EdgeRef} {e : DraftEdge}
    (there : edgeAt (continueTo target nodes i) r = some e) :
    edgeAt nodes r = some e ∨ e = continueEdge target := by
  obtain ⟨d', node, found⟩ := edgeAt_eq_some.mp there
  rw [continueTo_getElem?] at node
  split at node
  · obtain ⟨d, before, rfl⟩ := Option.map_eq_some_iff.1 node
    split at found
    · obtain none | ⟨_, rfl⟩ := @getElem?_concat_cases _ [] _ _ _ found
      · cases none
      · exact .inr rfl
    · exact .inl (edgeAt_eq_some.mpr ⟨d, before, found⟩)
  · exact .inl (edgeAt_eq_some.mpr ⟨d', node, found⟩)

theorem edgeAt_foldl_continueTo_some {target : Nat} {is : List Nat} {nodes : List Draft}
    {r : EdgeRef} {e : DraftEdge}
    (there : edgeAt (is.foldl (continueTo target) nodes) r = some e) :
    edgeAt nodes r = some e ∨ e = continueEdge target := by
  induction is generalizing nodes with
  | nil => exact .inl there
  | cons i rest ih =>
    obtain between | new := ih there
    · exact edgeAt_continueTo_some between
    · exact .inr new

/-- Whether an edge of the node at a position leads to later nodes, if it is known where it leads. -/
def DraftEdge.Onward (i : Nat) (e : DraftEdge) : Prop :=
  (∀ j, e.destination = .to j → i < j) ∧ ∀ start, e.destination = .search start → i < start

/-- Where edges come from. An edge that is left to a search has been so before, or looks only at
nodes that came since; the edge of an option has been there before, or its line satisfies `place`. An
option, branch or way to a block has led where it does before, or leads onward. -/
structure Stems (place : Nat → Prop) (old new : List Draft) : Prop where
  searches : ∀ r e start, edgeAt new r = some e → e.destination = .search start →
    edgeAt old r = some e ∨ old.length ≤ start ∧ start ≤ new.length
  options : ∀ r e, edgeAt new r = some e → e.kind = .decision →
    (∃ e₀, edgeAt old r = some e₀ ∧ e₀.core = e.core) ∨ place e.line
  onward : ∀ r e, edgeAt new r = some e → e.kind ≠ .continue →
    edgeAt old r = some e ∨ e.Onward r.node

namespace Stems

variable {place : Nat → Prop} {a b c : List Draft}

theorem refl (nodes : List Draft) : Stems place nodes nodes where
  searches _ _ _ there _ := .inl there
  options _ e there _ := .inl ⟨e, there, rfl⟩
  onward _ _ there _ := .inl there

theorem trans (first : Stems place a b) (second : Stems place b c) (grown : a.length ≤ b.length)
    (later : b.length ≤ c.length) : Stems place a c where
  searches r e start there left := by
    obtain before | late := second.searches r e start there left
    · obtain old | ⟨from_, upTo⟩ := first.searches r e start before left
      · exact .inl old
      · exact .inr ⟨from_, Nat.le_trans upTo later⟩
    · exact .inr ⟨Nat.le_trans grown late.1, late.2⟩
  options r e there isOption := by
    obtain ⟨e₁, between, same⟩ | new := second.options r e there isOption
    · have kind := DraftEdge.kind_eq_of_core same
      obtain ⟨e₀, before, core⟩ | new := first.options r e₁ between (kind.trans isOption)
      · exact .inl ⟨e₀, before, core.trans same⟩
      · exact .inr (DraftEdge.line_eq_of_core same ▸ new)
    · exact .inr new
  onward r e there kind := by
    obtain before | late := second.onward r e there kind
    · exact first.onward r e before kind
    · exact .inr late

/-- Each edge is one that was there, or that of a step which is left to no search. -/
theorem of_edges (edges : ∀ r e, edgeAt b r = some e →
    edgeAt a r = some e ∨ e.kind = .continue ∧ ∀ start, e.destination ≠ .search start) :
    Stems place a b where
  searches r e start there left := by
    obtain old | ⟨_, known⟩ := edges r e there
    · exact .inl old
    · exact absurd left (known start)
  options r e there isOption := by
    obtain old | ⟨other, _⟩ := edges r e there
    · exact .inl ⟨e, old, rfl⟩
    · rw [isOption] at other
      cases other
  onward r e there kind := by
    obtain old | ⟨other, _⟩ := edges r e there
    · exact .inl old
    · exact absurd other kind

theorem foldl_aim (destination : Destination) (refs : List EdgeRef) (nodes : List Draft)
    (late : ∀ start, destination = .search start → start = nodes.length)
    (ahead : ∀ j, destination = .to j → ∀ r e, edgeAt nodes r = some e → r.node < j) :
    Stems place nodes (refs.foldl (aim destination) nodes) where
  searches r e start there left := by
    rw [edgeAt_foldl_aim] at there
    split at there
    · obtain ⟨old, _, rfl⟩ := Option.map_eq_some_iff.1 there
      have same := late start left
      rw [foldl_aim_length]
      exact .inr ⟨Nat.le_of_eq same.symm, Nat.le_of_eq same⟩
    · exact .inl there
  options r e there _ := by
    rw [edgeAt_foldl_aim] at there
    split at there
    · obtain ⟨old, before, rfl⟩ := Option.map_eq_some_iff.1 there
      exact .inl ⟨old, before, rfl⟩
    · exact .inl ⟨e, there, rfl⟩
  onward r e there _ := by
    rw [edgeAt_foldl_aim] at there
    split at there
    · obtain ⟨old, before, rfl⟩ := Option.map_eq_some_iff.1 there
      refine .inr ⟨fun j target => ahead j target r old before, fun start left => ?_⟩
      rw [late start left]
      exact edgeAt_lt before
    · exact .inl there

theorem attach (nodes : List Draft) (i : Nat) {edge : DraftEdge}
    (known : ∀ start, edge.destination ≠ .search start)
    (ahead : ∀ j, edge.destination = .to j → i < j)
    (line : edge.kind = .decision → place edge.line) :
    Stems place nodes (attach nodes i edge) := by
  have edges : ∀ r e, edgeAt (Script.attach nodes i edge) r = some e →
      edgeAt nodes r = some e ∨ e = edge ∧ i = r.node := by
    intro r e there
    obtain ⟨d', node, found⟩ := edgeAt_eq_some.mp there
    rw [attach_getElem?] at node
    split at node
    next here =>
      obtain ⟨d, before, rfl⟩ := Option.map_eq_some_iff.1 node
      obtain old | ⟨_, rfl⟩ := getElem?_concat_cases found
      · exact .inl (edgeAt_eq_some.mpr ⟨d, before, old⟩)
      · exact .inr ⟨rfl, here⟩
    · exact .inl (edgeAt_eq_some.mpr ⟨d', node, found⟩)
  refine ⟨fun r e start there left => ?_, fun r e there isOption => ?_, fun r e there _ => ?_⟩
  · obtain old | ⟨rfl, _⟩ := edges r e there
    · exact .inl old
    · exact absurd left (known start)
  · obtain old | ⟨rfl, _⟩ := edges r e there
    · exact .inl ⟨e, old, rfl⟩
    · exact .inr (line isOption)
  · obtain old | ⟨rfl, here⟩ := edges r e there
    · exact .inl old
    · exact .inr ⟨fun j target => here ▸ ahead j target, fun start left => absurd left (known start)⟩

theorem continueTo (target : Nat) (nodes : List Draft) (i : Nat) :
    Stems place nodes (continueTo target nodes i) := by
  refine of_edges fun r e there => ?_
  obtain old | rfl := edgeAt_continueTo_some there
  · exact .inl old
  · exact .inr ⟨rfl, by rintro _ ⟨⟩⟩

theorem foldl_continueTo (target : Nat) (is : List Nat) (nodes : List Draft) :
    Stems place nodes (is.foldl (Script.continueTo target) nodes) := by
  induction is generalizing nodes with
  | nil => exact refl _
  | cons i rest ih => exact (continueTo target nodes i).trans (ih _) (by simp) (by simp)

theorem append (nodes : List Draft) {d : Draft} (bare : d.edges = []) :
    Stems place nodes (nodes ++ [d]) := by
  refine of_edges fun r e there => .inl ?_
  obtain ⟨d', node, found⟩ := edgeAt_eq_some.mp there
  obtain old | ⟨_, rfl⟩ := getElem?_concat_cases node
  · exact edgeAt_eq_some.mpr ⟨d', old, found⟩
  · rw [bare] at found
    cases found

end Stems

end Colloquy.Script
