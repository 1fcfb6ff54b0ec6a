import Colloquy.Proofs.Script.Health
import Colloquy.Proofs.Script.Outline
/-!
# Drafts follow outlines

While a script is read its draft has the nodes of the outline of the lines so far, each with the edges
that are entered at its place. Where edges lead changes until the end, but for the way from a choice to
a block that offers options; what they say does not, and neither does what is said of a node.
-/

namespace Colloquy.Script

open Outline (Point Entry Layer)

/-! ### What nodes and edges say -/

/-- What an edge says, if it is more than where a step leads. Only of the way to a block it counts where
that leads. -/
def DraftEdge.gist? (e : DraftEdge) : Option DraftEdge :=
  match e.kind with
  | .continue => none
  | .chained => some { e with line := 0, reach := 0, path := [] }
  | .decision | .condition => some { e with destination := .open, line := 0, reach := 0, path := [] }

/-- What a node says. -/
def Draft.gist (d : Draft) : Draft :=
  { d with edges := d.edges.filterMap DraftEdge.gist?, reach := 0, path := [] }

/-- What nodes say. -/
def gists (nodes : List Draft) : List Draft :=
  nodes.map Draft.gist

section Edges

theorem filterMap_modify {α β : Type} {f : α → Option β} {g : α → α} {l : List α} {i : Nat}
    (same : ∀ a, l[i]? = some a → f (g a) = f a) : (l.modify i g).filterMap f = l.filterMap f := by
  induction l generalizing i with
  | nil => rw [List.modify_nil]
  | cons a rest ih =>
    cases i with
    | zero =>
      rw [List.modify_zero_cons, List.filterMap_cons, List.filterMap_cons, same a rfl]
    | succ i =>
      rw [List.modify_succ_cons, List.filterMap_cons, List.filterMap_cons, ih same]

variable {nodes : List Draft}

theorem gists_modify {i : Nat} {change : Draft → Draft}
    (same : ∀ d, nodes[i]? = some d → (change d).gist = d.gist) :
    gists (nodes.modify i change) = gists nodes := by
  refine List.ext_getElem? fun j => ?_
  rw [gists, gists, List.getElem?_map, List.getElem?_map, List.getElem?_modify]
  cases there : nodes[j]? with
  | none => rfl
  | some d =>
    by_cases here : i = j
    · subst here
      simpa using same d there
    · simp [here]

/-- An option or a branch says the same wherever it leads. -/
theorem gist?_aimed {e : DraftEdge} (tieable : e.kind = .decision ∨ e.kind = .condition)
    (destination : Destination) : (e.aimed destination).gist? = e.gist? := by
  obtain kind | kind := tieable <;> simp [DraftEdge.gist?, DraftEdge.aimed, kind]

theorem gists_aim {r : EdgeRef} (tieable : Tieable nodes r) (destination : Destination) :
    gists (aim destination nodes r) = gists nodes := by
  refine gists_modify fun d there => ?_
  obtain ⟨e, found, kind⟩ := tieable
  rw [edgeAt, there, Option.bind_some] at found
  have edges : (d.edges.modify r.slot fun e => { e with destination := destination }).filterMap
      DraftEdge.gist? = d.edges.filterMap DraftEdge.gist? := by
    refine filterMap_modify fun e' here => ?_
    cases found.symm.trans here
    exact gist?_aimed kind destination
  rw [Draft.gist, edges, Draft.gist]

theorem gists_foldl_aim {refs : List EdgeRef} (tieable : ∀ r ∈ refs, Tieable nodes r)
    (destination : Destination) : gists (refs.foldl (aim destination) nodes) = gists nodes := by
  induction refs generalizing nodes with
  | nil => rfl
  | cons r rest ih =>
    rw [List.foldl_cons, ih, gists_aim (tieable r (List.mem_cons_self ..))]
    exact fun q member => (tieable q (List.mem_cons_of_mem r member)).mono (Extends.aim ..)

theorem gists_continueTo (nodes : List Draft) (target i : Nat) :
    gists (continueTo target nodes i) = gists nodes := by
  refine gists_modify fun d _ => ?_
  split
  next empty =>
    rw [Draft.gist, Draft.gist, List.isEmpty_iff.1 empty]
    rfl
  · rfl

theorem gists_foldl_continueTo (nodes : List Draft) (target : Nat) (is : List Nat) :
    gists (is.foldl (continueTo target) nodes) = gists nodes := by
  induction is generalizing nodes with
  | nil => rfl
  | cons i rest ih => rw [List.foldl_cons, ih, gists_continueTo]

theorem gists_attach {i : Nat} {edge e : DraftEdge} (told : edge.gist? = some e) (j : Nat) :
    (gists (attach nodes i edge))[j]? = (gists nodes)[j]?.map fun d =>
      if i = j then { d with edges := d.edges ++ [e] } else d := by
  rw [gists, gists, List.getElem?_map, List.getElem?_map, attach_getElem?]
  cases nodes[j]? with
  | none => split <;> rfl
  | some d =>
    split
    · simp [Draft.gist, List.filterMap_append, told]
    · rfl

end Edges

namespace Builder

theorem gists_tieLast (target : Nat) (connect : Bool) (last : Option Nat) (nodes : List Draft) :
    gists (tieLast target connect last nodes) = gists nodes := by
  unfold tieLast
  split
  · split
    · exact gists_continueTo nodes target _
    · rfl
  · rfl

theorem gists_append {b : Builder} (sound : b.Sound) (d : Draft) (connect : Bool) :
    gists (b.append d connect).nodes = gists b.nodes ++ [d.gist] := by
  have tieable : ∀ r ∈ b.looseEdges, Tieable (b.extended d) r := fun r member =>
    (sound.edges r member).mono (Extends.append b.nodes _)
  rw [append_nodes, gists_tieLast, gists_foldl_continueTo, gists_foldl_aim tieable, extended, gists,
    List.map_append]
  rfl

end Builder

/-! ### What outlines say -/

/-- The text of an option. -/
def Line.optionText (l : Line) : String :=
  match Statement.read l.body with
  | .option text => text
  | _ => ""

namespace Outline

/-- The step that a point becomes. -/
def Point.step : Point → Step
  | .speech l speaker text => .text speaker text l.textId (Template.params text)
  | .assign l name e => Builder.assignStep name e l.textId
  | .event _ name args => .event name args
  | .goto _ name => .goto name
  | .list _ => .choice
  | .block _ => .select

theorem Point.step_kind (point : Point) : point.step.kind = point.kind := by
  cases point with
  | assign l name e =>
    rw [step, Builder.assignStep]
    split <;> rfl
  | _ => rfl

/-- The edge that an entry becomes. -/
def Entry.edge : Entry → DraftEdge
  | .option l =>
    { kind := .decision, text := l.optionText, textId := l.textId
      params := Template.params l.optionText }
  | .branch l => { kind := .condition, condition := some l.guard }
  | .fallback => { kind := .condition, condition := some Expression.always }
  | .block place => { kind := .chained, destination := .to place }

/-- What the node of a point says. -/
def Point.gist (point : Point) (entries : List Entry) : Draft :=
  ⟨point.step, point.line.number, point.line.indent, entries.map Entry.edge, 0, []⟩

end Outline

/-! ### Drafts that follow an outline -/

/-- The block that a frame is a branch of. -/
def Frame.open? (f : Frame) : Option Outline.Open :=
  match f.kind with
  | .block block => some ⟨block.select, f.line, block.chained, block.hasElse⟩
  | _ => none

/-- What a frame is in an outline. -/
def Frame.layer (f : Frame) : Layer :=
  ⟨f.threshold, f.last, f.open?⟩

/-- What becomes of a frame once the one above it closes. -/
def Frame.resume (f outer : Frame) : Frame :=
  match f.kind with
  | .block block => Builder.resumed block outer
  | _ => outer

/-- What the frames below one are in an outline. -/
def outward : Frame → List Frame → List Layer
  | _, [] => []
  | f, outer :: rest => (f.resume outer).layer :: outward (f.resume outer) rest

theorem outward_congr {f g : Frame} (same : ∀ outer, f.resume outer = g.resume outer)
    (frames : List Frame) : outward f frames = outward g frames := by
  cases frames with
  | nil => rfl
  | cons outer rest => rw [outward, outward, same]

theorem outward_length (f : Frame) (frames : List Frame) :
    (outward f frames).length = frames.length := by
  induction frames generalizing f with
  | nil => rfl
  | cons outer rest ih => rw [outward, List.length_cons, ih, List.length_cons]

namespace Builder

/-- A draft follows an outline: its nodes say what is begun and entered there, its frames are those
layers, and whatever was refused has been complained of. -/
structure Traces (b : Builder) (o : Outline) : Prop where
  nodes : ∀ i : Nat, (gists b.nodes)[i]? = o.points[i]?.map fun point => point.gist (o.entered i)
  top : b.top.layer = o.top
  below : outward b.top b.below = o.below
  refused : ∀ r ∈ o.refused, Diagnostic.complain r.1.number r.2 ∈ b.diagnostics

namespace Traces

variable {b c : Builder} {o : Outline} {l : Line}

theorem start : ({} : Builder).Traces {} :=
  ⟨fun _ => rfl, rfl, rfl, nofun⟩

theorem length_eq (traces : b.Traces o) : b.nodes.length = o.points.length := by
  have same (i : Nat) : b.nodes.length ≤ i ↔ o.points.length ≤ i := by
    have absent : (gists b.nodes)[i]? = none ↔ o.points[i]? = none := by
      rw [traces.nodes i, Option.map_eq_none_iff]
    rwa [gists, List.getElem?_map, Option.map_eq_none_iff, List.getElem?_eq_none_iff,
      List.getElem?_eq_none_iff] at absent
  exact Nat.le_antisymm ((same _).2 (Nat.le_refl _)) ((same _).1 (Nat.le_refl _))

theorem last (traces : b.Traces o) : b.top.last = o.top.last :=
  congrArg Layer.last traces.top

theorem open? (traces : b.Traces o) : b.top.open? = o.top.block :=
  congrArg Layer.block traces.top

/-- Nothing changes that an outline tells. -/
theorem of_same (traces : b.Traces o) (nodes : gists c.nodes = gists b.nodes) (top : c.top = b.top)
    (below : c.below = b.below) (notes : b.diagnostics <+: c.diagnostics) : c.Traces o where
  nodes := nodes ▸ traces.nodes
  top := top ▸ traces.top
  below := by rw [top, below, traces.below]
  refused r member := notes.subset (traces.refused r member)

theorem note (traces : b.Traces o) (d : Diagnostic) : (b.note d).Traces o :=
  traces.of_same rfl rfl rfl (List.prefix_append _ _)

theorem release (traces : b.Traces o) (sound : b.Sound) : b.release.Traces o :=
  traces.of_same (gists_foldl_aim sound.edges _) rfl rfl (List.prefix_refl _)

/-- A line that cannot be read is complained of. -/
theorem refuse (traces : b.Traces o) (message : String) :
    (b.note (.complain l.number message)).Traces (o.refuse l message) where
  nodes := traces.nodes
  top := traces.top
  below := traces.below
  refused r member := by
    obtain old | new := List.mem_append.1 member
    · exact List.mem_append_left _ (traces.refused r old)
    · rw [List.mem_singleton.1 new]
      exact List.mem_append_right _ (List.mem_singleton_self _)

/-- The nodes after one is added. -/
theorem nodes_append (traces : b.Traces o) (coherent : o.Coherent) (point : Point) {d : Draft}
    {nodes : List Draft} (told : d.gist = point.gist [])
    (added : gists nodes = gists b.nodes ++ [d.gist]) (i : Nat) :
    (gists nodes)[i]? = (o.append point).points[i]?.map fun point => point.gist (o.entered i) := by
  have count : (gists b.nodes).length = o.points.length :=
    (List.length_map _).trans traces.length_eq
  rw [added, Outline.append, List.getElem?_append, List.getElem?_append, count]
  split
  · exact traces.nodes i
  next late =>
    rw [List.getElem?_singleton, List.getElem?_singleton]
    split
    next here =>
      have same : i = o.points.length := by omega
      rw [Option.map_some, same, coherent.entered_next, told]
    · rfl

/-- The nodes after an edge is added. -/
theorem nodes_attach {nodes : List Draft} {place : Nat} {edge : DraftEdge} (entry : Entry)
    (traced : ∀ i : Nat, (gists nodes)[i]? = o.points[i]?.map fun point => point.gist (o.entered i))
    (told : edge.gist? = some entry.edge) (i : Nat) :
    (gists (attach nodes place edge))[i]?
      = (o.enter place entry).points[i]?.map fun point =>
          point.gist ((o.enter place entry).entered i) := by
  rw [gists_attach told, traced, Option.map_map,
    Outline.entered_of_append (c := o.enter place entry) (o := o) rfl]
  refine congrArg (fun f => Option.map f o.points[i]?) (funext fun point => ?_)
  by_cases here : place = i
  · simp [here, Outline.Point.gist]
  · simp [here]

theorem append (traces : b.Traces o) (coherent : o.Coherent) (sound : b.Sound) (point : Point)
    (d : Draft) (told : d.gist = point.gist []) (connect : Bool) :
    (b.append d connect).Traces (o.append point) where
  nodes := traces.nodes_append coherent point told (gists_append sound d connect)
  top := by
    rw [Outline.append, ← traces.top, ← traces.length_eq]
    rfl
  below :=
    (outward_congr (f := (b.append d connect).top) (g := b.top) (fun _ => rfl) b.below).trans
      traces.below
  refused := traces.refused

/-! ### Frames that close -/

variable {block : Block} {outer : Frame} {rest : List Frame}

/-- A block closes, with a branch of its own if it needs one. -/
theorem closeBlock (traces : b.Traces o) (sound : b.Sound) (kind : b.top.kind = .block block)
    (below : b.below = outer :: rest) : (b.closeBlock block outer rest).Traces o.leave := by
  have resumes : b.top.resume outer = resumed block outer := by rw [Frame.resume, kind]
  have layers : o.below = (resumed block outer).layer :: outward (resumed block outer) rest := by
    rw [← traces.below, below, outward, resumes]
  have isOpen : o.top.block = some ⟨block.select, b.top.line, block.chained, block.hasElse⟩ := by
    rw [← traces.open?, Frame.open?, kind]
  rw [Outline.leave_of_below layers, isOpen, Outline.closing]
  cases chained : block.chained with
  | true =>
    rw [closeBlock_chained b outer rest chained]
    refine ⟨?_, rfl, rfl, traces.refused⟩
    have same := gists_foldl_aim (sound.closedBlock_edges kind) .end
    simpa [same, Outline.entered] using traces.nodes
  | false =>
    cases hasElse : block.hasElse with
    | true =>
      rw [closeBlock_complete b outer rest chained hasElse]
      refine ⟨?_, rfl, rfl, traces.refused⟩
      simpa [Outline.entered] using traces.nodes
    | false =>
      rw [closeBlock_partial b outer rest chained hasElse]
      exact ⟨nodes_attach .fallback traces.nodes rfl, rfl, rfl, traces.refused⟩

theorem pop (traces : b.Traces o) (sound : b.Sound) (line : Nat) : (b.pop line).Traces o.leave := by
  unfold Builder.pop
  cases below : b.below with
  | nil =>
    have layers : o.below = [] := by rw [← traces.below, below, outward]
    rw [Outline.leave_of_nil layers]
    exact traces
  | cons outer rest =>
    dsimp only
    split
    next block kind => exact (traces.note _).closeBlock (sound.note _) kind below
    next noBlock =>
      have resumes : b.top.resume outer = outer := by
        unfold Frame.resume
        split
        next block kind => exact absurd kind (noBlock block)
        · rfl
      have layers : o.below = outer.layer :: outward outer rest := by
        rw [← traces.below, below, outward, resumes]
      have noneOpen : o.top.block = none := by
        rw [← traces.open?, Frame.open?]
        split
        next block kind => exact absurd kind (noBlock block)
        · rfl
      rw [Outline.leave_of_below layers, noneOpen, Outline.closing]
      refine ⟨?_, rfl, rfl, traces.refused⟩
      have same : gists b.release.nodes = gists b.nodes := gists_foldl_aim sound.edges _
      simpa [same, Outline.entered] using traces.nodes

theorem popAbove (traces : b.Traces o) (sound : b.Sound) (line indent fuel : Nat) :
    (Builder.popAbove line indent fuel b).Traces (Outline.leaveAbove indent fuel o) := by
  induction fuel generalizing b o with
  | zero => exact traces
  | succ fuel ih =>
    have stops : (b.below.isEmpty || b.top.threshold ≤ indent)
        = (o.below.isEmpty || o.top.threshold ≤ indent) := by
      rw [← traces.below, ← traces.top]
      cases b.below <;> rfl
    rw [Builder.popAbove, Outline.leaveAbove, stops]
    split
    · exact traces
    · exact ih (traces.pop sound line) (sound.pop line)

theorem settle (traces : b.Traces o) (sound : b.Sound) (line indent : Nat) :
    (b.settle line indent).Traces (o.settle indent) := by
  rw [Builder.settle, Outline.settle, ← traces.below, outward_length]
  exact traces.popAbove sound line indent _

theorem popAll (traces : b.Traces o) (sound : b.Sound) (line fuel : Nat) :
    (Builder.popAll line fuel b).Traces (o.leaveAll fuel) := by
  induction fuel generalizing b o with
  | zero => exact traces
  | succ fuel ih =>
    have stops : b.below.isEmpty = o.below.isEmpty := by
      rw [← traces.below]
      cases b.below <;> rfl
    rw [Builder.popAll, Outline.leaveAll, stops]
    split
    · exact traces
    · exact ih (traces.pop sound line) (sound.pop line)

/-! ### Where a layer ends -/

theorem step_choice {point : Point} (kind : point.step.kind = .choice) : ∃ l, point = .list l := by
  rw [point.step_kind] at kind
  cases point with
  | list l => exact ⟨l, rfl⟩
  | _ => cases kind

/-- A frame and its layer end alike. -/
theorem ending_eq (traces : b.Traces o) :
    o.ending = none ∧ b.lastOf b.top = none ∨ ∃ point d, o.ending = some point
      ∧ b.lastOf b.top = some d ∧ d.step = point.step ∧ d.indent = point.line.indent := by
  rw [Outline.ending, lastOf, traces.last]
  cases o.top.last with
  | none => exact .inl ⟨rfl, rfl⟩
  | some i =>
    have same := traces.nodes i
    rw [gists, List.getElem?_map] at same
    rw [Option.bind_some, Option.bind_some]
    cases there : o.points[i]? with
    | none =>
      rw [there, Option.map_none, Option.map_eq_none_iff] at same
      exact .inl ⟨rfl, same⟩
    | some point =>
      rw [there, Option.map_some] at same
      obtain ⟨d, found, told⟩ := Option.map_eq_some_iff.1 same
      exact .inr ⟨point, d, rfl, found, congrArg Draft.step told, congrArg Draft.indent told⟩

/-- A frame ends with a choice just if its layer ends with a list. -/
theorem list_cases (traces : b.Traces o) :
    (o.list? = none ∧ ∀ d, b.lastOf b.top = some d → d.step.kind ≠ .choice)
      ∨ ∃ place first d, o.list? = some (place, first) ∧ b.top.last = some place
        ∧ b.lastOf b.top = some d ∧ d.step.kind = .choice ∧ d.indent = first.indent := by
  obtain ⟨ends, last⟩ | ⟨point, d, ends, last, step, indented⟩ := traces.ending_eq
  · refine .inl ⟨?_, fun d there => by cases last.symm.trans there⟩
    unfold Outline.list?
    rw [ends]
    split
    next none => cases none
    · rfl
  · by_cases kind : point.step.kind = .choice
    · obtain ⟨first, rfl⟩ := step_choice kind
      obtain ⟨place, lastIs, _⟩ := Option.bind_eq_some_iff.1 ends
      refine .inr ⟨place, first, d, ?_, traces.last.trans lastIs, last, by rw [step]; rfl, indented⟩
      rw [Outline.list?, lastIs, ends]
    · refine .inl ⟨?_, fun d' there => by cases last.symm.trans there; rwa [step]⟩
      unfold Outline.list?
      split
      next list =>
        cases ends.symm.trans list
        exact absurd rfl kind
      · rfl

/-- What an option is added to. -/
theorem atChoice_cases (traces : b.Traces o) (line indent : Nat) :
    (∃ place first, o.list? = some (place, first) ∧ b.top.last = some place
        ∧ b.atChoice line indent = b.release)
      ∨ o.list? = none ∧ b.atChoice line indent = b.append ⟨.choice, line, indent, [], 0, []⟩ true := by
  unfold atChoice
  obtain ⟨none, other⟩ | ⟨place, first, d, list, last, there, kind, _⟩ := traces.list_cases
  · refine .inr ⟨none, if_neg ?_⟩
    rw [Option.isSome_filter, Option.any_eq_true]
    rintro ⟨d, there, kind⟩
    exact other d there (of_decide_eq_true kind)
  · refine .inl ⟨place, first, list, last, if_pos ?_⟩
    rw [there, Option.filter_some, decide_eq_true kind]
    rfl

/-- What a block follows. -/
theorem follows_cases (traces : b.Traces o) (indent : Nat) :
    (∃ place first, o.list?.filter (·.2.indent ≤ indent) = some (place, first)
        ∧ b.top.last = some place ∧ b.follows indent = true)
      ∨ o.list?.filter (·.2.indent ≤ indent) = none ∧ b.follows indent = false := by
  unfold follows
  obtain ⟨none, other⟩ | ⟨place, first, d, list, last, there, kind, indented⟩ := traces.list_cases
  · refine .inr ⟨by rw [none]; rfl, ?_⟩
    cases there : b.lastOf b.top with
    | none => rfl
    | some d => simp [other d there]
  · rw [there, list, Option.filter_some, Option.elim_some, kind, indented]
    by_cases within : first.indent ≤ indent
    · exact .inl ⟨place, first, by simp [within], last, by simp [within]⟩
    · exact .inr ⟨by simp [within], by simp [within]⟩

/-! ### Statements -/

theorem layers_eq (traces : b.Traces o) :
    b.top.layer :: outward b.top b.below = o.top :: o.below := by
  rw [traces.top, traces.below]

theorem option (traces : b.Traces o) (coherent : o.Coherent) (sound : b.Sound) {text : String}
    (statement : Statement.read l.body = .option text) :
    (b.option l.number l.indent text l.textId).Traces (o.option l) := by
  have enters {c : Outline} {place : Nat} (head : (b.atChoice l.number l.indent).Traces c)
      (last : (b.atChoice l.number l.indent).top.last = some place) :
      (b.option l.number l.indent text l.textId).Traces { c.enter place (.option l) with
        top := ⟨l.indent + 1, none, none⟩, below := c.top :: c.below } := by
    rw [option_eq text l.textId last]
    refine ⟨nodes_attach (.option l) head.nodes ?_, rfl, head.layers_eq, head.refused⟩
    simp [optionEdge, DraftEdge.gist?, Entry.edge, Line.optionText, statement]
  unfold Outline.option
  obtain ⟨place, first, list, last, atChoice⟩ | ⟨list, atChoice⟩ :=
    traces.atChoice_cases l.number l.indent
  · rw [list]
    exact enters (atChoice ▸ traces.release sound) (atChoice ▸ last)
  · rw [list]
    refine enters (atChoice ▸ traces.append coherent sound (.list l) _ rfl true) ?_
    rw [atChoice, ← traces.length_eq]
    rfl

/-- A block is begun that belongs to a list. -/
theorem openChained {place reach : Nat} {path : List Branch} (traces : b.Traces o)
    (coherent : o.Coherent) (sound : b.Sound) (last : b.top.last = some place) :
    ((b.withChained place l.number l.indent).enterBlock
        (blockFrame b.nodes.length place l.number l.indent reach true) b.nodes.length
        (branchEdge l.number reach path l.guard)).Traces
      ((o.enter place (.block o.points.length)).openAt l o.top true) := by
  have count := traces.length_eq
  have begun := (traces.release sound).nodes_append coherent (.block l) rfl
    (gists_append sound.release ⟨.select, l.number, l.indent, [], 0, []⟩ false)
  refine ⟨?_, ?_, ?_, traces.refused⟩
  · change ∀ i : Nat, (gists (attach (attach _ place (chainEdge b.nodes.length l.number))
      b.nodes.length _))[i]? = _
    rw [count]
    exact nodes_attach (.branch l)
      (nodes_attach (o := o.append (.block l)) (.block o.points.length) begun rfl) rfl
  · change (blockFrame b.nodes.length _ _ _ _ _).layer = ⟨_, some o.points.length, _⟩
    rw [count]
    rfl
  · refine Eq.trans ?_ traces.layers_eq
    change Layer.mk b.top.threshold (some place) b.top.open?
        :: outward { b.top with last := some place } b.below = b.top.layer :: outward b.top b.below
    rw [outward_congr (f := { b.top with last := some place }) (g := b.top) fun _ => rfl, ← last]
    rfl

/-- A block is begun that belongs to no list. -/
theorem openUnchained {reach : Nat} {path : List Branch} (traces : b.Traces o)
    (coherent : o.Coherent) (sound : b.Sound) :
    ((b.withSelect l.number l.indent).enterBlock
        (blockFrame b.nodes.length b.nodes.length l.number l.indent reach false) b.nodes.length
        (branchEdge l.number reach path l.guard)).Traces
      (o.openAt l { o.top with last := some o.points.length } false) := by
  have count := traces.length_eq
  have begun := traces.nodes_append coherent (.block l) rfl
    (gists_append sound ⟨.select, l.number, l.indent, [], 0, []⟩ true)
  refine ⟨?_, ?_, ?_, traces.refused⟩
  · change ∀ i : Nat, (gists (attach _ b.nodes.length _))[i]? = _
    rw [count]
    exact nodes_attach (o := o.append (.block l)) (.branch l) begun rfl
  · change (blockFrame b.nodes.length _ _ _ _ _).layer = ⟨_, some o.points.length, _⟩
    rw [count]
    rfl
  · change Layer.mk b.top.threshold (some b.nodes.length) b.top.open?
        :: outward { b.top with last := some b.nodes.length } b.below
      = { o.top with last := some o.points.length } :: o.below
    rw [outward_congr (f := { b.top with last := some b.nodes.length }) (g := b.top) fun _ => rfl,
      traces.below, ← traces.top, count]
    rfl

theorem openIf (traces : b.Traces o) (coherent : o.Coherent) (sound : b.Sound) (isNext : Bool) :
    (b.openIf l.number l.indent l.guard isNext).Traces (o.openIf l isNext) := by
  unfold Outline.openIf
  obtain ⟨place, first, list, last, follows⟩ | ⟨list, follows⟩ := traces.follows_cases l.indent
  · have atHead : b.atHead l.number l.indent = b := if_pos follows
    rw [list, openIf_chained l.guard (by rw [follows]; rfl) (atHead.symm ▸ last), atHead]
    exact traces.openChained coherent sound last
  · rw [list]
    cases isNext with
    | true =>
      have begun := traces.append coherent sound (.list l)
        ⟨.choice, l.number, l.indent, [], 0, []⟩ rfl true
      have atHead :
          b.atHead l.number l.indent = b.append ⟨.choice, l.number, l.indent, [], 0, []⟩ true :=
        if_neg (by rw [follows]; exact Bool.noConfusion)
      have last : (b.append ⟨.choice, l.number, l.indent, [], 0, []⟩ true).top.last
          = some ((o.append (.list l)).points.length - 1) := by
        rw [Outline.append, List.length_append, List.length_singleton, Nat.add_sub_cancel,
          ← traces.length_eq]
        rfl
      rw [openIf_chained l.guard (Bool.or_true _) (atHead.symm ▸ last), atHead]
      have listed := coherent.append_list l
      exact begun.openChained listed (sound.append true trivial rfl) last
    | false =>
      rw [openIf_unchained l.guard follows]
      exact traces.openUnchained coherent sound

theorem addBranch (traces : b.Traces o) {condition : Option Expression} (keyword : String)
    (guard : condition.getD Expression.always = l.guard) (isElse : condition.isNone = l.isElse) :
    (b.addBranch l.number condition keyword).Traces (o.further l keyword) := by
  have isOpen := traces.open?
  unfold Outline.further
  cases kind : b.top.kind with
  | block block =>
    rw [Frame.open?, kind] at isOpen
    rw [← isOpen]
    cases hasElse : block.hasElse with
    | true =>
      rw [Builder.addBranch, kind]
      simp only [hasElse, if_true]
      exact traces.refuse _
    | false =>
      rw [addBranch_eq l.number condition keyword kind hasElse]
      simp only [hasElse, Bool.false_eq_true, if_false]
      refine ⟨nodes_attach (.branch l) traces.nodes ?_, ?_, ?_, traces.refused⟩
      · rw [guard]
        rfl
      · rw [← traces.top, ← isElse]
        rfl
      · refine Eq.trans (outward_congr (fun outer => ?_) b.below) traces.below
        rw [Frame.resume, Frame.resume, kind]
        rfl
  | root | option =>
    rw [Frame.open?, kind] at isOpen
    rw [← isOpen, Builder.addBranch, kind]
    exact traces.refuse _

theorem endIf (traces : b.Traces o) (sound : b.Sound) (line : Nat) :
    (b.endIf line).Traces o.endIf := by
  have isOpen := traces.open?
  unfold Outline.endIf
  cases kind : b.top.kind with
  | block block =>
    rw [Frame.open?, kind] at isOpen
    rw [← isOpen, Builder.endIf, kind]
    cases below : b.below with
    | nil =>
      have layers : o.below = [] := by rw [← traces.below, below, outward]
      rw [Option.isSome_some, if_pos rfl, Outline.leave_of_nil layers]
      exact traces.note _
    | cons outer rest => exact traces.closeBlock sound kind below
  | root | option =>
    rw [Frame.open?, kind] at isOpen
    rw [← isOpen, Builder.endIf, kind]
    exact traces.note _

theorem label (traces : b.Traces o) (endLabel : String) (line : Nat) (name : String) :
    (b.label endLabel line name).Traces o := by
  unfold Builder.label
  repeat' split
  · exact traces.note _
  · exact traces.note _
  · exact traces.of_same rfl rfl rfl (List.prefix_refl _)

/-- A text without a speaker has none if nothing was said before it. -/
theorem bare_unsaid (line indent : Nat) (text textId : String)
    (unsaid : ∀ d, b.lastOf b.top = some d → d.step.kind ≠ .text) :
    b.bare line indent text textId
      = b.note (.complain line ("Text line has no speaker: '" ++ text ++ "'")) := by
  unfold Builder.bare
  split
  next last => exact absurd rfl (unsaid _ last)
  · rfl

theorem bare (traces : b.Traces o) (coherent : o.Coherent) (sound : b.Sound) (text : String) :
    (b.bare l.number l.indent text l.textId).Traces (o.bare l text) := by
  unfold Outline.bare Outline.speaker?
  obtain ⟨ends, last⟩ | ⟨point, d, ends, last, step, indented⟩ := traces.ending_eq
  · rw [ends, bare_unsaid _ _ _ _ fun d there => by cases last.symm.trans there]
    exact traces.refuse _
  · rw [ends]
    have unsaid (other : point.kind ≠ .text) (d' : Draft) (there : b.lastOf b.top = some d') :
        d'.step.kind ≠ .text := by
      cases last.symm.trans there
      rwa [step, point.step_kind]
    cases point with
    | speech said speaker =>
      obtain ⟨dStep, dLine, dIndent, dEdges, dReach, dPath⟩ := d
      dsimp only at step indented
      subst step indented
      rw [Builder.bare, last]
      dsimp only [Point.step, Point.line]
      by_cases within : said.indent ≤ l.indent
      · rw [if_neg (Nat.not_lt.2 within), if_pos within]
        exact traces.append coherent sound (.speech l speaker text) _ rfl true
      · rw [if_pos (Nat.lt_of_not_le within), if_neg within]
        exact traces.refuse _
    | assign | event | goto | list | block =>
      rw [bare_unsaid _ _ _ _ (unsaid NodeKind.noConfusion)]
      exact traces.refuse _

/-! ### Lines -/

/-- A condition that is read is that of its branch, but for a diagnostic if it is faulty. -/
theorem readCondition (traces : b.Traces o) (sound : b.Sound) {text : String}
    {condition : Expression} (statement : Statement.read l.body = .openIf text
      ∨ Statement.read l.body = .elseIf text)
    (read : b.readCondition l.number text = .ok (c, condition)) :
    c.Traces o ∧ c.Sound ∧ condition = l.guard := by
  have guard : l.guard = conditionOf text := by
    obtain statement | statement := statement <;> rw [Line.guard, statement]
  obtain ⟨given, rfl⟩ | ⟨message, given, rfl, rfl⟩ := readCondition_cases read
  · exact ⟨traces, sound, by rw [guard, conditionOf, given]⟩
  · exact ⟨traces.note _, sound.note _, by rw [guard, conditionOf, given]⟩

theorem readBodyLine {s : Settings} {rest : List (List Char)} (traces : b.Traces o)
    (coherent : o.Coherent) (sound : b.Sound) (read : b.readBodyLine s l rest = .ok c) :
    c.Traces (o.add l (optionNext rest)) := by
  replace traces := traces.settle sound l.number l.indent
  replace sound : (b.settle l.number l.indent).Sound := sound.popAbove ..
  replace coherent := coherent.settle l.indent
  unfold Builder.readBodyLine at read
  unfold Outline.add
  dsimp only at read ⊢
  generalize b.settle l.number l.indent = b at traces sound read
  generalize o.settle l.indent = o at traces coherent
  -- on the frames that are left, draft and outline do the same for every statement
  cases statement : Statement.read l.body with
  | option text =>
    rw [statement] at read
    cases read
    exact traces.option coherent sound statement
  | openIf text =>
    rw [statement] at read
    obtain ⟨⟨b', condition⟩, given, last⟩ := bind_eq_ok.mp read
    cases last
    obtain ⟨traces, sound, rfl⟩ := traces.readCondition sound (.inl statement) given
    exact traces.openIf coherent sound _
  | elseIf text =>
    rw [statement] at read
    obtain ⟨⟨b', condition⟩, given, last⟩ := bind_eq_ok.mp read
    cases last
    obtain ⟨traces, sound, rfl⟩ := traces.readCondition sound (.inr statement) given
    exact traces.addBranch _ rfl (by simp [Line.isElse, statement])
  | otherwise =>
    rw [statement] at read
    cases read
    exact traces.addBranch _ (by simp [Line.guard, statement]) (by simp [Line.isElse, statement])
  | endIf =>
    rw [statement] at read
    cases read
    exact traces.endIf sound _
  | label name =>
    rw [statement] at read
    cases read
    exact traces.label _ _ _
  | goto name =>
    rw [statement] at read
    cases read
    exact traces.append coherent sound (.goto l name) _ rfl true
  | assign name text =>
    rw [statement] at read
    obtain ⟨⟨b', draft⟩, given, last⟩ := bind_eq_ok.mp read
    cases last
    obtain ⟨e, parsed, rfl, rfl⟩ | ⟨message, parsed, rfl, rfl⟩ := readAssignment_cases given
    · dsimp only
      rw [parsed]
      exact traces.append coherent sound (.assign l name e) _ rfl true
    · dsimp only
      rw [parsed]
      exact traces.refuse _
  | event name text =>
    rw [statement] at read
    obtain ⟨answer, given, last⟩ := bind_eq_ok.mp read
    dsimp only
    rw [given]
    cases answer with
    | ok args =>
      cases last
      exact traces.append coherent sound (.event l name args) _ rfl true
    | error message =>
      cases last
      exact traces.refuse _
  | speech speaker text =>
    rw [statement] at read
    cases read
    exact traces.append coherent sound (.speech l speaker text) _ rfl true
  | bare text =>
    rw [statement] at read
    cases read
    exact traces.bare coherent sound text
  | unknown text =>
    rw [statement] at read
    cases read
    exact traces.note _

theorem of_sameBody (traces : b.Traces o) (same : b.SameBody c)
    (notes : b.diagnostics <+: c.diagnostics) : c.Traces o := by
  obtain ⟨top, below⟩ := List.cons.inj same.stack
  exact traces.of_same (congrArg gists same.nodes) top below notes

theorem delimiter (traces : b.Traces o) (line : Nat) : (b.delimiter line).Traces o := by
  refine traces.of_sameBody (delimiter_sameBody b line) ?_
  unfold Builder.delimiter
  dsimp only
  repeat' split
  · exact List.prefix_refl _
  · exact List.prefix_append _ _
  · exact List.prefix_append _ _
  · exact List.prefix_refl _

theorem readHeaderLine (traces : b.Traces o) (read : b.readHeaderLine l = .ok c) : c.Traces o := by
  refine traces.of_sameBody (readHeaderLine_same read).1 ?_
  unfold Builder.readHeaderLine at read
  split at read
  · obtain ⟨⟨b', draft⟩, given, last⟩ := bind_eq_ok.mp read
    cases last
    obtain ⟨e, _, rfl, rfl⟩ | ⟨message, _, rfl, rfl⟩ := readAssignment_cases given
    · simp only [Option.elim_some, headerStep]
      split <;> exact List.prefix_refl _
    · exact List.prefix_append _ _
  · cases read
    exact List.prefix_append _ _

/-- Lines that are read are added to the outline, if they are of the body. -/
theorem readLines {s : Settings} {number : Nat} {lines : List (List Char)} (traces : b.Traces o)
    (coherent : o.Coherent) (healthy : b.Healthy)
    (read : Builder.readLines s b number lines = .ok c) :
    c.Traces (o.addAll (bodyAhead s b.headerState.inside number lines)) := by
  induction lines generalizing b o number with
  | nil =>
    cases read
    exact traces
  | cons raw rest ih =>
    obtain ⟨b', first, later⟩ := bind_eq_ok.mp read
    have healthy' := healthy.readLine first
    rw [bodyAhead]
    unfold Builder.readLine at first
    cases scanned : scan s.tabWidth number raw with
    | empty =>
      rw [scanned] at first
      cases first
      exact ih traces coherent healthy' later
    | delimiter =>
      rw [scanned] at first
      cases first
      have more := ih (traces.delimiter number) coherent healthy' later
      rwa [delimiter_inside] at more
    | line l =>
      rw [scanned] at first
      dsimp only at first ⊢
      cases inside : b.headerState.inside with
      | true =>
        rw [inside, if_pos rfl] at first
        have more := ih (traces.readHeaderLine first) coherent healthy' later
        rwa [(readHeaderLine_same first).2, inside] at more
      | false =>
        rw [inside, if_neg Bool.false_ne_true] at first
        have more :=
          ih (traces.readBodyLine coherent healthy.sound first) (coherent.add ..) healthy' later
        rwa [readBodyLine_headerState first, inside] at more

theorem finish (traces : b.Traces o) (sound : b.Sound) (lastLine : Nat) :
    (b.finish lastLine).Traces (o.leaveAll o.below.length) := by
  have closed : (b.closed lastLine).Traces (o.leaveAll o.below.length) := by
    have ends {b' : Builder} (traces : b'.Traces o) (sound : b'.Sound) :
        (Builder.popAll lastLine b'.below.length b').release.Traces
          (o.leaveAll o.below.length) := by
      rw [← traces.below, outward_length]
      exact (traces.popAll sound _ _).release (sound.popAll _ _)
    unfold Builder.closed
    split
    · exact ends (traces.note _) (sound.note _)
    · exact ends traces sound
  obtain ⟨nodes, top, below, _, _, _, notes⟩ :=
    (b.closed lastLine).endLabels_same (b.closed lastLine).waiting
  rw [finish_eq]
  exact closed.of_same (congrArg gists nodes) top below notes

end Traces

/-- A script is read into a draft that follows its outline. -/
theorem traces_of_readScript {s : Settings} {text : String} {b : Builder}
    (read : readScript s (Text.lines text.toList) = .ok b) : b.Traces (outline s text) := by
  obtain ⟨c, first, last⟩ := bind_eq_ok.mp read
  cases last
  have healthy := Healthy.start.readLines first
  exact (Traces.start.readLines .start .start first).finish healthy.sound _

end Builder

end Colloquy.Script
