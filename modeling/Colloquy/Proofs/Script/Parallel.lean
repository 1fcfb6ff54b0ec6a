import Colloquy.Proofs.Script.Abreast
/-!
# Compiling side by side

Drafts that differ in the places of lines are linked in the same way, and the graphs that are built
from them differ in the numbers of lines only.
-/

namespace Colloquy.Script

variable {σ : Shift}

/-! ### Searches -/

section Searches

variable {nodes nodes' : List Draft} (moved : List.Forall₂ (Draft.Moved σ) nodes nodes')

theorem accepts_moved {reach reach' : Nat} (bounds : σ.Bounds reach reach') (path : List Branch)
    {d d' : Draft} (node : d.Moved σ d') : accepts reach' path d' = accepts reach path d := by
  unfold accepts
  rw [node.path, node.indent, decide_eq_decide.mpr (bounds d.indent).symm]

include moved

theorem fallthrough?_moved {reach reach' : Nat} (bounds : σ.Bounds reach reach') (start : Nat)
    (path : List Branch) : fallthrough? nodes' start reach' path
      = fallthrough? nodes start reach path := by
  unfold fallthrough?
  rw [forall₂_findIdx? (List.forall₂_drop start moved) fun _ _ node => accepts_moved bounds path node]

theorem settleEdge_moved {e e' : DraftEdge} (edge : e.Moved σ e') :
    (settleEdge nodes e).Moved σ (settleEdge nodes' e') := by
  have leads : e'.destination = e.destination := by rw [edge.same]
  have path : e'.path = e.path := by rw [edge.same]
  have found (start : Nat) : fallthrough? nodes' start e'.reach e'.path
      = fallthrough? nodes start e.reach e.path := by
    rw [path]
    exact fallthrough?_moved moved edge.reach start e.path
  unfold settleEdge
  rw [leads]
  cases e.destination with
  | search start =>
    dsimp only
    rw [found]
    exact edge.aimed _
  | «open» | «to» | «end» => exact edge

theorem settleDraft_moved (i : Nat) {d d' : Draft} (node : d.Moved σ d') :
    (settleDraft nodes i d).Moved σ (settleDraft nodes' i d') := by
  have found : fallthrough? nodes' (i + 1) d'.reach d'.path
      = fallthrough? nodes (i + 1) d.reach d.path := by
    rw [node.path]
    exact fallthrough?_moved moved node.reach (i + 1) d.path
  unfold settleDraft
  rw [node.isLoose]
  split
  · dsimp only
    rw [found]
    exact { node with edges := .cons ⟨rfl, σ.line_zero.symm, Shift.bounds_zero⟩ .nil }
  · refine { node with edges := ?_ }
    rw [List.forall₂_map_left_iff, List.forall₂_map_right_iff]
    exact node.edges.imp fun _ _ edge => settleEdge_moved moved edge

theorem settleAll_moved : List.Forall₂ (Draft.Moved σ) (settleAll nodes) (settleAll nodes') :=
  forall₂_mapIdx moved fun i _ _ node => settleDraft_moved moved i node

end Searches

/-! ### Gotos -/

theorem Draft.Moved.gotoLabel? {d d' : Draft} (node : d.Moved σ d') :
    d'.gotoLabel? = d.gotoLabel? := by
  rw [Draft.gotoLabel?, Draft.gotoLabel?, node.step]

/-- A trail among nodes and the same trail among moved ones. -/
structure Trail.Moved (σ : Shift) (t t' : Trail) : Prop where
  chain : t'.chain = t.chain
  target : t'.target = t.target
  fault : List.Forall₂ σ.Echoes t.fault.toList t'.fault.toList

/-- What gotos among nodes lead to and the same among moved ones. -/
structure GotoTable.Moved (σ : Shift) (t t' : GotoTable) : Prop where
  targets : t'.targets = t.targets
  diagnostics : List.Forall₂ σ.Echoes t.diagnostics t'.diagnostics

section Gotos

variable {nodes nodes' : List Draft} (moved : List.Forall₂ (Draft.Moved σ) nodes nodes')
  (endLabel : String) (labels : List (String × Option Nat))

include moved

theorem goto_moved (i : Nat) :
    nodes'[i]?.bind Draft.gotoLabel? = nodes[i]?.bind Draft.gotoLabel? := by
  have related := forall₂_getElem? moved i
  generalize nodes[i]? = x at related ⊢
  generalize nodes'[i]? = y at related ⊢
  cases related with
  | some node => exact node.gotoLabel?
  | none => rfl

theorem loop_echoes (start : Nat) (message : String) :
    σ.Echoes (.refuse (nodes[start]?.elim 0 (·.line)) message)
      (.refuse (nodes'[start]?.elim 0 (·.line)) message) := by
  refine rel_elim (q := fun x y => σ.Echoes (.refuse x message) (.refuse y message))
    ⟨rfl, rfl, fun _ => rfl⟩ (forall₂_getElem? moved start) fun _ _ node => ?_
  rw [node.line]
  exact Shift.echoes_refuse _ _

theorem followGotos_moved (targets : List (Nat × Option Nat)) (start fuel : Nat)
    (way : Option Nat) (chain : List Nat) :
    (followGotos endLabel nodes labels targets start fuel way chain).Moved σ
      (followGotos endLabel nodes' labels targets start fuel way chain) := by
  have same (chain : List Nat) (target : Option Nat) :
      Trail.Moved σ ⟨chain, target, none⟩ ⟨chain, target, none⟩ := ⟨rfl, rfl, .nil⟩
  induction fuel generalizing way chain with
  | zero => exact same _ _
  | succ fuel ih =>
    cases way with
    | none => exact same _ _
    | some i =>
      -- The trail takes the same turns; only its faults name lines.
      rw [followGotos, followGotos, goto_moved moved start]
      have loops := loop_echoes moved start
      have related := forall₂_getElem? moved i
      generalize nodes[i]? = x at related ⊢
      generalize nodes'[i]? = y at related ⊢
      cases related with
      | none => exact same _ _
      | @some d d' node =>
        dsimp only
        rw [node.gotoLabel?, node.line]
        cases d.gotoLabel? with
        | none => exact same _ _
        | some label =>
          dsimp only
          cases targets.lookup i with
          | some target => exact same _ _
          | none =>
            dsimp only
            split
            · exact ⟨rfl, rfl, .cons (loops _) .nil⟩
            · split
              · exact same _ _
              · cases labels.lookup label with
                | none => exact ⟨rfl, rfl, .cons (Shift.echoes_refuse _ _) .nil⟩
                | some target => exact ih target _

theorem resolveGotos_moved :
    (resolveGotos endLabel nodes labels).Moved σ (resolveGotos endLabel nodes' labels) := by
  unfold resolveGotos
  rw [← moved.length_eq]
  have start : GotoTable.Moved σ {} {} := ⟨rfl, .nil⟩
  generalize List.range nodes.length = is
  generalize ({} : GotoTable) = t at start
  revert start
  -- The table of what has been resolved grows from goto to goto.
  suffices run : ∀ t t' : GotoTable, t.Moved σ t' →
      (is.foldl (resolveGoto endLabel nodes labels) t).Moved σ
        (is.foldl (resolveGoto endLabel nodes' labels) t') from run t t
  induction is with
  | nil => exact fun _ _ tables => tables
  | cons i rest ih =>
    intro t t' tables
    refine ih _ _ ?_
    unfold resolveGoto
    rw [goto_moved moved i, tables.targets, ← moved.length_eq]
    split
    · exact tables
    · have trail := followGotos_moved moved endLabel labels t.targets i (nodes.length + 2)
        (some i) []
      refine ⟨?_, List.rel_append tables.diagnostics trail.fault⟩
      dsimp only
      rw [trail.chain, trail.target]

/-! ### Positions -/

theorem keptBefore_moved (i : Nat) : keptBefore nodes' i = keptBefore nodes i := by
  refine forall₂_countP (List.forall₂_take i moved) fun _ _ node => ?_
  rw [node.gotoLabel?]

theorem newPosition_moved (gotos : List (Nat × Option Nat)) (i : Nat) :
    newPosition nodes' gotos i = newPosition nodes gotos i := by
  have kept : keptBefore nodes' = keptBefore nodes := funext fun i => keptBefore_moved moved i
  rw [newPosition, newPosition, goto_moved moved, kept]

theorem newLabels_moved (gotos : List (Nat × Option Nat)) :
    newLabels nodes' gotos labels = newLabels nodes gotos labels := by
  have positions : newPosition nodes' gotos = newPosition nodes gotos :=
    funext fun i => newPosition_moved moved gotos i
  rw [newLabels, newLabels, positions]

theorem newTarget_moved (gotos : List (Nat × Option Nat)) {e e' : DraftEdge}
    (edge : e.Moved σ e') : newTarget nodes' gotos e' = newTarget nodes gotos e := by
  have leads : e'.destination = e.destination := by rw [edge.same]
  unfold newTarget
  rw [leads]
  cases e.destination with
  | «to» i => exact newPosition_moved moved gotos i
  | «open» | search | «end» => rfl

end Gotos

/-! ### Nodes -/

theorem buildNode_moved (labels : List (String × Nat)) (i : Nat) {d d' : Draft}
    (step : d'.step = d.step) (line : d'.line = σ.line d.line) (edges : List Edge) :
    buildNode labels i d' edges = (buildNode labels i d edges).renumbered σ.line := by
  unfold buildNode
  rw [step, line]
  cases d.step <;> rfl

theorem bodyNodes_moved {nodes nodes' : List Draft}
    (moved : List.Forall₂ (Draft.Moved σ) nodes nodes') (gotos : List (Nat × Option Nat))
    (labels : List (String × Nat)) :
    bodyNodes nodes' gotos labels
      = (bodyNodes nodes gotos labels).map (Node.renumbered σ.line) := by
  have kept : List.Forall₂ (Draft.Moved σ) (nodes.filter (·.gotoLabel?.isNone))
      (nodes'.filter (·.gotoLabel?.isNone)) := by
    refine forall₂_filter moved fun _ _ node => ?_
    rw [node.gotoLabel?]
  refine eq_map_of_forall₂ (forall₂_mapIdx kept fun i d d' node => ?_)
  have edges : (d'.edges.map fun e => buildEdge (newTarget nodes' gotos e) e)
      = d.edges.map fun e => buildEdge (newTarget nodes gotos e) e := by
    refine map_eq_of_forall₂ node.edges fun e e' edge => ?_
    rw [newTarget_moved moved gotos edge, edge.same]
    rfl
  rw [edges]
  exact buildNode_moved labels i node.step node.line _

theorem headerNodes_moved (header : List Draft) (base : Nat) (labels : List (String × Nat)) :
    headerNodes (header.map (Draft.renumbered σ)) base labels
      = (headerNodes header base labels).map (Node.renumbered σ.line) := by
  have same : List.Forall₂ (fun d d' => d' = d.renumbered σ) header
      (header.map (Draft.renumbered σ)) := by
    rw [List.forall₂_map_right_iff]
    exact List.forall₂_same.mpr fun _ _ => rfl
  unfold headerNodes
  rw [List.length_map]
  refine eq_map_of_forall₂ (forall₂_mapIdx same fun i d d' moved => ?_)
  have step : d'.step = d.step := by rw [moved]; rfl
  have line : d'.line = σ.line d.line := by rw [moved]; rfl
  exact buildNode_moved labels (base + i) step line _

/-! ### Ids -/

section Ids

variable (hash : String → String) (length : Nat) (place : Nat → Nat)

theorem assignNode_renumbered (n : Node) (used : List String) :
    TextId.assignNode hash length (n.renumbered place) used
      = ((TextId.assignNode hash length n used).1.renumbered place,
        (TextId.assignNode hash length n used).2) := by
  have content : TextId.content? (n.renumbered place) = TextId.content? n := rfl
  unfold TextId.assignNode
  rw [content, show (n.renumbered place).textId = n.textId from rfl]
  cases (if n.textId = "" then TextId.content? n else none) <;> rfl

theorem assignNodes_renumbered (nodes : List Node) (used : List String) :
    TextId.assignNodes hash length (nodes.map (Node.renumbered place)) used
      = (TextId.assignNodes hash length nodes used).map (Node.renumbered place) := by
  induction nodes generalizing used with
  | nil => rfl
  | cons n rest ih =>
    rw [List.map_cons, TextId.assignNodes, TextId.assignNodes, assignNode_renumbered]
    exact congrArg (_ :: ·) (ih _)

theorem explicit_renumbered (n : Node) (line : Nat) (lines : List Nat) :
    TextId.explicit (n.renumbered place) (place line) (lines.map place)
      = (TextId.explicit n line lines).map fun g => (g.1, place g.2) := by
  unfold TextId.explicit
  rw [List.map_append, show (n.renumbered place).textId = n.textId from rfl,
    show (n.renumbered place).edges = n.edges from rfl, List.zip_map_right, List.filterMap_map,
    List.map_filterMap]
  refine congrArg₂ (· ++ ·) ?_ (List.filterMap_congr fun e _ => ?_)
  · split <;> rfl
  · simp only [Function.comp, Prod.map, id_eq]
    split <;> rfl

theorem repeated_renumbered (used : List String) (given : List (String × Nat)) :
    List.Forall₂ σ.Echoes (TextId.repeated used given)
      (TextId.repeated used (given.map fun g => (g.1, σ.line g.2))) := by
  induction given generalizing used with
  | nil => exact .nil
  | cons g rest ih =>
    rw [List.map_cons, TextId.repeated, TextId.repeated]
    split
    · exact .cons (Shift.echoes_warn _ _) (ih _)
    · exact ih _

end Ids

/-! ### The whole -/

theorem isMixed_renumbered (place : Nat → Nat) (nodes : List Node) (n : Node) :
    isMixed (nodes.map (Node.renumbered place)) (n.renumbered place) = isMixed nodes n := by
  unfold isMixed
  dsimp only
  generalize before : List.filterMap _ n.edges = targets
  generalize after : List.filterMap _ (n.renumbered place).edges = targets'
  have moved : targets' = targets.map (Node.renumbered place) := by
    rw [← before, ← after, List.map_filterMap]
    refine List.filterMap_congr fun e _ => ?_
    split
    · exact List.getElem?_map
    · rfl
  rw [moved, List.any_map, List.any_map]
  rfl

theorem mixedWarnings_renumbered (nodes : List Node) (lines : List Nat) :
    List.Forall₂ σ.Echoes (mixedWarnings nodes lines)
      (mixedWarnings (nodes.map (Node.renumbered σ.line)) (lines.map σ.line)) := by
  have mixed : (fun n : Node × Nat => isMixed (nodes.map (Node.renumbered σ.line)) n.1)
      ∘ Prod.map (Node.renumbered σ.line) σ.line = fun n => isMixed nodes n.1 :=
    funext fun n => isMixed_renumbered σ.line nodes n.1
  unfold mixedWarnings
  rw [List.zip_map, List.filter_map, mixed, List.map_map, List.forall₂_map_left_iff,
    List.forall₂_map_right_iff]
  exact List.forall₂_same.mpr fun n _ => Shift.echoes_warn n.2 _

/-- Whether a draft has the lines of another, moved. -/
def SameSource (σ : Shift) (d d' : Draft) : Prop :=
  d'.line = σ.line d.line ∧ d'.edges.map (·.line) = (d.edges.map (·.line)).map σ.line

theorem Draft.Moved.sameSource {d d' : Draft} (node : d.Moved σ d') : SameSource σ d d' := by
  refine ⟨node.line, ?_⟩
  rw [List.map_map]
  exact map_eq_of_forall₂ node.edges fun _ _ edge => edge.line

/-- The ids that a script gives, with the lines that they stand on. -/
theorem given_renumbered {drafts drafts' : List Draft}
    (same : List.Forall₂ (SameSource σ) drafts drafts') (nodes : List Node) :
    (((nodes.map (Node.renumbered σ.line)).zip drafts').flatMap fun n =>
        TextId.explicit n.1 (sourceLines n.2).1 (sourceLines n.2).2)
      = ((nodes.zip drafts).flatMap fun n =>
        TextId.explicit n.1 (sourceLines n.2).1 (sourceLines n.2).2).map
          fun g => (g.1, σ.line g.2) := by
  induction same generalizing nodes with
  | nil => rw [List.zip_nil_right, List.zip_nil_right]; rfl
  | @cons d d' _ _ first _ ih =>
    cases nodes with
    | nil => rfl
    | cons n rest =>
      rw [List.map_cons, List.zip_cons_cons, List.zip_cons_cons, List.flatMap_cons,
        List.flatMap_cons, List.map_append, ih, ← explicit_renumbered]
      rw [sourceLines, first.1, first.2]
      rfl

/-- What compiling gives and the same of moved lines. -/
structure Compilation.Moved (σ : Shift) (c c' : Compilation) : Prop where
  graph : c'.graph = c.graph.map (Graph.renumbered σ.line)
  diagnostics : List.Forall₂ σ.Echoes c.diagnostics c'.diagnostics

theorem buildGraph_moved {b b' : Builder} (moved : b.Moved σ b') (hash : String → String)
    (s : Settings) (name : String) (gotos : List (Nat × Option Nat)) :
    Both (fun x y : Graph × List Diagnostic => y.1 = x.1.renumbered σ.line
        ∧ List.Forall₂ σ.Echoes x.2 y.2)
      (buildGraph hash s name b gotos) (buildGraph hash s name b' gotos) := by
  have labels : newLabels b'.nodes gotos b'.labels = newLabels b.nodes gotos b.labels := by
    rw [moved.labels]
    exact newLabels_moved moved.nodes b.labels gotos
  have body := bodyNodes_moved moved.nodes gotos (newLabels b.nodes gotos b.labels)
  have header := headerNodes_moved (σ := σ) b.header
    (bodyNodes b.nodes gotos (newLabels b.nodes gotos b.labels)).length
    (newLabels b.nodes gotos b.labels)
  -- The lines of the drafts that are kept are what diagnostics about ids and blocks name.
  have kept : List.Forall₂ (SameSource σ) (b.nodes.filter (·.gotoLabel?.isNone) ++ b.header)
      (b'.nodes.filter (·.gotoLabel?.isNone) ++ b'.header) := by
    refine List.rel_append ?_ ?_
    · refine (forall₂_filter moved.nodes fun _ _ node => ?_).imp fun _ _ node => node.sameSource
      rw [node.gotoLabel?]
    · rw [moved.header, List.forall₂_map_right_iff]
      refine List.forall₂_same.mpr fun d _ => ⟨rfl, ?_⟩
      rw [Draft.renumbered, List.map_map, List.map_map]
      rfl
  have lines : (b'.nodes.filter (·.gotoLabel?.isNone) ++ b'.header).map (·.line)
      = ((b.nodes.filter (·.gotoLabel?.isNone) ++ b.header).map (·.line)).map σ.line := by
    rw [List.map_map]
    exact map_eq_of_forall₂ kept fun _ _ same => same.1
  have position : newPosition b'.nodes gotos 0 = newPosition b.nodes gotos 0 :=
    newPosition_moved moved.nodes gotos 0
  have steps : b'.header.isEmpty = b.header.isEmpty := by rw [moved.header, List.isEmpty_map]
  unfold buildGraph
  dsimp only
  rw [labels, body, List.length_map, lines, forall₂_isEmpty moved.nodes, position, steps]
  rw [moved.header] at kept ⊢
  rw [header, ← List.map_append, given_renumbered kept, List.map_map, assignNodes_renumbered,
    Graph.ofNodes_renumbered]
  simp only [Function.comp_def]
  generalize Graph.ofNodes name _ _ _ _ = made
  cases made with
  | error f => exact .error _
  | ok g =>
    exact .ok ⟨rfl, List.rel_append (repeated_renumbered [] _) (mixedWarnings_renumbered _ _)⟩

theorem compileWith_moved {s : Settings} {text text' : String} (hash : String → String)
    (name : String)
    (abreast : Abreast s.tabWidth σ 1 (Text.lines text.toList) 1 (Text.lines text'.toList))
    (count : σ.Keeps → (Text.lines text'.toList).length = (Text.lines text.toList).length) :
    Both (Compilation.Moved σ) (compileWith hash s name text) (compileWith hash s name text') := by
  refine Both.bind (Builder.Moved.readScript abreast count) fun b b' moved => ?_
  have settled : Builder.Moved σ { b with nodes := settleAll b.nodes }
      { b' with nodes := settleAll b'.nodes } :=
    { moved with nodes := settleAll_moved moved.nodes }
  have gotos : (resolveGotos s.endLabel (settleAll b.nodes) b.labels).Moved σ
      (resolveGotos s.endLabel (settleAll b'.nodes) b'.labels) := by
    rw [moved.labels]
    exact resolveGotos_moved settled.nodes s.endLabel b.labels
  have notes := List.rel_append moved.diagnostics gotos.diagnostics
  -- A script is refused for diagnostics that are fatal, which are so in both.
  have fatal := forall₂_any notes fun d d' (same : σ.Echoes d d') => same.fatal
  dsimp only
  rw [fatal]
  split
  · exact .ok ⟨rfl, notes⟩
  · rw [gotos.targets]
    refine Both.bind (buildGraph_moved settled hash s name _) ?_
    rintro ⟨g, warnings⟩ ⟨g', warnings'⟩ ⟨same, more⟩
    exact .ok ⟨congrArg some same, List.rel_append notes more⟩

end Colloquy.Script
