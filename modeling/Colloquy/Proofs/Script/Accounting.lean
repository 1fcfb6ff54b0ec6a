import Colloquy.Proofs.Dialogue.Selecting
import Colloquy.Proofs.Script.Header
import Colloquy.Proofs.Script.Ledger
import Colloquy.Proofs.Script.Onward
import Colloquy.Proofs.Script.Outlining
/-!
# No line is lost

The draft of a script follows its outline, and the graph has the nodes of the draft without the gotos.
So the graph has every line of the body that was not refused, and just once: what is said or done and
the blocks as nodes in source order, the options and branches as edges of the nodes of their lists and
blocks. Beside those of lines there is one branch more in each block that has no else branch and belongs
to no list.
-/

namespace Colloquy

/-- Whether a node of a kind says or does something. -/
def NodeKind.isStep : NodeKind → Bool
  | .text | .setVariable | .event => true
  | _ => false

namespace Script

open Outline (Point Entry)

/-! ### Lists side by side -/

section Lists

variable {α β γ : Type} {r : α → β → Prop} {xs : List α} {ys : List β}

theorem forall₂_of_getElem? (count : xs.length = ys.length)
    (each : ∀ (i : Nat) x y, xs[i]? = some x → ys[i]? = some y → r x y) : List.Forall₂ r xs ys := by
  refine List.forall₂_iff_get.2 ⟨count, fun i left right => each i _ _ ?_ ?_⟩
  · exact List.getElem?_eq_getElem left
  · exact List.getElem?_eq_getElem right

/-- What is picked from lists side by side stands side by side. -/
theorem forall₂_pick {q : α → γ → Prop} {p : α → Bool} {f : β → Option γ}
    (related : List.Forall₂ r xs ys) (same : ∀ x y, r x y → p x = (f y).isSome)
    (each : ∀ x y z, r x y → f y = some z → q x z) :
    List.Forall₂ q (xs.filter p) (ys.filterMap f) := by
  induction related with
  | nil => exact .nil
  | @cons x y _ _ first _ ih =>
    rw [List.filter_cons, same x y first, List.filterMap_cons]
    cases picked : f y with
    | none => exact ih
    | some z => exact .cons (each x y z first picked) ih

theorem forall₂_of_filterMap {p : α → Bool} {f : α → Option γ} {g : β → γ}
    (picks : ∀ x, p x = (f x).isSome) (same : xs.filterMap f = ys.map g) :
    List.Forall₂ (fun x y => f x = some (g y)) (xs.filter p) ys := by
  induction xs generalizing ys with
  | nil =>
    rw [List.map_eq_nil_iff.1 same.symm]
    exact .nil
  | cons x rest ih =>
    rw [List.filter_cons, picks]
    rw [List.filterMap_cons] at same
    cases picked : f x with
    | none =>
      rw [picked] at same
      exact ih same
    | some z =>
      rw [picked] at same
      cases ys with
      | nil => cases same
      | cons y others =>
        obtain ⟨rfl, later⟩ := List.cons.inj same
        exact .cons picked (ih later)

end Lists

/-! ### After the searches -/

/-- A search leaves alone what an edge says: the way to a block is never left to one. -/
theorem gist?_settleEdge {nodes : List Draft} {kind : NodeKind} {e : DraftEdge}
    (suits : e.Suits nodes kind) : (settleEdge nodes e).gist? = e.gist? := by
  unfold settleEdge
  split
  next start search =>
    cases kind with
    | choice =>
      obtain ⟨option, _⟩ | ⟨_, _, k, leads, _⟩ := suits
      · exact gist?_aimed (.inl option) _
      · cases search.symm.trans leads
    | select => exact gist?_aimed (.inr suits.1) _
    | goto => exact suits.elim
    | text | setVariable | event => simp [DraftEdge.gist?, suits.1]
  · rfl

/-- Searches leave alone what nodes say. -/
theorem gists_settleAll {nodes : List Draft} (sheet : Sheet nodes) :
    gists (settleAll nodes) = gists nodes := by
  refine List.ext_getElem? fun i => ?_
  rw [gists, gists, List.getElem?_map, List.getElem?_map, settleAll_getElem?, Option.map_map]
  cases there : nodes[i]? with
  | none => rfl
  | some d =>
    have sound := sheet d (List.mem_of_getElem? there)
    refine congrArg some ?_
    rw [Function.comp_apply]
    cases loose : d.isLoose with
    | true =>
      rw [settleDraft, if_pos loose, Draft.gist, Draft.gist, (isLoose_iff.1 loose).2]
      rfl
    | false =>
      have edges : (d.edges.map (settleEdge nodes)).filterMap DraftEdge.gist?
          = d.edges.filterMap DraftEdge.gist? := by
        rw [List.filterMap_map]
        exact List.filterMap_congr fun e member => gist?_settleEdge (sound.edges e member)
      rw [settleDraft_of_edges loose, Draft.gist, edges, Draft.gist]

/-! ### The graph beside the outline -/

section Graph

variable {s : Settings} {name text : String} {b : Builder} {g : Graph} {o : Outline} {n : Node}
  {x : Point × Nat}

/-- Whether a node of the graph is what a point at a place became. -/
def Became (s : Settings) (b : Builder) (o : Outline) (n : Node) (x : Point × Nat) : Prop :=
  o.points[x.2]? = some x.1 ∧ ∃ d, (settleAll b.nodes)[x.2]? = some d ∧ d.gotoLabel? = none
    ∧ d.gist = x.1.gist (o.entered x.2)
    ∧ Built (bodyNode s b d (keptBefore (settleAll b.nodes) x.2)) n

/-- Drafts stand beside points. -/
theorem gists_beside (linked : Linked s text b) :
    List.Forall₂ (fun d x => (settleAll b.nodes)[x.2]? = some d
        ∧ d.gist = x.1.gist ((outline s text).entered x.2))
      (settleAll b.nodes) (outline s text).points.zipIdx := by
  have traces := Builder.traces_of_readScript linked.read
  refine forall₂_of_getElem? ?_ fun i d x draft point => ?_
  · rw [settleAll_length, List.length_zipIdx, traces.length_eq]
  · rw [List.getElem?_zipIdx, Option.map_eq_some_iff] at point
    obtain ⟨point, there, rfl⟩ := point
    have told := traces.nodes i
    rw [← gists_settleAll linked.healthy.sound.sheet, gists, List.getElem?_map, draft, there] at told
    rw [Nat.zero_add]
    exact ⟨draft, Option.some.inj told⟩

theorem kept_of_gist {d : Draft} {point : Point} {entries : List Entry}
    (told : d.gist = point.gist entries) : decide (point.kind ≠ .goto) = d.gotoLabel?.isNone := by
  have step : d.step = point.step := congrArg Draft.step told
  rw [Draft.gotoLabel?, step]
  cases point with
  | assign l name e =>
    obtain ⟨_, _, same⟩ := assignStep_eq name e l.textId
    rw [Point.step, same]
    rfl
  | _ => rfl

/-- What stays becomes a node, which comes after those of what stays before it. -/
theorem ComesOf.became_of_point (linked : Linked s text b) (comes : ComesOf s name b g)
    (there : (outline s text).points[x.2]? = some x.1) (stays : x.1.kind ≠ .goto) :
    ∃ n, g.nodes[keptBefore (settleAll b.nodes) x.2]? = some n ∧ Became s b (outline s text) n x := by
  have member : (outline s text).points.zipIdx[x.2]? = some x := by
    rw [List.getElem?_zipIdx, there]
    simp
  obtain ⟨d, _, draft, told⟩ := forall₂_right (gists_beside linked) member
  have noGoto := Option.isNone_iff_eq_none.1 ((kept_of_gist told).symm.trans (decide_eq_true stays))
  obtain ⟨n, node, built⟩ := comes.node_of_draft draft noGoto
  exact ⟨n, node, there, d, draft, noGoto, told, built⟩

/-- The nodes of the body are what the points that stay became. -/
theorem ComesOf.became (linked : Linked s text b) (comes : ComesOf s name b g) :
    List.Forall₂ (Became s b (outline s text)) (g.nodes.take g.bodyLength)
      (outline s text).kept := by
  have beside := gists_beside linked
  have same : ∀ d (x : Point × Nat), (settleAll b.nodes)[x.2]? = some d
      ∧ d.gist = x.1.gist ((outline s text).entered x.2) →
        decide (x.1.kind ≠ .goto) = d.gotoLabel?.isNone :=
    fun _ _ told => kept_of_gist told.2
  have count : (outline s text).kept.length = (bodyOf b).length :=
    (forall₂_filter beside same).length_eq.symm
  have short : (g.nodes.take g.bodyLength).length = (bodyOf b).length := by
    rw [List.length_take, comes.bodyLength, comes.nodes_length]
    exact Nat.min_eq_left (Nat.le_add_right _ _)
  refine forall₂_of_getElem? (short.trans count.symm) fun p n x node isKept => ?_
  obtain ⟨i, there, stays, place⟩ := exists_of_getElem?_filter isKept
  have before := forall₂_countP (List.forall₂_take i beside) same
  rw [List.getElem?_zipIdx, Option.map_eq_some_iff] at there
  obtain ⟨point, there, rfl⟩ := there
  rw [Nat.zero_add] at stays ⊢
  obtain ⟨n', node', became⟩ :=
    comes.became_of_point linked (x := (point, i)) there (of_decide_eq_true stays)
  rw [keptBefore, ← before, place] at node'
  rw [List.getElem?_take] at node
  split at node
  · cases node.symm.trans node'
    exact became
  · cases node

theorem Became.kind (became : Became s b o n x) : n.kind = x.1.kind := by
  obtain ⟨_, d, _, _, told, built⟩ := became
  have step : d.step = x.1.step := congrArg Draft.step told
  rw [built.kind, bodyNode, buildNode_kind, step, x.1.step_kind]

theorem Became.index (became : Became s b o n x) : n.index = keptBefore (settleAll b.nodes) x.2 := by
  obtain ⟨_, d, _, _, _, built⟩ := became
  rw [built.index, bodyNode, buildNode_index]

theorem Became.line (became : Became s b o n x) : n.line = .ofNat x.1.line.number := by
  obtain ⟨_, d, _, _, told, built⟩ := became
  have line : d.line = x.1.line.number := congrArg Draft.line told
  rw [built.line, bodyNode, buildNode_line, line]

/-- The nodes of a kind are what the points of that kind became. Nodes that assign nothing are in the
body. -/
theorem ComesOf.became_of_kind (linked : Linked s text b) (comes : ComesOf s name b g) (kind : NodeKind)
    (noStep : kind ≠ .setVariable) (noGoto : kind ≠ .goto) :
    List.Forall₂ (Became s b (outline s text)) (g.nodes.filter (·.kind = kind))
      ((outline s text).places kind) := by
  have late : (g.nodes.drop g.bodyLength).filter (·.kind = kind) = [] := by
    refine List.filter_eq_nil_iff.2 fun n member => ?_
    obtain ⟨k, there⟩ := List.mem_iff_getElem?.1 member
    rw [List.getElem?_drop, comes.bodyLength] at there
    rw [(comes.headerStep_kind linked there).1]
    simpa using noStep.symm
  rw [← Outline.kept_places _ noGoto, ← List.take_append_drop g.bodyLength g.nodes,
    List.filter_append, late, List.append_nil]
  exact forall₂_filter (comes.became linked) fun n x became => by rw [became.kind]

/-! ### Steps -/

/-- Whether a node says or does what a line says or does. -/
def Line.ToldBy (l : Line) (n : Node) : Prop :=
  n.line = .ofNat l.number ∧ match Statement.read l.body with
    | .speech speaker text =>
      n.kind = .text ∧ n.speaker = speaker ∧ n.text = text ∧ n.params = Template.params text
    | .bare text => n.kind = .text ∧ n.text = text ∧ n.params = Template.params text
    | .assign name text =>
      n.kind = .setVariable ∧ n.identifier = name
        ∧ ∃ e, n.expression = some e ∧ readExpression text = .ok (.ok e)
    | .event name text =>
      n.kind = .event ∧ n.eventName = name
        ∧ readArguments ((arguments text.toList).map String.ofList) = .ok (.ok n.eventArgs)
    | _ => False

/-- A step of an outline is told by its node. -/
theorem Became.toldBy (became : Became s b o n x) (coherent : o.Coherent) {l : Line}
    (step : x.1.step? = some l) : l.ToldBy n := by
  have genuine := coherent.genuine x.1 (List.mem_of_getElem? became.1)
  obtain ⟨_, d, _, _, told, built⟩ := became
  have isStep : d.step = x.1.step := congrArg Draft.step told
  have line : d.line = x.1.line.number := congrArg Draft.line told
  have same := built.same
  obtain ⟨point, place⟩ := x
  cases point with
  | speech l' speaker text =>
    cases step
    rw [bodyNode, buildNode, isStep, line] at same
    refine ⟨by rw [same]; rfl, ?_⟩
    obtain statement | statement := genuine
    · rw [statement, same]
      exact ⟨rfl, rfl, rfl, rfl⟩
    · rw [statement, same]
      exact ⟨rfl, rfl, rfl⟩
  | assign l' name e =>
    cases step
    obtain ⟨text, statement, read⟩ := genuine
    obtain ⟨literal, textId, assigns⟩ := assignStep_eq name e l.textId
    rw [bodyNode, buildNode, isStep, line, Point.step, assigns] at same
    refine ⟨by rw [same]; rfl, ?_⟩
    rw [statement, same]
    exact ⟨rfl, rfl, e, rfl, read⟩
  | event l' name args =>
    cases step
    obtain ⟨text, statement, read⟩ := genuine
    rw [bodyNode, buildNode, isStep, line] at same
    refine ⟨by rw [same]; rfl, ?_⟩
    rw [statement, same]
    exact ⟨rfl, rfl, read⟩
  | _ => cases step

/-! ### Options and branches -/

theorem gist?_eq_some {e e' : DraftEdge} (told : e.gist? = some e') : ∃ destination,
    e' = { e with destination := destination, line := 0, reach := 0, path := [] }
      ∧ (e.kind = .chained → destination = e.destination) := by
  unfold DraftEdge.gist? at told
  split at told
  · cases told
  · exact ⟨_, (Option.some.inj told).symm, fun _ => rfl⟩
  next kind => exact ⟨_, (Option.some.inj told).symm, fun chained => by cases kind.symm.trans chained⟩
  next kind => exact ⟨_, (Option.some.inj told).symm, fun chained => by cases kind.symm.trans chained⟩

/-- Whether an edge of the graph is what an entry became. -/
structure Entered (s : Settings) (b : Builder) (e : Edge) (entry : Entry) : Prop where
  kind : e.kind = entry.edge.kind
  condition : e.condition = entry.edge.condition
  text : e.text = entry.edge.text
  params : e.params = entry.edge.params
  given : entry.edge.textId ≠ "" → e.textId = entry.edge.textId
  target : ∀ k, entry = .block k →
    e.target = (newPosition (settleAll b.nodes) (gotosOf s b) k).map Ref.ofNat

theorem entered_of_gist {e₀ : DraftEdge} {e : Edge} {entry : Entry}
    (told : e₀.gist? = some entry.edge)
    (named : TextId.NamedEdge (buildEdge (newTarget (settleAll b.nodes) (gotosOf s b) e₀) e₀) e) :
    Entered s b e entry := by
  obtain ⟨destination, same, leads⟩ := gist?_eq_some told
  refine ⟨?_, ?_, ?_, ?_, fun given => ?_, fun k block => ?_⟩
  · rw [named.same, same]
    rfl
  · rw [named.same, same]
    rfl
  · rw [named.same, same]
    rfl
  · rw [named.same, same]
    rfl
  · rw [same] at given ⊢
    exact named.given given
  · subst block
    have kind : e₀.kind = .chained := (congrArg DraftEdge.kind same).symm
    have aimed : e₀.destination = .to k :=
      (leads kind).symm.trans (congrArg DraftEdge.destination same).symm
    rw [named.same, newTarget, aimed]
    rfl

/-- The edges of a node, but for those to the next step, are what was entered at the place of its
point. -/
theorem Became.entered (became : Became s b o n x) :
    List.Forall₂ (Entered s b) (n.edges.filter (·.kind ≠ .continue)) (o.entered x.2) := by
  obtain ⟨_, d, _, _, told, built⟩ := became
  have edges : d.edges.filterMap DraftEdge.gist? = (o.entered x.2).map Entry.edge :=
    congrArg Draft.edges told
  have picks (e₀ : DraftEdge) : decide (e₀.kind ≠ .continue) = e₀.gist?.isSome := by
    unfold DraftEdge.gist?
    cases e₀.kind <;> rfl
  have named := built.edges
  rw [bodyNode, buildNode_edges, List.forall₂_map_left_iff] at named
  have kept := forall₂_filter (p := fun e₀ : DraftEdge => decide (e₀.kind ≠ .continue))
    (q := fun e : Edge => decide (e.kind ≠ .continue)) named fun e₀ e same => by
      rw [same.same]
      rfl
  refine (forall₂_comp (List.Forall₂.flip kept) (forall₂_of_filterMap picks edges)).imp
    fun e entry both => ?_
  obtain ⟨e₀, named, told⟩ := both
  exact entered_of_gist told named

/-- The edges of a kind beside the entries of a sort. -/
theorem Became.picks {α : Type} (became : Became s b o n x) {kind : EdgeKind} {f : Entry → Option α}
    {q : Edge → α → Prop} (other : kind ≠ .continue)
    (same : ∀ entry : Entry, decide (entry.edge.kind = kind) = (f entry).isSome)
    (each : ∀ e entry a, Entered s b e entry → f entry = some a → q e a) :
    List.Forall₂ q (n.edges.filter (·.kind = kind)) ((o.entered x.2).filterMap f) := by
  have picked := forall₂_pick (p := fun e : Edge => decide (e.kind = kind)) became.entered
    (fun e entry entered => by rw [entered.kind, same]) each
  rw [List.filter_filter] at picked
  refine (List.filter_congr fun e _ => ?_) ▸ picked
  by_cases here : e.kind = kind
  · simp [here, other]
  · simp [here]

/-- The options of a list, edge by edge. -/
theorem Became.options (became : Became s b o n x) :
    List.Forall₂ (fun e l => l.isOption = true → Line.Makes l e) (n.edges.filter (·.kind = .decision))
      ((o.entered x.2).filterMap Entry.option?) := by
  refine became.picks EdgeKind.noConfusion (fun entry => by cases entry <;> rfl)
    fun e entry l entered picked isOption => ?_
  cases entry with
  | option l' =>
    cases picked
    have text : e.text = l.optionText := entered.text
    refine ⟨entered.kind, ?_, ?_, entered.given⟩
    · unfold Line.isOption at isOption
      unfold Line.optionText at text
      split at isOption
      next statement => rw [text, statement]
      · cases isOption
    · rw [text]
      exact entered.params
  | _ => cases picked

/-- The conditions of the branches of a block, edge by edge. -/
theorem Became.guards (became : Became s b o n x) :
    (n.edges.filter (·.kind = .condition)).map (·.condition)
      = ((o.entered x.2).filterMap Entry.guard?).map some := by
  refine map_eq_of_forall₂ (List.Forall₂.flip (became.picks EdgeKind.noConfusion
    (q := fun e guard => e.condition = some guard) (fun entry => by cases entry <;> rfl)
    fun e entry guard entered picked => ?_)) fun _ _ same => same
  cases entry with
  | branch | fallback =>
    cases picked
    exact entered.condition
  | _ => cases picked

theorem newPosition_of_draft {nodes : List Draft} (gotos : List (Nat × Option Nat)) {i : Nat} {d : Draft}
    (there : nodes[i]? = some d) (noGoto : d.gotoLabel? = none) :
    newPosition nodes gotos i = some (keptBefore nodes i) := by
  simp [newPosition, there, noGoto]

/-- What stays has a position of its own. -/
theorem keptBefore_inj {nodes : List Draft} {i j : Nat} {d d' : Draft} (left : nodes[i]? = some d)
    (right : nodes[j]? = some d') (noGoto : d.gotoLabel? = none) (noGoto' : d'.gotoLabel? = none)
    (same : keptBefore nodes i = keptBefore nodes j) : i = j := by
  obtain less | equal | more := Nat.lt_trichotomy i j
  · exact absurd same (Nat.ne_of_lt (keptBefore_strict left noGoto less))
  · exact equal
  · exact absurd same (Nat.ne_of_gt (keptBefore_strict right noGoto' more))

/-- The options of all choices are those of the script. -/
theorem ComesOf.options (linked : Linked s text b) (comes : ComesOf s name b g) :
    ∃ offered : List Line, offered.Perm ((bodyLines s text).filter Line.isOption)
      ∧ List.Forall₂ Line.Makes offered
        ((g.nodes.filter (·.kind = .choice)).flatMap fun n => n.edges.filter (·.kind = .decision)) := by
  have lists := comes.became_of_kind linked .choice NodeKind.noConfusion NodeKind.noConfusion
  have perm := Outline.entered_perm (f := Entry.option?) .choice (outline_coherent s text)
    fun entry picked => by
      cases entry with
      | option => rfl
      | _ => exact absurd rfl picked
  rw [(outline_accounts s text).options] at perm
  have options := fun l member => (List.mem_filter.1 (perm.subset (a := l) member)).2
  have edges := List.Forall₂.flip (List.rel_flatMap lists fun n x became => became.options)
  exact ⟨_, perm, ((List.forall₂_and_left _ _).2 ⟨options, edges⟩).imp fun l e both => both.2 both.1⟩

/-- A block that belongs to a list is chained to the choice of that list. -/
theorem ComesOf.chained_of_listed (linked : Linked s text b) (comes : ComesOf s name b g)
    (became : Became s b (outline s text) n x) (listed : (outline s text).lists x.2 = true) :
    ∃ m ∈ g.nodes, m.kind = .choice ∧ ∃ e ∈ m.edges, e.kind = .chained
      ∧ e.target = some (.ofNat n.index) := by
  obtain ⟨_, d, draft, noGoto, _⟩ := id became
  obtain ⟨place, inside⟩ := Outline.lists_iff.1 listed
  obtain ⟨point, there, suits⟩ := (outline_coherent s text).placed _ (Outline.mem_entered.1 inside)
  cases point with
  | list first =>
    obtain ⟨m, node, becameList⟩ :=
      comes.became_of_point linked (x := (.list first, place)) there NodeKind.noConfusion
    obtain ⟨slot, found⟩ := List.mem_iff_getElem?.1 inside
    obtain ⟨e, own, entered⟩ := forall₂_right becameList.entered found
    refine ⟨m, List.mem_of_getElem? node, becameList.kind, e,
      List.mem_of_mem_filter (List.mem_of_getElem? own), entered.kind, ?_⟩
    rw [entered.target _ rfl, newPosition_of_draft _ draft noGoto, became.index]
    rfl
  | _ => exact suits.elim

/-- A block that is chained to a choice belongs to its list. -/
theorem ComesOf.listed_of_chained (linked : Linked s text b) (comes : ComesOf s name b g)
    (became : Became s b (outline s text) n x) {m : Node} (member : m ∈ g.nodes)
    (choice : m.kind = .choice) {e : Edge} (own : e ∈ m.edges) (chained : e.kind = .chained)
    (target : e.target = some (.ofNat n.index)) : (outline s text).lists x.2 = true := by
  obtain ⟨_, d, draft, noGoto, _⟩ := id became
  have lists := comes.became_of_kind linked .choice NodeKind.noConfusion NodeKind.noConfusion
  obtain ⟨p, node⟩ := List.mem_iff_getElem?.1
    (List.mem_filter (p := fun n : Node => n.kind = .choice).2 ⟨member, decide_eq_true choice⟩)
  obtain ⟨⟨_, place⟩, _, becameList⟩ := forall₂_left lists node
  obtain ⟨slot, edge⟩ := List.mem_iff_getElem?.1
    (List.mem_filter (p := fun e : Edge => e.kind ≠ .continue).2 ⟨own, by simp [chained]⟩)
  obtain ⟨entry, found, entered⟩ := forall₂_left becameList.entered edge
  have inside := List.mem_of_getElem? found
  have kind := entered.kind.symm.trans chained
  cases entry with
  | block k =>
    obtain ⟨point, _, suits⟩ := (outline_coherent s text).placed _ (Outline.mem_entered.1 inside)
    cases point with
    | list =>
      obtain ⟨l, there⟩ := suits
      obtain ⟨_, _, _, d', draft', noGoto', _⟩ :=
        comes.became_of_point linked (x := (.block l, k)) there NodeKind.noConfusion
      rw [entered.target _ rfl, newPosition_of_draft _ draft' noGoto', became.index, Option.map_some,
        Option.some.injEq, ofNat_inj] at target
      rw [← keptBefore_inj draft' draft noGoto' noGoto target]
      exact Outline.lists_iff.2 ⟨place, inside⟩
    | _ => exact suits.elim
  | _ => cases kind

/-! ### Blocks -/

/-- Whether a node branches as a block does: it has the conditions of its branches in their order, and
is chained to a choice just if the block belongs to a list. -/
structure Conditional.ToldBy (g : Graph) (c : Conditional) (n : Node) : Prop where
  line : n.line = .ofNat c.opening.number
  guards : (n.edges.filter (·.kind = .condition)).map (·.condition) = c.guards.map some
  listed : c.listed = true ↔ ∃ m ∈ g.nodes, m.kind = .choice
    ∧ ∃ e ∈ m.edges, e.kind = .chained ∧ e.target = some (.ofNat n.index)

/-- The blocks of the graph are those of the script. -/
theorem ComesOf.blocks (linked : Linked s text b) (comes : ComesOf s name b g) :
    List.Forall₂ (Conditional.ToldBy g) (outline s text).conditionals
      (g.nodes.filter (·.kind = .select)) := by
  have blocks := comes.became_of_kind linked .select NodeKind.noConfusion NodeKind.noConfusion
  rw [Outline.conditionals, List.forall₂_map_left_iff]
  have inside : List.Forall₂ (fun x n => x ∈ (outline s text).places .select
      ∧ Became s b (outline s text) n x) _ _ :=
    (List.forall₂_and_left _ _).2 ⟨fun _ member => member, List.Forall₂.flip blocks⟩
  refine inside.imp fun x n both => ?_
  obtain ⟨block, became⟩ := both
  refine ⟨became.line, ?_, ?_⟩
  · rw [became.guards, (entered_block block).2]
  · refine ⟨comes.chained_of_listed linked became, ?_⟩
    rintro ⟨m, member, choice, e, own, chained, target⟩
    exact comes.listed_of_chained linked became member choice own chained target

/-- The steps of the body are those of the script. -/
theorem ComesOf.steps (linked : Linked s text b) (comes : ComesOf s name b g) :
    List.Forall₂ Line.ToldBy
      ((bodyLines s text).filter fun l => l.isStep && !(outline s text).refuses l)
      ((g.nodes.take g.bodyLength).filter (·.kind.isStep)) := by
  have told := forall₂_pick (q := fun n l => Line.ToldBy l n) (p := fun n : Node => n.kind.isStep)
    (f := fun x : Point × Nat => x.1.step?) (comes.became linked)
    (fun n x became => by rw [became.kind]; cases x.1 <;> rfl)
    (fun n x l became step => became.toldBy (outline_coherent s text) step)
  have same := (outline s text).filterMap_points (fun point => point.kind ≠ .goto) (f := Point.step?)
    fun point other => by
      cases point with
      | goto => rfl
      | _ => cases other
  rw [Outline.kept, same, (outline_accounts s text).steps] at told
  exact List.Forall₂.flip told

end Graph

/-! ### Lines -/

/-- What a compilation and its graph have of the lines of the body, each just once. Steps come in the
order of their lines. The options are those of all choices, and the branches are those of all blocks,
where a block without an else branch that belongs to no list has one more, which is always taken. Left
out are lines that were refused, each with an error. -/
structure Accounted (s : Settings) (text : String) (c : Compilation) (g : Graph) : Prop where
  steps : List.Forall₂ Line.ToldBy
    ((bodyLines s text).filter fun l => l.isStep && !(outline s text).refuses l)
    ((g.nodes.take g.bodyLength).filter (·.kind.isStep))
  options : ∃ offered : List Line, offered.Perm ((bodyLines s text).filter Line.isOption)
    ∧ List.Forall₂ Line.Makes offered
      ((g.nodes.filter (·.kind = .choice)).flatMap fun n => n.edges.filter (·.kind = .decision))
  blocks : List.Forall₂ (Conditional.ToldBy g) (outline s text).conditionals
    (g.nodes.filter (·.kind = .select))
  openings : (outline s text).conditionals.map Conditional.opening
    = (bodyLines s text).filter Line.isOpening
  branches : ((outline s text).conditionals.flatMap Conditional.lines).Perm
    ((bodyLines s text).filter fun l => l.isOpening || (l.isFurther && !(outline s text).refuses l))
  refused : ∀ r ∈ (outline s text).refused, r.1 ∈ bodyLines s text
    ∧ (r.1.isStep || r.1.isFurther) = true ∧ Diagnostic.complain r.1.number r.2 ∈ c.diagnostics

/-- No line is lost and none comes twice. -/
theorem lines_accounted {s : Settings} {name text : String} {c : Compilation} {g : Graph}
    (compiled : compile s name text = .ok c) (graph : c.graph = some g) : Accounted s text c g := by
  obtain ⟨b, linked, notes, comes⟩ := compile_graph compiled graph
  refine ⟨comes.steps linked, comes.options linked, comes.blocks linked, outline_openings s text,
    outline_branches s text, fun r refused => ?_⟩
  obtain ⟨inside, kind⟩ := (outline_accounts s text).refused r refused
  have traces := Builder.traces_of_readScript linked.read
  exact ⟨inside, kind, notes.subset (traces.refused r refused)⟩

/-- A list with a block, an else branch without a block, and a block that is open at the end. -/
def strayLines : String :=
  "A: hi @a@\n* x @x@\n[if true]\n  * y @y@\n[endif]\n[else]\nA: on @b@\n[if true]\n[event go 1]\n"
    ++ "and on\n[elseif n]\n"

theorem stray_lines_accounted :
    ∃ c g, compile .standard "script" strayLines = .ok c ∧ c.graph = some g
      ∧ (outline .standard strayLines).refused.map (·.1.number) = [6, 10]
      ∧ (outline .standard strayLines).conditionals.map (·.lines.map Line.number) = [[3], [8, 11]]
      ∧ (outline .standard strayLines).conditionals.map (·.guards.length) = [1, 3]
      ∧ Accounted .standard strayLines c g := by
  have graph : (compile .standard "script" strayLines).toOption.any (·.graph.isSome) = true := by
    decide +kernel
  obtain ⟨c, compiled, graph⟩ := exists_ok_of_any graph
  obtain ⟨g, graph⟩ := Option.isSome_iff_exists.1 graph
  exact ⟨c, g, compiled, graph, by decide +kernel, by decide +kernel, by decide +kernel,
    lines_accounted compiled graph⟩

end Script

end Colloquy
