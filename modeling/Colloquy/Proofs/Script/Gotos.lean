import Colloquy.Proofs.Script.Signposts
import Colloquy.Proofs.Script.Totality
/-!
# Where gotos lead

The destination of a goto, told by the lines of the script: the first node made after the line that
declares its label, or where that node leads if it is a goto as well. A script is refused just if
one of its gotos has no destination, and in a graph nothing leads to a goto any more but to what its
destination has become.
-/

namespace Colloquy.Script

/-! ### Destinations -/

section Destinations

variable (endLabel : String) (lines : List Line) (nodes : List Draft)

/-- What a label stands for: the end, or the first node made after its declaration, or the end if
there is none. A label that is not declared stands for nothing. -/
def landing? (label : String) : Option (Option Nat) :=
  if label = endLabel then some none
  else (declaration? endLabel lines label).map fun l => firstAfter? nodes l.number

/-- Where a goto with a label leads in the end: to a node that is no goto, or to the end. -/
inductive GoesTo : String → Option Nat → Prop where
  | ended {label : String} (lands : landing? endLabel lines nodes label = some none) :
      GoesTo label none
  | node {label : String} {i : Nat} {d : Draft}
      (lands : landing? endLabel lines nodes label = some (some i)) (there : nodes[i]? = some d)
      (noGoto : d.gotoLabel? = none) : GoesTo label (some i)
  | onward {label next : String} {i : Nat} {d : Draft} {target : Option Nat}
      (lands : landing? endLabel lines nodes label = some (some i)) (there : nodes[i]? = some d)
      (goto : d.gotoLabel? = some next) (arrives : GoesTo next target) : GoesTo label target

/-- Whether the gotos that follow each other from a label on never come to an end. -/
def Endless (label : String) : Prop :=
  ∃ chain : Nat → String, chain 0 = label ∧ ∀ k, ∃ i d,
    landing? endLabel lines nodes (chain k) = some (some i) ∧ nodes[i]? = some d
      ∧ d.gotoLabel? = some (chain (k + 1))

/-- Whether a goto of the script names an undeclared label or never comes to an end. -/
def Astray : Prop :=
  ∃ l ∈ lines, ∃ label, Statement.read l.body = .goto label
    ∧ (landing? endLabel lines nodes label = none ∨ Endless endLabel lines nodes label)

end Destinations

section Arrivals

variable {endLabel : String} {lines : List Line} {nodes : List Draft}

/-- What arrives somewhere comes to an end. -/
theorem GoesTo.not_endless {label : String} {target : Option Nat}
    (arrives : GoesTo endLabel lines nodes label target) : ¬ Endless endLabel lines nodes label := by
  induction arrives with
  | ended lands =>
    rintro ⟨chain, rfl, links⟩
    obtain ⟨i, d, onward, -⟩ := links 0
    cases lands.symm.trans onward
  | node lands there noGoto =>
    rintro ⟨chain, rfl, links⟩
    obtain ⟨i, d, onward, there', goto⟩ := links 0
    cases lands.symm.trans onward
    cases there.symm.trans there'
    cases noGoto.symm.trans goto
  | onward lands there goto _ ih =>
    rintro ⟨chain, rfl, links⟩
    obtain ⟨i, d, onward, there', goto'⟩ := links 0
    cases lands.symm.trans onward
    cases there.symm.trans there'
    cases goto.symm.trans goto'
    exact ih ⟨fun k => chain (k + 1), rfl, fun k => links (k + 1)⟩

theorem GoesTo.lands {label : String} {target : Option Nat}
    (arrives : GoesTo endLabel lines nodes label target) :
    landing? endLabel lines nodes label ≠ none := by
  cases arrives with
  | ended lands | node lands | onward lands => exact fun none => Option.some_ne_none _ (lands.symm.trans none)

theorem landing?_lt {label : String} {i : Nat}
    (lands : landing? endLabel lines nodes label = some (some i)) : i < nodes.length := by
  unfold landing? at lands
  split at lands
  · cases lands
  · obtain ⟨l, _, first⟩ := Option.map_eq_some_iff.mp lands
    exact (List.findIdx?_eq_some_iff_getElem.mp first).1

/-- A label that arrives nowhere is endless, if all gotos name labels that stand for something. -/
theorem endless_of_not_goesTo {label : String}
    (known : ∀ label, (∃ d ∈ nodes, d.gotoLabel? = some label) →
      landing? endLabel lines nodes label ≠ none)
    (named : ∃ d ∈ nodes, d.gotoLabel? = some label)
    (lost : ∀ target, ¬ GoesTo endLabel lines nodes label target) :
    Endless endLabel lines nodes label := by
  let Lost (label : String) : Prop := (∃ d ∈ nodes, d.gotoLabel? = some label)
    ∧ ∀ target, ¬ GoesTo endLabel lines nodes label target
  have step (label : String) (here : Lost label) : ∃ next, Lost next ∧ ∃ i d,
      landing? endLabel lines nodes label = some (some i) ∧ nodes[i]? = some d
        ∧ d.gotoLabel? = some next := by
    obtain ⟨named, lost⟩ := here
    obtain ⟨way, lands⟩ := Option.ne_none_iff_exists'.mp (known label named)
    cases way with
    | none => exact absurd (.ended lands) (lost none)
    | some i =>
      have bound := landing?_lt lands
      have there := List.getElem?_eq_getElem bound
      cases goto : nodes[i].gotoLabel? with
      | none => exact absurd (.node lands there goto) (lost (some i))
      | some next =>
        refine ⟨next, ⟨⟨_, List.getElem_mem _, goto⟩, fun target arrives => ?_⟩, i, _, lands, there,
          goto⟩
        exact lost target (.onward lands there goto arrives)
  choose next stays links using step
  let chain (k : Nat) : { label // Lost label } :=
    k.rec ⟨label, named, lost⟩ fun _ here => ⟨next here.1 here.2, stays here.1 here.2⟩
  exact ⟨fun k => (chain k).1, rfl, fun k => links (chain k).1 (chain k).2⟩

end Arrivals

section Gotos

variable {s : Settings} {text : String} {b : Builder}

theorem mem_marks_of_goto {nodes : List Draft} {d : Draft} {label : String} (member : d ∈ nodes)
    (goto : d.gotoLabel? = some label) : (d.line, .goto label) ∈ marks nodes := by
  refine List.mem_map.mpr ⟨d, member, ?_⟩
  unfold Draft.gotoLabel? at goto
  split at goto
  next label' step =>
    cases goto
    rw [Draft.mark, step]
  · cases goto

theorem goto_of_mem_marks {nodes : List Draft} {n : Nat} {label : String}
    (member : (n, .goto label) ∈ marks nodes) : ∃ d ∈ nodes, d.gotoLabel? = some label := by
  obtain ⟨d, inside, mark⟩ := List.mem_map.mp member
  refine ⟨d, inside, ?_⟩
  have step : d.step = .goto label := congrArg Prod.snd mark
  rw [Draft.gotoLabel?, step]

/-- The nodes that are gotos are those of the lines that say so. -/
theorem Signposted.goto_iff (signposted : Signposted s text b) (label : String) :
    (∃ d ∈ settleAll b.nodes, d.gotoLabel? = some label)
      ↔ ∃ l ∈ bodyLines s text, Statement.read l.body = .goto label := by
  constructor
  · rintro ⟨d, member, goto⟩
    have mark := mem_marks_of_goto member goto
    rw [marks_settleAll] at mark
    obtain ⟨l, inside, _, reads⟩ := (signposted.gotos _ _).mp mark
    exact ⟨l, inside, reads⟩
  · rintro ⟨l, inside, reads⟩
    have mark := (signposted.gotos l.number label).mpr ⟨l, inside, rfl, reads⟩
    rw [← marks_settleAll] at mark
    exact goto_of_mem_marks mark

theorem Signposted.lookup (signposted : Signposted s text b) {label : String}
    (notEnd : label ≠ s.endLabel) :
    b.labels.lookup label
      = landing? s.endLabel (bodyLines s text) (settleAll b.nodes) label := by
  rw [signposted.labels, landing?, if_neg notEnd]
  simp only [firstAfter?_eq, marks_settleAll]

/-- Following labels comes to the same as following the entries of the draft. -/
theorem Signposted.leads_of_goesTo (signposted : Signposted s text b) {label : String}
    {target : Option Nat}
    (arrives : GoesTo s.endLabel (bodyLines s text) (settleAll b.nodes) label target) {i : Nat}
    {d : Draft} (there : (settleAll b.nodes)[i]? = some d) (goto : d.gotoLabel? = some label) :
    Leads s.endLabel (settleAll b.nodes) b.labels (some i) target := by
  induction arrives generalizing i d with
  | @ended label lands =>
    by_cases ends : label = s.endLabel
    · exact .ended there (ends ▸ goto)
    · exact .jump there goto ends ((signposted.lookup ends).trans lands) .done
  | @node label j d' lands there' noGoto =>
    have notEnd : label ≠ s.endLabel := by
      rintro rfl
      rw [landing?, if_pos rfl] at lands
      cases lands
    exact .jump there goto notEnd ((signposted.lookup notEnd).trans lands) (.kept there' noGoto)
  | @onward label next j d' target lands there' goto' _ ih =>
    have notEnd : label ≠ s.endLabel := by
      rintro rfl
      rw [landing?, if_pos rfl] at lands
      cases lands
    exact .jump there goto notEnd ((signposted.lookup notEnd).trans lands) (ih there' goto')

theorem Signposted.goesTo_of_leads (signposted : Signposted s text b) {way target : Option Nat}
    (leads : Leads s.endLabel (settleAll b.nodes) b.labels way target) {i : Nat} {d : Draft}
    {label : String} (here : way = some i) (there : (settleAll b.nodes)[i]? = some d)
    (goto : d.gotoLabel? = some label) :
    GoesTo s.endLabel (bodyLines s text) (settleAll b.nodes) label target := by
  induction leads generalizing i d label with
  | done => cases here
  | kept there' noGoto =>
    cases here
    cases there.symm.trans there'
    cases noGoto.symm.trans goto
  | ended there' ends =>
    cases here
    cases there.symm.trans there'
    cases ends.symm.trans goto
    exact .ended (if_pos rfl)
  | jump there' goto' notEnd declared onward ih =>
    cases here
    cases there.symm.trans there'
    cases goto'.symm.trans goto
    have lands := (signposted.lookup notEnd).symm.trans declared
    cases onward with
    | done => exact .ended lands
    | kept next noGoto => exact .node lands next noGoto
    | ended next ends => exact .onward lands next ends (.ended (if_pos rfl))
    | jump next goto _ _ _ => exact .onward lands next goto (ih rfl next goto)

/-! ### Gotos that all arrive -/

/-- Whether a goto leads on to the node at another position. -/
def Jumps (endLabel : String) (nodes : List Draft) (labels : List (String × Option Nat))
    (next i : Nat) : Prop :=
  ∃ d label, nodes[i]? = some d ∧ d.gotoLabel? = some label ∧ label ≠ endLabel
    ∧ labels.lookup label = some (some next)

section Following

variable {endLabel : String} {nodes : List Draft} {labels : List (String × Option Nat)}

/-- From a goto that leads somewhere there are no jumps for ever. -/
theorem Leads.acc {way target : Option Nat} (leads : Leads endLabel nodes labels way target) {i : Nat}
    (here : way = some i) : Acc (Jumps endLabel nodes labels) i := by
  induction leads generalizing i with
  | done => cases here
  | kept there noGoto =>
    cases here
    refine ⟨_, fun next ⟨d, label, there', goto, _⟩ => ?_⟩
    cases there.symm.trans there'
    cases noGoto.symm.trans goto
  | ended there goto =>
    cases here
    refine ⟨_, fun next ⟨d, label, there', goto', notEnd, _⟩ => ?_⟩
    cases there.symm.trans there'
    cases goto.symm.trans goto'
    exact absurd rfl notEnd
  | jump there goto notEnd declared _ ih =>
    cases here
    refine ⟨_, fun next ⟨d, label, there', goto', _, declared'⟩ => ?_⟩
    cases there.symm.trans there'
    cases goto.symm.trans goto'
    exact ih (Option.some.inj (declared.symm.trans declared'))

theorem not_rel_of_acc {α : Type} {r : α → α → Prop} {a : α} (acc : Acc r a) : ¬ r a a := by
  induction acc with
  | intro a _ ih => exact fun again => ih a again again

/-- A trail that leads somewhere has no fault: it does not come back to what it has passed, since
jumps from there would go on for ever. -/
theorem followGotos_clear {targets : List (Nat × Option Nat)} {start fuel : Nat}
    {way target : Option Nat} {chain : List Nat} (leads : Leads endLabel nodes labels way target)
    (passed : ∀ j ∈ chain, ∀ i, way = some i →
      Relation.TransGen (Jumps endLabel nodes labels) i j) :
    (followGotos endLabel nodes labels targets start fuel way chain).fault = none := by
  -- a goto that is passed twice would come back to itself, but the way has an end
  induction leads generalizing fuel chain with
  | done => cases fuel <;> rfl
  | kept there noGoto =>
    cases fuel with
    | zero => rfl
    | succ fuel => simp only [followGotos, there, noGoto]
  | @ended i d there goto =>
    cases fuel with
    | zero => rfl
    | succ fuel =>
      have new : i ∉ chain := fun again =>
        not_rel_of_acc ((Leads.ended there goto).acc rfl).transGen (passed i again i rfl)
      simp only [followGotos, there, goto]
      split
      · rfl
      · simp [new]
  | @jump i d label next target there goto notEnd declared onward ih =>
    cases fuel with
    | zero => rfl
    | succ fuel =>
      have new : i ∉ chain := fun again =>
        not_rel_of_acc ((Leads.jump there goto notEnd declared onward).acc rfl).transGen
          (passed i again i rfl)
      simp only [followGotos, there, goto]
      split
      · rfl
      · simp only [List.contains_iff_mem, new, if_false, notEnd, declared]
        refine ih fun j member k same => ?_
        subst same
        have jumps : Jumps endLabel nodes labels k i := ⟨d, label, there, goto, notEnd, declared⟩
        obtain old | last := List.mem_append.mp member
        · exact .head jumps (passed j old i rfl)
        · rw [List.mem_singleton.mp last]
          exact .single jumps

/-- Gotos that all lead somewhere leave no diagnostic. -/
theorem resolveGotos_clear (all : ∀ i d label, nodes[i]? = some d → d.gotoLabel? = some label →
    ∃ target, Leads endLabel nodes labels (some i) target) :
    (resolveGotos endLabel nodes labels).diagnostics = [] := by
  have step (table : GotoTable) (i : Nat) (clear : table.diagnostics = []) :
      (resolveGoto endLabel nodes labels table i).diagnostics = [] := by
    unfold resolveGoto
    split
    · exact clear
    next new =>
      simp only [Bool.or_eq_true, not_or, Bool.not_eq_true, Option.isNone_eq_false_iff] at new
      obtain ⟨label, goto⟩ := Option.isSome_iff_exists.mp new.1
      obtain ⟨d, there, goto⟩ := Option.bind_eq_some_iff.mp goto
      obtain ⟨target, leads⟩ := all i d label there goto
      have calm := @followGotos_clear _ _ _ table.targets i (nodes.length + 2) _ _ [] leads
        (by simp)
      simp only [clear, calm]
      rfl
  unfold resolveGotos
  generalize List.range nodes.length = is
  suffices ∀ table : GotoTable, table.diagnostics = [] →
      (is.foldl (resolveGoto endLabel nodes labels) table).diagnostics = [] from this {} rfl
  induction is with
  | nil => exact fun table clear => clear
  | cons i rest ih => exact fun table clear => ih _ (step table i clear)

end Following

section Outcome

variable {s : Settings} {name text : String} {b : Builder}

/-- A draft is refused just if one of the gotos of its script goes astray. -/
theorem Signposted.refuses_iff (signposted : Signposted s text b) (healthy : b.Healthy) :
    refuses s b = true ↔ Astray s.endLabel (bodyLines s text) (settleAll b.nodes) := by
  have inside : ∀ l ∈ b.labels, ∀ i, l.2 = some i → i < (settleAll b.nodes).length := by
    rw [settleAll_length]
    exact healthy.labelled.targets
  have gotos : refuses s b = true
      ↔ (resolveGotos s.endLabel (settleAll b.nodes) b.labels).diagnostics ≠ [] := by
    rw [refuses, List.any_append, Bool.or_eq_true, List.any_eq_true, List.any_eq_true]
    constructor
    · rintro (⟨d, member, fatal⟩ | ⟨d, member, _⟩)
      · exact absurd (signposted.calm d member) (by rw [fatal]; exact Bool.noConfusion)
      · exact List.ne_nil_of_mem member
    · intro some
      obtain ⟨d, member⟩ := List.exists_mem_of_ne_nil _ some
      exact .inr ⟨d, member, resolveGotos_fatal d member⟩
  rw [gotos]
  constructor
  · -- If no goto of the script went astray, all would lead somewhere.
    intro wrong
    by_contra right
    refine wrong (resolveGotos_clear fun i d label there goto => ?_)
    have known : ∀ label, (∃ d ∈ settleAll b.nodes, d.gotoLabel? = some label) →
        landing? s.endLabel (bodyLines s text) (settleAll b.nodes) label ≠ none := by
      intro label named none
      obtain ⟨l, member, reads⟩ := (signposted.goto_iff label).mp named
      exact right ⟨l, member, label, reads, .inl none⟩
    have named : ∃ d ∈ settleAll b.nodes, d.gotoLabel? = some label :=
      ⟨d, List.mem_of_getElem? there, goto⟩
    by_contra lost
    obtain ⟨l, member, reads⟩ := (signposted.goto_iff label).mp named
    refine right ⟨l, member, label, reads, .inr (endless_of_not_goesTo known named ?_)⟩
    exact fun target arrives => lost ⟨target, signposted.leads_of_goesTo arrives there goto⟩
  · rintro ⟨l, member, label, reads, astray⟩ clear
    obtain ⟨d, inNodes, goto⟩ := (signposted.goto_iff label).mpr ⟨l, member, reads⟩
    obtain ⟨i, there⟩ := List.mem_iff_getElem?.mp inNodes
    obtain ⟨target, _, leads⟩ := resolveGotos_leads inside clear there goto
    have arrives := signposted.goesTo_of_leads leads rfl there goto
    obtain undeclared | endless := astray
    · exact arrives.lands undeclared
    · exact arrives.not_endless endless

/-- A script that is read gives no graph just if its draft is refused. -/
theorem compile_none_iff (read : Builder.readScript s (Text.lines text.toList) = .ok b) :
    (∃ c, compile s name text = .ok c ∧ c.graph = none) ↔ refuses s b = true := by
  rw [compile, compileWith, read]
  constructor
  · rintro ⟨c, compiled, none⟩
    by_contra clear
    have built := (if_neg clear).symm.trans compiled
    obtain ⟨made, _, whole⟩ := bind_eq_ok.mp built
    cases whole
    cases none
  · intro fatal
    exact ⟨_, if_pos fatal, rfl⟩

/-- Where what stands at a position of the draft leads in the end: to itself, or where it goes to. -/
def LeadsOn (endLabel : String) (lines : List Line) (nodes : List Draft) (i : Nat)
    (target : Option Nat) : Prop :=
  ∃ d, nodes[i]? = some d ∧ ((d.gotoLabel? = none ∧ target = some i)
    ∨ ∃ label, d.gotoLabel? = some label ∧ GoesTo endLabel lines nodes label target)

/-- The place in the graph of a node of the draft that is no goto. -/
def spot (nodes : List Draft) (target : Option Nat) : Option Ref :=
  target.map fun i => Ref.ofNat (keptBefore nodes i)

/-- A graph in which all that led to a goto leads to its destination: the edges, each from the node
that it was an edge of, the labels, of which those that end the dialogue are dropped, and the
beginning. -/
structure Redirected (endLabel : String) (lines : List Line) (nodes : List Draft) (g : Graph) :
    Prop where
  edges : ∀ (i : Nat) (d : Draft), nodes[i]? = some d → d.gotoLabel? = none →
    ∃ n : Node, g.nodes[keptBefore nodes i]? = some n ∧ n.kind = d.step.kind
      ∧ n.line = .ofNat d.line ∧ n.edges.length = d.edges.length
      ∧ ∀ (k j : Nat) (e : DraftEdge), d.edges[k]? = some e → e.destination = .to j →
        ∃ target, LeadsOn endLabel lines nodes j target
          ∧ n.edges[k]?.map Edge.target = some (spot nodes target)
  labels : ∀ name l, declaration? endLabel lines name = some l →
    ∃ target, GoesTo endLabel lines nodes name target
      ∧ g.labels.lookup name = spot nodes target
  declared : ∀ l ∈ g.labels, (declaration? endLabel lines l.1).isSome
  first : nodes ≠ [] → ∃ target, LeadsOn endLabel lines nodes 0 target
    ∧ g.first = spot nodes target

/-- The position in the graph of what stood at a position of the draft. -/
theorem Signposted.newPosition_eq (signposted : Signposted s text b) (linked : Linked s text b)
    {i : Nat} (bound : i < b.nodes.length) :
    ∃ target, LeadsOn s.endLabel (bodyLines s text) (settleAll b.nodes) i target
      ∧ (newPosition (settleAll b.nodes) (gotosOf s b) i).map Ref.ofNat
        = spot (settleAll b.nodes) target := by
  obtain ⟨target, leads, position⟩ := Script.newPosition_eq linked bound
  refine ⟨target, ?_, by rw [position, Option.map_map]; rfl⟩
  obtain ⟨d, there⟩ : ∃ d, (settleAll b.nodes)[i]? = some d :=
    ⟨_, List.getElem?_eq_getElem (by rw [settleAll_length]; exact bound)⟩
  refine ⟨d, there, ?_⟩
  cases goto : d.gotoLabel? with
  | none => exact .inl ⟨rfl, leads.unique (.kept there goto)⟩
  | some label => exact .inr ⟨label, rfl, signposted.goesTo_of_leads leads rfl there goto⟩

/-- The entry of a label in the graph, if its entry in the draft is known. -/
theorem lookup_labels {g : Graph} (linked : Linked s text b) (comes : ComesOf s name b g)
    {label : String} {way : Option Nat} (entry : b.labels.lookup label = some way) :
    g.labels.lookup label
      = (way.bind (newPosition (settleAll b.nodes) (gotosOf s b))).map Ref.ofNat := by
  have distinct : (g.labels.map (·.1)).Nodup := by
    rw [comes.labels, List.map_map]
    exact labelsOf_distinct linked
  have entries := (List.nodup_append.mp linked.healthy.labelled.distinct).1
  refine Option.ext fun r => ?_
  rw [lookup_eq_some_iff distinct, comes.labels, Option.map_eq_some_iff]
  constructor
  · intro member
    obtain ⟨l, inside, same⟩ := List.mem_map.mp member
    obtain ⟨i, given, position⟩ := mem_labelsOf inside
    cases same
    rw [(lookup_eq_some_iff entries).mpr given] at entry
    cases entry
    exact ⟨l.2, position, rfl⟩
  · rintro ⟨p, position, rfl⟩
    refine List.mem_map.mpr ⟨(label, p), ?_, rfl⟩
    refine List.mem_filterMap.mpr ⟨(label, way), (lookup_eq_some_iff entries).mp entry, ?_⟩
    rw [position]
    rfl

theorem Signposted.redirected {g : Graph} (signposted : Signposted s text b)
    (linked : Linked s text b) (comes : ComesOf s name b g) :
    Redirected s.endLabel (bodyLines s text) (settleAll b.nodes) g where
  edges i d there noGoto := by
    obtain ⟨n, place, built⟩ := comes.node_of_draft there noGoto
    refine ⟨n, place, built.kind.trans (buildNode_kind _ _ _ _),
      built.line.trans (buildNode_line _ _ _ _), ?_, fun k j e old target => ?_⟩
    · rw [built.edges_length, bodyNode, buildNode_edges, List.length_map]
    · have bound := (settleAll_sheet linked.healthy.sound.sheet d
        (List.mem_of_getElem? there)).targets e (List.mem_of_getElem? old) j target
      rw [settleAll_length] at bound
      obtain ⟨spot, leads, position⟩ := signposted.newPosition_eq linked bound
      refine ⟨spot, leads, ?_⟩
      have before : (bodyNode s b d (keptBefore (settleAll b.nodes) i)).edges[k]?
          = some (buildEdge (newTarget (settleAll b.nodes) (gotosOf s b) e) e) := by
        rw [bodyNode, buildNode_edges, List.getElem?_map, old]
        rfl
      obtain ⟨e', now, named⟩ := forall₂_left built.edges before
      rw [now, Option.map_some, named.same, ← position]
      simp [buildEdge, newTarget, target]
  labels label l declared := by
    have notEnd : label ≠ s.endLabel := by
      rintro rfl
      rw [declaration?, if_pos rfl] at declared
      cases declared
    have entry := signposted.lookup notEnd
    have lands : landing? s.endLabel (bodyLines s text) (settleAll b.nodes) label
        = some (firstAfter? (settleAll b.nodes) l.number) := by
      rw [landing?, if_neg notEnd, declared]
      rfl
    rw [lands] at entry
    rw [lookup_labels linked comes entry]
    cases first : firstAfter? (settleAll b.nodes) l.number with
    | none =>
      rw [first] at lands
      exact ⟨none, .ended lands, rfl⟩
    | some i =>
      rw [first] at lands
      have bound := landing?_lt lands
      rw [settleAll_length] at bound
      obtain ⟨target, ⟨d, there, leads⟩, position⟩ := signposted.newPosition_eq linked bound
      refine ⟨target, ?_, position⟩
      obtain ⟨noGoto, rfl⟩ | ⟨next, goto, arrives⟩ := leads
      · exact .node lands there noGoto
      · exact .onward lands there goto arrives
  declared l member := by
    rw [comes.labels] at member
    obtain ⟨l', inside, rfl⟩ := List.mem_map.mp member
    obtain ⟨i, given, _⟩ := mem_labelsOf inside
    have entries := (List.nodup_append.mp linked.healthy.labelled.distinct).1
    have entry := (lookup_eq_some_iff entries).mpr given
    rw [signposted.labels] at entry
    obtain ⟨line, found, _⟩ := Option.map_eq_some_iff.mp entry
    exact Option.isSome_iff_exists.mpr ⟨line, found⟩
  first some := by
    have bound : 0 < b.nodes.length := by
      rw [← @settleAll_length b.nodes]
      exact List.length_pos_iff.mpr some
    obtain ⟨target, leads, position⟩ := signposted.newPosition_eq linked bound
    refine ⟨target, leads, ?_⟩
    rw [comes.first, if_neg (by simpa using some), position]

end Outcome

/-- **Where gotos lead.** A script compiles to no graph just if one of its gotos names an undeclared
label or leads on for ever; and in the graph that it compiles to otherwise all that led to a goto
leads to its destination. Only a script that cannot be read is beyond this, for want of any
compilation. -/
theorem gotos_redirected (s : Settings) (name text : String) :
    (∀ f, Builder.readScript s (Text.lines text.toList) = .error f →
        compile s name text = .error f)
      ∧ ∀ b, Builder.readScript s (Text.lines text.toList) = .ok b →
        ((∃ c, compile s name text = .ok c ∧ c.graph = none) ↔
            Astray s.endLabel (bodyLines s text) (settleAll b.nodes))
          ∧ ∀ c g, compile s name text = .ok c → c.graph = some g →
            Redirected s.endLabel (bodyLines s text) (settleAll b.nodes) g := by
  refine ⟨fun f failed => ?_, fun b read => ?_⟩
  · rw [compile, compileWith, failed]
    rfl
  · have signposted := signposted_of_readScript read
    refine ⟨(compile_none_iff read).trans
      (signposted.refuses_iff (Builder.readScript_healthy read)), fun c g compiled graph => ?_⟩
    obtain ⟨b', linked, _, comes⟩ := compile_graph compiled graph
    cases read.symm.trans linked.read
    exact signposted.redirected linked comes

end Gotos

/-- Two labels, one of them before a goto to the other. -/
def aliased : String :=
  "[goto a]\nA: one\n:a\n[goto b]\n:b\nA: two\n"

/-- A label before a goto stands for where that goto leads. -/
theorem gotos_redirected_alias :
    ∃ b c g, Builder.readScript .standard (Text.lines aliased.toList) = .ok b
      ∧ compile .standard "script" aliased = .ok c ∧ c.graph = some g
      ∧ ¬ Astray Settings.standard.endLabel (bodyLines .standard aliased) (settleAll b.nodes)
      ∧ Redirected Settings.standard.endLabel (bodyLines .standard aliased) (settleAll b.nodes) g := by
  have opens : (compile .standard "script" aliased).toOption.any (·.graph.isSome) = true := by
    decide +kernel
  obtain ⟨c, compiled, made⟩ := exists_ok_of_any opens
  obtain ⟨g, graph⟩ := Option.isSome_iff_exists.1 made
  obtain ⟨b, linked, -⟩ := compile_graph compiled graph
  obtain ⟨none, redirected⟩ :=
    (gotos_redirected .standard "script" aliased).2 b linked.read
  refine ⟨b, c, g, linked.read, compiled, graph, fun astray => ?_, redirected c g compiled graph⟩
  obtain ⟨c', compiled', noGraph⟩ := none.mpr astray
  cases compiled.symm.trans compiled'
  cases graph.symm.trans noGraph

end Colloquy.Script
