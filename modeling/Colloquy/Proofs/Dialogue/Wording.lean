import Colloquy.Proofs.Dialogue.Announced
import Colloquy.Proofs.Dialogue.Attended
import Colloquy.Proofs.Dialogue.Reentrant
import Colloquy.Proofs.Script.Accounting
import Colloquy.Proofs.Script.Saving
/-!
# What is said

A compiled graph has the parameters of every text that can be said on record, so a text without any is
said as it is. All others are asked for their parameters, each once, and then filled in. Where nobody
interferes the values are those from before the questions. The one thing that cannot be put into a text
is a number beyond the digit limit.
-/

namespace Colloquy

variable {η δ : Type} {host : Host η δ} {scene : Scene η δ} {g : Graph}

/-! ### What is on record -/

/-- The parameters of the texts that can be said are on record with them. -/
structure Graph.Recorded (g : Graph) : Prop where
  lines : ∀ n ∈ g.nodes, n.kind = .text → n.params = Template.params n.text
  options : ∀ n ∈ g.nodes, ∀ e ∈ n.edges, e.params = Template.params e.text

namespace Script

variable {s : Settings} {name text : String} {b : Builder} {o : Outline} {n : Node}
  {x : Outline.Point × Nat}

theorem Became.params (became : Became s b o n x) (isText : n.kind = .text) :
    n.params = Template.params n.text := by
  have kind : x.1.kind = .text := became.kind.symm.trans isText
  obtain ⟨_, d, _, _, told, built⟩ := became
  have step : d.step = x.1.step := congrArg Draft.step told
  have same := built.same
  obtain ⟨point, place⟩ := x
  cases point with
  | speech l speaker text =>
    rw [bodyNode, buildNode, step] at same
    rw [same]
    rfl
  | _ => cases kind

theorem Became.edge_params (became : Became s b o n x) {e : Edge} (own : e ∈ n.edges)
    (option : e.kind = .decision) : e.params = Template.params e.text := by
  have kept : e ∈ n.edges.filter (·.kind ≠ .continue) :=
    List.mem_filter.mpr ⟨own, by simp [option]⟩
  obtain ⟨slot, there⟩ := List.mem_iff_getElem?.mp kept
  obtain ⟨entry, _, entered⟩ := forall₂_left became.entered there
  rw [entered.params, entered.text]
  cases entry with
  | option l => rfl
  | _ => cases entered.kind.symm.trans option

/-- Nodes that no point became are those of the header, which only assign and continue. -/
theorem ComesOf.became_or_header (linked : Linked s text b) (comes : ComesOf s name b g)
    (member : n ∈ g.nodes) : (∃ x, Became s b (outline s text) n x)
      ∨ n.kind = .setVariable ∧ ∀ e ∈ n.edges, e.kind = .continue := by
  rw [← List.take_append_drop g.bodyLength g.nodes, List.mem_append] at member
  refine member.imp (fun body => ?_) fun header => ?_
  · obtain ⟨i, there⟩ := List.mem_iff_getElem?.mp body
    obtain ⟨x, _, became⟩ := forall₂_left (comes.became linked) there
    exact ⟨x, became⟩
  · obtain ⟨k, there⟩ := List.mem_iff_getElem?.mp header
    rw [List.getElem?_drop, comes.bodyLength] at there
    obtain ⟨kind, _, edges⟩ := comes.headerStep_kind linked there
    refine ⟨kind, fun e own => ?_⟩
    rw [edges] at own
    split at own
    · rw [List.mem_singleton.mp own]
    · cases own

theorem ComesOf.recorded (linked : Linked s text b) (comes : ComesOf s name b g) : g.Recorded := by
  refine ⟨fun n member isText => ?_, fun n member e own => ?_⟩
  · obtain ⟨x, became⟩ | ⟨assigns, _⟩ := comes.became_or_header linked member
    · exact became.params isText
    · cases assigns.symm.trans isText
  · -- an edge that is no option says nothing
    by_cases option : e.kind = .decision
    · obtain ⟨x, became⟩ | ⟨_, continues⟩ := comes.became_or_header linked member
      · exact became.edge_params own option
      · cases (continues e own).symm.trans option
    · obtain ⟨noText, _, noParams⟩ := ((comes.node_savable linked member).edges e own).bare option
      rw [noText, noParams]
      rfl

end Script

/-! ### Asking and filling in -/

/-- What the pieces of a text come to with these values: a parameter that is set becomes the text of its
value, and everything else stays as it was written. -/
def Template.filled (ps : List Template.Piece) (value : String → Option Value) : String :=
  String.ofList (ps.flatMap (Template.Piece.fill fun name => (value name).map Value.spoken))

theorem Template.filled_congr {ps : List Template.Piece} {value value' : String → Option Value}
    (agree : ∀ name ∈ ps.filterMap Template.Piece.name?, value name = value' name) :
    filled ps value = filled ps value' := by
  unfold filled
  congr 1
  refine List.flatMap_congr fun piece member => ?_
  cases piece with
  | char c => rfl
  | param name => rw [Piece.fill, Piece.fill, agree _ (List.mem_filterMap.mpr ⟨_, member, rfl⟩)]

/-- Whether each of these variables can be put into a text, as all can that are not set. -/
def showable (names : List String) (value : String → Option Value) : Bool :=
  names.all fun name => (value name).all Value.isShowable

theorem showable_congr {names : List String} {value value' : String → Option Value}
    (agree : ∀ name ∈ names, value name = value' name) :
    showable names value = showable names value' := by
  rw [Bool.eq_iff_iff, showable, showable, List.all_eq_true, List.all_eq_true]
  exact forall₂_congr fun name member => by rw [agree name member]

namespace Dialogue

/-- Asking for parameters and putting their values in, whether there are any or not. -/
def substitute (host : Host η δ) (ps : List Template.Piece) (names : List String) :
    Play η δ String := do
  names.forM (request host)
  let value := (← Play.dialogue).value?
  if showable names value then return Template.filled ps value
  else throw .tooManyDigits

theorem resolve_eq_substitute (host : Host η δ) (text : String) :
    resolve host text (Template.params text)
      = substitute host (Template.pieces text) (Template.params text) := by
  rw [resolve_eq host fun name member => member]
  refine congrArg _ (funext fun _ => congrArg _ (funext fun d => ?_))
  rw [worded, List.all_filterMap]
  rfl

end Dialogue

/-- How something played gives a text, of these pieces with these parameters. All are asked for before a
value is read. If nobody sets or unsets one of them meanwhile, the text is filled in with the values from
before, or there is a number that cannot be shown. If everybody only attends, nobody does, and everyone is
told of each request in turn and of nothing else. -/
structure Wording (host : Host η δ) (x : Play η δ String) (ps : List Template.Piece)
    (names : List String) (scene : Scene η δ) : Prop where
  asksFirst : x scene = Dialogue.substitute host ps names scene
  answers : ∀ asked, names.forM (Dialogue.request host) scene = .ok () asked →
    (∀ name ∈ names, asked.dialogue.value? name = scene.dialogue.value? name) →
    x scene = if showable names scene.dialogue.value? then
        .ok (Template.filled ps scene.dialogue.value?) asked
      else .error .tooManyDigits asked
  heard : Attended host scene → ∃ asked, names.forM (Dialogue.request host) scene = .ok () asked
    ∧ asked.dialogue = scene.dialogue
    ∧ Unfolds scene (names.map fun name => .raised (.requested name)) asked

/-- Something played gives a text with its parameters filled in, each of which it asks for once, in the
order in which they first occur. -/
def Renders (host : Host η δ) (x : Play η δ String) (text : String) (scene : Scene η δ) : Prop :=
  ∃ ps names, Template.Written text.toList ps ∧ ListsOnce names (ps.filterMap Template.Piece.name?)
    ∧ Wording host x ps names scene

theorem Wording.of_substitute {x : Play η δ String} {ps : List Template.Piece} {names : List String}
    (named : ∀ name ∈ ps.filterMap Template.Piece.name?, name ∈ names)
    (same : x scene = Dialogue.substitute host ps names scene) : Wording host x ps names scene := by
  refine ⟨same, fun asked done unchanged => ?_, fun attended => requests_attended attended names⟩
  have read : Play.dialogue asked = .ok asked.dialogue asked := rfl
  -- what is read are the values after the last request, which are those from before the first
  have shown : showable names asked.dialogue.value? = showable names scene.dialogue.value? :=
    showable_congr unchanged
  have filled : Template.filled ps asked.dialogue.value?
      = Template.filled ps scene.dialogue.value? :=
    Template.filled_congr fun name member => unchanged name (named name member)
  rw [same, Dialogue.substitute, Play.bind_ok done, Play.bind_ok read, shown, filled]
  split
  · rfl
  · rfl

theorem resolve_renders (host : Host η δ) (text : String) (scene : Scene η δ) :
    Renders host (Dialogue.resolve host text (Template.params text)) text scene := by
  have lists := Template.listsOnce_params text
  exact ⟨Template.pieces text, Template.params text, Template.written_iff.mpr rfl, lists,
    .of_substitute (fun name member => (lists.same name).mpr member)
      (congrFun (Dialogue.resolve_eq_substitute host text) scene)⟩

theorem Renders.congr {x y : Play η δ String} {text : String} (same : y scene = x scene)
    (renders : Renders host x text scene) : Renders host y text scene := by
  obtain ⟨ps, names, written, lists, wording⟩ := renders
  exact ⟨ps, names, written, lists, same.trans wording.asksFirst,
    fun asked done unchanged => same.trans (wording.answers asked done unchanged), wording.heard⟩

/-- Somebody who only listens may join. -/
theorem Attended.joined {scene : Scene Unit Unit} {steps depth : Nat}
    (attended : Attended (Host.silent steps depth) scene) :
    Attended (Host.silent steps depth) scene.joined where
  participants := by
    intro p _ notice scene
    refine ⟨scene.host, [], ?_⟩
    rw [List.map_nil, List.append_nil]
    rfl
  listeners := attended.listeners
  serials := attended.serials
  idle := attended.idle
  empty := attended.empty

end Colloquy

namespace Colloquy.Script

variable {η δ : Type}

/-- **Texts filled in.** Wherever a dialogue gets on a compiled graph, the text of the current line and
that of each choice is the text in the graph with its parameters asked for and filled in, once each and
not again in what was filled in, and whether or not there are any on record. -/
theorem texts_filled_in {s : Settings} {name text : String} {c : Compilation} {g : Graph}
    (compiled : compile s name text = .ok c) (graph : c.graph = some g) {host : Host η δ}
    (loyal : Loyal host g) {scene : Scene η δ} (visited : Visited host g scene) :
    (∀ line, scene.dialogue.current = some line →
        Renders host (Dialogue.lineText host) line.text scene)
      ∧ ∀ index e, scene.dialogue.choice? index = some e →
        Renders host (Dialogue.choiceText host index) e.text scene := by
  obtain ⟨b, linked, _, comes⟩ := compile_graph compiled graph
  have recorded := comes.recorded linked
  have stands := visited.standsOn loyal (sturdy_of_compile compiled graph)
  have read : Play.dialogue scene = .ok scene.dialogue scene := rfl
  -- what is said stands in the graph, wherever the calls have led, and the graph has it on record
  refine ⟨fun line current => ?_, fun index e way => ?_⟩
  · obtain ⟨member, isText⟩ := stands.line line current
    refine (resolve_renders host line.text scene).congr ?_
    rw [Dialogue.lineText, Play.bind_ok read, current, ← recorded.lines line member isText]
  · obtain ⟨n, member, own⟩ := stands.ways e (mem_of_choice? way)
    refine (resolve_renders host e.text scene).congr ?_
    rw [Dialogue.choiceText, Play.bind_ok read, way, ← recorded.options n member e own]

/-- A line and an option with a parameter whose value looks like another parameter. -/
def echoes : String :=
  "[set x \"\x7by\x7d\"]\n[set y 1]\nA: \x7bx\x7d, \x7b\x7by\x7d and \x7bx\x7d\x7bz\x7d\n* on to \x7bx\x7d\n"

/-- Their texts, while a participant listens. -/
theorem texts_filled_in_once : ∃ c g scene line e asked told,
    compile .standard "script" echoes = .ok c ∧ c.graph = some g
    ∧ Loyal (Host.silent 9 9) g ∧ Visited (Host.silent 9 9) g scene
    ∧ Attended (Host.silent 9 9) scene ∧ scene.dialogue.participants = [⟨0, 0⟩]
    ∧ scene.dialogue.current = some line ∧ scene.dialogue.choice? 0 = some e
    ∧ Renders (Host.silent 9 9) (Dialogue.lineText (Host.silent 9 9)) line.text scene
    ∧ Renders (Host.silent 9 9) (Dialogue.choiceText (Host.silent 9 9) 0) e.text scene
    ∧ Dialogue.lineText (Host.silent 9 9) scene
      = .ok "\x7by\x7d, \x7b1 and \x7by\x7d\x7bz\x7d" asked
    ∧ Dialogue.choiceText (Host.silent 9 9) 0 scene = .ok "on to \x7by\x7d" told := by
  let host := Host.silent 9 9
  have opens : ((compile .standard "script" echoes).toOption.any fun c =>
      c.graph.any fun g => (Scene.opening? host g).any fun scene =>
        scene.joined.dialogue.participants = [⟨0, 0⟩] && scene.joined.dialogue.current.isSome
          && (scene.joined.dialogue.choice? 0).isSome
          && ((Dialogue.lineText host).done? scene.joined).any fun line =>
            line.1 = "\x7by\x7d, \x7b1 and \x7by\x7d\x7bz\x7d"
              && ((Dialogue.choiceText host 0).done? scene.joined).any fun option =>
                option.1 = "on to \x7by\x7d") = true := by
    decide +kernel
  obtain ⟨c, compiled, opens⟩ := exists_ok_of_any opens
  simp only [Bool.and_eq_true, decide_eq_true_eq, Option.any_eq_true] at opens
  obtain ⟨g, graph, scene, opened, ⟨⟨single, current⟩, way⟩, ⟨_, asked⟩, done, rfl, ⟨_, told⟩, done',
    rfl⟩ := opens
  obtain ⟨line, current⟩ := Option.isSome_iff_exists.mp current
  obtain ⟨e, way⟩ := Option.isSome_iff_exists.mp way
  have loyal : Loyal host g := silent_loyal 9 9
  have visited := (opening_visited opened).joined
  have onstage := opening_onstage (sturdy_of_compile compiled graph) (alone_quiet 9 9 g) opened
  have renders := texts_filled_in compiled graph loyal visited
  exact ⟨c, g, scene.joined, line, e, asked, told, compiled, graph, loyal, visited,
    onstage.quiet.attended.joined, single, current, way, renders.1 line current, renders.2 0 e way,
    Play.of_done? done, Play.of_done? done'⟩

/-- A line with a number that has grown beyond the digit limit. -/
def growingNumber : String :=
  let eighthPower := "[set x " ++ " * ".intercalate (List.replicate 8 "\x7bx\x7d") ++ "]\n"
  "[set x 10000000000]\n" ++ eighthPower ++ eighthPower ++ eighthPower ++ "A: \x7bx\x7d\n"

/-- The variable of the line is set, nobody interferes, and yet the line has no text. -/
theorem grown_number_unsaid : ∃ c g scene line asked,
    compile .standard "script" growingNumber = .ok c ∧ c.diagnostics = [] ∧ c.graph = some g
    ∧ Visited (Host.silent 9 9) g scene ∧ Attended (Host.silent 9 9) scene
    ∧ scene.dialogue.current = some line ∧ line.text = "\x7bx\x7d"
    ∧ scene.dialogue.value? "x" = some (.int (Int.ofNat (10 ^ 5120)))
    ∧ Dialogue.lineText (Host.silent 9 9) scene = .error .tooManyDigits asked := by
  let host := Host.silent 9 9
  have opens : ((compile .standard "script" growingNumber).toOption.any fun c =>
      c.diagnostics = [] && c.graph.any fun g => (Scene.opening? host g).any fun scene =>
        scene.dialogue.value? "x" = some (.int (Int.ofNat (10 ^ 5120)))
          && scene.dialogue.current.any fun line => line.text = "\x7bx\x7d"
          && ((Dialogue.lineText host).fault? scene).any (· matches .tooManyDigits)) = true := by
    decide +kernel
  obtain ⟨c, compiled, opens⟩ := exists_ok_of_any opens
  simp only [Bool.and_eq_true, decide_eq_true_eq, Option.any_eq_true] at opens
  obtain ⟨clean, g, graph, scene, opened, value, line, current, written, f, faulty, long⟩ := opens
  obtain ⟨asked, failed⟩ := Play.of_fault? faulty
  have onstage := opening_onstage (sturdy_of_compile compiled graph) (alone_quiet 9 9 g) opened
  cases f with
  | tooManyDigits =>
    exact ⟨c, g, scene, line, asked, compiled, clean, graph, opening_visited opened,
      onstage.quiet.attended, current, written, value, failed⟩
  | _ => cases long

end Colloquy.Script
