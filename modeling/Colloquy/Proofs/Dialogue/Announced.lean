import Colloquy.Dialogue.Wording
import Colloquy.Script.Compile
import Colloquy.Proofs.Template
import Colloquy.Proofs.Bus.Deliveries
import Colloquy.Proofs.Expression.Locality
/-!
# Variables are asked for before they are read

Before an expression is evaluated or a text is filled in, all variables that it reads are asked for,
one after the other: listeners first, then participants. Listeners can be asked at once only while
nothing is delivered. A request that is raised while an event is delivered waits like any other event,
and participants are told, and the variable is read, before a listener hears of it.
-/

namespace Colloquy

variable {η δ α : Type} {host : Host η δ} {scene asked : Scene η δ} {names : List String}

/-! ### Requests -/

/-- The request of a variable: the scenes in which it was raised, in which listeners had heard of it
as far as they could, and in which participants had been told of it. -/
structure Request (η δ : Type) where
  name : String
  raised : Scene η δ
  heard : Scene η δ
  told : Scene η δ

namespace Request

/-- What listeners are told of a request. -/
def event (r : Request η δ) : Event :=
  (Notice.requested r.name).toEvent

/-- The request as it is published while nothing is delivered. -/
def publication (r : Request η δ) : Publication :=
  ⟨r.raised.bus.issued, r.event⟩

/-- How a request is announced. While nothing is delivered the listeners that are subscribed are called
first, in turn and up to one that consumes the request, and then whatever they publish is delivered.
While an event is delivered the request waits. Participants are told after that in any case. -/
structure Announced (host : Host η δ) (r : Request η δ) : Prop where
  atOnce : r.raised.bus.delivering = false → ∃ turns between last,
    Bus.Delivers host r.publication (Bus.busy r.raised .variableRequested) turns between
      ∧ Bus.Served host r.publication (r.raised.bus.subscriptions .variableRequested) turns
      ∧ Bus.deliverQueue host host.steps between = .ok () last
      ∧ r.heard = { last with bus := { last.bus with delivering := false } }
  later : r.raised.bus.delivering = true →
    r.heard = { r.raised with bus := r.raised.bus.enqueue r.event }
  told : Dialogue.tellAll host (.requested r.name) r.heard = .ok () r.told

end Request

/-- `Asks host scene rs asked`: these requests lead from the one scene to the other, each beginning where
the one before it ended. -/
inductive Asks (host : Host η δ) : Scene η δ → List (Request η δ) → Scene η δ → Prop where
  | nothing {scene : Scene η δ} : Asks host scene [] scene
  | next {r : Request η δ} {rs : List (Request η δ)} {asked : Scene η δ}
      (announced : r.Announced host) (later : Asks host r.told rs asked) :
      Asks host r.raised (r :: rs) asked

theorem request_announced {name : String}
    (done : Dialogue.request host name scene = .ok () asked) :
    ∃ heard, Request.Announced host ⟨name, scene, heard, asked⟩ := by
  obtain ⟨_, heard, publishes, tells⟩ := Play.bind_inv done
  obtain ⟨held, heard, published, left⟩ := Play.bind_inv publishes
  cases left
  refine ⟨heard, fun idle => ?_, fun busy => ?_, tells⟩
  · obtain ⟨between, last, delivered, drained, _, rfl⟩ := (Bus.publish_idle idle).mp published
    obtain ⟨turns, delivers⟩ := Bus.deliver_delivers delivered
    have served := delivers.served
    rw [Bus.busy, Bus.subscriptions_beginDispatch] at served
    exact ⟨turns, between, last, delivers, served, drained, rfl⟩
  · rw [Bus.publish_delivering busy] at published
    exact (EStateM.Result.ok.inj published).2.symm

theorem requests_asked (done : names.forM (Dialogue.request host) scene = .ok () asked) :
    ∃ rs, rs.map (·.name) = names ∧ Asks host scene rs asked := by
  induction names generalizing scene with
  | nil =>
    cases done
    exact ⟨[], rfl, .nothing⟩
  | cons name rest ih =>
    obtain ⟨_, told, first, others⟩ := Play.bind_inv done
    obtain ⟨heard, announced⟩ := request_announced first
    obtain ⟨rs, named, asks⟩ := ih others
    exact ⟨⟨name, scene, heard, told⟩ :: rs, congrArg (name :: ·) named, .next announced asks⟩

/-! ### Reading -/

/-- Something played that announces variables before it reads them: it reads only those that are named,
and it comes to what is made of the values that they have when all of them have been asked for. If
asking fails nothing is read. -/
structure ReadsAnnounced (host : Host η δ) (names : List String) (x : Play η δ α)
    (made : (String → Option Value) → Play η δ α) : Prop where
  reads : ∀ value value', (∀ name ∈ names, value name = value' name) → made value = made value'
  asks : ∀ scene, (∃ f after, names.forM (Dialogue.request host) scene = .error f after
      ∧ x scene = .error f after)
    ∨ ∃ rs asked, rs.map (·.name) = names ∧ Asks host scene rs asked
      ∧ x scene = made asked.dialogue.value? asked

theorem ReadsAnnounced.of_asks {x : Play η δ α} {made : (String → Option Value) → Play η δ α}
    (reads : ∀ value value', (∀ name ∈ names, value name = value' name) → made value = made value')
    (asks : x = do
      names.forM (Dialogue.request host)
      made (← Play.dialogue).value?) : ReadsAnnounced host names x made := by
  refine ⟨reads, fun scene => ?_⟩
  rw [asks]
  cases requested : names.forM (Dialogue.request host) scene with
  | error f after => exact .inl ⟨f, after, rfl, Play.bind_error requested⟩
  | ok _ asked =>
    obtain ⟨rs, named, asks⟩ := requests_asked requested
    have read : Play.dialogue asked = .ok asked.dialogue asked := rfl
    exact .inr ⟨rs, asked, named, asks, by rw [Play.bind_ok requested, Play.bind_ok read]⟩

namespace Dialogue

/-- What is made of an expression of a step with these values: its own value, or none if it is refused,
which is logged. -/
def evaluated (e : Expression) (node : Node) (value : String → Option Value) :
    Play η δ (Option Value) :=
  match e.evaluate fun name => Datum.ofOption (value name) with
  | .ok v => return v
  | .error (.refused r) => do
    logAt .error node (r.message e.source)
    return none
  | .error f => throw (.evaluation f)

/-- What is made of a text with these values, if they can be shown. -/
def worded (text : String) (value : String → Option Value) : Play η δ String :=
  if ((Template.params text).filterMap value).all Value.isShowable then
    return Template.fill (fun name => (value name).map Value.spoken) text
  else throw .tooManyDigits

theorem evaluate_readsAnnounced (host : Host η δ) (e : Expression) (node : Node) :
    ReadsAnnounced host e.names (evaluate host e node) (evaluated e node) := by
  refine .of_asks (fun value value' agree => ?_) rfl
  have same : (e.evaluate fun name => Datum.ofOption (value name))
      = e.evaluate fun name => Datum.ofOption (value' name) :=
    Expression.evaluate_congr fun name member => congrArg Datum.ofOption (agree name member)
  rw [evaluated, evaluated, same]

/-- A text for which no parameters were recorded has none, so nothing is lost by leaving it as it is. -/
theorem resolve_eq (host : Host η δ) {text : String} {params : List String}
    (recorded : ∀ name ∈ Template.params text, name ∈ params) :
    resolve host text params = (do
      params.forM (request host)
      worded text (← Play.dialogue).value?) := by
  rw [resolve]
  split
  next none =>
    rw [List.isEmpty_iff.mp none] at recorded ⊢
    have plain : Template.params text = [] :=
      List.eq_nil_iff_forall_not_mem.mpr fun name member => by cases recorded name member
    funext scene
    change _ = worded text scene.dialogue.value? scene
    rw [worded, plain, Template.fill_of_params_eq_nil plain]
    rfl
  · rfl

theorem resolve_readsAnnounced (host : Host η δ) {text : String} {params : List String}
    (recorded : ∀ name ∈ Template.params text, name ∈ params) :
    ReadsAnnounced host params (resolve host text params) (worded text) := by
  refine .of_asks (fun value value' agree => ?_) (resolve_eq host recorded)
  have used : (Template.params text).filterMap value = (Template.params text).filterMap value' :=
    List.filterMap_congr fun name member => agree name (recorded name member)
  have filled : Template.fill (fun name => (value name).map Value.spoken) text
      = Template.fill (fun name => (value' name).map Value.spoken) text :=
    Template.fill_congr fun name member => by rw [agree name (recorded name member)]
  rw [worded, worded, used, filled]

end Dialogue

/-- While an event is delivered no listener hears of a request before everything is read. -/
theorem unheard_while_delivering
    (reacts : ∀ key notice, Bus.Mannerly host.knows (host.react key notice))
    (delivering : scene.bus.delivering = true) :
    (∀ e node, ((Dialogue.evaluate host e node).leaves scene).heard = scene.heard)
      ∧ ∀ text params, ((Dialogue.resolve host text params).leaves scene).heard = scene.heard := by
  have unheard {α : Type} {x : Play η δ α} (mannerly : Bus.Mannerly host.knows x) :
      (x.leaves scene).heard = scene.heard := by
    obtain ⟨calls, uses⟩ := mannerly scene delivering
    exact uses.heard
  have inquiry := (mannerly_habit reacts).inquiry
  exact ⟨fun e node => unheard (inquiry.evaluate e node),
    fun text params => unheard (inquiry.resolve text params)⟩

/-- Whenever the dialogue evaluates an expression or fills in a text, each variable that it reads has
been asked for: raised while nothing is delivered, the request was heard by the listeners before
participants were told of it and before anything was read. -/
theorem variables_announced_before_read (host : Host η δ) :
    (∀ e node, ReadsAnnounced host e.names (Dialogue.evaluate host e node)
        (Dialogue.evaluated e node))
      ∧ ∀ text params, (∀ name ∈ Template.params text, name ∈ params) →
        ReadsAnnounced host params (Dialogue.resolve host text params) (Dialogue.worded text) :=
  ⟨Dialogue.evaluate_readsAnnounced host, fun _ _ => Dialogue.resolve_readsAnnounced host⟩

/-- A scene with one listener, who sets a variable when it is asked for. -/
def seeded : Scene Cast Deed where
  dialogue := { graph := ⟨"", [], none, none, []⟩ }
  bus := ({} : Bus).subscribe .variableRequested 0 0 false false
  host := { onStage := true, hearers := [⟨"a", 1, [.setVariable "X" (.value (.int 1))], 0⟩] }

/-- The variable that the listener sets is in the text. -/
theorem seeded_before_read : (∀ name ∈ Template.params "\x7bX\x7d", name ∈ ["X"])
    ∧ seeded.bus.delivering = false
    ∧ ∃ rs asked after, rs.map (·.name) = ["X"] ∧ Asks (Cast.hostOf 2) seeded rs asked
      ∧ Dialogue.worded "\x7bX\x7d" asked.dialogue.value? asked = .ok "1" after := by
  have recorded : ∀ name ∈ Template.params "\x7bX\x7d", name ∈ ["X"] := by decide +kernel
  have run : ((Dialogue.resolve (Cast.hostOf 2) "\x7bX\x7d" ["X"]).done? seeded).any
      (·.1 = "1") = true := by
    decide +kernel
  obtain ⟨⟨text, after⟩, done, one⟩ := (Option.any_eq_true _ _).1 run
  obtain rfl : text = "1" := of_decide_eq_true one
  have played := Play.of_done? done
  refine ⟨recorded, rfl, ?_⟩
  obtain ⟨f, after', _, failed⟩ | ⟨rs, asked, named, asks, reads⟩ :=
    ((variables_announced_before_read (Cast.hostOf 2)).2 _ _ recorded).asks seeded
  · cases failed.symm.trans played
  · exact ⟨rs, asked, after, named, asks, reads.symm.trans played⟩

/-- What a journal shows of the requests of variables: who was told or called, and the texts that were
asked for. -/
inductive Mark where
  | told (key : Nat)
  | heard (listener : Nat)
  | said (text : String)
  deriving DecidableEq

/-- The mark of a note of a cast. -/
def Note.mark? : Note Deed → Option Mark
  | .told key (.requested _) _ => some (.told key)
  | .heard listener e => if e.topic = .variableRequested then some (.heard listener) else none
  | .deed ⟨_, .text s⟩ => some (.said s)
  | _ => none

/-- One participant and two listeners: the first wants the text of a line when it is reached, the other
sets the variable that is in it when it is asked for. -/
def hasty : Cast.Play Unit := do
  Cast.enter (Cast.hostOf 3) [{ name := "p" }]
  Cast.performAll (Cast.hostOf 3) none
    [.subscribe { name := "a", topic := .speakerLine, actions := [.text] },
      .subscribe { name := "b", topic := .variableRequested,
                   actions := [.setVariable "X" (.value (.int 1))] },
      .start none]

/-- A cast with a script, before anyone is on stage. -/
def Scene.staged (g : Graph) : Scene Cast Deed where
  dialogue := { graph := g }
  bus := {}
  host := { graphs := [g] }

/-- The text of a line is wanted while listeners are told of the line: the participant is told of the
request and the text is given before the other listener hears of it. -/
theorem read_before_heard : ∃ c g after, Script.compile .standard "script" "A: \x7bX\x7d\n" = .ok c
    ∧ c.diagnostics = [] ∧ c.graph = some g ∧ hasty (.staged g) = .ok () after
    ∧ after.journal.filterMap Note.mark? = [.told 0, .said "\x7bX\x7d", .heard 1] := by
  have run : ((Script.compile .standard "script" "A: \x7bX\x7d\n").toOption.any fun c =>
      c.diagnostics = [] && c.graph.any fun g => (hasty.done? (.staged g)).any fun played =>
        played.2.journal.filterMap Note.mark? = [.told 0, .said "\x7bX\x7d", .heard 1]) = true := by
    decide +kernel
  cases compiled : Script.compile .standard "script" "A: \x7bX\x7d\n" with
  | error f =>
    rw [compiled] at run
    cases run
  | ok c =>
    rw [compiled] at run
    dsimp only [Except.toOption, Option.any_some] at run
    obtain ⟨silent, run⟩ := Bool.and_eq_true_iff.1 run
    obtain ⟨g, graph, run⟩ := (Option.any_eq_true _ _).1 run
    obtain ⟨⟨_, after⟩, done, marks⟩ := (Option.any_eq_true _ _).1 run
    exact ⟨c, g, after, rfl, of_decide_eq_true silent, graph, Play.of_done? done,
      of_decide_eq_true marks⟩

end Colloquy
