import Colloquy.Proofs.Bus.Using
import Colloquy.Proofs.Dialogue.Protocol
/-!
# Hooks that call the dialogue

Participants and listeners may call the dialogue that calls them: move it, run it again, restore it.
They are loyal if they leave it on its graph, wherever on it and whether they return or fail. With
loyal hooks all that a dialogue does leaves it on its graph; it fails because a hook failed, because
an expression cannot be evaluated or because it comes to no end, and for no reason of its own.
-/

namespace Colloquy

variable {η δ : Type} {host : Host η δ} {scene after : Scene η δ} {g : Graph}

/-- A dialogue that stands on a line of a graph, or on none, and offers ways on from its nodes. -/
structure Dialogue.StandsOn (d : Dialogue) (g : Graph) : Prop where
  graph : d.graph = g
  line : ∀ n, d.current = some n → n ∈ g.nodes ∧ n.kind = .text
  ways : g.Owns d.choices

/-- A way on is offered from a node of the graph. -/
theorem Dialogue.StandsOn.offer {d : Dialogue} (stands : d.StandsOn g) (gathering : Nat) {n : Node}
    (member : n ∈ g.nodes) {e : Edge} (own : e ∈ n.edges) : (d.offer gathering e).StandsOn g := by
  unfold Dialogue.offer
  split
  · have offered : g.Owns [e] := List.forall_mem_singleton.2 ⟨n, member, own⟩
    exact ⟨stands.graph, stands.line, List.forall_mem_append.2 ⟨stands.ways, offered⟩⟩
  · exact stands

theorem Dialogue.StandsOn.onstage (stands : scene.dialogue.StandsOn g) (quiet : Quiet host scene) :
    Onstage host g scene :=
  ⟨quiet, stands.graph, stands.line, stands.ways⟩

/-- Something played on a dialogue on its graph leaves it there, its result being as `ok` says, or
what it fails with as `fails` says. -/
def Guarded (g : Graph) {α : Type} (x : Play η δ α) (ok : α → Prop)
    (fails : Fault → Scene η δ → Prop) : Prop :=
  ∀ scene : Scene η δ, scene.dialogue.StandsOn g → Yields x scene
    (fun a after => after.dialogue.StandsOn g ∧ ok a)
    (fun f after => after.dialogue.StandsOn g ∧ fails f after)

/-- Something played on a dialogue on its graph leaves it there, whether it returns or fails. -/
def Safe (g : Graph) {α : Type} (x : Play η δ α) : Prop :=
  Guarded g x (fun _ => True) fun _ _ => True

/-- Participants and listeners that leave the dialogue on its graph, whatever they do. -/
structure Loyal (host : Host η δ) (g : Graph) : Prop where
  reacts : ∀ key notice, Safe g (host.react key notice)
  listens : ∀ listener p, Safe g (host.listen listener p)

/-- What a dialogue may fail with that has loyal hooks: what a participant fails with, an expression
that cannot be evaluated, or that something comes to no end. -/
inductive Excused (host : Host η δ) (g : Graph) (f : Fault) (after : Scene η δ) : Prop where
  | raised {key : Nat} {notice : Notice} {before : Scene η δ}
      (raised : host.react key notice before = .error f after)
  | broke (broke : Broke g f after)
  | tooDeep (deep : f = .tooDeep)
  | endless (endless : f = .endless)

/-! ### Playing one thing after another -/

namespace Guarded

variable {α β : Type} {x : Play η δ α} {k : α → Play η δ β} {ok ok' : α → Prop} {done : β → Prop}
  {fails fails' : Fault → Scene η δ → Prop}

theorem mono (guarded : Guarded g x ok fails) (weaker : ∀ a, ok a → ok' a)
    (weak : ∀ f after, fails f after → fails' f after) : Guarded g x ok' fails' :=
  fun scene stands => (guarded scene stands).mono (fun a _ result => ⟨result.1, weaker a result.2⟩)
    fun f after result => ⟨result.1, weak f after result.2⟩

theorem safe (guarded : Guarded g x ok fails) : Safe g x :=
  guarded.mono (fun _ _ => trivial) fun _ _ _ => trivial

theorem bind (first : Guarded g x ok fails) (later : ∀ a, ok a → Guarded g (k a) done fails) :
    Guarded g (x >>= k) done fails :=
  fun scene stands => (first scene stands).bind fun a after result => later a result.2 after result.1

theorem pure {a : α} (result : ok a) : Guarded g (Pure.pure a : Play η δ α) ok fails :=
  fun _ stands => .of_ok rfl ⟨stands, result⟩

theorem fault {f : Fault} (result : ∀ scene, fails f scene) :
    Guarded g (throw f : Play η δ α) ok fails :=
  fun scene stands => .of_error rfl ⟨stands, result scene⟩

/-- Something that does not concern the dialogue. -/
theorem aside (leaves : ∀ scene, ∃ a after, x scene = .ok a after
    ∧ after.dialogue = scene.dialogue ∧ ok a) : Guarded g x ok fails := by
  intro scene stands
  obtain ⟨a, after, played, same, result⟩ := leaves scene
  exact .of_ok played ⟨same ▸ stands, result⟩

theorem dialogue : Guarded g (Play.dialogue : Play η δ Dialogue) (·.StandsOn g) fails :=
  fun _ stands => .of_ok rfl ⟨stands, stands⟩

theorem change (f : Dialogue → Dialogue) (keeps : ∀ d, d.StandsOn g → (f d).StandsOn g) :
    Guarded g (Play.changeDialogue f : Play η δ Unit) (fun _ => True) fails :=
  fun scene stands => .of_ok rfl ⟨keeps scene.dialogue stands, trivial⟩

theorem bus : Guarded g (Play.bus : Play η δ Bus) (fun _ => True) fails :=
  .aside fun scene => ⟨scene.bus, scene, rfl, rfl, trivial⟩

theorem changeBus (f : Bus → Bus) :
    Guarded g (Play.changeBus f : Play η δ Unit) (fun _ => True) fails :=
  .aside fun _ => ⟨(), _, rfl, rfl, trivial⟩

theorem log (level : Level) (message : String) :
    Guarded g (Play.log level message : Play η δ Unit) (fun _ => True) fails :=
  .aside fun _ => ⟨(), _, rfl, rfl, trivial⟩

/-- What is looked up is there. -/
theorem found {ε : Type} {fault : ε → Fault} {r : Except ε α} {a : α} (found : r = .ok a)
    (result : ok a) : Guarded g (Play.orFault fault r : Play η δ α) ok fails :=
  found ▸ .pure result

theorem logAt (level : Level) (node : Node) (message : String) :
    Guarded g (Dialogue.logAt level node message : Play η δ Unit) (fun _ => True) fails :=
  Guarded.dialogue.bind fun _ _ => .log _ _

/-- Something that is played only if a condition holds. -/
theorem optional {c : Prop} [Decidable c] {y : Play η δ Unit} {k : Unit → Play η δ β}
    (first : Guarded g y (fun _ => True) fails) (later : Guarded g (k ()) done fails) :
    Guarded g (if c then y >>= k else k ()) done fails := by
  split
  · exact first.bind fun _ _ => later
  · exact later

theorem forM {x : α → Play η δ Unit} {as : List α}
    (each : ∀ a ∈ as, Guarded g (x a) (fun _ => True) fails) :
    Guarded g (as.forM x) (fun _ => True) fails := by
  induction as with
  | nil => exact .pure trivial
  | cons a rest ih =>
    obtain ⟨first, others⟩ := List.forall_mem_cons.1 each
    exact first.bind fun _ _ => ih others

theorem mapM {x : α → Play η δ β} {as : List α}
    (each : ∀ a ∈ as, Guarded g (x a) (fun _ => True) fails) :
    Guarded g (as.mapM x) (fun _ => True) fails := by
  induction as with
  | nil => exact .pure trivial
  | cons a rest ih =>
    obtain ⟨first, others⟩ := List.forall_mem_cons.1 each
    rw [List.mapM_cons]
    exact first.bind fun _ _ => (ih others).bind fun _ _ => .pure trivial

end Guarded

/-! ### Telling -/

section

variable (loyal : Loyal host g)

include loyal

theorem call_guarded (p : Publication) (listener : Nat) :
    Guarded g (Bus.call host p listener) (fun _ => True) (Excused host g) := by
  intro scene stands
  let addressed : Scene η δ := { scene with
    bus := { scene.bus with called := some listener }
    journal := scene.journal ++ [.heard listener p.event] }
  have heard := loyal.listens listener p addressed stands
  cases played : host.listen listener p addressed with
  | ok _ between =>
    have done : Bus.call host p listener scene = .ok () between := Play.tryCatch_ok played
    exact .of_ok done ⟨(heard.of_done played).1, trivial⟩
  | error f between =>
    have stands' := (heard.of_failed played).1
    -- all that a listener fails with is logged, but for a run without an end
    by_cases endless : f = .endless
    · have failed : Bus.call host p listener scene = .error .endless between :=
        (Play.tryCatch_error played).trans (by rw [endless]; rfl)
      exact .of_error failed ⟨stands', .endless rfl⟩
    · have logged : Bus.call host p listener scene = (Play.log .error
          ("Error in event handler for DialogueEvent." ++ p.event.topic.name)) between := by
        refine (Play.tryCatch_error played).trans ?_
        cases f <;> first | rfl | exact absurd rfl endless
      exact .of_ok logged ⟨stands', trivial⟩

theorem callEach_guarded (p : Publication) (subscriptions : List Subscription) :
    Guarded g (Bus.callEach host p subscriptions) (fun _ => True) (Excused host g) := by
  induction subscriptions with
  | nil => exact .pure trivial
  | cons s rest ih =>
    have read : Guarded g (get : Play η δ (Scene η δ)) (fun _ => True) (Excused host g) :=
      .aside fun scene => ⟨scene, scene, rfl, rfl, trivial⟩
    refine read.bind fun scene _ => ?_
    dsimp only
    split
    · refine (call_guarded loyal p s.listener).bind fun _ _ => Guarded.bus.bind fun b _ => ?_
      split
      · exact .pure trivial
      · exact ih.bind fun _ _ => .pure trivial
    · exact (Guarded.changeBus _).bind fun _ _ => ih.bind fun _ _ => .pure trivial

theorem deliver_guarded (p : Publication) :
    Guarded g (Bus.deliver host p) (fun _ => True) (Excused host g) := by
  refine Guarded.bus.bind fun b _ => ?_
  split
  · exact .pure trivial
  · split
    · exact .pure trivial
    · refine (Guarded.changeBus _).bind fun _ _ => (callEach_guarded loyal p _).bind fun _ _ => ?_
      exact Guarded.changeBus _

theorem deliverQueue_guarded (fuel : Nat) :
    Guarded g (Bus.deliverQueue host fuel) (fun _ => True) (Excused host g) := by
  induction fuel with
  | zero =>
    rw [Bus.deliverQueue.eq_def]
    refine Guarded.bus.bind fun b _ => ?_
    split
    · exact .pure trivial
    · exact .fault fun _ => .endless rfl
  | succ fuel ih =>
    rw [Bus.deliverQueue.eq_def]
    refine Guarded.bus.bind fun b _ => ?_
    split
    · exact .pure trivial
    · exact (Guarded.changeBus _).bind fun _ _ => (deliver_guarded loyal _).bind fun _ _ => ih

theorem publish_guarded (e : Event) :
    Guarded g (Bus.publish host e) (fun _ => True) (Excused host g) := by
  refine Guarded.bus.bind fun b _ => ?_
  split
  · exact (Guarded.changeBus _).bind fun _ _ => .pure trivial
  · refine (Guarded.changeBus _).bind fun _ _ => (deliver_guarded loyal _).bind fun _ _ => ?_
    refine (deliverQueue_guarded loyal host.steps).bind fun _ _ => ?_
    exact (Guarded.changeBus _).bind fun _ _ => .pure trivial

theorem tellAll_guarded (notice : Notice) :
    Guarded g (Dialogue.tellAll host notice) (fun _ => True) (Excused host g) := by
  refine Guarded.dialogue.bind fun d _ => .forM fun p _ => Guarded.dialogue.bind fun d _ => ?_
  have noted : Guarded g (Play.note (.told p.key notice d.speaker) : Play η δ Unit) (fun _ => True)
      (Excused host g) := .aside fun _ => ⟨(), _, rfl, rfl, trivial⟩
  -- whoever reacts is loyal, whether it still takes part or not
  refine noted.bind fun _ _ scene stands => ?_
  have reacts := loyal.reacts p.key notice scene stands
  cases played : host.react p.key notice scene with
  | ok _ after => exact .of_ok played ⟨(reacts.of_done played).1, trivial⟩
  | error f after => exact .of_error played ⟨(reacts.of_failed played).1, .raised played⟩

theorem publishes_guarded (notice : Notice) :
    Guarded g (Dialogue.publish host notice) (fun _ => True) (Excused host g) :=
  (publish_guarded loyal notice.toEvent).bind fun _ _ => .pure trivial

theorem announce_guarded (notice : Notice) :
    Guarded g (Dialogue.announce host notice) (fun _ => True) (Excused host g) :=
  (tellAll_guarded loyal notice).bind fun _ _ => publishes_guarded loyal notice

theorem request_guarded (name : String) :
    Guarded g (Dialogue.request host name) (fun _ => True) (Excused host g) :=
  (publishes_guarded loyal (.requested name)).bind fun _ _ => tellAll_guarded loyal (.requested name)

theorem requests_guarded (names : List String) :
    Guarded g (names.forM (Dialogue.request host)) (fun _ => True) (Excused host g) :=
  .forM fun name _ => request_guarded loyal name

end

/-! ### Running steps -/

theorem target_guarded {fails : Fault → Scene η δ → Prop} (rooted : Rooted g.nodes) {n : Node}
    (member : n ∈ g.nodes) {e : Edge} (own : e ∈ n.edges) :
    Guarded g (Dialogue.target e : Play η δ (Option Node)) (fun o => g.target e = .ok o) fails := by
  intro scene stands
  obtain ⟨o, leads, _⟩ := Graph.target_holds rooted member own
  exact .of_ok (target_yields stands.graph leads) ⟨stands, leads⟩

theorem next_guarded {fails : Fault → Scene η δ → Prop} (rooted : Rooted g.nodes) {n : Node}
    (member : n ∈ g.nodes) :
    Guarded g (Dialogue.next n : Play η δ (Option Node)) (fun o => g.next n = .ok o) fails := by
  intro scene stands
  obtain ⟨o, next, _⟩ := Graph.next_edge rooted member
  exact .of_ok (next_yields stands.graph next) ⟨stands, next⟩

/-- A step may lead to a node, along one of its edges, or the path may end with it. -/
def Graph.LeadsOn (g : Graph) (n : Node) (o : Option Node) : Prop :=
  o = none ∨ ∃ e ∈ n.edges, g.target e = .ok o

theorem Graph.LeadsOn.holds (rooted : Rooted g.nodes) {n : Node} {o : Option Node}
    (leads : g.LeadsOn n o) (member : n ∈ g.nodes) : g.Holds o := by
  obtain rfl | ⟨e, own, leads⟩ := leads
  · exact fun _ none => by cases none
  · exact Graph.holds_of_target rooted member own leads

theorem Graph.leadsOn_of_next (rooted : Rooted g.nodes) {n : Node} {o : Option Node}
    (member : n ∈ g.nodes) (next : g.next n = .ok o) : g.LeadsOn n o := by
  obtain ⟨_, next', ways⟩ := Graph.next_edge rooted member
  cases next.symm.trans next'
  exact ways.imp (·.2) id

section

variable (loyal : Loyal host g)

include loyal

theorem evaluate_guarded {e : Expression} (written : e ∈ g.expressions) (node : Node) :
    Guarded g (Dialogue.evaluate host e node) (fun _ => True) (Excused host g) := by
  refine (requests_guarded loyal e.names).bind fun _ _ scene stands => ?_
  have read : Play.dialogue scene = .ok scene.dialogue scene := rfl
  refine .step read ?_
  cases value : e.evaluate scene.dialogue.environment with
  | ok v => exact .of_ok rfl ⟨stands, trivial⟩
  | error f =>
    cases f with
    | refused r =>
      exact (Guarded.logAt .error node _).bind (fun _ _ => .pure trivial) scene stands
    | _ =>
      refine .of_error rfl ⟨stands, .broke ⟨e, written, _, rfl, value, ?_⟩⟩
      rintro r ⟨⟩

theorem holds_guarded {n : Node} (member : n ∈ g.nodes) {e : Edge} (own : e ∈ n.edges) :
    Guarded g (Dialogue.holds host n e.condition) (fun _ => True) (Excused host g) := by
  cases condition : e.condition with
  | none => exact .pure trivial
  | some x =>
    have written := Graph.mem_expressions_of_condition member own condition
    exact (evaluate_guarded loyal written n).bind fun _ _ => .pure trivial

theorem assign_guarded (name : String) (value : Value) (fromScript : Bool) :
    Guarded g (Dialogue.assign host name value fromScript) (fun _ => True) (Excused host g) := by
  refine Guarded.dialogue.bind fun d _ => ?_
  split
  · exact .pure trivial
  · exact (Guarded.change (·.put name value)
      fun _ stands => ⟨stands.graph, stands.line, stands.ways⟩).bind fun _ _ =>
        announce_guarded loyal _

theorem runAssignment_guarded {n : Node} (member : n ∈ g.nodes) :
    Guarded g (Dialogue.runAssignment host n) (fun _ => True) (Excused host g) := by
  rw [Dialogue.runAssignment]
  split
  · exact .pure trivial
  next e expression =>
    have written := Graph.mem_expressions_of_expression member expression
    refine (evaluate_guarded loyal written n).bind fun v _ => ?_
    split
    · exact assign_guarded loyal _ _ _
    · exact .logAt _ _ _

theorem runEvent_guarded {n : Node} (member : n ∈ g.nodes) :
    Guarded g (Dialogue.runEvent host n) (fun _ => True) (Excused host g) := by
  have evaluated (e : Expression) (argument : e ∈ n.eventArgs) :=
    evaluate_guarded loyal (Graph.mem_expressions_of_argument member argument) n
  exact (Guarded.mapM evaluated).bind fun args _ => announce_guarded loyal _

end

section

variable (loyal : Loyal host g) (rooted : Rooted g.nodes)

include loyal rooted

theorem takeBranch_guarded {n : Node} (member : n ∈ g.nodes) {edges : List Edge}
    (own : edges ⊆ n.edges) :
    Guarded g (Dialogue.takeBranch host n edges) (g.LeadsOn n) (Excused host g) := by
  induction edges with
  | nil => exact .pure (.inl rfl)
  | cons e rest ih =>
    obtain ⟨here, others⟩ := List.cons_subset.1 own
    -- the guard may have called hooks, but the edge still leads where it does in the graph
    refine (holds_guarded loyal member here).bind fun held _ => ?_
    split
    · exact (target_guarded rooted member here).mono (fun o leads => .inr ⟨e, here, leads⟩)
        fun _ _ excused => excused
    · exact ih others

theorem runNode_guarded {n : Node} (member : n ∈ g.nodes) :
    Guarded g (Dialogue.runNode host n) (g.LeadsOn n) (Excused host g) := by
  have goesOn : Guarded g (Dialogue.next n : Play η δ (Option Node)) (g.LeadsOn n)
      (Excused host g) :=
    (next_guarded rooted member).mono (fun _ next => Graph.leadsOn_of_next rooted member next)
      fun _ _ excused => excused
  rw [Dialogue.runNode]
  split
  · exact takeBranch_guarded loyal rooted member (List.Subset.refl _)
  · exact (runAssignment_guarded loyal member).bind fun _ _ => goesOn
  · exact (runEvent_guarded loyal member).bind fun _ _ => goesOn
  · exact .pure (.inl rfl)

theorem runOn_guarded (fuel : Nat) {o : Option Node} (inside : g.Holds o) :
    Guarded g (Dialogue.runOn host fuel o) g.Holds (Excused host g) := by
  induction fuel generalizing o with
  | zero =>
    obtain still | ⟨n, rfl, runs⟩ := Script.still_or_runs o
    · exact fun scene stands => .of_ok (Script.runOn_still 0 still) ⟨stands, inside⟩
    · exact fun scene stands => .of_error (runOn_endless runs) ⟨stands, .endless rfl⟩
  | succ fuel ih =>
    obtain still | ⟨n, rfl, runs⟩ := Script.still_or_runs o
    · exact fun scene stands => .of_ok (Script.runOn_still (fuel + 1) still) ⟨stands, inside⟩
    · have member := inside n rfl
      rw [runOn_succ fuel runs]
      exact (runNode_guarded loyal rooted member).bind fun o leads => ih (leads.holds rooted member)

/-! ### Choices -/

theorem collectEdges_guarded (gathering : Nat) {enter : Option Node → Play η δ Unit}
    (enters : ∀ o, g.Holds o → Guarded g (enter o) (fun _ => True) (Excused host g)) {n : Node}
    (member : n ∈ g.nodes) {edges : List Edge} (own : edges ⊆ n.edges) :
    Guarded g (Dialogue.collectEdges host gathering enter n edges) (fun _ => True)
      (Excused host g) := by
  induction edges with
  | nil => exact .pure trivial
  | cons e rest ih =>
    obtain ⟨here, others⟩ := List.cons_subset.1 own
    have entered : Guarded g (do enter (← Dialogue.target e)) (fun _ => True) (Excused host g) :=
      (target_guarded rooted member here).bind fun o leads =>
        enters o (Graph.holds_of_target rooted member here leads)
    rw [Dialogue.collectEdges]
    split
    · refine (Guarded.change _ fun d stands => ?_).bind fun _ _ => ih others
      exact stands.offer gathering member here
    · refine (holds_guarded loyal member here).bind fun held _ => ?_
      split
      · exact entered
      · exact ih others
    · exact (target_guarded rooted member here).bind fun o leads =>
        (enters o (Graph.holds_of_target rooted member here leads)).bind fun _ _ => ih others
    · exact (Guarded.logAt _ _ _).bind fun _ _ => ih others

theorem collect_guarded (gathering fuel : Nat) {o : Option Node} (inside : g.Holds o) :
    Guarded g (Dialogue.collect host gathering fuel o) (fun _ => True) (Excused host g) := by
  induction fuel generalizing o with
  | zero =>
    rw [Dialogue.collect.eq_def]
    split
    · exact .pure trivial
    · split
      · exact .fault fun _ => .tooDeep rfl
      · exact .logAt _ _ _
  | succ fuel ih =>
    rw [Dialogue.collect.eq_def]
    split
    · exact .pure trivial
    next n =>
      split
      · exact collectEdges_guarded loyal rooted gathering (fun _ => ih) (inside n rfl)
          (List.Subset.refl _)
      · exact .logAt _ _ _

end

section

variable (loyal : Loyal host g) (sturdy : g.Sturdy)

include loyal sturdy

theorem gather_guarded : Guarded g (Dialogue.gather host) (fun _ => True) (Excused host g) := by
  refine Guarded.dialogue.bind fun d stands => ?_
  split
  · exact .pure trivial
  next line current =>
    obtain ⟨member, isText⟩ := stands.line line current
    split
    · -- the search found what was noted of the line when the graph was made
      obtain ⟨o, found, _⟩ := sturdy.root line member isText
      have looked : Guarded g (Play.orFault .lost (g.nextChoice line) : Play η δ (Option Node))
          (fun o => g.nextChoice line = .ok o) (Excused host g) := .found found found
      rw [stands.graph]
      refine looked.bind fun o found => ?_
      split
      · exact .pure trivial
      next root =>
        refine collect_guarded loyal sturdy.rooted _ _ ?_
        rintro _ ⟨⟩
        exact (sturdy.rooted.nextChoice_root member found).1
    · split
      · exact .pure trivial
      next e first =>
        exact .change _ fun _ stands' => stands'.offer _ member (List.mem_of_getElem? first)

theorem setLine_guarded {line : Option Node}
    (stands : ∀ n, line = some n → n ∈ g.nodes ∧ n.kind = .text) (quietly : Bool) :
    Guarded g (Dialogue.setLine host line quietly) (fun _ => True) (Excused host g) := by
  have moves : Guarded g (Play.changeDialogue (·.moveTo line) : Play η δ Unit) (fun _ => True)
      (Excused host g) := .change _ fun _ there => ⟨there.graph, stands, List.forall_mem_nil _⟩
  refine moves.bind fun _ _ => (gather_guarded loyal sturdy).bind fun _ _ => ?_
  split
  · exact .pure trivial
  · exact announce_guarded loyal _

theorem runTo_guarded {o : Option Node} (inside : g.Holds o) (tellEnd : Bool) :
    Guarded g (Dialogue.runTo host o tellEnd) (fun _ => True) (Excused host g) := by
  refine (runOn_guarded loyal sturdy.rooted host.steps inside).bind fun stop there => ?_
  split
  · exact setLine_guarded loyal sturdy (fun _ none => by cases none) _
  next n =>
    split
    next text =>
      refine setLine_guarded loyal sturdy ?_ false
      rintro _ ⟨⟩
      exact ⟨there n rfl, text⟩
    · exact .logAt _ _ _

/-! ### The course of a dialogue -/

theorem runHeader_guarded :
    Guarded g (Dialogue.runHeader host) (fun _ => True) (Excused host g) := by
  refine Guarded.dialogue.bind fun d stands => ?_
  obtain ⟨o, found, inside⟩ := sturdy.headerNode
  rw [stands.graph]
  exact (Guarded.found found inside).bind fun o inside => runTo_guarded loyal sturdy inside false

theorem resetVariables_guarded :
    Guarded g (Dialogue.resetVariables host) (fun _ => True) (Excused host g) :=
  (Guarded.change (fun d => { d with vars := [] })
    fun _ stands => ⟨stands.graph, stands.line, stands.ways⟩).bind fun _ _ =>
      runHeader_guarded loyal sturdy

/-- From any scene whatever. -/
theorem attachTo_standsOn (scene : Scene η δ) : Yields (Dialogue.attachTo host g) scene
    (fun _ after => after.dialogue.StandsOn g)
    (fun f after => after.dialogue.StandsOn g ∧ Excused host g f after) := by
  let attached : Scene η δ := { scene with dialogue := scene.dialogue.attach g }
  have stands : attached.dialogue.StandsOn g :=
    ⟨rfl, fun _ none => (by cases none), List.forall_mem_nil _⟩
  have began : Play.changeDialogue (·.attach g) scene = .ok () attached := rfl
  refine .step began ((resetVariables_guarded loyal sturdy attached stands).mono ?_ ?_)
  · exact fun _ _ result => result.1
  · exact fun _ _ result => result

theorem reset_guarded (vars position taken : Bool) :
    Guarded g (Dialogue.reset host vars position taken) (fun _ => True) (Excused host g) := by
  have away : Guarded g (Dialogue.setLine host none true) (fun _ => True) (Excused host g) :=
    setLine_guarded loyal sturdy (fun _ none => by cases none) true
  rw [Dialogue.reset]
  refine .optional (resetVariables_guarded loyal sturdy) (.optional away ?_)
  split
  · exact .change _ fun _ stands => ⟨stands.graph, stands.line, stands.ways⟩
  · exact .pure trivial

omit loyal in
theorem startNode_guarded (label : Option String) :
    Guarded g (Dialogue.startNode label : Play η δ (Option Node)) g.Holds (Excused host g) := by
  refine Guarded.dialogue.bind fun d stands => ?_
  obtain ⟨o, found, inside⟩ := sturdy.firstNode
  rw [stands.graph]
  refine (Guarded.found found inside).bind fun first inside => ?_
  dsimp only
  split
  · exact .pure inside
  · obtain ⟨o, found, there⟩ := sturdy.nodeByLabel (label.getD "")
    refine (Guarded.found found there).bind fun named there => ?_
    split
    · exact (Guarded.log _ _).bind fun _ _ => .pure inside
    · split
      · exact (Guarded.log _ _).bind fun _ _ => .pure inside
      · exact .pure there

theorem restart_guarded (resetFirst : Bool) (label : Option String) (rerunHeader : Bool) :
    Guarded g (Dialogue.restart host resetFirst label rerunHeader) (fun _ => True)
      (Excused host g) := by
  rw [Dialogue.restart]
  refine .optional (reset_guarded loyal sturdy true true true) ?_
  refine (announce_guarded loyal _).bind fun _ _ => ?_
  refine .optional (runHeader_guarded loyal sturdy) ?_
  exact (startNode_guarded sturdy label).bind fun o inside => runTo_guarded loyal sturdy inside true

theorem start_guarded (label : Option String) :
    Guarded g (Dialogue.start host label) (fun _ => True) (Excused host g) := by
  refine Guarded.dialogue.bind fun d _ => ?_
  split
  · exact restart_guarded loyal sturdy false label false
  · exact .pure trivial

end

end Colloquy
