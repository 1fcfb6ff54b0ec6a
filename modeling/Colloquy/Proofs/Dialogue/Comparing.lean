import Colloquy.Proofs.Dialogue.Attended
import Colloquy.Proofs.Dialogue.Calls
/-!
# Runs side by side

What is run in an attended scene depends on the script and on the variables, and on nothing else: not
on where the dialogue stands, who attends, or the journal. So two runs from the same variables come to
the same. Of a run beside itself one learns what it leaves as it is, of a run beside one that nobody
attends where it leads, and of either what happens meanwhile.
-/

namespace Colloquy

variable {η δ η' δ' : Type} {host : Host η δ} {host' : Host η' δ'}
  {R : Dialogue → Dialogue → Prop} {P Q : Happening → Prop} {scene after : Scene η δ}
  {other last : Scene η' δ'}

/-- Attended scenes on the same graph with the same variables, whose dialogues are related. -/
structure Twins (host : Host η δ) (host' : Host η' δ') (R : Dialogue → Dialogue → Prop)
    (scene : Scene η δ) (other : Scene η' δ') : Prop where
  attended : Attended host scene
  attended' : Attended host' other
  graph : other.dialogue.graph = scene.dialogue.graph
  vars : other.dialogue.vars = scene.dialogue.vars
  related : R scene.dialogue other.dialogue

namespace Twins

theorem self (attended : Attended host scene) (related : R scene.dialogue scene.dialogue) :
    Twins host host R scene scene :=
  ⟨attended, attended, rfl, rfl, related⟩

/-- Twins stay so when their dialogues change alike. -/
theorem change (twins : Twins host host' R scene other) (f f' : Dialogue → Dialogue)
    (people : ∀ d, (f d).participants = d.participants ∧ (f' d).participants = d.participants)
    (graph : (f' other.dialogue).graph = (f scene.dialogue).graph)
    (vars : (f' other.dialogue).vars = (f scene.dialogue).vars)
    (related : R (f scene.dialogue) (f' other.dialogue)) :
    Twins host host' R { scene with dialogue := f scene.dialogue }
      { other with dialogue := f' other.dialogue } :=
  ⟨twins.attended.of_same (people _).1 rfl, twins.attended'.of_same (people _).2 rfl, graph, vars,
    related⟩

/-- Twins stay so while their dialogues are left as they are. -/
theorem same (twins : Twins host host' R scene other) (attended : Attended host after)
    (attended' : Attended host' last) (dialogue : after.dialogue = scene.dialogue)
    (dialogue' : last.dialogue = other.dialogue) : Twins host host' R after last := by
  refine ⟨attended, attended', ?_, ?_, ?_⟩
  · rw [dialogue, dialogue', twins.graph]
  · rw [dialogue, dialogue', twins.vars]
  · rw [dialogue, dialogue']
    exact twins.related

end Twins

/-- Two plays come to the same, leaving twins. All that happens in the first of them is of some
kind. -/
inductive Agree (host : Host η δ) (host' : Host η' δ') (R : Dialogue → Dialogue → Prop)
    (P : Happening → Prop) {α : Type} (x : Play η δ α) (y : Play η' δ' α) (scene : Scene η δ)
    (other : Scene η' δ') : Prop where
  | done {a : α} {after : Scene η δ} {last : Scene η' δ'} {happenings : List Happening}
      (left : x scene = .ok a after) (right : y other = .ok a last)
      (unfolds : Unfolds scene happenings after) (kind : ∀ h ∈ happenings, P h)
      (twins : Twins host host' R after last)
  | failed {f : Fault} {after : Scene η δ} {last : Scene η' δ'} {happenings : List Happening}
      (left : x scene = .error f after) (right : y other = .error f last)
      (unfolds : Unfolds scene happenings after) (twins : Twins host host' R after last)

namespace Agree

variable {α β : Type} {x : Play η δ α} {y : Play η' δ' α} {f : α → Play η δ β}
  {f' : α → Play η' δ' β}

theorem mono (agree : Agree host host' R P x y scene other) (weaker : ∀ h, P h → Q h) :
    Agree host host' R Q x y scene other := by
  cases agree with
  | failed left right unfolds twins => exact .failed left right unfolds twins
  | done left right unfolds kind twins =>
    exact .done left right unfolds (fun h member => weaker h (kind h member)) twins

theorem pure (twins : Twins host host' R scene other) (a : α) :
    Agree host host' R P (Pure.pure a) (Pure.pure a) scene other :=
  .done rfl rfl (.refl scene) (fun _ none => by cases none) twins

theorem bind (first : Agree host host' R P x y scene other)
    (later : ∀ a after last, Twins host host' R after last →
      Agree host host' R P (f a) (f' a) after last) :
    Agree host host' R P (x >>= f) (y >>= f') scene other := by
  cases first with
  | failed left right unfolds twins =>
    exact .failed (Play.bind_error left) (Play.bind_error right) unfolds twins
  | done left right unfolds kind twins =>
    cases later _ _ _ twins with
    | done left' right' unfolds' kind' twins' =>
      refine .done ((Play.bind_ok left).trans left') ((Play.bind_ok right).trans right')
        (unfolds.trans unfolds') ?_ twins'
      exact List.forall_mem_append.mpr ⟨kind, kind'⟩
    | failed left' right' unfolds' twins' =>
      exact .failed ((Play.bind_ok left).trans left') ((Play.bind_ok right).trans right')
        (unfolds.trans unfolds') twins'

/-- What comes after reading the dialogues. -/
theorem read {f : Dialogue → Play η δ β} {f' : Dialogue → Play η' δ' β}
    (later : Agree host host' R P (f scene.dialogue) (f' other.dialogue) scene other) :
    Agree host host' R P (Play.dialogue >>= f) (Play.dialogue >>= f') scene other := by
  have here : Play.dialogue scene = .ok scene.dialogue scene := rfl
  have there : Play.dialogue other = .ok other.dialogue other := rfl
  cases later with
  | done left right unfolds kind twins =>
    exact .done ((Play.bind_ok here).trans left) ((Play.bind_ok there).trans right) unfolds kind
      twins
  | failed left right unfolds twins =>
    exact .failed ((Play.bind_ok here).trans left) ((Play.bind_ok there).trans right) unfolds twins

/-- What comes after changing the dialogues. -/
theorem change {g g' : Dialogue → Dialogue} {f : Unit → Play η δ β} {f' : Unit → Play η' δ' β}
    (people : (g scene.dialogue).participants = scene.dialogue.participants)
    (later : Agree host host' R P (f ()) (f' ()) { scene with dialogue := g scene.dialogue }
      { other with dialogue := g' other.dialogue }) :
    Agree host host' R P (Play.changeDialogue g >>= f) (Play.changeDialogue g' >>= f')
      scene other := by
  have blank : scene.Blank { scene with dialogue := g scene.dialogue } := ⟨people, rfl, rfl⟩
  cases later with
  | done left right unfolds kind twins =>
    exact .done left right (.of_blank blank unfolds) kind twins
  | failed left right unfolds twins => exact .failed left right (.of_blank blank unfolds) twins

theorem orFault {ε : Type} (twins : Twins host host' R scene other) (fault : ε → Fault)
    (result : Except ε α) :
    Agree host host' R P (Play.orFault fault result) (Play.orFault fault result) scene other := by
  cases result with
  | ok a => exact .pure twins a
  | error e => exact .failed rfl rfl (.refl scene) twins

/-- What is played beside itself keeps a property, whether it fails or not. -/
theorem yields (agree : Agree host host' R P x y scene other) :
    Yields x scene (fun _ after => Attended host after ∧ ∃ d, R after.dialogue d)
      (fun _ after => Attended host after ∧ ∃ d, R after.dialogue d) := by
  cases agree with
  | done left _ _ _ twins => exact .of_ok left ⟨twins.attended, _, twins.related⟩
  | failed left _ _ twins => exact .of_error left ⟨twins.attended, _, twins.related⟩

end Agree

/-! ### Kinds of happenings -/

/-- What is remarked when a run comes to a choice with no line before it. -/
def strayMessage : String :=
  "tried to run to the next speaker line but found a " ++ NodeKind.choice.label ++ " node"

theorem strayMessage_eq {k : NodeKind} (choice : k = .choice) :
    "tried to run to the next speaker line but found a " ++ k.label ++ " node" = strayMessage := by
  cases choice
  rfl

theorem head?_append {s t : String} {c : Char} (first : s.toList.head? = some c) :
    (s ++ t).toList.head? = some c := by
  rw [String.toList_append, List.head?_append, first]
  rfl

theorem ne_strayMessage {message : String} {c : Char} (first : message.toList.head? = some c)
    (other : c ≠ 't') : message ≠ strayMessage := by
  rintro rfl
  have begins : strayMessage.toList.head? = some 't' := head?_append (head?_append (by decide))
  exact other (Option.some.inj (first.symm.trans begins))

theorem Expression.Refusal.message_ne (r : Expression.Refusal) (source : String) :
    r.message source ≠ strayMessage := by
  cases r with
  | needsNumbers =>
    refine ne_strayMessage (c := 'O') ?_ (by decide)
    iterate 5 apply head?_append
    decide
  | divisionByZero =>
    refine ne_strayMessage (c := 'D') ?_ (by decide)
    iterate 6 apply head?_append
    decide
  | cannotCompare =>
    refine ne_strayMessage (c := 'C') ?_ (by decide)
    iterate 5 apply head?_append
    decide
  | cannotNegate =>
    refine ne_strayMessage (c := 'C') ?_ (by decide)
    iterate 4 apply head?_append
    decide
  | unsupported =>
    refine ne_strayMessage (c := '\'') ?_ (by decide)
    iterate 3 apply head?_append
    decide

namespace Happening

/-- What happens while expressions are evaluated: variables are asked for, and what cannot be
evaluated is remarked on. -/
def Asks : Happening → Prop
  | .raised (.requested _) => True
  | .remarked _ _ message => message ≠ strayMessage
  | _ => False

/-- What happens while variables are set. -/
def Sets : Happening → Prop
  | .raised (.changed ..) => True
  | h => h.Asks

/-- What happens while steps are run. -/
def Steps : Happening → Prop
  | .raised (.event ..) => True
  | h => h.Sets

theorem Asks.sets {h : Happening} (asks : h.Asks) : h.Sets := by
  unfold Sets
  split
  · trivial
  · exact asks

theorem Sets.steps {h : Happening} (sets : h.Sets) : h.Steps := by
  unfold Steps
  split
  · trivial
  · exact sets

end Happening

/-! ### Steps -/

section Steps

variable (twins : Twins host host' R scene other)

include twins

theorem logAt_agree (level : Level) (node : Node) (message : String) :
    Agree host host' R (· = .remarked level node message) (Dialogue.logAt level node message)
      (Dialogue.logAt level node message) scene other :=
  .done rfl rfl (.enter scene rfl) (fun _ member => List.mem_singleton.mp member)
    (twins.same (twins.attended.of_same rfl rfl) (twins.attended'.of_same rfl rfl) rfl rfl)

/-- A remark that is not about a stray choice. -/
theorem remark_agree (level : Level) (node : Node) {message : String}
    (apart : message ≠ strayMessage) :
    Agree host host' R Happening.Asks (Dialogue.logAt level node message)
      (Dialogue.logAt level node message) scene other := by
  refine (logAt_agree twins level node message).mono ?_
  rintro _ rfl
  exact apart

theorem announce_agree {notice notice' : Notice} (plain : ∀ name, notice ≠ .requested name)
    (plain' : ∀ name, notice' ≠ .requested name) :
    Agree host host' R (· = .raised notice) (Dialogue.announce host notice)
      (Dialogue.announce host' notice') scene other := by
  obtain ⟨after, said, reaches⟩ := announce_attended twins.attended plain
  obtain ⟨last, said', reaches'⟩ := announce_attended twins.attended' plain'
  exact .done said said' (.single reaches) (fun h member => List.mem_singleton.mp member)
    (twins.same (reaches.attended twins.attended) (reaches'.attended twins.attended')
      reaches.dialogue reaches'.dialogue)

theorem request_agree (name : String) :
    Agree host host' R Happening.Asks (Dialogue.request host name) (Dialogue.request host' name)
      scene other := by
  obtain ⟨after, said, reaches⟩ := request_attended twins.attended name
  obtain ⟨last, said', reaches'⟩ := request_attended twins.attended' name
  refine .done said said' (.single reaches) (fun h member => ?_)
    (twins.same (reaches.attended twins.attended) (reaches'.attended twins.attended')
      reaches.dialogue reaches'.dialogue)
  cases List.mem_singleton.mp member
  trivial

theorem target_agree (e : Edge) :
    Agree host host' R P (Dialogue.target e) (Dialogue.target e) scene other := by
  rw [Dialogue.target, Dialogue.target]
  refine .read ?_
  rw [twins.graph]
  exact .orFault twins _ _

theorem next_agree (node : Node) :
    Agree host host' R P (Dialogue.next node) (Dialogue.next node) scene other := by
  rw [Dialogue.next, Dialogue.next]
  refine .read ?_
  rw [twins.graph]
  exact .orFault twins _ _

end Steps

theorem requests_agree (twins : Twins host host' R scene other) (names : List String) :
    Agree host host' R Happening.Asks (names.forM (Dialogue.request host))
      (names.forM (Dialogue.request host')) scene other := by
  induction names generalizing scene other with
  | nil => exact .pure twins ()
  | cons name rest ih => exact (request_agree twins name).bind fun _ _ _ twins => ih twins

theorem evaluate_agree (twins : Twins host host' R scene other) (e : Expression) (node : Node) :
    Agree host host' R Happening.Asks (Dialogue.evaluate host e node)
      (Dialogue.evaluate host' e node) scene other := by
  rw [Dialogue.evaluate, Dialogue.evaluate]
  refine (requests_agree twins e.names).bind fun _ after last twins => .read ?_
  have same : last.dialogue.environment = after.dialogue.environment := by
    unfold Dialogue.environment Dialogue.value?
    rw [twins.vars]
  rw [same]
  cases e.evaluate after.dialogue.environment with
  | ok v => exact .pure twins v
  | error f =>
    cases f with
    | refused r =>
      exact (remark_agree twins _ _ (r.message_ne e.source)).bind fun _ _ _ twins => .pure twins none
    | _ => exact .failed rfl rfl (.refl after) twins

theorem holds_agree (twins : Twins host host' R scene other) (node : Node)
    (e : Option Expression) :
    Agree host host' R Happening.Asks (Dialogue.holds host node e) (Dialogue.holds host' node e)
      scene other := by
  cases e with
  | none => exact .pure twins false
  | some e => exact (evaluate_agree twins e node).bind fun v _ _ twins => .pure twins _

theorem takeBranch_agree (twins : Twins host host' R scene other) (node : Node)
    (edges : List Edge) :
    Agree host host' R Happening.Asks (Dialogue.takeBranch host node edges)
      (Dialogue.takeBranch host' node edges) scene other := by
  induction edges generalizing scene other with
  | nil => exact .pure twins none
  | cons e rest ih =>
    rw [Dialogue.takeBranch, Dialogue.takeBranch]
    refine (holds_agree twins node e.condition).bind fun held _ _ twins => ?_
    cases held with
    | true => exact target_agree twins e
    | false => exact ih twins

theorem evaluateAll_agree (twins : Twins host host' R scene other) (args : List Expression)
    (node : Node) :
    Agree host host' R Happening.Asks (args.mapM fun e => Dialogue.evaluate host e node)
      (args.mapM fun e => Dialogue.evaluate host' e node) scene other := by
  induction args generalizing scene other with
  | nil => exact .pure twins []
  | cons e rest ih =>
    rw [List.mapM_cons, List.mapM_cons]
    refine (evaluate_agree twins e node).bind fun v _ _ twins => ?_
    exact (ih twins).bind fun vs _ _ twins => .pure twins (v :: vs)

theorem runEvent_agree (twins : Twins host host' R scene other) (node : Node) :
    Agree host host' R Happening.Steps (Dialogue.runEvent host node) (Dialogue.runEvent host' node)
      scene other := by
  rw [Dialogue.runEvent, Dialogue.runEvent]
  refine ((evaluateAll_agree twins node.eventArgs node).mono fun h asks => asks.sets.steps).bind
    fun args _ _ twins => ?_
  refine (announce_agree twins (by rintro _ ⟨⟩) (by rintro _ ⟨⟩)).mono ?_
  rintro _ rfl
  trivial

/-! ### Runs -/

section Setting

variable (sets : ∀ d d' name v, R d d' → R (d.put name v) (d'.put name v))

include sets

theorem assign_agree (twins : Twins host host' R scene other) (name : String) (v : Value)
    (fromScript : Bool) :
    Agree host host' R (· = .raised (.changed name v fromScript))
      (Dialogue.assign host name v fromScript) (Dialogue.assign host' name v fromScript)
      scene other := by
  rw [Dialogue.assign, Dialogue.assign]
  refine .read ?_
  have same : other.dialogue.value? name = scene.dialogue.value? name := by
    unfold Dialogue.value?
    rw [twins.vars]
  rw [same]
  split
  · exact .pure twins ()
  · refine .change rfl (announce_agree (twins.change (·.put name v) (·.put name v)
      (fun _ => ⟨rfl, rfl⟩) twins.graph ?_ (sets _ _ name v twins.related))
      (by rintro _ ⟨⟩) (by rintro _ ⟨⟩))
    change setEntry _ _ _ = setEntry _ _ _
    rw [twins.vars]

theorem runAssignment_agree (twins : Twins host host' R scene other) (node : Node) :
    Agree host host' R Happening.Sets (Dialogue.runAssignment host node)
      (Dialogue.runAssignment host' node) scene other := by
  rw [Dialogue.runAssignment, Dialogue.runAssignment]
  cases node.expression with
  | none => exact .pure twins ()
  | some e =>
    refine ((evaluate_agree twins e node).mono fun h => Happening.Asks.sets).bind
      fun v _ _ twins => ?_
    cases v with
    | none =>
      exact (remark_agree twins _ _ (ne_strayMessage (c := '[') (by simp) (by decide))).mono
        fun h => Happening.Asks.sets
    | some v =>
      refine (assign_agree sets twins _ _ _).mono ?_
      rintro _ rfl
      trivial

theorem runNode_agree (twins : Twins host host' R scene other) (node : Node) :
    Agree host host' R Happening.Steps (Dialogue.runNode host node) (Dialogue.runNode host' node)
      scene other := by
  rw [Dialogue.runNode, Dialogue.runNode]
  cases node.kind with
  | select =>
    exact (takeBranch_agree twins node node.edges).mono fun h asks => asks.sets.steps
  | setVariable =>
    exact ((runAssignment_agree sets twins node).mono fun h => Happening.Sets.steps).bind
      fun _ _ _ twins => next_agree twins node
  | event => exact (runEvent_agree twins node).bind fun _ _ _ twins => next_agree twins node
  | _ => exact .pure twins none

theorem runOn_agree (twins : Twins host host' R scene other) (fuel : Nat) (o : Option Node) :
    Agree host host' R Happening.Steps (Dialogue.runOn host fuel o) (Dialogue.runOn host' fuel o)
      scene other := by
  induction fuel generalizing scene other o with
  | zero =>
    obtain still | ⟨n, rfl, runs⟩ := Script.still_or_runs o
    · exact .done (Script.runOn_still 0 still) (Script.runOn_still 0 still) (.refl scene)
        (fun _ none => by cases none) twins
    · rw [Dialogue.runOn, Dialogue.runOn, runs]
      exact .failed rfl rfl (.refl scene) twins
  | succ fuel ih =>
    obtain still | ⟨n, rfl, runs⟩ := Script.still_or_runs o
    · exact .done (Script.runOn_still (fuel + 1) still) (Script.runOn_still (fuel + 1) still)
        (.refl scene) (fun _ none => by cases none) twins
    · rw [runOn_succ fuel runs, runOn_succ fuel runs]
      exact (runNode_agree sets twins n).bind fun o _ _ twins => ih twins o

end Setting

/-! ### Choices -/

theorem Dialogue.offer_same (d : Dialogue) (k : Nat) (e : Edge) :
    (d.offer k e).participants = d.participants ∧ (d.offer k e).graph = d.graph
      ∧ (d.offer k e).vars = d.vars := by
  unfold Dialogue.offer
  split <;> exact ⟨rfl, rfl, rfl⟩

section Offering

variable {K : Nat → Nat → Prop}
  (offers : ∀ d d' k k' e, K k k' → R d d' → R (d.offer k e) (d'.offer k' e))

include offers

theorem offer_agree (twins : Twins host host' R scene other) {k k' : Nat} (both : K k k')
    (e : Edge) :
    Agree host host' R P (Play.changeDialogue (·.offer k e)) (Play.changeDialogue (·.offer k' e))
      scene other := by
  obtain ⟨people, graph, vars⟩ := scene.dialogue.offer_same k e
  obtain ⟨_, graph', vars'⟩ := other.dialogue.offer_same k' e
  have changed := twins.change (·.offer k e) (·.offer k' e)
    (fun d => ⟨(d.offer_same k e).1, (d.offer_same k' e).1⟩)
    (graph'.trans (twins.graph.trans graph.symm)) (vars'.trans (twins.vars.trans vars.symm))
    (offers _ _ k k' e both twins.related)
  have blank : scene.Blank { scene with dialogue := scene.dialogue.offer k e } :=
    ⟨people, rfl, rfl⟩
  exact .done rfl rfl (.still blank) (fun _ none => by cases none) changed

theorem collectEdges_agree (twins : Twins host host' R scene other) {k k' : Nat} (both : K k k')
    {enter : Option Node → Play η δ Unit} {enter' : Option Node → Play η' δ' Unit}
    (enters : ∀ o after last, Twins host host' R after last →
      Agree host host' R Happening.Asks (enter o) (enter' o) after last) (node : Node)
    (edges : List Edge) :
    Agree host host' R Happening.Asks (Dialogue.collectEdges host k enter node edges)
      (Dialogue.collectEdges host' k' enter' node edges) scene other := by
  induction edges generalizing scene other with
  | nil => exact .pure twins ()
  | cons e rest ih =>
    rw [Dialogue.collectEdges, Dialogue.collectEdges]
    cases e.kind with
    | decision => exact (offer_agree offers twins both e).bind fun _ _ _ twins => ih twins
    | condition =>
      refine (holds_agree twins node e.condition).bind fun held _ _ twins => ?_
      cases held with
      | true => exact (target_agree twins e).bind enters
      | false => exact ih twins
    | chained =>
      refine (target_agree twins e).bind fun o _ _ twins => ?_
      exact (enters o _ _ twins).bind fun _ _ _ twins => ih twins
    | «continue» =>
      exact (remark_agree twins _ _ (ne_strayMessage (c := 'u') (by simp) (by decide))).bind
        fun _ _ _ twins => ih twins

theorem collect_agree (twins : Twins host host' R scene other) {k k' : Nat} (both : K k k')
    (fuel : Nat) (o : Option Node) :
    Agree host host' R Happening.Asks (Dialogue.collect host k fuel o)
      (Dialogue.collect host' k' fuel o) scene other := by
  induction fuel generalizing scene other o with
  | zero =>
    cases o with
    | none => exact .pure twins ()
    | some node =>
      rw [Dialogue.collect, Dialogue.collect]
      split
      · exact .failed rfl rfl (.refl scene) twins
      · exact remark_agree twins _ _ (ne_strayMessage (c := 'e') (by simp) (by decide))
  | succ fuel ih =>
    cases o with
    | none => exact .pure twins ()
    | some node =>
      rw [Dialogue.collect, Dialogue.collect]
      split
      · exact collectEdges_agree offers twins both (fun o _ _ twins => ih twins o) node node.edges
      · exact remark_agree twins _ _ (ne_strayMessage (c := 'e') (by simp) (by decide))

variable (numbers : ∀ d d', R d d' → K d.gathering d'.gathering) (depth : host'.depth = host.depth)

include numbers depth

theorem gather_agree (twins : Twins host host' R scene other)
    (stands : other.dialogue.current = scene.dialogue.current) :
    Agree host host' R Happening.Asks (Dialogue.gather host) (Dialogue.gather host')
      scene other := by
  have both := numbers _ _ twins.related
  rw [Dialogue.gather, Dialogue.gather]
  refine .read ?_
  rw [stands, twins.graph, depth]
  cases scene.dialogue.current with
  | none => exact .pure twins ()
  | some line =>
    dsimp only
    split
    · refine (Agree.orFault twins _ _).bind fun root _ _ twins => ?_
      cases root with
      | none => exact .pure twins ()
      | some root => exact collect_agree offers twins both _ _
    · cases line.edge? 0 with
      | none => exact .pure twins ()
      | some e => exact offer_agree offers twins both e

variable (moves : ∀ d d' line, R d d' → R (d.moveTo line) (d'.moveTo line))

include moves

theorem setLine_agree (twins : Twins host host' R scene other) (line : Option Node)
    (quietly : Bool) :
    Agree host host' R (fun _ => True) (Dialogue.setLine host line quietly)
      (Dialogue.setLine host' line quietly) scene other := by
  have moved := twins.change (·.moveTo line) (·.moveTo line) (fun _ => ⟨rfl, rfl⟩) twins.graph
    twins.vars (moves _ _ line twins.related)
  have gathered := (gather_agree offers numbers depth moved rfl).mono fun _ _ => trivial
  rw [Dialogue.setLine, Dialogue.setLine]
  refine .change rfl (gathered.bind fun _ _ _ twins => ?_)
  cases quietly with
  | true => exact .pure twins ()
  | false =>
    have plain : ∀ name, (if line.isSome then Notice.line else .finished) ≠ .requested name := by
      intro name
      split <;> rintro ⟨⟩
    exact (announce_agree twins plain plain).mono fun _ _ => trivial

variable (sets : ∀ d d' name v, R d d' → R (d.put name v) (d'.put name v))
  (steps : host'.steps = host.steps)

include sets steps

theorem runTo_agree (twins : Twins host host' R scene other) (o : Option Node) (tellEnd : Bool) :
    Agree host host' R (fun _ => True) (Dialogue.runTo host o tellEnd)
      (Dialogue.runTo host' o tellEnd) scene other := by
  rw [Dialogue.runTo, Dialogue.runTo, steps]
  refine ((runOn_agree sets twins _ o).mono fun _ _ => trivial).bind fun stop _ _ twins => ?_
  cases stop with
  | none => exact setLine_agree offers numbers depth moves twins none _
  | some node =>
    dsimp only
    split
    · exact setLine_agree offers numbers depth moves twins (some node) false
    · exact (logAt_agree twins _ _ _).mono fun _ _ => trivial

theorem runHeader_agree (twins : Twins host host' R scene other) :
    Agree host host' R (fun _ => True) (Dialogue.runHeader host) (Dialogue.runHeader host')
      scene other := by
  rw [Dialogue.runHeader, Dialogue.runHeader]
  refine .read ?_
  rw [twins.graph]
  exact (Agree.orFault twins _ _).bind fun o _ _ twins =>
    runTo_agree offers numbers depth moves sets steps twins o false

/-- The header leaves the same variables wherever it runs. -/
theorem resetVariables_agree (attended : Attended host scene) (attended' : Attended host' other)
    (graph : other.dialogue.graph = scene.dialogue.graph)
    (related : R { scene.dialogue with vars := [] } { other.dialogue with vars := [] }) :
    Agree host host' R (fun _ => True) (Dialogue.resetVariables host)
      (Dialogue.resetVariables host') scene other := by
  have bare : Twins host host' R { scene with dialogue := { scene.dialogue with vars := [] } }
      { other with dialogue := { other.dialogue with vars := [] } } :=
    ⟨attended.of_same rfl rfl, attended'.of_same rfl rfl, graph, rfl, related⟩
  exact .change rfl (runHeader_agree offers numbers depth moves sets steps bare)

end Offering

end Colloquy
