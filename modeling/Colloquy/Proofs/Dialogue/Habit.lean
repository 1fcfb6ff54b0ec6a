import Colloquy.Dialogue.Flow
import Colloquy.Dialogue.Wording
/-!
# Habits

A habit is a property of what is played that one thing played after another has if both have it.
Whatever a dialogue does comes down to reading and changing the dialogue, logging, telling a
participant and publishing an event. If these have a habit then all that a dialogue does has it.

Some properties are had by fewer of these steps: what is asked for in passing need not be what is
announced, and arriving at a line may have a property that offering its choices, one by one, has not.
So there are three kinds of habit, each with the steps that it needs.
-/

namespace Colloquy

variable {η δ : Type}

/-- A property that is kept in playing one thing after another, and that the steps have which tell
nobody and change nothing. -/
structure Chained (P : {α : Type} → Play η δ α → Prop) : Prop where
  pure : ∀ {α : Type} (a : α), P (Pure.pure a : Play η δ α)
  fault : ∀ {α : Type} (f : Fault), P (throw f : Play η δ α)
  bind : ∀ {α β : Type} {x : Play η δ α} {k : α → Play η δ β}, P x → (∀ a, P (k a)) → P (x >>= k)
  dialogue : P (Play.dialogue : Play η δ Dialogue)
  log : ∀ (level : Level) (message : String), P (Play.log level message : Play η δ Unit)

/-- Such a property that asking for a variable has: all that is evaluated has it. -/
structure Inquiry (host : Host η δ) (P : {α : Type} → Play η δ α → Prop) : Prop extends Chained P where
  request : ∀ name, P (Dialogue.request host name)

/-- A change of variables and of the choices taken alone. -/
def Dialogue.Sets (f : Dialogue → Dialogue) : Prop :=
  ∀ d, f d = { d with vars := (f d).vars, taken := (f d).taken }

/-- Such a property that announcing, setting variables and arriving at a line have: whatever a dialogue
does on its graph has it. -/
structure Conduct (host : Host η δ) (P : {α : Type} → Play η δ α → Prop) : Prop
    extends Inquiry host P where
  announce : ∀ notice, P (Dialogue.announce host notice)
  settle : ∀ f : Dialogue → Dialogue, Dialogue.Sets f → P (Play.changeDialogue f : Play η δ Unit)
  arrive : ∀ line, P (do Play.changeDialogue (·.moveTo line); Dialogue.gather host)

/-- A property that is kept in playing one thing after another, and that the steps which a dialogue
is made of have. -/
structure Habit (host : Host η δ) (P : {α : Type} → Play η δ α → Prop) : Prop where
  pure : ∀ {α : Type} (a : α), P (Pure.pure a : Play η δ α)
  fault : ∀ {α : Type} (f : Fault), P (throw f : Play η δ α)
  bind : ∀ {α β : Type} {x : Play η δ α} {k : α → Play η δ β}, P x → (∀ a, P (k a)) → P (x >>= k)
  dialogue : P (Play.dialogue : Play η δ Dialogue)
  change : ∀ f : Dialogue → Dialogue, P (Play.changeDialogue f : Play η δ Unit)
  log : ∀ (level : Level) (message : String), P (Play.log level message : Play η δ Unit)
  tell : ∀ (notice : Notice) (p : Participant), P (Dialogue.tell host notice p)
  publish : ∀ e : Event, P (Bus.publish host e)

/-- Collecting the choices of the line on which a dialogue stands. -/
def Dialogue.gatherOf (host : Host η δ) (d : Dialogue) : Play η δ Unit := do
  match d.current with
  | none => return ()
  | some line =>
    if line.hasChoices then
      match ← Play.orFault .lost (d.graph.nextChoice line) with
      | none => return ()
      | some root => Dialogue.collect host d.gathering host.depth (some root)
    else
      match line.edge? 0 with
      | none => return ()
      | some edge => Play.changeDialogue (·.offer d.gathering edge)

variable {host : Host η δ} {P : {α : Type} → Play η δ α → Prop} {α β : Type}

namespace Chained

/-- Something that is played only if a condition holds. -/
theorem optional (chained : Chained P) {c : Prop} [Decidable c] {y : Play η δ Unit}
    {k : Unit → Play η δ β} (first : P y) (later : P (k ())) :
    P (if c then y >>= k else k ()) := by
  split
  · exact chained.bind first fun _ => later
  · exact later

theorem orFault (chained : Chained P) {ε : Type} (fault : ε → Fault) (result : Except ε α) :
    P (Play.orFault fault result : Play η δ α) := by
  cases result with
  | ok a => exact chained.pure a
  | error e => exact chained.fault (fault e)

theorem forM (chained : Chained P) {x : α → Play η δ Unit} (each : ∀ a, P (x a)) (as : List α) :
    P (as.forM x) := by
  induction as with
  | nil => exact chained.pure ()
  | cons a as ih => exact chained.bind (each a) fun _ => ih

theorem mapM (chained : Chained P) {x : α → Play η δ β} (each : ∀ a, P (x a)) (as : List α) :
    P (as.mapM x) := by
  induction as with
  | nil => exact chained.pure []
  | cons a as ih =>
    rw [List.mapM_cons]
    exact chained.bind (each a) fun b => chained.bind ih fun bs => chained.pure (b :: bs)

theorem logAt (chained : Chained P) (level : Level) (node : Node) (message : String) :
    P (Dialogue.logAt level node message : Play η δ Unit) :=
  chained.bind chained.dialogue fun _ => chained.log _ _

theorem target (chained : Chained P) (edge : Edge) :
    P (Dialogue.target edge : Play η δ (Option Node)) :=
  chained.bind chained.dialogue fun _ => chained.orFault _ _

theorem next (chained : Chained P) (node : Node) :
    P (Dialogue.next node : Play η δ (Option Node)) :=
  chained.bind chained.dialogue fun _ => chained.orFault _ _

theorem startNode (chained : Chained P) (label : Option String) :
    P (Dialogue.startNode label : Play η δ (Option Node)) := by
  rw [Dialogue.startNode]
  refine chained.bind chained.dialogue fun d => chained.bind (chained.orFault _ _) fun first => ?_
  dsimp only
  split
  · exact chained.pure first
  · refine chained.bind (chained.orFault _ _) fun named => ?_
    split
    · exact chained.bind (chained.log _ _) fun _ => chained.pure first
    · split
      · exact chained.bind (chained.log _ _) fun _ => chained.pure first
      · exact chained.pure _

theorem isRunning (chained : Chained P) : P (Dialogue.isRunning : Play η δ Bool) :=
  chained.bind chained.dialogue fun _ => chained.pure _

theorem logBadChoice (chained : Chained P) (index : Int) :
    P (Dialogue.logBadChoice index : Play η δ Unit) := by
  rw [Dialogue.logBadChoice]
  exact chained.optional (chained.fault _) (chained.bind chained.dialogue fun _ => chained.log _ _)

theorem speakerName (chained : Chained P) : P (Dialogue.speakerName : Play η δ String) := by
  refine chained.bind chained.dialogue fun d => ?_
  dsimp only
  split
  · exact chained.pure _
  · exact chained.pure _
  · split
    · exact chained.bind (chained.log _ _) fun _ => chained.pure _
    · exact chained.fault _

theorem valueAs (chained : Chained P) (kind : Kind) (name : String) :
    P (Dialogue.valueAs kind name : Play η δ Value) := by
  refine chained.bind chained.dialogue fun d => ?_
  split
  · exact chained.pure _
  · split
    · exact chained.pure _
    · split
      · exact chained.orFault _ _
      · split
        · exact chained.bind (chained.log _ _) fun _ => chained.pure _
        · exact chained.fault _

/-! ### Telling -/

theorem tellAll (chained : Chained P) {notice : Notice} (tell : ∀ p, P (Dialogue.tell host notice p)) :
    P (Dialogue.tellAll host notice) :=
  chained.bind chained.dialogue fun d => chained.forM tell d.participants

theorem publishes (chained : Chained P) {notice : Notice}
    (publish : P (Bus.publish host notice.toEvent)) : P (Dialogue.publish host notice) :=
  chained.bind publish fun _ => chained.pure ()

theorem announce (chained : Chained P) {notice : Notice} (tell : ∀ p, P (Dialogue.tell host notice p))
    (publish : P (Bus.publish host notice.toEvent)) : P (Dialogue.announce host notice) :=
  chained.bind (chained.tellAll tell) fun _ => chained.publishes publish

theorem request (chained : Chained P) {name : String}
    (tell : ∀ p, P (Dialogue.tell host (.requested name) p))
    (publish : P (Bus.publish host (Notice.requested name).toEvent)) : P (Dialogue.request host name) :=
  chained.bind (chained.publishes publish) fun _ => chained.tellAll tell

end Chained

namespace Inquiry

theorem evaluate (inquiry : Inquiry host P) (e : Expression) (node : Node) :
    P (Dialogue.evaluate host e node) := by
  refine inquiry.bind (inquiry.forM inquiry.request e.names) fun _ => inquiry.bind inquiry.dialogue fun d => ?_
  split
  · exact inquiry.pure _
  · exact inquiry.bind (inquiry.logAt _ _ _) fun _ => inquiry.pure none
  · exact inquiry.fault _

theorem holds (inquiry : Inquiry host P) (node : Node) (condition : Option Expression) :
    P (Dialogue.holds host node condition) := by
  cases condition with
  | none => exact inquiry.pure false
  | some e => exact inquiry.bind (inquiry.evaluate e node) fun _ => inquiry.pure _

theorem takeBranch (inquiry : Inquiry host P) (node : Node) (edges : List Edge) :
    P (Dialogue.takeBranch host node edges) := by
  induction edges with
  | nil => exact inquiry.pure none
  | cons edge rest ih =>
    refine inquiry.bind (inquiry.holds node edge.condition) fun held => ?_
    split
    · exact inquiry.target edge
    · exact ih

theorem collectEdges (inquiry : Inquiry host P) {gathering : Nat} {enter : Option Node → Play η δ Unit}
    (offers : ∀ e, P (Play.changeDialogue (·.offer gathering e) : Play η δ Unit))
    (enters : ∀ node, P (enter node)) (node : Node) (edges : List Edge) :
    P (Dialogue.collectEdges host gathering enter node edges) := by
  induction edges with
  | nil => exact inquiry.pure ()
  | cons edge rest ih =>
    rw [Dialogue.collectEdges]
    split
    · exact inquiry.bind (offers edge) fun _ => ih
    · refine inquiry.bind (inquiry.holds node edge.condition) fun held => ?_
      split
      · exact inquiry.bind (inquiry.target edge) enters
      · exact ih
    · exact inquiry.bind (inquiry.target edge) fun o => inquiry.bind (enters o) fun _ => ih
    · exact inquiry.bind (inquiry.logAt _ _ _) fun _ => ih

theorem collect (inquiry : Inquiry host P) {gathering : Nat}
    (offers : ∀ e, P (Play.changeDialogue (·.offer gathering e) : Play η δ Unit)) (fuel : Nat)
    (node : Option Node) : P (Dialogue.collect host gathering fuel node) := by
  induction fuel generalizing node with
  | zero =>
    rw [Dialogue.collect.eq_def]
    split
    · exact inquiry.pure ()
    · split
      · exact inquiry.fault .tooDeep
      · exact inquiry.logAt _ _ _
  | succ fuel ih =>
    rw [Dialogue.collect.eq_def]
    split
    · exact inquiry.pure ()
    · split
      · exact inquiry.collectEdges offers ih _ _
      · exact inquiry.logAt _ _ _

/-- Collecting on behalf of a dialogue offers with the number of its collection. -/
theorem gatherOf (inquiry : Inquiry host P) (d : Dialogue)
    (offers : ∀ e, P (Play.changeDialogue (·.offer d.gathering e) : Play η δ Unit)) :
    P (Dialogue.gatherOf host d) := by
  rw [Dialogue.gatherOf]
  split
  · exact inquiry.pure ()
  · split
    · refine inquiry.bind (inquiry.orFault _ _) fun o => ?_
      split
      · exact inquiry.pure ()
      · exact inquiry.collect offers _ _
    · split
      · exact inquiry.pure ()
      · exact offers _

theorem gather (inquiry : Inquiry host P)
    (offers : ∀ k e, P (Play.changeDialogue (·.offer k e) : Play η δ Unit)) :
    P (Dialogue.gather host) :=
  inquiry.bind inquiry.dialogue fun d => inquiry.gatherOf d (offers d.gathering)

theorem resolve (inquiry : Inquiry host P) (text : String) (params : List String) :
    P (Dialogue.resolve host text params) := by
  rw [Dialogue.resolve]
  split
  · exact inquiry.pure text
  · refine inquiry.bind (inquiry.forM inquiry.request params) fun _ => inquiry.bind inquiry.dialogue fun d => ?_
    dsimp only
    split
    · exact inquiry.pure _
    · exact inquiry.fault _

theorem lineText (inquiry : Inquiry host P) : P (Dialogue.lineText host) := by
  refine inquiry.bind inquiry.dialogue fun d => ?_
  split
  · exact inquiry.pure ""
  · exact inquiry.resolve _ _

theorem choiceText (inquiry : Inquiry host P) (index : Int) : P (Dialogue.choiceText host index) := by
  refine inquiry.bind inquiry.dialogue fun d => ?_
  split
  · exact inquiry.bind (inquiry.logBadChoice index) fun _ => inquiry.pure ""
  · exact inquiry.resolve _ _

end Inquiry

namespace Conduct

theorem assign (conduct : Conduct host P) (name : String) (value : Value) (fromScript : Bool) :
    P (Dialogue.assign host name value fromScript) := by
  refine conduct.bind conduct.dialogue fun d => ?_
  split
  · exact conduct.pure ()
  · exact conduct.bind (conduct.settle _ fun _ => rfl) fun _ => conduct.announce _

theorem runAssignment (conduct : Conduct host P) (node : Node) :
    P (Dialogue.runAssignment host node) := by
  rw [Dialogue.runAssignment]
  split
  · exact conduct.pure ()
  next e _ =>
    refine conduct.bind (conduct.evaluate e node) fun v => ?_
    split
    · exact conduct.assign _ _ _
    · exact conduct.logAt _ _ _

theorem runEvent (conduct : Conduct host P) (node : Node) : P (Dialogue.runEvent host node) :=
  conduct.bind (conduct.mapM (fun e => conduct.evaluate e node) node.eventArgs) fun _ => conduct.announce _

theorem runNode (conduct : Conduct host P) (node : Node) : P (Dialogue.runNode host node) := by
  rw [Dialogue.runNode]
  split
  · exact conduct.takeBranch node node.edges
  · exact conduct.bind (conduct.runAssignment node) fun _ => conduct.next node
  · exact conduct.bind (conduct.runEvent node) fun _ => conduct.next node
  · exact conduct.pure none

theorem runOn (conduct : Conduct host P) (fuel : Nat) (node : Option Node) :
    P (Dialogue.runOn host fuel node) := by
  induction fuel generalizing node with
  | zero =>
    rw [Dialogue.runOn.eq_def]
    split
    · exact conduct.pure none
    · split
      · exact conduct.fault .endless
      · exact conduct.pure _
  | succ fuel ih =>
    rw [Dialogue.runOn.eq_def]
    split
    · exact conduct.pure none
    · split
      · exact conduct.bind (conduct.runNode _) ih
      · exact conduct.pure _

theorem setLine (conduct : Conduct host P) (line : Option Node) (quietly : Bool) :
    P (Dialogue.setLine host line quietly) := by
  have split : Dialogue.setLine host line quietly = (do
      (do Play.changeDialogue (·.moveTo line); Dialogue.gather host)
      unless quietly do
        Dialogue.announce host (if line.isSome then .line else .finished)) := by
    rw [bind_assoc]
    rfl
  rw [split]
  refine conduct.bind (conduct.arrive line) fun _ => ?_
  split
  · exact conduct.pure ()
  · exact conduct.announce _

theorem runTo (conduct : Conduct host P) (node : Option Node) (tellEnd : Bool) :
    P (Dialogue.runTo host node tellEnd) := by
  refine conduct.bind (conduct.runOn host.steps node) fun o => ?_
  split
  · exact conduct.setLine none _
  · split
    · exact conduct.setLine _ false
    · exact conduct.logAt _ _ _

theorem runHeader (conduct : Conduct host P) : P (Dialogue.runHeader host) :=
  conduct.bind conduct.dialogue fun _ => conduct.bind (conduct.orFault _ _) fun o => conduct.runTo o false

theorem resetVariables (conduct : Conduct host P) : P (Dialogue.resetVariables host) :=
  conduct.bind (conduct.settle _ fun _ => rfl) fun _ => conduct.runHeader

theorem reset (conduct : Conduct host P) (vars position taken : Bool) :
    P (Dialogue.reset host vars position taken) := by
  rw [Dialogue.reset]
  refine conduct.optional conduct.resetVariables (conduct.optional (conduct.setLine none true) ?_)
  split
  · exact conduct.settle _ fun _ => rfl
  · exact conduct.pure ()

theorem restart (conduct : Conduct host P) (resetFirst : Bool) (label : Option String)
    (rerunHeader : Bool) : P (Dialogue.restart host resetFirst label rerunHeader) := by
  rw [Dialogue.restart]
  refine conduct.optional (conduct.reset true true true) (conduct.bind (conduct.announce _) fun _ => ?_)
  refine conduct.optional conduct.runHeader (conduct.bind (conduct.startNode label) fun o => ?_)
  exact conduct.runTo o true

theorem start (conduct : Conduct host P) (label : Option String) : P (Dialogue.start host label) := by
  refine conduct.bind conduct.dialogue fun d => ?_
  split
  · exact conduct.restart false label false
  · exact conduct.pure ()

theorem runToChoice (conduct : Conduct host P) (line : Node) : P (Dialogue.runToChoice host line) := by
  rw [Dialogue.runToChoice]
  split
  · exact conduct.bind (conduct.next line) fun o => conduct.bind (conduct.runOn host.steps o) fun _ =>
      conduct.pure ()
  · exact conduct.pure ()

theorem choose (conduct : Conduct host P) (index : Int) : P (Dialogue.choose host index) := by
  have went (edge : Edge) : P (do
      Dialogue.runTo host (← Dialogue.target edge) true; Dialogue.isRunning) :=
    conduct.bind (conduct.target edge) fun o => conduct.bind (conduct.runTo o true) fun _ => conduct.isRunning
  have takes (textId : String) : Dialogue.Sets (·.take textId) := by
    intro d
    dsimp only [Dialogue.take]
    split <;> rfl
  rw [Dialogue.choose]
  refine conduct.bind conduct.dialogue fun d => ?_
  split
  · exact conduct.bind (conduct.logBadChoice index) fun _ => conduct.pure false
  next edge _ =>
    dsimp only
    split
    · refine conduct.bind (conduct.settle _ (takes _)) fun _ => conduct.bind (conduct.announce _) fun _ =>
        conduct.bind (conduct.announce _) fun _ => conduct.bind conduct.dialogue fun d => ?_
      split
      · exact conduct.bind (conduct.fault _) fun _ => went edge
      · exact conduct.bind (conduct.runToChoice _) fun _ => went edge
    · exact conduct.bind (conduct.announce _) fun _ => went edge

theorem proceed (conduct : Conduct host P) : P (Dialogue.proceed host) := by
  refine conduct.bind conduct.dialogue fun d => ?_
  split
  · exact conduct.choose 0
  · exact conduct.isRunning

theorem setVariable (conduct : Conduct host P) (name : String) (d : Datum) :
    P (Dialogue.setVariable host name d) := by
  rw [Dialogue.setVariable]
  split
  · exact conduct.fault _
  · exact conduct.assign _ _ _

theorem restore (conduct : Conduct host P) (s : Snapshot) : P (Dialogue.restore host s) := by
  rw [Dialogue.restore]
  refine conduct.bind conduct.resetVariables fun _ => conduct.bind (conduct.orFault _ _) fun values =>
    conduct.bind (conduct.settle _ fun _ => rfl) fun _ => conduct.bind conduct.dialogue fun d => ?_
  exact conduct.optional (conduct.log _ _) (conduct.setLine _ true)

end Conduct

namespace Habit

theorem chained (habit : Habit host P) : Chained P :=
  ⟨habit.pure, habit.fault, habit.bind, habit.dialogue, habit.log⟩

theorem inquiry (habit : Habit host P) : Inquiry host P :=
  ⟨habit.chained, fun name =>
    habit.chained.request (habit.tell (.requested name)) (habit.publish _)⟩

theorem conduct (habit : Habit host P) : Conduct host P where
  toInquiry := habit.inquiry
  announce notice := habit.chained.announce (habit.tell notice) (habit.publish _)
  settle f _ := habit.change f
  arrive _ := habit.bind (habit.change _) fun _ => habit.inquiry.gather fun _ _ => habit.change _

theorem attachTo (habit : Habit host P) (g : Graph) : P (Dialogue.attachTo host g) :=
  habit.bind (habit.change _) fun _ => habit.conduct.resetVariables

theorem paramsUsed (habit : Habit host P) : P (Dialogue.paramsUsed : Play η δ (List String)) :=
  habit.bind habit.dialogue fun _ => habit.bind (habit.change _) fun _ => habit.pure _

end Habit

end Colloquy
