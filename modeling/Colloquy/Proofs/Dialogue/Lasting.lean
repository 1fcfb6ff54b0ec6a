import Colloquy.Proofs.Dialogue.Comparing
import Colloquy.Proofs.Dialogue.Failures
/-!
# What calls keep

In an attended scene a call changes the variables only by setting some of them and by running the header
anew. What these two keep of the variables every call keeps, whether it returns or fails.
-/

namespace Colloquy

open Script.Direct (Variables)

variable {η δ : Type} {host : Host η δ} {scene after : Scene η δ} {g : Graph}

/-- Whatever is played in an attended scene keeps a property of the dialogue, also if it fails. -/
def Lasts (host : Host η δ) (I : Dialogue → Prop) {α : Type} (x : Play η δ α) : Prop :=
  ∀ scene, Attended host scene → I scene.dialogue →
    Yields x scene (fun _ after => Attended host after ∧ I after.dialogue)
      (fun _ after => Attended host after ∧ I after.dialogue)

/-- A dialogue on a graph whose variables have a property. -/
def On (g : Graph) (J : Variables → Prop) (d : Dialogue) : Prop :=
  d.graph = g ∧ J d.vars

namespace Lasts

variable {I : Dialogue → Prop} {α β : Type}

theorem pure (a : α) : Lasts host I (Pure.pure a) :=
  fun _ attended keeps => .of_ok rfl ⟨attended, keeps⟩

theorem fault (f : Fault) : Lasts host I (throw f : Play η δ α) :=
  fun _ attended keeps => .of_error rfl ⟨attended, keeps⟩

theorem bind {x : Play η δ α} {f : α → Play η δ β} (first : Lasts host I x)
    (later : ∀ a, Lasts host I (f a)) : Lasts host I (x >>= f) :=
  fun scene attended keeps => (first scene attended keeps).bind fun a after well =>
    later a after well.1 well.2

/-- What comes after something that is played only if a condition holds. -/
theorem optional {c : Prop} [Decidable c] {y : Play η δ Unit} {k : Unit → Play η δ β}
    (first : Lasts host I y) (later : Lasts host I (k ())) :
    Lasts host I (if c then y >>= k else k ()) := by
  split
  · exact first.bind fun _ => later
  · exact later

theorem dialogue : Lasts host I (Play.dialogue : Play η δ Dialogue) :=
  fun _ attended keeps => .of_ok rfl ⟨attended, keeps⟩

theorem log (level : Level) (message : String) :
    Lasts host I (Play.log level message : Play η δ Unit) :=
  fun _ attended keeps => .of_ok rfl ⟨attended.of_same rfl rfl, keeps⟩

theorem orFault {ε : Type} (fault : ε → Fault) (result : Except ε α) :
    Lasts host I (Play.orFault fault result : Play η δ α) := by
  cases result with
  | ok a => exact pure a
  | error e => exact Lasts.fault (fault e)

theorem change {f : Dialogue → Dialogue} (people : ∀ d, (f d).participants = d.participants)
    (keeps : ∀ d, I d → I (f d)) : Lasts host I (Play.changeDialogue f : Play η δ Unit) :=
  fun _ attended here => .of_ok rfl ⟨attended.of_same (people _) rfl, keeps _ here⟩

/-- What agrees with itself lasts. -/
theorem of_agree {P : Happening → Prop} {x : Play η δ α}
    (agrees : ∀ scene, Twins host host (fun d _ => I d) scene scene →
      Agree host host (fun d _ => I d) P x x scene scene) : Lasts host I x := by
  intro scene attended keeps
  have known {after : Scene η δ} (well : Attended host after ∧ ∃ _ : Dialogue, I after.dialogue) :
      Attended host after ∧ I after.dialogue := by
    obtain ⟨attended, _, keeps⟩ := well
    exact ⟨attended, keeps⟩
  exact (agrees scene (.self attended keeps)).yields.mono (fun _ _ => known) fun _ _ => known

end Lasts

section Simple

variable {I : Dialogue → Prop}

theorem announce_lasts {notice : Notice} (plain : ∀ name, notice ≠ .requested name) :
    Lasts host I (Dialogue.announce host notice) :=
  .of_agree fun _ twins => announce_agree twins plain plain

theorem logBadChoice_lasts (index : Int) :
    Lasts host I (Dialogue.logBadChoice index : Play η δ Unit) := by
  rw [Dialogue.logBadChoice]
  split
  · exact .bind (.fault _) fun _ => .bind .dialogue fun _ => .log _ _
  · exact .bind .dialogue fun _ => .log _ _

theorem startNode_lasts (label : Option String) :
    Lasts host I (Dialogue.startNode label : Play η δ (Option Node)) := by
  rw [Dialogue.startNode]
  refine .bind .dialogue fun d => .bind (.orFault _ _) fun first => ?_
  dsimp only
  split
  · exact .pure first
  · refine .bind (.orFault _ _) fun named => ?_
    cases named with
    | none => exact .bind (.log _ _) fun _ => .pure first
    | some n =>
      dsimp only
      split
      · exact .bind (.log _ _) fun _ => .pure first
      · exact .pure (some n)

end Simple

section Calls

variable {J : Variables → Prop}

theorem on_offering (d _d' : Dialogue) (k _k' : Nat) (e : Edge) (_ : True) (on : On g J d) :
    On g J (d.offer k e) := by
  obtain ⟨_, graph, vars⟩ := d.offer_same k e
  exact ⟨graph.trans on.1, vars ▸ on.2⟩

theorem on_moving (d _d' : Dialogue) (line : Option Node) (on : On g J d) :
    On g J (d.moveTo line) :=
  on

variable (sets : ∀ vars name v, J vars → J (setEntry vars name v))

include sets

theorem on_setting (d _d' : Dialogue) (name : String) (v : Value) (on : On g J d) :
    On g J (d.put name v) :=
  ⟨on.1, sets d.vars name v on.2⟩

theorem runTo_lasts (o : Option Node) (tellEnd : Bool) :
    Lasts host (On g J) (Dialogue.runTo host o tellEnd) :=
  .of_agree fun _ twins => runTo_agree on_offering (fun _ _ _ => trivial) rfl on_moving
    (on_setting sets) rfl twins o tellEnd

theorem runHeader_lasts : Lasts host (On g J) (Dialogue.runHeader host) :=
  .of_agree fun _ twins => runHeader_agree on_offering (fun _ _ _ => trivial) rfl on_moving
    (on_setting sets) rfl twins

theorem runToChoice_lasts (line : Node) :
    Lasts host (On g J) (Dialogue.runToChoice host line) := by
  rw [Dialogue.runToChoice]
  split
  · have moved : Lasts host (On g J) (Dialogue.next line) :=
      .of_agree (P := fun _ => True) fun _ twins => next_agree twins line
    have ran (o : Option Node) : Lasts host (On g J) (Dialogue.runOn host host.steps o) :=
      .of_agree fun _ twins => runOn_agree (on_setting sets) twins host.steps o
    exact moved.bind fun o => (ran o).bind fun _ => .pure ()
  · exact .pure ()

theorem choose_lasts (index : Int) : Lasts host (On g J) (Dialogue.choose host index) := by
  have went (e : Edge) : Lasts host (On g J) (do
      Dialogue.runTo host (← Dialogue.target e) true; Dialogue.isRunning) := by
    have led : Lasts host (On g J) (Dialogue.target e) :=
      .of_agree (P := fun _ => True) fun _ twins => target_agree twins e
    exact led.bind fun o => (runTo_lasts sets o true).bind fun _ => .bind .dialogue fun _ => .pure _
  rw [Dialogue.choose]
  refine .bind .dialogue fun d => ?_
  cases d.choice? index with
  | none => exact .bind (logBadChoice_lasts index) fun _ => .pure false
  | some e =>
    dsimp only
    split
    · have took : Lasts host (On g J) (Play.changeDialogue (·.take e.textId) : Play η δ Unit) := by
        refine .change (fun d => ?_) fun d on => ?_
        · unfold Dialogue.take
          split <;> rfl
        · unfold Dialogue.take
          split <;> exact on
      refine took.bind fun _ => (announce_lasts (by rintro _ ⟨⟩)).bind fun _ => (announce_lasts (by rintro _ ⟨⟩)).bind fun _ => ?_
      refine .bind .dialogue fun d => ?_
      cases d.current with
      | none => exact .bind (.fault _) fun _ => went e
      | some line => exact (runToChoice_lasts sets line).bind fun _ => went e
    · exact (announce_lasts (by rintro _ ⟨⟩)).bind fun _ => went e

variable (renews : Lasts host (On g J) (Dialogue.resetVariables host))

include renews

omit sets in
theorem reset_lasts (vars position taken : Bool) :
    Lasts host (On g J) (Dialogue.reset host vars position taken) := by
  have left : Lasts host (On g J) (Dialogue.setLine host none true) :=
    .of_agree fun _ twins => setLine_agree on_offering (fun _ _ _ => trivial) rfl on_moving twins none
      true
  have forgot : Lasts host (On g J)
      (Play.changeDialogue fun d => { d with taken := [] } : Play η δ Unit) :=
    .change (fun _ => rfl) fun _ on => on
  rw [Dialogue.reset]
  refine .optional renews (.optional left ?_)
  split
  · exact forgot
  · exact .pure ()

theorem restart_lasts (resetFirst : Bool) (label : Option String) (rerunHeader : Bool) :
    Lasts host (On g J) (Dialogue.restart host resetFirst label rerunHeader) := by
  rw [Dialogue.restart]
  refine .optional (reset_lasts renews true true true) ((announce_lasts (by rintro _ ⟨⟩)).bind fun _ => ?_)
  refine .optional (runHeader_lasts sets) ?_
  exact (startNode_lasts label).bind fun o => runTo_lasts sets o true

/-- A call that does not show or convert variables keeps what setting variables and running the
header keep. -/
theorem Call.lasts {call : Call} (acts : call.reads = false) :
    Lasts host (On g J) (call.play host) := by
  have chose (index : Int) := @choose_lasts _ _ host g J sets index
  cases call with
  | start label =>
    change Lasts host _ (Dialogue.start host label)
    rw [Dialogue.start]
    refine .bind .dialogue fun d => ?_
    split
    · exact restart_lasts sets renews false label false
    · exact .pure ()
  | restart resetFirst label rerunHeader =>
    exact restart_lasts sets renews resetFirst label rerunHeader
  | reset vars position taken => exact reset_lasts renews vars position taken
  | choose index => exact (chose index).bind fun _ => .pure ()
  | proceed =>
    refine .bind (.bind .dialogue fun d => ?_) fun _ => .pure ()
    split
    · exact chose 0
    · exact .bind .dialogue fun _ => .pure _
  | setVariable name v =>
    exact .of_agree fun _ twins => assign_agree (on_setting sets) twins name v false
  | _ => cases acts

end Calls

end Colloquy
