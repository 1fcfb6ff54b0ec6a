import Colloquy.Cast.Performance
import Colloquy.Proofs.Bus.Using
import Colloquy.Proofs.Dialogue.Habit
/-!
# Casts are fair

Whatever the members of a cast do when they are called, they use the bus by its calls alone. So what
holds of fair hosts holds of every cast.
-/

namespace Colloquy

open Bus (Mannerly Fair Uses)

variable {η δ α β : Type} {host : Host η δ}

/-! ### What a dialogue does -/

/-- If participants use the bus by its calls alone, so does all that a dialogue does. -/
theorem mannerly_habit (reacts : ∀ key notice, Mannerly host.knows (host.react key notice)) :
    Habit host (Mannerly host.knows) where
  pure := Mannerly.pure
  fault := Mannerly.fault
  bind := Mannerly.bind
  dialogue := .of_elsewhere (fun _ => rfl) fun _ => rfl
  change _ := .of_elsewhere (fun _ => rfl) fun _ => rfl
  log _ _ := .of_elsewhere (fun _ => rfl) fun _ => List.filterMap_append.trans (List.append_nil _)
  tell notice p := by
    refine Mannerly.bind (.of_elsewhere (fun _ => rfl) fun _ => rfl) fun (d : Dialogue) => ?_
    refine Mannerly.bind (.of_elsewhere (fun _ => rfl) fun _ => ?_) fun _ => reacts p.key notice
    exact List.filterMap_append.trans (List.append_nil _)
  publish e := by
    intro scene busy
    rw [Play.leaves, Bus.publish_delivering busy]
    exact ⟨[.publish e], Uses.nothing.call (.publish e)⟩

/-! ### What members do -/

namespace Cast

variable {host : Host Cast Deed} {called : Option Publication}

theorem cast_mannerly : Mannerly knows cast :=
  .of_elsewhere (fun _ => rfl) fun _ => rfl

theorem changeHost_mannerly (f : Cast → Cast) :
    Mannerly knows (Play.changeHost f : Play Unit) :=
  .of_elsewhere (fun _ => rfl) fun _ => rfl

theorem present_mannerly (fault : Fault) (o : Option α) : Mannerly knows (present fault o) := by
  cases o with
  | none => exact .fault fault
  | some a => exact .pure a

theorem join_mannerly (r : Role Action) : Mannerly knows (join r) :=
  cast_mannerly.bind fun _ => (changeHost_mannerly _).bind fun _ => .pure _

theorem listenerOf_mannerly (name : String) : Mannerly knows (listenerOf name) :=
  cast_mannerly.bind fun _ => present_mannerly _ _

theorem subscribe_mannerly (e : Enrolment Action) : Mannerly knows (subscribe e) := by
  refine cast_mannerly.bind fun c => (changeHost_mannerly _).bind fun _ scene _ => ?_
  exact ⟨[.subscribe e.topic (c.hearer e).1 e.priority e.oneShot e.weak], Uses.nothing.call _⟩

theorem unsubscribe_mannerly (topic : Topic) (listener : Nat) : Mannerly knows (do
    let known ← known
    Play.changeBus fun b => b.unsubscribe known topic listener
    return .done : Play Reply) :=
  fun _ _ => ⟨[.unsubscribe topic listener], Uses.nothing.call (.unsubscribe topic listener)⟩

theorem needShown_mannerly (isShowable : Bool) : Mannerly knows (needShown isShowable) := by
  rw [needShown]
  split
  · exact .pure ()
  · exact .fault _

section

variable (knows_eq : host.knows = knows)
  (reacts : ∀ key notice, Mannerly knows (host.react key notice))

include knows_eq reacts

theorem performAny_mannerly (a : Action) : Mannerly knows (performAny host called a) := by
  have habit : Habit host (Mannerly knows) := knows_eq ▸ mannerly_habit (knows_eq ▸ reacts)
  have conduct := habit.conduct
  -- an action that ends with a reply made from what it comes to
  have replies {α : Type} {x : Play α} (first : Mannerly knows x) (reply : α → Reply) :
      Mannerly knows (do return reply (← x)) :=
    first.bind fun a => .pure (reply a)
  have looks (reply : Dialogue → Reply) :
      Mannerly knows (do return reply (← Play.dialogue) : Play Reply) :=
    replies habit.dialogue reply
  cases a with
  | subscribe e => exact (subscribe_mannerly e).bind fun _ => .pure _
  | unsubscribe topic name =>
    exact (listenerOf_mannerly name).bind fun key => unsubscribe_mannerly topic key
  | hasSubscribers topic => exact .of_elsewhere (fun _ => rfl) fun _ => rfl
  | clear topic => exact fun _ _ => ⟨[.clear topic], Uses.nothing.call (.clear topic)⟩
  | drop name => exact (changeHost_mannerly _).bind fun _ => .pure _
  | publish e =>
    have publishes : Mannerly knows (do
        let held ← Bus.publish host e
        return .flag (held.elim false (← Play.bus).isConsumed) : Play Reply) :=
      (habit.publish e).bind fun _ => Mannerly.bind (.of_elsewhere (fun _ => rfl) fun _ => rfl)
        fun _ => .pure _
    rw [performAny]
    split
    · exact publishes
    · exact Mannerly.bind (.fault .reserved) fun _ => publishes
  | consume =>
    refine (present_mannerly _ called).bind fun p => Mannerly.bind ?_ fun _ => .pure _
    exact fun _ _ => ⟨[.consume p.number], Uses.nothing.call (.consume p.number)⟩
  | particular key otherwise =>
    exact replies ((present_mannerly _ called).bind fun _ => .pure _) _
  | neededParticular key =>
    refine Mannerly.bind ((present_mannerly _ called).bind fun _ => .pure _) fun o => ?_
    exact replies (present_mannerly _ o) _
  | fail fault => exact .fault fault
  | attach k =>
    refine cast_mannerly.bind fun c => (present_mannerly _ _).bind fun g => ?_
    exact (habit.attachTo g).bind fun _ => .pure _
  | start label => exact (conduct.start label).bind fun _ => .pure _
  | restart reset label rerunHeader =>
    exact (conduct.restart reset label rerunHeader).bind fun _ => .pure _
  | reset vars position taken => exact (conduct.reset vars position taken).bind fun _ => .pure _
  | proceed => exact replies conduct.proceed _
  | choose index => exact replies (conduct.choose index) _
  | runTo node tellEnd =>
    refine habit.dialogue.bind fun d => (conduct.orFault _ _).bind fun o => ?_
    exact (conduct.runTo o tellEnd).bind fun _ => .pure _
  | text => exact replies conduct.lineText _
  | speakerName => exact replies conduct.speakerName _
  | choiceText index => exact replies (conduct.choiceText index) _
  | choiceTexts =>
    refine habit.dialogue.bind fun d => ?_
    exact replies (conduct.mapM (fun (k : Nat) => conduct.choiceText k) _) _
  | params => exact replies habit.paramsUsed _
  | valueAs kind name => exact replies (conduct.valueAs kind name) _
  | setVariable name value => exact (conduct.setVariable name value).bind fun _ => .pure _
  | unsetVariable name => exact (habit.change _).bind fun _ => .pure _
  | save => exact habit.dialogue.bind fun d => (changeHost_mannerly _).bind fun _ => .pure _
  | restore k =>
    refine cast_mannerly.bind fun c => (present_mannerly _ _).bind fun s => ?_
    exact (conduct.restore s).bind fun _ => .pure _
  | reload k =>
    refine cast_mannerly.bind fun c => (present_mannerly _ _).bind fun s => ?_
    exact (conduct.orFault _ _).bind fun s => (conduct.restore s).bind fun _ => .pure _
  | restoreText text =>
    exact (conduct.orFault _ _).bind fun s => (conduct.restore s).bind fun _ => .pure _
  | addParticipant r =>
    exact (join_mannerly r).bind fun p => (habit.change _).bind fun _ => .pure _
  | removeParticipant name =>
    refine cast_mannerly.bind fun c => (present_mannerly _ _).bind fun key => ?_
    exact (habit.change _).bind fun _ => .pure _
  | setParticipants rs =>
    refine (conduct.mapM join_mannerly rs).bind fun ps => ?_
    exact (habit.change _).bind fun _ => .pure _
  | participants =>
    exact replies (cast_mannerly.bind fun c => habit.dialogue.bind fun d => .pure _) _
  | isEnded => exact looks _
  | speaker => exact looks _
  | choiceCount => exact looks _
  | hasTaken index => exact looks _
  | name => exact looks _
  | value name => exact looks _

theorem performAll_mannerly (actions : List Action) :
    Mannerly knows (performAll host called actions) := by
  have noted (d : Deed) : Mannerly knows (Play.note (.deed d) : Play Unit) :=
    .of_elsewhere (fun _ => rfl) fun _ => List.filterMap_append.trans (List.append_nil _)
  have performed (a : Action) : Mannerly knows (perform host called a) := by
    rw [perform]
    refine Mannerly.bind (.of_elsewhere (fun _ => rfl) fun _ => rfl) fun held => ?_
    split
    · exact .fault .absent
    · exact performAny_mannerly knows_eq reacts a
  have habit : Habit host (Mannerly knows) := knows_eq ▸ mannerly_habit (knows_eq ▸ reacts)
  refine habit.chained.forM (fun a => ?_) actions
  exact (performed a).bind fun reply => (needShown_mannerly _).bind fun _ => noted ⟨a, reply⟩

theorem react_mannerly (key : Nat) (notice : Notice) : Mannerly knows (react host key notice) := by
  have used (speaker : String) (rules : List (Rule Action × Nat)) :
      Mannerly knows (useRules host key notice speaker rules) := by
    induction rules with
    | nil => exact .pure ()
    | cons r rest ih =>
      refine cast_mannerly.bind fun c => ?_
      dsimp only
      split
      · exact (changeHost_mannerly _).bind fun _ =>
          (performAll_mannerly knows_eq reacts _).bind fun _ => ih
      · exact ih
  refine cast_mannerly.bind fun c => ?_
  split
  · exact .pure ()
  · split
    · exact .pure ()
    · refine (needShown_mannerly _).bind fun _ => ?_
      exact Mannerly.bind (.of_elsewhere (fun _ => rfl) fun _ => rfl) fun _ => used _ _

theorem listen_mannerly (key : Nat) (p : Publication) : Mannerly knows (listen host key p) := by
  refine (needShown_mannerly _).bind fun _ => cast_mannerly.bind fun c => ?_
  split
  · exact .pure ()
  · split
    · exact (changeHost_mannerly _).bind fun _ => performAll_mannerly knows_eq reacts _
    · exact .pure ()

end

/-- The members of a cast use the bus by its calls alone, however deep they call each other. -/
theorem hostOf_mannerly (fuel : Nat) : (hostOf fuel).knows = knows
    ∧ (∀ key notice, Mannerly knows ((hostOf fuel).react key notice))
    ∧ ∀ key p, Mannerly knows ((hostOf fuel).listen key p) := by
  induction fuel with
  | zero => exact ⟨rfl, fun _ _ => .fault _, fun _ _ => .fault _⟩
  | succ fuel ih =>
    obtain ⟨knows_eq, reacts, _⟩ := ih
    exact ⟨knows_eq, react_mannerly knows_eq reacts, listen_mannerly knows_eq reacts⟩

theorem hostOf_fair (fuel : Nat) : Fair (hostOf fuel) := by
  obtain ⟨knows_eq, _, listens⟩ := hostOf_mannerly fuel
  intro key p
  rw [knows_eq]
  exact listens key p

end Cast

end Colloquy
