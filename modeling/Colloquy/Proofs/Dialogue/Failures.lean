import Colloquy.Proofs.Dialogue.Calls
import Colloquy.Proofs.Expression.Completeness
/-!
# Why calls fail

Every call of a dialogue that fails does so for one of a few causes: an expression of the script
that is not complete, a number that is too large to be calculated with, shown or converted, choices
that are nested too deep, or a run without an end. An expression that is refused makes no call fail.
-/

namespace Colloquy

variable {η δ : Type} {host : Host η δ} {scene after : Scene η δ} {g : Graph}

/-- A number that may be too large to be shown, or to be converted to the other kind of number. -/
def Value.IsExtreme : Value → Prop
  | .int n => Binary64.large ≤ n.natAbs
  | .float x => x.isFinite = false
  | _ => False

/-- What a host may ask of a dialogue, beside making it. -/
inductive Call where
  | start (label : Option String)
  | restart (resetFirst : Bool) (label : Option String) (rerunHeader : Bool)
  | reset (vars position taken : Bool)
  | choose (index : Int)
  | proceed
  | lineText
  | choiceText (index : Int)
  | valueAs (kind : Kind) (name : String)
  | setVariable (name : String) (v : Value)

namespace Call

/-- What a call does, its answer apart. -/
def play (host : Host η δ) : Call → Play η δ Unit
  | .start label => Dialogue.start host label
  | .restart resetFirst label rerunHeader => Dialogue.restart host resetFirst label rerunHeader
  | .reset vars position taken => Dialogue.reset host vars position taken
  | .choose index => do let _ ← Dialogue.choose host index
  | .proceed => do let _ ← Dialogue.proceed host
  | .lineText => do let _ ← Dialogue.lineText host
  | .choiceText index => do let _ ← Dialogue.choiceText host index
  | .valueAs kind name => do let _ ← (Dialogue.valueAs kind name : Play η δ Value)
  | .setVariable name v => Dialogue.setVariable host name (.value v)

/-- Whether a call shows or converts variables. -/
def reads : Call → Bool
  | .lineText | .choiceText _ | .valueAs _ _ => true
  | _ => false

/-- The place of the choice that a call is about. -/
def index? : Call → Option Int
  | .choose index => some index
  | .choiceText index => some index
  | _ => none

end Call

/-- The causes for which a call may fail, in the scene in which it does. Choices are nested too deep, or a
run does not end, where the graph leads deeper or further than the host lets one go. -/
inductive Cause (host : Host η δ) (g : Graph) (scene : Scene η δ) (call : Option Call) :
    Fault → Prop where
  | incomplete {e : Expression} {f : Expression.EvalFault} (written : e ∈ g.expressions)
      (breaks : e.Breaks scene.dialogue.environment f) (incomplete : ¬ e.IsComplete) :
      Cause host g scene call (.evaluation f)
  | unwieldy {e : Expression} {f : Expression.EvalFault} (written : e ∈ g.expressions)
      (breaks : e.Breaks scene.dialogue.environment f)
      (meets : e.MeetsUnwieldy scene.dialogue.environment) : Cause host g scene call (.evaluation f)
  | index {c : Call} (called : call = some c) (index : Int) (asked : c.index? = some index)
      (long : Number.exceedsDigitLimit index = true) : Cause host g scene call .tooManyDigits
  | extreme {c : Call} {name : String} {v : Value} {f : Fault} (called : call = some c)
      (reads : c.reads = true) (held : scene.dialogue.value? name = some v)
      (extreme : v.IsExtreme) (shown : f = .tooManyDigits ∨ ∃ e, f = .unsuitable e) :
      Cause host g scene call f
  | tooDeep {n : Node} (nested : g.GoesFor NodeKind.collects host.depth n) :
      Cause host g scene call .tooDeep
  | endless {n : Node} (runs : g.GoesFor NodeKind.runsOn host.steps n) :
      Cause host g scene call .endless

theorem Breakdown.cause {call : Option Call} {f : Fault}
    (broke : Breakdown host.steps host.depth g scene f) : Cause host g scene call f := by
  cases broke with
  | evaluation written breaks =>
    obtain ⟨r, refused⟩ | incomplete | meets := Expression.evaluate_error breaks.1
    · exact absurd refused (breaks.2 r)
    · exact .incomplete written breaks incomplete
    · exact .unwieldy written breaks meets
  | tooDeep nested => exact .tooDeep nested
  | endless runs => exact .endless runs

/-! ### Saying and reading -/

theorem Value.extreme_of_not_showable {v : Value} (hidden : v.isShowable = false) :
    v.IsExtreme := by
  cases v with
  | int n => exact @Datum.unwieldy_of_not_showable (.value (.int n)) hidden
  | _ => cases hidden

/-- A number is converted to the other kind of number unless it is extreme. -/
theorem extreme_of_rebuild {kind : Kind} {v : Value} {e : RestoreError}
    (number : v.isNumber = true) (numeric : kind.default.isNumber = true)
    (failed : kind.rebuild (.value v) = .error e) : v.IsExtreme := by
  cases v with
  | int n =>
    obtain small | large := Nat.lt_or_ge n.natAbs Binary64.large
    · obtain ⟨units, fits, finite⟩ := @Binary64.ofFraction_finite _ 1 small (decide (n < 0))
      cases kind with
      | int => cases failed
      | float =>
        rw [Kind.rebuild, Kind.floatOf, Kind.floatOfInt, Binary64.ofInt, finite] at failed
        cases failed
      | _ => cases numeric
    · exact large
  | float x =>
    cases kind with
    | int =>
      cases x with
      | finite => cases failed
      | _ => rfl
    | float => cases failed
    | _ => cases numeric
  | _ => cases number

/-- What fails while variables are shown or converted. -/
def Misread (host : Host η δ) (g : Graph) (f : Fault) (after : Scene η δ) : Prop :=
  Onstage host g after ∧ (∃ name v, after.dialogue.value? name = some v ∧ v.IsExtreme)
    ∧ (f = .tooManyDigits ∨ ∃ e, f = .unsuitable e)

theorem resolve_yields (onstage : Onstage host g scene) (text : String) (params : List String) :
    Yields (Dialogue.resolve host text params) scene (fun _ => Onstage host g) (Misread host g) := by
  rw [Dialogue.resolve]
  split
  · exact .of_ok rfl onstage
  · obtain ⟨asked, done, goes⟩ := requests_quiet onstage.quiet params
    have onstage' := onstage.ran goes.ran
    have read : Play.dialogue asked = .ok asked.dialogue asked := rfl
    refine .step done (.step read ?_)
    dsimp only
    split
    · exact .of_ok rfl onstage'
    next hidden =>
      rw [List.all_eq_true] at hidden
      push Not at hidden
      obtain ⟨v, used, unshowable⟩ := hidden
      rw [Ne, Bool.not_eq_true] at unshowable
      obtain ⟨name, _, held⟩ := List.mem_filterMap.1 used
      exact .of_error rfl
        ⟨onstage', ⟨name, v, held, Value.extreme_of_not_showable unshowable⟩, .inl rfl⟩

theorem lineText_yields (onstage : Onstage host g scene) :
    Yields (Dialogue.lineText host) scene (fun _ => Onstage host g) (Misread host g) := by
  have read : Play.dialogue scene = .ok scene.dialogue scene := rfl
  rw [Dialogue.lineText]
  refine .step read ?_
  split
  · exact .of_ok rfl onstage
  · exact resolve_yields onstage _ _

theorem choiceText_yields (onstage : Onstage host g scene) {index : Int}
    (answers : scene.dialogue.Answers index) :
    Yields (Dialogue.choiceText host index) scene (fun _ => Onstage host g) (Misread host g) := by
  have read : Play.dialogue scene = .ok scene.dialogue scene := rfl
  rw [Dialogue.choiceText]
  refine .step read ?_
  cases way : scene.dialogue.choice? index with
  | none =>
    refine (logBadChoice_yields (answers way)).bind fun _ after ran => ?_
    exact .of_ok rfl (onstage.ran ran)
  | some e => exact resolve_yields onstage _ _

theorem valueAs_yields (onstage : Onstage host g scene) (kind : Kind) (name : String) :
    Yields (Dialogue.valueAs kind name) scene (fun _ => Onstage host g) (Misread host g) := by
  have read : Play.dialogue scene = .ok scene.dialogue scene := rfl
  rw [Dialogue.valueAs]
  refine .step read ?_
  cases held : scene.dialogue.value? name with
  | none => exact .of_ok rfl onstage
  | some v =>
    dsimp only
    split
    · exact .of_ok rfl onstage
    · split
      next numbers =>
        obtain ⟨number, numeric⟩ := Bool.and_eq_true_iff.1 numbers
        cases converted : kind.rebuild (.value v) with
        | ok w => exact .of_ok rfl onstage
        | error e =>
          exact .of_error rfl
            ⟨onstage, ⟨name, v, held, extreme_of_rebuild number numeric converted⟩, .inr ⟨e, rfl⟩⟩
      · split
        · obtain ⟨after, logged, stays⟩ := @log_stays _ _ scene .warning
            ("Variable " ++ name ++ " is " ++ v.display ++ ", not " ++ kind.name)
          exact .step logged (.of_ok rfl (stays.onstage onstage))
        next hidden =>
          rw [Bool.not_eq_true] at hidden
          exact .of_error rfl
            ⟨onstage, ⟨name, v, held, Value.extreme_of_not_showable hidden⟩, .inl rfl⟩

/-- Setting a variable to a value succeeds and moves nothing. -/
theorem setVariable_stays (quiet : Quiet host scene) (name : String) (v : Value) :
    ∃ after, Dialogue.setVariable host name (.value v) scene = .ok () after
      ∧ scene.Stays after := by
  have read : Play.dialogue scene = .ok scene.dialogue scene := rfl
  change ∃ after, Dialogue.assign host name v false scene = .ok () after ∧ _
  rw [Dialogue.assign, Play.bind_ok read]
  split
  · exact ⟨scene, rfl, .refl scene⟩
  · let set : Scene η δ := { scene with dialogue := scene.dialogue.put name v }
    have put : Play.changeDialogue (fun d => d.put name v) scene = .ok () set := rfl
    have same : scene.Stays set := ⟨rfl, rfl, rfl, rfl, rfl, rfl⟩
    have quiet' : Quiet host set := ⟨quiet.passive, quiet.unheard, quiet.idle, quiet.empty⟩
    obtain ⟨after, told, stays⟩ := announce_stays quiet' (.changed name v false)
    exact ⟨after, (Play.bind_ok put).trans told, same.trans stays⟩

/-! ### Any call -/

theorem Misread.cause {call : Call} (reads : call.reads = true) {f : Fault}
    (misread : Misread host g f after) : Onstage host g after ∧ Cause host g after (some call) f := by
  obtain ⟨onstage, ⟨name, v, held, extreme⟩, shown⟩ := misread
  exact ⟨onstage, .extreme rfl reads held extreme shown⟩

/-- Whether a call returns or fails, it leaves the dialogue where it can be called again, and it
fails for a cause. -/
theorem Call.play_yields (sturdy : g.Sturdy) (onstage : Onstage host g scene) (call : Call) :
    Yields (call.play host) scene (fun _ => Onstage host g)
      fun f after => Onstage host g after ∧ Cause host g after (some call) f := by
  have broken {f : Fault} {after : Scene η δ} (broke : BreaksDown host g f after) :
      Onstage host g after ∧ Cause host g after (some call) f :=
    ⟨broke.1, broke.2.cause⟩
  -- an answer is thrown away, so what holds after it holds after the call
  have dropping {α : Type} {x : Play η δ α} {ok : α → Scene η δ → Prop}
      {fails : Fault → Scene η δ → Prop} (first : Yields x scene ok fails)
      (well : ∀ a after, ok a after → Onstage host g after)
      (ill : ∀ f after, fails f after → Onstage host g after ∧ Cause host g after (some call) f) :
      Yields (do let _ ← x) scene (fun _ => Onstage host g)
        fun f after => Onstage host g after ∧ Cause host g after (some call) f :=
    (first.mono well ill).bind fun _ _ onstage => .of_ok rfl onstage
  have unanswered {α : Type} {x : Play η δ α} {index : Int} (asked : call.index? = some index)
      (failed : x scene = .error .tooManyDigits scene)
      (long : Number.exceedsDigitLimit index = true) :
      Yields (do let _ ← x) scene (fun _ => Onstage host g)
        fun f after => Onstage host g after ∧ Cause host g after (some call) f :=
    .of_error (Play.bind_error failed) ⟨onstage, .index rfl index asked long⟩
  cases call with
  | start label =>
    refine (start_yields sturdy onstage label).mono (fun _ last result => ?_) fun _ _ => broken
    obtain ⟨ran, _⟩ | ⟨rfl, _⟩ := result
    · exact ran.onstage sturdy onstage
    · exact onstage
  | restart resetFirst label rerunHeader =>
    exact (restart_yields sturdy onstage resetFirst label rerunHeader).mono (fun _ _ there => there)
      fun _ _ => broken
  | reset vars position taken =>
    exact (reset_yields sturdy onstage vars position taken).mono (fun _ _ there => there)
      fun _ _ => broken
  | choose index =>
    by_cases answers : scene.dialogue.Answers index
    · exact dropping (choose_yields sturdy onstage answers)
        (fun _ _ chose => chose.onstage sturdy onstage) fun _ _ => broken
    · exact unanswered rfl (choose_fails answers) (Dialogue.not_answers answers).2
  | proceed =>
    refine dropping (proceed_yields sturdy onstage) (fun _ last result => ?_) fun _ _ => broken
    obtain ⟨chose, _⟩ | ⟨rfl, _⟩ := result
    · exact chose.onstage sturdy onstage
    · exact onstage
  | lineText =>
    exact dropping (lineText_yields onstage) (fun _ _ there => there) fun _ _ => Misread.cause rfl
  | choiceText index =>
    by_cases answers : scene.dialogue.Answers index
    · exact dropping (choiceText_yields onstage answers) (fun _ _ there => there)
        fun _ _ => Misread.cause rfl
    · obtain ⟨absent, long⟩ := Dialogue.not_answers answers
      have failed : Dialogue.choiceText host index scene = .error .tooManyDigits scene := by
        have read : Play.dialogue scene = .ok scene.dialogue scene := rfl
        rw [Dialogue.choiceText, Play.bind_ok read, absent]
        exact Play.bind_error (logBadChoice_fails long)
      exact unanswered rfl failed long
  | valueAs kind name =>
    exact dropping (valueAs_yields onstage kind name) (fun _ _ there => there)
      fun _ _ => Misread.cause rfl
  | setVariable name v =>
    obtain ⟨last, set, stays⟩ := setVariable_stays onstage.quiet name v
    exact .of_ok set (stays.onstage onstage)

/-! ### What is refused -/

/-- What is left of a step when an expression is refused: it is logged and has no value, a condition
fails, an assignment changes nothing, and an event has an empty argument in its place. -/
structure Degrades (host : Host η δ) (scene : Scene η δ) (e : Expression)
    (r : Expression.Refusal) : Prop where
  logged : ∀ node, ∃ after, Dialogue.evaluate host e node scene = .ok none after
    ∧ GoesOn scene scene.dialogue.vars [] after
    ∧ after.journal.getLast? = some (.logged ⟨.error, "Error in " ++ scene.dialogue.name ++ " line "
      ++ node.line.display ++ ": " ++ r.message e.source⟩)
  condition : ∀ node, ∃ after, Dialogue.holds host node (some e) scene = .ok false after
    ∧ GoesOn scene scene.dialogue.vars [] after
  assignment : ∀ node, node.expression = some e → ∃ after,
    Dialogue.runAssignment host node scene = .ok () after
      ∧ GoesOn scene scene.dialogue.vars [] after
  argument : ∀ (node : Node) (i : Nat) (after : Scene η δ), node.eventArgs[i]? = some e →
    Dialogue.runEvent host node scene = .ok () after →
    ∃ args : List (Option Value), args[i]? = some none
      ∧ GoesOn scene scene.dialogue.vars [⟨node.eventName, args⟩] after

/-- A refused expression has no value, and this is the last thing logged. -/
theorem evaluate_refused (quiet : Quiet host scene) {e : Expression} {r : Expression.Refusal}
    (refused : e.evaluate scene.dialogue.environment = .error (.refused r)) (node : Node) :
    ∃ after, Dialogue.evaluate host e node scene = .ok none after
      ∧ GoesOn scene scene.dialogue.vars [] after
      ∧ after.journal.getLast? = some (.logged ⟨.error, "Error in " ++ scene.dialogue.name
        ++ " line " ++ node.line.display ++ ": " ++ r.message e.source⟩) := by
  obtain ⟨asked, done, goes⟩ := requests_quiet quiet e.names
  have same : asked.dialogue = scene.dialogue := goes.dialogue
  have read : Play.dialogue asked = .ok asked.dialogue asked := rfl
  let entry : Note δ := .logged ⟨.error, "Error in " ++ asked.dialogue.name ++ " line "
    ++ node.line.display ++ ": " ++ r.message e.source⟩
  have logged : Dialogue.logAt .error node (r.message e.source) asked
      = .ok () { asked with journal := asked.journal ++ [entry] } := rfl
  refine ⟨{ asked with journal := asked.journal ++ [entry] }, ?_, ?_, ?_⟩
  · rw [← same] at refused
    rw [Dialogue.evaluate, Play.bind_ok done, Play.bind_ok read, refused]
    exact Play.bind_ok logged
  · have silent : ∀ n ∈ [entry], n.event? = none := by
      intro n member
      rw [List.mem_singleton.mp member]
      rfl
    exact goes.trans (goes.vars ▸ .noted silent)
  · rw [← same]
    exact List.getLast?_concat ..

theorem degrades_of_refused (quiet : Quiet host scene) {e : Expression} {r : Expression.Refusal}
    (refused : e.evaluate scene.dialogue.environment = .error (.refused r)) :
    Degrades host scene e r where
  logged := evaluate_refused quiet refused
  condition := by
    intro node
    obtain ⟨after, valueless, goes, _⟩ := evaluate_refused quiet refused node
    exact ⟨after, Play.bind_ok valueless, goes⟩
  assignment := by
    intro node assigns
    obtain ⟨after, valueless, goes, _⟩ := evaluate_refused quiet refused node
    obtain ⟨last, logged, silent⟩ := logAt_goesOn after .warning node
      ("[set " ++ node.identifier ++ "] produced no value, skipped")
    refine ⟨last, ?_, goes.trans (goes.vars ▸ silent)⟩
    rw [Dialogue.runAssignment, assigns]
    exact (Play.bind_ok valueless).trans logged
  argument := by
    intro node i last there raised
    obtain ⟨args, between, evaluated, announced⟩ := Play.bind_inv raised
    have mirrors := evaluateAll_quiet quiet node.eventArgs node
    unfold Mirrors at mirrors
    cases direct : node.eventArgs.mapM (Script.Direct.value scene.dialogue.vars) with
    | error f =>
      rw [direct] at mirrors
      obtain ⟨_, failed⟩ := mirrors
      cases failed.symm.trans evaluated
    | ok vs =>
      rw [direct] at mirrors
      obtain ⟨_, _, played, rfl, goes⟩ := mirrors
      cases played.symm.trans evaluated
      obtain ⟨v, here, value⟩ := forall₂_left (mapM_eq_ok.mp direct) there
      have none : v = none := by
        have same : Script.Direct.environment scene.dialogue.vars
            = scene.dialogue.environment := rfl
        rw [Script.Direct.value, same, refused] at value
        exact (Except.ok.inj value).symm
      refine ⟨args, none ▸ here, ?_⟩
      cases (announce_quiet (goes.quiet quiet) _).symm.trans announced
      exact goes.trans (goes.vars ▸ told_goesOn between (.event node.eventName args))

/-! ### Whole conversations -/

/-- The scenes that a dialogue gets into: it is made, and then called again and again, whether the
calls return or fail. -/
inductive Reached (host : Host η δ) (g : Graph) (first : Scene η δ) : Scene η δ → Prop where
  | made {after : Scene η δ} (made : Dialogue.attachTo host g first = .ok () after) :
      Reached host g first after
  | returned {scene after : Scene η δ} (before : Reached host g first scene) (call : Call)
      (done : call.play host scene = .ok () after) : Reached host g first after
  | failed {scene after : Scene η δ} (before : Reached host g first scene) (call : Call) {f : Fault}
      (failed : call.play host scene = .error f after) : Reached host g first after

/-- Wherever a dialogue gets, it stands on its graph. -/
theorem Reached.onstage {first : Scene η δ} (sturdy : g.Sturdy) (quiet : Quiet host first)
    (reached : Reached host g first scene) : Onstage host g scene := by
  induction reached with
  | made made =>
    exact ((attachTo_yields sturdy quiet).of_done made).onstage sturdy (attached_onstage quiet g)
  | returned _ call done ih => exact (call.play_yields sturdy ih).of_done done
  | failed _ call failed ih => exact ((call.play_yields sturdy ih).of_failed failed).1

/-- The scene in which a dialogue that is alone has been started. -/
def Scene.opening? (host : Host Unit Unit) (g : Graph) : Option (Scene Unit Unit) :=
  (Dialogue.attachTo host g).done? (.alone g) |>.bind fun made =>
    ((Call.start none).play host).done? made.2 |>.map (·.2)

theorem opening_played {host : Host Unit Unit} {scene : Scene Unit Unit}
    (opens : Scene.opening? host g = some scene) :
    ∃ made, Dialogue.attachTo host g (.alone g) = .ok () made
      ∧ (Call.start none).play host made = .ok () scene := by
  obtain ⟨⟨_, made⟩, attached, started⟩ := Option.bind_eq_some_iff.1 opens
  obtain ⟨⟨_, last⟩, begun, rfl⟩ := Option.map_eq_some_iff.1 started
  exact ⟨made, Play.of_done? attached, Play.of_done? begun⟩

theorem opening_onstage {host : Host Unit Unit} {scene : Scene Unit Unit} (sturdy : g.Sturdy)
    (quiet : Quiet host (.alone g)) (opens : Scene.opening? host g = some scene) :
    Onstage host g scene := by
  obtain ⟨made, attached, begun⟩ := opening_played opens
  exact Reached.onstage sturdy quiet (.returned (.made attached) (.start none) begun)

/-- Why an expression is refused, if it is. -/
def Expression.refusal? (e : Expression) (env : Expression.Environment) : Option Expression.Refusal :=
  match e.evaluate env with
  | .error (.refused r) => some r
  | _ => none

theorem Expression.of_refusal? {e : Expression} {env : Expression.Environment}
    {r : Expression.Refusal} (refuses : e.refusal? env = some r) :
    e.evaluate env = .error (.refused r) := by
  unfold Expression.refusal? at refuses
  split at refuses
  next refused =>
    cases refuses
    exact refused
  · cases refuses

/-- Whether something fails for want of an operand. -/
def Fault.lacksOperand : Fault → Bool
  | .evaluation .missingOperand => true
  | _ => false

theorem Fault.eq_of_lacksOperand {f : Fault} (lacks : f.lacksOperand = true) :
    f = .evaluation .missingOperand := by
  unfold Fault.lacksOperand at lacks
  split at lacks
  · rfl
  · cases lacks

end Colloquy

namespace Colloquy.Script

variable {η δ : Type}

/-- On the graph of a script, making a dialogue and calling it fail only for the causes there are,
wherever earlier calls have brought it. An expression that is refused is not among them. -/
theorem compiled_fails_for {s : Settings} {name text : String} {c : Compilation} {g : Graph}
    (compiled : compile s name text = .ok c) (graph : c.graph = some g) {host : Host η δ}
    {first : Scene η δ} (quiet : Quiet host first) :
    (∀ f after, Dialogue.attachTo host g first = .error f after → Cause host g after none f)
    ∧ ∀ scene, Reached host g first scene →
      (∀ (call : Call) f after, call.play host scene = .error f after → Cause host g after (some call) f)
      ∧ ∀ (e : Expression) r, e.evaluate scene.dialogue.environment = .error (.refused r) →
        Degrades host scene e r := by
  have sturdy := sturdy_of_compile compiled graph
  constructor
  · intro f after failed
    exact ((attachTo_yields sturdy quiet).of_failed failed).2.cause
  · intro scene reached
    have onstage := reached.onstage sturdy quiet
    constructor
    · intro call f after failed
      exact ((call.play_yields sturdy onstage).of_failed failed).2
    · intro e r refused
      exact degrades_of_refused onstage.quiet refused

/-- A script whose assignment is refused, played by a dialogue that is alone. Once it is started its
calls fail for the causes there are, and what the assignment is made of degrades. -/
theorem compiled_fails_for_refusal :
    ∃ c g scene e r, compile .standard "script" "A: hi\n[set x 1 / 0]\nA: bye" = .ok c
      ∧ c.graph = some g ∧ Quiet (Host.silent 9 9) (Scene.alone g)
      ∧ Reached (Host.silent 9 9) g (Scene.alone g) scene ∧ e ∈ g.expressions
      ∧ e.evaluate scene.dialogue.environment = .error (.refused r)
      ∧ Degrades (Host.silent 9 9) scene e r
      ∧ ∀ (call : Call) f after, call.play (Host.silent 9 9) scene = .error f after →
        Cause (Host.silent 9 9) g after (some call) f := by
  have opens : ((compile .standard "script" "A: hi\n[set x 1 / 0]\nA: bye").toOption.any fun c =>
      c.graph.any fun g => (Scene.opening? (Host.silent 9 9) g).any fun scene =>
        g.expressions.any fun e => (e.refusal? scene.dialogue.environment).isSome) = true := by
    decide +kernel
  obtain ⟨c, compiled, opens⟩ := exists_ok_of_any opens
  obtain ⟨g, graph, opens⟩ := (Option.any_eq_true _ _).1 opens
  obtain ⟨scene, opens, refuses⟩ := (Option.any_eq_true _ _).1 opens
  obtain ⟨e, written, refuses⟩ := List.any_eq_true.1 refuses
  obtain ⟨r, refuses⟩ := Option.isSome_iff_exists.1 refuses
  have refused := Expression.of_refusal? refuses
  obtain ⟨made, attached, started⟩ := opening_played opens
  have reached := Reached.returned (.made attached) (.start none) started
  have quiet := alone_quiet 9 9 g
  obtain ⟨fails, degrades⟩ := (compiled_fails_for compiled graph quiet).2 scene reached
  exact ⟨c, g, scene, e, r, compiled, graph, quiet, reached, written, refused, degrades e r refused,
    fails⟩

/-- Going on over an assignment of empty brackets fails, in a script without errors. -/
theorem empty_brackets_fail :
    ∃ c g, compile .standard "script" "A: hi\n[set x ()]\nA: bye\n" = .ok c
      ∧ c.diagnostics = [] ∧ c.graph = some g
      ∧ ∃ scene after, Reached (Host.silent 9 9) g (Scene.alone g) scene
        ∧ Call.proceed.play (Host.silent 9 9) scene = .error (.evaluation .missingOperand) after := by
  let host := Host.silent 9 9
  have fails : ((compile .standard "script" "A: hi\n[set x ()]\nA: bye\n").toOption.any fun c =>
      c.diagnostics = [] && c.graph.any fun g =>
        (Scene.opening? host g).any fun started =>
          ((Call.proceed.play host).fault? started).any Fault.lacksOperand) = true := by
    decide +kernel
  obtain ⟨c, compiled, fails⟩ := exists_ok_of_any fails
  obtain ⟨silent, fails⟩ := Bool.and_eq_true_iff.1 fails
  obtain ⟨g, graph, fails⟩ := (Option.any_eq_true _ _).1 fails
  obtain ⟨started, opens, fails⟩ := (Option.any_eq_true _ _).1 fails
  obtain ⟨f, faulty, lacks⟩ := (Option.any_eq_true _ _).1 fails
  obtain ⟨made, done, played⟩ := opening_played opens
  obtain ⟨after, failed⟩ := Play.of_fault? faulty
  rw [Fault.eq_of_lacksOperand lacks] at failed
  exact ⟨c, g, compiled, of_decide_eq_true silent, graph, started, after,
    .returned (.made done) (.start none) played, failed⟩

end Colloquy.Script
