import Colloquy.Proofs.Dialogue.Reentrant
import Colloquy.Proofs.Dialogue.Restoring
/-!
# Snapshots that are refused

A dialogue is restored in three steps: the header runs, the variables are made out of their payloads,
and what was saved is taken over. A payload need not suit its kind, so the second step may fail; by then
the dialogue has lost its line, its choices and its variables, and it keeps nothing but the choices
taken. If all payloads suit their kinds then restoring comes to its end, whatever snapshot it is.
-/

namespace Colloquy

variable {η δ : Type} {host : Host η δ} {scene after : Scene η δ} {g : Graph} {s : Snapshot}

/-- What a failing call may not change: where the dialogue stands, what it offers, its variables and
the choices taken. -/
structure Dialogue.Unchanged (d d' : Dialogue) : Prop where
  current : d'.current = d.current
  choices : d'.choices = d.choices
  vars : d'.vars = d.vars
  taken : d'.taken = d.taken

/-- A dialogue that was restored from a snapshot, after its header left it with some variables: it
stands on the line that was saved if its script has that line, with the choices taken, and the variables
that were saved go over those of the header. -/
structure Snapshot.Settled (s : Snapshot) (g : Graph) (values header : List (String × Value))
    (d : Dialogue) : Prop where
  current : d.current = if s.isEnded then none else g.nodeByTextId s.textId
  taken : d.taken = s.taken
  vars : d.vars = setEntries header values

/-! ### In quiet scenes -/

/-- When the variables are reset the dialogue ends, and beside that only the variables change. -/
theorem resetVariables_clears (sturdy : g.Sturdy) (onstage : Onstage host g scene) :
    Yields (Dialogue.resetVariables host) scene
      (fun _ after => Onstage host g after
        ∧ after.dialogue = { scene.dialogue.moveTo none with vars := after.dialogue.vars })
      (fun _ _ => True) := by
  let bare : Scene η δ := { scene with dialogue := { scene.dialogue with vars := [] } }
  have cleared : Play.changeDialogue (fun d => { d with vars := [] }) scene = .ok () bare := rfl
  have read : Play.dialogue bare = .ok bare.dialogue bare := rfl
  have stays : scene.Stays bare := ⟨rfl, rfl, rfl, rfl, rfl, rfl⟩
  have onstage₁ := stays.onstage onstage
  obtain ⟨o, found, heads⟩ := sturdy.header
  have looked : Play.orFault Fault.lost bare.dialogue.graph.headerNode bare = .ok o bare := by
    rw [onstage₁.graph, found]
    rfl
  have inside : g.Holds o := fun n same => by
    obtain ⟨i, _, there⟩ := heads n same
    exact List.mem_of_getElem? there
  have staged : Staged host g bare :=
    ⟨onstage₁.quiet.attended, lone_quiet host bare, onstage₁.graph, onstage₁.line, onstage₁.ways⟩
  refine .step cleared (.step read (.step looked ?_))
  -- a run of the header goes on quietly, and comes to its end
  have runs := ((runOn_yields sturdy.rooted onstage₁.quiet onstage₁.graph inside).and
    (headerSteps_enacts sturdy heads staged)).mono_fails fun _ _ _ => trivial
  rw [Dialogue.runTo]
  refine runs.bind fun stop between result => ?_
  obtain ⟨⟨ran, _⟩, _, _, _, rfl, _⟩ := result
  have onstage₂ : Onstage host g (between.movedTo none) :=
    movedTo_onstage (onstage₁.ran ran) fun _ none => by cases none
  obtain ⟨vars, raised, goes⟩ := ran
  have ended : (between.movedTo none).dialogue
      = { scene.dialogue.moveTo none with vars := between.dialogue.vars } := by
    rw [Scene.movedTo, goes.vars, goes.dialogue]
    rfl
  exact .of_ok rfl ⟨onstage₂, ended⟩

/-- The line that a snapshot is of. -/
def Snapshot.line? (s : Snapshot) (g : Graph) : Option Node :=
  if s.isEnded then none else g.nodeByTextId s.textId

/-- What was saved is taken over by moving to its line, with the variables and the choices taken set
before. -/
theorem takeOver_eq (attended : Attended host scene) (graph : scene.dialogue.graph = g)
    (values : List (String × Value)) : ∃ between, Attended host between
      ∧ between.dialogue = { scene.dialogue with
        vars := setEntries scene.dialogue.vars values, taken := s.taken }
      ∧ Dialogue.takeOver host s values scene
        = Dialogue.setLine host (s.line? g) true between := by
  let taken : Scene η δ := { scene with dialogue :=
    { scene.dialogue with vars := setEntries scene.dialogue.vars values, taken := s.taken } }
  have changed : Play.changeDialogue (fun d => { d with
      vars := setEntries d.vars values, taken := s.taken }) scene = .ok () taken := rfl
  have read : Play.dialogue taken = .ok taken.dialogue taken := rfl
  have attended' : Attended host taken := attended.of_same rfl rfl
  have line : (if s.isEnded then none else taken.dialogue.graph.nodeByTextId s.textId)
      = s.line? g := by
    rw [← graph]
    rfl
  rw [Dialogue.takeOver, Play.bind_ok changed, Play.bind_ok read]
  dsimp only
  rw [line]
  -- a line that is not there is remarked on, and that is all
  split
  · let noted (message : String) : Scene η δ :=
      { taken with journal := taken.journal ++ [.logged ⟨.warning, message⟩] }
    have remarked (message : String) :
        Play.log .warning message taken = .ok () (noted message) := rfl
    rw [Play.bind_ok (remarked _)]
    exact ⟨noted _, attended'.of_same rfl rfl, rfl, rfl⟩
  · exact ⟨taken, attended', rfl, rfl⟩

theorem takeOver_settles (attended : Attended host scene) (graph : scene.dialogue.graph = g)
    (values : List (String × Value)) :
    Yields (Dialogue.takeOver host s values) scene
      (fun _ after => s.Settled g values scene.dialogue.vars after.dialogue) (fun _ _ => True) := by
  obtain ⟨between, attended', same, goes⟩ := @takeOver_eq _ _ _ _ _ s attended graph values
  cases moved : Dialogue.setLine host (s.line? g) true between with
  | error f after => exact .of_error (goes.trans moved) trivial
  | ok _ after =>
    obtain ⟨current, vars, choices⟩ := (setLine_stays attended' (s.line? g)).of_done moved
    rw [same] at vars choices
    exact .of_ok (goes.trans moved) ⟨current, choices, vars⟩

/-! ### Among those who call the dialogue -/

section

variable (loyal : Loyal host g) (sturdy : g.Sturdy) (stands : scene.dialogue.StandsOn g)

include loyal sturdy stands

/-- If every payload suits its kind then restoring comes to its end. -/
theorem restore_completes {values : List (String × Value)} (made : s.values = .ok values) :
    Yields (Dialogue.restore host s) scene
      (fun _ after => after.dialogue.StandsOn g ∧ (Quiet host scene → ∃ renewed,
        Dialogue.resetVariables host scene = .ok () renewed
          ∧ s.Settled g values renewed.dialogue.vars after.dialogue))
      (Excused host g) := by
  have clears := resetVariables_guarded loyal sturdy scene stands
  rw [restore_of_values made]
  cases reset : Dialogue.resetVariables host scene with
  | error f after => exact .of_error (Play.bind_error reset) (clears.of_failed reset).2
  | ok _ renewed =>
    have there := takeOver_guarded loyal sturdy s values renewed (clears.of_done reset).1
    refine .step reset ?_
    cases took : Dialogue.takeOver host s values renewed with
    | error f after => exact .of_error took (there.of_failed took).2
    | ok _ after =>
      refine .of_ok took ⟨(there.of_done took).1, fun quiet => ⟨renewed, rfl, ?_⟩⟩
      have onstage' := ((resetVariables_clears sturdy (stands.onstage quiet)).of_done reset).1
      exact (takeOver_settles onstage'.quiet.attended onstage'.graph values).of_done took

/-- If a payload does not suit its kind then restoring fails, once the header has run. -/
theorem restore_refuses {e : RestoreError} (refused : s.values = .error e) :
    Yields (Dialogue.restore host s) scene (fun _ _ => False)
      (fun f after => Excused host g f after
        ∨ f = .unsuitable e ∧ Dialogue.resetVariables host scene = .ok () after
          ∧ (Quiet host scene → after.dialogue
            = { scene.dialogue.moveTo none with vars := after.dialogue.vars })) := by
  have clears := resetVariables_guarded loyal sturdy scene stands
  rw [restore_of_refused refused]
  cases reset : Dialogue.resetVariables host scene with
  | error f after => exact .of_error (Play.bind_error reset) (.inl (clears.of_failed reset).2)
  | ok _ renewed =>
    refine .step reset (.of_error rfl (.inr ⟨rfl, rfl, fun quiet => ?_⟩))
    exact ((resetVariables_clears sturdy (stands.onstage quiet)).of_done reset).2

end

/-! ### Two snapshots -/

/-- A numeral is given for a whole number. -/
def Snapshot.numeralGiven (textId : String) : Snapshot :=
  ⟨textId, [("X", ⟨.int, .text "12"⟩)], ["one"]⟩

theorem values_numeralGiven (textId : String) :
    (Snapshot.numeralGiven textId).values = .ok [("X", .int 12)] := by
  change [("X", (⟨.int, .text "12"⟩ : SavedValue))].mapM
    (fun v => (v.2.restore).map fun x => (v.1, x)) = .ok [("X", .int 12)]
  decide +kernel

/-- A word is given for a whole number. -/
def Snapshot.wordGiven : Snapshot :=
  ⟨"", [("X", ⟨.int, .text "abc"⟩)], []⟩

theorem values_wordGiven : Snapshot.wordGiven.values = .error .notNumeral := by
  decide +kernel

/-- The text of such a snapshot. -/
def wordGivenText : String :=
  "\x7b\"text_node_id\": \"\", \"variables\": \x7b\"X\": \x7b\"type\": \"int\", \"value\": \"abc\"\x7d\x7d, "
    ++ "\"choices_taken\": []\x7d"

theorem ofText_wordGivenText : Snapshot.ofText wordGivenText = .ok .wordGiven := by
  decide +kernel

end Colloquy

namespace Colloquy.Script

variable {η δ : Type}

/-- **Restoring whole or not at all.** If all payloads of a snapshot suit their kinds then restoring it
comes to its end, unless a participant fails, an expression cannot be evaluated or something has no end;
and where nobody interferes the dialogue is as it was saved. If one does not, restoring fails with what
that payload fails with, and leaves the dialogue as its header does: ended, without choices. So it
changes nothing only of a dialogue that had ended, with the variables of the header. -/
theorem restoring_settles {s : Settings} {name text : String} {c : Compilation} {g : Graph}
    (compiled : compile s name text = .ok c) (graph : c.graph = some g) {host : Host η δ}
    (loyal : Loyal host g) {scene : Scene η δ} (visited : Visited host g scene) (saved : Snapshot) :
    (∀ values, saved.values = .ok values → Yields (Dialogue.restore host saved) scene
        (fun _ after => after.dialogue.StandsOn g ∧ (Quiet host scene → ∃ renewed,
          Dialogue.resetVariables host scene = .ok () renewed
            ∧ saved.Settled g values renewed.dialogue.vars after.dialogue))
        (Excused host g))
      ∧ (∀ e, saved.values = .error e → Yields (Dialogue.restore host saved) scene
        (fun _ _ => False)
        (fun f after => Excused host g f after
          ∨ f = .unsuitable e ∧ Dialogue.resetVariables host scene = .ok () after
            ∧ (Quiet host scene → after.dialogue
              = { scene.dialogue.moveTo none with vars := after.dialogue.vars })))
      ∧ (Quiet host scene → scene.dialogue.current = none → scene.dialogue.choices = [] →
        (∀ renewed, Dialogue.resetVariables host scene = .ok () renewed →
          renewed.dialogue.vars = scene.dialogue.vars) →
        Yields (Dialogue.restore host saved) scene
          (fun _ after => ∃ values, saved.values = .ok values
            ∧ saved.Settled g values scene.dialogue.vars after.dialogue)
          (fun f after => Excused host g f after
            ∨ scene.dialogue.Unchanged after.dialogue)) := by
  have sturdy := sturdy_of_compile compiled graph
  have stands := visited.standsOn loyal sturdy
  refine ⟨fun _ made => restore_completes loyal sturdy stands made,
    fun _ refused => restore_refuses loyal sturdy stands refused, fun quiet ended offers same => ?_⟩
  cases made : saved.values with
  | ok values =>
    refine (restore_completes loyal sturdy stands made).mono (fun _ after result => ?_)
      fun _ _ excused => .inl excused
    obtain ⟨renewed, reset, settled⟩ := result.2 quiet
    exact ⟨values, rfl, same renewed reset ▸ settled⟩
  | error e =>
    refine (restore_refuses loyal sturdy stands made).mono (fun _ _ none => none.elim)
      fun f after result => ?_
    -- it had ended before, and the header gives it the variables that it had
    refine result.imp_right fun ⟨_, reset, left⟩ => ?_
    have left := left quiet
    refine ⟨?_, ?_, same after reset, ?_⟩
    · rw [left, ended]
      rfl
    · rw [left, offers]
      rfl
    · rw [left]
      rfl

/-- On the line with the option a snapshot is restored that was taken there, in which a numeral is
given for a whole number. -/
theorem restoring_settles_numeral :
    ∃ c g scene line after, compile .standard "script" "A: hi\n* one\n    B: x\n" = .ok c
      ∧ c.graph = some g ∧ Loyal (Host.silent 9 9) g ∧ Visited (Host.silent 9 9) g scene
      ∧ scene.dialogue.current = some line
      ∧ (Snapshot.numeralGiven line.textId).values = .ok [("X", .int 12)]
      ∧ Dialogue.restore (Host.silent 9 9) (.numeralGiven line.textId) scene = .ok () after
      ∧ (Snapshot.numeralGiven line.textId).Settled g [("X", .int 12)] [] after.dialogue := by
  have opens : ((compile .standard "script" "A: hi\n* one\n    B: x\n").toOption.any fun c =>
      c.graph.any fun g => (Scene.opening? (Host.silent 9 9) g).any fun scene =>
        scene.dialogue.current.any fun line =>
          ((Dialogue.resetVariables (Host.silent 9 9)).done? scene).any (·.2.dialogue.vars = [])
            && ((Dialogue.restore (Host.silent 9 9) (.numeralGiven line.textId)).done?
              scene).isSome) = true := by
    decide +kernel
  obtain ⟨c, compiled, opens⟩ := exists_ok_of_any opens
  simp only [Bool.and_eq_true, decide_eq_true_eq, Option.any_eq_true, Option.isSome_iff_exists]
    at opens
  obtain ⟨g, graph, scene, opened, line, current, ⟨⟨_, header⟩, reset, bare⟩, ⟨_, after⟩, done⟩ := opens
  have sturdy := sturdy_of_compile compiled graph
  have loyal : Loyal (Host.silent 9 9) g := silent_loyal 9 9
  have visited := opening_visited opened
  have onstage := opening_onstage sturdy (alone_quiet 9 9 g) opened
  have values := values_numeralGiven line.textId
  have restores := (restoring_settles compiled graph loyal visited _).1 _ values
  obtain ⟨_, settles⟩ := restores.of_done (Play.of_done? done)
  obtain ⟨renewed, reset', settled⟩ := settles onstage.quiet
  cases (Play.of_done? reset).symm.trans reset'
  exact ⟨c, g, scene, line, after, compiled, graph, loyal, visited, current, values,
    Play.of_done? done, bare ▸ settled⟩

/-- The dialogue stands on the line with the option when it is to be restored from a snapshot that gives
a word for a number. That fails, and the dialogue has ended. -/
theorem restoring_refused_ends :
    ∃ c g scene after, compile .standard "script" "A: hi\n* one\n    B: x\n" = .ok c
      ∧ c.diagnostics = [] ∧ c.graph = some g ∧ Visited (Host.silent 9 9) g scene
      ∧ Snapshot.ofText wordGivenText = .ok .wordGiven
      ∧ Dialogue.restore (Host.silent 9 9) .wordGiven scene
        = .error (.unsuitable .notNumeral) after
      ∧ scene.dialogue.current.isSome = true ∧ scene.dialogue.choices.length = 1
      ∧ after.dialogue.current = none ∧ after.dialogue.choices = [] := by
  have opens : ((compile .standard "script" "A: hi\n* one\n    B: x\n").toOption.any fun c =>
      c.diagnostics = [] && c.graph.any fun g =>
        (Scene.opening? (Host.silent 9 9) g).any fun scene => scene.dialogue.current.isSome
          && scene.dialogue.choices.length = 1
          && ((Dialogue.resetVariables (Host.silent 9 9)).done? scene).any fun result =>
            result.2.dialogue.current = none && result.2.dialogue.choices = []) = true := by
    decide +kernel
  obtain ⟨c, compiled, opens⟩ := exists_ok_of_any opens
  simp only [Bool.and_eq_true, decide_eq_true_eq, Option.any_eq_true] at opens
  obtain ⟨clean, g, graph, scene, opened, ⟨stands, offers⟩, ⟨_, after⟩, reset, ended, nothing⟩ := opens
  have visited := opening_visited opened
  have fails : Dialogue.restore (Host.silent 9 9) .wordGiven scene
      = .error (.unsuitable .notNumeral) after := by
    rw [restore_of_refused values_wordGiven, Play.bind_ok (Play.of_done? reset)]
    rfl
  exact ⟨c, g, scene, after, compiled, clean, graph, visited, ofText_wordGivenText, fails, stands,
    offers, ended, nothing⟩

end Colloquy.Script
