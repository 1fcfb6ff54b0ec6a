import Colloquy.Proofs.Dialogue.Refusing
/-!
# Resetting and running again

Variables, position and the choices taken can be reset apart. Resetting the variables runs the header,
and at its end the dialogue has ended, so it loses its line and its choices as well. A restart that
resets all three leaves nothing of what was before: two dialogues on one graph come to the same by it,
whatever their histories.
-/

namespace Colloquy

variable {η δ : Type} {host : Host η δ} {first scene after fresh : Scene η δ} {g : Graph}

/-- What is left of a dialogue after a reset, `header` being the variables that its header sets. -/
structure Dialogue.ResetTo (header : List (String × Value)) (vars position taken : Bool)
    (d d' : Dialogue) : Prop where
  current : d'.current = if vars || position then none else d.current
  choices : d'.choices = if vars || position then [] else d.choices
  vars : d'.vars = if vars then header else d.vars
  taken : d'.taken = if taken then [] else d.taken

/-- The dialogue without its position, or without the choices taken. -/
def Dialogue.cleared (d : Dialogue) (position taken : Bool) : Dialogue :=
  let d := if position then d.moveTo none else d
  if taken then { d with taken := [] } else d

/-- A reset that keeps the variables runs nothing. -/
theorem reset_cleared (position taken : Bool) : Dialogue.reset host false position taken scene
    = .ok () { scene with dialogue := scene.dialogue.cleared position taken } := by
  cases position <;> cases taken <;> rfl

/-- With the variables it begins by running the header. -/
theorem reset_after {renewed : Scene η δ} (position taken : Bool)
    (ran : Dialogue.resetVariables host scene = .ok () renewed) :
    Dialogue.reset host true position taken scene
      = .ok () { renewed with dialogue := renewed.dialogue.cleared position taken } := by
  have split : Dialogue.reset host true position taken
      = (do Dialogue.resetVariables host; Dialogue.reset host false position taken) := rfl
  rw [split, Play.bind_ok ran, reset_cleared]

theorem Dialogue.cleared_resetTo (d : Dialogue) (header : List (String × Value))
    (position taken : Bool) : d.ResetTo header false position taken (d.cleared position taken) := by
  constructor <;> cases position <;> cases taken <;> rfl

/-- A dialogue that has ended has no position to lose. -/
theorem Dialogue.cleared_resetTo_of_vars {d renewed : Dialogue}
    (ended : renewed = { d.moveTo none with vars := renewed.vars }) (position taken : Bool) :
    d.ResetTo renewed.vars true position taken (renewed.cleared position taken) := by
  rw [ended]
  constructor <;> cases position <;> cases taken <;> rfl

/-- The variables cannot be reset if no dialogue can be made. -/
theorem resetVariables_fails {f : Fault} (quiet : Quiet host first)
    (failed : Dialogue.attachTo host g first = .error f fresh) (attended : Attended host scene)
    (graph : scene.dialogue.graph = g) :
    ∃ after, Dialogue.resetVariables host scene = .error f after := by
  cases resetVariables_alike quiet attended graph with
  | done left => cases left.symm.trans (attachTo_eq.symm.trans failed)
  | failed left right =>
    cases left.symm.trans (attachTo_eq.symm.trans failed)
    exact ⟨_, right⟩

/-! ### Without history -/

/-- Two dialogues that stand alike, the numbers of whose collections differ by a fixed amount. -/
def Dialogue.Apart (a b : Nat) (d d' : Dialogue) : Prop :=
  d.Unchanged d' ∧ d.gathering + a = d'.gathering + b

namespace Dialogue.Apart

variable {a b : Nat} {d d' : Dialogue}

theorem offer (apart : d.Apart a b d') {k k' : Nat} (both : k + a = k' + b) (e : Edge) :
    (d.offer k e).Apart a b (d'.offer k' e) := by
  obtain ⟨alike, number⟩ := apart
  -- the one offers it just when the other does
  have latest : d'.gathering = k' ↔ d.gathering = k := by omega
  unfold Dialogue.offer
  by_cases current : d.gathering = k
  · rw [if_pos current, if_pos (latest.2 current)]
    exact ⟨⟨alike.current, congrArg (· ++ [e]) alike.choices, alike.vars, alike.taken⟩, number⟩
  · rw [if_neg current, if_neg (mt latest.1 current)]
    exact ⟨alike, number⟩

theorem moveTo (apart : d.Apart a b d') (line : Option Node) :
    (d.moveTo line).Apart a b (d'.moveTo line) := by
  obtain ⟨alike, number⟩ := apart
  refine ⟨⟨rfl, rfl, alike.vars, alike.taken⟩, ?_⟩
  change d.gathering + 1 + a = d'.gathering + 1 + b
  omega

theorem put (apart : d.Apart a b d') (name : String) (v : Value) :
    (d.put name v).Apart a b (d'.put name v) := by
  obtain ⟨alike, number⟩ := apart
  exact ⟨⟨alike.current, alike.choices, congrArg (setEntry · name v) alike.vars, alike.taken⟩, number⟩

end Dialogue.Apart

section Side

variable {η' δ' : Type} {host' : Host η' δ'} {R : Dialogue → Dialogue → Prop} {other : Scene η' δ'}
  (twins : Twins host host' R scene other)

include twins

theorem log_agree (level : Level) (message : String) :
    Agree host host' R (fun _ => True) (Play.log level message) (Play.log level message)
      scene other :=
  .done rfl rfl (.enter (h := .logged ⟨level, message⟩) scene rfl) (fun _ _ => trivial)
    (twins.same (twins.attended.of_same rfl rfl) (twins.attended'.of_same rfl rfl) rfl rfl)

/-- Where to start from is a matter of the graph. -/
theorem startNode_agree (label : Option String) :
    Agree host host' R (fun _ => True) (Dialogue.startNode label) (Dialogue.startNode label)
      scene other := by
  rw [Dialogue.startNode, Dialogue.startNode]
  refine .read ?_
  have name : other.dialogue.name = scene.dialogue.name := congrArg Graph.name twins.graph
  rw [twins.graph, name]
  refine (Agree.orFault twins _ _).bind fun begin _ _ twins => ?_
  dsimp only
  split
  · exact .pure twins begin
  · refine (Agree.orFault twins _ _).bind fun named _ _ twins => ?_
    split
    · exact (log_agree twins _ _).bind fun _ _ _ twins => .pure twins begin
    · split
      · exact (log_agree twins _ _).bind fun _ _ _ twins => .pure twins begin
      · exact .pure twins _

end Side

/-- What a restart does once the dialogue is reset. -/
def Dialogue.beginAt (host : Host η δ) (label : Option String) : Play η δ Unit := do
  Dialogue.announce host (.starting label)
  Dialogue.runTo host (← Dialogue.startNode label) true

theorem restart_of_reset (label : Option String) (rerunHeader : Bool)
    (done : Dialogue.reset host true true true scene = .ok () after) :
    Dialogue.restart host true label rerunHeader scene = Dialogue.beginAt host label after := by
  have split : Dialogue.restart host true label rerunHeader
      = (do Dialogue.reset host true true true; Dialogue.beginAt host label) := rfl
  rw [split, Play.bind_ok done]

/-- From scenes that stand alike the way from the start is the same. -/
theorem beginAt_agree {other : Scene η δ} {a b : Nat}
    (twins : Twins host host (Dialogue.Apart a b) scene other) (label : Option String) :
    Agree host host (Dialogue.Apart a b) (fun _ => True) (Dialogue.beginAt host label)
      (Dialogue.beginAt host label) scene other := by
  have plain : ∀ name, Notice.starting label ≠ .requested name := by rintro _ ⟨⟩
  refine ((announce_agree twins plain plain).mono fun _ _ => trivial).bind fun _ _ _ twins => ?_
  refine (startNode_agree twins label).bind fun o _ _ twins => ?_
  exact runTo_agree (K := fun k k' => k + a = k' + b) (fun _ _ _ _ e both apart => apart.offer both e)
    (fun _ _ apart => apart.2) rfl (fun _ _ line apart => apart.moveTo line)
    (fun _ _ name v apart => apart.put name v) rfl twins o true

/-- A scene in which everything was reset: the dialogue stands nowhere and has the variables of its
header. -/
structure Bare (host : Host η δ) (g : Graph) (header : List (String × Value)) (scene : Scene η δ) :
    Prop where
  attended : Attended host scene
  graph : scene.dialogue.graph = g
  vars : scene.dialogue.vars = header
  current : scene.dialogue.current = none
  choices : scene.dialogue.choices = []
  taken : scene.dialogue.taken = []

theorem reset_bare (quiet : Quiet host first)
    (made : Dialogue.attachTo host g first = .ok () fresh) (attended : Attended host scene)
    (graph : scene.dialogue.graph = g) : ∃ after,
    Dialogue.reset host true true true scene = .ok () after ∧ Bare host g fresh.dialogue.vars after := by
  obtain ⟨renewed, ran, attended', graph', header⟩ := resetVariables_same quiet made attended graph
  exact ⟨_, reset_after true true ran, attended'.of_same rfl rfl, graph', header, rfl, rfl, rfl⟩

theorem Bare.twins {header : List (String × Value)} {other : Scene η δ}
    (bare : Bare host g header scene) (bare' : Bare host g header other) : Twins host host
      (Dialogue.Apart other.dialogue.gathering scene.dialogue.gathering) scene other where
  attended := bare.attended
  attended' := bare'.attended
  graph := bare'.graph.trans bare.graph.symm
  vars := bare'.vars.trans bare.vars.symm
  related := ⟨⟨bare'.current.trans bare.current.symm, bare'.choices.trans bare.choices.symm,
    bare'.vars.trans bare.vars.symm, bare'.taken.trans bare.taken.symm⟩, Nat.add_comm ..⟩

/-- A dialogue that has been made stands on its graph, among those who attended before. -/
theorem made_attended (quiet : Quiet host first)
    (made : Dialogue.attachTo host g first = .ok () fresh) :
    Attended host fresh ∧ fresh.dialogue.graph = g := by
  have there := (attached_onstage quiet g).quiet.attended
  obtain ⟨attended, _, graph, _⟩ :=
    (resetVariables_alike quiet there rfl).yields.of_done (header_ran made)
  exact ⟨attended, graph⟩

end Colloquy

namespace Colloquy.Script

variable {η δ : Type}

/-- A script whose header sets a variable, with an option. -/
def headerAndOption : String :=
  "===\n[set x 1]\n===\nA: hi\n* one\n    B: x\n"

/-- The option of that script was taken and the variable set to another value. -/
theorem behindOption_visited :
    ∃ c g fresh scene, compile .standard "script" headerAndOption = .ok c ∧ c.graph = some g
      ∧ Dialogue.attachTo (Host.silent 9 9) g (.alone g) = .ok () fresh
      ∧ fresh.dialogue.vars = [("x", .int 1)]
      ∧ (∃ last, Dialogue.restart (Host.silent 9 9) true none false fresh = .ok () last)
      ∧ Visited (Host.silent 9 9) g scene ∧ Onstage (Host.silent 9 9) g scene
      ∧ scene.dialogue.current.isSome = true ∧ scene.dialogue.taken.length = 1
      ∧ scene.dialogue.vars = [("x", .int 5)] := by
  have opens : ((compile .standard "script" headerAndOption).toOption.any fun c =>
      c.graph.any fun g =>
        ((Dialogue.attachTo (Host.silent 9 9) g).done? (.alone g)).any fun made =>
          made.2.dialogue.vars = [("x", .int 1)]
          && ((Dialogue.restart (Host.silent 9 9) true none false).done? made.2).isSome
          && (((Call.start none).play (Host.silent 9 9)).done? made.2).any fun started =>
            (((Call.choose 0).play (Host.silent 9 9)).done? started.2).any fun chosen =>
              (((Call.setVariable "x" (.int 5)).play (Host.silent 9 9)).done? chosen.2).any fun set =>
                set.2.dialogue.current.isSome && set.2.dialogue.taken.length = 1
                  && set.2.dialogue.vars = [("x", .int 5)]) = true := by
    decide +kernel
  obtain ⟨c, compiled, opens⟩ := exists_ok_of_any opens
  simp only [Bool.and_eq_true, decide_eq_true_eq, Option.any_eq_true, Option.isSome_iff_exists] at opens
  obtain ⟨g, graph, ⟨_, fresh⟩, made, ⟨header, ⟨_, last⟩, restarted⟩, ⟨_, started⟩, begun,
    ⟨_, chosen⟩, went, ⟨_, scene⟩, set, ⟨stands, taken⟩, vars⟩ := opens
  have made := Play.of_done? made
  have begun := Play.of_done? begun
  have went := Play.of_done? went
  have set := Play.of_done? set
  have visited := (((Visited.made made).returned (.call (.start none)) begun).returned
    (.call (.choose 0)) went).returned (.call (.setVariable "x" (.int 5))) set
  have reached := (((Reached.made made).returned (.start none) begun).returned (.choose 0) went).returned
    (.setVariable "x" (.int 5)) set
  have onstage := reached.onstage (sturdy_of_compile compiled graph) (alone_quiet 9 9 g)
  exact ⟨c, g, fresh, scene, compiled, graph, made, header, ⟨last, Play.of_done? restarted⟩, visited,
    onstage, Option.isSome_iff_exists.2 stands, taken, vars⟩

/-- **Resetting in parts.** A reset changes the variables only if asked to, to those of a fresh dialogue,
and the choices taken only if asked to. The line and its choices go if the position is reset, but with
the variables as well: where the header ends the dialogue has ended. If no fresh dialogue can be made
the variables cannot be reset either, for the same reason. -/
theorem resetting_in_parts {s : Settings} {name text : String} {c : Compilation} {g : Graph}
    (compiled : compile s name text = .ok c) (graph : c.graph = some g) {host : Host η δ}
    (loyal : Loyal host g) {first scene fresh : Scene η δ} (visited : Visited host g scene)
    (quiet : Quiet host scene) (quiet' : Quiet host first) (vars position taken : Bool) :
    ((vars = true → Dialogue.attachTo host g first = .ok () fresh) →
      ∃ after, Dialogue.reset host vars position taken scene = .ok () after
        ∧ scene.dialogue.ResetTo fresh.dialogue.vars vars position taken after.dialogue)
      ∧ ∀ f, vars = true → Dialogue.attachTo host g first = .error f fresh →
        ∃ after, Dialogue.reset host vars position taken scene = .error f after := by
  have sturdy := sturdy_of_compile compiled graph
  have onstage := (visited.standsOn loyal sturdy).onstage quiet
  cases vars with
  | false =>
    refine ⟨fun _ => ⟨_, reset_cleared position taken, ?_⟩, fun _ none => by cases none⟩
    exact scene.dialogue.cleared_resetTo _ position taken
  | true =>
    refine ⟨fun made => ?_, fun f _ failed => ?_⟩
    · obtain ⟨renewed, ran, _, _, header⟩ :=
        resetVariables_same quiet' (made rfl) quiet.attended onstage.graph
      have ended := ((resetVariables_clears sturdy onstage).of_done ran).2
      refine ⟨_, reset_after position taken ran, ?_⟩
      rw [← header]
      exact Dialogue.cleared_resetTo_of_vars ended position taken
    · obtain ⟨after, stopped⟩ := resetVariables_fails quiet' failed quiet.attended onstage.graph
      exact ⟨after, Play.bind_error stopped⟩

/-- Behind the option, and with another value of the variable, all but the position is to be reset: the
variable and the choices taken are, and the dialogue has ended. -/
theorem resetting_in_parts_header :
    ∃ c g fresh scene after, compile .standard "script" headerAndOption = .ok c
      ∧ c.graph = some g ∧ Loyal (Host.silent 9 9) g ∧ Visited (Host.silent 9 9) g scene
      ∧ Quiet (Host.silent 9 9) scene ∧ Quiet (Host.silent 9 9) (Scene.alone g)
      ∧ Dialogue.attachTo (Host.silent 9 9) g (.alone g) = .ok () fresh
      ∧ scene.dialogue.current.isSome = true ∧ scene.dialogue.taken.length = 1
      ∧ scene.dialogue.vars = [("x", .int 5)]
      ∧ Dialogue.reset (Host.silent 9 9) true false true scene = .ok () after
      ∧ after.dialogue.current = none ∧ after.dialogue.taken = []
      ∧ after.dialogue.vars = fresh.dialogue.vars ∧ fresh.dialogue.vars = [("x", .int 1)] := by
  obtain ⟨c, g, fresh, scene, compiled, graph, made, header, _, visited, onstage, stands, taken, vars⟩ :=
    behindOption_visited
  have loyal : Loyal (Host.silent 9 9) g := silent_loyal 9 9
  have quiet' := alone_quiet 9 9 g
  obtain ⟨after, done, reset⟩ := (resetting_in_parts compiled graph loyal visited onstage.quiet quiet'
    true false true).1 fun _ => made
  exact ⟨c, g, fresh, scene, after, compiled, graph, loyal, visited, onstage.quiet, quiet', made, stands,
    taken, vars, done, reset.current, reset.taken, reset.vars, header⟩

/-- On the line with the option just the variables are to be reset, of which there are none, and the
dialogue has ended. -/
theorem resetting_variables_ends :
    ∃ c g scene after, compile .standard "script" "A: hi\n* one\n    B: x\n" = .ok c
      ∧ c.diagnostics = [] ∧ c.graph = some g ∧ Visited (Host.silent 9 9) g scene
      ∧ Dialogue.reset (Host.silent 9 9) true false false scene = .ok () after
      ∧ scene.dialogue.current.isSome = true ∧ scene.dialogue.choices.length = 1
      ∧ after.dialogue.current = none ∧ after.dialogue.choices = [] := by
  have opens : ((compile .standard "script" "A: hi\n* one\n    B: x\n").toOption.any fun c =>
      c.diagnostics = [] && c.graph.any fun g =>
        (Scene.opening? (Host.silent 9 9) g).any fun scene => scene.dialogue.current.isSome
          && scene.dialogue.choices.length = 1
          && ((Dialogue.reset (Host.silent 9 9) true false false).done? scene).any fun result =>
            result.2.dialogue.current = none && result.2.dialogue.choices = []) = true := by
    decide +kernel
  obtain ⟨c, compiled, opens⟩ := exists_ok_of_any opens
  simp only [Bool.and_eq_true, decide_eq_true_eq, Option.any_eq_true] at opens
  obtain ⟨clean, g, graph, scene, opened, ⟨stands, offers⟩, ⟨_, after⟩, reset, ended, nothing⟩ := opens
  exact ⟨c, g, scene, after, compiled, clean, graph, opening_visited opened, Play.of_done? reset,
    stands, offers, ended, nothing⟩

/-- **A restart without history.** Wherever a dialogue has got to, by whatever calls, snapshots and
failures, a restart that resets it does what it does with a dialogue newly made on the graph: both
return or both fail, for the same reason, and leave the same line, choices, variables and choices
taken. -/
theorem restarting_forgets {g : Graph} {host : Host η δ} {first scene fresh : Scene η δ}
    (quiet : Quiet host first) (made : Dialogue.attachTo host g first = .ok () fresh)
    (attended : Attended host scene) (graph : scene.dialogue.graph = g) (label : Option String)
    (rerunHeader : Bool) :
    (∃ last last', Dialogue.restart host true label rerunHeader scene = .ok () last
        ∧ Dialogue.restart host true label rerunHeader fresh = .ok () last'
        ∧ last.dialogue.Unchanged last'.dialogue)
      ∨ ∃ f last last', Dialogue.restart host true label rerunHeader scene = .error f last
        ∧ Dialogue.restart host true label rerunHeader fresh = .error f last'
        ∧ last.dialogue.Unchanged last'.dialogue := by
  obtain ⟨attended', graph'⟩ := made_attended quiet made
  obtain ⟨cleared, reset, bare⟩ := reset_bare quiet made attended graph
  obtain ⟨cleared', reset', bare'⟩ := reset_bare quiet made attended' graph'
  rw [restart_of_reset label rerunHeader reset, restart_of_reset label rerunHeader reset']
  cases beginAt_agree (bare.twins bare') label with
  | done left right _ _ twins => exact .inl ⟨_, _, left, right, twins.related.1⟩
  | failed left right _ twins => exact .inr ⟨_, _, _, left, right, twins.related.1⟩

/-- Behind the option, and with another value of the variable, the dialogue is restarted. -/
theorem restarting_forgets_option :
    ∃ c g fresh scene last last', compile .standard "script" headerAndOption = .ok c
      ∧ c.graph = some g ∧ Quiet (Host.silent 9 9) (Scene.alone g)
      ∧ Dialogue.attachTo (Host.silent 9 9) g (.alone g) = .ok () fresh
      ∧ Attended (Host.silent 9 9) scene ∧ scene.dialogue.graph = g
      ∧ scene.dialogue.taken.length = 1 ∧ scene.dialogue.vars = [("x", .int 5)]
      ∧ Dialogue.restart (Host.silent 9 9) true none false scene = .ok () last
      ∧ Dialogue.restart (Host.silent 9 9) true none false fresh = .ok () last'
      ∧ last.dialogue.Unchanged last'.dialogue := by
  obtain ⟨c, g, fresh, scene, compiled, graph, made, _, ⟨last', done'⟩, _, onstage, _, taken, vars⟩ :=
    behindOption_visited
  have quiet := alone_quiet 9 9 g
  have attended := onstage.quiet.attended
  obtain ⟨last, _, done, same, alike⟩ | ⟨_, _, _, _, failed, _⟩ :=
    restarting_forgets quiet made attended onstage.graph none false
  · cases same.symm.trans done'
    exact ⟨c, g, fresh, scene, last, last', compiled, graph, quiet, made, attended, onstage.graph, taken,
      vars, done, done', alike⟩
  · cases failed.symm.trans done'

end Colloquy.Script
