import Colloquy.Proofs.Dialogue.Simulation
/-!
# Playing a compiled script without choices

A dialogue that is started on the graph of such a script, and goes on from line to line, does the
same as direct execution of the lines: it stands on the same lines, raises the same events in the
same order, and has the same variables.
-/

namespace Colloquy.Script

open Direct (Variables Raised Stand)

variable {η δ : Type} {host : Host η δ} {scene after : Scene η δ}
  {g : Graph} {endLabel : String} {script : List Item} {related : Option Node → List Item → Prop}

/-- Starts a dialogue and goes on from its lines so many times. -/
def playThrough (host : Host η δ) : Nat → Play η δ Unit
  | 0 => Dialogue.start host none
  | k + 1 => do
    playThrough host k
    let _ ← Dialogue.proceed host

/-- A scene has come to where direct execution stands: with its line, its variables and the events
that it has raised. -/
structure Presents (scene : Scene η δ) (raised : List Raised) (stand : Stand) (vars : Variables)
    (after : Scene η δ) : Prop where
  line : (after.dialogue.current.map fun n => (n.speaker, n.text)) = stand.spoken
  vars : after.dialogue.vars = vars
  events : after.events = scene.events ++ tellings scene.dialogue.participants raised

/-! ### Lines -/

section Standing

variable (g : Graph) (endLabel : String) (script : List Item)
  (related : Option Node → List Item → Prop)

/-- A dialogue stands where direct execution stands still, with the one way on from its line as the
only choice. -/
structure Standing (host : Host η δ) (scene : Scene η δ) (raised : List Raised) (stand : Stand)
    (vars : Variables) (after : Scene η δ) : Prop where
  quiet : Quiet host after
  graph : after.dialogue.graph = g
  participants : after.dialogue.participants = scene.dialogue.participants
  vars : after.dialogue.vars = vars
  events : after.events = scene.events ++ tellings scene.dialogue.participants raised
  stops : StopsAt g endLabel script related after.dialogue.current stand
  choices : after.dialogue.choices = after.dialogue.current.elim [] (·.edges)

end Standing

theorem Standing.presents {raised : List Raised} {stand : Stand} {vars : Variables}
    (standing : Standing g endLabel script related host scene raised stand vars after) :
    Presents scene raised stand vars after := by
  refine ⟨?_, standing.vars, standing.events⟩
  have stops := standing.stops
  cases stand with
  | ended =>
    have none : after.dialogue.current = none := stops
    rw [none]
    rfl
  | line speaker text rest =>
    obtain ⟨n, current, shows⟩ := stops
    rw [current]
    cases shows
    rfl

/-- Moving to a line and collecting its choices, everyone is told of the line. -/
theorem setLine_quiet {line : Option Node} {gathered : Scene η δ}
    (gather : Dialogue.gather host { scene with dialogue := scene.dialogue.moveTo line }
      = .ok () gathered) (quiet : Quiet host gathered) :
    Dialogue.setLine host line false scene
      = .ok () (gathered.told (if line.isSome then .line else .finished)) := by
  have moved : Play.changeDialogue (fun d => d.moveTo line) scene
    = .ok () { scene with dialogue := scene.dialogue.moveTo line } := rfl
  rw [Dialogue.setLine, Play.bind_ok moved, Play.bind_ok gather]
  exact announce_quiet quiet _

theorem gather_end (ended : scene.dialogue.current = none) :
    Dialogue.gather host scene = .ok () scene := by
  have read : Play.dialogue scene = .ok scene.dialogue scene := rfl
  rw [Dialogue.gather, Play.bind_ok read, ended]
  rfl

/-- A line without choices offers the one way on from it. -/
theorem gather_line {n : Node} {e : Edge} (current : scene.dialogue.current = some n)
    (edges : n.edges = [e]) (plain : n.hasChoices = false)
    (none : scene.dialogue.choices = []) :
    Dialogue.gather host scene
      = .ok () { scene with dialogue := { scene.dialogue with choices := [e] } } := by
  have read : Play.dialogue scene = .ok scene.dialogue scene := rfl
  have offered : scene.dialogue.offer scene.dialogue.gathering e
      = { scene.dialogue with choices := [e] } := by
    rw [Dialogue.offer, if_pos rfl, none]
    rfl
  have edge : n.edge? 0 = some e := by
    rw [Node.edge?, edges]
    rfl
  rw [Dialogue.gather, Play.bind_ok read, current]
  dsimp only
  rw [plain, if_neg Bool.noConfusion, edge, ← offered]
  rfl

/-- Telling of something other than an event only makes notes. -/
theorem events_told {notice : Notice} (silent : notice.raised = []) :
    (scene.told notice).events = scene.events := by
  have told := (told_goesOn scene notice).events
  rw [silent] at told
  exact told.trans (List.append_nil _)

/-- A dialogue that has run on comes to stand where direct execution stands still. -/
theorem runTo_standing {raised : List Raised} {stand : Stand} {vars : Variables}
    {o stop : Option Node} {ran : Scene η δ} (quiet : Quiet host scene)
    (graph : scene.dialogue.graph = g)
    (done : Dialogue.runOn host host.steps o scene = .ok stop ran)
    (goes : GoesOn scene vars raised ran) (stops : StopsAt g endLabel script related stop stand) :
    ∃ after, Dialogue.runTo host o true scene = .ok () after
      ∧ Standing g endLabel script related host scene raised stand vars after := by
  have quiet := goes.quiet quiet
  have same : ran.dialogue.graph = g := goes.graph.trans graph
  have participants : ran.dialogue.participants = scene.dialogue.participants := by
    rw [goes.dialogue]
  rw [Dialogue.runTo, Play.bind_ok done]
  cases stand with
  | ended =>
    obtain rfl : stop = none := stops
    have moved : Quiet host { ran with dialogue := ran.dialogue.moveTo none } :=
      ⟨quiet.1, quiet.2, quiet.3, quiet.4⟩
    refine ⟨_, setLine_quiet (gather_end rfl) moved, ?_⟩
    exact ⟨⟨quiet.1, quiet.2, quiet.3, quiet.4⟩, same, participants, goes.vars,
      (events_told rfl).trans goes.events, rfl, rfl⟩
  | line speaker text rest =>
    obtain ⟨n, rfl, shows⟩ := stops
    cases shows with
    | @say e _ kind edges plain onward =>
      have gathered := @gather_line _ _ host
        { ran with dialogue := ran.dialogue.moveTo (some n) } n e rfl edges plain rfl
      dsimp only
      rw [if_pos kind]
      refine ⟨_, setLine_quiet gathered ⟨quiet.1, quiet.2, quiet.3, quiet.4⟩, ?_⟩
      exact ⟨⟨quiet.1, quiet.2, quiet.3, quiet.4⟩, same, participants, goes.vars,
        (events_told rfl).trans goes.events, ⟨n, rfl, .say kind edges plain onward⟩, edges.symm⟩

/-- A dialogue that comes to a line or the end has run its steps before. -/
theorem runTo_inv {o : Option Node} {after : Scene η δ}
    (done : Dialogue.runTo host o true scene = .ok () after) :
    ∃ stop ran, Dialogue.runOn host host.steps o scene = .ok stop ran := by
  rw [Dialogue.runTo] at done
  cases result : Dialogue.runOn host host.steps o scene with
  | ok stop ran => exact ⟨stop, ran, rfl⟩
  | error =>
    rw [Play.bind_error result] at done
    cases done

/-! ### Starting and going on -/

/-- Starting from the first node of a script. -/
theorem start_quiet (quiet : Quiet host scene) (ended : scene.dialogue.current = none)
    {o : Option Node} (first : scene.dialogue.graph.firstNode = .ok o) :
    Dialogue.start host none scene
      = Dialogue.runTo host o true (scene.told (.starting none)) := by
  have read : Play.dialogue scene = .ok scene.dialogue scene := rfl
  have isEnded : scene.dialogue.isEnded = true := by
    rw [Dialogue.isEnded, ended]
    rfl
  have node : Dialogue.startNode none (scene.told (.starting none))
      = .ok o (scene.told (.starting none)) := by
    have read : Play.dialogue (scene.told (.starting none))
      = .ok scene.dialogue (scene.told (.starting none)) := rfl
    rw [Dialogue.startNode, Play.bind_ok read, first]
    rfl
  have restart : Dialogue.restart host false none false
    = (do
      Dialogue.announce host (.starting none)
      Dialogue.runTo host (← Dialogue.startNode none) true) := rfl
  rw [Dialogue.start, Play.bind_ok read, isEnded, if_pos rfl, restart,
    Play.bind_ok (announce_quiet quiet _), Play.bind_ok node]

/-- Going on from a line without choices. -/
theorem proceed_line (quiet : Quiet host scene) {n : Node} {e : Edge} {o : Option Node}
    (current : scene.dialogue.current = some n) (plain : n.hasChoices = false)
    (choices : scene.dialogue.choices = [e]) (arrives : Arrives scene.dialogue.graph e o) :
    Dialogue.proceed host scene
      = (Dialogue.runTo host o true >>= fun _ => Dialogue.isRunning) (scene.told .proceeding) := by
  have read : Play.dialogue scene = .ok scene.dialogue scene := rfl
  have choice : scene.dialogue.choice? 0 = some e := by
    rw [Dialogue.choice?, choices]
    rfl
  have noChoices : scene.dialogue.current.elim false (·.hasChoices) = false := by
    rw [current]
    exact plain
  have leads : Dialogue.target e (scene.told .proceeding) = .ok o (scene.told .proceeding) :=
    target_arrives arrives rfl
  rw [Dialogue.proceed, Play.bind_ok read, choices, if_pos (by rfl), Dialogue.choose,
    Play.bind_ok read, choice]
  dsimp only
  rw [noChoices, if_neg Bool.noConfusion, Play.bind_ok (announce_quiet quiet .proceeding),
    Play.bind_ok leads]

/-- At the end nothing goes on. -/
theorem proceed_end (ended : scene.dialogue.current = none) (none : scene.dialogue.choices = []) :
    Dialogue.proceed host scene = .ok false scene := by
  have read : Play.dialogue scene = .ok scene.dialogue scene := rfl
  rw [Dialogue.proceed, Play.bind_ok read, none, if_neg (by decide), Dialogue.isRunning,
    Play.bind_ok read, Dialogue.isEnded, ended]
  rfl

/-! ### Playing through -/

theorem Standing.trans {between : Scene η δ} {raised more : List Raised} {stand stand' : Stand}
    {vars vars' : Variables}
    (first : Standing g endLabel script related host scene raised stand vars between)
    (second : Standing g endLabel script related host between more stand' vars' after) :
    Standing g endLabel script related host scene (raised ++ more) stand' vars' after := by
  refine ⟨second.quiet, second.graph, second.participants.trans first.participants, second.vars, ?_,
    second.stops, second.choices⟩
  rw [second.events, first.events, first.participants, List.append_assoc, tellings, tellings,
    tellings, List.flatMap_append]

/-- A scene that has only been told of something is as good as before. -/
theorem Standing.after_told {notice : Notice} {raised : List Raised} {stand : Stand}
    {vars : Variables} (silent : notice.raised = [])
    (standing : Standing g endLabel script related host (scene.told notice) raised stand vars
      after) :
    Standing g endLabel script related host scene raised stand vars after := by
  refine ⟨standing.quiet, standing.graph, standing.participants, standing.vars, ?_,
    standing.stops, standing.choices⟩
  rw [standing.events, events_told silent]
  rfl

/-- A dialogue that is started comes to where direct execution stands still first. -/
theorem start_of_runs (performs : Performs g endLabel script related) {vars vars' : Variables}
    {raised : List Raised} {stand : Stand}
    (runs : Direct.Runs endLabel script script vars raised stand vars') :
    ∃ steps, ∀ (host : Host η δ) (scene : Scene η δ), steps ≤ host.steps → Quiet host scene →
      scene.dialogue.graph = g → scene.dialogue.current = none → scene.dialogue.vars = vars →
      ∃ after, Dialogue.start host none scene = .ok () after
        ∧ Standing g endLabel script related host scene raised stand vars' after := by
  obtain ⟨o, lines, first, glides, stands⟩ := performs.first
  obtain ⟨fuel, enough⟩ := runOn_of_runs performs runs
  refine ⟨fuel, fun host scene steps quiet graph ended same => ?_⟩
  have told : Quiet host (scene.told (.starting none)) := ⟨quiet.1, quiet.2, quiet.3, quiet.4⟩
  obtain ⟨stop, ran, done, goes, stops⟩ :=
    enough host _ host.steps o lines steps glides stands told graph same
  obtain ⟨after, finished, standing⟩ := runTo_standing told graph done goes stops
  refine ⟨after, ?_, standing.after_told rfl⟩
  rw [start_quiet quiet ended (graph ▸ first), finished]

/-- What the line offers on which a dialogue stands. -/
theorem Standing.line {scene : Scene η δ} {raised : List Raised} {speaker text : String}
    {rest : List Item} {vars : Variables}
    (standing : Standing g endLabel script related host scene raised (.line speaker text rest) vars
      after) :
    ∃ n e o ahead, after.dialogue.current = some n ∧ n.hasChoices = false
      ∧ after.dialogue.choices = [e] ∧ Arrives after.dialogue.graph e o
      ∧ Direct.Glides endLabel script rest ahead ∧ related o ahead := by
  obtain ⟨n, current, shows⟩ := standing.stops
  have choices := standing.choices
  rw [current, Option.elim_some] at choices
  cases shows with
  | @say e _ _ edges plain onward =>
    obtain ⟨o, ahead, arrives, glides, stands⟩ := onward
    exact ⟨n, e, o, ahead, current, plain, choices.trans edges, standing.graph ▸ arrives, glides,
      stands⟩

/-- A dialogue that goes on from a line comes to where direct execution stands still next. -/
theorem proceed_of_runs (performs : Performs g endLabel script related) {rest : List Item}
    {vars vars' : Variables} {more : List Raised} {stand : Stand}
    (runs : Direct.Runs endLabel script rest vars more stand vars') :
    ∃ steps, ∀ (host : Host η δ) (scene between : Scene η δ) (raised : List Raised)
      (speaker text : String), steps ≤ host.steps →
      Standing g endLabel script related host scene raised (.line speaker text rest) vars between →
      ∃ going after, Dialogue.proceed host between = .ok going after
        ∧ Standing g endLabel script related host between more stand vars' after := by
  obtain ⟨fuel, enough⟩ := runOn_of_runs performs runs
  refine ⟨fuel, fun host scene between raised speaker text steps standing => ?_⟩
  obtain ⟨n, e, o, ahead, current, plain, choices, arrives, glides, stands⟩ := standing.line
  have quiet := standing.quiet
  have told : Quiet host (between.told .proceeding) := ⟨quiet.1, quiet.2, quiet.3, quiet.4⟩
  obtain ⟨stop, ran, done, goes, stops⟩ :=
    enough host _ host.steps o ahead steps glides stands told standing.graph standing.vars
  obtain ⟨after, finished, standing'⟩ := runTo_standing told standing.graph done goes stops
  refine ⟨!after.dialogue.isEnded, after, ?_, standing'.after_told rfl⟩
  rw [proceed_line quiet current plain choices arrives, Play.bind_ok finished]
  rfl

/-- Where direct execution comes to, the dialogue does too. -/
theorem playThrough_of_plays (performs : Performs g endLabel script related) {k : Nat}
    {vars vars' : Variables} {raised : List Raised} {stand : Stand}
    (plays : Direct.Plays endLabel script vars k raised stand vars') :
    ∃ steps, ∀ (host : Host η δ) (scene : Scene η δ), steps ≤ host.steps → Quiet host scene →
      scene.dialogue.graph = g → scene.dialogue.current = none → scene.dialogue.vars = vars →
      ∃ after, playThrough host k scene = .ok () after
        ∧ Standing g endLabel script related host scene raised stand vars' after := by
  induction plays with
  | start first => exact start_of_runs performs first
  | @next k speaker text rest raised more stand vars' vars'' before now ih =>
    obtain ⟨steps, first⟩ := ih
    obtain ⟨steps', second⟩ := proceed_of_runs performs now
    refine ⟨max steps steps', fun host scene enough quiet graph ended same => ?_⟩
    obtain ⟨between, played, standing⟩ := first host scene (by omega) quiet graph ended same
    obtain ⟨going, after, done, standing'⟩ :=
      second host scene between raised speaker text (by omega) standing
    refine ⟨after, ?_, standing.trans standing'⟩
    rw [playThrough, Play.bind_ok played, Play.bind_ok done]
    rfl
  | @stays k raised vars' before ih =>
    obtain ⟨steps, first⟩ := ih
    refine ⟨steps, fun host scene enough quiet graph ended same => ?_⟩
    obtain ⟨between, played, standing⟩ := first host scene enough quiet graph ended same
    have current : between.dialogue.current = none := standing.stops
    have choices : between.dialogue.choices = [] := by
      rw [standing.choices, current]
      rfl
    refine ⟨between, ?_, standing⟩
    rw [playThrough, Play.bind_ok played, Play.bind_ok (proceed_end current choices)]
    rfl

/-- Where a dialogue that was started comes to, direct execution stands still first. -/
theorem runs_of_start (performs : Performs g endLabel script related) (quiet : Quiet host scene)
    (graph : scene.dialogue.graph = g) (ended : scene.dialogue.current = none)
    (started : Dialogue.start host none scene = .ok () after) :
    ∃ raised stand vars, Direct.Runs endLabel script script scene.dialogue.vars raised stand vars
      ∧ Standing g endLabel script related host scene raised stand vars after := by
  obtain ⟨o, lines, first, glides, stands⟩ := performs.first
  have told : Quiet host (scene.told (.starting none)) := ⟨quiet.1, quiet.2, quiet.3, quiet.4⟩
  rw [start_quiet quiet ended (graph ▸ first)] at started
  obtain ⟨stop, ran, done⟩ := runTo_inv started
  obtain ⟨vars, raised, stand, runs, goes, stops⟩ := runs_of_runOn performs stands told graph done
  obtain ⟨after', finished, standing⟩ := runTo_standing told graph done goes stops
  cases started.symm.trans finished
  exact ⟨raised, stand, vars, glides.runs runs, standing.after_told rfl⟩

/-- Where a dialogue comes to that went on from a line, direct execution stands still next. -/
theorem runs_of_proceed (performs : Performs g endLabel script related) {between : Scene η δ}
    {raised : List Raised} {speaker text : String} {rest : List Item} {vars : Variables}
    {going : Bool}
    (standing : Standing g endLabel script related host scene raised (.line speaker text rest) vars
      between)
    (proceeded : Dialogue.proceed host between = .ok going after) :
    ∃ more stand vars', Direct.Runs endLabel script rest vars more stand vars'
      ∧ Standing g endLabel script related host between more stand vars' after := by
  obtain ⟨n, e, o, ahead, current, plain, choices, arrives, glides, stands⟩ := standing.line
  have quiet := standing.quiet
  have told : Quiet host (between.told .proceeding) := ⟨quiet.1, quiet.2, quiet.3, quiet.4⟩
  rw [proceed_line quiet current plain choices arrives] at proceeded
  obtain ⟨_, ran, went, _⟩ := Play.bind_inv proceeded
  obtain ⟨stop, ran', done⟩ := runTo_inv went
  obtain ⟨vars', more, stand, runs, goes, stops⟩ :=
    runs_of_runOn performs stands told standing.graph done
  obtain ⟨after', finished, standing'⟩ := runTo_standing told standing.graph done goes stops
  rw [Play.bind_ok finished] at proceeded
  cases proceeded
  have same : (between.told .proceeding).dialogue.vars = vars := standing.vars
  exact ⟨more, stand, vars', glides.runs (same ▸ runs), standing'.after_told rfl⟩

/-- Where the dialogue comes to, direct execution does too. -/
theorem plays_of_playThrough (performs : Performs g endLabel script related) {k : Nat}
    (quiet : Quiet host scene) (graph : scene.dialogue.graph = g)
    (ended : scene.dialogue.current = none) (played : playThrough host k scene = .ok () after) :
    ∃ raised stand vars, Direct.Plays endLabel script scene.dialogue.vars k raised stand vars
      ∧ Standing g endLabel script related host scene raised stand vars after := by
  induction k generalizing after with
  | zero =>
    obtain ⟨raised, stand, vars, runs, standing⟩ := runs_of_start performs quiet graph ended played
    exact ⟨raised, stand, vars, .start runs, standing⟩
  | succ k ih =>
    rw [playThrough] at played
    obtain ⟨_, between, first, later⟩ := Play.bind_inv played
    obtain ⟨going, last, proceeded, same⟩ := Play.bind_inv later
    cases same
    obtain ⟨raised, stand, vars, plays, standing⟩ := ih first
    cases stand with
    | line speaker text rest =>
      obtain ⟨more, stand, vars', runs, standing'⟩ := runs_of_proceed performs standing proceeded
      exact ⟨raised ++ more, stand, vars', .next plays runs, standing.trans standing'⟩
    | ended =>
      have current : between.dialogue.current = none := standing.stops
      have choices : between.dialogue.choices = [] := by
        rw [standing.choices, current]
        rfl
      cases proceeded.symm.trans (proceed_end current choices)
      exact ⟨raised, .ended, vars, .stays plays, standing⟩

/-! ### Compiled scripts -/

/-- A dialogue on the graph of a script without choices plays the script: however often it goes on,
it comes to where direct execution of the lines comes to, and it comes nowhere else. -/
theorem compiled_plays {s : Settings} {name text : String} {c : Compilation} {g : Graph}
    (compiled : compile s name text = .ok c) (clean : c.hasErrors = false)
    (graph : c.graph = some g) (plain : IsPlain s (Text.lines text.toList)) (k : Nat)
    (vars : Variables) :
    (∀ raised stand vars', Direct.Plays s.endLabel (program s text) vars k raised stand vars' →
      ∃ steps, ∀ (host : Host η δ) (scene : Scene η δ), steps ≤ host.steps → Quiet host scene →
        scene.dialogue.graph = g → scene.dialogue.current = none → scene.dialogue.vars = vars →
        ∃ after, playThrough host k scene = .ok () after
          ∧ Presents scene raised stand vars' after)
    ∧ ∀ (host : Host η δ) (scene after : Scene η δ), Quiet host scene →
        scene.dialogue.graph = g → scene.dialogue.current = none → scene.dialogue.vars = vars →
        playThrough host k scene = .ok () after →
        ∃ raised stand vars', Direct.Plays s.endLabel (program s text) vars k raised stand vars'
          ∧ Presents scene raised stand vars' after := by
  obtain ⟨related, performs⟩ := compiled_performs compiled clean graph plain
  constructor
  · intro raised stand vars' plays
    obtain ⟨steps, enough⟩ := playThrough_of_plays (η := η) (δ := δ) performs plays
    refine ⟨steps, fun host scene long quiet same ended start => ?_⟩
    obtain ⟨after, played, standing⟩ := enough host scene long quiet same ended start
    exact ⟨after, played, standing.presents⟩
  · intro host scene after quiet same ended start played
    obtain ⟨raised, stand, vars', plays, standing⟩ :=
      plays_of_playThrough performs quiet same ended played
    exact ⟨raised, stand, vars', start ▸ plays, standing.presents⟩

/-- A script with an assignment and a block, gone on with once. -/
theorem compiled_plays_block :
    ∃ c g, compile .standard "script" "A: hi\n[set n 1]\n[if {n}]\nA: yes\n[endif]" = .ok c
      ∧ c.hasErrors = false ∧ c.graph = some g
      ∧ IsPlain .standard (Text.lines "A: hi\n[set n 1]\n[if {n}]\nA: yes\n[endif]".toList)
      ∧ ∃ steps, ∀ (host : Host Unit Unit) (scene : Scene Unit Unit), steps ≤ host.steps →
        Quiet host scene → scene.dialogue.graph = g → scene.dialogue.current = none →
        scene.dialogue.vars = [] →
        ∃ after, playThrough host 1 scene = .ok () after
          ∧ Presents scene [] (.line "A" "yes" [.endIf]) [("n", .int 1)] after := by
  have gives : ((compile .standard "script"
      "A: hi\n[set n 1]\n[if {n}]\nA: yes\n[endif]").toOption.any fun c =>
        !c.hasErrors && c.graph.isSome) = true := by
    decide +kernel
  have plain : IsPlain .standard
      (Text.lines "A: hi\n[set n 1]\n[if {n}]\nA: yes\n[endif]".toList) :=
    isPlain_of_all (by decide +kernel)
  have items : program .standard "A: hi\n[set n 1]\n[if {n}]\nA: yes\n[endif]"
      = [.say "A" "hi", .set "n" ⟨"1", [.push (.int 1)]⟩, .openIf ⟨"{n}", [.load "n"]⟩,
        .say "A" "yes", .endIf] := by
    decide +kernel
  have plays : Direct.Plays Settings.standard.endLabel
      (program .standard "A: hi\n[set n 1]\n[if {n}]\nA: yes\n[endif]") [] 1 []
      (.line "A" "yes" [.endIf]) [("n", .int 1)] := by
    rw [items]
    change Direct.Plays _ _ _ _ ([] ++ ([] ++ ([] ++ []))) _ _
    exact .next (.start (.spoke rfl)) (.went rfl (.went rfl (.spoke rfl)))
  obtain ⟨c, compiled, gives⟩ := exists_ok_of_any gives
  obtain ⟨clean, gives⟩ := Bool.and_eq_true_iff.1 gives
  obtain ⟨g, graph⟩ := Option.isSome_iff_exists.mp gives
  have clean := (Bool.not_eq_true' _).mp clean
  exact ⟨c, g, compiled, clean, graph, plain,
    (compiled_plays compiled clean graph plain 1 []).1 _ _ _ plays⟩

end Colloquy.Script
