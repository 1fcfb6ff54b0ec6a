import Colloquy.Proofs.Dialogue.Failures
import Colloquy.Proofs.Dialogue.Stopping
import Colloquy.Proofs.Script.Mixed
/-!
# From a line to its choices

Two walks lead from a line to its choices. The search for their root steps over what sets variables
and raises events, without running it. Choosing runs it, and then goes on through the selects behind
it with the variables as they are by then. So the walk begins with the steps that the search steps
over; if the selects behind them are overt it runs no other steps.
-/

namespace Colloquy

open Relation (ReflTransGen)

variable {η δ : Type} {host : Host η δ} {scene after : Scene η δ} {g : Graph}

/-- `g.StepsOver o path root`: from `o` the steps of `path`, which set variables or raise events,
follow each other up to `root`, which does neither. -/
inductive Graph.StepsOver (g : Graph) : Option Node → List Node → Node → Prop where
  | here {root : Node} (other : ¬ (root.kind = .setVariable ∨ root.kind = .event)) :
      StepsOver g (some root) [] root
  | past {n root : Node} {o : Option Node} {path : List Node}
      (kind : n.kind = .setVariable ∨ n.kind = .event) (next : g.next n = .ok o)
      (later : StepsOver g o path root) : StepsOver g (some n) (n :: path) root

/-! ### The search -/

theorem stepsOver_of_skipSteps {fuel : Nat} {o : Option Node} {seen : List Nat} {root : Node}
    (found : skipSteps g.nodes fuel o seen = .ok (some root)) :
    ∃ path, g.StepsOver o path root ∧ path.Nodup ∧ ∀ n ∈ path, n.index ∉ seen := by
  induction fuel generalizing o seen with
  | zero => cases found
  | succ fuel ih =>
    cases o with
    | none => cases found
    | some n =>
      rw [skipSteps] at found
      split at found
      next kind =>
        split at found
        · cases found
        next new =>
          obtain ⟨o, next, found⟩ := bind_eq_ok.1 found
          obtain ⟨path, steps, apart, fresh⟩ := ih found
          -- the search stops at a step it has seen, so this one is not met again
          refine ⟨n :: path, .past (by simpa using kind) next steps, ?_, ?_⟩
          · exact List.nodup_cons.2 ⟨fun twice => fresh n twice List.mem_cons_self, apart⟩
          · refine List.forall_mem_cons.2 ⟨by simpa using new, fun m member visited => ?_⟩
            exact fresh m member (List.mem_cons_of_mem _ visited)
      next other =>
        cases found
        exact ⟨[], .here (by simpa using other), .nil, fun _ none => by cases none⟩

/-- What stands between a line and the root of its choices. -/
theorem stepsOver_of_nextChoice {line root : Node} (found : g.nextChoice line = .ok (some root)) :
    ∃ o path, line.edges.length = 1 ∧ g.next line = .ok o ∧ g.StepsOver o path root
      ∧ path.Nodup := by
  rw [Graph.nextChoice, nextChoice] at found
  split at found
  · cases found
  next single =>
    obtain ⟨o, next, found⟩ := bind_eq_ok.1 found
    obtain ⟨start, skipped, found⟩ := bind_eq_ok.1 found
    cases start with
    | none => cases found
    | some n =>
      obtain ⟨leads, _, found⟩ := bind_eq_ok.1 found
      cases leads with
      | false => cases found
      | true =>
        cases found
        obtain ⟨path, steps, apart, _⟩ := stepsOver_of_skipSteps skipped
        exact ⟨o, path, by simpa using single, next, steps, apart⟩

/-- A step that sets a variable or raises an event leads to one node at most. -/
theorem Graph.WellFormed.next_of_target (formed : g.WellFormed) (rooted : Rooted g.nodes) {n : Node}
    (member : n ∈ g.nodes) (kind : n.kind = .setVariable ∨ n.kind = .event) {e : Edge}
    (own : e ∈ n.edges) {o o' : Option Node} (leads : g.target e = .ok o') (next : g.next n = .ok o) :
    o' = o := by
  obtain ⟨i, there⟩ := List.mem_iff_getElem?.1 member
  -- in the body a step has a single edge; in the header all edges of a step lead to one node
  have same (e' : Edge) (own' : e' ∈ n.edges) : e'.target = e.target := by
    obtain body | header := Nat.lt_or_ge i g.bodyLength
    · obtain ⟨single, edges, _⟩ := formed.step i n body there (.inr kind)
      rw [edges, List.mem_singleton] at own own'
      rw [own, own']
    · rw [(formed.header_edges i n header there e own).2.1,
        (formed.header_edges i n header there e' own').2.1]
  obtain ⟨_, next', ⟨none, _⟩ | ⟨e', own', leads'⟩⟩ := Graph.next_edge rooted member
  · rw [none] at own
    cases own
  · cases next.symm.trans next'
    rw [Graph.target, same e' own', ← Graph.target, leads] at leads'
    cases leads'
    rfl

/-- If no steps lead round in a circle from the root of the choices, none do from the line. -/
theorem Graph.StepsOver.straight (sturdy : g.Sturdy) {o : Option Node} {path : List Node} {root : Node}
    (steps : g.StepsOver o path root) (inside : g.Holds o) (straight : Straight g.RunsInto root) :
    ∀ n, o = some n → Straight g.RunsInto n := by
  induction steps with
  | here => exact fun n same => Option.some.inj same ▸ straight
  | @past n root o path kind next _ ih =>
    rintro _ ⟨⟩
    have member := inside n rfl
    obtain ⟨o', next', later⟩ := sturdy.next member
    cases next.symm.trans next'
    refine .of_next fun m ⟨_, _, e, own, leads⟩ => ih later straight m ?_
    exact (sturdy.formed.next_of_target sturdy.rooted member kind own leads next).symm

/-! ### The walk -/

/-- A step that sets a variable or raises an event goes on to the node after it. -/
theorem runNode_next (quiet : Quiet host scene) (graph : scene.dialogue.graph = g) {n : Node}
    (member : n ∈ g.nodes) (kind : n.kind = .setVariable ∨ n.kind = .event) {o o' : Option Node}
    (next : g.next n = .ok o) (ran : Dialogue.runNode host n scene = .ok o' after) : o' = o := by
  have goesOn {between : Scene η δ} (ran : scene.Ran between)
      (went : Dialogue.next n between = .ok o' after) : o' = o := by
    cases (next_yields (ran.graph.trans graph) next).symm.trans went
    rfl
  rw [Dialogue.runNode] at ran
  obtain kind | kind := kind <;> rw [kind] at ran <;>
    obtain ⟨_, between, first, went⟩ := Play.bind_inv ran
  · exact goesOn ((runAssignment_yields quiet member).of_done first) went
  · exact goesOn ((runEvent_yields quiet member).of_done first) went

/-- A run begins with the steps that follow each other from where it begins. -/
theorem RunsThrough.split (rooted : Rooted g.nodes) {o : Option Node} {path : List Node} {root : Node}
    (steps : g.StepsOver o path root) (inside : g.Holds o) (quiet : Quiet host scene)
    (graph : scene.dialogue.graph = g) {whole : List Node} {stop : Option Node}
    (through : RunsThrough host whole o scene stop after) :
    ∃ rest between, whole = path ++ rest ∧ Quiet host between ∧ between.dialogue.graph = g
      ∧ g.Holds (some root) ∧ RunsThrough host rest (some root) between stop after := by
  induction steps generalizing scene whole with
  | here => exact ⟨whole, scene, rfl, quiet, graph, inside, through⟩
  | @past n root o path kind next _ ih =>
    have member := inside n rfl
    have runs : n.kind.runsOn = true := by
      obtain kind | kind := kind <;> rw [kind] <;> rfl
    cases through with
    | stop still => cases runs.symm.trans (still n rfl)
    | @step _ o' _ whole _ middle _ runs ran later =>
      -- the step may change variables, but where it leads does not depend on them
      obtain rfl := runNode_next quiet graph member kind next ran
      have went := (runNode_yields rooted quiet graph member runs).of_done ran
      obtain ⟨rest, between, rfl, kept⟩ := ih (went.holds rooted member) (went.1.quiet quiet)
        (went.1.graph.trans graph) later
      exact ⟨rest, between, rfl, kept⟩

/-- From a choice or a select the walk runs selects alone, up to a choice or the end, if these selects
are overt. -/
theorem selects_of_run (rooted : Rooted g.nodes) (unmixed : g.Unmixed) {o : Option Node}
    (inside : g.Holds o) (kind : ∀ n, o = some n → n.kind = .choice ∨ n.kind = .select)
    (overt : ∀ n, o = some n → ∀ x, ReflTransGen g.RunsInto n x → x.kind = .select → g.Overt x)
    (quiet : Quiet host scene) (graph : scene.dialogue.graph = g) {path : List Node}
    {stop : Option Node} (through : RunsThrough host path o scene stop after) :
    (∀ x ∈ path, x.kind = .select) ∧ ∀ n, stop = some n → n.kind = .choice := by
  induction through with
  | stop still =>
    refine ⟨List.forall_mem_nil _, fun n same => (kind n same).resolve_right fun select => ?_⟩
    have stays := still n same
    rw [select] at stays
    cases stays
  | @step n o stop path scene between after runs ran _ ih =>
    have member := inside n rfl
    have select : n.kind = .select := by
      refine (kind n rfl).resolve_left fun choice => ?_
      rw [choice] at runs
      cases runs
    have went := (runNode_yields rooted quiet graph member runs).of_done ran
    have branches (m : Node) (same : o = some m) : m.kind = .choice ∨ m.kind = .select := by
      obtain none | ⟨e, own, leads⟩ := went.2
      · cases none.symm.trans same
      · exact (overt n rfl n .refl select).branches unmixed member select own (same ▸ leads)
    have further (m : Node) (same : o = some m) (x : Node) (reached : ReflTransGen g.RunsInto m x)
        (isSelect : x.kind = .select) : g.Overt x := by
      refine overt n rfl x ?_ isSelect
      obtain none | ⟨e, own, leads⟩ := went.2
      · cases none.symm.trans same
      · refine .head ⟨runs, ?_, e, own, same ▸ leads⟩ reached
        -- what is not run leads nowhere, so it would be the select itself
        obtain rfl | ⟨_, ⟨runs', _⟩, _⟩ := reached.cases_head
        · rw [isSelect]
          rfl
        · exact runs'
    obtain ⟨selects, stops⟩ := ih (went.holds rooted member) branches further
      (went.1.quiet quiet) (went.1.graph.trans graph)
    exact ⟨List.forall_mem_cons.2 ⟨select, selects⟩, stops⟩

/-! ### Choosing -/

/-- What choosing ends with: a run from where the way on leads. -/
def Dialogue.follow (host : Host η δ) (e : Edge) : Play η δ Bool := do
  Dialogue.runTo host (← Dialogue.target e) true
  Dialogue.isRunning

/-- A scene in which a choice was taken and everyone was told, and nothing has been run yet. -/
def Scene.chosen (scene : Scene η δ) (e : Edge) (index : Int) : Scene η δ :=
  let noted : Scene η δ := { scene with dialogue := scene.dialogue.take e.textId }
  (noted.told (.choice index)).told .proceeding

theorem chosen_stays (scene : Scene η δ) (e : Edge) (index : Int) :
    scene.Stays (scene.chosen e index) :=
  (take_stays scene e.textId).trans
    ((told_goesOn _ (.choice index)).ran.stays.trans (told_goesOn _ .proceeding).ran.stays)

/-- In a quiet scene choosing runs to the choice and then follows the way on. -/
theorem choose_quiet (onstage : Onstage host g scene) {line : Node} {e : Edge} {index : Int}
    (current : scene.dialogue.current = some line) (has : line.hasChoices = true)
    (way : scene.dialogue.choice? index = some e) :
    Dialogue.choose host index scene
      = (do Dialogue.runToChoice host line; Dialogue.follow host e) (scene.chosen e index) := by
  let noted : Scene η δ := { scene with dialogue := scene.dialogue.take e.textId }
  have read (scene : Scene η δ) : Play.dialogue scene = .ok scene.dialogue scene := rfl
  have took : Play.changeDialogue (fun d => d.take e.textId) scene = .ok () noted := rfl
  have quiet : Quiet host noted := ((take_stays scene e.textId).onstage onstage).quiet
  have quiet' : Quiet host (noted.told (.choice index)) := (told_goesOn _ _).quiet quiet
  have offers : scene.dialogue.current.elim false (·.hasChoices) = true := by
    rw [current]
    exact has
  have stands : ((noted.told (.choice index)).told .proceeding).dialogue.current = some line :=
    (chosen_stays scene e index).current.trans current
  rw [Dialogue.choose, Play.bind_ok (read scene), way]
  dsimp only
  rw [if_pos offers, Play.bind_ok took, Play.bind_ok (announce_quiet quiet _),
    Play.bind_ok (announce_quiet quiet' _), Play.bind_ok (read _), stands]
  rfl

/-- What is run after a choice was taken, from the step after the line. -/
theorem choose_runs (onstage : Onstage host g scene) {line : Node} {e : Edge} {index : Int}
    (current : scene.dialogue.current = some line) (has : line.hasChoices = true)
    (way : scene.dialogue.choice? index = some e) (single : line.edges.length = 1)
    {o : Option Node} (next : g.next line = .ok o) :
    Dialogue.choose host index scene
      = (do let _ ← Dialogue.runOn host host.steps o; Dialogue.follow host e)
        (scene.chosen e index) := by
  have ready := (chosen_stays scene e index).onstage onstage
  have goes : Dialogue.runToChoice host line (scene.chosen e index)
      = (do let _ ← Dialogue.runOn host host.steps o) (scene.chosen e index) := by
    rw [Dialogue.runToChoice, if_pos single, Play.bind_ok (next_yields ready.graph next)]
  rw [choose_quiet onstage current has way]
  cases ran : Dialogue.runOn host host.steps o (scene.chosen e index) with
  | error f last =>
    rw [Play.bind_error ran, Play.bind_error (goes.trans (Play.bind_error ran))]
  | ok stop between => rw [Play.bind_ok ran, Play.bind_ok (goes.trans (Play.bind_ok ran))]

namespace Script

variable {s : Settings} {name text : String} {c : Compilation}

/-- **The two walks from a line.** If the selects behind a line do not lead round in a circle, then
choosing first runs, each once and in order, the steps that the search for the choices steps over,
goes on from the root of the choices without running a step twice, and follows the way on; or it comes
to an expression that cannot be evaluated. In a script that is not warned of a mixed block it runs
nothing but selects after the root, up to a choice or the end, if all of them are overt. -/
theorem walks_agree (compiled : compile s name text = .ok c) (graph : c.graph = some g)
    (clean : ∀ line, mixing line ∉ c.diagnostics) (onstage : Onstage host g scene)
    (long : g.nodes.length ≤ host.steps) {line : Node} {e : Edge} {index : Int}
    (current : scene.dialogue.current = some line) (has : line.hasChoices = true)
    (way : scene.dialogue.choice? index = some e) :
    ∃ o root steps, g.next line = .ok o ∧ g.nextChoice line = .ok (some root)
      ∧ g.StepsOver o steps root ∧ steps.Nodup
      ∧ (Straight g.RunsInto root →
        (∃ f last, Dialogue.choose host index scene = .error f last
          ∧ Halted g (scene.chosen e index) f last)
        ∨ ∃ rest stop between,
          RunsThrough host (steps ++ rest) o (scene.chosen e index) stop between
          ∧ (steps ++ rest).Nodup
          ∧ Dialogue.choose host index scene = Dialogue.follow host e between
          ∧ ((∀ x, ReflTransGen g.RunsInto root x → x.kind = .select → g.Overt x) →
            (∀ x ∈ rest, x.kind = .select) ∧ ∀ n, stop = some n → n.kind = .choice)) := by
  have sturdy := sturdy_of_compile compiled graph
  obtain ⟨member, isText⟩ := onstage.line line current
  obtain ⟨_, found, noted⟩ := sturdy.root line member isText
  rw [has] at noted
  obtain ⟨root, rfl⟩ := Option.isSome_iff_exists.1 noted
  obtain ⟨o, steps, single, next, skips, apart⟩ := stepsOver_of_nextChoice found
  obtain ⟨there, kind⟩ := sturdy.rooted.nextChoice_root member found
  refine ⟨o, root, steps, next, found, skips, apart, fun straight => ?_⟩
  obtain ⟨o', next', inside⟩ := sturdy.next member
  cases next.symm.trans next'
  have ready := (chosen_stays scene e index).onstage onstage
  have enough : g.nodes.length ≤ ([] : List Node).length + host.steps := by
    rwa [List.length_nil, Nat.zero_add]
  -- what leads round in no circle from the root leads round in none from the line either
  have runs := runOn_straight sturdy.rooted ready.quiet ready.graph
    (skips.straight sturdy inside straight) inside .nil (fun n _ _ => .start _ _ n) enough
  rw [choose_runs onstage current has way single next]
  cases ran : Dialogue.runOn host host.steps o (scene.chosen e index) with
  | error f last => exact .inl ⟨f, last, Play.bind_error ran, runs.of_failed ran⟩
  | ok stop between =>
    obtain ⟨_, _, whole, through, distinct⟩ := runs.of_done ran
    rw [List.append_nil, List.nodup_reverse] at distinct
    obtain ⟨rest, middle, rfl, quiet, stands, within, through'⟩ :=
      through.split sturdy.rooted skips inside ready.quiet ready.graph
    refine .inr ⟨rest, stop, between, through, distinct, Play.bind_ok ran, fun overt => ?_⟩
    exact selects_of_run sturdy.rooted (unmixed_of_compile compiled graph clean) within
      (fun n same => Option.some.inj same ▸ kind) (fun n same => Option.some.inj same ▸ overt) quiet
      stands through'

/-- A line with a step that sets a variable before its option, which stands in a block of a block. -/
def setBeforeNested : String :=
  "A: hi\n[set x true]\n[if true]\n    [if true]\n        :l\n        * one\n            B: x\n"
    ++ "    [endif]\n[endif]\n"

/-- Choosing that option. -/
theorem walks_agree_nested :
    ∃ c g scene line e o root steps, compile .standard "script" setBeforeNested = .ok c
      ∧ c.graph = some g ∧ (∀ line, mixing line ∉ c.diagnostics)
      ∧ Onstage (Host.silent 9 9) g scene ∧ g.nodes.length ≤ (Host.silent 9 9).steps
      ∧ scene.dialogue.current = some line ∧ line.hasChoices = true
      ∧ scene.dialogue.choice? 0 = some e ∧ g.next line = .ok o
      ∧ g.nextChoice line = .ok (some root) ∧ g.StepsOver o steps root ∧ steps ≠ []
      ∧ Straight g.RunsInto root
      ∧ (∀ x, ReflTransGen g.RunsInto root x → x.kind = .select → g.Overt x)
      ∧ ∃ rest stop between,
        RunsThrough (Host.silent 9 9) (steps ++ rest) o (scene.chosen e 0) stop between
        ∧ Dialogue.choose (Host.silent 9 9) 0 scene = Dialogue.follow (Host.silent 9 9) e between
        ∧ (∀ x ∈ rest, x.kind = .select) ∧ ∀ n, stop = some n → n.kind = .choice := by
  have opens : ((compile .standard "script" setBeforeNested).toOption.any fun c =>
      c.diagnostics = [] && c.graph.any fun g => g.isOvert && g.runsOnward && g.nodes.length ≤ 9
        && (Scene.opening? (Host.silent 9 9) g).any fun scene =>
          ((Dialogue.choose (Host.silent 9 9) 0).done? scene).isSome
          && (scene.dialogue.choice? 0).isSome && scene.dialogue.current.any fun line =>
            line.hasChoices && (g.next line).toOption.any fun o =>
              o.any (·.kind = .setVariable)) = true := by
    decide +kernel
  obtain ⟨c, compiled, opens⟩ := exists_ok_of_any opens
  simp only [Bool.and_eq_true, decide_eq_true_eq, Option.any_eq_true, toOption_eq_some,
    Option.isSome_iff_exists] at opens
  obtain ⟨silent, g, graph, ⟨⟨isOvert, onward⟩, long⟩, scene, opened, ⟨⟨⟨_, last⟩, done⟩, e, way⟩,
    line, current, has, o, next, n, first, sets⟩ := opens
  have sturdy := sturdy_of_compile compiled graph
  have onstage := opening_onstage sturdy (alone_quiet 9 9 g) opened
  have clean : ∀ line, mixing line ∉ c.diagnostics := by simp [silent]
  obtain ⟨o', root, steps, next', found, skips, _, walks⟩ :=
    walks_agree compiled graph clean onstage long current has way
  cases next.symm.trans next'
  have there := (sturdy.rooted.nextChoice_root (onstage.line line current).1 found).1
  have straight : Straight g.RunsInto root := straight_of_unlooped sturdy.rooted
    (fun _ member => unlooped_of_runsOnward sturdy.rooted onward member) there
  have overt (x : Node) (reached : ReflTransGen g.RunsInto root x) (select : x.kind = .select) :
      g.Overt x :=
    Graph.overt_of_isOvert isOvert (mem_of_run sturdy.rooted reached there) select
  have some : steps ≠ [] := by
    rintro rfl
    cases skips with
    | here other =>
      cases first
      exact other (.inl sets)
  obtain ⟨f, _, failed, _⟩ | ⟨rest, stop, between, through, _, follows, ends⟩ := walks straight
  · cases (Play.of_done? done).symm.trans failed
  · exact ⟨c, g, scene, line, e, o, root, steps, compiled, graph, clean, onstage, long, current, has,
      way, next, found, skips, some, straight, overt, rest, stop, between, through, follows, ends overt⟩

/-- The set step decides which branch is taken: when the line is reached the second one offers its
option, but when that is chosen the walk goes into the first one. -/
def setTurnsBranch : String :=
  "A: hi\n[set x true]\n[if \x7bx\x7d]\n    [set z 1]\n    C: text\n[else]\n    [if true]\n        :l\n"
    ++ "        * one\n            B: x\n    [endif]\n[endif]\n"

/-- Nothing is found wrong with the script. The search for the choices of its first line steps over one
step, but choosing also sets the variable of the branch, and stops at the line there. -/
theorem choosing_runs_branch :
    ∃ c g scene line e o root n stop between, compile .standard "script" setTurnsBranch = .ok c
      ∧ c.diagnostics = [] ∧ c.graph = some g ∧ Onstage (Host.silent 9 9) g scene
      ∧ scene.dialogue.current = some line ∧ line.hasChoices = true
      ∧ scene.dialogue.choice? 0 = some e ∧ g.next line = .ok o
      ∧ g.nextChoice line = .ok (some root) ∧ g.StepsOver o [n] root ∧ n.identifier = "x"
      ∧ Dialogue.runOn (Host.silent 9 9) 9 o (scene.chosen e 0) = .ok (some stop) between
      ∧ Dialogue.choose (Host.silent 9 9) 0 scene = Dialogue.follow (Host.silent 9 9) e between
      ∧ stop.kind = .text ∧ scene.dialogue.value? "z" = none
      ∧ between.dialogue.value? "z" = some (.int 1) := by
  have opens : ((compile .standard "script" setTurnsBranch).toOption.any fun c =>
      c.diagnostics = [] && c.graph.any fun g =>
        (Scene.opening? (Host.silent 9 9) g).any fun scene => scene.dialogue.value? "z" = none
          && scene.dialogue.current.any fun line => line.hasChoices
            && (scene.dialogue.choice? 0).any fun e => (g.next line).toOption.any fun o =>
              (o.any fun n => n.kind = .setVariable && n.identifier = "x"
                && (g.next n).toOption.any fun r => r.any (·.kind = .select))
              && ((Dialogue.runOn (Host.silent 9 9) 9 o).done? (scene.chosen e 0)).any fun result =>
                result.1.any (·.kind = .text)
                  && result.2.dialogue.value? "z" = some (.int 1)) = true := by
    decide +kernel
  obtain ⟨c, compiled, opens⟩ := exists_ok_of_any opens
  simp only [Bool.and_eq_true, decide_eq_true_eq, Option.any_eq_true, toOption_eq_some] at opens
  obtain ⟨clean, g, graph, scene, opened, unset, line, current, has, e, way, o, next, opens⟩ := opens
  obtain ⟨⟨n, first, ⟨sets, identifier⟩, r, second, m, leads, select⟩, ⟨_, between⟩, ran,
    ⟨stop, stops, text⟩, changed⟩ := opens
  have sturdy := sturdy_of_compile compiled graph
  have onstage := opening_onstage sturdy (alone_quiet 9 9 g) opened
  obtain ⟨member, isText⟩ := onstage.line line current
  obtain ⟨_, found, noted⟩ := sturdy.root line member isText
  rw [has] at noted
  obtain ⟨root, rfl⟩ := Option.isSome_iff_exists.1 noted
  obtain ⟨_, path, single, next', skips, _⟩ := stepsOver_of_nextChoice found
  cases next.symm.trans next'
  have runs : Dialogue.runOn (Host.silent 9 9) 9 o (scene.chosen e 0) = .ok (some stop) between :=
    stops ▸ Play.of_done? ran
  have follows : Dialogue.choose (Host.silent 9 9) 0 scene
      = Dialogue.follow (Host.silent 9 9) e between :=
    (choose_runs onstage current has way single next).trans (Play.bind_ok runs)
  refine ⟨c, g, scene, line, e, o, root, n, stop, between, compiled, clean, graph, onstage, current,
    has, way, next, found, ?_, identifier, runs, follows, text, unset, changed⟩
  subst first leads
  cases skips with
  | here other => exact absurd (.inl sets) other
  | past kind next₂ later =>
    cases second.symm.trans next₂
    cases later with
    | here other => exact .past kind second (.here other)
    | past kind' =>
      rw [select] at kind'
      obtain kind' | kind' := kind' <;> cases kind'

end Script

end Colloquy
