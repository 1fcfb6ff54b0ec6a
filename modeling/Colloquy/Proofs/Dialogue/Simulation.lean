import Colloquy.Proofs.Dialogue.Quiet
import Colloquy.Proofs.Script.Course
/-!
# Running a graph that performs a script

A dialogue on such a graph runs through it as direct execution runs through the script: steps do
what lines do, and lines are said in the same order.
-/

namespace Colloquy.Script

open Direct (Variables Raised Progress Stand)

variable {η δ : Type} {host : Host η δ} {scene : Scene η δ}
  {g : Graph} {endLabel : String} {script : List Item} {related : Option Node → List Item → Prop}

/-- Whether the scene and the node to go on with are where direct execution has come to. -/
def KeepsUp (endLabel : String) (script : List Item) (related : Option Node → List Item → Prop)
    (scene : Scene η δ) (progress : Progress) (o : Option Node) (after : Scene η δ) : Prop :=
  ∃ rest vars raised lines, progress = .went rest vars raised ∧ GoesOn scene vars raised after
    ∧ Direct.Glides endLabel script rest lines ∧ related o lines

/-! ### Steps -/

theorem node?_of_arrives {e : Edge} {o : Option Node} (arrives : Arrives g e o) :
    g.node? e.target = .ok o := by
  cases o with
  | none =>
    have none : e.target = none := arrives
    rw [none]
    rfl
  | some n =>
    obtain ⟨p, target, there⟩ := arrives
    have inside : ¬ (p : Int) < 0 := by omega
    simp [target, Graph.node?, Ref.ofNat, inside, there]

theorem target_arrives {e : Edge} {o : Option Node} (arrives : Arrives g e o)
    (graph : scene.dialogue.graph = g) : Dialogue.target e scene = .ok o scene := by
  have read : Play.dialogue scene = .ok scene.dialogue scene := rfl
  rw [Dialogue.target, Play.bind_ok read, graph, Graph.target, node?_of_arrives arrives]
  rfl

theorem next_arrives {n : Node} {e : Edge} {o : Option Node} (edges : n.edges = [e])
    (arrives : Arrives g e o) (graph : scene.dialogue.graph = g) :
    Dialogue.next n scene = .ok o scene := by
  have read : Play.dialogue scene = .ok scene.dialogue scene := rfl
  have found : successor g.nodes n = .ok o := by
    rw [successor, edges]
    dsimp only
    cases o with
    | none =>
      have none : e.target = none := arrives
      rw [none]
    | some m =>
      obtain ⟨p, target, there⟩ := arrives
      rw [target]
      dsimp only
      rw [follow_ofNat there]
      rfl
  rw [Dialogue.next, Play.bind_ok read, graph, Graph.next, found]
  rfl

/-- The branch that is taken is the one that direct execution enters. -/
theorem takeBranch_shows {n : Node} {edges : List Edge} {arms : List Arm}
    (branches : List.Forall₂ (fun e arm => e.condition = some arm.1
      ∧ Onward g endLabel script related e arm.2) edges arms)
    (stop : related none []) (quiet : Quiet host scene) (graph : scene.dialogue.graph = g) :
    Mirrors (Direct.firstArm scene.dialogue.vars arms) (Dialogue.takeBranch host n edges) scene
      fun lines o after => GoesOn scene scene.dialogue.vars [] after
        ∧ ∃ rest, Direct.Glides endLabel script lines rest ∧ related o rest := by
  induction branches generalizing scene with
  | nil => exact .pure ⟨.refl scene, [], .here, stop⟩
  | @cons e arm edges arms first _ ih =>
    obtain ⟨condition, o, rest, arrives, glides, stands⟩ := first
    rw [Direct.firstArm, Dialogue.takeBranch, condition]
    refine (holds_quiet quiet arm.1 n).bind fun _ held after result => ?_
    obtain ⟨same, goes⟩ := result
    subst same
    cases held with
    | true =>
      rw [if_pos rfl, if_pos rfl]
      exact ⟨o, after, target_arrives arrives (goes.graph.trans graph), goes, rest, glides, stands⟩
    | false =>
      rw [if_neg Bool.noConfusion, if_neg Bool.noConfusion]
      have others := ih (goes.quiet quiet) (goes.graph.trans graph)
      rw [goes.vars] at others
      exact others.mono fun lines o last both => ⟨goes.trans both.1, both.2⟩

theorem assign_quiet (quiet : Quiet host scene) (name : String) (v : Value) :
    ∃ after, Dialogue.assign host name v true scene = .ok () after
      ∧ GoesOn scene (Direct.assigned scene.dialogue.vars name (some v)) [] after := by
  have read : Play.dialogue scene = .ok scene.dialogue scene := rfl
  rw [Dialogue.assign, Play.bind_ok read, Direct.assigned, Dialogue.value?]
  by_cases same : equalOrUnset (scene.dialogue.vars.lookup name) (some v) = true
  · rw [if_pos same, if_pos same]
    exact ⟨scene, rfl, .refl scene⟩
  · rw [if_neg same, if_neg same]
    let set : Scene η δ := { scene with dialogue := scene.dialogue.put name v }
    have put : Play.changeDialogue (fun d => d.put name v) scene = .ok () set := rfl
    have goes : GoesOn scene (setEntry scene.dialogue.vars name v) [] set :=
      ⟨rfl, rfl, (List.append_nil _).symm⟩
    rw [Play.bind_ok put, announce_quiet (goes.quiet quiet)]
    exact ⟨_, rfl, goes.trans (told_goesOn set (.changed name v true))⟩

theorem runAssignment_quiet (quiet : Quiet host scene) {n : Node} {x : Expression}
    (expression : n.expression = some x) :
    Mirrors (Direct.value scene.dialogue.vars x) (Dialogue.runAssignment host n) scene
      fun v _ after =>
        GoesOn scene (Direct.assigned scene.dialogue.vars n.identifier v) [] after := by
  rw [Dialogue.runAssignment, expression]
  refine (evaluate_quiet quiet x n).andThen fun _ v after result => ?_
  obtain ⟨same, goes⟩ := result
  subst same
  cases v with
  | none =>
    obtain ⟨last, logged, silent⟩ := logAt_goesOn after .warning n
      ("[set " ++ n.identifier ++ "] produced no value, skipped")
    exact ⟨(), last, logged, goes.trans (goes.vars ▸ silent)⟩
  | some v =>
    obtain ⟨last, done, more⟩ := assign_quiet (goes.quiet quiet) n.identifier v
    rw [goes.vars] at more
    exact ⟨(), last, done, goes.trans more⟩

theorem runEvent_quiet (quiet : Quiet host scene) (n : Node) :
    Mirrors (n.eventArgs.mapM (Direct.value scene.dialogue.vars)) (Dialogue.runEvent host n) scene
      fun args _ after => GoesOn scene scene.dialogue.vars [⟨n.eventName, args⟩] after := by
  rw [Dialogue.runEvent]
  refine (evaluateAll_quiet quiet n.eventArgs n).andThen fun _ args after result => ?_
  obtain ⟨same, goes⟩ := result
  subst same
  refine ⟨(), _, announce_quiet (goes.quiet quiet) _, ?_⟩
  have told := told_goesOn after (.event n.eventName args)
  rw [goes.vars] at told
  exact goes.trans told

/-- A node that is run does what the line does that it shows. -/
theorem runNode_shows {n : Node} {lines : List Item}
    (shows : Shows g endLabel script related n lines) (runs : n.kind.runsOn = true)
    (stop : related none []) (quiet : Quiet host scene) (graph : scene.dialogue.graph = g) :
    Mirrors (Direct.step endLabel script scene.dialogue.vars lines) (Dialogue.runNode host n) scene
      (KeepsUp endLabel script related scene) := by
  cases shows with
  | say kind =>
    rw [kind] at runs
    cases runs
  | @set e x rest kind edges expression onward =>
    obtain ⟨o, ahead, arrives, glides, stands⟩ := onward
    rw [Direct.step, Dialogue.runNode, kind]
    refine (runAssignment_quiet quiet expression).bind fun v _ after goes => ?_
    exact ⟨o, after, next_arrives edges arrives (goes.graph.trans graph),
      _, _, _, ahead, rfl, goes, glides, stands⟩
  | @raise e rest kind edges onward =>
    obtain ⟨o, ahead, arrives, glides, stands⟩ := onward
    rw [Direct.step, Dialogue.runNode, kind]
    refine (runEvent_quiet quiet n).bind fun args _ after goes => ?_
    exact ⟨o, after, next_arrives edges arrives (goes.graph.trans graph),
      _, _, _, ahead, rfl, goes, glides, stands⟩
  | openIf kind branches =>
    rw [Direct.step_openIf, Dialogue.runNode, kind]
    have taken := takeBranch_shows (n := n) branches stop quiet graph
    refine taken.map fun rest o after result => ?_
    obtain ⟨goes, ahead, glides, stands⟩ := result
    exact ⟨rest, _, [], ahead, rfl, goes, glides, stands⟩

/-! ### Runs -/

/-- Whether a dialogue is to stand where direct execution stands still. -/
def StopsAt (g : Graph) (endLabel : String) (script : List Item)
    (related : Option Node → List Item → Prop) (o : Option Node) : Stand → Prop
  | .ended => o = none
  | .line speaker text rest =>
    ∃ n, o = some n ∧ Shows g endLabel script related n (.say speaker text :: rest)

/-- Whether there is no step to run at a node. -/
def Still (o : Option Node) : Prop :=
  ∀ n, o = some n → n.kind.runsOn = false

theorem still_or_runs (o : Option Node) :
    Still o ∨ ∃ n, o = some n ∧ n.kind.runsOn = true := by
  cases o with
  | none => exact Or.inl nofun
  | some n =>
    cases runs : n.kind.runsOn with
    | true => exact Or.inr ⟨n, rfl, runs⟩
    | false => exact Or.inl fun m same => Option.some.inj same ▸ runs

theorem runOn_still {o : Option Node} (fuel : Nat) (still : Still o) :
    Dialogue.runOn host fuel o scene = .ok o scene := by
  cases o with
  | none => cases fuel <;> rfl
  | some n =>
    have stops := still n rfl
    cases fuel with
    | zero =>
      rw [Dialogue.runOn, stops]
      rfl
    | succ fuel =>
      rw [Dialogue.runOn, stops]
      rfl

theorem runOn_step {n : Node} (fuel : Nat) (runs : n.kind.runsOn = true) :
    Dialogue.runOn host (fuel + 1) (some n) scene
      = (Dialogue.runNode host n >>= Dialogue.runOn host fuel) scene := by
  rw [Dialogue.runOn, runs, if_pos rfl]

/-- A node that is not run is a line that is said. -/
theorem Shows.still {n : Node} {lines : List Item} (shows : Shows g endLabel script related n lines)
    (still : n.kind.runsOn = false) : ∃ rest, lines = .say n.speaker n.text :: rest := by
  cases shows with
  | say => exact ⟨_, rfl⟩
  | set kind | raise kind | openIf kind =>
    rw [kind] at still
    cases still

theorem step_spoke {lines rest : List Item} {vars : Variables} {speaker text : String}
    (now : Direct.step endLabel script vars lines = .ok (.spoke speaker text rest)) :
    lines = .say speaker text :: rest := by
  unfold Direct.step at now
  split at now
  case h_2 =>
    cases now
    rfl
  case h_3 | h_4 =>
    obtain ⟨_, _, same⟩ := bind_eq_ok.mp now
    cases same
  case h_7 =>
    obtain ⟨held, _, taken⟩ := bind_eq_ok.mp now
    cases held with
    | true => cases taken
    | false =>
      obtain ⟨_, _, same⟩ := bind_eq_ok.mp taken
      cases same
  all_goals cases now

theorem step_ended {lines : List Item} {vars : Variables}
    (now : Direct.step endLabel script vars lines = .ok .ended) : lines = [] := by
  unfold Direct.step at now
  split at now
  case h_1 => rfl
  case h_3 | h_4 =>
    obtain ⟨_, _, same⟩ := bind_eq_ok.mp now
    cases same
  case h_7 =>
    obtain ⟨held, _, taken⟩ := bind_eq_ok.mp now
    cases held with
    | true => cases taken
    | false =>
      obtain ⟨_, _, same⟩ := bind_eq_ok.mp taken
      cases same
  all_goals cases now

/-- A node that shows a line after which execution goes on is run. -/
theorem Shows.runs {n : Node} {lines rest : List Item} {vars vars' : Variables}
    {raised : List Raised} (shows : Shows g endLabel script related n lines)
    (now : Direct.step endLabel script vars lines = .ok (.went rest vars' raised)) :
    n.kind.runsOn = true := by
  cases runs : n.kind.runsOn with
  | true => rfl
  | false =>
    obtain ⟨_, rfl⟩ := shows.still runs
    cases now

/-- A dialogue runs on to where direct execution stands still. -/
theorem runOn_of_runs (performs : Performs g endLabel script related) {lines : List Item}
    {vars vars' : Variables} {raised : List Raised} {stand : Stand}
    (runs : Direct.Runs endLabel script lines vars raised stand vars') :
    ∃ fuel, ∀ (host : Host η δ) (scene : Scene η δ) (more : Nat) (o : Option Node)
      (ahead : List Item), fuel ≤ more → Direct.Glides endLabel script lines ahead →
      related o ahead → Quiet host scene → scene.dialogue.graph = g → scene.dialogue.vars = vars →
      ∃ stop after, Dialogue.runOn host more o scene = .ok stop after
        ∧ GoesOn scene vars' raised after ∧ StopsAt g endLabel script related stop stand := by
  induction runs with
  | @spoke lines rest vars speaker text now =>
    obtain rfl := step_spoke now
    refine ⟨0, fun host scene more o ahead _ glides stands quiet graph same => ?_⟩
    -- lines that direct execution glides over have no node
    cases glides with
    | on other =>
      have both := now.symm.trans (other vars)
      cases both
    | here =>
      cases o with
      | none => cases (performs.ended _).mp stands
      | some n =>
        have shows := performs.shows n _ stands
        have still : Still (some n) := by
          rintro _ ⟨⟩
          cases shows with
          | say kind =>
            rw [kind]
            rfl
        exact ⟨some n, scene, runOn_still more still, same ▸ .refl scene, n, rfl, shows⟩
  | @ended lines vars now =>
    obtain rfl := step_ended now
    refine ⟨0, fun host scene more o ahead _ glides stands quiet graph same => ?_⟩
    cases glides with
    | on other => cases now.symm.trans (other vars)
    | here =>
      cases o with
      | none => exact ⟨none, scene, runOn_still more nofun, same ▸ .refl scene, rfl⟩
      | some n => cases performs.shows n _ stands
  | @went lines rest vars vars' vars'' raised later stand now onward ih =>
    obtain ⟨fuel, ih⟩ := ih
    refine ⟨fuel + 1, fun host scene more o ahead enough glides stands quiet graph same => ?_⟩
    cases glides with
    | @on _ next _ other onward' =>
      cases now.symm.trans (other vars)
      exact ih host scene more o ahead (by omega) onward' stands quiet graph same
    | here =>
      cases o with
      | none =>
        cases (performs.ended _).mp stands
        cases now
      | some n =>
        have shows := performs.shows n _ stands
        have runs := shows.runs now
        obtain ⟨more, rfl⟩ : ∃ k, more = k + 1 := ⟨more - 1, by omega⟩
        have mirrors := runNode_shows shows runs ((performs.ended []).mpr rfl) quiet graph
        rw [same, now] at mirrors
        obtain ⟨o', after, done, _, _, _, ahead', progress, goes, glides', stands'⟩ := mirrors
        cases progress
        obtain ⟨stop, last, ended, goes', stops⟩ := ih host after more o' ahead' (by omega) glides'
          stands' (goes.quiet quiet) (goes.graph.trans graph) goes.vars
        refine ⟨stop, last, ?_, goes.trans goes', stops⟩
        rw [runOn_step more runs, Play.bind_ok done, ended]

/-- Where there is nothing to run, direct execution stands still as well. -/
theorem runs_still (performs : Performs g endLabel script related) {o : Option Node}
    {lines : List Item} (stands : related o lines) (still : Still o) (vars : Variables) :
    ∃ stand, Direct.Runs endLabel script lines vars [] stand vars
      ∧ StopsAt g endLabel script related o stand := by
  cases o with
  | none =>
    cases (performs.ended _).mp stands
    exact ⟨.ended, .ended rfl, rfl⟩
  | some n =>
    have shows := performs.shows n _ stands
    obtain ⟨rest, rfl⟩ := shows.still (still n rfl)
    exact ⟨.line n.speaker n.text rest, .spoke rfl, n, rfl, shows⟩

/-- Where a dialogue runs on to, direct execution stands still. -/
theorem runs_of_runOn (performs : Performs g endLabel script related) {fuel : Nat}
    {o : Option Node} {lines : List Item} (stands : related o lines) (quiet : Quiet host scene)
    (graph : scene.dialogue.graph = g) {stop : Option Node} {after : Scene η δ}
    (done : Dialogue.runOn host fuel o scene = .ok stop after) :
    ∃ vars raised stand, Direct.Runs endLabel script lines scene.dialogue.vars raised stand vars
      ∧ GoesOn scene vars raised after ∧ StopsAt g endLabel script related stop stand := by
  induction fuel generalizing o lines scene with
  | zero =>
    rcases still_or_runs o with still | ⟨n, rfl, runs⟩
    · obtain ⟨stand, runs, stops⟩ := runs_still performs stands still scene.dialogue.vars
      cases (runOn_still 0 still).symm.trans done
      exact ⟨_, [], stand, runs, .refl _, stops⟩
    · rw [Dialogue.runOn, runs] at done
      cases done
  | succ fuel ih =>
    rcases still_or_runs o with still | ⟨n, rfl, runs⟩
    · obtain ⟨stand, runs, stops⟩ := runs_still performs stands still scene.dialogue.vars
      cases (runOn_still (fuel + 1) still).symm.trans done
      exact ⟨_, [], stand, runs, .refl _, stops⟩
    · rw [runOn_step fuel runs] at done
      have mirrors := runNode_shows (performs.shows n _ stands) runs
        ((performs.ended []).mpr rfl) quiet graph
      cases now : Direct.step endLabel script scene.dialogue.vars lines with
      | error fault =>
        rw [now] at mirrors
        obtain ⟨_, failed⟩ := mirrors
        rw [Play.bind_error failed] at done
        cases done
      | ok progress =>
        rw [now] at mirrors
        obtain ⟨o', between, first, _, _, _, ahead, rfl, goes, glides, stands'⟩ := mirrors
        rw [Play.bind_ok first] at done
        obtain ⟨vars, raised, stand, later, goes', stops⟩ := ih stands' (goes.quiet quiet)
          (goes.graph.trans graph) done
        rw [goes.vars] at later
        exact ⟨vars, _, stand, .went now (glides.runs later), goes.trans goes', stops⟩

end Colloquy.Script
