import Colloquy.Proofs.Dialogue.Loyal
import Colloquy.Proofs.Dialogue.Walking
/-!
# Calls within calls

A participant that is told something may call the dialogue that tells it, and what it does may lead to
further calls. All of these leave the dialogue on its graph, so whoever makes no other calls is loyal.
Choosing tells everyone before it runs anything. With loyal hooks it then runs the steps after the line
on which they have left the dialogue; only if they have ended it there is no such line, and it fails.
-/

namespace Colloquy

variable {η δ : Type} {host lower : Host η δ} {scene after : Scene η δ} {g : Graph}

/-! ### Public calls -/

namespace Safe

variable {α β : Type}

theorem bind {x : Play η δ α} {k : α → Play η δ β} (first : Safe g x)
    (later : ∀ a, Safe g (k a)) : Safe g (x >>= k) :=
  Guarded.bind first fun a _ => later a

theorem pure (a : α) : Safe g (Pure.pure a : Play η δ α) :=
  Guarded.pure trivial

theorem fault (f : Fault) : Safe g (throw f : Play η δ α) :=
  Guarded.fault fun _ => trivial

theorem dialogue : Safe g (Play.dialogue : Play η δ Dialogue) :=
  fun _ stands => .of_ok rfl ⟨stands, trivial⟩

theorem orFault {ε : Type} (fault : ε → Fault) (result : Except ε α) :
    Safe g (Play.orFault fault result : Play η δ α) := by
  cases result with
  | ok a => exact .pure a
  | error e => exact .fault (fault e)

theorem logBadChoice (index : Int) : Safe g (Dialogue.logBadChoice index : Play η δ Unit) := by
  rw [Dialogue.logBadChoice]
  exact .optional (Safe.fault _) (Safe.dialogue.bind fun _ => .log _ _)

theorem valueAs (kind : Kind) (name : String) :
    Safe g (Dialogue.valueAs kind name : Play η δ Value) := by
  refine Safe.dialogue.bind fun d => ?_
  split
  · exact .pure _
  · split
    · exact .pure _
    · split
      · exact .orFault _ _
      · split
        · exact (Guarded.log _ _).bind fun _ _ => Safe.pure _
        · exact .fault _

theorem speakerName : Safe g (Dialogue.speakerName : Play η δ String) := by
  refine Safe.dialogue.bind fun d => ?_
  dsimp only
  split
  · exact .pure _
  · exact .pure _
  · split
    · exact (Guarded.log _ _).bind fun _ _ => Safe.pure _
    · exact .fault _

theorem paramsUsed : Safe g (Dialogue.paramsUsed : Play η δ (List String)) := by
  refine Guarded.dialogue.bind fun d stands => ?_
  have same : d.paramsInUse.2.StandsOn g := by
    unfold Dialogue.paramsInUse
    split
    · exact stands
    · exact ⟨stands.graph, stands.line, stands.ways⟩
  exact (Guarded.change (fun _ => d.paramsInUse.2) fun _ _ => same).bind fun _ _ => Safe.pure _

end Safe

/-- What choosing does first on a line with choices: it notes the choice and tells everyone. -/
def Dialogue.tellChoice (host : Host η δ) (e : Edge) (index : Int) : Play η δ Unit := do
  Play.changeDialogue (·.take e.textId)
  Dialogue.announce host (.choice index)
  Dialogue.announce host .proceeding

/-- What choosing does then: it runs to the choice from where the dialogue stands, and follows the way
on. -/
def Dialogue.carryOn (host : Host η δ) (e : Edge) : Play η δ Bool := do
  match (← Play.dialogue).current with
  | none => throw Fault.absent
  | some line => Dialogue.runToChoice host line
  Dialogue.follow host e

theorem choose_eq {line : Node} {e : Edge} {index : Int}
    (current : scene.dialogue.current = some line) (has : line.hasChoices = true)
    (way : scene.dialogue.choice? index = some e) :
    Dialogue.choose host index scene
      = (do Dialogue.tellChoice host e index; Dialogue.carryOn host e) scene := by
  have read : Play.dialogue scene = .ok scene.dialogue scene := rfl
  have offers : scene.dialogue.current.elim false (·.hasChoices) = true := by
    rw [current]
    exact has
  rw [Dialogue.choose, Play.bind_ok read, way]
  dsimp only
  rw [if_pos offers]
  simp only [Dialogue.tellChoice, bind_assoc]
  rfl

/-- What restoring does once the header has run and the variables were made out: it takes over what was
saved. -/
def Dialogue.takeOver (host : Host η δ) (s : Snapshot) (values : List (String × Value)) :
    Play η δ Unit := do
  Play.changeDialogue fun d => { d with vars := setEntries d.vars values, taken := s.taken }
  let d ← Play.dialogue
  let line := if s.isEnded then none else d.graph.nodeByTextId s.textId
  if !s.isEnded && line.isNone then
    Play.log .warning ("Saved line " ++ s.textId ++ " is not in dialogue " ++ d.name
      ++ ", restored as ended")
  Dialogue.setLine host line true

theorem restore_of_values {s : Snapshot} {values : List (String × Value)}
    (made : s.values = .ok values) : Dialogue.restore host s
      = (do Dialogue.resetVariables host; Dialogue.takeOver host s values) := by
  rw [Dialogue.restore, made]
  rfl

theorem restore_of_refused {s : Snapshot} {e : RestoreError} (refused : s.values = .error e) :
    Dialogue.restore host s
      = (do Dialogue.resetVariables host; throw (.unsuitable e)) := by
  rw [Dialogue.restore, refused]
  rfl

/-! ### Runs -/

/-- `g.Walks o path stop`: the steps of `path` lead from `o` to `stop`, each to the one after it. -/
inductive Graph.Walks (g : Graph) : Option Node → List Node → Option Node → Prop where
  | stop {o : Option Node} (still : Script.Still o) : Walks g o [] o
  | step {n : Node} {o stop : Option Node} {path : List Node} (runs : n.kind.runsOn = true)
      (leads : g.LeadsOn n o) (later : Walks g o path stop) : Walks g (some n) (n :: path) stop

/-- With loyal hooks a run follows the graph. -/
theorem RunsThrough.walks (loyal : Loyal host g) (rooted : Rooted g.nodes) {path : List Node}
    {o stop : Option Node} (through : RunsThrough host path o scene stop after)
    (inside : g.Holds o) (stands : scene.dialogue.StandsOn g) : g.Walks o path stop := by
  induction through with
  | stop still => exact .stop still
  | step runs ran _ ih =>
    have member := inside _ rfl
    obtain ⟨stands', leads⟩ := (runNode_guarded loyal rooted member _ stands).of_done ran
    exact .step runs leads (ih (leads.holds rooted member) stands')

/-- Going on from a line, in a scene in which everyone was told: the steps that follow the line are
run, one after the other, and then the way on is followed. -/
def GoesFrom (host : Host η δ) (g : Graph) (e : Edge) (line : Node) (ready : Scene η δ)
    (running : Bool) (after : Scene η δ) : Prop :=
  ∃ o path stop between, g.next line = .ok o ∧ g.Walks o path stop
    ∧ RunsThrough host path o ready stop between
    ∧ Dialogue.follow host e between = .ok running after

section

variable (loyal : Loyal host g)

include loyal

theorem tellChoice_guarded (e : Edge) (index : Int) :
    Guarded g (Dialogue.tellChoice host e index) (fun _ => True) (Excused host g) := by
  refine (Guarded.change (·.take e.textId) fun d stands => ?_).bind fun _ _ =>
    (announce_guarded loyal _).bind fun _ _ => announce_guarded loyal _
  unfold Dialogue.take
  split
  · exact stands
  · exact ⟨stands.graph, stands.line, stands.ways⟩

variable (sturdy : g.Sturdy)

include sturdy

theorem follow_guarded {n : Node} (member : n ∈ g.nodes) {e : Edge} (own : e ∈ n.edges) :
    Guarded g (Dialogue.follow host e) (fun _ => True) (Excused host g) := by
  refine (target_guarded sturdy.rooted member own).bind fun o leads => ?_
  refine (runTo_guarded loyal sturdy ?_ true).bind fun _ _ => ?_
  · exact Graph.holds_of_target sturdy.rooted member own leads
  · exact Guarded.dialogue.bind fun _ _ => .pure trivial

/-- From a line the steps after it are run. -/
theorem runToChoice_walks {line : Node} (member : line ∈ g.nodes) (isText : line.kind = .text)
    (stands : scene.dialogue.StandsOn g) : Yields (Dialogue.runToChoice host line) scene
      (fun _ after => after.dialogue.StandsOn g ∧ ∃ o path stop, g.next line = .ok o
        ∧ g.Walks o path stop ∧ RunsThrough host path o scene stop after)
      (fun f after => after.dialogue.StandsOn g ∧ Excused host g f after) := by
  obtain ⟨e, single⟩ := sturdy.text_edges member isText
  obtain ⟨o, next, inside⟩ := sturdy.next member
  have onward := runOn_guarded loyal sturdy.rooted host.steps inside scene stands
  rw [Dialogue.runToChoice, if_pos (by rw [single]; rfl)]
  refine .step (next_yields stands.graph next) ?_
  cases ran : Dialogue.runOn host host.steps o scene with
  | error f last => exact .of_error (Play.bind_error ran) (onward.of_failed ran)
  | ok stop between =>
    obtain ⟨path, through⟩ := runsThrough_of_runOn ran
    have walks := through.walks loyal sturdy.rooted inside stands
    exact .of_ok (Play.bind_ok ran) ⟨(onward.of_done ran).1, o, path, stop, next, walks, through⟩

theorem carryOn_yields {n : Node} (member : n ∈ g.nodes) {e : Edge} (own : e ∈ n.edges)
    (stands : scene.dialogue.StandsOn g) : Yields (Dialogue.carryOn host e) scene
      (fun running after => after.dialogue.StandsOn g
        ∧ ∃ line, scene.dialogue.current = some line ∧ GoesFrom host g e line scene running after)
      (fun f after => after.dialogue.StandsOn g
        ∧ (Excused host g f after ∨ f = .absent ∧ scene.dialogue.current = none ∧ after = scene)) := by
  have read : Play.dialogue scene = .ok scene.dialogue scene := rfl
  refine .step read ?_
  -- the line is read anew: it need not be the one that the choice was made on
  cases current : scene.dialogue.current with
  | none => exact .of_error rfl ⟨stands, .inr ⟨rfl, rfl, rfl⟩⟩
  | some line =>
    obtain ⟨there, isText⟩ := stands.line line current
    refine ((runToChoice_walks loyal sturdy there isText stands).mono_fails
      fun f after result => ⟨result.1, .inl result.2⟩).bind fun _ between result => ?_
    obtain ⟨stands', o, path, stop, next, walks, through⟩ := result
    have follows := follow_guarded loyal sturdy member own between stands'
    cases went : Dialogue.follow host e between with
    | error f last =>
      obtain ⟨kept, excused⟩ := follows.of_failed went
      exact .of_error went ⟨kept, .inl excused⟩
    | ok running last =>
      exact .of_ok went ⟨(follows.of_done went).1, line, rfl, o, path, stop, between, next, walks,
        through, went⟩

/-- With loyal hooks choosing runs the steps after the line on which they have left the dialogue; of
its own it fails only if they have ended it. -/
theorem choose_loyal {line : Node} {e : Edge} {index : Int} (stands : scene.dialogue.StandsOn g)
    (current : scene.dialogue.current = some line) (has : line.hasChoices = true)
    (way : scene.dialogue.choice? index = some e) :
    Yields (Dialogue.choose host index) scene
      (fun running after => after.dialogue.StandsOn g ∧ ∃ ready line',
        Dialogue.tellChoice host e index scene = .ok () ready
          ∧ ready.dialogue.current = some line' ∧ GoesFrom host g e line' ready running after)
      (fun f after => after.dialogue.StandsOn g ∧ (Excused host g f after
        ∨ f = .absent ∧ after.dialogue.current = none
          ∧ Dialogue.tellChoice host e index scene = .ok () after)) := by
  -- the way on was read before anyone was told, and its target is a matter of the graph
  obtain ⟨n, member, own⟩ := stands.ways e (mem_of_choice? way)
  have tells := tellChoice_guarded loyal e index scene stands
  have same : Dialogue.choose host index scene
      = (do Dialogue.tellChoice host e index; Dialogue.carryOn host e) scene :=
    choose_eq current has way
  cases told : Dialogue.tellChoice host e index scene with
  | error f after =>
    obtain ⟨kept, excused⟩ := tells.of_failed told
    exact .of_error (same.trans (Play.bind_error told)) ⟨kept, .inl excused⟩
  | ok _ ready =>
    have rest := carryOn_yields loyal sturdy member own (tells.of_done told).1
    cases went : Dialogue.carryOn host e ready with
    | ok running after =>
      obtain ⟨kept, line', current', goes⟩ := rest.of_done went
      exact .of_ok (same.trans ((Play.bind_ok told).trans went))
        ⟨kept, ready, line', rfl, current', goes⟩
    | error f after =>
      obtain ⟨kept, cause⟩ := rest.of_failed went
      refine .of_error (same.trans ((Play.bind_ok told).trans went)) ⟨kept, cause.imp_right ?_⟩
      rintro ⟨rfl, ended, rfl⟩
      exact ⟨rfl, ended, rfl⟩

/-! ### Loyalty of those who make public calls -/

theorem choose_safe (index : Int) : Safe g (Dialogue.choose host index) := by
  intro scene stands
  have read : Play.dialogue scene = .ok scene.dialogue scene := rfl
  cases way : scene.dialogue.choice? index with
  | none =>
    rw [Dialogue.choose]
    refine .step read ?_
    rw [way]
    exact (Safe.logBadChoice index).bind (fun _ => .pure false) scene stands
  | some e =>
    by_cases has : scene.dialogue.current.elim false (·.hasChoices) = true
    · obtain ⟨line, current, has⟩ := Dialogue.line_of_choices has
      exact (choose_loyal loyal sturdy stands current has way).mono
        (fun _ _ result => ⟨result.1, trivial⟩) fun _ _ result => ⟨result.1, trivial⟩
    · obtain ⟨n, member, own⟩ := stands.ways e (mem_of_choice? way)
      have follows := (follow_guarded loyal sturdy member own).safe
      rw [Dialogue.choose]
      refine .step read ?_
      rw [way]
      dsimp only
      rw [if_neg has]
      exact (announce_guarded loyal .proceeding).safe.bind (fun _ => follows) scene stands

theorem proceed_safe : Safe g (Dialogue.proceed host) := by
  refine Safe.dialogue.bind fun d => ?_
  split
  · exact choose_safe loyal sturdy 0
  · exact Safe.dialogue.bind fun _ => .pure _

omit sturdy in
theorem resolve_safe (text : String) (params : List String) :
    Safe g (Dialogue.resolve host text params) := by
  rw [Dialogue.resolve]
  split
  · exact .pure text
  · refine (requests_guarded loyal params).safe.bind fun _ => Safe.dialogue.bind fun d => ?_
    dsimp only
    split
    · exact .pure _
    · exact .fault _

omit sturdy in
theorem setVariable_safe (name : String) (d : Datum) :
    Safe g (Dialogue.setVariable host name d) := by
  rw [Dialogue.setVariable]
  split
  · exact .fault _
  · exact (assign_guarded loyal _ _ _).safe

theorem takeOver_guarded (s : Snapshot) (values : List (String × Value)) :
    Guarded g (Dialogue.takeOver host s values) (fun _ => True) (Excused host g) := by
  refine (Guarded.change _ fun _ stands => ?_).bind fun _ _ => ?_
  · exact ⟨stands.graph, stands.line, stands.ways⟩
  refine Guarded.dialogue.bind fun d stands => ?_
  have lies : ∀ n, (if s.isEnded then none else d.graph.nodeByTextId s.textId) = some n →
      n ∈ g.nodes ∧ n.kind = .text := by
    intro n found
    split at found
    · cases found
    · exact Graph.line_of_nodeByTextId (stands.graph ▸ found)
  exact .optional (Guarded.log _ _) (setLine_guarded loyal sturdy lies true)

theorem restore_safe (s : Snapshot) : Safe g (Dialogue.restore host s) := by
  have cleared := (resetVariables_guarded loyal sturdy).safe
  cases values : s.values with
  | ok values =>
    rw [restore_of_values values]
    exact cleared.bind fun _ => (takeOver_guarded loyal sturdy s _).safe
  | error e =>
    rw [restore_of_refused values]
    exact cleared.bind fun _ => .fault _

/-- Whatever public call is made of a dialogue, it stays on its graph. -/
theorem Public.safe {x : Play η δ Unit} (isPublic : Public host g x) : Safe g x := by
  have dropped {α : Type} {x : Play η δ α} (kept : Safe g x) : Safe g (do let _ ← x) :=
    kept.bind fun _ => .pure ()
  cases isPublic with
  | set name d => exact setVariable_safe loyal name d
  | unset name => exact Guarded.change _ fun _ stands => ⟨stands.graph, stands.line, stands.ways⟩
  | restore s => exact restore_safe loyal sturdy s
  | runTo inside tellEnd => exact (runTo_guarded loyal sturdy inside tellEnd).safe
  | speakerName => exact dropped .speakerName
  | params => exact dropped .paramsUsed
  | call call =>
    cases call with
    | start label => exact (start_guarded loyal sturdy label).safe
    | restart resetFirst label rerunHeader =>
      exact (restart_guarded loyal sturdy resetFirst label rerunHeader).safe
    | reset vars position taken => exact (reset_guarded loyal sturdy vars position taken).safe
    | choose index => exact dropped (choose_safe loyal sturdy index)
    | proceed => exact dropped (proceed_safe loyal sturdy)
    | lineText =>
      refine dropped (Safe.dialogue.bind fun d => ?_)
      split
      · exact .pure _
      · exact resolve_safe loyal _ _
    | choiceText index =>
      refine dropped (Safe.dialogue.bind fun d => ?_)
      split
      · exact (Safe.logBadChoice index).bind fun _ => .pure _
      · exact resolve_safe loyal _ _
    | valueAs kind name => exact dropped (.valueAs kind name)
    | setVariable name v => exact setVariable_safe loyal name (.value v)

end

/-- `Meddles lower g x`: a hook that does `x` makes public calls of the dialogue, one after the other
and as the scene is by then; it may have others take part, catch what a call fails with, do things that
do not concern the dialogue, and fail. Those that are called in turn are those of the host `lower`. -/
inductive Meddles (lower : Host η δ) (g : Graph) : Play η δ Unit → Prop where
  | call {x : Play η δ Unit} (isPublic : Public lower g x) : Meddles lower g x
  | attach : Meddles lower g (Dialogue.attachTo lower g)
  | recast (f : List Participant → List Participant) : Meddles lower g
      (Play.changeDialogue fun d => { d with participants := f d.participants })
  | aside {x : Play η δ Unit}
      (leaves : ∀ scene, ∃ after, x scene = .ok () after ∧ after.dialogue = scene.dialogue) :
      Meddles lower g x
  | fails (f : Fault) : Meddles lower g (throw f)
  | andThen {x y : Play η δ Unit} (first : Meddles lower g x) (later : Meddles lower g y) :
      Meddles lower g (do x; y)
  | depending {x : Scene η δ → Play η δ Unit} (each : ∀ scene, Meddles lower g (x scene)) :
      Meddles lower g (do x (← get))
  | catching {x : Play η δ Unit} {y : Fault → Play η δ Unit} (first : Meddles lower g x)
      (each : ∀ f, Meddles lower g (y f)) : Meddles lower g (tryCatch x y)

theorem Meddles.safe (loyal : Loyal lower g) (sturdy : g.Sturdy) {x : Play η δ Unit}
    (meddles : Meddles lower g x) : Safe g x := by
  induction meddles with
  | call isPublic => exact isPublic.safe loyal sturdy
  | attach =>
    exact fun scene _ => (attachTo_standsOn loyal sturdy scene).mono
      (fun _ _ stands => ⟨stands, trivial⟩) fun _ _ result => ⟨result.1, trivial⟩
  | recast f => exact Guarded.change _ fun _ stands => ⟨stands.graph, stands.line, stands.ways⟩
  | aside leaves =>
    refine Guarded.aside fun scene => ?_
    obtain ⟨after, played, same⟩ := leaves scene
    exact ⟨(), after, played, same, trivial⟩
  | fails f => exact .fault f
  | andThen _ _ first later => exact first.bind fun _ => later
  | depending _ each =>
    exact Safe.bind (Guarded.aside fun scene => ⟨scene, scene, rfl, rfl, trivial⟩) each
  | @catching x y _ _ first each =>
    -- what is caught has left the dialogue on its graph as well, so the handler begins there
    intro scene stands
    have result := first scene stands
    cases played : x scene with
    | ok _ after => exact .of_ok (Play.tryCatch_ok played) (result.of_done played)
    | error f after =>
      rw [Yields, Play.tryCatch_error played, ← Yields]
      exact each f after (result.of_failed played).1

/-- Hooks that make public calls are loyal if those are that are called in turn. -/
theorem Loyal.of_meddling (loyal : Loyal lower g) (sturdy : g.Sturdy)
    (reacts : ∀ key notice, Meddles lower g (host.react key notice))
    (listens : ∀ listener p, Meddles lower g (host.listen listener p)) : Loyal host g :=
  ⟨fun key notice => (reacts key notice).safe loyal sturdy,
    fun listener p => (listens listener p).safe loyal sturdy⟩

theorem silent_loyal (steps depth : Nat) : Loyal (Host.silent steps depth) g :=
  ⟨fun _ _ => .pure (), fun _ _ => .pure ()⟩

/-! ### States -/

/-- The scenes that a dialogue gets into once it is attached to a graph: by public calls, whether they
return or fail, while participants and listeners come and go. -/
inductive Visited (host : Host η δ) (g : Graph) : Scene η δ → Prop where
  | made {scene after : Scene η δ} (done : Dialogue.attachTo host g scene = .ok () after) :
      Visited host g after
  | unmade {scene after : Scene η δ} {f : Fault}
      (failed : Dialogue.attachTo host g scene = .error f after) : Visited host g after
  | returned {scene after : Scene η δ} {x : Play η δ Unit} (before : Visited host g scene)
      (isPublic : Public host g x) (done : x scene = .ok () after) : Visited host g after
  | failed {scene after : Scene η δ} {x : Play η δ Unit} {f : Fault} (before : Visited host g scene)
      (isPublic : Public host g x) (failed : x scene = .error f after) : Visited host g after
  | elsewhere {scene after : Scene η δ} (before : Visited host g scene)
      (graph : after.dialogue.graph = scene.dialogue.graph)
      (current : after.dialogue.current = scene.dialogue.current)
      (choices : after.dialogue.choices = scene.dialogue.choices) : Visited host g after

theorem Visited.standsOn (loyal : Loyal host g) (sturdy : g.Sturdy) (visited : Visited host g scene) :
    scene.dialogue.StandsOn g := by
  induction visited with
  | made done => exact (attachTo_standsOn loyal sturdy _).of_done done
  | unmade failed => exact ((attachTo_standsOn loyal sturdy _).of_failed failed).1
  | returned _ isPublic done ih => exact ((isPublic.safe loyal sturdy _ ih).of_done done).1
  | failed _ isPublic failed ih => exact ((isPublic.safe loyal sturdy _ ih).of_failed failed).1
  | elsewhere _ graph current choices ih =>
    refine ⟨graph.trans ih.graph, ?_, ?_⟩
    · rw [current]
      exact ih.line
    · rw [choices]
      exact ih.ways

/-! ### Hooks that act on a choice -/

/-- A host whose participants do something when they are told of a choice, and nothing else. -/
def Host.onChoice (act : Play Unit Unit Unit) : Host Unit Unit :=
  { Host.silent 9 9 with
    react := fun _ notice =>
      match notice with
      | .choice _ => act
      | _ => pure () }

theorem onChoice_loyal (sturdy : g.Sturdy) {act : Play Unit Unit Unit}
    (meddles : Meddles (Host.silent 9 9) g act) : Loyal (Host.onChoice act) g := by
  have nothing : Meddles (Host.silent 9 9) g (pure ()) := .aside fun scene => ⟨scene, rfl, rfl⟩
  refine .of_meddling (silent_loyal 9 9) sturdy (fun key notice => ?_) fun _ _ => nothing
  cases notice with
  | choice => exact meddles
  | _ => exact nothing

/-- A scene once somebody has joined it. -/
def Scene.joined (scene : Scene Unit Unit) : Scene Unit Unit :=
  { scene with dialogue := scene.dialogue.addParticipant ⟨0, 0⟩ }

theorem opening_visited {host : Host Unit Unit} {scene : Scene Unit Unit}
    (opened : Scene.opening? host g = some scene) : Visited host g scene := by
  obtain ⟨made, attached, begun⟩ := opening_played opened
  exact (Visited.made attached).returned (.call (.start none)) begun

theorem Visited.joined {host : Host Unit Unit} {scene : Scene Unit Unit}
    (visited : Visited host g scene) : Visited host g scene.joined :=
  visited.elsewhere rfl rfl rfl

end Colloquy

namespace Colloquy.Script

variable {η δ : Type} {s : Settings} {name text : String} {c : Compilation} {g : Graph}

/-- **Choosing among those who call the dialogue.** Whatever public calls participants and listeners
make when they are told of a choice, choosing leaves the dialogue on its graph, and the steps that it
runs before it follows the way on are those after the line on which the dialogue stands once everyone
was told. It fails for a reason of its own only if it has been ended by then. So if the dialogue is left
on its line, or brought back to it, the steps after that line are run and nothing fails but what is
called, an evaluation or a collection of choices. -/
theorem choosing_with_calls (compiled : compile s name text = .ok c) (graph : c.graph = some g)
    {host : Host η δ} (loyal : Loyal host g) {scene : Scene η δ} (visited : Visited host g scene)
    {line : Node} {e : Edge} {index : Int} (current : scene.dialogue.current = some line)
    (has : line.hasChoices = true) (way : scene.dialogue.choice? index = some e) :
    Yields (Dialogue.choose host index) scene
        (fun running after => after.dialogue.StandsOn g ∧ ∃ ready line',
          Dialogue.tellChoice host e index scene = .ok () ready
            ∧ ready.dialogue.current = some line' ∧ GoesFrom host g e line' ready running after)
        (fun f after => after.dialogue.StandsOn g ∧ (Excused host g f after
          ∨ f = .absent ∧ after.dialogue.current = none
            ∧ Dialogue.tellChoice host e index scene = .ok () after))
      ∧ ((∀ ready, Dialogue.tellChoice host e index scene = .ok () ready →
          ready.dialogue.current = some line) →
        Yields (Dialogue.choose host index) scene
          (fun running after => ∃ ready, Dialogue.tellChoice host e index scene = .ok () ready
            ∧ GoesFrom host g e line ready running after)
          (Excused host g)) := by
  have sturdy := sturdy_of_compile compiled graph
  have chooses := choose_loyal loyal sturdy (visited.standsOn loyal sturdy) current has way
  refine ⟨chooses, fun stays => chooses.mono ?_ ?_⟩
  · rintro running after ⟨_, ready, line', told, current', goes⟩
    cases (stays ready told).symm.trans current'
    exact ⟨ready, told, goes⟩
  · rintro f after ⟨_, excused | ⟨_, ended, told⟩⟩
    · exact excused
    · cases (stays after told).symm.trans ended

/-- A step stands between the line and its option. -/
def stepBeforeOption : String :=
  "A: hi\n[set x 1]\n* one\n    B: x\n"

/-- A participant runs the dialogue again when it is told of the choice, which brings it back to the
line: choosing sets the variable and goes on behind the option. -/
theorem choosing_with_calls_restart :
    ∃ c g scene line e running ready after,
      compile .standard "script" stepBeforeOption = .ok c ∧ c.graph = some g
      ∧ Loyal (Host.onChoice (Dialogue.restart (Host.silent 9 9) true none false)) g
      ∧ Visited (Host.onChoice (Dialogue.restart (Host.silent 9 9) true none false)) g scene
      ∧ scene.dialogue.participants = [⟨0, 0⟩] ∧ scene.dialogue.current = some line
      ∧ line.hasChoices = true ∧ scene.dialogue.choice? 0 = some e
      ∧ Dialogue.choose (Host.onChoice (Dialogue.restart (Host.silent 9 9) true none false)) 0 scene
        = .ok running after
      ∧ GoesFrom (Host.onChoice (Dialogue.restart (Host.silent 9 9) true none false)) g e line ready
        running after
      ∧ after.dialogue.value? "x" = some (.int 1) := by
  let host := Host.onChoice (Dialogue.restart (Host.silent 9 9) true none false)
  have opens : ((compile .standard "script" stepBeforeOption).toOption.any fun c =>
      c.graph.any fun g => (Scene.opening? host g).any fun scene =>
        scene.joined.dialogue.participants = [⟨0, 0⟩]
          && scene.joined.dialogue.current.any fun line => line.hasChoices
          && (scene.joined.dialogue.choice? 0).any fun e =>
            (((Dialogue.tellChoice host e 0).done? scene.joined).all fun ready =>
              ready.2.dialogue.current = some line)
            && ((Dialogue.choose host 0).done? scene.joined).any fun result =>
              result.2.dialogue.value? "x" = some (.int 1)) = true := by
    decide +kernel
  obtain ⟨c, compiled, opens⟩ := exists_ok_of_any opens
  simp only [Bool.and_eq_true, decide_eq_true_eq, Option.any_eq_true] at opens
  obtain ⟨g, graph, scene, opened, alone, line, current, has, e, way, stays, ⟨running, after⟩, done,
    sets⟩ := opens
  have sturdy := sturdy_of_compile compiled graph
  have loyal : Loyal host g := onChoice_loyal sturdy (.call (.call (.restart true none false)))
  have visited := (opening_visited opened).joined
  have brought (ready : Scene Unit Unit)
      (told : Dialogue.tellChoice host e 0 scene.joined = .ok () ready) :
      ready.dialogue.current = some line := by
    rw [Play.done?, told] at stays
    exact of_decide_eq_true stays
  have chooses := (choosing_with_calls compiled graph loyal visited current has way).2 brought
  obtain ⟨ready, _, goes⟩ := chooses.of_done (Play.of_done? done)
  exact ⟨c, g, scene.joined, line, e, running, ready, after, compiled, graph, loyal, visited,
    alone, current, has, way, Play.of_done? done, goes, sets⟩

/-- A participant resets the dialogue when it is told of the choice. Everyone is told, nobody fails, and
then choosing fails because the dialogue has no line any more. -/
theorem choosing_after_reset :
    ∃ c g scene line e ready,
      compile .standard "script" "A: hi\n* one\n    B: x\n" = .ok c ∧ c.diagnostics = []
      ∧ c.graph = some g
      ∧ Loyal (Host.onChoice (Dialogue.reset (Host.silent 9 9) true true true)) g
      ∧ Visited (Host.onChoice (Dialogue.reset (Host.silent 9 9) true true true)) g scene
      ∧ scene.dialogue.current = some line ∧ line.hasChoices = true
      ∧ scene.dialogue.choice? 0 = some e
      ∧ Dialogue.tellChoice (Host.onChoice (Dialogue.reset (Host.silent 9 9) true true true)) e 0
        scene = .ok () ready
      ∧ Dialogue.choose (Host.onChoice (Dialogue.reset (Host.silent 9 9) true true true)) 0 scene
        = .error .absent ready := by
  let host := Host.onChoice (Dialogue.reset (Host.silent 9 9) true true true)
  have opens : ((compile .standard "script" "A: hi\n* one\n    B: x\n").toOption.any fun c =>
      c.diagnostics = [] && c.graph.any fun g => (Scene.opening? host g).any fun scene =>
        scene.joined.dialogue.current.any fun line => line.hasChoices
          && (scene.joined.dialogue.choice? 0).any fun e =>
            ((Dialogue.tellChoice host e 0).done? scene.joined).any fun ready =>
              ready.2.dialogue.current = none) = true := by
    decide +kernel
  obtain ⟨c, compiled, opens⟩ := exists_ok_of_any opens
  simp only [Bool.and_eq_true, decide_eq_true_eq, Option.any_eq_true] at opens
  obtain ⟨clean, g, graph, scene, opened, line, current, has, e, way, ⟨_, ready⟩, done, ended⟩ := opens
  have sturdy := sturdy_of_compile compiled graph
  have loyal : Loyal host g := onChoice_loyal sturdy (.call (.call (.reset true true true)))
  have told : Dialogue.tellChoice host e 0 scene.joined = .ok () ready := Play.of_done? done
  have fails : Dialogue.carryOn host e ready = .error .absent ready := by
    have read : Play.dialogue ready = .ok ready.dialogue ready := rfl
    rw [Dialogue.carryOn, Play.bind_ok read, ended]
    rfl
  have visited := (opening_visited opened).joined
  refine ⟨c, g, scene.joined, line, e, ready, compiled, clean, graph, loyal, visited, current, has,
    way, told, ?_⟩
  exact (choose_eq current has way).trans ((Play.bind_ok told).trans fails)

end Colloquy.Script
