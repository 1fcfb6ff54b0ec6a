import Colloquy.Proofs.Dialogue.Quiet
import Colloquy.Proofs.Graph.Sturdy
/-!
# What a step of a dialogue comes to

On a sturdy graph, in a quiet scene, nothing that is played fails but for evaluations, for trees of
choices that are too deep and for runs without an end. What comes of a step is told by two
conditions: one on its result and the scene after it, and one on the fault and the scene in which it
occurred.
-/

namespace Colloquy

open Script.Direct (Variables Raised)

variable {η δ : Type} {host : Host η δ} {scene after : Scene η δ} {g : Graph}

/-- How something that is played comes out. Nothing but the rules for it opens it: what is played is
not to be run by the way. -/
@[irreducible]
def Yields {α : Type} (x : Play η δ α) (scene : Scene η δ) (ok : α → Scene η δ → Prop)
    (fails : Fault → Scene η δ → Prop) : Prop :=
  match x scene with
  | .ok a after => ok a after
  | .error f after => fails f after

namespace Yields

variable {α β : Type} {x : Play η δ α} {f : α → Play η δ β} {ok ok' : α → Scene η δ → Prop}
  {done : β → Scene η δ → Prop} {fails fails' : Fault → Scene η δ → Prop}

theorem of_ok {a : α} (played : x scene = .ok a after) (result : ok a after) :
    Yields x scene ok fails := by
  rw [Yields, played]
  exact result

theorem of_error {fault : Fault} (failed : x scene = .error fault after)
    (result : fails fault after) : Yields x scene ok fails := by
  rw [Yields, failed]
  exact result

theorem mono (yields : Yields x scene ok fails) (weaker : ∀ a after, ok a after → ok' a after)
    (weak : ∀ f after, fails f after → fails' f after) : Yields x scene ok' fails' := by
  unfold Yields at yields ⊢
  cases played : x scene with
  | ok a after =>
    rw [played] at yields
    exact weaker a after yields
  | error f after =>
    rw [played] at yields
    exact weak f after yields

/-- What fails may be told less of. -/
theorem mono_fails (yields : Yields x scene ok fails)
    (weak : ∀ f after, fails f after → fails' f after) : Yields x scene ok fails' :=
  yields.mono (fun _ _ result => result) weak

theorem bind (first : Yields x scene ok fails)
    (later : ∀ a after, ok a after → Yields (f a) after done fails) :
    Yields (x >>= f) scene done fails := by
  unfold Yields at first
  cases played : x scene with
  | ok a after =>
    rw [played] at first
    have rest := later a after first
    unfold Yields at rest ⊢
    rw [Play.bind_ok played]
    exact rest
  | error fault after =>
    rw [played] at first
    exact of_error (Play.bind_error played) first

/-- What comes after something that is known to succeed. -/
theorem step {a : α} (played : x scene = .ok a after) (later : Yields (f a) after done fails) :
    Yields (x >>= f) scene done fails := by
  unfold Yields at later ⊢
  rw [Play.bind_ok played]
  exact later

/-- What comes after something that is played only if a condition holds. -/
theorem optional {c : Prop} [Decidable c] {y : Play η δ Unit} {k : Unit → Play η δ β}
    {ready : Scene η δ → Prop} (first : c → Yields y scene (fun _ => ready) fails)
    (here : ready scene) (later : ∀ after, ready after → Yields (k ()) after done fails) :
    Yields (if c then y >>= k else k ()) scene done fails := by
  split
  next holds => exact (first holds).bind fun _ after isReady => later after isReady
  next => exact later scene here

/-- What was played to its end came out as it should. -/
theorem of_done (yields : Yields x scene ok fails) {a : α} (played : x scene = .ok a after) :
    ok a after := by
  rwa [Yields, played] at yields

/-- What failed came out as it may. -/
theorem of_failed (yields : Yields x scene ok fails) {fault : Fault}
    (failed : x scene = .error fault after) : fails fault after := by
  rwa [Yields, failed] at yields

/-- What comes out of something in two respects. -/
theorem and {fails' : Fault → Scene η δ → Prop} (first : Yields x scene ok fails)
    (second : Yields x scene ok' fails') :
    Yields x scene (fun a after => ok a after ∧ ok' a after)
      (fun f after => fails f after ∧ fails' f after) := by
  cases played : x scene with
  | ok a after => exact .of_ok played ⟨first.of_done played, second.of_done played⟩
  | error f after => exact .of_error played ⟨first.of_failed played, second.of_failed played⟩

end Yields

/-- The result of something played and the scene it leaves, if it does not fail. -/
def Play.done? {α : Type} (x : Play η δ α) (scene : Scene η δ) : Option (α × Scene η δ) :=
  match x scene with
  | .ok a after => some (a, after)
  | .error _ _ => none

/-- The fault that something played ends with, if it fails. -/
def Play.fault? {α : Type} (x : Play η δ α) (scene : Scene η δ) : Option Fault :=
  match x scene with
  | .ok _ _ => none
  | .error f _ => some f

theorem Play.of_done? {α : Type} {x : Play η δ α} {a : α} (done : x.done? scene = some (a, after)) :
    x scene = .ok a after := by
  unfold Play.done? at done
  split at done
  next played =>
    cases done
    exact played
  · cases done

theorem Play.of_fault? {α : Type} {x : Play η δ α} {f : Fault} (fails : x.fault? scene = some f) :
    ∃ after, x scene = .error f after := by
  unfold Play.fault? at fails
  split at fails
  · cases fails
  next fault between failed =>
    cases fails
    exact ⟨between, failed⟩

/-! ### Scenes on a graph -/

/-- A dialogue that stands on a line of its graph, offering ways on from its nodes. -/
structure Onstage (host : Host η δ) (g : Graph) (scene : Scene η δ) : Prop where
  quiet : Quiet host scene
  graph : scene.dialogue.graph = g
  line : ∀ n, scene.dialogue.current = some n → n ∈ g.nodes ∧ n.kind = .text
  ways : ∀ e ∈ scene.dialogue.choices, ∃ n ∈ g.nodes, e ∈ n.edges

/-- A scene after something happened that moved nothing. -/
def Scene.Ran (scene after : Scene η δ) : Prop :=
  ∃ vars raised, GoesOn scene vars raised after

theorem Scene.Ran.refl (scene : Scene η δ) : scene.Ran scene :=
  ⟨_, _, .refl scene⟩

theorem Scene.Ran.trans {last : Scene η δ} (first : scene.Ran after) (second : after.Ran last) :
    scene.Ran last := by
  obtain ⟨_, _, goes⟩ := first
  obtain ⟨_, _, more⟩ := second
  exact ⟨_, _, goes.trans more⟩

theorem GoesOn.ran {vars : Variables} {raised : List Raised} (goes : GoesOn scene vars raised after) :
    scene.Ran after :=
  ⟨_, _, goes⟩

theorem Scene.Ran.quiet (ran : scene.Ran after) (quiet : Quiet host scene) : Quiet host after := by
  obtain ⟨_, _, goes⟩ := ran
  exact goes.quiet quiet

theorem Scene.Ran.graph (ran : scene.Ran after) :
    after.dialogue.graph = scene.dialogue.graph := by
  obtain ⟨_, _, goes⟩ := ran
  exact goes.graph

theorem Onstage.ran (onstage : Onstage host g scene) (ran : scene.Ran after) :
    Onstage host g after := by
  obtain ⟨vars, raised, goes⟩ := ran
  refine ⟨goes.quiet onstage.quiet, goes.graph.trans onstage.graph, ?_, ?_⟩
  · rw [goes.dialogue]
    exact onstage.line
  · rw [goes.dialogue]
    exact onstage.ways

/-! ### Faults -/

/-- An evaluation without a value that is not merely refused. -/
def Expression.Breaks (e : Expression) (env : Expression.Environment) (f : Expression.EvalFault) :
    Prop :=
  e.evaluate env = .error f ∧ ∀ r, f ≠ .refused r

/-- `g.GoesFor p k n`: from `n` one can go along `k` edges of the graph, one after the other, without
leaving the nodes of such kinds. -/
inductive Graph.GoesFor (g : Graph) (p : NodeKind → Bool) : Nat → Node → Prop where
  | here {n : Node} (kind : p n.kind = true) : GoesFor g p 0 n
  | on {n m : Node} {e : Edge} {k : Nat} (kind : p n.kind = true) (own : e ∈ n.edges)
      (leads : g.target e = .ok (some m)) (later : GoesFor g p k m) : GoesFor g p (k + 1) n

/-- Whether options are collected from nodes of a kind. -/
def NodeKind.collects (k : NodeKind) : Bool :=
  k = .choice || k = .select

/-- The faults that a step on a sturdy graph may end with, where runs are bounded by `steps` and trees
of choices by `depth`: an expression of the graph cannot be evaluated with the variables as they are,
choices are nested deeper than that, or the graph leads through more steps that are run. -/
inductive Breakdown (steps depth : Nat) (g : Graph) (scene : Scene η δ) : Fault → Prop where
  | evaluation {e : Expression} {f : Expression.EvalFault} (written : e ∈ g.expressions)
    (breaks : e.Breaks scene.dialogue.environment f) : Breakdown steps depth g scene (.evaluation f)
  | tooDeep {n : Node} (nested : g.GoesFor NodeKind.collects depth n) :
    Breakdown steps depth g scene .tooDeep
  | endless {n : Node} (runs : g.GoesFor NodeKind.runsOn steps n) :
    Breakdown steps depth g scene .endless

/-- A step broke down, leaving the dialogue on its graph. -/
def BreaksDown (host : Host η δ) (g : Graph) (f : Fault) (after : Scene η δ) : Prop :=
  Onstage host g after ∧ Breakdown host.steps host.depth g after f

/-- A fault is that of an expression of the graph which cannot be evaluated as the variables are. -/
def Broke (g : Graph) (f : Fault) (after : Scene η δ) : Prop :=
  ∃ e ∈ g.expressions, ∃ fault, f = .evaluation fault ∧ e.Breaks after.dialogue.environment fault

theorem Broke.breakdown {steps depth : Nat} {f : Fault} (broke : Broke g f after) :
    Breakdown steps depth g after f := by
  obtain ⟨e, written, fault, rfl, breaks⟩ := broke
  exact .evaluation written breaks

/-- A step came to an expression that cannot be evaluated, with nothing moved before. -/
structure Halted (g : Graph) (scene : Scene η δ) (f : Fault) (after : Scene η δ) : Prop where
  ran : scene.Ran after
  broke : Broke g f after

theorem Halted.of_ran {f : Fault} {last : Scene η δ} (ran : scene.Ran after)
    (halted : Halted g after f last) : Halted g scene f last :=
  ⟨ran.trans halted.ran, halted.broke⟩

/-- An evaluation broke down, with variables asked for and nothing changed before. -/
structure Balked (g : Graph) (scene : Scene η δ) (f : Fault) (after : Scene η δ) : Prop where
  goes : GoesOn scene scene.dialogue.vars [] after
  broke : Broke g f after

theorem Balked.halted {f : Fault} (balked : Balked g scene f after) : Halted g scene f after :=
  ⟨balked.goes.ran, balked.broke⟩

/-! ### Evaluating -/

/-- What is evaluated has its value, or none if it is refused. -/
theorem evaluate_yields (quiet : Quiet host scene) {e : Expression}
    (written : e ∈ g.expressions) (node : Node) :
    Yields (Dialogue.evaluate host e node) scene
      (fun v after => Script.Direct.value scene.dialogue.vars e = .ok v
        ∧ GoesOn scene scene.dialogue.vars [] after)
      (Balked g scene) := by
  obtain ⟨asked, done, goes⟩ := requests_quiet quiet e.names
  have same : asked.dialogue.environment = Script.Direct.environment scene.dialogue.vars := by
    rw [← goes.vars]
    rfl
  have read : Play.dialogue asked = .ok asked.dialogue asked := rfl
  rw [Script.Direct.value, ← same]
  unfold Yields
  rw [Dialogue.evaluate, Play.bind_ok done, Play.bind_ok read]
  cases value : e.evaluate asked.dialogue.environment with
  | ok v => exact ⟨rfl, goes⟩
  | error f =>
    cases f with
    | refused r =>
      obtain ⟨last, logged, silent⟩ := logAt_goesOn asked .error node (r.message e.source)
      dsimp only
      rw [Play.bind_ok logged]
      exact ⟨rfl, goes.trans (goes.vars ▸ silent)⟩
    | _ =>
      refine ⟨goes, e, written, _, rfl, value, ?_⟩
      rintro r ⟨⟩

theorem holds_yields (quiet : Quiet host scene) {e : Expression}
    (written : e ∈ g.expressions) (node : Node) :
    Yields (Dialogue.holds host node (some e)) scene
      (fun held after => Script.Direct.holds scene.dialogue.vars e = .ok held
        ∧ GoesOn scene scene.dialogue.vars [] after)
      (Balked g scene) := by
  refine (evaluate_yields quiet written node).bind fun v after result => ?_
  obtain ⟨value, goes⟩ := result
  refine .of_ok rfl ⟨?_, goes⟩
  rw [Script.Direct.holds, value]
  rfl

end Colloquy
