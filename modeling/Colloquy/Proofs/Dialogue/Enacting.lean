import Colloquy.Dialogue.Flow
import Colloquy.Proofs.Dialogue.Comparing
import Colloquy.Proofs.Dialogue.Failures
/-!
# What happens during calls

In an attended scene everything a call comes to is what it comes to with nobody attending. What
happens meanwhile is told here, call by call: what is asked for and set on the way, and what the call
ends with.
-/

namespace Colloquy

open Script.Direct (Variables)

variable {η δ : Type} {host : Host η δ} {scene after : Scene η δ} {g : Graph}

/-! ### Attended dialogues on a graph -/

/-- A scene with the same dialogue that nobody attends. -/
def Scene.lone (scene : Scene η δ) : Scene Unit Unit where
  dialogue := { scene.dialogue with participants := [] }
  bus := {}
  host := ()

/-- A host with the same bounds who answers for nobody. -/
def Host.hushed (host : Host η δ) : Host Unit Unit :=
  .silent host.steps host.depth

/-- The second dialogue is the first without those who take part in it. -/
def Dialogue.Deserted (d d' : Dialogue) : Prop :=
  d' = { d with participants := [] }

/-- An attended scene whose dialogue stands on a line of its graph, or at the end. -/
structure Staged (host : Host η δ) (g : Graph) (scene : Scene η δ) : Prop where
  attended : Attended host scene
  onstage : Onstage host.hushed g scene.lone

theorem lone_quiet (host : Host η δ) (scene : Scene η δ) : Quiet host.hushed scene.lone where
  passive := fun _ none => by cases none
  unheard := fun _ => rfl
  idle := rfl
  empty := rfl

namespace Staged

theorem graph (staged : Staged host g scene) : scene.dialogue.graph = g :=
  staged.onstage.graph

theorem twins (staged : Staged host g scene) :
    Twins host host.hushed Dialogue.Deserted scene scene.lone :=
  ⟨staged.attended, staged.onstage.quiet.attended, rfl, rfl, rfl⟩

theorem of_twins {last : Scene Unit Unit}
    (twins : Twins host host.hushed Dialogue.Deserted after last)
    (onstage : Onstage host.hushed g last) : Staged host g after := by
  have same : last.dialogue = after.lone.dialogue := twins.related
  refine ⟨twins.attended, lone_quiet host after, ?_, ?_, ?_⟩
  · rw [← same]
    exact onstage.graph
  · rw [← same]
    exact onstage.line
  · rw [← same]
    exact onstage.ways

theorem of_same (staged : Staged host g scene) (attended : Attended host after)
    (graph : after.dialogue.graph = scene.dialogue.graph)
    (current : after.dialogue.current = scene.dialogue.current)
    (choices : after.dialogue.choices = scene.dialogue.choices) : Staged host g after := by
  obtain ⟨_, graph', line, ways⟩ := staged.onstage
  refine ⟨attended, lone_quiet host after, graph.trans graph', fun n there => ?_, fun e own => ?_⟩
  · exact line n (current.symm.trans there)
  · have offered : e ∈ after.dialogue.choices := own
    exact ways e (choices ▸ offered)

/-- A change of the dialogue that concerns neither where it stands nor who takes part. -/
theorem change (staged : Staged host g scene) {f : Dialogue → Dialogue}
    (people : (f scene.dialogue).participants = scene.dialogue.participants)
    (graph : (f scene.dialogue).graph = scene.dialogue.graph)
    (current : (f scene.dialogue).current = scene.dialogue.current)
    (choices : (f scene.dialogue).choices = scene.dialogue.choices) :
    Staged host g { scene with dialogue := f scene.dialogue } :=
  staged.of_same (staged.attended.of_same people rfl) graph current choices

theorem moveTo (staged : Staged host g scene) {line : Option Node}
    (stands : ∀ n, line = some n → n ∈ g.nodes ∧ n.kind = .text) :
    Staged host g { scene with dialogue := scene.dialogue.moveTo line } :=
  ⟨staged.attended.of_same rfl rfl, lone_quiet host _, staged.onstage.graph, stands,
    fun _ none => by cases none⟩

end Staged

/-- Attaching to a graph before anything is run. -/
theorem attached_staged (attended : Attended host scene) (g : Graph) :
    Staged host g (scene.attached g) :=
  ⟨attended.of_same rfl rfl, lone_quiet host _, rfl, fun _ none => (by cases none),
    fun _ none => by cases none⟩

/-! ### What is enacted -/

/-- How something played in an attended scene comes out, and what happens meanwhile. Everyone is told
of all of it, also if it fails. -/
def Enacts (host : Host η δ) (g : Graph) {α : Type} (x : Play η δ α) (scene : Scene η δ)
    (ok : α → List Happening → Scene η δ → Prop) (fails : Fault → Scene η δ → Prop) : Prop :=
  Yields x scene
    (fun a after => Staged host g after ∧ ∃ happenings,
      Unfolds scene happenings after ∧ ok a happenings after)
    (fun f after => Staged host g after ∧ (∃ happenings, Unfolds scene happenings after)
      ∧ fails f after)

theorem Breakdown.of_vars {steps depth : Nat} {last : Scene Unit Unit} {f : Fault}
    (vars : last.dialogue.vars = after.dialogue.vars) (broke : Breakdown steps depth g last f) :
    Breakdown steps depth g after f := by
  cases broke with
  | evaluation written breaks =>
    have same : last.dialogue.environment = after.dialogue.environment := by
      unfold Dialogue.environment Dialogue.value?
      rw [vars]
    rw [same] at breaks
    exact .evaluation written breaks
  | tooDeep nested => exact .tooDeep nested
  | endless runs => exact .endless runs

namespace Enacts

variable {α β : Type} {x : Play η δ α} {k : α → Play η δ β}
  {ok ok' : α → List Happening → Scene η δ → Prop} {done : β → List Happening → Scene η δ → Prop}
  {fails fails' : Fault → Scene η δ → Prop}

theorem of_ok {a : α} {happenings : List Happening} (played : x scene = .ok a after)
    (staged : Staged host g after) (unfolds : Unfolds scene happenings after)
    (result : ok a happenings after) : Enacts host g x scene ok fails :=
  Yields.of_ok played ⟨staged, happenings, unfolds, result⟩

theorem of_error {f : Fault} {happenings : List Happening} (failed : x scene = .error f after)
    (staged : Staged host g after) (unfolds : Unfolds scene happenings after)
    (result : fails f after) : Enacts host g x scene ok fails :=
  Yields.of_error failed ⟨staged, ⟨happenings, unfolds⟩, result⟩

theorem mono (enacts : Enacts host g x scene ok fails)
    (weaker : ∀ a happenings after, ok a happenings after → ok' a happenings after)
    (weak : ∀ f after, fails f after → fails' f after) : Enacts host g x scene ok' fails' := by
  refine Yields.mono enacts ?_ ?_
  · rintro a after ⟨staged, happenings, unfolds, result⟩
    exact ⟨staged, happenings, unfolds, weaker a happenings after result⟩
  · rintro f after ⟨staged, unfolds, result⟩
    exact ⟨staged, unfolds, weak f after result⟩

theorem bind (first : Enacts host g x scene ok fails)
    (later : ∀ a happenings between, Staged host g between → ok a happenings between →
      Enacts host g (k a) between (fun b more => done b (happenings ++ more)) fails) :
    Enacts host g (x >>= k) scene done fails := by
  have told : Yields x scene
      (fun a between => Staged host g between ∧ ∃ happenings,
        Unfolds scene happenings between ∧ ok a happenings between)
      (fun f last => Staged host g last ∧ (∃ happenings, Unfolds scene happenings last)
        ∧ fails f last) := first
  refine told.bind fun a between result => ?_
  obtain ⟨staged, happenings, unfolds, result⟩ := result
  refine Yields.mono (later a happenings between staged result) ?_ ?_
  · rintro b last ⟨staged, more, unfolds', result⟩
    exact ⟨staged, happenings ++ more, unfolds.trans unfolds', result⟩
  · rintro f last ⟨staged, ⟨more, unfolds'⟩, result⟩
    exact ⟨staged, ⟨happenings ++ more, unfolds.trans unfolds'⟩, result⟩

/-- What comes after something during which nothing happens. -/
theorem step {a : α} (played : x scene = .ok a scene)
    (later : Enacts host g (k a) scene done fails) : Enacts host g (x >>= k) scene done fails :=
  Yields.step played later

/-- What comes after a change of the dialogue. -/
theorem change {f : Dialogue → Dialogue} {k : Unit → Play η δ β}
    (people : (f scene.dialogue).participants = scene.dialogue.participants)
    (later : Enacts host g (k ()) { scene with dialogue := f scene.dialogue } done fails) :
    Enacts host g (Play.changeDialogue f >>= k) scene done fails := by
  have blank : scene.Blank { scene with dialogue := f scene.dialogue } := ⟨people, rfl, rfl⟩
  have changed : Play.changeDialogue f scene
      = .ok () { scene with dialogue := f scene.dialogue } := rfl
  refine Yields.step changed (Yields.mono later ?_ ?_)
  · rintro b last ⟨staged, happenings, unfolds, result⟩
    exact ⟨staged, happenings, .of_blank blank unfolds, result⟩
  · rintro f last ⟨staged, ⟨happenings, unfolds⟩, result⟩
    exact ⟨staged, ⟨happenings, .of_blank blank unfolds⟩, result⟩

/-- What comes after something that is played only if a condition holds. -/
theorem optional {c : Prop} [Decidable c] {y : Play η δ Unit} {k : Unit → Play η δ β}
    {ready : List Happening → Scene η δ → Prop} (staged : Staged host g scene)
    (first : c → Enacts host g y scene (fun _ => ready) fails) (here : ¬ c → ready [] scene)
    (later : ∀ happenings between, Staged host g between → ready happenings between →
      Enacts host g (k ()) between (fun b more => done b (happenings ++ more)) fails) :
    Enacts host g (if c then y >>= k else k ()) scene done fails := by
  split
  next holds => exact (first holds).bind fun _ => later
  next fails => exact later [] scene staged (here fails)

/-- What is the same with nobody attending comes out the same. -/
theorem of_agree {P : Happening → Prop} {y : Play Unit Unit α} {well : α → Scene Unit Unit → Prop}
    {K : α → Dialogue → Prop}
    (agrees : Agree host host.hushed Dialogue.Deserted P x y scene scene.lone)
    (yields : Yields y scene.lone well (BreaksDown host.hushed g))
    (known : ∀ a last, well a last → Onstage host.hushed g last ∧ K a last.dialogue) :
    Enacts host g x scene
      (fun a happenings after => (∀ h ∈ happenings, P h) ∧ K a after.lone.dialogue)
      (fun f after => Breakdown host.steps host.depth g after f) := by
  cases agrees with
  | done left right unfolds kind twins =>
    obtain ⟨onstage, result⟩ := known _ _ (yields.of_done right)
    have same : _ = Scene.dialogue (Scene.lone _) := twins.related
    rw [same] at result
    exact .of_ok left (.of_twins twins onstage) unfolds ⟨kind, result⟩
  | failed left right unfolds twins =>
    obtain ⟨onstage, broke⟩ := yields.of_failed right
    exact .of_error left (.of_twins twins onstage) unfolds (broke.of_vars twins.vars)

end Enacts

/-! ### Announcing and asking -/

theorem announce_enacts (staged : Staged host g scene) {notice : Notice}
    (plain : ∀ name, notice ≠ .requested name) :
    Enacts host g (Dialogue.announce host notice) scene
      (fun _ happenings after =>
        happenings = [.raised notice] ∧ after.dialogue = scene.dialogue)
      (fun f after => Breakdown host.steps host.depth g after f) := by
  obtain ⟨after, said, reaches⟩ := announce_attended staged.attended plain
  have same := reaches.dialogue
  have staged' := staged.of_same (reaches.attended staged.attended) (by rw [same]) (by rw [same])
    (by rw [same])
  exact .of_ok said staged' (.single reaches) ⟨rfl, same⟩

theorem requests_enacts (staged : Staged host g scene) (names : List String) :
    Enacts host g (names.forM (Dialogue.request host)) scene
      (fun _ _ after => after.dialogue = scene.dialogue)
      (fun f after => Breakdown host.steps host.depth g after f) := by
  obtain ⟨asked, done, same, unfolds⟩ := requests_attended staged.attended names
  have staged' := staged.of_same (unfolds.attended staged.attended) (by rw [same]) (by rw [same])
    (by rw [same])
  exact .of_ok done staged' unfolds same

theorem log_enacts (staged : Staged host g scene) (level : Level) (message : String) :
    Enacts host g (Play.log level message) scene
      (fun _ happenings after =>
        happenings = [.logged ⟨level, message⟩] ∧ after.dialogue = scene.dialogue)
      (fun f after => Breakdown host.steps host.depth g after f) :=
  .of_ok rfl (staged.of_same (staged.attended.of_same rfl rfl) rfl rfl rfl) (.enter scene rfl)
    ⟨rfl, rfl⟩

theorem logAt_enacts (staged : Staged host g scene) (level : Level) (node : Node)
    (message : String) :
    Enacts host g (Dialogue.logAt level node message) scene
      (fun _ happenings after =>
        happenings = [.remarked level node message] ∧ after.dialogue = scene.dialogue)
      (fun f after => Breakdown host.steps host.depth g after f) :=
  .of_ok rfl (staged.of_same (staged.attended.of_same rfl rfl) rfl rfl rfl) (.enter scene rfl)
    ⟨rfl, rfl⟩

/-! ### Running -/

theorem deserted_putting (d d' : Dialogue) (name : String) (v : Value) (same : d.Deserted d') :
    (d.put name v).Deserted (d'.put name v) := by
  cases same
  rfl

theorem deserted_offering (d d' : Dialogue) (i j : Nat) (e : Edge) (number : i = j)
    (same : d.Deserted d') : (d.offer i e).Deserted (d'.offer j e) := by
  cases same
  cases number
  unfold Dialogue.offer Dialogue.Deserted
  dsimp only
  split <;> rfl

/-- Where a dialogue stands and what it offers there. -/
structure Dialogue.Standing (d d' : Dialogue) : Prop where
  current : d'.current = d.current
  choices : d'.choices = d.choices
  gathering : d'.gathering = d.gathering

theorem Scene.Stays.standing {before last : Scene η δ} (stays : before.Stays last) :
    before.dialogue.Standing last.dialogue :=
  ⟨stays.current, stays.choices, stays.gathering⟩

section Sturdy

variable (sturdy : g.Sturdy) (staged : Staged host g scene)

include sturdy staged

theorem runOn_enacts {o : Option Node} (inside : g.Holds o) :
    Enacts host g (Dialogue.runOn host host.steps o) scene
      (fun stop happenings after => (∀ h ∈ happenings, h.Steps)
        ∧ g.Passes o stop ∧ scene.dialogue.Standing after.dialogue)
      (fun f after => Breakdown host.steps host.depth g after f) := by
  have agrees := runOn_agree deserted_putting staged.twins host.steps o
  have yields := (runOn_yields sturdy.rooted staged.onstage.quiet staged.onstage.graph
    inside).mono_fails fun _ _ stalled => stalled.breaksDown staged.onstage
  refine (Enacts.of_agree (K := fun stop d => g.Passes o stop ∧ scene.lone.dialogue.Standing d)
    agrees yields fun stop last result => ?_).mono (fun _ _ after result => ?_) fun _ _ broke => broke
  · exact ⟨staged.onstage.ran result.1, result.2.1, result.1.stays.standing⟩
  · obtain ⟨steps, passes, current, choices, gathering⟩ := result
    exact ⟨steps, passes, current, choices, gathering⟩

theorem gather_enacts :
    Enacts host g (Dialogue.gather host) scene
      (fun _ happenings after => (∀ h ∈ happenings, h.Asks)
        ∧ after.dialogue.current = scene.dialogue.current
        ∧ after.dialogue.gathering = scene.dialogue.gathering)
      (fun f after => Breakdown host.steps host.depth g after f) := by
  have numbers : ∀ d d' : Dialogue, d.Deserted d' → d.gathering = d'.gathering := by
    rintro d _ rfl
    rfl
  have depth : host.hushed.depth = host.depth := rfl
  have agrees := gather_agree deserted_offering numbers depth staged.twins rfl
  refine Enacts.of_agree (K := fun _ d => d.current = scene.dialogue.current
    ∧ d.gathering = scene.dialogue.gathering) agrees
    ((gather_yields sturdy staged.onstage).mono_fails
      fun _ _ unlisted => unlisted.breaksDown sturdy.rooted staged.onstage) fun _ last result => ?_
  obtain ⟨out, presents, added⟩ := result
  have onstage := added.onstage staged.onstage
    (presents.owns sturdy.rooted fun n same => (staged.onstage.line n same).1)
  refine ⟨onstage, ?_, ?_⟩
  · rw [added.dialogue]
    rfl
  · rw [added.dialogue]
    rfl

/-- What happens when a dialogue moves to a line or to the end: variables are asked for, and unless it
moves quietly, it is told of last. -/
theorem setLine_enacts {line : Option Node}
    (stands : ∀ n, line = some n → n ∈ g.nodes ∧ n.kind = .text) (quietly : Bool) :
    Enacts host g (Dialogue.setLine host line quietly) scene
      (fun _ happenings after => (∃ asked, (∀ h ∈ asked, h.Asks) ∧ happenings = asked
          ++ if quietly then [] else [.raised (if line.isSome then .line else .finished)])
        ∧ after.dialogue.current = line
        ∧ after.dialogue.gathering = scene.dialogue.gathering + 1)
      (fun f after => Breakdown host.steps host.depth g after f) := by
  rw [Dialogue.setLine]
  refine .change rfl ((gather_enacts sturdy (staged.moveTo stands)).bind
    fun _ asked between there result => ?_)
  obtain ⟨asks, current, gathering⟩ := result
  cases quietly with
  | true =>
    refine .of_ok rfl there (.refl between) ⟨⟨asked, asks, rfl⟩, current, gathering⟩
  | false =>
    have plain : ∀ name, (if line.isSome then Notice.line else .finished) ≠ .requested name := by
      intro name
      split <;> rintro ⟨⟩
    refine (announce_enacts there plain).mono (fun _ told after result => ?_) fun _ _ broke => broke
    obtain ⟨rfl, same⟩ := result
    exact ⟨⟨asked, asks, rfl⟩, by rw [same]; exact current, by rw [same]; exact gathering⟩

end Sturdy

/-! ### How runs end -/

/-- The end of a run from line to line, between the dialogue before it and the one after: the dialogue
has moved to a line or to the end, and this is told last, or it has not moved, and it is logged that
the run came to a choice. Only the end of the header is not told. -/
inductive Ending (g : Graph) (tellEnd : Bool) (d d' : Dialogue) : List Happening → Prop where
  | line {n : Node} (current : d'.current = some n) (text : n.kind = .text)
      (moved : d'.gathering = d.gathering + 1) : Ending g tellEnd d d' [.raised .line]
  | finished (told : tellEnd = true) (current : d'.current = none)
      (moved : d'.gathering = d.gathering + 1) : Ending g tellEnd d d' [.raised .finished]
  | untold (silent : tellEnd = false) (current : d'.current = none)
      (moved : d'.gathering = d.gathering + 1) : Ending g tellEnd d d' []
  | stray {n : Node} (member : n ∈ g.nodes) (choice : n.kind = .choice) (stands : d.Standing d') :
      Ending g tellEnd d d' [.remarked .error n strayMessage]

/-- What happens during a run: steps, and then what it ends with. -/
def RunsOut (g : Graph) (tellEnd : Bool) (d d' : Dialogue) (happenings : List Happening) : Prop :=
  ∃ steps ending, happenings = steps ++ ending ∧ (∀ h ∈ steps, h.Steps)
    ∧ Ending g tellEnd d d' ending

theorem Dialogue.Standing.ending {d between d' : Dialogue} {tellEnd : Bool}
    {happenings : List Happening} (stands : d.Standing between)
    (ending : Ending g tellEnd between d' happenings) : Ending g tellEnd d d' happenings := by
  have number := stands.gathering
  cases ending with
  | line current text moved => exact .line current text (number ▸ moved)
  | finished told current moved => exact .finished told current (number ▸ moved)
  | untold silent current moved => exact .untold silent current (number ▸ moved)
  | stray member choice stays =>
    exact .stray member choice ⟨stays.current.trans stands.current,
      stays.choices.trans stands.choices, stays.gathering.trans stands.gathering⟩

/-- Steps before a run belong to it. -/
theorem RunsOut.after_steps {d between d' : Dialogue} {tellEnd : Bool}
    {before happenings : List Happening} (steps : ∀ h ∈ before, h.Steps)
    (stands : d.Standing between) (runs : RunsOut g tellEnd between d' happenings) :
    RunsOut g tellEnd d d' (before ++ happenings) := by
  obtain ⟨more, ending, rfl, further, ends⟩ := runs
  exact ⟨before ++ more, ending, (List.append_assoc ..).symm,
    List.forall_mem_append.mpr ⟨steps, further⟩, stands.ending ends⟩

theorem runTo_enacts (sturdy : g.Sturdy) (staged : Staged host g scene) {o : Option Node}
    (inside : g.Holds o) (tellEnd : Bool) :
    Enacts host g (Dialogue.runTo host o tellEnd) scene
      (fun _ happenings after => RunsOut g tellEnd scene.dialogue after.dialogue happenings)
      (fun f after => Breakdown host.steps host.depth g after f) := by
  rw [Dialogue.runTo]
  refine (runOn_enacts sturdy staged inside).bind fun stop steps between there ran => ?_
  obtain ⟨kind, passes, stands⟩ := ran
  -- the questions asked on reaching a line are steps as well
  have ends {asked ending : List Happening} {d' : Dialogue} (asks : ∀ h ∈ asked, h.Asks)
      (ends : Ending g tellEnd between.dialogue d' ending) :
      RunsOut g tellEnd scene.dialogue d' (steps ++ (asked ++ ending)) :=
    .after_steps kind stands ⟨asked, ending, rfl, fun h member => (asks h member).sets.steps, ends⟩
  cases stop with
  | none =>
    refine (setLine_enacts sturdy there (fun _ none => by cases none) (!tellEnd)).mono
      (fun _ _ after result => ?_) fun _ _ broke => broke
    obtain ⟨⟨asked, asks, rfl⟩, current, moved⟩ := result
    cases tellEnd with
    | true => exact ends asks (.finished rfl current moved)
    | false => exact ends asks (.untold rfl current moved)
  | some n =>
    have member := passes.holds sturdy.rooted inside n rfl
    dsimp only
    split
    next text =>
      have line : ∀ m, some n = some m → m ∈ g.nodes ∧ m.kind = .text := by
        rintro _ ⟨⟩
        exact ⟨member, text⟩
      refine (setLine_enacts sturdy there line false).mono (fun _ _ after result => ?_)
        fun _ _ broke => broke
      obtain ⟨⟨asked, asks, rfl⟩, current, moved⟩ := result
      exact ends asks (.line current text moved)
    next other =>
      have choice := (sturdy.still_kind member (passes.still n rfl)).resolve_left other
      rw [strayMessage_eq choice]
      refine (logAt_enacts there .error n strayMessage).mono (fun _ _ after result => ?_)
        fun _ _ broke => broke
      obtain ⟨rfl, same⟩ := result
      have stands : between.dialogue.Standing after.dialogue := by rw [same]; exact ⟨rfl, rfl, rfl⟩
      have unasked : ∀ h ∈ ([] : List Happening), h.Asks := fun _ none => by cases none
      have ended := ends unasked (.stray member choice stands)
      exact ended

/-! ### The header -/

/-- A node of the header, or its end. -/
def Graph.Heads (g : Graph) (o : Option Node) : Prop :=
  ∀ n, o = some n → ∃ i, g.bodyLength ≤ i ∧ g.nodes[i]? = some n

theorem Graph.Sturdy.header (sturdy : g.Sturdy) : ∃ o, g.headerNode = .ok o ∧ g.Heads o := by
  rw [Graph.headerNode, sturdy.formed.header]
  split
  · exact ⟨_, node?_ofNat g _, fun n there => ⟨g.bodyLength, Nat.le_refl _, there⟩⟩
  · exact ⟨none, rfl, fun _ none => by cases none⟩

/-- Behind a node of the header comes another, or its end. -/
theorem Graph.Sturdy.header_next (sturdy : g.Sturdy) {n : Node} (heads : g.Heads (some n)) :
    ∃ o, g.next n = .ok o ∧ g.Heads o := by
  obtain ⟨i, behind, there⟩ := heads n rfl
  obtain ⟨o, found, ⟨_, rfl⟩ | ⟨e, own, leads⟩⟩ := Graph.next_edge sturdy.rooted (List.mem_of_getElem? there)
  · exact ⟨none, found, fun _ none => by cases none⟩
  · refine ⟨o, found, fun m next => ⟨i + 1, Nat.le_succ_of_le behind, ?_⟩⟩
    obtain ⟨_, target, _⟩ := sturdy.formed.header_edges i n behind there e own
    rw [Graph.target, target, node?_ofNat] at leads
    exact (Except.ok.inj leads).trans next

theorem runAssignment_enacts (staged : Staged host g scene) {n : Node} (member : n ∈ g.nodes) :
    Enacts host g (Dialogue.runAssignment host n) scene
      (fun _ happenings _ => ∀ h ∈ happenings, h.Sets)
      (fun f after => Breakdown host.steps host.depth g after f) := by
  have agrees := runAssignment_agree deserted_putting staged.twins n
  refine (Enacts.of_agree (K := fun _ _ => True) agrees
    ((runAssignment_yields staged.onstage.quiet member).mono_fails
      fun _ _ halted => ⟨staged.onstage.ran halted.ran, halted.broke.breakdown⟩)
    fun _ last ran => ?_).mono
    (fun _ _ _ result => result.1) fun _ _ broke => broke
  exact ⟨staged.onstage.ran ran, trivial⟩

section Header

variable (sturdy : g.Sturdy)

include sturdy

/-- The steps of the header do nothing but set variables, and lead to its end, if a run of them ends. -/
theorem headerSteps_set (fuel : Nat) {o : Option Node} (heads : g.Heads o)
    (staged : Staged host g scene) :
    Enacts host g (Dialogue.runOn host fuel o) scene
      (fun stop happenings _ => stop = none ∧ ∀ h ∈ happenings, h.Sets) (fun _ _ => True) := by
  have ended {scene : Scene η δ} (staged : Staged host g scene) (fuel : Nat) :
      Enacts host g (Dialogue.runOn host fuel none) scene
        (fun stop happenings _ => stop = none ∧ ∀ h ∈ happenings, h.Sets) (fun _ _ => True) :=
    .of_ok (Script.runOn_still fuel fun _ none => by cases none) staged (.refl scene)
      ⟨rfl, fun _ none => by cases none⟩
  induction fuel generalizing scene o with
  | zero =>
    cases o with
    | none => exact ended staged 0
    | some n =>
      obtain ⟨i, behind, there⟩ := heads n rfl
      have endless : Dialogue.runOn host 0 (some n) scene = .error .endless scene := by
        rw [Dialogue.runOn, sturdy.formed.header_kind i n behind there]
        rfl
      exact .of_error endless staged (.refl scene) trivial
  | succ fuel ih =>
    cases o with
    | none => exact ended staged (fuel + 1)
    | some n =>
      obtain ⟨i, behind, there⟩ := heads n rfl
      obtain ⟨o, found, heads'⟩ := sturdy.header_next heads
      have kind := sturdy.formed.header_kind i n behind there
      have runs : n.kind.runsOn = true := by rw [kind]; rfl
      rw [runOn_succ fuel runs, Dialogue.runNode, kind]
      have step := (runAssignment_enacts staged (List.mem_of_getElem? there)).mono
        (fun _ _ _ sets => sets) fun _ _ _ => trivial
      have next : Enacts host g
          (do Dialogue.runAssignment host n; Dialogue.next n) scene
          (fun o' happenings _ => o' = o ∧ ∀ h ∈ happenings, h.Sets) (fun _ _ => True) := by
        refine step.bind fun _ sets between there result => ?_
        refine .of_ok (next_yields there.graph found) there (.refl between) ⟨rfl, ?_⟩
        rw [List.append_nil]
        exact result
      refine next.bind fun o' sets between there result => ?_
      obtain ⟨rfl, first⟩ := result
      exact (ih heads' there).mono
        (fun _ _ _ rest => ⟨rest.1, List.forall_mem_append.mpr ⟨first, rest.2⟩⟩)
        fun _ _ _ => trivial

theorem headerSteps_enacts {o : Option Node} (heads : g.Heads o) (staged : Staged host g scene) :
    Enacts host g (Dialogue.runOn host host.steps o) scene
      (fun stop happenings _ => stop = none ∧ ∀ h ∈ happenings, h.Sets)
      (fun f after => Breakdown host.steps host.depth g after f) := by
  have inside : g.Holds o := by
    intro n same
    obtain ⟨i, _, there⟩ := heads n same
    exact List.mem_of_getElem? there
  -- what it fails with is what any run fails with
  exact Yields.mono (Yields.and (headerSteps_set sturdy host.steps heads staged)
    (runOn_enacts sturdy staged inside)) (fun _ _ both => both.1) fun _ _ both => both.2

/-- While the header is run variables are asked for and set, and at its end the dialogue has ended;
nothing is told of this. -/
theorem runHeader_enacts (staged : Staged host g scene) :
    Enacts host g (Dialogue.runHeader host) scene
      (fun _ happenings after => (∀ h ∈ happenings, h.Sets) ∧ after.dialogue.current = none)
      (fun f after => Breakdown host.steps host.depth g after f) := by
  have read : Play.dialogue scene = .ok scene.dialogue scene := rfl
  obtain ⟨o, found, heads⟩ := sturdy.header
  have looked : Play.orFault Fault.lost scene.dialogue.graph.headerNode scene = .ok o scene := by
    rw [staged.graph, found]
    rfl
  rw [Dialogue.runHeader]
  refine .step read (.step looked ?_)
  rw [Dialogue.runTo]
  refine (headerSteps_enacts sturdy heads staged).bind
    fun stop steps between there result => ?_
  obtain ⟨rfl, sets⟩ := result
  refine (setLine_enacts sturdy there (fun _ none => by cases none) (!false)).mono
    (fun _ _ after result => ?_) fun _ _ broke => broke
  obtain ⟨⟨asked, asks, rfl⟩, current, _⟩ := result
  refine ⟨List.forall_mem_append.mpr ⟨sets, fun h member => ?_⟩, current⟩
  exact (asks h ((List.append_nil asked) ▸ member)).sets

theorem resetVariables_enacts (staged : Staged host g scene) :
    Enacts host g (Dialogue.resetVariables host) scene
      (fun _ happenings after => (∀ h ∈ happenings, h.Sets) ∧ after.dialogue.current = none)
      (fun f after => Breakdown host.steps host.depth g after f) :=
  .change rfl (runHeader_enacts sturdy
    (staged.change (f := fun d => { d with vars := [] }) rfl rfl rfl rfl))

/-- When a dialogue is attached to a graph variables are asked for and set. -/
theorem attachTo_enacts (attended : Attended host scene) :
    Enacts host g (Dialogue.attachTo host g) scene
      (fun _ happenings _ => ∀ h ∈ happenings, h.Sets)
      (fun f after => Breakdown host.steps host.depth g after f) :=
  .change rfl ((resetVariables_enacts sturdy (attached_staged attended g)).mono
    (fun _ _ _ result => result.1) fun _ _ broke => broke)

/-- When a dialogue is reset variables are asked for and set. -/
theorem reset_enacts (staged : Staged host g scene) (vars position taken : Bool) :
    Enacts host g (Dialogue.reset host vars position taken) scene
      (fun _ happenings after => (∀ h ∈ happenings, h.Sets)
        ∧ (position = true → after.dialogue.current = none))
      (fun f after => Breakdown host.steps host.depth g after f) := by
  have nothing : ∀ h ∈ ([] : List Happening), h.Sets := fun _ none => by cases none
  have nowhere : ∀ n, none = some n → n ∈ g.nodes ∧ n.kind = .text := fun _ none => by cases none
  rw [Dialogue.reset]
  have renewed := (resetVariables_enacts sturdy staged).mono (fun _ _ _ result => result.1)
    fun _ _ broke => broke
  refine .optional staged (fun _ => renewed) (fun _ => nothing) fun first cleared staged sets => ?_
  have left : Enacts host g (Dialogue.setLine host none true) cleared
      (fun _ happenings after => (∀ h ∈ happenings, h.Sets)
        ∧ (position = true → after.dialogue.current = none))
      (fun f after => Breakdown host.steps host.depth g after f) := by
    refine (setLine_enacts sturdy staged nowhere true).mono (fun _ _ after result => ?_)
      fun _ _ broke => broke
    obtain ⟨⟨asked, asks, rfl⟩, current, _⟩ := result
    exact ⟨fun h member => (asks h ((List.append_nil asked) ▸ member)).sets, fun _ => current⟩
  refine .optional staged (fun _ => left) (fun stays => ⟨nothing, fun asked => absurd asked stays⟩)
    fun second away staged result => ?_
  have all : ∀ h ∈ first ++ (second ++ []), h.Sets := by
    rw [List.append_nil]
    exact List.forall_mem_append.mpr ⟨sets, result.1⟩
  split
  · have forgot : Play.changeDialogue (fun d => { d with taken := [] }) away = .ok ()
        { away with dialogue := { away.dialogue with taken := [] } } := rfl
    exact .of_ok forgot (staged.change (f := fun d => { d with taken := [] }) rfl rfl rfl rfl)
      (.still ⟨rfl, rfl, rfl⟩) ⟨all, result.2⟩
  · exact .of_ok rfl staged (.refl away) ⟨all, result.2⟩

end Header

end Colloquy
