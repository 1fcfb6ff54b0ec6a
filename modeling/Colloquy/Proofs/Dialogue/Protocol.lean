import Colloquy.Proofs.Dialogue.Enacting
/-!
# The order of notices

What everyone is told follows one order, whatever calls are made. A restart is told before anything
that it leads to, but for what the header does when the dialogue is reset; a choice is told, and that
the dialogue proceeds, before the steps behind it; and a line that the dialogue comes to, or its end,
is the last that is told. Of each notice the participants are told in ascending order of priority, of
one priority in the order in which they were added, and the listeners hear of it after them; only a
request for a variable the listeners hear first.
-/

namespace Colloquy

open Script.Direct (Variables)

variable {η δ : Type} {host : Host η δ} {scene after : Scene η δ} {g : Graph}

/-! ### Starting -/

/-- What is logged about a label that cannot be started from. -/
def Happening.Complains (g : Graph) (label : String) : Happening → Prop
  | .logged entry =>
    entry = ⟨.error, "No start label called '" ++ label ++ "' in dialogue " ++ g.name⟩
      ∨ entry = ⟨.error, "Label '" ++ label ++ "' in dialogue " ++ g.name
        ++ " cannot be used as a start point, it points to a choice"⟩
  | _ => False

theorem startNode_enacts (sturdy : g.Sturdy) (staged : Staged host g scene) (label : Option String) :
    Enacts host g (Dialogue.startNode label) scene
      (fun o happenings after => g.Holds o
        ∧ (∀ h ∈ happenings, h.Complains g (label.getD ""))
        ∧ after.dialogue = scene.dialogue)
      (fun f after => Breakdown host.steps host.depth g after f) := by
  have read : Play.dialogue scene = .ok scene.dialogue scene := rfl
  obtain ⟨first, found, inside⟩ := sturdy.firstNode
  have begins : Play.orFault Fault.lost scene.dialogue.graph.firstNode scene
      = .ok first scene := by
    rw [staged.graph, found]
    rfl
  have plain {o : Option Node} (inside : g.Holds o) : Enacts host g (pure o) scene
      (fun o happenings after => g.Holds o
        ∧ (∀ h ∈ happenings, h.Complains g (label.getD ""))
        ∧ after.dialogue = scene.dialogue)
      (fun f after => Breakdown host.steps host.depth g after f) :=
    .of_ok rfl staged (.refl scene) ⟨inside, fun _ none => (by cases none), rfl⟩
  have complained {message : String}
      (complains : (Happening.logged ⟨.error, message⟩).Complains g (label.getD "")) :
      Enacts host g (do Play.log .error message; return first) scene
        (fun o happenings after => g.Holds o
          ∧ (∀ h ∈ happenings, h.Complains g (label.getD ""))
          ∧ after.dialogue = scene.dialogue)
        (fun f after => Breakdown host.steps host.depth g after f) := by
    refine (log_enacts staged .error message).bind fun _ logged between there result => ?_
    obtain ⟨rfl, same⟩ := result
    refine .of_ok rfl there (.refl between) ⟨inside, fun h member => ?_, same⟩
    cases List.mem_singleton.mp member
    exact complains
  have named : scene.dialogue.name = g.name := by
    rw [Dialogue.name, staged.graph]
  rw [Dialogue.startNode]
  refine .step read (.step begins ?_)
  dsimp only
  split
  · exact plain inside
  · obtain ⟨node, at_label, there⟩ := sturdy.nodeByLabel (label.getD "")
    have looked : Play.orFault Fault.lost (scene.dialogue.graph.nodeByLabel (label.getD "")) scene
        = .ok node scene := by
      rw [staged.graph, at_label]
      rfl
    refine .step looked ?_
    cases node with
    | none => exact complained (.inl (by rw [named]))
    | some n =>
      dsimp only
      split
      · exact complained (.inr (by rw [named]))
      · exact plain there

/-- What happens when a dialogue is run again: if it is reset, variables are asked for and set; then
the start is told of; then, if the header is to run again, variables are asked for and set; and then
the dialogue runs from the label, or from its first node if that cannot be used. -/
inductive Restarts (g : Graph) (resetFirst : Bool) (label : Option String) (rerunHeader : Bool)
    (d d' : Dialogue) : List Happening → Prop where
  | again {header renewed complaints run : List Happening} {ready : Dialogue}
      (sets : ∀ h ∈ header, h.Sets) (kept : resetFirst = false → header = [])
      (sets' : ∀ h ∈ renewed, h.Sets)
      (once : (!resetFirst && rerunHeader) = false → renewed = [])
      (complain : ∀ h ∈ complaints, h.Complains g (label.getD ""))
      (away : (resetFirst || rerunHeader) = true → ready.current = none)
      (stands : (resetFirst || rerunHeader) = false → ready = d)
      (runs : RunsOut g true ready d' run) :
      Restarts g resetFirst label rerunHeader d d'
        (header ++ .raised (.starting label) :: (renewed ++ (complaints ++ run)))

theorem restart_enacts (sturdy : g.Sturdy) (staged : Staged host g scene) (resetFirst : Bool)
    (label : Option String) (rerunHeader : Bool) :
    Enacts host g (Dialogue.restart host resetFirst label rerunHeader) scene
      (fun _ happenings after => Restarts g resetFirst label rerunHeader scene.dialogue
        after.dialogue happenings)
      (fun f after => Breakdown host.steps host.depth g after f) := by
  have nothing : ∀ h ∈ ([] : List Happening), h.Sets := fun _ none => by cases none
  have renews : resetFirst = true → Enacts host g (Dialogue.reset host true true true) scene
      (fun _ happenings after => (∀ h ∈ happenings, h.Sets)
        ∧ (resetFirst = true → after.dialogue.current = none)
        ∧ (resetFirst = false → happenings = [] ∧ after.dialogue = scene.dialogue))
      (fun f after => Breakdown host.steps host.depth g after f) := by
    intro holds
    refine (reset_enacts sturdy staged true true true).mono (fun _ _ _ result => ?_)
      fun _ _ broke => broke
    refine ⟨result.1, fun _ => result.2 rfl, fun fails => ?_⟩
    rw [holds] at fails
    cases fails
  rw [Dialogue.restart]
  refine .optional staged renews
    (fun fails => ⟨nothing, fun holds => absurd holds fails, fun _ => ⟨rfl, rfl⟩⟩)
    fun header fresh staged first => ?_
  obtain ⟨sets, away, kept⟩ := first
  refine (announce_enacts staged (by rintro _ ⟨⟩)).bind fun _ told begun staged result => ?_
  obtain ⟨rfl, same⟩ := result
  have reruns : (!resetFirst && rerunHeader) = true →
      Enacts host g (Dialogue.runHeader host) begun
        (fun _ happenings after => (∀ h ∈ happenings, h.Sets)
          ∧ ((!resetFirst && rerunHeader) = true → after.dialogue.current = none)
          ∧ ((!resetFirst && rerunHeader) = false →
            happenings = [] ∧ after.dialogue = fresh.dialogue))
        (fun f after => Breakdown host.steps host.depth g after f) := by
    intro holds
    refine (runHeader_enacts sturdy staged).mono (fun _ _ _ result => ?_) fun _ _ broke => broke
    refine ⟨result.1, fun _ => result.2, fun fails => ?_⟩
    rw [holds] at fails
    cases fails
  refine .optional staged reruns
    (fun fails => ⟨nothing, fun holds => absurd holds fails, fun _ => ⟨rfl, same⟩⟩)
    fun renewed ready staged second => ?_
  obtain ⟨sets', away', kept'⟩ := second
  refine (startNode_enacts sturdy staged label).bind fun o complaints last staged result => ?_
  obtain ⟨inside, complain, same'⟩ := result
  refine (runTo_enacts sturdy staged inside true).mono (fun _ run after runs => ?_)
    fun _ _ broke => broke
  rw [same'] at runs
  have gone : (resetFirst || rerunHeader) = true → ready.dialogue.current = none := by
    intro cleared
    cases resetFirst with
    | true =>
      rw [(kept' rfl).2]
      exact away rfl
    | false => exact away' cleared
  have stayed : (resetFirst || rerunHeader) = false → ready.dialogue = scene.dialogue := by
    intro stays
    obtain ⟨rfl, rfl⟩ := Bool.or_eq_false_iff.mp stays
    rw [(kept' rfl).2, (kept rfl).2]
  have whole := Restarts.again sets (fun fails => (kept fails).1) sets' (fun fails => (kept' fails).1)
    complain gone stayed runs
  exact whole

/-! ### Choosing -/

/-- What happens when a way on is chosen: on a line with choices the choice is told of; then, that the
dialogue proceeds; and then it runs on. -/
inductive Chooses (g : Graph) (index : Int) (d d' : Dialogue) : List Happening → Prop where
  | option {run : List Happening} (has : d.current.elim false (·.hasChoices) = true)
      (runs : RunsOut g true d d' run) :
      Chooses g index d d' (.raised (.choice index) :: .raised .proceeding :: run)
  | only {run : List Happening} (plain : d.current.elim false (·.hasChoices) = false)
      (runs : RunsOut g true d d' run) : Chooses g index d d' (.raised .proceeding :: run)

section Sturdy

variable (sturdy : g.Sturdy) (staged : Staged host g scene)

include sturdy staged

/-- What happens on the way from a line to its choices. -/
theorem runToChoice_enacts {line : Node} (member : line ∈ g.nodes) :
    Enacts host g (Dialogue.runToChoice host line) scene
      (fun _ happenings after => (∀ h ∈ happenings, h.Steps)
        ∧ scene.dialogue.Standing after.dialogue)
      (fun f after => Breakdown host.steps host.depth g after f) := by
  rw [Dialogue.runToChoice]
  split
  · obtain ⟨o, found, inside⟩ := sturdy.next member
    refine .step (next_yields staged.graph found) ?_
    refine (runOn_enacts sturdy staged inside).bind fun _ steps between there result => ?_
    refine .of_ok rfl there (.refl between) ⟨?_, result.2.2⟩
    rw [List.append_nil]
    exact result.1
  · exact .of_ok rfl staged (.refl scene) ⟨fun _ none => (by cases none), rfl, rfl, rfl⟩

theorem choose_enacts {index : Int} {e : Edge} (way : scene.dialogue.choice? index = some e) :
    Enacts host g (Dialogue.choose host index) scene
      (fun _ happenings after => Chooses g index scene.dialogue after.dialogue happenings)
      (fun f after => Breakdown host.steps host.depth g after f) := by
  have read (scene : Scene η δ) : Play.dialogue scene = .ok scene.dialogue scene := rfl
  obtain ⟨n, member, own⟩ := staged.onstage.ways e (mem_of_choice? way)
  obtain ⟨o, leads, inside⟩ := Graph.target_holds sturdy.rooted member own
  -- both ways of getting ready end with a run from where the edge leads
  have goes {between : Scene η δ} (there : Staged host g between)
      (stands : scene.dialogue.Standing between.dialogue) :
      Enacts host g (do Dialogue.runTo host (← Dialogue.target e) true; Dialogue.isRunning) between
        (fun _ happenings after => RunsOut g true scene.dialogue after.dialogue happenings)
        (fun f after => Breakdown host.steps host.depth g after f) := by
    refine .step (target_yields there.graph leads) ?_
    refine (runTo_enacts sturdy there inside true).bind fun _ run last there runs => ?_
    refine .of_ok rfl there (.refl last) ?_
    rw [List.append_nil]
    have unmoved : ∀ h ∈ ([] : List Happening), h.Steps := fun _ none => by cases none
    have whole := RunsOut.after_steps unmoved stands runs
    exact whole
  rw [Dialogue.choose]
  refine .step (read scene) ?_
  rw [way]
  dsimp only
  split
  next has =>
    obtain ⟨line, current, _⟩ := Dialogue.line_of_choices has
    have same : ∀ d : Dialogue, (d.take e.textId).participants = d.participants
        ∧ (d.take e.textId).graph = d.graph ∧ d.Standing (d.take e.textId) := by
      intro d
      unfold Dialogue.take
      split <;> exact ⟨rfl, rfl, rfl, rfl, rfl⟩
    obtain ⟨people, graph, stands⟩ := same scene.dialogue
    refine .change people ?_
    have noted := staged.change (f := (·.take e.textId)) people graph stands.current
      stands.choices
    refine (announce_enacts noted (by rintro _ ⟨⟩)).bind fun _ first chosen there told => ?_
    obtain ⟨rfl, same₁⟩ := told
    refine (announce_enacts there (by rintro _ ⟨⟩)).bind fun _ second ready there told => ?_
    obtain ⟨rfl, same₂⟩ := told
    have stands' : scene.dialogue.Standing ready.dialogue := by
      rw [same₂, same₁]
      exact stands
    refine .step (read ready) ?_
    rw [stands'.current, current]
    refine (runToChoice_enacts sturdy there (staged.onstage.line line current).1).bind
      fun _ steps between there result => ?_
    have stands'' : scene.dialogue.Standing between.dialogue :=
      ⟨result.2.current.trans stands'.current, result.2.choices.trans stands'.choices,
        result.2.gathering.trans stands'.gathering⟩
    refine (goes there stands'').mono (fun _ run after runs => ?_) fun _ _ broke => broke
    have whole := RunsOut.after_steps result.1 ⟨rfl, rfl, rfl⟩ runs
    exact Chooses.option has whole
  next plain =>
    refine (announce_enacts staged (by rintro _ ⟨⟩)).bind fun _ first ready there told => ?_
    obtain ⟨rfl, same⟩ := told
    refine (goes there (by rw [same]; exact ⟨rfl, rfl, rfl⟩)).mono (fun _ run after runs => ?_)
      fun _ _ broke => broke
    exact .only (Bool.not_eq_true _ ▸ plain) runs

end Sturdy

/-! ### Any call -/

/-- What a host may have a dialogue do once it is made. -/
inductive Public (host : Host η δ) (g : Graph) : Play η δ Unit → Prop where
  | call (call : Call) : Public host g (call.play host)
  | set (name : String) (d : Datum) : Public host g (Dialogue.setVariable host name d)
  | unset (name : String) : Public host g (Play.changeDialogue (·.unset name))
  | restore (s : Snapshot) : Public host g (Dialogue.restore host s)
  | runTo {o : Option Node} (inside : g.Holds o) (tellEnd : Bool) :
      Public host g (Dialogue.runTo host o tellEnd)
  | speakerName : Public host g (do let _ ← (Dialogue.speakerName : Play η δ String))
  | params : Public host g (do let _ ← (Dialogue.paramsUsed : Play η δ (List String)))

/-- Something that everyone is told of all of, whether it comes to its end or fails. -/
def Open (host : Host η δ) (g : Graph) {α : Type} (x : Play η δ α) (scene : Scene η δ) : Prop :=
  Enacts host g x scene (fun _ _ _ => True) (fun _ _ => True)

theorem Enacts.isOpen {α : Type} {x : Play η δ α} {ok : α → List Happening → Scene η δ → Prop}
    {fails : Fault → Scene η δ → Prop} (enacts : Enacts host g x scene ok fails) :
    Open host g x scene :=
  enacts.mono (fun _ _ _ _ => trivial) fun _ _ _ => trivial

namespace Open

variable {α β : Type}

theorem bind {x : Play η δ α} {k : α → Play η δ β} (first : Open host g x scene)
    (later : ∀ a between, Staged host g between → Open host g (k a) between) :
    Open host g (x >>= k) scene :=
  Enacts.bind first fun a _ between there _ => later a between there

/-- An answer that is thrown away. -/
theorem dropped {x : Play η δ α} (isOpen : Open host g x scene) :
    Open host g (do let _ ← x) scene :=
  isOpen.bind fun _ between there => .of_ok rfl there (.refl between) trivial

section Staged

variable (staged : Staged host g scene)

include staged

theorem pure (a : α) : Open host g (Pure.pure a : Play η δ α) scene :=
  .of_ok rfl staged (.refl scene) trivial

theorem fault (f : Fault) : Open host g (throw f : Play η δ α) scene :=
  .of_error rfl staged (.refl scene) trivial

theorem log (level : Level) (message : String) :
    Open host g (Play.log level message : Play η δ Unit) scene :=
  (log_enacts staged level message).isOpen

theorem logBadChoice (index : Int) : Open host g (Dialogue.logBadChoice index) scene := by
  have read (scene : Scene η δ) : Play.dialogue scene = .ok scene.dialogue scene := rfl
  rw [Dialogue.logBadChoice]
  split
  · exact (fault staged _).bind fun _ between there => .step (read between) (log there _ _)
  · exact .step (read scene) (log staged _ _)

theorem resolve (text : String) (params : List String) :
    Open host g (Dialogue.resolve host text params) scene := by
  rw [Dialogue.resolve]
  split
  · exact pure staged text
  · have asked := requests_enacts staged params
    refine asked.isOpen.bind fun _ between there => ?_
    have read : Play.dialogue between = .ok between.dialogue between := rfl
    refine .step read ?_
    dsimp only
    split
    · exact pure there _
    · exact fault there _

theorem choose (sturdy : g.Sturdy) (index : Int) :
    Open host g (Dialogue.choose host index) scene := by
  have read : Play.dialogue scene = .ok scene.dialogue scene := rfl
  cases way : scene.dialogue.choice? index with
  | some e => exact (choose_enacts sturdy staged way).isOpen
  | none =>
    rw [Dialogue.choose]
    refine .step read ?_
    rw [way]
    exact (logBadChoice staged index).bind fun _ _ there => pure there false

theorem assign (name : String) (v : Value) (fromScript : Bool) :
    Open host g (Dialogue.assign host name v fromScript) scene := by
  have read : Play.dialogue scene = .ok scene.dialogue scene := rfl
  rw [Dialogue.assign]
  refine .step read ?_
  split
  · exact pure staged ()
  · have put := staged.change (f := (·.put name v)) rfl rfl rfl rfl
    exact .change rfl (announce_enacts put (by rintro _ ⟨⟩)).isOpen

theorem valueAs (kind : Kind) (name : String) :
    Open host g (Dialogue.valueAs kind name) scene := by
  have read : Play.dialogue scene = .ok scene.dialogue scene := rfl
  rw [Dialogue.valueAs]
  refine .step read ?_
  cases scene.dialogue.value? name with
  | none => exact pure staged _
  | some v =>
    dsimp only
    split
    · exact pure staged v
    split
    · cases kind.rebuild (.value v) with
      | ok w => exact pure staged w
      | error e => exact fault staged _
    split
    · exact (log staged _ _).bind fun _ _ there => pure there _
    · exact fault staged _

theorem speakerName : Open host g (Dialogue.speakerName : Play η δ String) scene := by
  have read : Play.dialogue scene = .ok scene.dialogue scene := rfl
  rw [Dialogue.speakerName]
  refine .step read ?_
  dsimp only
  split
  · exact pure staged _
  · exact pure staged _
  · split
    · exact (log staged _ _).bind fun _ _ there => pure there _
    · exact fault staged _

theorem paramsUsed : Open host g (Dialogue.paramsUsed : Play η δ (List String)) scene := by
  have read : Play.dialogue scene = .ok scene.dialogue scene := rfl
  have same : ∀ d : Dialogue, d.paramsInUse.2.participants = d.participants
      ∧ d.paramsInUse.2.graph = d.graph ∧ d.paramsInUse.2.current = d.current
      ∧ d.paramsInUse.2.choices = d.choices := by
    intro d
    unfold Dialogue.paramsInUse
    split <;> exact ⟨rfl, rfl, rfl, rfl⟩
  obtain ⟨people, graph, current, choices⟩ := same scene.dialogue
  rw [Dialogue.paramsUsed]
  refine .step read ?_
  exact .change people (pure (staged.change (f := fun _ => scene.dialogue.paramsInUse.2) people graph
    current choices) _)

theorem restore (sturdy : g.Sturdy) (s : Snapshot) :
    Open host g (Dialogue.restore host s) scene := by
  rw [Dialogue.restore]
  refine (resetVariables_enacts sturdy staged).isOpen.bind fun _ renewed there => ?_
  have taken : Open host g (Play.orFault Fault.unsuitable s.values) renewed := by
    cases s.values with
    | ok values => exact pure there values
    | error e => exact fault there _
  refine taken.bind fun values ready there => .change rfl ?_
  let restored : Scene η δ := { ready with dialogue :=
    { ready.dialogue with vars := setEntries ready.dialogue.vars values, taken := s.taken } }
  have there : Staged host g restored :=
    there.change (f := fun d => { d with vars := setEntries d.vars values, taken := s.taken })
      rfl rfl rfl rfl
  have read : Play.dialogue restored = .ok restored.dialogue restored := rfl
  refine .step read ?_
  have stands : ∀ n, (if s.isEnded = true then none
      else restored.dialogue.graph.nodeByTextId s.textId) = some n →
      n ∈ g.nodes ∧ n.kind = .text := by
    intro n found
    split at found
    · cases found
    · exact Graph.line_of_nodeByTextId (there.graph ▸ found)
  dsimp only
  generalize (if s.isEnded = true then none
    else restored.dialogue.graph.nodeByTextId s.textId) = line at stands ⊢
  split
  · refine Open.bind (log there _ _) fun _ last there => ?_
    exact (setLine_enacts sturdy there stands true).isOpen
  · exact (setLine_enacts sturdy there stands true).isOpen

end Staged

end Open

/-- Everyone is told of all that happens during a call. -/
theorem Public.isOpen (sturdy : g.Sturdy) (staged : Staged host g scene) {x : Play η δ Unit}
    (isPublic : Public host g x) : Open host g x scene := by
  have read : Play.dialogue scene = .ok scene.dialogue scene := rfl
  cases isPublic with
  | set name d =>
    rw [Dialogue.setVariable]
    cases d.value? with
    | none => exact .fault staged _
    | some v => exact .assign staged name v false
  | unset name =>
    have unset := staged.change (f := (·.unset name)) rfl rfl rfl rfl
    exact .of_ok rfl unset (.still ⟨rfl, rfl, rfl⟩) trivial
  | restore s => exact .restore staged sturdy s
  | runTo inside tellEnd => exact (runTo_enacts sturdy staged inside tellEnd).isOpen
  | speakerName => exact (Open.speakerName staged).dropped
  | params => exact (Open.paramsUsed staged).dropped
  | call call =>
    cases call with
    | start label =>
      change Open host g (Dialogue.start host label) scene
      rw [Dialogue.start]
      refine .step read ?_
      split
      · exact (restart_enacts sturdy staged false label false).isOpen
      · exact Open.pure staged ()
    | restart resetFirst label rerunHeader =>
      exact (restart_enacts sturdy staged resetFirst label rerunHeader).isOpen
    | reset vars position taken => exact (reset_enacts sturdy staged vars position taken).isOpen
    | choose index => exact (Open.choose staged sturdy index).dropped
    | proceed =>
      refine Open.dropped ?_
      rw [Dialogue.proceed]
      refine .step read ?_
      split
      · exact Open.choose staged sturdy 0
      · exact .step read (Open.pure staged _)
    | lineText =>
      refine Open.dropped ?_
      rw [Dialogue.lineText]
      refine .step read ?_
      split
      · exact Open.pure staged _
      · exact Open.resolve staged _ _
    | choiceText index =>
      refine Open.dropped ?_
      rw [Dialogue.choiceText]
      refine .step read ?_
      split
      · exact (Open.logBadChoice staged index).bind fun _ _ there => Open.pure there _
      · exact Open.resolve staged _ _
    | valueAs kind name => exact (Open.valueAs staged kind name).dropped
    | setVariable name v => exact .assign staged name v false

/-! ### In what order participants are told -/

/-- Those who are told, of those who were added and are still there, in the order in which they were
added: everyone once, in ascending order of priority, and of one priority as they were added. The
priority of a participant never changes. -/
structure Lineup (priority : Nat → Int) (added told : List Participant) : Prop where
  everyone : told.Perm added
  ascending : told.Pairwise fun p q => p.priority ≤ q.priority
  inOrder : ∀ level, told.filter (·.priority = level) = added.filter (·.priority = level)
  fixed : ∀ p ∈ added, p.priority = priority p.key

theorem lower_trans (p q r : Participant) (first : decide (p.priority ≤ q.priority) = true)
    (second : decide (q.priority ≤ r.priority) = true) :
    decide (p.priority ≤ r.priority) = true :=
  decide_eq_true (Int.le_trans (of_decide_eq_true first) (of_decide_eq_true second))

theorem lower_total (p q : Participant) :
    (decide (p.priority ≤ q.priority) || decide (q.priority ≤ p.priority)) = true := by
  simpa using Int.le_total p.priority q.priority

/-- Participants of one priority are arranged as they came. -/
theorem filter_arrange (ps : List Participant) (level : Int) :
    (Dialogue.arrange ps).filter (·.priority = level) = ps.filter (·.priority = level) := by
  have sorted : (ps.filter (·.priority = level)).Pairwise
      fun p q => decide (p.priority ≤ q.priority) = true := by
    refine List.pairwise_of_forall_mem_list fun p here q there => ?_
    have first := of_decide_eq_true (List.mem_filter.mp here).2
    have second := of_decide_eq_true (List.mem_filter.mp there).2
    rw [first, second]
    exact decide_eq_true (Int.le_refl level)
  have within := (List.sublist_mergeSort lower_trans lower_total sorted List.filter_sublist).filter
    (·.priority = level)
  simp only [List.filter_filter, Bool.and_self] at within
  refine (within.eq_of_length ?_).symm
  exact ((List.mergeSort_perm ps _).filter _).length_eq.symm

theorem arrange_lineup {priority : Nat → Int} {ps : List Participant}
    (fixed : ∀ p ∈ ps, p.priority = priority p.key) : Lineup priority ps (Dialogue.arrange ps) where
  everyone := List.mergeSort_perm ps _
  ascending := (List.pairwise_mergeSort lower_trans lower_total ps).imp of_decide_eq_true
  inOrder := filter_arrange ps
  fixed := fixed

/-- Participants of fixed priorities are removed by their keys one at a time. -/
theorem eraseP_key {priority : Nat → Int} {ps : List Participant}
    (fixed : ∀ p ∈ ps, p.priority = priority p.key) (key : Nat) :
    ps.eraseP (·.key = key) = ps.erase ⟨key, priority key⟩ := by
  induction ps with
  | nil => rfl
  | cons p rest ih =>
    have here := fixed p List.mem_cons_self
    have others := ih fun q member => fixed q (List.mem_cons_of_mem p member)
    by_cases own : p.key = key
    · have same : p = ⟨key, priority key⟩ := by
        cases p
        cases own
        exact congrArg _ here
      rw [List.eraseP_cons_of_pos (by simpa using own), same, List.erase_cons_head]
    · have other : p ≠ ⟨key, priority key⟩ := fun same => own (congrArg Participant.key same)
      rw [List.eraseP_cons_of_neg (by simpa using own), others,
        List.erase_cons_tail (by simpa using other)]

namespace Lineup

variable {priority : Nat → Int} {added told : List Participant}

theorem joined (lineup : Lineup priority added told) (key : Nat) :
    Lineup priority (added ++ [⟨key, priority key⟩])
      (Dialogue.arrange (told ++ [⟨key, priority key⟩])) where
  everyone := (List.mergeSort_perm _ _).trans (lineup.everyone.append_right _)
  ascending := (List.pairwise_mergeSort lower_trans lower_total _).imp of_decide_eq_true
  inOrder := by
    intro level
    rw [filter_arrange, List.filter_append, List.filter_append, lineup.inOrder]
  fixed := by
    refine List.forall_mem_append.mpr ⟨lineup.fixed, fun p member => ?_⟩
    rw [List.mem_singleton.mp member]

theorem left (lineup : Lineup priority added told) (key : Nat) :
    Lineup priority (added.eraseP (·.key = key)) (told.eraseP (·.key = key)) := by
  have fixed : ∀ p ∈ told, p.priority = priority p.key :=
    fun p member => lineup.fixed p (lineup.everyone.subset member)
  rw [eraseP_key lineup.fixed, eraseP_key fixed]
  refine ⟨lineup.everyone.erase _, lineup.ascending.sublist List.erase_sublist, fun level => ?_,
    fun p member => lineup.fixed p (List.mem_of_mem_erase member)⟩
  rw [← List.erase_filter, ← List.erase_filter, lineup.inOrder]

end Lineup

/-! ### Runs -/

/-- The scenes that a dialogue gets into by public calls, whether they return or fail, while passive
participants join and leave and passive listeners come and go. The participants beside a scene are
those who were added and are still there, in the order in which they were added. -/
inductive Hosted (host : Host η δ) (g : Graph) (priority : Nat → Int) :
    List Participant → Scene η δ → Prop where
  | made {ps : List Participant} {first after : Scene η δ} (attended : Attended host first)
      (lineup : Lineup priority ps first.dialogue.participants)
      (made : Dialogue.attachTo host g first = .ok () after) : Hosted host g priority ps after
  | returned {ps : List Participant} {scene after : Scene η δ} {x : Play η δ Unit}
      (before : Hosted host g priority ps scene) (call : Public host g x)
      (done : x scene = .ok () after) : Hosted host g priority ps after
  | failed {ps : List Participant} {scene after : Scene η δ} {x : Play η δ Unit} {f : Fault}
      (before : Hosted host g priority ps scene) (call : Public host g x)
      (failed : x scene = .error f after) : Hosted host g priority ps after
  | joined {ps : List Participant} {scene : Scene η δ} (before : Hosted host g priority ps scene)
      (key : Nat) (passive : ∀ notice, Passive (host.react key notice)) :
      Hosted host g priority (ps ++ [⟨key, priority key⟩])
        { scene with dialogue := scene.dialogue.addParticipant ⟨key, priority key⟩ }
  | recast {ps : List Participant} {scene : Scene η δ} (before : Hosted host g priority ps scene)
      (keys : List Nat) (passive : ∀ key ∈ keys, ∀ notice, Passive (host.react key notice)) :
      Hosted host g priority (keys.map fun key => ⟨key, priority key⟩)
        { scene with dialogue :=
          scene.dialogue.setParticipants (keys.map fun key => ⟨key, priority key⟩) }
  | left {ps : List Participant} {scene : Scene η δ} (before : Hosted host g priority ps scene)
      (key : Nat) : Hosted host g priority (ps.eraseP (·.key = key))
        { scene with dialogue := scene.dialogue.removeParticipant key }
  | elsewhere {ps : List Participant} {scene after : Scene η δ}
      (before : Hosted host g priority ps scene) (same : after.dialogue = scene.dialogue)
      (attended : Attended host after) : Hosted host g priority ps after

/-- Others take part. -/
theorem Staged.recast (staged : Staged host g scene) {ps : List Participant}
    (passive : ∀ p ∈ ps, ∀ notice, Passive (host.react p.key notice)) :
    Staged host g { scene with dialogue := { scene.dialogue with participants := ps } } := by
  obtain ⟨_, listeners, serials, idle, empty⟩ := staged.attended
  have attended : Attended host
      { scene with dialogue := { scene.dialogue with participants := ps } } :=
    ⟨passive, listeners, serials, idle, empty⟩
  exact staged.of_same attended rfl rfl rfl

/-- All through such a run the participants are told in order. -/
theorem Hosted.staged {priority : Nat → Int} {ps : List Participant} (sturdy : g.Sturdy)
    (hosted : Hosted host g priority ps scene) :
    Staged host g scene ∧ Lineup priority ps scene.dialogue.participants := by
  induction hosted with
  | made attended lineup made =>
    obtain ⟨staged, _, unfolds, _⟩ := (attachTo_enacts sturdy attended).of_done made
    exact ⟨staged, unfolds.participants ▸ lineup⟩
  | returned _ call done ih =>
    obtain ⟨staged, _, unfolds, _⟩ := (call.isOpen sturdy ih.1).of_done done
    exact ⟨staged, unfolds.participants ▸ ih.2⟩
  | failed _ call failed ih =>
    obtain ⟨staged, ⟨_, unfolds⟩, _⟩ := (call.isOpen sturdy ih.1).of_failed failed
    exact ⟨staged, unfolds.participants ▸ ih.2⟩
  | joined _ key passive ih =>
    refine ⟨ih.1.recast fun p member => ?_, ih.2.joined key⟩
    rcases List.mem_append.mp ((List.mergeSort_perm _ _).subset member) with old | new
    · exact ih.1.attended.participants p old
    · rw [List.mem_singleton.mp new]
      exact passive
  | recast _ keys passive ih =>
    have fixed : ∀ p ∈ keys.map fun key => (⟨key, priority key⟩ : Participant),
        p.priority = priority p.key := by
      intro p member
      obtain ⟨key, _, rfl⟩ := List.mem_map.mp member
      rfl
    refine ⟨ih.1.recast fun p member => ?_, arrange_lineup fixed⟩
    obtain ⟨key, there, rfl⟩ := List.mem_map.mp ((List.mergeSort_perm _ _).subset member)
    exact passive key there
  | left _ key ih =>
    exact ⟨ih.1.recast fun p member => ih.1.attended.participants p (List.mem_of_mem_eraseP member),
      ih.2.left key⟩
  | elsewhere _ same attended ih =>
    refine ⟨ih.1.of_same attended ?_ ?_ ?_, ?_⟩ <;> rw [same]
    exact ih.2

/-- The order of notices in a scene: participants are told in order, everyone of all that happens in
any call, and what happens when the dialogue is made, run again or led on follows a grammar. -/
structure Protocol (host : Host η δ) (g : Graph) (priority : Nat → Int) (ps : List Participant)
    (scene : Scene η δ) : Prop where
  lineup : Lineup priority ps scene.dialogue.participants
  told : ∀ x, Public host g x → Yields x scene
    (fun _ after => ∃ happenings, Unfolds scene happenings after)
    (fun _ after => ∃ happenings, Unfolds scene happenings after)
  attaches : ∀ g' : Graph, g'.Sturdy → Yields (Dialogue.attachTo host g') scene
    (fun _ after => ∃ happenings, Unfolds scene happenings after ∧ ∀ h ∈ happenings, h.Sets)
    (fun f after => Breakdown host.steps host.depth g' after f)
  restarts : ∀ resetFirst label rerunHeader,
    Yields (Dialogue.restart host resetFirst label rerunHeader) scene
      (fun _ after => ∃ happenings, Unfolds scene happenings after
        ∧ Restarts g resetFirst label rerunHeader scene.dialogue after.dialogue happenings)
      (fun f after => Breakdown host.steps host.depth g after f)
  chooses : ∀ index e, scene.dialogue.choice? index = some e →
    Yields (Dialogue.choose host index) scene
      (fun _ after => ∃ happenings, Unfolds scene happenings after
        ∧ Chooses g index scene.dialogue after.dialogue happenings)
      (fun f after => Breakdown host.steps host.depth g after f)

end Colloquy

namespace Colloquy.Script

variable {η δ : Type}

/-- Notices follow one order all through a run on the graph of a script. -/
theorem notices_in_order {s : Settings} {name text : String} {c : Compilation} {g : Graph}
    (compiled : compile s name text = .ok c) (graph : c.graph = some g) {host : Host η δ}
    {priority : Nat → Int} {ps : List Participant} {scene : Scene η δ}
    (hosted : Hosted host g priority ps scene) : Protocol host g priority ps scene := by
  have sturdy := sturdy_of_compile compiled graph
  obtain ⟨staged, lineup⟩ := hosted.staged sturdy
  refine ⟨lineup, fun x call => ?_, fun g' sturdy' => ?_, fun resetFirst label rerunHeader => ?_,
    fun index e way => ?_⟩
  · exact Yields.mono (call.isOpen sturdy staged)
      (fun _ _ ⟨_, happenings, unfolds, _⟩ => ⟨happenings, unfolds⟩) fun _ _ ⟨_, unfolds, _⟩ => unfolds
  · exact Yields.mono (attachTo_enacts sturdy' staged.attended) (fun _ _ ⟨_, result⟩ => result)
      fun _ _ ⟨_, _, broke⟩ => broke
  · exact Yields.mono (restart_enacts sturdy staged resetFirst label rerunHeader)
      (fun _ _ ⟨_, result⟩ => result) fun _ _ ⟨_, _, broke⟩ => broke
  · exact Yields.mono (choose_enacts sturdy staged way) (fun _ _ ⟨_, result⟩ => result)
      fun _ _ ⟨_, _, broke⟩ => broke

/-- A dialogue on a line with an option, joined by two participants, the first of whom is told last,
and a listener. -/
theorem notices_in_order_option :
    ∃ c g scene, compile .standard "script" "A: hi\n* one\n    B: x" = .ok c ∧ c.graph = some g
      ∧ Hosted (Host.silent 9 9) g (fun key => if key = 0 then 5 else -1) [⟨0, 5⟩, ⟨1, -1⟩] scene
      ∧ (scene.dialogue.choice? 0).isSome = true
      ∧ (scene.bus.subscriptions .speakerLine).map (·.listener) = [7]
      ∧ Protocol (Host.silent 9 9) g (fun key => if key = 0 then 5 else -1) [⟨0, 5⟩, ⟨1, -1⟩]
        scene := by
  have opens : ((compile .standard "script" "A: hi\n* one\n    B: x").toOption.any fun c =>
      c.graph.any fun g => (Scene.opening? (Host.silent 9 9) g).any fun scene =>
        (scene.dialogue.choice? 0).isSome) = true := by
    decide +kernel
  obtain ⟨c, compiled, opens⟩ := exists_ok_of_any opens
  obtain ⟨g, graph, opens⟩ := (Option.any_eq_true _ _).1 opens
  obtain ⟨started, opens, offers⟩ := (Option.any_eq_true _ _).1 opens
  obtain ⟨made, attached, begun⟩ := opening_played opens
  have passive : ∀ key notice, Passive ((Host.silent 9 9).react key notice) :=
    fun _ _ scene => ⟨(), [], by rw [List.map_nil, List.append_nil]; rfl⟩
  have nobody : Lineup (fun key => if key = 0 then 5 else -1) []
      (Scene.alone g).dialogue.participants :=
    ⟨.nil, .nil, fun _ => rfl, fun _ none => by cases none⟩
  have together := (((Hosted.made (alone_quiet 9 9 g).attended nobody attached).returned
    (.call (.start none)) begun).joined 0 (passive 0)).joined 1 (passive 1)
  have attended := (together.staged (sturdy_of_compile compiled graph)).1.attended
  let bus : Bus := ({} : Bus).subscribe .speakerLine 7 0 false false
  have serials : ∀ topic, ((bus.subscriptions topic).map (·.serial)).Nodup := by
    intro topic
    cases topic <;> decide
  have listeners : ∀ topic, ∀ s ∈ bus.subscriptions topic, ∀ p,
      Passive ((Host.silent 9 9).listen s.listener p) :=
    fun _ _ _ _ scene => ⟨(), [], by rw [List.map_nil, List.append_nil]; rfl⟩
  have hosted : Hosted _ g _ _ (Scene.mk _ bus () []) :=
    together.elsewhere rfl ⟨attended.participants, listeners, serials, rfl, rfl⟩
  exact ⟨c, g, _, compiled, graph, hosted, offers, rfl, notices_in_order compiled graph hosted⟩

end Colloquy.Script
