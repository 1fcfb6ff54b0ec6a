import Colloquy.Proofs.Dialogue.Failures
/-!
# Conversations go on

A conversation is a dialogue that is started, gone on with by choices, and given variables. It may
stop at a line all of whose options are withheld, and a choice that leads to further choices without
a line in between leaves it where it is. Otherwise there is always a way on, and every way on leads
to a line or to the end.
-/

namespace Colloquy

open Script.Direct (Variables)

variable {η δ : Type} {host : Host η δ} {scene after first : Scene η δ} {g : Graph}
  {vars : Variables}

/-! ### Options that are available -/

/-- `g.Available vars edges d`: with these variables the option `d` is available at a node with
these edges. It is one of them, or stands behind a select, in its first branch whose condition
holds. -/
inductive Graph.Available (g : Graph) (vars : Variables) : List Edge → Edge → Prop where
  | here {d : Edge} {rest : List Edge} (kind : d.kind = .decision) : Available g vars (d :: rest) d
  | branch {e d : Edge} {x : Expression} {o : Option Node} {rest : List Edge}
      (kind : e.kind = .condition) (condition : e.condition = some x)
      (holds : Script.Direct.holds vars x = .ok true) (leads : g.target e = .ok o)
      (inner : Available g vars (optionEdges o) d) : Available g vars (e :: rest) d
  | chained {e d : Edge} {o : Option Node} {rest : List Edge} (kind : e.kind = .chained)
      (leads : g.target e = .ok o) (inner : Available g vars (optionEdges o) d) :
      Available g vars (e :: rest) d
  | later {e d : Edge} {rest : List Edge}
      (passed : e.kind = .condition → ∀ x, e.condition = some x →
        Script.Direct.holds vars x = .ok false)
      (later : Available g vars rest d) : Available g vars (e :: rest) d

/-- How an option is available at a node depends on the kind of its first edge. -/
theorem Graph.available_cons {e d : Edge} {rest : List Edge} : g.Available vars (e :: rest) d
    ↔ e.kind = .decision ∧ d = e
      ∨ (∃ x o, e.kind = .condition ∧ e.condition = some x
        ∧ Script.Direct.holds vars x = .ok true ∧ g.target e = .ok o
        ∧ g.Available vars (optionEdges o) d)
      ∨ (∃ o, e.kind = .chained ∧ g.target e = .ok o ∧ g.Available vars (optionEdges o) d)
      ∨ (e.kind = .condition →
          ∀ x, e.condition = some x → Script.Direct.holds vars x = .ok false)
        ∧ g.Available vars rest d := by
  constructor
  · rintro (kind | ⟨kind, condition, holds, leads, inner⟩ | ⟨kind, leads, inner⟩ | ⟨passed, later⟩)
    · exact .inl ⟨kind, rfl⟩
    · exact .inr (.inl ⟨_, _, kind, condition, holds, leads, inner⟩)
    · exact .inr (.inr (.inl ⟨_, kind, leads, inner⟩))
    · exact .inr (.inr (.inr ⟨passed, later⟩))
  · rintro (⟨kind, rfl⟩ | ⟨x, o, kind, condition, holds, leads, inner⟩ | ⟨o, kind, leads, inner⟩
      | ⟨passed, later⟩)
    · exact .here kind
    · exact .branch kind condition holds leads inner
    · exact .chained kind leads inner
    · exact .later passed later

/-- What is offered are the options that are available. -/
theorem Graph.Offers.mem_iff {edges out : List Edge} (offers : g.Offers vars edges out) (d : Edge) :
    d ∈ out ↔ g.Available vars edges d := by
  induction offers with
  | nil =>
    constructor
    · rintro ⟨⟩
    · rintro ⟨⟩
  | decision kind _ ih =>
    rw [List.mem_cons, ih, Graph.available_cons]
    simp [kind]
  | enters kind condition holds leads _ ih =>
    -- after a condition that holds nothing else is looked at
    rw [ih, Graph.available_cons]
    simp [kind, condition, holds, leads]
  | skips kind fails _ ih =>
    rw [ih, Graph.available_cons]
    constructor
    · exact fun there => .inr (.inr (.inr ⟨fun _ => fails, there⟩))
    · rintro (⟨other, _⟩ | ⟨x, _, _, condition, holds, _⟩ | ⟨_, other, _⟩ | ⟨_, there⟩)
      · cases kind.symm.trans other
      · cases holds.symm.trans (fails x condition)
      · cases kind.symm.trans other
      · exact there
  | chained kind leads _ _ inner later =>
    rw [List.mem_append, inner, later, Graph.available_cons]
    simp [kind, leads]
  | passes kind _ ih =>
    rw [ih, Graph.available_cons]
    simp [kind]

/-- The calls of a conversation. -/
def Call.converses : Call → Bool
  | .start _ | .choose _ | .proceed | .setVariable _ _ => true
  | _ => false

/-- The scenes of a conversation, every call of which returns. The variables beside a scene are
those with which the dialogue came to where it stands, when it collected the choices it offers. -/
inductive Conversed (host : Host η δ) (g : Graph) (first : Scene η δ) :
    Variables → Scene η δ → Prop where
  | made {after : Scene η δ} (made : Dialogue.attachTo host g first = .ok () after) :
      Conversed host g first after.dialogue.vars after
  | called {vars : Variables} {scene after : Scene η δ} (before : Conversed host g first vars scene)
      (call : Call) (converses : call.converses = true) (done : call.play host scene = .ok () after) :
      Conversed host g first
        (if after.dialogue.gathering = scene.dialogue.gathering then vars else after.dialogue.vars)
        after

/-- A call of a conversation leaves the dialogue where it stands, or brings it somewhere. -/
theorem Call.arrives (sturdy : g.Sturdy) (onstage : Onstage host g scene) {call : Call}
    (converses : call.converses = true) (done : call.play host scene = .ok () after) :
    Arrives g scene after := by
  cases call with
  | start label =>
    obtain ⟨ran, _⟩ | ⟨rfl, _⟩ := (start_yields sturdy onstage label).of_done done
    · exact ran.arrives
    · exact (Scene.Stays.refl _).arrives
  | choose index =>
    obtain ⟨running, last, played, rest⟩ := Play.bind_inv done
    cases rest
    by_cases answers : scene.dialogue.Answers index
    · exact ((choose_yields sturdy onstage answers).of_done played).arrives
    · cases (choose_fails answers).symm.trans played
  | proceed =>
    obtain ⟨running, last, played, rest⟩ := Play.bind_inv done
    cases rest
    obtain ⟨chose, _⟩ | ⟨rfl, _⟩ := (proceed_yields sturdy onstage).of_done played
    · exact chose.arrives
    · exact (Scene.Stays.refl _).arrives
  | setVariable name v =>
    obtain ⟨last, set, stays⟩ := setVariable_stays onstage.quiet name v
    cases set.symm.trans done
    exact stays.arrives
  | _ => cases converses

theorem Conversed.reached (conversed : Conversed host g first vars scene) :
    Reached host g first scene := by
  induction conversed with
  | made made => exact .made made
  | called _ call _ done ih => exact .returned ih call done

/-- All through a conversation the dialogue offers what there was to offer when it came to where it
stands. -/
theorem Conversed.presents (sturdy : g.Sturdy) (quiet : Quiet host first)
    (conversed : Conversed host g first vars scene) :
    g.Presents vars scene.dialogue.current scene.dialogue.choices := by
  induction conversed with
  | @made after made =>
    obtain ⟨_, current, choices⟩ | ⟨_, presents⟩ :=
      ((attachTo_yields sturdy quiet).of_done made).arrives
    · rw [current, choices]
      exact .ended
    · exact presents
  | @called vars before after conversed call converses done ih =>
    have onstage := conversed.reached.onstage sturdy quiet
    obtain ⟨same, current, choices⟩ | ⟨moved, presents⟩ := call.arrives sturdy onstage converses done
    · rw [if_pos same, current, choices]
      exact ih
    · rw [if_neg moved]
      exact presents

/-! ### Choosing -/

/-- `Follows host g e scene stop between`: with nothing moved before, the steps from where a way on leads
are run, one after the other, and the run comes to `stop`. -/
def Follows (host : Host η δ) (g : Graph) (e : Edge) (scene : Scene η δ) (stop : Option Node)
    (between : Scene η δ) : Prop :=
  ∃ o ready path, g.target e = .ok o ∧ scene.Stays ready ∧ g.Passes o stop
    ∧ RunsThrough host path o ready stop between

/-- A way on strays: it leads through steps alone to a choice, and all that comes of this is an entry of
the log. -/
def Strays (host : Host η δ) (g : Graph) (e : Edge) (scene after : Scene η δ) : Prop :=
  ∃ n between, Follows host g e scene (some n) between ∧ n.kind = .choice
    ∧ after = { between with
      journal := between.journal ++ [.logged (between.dialogue.strayChoice n)] }

/-- What choosing a way on comes to: it leads to a line or to the end, where the dialogue moves and what
there is to offer is collected before all are told of it, or it strays. -/
inductive ChoiceEnd (host : Host η δ) (g : Graph) (e : Edge) (scene after : Scene η δ) : Prop where
  | line {n : Node} {between : Scene η δ} (follows : Follows host g e scene (some n) between)
      (text : n.kind = .text) (moved : Moved g (some n) false between after)
  | ended {between : Scene η δ} (follows : Follows host g e scene none between)
      (moved : Moved g none false between after)
  | stray (strays : Strays host g e scene after)

theorem Follows.stays (sturdy : g.Sturdy) (onstage : Onstage host g scene) {index : Int} {e : Edge}
    (way : scene.dialogue.choice? index = some e) {stop : Option Node}
    (follows : Follows host g e scene stop after) : scene.Stays after := by
  obtain ⟨o, ready, path, leads, stays, _, through⟩ := follows
  obtain ⟨n, member, own⟩ := onstage.ways e (mem_of_choice? way)
  have inside := Graph.holds_of_target sturdy.rooted member own leads
  have onstage' := stays.onstage onstage
  exact stays.trans (through.stays sturdy.rooted onstage'.quiet onstage'.graph inside)

theorem Chose.ends {index : Int} {e : Edge} {running : Bool}
    (chose : Chose host g index scene running after) (way : scene.dialogue.choice? index = some e) :
    ChoiceEnd host g e scene after ∧ running = !after.dialogue.isEnded := by
  cases chose with
  | invalid absent =>
    rw [way] at absent
    cases absent
  | @went e' o ready way' leads stays ran goesOn =>
    cases way.symm.trans way'
    refine ⟨?_, goesOn⟩
    cases ran with
    | line ran passes through text moved =>
      exact .line ⟨o, ready, _, leads, stays, passes, through⟩ text moved
    | ended ran passes through moved =>
      exact .ended ⟨o, ready, _, leads, stays, passes, through⟩ moved
    | choice ran passes through choice logged =>
      exact .stray ⟨_, _, ⟨o, ready, _, leads, stays, passes, through⟩, choice, logged⟩

theorem opening_conversed {host : Host Unit Unit} {scene : Scene Unit Unit}
    (opens : Scene.opening? host g = some scene) :
    ∃ vars, Conversed host g (.alone g) vars scene := by
  obtain ⟨made, attached, started⟩ := opening_played opens
  exact ⟨_, .called (.made attached) (.start none) rfl started⟩

/-- The entry of the log that a note is. -/
def Note.entry? : Note δ → Option LogEntry
  | .logged entry => some entry
  | _ => none

end Colloquy

namespace Colloquy.Script

open Direct (Variables)

variable {η δ : Type}

end Colloquy.Script
