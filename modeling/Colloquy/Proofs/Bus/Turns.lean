import Colloquy.Proofs.Bus.Using
import Mathlib.Data.List.Chain
import Mathlib.Data.List.Forall2
/-!
# Taking turns

In a delivery the subscriptions of the roster take turns. Each listener that is alive when its turn
comes is called once, up to the first after whose call the event is consumed: the first that consumes
it, or the first of all if it was consumed before, while it waited.
-/

namespace Colloquy.Bus

variable {η δ : Type} {host : Host η δ} {p : Publication} {scene after last : Scene η δ}

/-- The turn of a subscription in a delivery: the scenes when it came and when it was over. -/
structure Turn (η δ : Type) where
  subscription : Subscription
  before : Scene η δ
  after : Scene η δ

/-- Whether the listener was alive when its turn came. Only then it is called. -/
def Turn.isCalled (host : Host η δ) (t : Turn η δ) : Bool :=
  t.before.bus.isLive (host.knows t.before.host) t.subscription

/-- The subscriptions whose listeners were called. -/
def calledIn (host : Host η δ) (turns : List (Turn η δ)) : List Subscription :=
  (turns.filter (·.isCalled host)).map (·.subscription)

/-- What is finished after a turn: a subscription for one event, and one without a listener. -/
def Turn.finished (host : Host η δ) (t : Turn η δ) : List Nat :=
  if t.isCalled host && !t.subscription.oneShot then [] else [t.subscription.serial]

/-- A scene in which the turn of a listener that is not alive has passed. -/
def skip (scene : Scene η δ) : Scene η δ :=
  { scene with bus := { scene.bus with called := none } }

/-- `Turns host p ss scene turns last`: in the delivery of `p` the subscriptions `ss` take these
turns, one after the other, from the one scene to the other. The turn of a listener that is not alive
passes; any other listener is called, and if the event is consumed then no turn follows. -/
inductive Turns (host : Host η δ) (p : Publication) :
    List Subscription → Scene η δ → List (Turn η δ) → Scene η δ → Prop where
  | done {scene : Scene η δ} : Turns host p [] scene [] scene
  | passed {s : Subscription} {ss : List Subscription} {scene last : Scene η δ}
      {turns : List (Turn η δ)} (gone : scene.bus.isLive (host.knows scene.host) s = false)
      (later : Turns host p ss (skip scene) turns last) :
      Turns host p (s :: ss) scene (⟨s, scene, skip scene⟩ :: turns) last
  | consumed {s : Subscription} {ss : List Subscription} {scene after : Scene η δ}
      (live : scene.bus.isLive (host.knows scene.host) s = true)
      (called : call host p s.listener scene = .ok () after)
      (consumed : after.bus.isConsumed p = true) :
      Turns host p (s :: ss) scene [⟨s, scene, after⟩] after
  | left {s : Subscription} {ss : List Subscription} {scene after last : Scene η δ}
      {turns : List (Turn η δ)} (live : scene.bus.isLive (host.knows scene.host) s = true)
      (called : call host p s.listener scene = .ok () after)
      (unconsumed : after.bus.isConsumed p = false) (later : Turns host p ss after turns last) :
      Turns host p (s :: ss) scene (⟨s, scene, after⟩ :: turns) last

theorem callEach_turns {ss : List Subscription} {finished : List Nat}
    (played : callEach host p ss scene = .ok finished last) :
    ∃ turns, Turns host p ss scene turns last ∧ finished = turns.flatMap (·.finished host) := by
  induction ss generalizing scene finished with
  | nil =>
    cases played
    exact ⟨[], .done, rfl⟩
  | cons s ss ih =>
    have read : (get : Play η δ (Scene η δ)) scene = .ok scene scene := rfl
    rw [callEach, Play.bind_ok read] at played
    cases live : scene.bus.isLive (host.knows scene.host) s with
    | false =>
      have skipped : Play.changeBus (fun b => { b with called := none }) scene
          = .ok () (skip scene) := rfl
      rw [if_neg (by rw [live]; exact Bool.noConfusion), Play.bind_ok skipped] at played
      obtain ⟨more, after, others, played⟩ := Play.bind_inv played
      cases played
      obtain ⟨turns, taken, rfl⟩ := ih others
      refine ⟨_, taken.passed live, ?_⟩
      simp [Turn.finished, Turn.isCalled, live]
    | true =>
      rw [if_pos live] at played
      obtain ⟨_, after, called, played⟩ := Play.bind_inv played
      have look : Play.bus after = .ok after.bus after := rfl
      rw [Play.bind_ok look] at played
      -- the event goes on only if nobody has consumed it
      cases consumed : after.bus.isConsumed p with
      | true =>
        rw [consumed, if_pos rfl] at played
        cases played
        refine ⟨_, .consumed live called consumed, ?_⟩
        cases once : s.oneShot <;> simp [Turn.finished, Turn.isCalled, live, once]
      | false =>
        rw [consumed, if_neg Bool.noConfusion] at played
        obtain ⟨more, between, others, played⟩ := Play.bind_inv played
        cases played
        obtain ⟨turns, taken, rfl⟩ := ih others
        refine ⟨_, .left live called consumed taken, ?_⟩
        cases once : s.oneShot <;> simp [Turn.finished, Turn.isCalled, live, once]

/-! ### Who is called -/

/-- What the turns of a delivery come to: the subscriptions take them in order, each beginning where
the one before it ended; who is alive is called once, and the event goes no further than to the first
after whose call it is consumed, but that far. -/
structure Served (host : Host η δ) (p : Publication) (ss : List Subscription) (turns : List (Turn η δ)) :
    Prop where
  inOrder : turns.map (·.subscription) <+: ss
  successive : turns.IsChain fun t u => u.before = t.after
  called : ∀ t ∈ turns, t.isCalled host = true →
    call host p t.subscription.listener t.before = .ok () t.after
  passed : ∀ t ∈ turns, t.isCalled host = false → t.after = skip t.before
  unconsumed : ∀ t ∈ turns.dropLast, t.isCalled host = true → t.after.bus.isConsumed p = false
  all : turns.map (·.subscription) = ss
    ∨ ∃ t, turns.getLast? = some t ∧ t.isCalled host = true ∧ t.after.bus.isConsumed p = true

theorem Turns.head {ss : List Subscription} {turns : List (Turn η δ)} {t : Turn η δ}
    (taken : Turns host p ss scene turns last) (first : turns.head? = some t) : t.before = scene := by
  cases taken with
  | done => cases first
  | passed => cases first; rfl
  | consumed => cases first; rfl
  | left => cases first; rfl

/-- A turn that leaves the event to others, before theirs. -/
theorem Served.cons {s : Subscription} {ss : List Subscription} {turns : List (Turn η δ)}
    (served : Served host p ss turns) (taken : Turns host p ss after turns last)
    (called : scene.bus.isLive (host.knows scene.host) s = true →
      call host p s.listener scene = .ok () after ∧ after.bus.isConsumed p = false)
    (passed : scene.bus.isLive (host.knows scene.host) s = false → after = skip scene) :
    Served host p (s :: ss) (⟨s, scene, after⟩ :: turns) where
  inOrder := List.prefix_cons_inj s |>.mpr served.inOrder
  successive := by
    refine List.isChain_cons.mpr ⟨fun t first => ?_, served.successive⟩
    exact taken.head first
  called := by
    intro t member live
    rcases List.mem_cons.mp member with rfl | later
    · exact (called live).1
    · exact served.called t later live
  passed := by
    intro t member gone
    rcases List.mem_cons.mp member with rfl | later
    · exact passed gone
    · exact served.passed t later gone
  unconsumed := by
    intro t member live
    cases turns with
    | nil => cases member
    | cons u turns =>
      rcases List.mem_cons.mp member with rfl | later
      · exact (called live).2
      · exact served.unconsumed t later live
  all := by
    rcases served.all with whole | ⟨t, last, live, consumed⟩
    · exact .inl (congrArg (s :: ·) whole)
    · refine .inr ⟨t, ?_, live, consumed⟩
      rw [List.getLast?_cons, last]
      rfl

theorem Turns.served {ss : List Subscription} {turns : List (Turn η δ)}
    (taken : Turns host p ss scene turns last) : Served host p ss turns := by
  induction taken with
  | done =>
    exact ⟨List.prefix_rfl, .nil, fun _ none => (by cases none), fun _ none => (by cases none),
      fun _ none => (by cases none), .inl rfl⟩
  | passed gone later ih =>
    exact ih.cons later (fun live => absurd (gone.symm.trans live) Bool.noConfusion) fun _ => rfl
  | left live called unconsumed later ih =>
    exact ih.cons later (fun _ => ⟨called, unconsumed⟩) fun gone =>
      absurd (gone.symm.trans live) Bool.noConfusion
  | @consumed s ss scene after live called consumed =>
    refine ⟨List.prefix_cons_inj s |>.mpr (List.nil_prefix), .singleton _, ?_, ?_,
      fun _ none => (by cases none), .inr ⟨_, rfl, live, consumed⟩⟩
    · intro t only _
      rw [List.mem_singleton.mp only]
      exact called
    · intro t only gone
      rw [List.mem_singleton.mp only] at gone
      exact absurd (gone.symm.trans live) Bool.noConfusion

/-! ### What listeners do -/

/-- A scene in which a listener has just been called for an event. -/
def addressed (scene : Scene η δ) (listener : Nat) (p : Publication) : Scene η δ :=
  { scene with
    bus := { scene.bus with called := some listener }
    journal := scene.journal ++ [.heard listener p.event] }

theorem call_uses (fair : Fair host) (busy : scene.bus.delivering = true) {listener : Nat}
    (called : call host p listener scene = .ok () after) :
    ∃ calls, Uses host.knows (addressed scene listener p) calls after := by
  obtain ⟨calls, uses⟩ := fair listener p (addressed scene listener p) busy
  change EStateM.tryCatch (host.listen listener p) _ (addressed scene listener p) = _ at called
  unfold EStateM.tryCatch at called
  unfold Play.leaves at uses
  cases played : host.listen listener p (addressed scene listener p) with
  | ok _ between =>
    rw [played] at called uses
    cases called
    exact ⟨calls, uses⟩
  | error f between =>
    rw [played] at called uses
    cases f with
    | endless => cases called
    | _ =>
      cases called
      refine ⟨calls, uses.elsewhere rfl ?_⟩
      exact List.filterMap_append.trans (List.append_nil _)

/-- The calls of the bus that are made in a turn: those of the listener if it is called, else none. -/
def Turn.Makes (host : Host η δ) (p : Publication) (t : Turn η δ) (calls : List Call) : Prop :=
  if t.isCalled host then Uses host.knows (addressed t.before t.subscription.listener p) calls t.after
  else calls = [] ∧ t.after = skip t.before

namespace Turn.Makes

variable {t : Turn η δ} {calls : List Call}

theorem grown (makes : t.Makes host p calls) :
    Grown t.before.bus (published calls) t.after.bus := by
  unfold Makes at makes
  split at makes
  · have called : Grown t.before.bus [] (addressed t.before t.subscription.listener p).bus :=
      .of_same rfl rfl
    exact called.trans makes.grown
  · rw [makes.1, makes.2]
    exact .of_same rfl rfl

theorem accounted (makes : t.Makes host p calls) {first : Nat} {past : List Call}
    (before : Accounted first past t.before.bus) :
    Accounted first (past ++ calls) t.after.bus := by
  unfold Makes at makes
  split at makes
  · have called : Accounted first past (addressed t.before t.subscription.listener p).bus :=
      before.of_same rfl rfl
    exact called.uses makes
  · rw [makes.1, makes.2, List.append_nil]
    exact before.of_same rfl rfl

/-- Nobody but the listener whose turn it is is called before its turn is over. -/
theorem heard (makes : t.Makes host p calls) :
    t.after.heard = t.before.heard
      ++ if t.isCalled host then [(t.subscription.listener, p.event)] else [] := by
  unfold Makes at makes
  split at makes
  next called =>
    rw [makes.heard, if_pos called]
    exact List.filterMap_append
  next passed =>
    rw [makes.2, if_neg passed]
    exact (List.append_nil _).symm

/-- What every call keeps, and what concerns neither the listener called nor the journal. -/
theorem keeps (makes : t.Makes host p calls) {P : Bus → Prop}
    (each : ∀ c ∈ calls, ∀ known b, P b → P (c.change known b))
    (aside : ∀ b listener, P b → P { b with called := listener }) (holds : P t.before.bus) :
    P t.after.bus := by
  unfold Makes at makes
  split at makes
  · exact makes.keeps each (aside _ _ holds)
  · rw [makes.2]
    exact aside _ _ holds

end Turn.Makes

/-- After each of some turns, and in the scene that they lead to, the bus is accounted for by the calls
made so far. -/
structure AccountedIn (first : Nat) (past : List Call) (turns : List (Turn η δ))
    (calls : List (List Call)) (last : Scene η δ) : Prop where
  each : ∀ j t, turns[j]? = some t →
    Accounted first (past ++ (calls.take (j + 1)).flatten) t.after.bus
  last : Accounted first (past ++ calls.flatten) last.bus

namespace AccountedIn

variable {first : Nat} {past now : List Call} {t : Turn η δ} {turns : List (Turn η δ)}
  {calls : List (List Call)}

theorem nil (here : Accounted first past last.bus) : AccountedIn first past [] [] last := by
  constructor
  · intro j t there
    cases there
  · rw [List.flatten_nil, List.append_nil]
    exact here

theorem cons (here : Accounted first (past ++ now) t.after.bus)
    (later : AccountedIn first (past ++ now) turns calls last) :
    AccountedIn first past (t :: turns) (now :: calls) last := by
  constructor
  · intro j u there
    rw [List.take_succ_cons, List.flatten_cons, ← List.append_assoc]
    cases j with
    | zero =>
      cases there
      rw [List.take_zero, List.flatten_nil, List.append_nil]
      exact here
    | succ j => exact later.each j u there
  · rw [List.flatten_cons, ← List.append_assoc]
    exact later.last

end AccountedIn

/-- The calls of the bus that are made in turns, turn by turn. -/
abbrev Made (host : Host η δ) (p : Publication) : List (Turn η δ) → List (List Call) → Prop :=
  List.Forall₂ (Turn.Makes host p)

namespace Turns

variable {ss : List Subscription} {turns : List (Turn η δ)} {calls : List (List Call)}

theorem made (taken : Turns host p ss scene turns last) (fair : Fair host)
    (busy : scene.bus.delivering = true) : ∃ calls, Made host p turns calls := by
  induction taken with
  | done => exact ⟨[], .nil⟩
  | @passed s ss scene last turns gone later ih =>
    have makes : Turn.Makes host p ⟨s, scene, skip scene⟩ [] := by
      rw [Turn.Makes, if_neg]
      · exact ⟨rfl, rfl⟩
      · rw [Turn.isCalled, gone]
        exact Bool.noConfusion
    obtain ⟨calls, others⟩ := ih busy
    exact ⟨[] :: calls, .cons makes others⟩
  | consumed live called _ =>
    obtain ⟨calls, uses⟩ := call_uses fair busy called
    exact ⟨[calls], .cons (by rw [Turn.Makes, Turn.isCalled, if_pos live]; exact uses) .nil⟩
  | @left s ss scene after last turns live called _ later ih =>
    obtain ⟨calls, uses⟩ := call_uses fair busy called
    obtain ⟨more, others⟩ := ih (uses.delivering.trans busy)
    exact ⟨calls :: more,
      .cons (by rw [Turn.Makes, Turn.isCalled, if_pos live]; exact uses) others⟩

/-- What every turn keeps holds when all are over. -/
theorem keeps (taken : Turns host p ss scene turns last) (makes : Made host p turns calls)
    {P : Bus → Prop} (each : ∀ c ∈ calls.flatten, ∀ known b, P b → P (c.change known b))
    (aside : ∀ b listener, P b → P { b with called := listener }) (holds : P scene.bus) :
    P last.bus := by
  induction taken generalizing calls with
  | done => exact holds
  | passed gone later ih =>
    obtain _ | ⟨first, others⟩ := makes
    refine ih others (fun c member => each c (List.mem_append_right _ member)) ?_
    exact first.keeps (fun c member => each c (List.mem_append_left _ member)) aside holds
  | consumed live called _ =>
    obtain _ | ⟨first, others⟩ := makes
    exact first.keeps (fun c member => each c (List.mem_append_left _ member)) aside holds
  | left live called _ later ih =>
    obtain _ | ⟨first, others⟩ := makes
    refine ih others (fun c member => each c (List.mem_append_right _ member)) ?_
    exact first.keeps (fun c member => each c (List.mem_append_left _ member)) aside holds

theorem delivering (taken : Turns host p ss scene turns last) (makes : Made host p turns calls) :
    last.bus.delivering = scene.bus.delivering := by
  refine taken.keeps makes (P := fun b => b.delivering = scene.bus.delivering) ?_
    (fun _ _ same => same) rfl
  intro c _ known b same
  rw [c.delivering_change, same]

/-- What the listeners publish waits, in the order of their turns. -/
theorem grown (taken : Turns host p ss scene turns last) (makes : Made host p turns calls) :
    Grown scene.bus (published calls.flatten) last.bus := by
  induction taken generalizing calls with
  | done =>
    cases makes
    exact .refl _
  | passed gone later ih =>
    obtain _ | ⟨first, others⟩ := makes
    rw [List.flatten_cons, published_append]
    exact first.grown.trans (ih others)
  | consumed live called _ =>
    obtain _ | ⟨first, _ | _⟩ := makes
    rw [List.flatten_singleton]
    exact first.grown
  | left live called _ later ih =>
    obtain _ | ⟨first, others⟩ := makes
    rw [List.flatten_cons, published_append]
    exact first.grown.trans (ih others)

/-- The account goes on from turn to turn. -/
theorem accounted (taken : Turns host p ss scene turns last) (makes : Made host p turns calls)
    {first : Nat} {past : List Call} (before : Accounted first past scene.bus) :
    AccountedIn first past turns calls last := by
  induction taken generalizing past calls with
  | done =>
    cases makes
    exact .nil before
  | passed gone later ih =>
    obtain _ | ⟨makes, others⟩ := makes
    exact .cons (makes.accounted before) (ih others (makes.accounted before))
  | consumed live called _ =>
    obtain _ | ⟨makes, _ | _⟩ := makes
    exact .cons (makes.accounted before) (.nil (makes.accounted before))
  | left live called _ later ih =>
    obtain _ | ⟨makes, others⟩ := makes
    exact .cons (makes.accounted before) (ih others (makes.accounted before))

/-- The listeners that are called are those whose turns it is, once each and in order. -/
theorem heard (taken : Turns host p ss scene turns last) (makes : Made host p turns calls) :
    last.heard = scene.heard ++ (calledIn host turns).map fun s => (s.listener, p.event) := by
  have grows {t : Turn η δ} {turns : List (Turn η δ)} {first : List Call}
      (makes : t.Makes host p first) :
      t.after.heard ++ (calledIn host turns).map (fun s => (s.listener, p.event))
        = t.before.heard ++ (calledIn host (t :: turns)).map fun s => (s.listener, p.event) := by
    rw [makes.heard, calledIn, calledIn, List.filter_cons]
    split <;> simp
  induction taken generalizing calls with
  | done => exact (List.append_nil _).symm
  | passed gone later ih =>
    obtain _ | ⟨first, others⟩ := makes
    rw [ih others, ← grows first]
  | consumed live called _ =>
    obtain _ | ⟨first, _ | _⟩ := makes
    rw [← grows first]
    exact (List.append_nil _).symm
  | left live called _ later ih =>
    obtain _ | ⟨first, others⟩ := makes
    rw [ih others, ← grows first]

end Turns

end Colloquy.Bus
