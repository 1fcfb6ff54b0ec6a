import Colloquy.Proofs.Dialogue.Quiet
import Mathlib.Data.List.Nodup
/-!
# Attended scenes

In an attended scene participants and listeners take note of what they are told and touch neither
dialogue nor bus. Whatever is announced then reaches every participant once and in order, and the
listeners of its topic after them; a request reaches the listeners first.
-/

namespace Colloquy

variable {η δ : Type} {host : Host η δ} {scene between after last : Scene η δ}

/-! ### Who attends -/

/-- Something that changes nothing but what the host keeps, and enters nothing but its deeds. -/
def Passive (x : Play η δ Unit) : Prop :=
  ∀ scene, ∃ (h : η) (deeds : List δ),
    x scene = .ok () { scene with host := h, journal := scene.journal ++ deeds.map .deed }

/-- A scene whose participants and listeners are passive, with nothing left to deliver. -/
structure Attended (host : Host η δ) (scene : Scene η δ) : Prop where
  participants : ∀ p ∈ scene.dialogue.participants, ∀ notice, Passive (host.react p.key notice)
  listeners : ∀ topic, ∀ s ∈ scene.bus.subscriptions topic, ∀ p, Passive (host.listen s.listener p)
  serials : ∀ topic, ((scene.bus.subscriptions topic).map (·.serial)).Nodup
  idle : scene.bus.delivering = false
  empty : scene.bus.queue = []

theorem Quiet.attended (quiet : Quiet host scene) : Attended host scene where
  participants := by
    intro p member notice scene
    refine ⟨scene.host, [], ?_⟩
    rw [quiet.passive p member notice, List.map_nil, List.append_nil]
    rfl
  listeners := by
    intro topic s member
    rw [quiet.unheard topic] at member
    cases member
  serials := by
    intro topic
    rw [quiet.unheard topic]
    exact List.nodup_nil
  idle := quiet.idle
  empty := quiet.empty

theorem Attended.of_same (attended : Attended host scene)
    (participants : after.dialogue.participants = scene.dialogue.participants)
    (bus : after.bus = scene.bus) : Attended host after := by
  refine ⟨?_, ?_, ?_, ?_, ?_⟩
  · rw [participants]
    exact attended.participants
  · rw [bus]
    exact attended.listeners
  · rw [bus]
    exact attended.serials
  · rw [bus]
    exact attended.idle
  · rw [bus]
    exact attended.empty

/-! ### What the journal shows -/

/-- What the journal shows beside the deeds of the host. -/
inductive Sign where
  | told (key : Nat) (notice : Notice)
  | heard (listener : Nat) (e : Event)
  | logged (entry : LogEntry)

/-- What a note shows. -/
def Note.sign? : Note δ → Option Sign
  | .told key notice _ => some (.told key notice)
  | .heard listener e => some (.heard listener e)
  | .logged entry => some (.logged entry)
  | .deed _ => none

/-- What the journal of a scene shows. -/
def Scene.signs (scene : Scene η δ) : List Sign :=
  scene.journal.filterMap Note.sign?

theorem filterMap_deeds (deeds : List δ) :
    (deeds.map Note.deed).filterMap Note.sign? = [] := by
  induction deeds with
  | nil => rfl
  | cons d rest ih => exact ih

/-! ### Telling -/

/-- All participants are told of something, once each and in order. -/
structure Told (notice : Notice) (scene after : Scene η δ) : Prop where
  dialogue : after.dialogue = scene.dialogue
  bus : after.bus = scene.bus
  signs : after.signs = scene.signs ++ scene.dialogue.participants.map (.told ·.key notice)

theorem tellEach_attended {ps : List Participant} {notice : Notice}
    (passive : ∀ p ∈ ps, ∀ notice, Passive (host.react p.key notice)) :
    ∃ after, ps.forM (Dialogue.tell host notice) scene = .ok () after
      ∧ after.dialogue = scene.dialogue ∧ after.bus = scene.bus
      ∧ after.signs = scene.signs ++ ps.map (.told ·.key notice) := by
  induction ps generalizing scene with
  | nil => exact ⟨scene, rfl, rfl, rfl, (List.append_nil _).symm⟩
  | cons p rest ih =>
    let noted : Scene η δ := { scene with journal := scene.journal
      ++ [.told p.key notice scene.dialogue.speaker] }
    obtain ⟨h, deeds, reacted⟩ := passive p List.mem_cons_self notice noted
    have first : Dialogue.tell host notice p scene
        = .ok () { noted with host := h, journal := noted.journal ++ deeds.map .deed } := reacted
    obtain ⟨last, done, dialogue, bus, signs⟩ :=
      @ih { noted with host := h, journal := noted.journal ++ deeds.map .deed }
        fun q member => passive q (List.mem_cons_of_mem _ member)
    refine ⟨last, (Play.bind_ok first).trans done, dialogue, bus, ?_⟩
    rw [signs, List.map_cons]
    simp only [Scene.signs, noted, List.filterMap_append, filterMap_deeds, List.append_nil,
      List.append_assoc]
    rfl

theorem tellAll_attended (attended : Attended host scene) (notice : Notice) :
    ∃ after, Dialogue.tellAll host notice scene = .ok () after ∧ Told notice scene after := by
  obtain ⟨after, done, dialogue, bus, signs⟩ :=
    @tellEach_attended _ _ host scene _ notice attended.participants
  exact ⟨after, done, dialogue, bus, signs⟩

/-! ### Hearing -/

/-- The listeners of a topic hear an event, once each and in order; only those with weak
subscriptions may be gone. Subscriptions for one event end with it. -/
structure Heard (e : Event) (scene after : Scene η δ) : Prop where
  dialogue : after.dialogue = scene.dialogue
  idle : after.bus.delivering = scene.bus.delivering
  queue : after.bus.queue = scene.bus.queue
  signs : ∃ hearers : List Subscription,
    after.signs = scene.signs ++ hearers.map (.heard ·.listener e)
      ∧ hearers.Sublist (scene.bus.subscriptions e.topic)
      ∧ ((scene.bus.subscriptions e.topic).filter (!·.weak)).Sublist hearers
  fewer : ∀ topic, (after.bus.subscriptions topic).Sublist (scene.bus.subscriptions topic)
  lasting : ∀ topic, ∀ s ∈ scene.bus.subscriptions topic, s.oneShot = false → s.weak = false →
    s ∈ after.bus.subscriptions topic

theorem call_attended {listener : Nat} (p : Publication)
    (passive : Passive (host.listen listener p)) :
    ∃ after, Bus.call host p listener scene = .ok () after ∧ after.dialogue = scene.dialogue
      ∧ after.bus = { scene.bus with called := some listener }
      ∧ after.signs = scene.signs ++ [.heard listener p.event] := by
  let noted : Scene η δ := { scene with bus := { scene.bus with called := some listener }
                                        journal := scene.journal ++ [.heard listener p.event] }
  obtain ⟨h, deeds, listened⟩ := passive noted
  refine ⟨{ noted with host := h, journal := noted.journal ++ deeds.map .deed },
    Play.tryCatch_ok listened, rfl, rfl, ?_⟩
  simp only [Scene.signs, noted, List.filterMap_append, filterMap_deeds, List.append_nil]
  rfl

/-- Listeners that are passive hear an event one after the other, unless it is consumed already. -/
theorem callEach_attended (p : Publication) {ss : List Subscription}
    (passive : ∀ s ∈ ss, Passive (host.listen s.listener p))
    (unconsumed : scene.bus.isConsumed p = false) :
    ∃ finished after called hearers, Bus.callEach host p ss scene = .ok finished after
      ∧ after.dialogue = scene.dialogue ∧ after.bus = { scene.bus with called := called }
      ∧ after.signs = scene.signs ++ hearers.map (fun s => .heard s.listener p.event)
      ∧ hearers.Sublist ss ∧ (ss.filter (!·.weak)).Sublist hearers
      ∧ ∀ k ∈ finished, ∃ s ∈ ss, s.serial = k ∧ (s.oneShot = true ∨ s.weak = true) := by
  induction ss generalizing scene with
  | nil =>
    exact ⟨[], scene, scene.bus.called, [], rfl, rfl, rfl, (List.append_nil _).symm, .slnil, .slnil,
      fun _ none => by cases none⟩
  | cons s rest ih =>
    have others : ∀ s ∈ rest, Passive (host.listen s.listener p) :=
      fun s member => passive s (List.mem_cons_of_mem _ member)
    have read : (get : Play η δ (Scene η δ)) scene = .ok scene scene := rfl
    rw [Bus.callEach, Play.bind_ok read]
    by_cases live : scene.bus.isLive (host.knows scene.host) s = true
    · obtain ⟨between, called, dialogue, bus, signs⟩ :=
        @call_attended _ _ host scene s.listener p (passive s List.mem_cons_self)
      have calm : between.bus.isConsumed p = false := by rw [bus]; exact unconsumed
      have look : Play.bus between = .ok between.bus between := rfl
      obtain ⟨finished, after, c, hearers, done, dialogue', bus', signs', within, strong, ended⟩ :=
        @ih between others calm
      rw [if_pos live, Play.bind_ok called]
      dsimp only
      rw [Play.bind_ok look, if_neg (by rw [calm]; exact Bool.noConfusion), Play.bind_ok done]
      refine ⟨_, after, c, s :: hearers, rfl, dialogue'.trans dialogue, ?_, ?_, within.cons_cons s,
        ?_, ?_⟩
      · rw [bus', bus]
      · rw [signs', signs, List.append_assoc]
        rfl
      · rw [List.filter_cons]
        split
        · exact strong.cons_cons s
        · exact strong.cons s
      · intro k member
        rcases List.mem_append.mp member with own | later
        · split at own
          next once =>
            exact ⟨s, List.mem_cons_self, (List.mem_singleton.mp own).symm, .inl once⟩
          next => cases own
        · obtain ⟨t, inside, same, closed⟩ := ended k later
          exact ⟨t, List.mem_cons_of_mem _ inside, same, closed⟩
    · -- only a weak subscription can have lost its listener
      have weak : s.weak = true := by
        rw [Bus.isLive, Bool.or_eq_true, Bool.or_eq_true] at live
        cases given : s.weak with
        | true => rfl
        | false => exact absurd (.inl (.inl (by rw [given]; rfl))) live
      let skipped : Scene η δ := { scene with bus := { scene.bus with called := none } }
      have changed : Play.changeBus (fun b => { b with called := none }) scene = .ok () skipped := rfl
      obtain ⟨finished, after, c, hearers, done, dialogue', bus', signs', within, strong, ended⟩ :=
        @ih skipped others unconsumed
      rw [if_neg live, Play.bind_ok changed, Play.bind_ok done]
      refine ⟨_, after, c, hearers, rfl, dialogue', bus', signs', within.cons s, ?_, ?_⟩
      · rw [List.filter_cons_of_neg (by rw [weak]; exact Bool.noConfusion)]
        exact strong
      · intro k member
        rcases List.mem_cons.mp member with rfl | later
        · exact ⟨s, List.mem_cons_self, rfl, .inr weak⟩
        · obtain ⟨t, inside, same, closed⟩ := ended k later
          exact ⟨t, List.mem_cons_of_mem _ inside, same, closed⟩

/-- The end of a delivery changes the roster of its topic alone. -/
theorem endDelivery_same (b : Bus) (t : Topic) (edition : Nat) (finished : List Nat) :
    (b.endDelivery t edition finished).delivering = b.delivering
      ∧ (b.endDelivery t edition finished).queue = b.queue
      ∧ ∀ topic, (b.endDelivery t edition finished).rosters topic = b.rosters topic
        ∨ topic = t ∧ ∃ r, b.rosters topic = some r
          ∧ (b.endDelivery t edition finished).rosters topic = some { r with
            subscriptions := r.subscriptions.filter fun s => !finished.contains s.serial } := by
  cases roster : b.rosters t with
  | none =>
    have same : b.endDelivery t edition finished
        = { b with edition := none, held := [], called := none } := by
      unfold Bus.endDelivery
      dsimp only
      rw [roster]
    rw [same]
    exact ⟨rfl, rfl, fun _ => .inl rfl⟩
  | some r =>
    -- a roster that was replaced meanwhile is left as it is
    by_cases own : r.edition = edition
    · have changed : b.endDelivery t edition finished
          = Bus.setRoster { b with edition := none, held := [], called := none } t (some { r with
            subscriptions := r.subscriptions.filter fun s => !finished.contains s.serial }) := by
        unfold Bus.endDelivery
        dsimp only
        rw [roster]
        dsimp only
        rw [if_pos own]
      rw [changed]
      refine ⟨rfl, rfl, fun topic => ?_⟩
      by_cases same : topic = t
      · exact .inr ⟨same, r, same ▸ roster, if_pos same⟩
      · exact .inl (if_neg same)
    · have same : b.endDelivery t edition finished
          = { b with edition := none, held := [], called := none } := by
        unfold Bus.endDelivery
        dsimp only
        rw [roster]
        dsimp only
        rw [if_neg own]
      rw [same]
      exact ⟨rfl, rfl, fun _ => .inl rfl⟩

/-- What a delivery leaves of the subscriptions to a topic. -/
theorem subscriptions_endDelivery (b : Bus) (t : Topic) (edition : Nat) (finished : List Nat)
    (topic : Topic) :
    ((b.endDelivery t edition finished).subscriptions topic).Sublist (b.subscriptions topic)
      ∧ ∀ s ∈ b.subscriptions topic, s.serial ∉ finished ∨ topic ≠ t →
        s ∈ (b.endDelivery t edition finished).subscriptions topic := by
  unfold Bus.subscriptions
  obtain same | ⟨own, r, roster, left⟩ := (endDelivery_same b t edition finished).2.2 topic
  · rw [same]
    exact ⟨List.Sublist.refl _, fun _ member _ => member⟩
  · rw [roster, left]
    refine ⟨List.filter_sublist, fun s member kept => List.mem_filter.mpr ⟨member, ?_⟩⟩
    obtain unfinished | other := kept
    · simpa using unfinished
    · exact absurd own other

/-- Listeners hear an event that nobody has consumed before its delivery begins. -/
theorem deliver_attended (p : Publication)
    (passive : ∀ s ∈ scene.bus.subscriptions p.event.topic, Passive (host.listen s.listener p))
    (serials : ((scene.bus.subscriptions p.event.topic).map (·.serial)).Nodup)
    (unconsumed : scene.bus.isHeard p.event.topic = true → scene.bus.isConsumed p = false) :
    ∃ after, Bus.deliver host p scene = .ok () after ∧ Heard p.event scene after := by
  have read : Play.bus scene = .ok scene.bus scene := rfl
  have unheard (none : scene.bus.subscriptions p.event.topic = []) : Heard p.event scene scene := by
    refine ⟨rfl, rfl, rfl, ⟨[], (List.append_nil _).symm, List.nil_sublist _, ?_⟩,
      fun _ => List.Sublist.refl _, fun _ _ member _ _ => member⟩
    rw [none]
    exact List.Sublist.refl _
  rw [Bus.deliver, Play.bind_ok read]
  cases roster : scene.bus.rosters p.event.topic with
  | none => exact ⟨scene, rfl, unheard (by rw [Bus.subscriptions, roster]; rfl)⟩
  | some r =>
    have listed : scene.bus.subscriptions p.event.topic = r.subscriptions := by
      rw [Bus.subscriptions, roster]
      rfl
    dsimp only
    split
    next none => exact ⟨scene, rfl, unheard (listed.trans (List.isEmpty_iff.mp none))⟩
    next some =>
      have calm : scene.bus.isConsumed p = false := by
        apply unconsumed
        rw [Bus.isHeard, listed, Bool.not_eq_true', ← Bool.not_eq_true]
        exact some
      let begun : Scene η δ := { scene with bus := scene.bus.beginDelivery r }
      have began : Play.changeBus (·.beginDelivery r) scene = .ok () begun := rfl
      rw [listed] at passive serials
      obtain ⟨finished, called, c, hearers, done, dialogue, bus, signs, within, strong, ended⟩ :=
        @callEach_attended _ _ host begun p r.subscriptions passive calm
      let closed : Scene η δ :=
        { called with bus := called.bus.endDelivery p.event.topic r.edition finished }
      have endedDelivery : Play.changeBus (·.endDelivery p.event.topic r.edition finished) called
          = .ok () closed := rfl
      rw [Play.bind_ok began, Play.bind_ok done, endedDelivery]
      have rosters (topic : Topic) : called.bus.subscriptions topic
          = scene.bus.subscriptions topic := by
        rw [bus]
        rfl
      refine ⟨closed, rfl, dialogue, ?_, ?_, ⟨hearers, signs, ?_, ?_⟩, fun topic => ?_, ?_⟩
      · exact (endDelivery_same _ _ _ _).1.trans (by rw [bus]; rfl)
      · exact (endDelivery_same _ _ _ _).2.1.trans (by rw [bus]; rfl)
      · rw [listed]
        exact within
      · rw [listed]
        exact strong
      · rw [← rosters topic]
        exact (subscriptions_endDelivery called.bus p.event.topic r.edition finished topic).1
      · intro topic s member many strongly
        rw [← rosters topic] at member
        refine (subscriptions_endDelivery called.bus p.event.topic r.edition finished topic).2 s
          member ?_
        -- serials differ, so what is finished is no lasting subscription
        by_cases same : topic = p.event.topic
        · refine .inl fun finishedToo => ?_
          subst same
          rw [rosters, listed] at member
          obtain ⟨t, inside, number, gone⟩ := ended _ finishedToo
          cases List.inj_on_of_nodup_map serials inside member number
          rcases gone with once | weak
          · rw [many] at once
            cases once
          · rw [strongly] at weak
            cases weak
        · exact .inr same

theorem publish_attended (attended : Attended host scene) (notice : Notice) :
    ∃ after, Dialogue.publish host notice scene = .ok () after
      ∧ Heard notice.toEvent scene after := by
  let e := notice.toEvent
  let p : Publication := ⟨scene.bus.issued, e⟩
  let busy : Scene η δ := { scene with bus := scene.bus.beginDispatch e.topic }
  have subscriptions (topic : Topic) : busy.bus.subscriptions topic
      = scene.bus.subscriptions topic := Bus.subscriptions_beginDispatch ..
  obtain ⟨heard, delivered, hears⟩ := @deliver_attended _ _ host busy p
    (fun s member => attended.listeners _ s (subscriptions _ ▸ member) _)
    (subscriptions _ ▸ attended.serials _)
    fun some => Bus.isConsumed_beginDispatch (by
      rw [Bus.isHeard, subscriptions] at some
      exact some)
  have none : heard.bus.queue = [] :=
    hears.queue.trans ((Bus.queue_beginDispatch ..).trans attended.empty)
  have waiting : Bus.deliverQueue host host.steps heard = .ok () heard := by
    have read : Play.bus heard = .ok heard.bus heard := rfl
    rw [Bus.deliverQueue.eq_def, Play.bind_ok read, none]
    rfl
  let after : Scene η δ := { heard with bus := { heard.bus with delivering := false } }
  let answer := if scene.bus.isHeard e.topic then some p else Option.none
  have published : Bus.publish host e scene = .ok answer after := by
    have read : Play.bus scene = .ok scene.bus scene := rfl
    rw [Bus.publish, Play.bind_ok read, attended.idle, if_neg Bool.noConfusion]
    have begun : Play.changeBus (·.beginDispatch e.topic) scene = .ok () busy := rfl
    rw [Play.bind_ok begun, Play.bind_ok delivered, Play.bind_ok waiting]
    rfl
  refine ⟨after, ?_, hears.dialogue, attended.idle.symm, none.trans attended.empty.symm, ?_, ?_, ?_⟩
  · rw [Dialogue.publish, Play.bind_ok published]
    rfl
  · obtain ⟨hearers, signs, within, strong⟩ := hears.signs
    rw [subscriptions] at within strong
    exact ⟨hearers, signs, within, strong⟩
  · intro topic
    rw [← subscriptions topic]
    exact hears.fewer topic
  · intro topic s member
    rw [← subscriptions topic] at member
    exact hears.lasting topic s member

/-! ### Announcing -/

/-- Everyone is told of something: participants before listeners, but for a request. -/
def Notice.Reaches (notice : Notice) (scene after : Scene η δ) : Prop :=
  match notice with
  | .requested _ => ∃ between, Heard notice.toEvent scene between ∧ Told notice between after
  | _ => ∃ between, Told notice scene between ∧ Heard notice.toEvent between after

theorem Told.attended {notice : Notice} (told : Told notice scene after)
    (attended : Attended host scene) : Attended host after :=
  attended.of_same (by rw [told.dialogue]) told.bus

theorem Heard.attended {e : Event} (heard : Heard e scene after)
    (attended : Attended host scene) : Attended host after := by
  refine ⟨?_, fun topic s member => ?_, fun topic => ?_, heard.idle.trans attended.idle,
    heard.queue.trans attended.empty⟩
  · rw [heard.dialogue]
    exact attended.participants
  · exact attended.listeners topic s ((heard.fewer topic).subset member)
  · exact (attended.serials topic).sublist ((heard.fewer topic).map _)

theorem Notice.Reaches.attended {notice : Notice} (reaches : notice.Reaches scene after)
    (attended : Attended host scene) : Attended host after := by
  cases notice with
  | requested name =>
    obtain ⟨between, heard, told⟩ := reaches
    exact told.attended (heard.attended attended)
  | _ =>
    obtain ⟨between, told, heard⟩ := reaches
    exact heard.attended (told.attended attended)

theorem Notice.Reaches.dialogue {notice : Notice} (reaches : notice.Reaches scene after) :
    after.dialogue = scene.dialogue := by
  cases notice with
  | requested name =>
    obtain ⟨between, heard, told⟩ := reaches
    exact told.dialogue.trans heard.dialogue
  | _ =>
    obtain ⟨between, told, heard⟩ := reaches
    exact heard.dialogue.trans told.dialogue

theorem announce_attended (attended : Attended host scene) {notice : Notice}
    (other : ∀ name, notice ≠ .requested name) :
    ∃ after, Dialogue.announce host notice scene = .ok () after
      ∧ notice.Reaches scene after := by
  obtain ⟨between, said, told⟩ := tellAll_attended attended notice
  obtain ⟨after, published, heard⟩ := publish_attended (told.attended attended) notice
  refine ⟨after, (Play.bind_ok said).trans published, ?_⟩
  cases notice with
  | requested name => exact absurd rfl (other name)
  | _ => exact ⟨between, told, heard⟩

theorem request_attended (attended : Attended host scene) (name : String) :
    ∃ after, Dialogue.request host name scene = .ok () after
      ∧ (Notice.requested name).Reaches scene after := by
  obtain ⟨between, published, heard⟩ := publish_attended attended (.requested name)
  obtain ⟨after, said, told⟩ := tellAll_attended (heard.attended attended) (.requested name)
  exact ⟨after, (Play.bind_ok published).trans said, between, heard, told⟩

/-! ### What happens -/

/-- Something that happens in a scene and shows in its journal: a notice that is raised, a remark on a
step of the script, or another entry of the log. -/
inductive Happening where
  | raised (notice : Notice)
  | remarked (level : Level) (node : Node) (message : String)
  | logged (entry : LogEntry)

/-- The entry of the log that something is, in a dialogue of some name. -/
def Happening.entry? (name : String) : Happening → Option LogEntry
  | .raised _ => none
  | .remarked level node message =>
    some ⟨level, "Error in " ++ name ++ " line " ++ node.line.display ++ ": " ++ message⟩
  | .logged entry => some entry

/-- A scene that nobody who attends can tell from another, whatever became of the dialogue. -/
structure Scene.Blank (scene after : Scene η δ) : Prop where
  participants : after.dialogue.participants = scene.dialogue.participants
  bus : after.bus = scene.bus
  signs : after.signs = scene.signs

/-- `Unfolds scene happenings after`: from a scene to the one after it these things happened, in this
order, and everyone was told of each notice in turn. -/
inductive Unfolds : Scene η δ → List Happening → Scene η δ → Prop where
  | still {scene after : Scene η δ} (blank : scene.Blank after) : Unfolds scene [] after
  | raised {scene start between after : Scene η δ} {notice : Notice} {rest : List Happening}
      (blank : scene.Blank start) (reaches : notice.Reaches start between)
      (later : Unfolds between rest after) : Unfolds scene (.raised notice :: rest) after
  | entered {scene start between after : Scene η δ} {h : Happening} {entry : LogEntry}
      {rest : List Happening} (blank : scene.Blank start)
      (shows : h.entry? start.dialogue.name = some entry)
      (entered : between = { start with journal := start.journal ++ [.logged entry] })
      (later : Unfolds between rest after) : Unfolds scene (h :: rest) after

theorem Scene.Blank.refl (scene : Scene η δ) : scene.Blank scene :=
  ⟨rfl, rfl, rfl⟩

theorem Scene.Blank.trans (first : scene.Blank between) (second : between.Blank after) :
    scene.Blank after :=
  ⟨second.participants.trans first.participants, second.bus.trans first.bus,
    second.signs.trans first.signs⟩

theorem Scene.Blank.attended (blank : scene.Blank after) (attended : Attended host scene) :
    Attended host after :=
  attended.of_same blank.participants blank.bus

namespace Unfolds

variable {happenings more : List Happening}

theorem refl (scene : Scene η δ) : Unfolds scene [] scene :=
  .still (.refl scene)

theorem of_blank (blank : scene.Blank between) (unfolds : Unfolds between happenings after) :
    Unfolds scene happenings after := by
  cases unfolds with
  | still more => exact .still (blank.trans more)
  | raised more reaches later => exact .raised (blank.trans more) reaches later
  | entered more shows entered later => exact .entered (blank.trans more) shows entered later

theorem trans (first : Unfolds scene happenings between) (second : Unfolds between more after) :
    Unfolds scene (happenings ++ more) after := by
  induction first with
  | still blank => exact second.of_blank blank
  | raised blank reaches _ ih => exact .raised blank reaches (ih second)
  | entered blank shows entered _ ih => exact .entered blank shows entered (ih second)

theorem single {notice : Notice} (reaches : notice.Reaches scene after) :
    Unfolds scene [.raised notice] after :=
  .raised (.refl scene) reaches (.refl after)

theorem enter (scene : Scene η δ) {h : Happening} {entry : LogEntry}
    (shows : h.entry? scene.dialogue.name = some entry) :
    Unfolds scene [h] { scene with journal := scene.journal ++ [.logged entry] } :=
  .entered (.refl scene) shows rfl (.refl _)

theorem attended (unfolds : Unfolds scene happenings after) (here : Attended host scene) :
    Attended host after := by
  induction unfolds with
  | still blank => exact blank.attended here
  | raised blank reaches _ ih => exact ih (reaches.attended (blank.attended here))
  | entered blank _ entered _ ih =>
    exact ih ((blank.attended here).of_same (by rw [entered]) (by rw [entered]))

theorem participants (unfolds : Unfolds scene happenings after) :
    after.dialogue.participants = scene.dialogue.participants := by
  induction unfolds with
  | still blank => exact blank.participants
  | raised blank reaches _ ih => rw [ih, reaches.dialogue, blank.participants]
  | entered blank _ entered _ ih =>
    rw [ih, entered]
    exact blank.participants

end Unfolds

theorem requests_attended (attended : Attended host scene) (names : List String) :
    ∃ asked, names.forM (Dialogue.request host) scene = .ok () asked
      ∧ asked.dialogue = scene.dialogue
      ∧ Unfolds scene (names.map fun name => .raised (.requested name)) asked := by
  induction names generalizing scene with
  | nil => exact ⟨scene, rfl, rfl, .refl scene⟩
  | cons name rest ih =>
    obtain ⟨told, first, reaches⟩ := request_attended attended name
    obtain ⟨asked, others, same, unfolds⟩ := ih (reaches.attended attended)
    exact ⟨asked, (Play.bind_ok first).trans others, same.trans reaches.dialogue,
      .raised (.refl scene) reaches unfolds⟩

end Colloquy
