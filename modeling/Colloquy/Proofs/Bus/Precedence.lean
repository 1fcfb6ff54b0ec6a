import Colloquy.Proofs.Bus.OneShot
/-!
# Precedence

The subscriptions to a topic are kept in the order in which their listeners are called: higher
priorities first, and of one priority the older first. A new subscription is put where it belongs, and
whatever is removed, by whom and when it may be, what is left is in order. A delivery goes through the
subscriptions that its topic has when it begins, from the first to the last.
-/

namespace Colloquy

/-- Whether a subscription comes before another one to its topic: it is of a higher priority, or of the
same one and older. -/
def Subscription.Precedes (s t : Subscription) : Prop :=
  t.priority < s.priority ∨ t.priority = s.priority ∧ s.serial < t.serial

namespace Bus

variable {η δ α β : Type} {host : Host η δ} {e : Event} {p : Publication}
  {scene between after last : Scene η δ} {b b' : Bus} {s : Subscription}

/-- Every topic has its subscriptions in the order of precedence. A serial is given once, and each is
greater than those given before it. -/
structure Ranked (b : Bus) : Prop where
  given : ∀ t, ∀ s ∈ b.subscriptions t, s.serial < b.fresh
  sorted : ∀ t, (b.subscriptions t).Pairwise Subscription.Precedes

/-! ### Calls of the bus -/

/-- A new subscription is put where it belongs. -/
theorem sorted_enrol {ss : List Subscription} (newer : ∀ t ∈ ss, t.serial < s.serial)
    (sorted : ss.Pairwise Subscription.Precedes) :
    (enrol s ss).Pairwise Subscription.Precedes := by
  induction ss with
  | nil => exact List.pairwise_singleton _ _
  | cons t rest ih =>
    obtain ⟨first, others⟩ := List.pairwise_cons.1 sorted
    obtain ⟨older, later⟩ := List.forall_mem_cons.1 newer
    rw [enrol]
    split
    next higher =>
      refine List.pairwise_cons.2 ⟨List.forall_mem_cons.2 ⟨.inl higher, fun u member => .inl ?_⟩,
        sorted⟩
      obtain lower | ⟨equal, _⟩ := first u member
      · exact Int.lt_trans lower higher
      · exact equal ▸ higher
    next lower =>
      refine List.pairwise_cons.2 ⟨fun u member => ?_, ih later others⟩
      obtain rfl | old := List.mem_cons.1 ((perm_enrol s rest).mem_iff.1 member)
      · obtain below | equal := Int.lt_or_eq_of_le (Int.not_lt.1 lower)
        · exact .inl below
        · exact .inr ⟨equal, older⟩
      · exact first u old

theorem subscriptions_subscribe (b : Bus) (t : Topic) (l : Nat) (p : Int) (o w : Bool)
    (topic : Topic) : (b.subscribe t l p o w).subscriptions topic
      = if topic = t then enrol ⟨b.fresh, l, p, o, w⟩ (b.subscriptions topic)
        else b.subscriptions topic := by
  by_cases own : topic = t
  · subst own
    simp only [Bus.subscribe, Bus.subscriptions, setRoster, if_true]
    cases b.rosters topic <;> rfl
  · simp only [Bus.subscribe, Bus.subscriptions, setRoster, if_neg own]

/-- No other call adds to the subscriptions of a topic or moves any of them. -/
theorem Call.fewer (c : Call) (other : ∀ t l p o w, c ≠ .subscribe t l p o w) (known : Nat → Bool)
    (b : Bus) (t : Topic) : ((c.change known b).subscriptions t).Sublist (b.subscriptions t) := by
  have how := (c.reworked known b).2 t
  rw [Bus.subscriptions, Bus.subscriptions]
  generalize (c.change known b).rosters t = roster at how
  cases how with
  | same => exact .refl _
  | joined _ own =>
    obtain ⟨l, p, o, w, subscribes⟩ := own
    exact absurd subscribes (other t l p o w)
  | begun own =>
    obtain ⟨l, p, o, w, subscribes⟩ := own
    exact absurd subscribes (other t l p o w)
  | thinned old _ kept =>
    rw [old]
    exact kept
  | removed => exact List.nil_sublist _

namespace Ranked

theorem empty : Ranked {} :=
  ⟨fun _ _ none => (by cases none), fun _ => .nil⟩

/-- Whatever is removed, what is left is in order. -/
theorem thinned (ranked : Ranked b) (fresh : b.fresh ≤ b'.fresh)
    (fewer : ∀ t, (b'.subscriptions t).Sublist (b.subscriptions t)) : Ranked b' where
  given t s member := (ranked.given t s ((fewer t).subset member)).trans_le fresh
  sorted t := (ranked.sorted t).sublist (fewer t)

theorem of_same (ranked : Ranked b) (fresh : b'.fresh = b.fresh)
    (rosters : b'.rosters = b.rosters) : Ranked b' :=
  ranked.thinned (Nat.le_of_eq fresh.symm) fun t => by
    rw [Bus.subscriptions, Bus.subscriptions, rosters]

theorem subscribe (ranked : Ranked b) (t : Topic) (l : Nat) (p : Int) (o w : Bool) :
    Ranked (b.subscribe t l p o w) where
  given topic s member := by
    have fresh : b.fresh < (b.subscribe t l p o w).fresh := (reworked_subscribe t l p o w b).1
    rw [subscriptions_subscribe] at member
    split at member
    · obtain rfl | old := List.mem_cons.1 ((perm_enrol _ _).mem_iff.1 member)
      · exact fresh
      · exact (ranked.given topic s old).trans fresh
    · exact (ranked.given topic s member).trans fresh
  sorted topic := by
    rw [subscriptions_subscribe]
    split
    · exact sorted_enrol (ranked.given topic) (ranked.sorted topic)
    · exact ranked.sorted topic

/-- Every call of the bus keeps the order. -/
theorem change (ranked : Ranked b) (c : Call) (known : Nat → Bool) : Ranked (c.change known b) := by
  cases c with
  | subscribe t l p o w => exact ranked.subscribe t l p o w
  | _ =>
    exact ranked.thinned (Call.reworked _ known b).1
      (Call.fewer _ (fun _ _ _ _ _ equal => by cases equal) known b)

theorem endDelivery (ranked : Ranked b) (t : Topic) (edition : Nat) (finished : List Nat) :
    Ranked (b.endDelivery t edition finished) :=
  ranked.thinned (Nat.le_of_eq (fresh_endDelivery b t edition finished).symm) fun u =>
    (subscriptions_endDelivery b t edition finished u).1

theorem uses {calls : List Call} (ranked : Ranked scene.bus)
    (uses : Uses host.knows scene calls after) : Ranked after.bus :=
  uses.keeps (fun c _ known _ ranked => ranked.change c known) ranked

end Ranked

/-! ### Deliveries -/

/-- All through the turn of a subscription the bus is ranked, whatever its listener has done so far. -/
structure Turn.Ranks (host : Host η δ) (p : Publication) (t : Turn η δ) : Prop where
  before : Ranked t.before.bus
  during : ∀ calls between,
    Uses host.knows (addressed t.before t.subscription.listener p) calls between → Ranked between.bus
  after : Ranked t.after.bus

theorem Turn.Makes.ranks {t : Turn η δ} {calls : List Call} (makes : t.Makes host p calls)
    (before : Ranked t.before.bus) : t.Ranks host p where
  before := before
  during _ _ uses := by
    have called : Ranked (addressed t.before t.subscription.listener p).bus :=
      before.of_same rfl rfl
    exact called.uses uses
  after := makes.keeps (fun c _ known _ ranked => ranked.change c known)
    (fun _ _ ranked => ranked.of_same rfl rfl) before

theorem Turns.ranks {ss : List Subscription} {turns : List (Turn η δ)} {calls : List (List Call)}
    (taken : Turns host p ss scene turns last) (makes : Made host p turns calls)
    (before : Ranked scene.bus) : (∀ t ∈ turns, t.Ranks host p) ∧ Ranked last.bus := by
  induction taken generalizing calls with
  | done => exact ⟨List.forall_mem_nil _, before⟩
  | passed gone later ih =>
    obtain _ | ⟨first, others⟩ := makes
    have ranks := first.ranks before
    obtain ⟨turns, last⟩ := ih others ranks.after
    exact ⟨List.forall_mem_cons.2 ⟨ranks, turns⟩, last⟩
  | consumed live called _ =>
    obtain _ | ⟨first, _ | _⟩ := makes
    have ranks := first.ranks before
    exact ⟨List.forall_mem_cons.2 ⟨ranks, List.forall_mem_nil _⟩, ranks.after⟩
  | left live called _ later ih =>
    obtain _ | ⟨first, others⟩ := makes
    have ranks := first.ranks before
    obtain ⟨turns, last⟩ := ih others ranks.after
    exact ⟨List.forall_mem_cons.2 ⟨ranks, turns⟩, last⟩

theorem Delivers.ranks {turns : List (Turn η δ)} {calls : List (List Call)}
    (delivers : Delivers host p scene turns after) (makes : Made host p turns calls)
    (before : Ranked scene.bus) : (∀ t ∈ turns, t.Ranks host p) ∧ Ranked after.bus := by
  cases delivers with
  | unheard none => exact ⟨List.forall_mem_nil _, before⟩
  | heard roster taken =>
    obtain ⟨turns, last⟩ := taken.ranks makes (before.of_same rfl rfl)
    exact ⟨turns, last.endDelivery _ _ _⟩

/-- All through a delivery the bus is ranked, and the subscriptions whose listeners are called, in the
order in which they are, are in the order of precedence. -/
structure Delivery.ByRank (host : Host η δ) (d : Delivery η δ) : Prop where
  before : Ranked d.before.bus
  turns : ∀ t ∈ d.turns, t.Ranks host d.publication
  after : Ranked d.after.bus
  called : (d.called host).Pairwise Subscription.Precedes

theorem Delivery.Proper.byRank {d : Delivery η δ} (proper : d.Proper host)
    (before : Ranked d.before.bus) : d.ByRank host := by
  have listed : (d.called host).Sublist (d.before.bus.subscriptions d.event.topic) :=
    (calledIn_sublist d.turns).trans proper.delivers.served.inOrder.sublist
  obtain ⟨turns, after⟩ := proper.delivers.ranks proper.makes before
  exact ⟨before, turns, after, (before.sorted _).sublist listed⟩

theorem Drains.byRank {ds : List (Delivery η δ)} (drains : Drains host scene ds last)
    (before : Ranked scene.bus) : (∀ d ∈ ds, d.ByRank host) ∧ Ranked last.bus := by
  induction drains with
  | empty => exact ⟨List.forall_mem_nil _, before⟩
  | next _ begins proper _ ih =>
    have byRank := proper.byRank (before.of_same (by rw [begins]) (by rw [begins]))
    obtain ⟨others, last⟩ := ih byRank.after
    exact ⟨List.forall_mem_cons.2 ⟨byRank, others⟩, last⟩

theorem Dispatch.byRank {ds : List (Delivery η δ)} (dispatch : Dispatch host scene e ds after)
    (before : Ranked scene.bus) : (∀ d ∈ ds, d.ByRank host) ∧ Ranked after.bus := by
  cases dispatch with
  | publish own begins proper later =>
    have byRank := proper.byRank (before.of_same
      (by rw [begins]; exact fresh_beginDispatch ..) (by rw [begins]; exact rosters_beginDispatch ..))
    obtain ⟨others, last⟩ := later.byRank byRank.after
    exact ⟨List.forall_mem_cons.2 ⟨byRank, others⟩, last.of_same rfl rfl⟩

theorem Course.byRank {ds : List (Delivery η δ)} (course : Course host ds scene) :
    (∀ d ∈ ds, d.ByRank host) ∧ Ranked scene.bus := by
  induction course with
  | made bus =>
    rw [bus]
    exact ⟨List.forall_mem_nil _, .empty⟩
  | elsewhere _ bus ih =>
    rw [bus]
    exact ih
  | call _ c _ ih => exact ⟨ih.1, ih.2.change c _⟩
  | publish _ _ dispatch ih =>
    obtain ⟨more, after⟩ := dispatch.byRank ih.2
    exact ⟨List.forall_mem_append.2 ⟨ih.1, more⟩, after⟩

/-! ### Publications that do not return -/

/-- Whether a bus is ranked while it delivers. -/
structure RankedBusy (b : Bus) : Prop where
  busy : b.delivering = true
  ranked : Ranked b

/-- Something played that leaves such a bus if it begins with one, also if it fails. -/
def KeepsRank (x : Play η δ α) : Prop :=
  ∀ scene, RankedBusy scene.bus → RankedBusy (x.leaves scene).bus

namespace KeepsRank

theorem of_change {x : Play η δ α} (bus : ∀ scene, (x.leaves scene).bus = scene.bus) :
    KeepsRank x := by
  intro scene ranked
  rw [bus]
  exact ranked

/-- What comes after something that keeps a bus ranked begins with such a bus, if it begins at all. -/
theorem leaves_bind {x : Play η δ α} {k : α → Play η δ β} {P : Bus → Prop} (first : KeepsRank x)
    (weaker : ∀ b, RankedBusy b → P b)
    (later : ∀ a scene, RankedBusy scene.bus → P ((k a).leaves scene).bus) (scene : Scene η δ)
    (ranked : RankedBusy scene.bus) : P ((x >>= k).leaves scene).bus := by
  have between := first scene ranked
  cases played : x scene with
  | error f after =>
    rw [Play.leaves, played] at between
    rw [Play.leaves, Play.bind_error played]
    exact weaker _ between
  | ok a after =>
    rw [Play.leaves, played] at between
    rw [Play.leaves, Play.bind_ok played]
    exact later a after between

theorem bind {x : Play η δ α} {k : α → Play η δ β} (first : KeepsRank x)
    (later : ∀ a, KeepsRank (k a)) : KeepsRank (x >>= k) :=
  first.leaves_bind (fun _ => id) later

theorem changeBus {f : Bus → Bus} (each : ∀ b, RankedBusy b → RankedBusy (f b)) :
    KeepsRank (Play.changeBus f : Play η δ Unit) :=
  fun scene ranked => each scene.bus ranked

/-- What is done about a failure may leave the bus alone. -/
theorem bus_leaves_catch {x : Play η δ α} {h : Fault → Play η δ α}
    (aside : ∀ f scene, ((h f).leaves scene).bus = scene.bus) (scene : Scene η δ) :
    ((tryCatch x h : Play η δ α).leaves scene).bus = (x.leaves scene).bus := by
  cases played : x scene with
  | ok a after => rw [Play.leaves, Play.leaves, Play.tryCatch_ok played, played]
  | error f after =>
    have handled := aside f after
    rw [Play.leaves] at handled
    rw [Play.leaves, Play.leaves, Play.tryCatch_error played, handled, played]

theorem call (fair : Fair host) (p : Publication) (listener : Nat) :
    KeepsRank (call host p listener) := by
  intro scene ranked
  obtain ⟨calls, uses⟩ := fair listener p (addressed scene listener p) ranked.busy
  have called : Ranked (addressed scene listener p).bus := ranked.ranked.of_same rfl rfl
  have left : RankedBusy ((host.listen listener p).leaves (addressed scene listener p)).bus :=
    ⟨uses.delivering.trans ranked.busy, called.uses uses⟩
  change RankedBusy ((tryCatch (host.listen listener p) _ : Play η δ Unit).leaves
    (addressed scene listener p)).bus
  -- a failure is logged, unless the listener never ends
  rw [bus_leaves_catch fun f scene => by cases f <;> rfl]
  exact left

theorem callEach (fair : Fair host) (p : Publication) (ss : List Subscription) :
    KeepsRank (callEach host p ss) := by
  induction ss with
  | nil => exact of_change fun _ => rfl
  | cons s rest ih =>
    rw [Bus.callEach]
    refine bind (of_change fun _ => rfl) fun scene => ?_
    split
    · refine bind (call fair p s.listener) fun _ => bind (of_change fun _ => rfl) fun b => ?_
      split
      · exact of_change fun _ => rfl
      · exact bind ih fun _ => of_change fun _ => rfl
    · refine bind (changeBus fun b ranked => ⟨ranked.busy, ranked.ranked.of_same rfl rfl⟩) fun _ => ?_
      exact bind ih fun _ => of_change fun _ => rfl

theorem deliver (fair : Fair host) (p : Publication) : KeepsRank (deliver host p) := by
  rw [Bus.deliver]
  refine bind (of_change fun _ => rfl) fun b => ?_
  split
  · exact of_change fun _ => rfl
  · split
    · exact of_change fun _ => rfl
    · have begins := changeBus (η := η) (δ := δ) (f := (·.beginDelivery ‹Roster›))
        fun b ranked => ⟨ranked.busy, ranked.ranked.of_same rfl rfl⟩
      refine bind begins fun _ => bind (callEach fair p _) fun finished => ?_
      refine changeBus fun b ranked => ?_
      exact ⟨(endDelivery_same _ _ _ _).1.trans ranked.busy, ranked.ranked.endDelivery _ _ _⟩

theorem deliverQueue (fair : Fair host) (fuel : Nat) : KeepsRank (deliverQueue host fuel) := by
  induction fuel with
  | zero =>
    rw [Bus.deliverQueue]
    refine bind (of_change fun _ => rfl) fun b => ?_
    split <;> exact of_change fun _ => rfl
  | succ fuel ih =>
    rw [Bus.deliverQueue]
    refine bind (of_change fun _ => rfl) fun b => ?_
    split
    · exact of_change fun _ => rfl
    · refine bind (changeBus fun b ranked => ⟨ranked.busy, ranked.ranked.of_same rfl rfl⟩) fun _ => ?_
      exact bind (deliver fair _) fun _ => ih

end KeepsRank

/-- Whatever publishing an event leaves is ranked, whether it returns or not. -/
theorem Ranked.publish (fair : Fair host) (ranked : Ranked scene.bus) (e : Event) :
    Ranked ((Bus.publish host e).leaves scene).bus := by
  have read : Play.bus scene = .ok scene.bus scene := rfl
  by_cases delivering : scene.bus.delivering = true
  · rw [Play.leaves, publish_delivering delivering]
    exact ranked.of_same rfl rfl
  · have begins : Play.changeBus (·.beginDispatch e.topic) scene = .ok () (busy scene e.topic) := rfl
    rw [Play.leaves, Bus.publish, Play.bind_ok read, if_neg delivering, Play.bind_ok begins]
    have busied : RankedBusy (busy scene e.topic).bus :=
      ⟨rfl, ranked.of_same (fresh_beginDispatch ..) (rosters_beginDispatch ..)⟩
    refine (KeepsRank.deliver fair _).leaves_bind (fun _ => RankedBusy.ranked) ?_ _ busied
    refine fun _ => (KeepsRank.deliverQueue fair host.steps).leaves_bind
      (fun _ => RankedBusy.ranked) fun _ scene ranked => ?_
    exact ranked.ranked.of_same rfl rfl

/-- In whatever order subscribing, unsubscribing, clearing and publishing are called, also by listeners
while they are called themselves: every topic has its subscriptions in the order of precedence at all
times, and in every delivery the listeners are called in this order. -/
theorem listeners_called_by_rank (fair : Fair host) {past : List (Delivery η δ)}
    (course : Course host past scene) :
    Ranked scene.bus ∧ (∀ d ∈ past, d.ByRank host)
      ∧ ∀ e, Ranked ((Bus.publish host e).leaves scene).bus
        ∧ ∀ held after, Bus.publish host e scene = .ok held after →
          ∃ ds, Dispatch host scene e ds after ∧ (∀ d ∈ ds, d.ByRank host)
            ∧ after.heard = scene.heard
              ++ ds.flatMap (fun d => (d.called host).map fun s => (s.listener, d.event))
            ∧ Course host (past ++ ds) after := by
  obtain ⟨byRank, ranked⟩ := course.byRank
  refine ⟨ranked, byRank, fun e => ⟨ranked.publish fair e, fun held after returned => ?_⟩⟩
  obtain ⟨ds, dispatch, inOrder, further⟩ := course.extend fair returned
  exact ⟨ds, dispatch, (dispatch.byRank ranked).1, inOrder.heard, further⟩

/-- A scene with three listeners, the second of which enrols a fourth one of a higher priority when it
is called, and publishes the event again. -/
def parade : Scene Cast Deed where
  dialogue := { graph := ⟨"", [], none, none, []⟩ }
  bus := (((({} : Bus).subscribe .starting 0 0 false false).subscribe .starting 1 5 false
    false).subscribe .starting 2 5 false false)
  host := { hearers := [⟨"a", 2, [], 0⟩,
    ⟨"b", 1, [.subscribe { name := "d", topic := .starting, priority := 9 },
      .publish { topic := .starting }], 0⟩, ⟨"c", 2, [], 0⟩] }

/-- The fourth listener is called for the second event, before the others. -/
theorem parade_by_rank : Fair (Cast.hostOf 2) ∧ Course (Cast.hostOf 2) [] parade
    ∧ ∃ ds held after, Bus.publish (Cast.hostOf 2) { topic := .starting } parade = .ok held after
      ∧ Dispatch (Cast.hostOf 2) parade { topic := .starting } ds after
      ∧ (∀ d ∈ ds, d.ByRank (Cast.hostOf 2))
      ∧ after.heard.map (·.1) = [1, 2, 0, 3, 1, 2, 0] := by
  have made : Course (Cast.hostOf 2) [] { parade with bus := {} } := .made rfl
  have course : Course (Cast.hostOf 2) [] parade :=
    ((made.call (.subscribe .starting 0 0 false false) rfl).call
      (.subscribe .starting 1 5 false false) rfl).call (.subscribe .starting 2 5 false false) rfl
  have plays : ((Bus.publish (Cast.hostOf 2) { topic := .starting }).done? parade).any (fun r =>
      r.2.heard.map (·.1) = [1, 2, 0, 3, 1, 2, 0]) = true := by
    decide +kernel
  obtain ⟨⟨held, after⟩, done, heard⟩ := (Option.any_eq_true _ _).1 plays
  have returned := Play.of_done? done
  obtain ⟨_, _, publishes⟩ := listeners_called_by_rank (Cast.hostOf_fair 2) course
  obtain ⟨ds, dispatch, byRank, _⟩ := (publishes { topic := .starting }).2 _ _ returned
  exact ⟨Cast.hostOf_fair 2, course, ds, held, after, returned, dispatch, byRank,
    of_decide_eq_true heard⟩

end Bus

end Colloquy
