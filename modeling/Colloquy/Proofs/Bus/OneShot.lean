import Colloquy.Proofs.Bus.Deliveries
/-!
# Subscriptions for one event

Every subscription has a serial of its own, which is never given again. A subscription for one event is
finished with its first call, and what is finished in a delivery is removed when it ends, unless the
roster was replaced meanwhile by one that still has the subscription. Only unsubscribing from the topic
does that.
-/

namespace Colloquy.Bus

variable {η δ : Type} {host : Host η δ} {e : Event} {p : Publication} {scene after last : Scene η δ}
  {b b' : Bus} {s : Subscription}

/-! ### What a call does to a roster -/

theorem perm_enrol (s : Subscription) (ss : List Subscription) : (enrol s ss).Perm (s :: ss) := by
  induction ss with
  | nil => exact .refl _
  | cons t rest ih =>
    rw [enrol]
    split
    · exact .refl _
    · exact (ih.cons t).trans (.swap s t rest)

/-- What calls can make of the roster of a topic: they leave it, add a new subscription to it or begin
a new one with that, keep part of it as a new one, or remove it. -/
inductive Reworked (b : Bus) (c : Call) (t : Topic) (later : Nat) : Option Roster → Prop where
  | same : Reworked b c t later (b.rosters t)
  | joined {r : Roster} {s : Subscription} {ss : List Subscription} (roster : b.rosters t = some r)
      (own : ∃ l p o w, c = .subscribe t l p o w) (serial : s.serial = b.fresh)
      (fresh : b.fresh < later) (perm : ss.Perm (s :: r.subscriptions)) :
      Reworked b c t later (some ⟨r.edition, ss⟩)
  | begun {s : Subscription} (own : ∃ l p o w, c = .subscribe t l p o w)
      (serial : s.serial = b.fresh) (fresh : b.fresh < later) (edition : Nat) :
      Reworked b c t later (some ⟨edition, [s]⟩)
  | thinned {r : Roster} {ss : List Subscription} (roster : b.rosters t = some r)
      (own : ∃ l, c = .unsubscribe t l) (kept : ss.Sublist r.subscriptions) (edition : Nat) :
      Reworked b c t later (some ⟨edition, ss⟩)
  | removed : Reworked b c t later none

theorem rosters_replaceRoster (b : Bus) (t u : Topic) (r : Option Roster) :
    (b.replaceRoster t r).rosters u = if u = t then r else b.rosters u :=
  rfl

theorem clear_all_rosters (ts : List Topic) (b : Bus) :
    (ts.foldl (fun b t => b.replaceRoster t none) b).fresh = b.fresh
      ∧ ∀ t, (ts.foldl (fun b t => b.replaceRoster t none) b).rosters t
        = if t ∈ ts then none else b.rosters t := by
  induction ts generalizing b with
  | nil => exact ⟨rfl, fun _ => rfl⟩
  | cons u ts ih =>
    obtain ⟨fresh, rosters⟩ := ih (b.replaceRoster u none)
    refine ⟨fresh, fun t => (rosters t).trans ?_⟩
    rw [rosters_replaceRoster]
    by_cases same : t = u <;> simp [same]

theorem reworked_subscribe (u : Topic) (l : Nat) (p : Int) (o w : Bool) (b : Bus) :
    b.fresh < (b.subscribe u l p o w).fresh
      ∧ ∀ t, Reworked b (.subscribe u l p o w) t (b.subscribe u l p o w).fresh
        ((b.subscribe u l p o w).rosters t) := by
  have later : b.fresh < (b.subscribe u l p o w).fresh :=
    Nat.lt_add_of_pos_right (Nat.zero_lt_succ _)
  refine ⟨later, fun t => ?_⟩
  by_cases same : t = u
  · subst same
    cases roster : b.rosters t with
    | none =>
      have here : (b.subscribe t l p o w).rosters t
          = some ⟨b.fresh + 1, [⟨b.fresh, l, p, o, w⟩]⟩ := (if_pos rfl).trans (by rw [roster])
      rw [here]
      exact .begun ⟨l, p, o, w, rfl⟩ rfl later _
    | some r =>
      have here : (b.subscribe t l p o w).rosters t
          = some { r with subscriptions := enrol ⟨b.fresh, l, p, o, w⟩ r.subscriptions } :=
        (if_pos rfl).trans (by rw [roster])
      rw [here]
      exact .joined roster ⟨l, p, o, w, rfl⟩ rfl later (perm_enrol _ _)
  · have there : (b.subscribe u l p o w).rosters t = b.rosters t := if_neg same
    rw [there]
    exact .same

theorem reworked_unsubscribe (u : Topic) (l : Nat) (known : Nat → Bool) (b : Bus) :
    b.fresh ≤ (b.unsubscribe known u l).fresh
      ∧ ∀ t, Reworked b (.unsubscribe u l) t (b.unsubscribe known u l).fresh
        ((b.unsubscribe known u l).rosters t) := by
  rw [Bus.unsubscribe]
  split
  · exact ⟨Nat.le_refl _, fun _ => .same⟩
  next r roster =>
    split
    · exact ⟨Nat.le_refl _, fun _ => .same⟩
    · refine ⟨Nat.le_succ _, fun t => ?_⟩
      dsimp only
      rw [rosters_replaceRoster]
      split
      next same =>
        subst same
        exact .thinned roster ⟨l, rfl⟩ List.filter_sublist _
      · exact .same

theorem reworked_clear (topic : Option Topic) (b : Bus) :
    b.fresh ≤ (b.clear topic).fresh
      ∧ ∀ t, Reworked b (.clear topic) t (b.clear topic).fresh ((b.clear topic).rosters t) := by
  cases topic with
  | some u =>
    refine ⟨Nat.le_refl _, fun t => ?_⟩
    rw [Bus.clear, rosters_replaceRoster]
    split
    · exact .removed
    · exact .same
  | none =>
    obtain ⟨fresh, rosters⟩ := clear_all_rosters Topic.all b
    refine ⟨Nat.le_of_eq fresh.symm, fun t => ?_⟩
    have here : (b.clear none).rosters t = none := (rosters t).trans (if_pos t.mem_all)
    rw [here]
    exact .removed

/-- A call makes of a roster what it can, and serials that were given stay given. -/
theorem Call.reworked (c : Call) (known : Nat → Bool) (b : Bus) :
    b.fresh ≤ (c.change known b).fresh
      ∧ ∀ t, Reworked b c t (c.change known b).fresh ((c.change known b).rosters t) := by
  cases c with
  | subscribe u l p o w =>
    obtain ⟨fresh, reworked⟩ := reworked_subscribe u l p o w b
    exact ⟨fresh.le, reworked⟩
  | unsubscribe u l => exact reworked_unsubscribe u l known b
  | clear topic => exact reworked_clear topic b
  | consume => exact ⟨Nat.le_refl _, fun _ => .same⟩
  | publish e => exact ⟨Nat.le_refl _, fun _ => .same⟩

/-- Who is subscribed after a call was so before, or is the new one that the call subscribes. -/
theorem Call.subscribed (c : Call) {known : Nat → Bool} {t : Topic}
    (there : s ∈ (c.change known b).subscriptions t) : s ∈ b.subscriptions t
      ∨ s.serial = b.fresh ∧ b.fresh < (c.change known b).fresh
        ∧ ∃ l p o w, c = .subscribe t l p o w := by
  have how := (c.reworked known b).2 t
  rw [Bus.subscriptions] at there ⊢
  generalize (c.change known b).rosters t = o at how there
  cases how with
  | same => exact .inl there
  | joined roster own serial fresh perm =>
    obtain rfl | old := List.mem_cons.mp (perm.mem_iff.mp there)
    · exact .inr ⟨serial, fresh, own⟩
    · rw [roster]
      exact .inl old
  | begun own serial fresh =>
    rw [List.mem_singleton.mp there]
    exact .inr ⟨serial, fresh, own⟩
  | thinned roster _ kept =>
    rw [roster]
    exact .inl (kept.subset there)
  | removed => cases there

/-! ### Serials -/

theorem fresh_endDelivery (b : Bus) (t : Topic) (edition : Nat) (finished : List Nat) :
    (b.endDelivery t edition finished).fresh = b.fresh := by
  rw [Bus.endDelivery]
  dsimp only
  split
  · rfl
  · split <;> rfl

/-- Every subscription of a bus has a serial of its own, and none that is still to be given. -/
structure Orderly (b : Bus) : Prop where
  given : ∀ t, ∀ s ∈ b.subscriptions t, s.serial < b.fresh
  once : ∀ t, ((b.subscriptions t).map (·.serial)).Nodup
  apart : ∀ t u, ∀ s ∈ b.subscriptions t, ∀ s' ∈ b.subscriptions u, s.serial = s'.serial → t = u

namespace Orderly

theorem empty : Orderly {} :=
  ⟨fun _ _ none => (by cases none), fun _ => .nil, fun _ _ _ none => (by cases none)⟩

theorem thinned (orderly : Orderly b) (fresh : b'.fresh = b.fresh)
    (fewer : ∀ t, (b'.subscriptions t).Sublist (b.subscriptions t)) : Orderly b' where
  given t s member := fresh ▸ orderly.given t s ((fewer t).subset member)
  once t := (orderly.once t).sublist ((fewer t).map _)
  apart t u s member s' member' :=
    orderly.apart t u s ((fewer t).subset member) s' ((fewer u).subset member')

theorem endDelivery (orderly : Orderly b) (t : Topic) (edition : Nat) (finished : List Nat) :
    Orderly (b.endDelivery t edition finished) :=
  orderly.thinned (fresh_endDelivery b t edition finished) fun u =>
    (subscriptions_endDelivery b t edition finished u).1

theorem change (orderly : Orderly b) (c : Call) (known : Nat → Bool) :
    Orderly (c.change known b) where
  given t s member := by
    obtain old | ⟨serial, fresh, _⟩ := c.subscribed member
    · exact (orderly.given t s old).trans_le (c.reworked known b).1
    · exact serial ▸ fresh
  once t := by
    have old := orderly.once t
    have given := orderly.given t
    have how := (c.reworked known b).2 t
    rw [Bus.subscriptions] at old given ⊢
    generalize (c.change known b).rosters t = o at how
    cases how with
    | same => exact old
    | joined roster _ serial _ perm =>
      rw [roster] at old given
      refine (perm.map _).nodup_iff.mpr (List.nodup_cons.mpr ⟨fun member => ?_, old⟩)
      obtain ⟨s', there, same⟩ := List.mem_map.mp member
      exact Nat.ne_of_lt (given s' there) (same.trans serial)
    | begun => exact List.nodup_singleton _
    | thinned roster _ kept =>
      rw [roster] at old
      exact old.sublist (kept.map _)
    | removed => exact .nil
  apart t u s member s' member' same := by
    obtain old | ⟨serial, _, l, p, o, w, own⟩ := c.subscribed member
      <;> obtain old' | ⟨serial', _, l', p', o', w', own'⟩ := c.subscribed member'
    · exact orderly.apart t u s old s' old' same
    · exact absurd (same.trans serial') (Nat.ne_of_lt (orderly.given t s old))
    · exact absurd (same.symm.trans serial) (Nat.ne_of_lt (orderly.given u s' old'))
    · rw [own] at own'
      injection own'

end Orderly

/-! ### Where a subscription still is -/

/-- The serial has been given, and where a roster has a subscription of that serial, topic and edition
are such as told. -/
structure Kept (n : Nat) (place : Topic → Nat → Prop) (b : Bus) : Prop where
  given : n < b.fresh
  there : ∀ t r, b.rosters t = some r → ∀ s ∈ r.subscriptions, s.serial = n → place t r.edition

/-- No roster has a subscription of the serial, and none will. -/
abbrev Over (n : Nat) : Bus → Prop :=
  Kept n fun _ _ => False

theorem Over.not_mem {n : Nat} {t : Topic} (ended : Over n b) (there : s ∈ b.subscriptions t) :
    s.serial ≠ n := by
  rw [Bus.subscriptions] at there
  cases roster : b.rosters t with
  | none =>
    rw [roster] at there
    cases there
  | some r =>
    rw [roster] at there
    exact ended.there t r roster s there

namespace Kept

variable {n : Nat} {place : Topic → Nat → Prop}

theorem of_same (kept : Kept n place b) (rosters : b'.rosters = b.rosters)
    (fresh : b'.fresh = b.fresh) : Kept n place b' :=
  ⟨fresh ▸ kept.given, rosters ▸ kept.there⟩

/-- Only unsubscribing makes a roster of another edition that still has the subscription. -/
theorem change (kept : Kept n place b) (c : Call) (known : Nat → Bool)
    (leaves : ∀ t l edition, c = .unsubscribe t l → ¬ place t edition) :
    Kept n place (c.change known b) := by
  obtain ⟨fresh, reworked⟩ := c.reworked known b
  refine ⟨kept.given.trans_le fresh, fun t r roster s member serial => ?_⟩
  have how := reworked t
  generalize (c.change known b).rosters t = o at how roster
  have given := kept.given
  cases how with
  | same => exact kept.there t r roster s member serial
  | joined old _ new _ perm =>
    cases roster
    obtain rfl | member := List.mem_cons.mp (perm.mem_iff.mp member)
    · omega
    · have stays := kept.there t _ old s member serial
      exact stays
  | begun _ new =>
    cases roster
    rw [List.mem_singleton.mp member] at serial
    omega
  | thinned old own fewer =>
    cases roster
    obtain ⟨l, own⟩ := own
    exact absurd (kept.there t _ old s (fewer.subset member) serial) (leaves t l _ own)
  | removed => cases roster

theorem endDelivery (kept : Kept n place b) (t : Topic) (edition : Nat) (finished : List Nat) :
    Kept n place (b.endDelivery t edition finished) := by
  refine ⟨(fresh_endDelivery b t edition finished).symm ▸ kept.given, fun u r roster => ?_⟩
  obtain same | ⟨_, r', old, left⟩ := (endDelivery_same b t edition finished).2.2 u
  · exact kept.there u r (same.symm.trans roster)
  · cases left.symm.trans roster
    exact fun s member => kept.there u r' old s (List.mem_of_mem_filter member)

/-- A delivery removes what is finished from the edition that it began with. -/
theorem finish {t : Topic} {edition : Nat} {finished : List Nat}
    (kept : Kept n (fun u edition' => u = t ∧ edition' = edition) b) (ends : n ∈ finished) :
    Over n (b.endDelivery t edition finished) := by
  rw [Bus.endDelivery]
  dsimp only
  split
  next gone =>
    refine ⟨kept.given, fun u r roster s member serial => ?_⟩
    obtain ⟨rfl, _⟩ := kept.there u r roster s member serial
    cases (show b.rosters u = none from gone).symm.trans roster
  next r old =>
    replace old : b.rosters t = some r := old
    split
    next own =>
      refine ⟨kept.given, fun u r' roster s member serial => ?_⟩
      by_cases same : u = t
      · subst same
        cases (if_pos rfl).symm.trans roster
        have unfinished := (List.mem_filter.mp member).2
        rw [serial] at unfinished
        simp [ends] at unfinished
      · exact same (kept.there u r' ((if_neg same).symm.trans roster) s member serial).1
    next other =>
      refine ⟨kept.given, fun u r' roster s member serial => ?_⟩
      obtain ⟨rfl, own⟩ := kept.there u r' roster s member serial
      cases old.symm.trans roster
      exact other own

end Kept

/-! ### What a delivery leaves -/

theorem calledIn_sublist (turns : List (Turn η δ)) :
    (calledIn host turns).Sublist (turns.map (·.subscription)) :=
  List.filter_sublist.map _

namespace Delivers

variable {turns : List (Turn η δ)} {calls : List (List Call)}

theorem orderly (delivers : Delivers host p scene turns after) (makes : Made host p turns calls)
    (before : Orderly scene.bus) : Orderly after.bus := by
  cases delivers with
  | unheard => exact before
  | heard roster taken =>
    refine Orderly.endDelivery ?_ _ _ _
    exact taken.keeps makes (fun c _ known b orderly => orderly.change c known)
      (fun b _ orderly => orderly.thinned rfl fun _ => .refl _)
      (before.thinned rfl fun _ => .refl _)

/-- A subscription that is over stays over. -/
theorem ended {n : Nat} (delivers : Delivers host p scene turns after)
    (makes : Made host p turns calls) (before : Over n scene.bus) : Over n after.bus := by
  cases delivers with
  | unheard => exact before
  | heard roster taken =>
    refine Kept.endDelivery ?_ _ _ _
    exact taken.keeps makes (fun c _ known b ended => ended.change c known fun _ _ _ _ => not_false)
      (fun b _ ended => ended.of_same rfl rfl) (before.of_same rfl rfl)

/-- A subscription for one event is over when it has been called, if nobody unsubscribes from the topic
during the delivery. -/
theorem finishes (delivers : Delivers host p scene turns after) (makes : Made host p turns calls)
    (before : Orderly scene.bus) (once : s.oneShot = true) (called : s ∈ calledIn host turns)
    (undisturbed : ∀ l, .unsubscribe p.event.topic l ∉ calls.flatten) : Over s.serial after.bus := by
  cases delivers with
  | unheard => cases called
  | @heard r turns last roster taken =>
    obtain ⟨t, turn, own⟩ := List.mem_map.mp called
    obtain ⟨turn, live⟩ := List.mem_filter.mp turn
    have there : s ∈ scene.bus.subscriptions p.event.topic := by
      rw [Bus.subscriptions, roster]
      exact taken.served.inOrder.subset (List.mem_map.mpr ⟨t, turn, own⟩)
    have ends : s.serial ∈ turns.flatMap (·.finished host) := by
      refine List.mem_flatMap.mpr ⟨t, turn, ?_⟩
      rw [Turn.finished, live, own, once]
      exact List.mem_singleton.mpr rfl
    refine Kept.finish ?_ ends
    refine taken.keeps makes (fun c member known b kept => kept.change c known ?_)
      (fun b _ kept => kept.of_same rfl rfl) ⟨before.given _ s there, ?_⟩
    · rintro u l edition rfl ⟨rfl, _⟩
      exact undisturbed l member
    · intro u r' roster' s' member same
      have there' : s' ∈ scene.bus.subscriptions u := by
        rw [Bus.subscriptions, show scene.bus.rosters u = some r' from roster']
        exact member
      obtain rfl := before.apart u p.event.topic s' there' s there same
      exact ⟨rfl, congrArg Roster.edition (Option.some.inj (Eq.trans roster'.symm roster))⟩

end Delivers

/-! ### All deliveries -/

/-- Nobody unsubscribes from the topic during a delivery in which the subscription is called. -/
def Undisturbed (host : Host η δ) (s : Subscription) (d : Delivery η δ) : Prop :=
  s ∈ d.called host → ∀ l, .unsubscribe d.event.topic l ∉ d.calls.flatten

/-- In these deliveries a subscription was called once at most, and it is over if it was. -/
structure Spent (host : Host η δ) (s : Subscription) (past : List (Delivery η δ)) (b : Bus) :
    Prop where
  orderly : Orderly b
  once : (past.flatMap (·.called host)).count s ≤ 1
  ended : s ∈ past.flatMap (·.called host) → Over s.serial b

namespace Spent

variable {past ds : List (Delivery η δ)} {d : Delivery η δ}

theorem of_same (spent : Spent host s past b) (rosters : b'.rosters = b.rosters)
    (fresh : b'.fresh = b.fresh) : Spent host s past b' where
  orderly := spent.orderly.thinned fresh fun t => by
    rw [Bus.subscriptions, Bus.subscriptions, rosters]
  once := spent.once
  ended called := (spent.ended called).of_same rosters fresh

theorem change (spent : Spent host s past b) (c : Call) (known : Nat → Bool) :
    Spent host s past (c.change known b) where
  orderly := spent.orderly.change c known
  once := spent.once
  ended called := (spent.ended called).change c known fun _ _ _ _ => not_false

theorem deliver (spent : Spent host s past b) (oneShot : s.oneShot = true)
    (rosters : d.before.bus.rosters = b.rosters) (fresh : d.before.bus.fresh = b.fresh)
    (proper : d.Proper host) (undisturbed : Undisturbed host s d) :
    Spent host s (past ++ [d]) d.after.bus := by
  replace spent := spent.of_same rosters fresh
  have orderly := proper.delivers.orderly proper.makes spent.orderly
  have all : (past ++ [d]).flatMap (·.called host)
      = past.flatMap (·.called host) ++ d.called host := by
    rw [List.flatMap_append, List.flatMap_singleton]
  by_cases called : s ∈ d.called host
  · have listed : (d.called host).Sublist (d.before.bus.subscriptions d.event.topic) :=
      (calledIn_sublist d.turns).trans proper.delivers.served.inOrder.sublist
    have new : s ∉ past.flatMap (·.called host) := fun before =>
      (spent.ended before).not_mem (listed.subset called) rfl
    have own : (d.called host).Nodup := (List.Nodup.of_map _ (spent.orderly.once _)).sublist listed
    refine ⟨orderly, ?_, fun _ => ?_⟩
    · rw [all, List.count_append, List.count_eq_zero_of_not_mem new, Nat.zero_add]
      exact List.nodup_iff_count_le_one.mp own s
    · exact proper.delivers.finishes proper.makes spent.orderly oneShot called (undisturbed called)
  · refine ⟨orderly, ?_, fun member => ?_⟩
    · rw [all, List.count_append, List.count_eq_zero_of_not_mem called]
      exact spent.once
    · rw [all] at member
      have before := (List.mem_append.mp member).resolve_right called
      exact proper.delivers.ended proper.makes (spent.ended before)

theorem drains (oneShot : s.oneShot = true) (drains : Drains host scene ds last)
    (undisturbed : ∀ d ∈ ds, Undisturbed host s d) (spent : Spent host s past scene.bus) :
    Spent host s (past ++ ds) last.bus := by
  induction drains generalizing past with
  | empty =>
    rw [List.append_nil]
    exact spent
  | @next scene last d ds rest _ begins proper _ ih =>
    have delivered := spent.deliver oneShot (by rw [begins]) (by rw [begins]) proper
      (undisturbed d List.mem_cons_self)
    rw [List.append_cons]
    exact ih (fun d' later => undisturbed d' (List.mem_cons_of_mem _ later)) delivered

theorem dispatch (oneShot : s.oneShot = true) (dispatch : Dispatch host scene e ds after)
    (undisturbed : ∀ d ∈ ds, Undisturbed host s d) (spent : Spent host s past scene.bus) :
    Spent host s (past ++ ds) after.bus := by
  cases dispatch with
  | @publish d ds last own begins proper later =>
    have delivered := spent.deliver oneShot
      (by rw [begins]; exact rosters_beginDispatch ..) (by rw [begins]; exact fresh_beginDispatch ..)
      proper
      (undisturbed d List.mem_cons_self)
    have drained := Spent.drains oneShot later
      (fun d' after => undisturbed d' (List.mem_cons_of_mem _ after)) delivered
    rw [List.append_cons]
    exact drained.of_same rfl rfl

theorem course (oneShot : s.oneShot = true) (course : Course host ds scene)
    (undisturbed : ∀ d ∈ ds, Undisturbed host s d) : Spent host s ds scene.bus := by
  induction course with
  | made bus =>
    rw [bus]
    exact ⟨.empty, Nat.zero_le 1, fun none => by cases none⟩
  | elsewhere _ bus ih =>
    rw [bus]
    exact ih undisturbed
  | call _ c _ ih => exact (ih undisturbed).change c _
  | publish _ _ dispatch ih =>
    refine Spent.dispatch oneShot dispatch
      (fun d later => undisturbed d (List.mem_append_right _ later)) ?_
    exact ih fun d before => undisturbed d (List.mem_append_left _ before)

end Spent

/-- Whatever listeners do, a subscription for one event is called at most once, provided that nobody
unsubscribes from its topic during a delivery in which it is called. -/
theorem one_shot_called_at_most_once {ds : List (Delivery η δ)} (course : Course host ds scene)
    (oneShot : s.oneShot = true) (undisturbed : ∀ d ∈ ds, Undisturbed host s d) :
    (ds.flatMap (·.called host)).count s ≤ 1 :=
  (Spent.course oneShot course undisturbed).once

/-- A scene with one listener, who is subscribed for one event and does nothing. -/
def attentive : Scene Unit Unit :=
  { Scene.alone ⟨"", [], none, none, []⟩ with
    bus := ({} : Bus).subscribe .starting 0 0 true false }

/-- Of two events that are published one after the other such a listener hears the first. -/
theorem attentive_called_once : ∃ ds after, Course (Host.silent 1 1) ds after
    ∧ ds.map (·.event.topic) = [.starting, .starting]
    ∧ (∀ d ∈ ds, Undisturbed (Host.silent 1 1) ⟨0, 0, 0, true, false⟩ d)
    ∧ ⟨0, 0, 0, true, false⟩ ∈ ds.flatMap (·.called (Host.silent 1 1))
    ∧ (ds.flatMap (·.called (Host.silent 1 1))).count ⟨0, 0, 0, true, false⟩ ≤ 1 := by
  let host : Host Unit Unit := Host.silent 1 1
  let s : Subscription := ⟨0, 0, 0, true, false⟩
  let e : Event := { topic := .starting }
  have made : Course host [] { attentive with bus := {} } := .made rfl
  have course : Course host [] attentive := made.call (.subscribe .starting 0 0 true false) rfl
  let begun := begin (busy attentive .starting) ⟨1, [s]⟩
  let called := addressed begun 0 ⟨0, e⟩
  let served : Scene Unit Unit :=
    { called with bus := { called.bus.endDelivery .starting 1 [0] with delivering := false } }
  have taken : Turns host ⟨0, e⟩ [s] begun [⟨s, begun, called⟩] called := .left rfl rfl rfl .done
  have makes : Made host ⟨0, e⟩ [⟨s, begun, called⟩] [[]] := .cons .nothing .nil
  have roster : (busy attentive .starting).bus.rosters e.topic = some ⟨1, [s]⟩ := rfl
  have delivers : Delivers host ⟨0, e⟩ (busy attentive .starting) _ _ := .heard roster taken
  have first : Delivery.Proper host ⟨⟨0, e⟩, _, _, _, _⟩ := ⟨delivers, makes⟩
  -- nobody is subscribed any longer
  have second : Delivery.Proper host
      ⟨⟨1, e⟩, busy served .starting, [], [], busy served .starting⟩ := ⟨.unheard rfl, .nil⟩
  have once : Course host _ served :=
    course.publish ((publish_idle rfl).mpr ⟨_, _, rfl, deliverQueue_empty rfl, rfl, rfl⟩)
      (.publish rfl rfl first (.empty rfl))
  have twice := once.publish ((publish_idle rfl).mpr ⟨_, _, rfl, deliverQueue_empty rfl, rfl, rfl⟩)
    (.publish rfl rfl second (.empty rfl))
  refine ⟨_, _, twice, rfl, ?undisturbed, List.mem_cons_self,
    one_shot_called_at_most_once twice rfl ?undisturbed⟩
  intro d member _ l disturbs
  obtain rfl | member := List.mem_cons.mp member
  · cases disturbs
  · cases List.mem_singleton.mp member
    cases disturbs

/-- Two listeners, the first of which ends the subscriptions of the second. -/
def ousting : Host Unit Unit :=
  { Host.silent 1 1 with
    listen := fun listener _ =>
      if listener = 0 then (Call.unsubscribe .finished 1).play (Host.silent 1 1) else pure () }

/-- A scene with two such listeners of one topic. The first is subscribed for one event. -/
def rivals : Scene Unit Unit :=
  { Scene.alone ⟨"", [], none, none, []⟩ with
    bus := (({} : Bus).subscribe .finished 0 0 true false).subscribe .finished 1 0 false false }

/-- The first listener is called for two events, though it is subscribed for one: the roster that the
delivery of the first event began with is no longer that of the topic when it ends. -/
theorem one_shot_called_twice : Fair ousting ∧ Course ousting [] rivals
    ∧ ∃ ds after, Course ousting ds after ∧ ds.map (·.event.topic) = [.finished, .finished]
      ∧ (ds.flatMap (·.called ousting)).count ⟨0, 0, 0, true, false⟩ = 2 := by
  let s : Subscription := ⟨0, 0, 0, true, false⟩
  let s' : Subscription := ⟨2, 1, 0, false, false⟩
  let e : Event := { topic := .finished }
  let oust (scene : Scene Unit Unit) : Scene Unit Unit :=
    { scene with bus := scene.bus.unsubscribe (fun _ => false) .finished 1 }
  have fair : Fair ousting := by
    intro listener _
    change Mannerly _ (if listener = 0 then _ else _)
    split
    · exact .call (.unsubscribe .finished 1)
    · exact .pure ()
  have made : Course ousting [] { rivals with bus := {} } := .made rfl
  have course : Course ousting [] rivals := (made.call (.subscribe .finished 0 0 true false) rfl).call
    (.subscribe .finished 1 0 false false) rfl
  -- both are called; the first has meanwhile made a new roster, which it is still in
  let begun := begin (busy rivals .finished) ⟨1, [s, s']⟩
  let called := oust (addressed begun 0 ⟨0, e⟩)
  let called' := addressed called 1 ⟨0, e⟩
  let served : Scene Unit Unit :=
    { called' with bus := { called'.bus.endDelivery .finished 1 [0] with delivering := false } }
  have taken : Turns ousting ⟨0, e⟩ [s, s'] begun [⟨s, begun, called⟩, ⟨s', called, called'⟩]
      called' :=
    .left rfl rfl rfl (.left rfl rfl rfl .done)
  have makes : Made ousting ⟨0, e⟩ [⟨s, begun, called⟩, ⟨s', called, called'⟩]
      [[.unsubscribe .finished 1], []] :=
    .cons (Uses.nothing.call (.unsubscribe .finished 1)) (.cons .nothing .nil)
  have roster : (busy rivals .finished).bus.rosters e.topic = some ⟨1, [s, s']⟩ := rfl
  have delivers : Delivers ousting ⟨0, e⟩ (busy rivals .finished) _ _ := .heard roster taken
  have first : Delivery.Proper ousting ⟨⟨0, e⟩, _, _, _, _⟩ := ⟨delivers, makes⟩
  have once : Course ousting _ served :=
    course.publish ((publish_idle rfl).mpr ⟨_, _, rfl, deliverQueue_empty rfl, rfl, rfl⟩)
      (.publish rfl rfl first (.empty rfl))
  -- so it is called again
  let begun' := begin (busy served .finished) ⟨4, [s]⟩
  let last := oust (addressed begun' 0 ⟨1, e⟩)
  have taken' : Turns ousting ⟨1, e⟩ [s] begun' [⟨s, begun', last⟩] last := .left rfl rfl rfl .done
  have makes' : Made ousting ⟨1, e⟩ [⟨s, begun', last⟩] [[.unsubscribe .finished 1]] :=
    .cons (Uses.nothing.call (.unsubscribe .finished 1)) .nil
  have roster' : (busy served .finished).bus.rosters e.topic = some ⟨4, [s]⟩ := rfl
  have delivers' : Delivers ousting ⟨1, e⟩ (busy served .finished) _ _ := .heard roster' taken'
  have second : Delivery.Proper ousting ⟨⟨1, e⟩, _, _, _, _⟩ := ⟨delivers', makes'⟩
  have twice := once.publish ((publish_idle rfl).mpr ⟨_, _, rfl, deliverQueue_empty rfl, rfl, rfl⟩)
    (.publish rfl rfl second (.empty rfl))
  exact ⟨fair, course, _, _, twice, rfl, rfl⟩

end Colloquy.Bus
