import Colloquy.Cast.Action
import Colloquy.Proofs.Dialogue.Reentrant
import Colloquy.Proofs.Dialogue.Upholding
/-!
# What a dialogue remembers of its parameters

A dialogue that is asked for the parameters in use remembers the answer until it moves on. Asking for the
value of a guard calls participants and listeners while the choices of a line are still collected; what
is remembered if one of them asks then lacks the parameters of the choices that come after. It is
never more than that: always it is what the line and the first of its choices use. If nobody asks while
choices are collected then it is what the line and all its choices use.
-/

namespace Colloquy

variable {η δ : Type} {host lower : Host η δ} {scene after : Scene η δ} {g : Graph}

theorem nodup_eraseDups : (names : List String) → names.eraseDups.Nodup
  | [] => List.nodup_nil
  | name :: rest => by
    rw [List.eraseDups_cons, List.nodup_cons, List.mem_eraseDups]
    exact ⟨by simp, nodup_eraseDups _⟩
termination_by names => names.length
decreasing_by exact Nat.lt_succ_of_le (List.length_filter_le ..)

namespace Dialogue

/-- The parameters of the current line and of some of its choices, each once. -/
def paramsWith (d : Dialogue) (offered : List Edge) : List String :=
  (d.current.elim [] (·.params) ++ offered.flatMap (·.params)).eraseDups

/-- A parameter is used by the current line or one of some choices. -/
def Uses (d : Dialogue) (offered : List Edge) (name : String) : Prop :=
  (∃ line, d.current = some line ∧ name ∈ line.params) ∨ ∃ e ∈ offered, name ∈ e.params

/-- What is remembered is what the line and the first of its choices use. -/
def RecallsPart (d : Dialogue) : Prop :=
  ∀ names, d.params = some names → ∃ offered, offered <+: d.choices ∧ names = d.paramsWith offered

/-- What is remembered is what the line and all its choices use. -/
def Recalls (d : Dialogue) : Prop :=
  ∀ names, d.params = some names → names = d.paramsNow

/-- If another collection has begun since one of a number, what is remembered is right. -/
def RecallsAfter (n : Nat) (d : Dialogue) : Prop :=
  n ≤ d.gathering ∧ (n < d.gathering → d.Recalls)

/-- As long as no other collection has begun since one of a number, nothing is remembered. -/
def Unasked (n : Nat) (d : Dialogue) : Prop :=
  n ≤ d.gathering ∧ (d.gathering = n → d.params = none)

end Dialogue

/-- Nobody asks for the parameters in use while the choices of a line are collected. -/
def Discreet (host : Host η δ) : Prop :=
  ∀ n, Upholds (Dialogue.Unasked n) (Dialogue.gather host)

namespace Dialogue

variable {d : Dialogue} {n : Nat}

theorem mem_paramsWith {offered : List Edge} {name : String} :
    name ∈ d.paramsWith offered ↔ d.Uses offered name := by
  rw [paramsWith, List.mem_eraseDups, List.mem_append, List.mem_flatMap, Uses]
  refine or_congr_left ?_
  cases d.current with
  | none => simp
  | some line => simp

theorem paramsNow_eq (d : Dialogue) : d.paramsNow = d.paramsWith d.choices := rfl

theorem Recalls.of_none (nothing : d.params = none) : d.Recalls := by
  intro names remembered
  cases nothing.symm.trans remembered

theorem RecallsPart.of_none (nothing : d.params = none) : d.RecallsPart := by
  intro names remembered
  cases nothing.symm.trans remembered

/-- What is remembered of a part of the choices is right for more of them. -/
theorem RecallsPart.offer (recalls : d.RecallsPart) (k : Nat) (e : Edge) :
    (d.offer k e).RecallsPart := by
  unfold Dialogue.offer
  split
  · intro names remembered
    obtain ⟨offered, within, same⟩ := recalls names remembered
    exact ⟨offered, within.trans (List.prefix_append _ _), same⟩
  · exact recalls

/-- Only another collection counts, so what this one offers changes nothing. -/
theorem RecallsAfter.offer (recalls : d.RecallsAfter n) (e : Edge) : (d.offer n e).RecallsAfter n := by
  unfold Dialogue.offer
  split
  next latest => exact ⟨recalls.1, fun later => absurd latest (Nat.ne_of_gt later)⟩
  next => exact recalls

theorem Unasked.offer (unasked : d.Unasked n) (k : Nat) (e : Edge) : (d.offer k e).Unasked n := by
  unfold Dialogue.offer
  split <;> exact unasked

end Dialogue

/-! ### Asking -/

theorem paramsUsed_eq (scene : Scene η δ) : (Dialogue.paramsUsed : Play η δ (List String)) scene
    = .ok scene.dialogue.paramsInUse.1 { scene with dialogue := scene.dialogue.paramsInUse.2 } := rfl

/-- Who asks is told what is remembered, or what is used by now. -/
theorem paramsInUse_cases (d : Dialogue) :
    (∃ names, d.params = some names ∧ d.paramsInUse = (names, d))
      ∨ d.params = none
        ∧ d.paramsInUse = (d.paramsNow, { d with params := some d.paramsNow }) := by
  unfold Dialogue.paramsInUse
  cases d.params with
  | some names => exact .inl ⟨names, rfl, rfl⟩
  | none => exact .inr ⟨rfl, rfl⟩

theorem paramsUsed_upholds {I : Dialogue → Prop}
    (asks : ∀ d : Dialogue, d.params = none → I d → I { d with params := some d.paramsNow }) :
    Upholds I (Dialogue.paramsUsed : Play η δ (List String)) := by
  intro scene holds
  refine .of_ok (paramsUsed_eq scene) ?_
  obtain ⟨_, _, same⟩ | ⟨nothing, same⟩ := paramsInUse_cases scene.dialogue
  · rw [same]
    exact holds
  · rw [same]
    exact asks _ nothing holds

theorem paramsUsed_recallsPart :
    Upholds Dialogue.RecallsPart (Dialogue.paramsUsed : Play η δ (List String)) := by
  refine paramsUsed_upholds fun d _ _ names remembered => ?_
  cases remembered
  exact ⟨d.choices, List.prefix_rfl, rfl⟩

theorem paramsUsed_recallsAfter (n : Nat) :
    Upholds (Dialogue.RecallsAfter n) (Dialogue.paramsUsed : Play η δ (List String)) := by
  refine paramsUsed_upholds fun d _ recalls => ⟨recalls.1, fun _ names remembered => ?_⟩
  cases remembered
  rfl

/-! ### Conduct -/

/-- Whatever hooks do, what is remembered is right for some of the choices. -/
theorem Heeds.recallsPart (heeds : Heeds Dialogue.RecallsPart host) :
    Conduct host (Upholds Dialogue.RecallsPart) where
  toInquiry := heeds.inquiry
  announce := heeds.announce
  settle f sets := .change f fun d recalls => by
    rw [sets d]
    exact recalls
  arrive _ := by
    refine (Upholds.change _ fun d _ => .of_none rfl).bind fun _ => ?_
    exact heeds.inquiry.gather fun k e => .change _ fun d recalls => recalls.offer k e

/-- While the choices of a line are collected nothing that is remembered is spoilt. -/
theorem gatherOf_recallsAfter (heeds : ∀ n, Heeds (Dialogue.RecallsAfter n) host) (d : Dialogue) :
    Upholds (Dialogue.RecallsAfter d.gathering) (Dialogue.gatherOf host d) :=
  (heeds d.gathering).inquiry.gatherOf d fun e => .change _ fun _ recalls => recalls.offer e

/-- If nobody asks meanwhile, the dialogue arrives at a line with nothing remembered that is wrong. -/
theorem arrive_recallsAfter (heeds : ∀ n, Heeds (Dialogue.RecallsAfter n) host)
    (discreet : Discreet host) (line : Option Node) (n : Nat) :
    Upholds (Dialogue.RecallsAfter n)
      (do Play.changeDialogue (·.moveTo line); Dialogue.gather host) := by
  intro scene recalls
  let moved : Scene η δ := { scene with dialogue := scene.dialogue.moveTo line }
  have began : Play.changeDialogue (·.moveTo line) scene = .ok () moved := rfl
  have read : Play.dialogue moved = .ok moved.dialogue moved := rfl
  have later : n < moved.dialogue.gathering := Nat.lt_succ_of_le recalls.1
  -- in the collection that has begun nothing is remembered yet
  have clean : moved.dialogue.RecallsAfter moved.dialogue.gathering :=
    ⟨Nat.le_refl _, fun further => absurd further (Nat.lt_irrefl _)⟩
  have gathered : Yields (Dialogue.gather host) moved
      (fun _ after => after.dialogue.RecallsAfter moved.dialogue.gathering)
      fun _ after => after.dialogue.RecallsAfter moved.dialogue.gathering :=
    .step read (gatherOf_recallsAfter heeds moved.dialogue moved clean)
  have unasked := discreet moved.dialogue.gathering moved ⟨Nat.le_refl _, fun _ => rfl⟩
  have right {d : Dialogue} (recalls : d.RecallsAfter moved.dialogue.gathering)
      (unasked : d.Unasked moved.dialogue.gathering) : d.RecallsAfter n := by
    refine ⟨(Nat.le_of_lt later).trans recalls.1, fun _ => ?_⟩
    obtain same | further := Nat.eq_or_lt_of_le recalls.1
    · exact .of_none (unasked.2 same.symm)
    · exact recalls.2 further
  exact .step began ((gathered.and unasked).mono (fun _ _ both => right both.1 both.2)
    fun _ _ both => right both.1 both.2)

theorem recallsAfter_conduct (heeds : ∀ n, Heeds (Dialogue.RecallsAfter n) host)
    (discreet : Discreet host) :
    Conduct host fun x => ∀ n, Upholds (Dialogue.RecallsAfter n) x where
  pure a _ := .pure a
  fault f _ := .fault f
  bind first later n := (first n).bind fun a => later a n
  dialogue _ := Upholds.chained.dialogue
  log level message _ := Upholds.chained.log level message
  request name n := (heeds n).inquiry.request name
  announce notice n := (heeds n).announce notice
  settle f sets n := .change f fun d recalls => by
    rw [sets d]
    exact recalls
  arrive line n := arrive_recallsAfter heeds discreet line n

/-! ### Hooks -/

/-- Hooks that make public calls leave what is remembered right for some of the choices. -/
theorem Heeds.recallsPart_of_partaking (heeds : Heeds Dialogue.RecallsPart lower)
    (reacts : ∀ key notice, Partakes lower g (host.react key notice))
    (listens : ∀ listener p, Partakes lower g (host.listen listener p)) :
    Heeds Dialogue.RecallsPart host := by
  have upholds {x : Play η δ Unit} (partakes : Partakes lower g x) :
      Upholds Dialogue.RecallsPart x :=
    partakes.upholds (fun _ isPublic => isPublic.conducted heeds.recallsPart paramsUsed_recallsPart)
      fun _ _ recalls => recalls
  exact ⟨fun key notice => upholds (reacts key notice), fun l p => upholds (listens l p)⟩

/-- Hooks that make public calls leave what is remembered right, if of those that are called in turn
nobody asks while choices are collected. -/
theorem Heeds.recallsAfter_of_partaking (heeds : ∀ n, Heeds (Dialogue.RecallsAfter n) lower)
    (discreet : Discreet lower) (reacts : ∀ key notice, Partakes lower g (host.react key notice))
    (listens : ∀ listener p, Partakes lower g (host.listen listener p)) (n : Nat) :
    Heeds (Dialogue.RecallsAfter n) host := by
  have conduct := recallsAfter_conduct heeds discreet
  have upholds {x : Play η δ Unit} (partakes : Partakes lower g x) :
      Upholds (Dialogue.RecallsAfter n) x :=
    partakes.upholds (fun _ isPublic => isPublic.conducted conduct paramsUsed_recallsAfter n)
      fun _ _ recalls => recalls
  exact ⟨fun key notice => upholds (reacts key notice), fun l p => upholds (listens l p)⟩

/-- Choices are collected without anybody asking if neither listeners ask nor participants when a
variable is asked for. -/
theorem discreet_of_requests
    (reacts : ∀ n key name, Upholds (Dialogue.Unasked n) (host.react key (.requested name)))
    (listens : ∀ n listener p, Upholds (Dialogue.Unasked n) (host.listen listener p)) :
    Discreet host :=
  fun n => (inquiry_upholds (listens n) (reacts n)).gather fun k e =>
    .change _ fun _ unasked => unasked.offer k e

/-! ### Runs -/

/-- The scenes that a dialogue gets into once it is attached to a graph with nothing remembered: by
public calls, whether they return or fail, while others come to take part. -/
inductive Underway (host : Host η δ) (g : Graph) : Scene η δ → Prop where
  | made {scene after : Scene η δ} (nothing : scene.dialogue.params = none)
      (done : Dialogue.attachTo host g scene = .ok () after) : Underway host g after
  | unmade {scene after : Scene η δ} {f : Fault} (nothing : scene.dialogue.params = none)
      (failed : Dialogue.attachTo host g scene = .error f after) : Underway host g after
  | returned {scene after : Scene η δ} {x : Play η δ Unit} (before : Underway host g scene)
      (isPublic : Public host g x) (done : x scene = .ok () after) : Underway host g after
  | failed {scene after : Scene η δ} {x : Play η δ Unit} {f : Fault} (before : Underway host g scene)
      (isPublic : Public host g x) (failed : x scene = .error f after) : Underway host g after
  | elsewhere {scene after : Scene η δ} (before : Underway host g scene)
      (same : after.dialogue
        = { scene.dialogue with participants := after.dialogue.participants }) : Underway host g after

/-- What is upheld by all that a dialogue does holds all along, if it holds once the dialogue is
attached. -/
theorem Underway.holds {I : Dialogue → Prop} (conduct : ∀ x, Public host g x → Upholds I x)
    (header : Upholds I (Dialogue.resetVariables host))
    (attached : ∀ d : Dialogue, d.params = none → I (d.attach g))
    (recasts : ∀ (d : Dialogue) ps, I d → I { d with participants := ps })
    (underway : Underway host g scene) : I scene.dialogue := by
  have attaches (scene : Scene η δ) (nothing : scene.dialogue.params = none) :
      Yields (Dialogue.attachTo host g) scene (fun _ after => I after.dialogue)
        fun _ after => I after.dialogue :=
    .step rfl (header { scene with dialogue := scene.dialogue.attach g } (attached _ nothing))
  induction underway with
  | made nothing done => exact (attaches _ nothing).of_done done
  | unmade nothing failed => exact (attaches _ nothing).of_failed failed
  | returned _ isPublic done ih => exact (conduct _ isPublic _ ih).of_done done
  | failed _ isPublic failed ih => exact (conduct _ isPublic _ ih).of_failed failed
  | elsewhere _ same ih =>
    rw [same]
    exact recasts _ _ ih

theorem Underway.recallsPart (heeds : Heeds Dialogue.RecallsPart host)
    (underway : Underway host g scene) : scene.dialogue.RecallsPart :=
  underway.holds (fun _ isPublic => isPublic.conducted heeds.recallsPart paramsUsed_recallsPart)
    heeds.recallsPart.resetVariables (fun _ nothing => .of_none nothing) fun _ _ recalls => recalls

theorem Underway.recalls (heeds : ∀ n, Heeds (Dialogue.RecallsAfter n) host)
    (discreet : Discreet host) (underway : Underway host g scene) : scene.dialogue.Recalls := by
  have conduct := recallsAfter_conduct heeds discreet
  have after (n : Nat) (first : n ≤ 1) : scene.dialogue.RecallsAfter n := by
    refine underway.holds (fun _ isPublic => isPublic.conducted conduct paramsUsed_recallsAfter n)
      (conduct.resetVariables n) (fun d nothing => ?_) fun _ _ recalls => recalls
    exact ⟨first.trans (Nat.le_add_left 1 d.gathering), fun _ => .of_none nothing⟩
  -- the first collection began when the dialogue was attached
  exact (after 0 (Nat.zero_le 1)).2 (after 1 (Nat.le_refl 1)).1

/-- What a dialogue answers that recalls what is in use. -/
theorem Dialogue.Recalls.answer {d : Dialogue} (recalls : d.Recalls) :
    d.paramsInUse.1 = d.paramsNow := by
  obtain ⟨names, remembered, same⟩ | ⟨_, same⟩ := paramsInUse_cases d
  · rw [same]
    exact recalls names remembered
  · rw [same]

theorem Dialogue.RecallsPart.answer {d : Dialogue} (recalls : d.RecallsPart) :
    ∃ offered, offered <+: d.choices ∧ d.paramsInUse.1 = d.paramsWith offered := by
  obtain ⟨names, remembered, same⟩ | ⟨_, same⟩ := paramsInUse_cases d
  · obtain ⟨offered, within, right⟩ := recalls names remembered
    exact ⟨offered, within, by rw [same]; exact right⟩
  · exact ⟨d.choices, List.prefix_rfl, by rw [same]; rfl⟩

/-- **The parameters in use.** In every run in which participants and listeners make public calls, the
answer to who asks for the parameters in use is each once the parameters of the current line and of the
first of its choices; and if nobody asks while choices are collected, they are those of the line and of
all its choices. -/
theorem params_recalled (heeds : Heeds Dialogue.RecallsPart host) (underway : Underway host g scene) :
    ∃ names after, Dialogue.paramsUsed scene = .ok names after ∧ names.Nodup
      ∧ (∃ offered, offered <+: scene.dialogue.choices
        ∧ ∀ name, name ∈ names ↔ scene.dialogue.Uses offered name)
      ∧ ((∀ n, Heeds (Dialogue.RecallsAfter n) host) → Discreet host →
        ∀ name, name ∈ names ↔ scene.dialogue.Uses scene.dialogue.choices name) := by
  obtain ⟨offered, within, answer⟩ := (underway.recallsPart heeds).answer
  refine ⟨_, _, paramsUsed_eq scene, ?_, ⟨offered, within, fun name => ?_⟩, fun heeds' discreet name => ?_⟩
  · rw [answer]
    exact nodup_eraseDups _
  · rw [answer]
    exact Dialogue.mem_paramsWith
  · rw [(underway.recalls heeds' discreet).answer, Dialogue.paramsNow_eq]
    exact Dialogue.mem_paramsWith

/-! ### Participants who ask -/

/-- A host whose participants do something when they are told something of a kind, and nothing else. -/
def Host.on (cue : Cue) (act : Play Unit Unit Unit) : Host Unit Unit :=
  { Host.silent 9 9 with
    react := fun _ notice => if notice.cue = cue then act else pure () }

/-- A participant asks for the parameters in use. -/
def askParams : Play Unit Unit Unit := do
  let _ ← Dialogue.paramsUsed

theorem silent_heeds (I : Dialogue → Prop) : Heeds I (Host.silent 9 9) :=
  ⟨fun _ _ => .pure (), fun _ _ => .pure ()⟩

theorem silent_discreet : Discreet (Host.silent 9 9) :=
  discreet_of_requests (fun _ _ _ => .pure ()) fun _ _ _ => .pure ()

theorem asking_partakes (cue : Cue) (key : Nat) (notice : Notice) :
    Partakes (Host.silent 9 9) g ((Host.on cue askParams).react key notice) := by
  have asks : Partakes (Host.silent 9 9) g askParams := .call .params
  have nothing : Partakes (Host.silent 9 9) g (pure ()) := .aside fun scene => ⟨scene, rfl, rfl⟩
  change Partakes _ g (if notice.cue = cue then askParams else pure ())
  split
  · exact asks
  · exact nothing

theorem asking_recallsPart (g : Graph) (cue : Cue) :
    Heeds Dialogue.RecallsPart (Host.on cue askParams) :=
  .recallsPart_of_partaking (silent_heeds _) (@asking_partakes g cue) fun _ _ =>
    .aside fun scene => ⟨scene, rfl, rfl⟩

theorem asking_recallsAfter (g : Graph) (cue : Cue) (n : Nat) :
    Heeds (Dialogue.RecallsAfter n) (Host.on cue askParams) :=
  .recallsAfter_of_partaking (fun _ => silent_heeds _) silent_discreet (@asking_partakes g cue)
    (fun _ _ => .aside fun scene => ⟨scene, rfl, rfl⟩) n

/-- Who asks when it is told of a line does not ask while choices are collected. -/
theorem asking_discreet : Discreet (Host.on .line askParams) :=
  discreet_of_requests (fun _ _ _ => .pure ()) fun _ _ _ => .pure ()

/-- The scene in which a dialogue has been started that somebody has joined. -/
def Scene.joinedOpening? (host : Host Unit Unit) (g : Graph) : Option (Scene Unit Unit) :=
  (Dialogue.attachTo host g).done? (.alone g) |>.bind fun made =>
    ((Call.start none).play host).done? made.2.joined |>.map (·.2)

theorem joinedOpening_underway {host : Host Unit Unit} {scene : Scene Unit Unit}
    (opened : Scene.joinedOpening? host g = some scene) : Underway host g scene := by
  obtain ⟨⟨_, made⟩, attached, started⟩ := Option.bind_eq_some_iff.1 opened
  obtain ⟨⟨_, last⟩, begun, rfl⟩ := Option.map_eq_some_iff.1 started
  have joined : Underway host g made.joined :=
    (Underway.made rfl (Play.of_done? attached)).elsewhere rfl
  exact joined.returned (.call (.start none)) (Play.of_done? begun)

end Colloquy

namespace Colloquy.Script

/-- A participant asks when it is told of the line: what is remembered are the parameters of the line
and its choices. -/
theorem params_recalled_line :
    ∃ c g scene names after,
      compile .standard "script" "A: \x7bP\x7d\n* \x7bQ\x7d one\n    B: x\n" = .ok c
      ∧ c.graph = some g ∧ Heeds Dialogue.RecallsPart (Host.on .line askParams)
      ∧ Underway (Host.on .line askParams) g scene ∧ scene.dialogue.params = some ["P", "Q"]
      ∧ Dialogue.paramsUsed scene = .ok names after
      ∧ ∀ name, name ∈ names ↔ scene.dialogue.Uses scene.dialogue.choices name := by
  have opens : ((compile .standard "script"
      "A: \x7bP\x7d\n* \x7bQ\x7d one\n    B: x\n").toOption.any fun c =>
      c.graph.any fun g => (Scene.joinedOpening? (Host.on .line askParams) g).any fun scene =>
        scene.dialogue.params = some ["P", "Q"]) = true := by
    decide +kernel
  obtain ⟨c, compiled, opens⟩ := exists_ok_of_any opens
  simp only [decide_eq_true_eq, Option.any_eq_true] at opens
  obtain ⟨g, graph, scene, opened, remembered⟩ := opens
  have underway := joinedOpening_underway opened
  obtain ⟨names, after, asked, _, _, exactly⟩ := params_recalled (asking_recallsPart g .line) underway
  exact ⟨c, g, scene, names, after, compiled, graph, asking_recallsPart g .line, underway, remembered,
    asked, exactly (asking_recallsAfter g .line) asking_discreet⟩

/-- A participant asks when it is told that the guard of the first option needs a variable. Nothing is in
use by then, and that is remembered, though the second option has a parameter. -/
theorem params_of_option_forgotten :
    ∃ c g scene after,
      compile .standard "script" "A: hi\n[if \x7bX\x7d]\n    * one\n[endif]\n* \x7bQ\x7d two\n" = .ok c
      ∧ c.diagnostics = [] ∧ c.graph = some g ∧ Underway (Host.on .requested askParams) g scene
      ∧ Dialogue.paramsUsed scene = .ok [] after
      ∧ scene.dialogue.Uses scene.dialogue.choices "Q" := by
  have opens : ((compile .standard "script"
      "A: hi\n[if \x7bX\x7d]\n    * one\n[endif]\n* \x7bQ\x7d two\n").toOption.any fun c =>
      c.diagnostics = [] && c.graph.any fun g =>
        (Scene.joinedOpening? (Host.on .requested askParams) g).any fun scene =>
          scene.dialogue.paramsInUse.1 = [] && scene.dialogue.choices.any (·.params.contains "Q"))
      = true := by
    decide +kernel
  obtain ⟨c, compiled, opens⟩ := exists_ok_of_any opens
  simp only [Bool.and_eq_true, decide_eq_true_eq, Option.any_eq_true, List.any_eq_true,
    List.contains_iff_mem] at opens
  obtain ⟨clean, g, graph, scene, opened, nothing, e, offered, uses⟩ := opens
  exact ⟨c, g, scene, _, compiled, clean, graph, joinedOpening_underway opened,
    nothing ▸ paramsUsed_eq scene, .inr ⟨e, offered, uses⟩⟩

end Colloquy.Script
