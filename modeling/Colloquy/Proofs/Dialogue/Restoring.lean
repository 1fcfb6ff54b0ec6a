import Colloquy.Dialogue.Flow
import Colloquy.Proofs.Dialogue.Lasting
import Colloquy.Proofs.Dialogue.Snapshots
import Colloquy.Proofs.Script.Naming
import Colloquy.Table
/-!
# Restoring what was saved

A dialogue that is restored stands on the line where the other stood when it was saved, with the
choices taken and with its variables. The header has run before, so a variable that it sets and that
was unset since has the value of the header again.
-/

namespace Colloquy

open Script.Direct (Variables)

variable {η δ : Type} {host : Host η δ} {first scene after fresh : Scene η δ} {g : Graph}

/-! ### Variables of the header -/

/-- Variables of different names, among them those of a header that were not unset. -/
structure Keeps (header : Variables) (unset : List String) (vars : Variables) : Prop where
  distinct : (vars.map (·.1)).Nodup
  set : ∀ name, (header.lookup name).isSome = true → name ∉ unset →
    (vars.lookup name).isSome = true

theorem Keeps.setEntry {header vars : Variables} {unset : List String}
    (keeps : Keeps header unset vars) (name : String) (v : Value) :
    Keeps header unset (setEntry vars name v) := by
  refine ⟨setEntry_nodup keeps.distinct name v, fun other given kept => ?_⟩
  rw [lookup_setEntry]
  split
  · rfl
  · exact keeps.set other given kept

theorem Keeps.eraseEntry {header vars : Variables} {unset : List String}
    (keeps : Keeps header unset vars) (name : String) :
    Keeps header (name :: unset) (eraseEntry vars name) := by
  constructor
  · exact keeps.distinct.sublist (List.filter_sublist.map _)
  · intro other given kept
    obtain ⟨elsewhere, kept⟩ := not_or.mp (mt List.mem_cons.mpr kept)
    rw [lookup_eraseEntry, if_neg elsewhere]
    exact keeps.set other given kept

theorem attachTo_eq : Dialogue.attachTo host g first
    = Dialogue.resetVariables host (first.attached g) := by
  have attached : Play.changeDialogue (fun d => d.attach g) first = .ok () (first.attached g) := rfl
  exact Play.bind_ok attached

/-- Making a dialogue is running the header once it is attached. -/
theorem header_ran (made : Dialogue.attachTo host g first = .ok () fresh) :
    Dialogue.resetVariables host (first.attached g) = .ok () fresh :=
  attachTo_eq.symm.trans made

/-- The header of a graph comes to the same wherever it runs, whether it ends or fails. -/
theorem resetVariables_alike (quiet : Quiet host first) (attended : Attended host scene)
    (graph : scene.dialogue.graph = g) :
    Agree host host (fun d _ => On g (fun _ => True) d) (fun _ => True)
      (Dialogue.resetVariables host) (Dialogue.resetVariables host) (first.attached g) scene :=
  resetVariables_agree (K := fun _ _ => True) on_offering (fun _ _ _ => trivial) rfl on_moving
    (on_setting fun _ _ _ _ => trivial) rfl (attached_onstage quiet g).quiet.attended attended graph
    ⟨rfl, trivial⟩

/-- Wherever the header of a graph runs it comes to the same, if it once came to an end. -/
theorem resetVariables_same (quiet : Quiet host first)
    (made : Dialogue.attachTo host g first = .ok () fresh) (attended : Attended host scene)
    (graph : scene.dialogue.graph = g) :
    ∃ after, Dialogue.resetVariables host scene = .ok () after ∧ Attended host after
      ∧ after.dialogue.graph = g ∧ after.dialogue.vars = fresh.dialogue.vars := by
  cases resetVariables_alike quiet attended graph with
  | failed left => cases left.symm.trans (header_ran made)
  | done left right _ _ twins =>
    cases left.symm.trans (header_ran made)
    exact ⟨_, right, twins.attended', twins.graph.trans twins.related.1, twins.vars⟩

theorem header_distinct (quiet : Quiet host first)
    (made : Dialogue.attachTo host g first = .ok () fresh) :
    (fresh.dialogue.vars.map (·.1)).Nodup := by
  have ran := header_ran made
  have there := (attached_onstage quiet g).quiet.attended
  have agree := @resetVariables_agree _ _ _ _ host host
    (fun d _ => On g (fun vars => (vars.map (·.1)).Nodup) d) (first.attached g) (first.attached g)
    (fun _ _ => True) on_offering (fun _ _ _ => trivial) rfl on_moving
    (on_setting fun _ name v distinct => setEntry_nodup distinct name v) rfl there there rfl
    ⟨rfl, List.nodup_nil⟩
  obtain ⟨_, _, on⟩ := agree.yields.of_done ran
  exact on.2

/-- Running the header anew sets what it sets. -/
theorem resetVariables_lasts (quiet : Quiet host first)
    (made : Dialogue.attachTo host g first = .ok () fresh) (unset : List String) :
    Lasts host (On g (Keeps fresh.dialogue.vars unset)) (Dialogue.resetVariables host) := by
  intro scene attended on
  obtain ⟨after, ran, still, graph, same⟩ := resetVariables_same quiet made attended on.1
  refine .of_ok ran ⟨still, graph, ?_⟩
  rw [same]
  exact ⟨header_distinct quiet made, fun _ given _ => given⟩

/-! ### Runs -/

/-- The scenes that a dialogue gets into by calls, whether they return or fail, and by unsetting
variables; the names are those that were unset on the way. -/
inductive Led (host : Host η δ) (g : Graph) (first : Scene η δ) : List String → Scene η δ → Prop where
  | made {after : Scene η δ} (made : Dialogue.attachTo host g first = .ok () after) :
      Led host g first [] after
  | returned {unset : List String} {scene after : Scene η δ} (before : Led host g first unset scene)
      (call : Call) (acts : call.reads = false) (done : call.play host scene = .ok () after) :
      Led host g first unset after
  | failed {unset : List String} {scene after : Scene η δ} (before : Led host g first unset scene)
      (call : Call) (acts : call.reads = false) {f : Fault}
      (failed : call.play host scene = .error f after) : Led host g first unset after
  | unset {unset : List String} {scene : Scene η δ} (before : Led host g first unset scene)
      (name : String) :
      Led host g first (name :: unset) { scene with dialogue := scene.dialogue.unset name }

/-- All through such a run the dialogue stands on its graph and has the variables of the header,
but for those unset. -/
theorem Led.keeps {second : Scene η δ} {unset : List String} (sturdy : g.Sturdy)
    (quiet : Quiet host first) (quiet' : Quiet host second)
    (made : Dialogue.attachTo host g second = .ok () fresh) (led : Led host g first unset scene) :
    Onstage host g scene ∧ Keeps fresh.dialogue.vars unset scene.dialogue.vars := by
  -- a call may set variables, and runs the header again if it resets them
  have lasts (unset : List String) {call : Call} (acts : call.reads = false) :
      Lasts host (On g (Keeps fresh.dialogue.vars unset)) (call.play host) :=
    Call.lasts (fun _ name v keeps => keeps.setEntry name v)
      (resetVariables_lasts quiet' made unset) acts
  induction led with
  | @made after attached =>
    have onstage := ((attachTo_yields sturdy quiet).of_done attached).onstage sturdy
      (attached_onstage quiet g)
    obtain ⟨last, ran, _, _, same⟩ :=
      resetVariables_same quiet' made (attached_onstage quiet g).quiet.attended rfl
    cases ran.symm.trans (header_ran attached)
    rw [same]
    exact ⟨onstage, header_distinct quiet' made, fun _ given _ => given⟩
  | @returned unset before _ _ call acts done ih =>
    obtain ⟨onstage, keeps⟩ := ih
    have well := (lasts unset acts before onstage.quiet.attended ⟨onstage.graph, keeps⟩).of_done done
    exact ⟨(call.play_yields sturdy onstage).of_done done, well.2.2⟩
  | @failed unset before _ _ call acts _ failed ih =>
    obtain ⟨onstage, keeps⟩ := ih
    have well := (lasts unset acts before onstage.quiet.attended ⟨onstage.graph, keeps⟩).of_failed failed
    exact ⟨((call.play_yields sturdy onstage).of_failed failed).1, well.2.2⟩
  | @unset unset before _ name ih =>
    obtain ⟨onstage, keeps⟩ := ih
    have stays : before.Stays { before with dialogue := before.dialogue.unset name } :=
      ⟨rfl, rfl, rfl, rfl, rfl, rfl⟩
    exact ⟨stays.onstage onstage, keeps.eraseEntry name⟩

/-! ### Restoring -/

/-- A dialogue that stands where another was saved, with its choices taken. Its variables are those
that were saved and beside them those of the header; `unset` are the names of variables that the
other had unset. -/
structure Restored (saved fresh : Dialogue) (unset : List String) (d : Dialogue) : Prop where
  current : d.current = saved.current
  taken : d.taken = saved.taken
  value? : ∀ name, d.value? name = (saved.value? name).or (fresh.value? name)
  kept : ∀ name, name ∉ unset → d.value? name = saved.value? name

/-- While the choices of a line are collected the line, the variables and the choices taken stay. -/
theorem gather_stays (attended : Attended host scene) :
    Yields (Dialogue.gather host) scene
      (fun _ after => after.dialogue.current = scene.dialogue.current
        ∧ after.dialogue.vars = scene.dialogue.vars ∧ after.dialogue.taken = scene.dialogue.taken)
      (fun _ after => after.dialogue.current = scene.dialogue.current
        ∧ after.dialogue.vars = scene.dialogue.vars
        ∧ after.dialogue.taken = scene.dialogue.taken) := by
  let R : Dialogue → Dialogue → Prop := fun d _ => d.current = scene.dialogue.current
    ∧ d.vars = scene.dialogue.vars ∧ d.taken = scene.dialogue.taken
  have offers : ∀ d d' k k' e, True → R d d' → R (d.offer k e) (d'.offer k' e) := by
    intro d _ k _ e _ same
    unfold Dialogue.offer
    split <;> exact same
  have agree := @gather_agree _ _ _ _ host host R scene scene (fun _ _ => True) offers
    (fun _ _ _ => trivial) rfl (.self attended ⟨rfl, rfl, rfl⟩) rfl
  exact agree.yields.mono (fun _ _ ⟨_, _, same⟩ => same) fun _ _ ⟨_, _, same⟩ => same

/-- Moving quietly to a line, whether its choices can be collected or not. -/
theorem setLine_stays (attended : Attended host scene) (line : Option Node) :
    Yields (Dialogue.setLine host line true) scene
      (fun _ after => after.dialogue.current = line
        ∧ after.dialogue.vars = scene.dialogue.vars ∧ after.dialogue.taken = scene.dialogue.taken)
      (fun _ after => after.dialogue.current = line
        ∧ after.dialogue.vars = scene.dialogue.vars
        ∧ after.dialogue.taken = scene.dialogue.taken) := by
  have moved : Play.changeDialogue (fun d => d.moveTo line) scene
      = .ok () { scene with dialogue := scene.dialogue.moveTo line } := rfl
  rw [Dialogue.setLine]
  refine .step moved ?_
  have gathered := @gather_stays _ _ host { scene with dialogue := scene.dialogue.moveTo line }
    (attended.of_same rfl rfl)
  refine gathered.bind fun _ after same => ?_
  exact .of_ok rfl same

/-- A line of a graph whose lines are found by their ids is found again from a snapshot. -/
theorem restore_yields {saved : Dialogue} {unset : List String} (sturdy : g.Sturdy)
    (found : ∀ n ∈ g.nodes, n.kind = .text →
      n.textId ≠ "" ∧ g.nodeByTextId n.textId = some n)
    (quiet : Quiet host first) (made : Dialogue.attachTo host g first = .ok () fresh)
    (stands : ∀ n, saved.current = some n → n ∈ g.nodes ∧ n.kind = .text)
    (keeps : Keeps fresh.dialogue.vars unset saved.vars) :
    Yields (Dialogue.restore host saved.snapshot) fresh
      (fun _ after => Restored saved fresh.dialogue unset after.dialogue)
      (fun f after => Restored saved fresh.dialogue unset after.dialogue
        ∧ Breakdown host.steps host.depth g after f) := by
  have onstage := ((attachTo_yields sturdy quiet).of_done made).onstage sturdy
    (attached_onstage quiet g)
  obtain ⟨renewed, ran, _, _, same⟩ :=
    resetVariables_same quiet made onstage.quiet.attended onstage.graph
  have onstage₁ := ((resetVariables_yields sturdy onstage).of_done ran).onstage sturdy onstage
  let taken : Scene η δ := { renewed with dialogue :=
    { renewed.dialogue with vars := setEntries renewed.dialogue.vars saved.vars
                            taken := saved.taken } }
  have stays : renewed.Stays taken := ⟨rfl, rfl, rfl, rfl, rfl, rfl⟩
  have onstage₂ := stays.onstage onstage₁
  have values : Play.orFault Fault.unsuitable saved.snapshot.values renewed
      = .ok saved.vars renewed := by
    rw [Dialogue.snapshot, Snapshot.values_capture]
    rfl
  have changed : Play.changeDialogue (fun d => { d with
      vars := setEntries d.vars saved.vars, taken := saved.snapshot.taken }) renewed
      = .ok () taken := rfl
  have read : Play.dialogue taken = .ok taken.dialogue taken := rfl
  have line : (if saved.snapshot.isEnded then none
      else taken.dialogue.graph.nodeByTextId saved.snapshot.textId) = saved.current := by
    change (if decide (saved.current.elim "" (·.textId) = "") = true then none
      else taken.dialogue.graph.nodeByTextId (saved.current.elim "" (·.textId))) = _
    rw [onstage₂.graph]
    cases current : saved.current with
    | none => rfl
    | some n =>
      obtain ⟨member, text⟩ := stands n current
      obtain ⟨named, there⟩ := found n member text
      have goesOn : ¬ decide (n.textId = "") = true := by simpa using named
      exact (if_neg goesOn).trans there
  have calm : (!saved.snapshot.isEnded && saved.current.isNone) = false := by
    change (!decide (saved.current.elim "" (·.textId) = "") && saved.current.isNone) = false
    cases saved.current with
    | none => rfl
    | some n => exact Bool.and_false _
  rw [Dialogue.restore]
  refine .step ran (.step values (.step changed (.step read ?_)))
  dsimp only
  rw [line, calm, if_neg Bool.noConfusion]
  have moved := (setLine_stays onstage₂.quiet.attended saved.current).and
    ((setLine_yields sturdy onstage₂ stands true).mono_fails fun _ _ unlisted =>
      unlisted.breaksDown sturdy.rooted (movedTo_onstage onstage₂ stands))
  have restored {after : Scene η δ} (current : after.dialogue.current = saved.current)
      (vars : after.dialogue.vars = taken.dialogue.vars)
      (choices : after.dialogue.taken = taken.dialogue.taken) :
      Restored saved fresh.dialogue unset after.dialogue := by
    have value (name : String) : after.dialogue.value? name
        = (saved.value? name).or (fresh.dialogue.value? name) := by
      unfold Dialogue.value?
      rw [vars, ← same]
      exact lookup_setEntries keeps.distinct _ name
    refine ⟨current, choices, value, fun name kept => ?_⟩
    rw [value name]
    cases there : saved.value? name with
    | some v => rfl
    | none =>
      -- a name that is not unset has no value in the header either
      cases given : fresh.dialogue.value? name with
      | none => rfl
      | some v =>
        have set := keeps.set name (Option.isSome_of_eq_some given) kept
        have absent : saved.vars.lookup name = none := there
        rw [absent] at set
        cases set
  exact moved.mono (fun _ _ ⟨⟨current, vars, choices⟩, _⟩ => restored current vars choices)
    fun _ _ ⟨⟨current, vars, choices⟩, broke⟩ => ⟨restored current vars choices, broke.2⟩

end Colloquy

namespace Colloquy.Script

variable {η δ : Type}

/-- In a script without a warning of an id given twice, a dialogue that is restored from the snapshot
of another is restored to where that was, whatever calls brought it there. It has its variables; only
those that the header sets come back if they were unset. Should the choices of the line not be
collected, the rest is restored all the same. -/
theorem restore_snapshot {s : Settings} {name text : String} {c : Compilation} {g : Graph}
    (compiled : compile s name text = .ok c) (graph : c.graph = some g)
    (unique : ∀ line id, TextId.repetition line id ∉ c.diagnostics) {host : Host η δ}
    {first second scene fresh : Scene η δ} (quiet : Quiet host first) (quiet' : Quiet host second)
    {unset : List String} (led : Led host g first unset scene)
    (made : Dialogue.attachTo host g second = .ok () fresh) :
    (∃ after, Dialogue.restore host scene.dialogue.snapshot fresh = .ok () after
      ∧ Restored scene.dialogue fresh.dialogue unset after.dialogue)
    ∨ ∃ f after, Dialogue.restore host scene.dialogue.snapshot fresh = .error f after
      ∧ Restored scene.dialogue fresh.dialogue unset after.dialogue
      ∧ Breakdown host.steps host.depth g after f := by
  have sturdy := sturdy_of_compile compiled graph
  obtain ⟨onstage, keeps⟩ := led.keeps sturdy quiet quiet' made
  have yields := restore_yields sturdy
    (fun n member line => nodeByTextId_of_compile TextId.digest_ne_empty compiled graph unique
      member line) quiet' made
    onstage.line keeps
  cases played : Dialogue.restore host scene.dialogue.snapshot fresh with
  | ok _ after => exact .inl ⟨after, rfl, yields.of_done played⟩
  | error f after => exact .inr ⟨f, after, rfl, yields.of_failed played⟩

/-- A dialogue that is started on a script with a header, led on to an option and taken a variable
of the header. -/
theorem restore_snapshot_option :
    ∃ c g scene fresh, compile .standard "script" "===\n[set x 1]\n===\nA: hi\n* one\n    B: y" = .ok c
      ∧ c.graph = some g ∧ (∀ line id, TextId.repetition line id ∉ c.diagnostics)
      ∧ Quiet (Host.silent 9 9) (Scene.alone g)
      ∧ Led (Host.silent 9 9) g (Scene.alone g) ["x"] scene
      ∧ Dialogue.attachTo (Host.silent 9 9) g (Scene.alone g) = .ok () fresh
      ∧ ((∃ after, Dialogue.restore (Host.silent 9 9) scene.dialogue.snapshot fresh = .ok () after
          ∧ Restored scene.dialogue fresh.dialogue ["x"] after.dialogue)
        ∨ ∃ f after, Dialogue.restore (Host.silent 9 9) scene.dialogue.snapshot fresh = .error f after
          ∧ Restored scene.dialogue fresh.dialogue ["x"] after.dialogue
          ∧ Breakdown 9 9 g after f) := by
  have opens : ((compile .standard "script"
      "===\n[set x 1]\n===\nA: hi\n* one\n    B: y").toOption.any fun c =>
      c.diagnostics = [] && c.graph.any fun g =>
        (Scene.opening? (Host.silent 9 9) g).any fun started =>
          (((Call.choose 0).play (Host.silent 9 9)).done? started).isSome) = true := by
    decide +kernel
  obtain ⟨c, compiled, opens⟩ := exists_ok_of_any opens
  obtain ⟨silent, opens⟩ := Bool.and_eq_true_iff.1 opens
  obtain ⟨g, graph, opens⟩ := (Option.any_eq_true _ _).1 opens
  obtain ⟨started, opens, chosen⟩ := (Option.any_eq_true _ _).1 opens
  obtain ⟨⟨_, scene⟩, played⟩ := Option.isSome_iff_exists.1 chosen
  obtain ⟨fresh, attached, begun⟩ := opening_played opens
  have unique : ∀ line id, TextId.repetition line id ∉ c.diagnostics := by
    rw [of_decide_eq_true silent]
    exact fun _ _ none => by cases none
  have quiet := alone_quiet 9 9 g
  have led := (((Led.made attached).returned (.start none) rfl begun).returned (.choose 0) rfl
    (Play.of_done? played)).unset "x"
  exact ⟨c, g, _, fresh, compiled, graph, unique, quiet, led, attached,
    restore_snapshot compiled graph unique quiet quiet led attached⟩

/-- A script whose header sets a variable. When it is unset, the dialogue saved and another restored,
it is set again. -/
theorem restore_sets_again :
    ∃ c g scene fresh after, compile .standard "script" "===\n[set x 1]\n===\nA: hi\n" = .ok c
      ∧ c.diagnostics = [] ∧ c.graph = some g
      ∧ Led (Host.silent 9 9) g (Scene.alone g) ["x"] scene
      ∧ Dialogue.attachTo (Host.silent 9 9) g (Scene.alone g) = .ok () fresh
      ∧ Dialogue.restore (Host.silent 9 9) scene.dialogue.snapshot fresh = .ok () after
      ∧ scene.dialogue.value? "x" = none ∧ after.dialogue.value? "x" = some (.int 1) := by
  have again : ((compile .standard "script" "===\n[set x 1]\n===\nA: hi\n").toOption.any fun c =>
      c.diagnostics = [] && c.graph.any fun g =>
        ((Dialogue.attachTo (Host.silent 9 9) g).done? (.alone g)).any fun made =>
          (((Call.start none).play (Host.silent 9 9)).done? made.2).any fun started =>
            ((started.2.dialogue.unset "x").value? "x" = none)
            && ((Dialogue.restore (Host.silent 9 9) (started.2.dialogue.unset "x").snapshot).done?
              made.2).any fun restored =>
                restored.2.dialogue.value? "x" = some (.int 1)) = true := by
    decide +kernel
  obtain ⟨c, compiled, again⟩ := exists_ok_of_any again
  obtain ⟨silent, again⟩ := Bool.and_eq_true_iff.1 again
  obtain ⟨g, graph, again⟩ := (Option.any_eq_true _ _).1 again
  obtain ⟨⟨_, made⟩, attached, again⟩ := (Option.any_eq_true _ _).1 again
  obtain ⟨⟨_, started⟩, begun, again⟩ := (Option.any_eq_true _ _).1 again
  obtain ⟨unset, again⟩ := Bool.and_eq_true_iff.1 again
  obtain ⟨⟨_, after⟩, restored, set⟩ := (Option.any_eq_true _ _).1 again
  have led := ((Led.made (Play.of_done? attached)).returned (.start none) rfl
    (Play.of_done? begun)).unset "x"
  exact ⟨c, g, _, made, after, compiled, of_decide_eq_true silent, graph, led, Play.of_done? attached,
    Play.of_done? restored, of_decide_eq_true unset, of_decide_eq_true set⟩

end Colloquy.Script
