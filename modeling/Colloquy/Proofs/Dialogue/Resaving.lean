import Colloquy.Proofs.Dialogue.Resetting
/-!
# Saving what was restored

Restoring need not give back what was saved: the line may be gone, a payload may be converted, and the
header adds its variables. What it gives is a fixed point all the same. A dialogue that was restored is
saved and restored as it is, whether into itself or into any other dialogue on the graph.
-/

namespace Colloquy

variable {η δ η' δ' : Type} {host : Host η δ} {host' : Host η' δ'} {scene after renewed : Scene η δ}
  {other : Scene η' δ'} {g : Graph}

/-! ### The line that was saved -/

/-- A line that is found by an id has that id. -/
theorem Graph.textId_of_nodeByTextId {id : String} {n : Node} (found : g.nodeByTextId id = some n) :
    n.textId = id := by
  have passes := List.find?_some found
  simp only [Bool.and_eq_true, decide_eq_true_eq] at passes
  exact passes.2

namespace Snapshot

/-- Of several lines with the id that was saved one is found, and by its own id it is found again. -/
theorem line?_line? (s : Snapshot) (g : Graph) (vars : List (String × Value))
    (taken : List String) :
    (capture ((s.line? g).elim "" (·.textId)) vars taken).line? g = s.line? g := by
  cases line : s.line? g with
  | none => rfl
  | some n =>
    unfold line? at line
    split at line
    · cases line
    next goesOn =>
      have same := Graph.textId_of_nodeByTextId line
      have still : ¬ (capture n.textId vars taken).isEnded = true := by
        rw [same]
        exact goesOn
      rw [Option.elim_some, line?, if_neg still]
      exact same ▸ line

end Snapshot

/-! ### Two dialogues side by side -/

/-- The header leaves two dialogues on one graph with the same variables, of different names. -/
theorem resetVariables_meets (steps : host'.steps = host.steps) (depth : host'.depth = host.depth)
    (attended : Attended host scene) (attended' : Attended host' other)
    (graph : scene.dialogue.graph = g) (graph' : other.dialogue.graph = g)
    (ran : Dialogue.resetVariables host scene = .ok () renewed) :
    ∃ renewed', Dialogue.resetVariables host' other = .ok () renewed'
      ∧ Twins host host' (fun d _ => On g (fun vars => (vars.map (·.1)).Nodup) d) renewed
        renewed' := by
  have agree := resetVariables_agree (R := fun d _ => On g (fun vars => (vars.map (·.1)).Nodup) d)
    (K := fun _ _ => True) on_offering (fun _ _ _ => trivial) depth on_moving
    (on_setting fun _ name v distinct => setEntry_nodup distinct name v) steps attended attended'
    (graph'.trans graph.symm) ⟨graph, List.nodup_nil⟩
  cases agree with
  | failed left => cases left.symm.trans ran
  | done left right _ _ twins =>
    cases left.symm.trans ran
    exact ⟨_, right, twins⟩

/-- Two dialogues that differ in where they stand no longer do once they have moved to one line. -/
theorem setLine_meets (depth : host'.depth = host.depth) (attended : Attended host scene)
    (attended' : Attended host' other) (graph : other.dialogue.graph = scene.dialogue.graph)
    (vars : other.dialogue.vars = scene.dialogue.vars)
    (taken : other.dialogue.taken = scene.dialogue.taken) (line : Option Node)
    (moved : Dialogue.setLine host line true scene = .ok () after) :
    ∃ last, Dialogue.setLine host' line true other = .ok () last
      ∧ Twins host host' (fun d d' => d.graph = scene.dialogue.graph ∧ d.Unchanged d') after last := by
  let a := other.dialogue.gathering
  let b := scene.dialogue.gathering
  let R : Dialogue → Dialogue → Prop := fun d d' => d.graph = scene.dialogue.graph ∧ d.Apart a b d'
  have twins : Twins host host' R { scene with dialogue := scene.dialogue.moveTo line }
      { other with dialogue := other.dialogue.moveTo line } := by
    refine ⟨attended.of_same rfl rfl, attended'.of_same rfl rfl, graph, vars, rfl,
      ⟨rfl, rfl, vars, taken⟩, ?_⟩
    change b + 1 + a = a + 1 + b
    omega
  have offers (d d' : Dialogue) (k k' : Nat) (e : Edge) (both : k + a = k' + b) (related : R d d') :
      R (d.offer k e) (d'.offer k' e) :=
    ⟨(d.offer_same k e).2.1.trans related.1, related.2.offer both e⟩
  have gathered := gather_agree (K := fun k k' => k + a = k' + b) offers
    (fun _ _ related => related.2.2) depth twins rfl
  have agree : Agree host host' R Happening.Asks (Dialogue.setLine host line true)
      (Dialogue.setLine host' line true) scene other := by
    rw [Dialogue.setLine, Dialogue.setLine]
    exact .change rfl (gathered.bind fun _ _ _ twins => .pure twins ())
  cases agree with
  | failed left => cases left.symm.trans moved
  | done left right _ _ twins =>
    cases left.symm.trans moved
    obtain ⟨there, alike, _⟩ := twins.related
    exact ⟨_, right, twins.attended, twins.attended', twins.graph, twins.vars, there, alike⟩

/-! ### Restoring again -/

/-- What a snapshot leaves behind, however it came about, can be saved and restored anywhere. -/
theorem restore_again {s : Snapshot} (steps : host'.steps = host.steps)
    (depth : host'.depth = host.depth) (attended : Attended host scene)
    (attended' : Attended host' other) (graph : scene.dialogue.graph = g)
    (graph' : other.dialogue.graph = g) (restored : Dialogue.restore host s scene = .ok () after) :
    ∃ again, Dialogue.restore host' after.dialogue.snapshot other = .ok () again
      ∧ Twins host host' (fun d d' => d.graph = g ∧ d.Unchanged d') after again := by
  cases made : s.values with
  | error e =>
    rw [restore_of_refused made] at restored
    obtain ⟨_, _, _, none⟩ := Play.bind_inv restored
    cases none
  | ok values =>
    rw [restore_of_values made] at restored
    obtain ⟨_, renewed, ran, took⟩ := Play.bind_inv restored
    obtain ⟨renewed', ran', twins⟩ :=
      resetVariables_meets steps depth attended attended' graph graph' ran
    obtain ⟨there, distinct⟩ := twins.related
    have there' := twins.graph.trans there
    have settled := (takeOver_settles twins.attended there values).of_done took
    have saved : after.dialogue.snapshot = .capture ((s.line? g).elim "" (·.textId))
        (setEntries renewed.dialogue.vars values) s.taken := by
      rw [Dialogue.snapshot, settled.current, settled.vars, settled.taken]
      rfl
    rw [saved, restore_of_values (Snapshot.values_capture _ _ _)]
    -- both take over the same and move to the same line
    obtain ⟨between, attends, stands, lands⟩ := @takeOver_eq _ _ _ _ _ s twins.attended there values
    obtain ⟨between', attends', stands', lands'⟩ := @takeOver_eq _ _ host' renewed' g
      (.capture ((s.line? g).elim "" (·.textId)) (setEntries renewed.dialogue.vars values) s.taken)
      twins.attended' there' (setEntries renewed.dialogue.vars values)
    rw [lands] at took
    rw [Snapshot.line?_line?] at lands'
    have graphs : between'.dialogue.graph = between.dialogue.graph := by
      rw [stands, stands']
      exact twins.graph
    have vars : between'.dialogue.vars = between.dialogue.vars := by
      rw [stands, stands']
      change setEntries renewed'.dialogue.vars _ = setEntries renewed.dialogue.vars values
      rw [twins.vars]
      exact setEntries_setEntries distinct values
    have taken : between'.dialogue.taken = between.dialogue.taken := by
      rw [stands, stands']
      rfl
    have stays : between.dialogue.graph = g := by
      rw [stands]
      exact there
    obtain ⟨again, moved, alike⟩ := setLine_meets depth attends attends' graphs vars taken _ took
    rw [stays] at alike
    exact ⟨again, (Play.bind_ok ran').trans (lands'.trans moved), alike⟩

/-- **Restoring is a fixed point of saving.** Whatever snapshot was restored, and whatever state it was
restored into, the dialogue is saved and restored as it is: into itself as well as into any other on the
graph it comes to the same line, the same choices, the same variables and the same choices taken. -/
theorem restore_snapshot_same {saved : Snapshot} (steps : host'.steps = host.steps)
    (depth : host'.depth = host.depth) (attended : Attended host scene)
    (attended' : Attended host' other) (graph : scene.dialogue.graph = g)
    (graph' : other.dialogue.graph = g)
    (restored : Dialogue.restore host saved scene = .ok () after) :
    (∃ again, Dialogue.restore host after.dialogue.snapshot after = .ok () again
        ∧ after.dialogue.Unchanged again.dialogue)
      ∧ ∃ again, Dialogue.restore host' after.dialogue.snapshot other = .ok () again
        ∧ after.dialogue.Unchanged again.dialogue := by
  obtain ⟨again, elsewhere, twins⟩ :=
    restore_again steps depth attended attended' graph graph' restored
  obtain ⟨there, alike⟩ := twins.related
  obtain ⟨again', here, twins'⟩ :=
    restore_again rfl rfl attended twins.attended graph there restored
  exact ⟨⟨again', here, twins'.related.2⟩, again, elsewhere, alike⟩

/-- A script with a header, of which two lines have one id. -/
def sharedId : String :=
  "===\n[set x 1]\n===\nA: hi @same@\n* one\n    B: ho @same@\n* two\n"

/-- A dialogue that has not begun is restored from a snapshot that does not have the variable of the
header, gives a numeral for a number and names an id that two lines have. It stands on the later of
them, and so does one that was started, once it is restored from what is saved then. -/
theorem restore_snapshot_same_sharedId :
    ∃ c g after started, Script.compile .standard "script" sharedId = .ok c ∧ c.graph = some g
      ∧ Attended (Host.silent 9 9) (Scene.alone g) ∧ Attended (Host.silent 9 9) started
      ∧ (Scene.alone g).dialogue.graph = g ∧ started.dialogue.graph = g
      ∧ Dialogue.restore (Host.silent 9 9) (.numeralGiven "same") (Scene.alone g) = .ok () after
      ∧ after.dialogue.speaker = "B" ∧ started.dialogue.speaker = "A"
      ∧ after.dialogue.vars = [("x", .int 1), ("X", .int 12)]
      ∧ (∃ again, Dialogue.restore (Host.silent 9 9) after.dialogue.snapshot after = .ok () again
        ∧ after.dialogue.Unchanged again.dialogue)
      ∧ ∃ again, Dialogue.restore (Host.silent 9 9) after.dialogue.snapshot started = .ok () again
        ∧ after.dialogue.Unchanged again.dialogue := by
  have opens : ((Script.compile .standard "script" sharedId).toOption.any fun c =>
      c.graph.any fun g => (Scene.opening? (Host.silent 9 9) g).any fun started =>
        started.dialogue.speaker = "A"
          && ((Dialogue.restore (Host.silent 9 9) (.numeralGiven "same")).done? (.alone g)).any
            fun result => result.2.dialogue.speaker = "B"
              && result.2.dialogue.vars = [("x", .int 1), ("X", .int 12)]) = true := by
    decide +kernel
  obtain ⟨c, compiled, opens⟩ := exists_ok_of_any opens
  simp only [Bool.and_eq_true, decide_eq_true_eq, Option.any_eq_true] at opens
  obtain ⟨g, graph, started, opened, first, ⟨_, after⟩, done, second, vars⟩ := opens
  have quiet := alone_quiet 9 9 g
  have onstage := opening_onstage (Script.sturdy_of_compile compiled graph) quiet opened
  have done := Play.of_done? done
  have same := restore_snapshot_same rfl rfl quiet.attended onstage.quiet.attended rfl onstage.graph
    done
  exact ⟨c, g, after, started, compiled, graph, quiet.attended, onstage.quiet.attended, rfl,
    onstage.graph, done, second, first, vars, same⟩

end Colloquy
