import Colloquy.Proofs.Script.Lookahead
import Colloquy.Proofs.Script.Passage
import Colloquy.Proofs.Script.Health
/-!
# Reading the body of a script

A script without diagnostics is read by reading the lines of its body one after the other: what
stands between them changes neither the nodes of the draft nor its frames and loose ends, and what
looking ahead sees is the next of these lines.
-/

namespace Colloquy.Script

/-- Whether the first of some lines begins with an asterisk. -/
def starred (lines : List Line) : Bool :=
  lines.head?.any fun l => l.body.head? = some '*'

namespace Builder

/-- A builder in good order that has found nothing to complain about. -/
structure Steady (b : Builder) : Prop where
  sound : b.Sound
  founded : Founded 0 0 b.stack
  clean : b.diagnostics = []

theorem SameBody.grows {made : Nat → Nat → Prop} {n : Nat} {b c : Builder} (same : b.SameBody c)
    (deep : n ≤ b.below.length) (clean : b.diagnostics = []) : Grows made n b c := by
  obtain ⟨top, below⟩ := List.cons.inj same.stack
  refine Grows.unchanged deep same.nodes top below same.looseEdges same.looseNodes ?_
  rw [clean]
  exact List.nil_prefix

end Builder

/-- Reading the lines of a body, one after the other, from a draft on, ends with the draft `final`
and without diagnostics. -/
inductive Finishes (s : Settings) (final : Builder) : Builder → List Line → Prop where
  | ended {b : Builder} (steady : b.Steady) (last : Nat) (done : b.finish last = final)
      (clean : final.diagnostics = []) : Finishes s final b []
  | line {b c b' : Builder} {l : Line} {ls : List Line} {rest : List (List Char)}
      (steady : b.Steady) (read : b.readBodyLine s l rest = .ok c) (clean : c.diagnostics = [])
      (ahead : c.nodes ≠ [] → optionNext rest = starred ls) (same : c.SameBody b')
      (later : Finishes s final b' ls) : Finishes s final b (l :: ls)

namespace Finishes

variable {s : Settings} {final b : Builder} {ls : List Line}

theorem steady (finishes : Finishes s final b ls) : b.Steady := by
  cases finishes with
  | ended steady => exact steady
  | line steady => exact steady

/-- Whether a line and an indent are those of one of some lines. -/
def Places (lines : List Line) (line indent : Nat) : Prop :=
  ∃ l ∈ lines, l.number = line ∧ l.indent = indent

theorem Places.cons {lines : List Line} {line indent : Nat} (l : Line)
    (places : Places lines line indent) : Places (l :: lines) line indent := by
  obtain ⟨l', member, place⟩ := places
  exact ⟨l', List.mem_cons_of_mem l member, place⟩

/-- The draft grows by nodes of the lines to what it is in the end. -/
theorem grows (finishes : Finishes s final b ls) : Builder.Grows (Places ls) 0 b final := by
  induction finishes with
  | ended _ last done _ =>
    rw [← done]
    exact Builder.Grows.finish _ last
  | @line b c b' l ls rest steady read clean _ same _ ih =>
    have first : Builder.Proceeds (Places (l :: ls)) 0 0 b c :=
      Builder.Proceeds.readBodyLine steady.founded (Nat.zero_le _)
        ⟨l, List.mem_cons_self, rfl, rfl⟩ read
    exact (first.1.trans (same.grows (Nat.zero_le _) clean)).trans
      (ih.mono fun _ _ => Places.cons l)

/-- Lines that are indented far enough leave the frames around them alone. -/
theorem through {content : List Line} (finishes : Finishes s final b (content ++ ls)) :
    ∃ b', Finishes s final b' ls
      ∧ (∀ {n floor}, Founded n floor b.stack → (∀ l ∈ content, floor ≤ l.indent) →
        Builder.Proceeds (Places content) n floor b b')
      ∧ ∀ o : Line, o.Encloses content → ∃ n, Founded n (o.indent + 1) b'.stack := by
  induction content generalizing b with
  | nil =>
    refine ⟨b, finishes, fun founded _ => .refl founded, ?_⟩
    rintro o ⟨earlier, between, split, _⟩
    simp at split
  | cons l more ih =>
    cases finishes with
    | @line _ c b₁ _ _ _ _ read clean _ same later =>
      obtain ⟨b', rest, leaves, enclosed⟩ := ih later
      refine ⟨b', rest, fun {n floor} founded within => ?_, ?_⟩
      · obtain ⟨bound, others⟩ := List.forall_mem_cons.mp within
        have first : Builder.Proceeds (Places (l :: more)) n floor b c :=
          Builder.Proceeds.readBodyLine founded bound ⟨l, List.mem_cons_self, rfl, rfl⟩ read
        have still : Builder.Proceeds (Places (l :: more)) n floor c b₁ :=
          ⟨same.grows first.2.deep clean, same.stack ▸ first.2⟩
        have after := leaves still.2 others
        exact (first.trans still).trans ⟨after.1.mono fun _ _ => Places.cons l, after.2⟩
      · rintro o ⟨earlier, between, split, isOption, within⟩
        -- the option is the first of these lines, or one of those behind it
        cases earlier with
        | nil =>
          cases split
          obtain ⟨text, opened⟩ := readBodyLine_option isOption read
          have founded : Founded c.below.length (l.indent + 1) b₁.stack := by
            rw [same.stack, opened]
            exact Builder.option_founded ..
          exact ⟨_, (leaves founded within).2⟩
        | cons first earlier =>
          cases split
          exact enclosed o ⟨earlier, between, rfl, isOption, within⟩

end Finishes

/-! ### Whole scripts -/

section Whole

variable {s : Settings} {q r : Reader}

/-- What has been found to complain about is not forgotten. -/
theorem Reaches.clean (reaches : Reaches s q r) (founded : Founded 0 0 q.builder.stack)
    (clean : r.builder.diagnostics = []) : q.builder.diagnostics = [] := by
  have proceeds : Builder.Proceeds (fun _ _ => True) 0 0 q.builder r.builder :=
    reaches.proceeds founded fun _ _ _ => ⟨Nat.zero_le _, trivial⟩
  have notes := proceeds.1.notes
  rw [clean] at notes
  exact List.prefix_nil.mp notes

/-- A header cannot stand after a node. -/
theorem delimiter_complains {b : Builder} (outside : b.headerState.inside = false)
    (filled : b.nodes ≠ []) (line : Nat) : (b.delimiter line).diagnostics ≠ [] := by
  have some : (!b.nodes.isEmpty || !b.waiting.isEmpty) = true := by simp [filled]
  unfold Builder.delimiter
  dsimp only
  rw [if_neg (by rw [outside]; exact Bool.false_ne_true), if_pos some]
  split <;> simp [Builder.note]

/-- Looking ahead sees the next line of the body. -/
theorem optionNext_eq (reaches : Reaches s q r) (founded : Founded 0 0 q.builder.stack)
    (outside : q.builder.headerState.inside = false) (filled : q.builder.nodes ≠ [])
    (ended : r.rest = []) (clean : r.builder.diagnostics = []) :
    optionNext q.rest = starred (q.body s) := by
  induction reaches with
  | refl q =>
    rw [Reader.body, ended]
    rfl
  | @next b c number raw rest r read later ih =>
    have grown : Builder.Proceeds (fun _ _ => True) 0 0 b c :=
      Builder.Proceeds.readLine founded (fun _ _ _ => ⟨Nat.zero_le _, trivial⟩) read
    have quiet := later.clean grown.2 clean
    rw [Reader.body, bodyFrom, optionNext_cons s.tabWidth number, outside]
    unfold Builder.readLine at read
    cases scanned : scan s.tabWidth number raw with
    | empty =>
      rw [scanned] at read
      cases read
      have same := ih founded outside filled ended clean
      rw [Reader.body, outside] at same
      exact same
    | delimiter =>
      rw [scanned] at read
      cases read
      exact absurd quiet (delimiter_complains outside filled number)
    | line l => rfl

/-- What is read line by line finishes. -/
theorem finishes_of_reaches (reaches : Reaches s q r) (healthy : q.builder.Healthy)
    (founded : Founded 0 0 q.builder.stack) (ended : r.rest = []) {last : Nat}
    (clean : (r.builder.finish last).diagnostics = []) :
    ∃ b, q.builder.SameBody b ∧ Finishes s (r.builder.finish last) b (q.body s) := by
  have finished : Builder.Grows (fun _ _ => True) 0 r.builder (r.builder.finish last) :=
    Builder.Grows.finish _ last
  have stopped : r.builder.diagnostics = [] := by
    have notes := finished.notes
    rw [clean] at notes
    exact List.prefix_nil.mp notes
  have steady : q.builder.Steady := ⟨healthy.sound, founded, reaches.clean founded stopped⟩
  induction reaches with
  | refl q =>
    refine ⟨q.builder, .refl _, ?_⟩
    rw [Reader.body, ended]
    exact .ended steady last rfl clean
  | @next b c number raw rest r read later ih =>
    have grown : Builder.Proceeds (fun _ _ => True) 0 0 b c :=
      Builder.Proceeds.readLine founded (fun _ _ _ => ⟨Nat.zero_le _, trivial⟩) read
    have quiet := later.clean grown.2 stopped
    have sound := healthy.readLine read
    obtain ⟨b', same, finishes⟩ := ih sound grown.2 ended clean finished stopped
      ⟨sound.sound, grown.2, quiet⟩
    -- a line outside the body changes nothing that the body is read from
    obtain ⟨l, _, outside, body, lines⟩ | ⟨unchanged, lines⟩ := Builder.readLine_cases read
    · refine ⟨b, .refl _, ?_⟩
      rw [Reader.body, lines]
      refine .line steady body quiet (fun filled => ?_) same finishes
      rw [← Builder.readBodyLine_headerState body] at outside
      exact optionNext_eq later grown.2 outside filled ended stopped
    · refine ⟨b', unchanged.trans same, ?_⟩
      rw [Reader.body, lines]
      exact finishes

/-- A script that is read without diagnostics is read by reading the lines of its body. -/
theorem finishes_of_readScript {text : String} {final : Builder}
    (read : Builder.readScript s (Text.lines text.toList) = .ok final)
    (clean : final.diagnostics = []) :
    ∃ b, ({} : Builder).SameBody b ∧ Finishes s final b (bodyLines s text) := by
  obtain ⟨c, lines, done⟩ := bind_eq_ok.mp read
  cases done
  exact finishes_of_reaches (reaches_of_readLines lines) .start Builder.founded_start rfl clean

end Whole

end Colloquy.Script
