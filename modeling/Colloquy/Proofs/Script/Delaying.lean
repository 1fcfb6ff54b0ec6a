import Colloquy.Proofs.Script.Contents
import Colloquy.Proofs.Script.Shutting
/-!
# Closing frames later

Frames that some line closes may as well stay open if the next line of the body closes them: the
script is read to the same draft, but the blocks among them are complained about at that line. After
the last line of the body they are closed at the end of the script.
-/

namespace Colloquy.Script

/-- The number of the line that closes frames: that of the next line of the body, or the last. -/
def closingLine (s : Settings) (inside : Bool) (number : Nat) (lines : List (List Char))
    (last : Nat) : Nat :=
  (bodyFrom s inside number lines).head?.elim last (·.number)

namespace Builder

variable {b : Builder} {closes : Nat → Bool} {s : Settings} {lines : List (List Char)}
  {number : Nat}

/-! ### Complaints in the middle -/

/-- Two readings of which one complains in the middle, where the other does not. -/
def Apart (closed : List Diagnostic) (x y : Except CompileFault Builder) : Prop :=
  ∃ late early, SameAfter early late x ∧ SameAfter (early ++ closed) late y

theorem Apart.error (closed : List Diagnostic) (fault : CompileFault) :
    Apart closed (.error fault) (.error fault) :=
  ⟨.error fault, [], .error fault, .error fault⟩

/-- What is read in the same way after further diagnostics is read in the same way after complaints
that are made on the spot. -/
theorem apart_of_noteAll (read : Builder → Except CompileFault Builder)
    (steady : ∀ earlier b, SameAfter earlier (read b) (read (b.after earlier)))
    (b : Builder) (closed more : List Diagnostic) :
    Apart closed (read (b.noteAll more)) (read (b.noteAll (closed ++ more))) := by
  have bare (ds : List Diagnostic) : b.noteAll (ds ++ more)
      = ({ b with diagnostics := more } : Builder).after (b.diagnostics ++ ds) := by
    simp [noteAll, after]
  refine ⟨read { b with diagnostics := more }, b.diagnostics, ?_, ?_⟩
  · have first := bare []
    rw [List.nil_append, List.append_nil] at first
    rw [first]
    exact steady _ _
  · rw [bare closed]
    exact steady _ _

/-! ### Reading to the end -/

/-- Reads the lines that are left and closes what is open after the last one. -/
def readRest (s : Settings) (b : Builder) (number : Nat) (lines : List (List Char)) (last : Nat) :
    Except CompileFault Builder := do
  return (← readLines s b number lines).finish last

theorem readRest_cons (s : Settings) (b : Builder) (number : Nat) (raw : List Char)
    (lines : List (List Char)) (last : Nat) :
    readRest s b number (raw :: lines) last
      = b.readLine s number raw lines >>= (readRest s · (number + 1) lines last) := by
  rw [readRest, readLines]
  cases b.readLine s number raw lines <;> rfl

theorem readRest_after (earlier : List Diagnostic) (s : Settings) (b : Builder) (number : Nat)
    (lines : List (List Char)) (last : Nat) :
    SameAfter earlier (readRest s b number lines last)
      (readRest s (b.after earlier) number lines last) := by
  refine Both.bind (readLines_after earlier b s number lines) ?_
  rintro c _ rfl
  exact .ok (finish_after earlier c last)

/-- What is done with a draft in which all frames have been closed. -/
def sealed (b : Builder) : Builder :=
  { b.release.endLabels b.release.waiting with waiting := [] }

theorem sealed_after (earlier : List Diagnostic) (b : Builder) :
    (b.after earlier).sealed = b.sealed.after earlier := by
  have waiting : (b.release.after earlier).waiting = b.release.waiting := rfl
  rw [sealed, release_after, waiting, endLabels_after]
  rfl

/-- What is complained about at the end of a script that ends in its header. -/
def ended (b : Builder) (last : Nat) : Builder :=
  if b.headerState.inside then
    b.note (.complain last "Header block is never closed with '==='")
  else b

theorem finish_sealed (b : Builder) (last : Nat) :
    b.finish last = (((b.ended last).shut fun _ => true).noteAll
      ((unclosed (fun _ => true) b.stack).map (missingEnd last))).sealed := by
  have stack : (b.ended last).stack = b.stack := by
    unfold ended
    split <;> rfl
  rw [← stack, ← popAll_shut]
  rfl

theorem shut_ended (b : Builder) (closes : Nat → Bool) (last : Nat) :
    (b.shut closes).ended last = (b.ended last).shut closes := by
  unfold ended
  rw [shut_headerState]
  split
  · exact (shut_noteAll b [_]).symm
  · rfl

/-- The end of a script closes all frames, those included that stayed open. -/
theorem finish_apart (b : Builder) (closes : Nat → Bool) (last : Nat) :
    Apart ((unclosed closes b.stack).map (missingEnd last)) (.ok ((b.shut closes).finish last))
      (.ok (b.finish last)) := by
  obtain ⟨frames, _⟩ := shut_shut (b := b.ended last) closes (fun _ => true) fun _ _ _ => rfl
  obtain ⟨_, notes⟩ := shut_shut (b := b) closes (fun _ => true) fun _ _ _ => rfl
  rw [finish_sealed, finish_sealed, shut_ended, frames, notes, List.map_append]
  exact apart_of_noteAll (fun b => .ok b.sealed)
    (fun earlier b => .ok (sealed_after earlier b)) _ _ _

/-- A line of the body closes the frames that it closes, those included that stayed open. -/
theorem readBodyLine_apart (b : Builder) {l : Line} (rest : List (List Char))
    {read : Builder → Except CompileFault Builder}
    (steady : ∀ earlier b, SameAfter earlier (read b) (read (b.after earlier)))
    (within : ∀ f ∈ b.stack, closes f.threshold = true → l.indent < f.threshold) :
    Apart ((unclosed closes b.stack).map (missingEnd l.number))
      ((b.shut closes).readBodyLine s l rest >>= read) (b.readBodyLine s l rest >>= read) := by
  obtain ⟨frames, notes⟩ := shut_shut closes (l.indent < ·)
    fun f member low => decide_eq_true (within f member low)
  -- Once the line has closed its frames, the two drafts differ in the complaints alone.
  rw [readBodyLine_eq, readBodyLine_eq, settle_shut, settle_shut, frames, notes, List.map_append]
  refine apart_of_noteAll (fun b => b.readStatement s l rest >>= read) ?_ _ _ _
  intro earlier b
  refine Both.bind (readStatement_after earlier b s l rest) ?_
  rintro c _ rfl
  exact steady earlier c

theorem readHeaderLine_apart (b : Builder) (l : Line) {closed : List Diagnostic}
    {read : Builder → Except CompileFault Builder}
    (later : ∀ c, b.readHeaderLine l = .ok c → Apart closed (read (c.shut closes)) (read c)) :
    Apart closed ((b.shut closes).readHeaderLine l >>= read) (b.readHeaderLine l >>= read) := by
  have both := shut_readHeaderLine b closes l
  generalize b.readHeaderLine l = x at both later
  generalize (b.shut closes).readHeaderLine l = y at both
  cases both with
  | error fault => exact .error closed fault
  | ok moved =>
    rw [moved]
    exact later _ rfl

/-- If the next line of the body closes the frames with certain thresholds anyway, closing them
before makes no difference but for the line at which blocks are complained about. -/
theorem readRest_apart (last : Nat)
    (within : ∀ next ∈ (bodyFrom s b.headerState.inside number lines).head?, ∀ f ∈ b.stack,
      closes f.threshold = true → next.indent < f.threshold) :
    Apart ((unclosed closes b.stack).map
        (missingEnd (closingLine s b.headerState.inside number lines last)))
      (readRest s (b.shut closes) number lines last) (readRest s b number lines last) := by
  -- Blank lines and the header leave the frames alone, so they stay open until the next line of the
  -- body or the end.
  induction lines generalizing b number with
  | nil => exact finish_apart b closes last
  | cons raw lines ih =>
    rw [readRest_cons, readRest_cons]
    unfold readLine
    unfold closingLine
    rw [bodyFrom] at within ⊢
    generalize scan s.tabWidth number raw = scanned at within ⊢
    cases scanned with
    | empty => exact ih within
    | delimiter =>
      have same := delimiter_sameBody b number
      have later := @ih (b.delimiter number) (number + 1)
      rw [delimiter_inside, same.stack, ← shut_delimiter] at later
      exact later within
    | line l =>
      dsimp only at within ⊢
      rw [shut_headerState]
      cases inside : b.headerState.inside with
      | false =>
        rw [inside] at within
        exact readBodyLine_apart b lines (fun earlier c => readRest_after earlier s c _ lines last)
          (within l rfl)
      | true =>
        rw [inside] at within
        rw [if_pos rfl, if_pos rfl]
        refine readHeaderLine_apart b l fun c read => ?_
        obtain ⟨same, state⟩ := readHeaderLine_same read
        have later := @ih c (number + 1)
        rw [state, inside, same.stack] at later
        exact later within

end Builder

end Colloquy.Script
