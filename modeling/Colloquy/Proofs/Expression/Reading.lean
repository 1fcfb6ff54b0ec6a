import Colloquy.Expression.Basic
import Colloquy.Proofs.Text.Trim
/-!
# Reading expressions again

The text that an expression keeps is trimmed, and reading it gives the same expression. This is why
expressions can be saved as their texts.
-/

namespace Colloquy.Expression

/-- Whether an expression is what its own text reads as. -/
def Readable (e : Expression) : Prop :=
  parse e.source = .ok e

/-- The text of an expression is the trimmed text that it was read from. -/
theorem source_of_parse {text : String} {e : Expression} (read : parse text = .ok e) :
    e.source = Text.trimString text := by
  unfold parse at read
  dsimp only at read
  split at read
  · cases read
  · cases found : tokenize (Text.trimString text) with
    | error f => simp [found, bind, Except.bind] at read
    | ok tokens =>
      simp only [found, bind, Except.bind] at read
      cases sorted : toPostfix tokens with
      | error f => simp [sorted] at read
      | ok steps =>
        simp only [sorted, pure, Except.pure, Except.ok.injEq] at read
        rw [← read]

theorem parse_trimString (text : String) : parse (Text.trimString text) = parse text := by
  simp [parse]

theorem readable_of_parse {text : String} {e : Expression} (read : parse text = .ok e) :
    e.Readable := by
  rw [Readable, source_of_parse read, parse_trimString, read]

theorem Readable.source_ne_empty {e : Expression} (readable : e.Readable) : e.source ≠ "" := by
  intro empty
  have failed : parse "" = .error (.rejected .empty) := rfl
  rw [Readable, empty, failed] at readable
  cases readable

theorem always_readable : always.Readable := by
  unfold Readable
  decide +kernel

theorem never_readable : never.Readable := by
  unfold Readable
  decide +kernel

end Colloquy.Expression
