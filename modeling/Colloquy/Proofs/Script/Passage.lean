import Colloquy.Proofs.Script.Contents
/-!
# Reading from line to line

What happens to a draft between two lines. The lines of the body that come between them bound both
the frames that can close on the way and the nodes that are made.
-/

namespace Colloquy.Script

/-- Where reading stands: the draft so far and the lines that are left, the first of which has a
number. -/
structure Reader where
  builder : Builder
  number : Nat
  rest : List (List Char)

/-- The lines of the body that are left. -/
def Reader.body (s : Settings) (r : Reader) : List Line :=
  bodyFrom s r.builder.headerState.inside r.number r.rest

/-- Reading on, line by line. -/
inductive Reaches (s : Settings) : Reader → Reader → Prop where
  | refl (r : Reader) : Reaches s r r
  | next {b c : Builder} {number : Nat} {raw : List Char} {rest : List (List Char)} {r : Reader}
      (read : b.readLine s number raw rest = .ok c) (later : Reaches s ⟨c, number + 1, rest⟩ r) :
      Reaches s ⟨b, number, raw :: rest⟩ r

/-- Lines that are read are read one by one, to the last. -/
theorem reaches_of_readLines {s : Settings} {b c : Builder} {number : Nat}
    {lines : List (List Char)} (read : Builder.readLines s b number lines = .ok c) :
    Reaches s ⟨b, number, lines⟩ ⟨c, number + lines.length, []⟩ := by
  induction lines generalizing b number with
  | nil =>
    cases read
    exact .refl _
  | cons raw rest ih =>
    obtain ⟨between, first, later⟩ := bind_eq_ok.mp read
    have count : number + (raw :: rest).length = number + 1 + rest.length := by
      rw [List.length_cons]
      omega
    rw [count]
    exact .next first (ih later)

namespace Reaches

variable {s : Settings} {q r : Reader}

theorem number_le (reaches : Reaches s q r) : q.number ≤ r.number := by
  induction reaches with
  | refl => exact Nat.le_refl _
  | next _ _ ih => exact Nat.le_of_succ_le ih

theorem trans {p : Reader} (first : Reaches s p q) (second : Reaches s q r) : Reaches s p r := by
  induction first with
  | refl => exact second
  | next read _ ih => exact .next read (ih second)

/-- What every line on the way keeps is kept on the way. -/
theorem keeps_on (kept : Builder → Prop) (reaches : Reaches s q r)
    (step : ∀ {b c number raw rest}, Reaches s q ⟨b, number, raw :: rest⟩ → kept b →
      b.readLine s number raw rest = .ok c → kept c)
    (start : kept q.builder) : kept r.builder := by
  induction reaches with
  | refl => exact start
  | @next b c number raw rest r read later ih =>
    have first : Reaches s ⟨b, number, raw :: rest⟩ ⟨c, number + 1, rest⟩ := .next read (.refl _)
    exact ih (fun onward => step (first.trans onward)) (step (.refl _) start read)

/-- What every line keeps is kept on the way. -/
theorem keeps (kept : Builder → Prop) (reaches : Reaches s q r)
    (step : ∀ {b c number raw rest}, kept b → b.readLine s number raw rest = .ok c → kept c)
    (start : kept q.builder) : kept r.builder :=
  reaches.keeps_on kept (fun _ => step) start

/-- Reading passes all numbers between its ends. -/
theorem split (reaches : Reaches s q r) {k : Nat} (late : q.number ≤ k) (early : k ≤ r.number) :
    ∃ b rest, Reaches s q ⟨b, k, rest⟩ ∧ Reaches s ⟨b, k, rest⟩ r := by
  induction reaches with
  | refl q =>
    obtain rfl : k = q.number := Nat.le_antisymm early late
    exact ⟨q.builder, q.rest, .refl q, .refl q⟩
  | @next b c number raw rest r read later ih =>
    obtain rfl | further := Nat.eq_or_lt_of_le late
    · exact ⟨b, raw :: rest, .refl _, .next read later⟩
    · obtain ⟨b', rest', first, second⟩ := ih further early
      exact ⟨b', rest', .next read first, second⟩

/-- The lines that are left at a later place are those from its number on. -/
theorem mem_body (reaches : Reaches s q r) (l : Line) :
    l ∈ r.body s ↔ l ∈ q.body s ∧ r.number ≤ l.number := by
  induction reaches with
  | refl q => exact ⟨fun there => ⟨there, number_le_of_bodyFrom there⟩, And.left⟩
  | @next b c number raw rest r read later ih =>
    have advanced := later.number_le
    refine ih.trans (and_congr_left fun late => ?_)
    obtain ⟨first, scanned, _, _, body⟩ | ⟨_, body⟩ := Builder.readLine_cases read
    · -- The line that is read is too early to be meant.
      have early : l ≠ first := by
        rintro rfl
        have := scan_number scanned
        dsimp only at advanced
        omega
      rw [Reader.body, Reader.body, body, List.mem_cons, or_iff_right early]
    · rw [Reader.body, Reader.body, body]

/-- A draft grows by what the lines on the way make, around frames that they do not close. -/
theorem proceeds {made : Nat → Nat → Prop} {n floor : Nat} (reaches : Reaches s q r)
    (founded : Founded n floor q.builder.stack)
    (within : ∀ l ∈ q.body s, l.number < r.number → floor ≤ l.indent ∧ made l.number l.indent) :
    Builder.Proceeds made n floor q.builder r.builder := by
  induction reaches with
  | refl q => exact Builder.Proceeds.refl founded
  | @next b c number raw rest r read later ih =>
    have advanced := later.number_le
    have first : Builder.Proceeds made n floor b c := by
      refine Builder.Proceeds.readLine founded (fun outside l scanned => within l ?_ ?_) read
      · rw [Reader.body, bodyFrom, scanned, outside]
        exact List.mem_cons_self ..
      · rw [scan_number scanned]
        exact advanced
    refine first.trans (ih first.2 fun l there early => within l ?_ early)
    obtain ⟨_, _, _, _, body⟩ | ⟨_, body⟩ := Builder.readLine_cases read
    · rw [Reader.body, body]
      exact List.mem_cons_of_mem _ there
    · rw [Reader.body, body]
      exact there

/-- Reading comes to each line of the body, reads it and goes on. -/
theorem at_line (reaches : Reaches s q r) {l : Line} (there : l ∈ q.body s)
    (before : l.number < r.number) :
    ∃ b raw rest c, Reaches s q ⟨b, l.number, raw :: rest⟩ ∧ b.readBodyLine s l rest = .ok c
      ∧ Reaches s q ⟨c, l.number + 1, rest⟩ ∧ Reaches s ⟨c, l.number + 1, rest⟩ r := by
  obtain ⟨b, rest, first, second⟩ :=
    reaches.split (number_le_of_bodyFrom there) (Nat.le_of_lt before)
  have ahead : l ∈ Reader.body s ⟨b, l.number, rest⟩ :=
    (first.mem_body l).2 ⟨there, Nat.le_refl _⟩
  cases second with
  | refl => exact absurd before (Nat.lt_irrefl _)
  | @next _ c _ raw rest _ read later =>
    have passed : l ∉ bodyFrom s c.headerState.inside (l.number + 1) rest := fun still =>
      absurd (number_le_of_bodyFrom still) (Nat.not_succ_le_self _)
    obtain ⟨l', _, _, body, same⟩ | ⟨_, same⟩ := Builder.readLine_cases read
    · rw [Reader.body, same] at ahead
      obtain rfl | still := List.mem_cons.1 ahead
      · exact ⟨b, raw, rest, c, first, body, first.trans (.next read (.refl _)), later⟩
      · exact absurd still passed
    · rw [Reader.body, same] at ahead
      exact absurd ahead passed

end Reaches

end Colloquy.Script
