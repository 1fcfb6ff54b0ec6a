import Colloquy.Text.Fold
import Mathlib.Data.List.Basic
/-!
# Lower case twice

A text in lower case stays as it is when it is put in lower case again: no capital letter is the
lower case of another character. For the letters beyond ASCII this is checked run by run, since a
run of capital letters and the lower case of another either lie apart or take turns.
-/

namespace Colloquy.Text

/-- Whether a code point belongs to a run of capital letters. -/
def isOnRun (n : Nat) (r : Nat × Nat × Nat × Int) : Bool :=
  r.1 ≤ n && n ≤ r.2.1 && (n - r.1) % r.2.2.1 = 0

/-- All runs of capital letters: those of ASCII, the dotted I, and those beyond. -/
def capitalRuns : List (Nat × Nat × Nat × Int) :=
  (65, 90, 1, 32) :: (304, 304, 1, 0) :: lowerRuns

/-- Whether a code point is that of a capital letter. -/
def isCapital (n : Nat) : Bool :=
  capitalRuns.any (isOnRun n)

/-- Whether the lower case of the run `r`, from `low` to `high`, lies apart from the run `q`: one ends
before the other begins, or both
take every second code point in turn. -/
def liesApart (low high : Nat) (r q : Nat × Nat × Nat × Int) : Bool :=
  high.blt q.1 || q.2.1.blt low
    || ((r.2.2.1 = 2 || low = high) && q.2.2.1 = 2 && (low + q.1) % 2 = 1)

/-- The lower case of the ends of a run. -/
def loweredEnds (r : Nat × Nat × Nat × Int) : Nat × Nat :=
  ((r.1 + r.2.2.2).toNat, (r.2.1 + r.2.2.2).toNat)

theorem runs_lie_apart :
    (lowerRuns.all fun r => r.1 + r.2.2.2 > 0
      && capitalRuns.all (liesApart (loweredEnds r).1 (loweredEnds r).2 r)) = true := by
  decide +kernel

theorem not_isOnRun {n : Nat} {r q : Nat × Nat × Nat × Int} (on : isOnRun n r = true)
    (positive : r.1 + r.2.2.2 > 0)
    (apart : liesApart (loweredEnds r).1 (loweredEnds r).2 r q = true) :
    isOnRun (n + r.2.2.2).toNat q = false := by
  by_contra both
  simp only [Bool.not_eq_false, isOnRun, Bool.and_eq_true, decide_eq_true_eq] at both on
  simp only [liesApart, loweredEnds, Bool.or_eq_true, Bool.and_eq_true, decide_eq_true_eq,
    Nat.blt_eq] at apart
  obtain ⟨⟨low, high⟩, step⟩ := on
  obtain ⟨⟨low', high'⟩, step'⟩ := both
  rcases apart with (before | after) | ⟨⟨two | single, two'⟩, odd⟩
  · omega
  · omega
  · have taking := of_decide_eq_true odd
    rw [two] at step
    rw [two'] at step'
    omega
  · have taking := of_decide_eq_true odd
    have alone := of_decide_eq_true single
    rw [two'] at step'
    omega

theorem isCapital_lower {n : Nat} {r : Nat × Nat × Nat × Int} (member : r ∈ lowerRuns)
    (on : isOnRun n r = true) : isCapital (n + r.2.2.2).toNat = false := by
  have checked := List.all_eq_true.mp runs_lie_apart r member
  simp only [Bool.and_eq_true, decide_eq_true_eq, List.all_eq_true] at checked
  refine List.any_eq_false.mpr fun q run => ?_
  rw [not_isOnRun on checked.1 (checked.2 q run)]
  exact Bool.noConfusion

theorem toNat_ofNat_eq_or (n : Nat) : (Char.ofNat n).toNat = n ∨ (Char.ofNat n).toNat = 0 := by
  unfold Char.ofNat
  by_cases valid : n.isValidChar
  · rw [dif_pos valid]
    exact Or.inl rfl
  · rw [dif_neg valid]
    exact Or.inr rfl

theorem lowerChar_of_not_isCapital {c : Char} (small : isCapital c.toNat = false) :
    lowerChar c = [c] := by
  simp only [isCapital, capitalRuns, List.any_cons, Bool.or_eq_false_iff] at small
  obtain ⟨ascii, dotted, beyond⟩ := small
  unfold lowerChar
  split
  · have outside : ¬ (c.toNat ≥ 65 ∧ c.toNat ≤ 90) := by
      rintro ⟨low, high⟩
      simp [isOnRun, low, high, Nat.mod_one] at ascii
    congr 1
    unfold Char.toLower
    rw [dif_neg]
    exact fun upper => outside upper
  · rw [if_neg (by rintro rfl; exact absurd dotted (by decide))]
    have none : (lowerRuns.find? fun r =>
        r.1 ≤ c.toNat && c.toNat ≤ r.2.1 && (c.toNat - r.1) % r.2.2.1 = 0) = none :=
      List.find?_eq_none.mpr fun r member => by
        have := List.any_eq_false.mp beyond r member
        exact this
    rw [none]

theorem isCapital_of_mem_lowerChar {c d : Char} (member : d ∈ lowerChar c) :
    isCapital d.toNat = false := by
  by_cases small : isCapital c.toNat = false
  · rw [lowerChar_of_not_isCapital small, List.mem_singleton] at member
    rw [member, small]
  unfold lowerChar at member
  split at member
  next ascii =>
    -- below 128 every sign is tried
    have checked : ∀ n : Fin 128, isCapital (Char.ofNat n).toLower.toNat = false := by
      decide +kernel
    rw [List.mem_singleton.mp member]
    simpa using checked ⟨c.toNat, ascii⟩
  next beyond =>
    split at member
    · have cases : d = 'i' ∨ d = '\u0307' := by simpa using member
      rcases cases with rfl | rfl <;> decide +kernel
    next notDotted =>
      split at member
      next r found =>
        have on : isOnRun c.toNat r = true := List.find?_some found
        have lowered := isCapital_lower (List.mem_of_find?_eq_some found) on
        rw [List.mem_singleton.mp member]
        rcases toNat_ofNat_eq_or (c.toNat + r.2.2.2).toNat with same | zero
        · rw [same, lowered]
        · rw [zero]
          decide +kernel
      next none =>
        have off := List.find?_eq_none.mp none
        -- off the runs only ASCII and the dotted I have capitals, and both are ruled out
        refine absurd ?_ small
        simp only [isCapital, capitalRuns, List.any_cons, Bool.or_eq_false_iff]
        refine ⟨?_, ?_, List.any_eq_false.mpr off⟩
        · simp only [isOnRun, Bool.and_eq_false_iff, decide_eq_false_iff_not]
          omega
        · have other : c.toNat ≠ 304 := fun same => notDotted (Char.toNat_inj.mp same)
          simp only [isOnRun, Bool.and_eq_false_iff, decide_eq_false_iff_not]
          omega

theorem isCapital_of_mem_lowerAfter {before s : List Char} {d : Char}
    (member : d ∈ lowerAfter before s) : isCapital d.toNat = false := by
  induction s generalizing before with
  | nil => simp [lowerAfter] at member
  | cons c rest ih =>
    rw [lowerAfter, List.mem_append] at member
    rcases member with here | later
    · split at here
      · rw [List.mem_singleton.mp here]
        split <;> decide +kernel
      · exact isCapital_of_mem_lowerChar here
    · exact ih later

theorem lowerAfter_eq_self {before s : List Char} (small : ∀ c ∈ s, isCapital c.toNat = false) :
    lowerAfter before s = s := by
  induction s generalizing before with
  | nil => rfl
  | cons c rest ih =>
    have here := small c (List.mem_cons_self ..)
    have noSigma : c ≠ 'Σ' := by
      rintro rfl
      have capital : isCapital 'Σ'.toNat = true := by decide +kernel
      rw [capital] at here
      cases here
    rw [lowerAfter, if_neg noSigma, lowerChar_of_not_isCapital here,
      ih fun d member => small d (List.mem_cons_of_mem c member)]
    rfl

@[simp] theorem lower_lower (s : String) : lower (lower s) = lower s := by
  unfold lower
  rw [String.toList_ofList, lowerAfter_eq_self fun c member => isCapital_of_mem_lowerAfter member]

end Colloquy.Text
