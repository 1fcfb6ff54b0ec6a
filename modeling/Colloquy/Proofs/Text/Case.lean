import Colloquy.Proofs.Text.Trim
import Colloquy.Text.Fold
import Colloquy.Text.Line
import Colloquy.Text.Characters
import Mathlib.Data.List.Forall2
/-!
# Texts that differ in case

Two texts are alike if they differ only in the case of letters of ASCII. Such letters are no blanks
and no signs, so alike texts are cut and trimmed at the same places, and they have the same lower
case.
-/

namespace Colloquy.Text

/-- Whether two characters are the same but for the case of a letter of ASCII. -/
def SameLetter (c d : Char) : Prop :=
  c.toLower = d.toLower

instance (c d : Char) : Decidable (SameLetter c d) :=
  inferInstanceAs (Decidable (_ = _))

/-- Whether two texts are the same but for the case of letters of ASCII. -/
def Alike : List Char → List Char → Prop :=
  List.Forall₂ SameLetter

instance (s t : List Char) : Decidable (Alike s t) :=
  inferInstanceAs (Decidable (List.Forall₂ SameLetter s t))

namespace SameLetter

variable {c d : Char}

theorem toLower_eq_self (wide : ¬ c.toNat < 128) : c.toLower = c := by
  unfold Char.toLower
  rw [dif_neg]
  intro capital
  have upper : c.toNat ≤ 90 := by simpa [UInt32.le_iff_toNat_le] using capital.2
  omega

theorem toNat_toLower_lt (ascii : c.toNat < 128) : c.toLower.toNat < 128 := by
  have table : ∀ n < 128, (Char.ofNat n).toLower.toNat < 128 := by decide +kernel
  have low := table c.toNat ascii
  rwa [Char.ofNat_toNat] at low

/-- Beyond ASCII only a character itself is the same letter. -/
theorem eq_or_ascii (same : SameLetter c d) : c = d ∨ c.toNat < 128 ∧ d.toNat < 128 := by
  by_cases left : c.toNat < 128
  · by_cases right : d.toNat < 128
    · exact .inr ⟨left, right⟩
    · have low := toNat_toLower_lt left
      rw [same, toLower_eq_self right] at low
      exact absurd low right
  · by_cases right : d.toNat < 128
    · have low := toNat_toLower_lt right
      rw [← same, toLower_eq_self left] at low
      exact absurd low left
    · rw [SameLetter, toLower_eq_self left, toLower_eq_self right] at same
      exact .inl same

/-- What does not change with the case of letters of ASCII is the same of both. -/
theorem agree {α : Type} {f : Char → α} (same : SameLetter c d)
    (low : ∀ n < 128, f (Char.ofNat n) = f (Char.ofNat n).toLower) : f c = f d := by
  obtain rfl | ⟨left, right⟩ := same.eq_or_ascii
  · rfl
  · -- both agree with their common lower case
    have first := low c.toNat left
    have second := low d.toNat right
    rw [Char.ofNat_toNat] at first second
    rw [first, second, same]

theorem isBlank (same : SameLetter c d) : isBlank c = isBlank d :=
  same.agree (by decide +kernel)

theorem isWord (same : SameLetter c d) : isWord c = isWord d :=
  same.agree (by decide +kernel)

theorem isCased (same : SameLetter c d) : isCased c = isCased d :=
  same.agree (by decide +kernel)

theorem isIgnorable (same : SameLetter c d) : isIgnorable c = isIgnorable d :=
  same.agree (by decide +kernel)

theorem lowerChar (same : SameLetter c d) : lowerChar c = lowerChar d :=
  same.agree (by decide +kernel)

/-- What is no letter of ASCII is the same as nothing else. -/
theorem eq_of_plain (same : SameLetter c d) (plain : c.isAlpha = false) : c = d := by
  obtain rfl | ⟨left, right⟩ := same.eq_or_ascii
  · rfl
  · have both : c.isAlpha = d.isAlpha := same.agree (by decide +kernel)
    have table : ∀ n < 128, (Char.ofNat n).isAlpha = false →
        (Char.ofNat n).toLower = Char.ofNat n := by decide +kernel
    have first := table c.toNat left
    have second := table d.toNat right
    rw [Char.ofNat_toNat] at first second
    rw [← first plain, ← second (both ▸ plain)]
    exact same

theorem eq_sign (same : SameLetter c d) {sign : Char} (plain : sign.isAlpha = false) :
    c = sign ↔ d = sign := by
  have back : SameLetter d c := Eq.symm same
  constructor
  · rintro rfl
    exact (same.eq_of_plain plain).symm
  · rintro rfl
    exact (back.eq_of_plain plain).symm

end SameLetter

namespace Alike

variable {s t : List Char}

theorem refl (s : List Char) : Alike s s :=
  List.forall₂_same.2 fun _ _ => rfl

theorem symm (alike : Alike s t) : Alike t s :=
  List.Forall₂.flip (alike.imp fun _ _ same => Eq.symm same)

theorem takeWhile {p : Char → Bool} (alike : Alike s t)
    (same : ∀ c d, SameLetter c d → p c = p d) : Alike (s.takeWhile p) (t.takeWhile p) := by
  induction alike with
  | nil => exact .nil
  | @cons c d s t first _ ih =>
    rw [List.takeWhile_cons, List.takeWhile_cons, same c d first]
    split
    · exact .cons first ih
    · exact .nil

theorem dropWhile {p : Char → Bool} (alike : Alike s t)
    (same : ∀ c d, SameLetter c d → p c = p d) : Alike (s.dropWhile p) (t.dropWhile p) := by
  induction alike with
  | nil => exact .nil
  | @cons c d s t first rest ih =>
    rw [List.dropWhile_cons, List.dropWhile_cons, same c d first]
    split
    · exact ih
    · exact .cons first rest

theorem reverse (alike : Alike s t) : Alike s.reverse t.reverse :=
  List.forall₂_reverse_iff.2 alike

theorem trimLeft (alike : Alike s t) : Alike (trimLeft s) (trimLeft t) :=
  alike.dropWhile fun _ _ => SameLetter.isBlank

theorem trimRight (alike : Alike s t) : Alike (trimRight s) (trimRight t) :=
  (alike.reverse.dropWhile fun _ _ => SameLetter.isBlank).reverse

theorem trim (alike : Alike s t) : Alike (trim s) (trim t) :=
  alike.trimLeft.trimRight

theorem eq_nil (alike : Alike s t) : s = [] ↔ t = [] := by
  cases alike with
  | nil => exact Iff.rfl
  | cons => simp

theorem isEmpty (alike : Alike s t) : s.isEmpty = t.isEmpty := by
  cases alike <;> rfl

/-- Alike texts begin with the same sign. -/
theorem head (alike : Alike s t) {sign : Char} (plain : sign.isAlpha = false) :
    s.head? = some sign ↔ t.head? = some sign := by
  cases alike with
  | nil => exact Iff.rfl
  | cons first => simpa using first.eq_sign plain

theorem getLast? (alike : Alike s t) : Option.Rel SameLetter s.getLast? t.getLast? := by
  rw [← List.head?_reverse, ← List.head?_reverse]
  have back := alike.reverse
  generalize s.reverse = u at back
  generalize t.reverse = v at back
  cases back with
  | nil => exact .none
  | cons last _ => exact .some last

/-- Alike texts without letters are the same. -/
theorem eq_of_plain (alike : Alike s t) (plain : ∀ c ∈ s, c.isAlpha = false) : s = t := by
  induction alike with
  | nil => rfl
  | cons first _ ih =>
    obtain ⟨sign, signs⟩ := List.forall_mem_cons.1 plain
    rw [first.eq_of_plain sign, ih signs]

theorem expandTabsFrom (width column : Nat) (alike : Alike s t) :
    Alike (expandTabsFrom width column s) (expandTabsFrom width column t) := by
  induction alike generalizing column with
  | nil => exact .nil
  | @cons c d s t first _ ih =>
    rw [Text.expandTabsFrom, Text.expandTabsFrom]
    dsimp only
    have tabs : c = '\t' ↔ d = '\t' := first.eq_sign rfl
    by_cases tab : c = '\t'
    · rw [if_pos tab, if_pos (tabs.1 tab)]
      exact List.rel_append (refl _) (ih _)
    · rw [if_neg tab, if_neg fun other => tab (tabs.2 other)]
      exact .cons first (ih _)

theorem meetsLetter (alike : Alike s t) : meetsLetter s = meetsLetter t := by
  have rest := alike.dropWhile fun _ _ => SameLetter.isIgnorable
  unfold Text.meetsLetter
  generalize s.dropWhile _ = u at rest
  generalize t.dropWhile _ = v at rest
  cases rest with
  | nil => rfl
  | cons first => exact first.isCased

theorem lowerAfter {before before' : List Char} (earlier : Alike before before')
    (alike : Alike s t) : lowerAfter before s = lowerAfter before' t := by
  induction alike generalizing before before' with
  | nil => rfl
  | @cons c d s t first rest ih =>
    -- the sigma alone depends on what stands around it, and only on whether that is a letter
    have sigma : c = 'Σ' ↔ d = 'Σ' := first.eq_sign rfl
    have mapped : (if c = 'Σ' then
          [if Text.meetsLetter before && !Text.meetsLetter s then 'ς' else 'σ'] else lowerChar c)
        = if d = 'Σ' then
          [if Text.meetsLetter before' && !Text.meetsLetter t then 'ς' else 'σ']
          else lowerChar d := by
      rw [earlier.meetsLetter, meetsLetter rest, first.lowerChar]
      exact if_congr sigma rfl rfl
    rw [Text.lowerAfter, Text.lowerAfter, mapped, ih (.cons first earlier)]

/-- Alike texts have the same lower case. -/
theorem lower {s t : String} (alike : Alike s.toList t.toList) : lower s = lower t := by
  rw [Text.lower, Text.lower, lowerAfter .nil alike]

theorem lower_ofList (alike : Alike s t) :
    Text.lower (String.ofList s) = Text.lower (String.ofList t) := by
  apply lower
  rw [String.toList_ofList, String.toList_ofList]
  exact alike

end Alike

end Colloquy.Text
