import Colloquy.Json.Reader
import Colloquy.Json.Writer
/-!
# JSON texts read back

Every character that a text is written with reads back as it was, be it written as itself, by a letter or
by one or two UTF-16 units. So does a text between its quotes, whatever follows.
-/

namespace Colloquy.Json

/-! ### Escapes -/

theorem hexValue?_hexDigit {n : Nat} (small : n < 16) : hexValue? (Text.hexDigit n) = some n := by
  have all : ∀ n < 16, hexValue? (Text.hexDigit n) = some n := by decide
  exact all n small

theorem readUnit_hexDigits {n : Nat} (small : n < 65536) (rest : List Char) :
    readUnit (Text.hexDigits 4 n ++ rest) = some (n, rest) := by
  have digit (n : Nat) : hexValue? (Text.hexDigit (n % 16)) = some (n % 16) :=
    hexValue?_hexDigit (Nat.mod_lt n (by omega))
  have sum : (((n / 16 / 16 / 16 % 16) * 16 + n / 16 / 16 % 16) * 16 + n / 16 % 16) * 16 + n % 16 = n := by
    omega
  simp [Text.hexDigits, readUnit, digit, sum]

/-- A character of the first plane is one unit. -/
theorem readEscapedUnit_single {c : Char} (low : c.toNat < 0x10000) (rest : List Char) :
    readEscapedUnit (Text.hexDigits 4 c.toNat ++ rest) = some (c, rest) := by
  have valid : c.toNat < 0xD800 ∨ 0xDFFF < c.toNat ∧ c.toNat < 0x110000 := c.valid
  have first : ¬ (0xD800 ≤ c.toNat ∧ c.toNat < 0xDC00) := by omega
  have second : ¬ (0xDC00 ≤ c.toNat ∧ c.toNat < 0xE000) := by omega
  rw [readEscapedUnit, readUnit_hexDigits low]
  simp only [Option.bind_eq_bind, Option.bind_some]
  rw [if_neg (by simpa using first), if_neg (by simpa using second), Char.ofNat_toNat]
  rfl

theorem readEscapedUnit_units {unit low : Nat} (first : 0xD800 ≤ unit ∧ unit < 0xDC00)
    (second : 0xDC00 ≤ low ∧ low < 0xE000) (rest : List Char) :
    readEscapedUnit (Text.hexDigits 4 unit ++ (escapeUnit low ++ rest))
      = some (Char.ofNat (0x10000 + (unit - 0xD800) * 0x400 + (low - 0xDC00)), rest) := by
  rw [readEscapedUnit, readUnit_hexDigits (by omega), escapeUnit]
  simp only [Option.bind_eq_bind, Option.bind_some, List.cons_append, dropStart?, if_true]
  rw [if_pos (by simpa using first), readUnit_hexDigits (by omega)]
  simp only [Option.bind_some]
  rw [if_pos (by simpa using second)]
  rfl

/-- A character beyond the first plane is two units. -/
theorem readEscapedUnit_pair {c : Char} (high : ¬ c.toNat < 0x10000) (rest : List Char) :
    readEscapedUnit (Text.hexDigits 4 (0xD800 + (c.toNat - 0x10000) / 0x400)
      ++ (escapeUnit (0xDC00 + (c.toNat - 0x10000) % 0x400) ++ rest)) = some (c, rest) := by
  have valid : c.toNat < 0xD800 ∨ 0xDFFF < c.toNat ∧ c.toNat < 0x110000 := c.valid
  rw [readEscapedUnit_units (by omega) (by omega)]
  have sum : 0x10000 + (0xD800 + (c.toNat - 0x10000) / 0x400 - 0xD800) * 0x400
      + (0xDC00 + (c.toNat - 0x10000) % 0x400 - 0xDC00) = c.toNat := by omega
  rw [sum, Char.ofNat_toNat]

/-! ### Texts -/

/-- One more character, read before the others. -/
def before (c : Char) (result : Except ReadError (List Char × List Char)) :
    Except ReadError (List Char × List Char) := do
  let (chars, rest) ← result
  return (c :: chars, rest)

theorem readChars_escapeChar (c : Char) (fuel : Nat) (rest : List Char) :
    readChars (fuel + 1) (escapeChar c ++ rest) = before c (readChars fuel rest) := by
  rw [escapeChar]
  split
  next quoted =>
    obtain rfl | rfl : c = '"' ∨ c = '\\' := by simpa using quoted
    · rfl
    · rfl
  next plain =>
    -- first the signs that have an escape of their own
    split
    next same => subst same; rfl
    split
    next same => subst same; rfl
    split
    next same => subst same; rfl
    split
    next same => subst same; rfl
    split
    next same => subst same; rfl
    split
    next shown =>
      have printable : 32 ≤ c.toNat := by
        simp only [Bool.and_eq_true, decide_eq_true_eq] at shown
        exact shown.1
      have apart : c ≠ '"' ∧ c ≠ '\\' := by simpa using plain
      rw [List.singleton_append, readChars]
      · rw [if_neg (by simp [apart.2]; omega)]
        rfl
      · exact apart.1
      · exact fun _ same => absurd same apart.2
      · exact fun _ _ same => absurd same apart.2
    split
    next low =>
      rw [escapeUnit, List.cons_append, List.cons_append, readChars, readEscapedUnit_single low]
      rfl
    next high =>
      dsimp only
      rw [List.append_assoc, escapeUnit, List.cons_append, List.cons_append, readChars,
        readEscapedUnit_pair high]
      rfl

theorem readChars_escaped (chars rest : List Char) {fuel : Nat} (enough : chars.length < fuel) :
    readChars fuel (chars.flatMap escapeChar ++ '"' :: rest) = .ok (chars, rest) := by
  induction chars generalizing fuel with
  | nil =>
    obtain ⟨fuel, rfl⟩ := Nat.exists_eq_add_of_lt enough
    rfl
  | cons c chars ih =>
    obtain ⟨fuel, rfl⟩ : ∃ k, fuel = k + 1 := ⟨fuel - 1, by omega⟩
    rw [List.flatMap_cons, List.append_assoc, readChars_escapeChar,
      ih (by rw [List.length_cons] at enough; omega)]
    rfl

/-- What is left of a written text after its opening quote. -/
theorem readText_written (s : String) (rest : List Char) {fuel : Nat}
    (enough : s.toList.length < fuel) :
    readText fuel (s.toList.flatMap escapeChar ++ '"' :: rest) = .ok (s, rest) := by
  rw [readText, readChars_escaped _ _ enough]
  change Except.ok (String.ofList s.toList, rest) = _
  rw [String.ofList_toList]

end Colloquy.Json
