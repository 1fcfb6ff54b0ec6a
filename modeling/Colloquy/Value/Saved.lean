import Colloquy.Value.Datum
/-!
# Saved values

A saved value is a kind and a payload. The payload is what JSON can hold, so a gender is saved by
its name. A payload that does not fit its kind is converted if it can be.
-/

namespace Colloquy

/-- What JSON holds of a saved value. -/
inductive Payload where
  | bool (b : Bool)
  | int (n : Int)
  | float (x : Binary64)
  | text (s : String)
  deriving DecidableEq

/-- A value ready to be saved. -/
structure SavedValue where
  kind : Kind
  payload : Payload
  deriving DecidableEq

/-- Why no value can be made from a payload. -/
inductive RestoreError where
  /-- a text that is no numeral -/
  | notNumeral
  /-- a numeral or number beyond the digit limit -/
  | tooManyDigits
  /-- a number that is not a number -/
  | notANumber
  /-- an infinity as a whole number, or a whole number too large for a floating point number -/
  | outOfRange
  /-- a payload that names no gender -/
  | unknownGender
  /-- a datum that is no payload of the kind at all -/
  | unsuitable
  deriving DecidableEq

/-- A payload as a datum. -/
def Payload.datum : Payload → Datum
  | .bool b => .value (.bool b)
  | .int n => .value (.int n)
  | .float x => .value (.float x)
  | .text s => .value (.text s)

/-- Splits a value into its kind and what JSON holds of it. -/
def Value.save : Value → SavedValue
  | .int n => ⟨.int, .int n⟩
  | .float x => ⟨.float, .float x⟩
  | .bool b => ⟨.bool, .bool b⟩
  | .text s => ⟨.text, .text s⟩
  | .gender g => ⟨.gender, .text g.name⟩

namespace Kind

/-- The whole number that a datum is converted to. -/
def intOf : Datum → Except RestoreError Int
  | .value (.int n) => .ok n
  | .value (.bool b) => .ok (if b then 1 else 0)
  | .value (.float .nan) => .error .notANumber
  | .value (.float x) => x.truncate?.elim (.error .outOfRange) .ok
  | .value (.text s) =>
    match Number.readInt s with
    | .ok n => .ok n
    | .error .malformed => .error .notNumeral
    | .error .tooManyDigits => .error .tooManyDigits
  | _ => .error .unsuitable

/-- What a whole number has been converted to, unless it was out of range. -/
def inRange : Binary64 → Except RestoreError Binary64
  | .infinite _ => .error .outOfRange
  | x => .ok x

/-- The floating point number that a whole number is converted to, unless it is too large. -/
def floatOfInt (n : Int) : Except RestoreError Binary64 :=
  inRange (Binary64.ofInt n)

/-- The floating point number that a datum is converted to. -/
def floatOf : Datum → Except RestoreError Binary64
  | .value (.int n) => floatOfInt n
  | .value (.bool b) => floatOfInt (if b then 1 else 0)
  | .value (.float x) => .ok x
  | .value (.text s) => (Number.readFloat s).elim (.error .notNumeral) .ok
  | _ => .error .unsuitable

/-- The truth value that a datum is converted to: here every gender is true. -/
def boolOf : Datum → Bool
  | .value (.gender _) => true
  | d => d.truth

/-- The text that a datum is converted to. -/
def textOf (d : Datum) : Except RestoreError String :=
  match d with
  | .value (.text s) => .ok s
  | .value (.gender g) => .ok ("Gender." ++ g.label)
  | d => if d.isShowable then .ok d.display else .error .tooManyDigits

/-- The gender that a datum names. -/
def genderOf : Datum → Except RestoreError Gender
  | .value (.gender g) => .ok g
  | .value (.text s) => (Gender.ofName? s).elim (.error .unknownGender) .ok
  | _ => .error .unknownGender

/-- The value of a kind made from a datum. -/
def rebuild (kind : Kind) (d : Datum) : Except RestoreError Value :=
  match kind with
  | .int => (intOf d).map .int
  | .float => (floatOf d).map .float
  | .bool => .ok (.bool (boolOf d))
  | .text => (textOf d).map .text
  | .gender => (genderOf d).map .gender

end Kind

/-- The value that was saved. -/
def SavedValue.restore (s : SavedValue) : Except RestoreError Value :=
  s.kind.rebuild s.payload.datum

/-- What was saved comes back. -/
theorem Value.restore_save (v : Value) : v.save.restore = .ok v := by
  cases v with
  | int n => rfl
  | float x => rfl
  | bool b => rfl
  | text s => rfl
  | gender g => cases g <;> rfl

end Colloquy
