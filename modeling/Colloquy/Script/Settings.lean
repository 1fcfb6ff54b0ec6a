import Colloquy.Json.Reader
/-!
# Settings of the compiler

Three settings with their ranges. They are read from the fields of a JSON object, all faults being
reported together by the names of the fields; a whole number may also be given as a truth value, as
a decimal without a fraction, or as a numeral.
-/

namespace Colloquy

/-- Settings of the compiler: how many columns a tab stands for at most, the label that ends a
dialogue, and how many digits a text id takes from the digest. -/
structure Settings where
  tabWidth : Nat
  endLabel : String
  textIdLength : Nat
  tab_range : 1 ≤ tabWidth ∧ tabWidth ≤ 16
  label_range : endLabel ≠ ""
  id_range : 4 ≤ textIdLength ∧ textIdLength ≤ 64

namespace Settings

/-- The settings that hold where none are given. -/
def standard : Settings :=
  ⟨4, "end", 10, by decide, by decide, by decide⟩

/-- Whether nothing follows the whole part of a numeral but a point and zeros. -/
def isBlankPart : List Char → Bool
  | [] => true
  | '.' :: zeros => !zeros.isEmpty && zeros.all (· = '0')
  | _ => false

/-- A numeral that is given in place of a number: decimal digits after an optional sign, with
nothing but zeros after the point if there is one. A single underscore may stand between two
digits; zeros at the start count for nothing, however many and with any underscores after them. -/
def numeral? (text : String) : Option Int :=
  let (negative, body) := Number.readSign (Number.trimMargin text.toList)
  let zeros :=
    if body.head? = some '0' then body.takeWhile fun c => c = '0' || c = '_' else []
  let (digits, places) := Number.readDigits false (body.drop zeros.length)
  let begun := !digits.isEmpty || zeros.getLast? = some '0'
  if begun && digits.all Char.isDigit && isBlankPart places then
    let n : Int := Text.numeralValue digits
    some (if negative then -n else n)
  else none

/-- The whole number that a value gives. -/
def whole? : Json → Option Int
  | .int n => some n
  | .bool b => some (if b then 1 else 0)
  | .float x => if x.isWhole then x.truncate? else none
  | .text s => numeral? s
  | _ => none

/-- The whole number that a value gives, if it lies in a range. -/
def within? (low high : Nat) (value : Json) : Option { n : Nat // low ≤ n ∧ n ≤ high } := do
  let n ← whole? value
  if n < 0 then none
  else if h : low ≤ n.toNat ∧ n.toNat ≤ high then some ⟨n.toNat, h⟩
  else none

/-- The text that a value gives, if it is not empty. -/
def label? : Json → Option { s : String // s ≠ "" }
  | .text s => if h : s ≠ "" then some ⟨s, h⟩ else none
  | _ => none

/-- Settings with one of them set anew; none if there is no setting of that name or the value is
not allowed. -/
def set? (s : Settings) (name : String) (value : Json) : Option Settings :=
  match name with
  | "tab_width" =>
    (within? 1 16 value).map fun n => { s with tabWidth := n.1, tab_range := n.2 }
  | "end_label" =>
    (label? value).map fun l => { s with endLabel := l.1, label_range := l.2 }
  | "text_id_length" =>
    (within? 4 64 value).map fun n => { s with textIdLength := n.1, id_range := n.2 }
  | _ => none

/-- Settings with one of them set anew while they are in use. A name that begins with an underscore
is a remark of whoever uses them, which settings do not keep. -/
def assign? (s : Settings) (name : String) (value : Json) : Option Settings :=
  if name.toList.head? = some '_' then some s else s.set? name value

/-- The names of the settings at fault, in order and each once. -/
def faults (fields : List (String × Json)) : List String :=
  let bad := fields.filter fun f =>
    match Json.field? fields f.1 with
    | some value => (set? standard f.1 value).isNone
    | none => false
  (bad.map (·.1)).eraseDups.mergeSort (fun a b => a ≤ b)

/-- Settings from the fields of an object, or the names of the fields at fault. -/
def ofFields (fields : List (String × Json)) : Except (List String) Settings :=
  match faults fields with
  | [] => .ok (fields.foldl (fun s f => (set? s f.1 f.2).getD s) standard)
  | bad => .error bad

/-- Settings from the text of a file; a text that is no JSON object has no field at fault. -/
def ofText (text : String) : Except (List String) Settings :=
  match Json.readAll .records text with
  | .ok (.object fields) => ofFields fields
  | _ => .error []

end Settings

end Colloquy
