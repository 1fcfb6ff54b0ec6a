import Colloquy.Json.Reader
import Colloquy.Json.Writer
import Colloquy.Value.Saved
import Colloquy.Table
/-!
# Snapshots

What has to be kept of a dialogue to go on with it later: the text id of the current line, the
variables and the choices taken. A snapshot is written as a JSON object. Reading one reports all
faulty fields together; a payload keeps the kind of number it was written as, and since JSON has no
infinities, a payload that is not finite is written as null, which is not read again.
-/

namespace Colloquy

/-- What is kept of a dialogue. The text id is empty if the dialogue has ended. -/
structure Snapshot where
  textId : String := ""
  vars : List (String × SavedValue) := []
  taken : List String := []
  deriving DecidableEq

/-- The payload that a JSON value is. -/
def Payload.ofJson? : Json → Option Payload
  | .bool b => some (.bool b)
  | .int n => some (.int n)
  | .float x => some (.float x)
  | .text s => some (.text s)
  | _ => none

/-- A payload as a JSON value. -/
def Payload.form : Payload → Json
  | .bool b => .bool b
  | .int n => .int n
  | .float x => if x.isFinite then .float x else .null
  | .text s => .text s

namespace SavedValue

/-- The saved value that a JSON value is: an object with a kind and a payload and nothing else. -/
def ofJson? : Json → Option SavedValue
  | .object fields => do
    let kind ← match Json.field? fields "type" with
      | some (.text s) => Kind.ofName? s
      | _ => none
    let payload ← (Json.field? fields "value").bind Payload.ofJson?
    if fields.all fun f => f.1 = "type" || f.1 = "value" then some ⟨kind, payload⟩ else none
  | _ => none

/-- A saved value as a JSON value. -/
def form (s : SavedValue) : Json :=
  .object [("type", .text s.kind.name), ("value", s.payload.form)]

end SavedValue

namespace Snapshot

/-- Whether all payloads of a snapshot can be shown. -/
def isShowable (s : Snapshot) : Bool :=
  s.vars.all fun v => v.2.payload.datum.isShowable

/-- Keeps a line, variables and the choices taken. -/
def capture (textId : String) (vars : List (String × Value)) (taken : List String) :
    Snapshot :=
  ⟨textId, vars.map fun v => (v.1, v.2.save), taken⟩

/-- Whether the dialogue had ended. -/
def isEnded (s : Snapshot) : Bool :=
  s.textId = ""

/-- The variables as they were. -/
def values (s : Snapshot) : Except RestoreError (List (String × Value)) :=
  s.vars.mapM fun v => (v.2.restore).map (v.1, ·)

/-! ### Writing -/

/-- A snapshot as a JSON value. -/
def form (s : Snapshot) : Json :=
  .object [("text_node_id", .text s.textId),
    ("variables", .object (s.vars.map fun v => (v.1, v.2.form))),
    ("choices_taken", .list (s.taken.map .text))]

/-- A snapshot as text. It is meant for what is read back from it: a character beyond ASCII is written
as an escape here, where it may as well stand for itself. -/
def text (s : Snapshot) : String :=
  s.form.compact

/-! ### Reading -/

/-- The text that a JSON value is. -/
def text? : Json → Option String
  | .text s => some s
  | _ => none

/-- The variables that a JSON value holds; of two of one name the later counts, but both have to be
saved values. -/
def vars? : Json → Option (List (String × SavedValue))
  | .object fields => do
    let all ← fields.mapM fun f => (SavedValue.ofJson? f.2).map (f.1, ·)
    return setEntries [] all
  | _ => none

/-- The choices that a JSON value lists, each once. -/
def taken? : Json → Option (List String)
  | .list items => (items.mapM text?).map List.eraseDups
  | _ => none

/-- A snapshot with one of its fields set; none if there is no field of that name or the value is
not allowed. -/
def set? (s : Snapshot) (name : String) (value : Json) : Option Snapshot :=
  match name with
  | "text_node_id" => (text? value).map fun t => { s with textId := t }
  | "variables" => (vars? value).map fun vs => { s with vars := vs }
  | "choices_taken" => (taken? value).map fun cs => { s with taken := cs }
  | _ => none

/-- The names of the fields at fault, in order and each once. -/
def faults (fields : List (String × Json)) : List String :=
  let bad := fields.filter fun f =>
    match Json.field? fields f.1 with
    | some value => (set? {} f.1 value).isNone
    | none => false
  (bad.map (·.1)).eraseDups.mergeSort (fun a b => a ≤ b)

/-- A snapshot from the fields of an object, or the names of the fields at fault. -/
def ofFields (fields : List (String × Json)) : Except (List String) Snapshot :=
  match faults fields with
  | [] => .ok (fields.foldl (fun s f => (set? s f.1 f.2).getD s) {})
  | bad => .error bad

/-- A snapshot from text; a text that is no JSON object has no field at fault. -/
def ofText (text : String) : Except (List String) Snapshot :=
  match Json.readAll .records text with
  | .ok (.object fields) => ofFields fields
  | _ => .error []

end Snapshot

end Colloquy
