import Colloquy.Dialogue.Flow
import Colloquy.Template
/-!
# What is said

The texts of the current line and its choices, with their parameters filled in. All parameters are
asked for before any is read; one that is not set stays as it is written. A speaker is shown under
the name that the script or the host has given it.

A variable can be read as a value of a given kind: an unset one counts as the default of the kind, a
number is converted to the other kind of number, and anything else is logged and counts as unset.
-/

namespace Colloquy.Dialogue

open Play

variable {η δ : Type} (host : Host η δ)

/-- A text with its parameters filled in. -/
def resolve (text : String) (params : List String) : Play η δ String := do
  if params.isEmpty then return text
  else
    params.forM (request host)
    let d ← dialogue
    let used := (Template.params text).filterMap d.value?
    if used.all Value.isShowable then
      return Template.fill (fun name => (d.value? name).map Value.spoken) text
    else throw .tooManyDigits

/-- The text of the current line, empty when the dialogue has ended. -/
def lineText : Play η δ String := do
  match (← dialogue).current with
  | none => return ""
  | some line => resolve host line.text line.params

/-- The text of a choice, empty if there is none. -/
def choiceText (index : Int) : Play η δ String := do
  match (← dialogue).choice? index with
  | none =>
    logBadChoice index
    return ""
  | some edge => resolve host edge.text edge.params

/-- The name under which the current speaker is shown: the text of a variable made for it, else
the speaker as the script has it. -/
def speakerName : Play η δ String := do
  let d ← dialogue
  let key := "SpeakerName." ++ d.speaker
  match d.value? key with
  | none => return d.speaker
  | some (.text s) => return if s = "" then d.speaker else s
  | some v =>
    if v.isShowable then
      log .error ("Error in " ++ d.name ++ ": " ++ key ++ " is set to " ++ v.display
        ++ ", which is not text")
      return d.speaker
    else throw .tooManyDigits

/-- The parameters that the current line and its choices use. -/
def paramsUsed : Play η δ (List String) := do
  let (names, d) := (← dialogue).paramsInUse
  changeDialogue fun _ => d
  return names

/-! ### Variables -/

/-- The value of a variable as one of a kind. -/
def valueAs (kind : Kind) (name : String) : Play η δ Value := do
  match (← dialogue).value? name with
  | none => return kind.default
  | some v =>
    if v.kind = kind then return v
    else if v.isNumber && kind.default.isNumber then
      orFault .unsuitable (kind.rebuild (.value v))
    else if v.isShowable then
      log .warning ("Variable " ++ name ++ " is " ++ v.display ++ ", not " ++ kind.name)
      return kind.default
    else throw .tooManyDigits

/-- Sets a variable, telling of it if its value changes. -/
def setVariable (name : String) (d : Datum) : Play η δ Unit := do
  match d.value? with
  | none => throw (.unstorable name d)
  | some v => assign host name v false

end Colloquy.Dialogue
