import Colloquy.Digest.Sha256
import Colloquy.Graph.Basic
import Colloquy.Script.Diagnostic
import Colloquy.Text.Quoted
/-!
# Text ids

Every text that may be translated has an id. An id given in the script is kept; all others are made
from a digest of the content, so that they outlive changes elsewhere in the script, with a number at
the end if the id is in use already.
-/

namespace Colloquy.Script.TextId

/-- The digest of a content, in hexadecimal digits. -/
def digest (content : String) : String :=
  String.ofList ((Digest.sha256 content.toUTF8.toList).flatMap fun b => Text.hexDigits 2 b.toNat)

/-- The ids that may be made from a digest: its first digits, then the same with a number from two
on, one more than there are ids in use. -/
def candidates (base : String) (count : Nat) : List String :=
  base :: (List.range count).map fun k => base ++ "_" ++ Number.natText (k + 2)

/-- The id of a content, other than those in use. -/
def make (hash : String → String) (length : Nat) (content : String) (used : List String) :
    String :=
  let base := String.ofList (((hash content).toList.take length).map Char.toUpper)
  ((candidates base used.length).find? fun id => !used.contains id).getD base

/-! ### Ids given in the script -/

/-- The ids that a node has from the script, and where they stand: `lines` are the lines of its
edges. -/
def explicit (n : Node) (line : Nat) (lines : List Nat) : List (String × Nat) :=
  let own := if n.textId = "" then [] else [(n.textId, line)]
  own ++ (n.edges.zip lines).filterMap fun e =>
    if e.1.kind = .decision && e.1.textId ≠ "" then some (e.1.textId, e.2) else none

/-- Warnings about ids that are given twice. -/
def repeated (used : List String) : List (String × Nat) → List Diagnostic
  | [] => []
  | (id, line) :: rest =>
    let found := repeated (id :: used) rest
    if used.contains id then
      .warn line ("Text id @" ++ id ++ "@ is used more than once") :: found
    else found

/-! ### Ids made from contents -/

/-- An edge with an id, if it is an option, and the ids then in use. -/
def assignEdge (hash : String → String) (length : Nat) (e : Edge) (used : List String) :
    Edge × List String :=
  if e.kind = .decision && e.textId = "" then
    let id := make hash length ("\x00" ++ e.text) used
    ({ e with textId := id }, id :: used)
  else (e, used)

/-- Edges with ids, in order. -/
def assignEdges (hash : String → String) (length : Nat) :
    List Edge → List String → List Edge × List String
  | [], used => ([], used)
  | e :: rest, used =>
    let (e, used) := assignEdge hash length e used
    let (rest, used) := assignEdges hash length rest used
    (e :: rest, used)

/-- The content that a node's own id is made from: a line said, or a text that a variable is set
to. -/
def content? (n : Node) : Option String :=
  match n.kind with
  | .text => some (n.speaker ++ "\x00" ++ n.text)
  | .setVariable => if n.text = "" then none else some (n.identifier ++ "\x00" ++ n.text)
  | _ => none

/-- A node with ids for itself and its options, and the ids then in use. -/
def assignNode (hash : String → String) (length : Nat) (n : Node) (used : List String) :
    Node × List String :=
  let (n, used) :=
    match if n.textId = "" then content? n else none with
    | some content =>
      let id := make hash length content used
      ({ n with textId := id }, id :: used)
    | none => (n, used)
  let (edges, used) := assignEdges hash length n.edges used
  ({ n with edges := edges }, used)

/-- Nodes with ids, in order. -/
def assignNodes (hash : String → String) (length : Nat) : List Node → List String → List Node
  | [], _ => []
  | n :: rest, used =>
    let (n, used) := assignNode hash length n used
    n :: assignNodes hash length rest used

end Colloquy.Script.TextId
