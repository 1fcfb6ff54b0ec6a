import Colloquy.Graph.ChoiceTree
import Colloquy.Json.Reader
import Colloquy.Json.Writer
/-!
# Saved graphs

A graph is saved as one JSON object. Nodes stand in the order of their positions, and expressions
are saved as their text and read again.

Reading goes in two steps. The schema says which fields each part has and of what type; data that
it admits are a `Record`. Then every reference is checked against the number of nodes, in the order
of the data, and every expression is read.
-/

namespace Colloquy

namespace Graph

/-! ### Writing -/

/-- A list of texts. -/
def textList (texts : List String) : Json :=
  .list (texts.map .text)

/-- A reference as it was written. -/
def refForm : Ref → Json
  | .at i => .int i
  | .decimal x => .float x

/-- A reference or nothing. -/
def refOrNull (r : Option Ref) : Json :=
  (r.map refForm).getD .null

/-- The parameters of a text, left out if there are none. -/
def paramFields (params : List String) : List (String × Json) :=
  if params.isEmpty then [] else [("params", textList params)]

/-- The saved form of an edge. -/
def edgeForm (e : Edge) : Json :=
  let guard := e.condition.elim [] fun c => [("condition", Json.text c.source)]
  let option :=
    if e.kind = .decision then
      [("text", Json.text e.text), ("text_id", Json.text e.textId)] ++ paramFields e.params
    else []
  .object ([("type", .text e.kind.name), ("target", refOrNull e.target)] ++ guard ++ option)

/-- What is saved of a node beside its kind, line and edges. -/
def payloadFields (n : Node) : List (String × Json) :=
  match n.kind with
  | .text =>
    [("speaker", Json.text n.speaker), ("text", Json.text n.text),
      ("text_id", Json.text n.textId)] ++ paramFields n.params
  | .setVariable =>
    [("identifier", Json.text n.identifier),
      ("expression", Json.text (n.expression.elim "" (·.source)))]
      ++ (if n.textId = "" then []
        else [("text", Json.text n.text), ("text_id", Json.text n.textId)])
  | .event =>
    [("event", Json.text n.eventName), ("args", textList (n.eventArgs.map (·.source)))]
  | _ => []

/-- The saved form of a node. -/
def nodeForm (n : Node) : Json :=
  .object ([("type", .text n.kind.name), ("line", refForm n.line),
    ("edges", .list (n.edges.map edgeForm))] ++ payloadFields n)

/-- The saved form of a graph. -/
def form (g : Graph) : Json :=
  .object [("version", .int 1), ("name", .text g.name), ("first", refOrNull g.first),
    ("header", refOrNull g.header),
    ("labels", .object (g.labels.map fun l => (l.1, refForm l.2))),
    ("nodes", .list (g.nodes.map nodeForm))]

/-- The text of a file that holds a graph. -/
def fileText (g : Graph) : String :=
  g.form.indented

end Graph

/-! ### The schema -/

/-- Data of an edge that the schema admits. -/
structure EdgeRecord where
  kind : EdgeKind
  target : Option Ref
  condition : Option String
  text : Option String
  textId : Option String
  params : Option (List String)

/-- Data of a node that the schema admits. -/
structure NodeRecord where
  kind : NodeKind
  line : Option Ref
  edges : List EdgeRecord
  speaker : Option String
  text : Option String
  textId : Option String
  params : Option (List String)
  identifier : Option String
  expression : Option String
  event : Option String
  args : Option (List String)

/-- Data of a graph that the schema admits. -/
structure GraphRecord where
  name : String
  first : Option Ref
  header : Option Ref
  labels : List (String × Ref)
  nodes : List NodeRecord

namespace Schema

/-- A text. -/
def text? : Json → Option String
  | .text s => some s
  | _ => none

/-- A text that is not empty. -/
def filled? : Json → Option String
  | .text s => if s = "" then none else some s
  | _ => none

/-- A list of which every item is admitted. -/
def list? {α : Type} (item : Json → Option α) : Json → Option (List α)
  | .list items => items.mapM item
  | _ => none

/-- A whole number that is not negative, also if it is written with a decimal point. -/
def count? : Json → Option Ref
  | .int n => if n < 0 then none else some (.at n)
  | .float x =>
    if x.isWhole && Binary64.compareInt? 0 x ≠ some .gt then some (.decimal x) else none
  | _ => none

/-- A count or null. -/
def countOrNull? : Json → Option (Option Ref)
  | .null => some none
  | value => (count? value).map some

/-- The fields of an object that has no others than those named. -/
def fields? (names : List String) : Json → Option (List (String × Json))
  | .object fields => if fields.all (fun f => names.contains f.1) then some fields else none
  | _ => none

/-- A field that must be there. -/
def required {α : Type} (fields : List (String × Json)) (name : String)
    (item : Json → Option α) : Option α :=
  (Json.field? fields name).bind item

/-- A field that may be missing. -/
def optional {α : Type} (fields : List (String × Json)) (name : String)
    (item : Json → Option α) : Option (Option α) :=
  match Json.field? fields name with
  | none => some none
  | some value => (item value).map some

/-- An edge. -/
def edge? (value : Json) : Option EdgeRecord := do
  let fields ← fields? ["type", "target", "condition", "text", "text_id", "params"] value
  let kind ← (← required fields "type" text?) |> EdgeKind.ofName?
  let target ← required fields "target" countOrNull?
  let condition ← optional fields "condition" filled?
  let text ← optional fields "text" text?
  let textId ← optional fields "text_id" text?
  let params ← optional fields "params" (list? filled?)
  return ⟨kind, target, condition, text, textId, params⟩

/-- Whether a node has the fields that its kind requires. A goto is no kind of node here. -/
def isComplete (n : NodeRecord) : Bool :=
  match n.kind with
  | .text => n.speaker.isSome && n.text.isSome && n.textId.isSome
  | .setVariable => n.identifier.isSome && n.expression.isSome
  | .event => n.event.isSome
  | .goto => false
  | _ => true

/-- A node. -/
def node? (value : Json) : Option NodeRecord := do
  let fields ← fields? ["type", "line", "edges", "speaker", "text", "text_id", "params",
    "identifier", "expression", "event", "args"] value
  let kind ← (← required fields "type" text?) |> NodeKind.ofName?
  let line ← optional fields "line" count?
  let edges ← required fields "edges" (list? edge?)
  let speaker ← optional fields "speaker" text?
  let text ← optional fields "text" text?
  let textId ← optional fields "text_id" text?
  let params ← optional fields "params" (list? filled?)
  let identifier ← optional fields "identifier" filled?
  let expression ← optional fields "expression" filled?
  let event ← optional fields "event" filled?
  let args ← optional fields "args" (list? filled?)
  let n : NodeRecord :=
    ⟨kind, line, edges, speaker, text, textId, params, identifier, expression, event, args⟩
  if isComplete n then return n else none

/-- The labels with their targets. -/
def labels? : Json → Option (List (String × Ref))
  | .object fields => fields.mapM fun f => (count? f.2).map (f.1, ·)
  | _ => none

/-- The version of the format: one, however it is written. -/
def version? (value : Json) : Option Unit := do
  if (← count? value).isAt 1 then return () else none

/-- A graph. -/
def graph? (value : Json) : Option GraphRecord := do
  let fields ← fields? ["version", "name", "first", "header", "labels", "nodes"] value
  required fields "version" version?
  let name ← required fields "name" text?
  let first ← required fields "first" countOrNull?
  let header ← required fields "header" countOrNull?
  let labels ← required fields "labels" labels?
  let nodes ← required fields "nodes" (list? node?)
  return ⟨name, first, header, labels, nodes⟩

end Schema

/-! ### Reading -/

/-- Where in a saved graph something stands. -/
inductive Place where
  | first
  | header
  | label (name : String)
  | edge (node edge : Nat)
  | node (node : Nat)
  deriving DecidableEq

/-- Why data are no graph. -/
inductive GraphFault where
  /-- the schema refuses the data -/
  | schema
  /-- the text is no JSON -/
  | notJson
  /-- a reference to a node that does not exist -/
  | badRef (place : Place) (r : Ref) (count : Nat)
  /-- a text that is no expression -/
  | badExpression (place : Place) (source : String) (e : Expression.ParseError)
  /-- a numeral beyond the digit limit -/
  | tooManyDigits
  /-- a text that is nested too deep -/
  | tooDeep
  /-- a reference that cannot be followed -/
  | lost (f : RefFault)
  deriving DecidableEq

/-- A place in messages. -/
def Place.display : Place → String
  | .first => "first"
  | .header => "header"
  | .label name => "label '" ++ name ++ "'"
  | .edge n k => "node " ++ Number.natText n ++ " edge " ++ Number.natText k
  | .node n => "node " ++ Number.natText n

/-- What is wrong with the data; for refused data and texts the bare fact. -/
def GraphFault.message : GraphFault → String
  | .schema => "schema"
  | .notJson => "json"
  | .badRef place r count =>
    place.display ++ " refers to node " ++ r.display ++ " but there are only "
      ++ Number.natText count
  | .badExpression place source e =>
    "Bad expression at " ++ place.display ++ ": " ++ e.message source
  | .tooManyDigits => ""
  | .tooDeep => ""
  | .lost _ => ""

namespace GraphRecord

/-- Checks that a reference is to one of `count` nodes. -/
def checkRef (count : Nat) (place : Place) : Option Ref → Except GraphFault Unit
  | none => .ok ()
  | some r =>
    if (r.compareNat? count).elim false (· = .lt) then .ok () else .error (.badRef place r count)

/-- Reads the expression at a place. -/
def readExpression (place : Place) (text : String) : Except GraphFault Expression :=
  match Expression.parse text with
  | .ok e => .ok e
  | .error (.rejected e) => .error (.badExpression place (Text.trimString text) e)
  | .error .tooManyDigits => .error .tooManyDigits

/-- Reads the expression at a place if there is one. -/
def readOptional (place : Place) (text : Option String) : Except GraphFault (Option Expression) :=
  match text with
  | none => .ok none
  | some s => (readExpression place s).map some

/-- Reads an edge. -/
def readEdge (count node : Nat) (r : EdgeRecord) (k : Nat) : Except GraphFault Edge := do
  checkRef count (.edge node k) r.target
  let condition ← readOptional (.edge node k) r.condition
  return {
    kind := r.kind
    target := r.target
    condition := condition
    text := r.text.getD ""
    textId := r.textId.getD ""
    params := r.params.getD [] }

/-- Reads a node. -/
def readNode (g : GraphRecord) (r : NodeRecord) (index : Nat) : Except GraphFault Node := do
  let edges ← r.edges.zipIdx.mapM fun e => readEdge g.nodes.length index e.1 e.2
  let expression ← readOptional (.node index) r.expression
  let args ← (r.args.getD []).mapM (readExpression (.node index))
  return {
    index := index
    kind := r.kind
    line := r.line.getD (.at 0)
    edges := edges
    labels := (g.labels.filter fun l => l.2.isAt index).map (·.1)
    speaker := r.speaker.getD ""
    text := r.text.getD ""
    textId := r.textId.getD ""
    params := r.params.getD []
    identifier := r.identifier.getD ""
    expression := expression
    eventName := r.event.getD ""
    eventArgs := args }

/-- The graph that a record describes. -/
def toGraph (g : GraphRecord) : Except GraphFault Graph := do
  let count := g.nodes.length
  checkRef count .first g.first
  checkRef count .header g.header
  g.labels.forM fun l => checkRef count (.label l.1) (some l.2)
  let nodes ← g.nodes.zipIdx.mapM fun n => g.readNode n.1 n.2
  match Graph.ofNodes g.name nodes g.first g.header g.labels with
  | .ok graph => return graph
  | .error f => .error (.lost f)

end GraphRecord

namespace Graph

/-- The graph that data describe. -/
def ofForm (data : Json) : Except GraphFault Graph :=
  match Schema.graph? data with
  | none => .error .schema
  | some record => record.toGraph

/-- The graph that the text of a file holds. -/
def ofFileText (text : String) : Except GraphFault Graph :=
  match Json.read text with
  | .ok data => ofForm data
  | .error .malformed => .error .notJson
  | .error .tooManyDigits => .error .tooManyDigits
  | .error .tooDeep => .error .tooDeep

end Graph

end Colloquy
