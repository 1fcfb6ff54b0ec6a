import Colloquy.Script.Settings
import Colloquy.Script.Wiring
/-!
# Linking

Once all lines are read, loose ends are tied by searches and gotos are resolved. A loose end goes on
at the first later node that is indented less than what it belongs to and lies in no branch but its
own. A goto stands for the node that its label, followed through further gotos, leads to.
-/

namespace Colloquy.Script

/-! ### Searches -/

/-- Whether a search that looks for an indent below `reach` may stop at a node. -/
def accepts (reach : Nat) (path : List Branch) (d : Draft) : Bool :=
  d.indent < reach && d.path.all path.contains

/-- The first node from a position on at which a search may stop. -/
def fallthrough? (nodes : List Draft) (start reach : Nat) (path : List Branch) : Option Nat :=
  ((nodes.drop start).findIdx? (accepts reach path)).map (· + start)

/-- An edge whose search, if it is left to one, has been made. -/
def settleEdge (nodes : List Draft) (e : DraftEdge) : DraftEdge :=
  match e.destination with
  | .search start =>
    { e with destination := (fallthrough? nodes start e.reach e.path).elim .end .to }
  | _ => e

/-- A node with all searches made; a step without a successor gets the one that a search finds. -/
def settleDraft (nodes : List Draft) (i : Nat) (d : Draft) : Draft :=
  if d.isLoose then
    let destination := (fallthrough? nodes (i + 1) d.reach d.path).elim Destination.end .to
    { d with edges := [{ kind := .continue, destination := destination }] }
  else { d with edges := d.edges.map (settleEdge nodes) }

/-- All nodes with all searches made. -/
def settleAll (nodes : List Draft) : List Draft :=
  nodes.mapIdx (settleDraft nodes)

/-! ### Gotos -/

/-- The label that a node goes to, if it is a goto. -/
def Draft.gotoLabel? (d : Draft) : Option String :=
  match d.step with
  | .goto label => some label
  | _ => none

/-- The gotos resolved so far, each with the node that it leads to or none for the end, and what was
found wrong. -/
structure GotoTable where
  targets : List (Nat × Option Nat) := []
  diagnostics : List Diagnostic := []
  deriving DecidableEq

/-- Where a goto leads and the gotos on the way there. -/
structure Trail where
  chain : List Nat
  target : Option Nat
  fault : Option Diagnostic
  deriving DecidableEq

/-- Follows gotos from a position. `start` is the goto that the trail began with and `chain` what it
has passed; `fuel` is more than the number of nodes that it can pass. -/
def followGotos (endLabel : String) (nodes : List Draft) (labels : List (String × Option Nat))
    (targets : List (Nat × Option Nat)) (start : Nat) : Nat → Option Nat → List Nat → Trail
  | 0, _, chain => ⟨chain, none, none⟩
  | _ + 1, none, chain => ⟨chain, none, none⟩
  | fuel + 1, some i, chain =>
    match nodes[i]? with
    | none => ⟨chain, some i, none⟩
    | some d =>
      match d.gotoLabel? with
      | none => ⟨chain, some i, none⟩
      | some label =>
        match targets.lookup i with
        | some target => ⟨chain, target, none⟩
        | none =>
          if chain.contains i then
            let first := nodes[start]?.bind Draft.gotoLabel?
            ⟨chain, none, some (.refuse (nodes[start]?.elim 0 (·.line))
              ("[goto " ++ first.getD "" ++ "] loops back on itself"))⟩
          else
            let chain := chain ++ [i]
            if label = endLabel then ⟨chain, none, none⟩
            else
              match labels.lookup label with
              | none =>
                ⟨chain, none, some (.refuse d.line ("Label ':" ++ label ++ "' is never declared"))⟩
              | some target => followGotos endLabel nodes labels targets start fuel target chain

/-- Resolves the goto at a position with all those on its way, unless it is resolved already. -/
def resolveGoto (endLabel : String) (nodes : List Draft) (labels : List (String × Option Nat))
    (table : GotoTable) (i : Nat) : GotoTable :=
  if ((nodes[i]?.bind Draft.gotoLabel?).isNone || (table.targets.lookup i).isSome) then table
  else
    let trail := followGotos endLabel nodes labels table.targets i (nodes.length + 2) (some i) []
    ⟨table.targets ++ trail.chain.map (·, trail.target),
      table.diagnostics ++ trail.fault.toList⟩

/-- Resolves all gotos in order. -/
def resolveGotos (endLabel : String) (nodes : List Draft) (labels : List (String × Option Nat)) :
    GotoTable :=
  (List.range nodes.length).foldl (resolveGoto endLabel nodes labels) {}

end Colloquy.Script
