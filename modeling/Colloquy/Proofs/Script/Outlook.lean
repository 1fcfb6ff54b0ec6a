import Colloquy.Proofs.Script.Direct
/-!
# Where execution arrives

From a line on, execution passes labels and the ends of blocks, and at the end of a branch the rest
of its block, until it arrives at a line that makes a node. What a draft still owes its loose ends
depends on the lines ahead alone: where execution arrives from there, where it arrives after each of
the open blocks, and which branches those are still to get. This is the outlook of the lines ahead.
-/

namespace Colloquy.Script

/-! ### Arriving -/

theorem pastEnd_length_le (depth : Nat) (lines : List Item) :
    (pastEnd depth lines).length ≤ lines.length := by
  fun_induction pastEnd depth lines <;> simp only [List.length_cons, List.length_nil] at * <;> omega

/-- The rest of a script from the line that execution arrives at. -/
def arrive : List Item → List Item
  | .label _ :: rest => arrive rest
  | .endIf :: rest => arrive rest
  | .elseIf _ :: rest => arrive (pastEnd 0 rest)
  | .otherwise :: rest => arrive (pastEnd 0 rest)
  | lines => lines
termination_by lines => lines.length
decreasing_by
  all_goals
    first
    | exact Nat.lt_succ_self _
    | exact Nat.lt_succ_of_le (pastEnd_length_le 0 _)

theorem arrive_nil : arrive [] = [] := by
  rw [arrive]
  all_goals exact nofun

theorem arrive_of_makes {item : Item} (rest : List Item) (makes : item.makesNode = true) :
    arrive (item :: rest) = item :: rest := by
  cases item with
  | label | elseIf | otherwise | endIf => cases makes
  | _ =>
    rw [arrive]
    all_goals exact nofun

/-- A guarded branch: its condition and the lines that it begins with. -/
abbrev Arm := Expression × List Item

/-- The branches that a block is still to get, so many blocks being open within it; one without an
else branch gets an empty one at its end. -/
def laterArms (hasElse : Bool) : Nat → List Item → List Arm
  | _, [] => []
  | depth, .openIf _ :: rest => laterArms hasElse (depth + 1) rest
  | 0, .elseIf e :: rest => (e, rest) :: laterArms hasElse 0 rest
  | 0, .otherwise :: rest => (Expression.always, rest) :: laterArms true 0 rest
  | 0, .endIf :: rest => if hasElse then [] else [(Expression.always, rest)]
  | depth + 1, .endIf :: rest => laterArms hasElse depth rest
  | depth, _ :: rest => laterArms hasElse depth rest

/-- The branches of a block. -/
def armsOf (condition : Expression) (rest : List Item) : List Arm :=
  (condition, rest) :: laterArms false 0 rest

/-! ### Stations -/

/-- The rests of a script that begin with a line that makes a node, in order: each node stands for
one of them. -/
def stations : List Item → List (List Item)
  | [] => []
  | item :: rest => if item.makesNode then (item :: rest) :: stations rest else stations rest

theorem stations_of_makes {item : Item} (rest : List Item) (makes : item.makesNode = true) :
    stations (item :: rest) = (item :: rest) :: stations rest := by
  rw [stations, if_pos makes]

theorem stations_of_silent {item : Item} (rest : List Item) (silent : item.makesNode = false) :
    stations (item :: rest) = stations rest := by
  rw [stations, if_neg (by rw [silent]; exact Bool.noConfusion)]

/-- Whether a step of a draft does what a line does. -/
def Item.Fits (step : Step) : Item → Prop
  | .say speaker text => ∃ textId params, step = .text speaker text textId params
  | .set name e => ∃ text textId, step = .assign name e text textId
  | .raise name args => step = .event name args
  | .goto name => step = .goto name
  | .openIf _ => step = .select
  | _ => False

/-- No line of a script without choices makes a choice. -/
theorem Item.Fits.ne_choice {item : Item} {step : Step} (fits : item.Fits step) :
    step.kind ≠ .choice := by
  cases item with
  | say =>
    obtain ⟨_, _, rfl⟩ := fits
    exact nofun
  | set =>
    obtain ⟨_, _, rfl⟩ := fits
    exact nofun
  | raise | goto | openIf =>
    cases fits
    exact nofun
  | label | elseIf | otherwise | endIf => cases fits

/-- Where an edge has to lead: the edge of a step to where execution arrives after its line, that of
a branch to where it arrives in the branch. -/
inductive Wants (script : List Item) : EdgeRef → List Item → Prop where
  | onward {i : Nat} {item : Item} {rest : List Item}
      (station : (stations script)[i]? = some (item :: rest)) :
      (∀ condition, item ≠ .openIf condition) → Wants script ⟨i, 0⟩ (arrive rest)
  | branch {i k : Nat} {condition : Expression} {rest : List Item} {arm : Arm}
      (station : (stations script)[i]? = some (.openIf condition :: rest))
      (chosen : (armsOf condition rest)[k]? = some arm) : Wants script ⟨i, k⟩ (arrive arm.2)

/-! ### Outlooks -/

/-- What the lines ahead have in store: where execution arrives from here, where it arrives after
the open blocks, the innermost first, and the branches that those are still to get, depending on
whether they have an else branch already. -/
structure Outlook where
  near : List Item
  far : Nat → List Item
  left : Nat → Bool → List Arm

/-- The outlook of the lines ahead. -/
def outlook (lines : List Item) : Outlook where
  near := arrive lines
  far depth := arrive (pastEnd depth lines)
  left depth hasElse := laterArms hasElse depth lines

section Equations

variable (rest : List Item)

theorem outlook_eq {lines : List Item} {o : Outlook} (near : arrive lines = o.near)
    (far : ∀ depth, arrive (pastEnd depth lines) = o.far depth)
    (left : ∀ depth hasElse, laterArms hasElse depth lines = o.left depth hasElse) :
    outlook lines = o := by
  cases o
  simp only [outlook, near, Outlook.mk.injEq, true_and]
  exact ⟨funext far, funext fun depth => funext (left depth)⟩

theorem outlook_label (name : String) : outlook (.label name :: rest) = outlook rest := by
  have near : arrive (.label name :: rest) = arrive rest := by rw [arrive]
  simp only [outlook, near, pastEnd, laterArms]

theorem outlook_step {item : Item} (makes : item.makesNode = true)
    (noBlock : ∀ condition, item ≠ .openIf condition) :
    outlook (item :: rest) = { outlook rest with near := item :: rest } := by
  have near := arrive_of_makes rest makes
  cases item with
  | openIf condition => exact absurd rfl (noBlock condition)
  | label | elseIf | otherwise | endIf => cases makes
  | _ => simp only [outlook, near, pastEnd, laterArms]

theorem outlook_openIf (condition : Expression) :
    outlook (.openIf condition :: rest) =
      ⟨.openIf condition :: rest, fun depth => (outlook rest).far (depth + 1),
        fun depth => (outlook rest).left (depth + 1)⟩ := by
  have near : arrive (.openIf condition :: rest) = .openIf condition :: rest :=
    arrive_of_makes rest rfl
  simp only [outlook, near, pastEnd, laterArms]

theorem outlook_elseIf (condition : Expression) :
    outlook (.elseIf condition :: rest) =
      ⟨(outlook rest).far 0, (outlook rest).far, fun
        | 0, hasElse => (condition, rest) :: (outlook rest).left 0 hasElse
        | depth + 1, hasElse => (outlook rest).left (depth + 1) hasElse⟩ := by
  refine outlook_eq (by rw [arrive]; rfl) (fun depth => ?_) fun depth hasElse => ?_
  · cases depth <;> rw [pastEnd] <;> first | rfl | exact nofun
  · cases depth <;> rw [laterArms] <;> first | rfl | exact nofun

theorem outlook_otherwise :
    outlook (.otherwise :: rest) =
      ⟨(outlook rest).far 0, (outlook rest).far, fun
        | 0, _ => (Expression.always, rest) :: (outlook rest).left 0 true
        | depth + 1, hasElse => (outlook rest).left (depth + 1) hasElse⟩ := by
  refine outlook_eq (by rw [arrive]; rfl) (fun depth => ?_) fun depth hasElse => ?_
  · cases depth <;> rw [pastEnd] <;> first | rfl | exact nofun
  · cases depth <;> rw [laterArms] <;> first | rfl | exact nofun

/-- The outlook of a line that begins a further branch, which has no condition if it is the else
branch. -/
theorem outlook_branch (condition : Option Expression) :
    let o := outlook (condition.elim .otherwise .elseIf :: rest)
    o.near = (outlook rest).far 0 ∧ o.far = (outlook rest).far
      ∧ o.left 0 false
          = (condition.getD Expression.always, rest) :: (outlook rest).left 0 condition.isNone
      ∧ ∀ depth, o.left (depth + 1) = (outlook rest).left (depth + 1) := by
  cases condition with
  | none =>
    dsimp only [Option.elim_none]
    rw [outlook_otherwise]
    exact ⟨rfl, rfl, rfl, fun _ => rfl⟩
  | some c =>
    dsimp only [Option.elim_some]
    rw [outlook_elseIf]
    exact ⟨rfl, rfl, rfl, fun _ => rfl⟩

theorem outlook_endIf :
    outlook (.endIf :: rest) =
      ⟨(outlook rest).near, fun
        | 0 => (outlook rest).near
        | depth + 1 => (outlook rest).far depth, fun
        | 0, hasElse => if hasElse then [] else [(Expression.always, rest)]
        | depth + 1, hasElse => (outlook rest).left depth hasElse⟩ := by
  refine outlook_eq (by rw [arrive]; rfl) (fun depth => ?_) fun depth hasElse => ?_
  · cases depth <;> rw [pastEnd] <;> rfl
  · cases depth <;> rw [laterArms] <;> rfl

end Equations

end Colloquy.Script
