import Colloquy.Cast.Basic
/-!
# Performing

What the actions of a cast do in a scene, and the host that the cast amounts to. Actions may call
other members, whose actions may call others again: the host of a cast is given by how deep this may
go.
-/

namespace Colloquy.Cast

open Colloquy.Play

variable (host : Host Cast Deed)

/-- What the cast keeps. -/
def cast : Play Cast := do
  return (← get).host

/-- Something in a list, which has to be there. -/
def present {α : Type} (fault : Fault) : Option α → Play α
  | some a => pure a
  | none => throw fault

/-! ### The bus -/

/-- Which listeners still go by their names. -/
def known : Play (Nat → Bool) := do
  return knows (← cast)

/-- The listener of a name. -/
def listenerOf (name : String) : Play Nat := do
  present .unknown ((← cast).names.lookup name)

/-- Subscribes a listener, enrolling it first if its name is new. -/
def subscribe (e : Enrolment Action) : Play Unit := do
  let (key, c) := (← cast).hearer e
  changeHost fun _ => c
  changeBus (·.subscribe e.topic key e.priority e.oneShot e.weak)

/-- A particular of the event that a listener is called for. -/
def particular? (called : Option Publication) (key : String) : Play (Option Datum) := do
  return (← present .absent called).event.data.lookup key

/-! ### Who takes part -/

/-- Makes a new participant. -/
def join (r : Role Action) : Play Participant := do
  let key := (← cast).members.length
  changeHost (·.addMember r)
  return participant r key

/-- The names of those who take part, in the order in which they are told. -/
def participantNames : Play (List String) := do
  let c ← cast
  return (← dialogue).participants.filterMap fun p => (c.members[p.key]?).map (·.role.name)

/-! ### Actions -/

/-- Performs an action, on behalf of a listener if one is called for an event. -/
def performAny (called : Option Publication) : Action → Play Reply
  | .subscribe e => do
    subscribe e
    return .done
  | .unsubscribe topic name => do
    let key ← listenerOf name
    let known ← known
    changeBus fun b => b.unsubscribe known topic key
    return .done
  | .hasSubscribers topic => return .flag ((← bus).hasSubscribers (← known) topic)
  | .clear topic => do
    changeBus (·.clear topic)
    return .done
  | .drop name => do
    changeHost (·.drop name)
    return .done
  | .publish e => do
    unless e.isProper do throw .reserved
    let held ← Bus.publish host e
    return .flag (held.elim false (← bus).isConsumed)
  | .consume => do
    let p ← present .absent called
    changeBus (·.consume p.number)
    return .done
  | .particular key otherwise => return .datum ((← particular? called key).getD otherwise)
  | .neededParticular key => return .datum (← present .unknown (← particular? called key))
  | .fail fault => throw fault
  | .attach k => do
    Dialogue.attachTo host (← present .outOfRange (at? (← cast).graphs k))
    return .done
  | .start label => do
    Dialogue.start host label
    return .done
  | .restart reset label rerunHeader => do
    Dialogue.restart host reset label rerunHeader
    return .done
  | .reset vars position taken => do
    Dialogue.reset host vars position taken
    return .done
  | .proceed => return .flag (← Dialogue.proceed host)
  | .choose index => return .flag (← Dialogue.choose host index)
  | .runTo node tellEnd => do
    let node ← orFault .lost ((← dialogue).graph.node? (node.map .at))
    Dialogue.runTo host node tellEnd
    return .done
  | .isEnded => return .flag (← dialogue).isEnded
  | .text => return .text (← Dialogue.lineText host)
  | .speaker => return .text (← dialogue).speaker
  | .speakerName => return .text (← Dialogue.speakerName)
  | .choiceCount => return .count (← dialogue).choices.length
  | .choiceText index => return .text (← Dialogue.choiceText host index)
  | .choiceTexts => do
    let places := List.range (← dialogue).choices.length
    return .texts (← places.mapM fun (k : Nat) => Dialogue.choiceText host k)
  | .hasTaken index => return .flag ((← dialogue).hasTaken index)
  | .params => return .texts (← Dialogue.paramsUsed)
  | .name => return .text (← dialogue).name
  | .value name => return .datum (Datum.ofOption ((← dialogue).value? name))
  | .valueAs kind name => return .datum (.value (← Dialogue.valueAs kind name))
  | .setVariable name value => do
    Dialogue.setVariable host name value
    return .done
  | .unsetVariable name => do
    changeDialogue (·.unset name)
    return .done
  | .save => do
    let s := (← dialogue).snapshot
    changeHost fun c => { c with saves := c.saves ++ [s] }
    return .snapshot s
  | .restore k => do
    Dialogue.restore host (← present .outOfRange (at? (← cast).saves k))
    return .done
  | .reload k => do
    let s ← present .outOfRange (at? (← cast).saves k)
    Dialogue.restore host (← orFault .invalid (Snapshot.ofText s.text))
    return .done
  | .restoreText text => do
    Dialogue.restore host (← orFault .invalid (Snapshot.ofText text))
    return .done
  | .addParticipant r => do
    let p ← join r
    changeDialogue (·.addParticipant p)
    return .done
  | .removeParticipant name => do
    let key ← present .unknown ((← cast).member? name)
    changeDialogue (·.removeParticipant key)
    return .done
  | .setParticipants rs => do
    let ps ← rs.mapM join
    changeDialogue (·.setParticipants ps)
    return .done
  | .participants => return .texts (← participantNames)

/-- Performs an action; one that concerns the dialogue only while that is on stage. -/
def perform (called : Option Publication) (a : Action) : Play Reply := do
  if a.concernsDialogue && !(← cast).onStage then throw .absent
  else performAny host called a

/-- Fails unless something can be shown. -/
def needShown (isShowable : Bool) : Play Unit := do
  unless isShowable do throw .tooManyDigits

/-- Performs actions in order and enters each in the journal, which shows what came of it. -/
def performAll (called : Option Publication) (actions : List Action) : Play Unit :=
  actions.forM fun a => do
    let reply ← perform host called a
    needShown reply.isShowable
    note (.deed ⟨a, reply⟩)

/-! ### Members -/

/-- Whether a rule applies to a notice. -/
def applies (rule : Rule Action) (notice : Notice) (speaker : String) : Bool :=
  rule.cue = notice.cue && rule.subject.elim true fun d => (notice.subject speaker).equal d

/-- Uses the rules of a participant that apply to a notice, in order. -/
def useRules (key : Nat) (notice : Notice) (speaker : String) :
    List (Rule Action × Nat) → Play Unit
  | [] => return ()
  | (rule, k) :: rest => do
    let used := ((← cast).members[key]?).elim 0 fun m => m.used[k]?.getD 0
    if applies rule notice speaker && used < rule.limit then
      changeHost (·.countRule key k)
      performAll host none rule.actions
    useRules key notice speaker rest

/-- What a participant does when it is told something, which it has to be able to show. -/
def react (key : Nat) (notice : Notice) : Play Unit := do
  match (← cast).members[key]? with
  | none => return ()
  | some m =>
    unless m.role.bare do
      needShown notice.toEvent.isShowable
      useRules host key notice (← dialogue).speaker m.role.rules.zipIdx

/-- What a listener does when it is called for an event, which it has to be able to show. -/
def listen (key : Nat) (p : Publication) : Play Unit := do
  needShown p.event.isShowable
  match (← cast).hearers[key]? with
  | none => return ()
  | some h =>
    if h.used < h.limit then
      changeHost (·.countCall key)
      performAll host (some p) h.actions

/-- The host of a cast whose members may call each other so many times deep. -/
def hostOf : Nat → Host Cast Deed
  | 0 =>
    { knows
      react := fun _ _ => throw .tooDeep
      listen := fun _ _ => throw .tooDeep
      steps := 1000000
      depth := 985 }
  | fuel + 1 =>
    { hostOf fuel with
      react := react (hostOf fuel)
      listen := listen (hostOf fuel) }

/-- Brings the first script and these participants on stage. Whoever listens hears the header, but
the participants enter after it. -/
def enter (roles : List (Role Action)) : Play Unit := do
  Dialogue.attachTo host (← present .outOfRange (← cast).graphs.head?)
  let ps ← roles.mapM join
  changeDialogue (·.setParticipants ps)
  changeHost fun c => { c with onStage := true }

end Colloquy.Cast
