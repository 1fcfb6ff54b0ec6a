import Colloquy.Proofs.Script.Delaying
import Colloquy.Proofs.Script.Interspersed
import Colloquy.Proofs.Script.Malformed
import Colloquy.Proofs.Script.Signposts
/-!
# Scripts without their malformed lines

A malformed line makes nothing, but it has been a line: it has closed the frames that its indent
closes, and an if before it has looked at it. Where the next line of the body closes these frames
too, and the if sees the same without the line, the script is compiled as if the line were blank.
-/

namespace Colloquy.Script

/-! ### The lines before -/

/-- Whether a line begins a block. -/
def Scanned.opensIf : Scanned → Bool
  | .line l =>
    match Statement.read l.body with
    | .openIf _ => true
    | _ => false
  | _ => false

/-- Whether the last line that says something begins a block; `last` tells this of the line before
all of them. -/
def endsInIf (tabWidth : Nat) : Bool → Nat → List (List Char) → Bool
  | last, _, [] => last
  | last, number, raw :: rest =>
    match scan tabWidth number raw with
    | .empty => endsInIf tabWidth last (number + 1) rest
    | scanned => endsInIf tabWidth scanned.opensIf (number + 1) rest

namespace Builder

/-- Reads lines that others follow. -/
def readBefore (s : Settings) (rest : List (List Char)) :
    Builder → Nat → List (List Char) → Except CompileFault Builder
  | b, _, [] => return b
  | b, number, raw :: before => do
    readBefore s rest (← b.readLine s number raw (before ++ rest)) (number + 1) before

variable {s : Settings} {b c : Builder} {number last : Nat} {before rest rest' : List (List Char)}

theorem readRest_append (b : Builder) (number : Nat) (before : List (List Char)) :
    readRest s b number (before ++ rest) last = readBefore s rest b number before >>= fun c =>
      readRest s c (number + before.length) rest last := by
  induction before generalizing b number with
  | nil => rfl
  | cons raw before ih =>
    rw [List.cons_append, readRest_cons, readBefore]
    cases b.readLine s number raw (before ++ rest) with
    | error fault => rfl
    | ok c =>
      refine (ih c (number + 1)).trans ?_
      rw [List.length_cons, Nat.add_right_comm, Nat.add_assoc]
      rfl

/-- A script that comes to a line goes on with what reading that line leaves. -/
theorem readScript_through {lines after : List (List Char)} {raw : List Char}
    (split : lines = before ++ raw :: after)
    (reached : readBefore s (raw :: after) {} 1 before = .ok b)
    (read : b.readLine s (1 + before.length) raw after = .ok c) :
    readScript s lines = readRest s c (1 + before.length + 1) after lines.length := by
  have start : readScript s lines = readRest s {} 1 (before ++ raw :: after) lines.length := by
    rw [← split]
    rfl
  rw [start, readRest_append, reached]
  refine (readRest_cons s b _ raw after lines.length).trans ?_
  rw [read]
  rfl

theorem Healthy.readBefore (healthy : b.Healthy)
    (read : Builder.readBefore s rest b number before = .ok c) : c.Healthy := by
  induction before generalizing b number with
  | nil =>
    cases read
    exact healthy
  | cons raw before ih =>
    obtain ⟨between, first, later⟩ := bind_eq_ok.mp read
    exact ih (healthy.readLine first) later

/-- Only a line that begins a block looks ahead. -/
theorem readLine_ahead (b : Builder) (number : Nat) (raw : List Char)
    (same : (scan s.tabWidth number raw).opensIf = true → optionNext rest' = optionNext rest) :
    b.readLine s number raw rest' = b.readLine s number raw rest := by
  unfold readLine
  cases scanned : scan s.tabWidth number raw with
  | empty | delimiter => rfl
  | line l =>
    rw [scanned, Scanned.opensIf] at same
    dsimp only
    split
    · rfl
    · rw [readBodyLine_eq, readBodyLine_eq]
      unfold readStatement
      cases statement : Statement.read l.body with
      | openIf text =>
        rw [statement] at same
        dsimp only
        rw [same rfl]
      | _ => rfl

/-- Lines that others follow are read in the same way whatever follows, unless the last that says
something looks at what follows. -/
theorem readBefore_ahead (b : Builder) (number : Nat) (begins : Bool)
    (same : endsInIf s.tabWidth begins number before = true → optionNext rest' = optionNext rest) :
    readBefore s rest' b number before = readBefore s rest b number before := by
  have ahead (before : List (List Char)) (number : Nat)
      (same : endsInIf s.tabWidth true number before = true →
        optionNext rest' = optionNext rest) :
      optionNext (before ++ rest') = optionNext (before ++ rest) := by
    induction before generalizing number with
    | nil => exact same rfl
    | cons raw before ih =>
      rw [List.cons_append, List.cons_append, optionNext_cons s.tabWidth number,
        optionNext_cons s.tabWidth number]
      rw [endsInIf] at same
      cases scanned : scan s.tabWidth number raw with
      | empty =>
        rw [scanned] at same
        exact ih (number + 1) same
      | delimiter | line => rfl
  induction before generalizing b number begins with
  | nil => rfl
  | cons raw before ih =>
    -- A line that looks ahead sees past the others only if they all say nothing.
    rw [endsInIf] at same
    rw [readBefore, readBefore, readLine_ahead b number raw]
    · refine bind_congr fun c => ?_
      cases scanned : scan s.tabWidth number raw <;> rw [scanned] at same
      · exact ih c (number + 1) _ same
      · exact ih c (number + 1) _ same
      · exact ih c (number + 1) _ same
    · intro opens
      refine ahead before (number + 1) fun ends => same ?_
      cases scanned : scan s.tabWidth number raw with
      | empty =>
        rw [scanned] at opens
        cases opens
      | delimiter | line =>
        rw [scanned] at opens
        dsimp only
        rw [opens]
        exact ends

/-! ### Diagnostics of a compilation -/

theorem after_after (earlier earlier' : List Diagnostic) (b : Builder) :
    (b.after earlier).after earlier' = b.after (earlier' ++ earlier) := by
  simp [after]

theorem SameAfter.trans {earlier earlier' : List Diagnostic} {x y z : Except CompileFault Builder}
    (first : SameAfter earlier x y) (second : SameAfter earlier' y z) :
    SameAfter (earlier' ++ earlier) x z := by
  cases first with
  | error fault =>
    cases second
    exact .error fault
  | ok same =>
    cases second with
    | ok same' =>
      rw [same', same, after_after]
      exact .ok rfl

theorem noteAll_eq_after {b : Builder} (none : b.diagnostics = []) (ds : List Diagnostic) :
    b.noteAll ds = b.after ds := by
  rw [noteAll, after, none, List.append_nil, List.nil_append]

/-- If the next line of the body closes the frames with certain thresholds anyway, closing them
before and leaving errors makes no difference but for the diagnostics. -/
theorem readRest_apart_of_errors (closes : Nat → Bool) {lines : List (List Char)} (last : Nat)
    (errors : List Diagnostic)
    (within : ∀ next ∈ (bodyFrom s b.headerState.inside number lines).head?, ∀ f ∈ b.stack,
      closes f.threshold = true → next.indent < f.threshold) :
    ∃ late middle,
      SameAfter (b.diagnostics ++ errors ++ middle) late
          (readRest s ((b.shut closes).noteAll errors) number lines last)
        ∧ SameAfter (b.diagnostics ++ middle ++ (unclosed closes b.stack).map
            (missingEnd (closingLine s b.headerState.inside number lines last))) late
          (readRest s b number lines last) := by
  -- The diagnostics so far are set aside, so that those of the rest can be told from them.
  let bare : Builder := { b with diagnostics := [] }
  have none : (bare.shut closes).diagnostics = [] := by
    rw [shut_alone]
    rfl
  have opened : bare.after b.diagnostics = b := (noteAll_eq_after (b := bare) rfl _).symm
  have shut : (bare.shut closes).after (b.diagnostics ++ errors) = (b.shut closes).noteAll errors :=
    calc (bare.shut closes).after (b.diagnostics ++ errors)
      _ = (bare.shut closes).noteAll (b.diagnostics ++ errors) := (noteAll_eq_after none _).symm
      _ = ((bare.noteAll b.diagnostics).shut closes).noteAll errors := by
        rw [shut_noteAll, noteAll_noteAll]
  obtain ⟨late, middle, first, second⟩ := readRest_apart (b := bare) last within
  refine ⟨late, middle, ?_, ?_⟩
  · rw [← shut]
    exact first.trans (readRest_after _ s _ number lines last)
  · have all := second.trans (readRest_after b.diagnostics s _ number lines last)
    rw [opened, ← List.append_assoc] at all
    exact all

end Builder

/-- Compiles what a script has been read into. -/
def compileDraft (hash : String → String) (s : Settings) (name : String) (b : Builder) :
    Except CompileFault Compilation := do
  let b := { b with nodes := settleAll b.nodes }
  let gotos := resolveGotos s.endLabel b.nodes b.labels
  let diagnostics := b.diagnostics ++ gotos.diagnostics
  if diagnostics.any (·.fatal) then return ⟨none, diagnostics⟩
  else do
    let (g, warnings) ← buildGraph hash s name b gotos.targets
    return ⟨some g, diagnostics ++ warnings⟩

theorem compileWith_eq (hash : String → String) (s : Settings) (name text : String) :
    compileWith hash s name text
      = Builder.readScript s (Text.lines text.toList) >>= compileDraft hash s name := rfl

theorem any_fatal_append {earlier : List Diagnostic} (calm : ∀ d ∈ earlier, d.fatal = false)
    (ds : List Diagnostic) : (earlier ++ ds).any (·.fatal) = ds.any (·.fatal) := by
  have none : earlier.any (·.fatal) = false := List.any_eq_false.mpr fun d member => by
    rw [calm d member]
    exact Bool.false_ne_true
  rw [List.any_append, none, Bool.false_or]

/-- What has been found wrong before, unless it is fatal, is in the diagnostics and nowhere else. -/
theorem compileDraft_after (hash : String → String) (s : Settings) (name : String) (b : Builder)
    {earlier earlier' : List Diagnostic} (calm : ∀ d ∈ earlier, d.fatal = false)
    (calm' : ∀ d ∈ earlier', d.fatal = false) :
    Both (fun c c' : Compilation => c'.graph = c.graph
        ∧ ∃ late, c.diagnostics = earlier ++ late ∧ c'.diagnostics = earlier' ++ late)
      (compileDraft hash s name (b.after earlier)) (compileDraft hash s name (b.after earlier')) := by
  unfold compileDraft Builder.after
  dsimp only
  rw [List.append_assoc, List.append_assoc, any_fatal_append calm, any_fatal_append calm']
  split
  · exact .ok ⟨rfl, _, rfl, rfl⟩
  · refine Both.bind_same (buildGraph hash s name { b with nodes := settleAll b.nodes } _) ?_
    rintro ⟨g, warnings⟩
    exact .ok ⟨rfl, _, List.append_assoc _ _ _, List.append_assoc _ _ _⟩

/-- Two readings that are the same after different diagnostics compile to the same. -/
theorem compileDraft_apart (hash : String → String) (s : Settings) (name : String)
    {early early' : List Diagnostic} {x y z : Except CompileFault Builder}
    (first : Builder.SameAfter early x y) (second : Builder.SameAfter early' x z)
    (calm : ∀ b, y = .ok b → ∀ d ∈ b.diagnostics, d.fatal = false)
    (calm' : ∀ b, z = .ok b → ∀ d ∈ b.diagnostics, d.fatal = false) :
    Both (fun c c' : Compilation => c'.graph = c.graph
        ∧ ∃ late, c.diagnostics = early ++ late ∧ c'.diagnostics = early' ++ late)
      (y >>= compileDraft hash s name) (z >>= compileDraft hash s name) := by
  cases first with
  | error fault =>
    cases second
    exact .error fault
  | ok same =>
    cases second with
    | ok same' =>
      rw [same] at calm ⊢
      rw [same'] at calm' ⊢
      exact compileDraft_after hash s name _
        (fun d member => calm _ rfl d (List.mem_append_left _ member))
        (fun d member => calm' _ rfl d (List.mem_append_left _ member))

/-! ### A malformed line and a blank one -/

/-- A malformed line leaves what a blank line leaves but for its errors, if the next line of the body
closes the frames that it closes, and if no block begins just before that looks ahead to it in vain.
The blocks that it closes are then complained about at the next line of the body. -/
theorem compile_malformed (hash : String → String) (s : Settings) (name : String)
    {text text' : String} {before after : List (List Char)} {raw blank : List Char} {b : Builder}
    {l : Line} {errors : List Diagnostic}
    (lines : Text.lines text.toList = before ++ raw :: after)
    (lines' : Text.lines text'.toList = before ++ blank :: after) (silent : SaysNothing blank)
    (reached : Builder.readBefore s (raw :: after) {} 1 before = .ok b)
    (malformed : Malformed s b (1 + before.length) raw after l errors)
    (ahead : endsInIf s.tabWidth false 1 before = true →
      optionNext (raw :: after) = optionNext after)
    (closing : ∀ next ∈ (bodyFrom s false (1 + before.length + 1) after).head?, ∀ f ∈ b.stack,
      l.indent < f.threshold → next.indent < f.threshold) :
    (∀ d ∈ errors, d.line = l.number ∧ d.isError = true)
      ∧ Both (fun c c' : Compilation => c'.graph = c.graph
        ∧ ∃ middle late,
          c.diagnostics = b.diagnostics ++ missingEnds b l.indent l.number ++ errors ++ middle ++ late
          ∧ c'.diagnostics = b.diagnostics ++ middle
            ++ missingEnds b l.indent (closingLine s false (1 + before.length + 1) after
              (Text.lines text.toList).length) ++ late)
        (compileWith hash s name text) (compileWith hash s name text') := by
  have healthy : b.Healthy := Builder.Healthy.start.readBefore reached
  obtain ⟨read, each⟩ := malformed.readLine healthy
  refine ⟨each, ?_⟩
  have count : (Text.lines text'.toList).length = (Text.lines text.toList).length := by
    rw [lines, lines', List.length_append, List.length_append, List.length_cons, List.length_cons]
  -- Both scripts come to the line with the same draft, since an if before it does not see that the
  -- line is gone, and one of them closes frames there.
  have same : optionNext (blank :: after) = optionNext after := by
    rw [optionNext_cons s.tabWidth 1, silent.scan]
  have reached' : Builder.readBefore s (blank :: after) {} 1 before = .ok b := by
    rw [← reached]
    exact Builder.readBefore_ahead {} 1 false fun ends => same.trans (ahead ends).symm
  have read' : b.readLine s (1 + before.length) blank after = .ok b := by
    rw [Builder.readLine, silent.scan]
    rfl
  have whole := Builder.readScript_through lines reached read
  have whole' := Builder.readScript_through lines' reached' read'
  rw [count] at whole'
  generalize (Text.lines text.toList).length = n at whole whole' ⊢
  have within : ∀ next ∈ (bodyFrom s b.headerState.inside (1 + before.length + 1) after).head?,
      ∀ f ∈ b.stack, decide (l.indent < f.threshold) = true → next.indent < f.threshold := by
    rw [malformed.body]
    exact fun next isNext f member low => closing next isNext f member (of_decide_eq_true low)
  obtain ⟨late, middle, first, second⟩ := Builder.readRest_apart_of_errors (l.indent < ·) n
    (missingEnds b l.indent l.number ++ errors) within
  rw [← whole] at first
  rw [malformed.body, ← whole'] at second
  rw [compileWith_eq, compileWith_eq]
  refine (compileDraft_apart hash s name first second
    (fun c read => (signposted_of_readScript read).calm)
    (fun c read => (signposted_of_readScript read).calm)).mono ?_
  rintro c c' ⟨graph, more, notes, notes'⟩
  refine ⟨graph, middle, more, ?_, notes'⟩
  rw [notes, ← List.append_assoc b.diagnostics]

/-- An unknown command closes a block and the option around it, as the line after it does. -/
theorem compile_malformed_option :
    ∃ b : Builder,
      Builder.readBefore .standard ["[frobnicate]".toList, "C: end".toList] {} 1
          ["* go".toList, "    [if x]".toList, "        B: so".toList] = .ok b
        ∧ Malformed .standard b 4 "[frobnicate]".toList ["C: end".toList]
          ⟨4, 0, "[frobnicate]".toList, ""⟩ [.complain 4 "Unknown command '[frobnicate]'"]
        ∧ Both (fun c c' : Compilation => c'.graph = c.graph
          ∧ ∃ middle late,
            c.diagnostics = b.diagnostics ++ missingEnds b 0 4
              ++ [.complain 4 "Unknown command '[frobnicate]'"] ++ middle ++ late
            ∧ c'.diagnostics = b.diagnostics ++ middle ++ missingEnds b 0 5 ++ late)
          (compileWith TextId.digest .standard "script"
            "* go\n    [if x]\n        B: so\n[frobnicate]\nC: end")
          (compileWith TextId.digest .standard "script"
            "* go\n    [if x]\n        B: so\n\nC: end") := by
  have reads : (Builder.readBefore .standard ["[frobnicate]".toList, "C: end".toList] {} 1
      ["* go".toList, "    [if x]".toList, "        B: so".toList]).toOption.any
      (fun b => decide (b.headerState.inside = false
        ∧ (b.readBodyLine .standard ⟨4, 0, "[frobnicate]".toList, ""⟩ ["C: end".toList]).toOption.any
          (fun c => decide (c.nodes = (b.settle 4 0).nodes ∧ c.diagnostics
            = (b.settle 4 0).diagnostics ++ [.complain 4 "Unknown command '[frobnicate]'"])) = true))
      = true := by decide +kernel
  obtain ⟨b, reached, facts⟩ := exists_ok_of_any reads
  obtain ⟨body, reads⟩ := of_decide_eq_true facts
  obtain ⟨c, read, facts⟩ := exists_ok_of_any reads
  have malformed : Malformed .standard b 4 "[frobnicate]".toList ["C: end".toList]
      ⟨4, 0, "[frobnicate]".toList, ""⟩ [.complain 4 "Unknown command '[frobnicate]'"] :=
    ⟨by decide +kernel, body, ⟨c, read, of_decide_eq_true facts⟩, _, List.mem_singleton_self _, rfl⟩
  refine ⟨b, reached, malformed, (compile_malformed TextId.digest .standard "script"
    (by decide +kernel) (by decide +kernel) (Or.inl rfl : SaysNothing []) reached malformed
    (fun ends => absurd ends (by decide +kernel)) fun next isNext f _ low => ?_).2⟩
  -- The line that comes next is not indented either.
  have least : ∀ next ∈ (bodyFrom .standard false 5 ["C: end".toList]).head?, next.indent = 0 := by
    decide +kernel
  rw [least next isNext]
  exact low

/-- A script may change with the frames that a malformed line closes: here it ends an option, and
without it the option goes on. -/
theorem unknown_command_ends_option :
    ∃ b : Builder,
      Builder.readBefore .standard ["[frobnicate]".toList, "    Y: there".toList] {} 1
          ["* A".toList, "    X: hi".toList] = .ok b
        ∧ Malformed .standard b 3 "[frobnicate]".toList ["    Y: there".toList]
          ⟨3, 0, "[frobnicate]".toList, ""⟩ [.complain 3 "Unknown command '[frobnicate]'"]
        ∧ ¬ Both (fun c c' : Compilation => c'.graph = c.graph)
          (compileWith TextId.digest .standard "script"
            "* A\n    X: hi\n[frobnicate]\n    Y: there")
          (compileWith TextId.digest .standard "script" "* A\n    X: hi\n\n    Y: there") := by
  have reads : (Builder.readBefore .standard ["[frobnicate]".toList, "    Y: there".toList] {} 1
      ["* A".toList, "    X: hi".toList]).toOption.any
      (fun b => decide (b.headerState.inside = false
        ∧ (b.readBodyLine .standard ⟨3, 0, "[frobnicate]".toList, ""⟩
            ["    Y: there".toList]).toOption.any
          (fun c => decide (c.nodes = (b.settle 3 0).nodes ∧ c.diagnostics
            = (b.settle 3 0).diagnostics ++ [.complain 3 "Unknown command '[frobnicate]'"])) = true))
      = true := by decide +kernel
  have differ : (compileWith TextId.digest .standard "script"
        "* A\n    X: hi\n[frobnicate]\n    Y: there").toOption.map (·.graph)
      ≠ (compileWith TextId.digest .standard "script"
        "* A\n    X: hi\n\n    Y: there").toOption.map (·.graph) := by decide +kernel
  obtain ⟨b, reached, facts⟩ := exists_ok_of_any reads
  obtain ⟨body, reads⟩ := of_decide_eq_true facts
  obtain ⟨c, read, facts⟩ := exists_ok_of_any reads
  refine ⟨b, reached, ⟨by decide +kernel, body, ⟨c, read, of_decide_eq_true facts⟩, _,
    List.mem_singleton_self _, rfl⟩, fun both => differ ?_⟩
  generalize compileWith TextId.digest .standard "script" _ = x at both ⊢
  generalize compileWith TextId.digest .standard "script" _ = y at both ⊢
  cases both with
  | ok same => exact congrArg some same.symm
  | error fault => rfl

end Colloquy.Script
