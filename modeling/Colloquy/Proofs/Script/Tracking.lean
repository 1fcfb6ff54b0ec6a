import Colloquy.Proofs.Script.Health
import Colloquy.Proofs.Script.Lookahead
import Colloquy.Proofs.Script.Wires
/-!
# Reading a script without choices

A script without choices that leaves no error is read line by line into a draft that agrees with the
outlook of the lines ahead, up to the end, where nothing is ahead any more. Without errors no line
closes a block but the one that ends it.
-/

namespace Colloquy.Script.Builder

/-! ### Drafts without errors -/

/-- Whether nothing that was read so far is an error. -/
def Clean (b : Builder) : Prop :=
  ∀ d ∈ b.diagnostics, d.isError = false

theorem Clean.of_prefix {a b : Builder} (clean : b.Clean)
    (earlier : a.diagnostics <+: b.diagnostics) : a.Clean :=
  fun d member => clean d (earlier.subset member)

theorem not_clean_complain {b : Builder} {line : Int} {message : String} :
    ¬ (b.note (.complain line message)).Clean := by
  intro clean
  have := clean (.complain line message) (List.mem_append_right _ (List.mem_singleton_self _))
  cases this

/-- Whether all frames but the outermost are blocks that are not chained. -/
def Nested (b : Builder) : Prop :=
  ∀ depth f, b.stack[depth]? = some f → depth < b.below.length →
    ∃ block, f.kind = .block block ∧ block.chained = false

theorem closeBlock_notes (b : Builder) (block : Block) (outer : Frame) (rest : List Frame)
    (unchained : block.chained = false) :
    (b.closeBlock block outer rest).diagnostics = b.diagnostics := by
  rw [closeBlock_eq unchained]
  split <;> rfl

/-- A block that is closed for want of its end leaves an error. -/
theorem not_clean_pop {b : Builder} {line : Nat} (nested : b.Nested) (inside : b.below ≠ []) :
    ¬ (b.pop line).Clean := by
  intro clean
  cases below : b.below with
  | nil => exact inside below
  | cons outer rest =>
    obtain ⟨block, kind, unchained⟩ := nested 0 b.top rfl (by rw [below]; exact Nat.succ_pos _)
    rw [pop, below] at clean
    simp only [kind] at clean
    rw [Clean, closeBlock_notes _ _ _ _ unchained] at clean
    exact not_clean_complain clean

/-- Without an error a line closes nothing by its indent. -/
theorem settle_eq {b : Builder} {line indent : Nat} (nested : b.Nested)
    (founded : Founded 0 0 b.stack) (clean : (b.settle line indent).Clean) :
    b.settle line indent = b := by
  unfold settle at *
  cases count : b.below.length with
  | zero => rfl
  | succ fuel =>
    rw [popAbove]
    split
    · rfl
    next closes =>
      rw [count, popAbove, if_neg closes] at clean
      have inside : b.below ≠ [] := by
        intro empty
        rw [empty] at count
        cases count
      have once := @Grows.popAbove (fun _ _ => True) 0 0 b line indent 1 founded (Nat.zero_le _)
      rw [popAbove, if_neg closes] at once
      have grown := (@Grows.popAbove (fun _ _ => True) 0 0 (b.pop line) line indent fuel once.2
        (Nat.zero_le _)).1
      exact absurd (clean.of_prefix grown.notes) (not_clean_pop nested inside)

/-- Without an error nothing is open at the end. -/
theorem popAll_eq {b : Builder} {line fuel : Nat} (nested : b.Nested)
    (enough : b.below.length ≤ fuel) (clean : (popAll line fuel b).Clean) :
    b.below = [] ∧ popAll line fuel b = b := by
  cases below : b.below with
  | nil =>
    refine ⟨rfl, ?_⟩
    cases fuel with
    | zero => rfl
    | succ fuel => rw [popAll, below, List.isEmpty_nil, if_pos rfl]
  | cons outer rest =>
    cases fuel with
    | zero =>
      rw [below] at enough
      cases enough
    | succ fuel =>
      have open' : ¬ b.below.isEmpty = true := by rw [below]; exact Bool.noConfusion
      rw [popAll, if_neg open'] at clean
      have grown := @Grows.popAll (fun _ _ => True) line fuel (b.pop line)
      exact absurd (clean.of_prefix grown.notes)
        (not_clean_pop nested (by rw [below]; exact List.cons_ne_nil _ _))

/-! ### Labels -/

/-- The labels of a draft agree with the declarations of a script, some lines of which are ahead:
those that have a node lead to the line after their first declaration that makes one, those that
wait will lead to the next such line. -/
structure Signed (script lines : List Item) (b : Builder) : Prop where
  ahead : ∀ name, name ∉ b.labelNames → afterLabel? name script = afterLabel? name lines
  waits : ∀ l ∈ b.waiting, ∃ rest, afterLabel? l.1 script = some rest
    ∧ nextMade rest = nextMade lines
  placed : ∀ l ∈ b.labels, ∃ (i : Nat) (rest : List Item), l.2 = some i
    ∧ afterLabel? l.1 script = some rest ∧ (stations script)[i]? = some (nextMade rest)

namespace Signed

variable {script rest : List Item} {item : Item} {b c : Builder}

theorem nextMade_of_makes (makes : item.makesNode = true) :
    nextMade (item :: rest) = item :: rest := by
  simp [nextMade, makes]

theorem nextMade_of_silent (silent : item.makesNode = false) :
    nextMade (item :: rest) = nextMade rest := by
  simp [nextMade, silent]

theorem afterLabel?_skip (noLabel : ∀ name, item ≠ .label name) (name : String) :
    afterLabel? name (item :: rest) = afterLabel? name rest := by
  cases item with
  | label l => exact absurd rfl (noLabel l)
  | _ => rfl

/-- A line that makes a node. -/
theorem append (signed : Signed script (item :: rest) b) (labelled : b.Labelled)
    (makes : item.makesNode = true)
    (station : (stations script)[b.nodes.length]? = some (item :: rest)) (d : Draft)
    (connect : Bool) : Signed script rest (b.append d connect) := by
  have labels := append_labels labelled d connect
  have names : (b.append d connect).labelNames = b.labelNames := by
    rw [labelNames, labels, labelNames]
    change _ ++ List.map _ [] = _
    simp [Function.comp_def]
  have noLabel : ∀ name, item ≠ .label name := by
    rintro name rfl
    cases makes
  refine ⟨fun name new => ?_, fun l member => (by cases member), fun l member => ?_⟩
  · rw [names] at new
    rw [signed.ahead name new, afterLabel?_skip noLabel]
  · rw [labels] at member
    rcases List.mem_append.mp member with old | added
    · exact signed.placed l old
    · obtain ⟨l', inside, rfl⟩ := List.mem_map.mp added
      obtain ⟨lines, after, next⟩ := signed.waits l' inside
      rw [nextMade_of_makes makes] at next
      exact ⟨b.nodes.length, lines, rfl, after, by rw [next]; exact station⟩

/-- A line that makes no node and declares no label. -/
theorem skip (signed : Signed script (item :: rest) b) (silent : item.makesNode = false)
    (noLabel : ∀ name, item ≠ .label name) (labels : c.labels = b.labels)
    (waiting : c.waiting = b.waiting) : Signed script rest c := by
  have names : c.labelNames = b.labelNames := by rw [labelNames, labels, waiting, labelNames]
  refine ⟨fun name new => ?_, fun l member => ?_, fun l member => ?_⟩
  · rw [names] at new
    rw [signed.ahead name new, afterLabel?_skip noLabel]
  · rw [waiting] at member
    obtain ⟨lines, after, next⟩ := signed.waits l member
    exact ⟨lines, after, next.trans (nextMade_of_silent silent)⟩
  · rw [labels] at member
    exact signed.placed l member

/-- A line that declares a label; a label that is declared already is not declared again. -/
theorem label {name endLabel : String} {line : Nat}
    (signed : Signed script (.label name :: rest) b)
    (clean : (b.label endLabel line name).Clean) :
    Signed script rest (b.label endLabel line name) := by
  have next : nextMade (.label name :: rest) = nextMade rest := nextMade_of_silent rfl
  have other : ∀ l, l ≠ name → afterLabel? l (.label name :: rest) = afterLabel? l rest := by
    intro l apart
    rw [afterLabel?, if_neg fun same => apart same.symm]
  have waits : ∀ l ∈ b.waiting, ∃ lines, afterLabel? l.1 script = some lines
      ∧ nextMade lines = nextMade rest := by
    intro l member
    obtain ⟨lines, after, made⟩ := signed.waits l member
    exact ⟨lines, after, made.trans next⟩
  rw [Builder.label] at clean ⊢
  -- the label of the end is refused, and one that is declared already is passed over
  split at clean
  · exact absurd clean not_clean_complain
  next notEnd =>
    rw [if_neg notEnd]
    split
    next known =>
      have declared : name ∈ b.labelNames := by
        simp only [Bool.or_eq_true, List.any_eq_true, decide_eq_true_eq] at known
        rcases known with ⟨l, member, rfl⟩ | ⟨l, member, rfl⟩
        · exact List.mem_append_left _ (List.mem_map_of_mem member)
        · exact List.mem_append_right _ (List.mem_map_of_mem member)
      refine ⟨fun l new => ?_, waits, signed.placed⟩
      have apart : l ≠ name := by
        rintro rfl
        exact new declared
      rw [signed.ahead l new, other l apart]
    next known =>
      have undeclared : name ∉ b.labelNames := by
        intro member
        apply known
        simp only [Bool.or_eq_true, List.any_eq_true, decide_eq_true_eq]
        rcases List.mem_append.mp member with old | waits
        · obtain ⟨l, inside, same⟩ := List.mem_map.mp old
          exact Or.inl ⟨l, inside, same⟩
        · obtain ⟨l, inside, same⟩ := List.mem_map.mp waits
          exact Or.inr ⟨l, inside, same⟩
      refine ⟨fun l new => ?_, fun l member => ?_, signed.placed⟩
      · have apart : l ≠ name := by
          rintro rfl
          exact new (by simp [labelNames])
        have before : l ∉ b.labelNames := by
          intro member
          apply new
          rcases List.mem_append.mp member with old | waits
          · exact List.mem_append_left _ old
          · refine List.mem_append_right _ ?_
            rw [List.map_append]
            exact List.mem_append_left _ waits
        rw [signed.ahead l before, other l apart]
      · rcases List.mem_append.mp member with old | new
        · exact waits l old
        · rw [List.mem_singleton.mp new]
          refine ⟨rest, ?_, rfl⟩
          rw [signed.ahead name undeclared, afterLabel?, if_pos rfl]

end Signed

/-! ### Lines -/

/-- A draft of the lines that were read of a script without choices, given those that are ahead. -/
structure Follows (script lines : List Item) (b : Builder) : Prop where
  tracks : Tracks script (outlook lines) b
  signed : Signed script lines b
  ahead : (stations script).drop b.nodes.length = stations lines
  nested : b.Nested
  flat : (∀ (i : Nat) (d : Draft), b.nodes[i]? = some d → d.reach = 0) ∧ ∀ f ∈ b.stack, f.reach = 0
  begun : (b.nodes = [] ∧ b.below = [] ∧ arrive script = arrive lines)
    ∨ (b.nodes ≠ [] ∧ (stations script)[0]? = some (arrive script))
  outside : b.headerState.inside = false

namespace Follows

variable {script rest : List Item} {item : Item} {b : Builder} {d : Draft}

/-- The next node stands for the next line that makes one. -/
theorem station (follows : Follows script (item :: rest) b) (makes : item.makesNode = true) :
    (stations script)[b.nodes.length]? = some (item :: rest) := by
  have first : ((stations script).drop b.nodes.length)[0]? = some (item :: rest) := by
    rw [follows.ahead, stations_of_makes rest makes]
    rfl
  rwa [List.getElem?_drop, Nat.add_zero] at first

theorem ahead_append (follows : Follows script (item :: rest) b) (makes : item.makesNode = true) :
    (stations script).drop (b.nodes.length + 1) = stations rest := by
  rw [← List.drop_drop, follows.ahead, stations_of_makes rest makes]
  rfl

theorem begun_append (follows : Follows script (item :: rest) b) (makes : item.makesNode = true) :
    (stations script)[0]? = some (arrive script) := by
  rcases follows.begun with ⟨empty, _, same⟩ | ⟨_, first⟩
  · have here := follows.station makes
    rw [empty] at here
    rw [same, arrive_of_makes rest makes]
    exact here
  · exact first

theorem append_nested (nested : b.Nested) (d : Draft) : (b.append d true).Nested := by
  intro depth f there inside
  have bound : depth < b.stack.length := (List.getElem?_eq_some_iff.mp there).1
  have before := List.getElem?_eq_getElem bound
  obtain ⟨block, kind, unchained⟩ := nested depth _ before inside
  exact ⟨block, (append_stack b d there before).trans kind, unchained⟩

theorem append_flat (follows : Follows script (item :: rest) b) (sound : b.Sound)
    (fresh : d.edges = []) :
    (∀ (i : Nat) (d₁ : Draft), (b.append d true).nodes[i]? = some d₁ → d₁.reach = 0)
      ∧ ∀ f ∈ (b.append d true).stack, f.reach = 0 := by
  obtain ⟨nodes, frames⟩ := follows.flat
  refine ⟨fun i d₁ there => ?_, fun f member => ?_⟩
  · have bound := (List.getElem?_eq_some_iff.mp there).1
    rw [append_length] at bound
    rcases Nat.lt_succ_iff_lt_or_eq.mp bound with old | rfl
    · obtain ⟨d', now, core, _⟩ := append_old sound d (List.getElem?_eq_getElem old)
      cases there.symm.trans now
      rw [Draft.reach_eq_of_core core]
      exact nodes i _ (List.getElem?_eq_getElem old)
    · obtain ⟨d', now, core, _⟩ := append_new sound fresh
      cases there.symm.trans now
      exact (congrArg Draft.reach core).trans (frames b.top (List.mem_cons_self ..))
  · rcases List.mem_cons.mp member with rfl | below
    · exact frames b.top (List.mem_cons_self ..)
    · exact frames f (List.mem_cons_of_mem _ below)

/-- A line that makes a node and opens no block. -/
theorem append (follows : Follows script (item :: rest) b) (healthy : b.Healthy)
    (fresh : d.edges = []) (makes : item.makesNode = true)
    (noBlock : ∀ c, item ≠ .openIf c) (fits : item.Fits d.step) :
    Follows script rest (b.append d true) where
  tracks := follows.tracks.append healthy.sound fresh makes noBlock fits (follows.station makes)
  signed := follows.signed.append healthy.labelled makes (follows.station makes) d true
  ahead := by
    rw [append_length]
    exact follows.ahead_append makes
  nested := append_nested follows.nested d
  flat := append_flat follows healthy.sound fresh
  begun := Or.inr ⟨List.ne_nil_of_length_pos (by rw [append_length]; exact Nat.succ_pos _),
    follows.begun_append makes⟩
  outside := follows.outside

/-- No line that was read is a choice, so nothing follows one. -/
theorem not_follows (follows : Follows script rest b) (indent : Nat) :
    b.follows indent = false := by
  unfold Builder.follows
  cases last : b.lastOf b.top with
  | none => rfl
  | some d =>
    obtain ⟨i, _, there⟩ := Option.bind_eq_some_iff.mp last
    obtain ⟨item, lines, _, fits⟩ := follows.tracks.wired.steps i d there
    have other := fits.ne_choice
    simp [other]

/-- The line that opens a block. -/
theorem openIf {c : Expression} (follows : Follows script (.openIf c :: rest) b)
    (healthy : b.Healthy) (line indent : Nat) :
    Follows script rest (b.openIf line indent c false) := by
  have noChoice := follows.not_follows indent
  have station := follows.station rfl
  have sound := healthy.sound
  let select : Draft := ⟨.select, line, indent, [], 0, []⟩
  have tracks : Tracks script (outlook rest) (b.openIf line indent c false) :=
    follows.tracks.openIf sound station noChoice
  have signed := follows.signed.append healthy.labelled rfl station select true
  obtain ⟨nodes, frames⟩ := append_flat (d := select) follows sound rfl
  have nested := append_nested follows.nested select
  rw [openIf_unchained c noChoice] at tracks ⊢
  have count : ((b.append select true).enterBlock
      (blockFrame b.nodes.length b.nodes.length line indent b.top.reach false) b.nodes.length
      (branchEdge line b.top.reach (b.append select true).path c)).nodes.length
        = b.nodes.length + 1 := by
    simp [Builder.enterBlock]
  refine ⟨tracks, ⟨signed.ahead, signed.waits, signed.placed⟩, ?_, ?_, ⟨fun i d₁ there => ?_, fun f member => ?_⟩, Or.inr ⟨?_, ?_⟩,
    follows.outside⟩
  · exact (congrArg (List.drop · (stations script)) count).trans (follows.ahead_append rfl)
  · rintro (_ | depth) f there inside
    · cases there
      exact ⟨_, rfl, rfl⟩
    · exact nested depth f there (Nat.lt_of_succ_lt_succ inside)
  · obtain ⟨d₀, before, core, _⟩ := attach_old there
    rw [Draft.reach_eq_of_core core]
    exact nodes i d₀ before
  · rcases List.mem_cons.mp member with rfl | below
    · exact follows.flat.2 b.top (List.mem_cons_self ..)
    · exact frames f below
  · exact List.ne_nil_of_length_pos (Nat.lt_of_lt_of_eq (Nat.succ_pos _) count.symm)
  · exact follows.begun_append rfl

/-- Where a block is open a node was read. -/
theorem begun_of_block (follows : Follows script rest b) {block : Block}
    (kind : b.top.kind = .block block) :
    b.nodes ≠ [] ∧ (stations script)[0]? = some (arrive script) := by
  rcases follows.begun with ⟨empty, _, _⟩ | begun
  · obtain ⟨_, _, d, _, _, there, _⟩ := follows.tracks.branched.blocks 0 block ⟨b.top, rfl, kind⟩
    rw [empty] at there
    cases there
  · exact begun

theorem outlook_silent (follows : Follows script (item :: rest) b)
    (silent : item.makesNode = false) :
    (stations script).drop b.nodes.length = stations rest := by
  rw [follows.ahead, stations_of_silent rest silent]

/-- The line that begins a further branch. -/
theorem addBranch {condition : Option Expression} {line : Nat} {keyword : String}
    (follows : Follows script (condition.elim .otherwise .elseIf :: rest) b)
    (healthy : b.Healthy) (clean : (b.addBranch line condition keyword).Clean) :
    Follows script rest (b.addBranch line condition keyword) := by
  have silent : (condition.elim Item.otherwise Item.elseIf).makesNode = false := by
    cases condition <;> rfl
  have noLabel : ∀ name, condition.elim Item.otherwise Item.elseIf ≠ .label name := by
    cases condition <;> exact nofun
  cases kind : b.top.kind with
  | block block =>
    cases more : block.hasElse with
    | true =>
      simp only [Builder.addBranch, kind, more, if_true] at clean
      exact absurd clean not_clean_complain
    | false =>
      have tracks : Tracks script (outlook rest) (b.addBranch line condition keyword) :=
        follows.tracks.addBranch healthy.sound kind more
      obtain ⟨unchained, _, _⟩ := follows.tracks.branched.blocks 0 block ⟨b.top, rfl, kind⟩
      rw [addBranch_eq line condition keyword kind more] at tracks ⊢
      have count : (b.toBranch block line condition).nodes.length = b.nodes.length :=
        attach_length _ _ _
      refine ⟨tracks, follows.signed.skip silent noLabel rfl rfl, ?_, ?_,
        ⟨fun i d₁ there => ?_, fun f member => ?_⟩, Or.inr ⟨?_, ?_⟩, follows.outside⟩
      · rw [count]
        exact follows.outlook_silent silent
      · rintro (_ | depth) f there inside
        · cases there
          exact ⟨_, rfl, unchained⟩
        · exact follows.nested (depth + 1) f there inside
      · obtain ⟨d₀, before, core, _⟩ := attach_old there
        rw [Draft.reach_eq_of_core core]
        exact follows.flat.1 i d₀ before
      · rcases List.mem_cons.mp member with rfl | below
        · exact follows.flat.2 b.top (List.mem_cons_self ..)
        · exact follows.flat.2 f (List.mem_cons_of_mem _ below)
      · intro empty
        rw [empty] at count
        exact (follows.begun_of_block kind).1 (List.length_eq_zero_iff.mp count.symm)
      · exact (follows.begun_of_block kind).2
  | root =>
    simp only [Builder.addBranch, kind] at clean
    exact absurd clean not_clean_complain
  | option =>
    simp only [Builder.addBranch, kind] at clean
    exact absurd clean not_clean_complain

/-- The line that ends a block. -/
theorem endIf {line : Nat} (follows : Follows script (.endIf :: rest) b) (healthy : b.Healthy)
    (clean : (b.endIf line).Clean) : Follows script rest (b.endIf line) := by
  rw [Builder.endIf] at clean ⊢
  split
  next block outer below kind stack =>
    obtain ⟨unchained, _, _⟩ := follows.tracks.branched.blocks 0 block ⟨b.top, rfl, kind⟩
    have tracks := follows.tracks.closeBlock healthy.sound kind stack
    obtain ⟨labels, waiting, _, count⟩ := closeBlock_labels b block outer below
    obtain ⟨top, left⟩ := closeBlock_top b block outer below
    refine ⟨tracks, follows.signed.skip rfl (fun _ => nofun) labels waiting, ?_, ?_,
      ⟨fun i d₁ there => ?_, fun f member => ?_⟩, Or.inr ⟨?_, ?_⟩, ?_⟩
    · rw [count]
      exact follows.outlook_silent rfl
    · intro depth f there inside
      rw [left] at inside
      have deep : depth + 1 < b.below.length := by
        rw [stack, List.length_cons]
        omega
      rw [Builder.stack, top, left] at there
      -- the frame around the block has become the innermost
      cases depth with
      | zero =>
        cases there
        exact follows.nested 1 outer (by simp [Builder.stack, stack]) deep
      | succ depth =>
        refine follows.nested (depth + 2) f ?_ deep
        rw [Builder.stack, stack]
        exact there
    · rw [closeBlock_eq unchained] at there
      split at there
      · exact follows.flat.1 i d₁ there
      · obtain ⟨d₀, before, core, _⟩ := attach_old there
        rw [Draft.reach_eq_of_core core]
        exact follows.flat.1 i d₀ before
    · have frames := follows.flat.2
      rw [Builder.stack, top, left] at member
      rw [Builder.stack, stack] at frames
      rcases List.mem_cons.mp member with rfl | inside
      · exact frames outer (List.mem_cons_of_mem _ (List.mem_cons_self ..))
      · exact frames f (List.mem_cons_of_mem _ (List.mem_cons_of_mem _ inside))
    · intro empty
      rw [empty] at count
      exact (follows.begun_of_block kind).1 (List.length_eq_zero_iff.mp count.symm)
    · exact (follows.begun_of_block kind).2
    · rw [closeBlock_eq unchained]
      split <;> exact follows.outside
  next noBlock =>
    split at clean
    next block outer below kind stack => exact absurd stack (noBlock block outer below kind)
    · exact absurd clean not_clean_complain

/-- The line that declares a label. -/
theorem label {name endLabel : String} {line : Nat}
    (follows : Follows script (.label name :: rest) b)
    (clean : (b.label endLabel line name).Clean) :
    Follows script rest (b.label endLabel line name) := by
  have tracks := follows.tracks
  rw [outlook_label] at tracks
  have ahead := follows.outlook_silent rfl
  have begun : (b.nodes = [] ∧ b.below = [] ∧ arrive script = arrive rest)
      ∨ (b.nodes ≠ [] ∧ (stations script)[0]? = some (arrive script)) := by
    have pass : arrive (.label name :: rest) = arrive rest := by rw [arrive]
    rw [← pass]
    exact follows.begun
  -- Only the labels that wait and the diagnostics are others than before.
  obtain ⟨nodes, stack, edges, loose, header⟩ : (b.label endLabel line name).nodes = b.nodes
      ∧ (b.label endLabel line name).stack = b.stack
      ∧ (b.label endLabel line name).looseEdges = b.looseEdges
      ∧ (b.label endLabel line name).looseNodes = b.looseNodes
      ∧ (b.label endLabel line name).headerState = b.headerState := by
    unfold Builder.label
    repeat' split
    all_goals exact ⟨rfl, rfl, rfl, rfl, rfl⟩
  have below : (b.label endLabel line name).below = b.below := (List.cons.inj stack).2
  exact ⟨tracks.of_same nodes stack edges loose, follows.signed.label clean, nodes ▸ ahead,
    by rw [Nested, stack, below]; exact follows.nested, by rw [nodes, stack]; exact follows.flat,
    by rw [nodes, below]; exact begun, header ▸ follows.outside⟩

end Follows

/-! ### Reading lines -/

section Reading

theorem expression?_of_read {text : String} {e : Expression}
    (read : readExpression text = .ok (.ok e)) : expression? text = some e := by
  unfold readExpression at read
  cases parsed : Expression.parse text with
  | ok e' =>
    rw [parsed] at read
    cases read
    rw [expression?, parsed]
    rfl
  | error f =>
    rw [parsed] at read
    cases f <;> cases read

theorem mapM_expression?_of_read {texts : List String} {es : List Expression}
    (read : readArguments texts = .ok (.ok es)) : texts.mapM expression? = some es := by
  induction texts generalizing es with
  | nil =>
    cases read
    rfl
  | cons text rest ih =>
    obtain ⟨first, given, later⟩ := bind_eq_ok.mp read
    cases first with
    | error message => cases later
    | ok e =>
      obtain ⟨others, found, last⟩ := bind_eq_ok.mp later
      cases others with
      | error message => cases last
      | ok es' =>
        cases last
        rw [List.mapM_cons, expression?_of_read given, ih found]
        rfl

/-- In a script without choices no line is followed by an option. -/
theorem optionNext_of_plain {s : Settings} {lines : List (List Char)} (plain : IsPlain s lines) :
    optionNext lines = false := by
  induction lines with
  | nil => rfl
  | cons raw rest ih =>
    rw [optionNext_cons s.tabWidth 0]
    obtain ⟨_, kind⟩ := plain raw (List.mem_cons_self ..) 0
    split
    · exact ih fun raw' member => plain raw' (List.mem_cons_of_mem raw member)
    · rfl
    next l scanned =>
      rw [decide_eq_false_iff_not]
      intro first
      have := kind l scanned
      rcases read_asterisk first with ⟨text, option⟩ | bare
      · rw [option] at this
        cases this
      · rw [bare] at this
        cases this

variable {script rest : List Item} {b b' : Builder} {s : Settings}

/-- A line of a script without choices is read as what it does. -/
theorem Follows.readBodyLine {l : Line} {more : List (List Char)} {items : List Item}
    (follows : Follows script ((Statement.read l.body).item?.toList ++ items) b)
    (healthy : b.Healthy) (founded : Founded 0 0 b.stack) (clean : b'.Clean)
    (plain : (Statement.read l.body).isPlain = true) (noOption : optionNext more = false)
    (read : b.readBodyLine s l more = .ok b') : Follows script items b' := by
  -- Without an error the line closes no block by its indent.
  have settled : b.settle l.number l.indent = b := by
    have first := @Proceeds.settle (fun _ _ => True) 0 0 b founded l.number l.indent (Nat.zero_le _)
    have later := @Proceeds.readBodyLine (fun _ _ => True) 0 0 _ s b' l more first.2
      (Nat.zero_le _) trivial (by rw [readBodyLine_settle]; exact read)
    exact settle_eq follows.nested founded (clean.of_prefix later.1.notes)
  unfold Builder.readBodyLine at read
  dsimp only at read
  rw [settled] at read
  split at read
  next text statement =>
    rw [statement] at plain
    cases plain
  next text statement =>
    obtain ⟨⟨c, condition⟩, given, last⟩ := bind_eq_ok.mp read
    cases last
    rw [noOption] at clean ⊢
    rcases readCondition_cases given with ⟨found, rfl⟩ | ⟨message, _, rfl, rfl⟩
    · rw [statement] at follows
      simp only [Statement.item?, expression?_of_read found] at follows
      exact follows.openIf healthy l.number l.indent
    · have grown := @Grows.openIf (fun _ _ => True) 0
        (b.note (.complain l.number ("Bad condition: " ++ message))) l.number l.indent
        Expression.never false (Nat.zero_le _) trivial
      exact absurd (clean.of_prefix grown.notes) not_clean_complain
  next text statement =>
    obtain ⟨⟨c, condition⟩, given, last⟩ := bind_eq_ok.mp read
    cases last
    rcases readCondition_cases given with ⟨found, rfl⟩ | ⟨message, _, rfl, rfl⟩
    · rw [statement] at follows
      simp only [Statement.item?, expression?_of_read found] at follows
      exact @Follows.addBranch script items c (some condition) _ _ follows healthy clean
    · have grown := @Proceeds.addBranch (fun _ _ => True) 0 0
        (b.note (.complain l.number ("Bad condition: " ++ message))) founded l.number
        (some Expression.never) "[elseif]"
      exact absurd (clean.of_prefix grown.1.notes) not_clean_complain
  next statement =>
    cases read
    rw [statement] at follows
    exact @Follows.addBranch script items b none _ _ follows healthy clean
  next statement =>
    cases read
    rw [statement] at follows
    exact follows.endIf healthy clean
  next name statement =>
    cases read
    rw [statement] at follows
    exact follows.label clean
  next name statement =>
    cases read
    rw [statement] at follows
    exact follows.append healthy rfl rfl (fun _ => nofun) rfl
  next name text statement =>
    obtain ⟨⟨c, draft⟩, given, last⟩ := bind_eq_ok.mp read
    cases last
    rcases readAssignment_cases given with ⟨e, found, rfl, rfl⟩ | ⟨message, _, rfl, rfl⟩
    · rw [statement] at follows
      simp only [Statement.item?, expression?_of_read found] at follows
      refine follows.append healthy rfl rfl (fun _ => nofun) ?_
      change Item.Fits (assignStep name e l.textId) (.set name e)
      unfold assignStep
      split
      · exact ⟨_, _, rfl⟩
      · exact ⟨_, _, rfl⟩
    · exact absurd clean not_clean_complain
  next name text statement =>
    obtain ⟨result, given, last⟩ := bind_eq_ok.mp read
    cases result with
    | ok args =>
      cases last
      rw [statement] at follows
      simp only [Statement.item?, mapM_expression?_of_read given] at follows
      exact follows.append healthy rfl rfl (fun _ => nofun) rfl
    | error message =>
      cases last
      exact absurd clean not_clean_complain
  next speaker text statement =>
    cases read
    rw [statement] at follows
    exact follows.append healthy rfl rfl (fun _ => nofun) ⟨_, _, rfl⟩
  next text statement =>
    rw [statement] at plain
    cases plain
  next text statement =>
    rw [statement] at plain
    cases plain

/-- The lines of a script without choices are read as what they do. -/
theorem Follows.readLines {number : Nat} {lines : List (List Char)}
    (follows : Follows script (itemsFrom s number lines) b) (healthy : b.Healthy)
    (founded : Founded 0 0 b.stack) (clean : b'.Clean) (plain : IsPlain s lines)
    (read : Builder.readLines s b number lines = .ok b') : Follows script [] b' := by
  induction lines generalizing b number with
  | nil =>
    cases read
    exact follows
  | cons raw rest ih =>
    obtain ⟨c, first, later⟩ := bind_eq_ok.mp read
    have plain' : IsPlain s rest := fun raw' member => plain raw' (List.mem_cons_of_mem raw member)
    have proceeds := @Proceeds.readLine (fun _ _ => True) 0 0 b s c number raw rest founded
      (fun _ _ _ => ⟨Nat.zero_le _, trivial⟩) first
    have grown := @Proceeds.readLines (fun _ _ => True) 0 0 c s b' (number + 1) rest proceeds.2
      (fun _ _ _ _ _ => ⟨Nat.zero_le _, trivial⟩) later
    refine ih ?_ (healthy.readLine first) proceeds.2 plain' later
    obtain ⟨noDelimiter, kind⟩ := plain raw (List.mem_cons_self ..) number
    rw [itemsFrom, itemAt] at follows
    unfold Builder.readLine at first
    cases scanned : scan s.tabWidth number raw with
    | empty =>
      rw [scanned] at first follows
      cases first
      exact follows
    | delimiter => exact absurd scanned noDelimiter
    | line l =>
      rw [scanned] at first follows
      dsimp only at first
      rw [follows.outside, if_neg Bool.noConfusion] at first
      exact follows.readBodyLine healthy founded (clean.of_prefix grown.1.notes) (kind l scanned)
        (optionNext_of_plain plain') first

/-- An empty draft, when all lines of a script are ahead. -/
theorem Follows.start (script : List Item) : Follows script script {} := by
  have nothing : ∀ (i : Nat), ({} : Builder).nodes[i]? = none := fun _ => rfl
  have noEdge : ∀ r, edgeAt ({} : Builder).nodes r = none := fun _ => rfl
  have tight : ∀ i, ¬ LooseAt ({} : Builder).nodes i := by
    rintro i ⟨d, there, _⟩
    cases there
  have noBlock : ∀ depth block, ¬ ({} : Builder).Opens depth block := by
    rintro (_ | depth) block ⟨f, there, kind⟩ <;> cases there
    cases kind
  refine ⟨⟨⟨fun i d there => ?_, fun r near => ?_, fun depth r far => ?_, fun r e there => ?_,
    fun r unsettled => ?_⟩, ⟨fun r e there => ?_, fun depth block opens => ?_,
      fun depth _ block _ opens => ?_⟩, fun i d _ _ there => ?_⟩,
    ⟨fun _ _ => rfl, fun l member => ?_, fun l member => ?_⟩, rfl, fun depth f _ inside => ?_,
    ⟨fun i d there => ?_, fun f member => ?_⟩, Or.inl ⟨rfl, rfl, rfl⟩, rfl⟩
  · cases there
  · rcases near with waits | ⟨_, loose, _⟩
    · cases waits
    · exact absurd loose (tight _)
  · obtain ⟨f, block, there, kind, _⟩ := far
    exact absurd ⟨f, there, kind⟩ (noBlock depth block)
  · cases there
  · rcases unsettled with ⟨e, there, _⟩ | ⟨_, loose⟩
    · cases there
    · exact absurd loose (tight _)
  · cases there
  · exact absurd opens (noBlock depth block)
  · exact absurd opens (noBlock depth block)
  · cases there
  · cases member
  · cases member
  · cases inside
  · cases there
  · rw [List.mem_singleton.mp member]
    rfl

end Reading

end Colloquy.Script.Builder
