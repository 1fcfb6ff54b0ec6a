import Colloquy.Proofs.Script.Compiled
import Colloquy.Proofs.Script.Seated
import Colloquy.Proofs.Script.LooseEnds
import Colloquy.Proofs.Script.Passage
/-!
# Where loose ends fall

A loose end goes on at the first node after it that is indented less than the list of options it
belongs to and that lies in no other branch. So it does not run into an option that it is not in,
unless that option joined a list at which the search could not stop: one that begins before the
search does, or that is not indented less.
-/

namespace Colloquy.Script

/-! ### Loose ends -/

/-- A loose end of a line goes on at the node `m`: the first one from a position on that is indented
less than `reach` and lies in no other branch. -/
inductive Falls (nodes : List Draft) : (line start reach m : Nat) → Prop where
  /-- a step that has no successor -/
  | step {i m : Nat} {d : Draft} (there : nodes[i]? = some d) (loose : d.isLoose = true)
      (tied : edgeAt (settleAll nodes) ⟨i, 0⟩ = some (continueEdge m)) :
      Falls nodes d.line (i + 1) d.reach m
  /-- an option without content -/
  | option {r : EdgeRef} {e : DraftEdge} {start m : Nat} (there : edgeAt nodes r = some e)
      (kind : e.kind = .decision) (left : e.destination = .search start)
      (tied : edgeAt (settleAll nodes) r = some (e.aimed (.to m))) :
      Falls nodes e.line start e.reach m
  /-- a branch that no node follows -/
  | branch {r : EdgeRef} {d : Draft} {e : DraftEdge} {start m : Nat}
      (node : nodes[r.node]? = some d) (there : edgeAt nodes r = some e)
      (kind : e.kind ≠ .decision) (left : e.destination = .search start)
      (tied : edgeAt (settleAll nodes) r = some (e.aimed (.to m))) :
      Falls nodes d.line start e.reach m

/-- Whether an option is a further one of a list that a search from a position, for a node indented
less than `reach`, does not stop at: one that begins before the position or is not indented less. -/
def JoinsPast (nodes : List Draft) (o : Line) (start reach : Nat) : Prop :=
  ∃ k d, nodes[k]? = some d ∧ d.step = .choice ∧ d.line < o.number
    ∧ (∃ e ∈ d.edges, e.kind = .decision ∧ e.line = o.number) ∧ (k < start ∨ reach ≤ d.indent)

section Search

variable {nodes : List Draft} {start reach m : Nat} {path : List Branch}

theorem fallthrough?_first (found : fallthrough? nodes start reach path = some m) {k : Nat}
    {d : Draft} (late : start ≤ k) (early : k < m) (there : nodes[k]? = some d) :
    accepts reach path d = false := by
  obtain ⟨j, first, rfl⟩ := Option.map_eq_some_iff.mp found
  obtain ⟨bound, _, before⟩ := List.findIdx?_eq_some_iff_getElem.mp first
  have refused := before (k - start) (by omega)
  have same : (nodes.drop start)[k - start]? = some d := by
    rw [List.getElem?_drop, Nat.add_sub_cancel' late]
    exact there
  rw [(List.getElem?_eq_some_iff.mp same).2] at refused
  exact Bool.eq_false_iff.mpr refused

theorem search_of_tied {r : EdgeRef} {e : DraftEdge} (there : edgeAt nodes r = some e)
    (left : e.destination = .search start)
    (tied : edgeAt (settleAll nodes) r = some (e.aimed (.to m))) :
    fallthrough? nodes start e.reach e.path = some m := by
  rw [edgeAt_settleAll there, Option.some.injEq, settleEdge, left] at tied
  exact elim_end_to (congrArg DraftEdge.destination tied)

/-- What a loose end goes on at has been found by a search. -/
theorem Falls.found {line : Nat} (falls : Falls nodes line start reach m) :
    ∃ path, fallthrough? nodes start reach path = some m := by
  cases falls with
  | @step i m d there loose tied =>
    refine ⟨d.path, elim_end_to ?_⟩
    rw [edgeAt, settleAll_getElem?, there, Option.map_some, Option.bind_some, settleDraft,
      if_pos loose] at tied
    exact congrArg DraftEdge.destination (Option.some.inj tied)
  | option there _ left tied => exact ⟨_, search_of_tied there left tied⟩
  | branch _ there _ left tied => exact ⟨_, search_of_tied there left tied⟩

end Search

/-! ### Reading through an option -/

/-- The drafts that reading goes through around an option: just before it, with it, after its
content up to a line, and in the end. -/
structure Through (lines : List Line) (o : Line) (last : Nat)
    (before opened within final : Builder) : Prop where
  healthy : before.Healthy
  orderly : before.Orderly
  opens : ∃ text, opened = before.option o.number o.indent text o.textId
  earlier : Builder.Grows (fun line _ => line < o.number) 0 {} before
  opening : Builder.Grows (fun line _ => line = o.number) 0 before opened
  later : Builder.Grows (fun line _ => o.number < line) 0 opened final
  content : Builder.Grows
    (fun line indent => o.number < line ∧ ∃ l ∈ lines, l.number = line ∧ l.indent = indent)
    opened.below.length opened within
  upTo : Builder.Grows (fun line _ => line ≤ last) 0 {} within
  after : Builder.Grows (fun line _ => last < line) 0 within final

/-- Reading a script goes through each of its options and the lines that it contains. -/
theorem through_of_read {s : Settings} {lines : List (List Char)} {b : Builder} {o : Line}
    {last : Nat} (read : Builder.readScript s lines = .ok b)
    (there : o ∈ bodyFrom s false 1 lines) (isOption : o.isOption = true)
    (contains : Contains (bodyFrom s false 1 lines) o last) (bound : last < 1 + lines.length) :
    ∃ before opened within,
      Through (bodyFrom s false 1 lines) o last before opened within b := by
  obtain ⟨c, first, done⟩ := bind_eq_ok.mp read
  cases done
  have whole := reaches_of_readLines first
  obtain ⟨b₀, raw, rest, opened, toOption, body, toOpened, fromOpened⟩ :=
    whole.at_line there (Nat.lt_trans contains.1 bound)
  obtain ⟨within, left, toLast, fromLast⟩ :=
    fromOpened.split (Nat.succ_le_succ (Nat.le_of_lt contains.1)) bound
  obtain ⟨text, opens⟩ := readBodyLine_option isOption body
  have good : b₀.Healthy ∧ b₀.Orderly := by
    refine toOption.keeps (fun b => b.Healthy ∧ b.Orderly) (fun kept step => ?_) ⟨.start, .start⟩
    exact ⟨kept.1.readLine step, kept.2.readLine step⟩
  have finished {made : Nat → Nat → Prop} : Builder.Grows made 0 c (c.finish lines.length) :=
    Builder.Grows.finish c lines.length
  -- The outermost frame stays open, so there the numbers of the lines alone bound what is made.
  have toBefore : Builder.Proceeds (fun line _ => line < o.number) 0 0 {} b₀ :=
    toOption.proceeds Builder.founded_start fun l _ early => ⟨Nat.zero_le _, early⟩
  have settled : Builder.Proceeds (fun line _ => line < o.number) 0 0 b₀
      (b₀.settle o.number o.indent) :=
    Builder.Proceeds.settle toBefore.2 o.number (Nat.zero_le _)
  have opening : Builder.Proceeds (fun line _ => line = o.number) 0 0
      (b₀.settle o.number o.indent) opened := by
    rw [opens]
    exact Builder.Proceeds.option settled.2 _ _ _ (Nat.zero_le _) rfl
  have onward : Builder.Proceeds (fun line _ => o.number < line) 0 0 opened c :=
    fromOpened.proceeds opening.2 fun l ahead _ => ⟨Nat.zero_le _, number_le_of_bodyFrom ahead⟩
  have toWithin : Builder.Proceeds (fun line _ => line ≤ last) 0 0 {} within :=
    (toOpened.trans toLast).proceeds Builder.founded_start fun l _ early =>
      ⟨Nat.zero_le _, Nat.le_of_lt_succ early⟩
  have fromWithin : Builder.Proceeds (fun line _ => last < line) 0 0 within c :=
    fromLast.proceeds toWithin.2 fun l ahead _ => ⟨Nat.zero_le _, number_le_of_bodyFrom ahead⟩
  -- The lines up to the last one do not close the frame of the option.
  have founded : Founded opened.below.length (o.indent + 1) opened.stack := by
    rw [opens]
    exact Builder.option_founded ..
  refine ⟨_, opened, within, good.1.settle _ _, good.2.settle _ _, ⟨text, opens⟩,
    toBefore.1.trans settled.1, opening.1, onward.1.trans finished, ?_, toWithin.1,
    fromWithin.1.trans finished⟩
  refine (toLast.proceeds founded fun l ahead early => ?_).1
  obtain ⟨inside, number⟩ := (toOpened.mem_body l).1 ahead
  exact ⟨contains.2 l inside number (Nat.le_of_lt_succ early), number, l, inside, rfl, rfl⟩

/-! ### What an option leaves open -/

namespace Builder

section Option

variable {b : Builder} {line indent : Nat} {text textId : String}

/-- Of the frame of an option only the edge of the option waits. -/
theorem waits_option {r : EdgeRef} {e : DraftEdge} (sound : b.Sound)
    (waits : (b.option line indent text textId).Waits
      (b.option line indent text textId).below.length r)
    (there : edgeAt (b.option line indent text textId).nodes r = some e) :
    e.kind = .decision ∧ e.line = line := by
  obtain ⟨choice, last⟩ := atChoice_last b line indent
  rw [option_eq text textId last] at waits there
  have bound := (sound.atChoice line indent).top.last choice last
  have only := edgeAt_attach ((b.atChoice line indent).optionEdge choice line text textId) bound
  obtain member | parked | ⟨f, member, _⟩ := (waits_cons (Nat.le_refl _) r).mp waits
  · cases List.mem_singleton.mp member
    cases there.symm.trans only
    exact ⟨rfl, rfl⟩
  · cases parked
  · simp [above] at member

theorem holds_option (i : Nat) : ¬ (b.option line indent text textId).Holds
    (b.option line indent text textId).below.length i := by
  obtain ⟨choice, last⟩ := atChoice_last b line indent
  obtain ⟨_, nodes⟩ := Sound.atChoice_loose b line indent
  rw [option_eq text textId last]
  intro holds
  obtain member | ends | ⟨f, member, _⟩ := (holds_cons (Nat.le_refl _) i).mp holds
  · rw [show _ = _ from nodes] at member
    cases member
  · obtain none | ⟨block, kind, _⟩ := ends
    · cases none
    · cases kind
  · simp [above] at member

/-- An edge that is left to a search when an option is read has been left to it before. -/
theorem search_of_option {r : EdgeRef} {e : DraftEdge} {start : Nat}
    (there : edgeAt (b.option line indent text textId).nodes r = some e)
    (left : e.destination = .search start) :
    edgeAt (b.atChoice line indent).nodes r = some e := by
  obtain ⟨choice, last⟩ := atChoice_last b line indent
  rw [option_eq text textId last] at there
  obtain old | ⟨_, rfl⟩ := edgeAt_attach_some there
  · exact old
  · cases left

/-- An option joins the choice that its frame ends with, or begins one. -/
theorem atChoice_cases (b : Builder) (line indent : Nat) :
    (∃ k d, b.top.last = some k ∧ b.nodes[k]? = some d ∧ d.step = .choice
        ∧ b.atChoice line indent = b.release)
      ∨ b.atChoice line indent = b.append ⟨.choice, line, indent, [], 0, []⟩ true := by
  unfold atChoice
  split
  next joined =>
    simp only [Option.isSome_filter, Option.any_eq_true, decide_eq_true_eq] at joined
    obtain ⟨d, found, kind⟩ := joined
    obtain ⟨k, last, there⟩ := Option.bind_eq_some_iff.mp found
    exact .inl ⟨k, d, last, there, step_eq_choice kind, rfl⟩
  · exact .inr rfl

/-- The frame that an option is in loses no branch by it. -/
theorem atChoice_branch (line indent : Nat) {f : Frame} {branch : Branch} (member : f ∈ b.stack)
    (inside : f.branch? = some branch) :
    ∃ f' ∈ (b.atChoice line indent).stack, f'.branch? = some branch := by
  unfold atChoice
  split
  · exact ⟨f, member, inside⟩
  · obtain rfl | further := List.mem_cons.mp member
    · exact ⟨_, List.mem_cons_self .., inside⟩
    · exact ⟨f, List.mem_cons_of_mem _ further, inside⟩

end Option

end Builder

/-! ### Loose ends around an option -/

namespace Through

variable {lines : List Line} {o : Line} {last : Nat} {before opened within final : Builder}

theorem since (through : Through lines o last before opened within final) :
    Builder.Grows (fun line _ => o.number ≤ line) 0 before final :=
  (through.opening.mono fun _ _ same => Nat.le_of_eq same.symm).trans
    (through.later.mono fun _ _ more => Nat.le_of_lt more)

/-- A search that begins before the end of the content begins for an edge that was there then. -/
theorem search_within (through : Through lines o last before opened within final) {r : EdgeRef}
    {e : DraftEdge} {start : Nat} (there : edgeAt final.nodes r = some e)
    (left : e.destination = .search start) (early : start < within.nodes.length) :
    edgeAt within.nodes r = some e := by
  obtain old | ⟨late, _⟩ := through.after.stems.searches r e start there left
  · exact old
  · exact absurd early (Nat.not_lt.mpr late)

/-- The content of an option changes no edge that was there before, but for that of the option. -/
theorem edge_opened (through : Through lines o last before opened within final) {r : EdgeRef}
    {e e₀ : DraftEdge} (there : edgeAt within.nodes r = some e)
    (was : edgeAt opened.nodes r = some e₀) (other : e.kind = .decision → e.line ≠ o.number) :
    edgeAt opened.nodes r = some e := by
  obtain ⟨e', now, core, fixed⟩ := through.content.nodes.edge was
  cases there.symm.trans now
  have free : ¬ opened.Waits opened.below.length r := by
    intro waits
    obtain ⟨text, opens⟩ := through.opens
    rw [opens] at waits was
    obtain ⟨kind, line⟩ := Builder.waits_option through.healthy.sound waits was
    exact other ((DraftEdge.kind_eq_of_core core).trans kind)
      ((DraftEdge.line_eq_of_core core).trans line)
  rw [fixed free]
  exact was

/-- The search for a loose end of an earlier line looks at the choice that the option begins. -/
theorem start_le (through : Through lines o last before opened within final)
    {line start reach m : Nat} (falls : Falls final.nodes line start reach m)
    (inside : m < within.nodes.length) (early : line < o.number)
    (begun : before.atChoice o.number o.indent
      = before.append ⟨.choice, o.number, o.indent, [], 0, []⟩ true) :
    start ≤ before.nodes.length := by
  obtain ⟨_, found⟩ := falls.found
  have ahead : start < within.nodes.length :=
    Nat.lt_of_le_of_lt (fallthrough?_spec found).1 inside
  -- A search that an edge was left to before the option looks no further back than that.
  have ofOpened {r : EdgeRef} {e : DraftEdge} (there : edgeAt opened.nodes r = some e)
      (left : e.destination = .search start) : start ≤ before.nodes.length := by
    obtain ⟨text, opens⟩ := through.opens
    rw [opens] at there
    have joined := Builder.search_of_option there left
    rw [begun] at joined
    obtain ⟨old, _⟩ | ⟨target, _⟩ := Builder.append_edge through.healthy.sound rfl joined
    · obtain none | ⟨_, bound⟩ := through.earlier.stems.searches r e start old left
      · cases none
      · exact bound
    · rw [left] at target
      cases target
  cases falls with
  | step there _ _ => exact through.since.old_of_place there (Nat.not_le.mpr early)
  | option there kind left _ =>
    have now := through.search_within there left ahead
    obtain ⟨e₀, was, _⟩ | ⟨_, late⟩ := through.content.stems.options _ _ now kind
    · exact ofOpened (through.edge_opened now was fun _ => Nat.ne_of_lt early) left
    · exact absurd early (Nat.not_lt.mpr (Nat.le_of_lt late.1))
  | @branch r d e _ _ node there kind left _ =>
    have now := through.search_within there left ahead
    have old : r.node < opened.nodes.length :=
      Nat.lt_of_lt_of_le (through.since.old_of_place node (Nat.not_le.mpr early))
        through.opening.nodes.length_le
    -- The content adds no edge to a node that was there before.
    obtain ⟨d₁, after, slot⟩ := edgeAt_eq_some.mp now
    obtain ⟨d₁', same, _, count⟩ := through.content.nodes.node (List.getElem?_eq_getElem old)
    cases after.symm.trans same
    have free : ¬ opened.Holds opened.below.length r.node := by
      obtain ⟨text, opens⟩ := through.opens
      rw [opens]
      exact Builder.holds_option r.node
    have bound : r.slot < opened.nodes[r.node].edges.length := by
      rw [← count free]
      exact (List.getElem?_eq_some_iff.mp slot).1
    have was : edgeAt opened.nodes r = some opened.nodes[r.node].edges[r.slot] :=
      edgeAt_eq_some.mpr ⟨_, List.getElem?_eq_getElem old, List.getElem?_eq_getElem bound⟩
    exact ofOpened (through.edge_opened now was fun same => absurd same kind) left

/-- A loose end that goes on within the content is no later than the content. -/
theorem line_le (through : Through lines o last before opened within final)
    {line start reach m : Nat} (falls : Falls final.nodes line start reach m)
    (inside : m < within.nodes.length) : line ≤ last := by
  obtain ⟨_, found⟩ := falls.found
  have ahead := (fallthrough?_spec found).1
  have ofNode {i : Nat} {d : Draft} (there : final.nodes[i]? = some d)
      (old : i < within.nodes.length) : d.line ≤ last := by
    obtain ⟨d₀, was, core⟩ := through.after.old_core there old
    rw [Draft.line_eq_of_core core]
    exact through.upTo.place_of_start was
  cases falls with
  | step there _ _ => exact ofNode there (by omega)
  | option there kind left _ =>
    have now := through.search_within there left (by omega)
    obtain ⟨_, none, _⟩ | ⟨_, bound⟩ := through.upTo.stems.options _ _ now kind
    · cases none
    · exact bound
  | branch node there _ left _ =>
    exact ofNode node (edgeAt_lt (through.search_within there left (by omega)))

/-- A node of the content comes after all that was there with the option, is indented more and lies
in the branches around the option. -/
theorem of_content (through : Through lines o last before opened within final) {m : Nat} {d : Draft}
    (there : final.nodes[m]? = some d) (contains : Contains lines o last) (line : d.line = last) :
    opened.nodes.length ≤ m ∧ m < within.nodes.length ∧ o.indent < d.indent
      ∧ ∀ f ∈ before.stack, ∀ branch, f.branch? = some branch → branch ∈ d.path := by
  have inside : m < within.nodes.length :=
    through.after.old_of_place there (by rw [line]; exact Nat.lt_irrefl _)
  have late : opened.nodes.length ≤ m := by
    -- a node that was there before comes of a line up to the option
    by_contra early
    obtain ⟨d₀, was, core⟩ := through.later.old_core there (Nat.lt_of_not_le early)
    have upToOption : Builder.Grows (fun line _ => line ≤ o.number) 0 {} opened :=
      (through.earlier.mono fun _ _ less => Nat.le_of_lt less).trans
        (through.opening.mono fun _ _ same => Nat.le_of_eq same)
    have bound := upToOption.place_of_start was
    have number := contains.1
    rw [← Draft.line_eq_of_core core, line] at bound
    omega
  obtain ⟨d₀, was, core⟩ := through.after.old_core there inside
  obtain ⟨⟨_, l, member, number, indent⟩, path⟩ := through.content.fresh m d₀ was late
  have number : l.number = last := by rw [number, ← Draft.line_eq_of_core core, line]
  refine ⟨late, inside, ?_, fun f around branch lies => ?_⟩
  · rw [Draft.indent_eq_of_core core, ← indent]
    exact contains.2 l member (number ▸ contains.1) (Nat.le_of_eq number)
  · obtain ⟨text, opens⟩ := through.opens
    obtain ⟨choice, ends⟩ := Builder.atChoice_last before o.number o.indent
    obtain ⟨f', further, lies'⟩ := Builder.atChoice_branch o.number o.indent around lies
    rw [Draft.path_eq_of_core core]
    refine path f' ?_ branch lies'
    rw [Builder.stack, outermost_cons _ (Nat.le_refl _), outermost_length_self, opens,
      Builder.option_eq text o.textId ends]
    exact further

/-- No search that looks at a choice for a node of an option's content stops there, so the choice is
not indented less than the search asks for, if it lies in the branches around the option. -/
theorem passed (through : Through lines o last before opened within final)
    {start reach m k : Nat} {path : List Branch} {d c : Draft}
    (found : fallthrough? final.nodes start reach path = some m) (node : final.nodes[m]? = some d)
    (contains : Contains lines o last) (line : d.line = last) (there : final.nodes[k]? = some c)
    (late : start ≤ k) (early : k < opened.nodes.length)
    (around : ∀ branch ∈ c.path, ∃ f ∈ before.stack, f.branch? = some branch) :
    reach ≤ c.indent := by
  obtain ⟨after, _, _, branches⟩ := through.of_content node contains line
  have refused := fallthrough?_first found late (Nat.lt_of_lt_of_le early after) there
  obtain ⟨_, d', same, accepted⟩ := fallthrough?_spec found
  cases node.symm.trans same
  simp only [accepts, Bool.and_eq_true, decide_eq_true_eq, List.all_eq_true,
    List.contains_iff_mem] at accepted
  by_contra less
  have within : ∀ branch ∈ c.path, branch ∈ path := by
    intro branch member
    obtain ⟨f, inside, lies⟩ := around branch member
    exact accepted.2 branch (branches f inside branch lies)
  have stops : accepts reach path c = true := by
    simp only [accepts, Bool.and_eq_true, decide_eq_true_eq, List.all_eq_true,
      List.contains_iff_mem]
    exact ⟨Nat.lt_of_not_le less, within⟩
  rw [refused] at stops
  cases stops

/-- The option of an earlier loose end that goes on in its content joined a list. -/
theorem joinsPast (through : Through lines o last before opened within final)
    {line start reach m : Nat} {d : Draft} (falls : Falls final.nodes line start reach m)
    (node : final.nodes[m]? = some d) (contains : Contains lines o last) (here : d.line = last)
    (early : line < o.number) : JoinsPast final.nodes o start reach := by
  obtain ⟨path, found⟩ := falls.found
  obtain ⟨after, inside, deeper, _⟩ := through.of_content node contains here
  obtain ⟨text, opens⟩ := through.opens
  obtain ⟨choice, ends⟩ := Builder.atChoice_last before o.number o.indent
  have place := (through.healthy.sound.atChoice o.number o.indent).top.last choice ends
  rw [Builder.option_eq text o.textId ends] at opens
  have count : opened.nodes.length = (before.atChoice o.number o.indent).nodes.length := by
    rw [opens]
    exact attach_length _ _ _
  -- The choice that the option is added to, as it is in the end.
  have choiceStays {c : Draft}
      (there : (before.atChoice o.number o.indent).nodes[choice]? = some c) :
      ∃ c', final.nodes[choice]? = some c' ∧ c'.core = c.core := by
    obtain ⟨c₁, between, core₁, _⟩ := (Extends.attach _ choice
      ((before.atChoice o.number o.indent).optionEdge choice o.number text o.textId)).node there
    have now : opened.nodes[choice]? = some c₁ := by rw [opens]; exact between
    obtain ⟨c', last, core₂, _⟩ := through.later.nodes.node now
    exact ⟨c', last, core₂.trans core₁⟩
  obtain ⟨k, c, last, there, step, joined⟩ | begun :=
    Builder.atChoice_cases before o.number o.indent
  · have same : k = choice := by
      rw [joined] at ends
      exact Option.some.inj (last.symm.trans ends)
    subst same
    have released := Extends.foldl_aim (.search before.nodes.length) before.looseEdges before.nodes
    obtain ⟨c₀, between, core₀, _⟩ := released.node there
    obtain ⟨c', now, core⟩ := choiceStays (by rw [joined]; exact between)
    have core := core.trans core₀
    refine ⟨k, c', now, (Draft.step_eq_of_core core).trans step, ?_, ?_, ?_⟩
    · rw [Draft.line_eq_of_core core]
      exact through.earlier.place_of_start there
    · have own : edgeAt opened.nodes (nextEdge (before.atChoice o.number o.indent).nodes k) = some
          ((before.atChoice o.number o.indent).optionEdge k o.number text o.textId) := by
        rw [opens]
        exact Builder.edgeAt_attach _ place
      obtain ⟨e, finally_, same, _⟩ := through.later.nodes.edge own
      obtain ⟨c'', node', slot⟩ := edgeAt_eq_some.mp finally_
      cases now.symm.trans node'
      exact ⟨e, List.mem_of_getElem? slot, DraftEdge.kind_eq_of_core same,
        DraftEdge.line_eq_of_core same⟩
    · by_contra neither
      simp only [not_or, Nat.not_lt, Nat.not_le] at neither
      have bound := through.passed found node contains here now neither.1 (count ▸ place) ?_
      · exact absurd neither.2 (Nat.not_lt.mpr bound)
      · intro branch member
        obtain ⟨c₂, there₂, within₂⟩ := through.orderly.frames.last last
        cases there.symm.trans there₂
        rw [Draft.path_eq_of_core core, within₂ step] at member
        exact mem_branchesOf.mp member
  · -- A list that the option begins is where the search would have stopped.
    exfalso
    have bound := through.start_le falls inside early begun
    rw [begun] at ends place choiceStays
    cases ends
    obtain ⟨c₀, there, core₀⟩ := Builder.append_getElem?_length before
      ⟨.choice, o.number, o.indent, [], 0, []⟩ true
    obtain ⟨c', now, core⟩ := choiceStays there
    have core := core.trans core₀
    have indent : c'.indent = o.indent := congrArg Draft.indent core
    have path' : c'.path = before.path := congrArg Draft.path core
    have refused := through.passed found node contains here now bound
      (by rw [count, begun]; exact place) ?_
    · obtain ⟨_, d', same, accepted⟩ := fallthrough?_spec found
      cases node.symm.trans same
      simp only [accepts, Bool.and_eq_true, decide_eq_true_eq] at accepted
      have := accepted.1
      omega
    · intro branch member
      rw [path'] at member
      obtain ⟨f, around, lies⟩ := List.mem_filterMap.mp member
      exact ⟨f, List.mem_reverse.mp around, lies⟩

end Through

/-! ### The whole script -/

theorem line_lt_of_read {s : Settings} {lines : List (List Char)} {b : Builder} {i : Nat}
    {d : Draft} (read : Builder.readScript s lines = .ok b) (there : b.nodes[i]? = some d) :
    d.line < 1 + lines.length := by
  obtain ⟨c, first, done⟩ := bind_eq_ok.mp read
  cases done
  have grown : Builder.Proceeds (fun line _ => line < 1 + lines.length) 0 0 {} c :=
    (reaches_of_readLines first).proceeds Builder.founded_start fun l _ early =>
      ⟨Nat.zero_le _, early⟩
  exact (grown.1.trans (Builder.Grows.finish c lines.length)).place_of_start there

/-- A loose end goes on in the content of an option only from within that option, or where the
option joined a list that the search could not stop at and is indented less than it asks for. -/
theorem fallthrough_stays {s : Settings} {name text : String} {c : Compilation} {g : Graph}
    (compiled : compile s name text = .ok c) (made : c.graph = some g) :
    ∃ b, Builder.readScript s (Text.lines text.toList) = .ok b ∧ ComesOf s name b g
      ∧ ∀ line start reach m d, Falls b.nodes line start reach m → b.nodes[m]? = some d →
        ∀ o ∈ bodyLines s text, o.isOption = true → Contains (bodyLines s text) o d.line →
          o.number = line ∨ Contains (bodyLines s text) o line
            ∨ line < o.number ∧ o.indent < d.indent ∧ d.indent < reach
              ∧ JoinsPast b.nodes o start reach := by
  obtain ⟨b, linked, _, comes⟩ := compile_graph compiled made
  refine ⟨b, linked.read, comes, ?_⟩
  intro line start reach m d falls node o there isOption contains
  have bound : d.line < 1 + (Text.lines text.toList).length := line_lt_of_read linked.read node
  obtain ⟨before, opened, within, through⟩ :=
    through_of_read linked.read there isOption contains bound
  obtain ⟨_, inside, deeper, _⟩ := through.of_content node contains rfl
  obtain early | rfl | late := Nat.lt_trichotomy line o.number
  · obtain ⟨_, found⟩ := falls.found
    obtain ⟨_, d', same, accepted⟩ := fallthrough?_spec found
    cases node.symm.trans same
    simp only [accepts, Bool.and_eq_true, decide_eq_true_eq] at accepted
    exact .inr (.inr ⟨early, deeper, accepted.1,
      through.joinsPast falls node contains rfl early⟩)
  · exact .inl rfl
  · have bound := through.line_le falls inside
    refine .inr (.inl ⟨late, fun l member after upTo => ?_⟩)
    exact contains.2 l member after (Nat.le_trans upTo bound)

/-- A nested list with a line after it that is indented less than the list. -/
def listThenLine : String :=
  "A: q\n* one\n    A: a\n    * deep\n        A: x\n  B: m\n"

/-- A step at the end of a nested option goes on in the option around it. -/
theorem fallthrough_stays_outer :
    ∃ c g b start reach m d, ∃ o ∈ bodyLines .standard listThenLine,
      compile .standard "script" listThenLine = .ok c ∧ c.graph = some g
      ∧ Builder.readScript .standard (Text.lines listThenLine.toList) = .ok b
      ∧ Falls b.nodes 5 start reach m ∧ b.nodes[m]? = some d ∧ o.number = 2 ∧ o.isOption = true
      ∧ Contains (bodyLines .standard listThenLine) o d.line
      ∧ (o.number = 5 ∨ Contains (bodyLines .standard listThenLine) o 5
        ∨ 5 < o.number ∧ o.indent < d.indent ∧ d.indent < reach
          ∧ JoinsPast b.nodes o start reach) := by
  have opens : (compile .standard "script" listThenLine).toOption.any (·.graph.isSome) = true := by
    decide +kernel
  have reads : (Builder.readScript .standard (Text.lines listThenLine.toList)).toOption.any
      (fun b => b.nodes[4]?.any (fun d => d.isLoose && d.line = 5)
        && edgeAt (settleAll b.nodes) ⟨4, 0⟩ = some (continueEdge 5)
        && b.nodes[5]?.any (·.line = 6)) = true := by
    decide +kernel
  have options : (bodyLines .standard listThenLine).any (fun o => o.number = 2 && o.isOption
      && Contains (bodyLines .standard listThenLine) o 6) = true := by
    decide +kernel
  obtain ⟨c, compiled, made⟩ := exists_ok_of_any opens
  obtain ⟨g, graph⟩ := Option.isSome_iff_exists.1 made
  obtain ⟨b, read, facts⟩ := exists_ok_of_any reads
  obtain ⟨o, there, facts'⟩ := List.any_eq_true.1 options
  simp only [Bool.and_eq_true, decide_eq_true_eq, Option.any_eq_true] at facts facts'
  obtain ⟨⟨⟨d₀, node₀, loose, line₀⟩, tied⟩, d, node, line⟩ := facts
  obtain ⟨⟨number, isOption⟩, contains⟩ := facts'
  have falls : Falls b.nodes d₀.line 5 d₀.reach 5 := .step node₀ loose tied
  rw [line₀] at falls
  obtain ⟨b', read', _, stays⟩ := fallthrough_stays compiled graph
  cases read.symm.trans read'
  rw [← line] at contains
  exact ⟨c, g, b, 5, d₀.reach, 5, d, o, there, compiled, graph, read, falls, node, number, isOption,
    contains, stays 5 5 d₀.reach 5 d falls node o there isOption contains⟩

/-- A nested list that is indented more than the text before it, and a further option after it. -/
def deepList : String :=
  "A: q\n* one\n    A: a\n        * deep\n            A: x\n* two\n    B: m\n"

/-- The end of an option of a nested list goes on in the next option of the list around it, which
does not contain it. -/
theorem option_runs_on :
    ∃ c g b start reach m d, ∃ o ∈ bodyLines .standard deepList,
      compile .standard "script" deepList = .ok c ∧ c.diagnostics = [] ∧ c.graph = some g
      ∧ Builder.readScript .standard (Text.lines deepList.toList) = .ok b
      ∧ Falls b.nodes 5 start reach m ∧ b.nodes[m]? = some d ∧ o.number = 6 ∧ o.isOption = true
      ∧ Contains (bodyLines .standard deepList) o d.line
      ∧ ¬ Contains (bodyLines .standard deepList) o 5 := by
  have opens : (compile .standard "script" deepList).toOption.any (fun c =>
      c.diagnostics = [] && c.graph.isSome) = true := by
    decide +kernel
  have reads : (Builder.readScript .standard (Text.lines deepList.toList)).toOption.any (fun b =>
      b.nodes[4]?.any (fun d => d.isLoose && d.line = 5)
        && edgeAt (settleAll b.nodes) ⟨4, 0⟩ = some (continueEdge 5)
        && b.nodes[5]?.any (·.line = 7)) = true := by
    decide +kernel
  have options : (bodyLines .standard deepList).any (fun o => o.number = 6 && o.isOption
      && Contains (bodyLines .standard deepList) o 7
      && !Contains (bodyLines .standard deepList) o 5) = true := by
    decide +kernel
  obtain ⟨c, compiled, shows⟩ := exists_ok_of_any opens
  simp only [Bool.and_eq_true, decide_eq_true_eq] at shows
  obtain ⟨clean, made⟩ := shows
  obtain ⟨g, graph⟩ := Option.isSome_iff_exists.1 made
  obtain ⟨b, read, facts⟩ := exists_ok_of_any reads
  obtain ⟨o, there, facts'⟩ := List.any_eq_true.1 options
  simp only [Bool.and_eq_true, decide_eq_true_eq, Option.any_eq_true, Bool.not_eq_true',
    decide_eq_false_iff_not] at facts facts'
  obtain ⟨⟨⟨d₀, node₀, loose, line₀⟩, tied⟩, d, node, line⟩ := facts
  obtain ⟨⟨⟨number, isOption⟩, contains⟩, apart⟩ := facts'
  have falls : Falls b.nodes d₀.line 5 d₀.reach 5 := .step node₀ loose tied
  rw [line₀] at falls
  rw [← line] at contains
  exact ⟨c, g, b, 5, d₀.reach, 5, d, o, there, compiled, clean, graph, read, falls, node, number,
    isOption, contains, apart⟩

end Colloquy.Script
