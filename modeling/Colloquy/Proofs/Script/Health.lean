import Colloquy.Proofs.Script.Soundness
/-!
# Reading keeps builders sound

Beside soundness: no choice and no select stays without an edge, labels are distinct, in lower case
and lead into the draft, and the header holds assignments alone.
-/

namespace Colloquy.Script.Builder

/-! ### Nodes that have edges -/

/-- Whether a step needs an edge. -/
def Branches (s : Step) : Prop :=
  s = .choice ∨ s = .select

/-- Every choice and every select has an edge, but for nodes at some positions. -/
def FilledBut (bare : Nat → Prop) (nodes : List Draft) : Prop :=
  ∀ i d, nodes[i]? = some d → Branches d.step → d.edges = [] → bare i

section Filled

variable {held : Nat → Prop} {loose : EdgeRef → Prop} {bare : Nat → Prop} {a b : List Draft}

theorem edges_ne_nil_of_extends (h : Extends held loose a b) {i : Nat} {d d' : Draft}
    (before : a[i]? = some d) (after : b[i]? = some d') (filled : d.edges ≠ []) :
    d'.edges ≠ [] := by
  obtain ⟨e, rest, edges⟩ := List.exists_cons_of_ne_nil filled
  have first : edgeAt a ⟨i, 0⟩ = some e :=
    edgeAt_eq_some.mpr ⟨d, before, by rw [edges]; rfl⟩
  obtain ⟨e', still, _⟩ := h.edge first
  obtain ⟨d'', there, slot⟩ := edgeAt_eq_some.mp still
  rw [after] at there
  cases there
  rintro empty
  rw [empty] at slot
  cases slot

theorem FilledBut.extends (filled : FilledBut bare a) (h : Extends held loose a b)
    (count : b.length = a.length) : FilledBut bare b := by
  intro i d' there branches empty
  have bound : i < a.length := count ▸ (List.getElem?_eq_some_iff.mp there).1
  have before := List.getElem?_eq_getElem bound
  obtain ⟨d'', now, core, _⟩ := h.node before
  rw [there] at now
  cases now
  refine filled i _ before (by rw [← Draft.step_eq_of_core core]; exact branches) ?_
  by_contra filledOnce
  exact edges_ne_nil_of_extends h before there filledOnce empty

theorem FilledBut.mono {bare' : Nat → Prop} (filled : FilledBut bare a)
    (more : ∀ i, bare i → bare' i) : FilledBut bare' a :=
  fun i d there branches empty => more i (filled i d there branches empty)

theorem FilledBut.attach {bare' : Nat → Prop} {i : Nat} (edge : DraftEdge)
    (filled : FilledBut bare a) (rest : ∀ j, j ≠ i → bare j → bare' j) :
    FilledBut bare' (Script.attach a i edge) := by
  intro j d there branches empty
  rw [attach_getElem?] at there
  by_cases same : i = j
  · rw [if_pos same] at there
    obtain ⟨d₀, _, rfl⟩ := Option.map_eq_some_iff.mp there
    simp at empty
  · rw [if_neg same] at there
    exact rest j (Ne.symm same) (filled j d there branches empty)

theorem FilledBut.append {b : Builder} {d : Draft} (connect : Bool)
    (filled : FilledBut bare b.nodes) :
    FilledBut (fun i => bare i ∨ (Branches d.step ∧ i = b.nodes.length))
      (b.append d connect).nodes := by
  have base : FilledBut (fun i => bare i ∨ (Branches d.step ∧ i = b.nodes.length))
      (b.extended d) := by
    intro i d' there branches empty
    rw [extended, List.getElem?_append] at there
    split at there
    · exact Or.inl (filled i d' there branches empty)
    next late =>
      right
      have only : i - b.nodes.length = 0 := by
        have := (List.getElem?_eq_some_iff.mp there).1
        rw [List.length_singleton] at this
        omega
      rw [only] at there
      cases there
      exact ⟨branches, by omega⟩
  exact base.extends (append_extends b d connect) (by simp [extended])

end Filled

section Operations

variable {b : Builder}

/-- No choice and no select is without an edge. -/
def Filled (b : Builder) : Prop :=
  FilledBut (fun _ => False) b.nodes

theorem Filled.append {d : Draft} (filled : b.Filled) (connect : Bool)
    (plain : ¬ Branches d.step) : (b.append d connect).Filled := by
  refine (FilledBut.append (d := d) connect filled).mono ?_
  rintro i (no | ⟨branches, _⟩)
  · exact no
  · exact plain branches

theorem Filled.release (filled : b.Filled) : b.release.Filled :=
  FilledBut.extends filled (Extends.foldl_aim (.search b.nodes.length) b.looseEdges b.nodes)
    (foldl_aim_length _ _ _)

theorem Filled.closeBlock (filled : b.Filled) (block : Block) (outer : Frame)
    (rest : List Frame) : (b.closeBlock block outer rest).Filled := by
  cases chained : block.chained with
  | true =>
    rw [closeBlock_chained b outer rest chained]
    exact FilledBut.extends filled (Extends.foldl_aim .end _ b.nodes) (foldl_aim_length _ _ _)
  | false =>
    cases hasElse : block.hasElse with
    | true =>
      rw [closeBlock_complete b outer rest chained hasElse]
      exact filled
    | false =>
      rw [closeBlock_partial b outer rest chained hasElse]
      exact FilledBut.attach _ filled fun _ _ no => no

theorem Filled.pop (filled : b.Filled) (line : Nat) : (b.pop line).Filled := by
  unfold Builder.pop
  split
  · exact filled
  · split
    · generalize Diagnostic.complain _ _ = missing
      exact Filled.closeBlock (b := b.note missing) filled _ _ _
    · exact filled.release

theorem Filled.popAbove (filled : b.Filled) (line indent fuel : Nat) :
    (Builder.popAbove line indent fuel b).Filled := by
  induction fuel generalizing b with
  | zero => exact filled
  | succ fuel ih =>
    rw [Builder.popAbove]
    split
    · exact filled
    · exact ih (filled.pop line)

theorem Filled.popAll (filled : b.Filled) (line fuel : Nat) :
    (Builder.popAll line fuel b).Filled := by
  induction fuel generalizing b with
  | zero => exact filled
  | succ fuel ih =>
    rw [Builder.popAll]
    split
    · exact filled
    · exact ih (filled.pop line)

theorem Filled.option (filled : b.Filled) (line indent : Nat) (text textId : String) :
    (b.option line indent text textId).Filled := by
  obtain ⟨choice, last⟩ := atChoice_last b line indent
  rw [option_eq text textId last]
  have base : FilledBut (· = choice) (b.atChoice line indent).nodes := by
    unfold Builder.atChoice at last ⊢
    split
    · exact filled.release.mono fun _ => False.elim
    next apart =>
      rw [if_neg apart] at last
      have same : b.nodes.length = choice := Option.some.inj last
      refine (FilledBut.append true filled).mono ?_
      rintro i (no | ⟨_, new⟩)
      · exact no.elim
      · exact new.trans same
  exact base.attach _ fun j other same => other same

theorem Filled.openIf (filled : b.Filled) (line indent : Nat) (condition : Expression)
    (optionNext : Bool) : (b.openIf line indent condition optionNext).Filled := by
  cases chained : b.follows indent || optionNext with
  | true =>
    obtain ⟨choice, last⟩ := atHead_last (b := b) line indent
    rw [openIf_chained condition chained last]
    have head : FilledBut (· = choice) (b.atHead line indent).nodes := by
      -- a choice that is made for the block is empty until the block is chained to it
      unfold Builder.atHead at last ⊢
      split
      · exact filled.mono fun _ => False.elim
      next apart =>
        rw [if_neg apart] at last
        have same : b.nodes.length = choice := Option.some.inj last
        refine (FilledBut.append true filled).mono ?_
        rintro i (no | ⟨_, new⟩)
        · exact no.elim
        · exact new.trans same
    generalize b.atHead line indent = c at head last
    have released : FilledBut (· = choice) c.release.nodes :=
      head.extends (Extends.foldl_aim (.search c.nodes.length) c.looseEdges c.nodes)
        (foldl_aim_length _ _ _)
    have count : c.release.nodes.length = c.nodes.length := foldl_aim_length _ _ _
    have both : FilledBut (· = c.nodes.length) (c.withChained choice line indent).nodes := by
      refine FilledBut.attach _ (FilledBut.append false released) ?_
      rintro j other (same | ⟨_, new⟩)
      · exact absurd same other
      · exact new.trans count
    exact both.attach _ fun j other same => other same
  | false =>
    simp only [Bool.or_eq_false_iff] at chained
    rw [chained.2, openIf_unchained condition chained.1]
    have added : FilledBut (· = b.nodes.length) (b.withSelect line indent).nodes := by
      refine (FilledBut.append true filled).mono ?_
      rintro i (no | ⟨_, new⟩)
      · exact no.elim
      · exact new
    exact added.attach _ fun j other same => other same

theorem Filled.addBranch (filled : b.Filled) (line : Nat) (condition : Option Expression)
    (keyword : String) : (b.addBranch line condition keyword).Filled := by
  cases kind : b.top.kind with
  | block block =>
    cases more : block.hasElse with
    | true =>
      simp only [Builder.addBranch, kind, more, if_true]
      exact filled
    | false =>
      rw [addBranch_eq line condition keyword kind more]
      exact FilledBut.attach _ filled fun _ _ no => no
  | root =>
    simp only [Builder.addBranch, kind]
    exact filled
  | option =>
    simp only [Builder.addBranch, kind]
    exact filled

end Operations

/-! ### Labels -/

/-- The names of all labels, those included that wait for a node. -/
def labelNames (b : Builder) : List String :=
  b.labels.map (·.1) ++ b.waiting.map (·.1)

/-- Labels are distinct, in lower case, and lead into the draft. -/
structure Labelled (b : Builder) : Prop where
  distinct : b.labelNames.Nodup
  lowered : ∀ name ∈ b.labelNames, Text.lower name = name
  targets : ∀ l ∈ b.labels, ∀ i, l.2 = some i → i < b.nodes.length

section Labels

variable {b c : Builder}

theorem Labelled.of_same (labelled : b.Labelled) (labels : c.labels = b.labels)
    (waiting : c.waiting = b.waiting) (more : b.nodes.length ≤ c.nodes.length) : c.Labelled := by
  have names : c.labelNames = b.labelNames := by rw [labelNames, labels, waiting, labelNames]
  refine ⟨names ▸ labelled.distinct, names ▸ labelled.lowered, ?_⟩
  rw [labels]
  exact fun l member i target => Nat.lt_of_lt_of_le (labelled.targets l member i target) more

/-- The labels after a node: those that waited lead to it. -/
theorem append_labels (labelled : b.Labelled) (d : Draft) (connect : Bool) :
    (b.append d connect).labels = b.labels ++ b.waiting.map fun l => (l.1, some b.nodes.length) :=
  foldl_setEntry_of_nodup (fun l : String × Nat => l.1) (fun _ => some b.nodes.length)
    labelled.distinct

theorem Labelled.append (labelled : b.Labelled) (d : Draft) (connect : Bool) :
    (b.append d connect).Labelled := by
  have labels := append_labels labelled d connect
  have names : (b.append d connect).labelNames = b.labelNames := by
    rw [labelNames, labels, labelNames]
    change _ ++ List.map _ [] = _
    simp [Function.comp_def]
  refine ⟨names ▸ labelled.distinct, names ▸ labelled.lowered, ?_⟩
  rw [labels, append_length]
  intro l member i target
  rcases List.mem_append.mp member with old | new
  · exact Nat.lt_succ_of_lt (labelled.targets l old i target)
  · obtain ⟨l', _, rfl⟩ := List.mem_map.mp new
    cases target
    exact Nat.lt_succ_self _

theorem Labelled.label (labelled : b.Labelled) (endLabel : String) (line : Nat) {name : String}
    (lowered : Text.lower name = name) : (b.label endLabel line name).Labelled := by
  unfold Builder.label
  split
  · exact labelled.of_same rfl rfl (Nat.le_refl _)
  · split
    · exact labelled.of_same rfl rfl (Nat.le_refl _)
    next free =>
      simp only [Bool.or_eq_true, List.any_eq_true, decide_eq_true_eq, not_or, not_exists,
        not_and] at free
      have new : name ∉ b.labelNames := by
        intro member
        rcases List.mem_append.mp member with old | waits
        · obtain ⟨l, inside, same⟩ := List.mem_map.mp old
          exact free.1 l inside same
        · obtain ⟨l, inside, same⟩ := List.mem_map.mp waits
          exact free.2 l inside same
      have names : ({ b with waiting := b.waiting ++ [(name, line)] } : Builder).labelNames
          = b.labelNames ++ [name] := by
        simp [labelNames]
      refine ⟨?_, ?_, labelled.targets⟩
      · rw [names]
        exact List.nodup_append.mpr ⟨labelled.distinct, by simp,
          fun x old y isNew => by rintro rfl; exact new (List.mem_singleton.mp isNew ▸ old)⟩
      · rw [names]
        intro x member
        rcases List.mem_append.mp member with old | isNew
        · exact labelled.lowered x old
        · rw [List.mem_singleton.mp isNew, lowered]

theorem closeBlock_labels (b : Builder) (block : Block) (outer : Frame) (rest : List Frame) :
    (b.closeBlock block outer rest).labels = b.labels
      ∧ (b.closeBlock block outer rest).waiting = b.waiting
      ∧ (b.closeBlock block outer rest).header = b.header
      ∧ (b.closeBlock block outer rest).nodes.length = b.nodes.length := by
  cases chained : block.chained with
  | true => simp [closeBlock_chained b outer rest chained]
  | false =>
    cases hasElse : block.hasElse with
    | true => simp [closeBlock_complete b outer rest chained hasElse]
    | false => simp [closeBlock_partial b outer rest chained hasElse]

theorem pop_labels (b : Builder) (line : Nat) :
    (b.pop line).labels = b.labels ∧ (b.pop line).waiting = b.waiting
      ∧ (b.pop line).header = b.header ∧ (b.pop line).nodes.length = b.nodes.length := by
  unfold Builder.pop
  split
  · exact ⟨rfl, rfl, rfl, rfl⟩
  · split
    · exact closeBlock_labels _ _ _ _
    · exact ⟨rfl, rfl, rfl, foldl_aim_length _ _ _⟩

theorem popAbove_labels (line indent fuel : Nat) (b : Builder) :
    (Builder.popAbove line indent fuel b).labels = b.labels
      ∧ (Builder.popAbove line indent fuel b).waiting = b.waiting
      ∧ (Builder.popAbove line indent fuel b).header = b.header
      ∧ (Builder.popAbove line indent fuel b).nodes.length = b.nodes.length := by
  induction fuel generalizing b with
  | zero => exact ⟨rfl, rfl, rfl, rfl⟩
  | succ fuel ih =>
    rw [Builder.popAbove]
    split
    · exact ⟨rfl, rfl, rfl, rfl⟩
    · obtain ⟨labels, waiting, header, count⟩ := ih (b.pop line)
      obtain ⟨labels', waiting', header', count'⟩ := pop_labels b line
      exact ⟨labels.trans labels', waiting.trans waiting', header.trans header',
        count.trans count'⟩

theorem popAll_labels (line fuel : Nat) (b : Builder) :
    (Builder.popAll line fuel b).labels = b.labels
      ∧ (Builder.popAll line fuel b).waiting = b.waiting
      ∧ (Builder.popAll line fuel b).header = b.header
      ∧ (Builder.popAll line fuel b).nodes.length = b.nodes.length := by
  induction fuel generalizing b with
  | zero => exact ⟨rfl, rfl, rfl, rfl⟩
  | succ fuel ih =>
    rw [Builder.popAll]
    split
    · exact ⟨rfl, rfl, rfl, rfl⟩
    · obtain ⟨labels, waiting, header, count⟩ := ih (b.pop line)
      obtain ⟨labels', waiting', header', count'⟩ := pop_labels b line
      exact ⟨labels.trans labels', waiting.trans waiting', header.trans header',
        count.trans count'⟩

theorem Labelled.option (labelled : b.Labelled) (line indent : Nat) (text textId : String) :
    (b.option line indent text textId).Labelled := by
  obtain ⟨choice, last⟩ := atChoice_last b line indent
  rw [option_eq text textId last]
  have base : (b.atChoice line indent).Labelled := by
    unfold Builder.atChoice
    split
    · exact labelled.of_same rfl rfl (Nat.le_of_eq (foldl_aim_length _ _ _).symm)
    · exact labelled.append _ true
  exact base.of_same rfl rfl (Nat.le_of_eq (attach_length _ _ _).symm)

theorem Labelled.openIf (labelled : b.Labelled) (line indent : Nat) (condition : Expression)
    (optionNext : Bool) : (b.openIf line indent condition optionNext).Labelled := by
  cases chained : b.follows indent || optionNext with
  | true =>
    obtain ⟨choice, last⟩ := atHead_last (b := b) line indent
    rw [openIf_chained condition chained last]
    have head : (b.atHead line indent).Labelled := by
      unfold Builder.atHead
      split
      · exact labelled
      · exact labelled.append _ true
    have released : (b.atHead line indent).release.Labelled :=
      head.of_same rfl rfl (Nat.le_of_eq (foldl_aim_length _ _ _).symm)
    have added := released.append ⟨.select, line, indent, [], 0, []⟩ false
    refine added.of_same rfl rfl (Nat.le_of_eq ?_)
    simp [enterBlock, Builder.withChained]
  | false =>
    simp only [Bool.or_eq_false_iff] at chained
    rw [chained.2, openIf_unchained condition chained.1]
    have added := labelled.append ⟨.select, line, indent, [], 0, []⟩ true
    refine added.of_same rfl rfl (Nat.le_of_eq ?_)
    simp [enterBlock, Builder.withSelect]

theorem Labelled.addBranch (labelled : b.Labelled) (line : Nat) (condition : Option Expression)
    (keyword : String) : (b.addBranch line condition keyword).Labelled := by
  cases kind : b.top.kind with
  | block block =>
    cases more : block.hasElse with
    | true =>
      simp only [Builder.addBranch, kind, more, if_true]
      exact labelled.of_same rfl rfl (Nat.le_refl _)
    | false =>
      rw [addBranch_eq line condition keyword kind more]
      exact labelled.of_same rfl rfl (Nat.le_of_eq (attach_length _ _ _).symm)
  | root =>
    simp only [Builder.addBranch, kind]
    exact labelled.of_same rfl rfl (Nat.le_refl _)
  | option =>
    simp only [Builder.addBranch, kind]
    exact labelled.of_same rfl rfl (Nat.le_refl _)

end Labels

/-! ### Whole lines -/

/-- Whether a draft is a step of a header. -/
def IsHeaderStep (d : Draft) : Prop :=
  d.edges = [] ∧ d.step.Sound ∧ d.step.kind = .setVariable

/-- All that holds of a builder between two lines. -/
structure Healthy (b : Builder) : Prop where
  sound : b.Sound
  filled : b.Filled
  labelled : b.Labelled
  header : ∀ d ∈ b.header, IsHeaderStep d

namespace Healthy

variable {b : Builder}

theorem start : ({} : Builder).Healthy where
  sound := by
    refine ⟨?_, ?_, ?_, ?_, List.nodup_nil⟩
    · intro d member
      cases member
    · intro r member
      cases member
    · intro i member
      cases member
    · intro f member
      rw [List.mem_singleton.mp member]
      refine ⟨fun i last => ?_, fun block kind => ?_, fun r inside => ?_⟩
      · cases last
      · cases kind
      · cases inside
  filled := by
    intro i d there
    cases there
  labelled := by
    refine ⟨List.nodup_nil, ?_, ?_⟩
    · intro name member
      cases member
    · intro l member
      cases member
  header := by
    intro d member
    cases member

theorem note (healthy : b.Healthy) (d : Diagnostic) : (b.note d).Healthy :=
  ⟨healthy.sound.note d, healthy.filled, healthy.labelled.of_same rfl rfl (Nat.le_refl _),
    healthy.header⟩

theorem settle (healthy : b.Healthy) (line indent : Nat) : (b.settle line indent).Healthy := by
  obtain ⟨labels, waiting, header, count⟩ := popAbove_labels line indent b.below.length b
  exact ⟨healthy.sound.popAbove line indent _, healthy.filled.popAbove line indent _,
    healthy.labelled.of_same labels waiting (Nat.le_of_eq count.symm),
    fun d member => healthy.header d (header ▸ member)⟩

theorem append {d : Draft} (healthy : b.Healthy) (connect : Bool) (step : d.step.Sound)
    (fresh : d.edges = []) (plain : ¬ Branches d.step) : (b.append d connect).Healthy :=
  ⟨healthy.sound.append connect step fresh, healthy.filled.append connect plain,
    healthy.labelled.append d connect, healthy.header⟩

theorem option (healthy : b.Healthy) (line indent : Nat) (text textId : String) :
    (b.option line indent text textId).Healthy := by
  refine ⟨healthy.sound.option line indent text textId,
    healthy.filled.option line indent text textId,
    healthy.labelled.option line indent text textId, fun d member => healthy.header d ?_⟩
  obtain ⟨choice, last⟩ := atChoice_last b line indent
  rw [option_eq text textId last] at member
  have same : (b.atChoice line indent).header = b.header := by
    unfold Builder.atChoice
    split <;> rfl
  exact same ▸ member

theorem openIf (healthy : b.Healthy) (line indent : Nat) {condition : Expression}
    (optionNext : Bool) (readable : condition.Readable) :
    (b.openIf line indent condition optionNext).Healthy := by
  refine ⟨healthy.sound.openIf line indent optionNext readable,
    healthy.filled.openIf line indent condition optionNext,
    healthy.labelled.openIf line indent condition optionNext,
    fun d member => healthy.header d ?_⟩
  cases chained : b.follows indent || optionNext with
  | true =>
    obtain ⟨choice, last⟩ := atHead_last (b := b) line indent
    rw [openIf_chained condition chained last] at member
    have same : (b.atHead line indent).header = b.header := by
      unfold Builder.atHead
      split <;> rfl
    exact same ▸ member
  | false =>
    simp only [Bool.or_eq_false_iff] at chained
    rw [chained.2, openIf_unchained condition chained.1] at member
    exact member

theorem addBranch (healthy : b.Healthy) (line : Nat) {condition : Option Expression}
    (keyword : String) (readable : ∀ c ∈ condition, c.Readable) :
    (b.addBranch line condition keyword).Healthy := by
  refine ⟨healthy.sound.addBranch line keyword readable,
    healthy.filled.addBranch line condition keyword,
    healthy.labelled.addBranch line condition keyword, fun d member => healthy.header d ?_⟩
  unfold Builder.addBranch at member
  split at member
  · split at member <;> exact member
  · exact member

theorem endIf (healthy : b.Healthy) (line : Nat) : (b.endIf line).Healthy := by
  unfold Builder.endIf
  split
  next block outer rest kind below =>
    obtain ⟨labels, waiting, header, count⟩ := closeBlock_labels b block outer rest
    exact ⟨healthy.sound.closeBlock kind below, healthy.filled.closeBlock block outer rest,
      healthy.labelled.of_same labels waiting (Nat.le_of_eq count.symm),
      fun d member => healthy.header d (header ▸ member)⟩
  · exact healthy.note _

theorem label (healthy : b.Healthy) (endLabel : String) (line : Nat) {name : String}
    (lowered : Text.lower name = name) : (b.label endLabel line name).Healthy := by
  refine ⟨healthy.sound.label endLabel line name, ?_,
    healthy.labelled.label endLabel line lowered, ?_⟩
  · unfold Builder.label
    split
    · exact healthy.filled
    · split <;> exact healthy.filled
  · unfold Builder.label
    split
    · exact healthy.header
    · split <;> exact healthy.header

theorem bare (healthy : b.Healthy) (line indent : Nat) (text textId : String) :
    (b.bare line indent text textId).Healthy := by
  unfold Builder.bare
  split
  · split
    · exact healthy.note _
    · exact healthy.append true (fun p member => Template.params_ne_empty member) rfl
        (by rintro (wrong | wrong) <;> cases wrong)
  · exact healthy.note _

/-! ### Statements -/

theorem readable_of_readExpression {text : String} {e : Expression}
    (read : readExpression text = .ok (.ok e)) : e.Readable := by
  unfold readExpression at read
  split at read
  next parsed =>
    cases read
    exact Expression.readable_of_parse parsed
  · cases read
  · cases read

theorem readable_of_readArguments {texts : List String} {args : List Expression}
    (read : readArguments texts = .ok (.ok args)) : ∀ a ∈ args, a.Readable := by
  induction texts generalizing args with
  | nil =>
    cases read
    intro a member
    cases member
  | cons text rest ih =>
    obtain ⟨first, given, read⟩ := bind_eq_ok.mp read
    cases first with
    | error message => cases read
    | ok e =>
      obtain ⟨others, more, read⟩ := bind_eq_ok.mp read
      cases others with
      | error message => cases read
      | ok es =>
        cases read
        intro a member
        rcases List.mem_cons.mp member with rfl | later
        · exact readable_of_readExpression given
        · exact ih more a later

theorem readCondition {b' : Builder} {line : Nat} {text : String} {condition : Expression}
    (healthy : b.Healthy) (read : b.readCondition line text = .ok (b', condition)) :
    b'.Healthy ∧ condition.Readable := by
  rcases readCondition_cases read with ⟨given, rfl⟩ | ⟨_, _, rfl, rfl⟩
  · exact ⟨healthy, readable_of_readExpression given⟩
  · exact ⟨healthy.note _, Expression.never_readable⟩

theorem assignStep_sound {name textId : String} {e : Expression} (named : name ≠ "")
    (readable : e.Readable) :
    (assignStep name e textId).Sound ∧ (assignStep name e textId).kind = .setVariable := by
  unfold assignStep
  split
  next t literal =>
    refine ⟨⟨named, readable, ?_⟩, rfl⟩
    rw [Step.Translates, literal]
  next other =>
    refine ⟨⟨named, readable, ?_⟩, rfl⟩
    unfold Step.Translates
    split
    · exact absurd ‹_› (other _)
    · exact ⟨rfl, rfl⟩

theorem readAssignment {b' : Builder} {line indent : Nat} {name text textId : String}
    {draft : Option Draft} (healthy : b.Healthy) (named : name ≠ "")
    (read : b.readAssignment line indent name text textId = .ok (b', draft)) :
    b'.Healthy ∧ ∀ d ∈ draft, IsHeaderStep d := by
  rcases readAssignment_cases read with ⟨e, given, rfl, rfl⟩ | ⟨_, _, rfl, rfl⟩
  · refine ⟨healthy, fun d member => ?_⟩
    cases member
    exact ⟨rfl, assignStep_sound named (readable_of_readExpression given)⟩
  · exact ⟨healthy.note _, fun d member => by cases member⟩

theorem plain_of_assign {s : Step} (kind : s.kind = .setVariable) : ¬ Branches s := by
  rintro (rfl | rfl) <;> cases kind

theorem readBodyLine {s : Settings} {b' : Builder} {l : Line} {rest : List (List Char)}
    (healthy : b.Healthy) (read : b.readBodyLine s l rest = .ok b') : b'.Healthy := by
  have settled := healthy.settle l.number l.indent
  unfold Builder.readBodyLine at read
  dsimp only at read
  generalize b.settle l.number l.indent = c at settled read
  split at read
  · cases read
    exact settled.option _ _ _ _
  · obtain ⟨⟨c', condition⟩, given, last⟩ := bind_eq_ok.mp read
    cases last
    obtain ⟨first, readable⟩ := settled.readCondition given
    exact first.openIf _ _ _ readable
  · obtain ⟨⟨c', condition⟩, given, last⟩ := bind_eq_ok.mp read
    cases last
    obtain ⟨first, readable⟩ := settled.readCondition given
    exact first.addBranch _ _ fun c member => by cases member; exact readable
  · cases read
    exact settled.addBranch _ _ fun c member => by cases member
  · cases read
    exact settled.endIf _
  next reads =>
    cases read
    exact settled.label _ _ (read_label reads)
  · cases read
    exact settled.append true trivial rfl (by rintro (wrong | wrong) <;> cases wrong)
  next reads =>
    obtain ⟨⟨c', draft⟩, given, last⟩ := bind_eq_ok.mp read
    cases last
    obtain ⟨first, step⟩ := settled.readAssignment (read_assign reads) given
    cases draft with
    | none => exact first
    | some d =>
      obtain ⟨fresh, sound, kind⟩ := step d rfl
      exact first.append true sound fresh (plain_of_assign kind)
  next reads =>
    obtain ⟨answer, given, last⟩ := bind_eq_ok.mp read
    cases answer with
    | ok args =>
      cases last
      exact settled.append true ⟨read_event reads, readable_of_readArguments given⟩ rfl
        (by rintro (wrong | wrong) <;> cases wrong)
    | error message =>
      cases last
      exact settled.note _
  · cases read
    exact settled.append true (fun p member => Template.params_ne_empty member) rfl
      (by rintro (wrong | wrong) <;> cases wrong)
  · cases read
    exact settled.bare _ _ _ _
  · cases read
    exact settled.note _

theorem headerStep {d : Draft} (healthy : b.Healthy) (step : IsHeaderStep d) :
    (b.headerStep d).Healthy := by
  unfold Builder.headerStep
  split
  · refine ⟨healthy.sound.of_same rfl rfl rfl rfl, healthy.filled,
      healthy.labelled.of_same rfl rfl (Nat.le_refl _), ?_⟩
    intro d' member
    rcases List.mem_append.mp member with old | new
    · exact healthy.header d' old
    · rw [List.mem_singleton.mp new]
      exact step
  · exact healthy

theorem readHeaderLine {b' : Builder} {l : Line} (healthy : b.Healthy)
    (read : b.readHeaderLine l = .ok b') : b'.Healthy := by
  unfold Builder.readHeaderLine at read
  split at read
  next reads =>
    obtain ⟨⟨c, draft⟩, given, rest⟩ := bind_eq_ok.mp read
    cases rest
    obtain ⟨first, step⟩ := healthy.readAssignment (read_assign reads) given
    cases draft with
    | none => exact first
    | some d => exact first.headerStep (step d rfl)
  · cases read
    exact healthy.note _

theorem delimiter (healthy : b.Healthy) (line : Nat) : (b.delimiter line).Healthy := by
  unfold Builder.delimiter
  dsimp only
  repeat' split
  all_goals
    exact ⟨healthy.sound.of_same rfl rfl rfl rfl, healthy.filled,
      healthy.labelled.of_same rfl rfl (Nat.le_refl _), healthy.header⟩

theorem readLine {s : Settings} {b' : Builder} {number : Nat} {raw : List Char}
    {rest : List (List Char)} (healthy : b.Healthy)
    (read : b.readLine s number raw rest = .ok b') : b'.Healthy := by
  unfold Builder.readLine at read
  split at read
  · cases read
    exact healthy
  · cases read
    exact healthy.delimiter number
  · split at read
    · exact healthy.readHeaderLine read
    · exact healthy.readBodyLine read

theorem readLines {s : Settings} {b' : Builder} {number : Nat} {lines : List (List Char)}
    (healthy : b.Healthy) (read : Builder.readLines s b number lines = .ok b') : b'.Healthy := by
  induction lines generalizing b number with
  | nil =>
    cases read
    exact healthy
  | cons raw rest ih =>
    obtain ⟨c, first, later⟩ := bind_eq_ok.mp read
    exact ih (healthy.readLine first) later

theorem closed (healthy : b.Healthy) (lastLine : Nat) : (b.closed lastLine).Healthy := by
  unfold Builder.closed
  have noted : (if b.headerState.inside then
      b.note (.complain lastLine "Header block is never closed with '==='") else b).Healthy := by
    split
    · exact healthy.note _
    · exact healthy
  generalize (if b.headerState.inside then
      b.note (.complain lastLine "Header block is never closed with '==='") else b) = c at noted
  obtain ⟨labels, waiting, header, count⟩ := popAll_labels lastLine c.below.length c
  have sound := (noted.sound.popAll lastLine c.below.length).release
  have filled := (noted.filled.popAll lastLine c.below.length).release
  refine ⟨sound, filled, noted.labelled.of_same labels waiting ?_,
    fun d member => noted.header d (header ▸ member)⟩
  exact Nat.le_of_eq ((foldl_aim_length _ _ _).trans count).symm

theorem endLabels_labels (b : Builder) (waiting : List (String × Nat)) :
    (b.endLabels waiting).labels
      = waiting.foldl (fun table l => setEntry table l.1 none) b.labels := by
  unfold endLabels
  induction waiting generalizing b with
  | nil => rfl
  | cons l rest ih => exact ih _

/-- The labels of a draft that has been read as a whole: those that waited end the dialogue. -/
theorem finish_labels (healthy : b.Healthy) (lastLine : Nat) :
    (b.finish lastLine).labels
      = (b.closed lastLine).labels ++ (b.closed lastLine).waiting.map fun l => (l.1, none) := by
  rw [finish_eq]
  refine (endLabels_labels _ _).trans ?_
  exact foldl_setEntry_of_nodup (fun l : String × Nat => l.1) (fun _ => none)
    (healthy.closed lastLine).labelled.distinct

theorem finish (healthy : b.Healthy) (lastLine : Nat) : (b.finish lastLine).Healthy := by
  have done := healthy.closed lastLine
  have labels := healthy.finish_labels lastLine
  obtain ⟨nodes, top, below, edges, loose, header, _⟩ :=
    (b.closed lastLine).endLabels_same (b.closed lastLine).waiting
  have names : (b.finish lastLine).labelNames = (b.closed lastLine).labelNames := by
    rw [labelNames, labels, labelNames]
    change _ ++ List.map _ [] = _
    simp [Function.comp_def]
  have count : (b.finish lastLine).nodes = (b.closed lastLine).nodes := nodes
  refine ⟨done.sound.of_same nodes edges loose (by rw [finish_eq, stack, stack, top, below]), ?_,
    ⟨names ▸ done.labelled.distinct, names ▸ done.labelled.lowered, ?_⟩, ?_⟩
  · rw [Filled, count]
    exact done.filled
  · rw [labels, count]
    intro l member i target
    rcases List.mem_append.mp member with old | new
    · exact done.labelled.targets l old i target
    · obtain ⟨l', _, rfl⟩ := List.mem_map.mp new
      cases target
  · intro d member
    exact done.header d (header ▸ member)

end Healthy

/-- Whatever a script holds, the builder that it is read into is sound. -/
theorem readScript_healthy {s : Settings} {lines : List (List Char)} {b : Builder}
    (read : readScript s lines = .ok b) : b.Healthy := by
  obtain ⟨c, first, last⟩ := bind_eq_ok.mp read
  cases last
  exact (Healthy.start.readLines first).finish lines.length

end Colloquy.Script.Builder
