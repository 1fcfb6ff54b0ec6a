import Colloquy.Proofs.Circle
import Colloquy.Proofs.Graph.Search
/-!
# Where choices are found

The search for the choices of a line, said without the search. From the line its only edge leads on,
then the first edges of steps that set variables or raise events, to a step of another kind; the
choices are there if a choice can be reached from it through selects alone.

The search finds them in every arena, however its edges go round in circles, unless it gives up;
and it gives up only where selects are nested deeper than it may go.
-/

namespace Colloquy

open Relation (ReflTransGen)

/-- An edge leads to the node at a place. -/
def Edge.Points (nodes : List Node) (e : Edge) (m : Node) : Prop :=
  ∃ p : Nat, e.target = some (.ofNat p) ∧ nodes[p]? = some m

/-- The first edge of a node leads to another. -/
def Precedes (nodes : List Node) (n m : Node) : Prop :=
  ∃ e, n.edges.head? = some e ∧ e.Points nodes m

/-- Steps that stand between a line and its choices. -/
def Node.Passing (n : Node) : Prop :=
  n.kind = .setVariable ∨ n.kind = .event

instance (n : Node) : Decidable n.Passing :=
  inferInstanceAs (Decidable (_ ∨ _))

/-- From a step that sets a variable or raises an event to the next. -/
def PassesTo (nodes : List Node) (n m : Node) : Prop :=
  n.Passing ∧ Precedes nodes n m

/-- From a select along any of its edges. -/
def OpensTo (nodes : List Node) (n m : Node) : Prop :=
  n.kind = .select ∧ ∃ e ∈ n.edges, e.Points nodes m

/-- A choice is reached from a node through selects alone. -/
def HoldsChoice (nodes : List Node) (n : Node) : Prop :=
  ∃ c, ReflTransGen (OpensTo nodes) n c ∧ c.kind = .choice

/-- The first step behind a line that neither sets a variable nor raises an event. -/
def ComesTo (nodes : List Node) (line n : Node) : Prop :=
  line.edges.length = 1
    ∧ (∃ next, Precedes nodes line next ∧ ReflTransGen (PassesTo nodes) next n) ∧ ¬ n.Passing

/-- Selects, all of them different, each of which leads to the next. -/
structure Nested (nodes way : List Node) : Prop where
  selects : ∀ n ∈ way, n.kind = .select
  apart : way.Nodup
  opens : way.IsChain (OpensTo nodes)

/-- Behind a line selects are nested as deep as a search may go. -/
def TooNested (nodes : List Node) (line : Node) : Prop :=
  ∃ start way, ComesTo nodes line start ∧ Nested nodes (start :: way) ∧ searchDepth ≤ way.length + 1

namespace Rooted

variable {nodes : List Node} (rooted : Rooted nodes)

include rooted

/-- Nodes of an arena that have one number are one. -/
theorem eq_of_index {n m : Node} (here : n ∈ nodes) (there : m ∈ nodes) (same : n.index = m.index) :
    n = m := by
  obtain ⟨i, first⟩ := List.mem_iff_getElem?.1 here
  obtain ⟨j, second⟩ := List.mem_iff_getElem?.1 there
  rw [rooted.index i n first, rooted.index j m second] at same
  subst same
  exact Option.some.inj (first.symm.trans second)

theorem landing_iff {n m : Node} {e : Edge} (member : n ∈ nodes) (own : e ∈ n.edges) :
    landing nodes e.target = some m ↔ e.Points nodes m := by
  constructor
  · intro lands
    obtain ⟨r, target, _⟩ := Option.bind_eq_some_iff.1 lands
    obtain ⟨p, m', rfl, there⟩ := rooted.target n member e own r target
    rw [landing, target, Option.bind_some, follow_ofNat there] at lands
    cases lands
    exact ⟨p, target, there⟩
  · rintro ⟨p, target, there⟩
    rw [landing, target, Option.bind_some, follow_ofNat there]
    rfl

theorem ahead_iff {n m : Node} (member : n ∈ nodes) :
    ahead nodes n = some m ↔ Precedes nodes n m := by
  unfold ahead Precedes
  constructor
  · intro next
    obtain ⟨e, first, lands⟩ := Option.bind_eq_some_iff.1 next
    exact ⟨e, first, (rooted.landing_iff member (List.mem_of_head? first)).1 lands⟩
  · rintro ⟨e, first, points⟩
    rw [first, Option.bind_some]
    exact (rooted.landing_iff member (List.mem_of_head? first)).2 points

end Rooted

theorem Edge.Points.mem {nodes : List Node} {e : Edge} {m : Node} (points : e.Points nodes m) :
    m ∈ nodes := by
  obtain ⟨p, _, there⟩ := points
  exact List.mem_of_getElem? there

theorem Precedes.mem {nodes : List Node} {n m : Node} (next : Precedes nodes n m) : m ∈ nodes := by
  obtain ⟨e, _, points⟩ := next
  exact points.mem

theorem OpensTo.mem {nodes : List Node} {n m : Node} (opens : OpensTo nodes n m) : m ∈ nodes := by
  obtain ⟨_, e, _, points⟩ := opens
  exact points.mem

/-! ### The way to the first other step -/

section Passing

variable {nodes : List Node}

/-- A step is followed by one node at most. -/
theorem Precedes.unique {n m m' : Node} (first : Precedes nodes n m)
    (second : Precedes nodes n m') :
    m' = m := by
  obtain ⟨e, head, p, target, there⟩ := first
  obtain ⟨e', head', p', target', there'⟩ := second
  cases head.symm.trans head'
  have place : (p : Int) = p' := Ref.at.inj (Option.some.inj (target.symm.trans target'))
  obtain rfl : p = p' := by omega
  exact Option.some.inj (there'.symm.trans there)

/-- Steps that end somewhere do not come round. -/
theorem straight_of_passes {a n : Node} (reached : ReflTransGen (PassesTo nodes) a n)
    (other : ¬ n.Passing) : Straight (PassesTo nodes) a := by
  apply straight_of_acc
  induction reached using ReflTransGen.head_induction_on with
  | refl => exact .intro _ fun m step => absurd step.1 other
  | head step _ ih =>
    refine .intro _ fun m step' => ?_
    rw [step.2.unique step'.2]
    exact ih

theorem skipped_sound (rooted : Rooted nodes) {fuel : Nat} {start : Option Node} {seen : List Nat}
    {n : Node} (inside : ∀ a, start = some a → a ∈ nodes)
    (found : skipped nodes fuel start seen = some n) :
    ∃ a, start = some a ∧ ReflTransGen (PassesTo nodes) a n ∧ ¬ n.Passing := by
  induction fuel generalizing start seen with
  | zero => cases found
  | succ fuel ih =>
    cases start with
    | none => cases found
    | some a =>
      have member := inside a rfl
      refine ⟨a, rfl, ?_⟩
      rw [skipped] at found
      split at found
      next passing =>
        split at found
        · cases found
        · have onward : ∀ b, ahead nodes a = some b → b ∈ nodes :=
            fun b next => ((rooted.ahead_iff member).1 next).mem
          obtain ⟨b, next, reached, other⟩ := ih onward found
          have step : PassesTo nodes a b :=
            ⟨by simpa [Node.Passing] using passing, (rooted.ahead_iff member).1 next⟩
          exact ⟨.head step reached, other⟩
      next other =>
        cases found
        exact ⟨.refl, by simpa [Node.Passing] using other⟩

/-- The numbers of the steps on a trail are those that the search remembers; as the trail goes
straight, the search does not stop at any of them. -/
theorem skipped_complete (rooted : Rooted nodes) {fuel : Nat} {a n : Node} {path : List Node}
    (trail : Trail (PassesTo nodes) nodes path a) (member : a ∈ nodes)
    (enough : nodes.length < path.length + fuel) (reached : ReflTransGen (PassesTo nodes) a n)
    (other : ¬ n.Passing) :
    skipped nodes fuel (some a) (path.map (·.index)) = some n := by
  have straight := straight_of_passes reached other
  induction fuel generalizing a path with
  | zero =>
    have := trail.length_lt member straight
    omega
  | succ fuel ih =>
    rw [skipped]
    obtain rfl | ⟨b, step, later⟩ := reached.cases_head
    · rw [if_neg (by simpa [Node.Passing] using other)]
    · -- a number that is remembered would put the node on its own trail
      have new : a.index ∉ path.map (·.index) := by
        intro visited
        obtain ⟨b, before, same⟩ := List.mem_map.1 visited
        obtain rfl := rooted.eq_of_index (trail.inside before) member same
        exact (List.nodup_cons.1 (trail.visit member straight).1).1 before
      have again := ih (trail.next member straight step) step.2.mem
        (by rw [List.length_cons]; omega) later (straight.step step)
      rw [if_pos (by simpa [Node.Passing] using step.1), if_neg (by simpa using new),
        (rooted.ahead_iff member).2 step.2]
      exact again

/-- The search begins at the first other step. -/
theorem Rooted.choiceStart_iff (rooted : Rooted nodes) {line n : Node} (member : line ∈ nodes) :
    choiceStart nodes line = some n ↔ ComesTo nodes line n := by
  unfold choiceStart ComesTo
  by_cases single : line.edges.length = 1
  · have onward : ∀ a, ahead nodes line = some a → a ∈ nodes :=
      fun a next => ((rooted.ahead_iff member).1 next).mem
    rw [if_neg (not_not.2 single)]
    constructor
    · intro found
      obtain ⟨a, next, reached, other⟩ := skipped_sound rooted onward found
      exact ⟨single, ⟨a, (rooted.ahead_iff member).1 next, reached⟩, other⟩
    · rintro ⟨_, ⟨a, next, reached⟩, other⟩
      rw [(rooted.ahead_iff member).2 next]
      exact skipped_complete rooted (.start _ _ _) next.mem (by rw [List.length_nil]; omega)
        reached other
  · rw [if_pos single]
    exact ⟨fun none => (by cases none), fun comes => absurd comes.1 single⟩

end Passing

/-! ### The search through selects -/

section Opening

variable {nodes : List Node}

theorem HoldsChoice.of_choice {n : Node} (choice : n.kind = .choice) : HoldsChoice nodes n :=
  ⟨n, .refl, choice⟩

theorem HoldsChoice.of_opens {n m : Node} (opens : OpensTo nodes n m)
    (holds : HoldsChoice nodes m) :
    HoldsChoice nodes n := by
  obtain ⟨c, reached, choice⟩ := holds
  exact ⟨c, .head opens reached, choice⟩

/-- A search that goes along edges, one after the other, up to the first choice. -/
def Sight.along (nodes : List Node) (search : Node → List Nat → Sight) (es : List Edge)
    (s : Sight) : Sight :=
  es.foldl (fun s e => s.through search (landing nodes e.target)) s

section Along

variable {search : Node → List Nat → Sight} {node : Node} {s : Sight}

theorem through_found (found : s.found = true) (next : Option Node) :
    s.through search next = s := by
  simp [Sight.through, found]

theorem through_none : s.through search none = s := by
  simp [Sight.through]

theorem through_some (found : s.found = false) (m : Node) :
    s.through search (some m) = ⟨max s.levels ((search m s.seen).levels + 1),
      (search m s.seen).found, (search m s.seen).seen⟩ := by
  simp [Sight.through, found]

theorem along_cons (e : Edge) (rest : List Edge) : s.along nodes search (e :: rest)
    = (s.through search (landing nodes e.target)).along nodes search rest :=
  rfl

/-- What a search keeps along each edge of a select it keeps along all of them. -/
theorem along_keeps (rooted : Rooted nodes) (member : node ∈ nodes) (select : node.kind = .select)
    (keeps : Sight → Prop)
    (goes : ∀ s m, keeps s → s.found = false → OpensTo nodes node m →
      keeps (s.through search (some m)))
    {es : List Edge} (own : es ⊆ node.edges) (start : keeps s) :
    keeps (s.along nodes search es) := by
  induction es generalizing s with
  | nil => exact start
  | cons e rest ih =>
    obtain ⟨here, later⟩ := List.cons_subset.1 own
    rw [along_cons]
    apply ih later
    cases found : s.found with
    | true =>
      rw [through_found found]
      exact start
    | false =>
      cases lands : landing nodes e.target with
      | none =>
        rw [through_none]
        exact start
      | some m =>
        have points := (rooted.landing_iff member here).1 lands
        exact goes s m start found ⟨select, e, here, points⟩

end Along

/-- A node that a search enters is a select that it has not entered before. -/
theorem entered {node : Node} {seen : List Nat}
    (enters : ¬ (node.kind ≠ .select || seen.contains node.index) = true) :
    node.kind = .select ∧ node.index ∉ seen := by
  simpa only [Bool.or_eq_true, decide_eq_true_eq, not_or, Decidable.not_not,
    List.contains_eq_mem] using enters

/-- A search that meets a choice was led to it. -/
theorem sight_sound (rooted : Rooted nodes) {fuel : Nat} {node : Node} {seen : List Nat}
    (member : node ∈ nodes) (found : (sight nodes fuel node seen).found = true) :
    HoldsChoice nodes node := by
  induction fuel generalizing node seen with
  | zero => cases found
  | succ fuel ih =>
    rw [sight] at found
    split at found
    next choice => exact .of_choice choice
    · split at found
      · cases found
      next enters =>
        refine along_keeps rooted member (entered enters).1
          (fun s => s.found = true → HoldsChoice nodes node) ?_ (List.Subset.refl _)
          (fun no => by cases no) found
        intro s m _ fresh opens there
        rw [through_some fresh] at there
        exact .of_opens opens (ih opens.mem there)

/-- A node that a search has been at without meeting a choice. -/
def Examined (seen : List Nat) (n : Node) : Prop :=
  n.kind ≠ .choice ∧ (n.kind = .select → n.index ∈ seen)

/-- A search has been at all nodes that the selects lead to which it has entered meanwhile. -/
def Finished (nodes : List Node) (before after : List Nat) : Prop :=
  ∀ n ∈ nodes, n.index ∈ after → n.index ∉ before → ∀ m, OpensTo nodes n m → Examined after m

theorem Examined.mono {seen seen' : List Nat} {n : Node} (examined : Examined seen n)
    (more : seen ⊆ seen') : Examined seen' n :=
  ⟨examined.1, fun select => more (examined.2 select)⟩

theorem Finished.refl (nodes : List Node) (seen : List Nat) : Finished nodes seen seen :=
  fun _ _ inside outside => absurd inside outside

theorem Finished.trans {a b c : List Nat} (first : Finished nodes a b) (second : Finished nodes b c)
    (more : b ⊆ c) : Finished nodes a c := by
  intro n member inside outside m opens
  by_cases between : n.index ∈ b
  · exact (first n member between outside m opens).mono more
  · exact second n member inside between m opens

theorem along_seen (rooted : Rooted nodes) {node : Node} (member : node ∈ nodes)
    (select : node.kind = .select) {es : List Edge} (own : es ⊆ node.edges) (fuel : Nat)
    (s : Sight) :
    s.seen ⊆ (s.along nodes (sight nodes fuel) es).seen := by
  apply along_keeps rooted member select (fun t => s.seen ⊆ t.seen) _ own (List.Subset.refl _)
  intro t m more fresh _
  rw [through_some fresh]
  exact List.Subset.trans more (sight_seen fuel m t.seen)

/-- A search that has met a choice goes no further. -/
theorem along_fresh (rooted : Rooted nodes) {fuel : Nat} {node : Node} (member : node ∈ nodes)
    (select : node.kind = .select) {es : List Edge} (own : es ⊆ node.edges) {s : Sight}
    (none : (s.along nodes (sight nodes fuel) es).found = false) : s.found = false := by
  by_contra found
  rw [Bool.not_eq_false] at found
  have still : (s.along nodes (sight nodes fuel) es).found = true := by
    apply along_keeps rooted member select (fun s => s.found = true) _ own found
    intro t m before fresh
    rw [before] at fresh
    cases fresh
  rw [none] at still
  cases still

/-- If the search is complete from the nodes that the edges of a select lead to, it is along the
edges. -/
theorem along_complete (rooted : Rooted nodes) {fuel : Nat} {node : Node} (member : node ∈ nodes)
    (select : node.kind = .select)
    (search : ∀ m ∈ nodes, ∀ seen, (unentered nodes seen).length < fuel →
      (sight nodes fuel m seen).found = false →
      Examined (sight nodes fuel m seen).seen m
        ∧ Finished nodes seen (sight nodes fuel m seen).seen)
    {es : List Edge} (own : es ⊆ node.edges) {s : Sight}
    (enough : (unentered nodes s.seen).length < fuel)
    (none : (s.along nodes (sight nodes fuel) es).found = false) :
    Finished nodes s.seen (s.along nodes (sight nodes fuel) es).seen
      ∧ ∀ e ∈ es, ∀ m, e.Points nodes m →
        Examined (s.along nodes (sight nodes fuel) es).seen m := by
  induction es generalizing s with
  | nil => exact ⟨.refl _ _, fun e no => by cases no⟩
  | cons e rest ih =>
    obtain ⟨here, later⟩ := List.cons_subset.1 own
    have still := along_fresh rooted member select own none
    rw [along_cons] at none ⊢
    cases lands : landing nodes e.target with
    | none =>
      rw [lands, through_none] at none
      obtain ⟨finished, examined⟩ := ih later enough none
      rw [through_none]
      refine ⟨finished, List.forall_mem_cons.2 ⟨fun m points => ?_, examined⟩⟩
      rw [(rooted.landing_iff member here).2 points] at lands
      cases lands
    | some m =>
      rw [lands] at none
      -- the search through this edge meets no choice either, so it is complete
      have fresh := along_fresh rooted member select later none
      have through := @through_some (sight nodes fuel) s still m
      have seen : (s.through (sight nodes fuel) (some m)).seen
          = (sight nodes fuel m s.seen).seen := by
        rw [through]
      have points := (rooted.landing_iff member here).1 lands
      obtain ⟨examined, finished⟩ := search m points.mem s.seen enough (by rwa [through] at fresh)
      rw [← seen] at examined finished
      have fewer :
          (unentered nodes (s.through (sight nodes fuel) (some m)).seen).length < fuel := by
        rw [seen]
        exact Nat.lt_of_le_of_lt (unentered_le (sight_seen fuel m s.seen)) enough
      obtain ⟨finished', examined'⟩ := ih later fewer none
      have more := along_seen rooted member select later fuel
        (s.through (sight nodes fuel) (some m))
      -- what it has been at stays so while it goes along the other edges
      refine ⟨finished.trans finished' more,
          List.forall_mem_cons.2 ⟨fun m' points' => ?_, examined'⟩⟩
      have same := (rooted.landing_iff member here).2 points'
      rw [lands] at same
      cases same
      exact examined.mono more

/-- A search that meets no choice has been at its node and at all that this leads to, as far as it
had not been there before. -/
theorem sight_complete (rooted : Rooted nodes) {fuel : Nat} {node : Node} {seen : List Nat}
    (member : node ∈ nodes) (enough : (unentered nodes seen).length < fuel)
    (none : (sight nodes fuel node seen).found = false) :
    Examined (sight nodes fuel node seen).seen node
      ∧ Finished nodes seen (sight nodes fuel node seen).seen := by
  induction fuel generalizing node seen with
  | zero => omega
  | succ fuel ih =>
    -- it meets a choice, or stops here, or goes on from a select
    rw [sight] at none ⊢
    split at none
    · cases none
    next other =>
      rw [if_neg other]
      split at none
      next stops =>
        rw [if_pos stops]
        simp only [Bool.or_eq_true, decide_eq_true_eq, List.contains_eq_mem] at stops
        exact ⟨⟨other, fun select => stops.resolve_left (absurd select)⟩, .refl _ _⟩
      next enters =>
        rw [if_neg enters]
        obtain ⟨select, new⟩ := entered enters
        have fewer := unentered_lt member select new
        have own := List.Subset.refl node.edges
        have more := along_seen rooted member select own fuel
          ⟨1, false, node.index :: seen⟩
        obtain ⟨finished, examined⟩ := along_complete rooted member select
          (fun m inside seen' enough' none' => ih inside enough' none') own
          (s := ⟨1, false, node.index :: seen⟩) (by dsimp only; omega) none
        refine ⟨⟨other, fun _ => more List.mem_cons_self⟩, fun n inside after before m opens => ?_⟩
        by_cases same : n.index = node.index
        · -- the select itself: its edges have just been gone along
          obtain rfl := rooted.eq_of_index inside member same
          obtain ⟨_, e, mine, points⟩ := opens
          exact examined e mine m points
        · exact finished n inside after (by simp [same, before]) m opens

/-- The search finds a choice exactly if there is one. -/
theorem choiceSight_found (rooted : Rooted nodes) {start : Node} (member : start ∈ nodes) :
    (choiceSight nodes start).found = true ↔ HoldsChoice nodes start := by
  constructor
  · exact sight_sound rooted member
  · rintro ⟨c, reached, choice⟩
    by_contra none
    have enough : (unentered nodes []).length < nodes.length + 1 :=
      Nat.lt_succ_of_le (List.length_filter_le _ _)
    obtain ⟨first, finished⟩ := sight_complete rooted member enough (Bool.not_eq_true _ ▸ none)
    -- All that can be reached has been examined, and none of it is a choice.
    have examined : c ∈ nodes ∧ Examined (choiceSight nodes start).seen c := by
      clear choice
      induction reached with
      | refl => exact ⟨member, first⟩
      | tail _ opens ih =>
        obtain ⟨inside, before⟩ := ih
        exact ⟨opens.mem, finished _ inside (before.2 opens.1) (List.not_mem_nil) _ opens⟩
    exact examined.2.1 choice

/-- Whether selects that have not been entered before lead on from a node, one less of them than a
depth. -/
def LeadsOn (nodes : List Node) (seen : List Nat) (node : Node) (depth : Nat) : Prop :=
  ∃ way, Nested nodes (node :: way) ∧ depth ≤ way.length + 2 ∧ ∀ n ∈ node :: way, n.index ∉ seen

section LeadsOn

variable {node m : Node} {seen seen' : List Nat} {depth : Nat}

theorem LeadsOn.alone (select : node.kind = .select) (new : node.index ∉ seen) (flat : depth ≤ 2) :
    LeadsOn nodes seen node depth :=
  ⟨[], ⟨fun n only => List.mem_singleton.1 only ▸ select, by simp, by simp⟩, flat,
    fun n only => List.mem_singleton.1 only ▸ new⟩

/-- A way is longer by a select that it has not entered. -/
theorem LeadsOn.before (leads : LeadsOn nodes seen' m depth) (opens : OpensTo nodes node m)
    (new : node.index ∉ seen) (more : node.index :: seen ⊆ seen') :
    LeadsOn nodes seen node (depth + 1) := by
  obtain ⟨way, nested, deep, fresh⟩ := leads
  have apart : node ∉ m :: way := fun again => fresh node again (more List.mem_cons_self)
  refine ⟨m :: way, ⟨?_, ?_, ?_⟩, Nat.succ_le_succ deep, ?_⟩
  · exact List.forall_mem_cons.2 ⟨opens.1, nested.selects⟩
  · exact List.nodup_cons.2 ⟨apart, nested.apart⟩
  · exact List.isChain_cons_cons.2 ⟨opens, nested.opens⟩
  · exact List.forall_mem_cons.2 ⟨new, fun n inside before =>
      fresh n inside (more (List.mem_cons_of_mem _ before))⟩

end LeadsOn

/-- Where a search is many nodes deep, as many selects less one lead to each other. -/
theorem sight_nested (rooted : Rooted nodes) {fuel : Nat} {node : Node} {seen : List Nat}
    (member : node ∈ nodes) :
    (sight nodes fuel node seen).levels ≤ 1
      ∨ LeadsOn nodes seen node (sight nodes fuel node seen).levels := by
  induction fuel generalizing node seen with
  | zero => exact .inl (Nat.zero_le 1)
  | succ fuel ih =>
    rw [sight]
    split
    · exact .inl (Nat.le_refl 1)
    · split
      · exact .inl (Nat.le_refl 1)
      next enters =>
        obtain ⟨select, new⟩ := entered enters
        have goes (s : Sight) (m : Node)
            (kept : node.index :: seen ⊆ s.seen ∧ LeadsOn nodes seen node s.levels)
            (notYet : s.found = false) (opens : OpensTo nodes node m) :
            node.index :: seen ⊆ (s.through (sight nodes fuel) (some m)).seen
              ∧ LeadsOn nodes seen node (s.through (sight nodes fuel) (some m)).levels := by
          obtain ⟨more, leads⟩ := kept
          rw [through_some notYet]
          refine ⟨List.Subset.trans more (sight_seen fuel m s.seen), ?_⟩
          -- either depth may be the greater one
          obtain fewer | deeper := Nat.le_total ((sight nodes fuel m s.seen).levels + 1) s.levels
          · rwa [Nat.max_eq_left fewer]
          · rw [Nat.max_eq_right deeper]
            obtain flat | further := @ih m s.seen opens.mem
            · exact .alone select new (Nat.succ_le_succ flat)
            · exact further.before opens new more
        exact .inr (along_keeps rooted member select
          (fun s => node.index :: seen ⊆ s.seen ∧ LeadsOn nodes seen node s.levels) goes
          (List.Subset.refl _) ⟨List.Subset.refl _, .alone select new (Nat.le_succ 1)⟩).2

end Opening

/-! ### Results -/

section Results

variable {nodes : List Node}

/-- What is noted of a node of an arena: of a line whether it has choices, of others nothing. -/
structure Marked (nodes : List Node) (n n' : Node) : Prop where
  same : n' = { n with hasChoices := n'.hasChoices }
  other : n.kind ≠ .text → n' = n
  text : n.kind = .text → (n'.hasChoices = true ↔ ∃ root, nextChoice nodes n = .ok (some root))

/-- The search from one line. -/
theorem Rooted.nextChoice_comes (rooted : Rooted nodes) {line : Node} (member : line ∈ nodes) :
    Comes (fun root => ∀ n, root = some n ↔ ComesTo nodes line n ∧ HoldsChoice nodes n)
      (fun f => f = .tooDeep ∧ TooNested nodes line) (nextChoice nodes line) := by
  rw [rooted.nextChoice_eq member]
  cases begins : choiceStart nodes line with
  | none =>
    intro n
    constructor
    · intro none
      cases none
    · rintro ⟨comes, _⟩
      rw [(rooted.choiceStart_iff member).2 comes] at begins
      cases begins
  | some start =>
    have inside := rooted.choiceStart_mem member begins
    have comes := (rooted.choiceStart_iff member).1 begins
    have only : ∀ n, ComesTo nodes line n → n = start := fun n comes' =>
      Option.some.inj (((rooted.choiceStart_iff member).2 comes').symm.trans begins)
    dsimp only
    by_cases shallow : (choiceSight nodes start).levels ≤ searchDepth
    · rw [if_pos shallow]
      intro n
      by_cases found : (choiceSight nodes start).found = true
      · rw [if_pos found]
        constructor
        · rintro ⟨⟩
          exact ⟨comes, (choiceSight_found rooted inside).1 found⟩
        · rintro ⟨comes', _⟩
          rw [only n comes']
      · rw [if_neg found]
        constructor
        · intro none
          cases none
        · rintro ⟨comes', holds⟩
          rw [only n comes'] at holds
          exact absurd ((choiceSight_found rooted inside).2 holds) found
    · -- a search as deep as this has found as many selects in each other
      rw [if_neg shallow]
      refine ⟨rfl, ?_⟩
      have positive : 1 ≤ searchDepth := by decide
      obtain flat | ⟨way, nested, levels, _⟩ :=
        @sight_nested nodes rooted (nodes.length + 1) start [] inside
      · exact absurd (Nat.le_trans flat positive) shallow
      · rw [choiceSight] at shallow
        exact ⟨start, way, comes, nested, by omega⟩

theorem Rooted.markChoices_comes (rooted : Rooted nodes) {n : Node} (member : n ∈ nodes) :
    Comes (Marked nodes n) (fun f => f = .tooDeep ∧ ∃ line ∈ nodes, TooNested nodes line)
      (Graph.markChoices nodes n) := by
  unfold Graph.markChoices
  split
  next text =>
    have search :
        Comes _ (fun f => f = RefFault.tooDeep ∧ ∃ line ∈ nodes, TooNested nodes line) _ :=
      (rooted.nextChoice_comes member).known.excuse fun f fails => ⟨fails.1, n, member, fails.2⟩
    refine search.bind fun root known => ⟨rfl, fun other => absurd text other, fun _ => ?_⟩
    rw [known.1]
    cases root <;> simp
  next other => exact ⟨rfl, fun _ => rfl, fun text => absurd text other⟩

/-- In every arena, and from every line of it, the search finds the step that comes behind the line
if that holds a choice, and nothing if there is no such step. A graph of the arena has its nodes,
with the note which lines have choices. Both fail only where selects are nested too deep. -/
theorem search_is_reachability (rooted : Rooted nodes) :
    (∀ line ∈ nodes,
      Comes (fun root => ∀ n, root = some n ↔ ComesTo nodes line n ∧ HoldsChoice nodes n)
        (fun f => f = .tooDeep ∧ TooNested nodes line) (nextChoice nodes line))
      ∧ ∀ (name : String) (first header : Option Ref) (labels : List (String × Ref)),
        Comes (fun g => List.Forall₂ (Marked nodes) nodes g.nodes)
          (fun f => f = .tooDeep ∧ ∃ line ∈ nodes, TooNested nodes line)
          (Graph.ofNodes name nodes first header labels) := by
  refine ⟨fun line member => rooted.nextChoice_comes member, fun name first header labels => ?_⟩
  have traversal := Comes.mapM fun n member => rooted.markChoices_comes (n := n) member
  unfold Graph.ofNodes
  exact traversal.bind fun marked each => each

end Results

/-! ### Arenas that are searched -/

theorem rooted_of_checks {nodes : List Node} (places : ∀ n ∈ nodes.zipIdx, n.1.index = n.2)
    (targets : ∀ n ∈ nodes, ∀ e ∈ n.edges, ∀ r ∈ e.target, ∃ p < nodes.length, r = .ofNat p) :
    Rooted nodes := by
  constructor
  · intro i n there
    exact places (n, i) (List.mk_mem_zipIdx_iff_getElem?.2 there)
  · intro n member e own r target
    obtain ⟨p, inside, rfl⟩ := targets n member e own r target
    exact ⟨p, nodes[p], rfl, List.getElem?_eq_getElem inside⟩

/-- A line, a step and selects that lead to each other, one of them to a choice; and a line before
an event that comes after itself. -/
def circles : List Node :=
  [{ index := 0, kind := .text, edges := [{ kind := .continue, target := some (.ofNat 1) }] },
    { index := 1, kind := .setVariable, edges := [{ kind := .continue, target := some (.ofNat 2) }] },
    { index := 2, kind := .select, edges := [{ kind := .condition, target := some (.ofNat 3) },
      { kind := .condition }, { kind := .condition, target := some (.ofNat 4) }] },
    { index := 3, kind := .select, edges := [{ kind := .condition, target := some (.ofNat 2) }] },
    { index := 4, kind := .choice, edges := [{ kind := .decision, target := some (.ofNat 1) }] },
    { index := 5, kind := .text, edges := [{ kind := .continue, target := some (.ofNat 6) }] },
    { index := 6, kind := .event, edges := [{ kind := .continue, target := some (.ofNat 6) }] }]

theorem circles_rooted : Rooted circles :=
  rooted_of_checks (by decide) (by decide)

/-- Through the circles the first line has choices and the other has none. -/
theorem search_in_circles :
    Rooted circles
      ∧ (∃ line ∈ circles, ∃ root ∈ circles, line.index = 0 ∧ root.index = 2
        ∧ ComesTo circles line root ∧ HoldsChoice circles root)
      ∧ (∃ line ∈ circles, line.index = 5
        ∧ ∀ n, ¬ (ComesTo circles line n ∧ HoldsChoice circles n))
      ∧ (Graph.ofNodes "" circles none none []).toOption.map (·.nodes.map (·.hasChoices))
        = some [true, false, false, false, false, false, false] := by
  have search := (search_is_reachability circles_rooted).1
  refine ⟨circles_rooted, ⟨circles[0], by simp, circles[2], by simp, rfl, rfl, ?_⟩,
    ⟨circles[5], by simp, rfl, ?_⟩, by decide⟩
  · have first := search circles[0] (by simp)
    have found : nextChoice circles circles[0] = .ok (some circles[2]) := rfl
    rw [found] at first
    exact (first circles[2]).1 rfl
  · have last := search circles[5] (by simp)
    have found : nextChoice circles circles[5] = .ok none := rfl
    rw [found] at last
    intro n both
    cases (last n).2 both

/-! ### A row of selects -/

/-- The way to the next place of a row. -/
def rowEdge (i : Nat) : Edge :=
  { kind := .continue, target := some (.ofNat (i + 1)) }

/-- The node at a place of a row: a line, then selects each of which leads to the next, and a choice
at the end. -/
def rowNode (n i : Nat) : Node :=
  { index := i, kind := if i = 0 then .text else if i ≤ n then .select else .choice,
    edges := if i ≤ n then [rowEdge i] else [] }

/-- A line before so many selects in a row and a choice. -/
def rowOfSelects (n : Nat) : List Node :=
  (List.range (n + 2)).map (rowNode n)

theorem rowOfSelects_getElem? {n i : Nat} (inside : i < n + 2) :
    (rowOfSelects n)[i]? = some (rowNode n i) := by
  rw [rowOfSelects, List.getElem?_map, List.getElem?_range inside]
  rfl

theorem rowOfSelects_rooted (n : Nat) : Rooted (rowOfSelects n) := by
  have inside {i : Nat} {m : Node} (there : (rowOfSelects n)[i]? = some m) :
      i < n + 2 ∧ m = rowNode n i := by
    obtain ⟨bound, _⟩ := List.getElem?_eq_some_iff.1 there
    rw [rowOfSelects, List.length_map, List.length_range] at bound
    exact ⟨bound, Option.some.inj (there.symm.trans (rowOfSelects_getElem? bound))⟩
  constructor
  · intro i m there
    rw [(inside there).2]
    rfl
  · intro m member e own r target
    obtain ⟨i, there⟩ := List.mem_iff_getElem?.1 member
    obtain ⟨_, rfl⟩ := inside there
    by_cases before : i ≤ n
    · simp only [rowNode, if_pos before, List.mem_singleton] at own
      subst own
      exact ⟨i + 1, _, (Option.some.inj target).symm, rowOfSelects_getElem? (by omega)⟩
    · simp only [rowNode, if_neg before] at own
      cases own

theorem rowNode_edges {n i : Nat} (before : i ≤ n) : (rowNode n i).edges = [rowEdge i] :=
  if_pos before

theorem rowNode_select {n i : Nat} (positive : 1 ≤ i) (before : i ≤ n) :
    (rowNode n i).kind = .select := by
  simp only [rowNode]
  rw [if_neg (by omega), if_pos before]

theorem rowEdge_points {n i : Nat} (before : i ≤ n) :
    (rowEdge i).Points (rowOfSelects n) (rowNode n (i + 1)) :=
  ⟨i + 1, rfl, rowOfSelects_getElem? (by omega)⟩

/-- Every select of the row leads to the choice at the end. -/
theorem row_holdsChoice {n i : Nat} (positive : 1 ≤ i) (inside : i ≤ n + 1) :
    HoldsChoice (rowOfSelects n) (rowNode n i) := by
  induction far : n + 1 - i generalizing i with
  | zero =>
    obtain rfl : i = n + 1 := by omega
    exact .of_choice (by simp [rowNode])
  | succ far ih =>
    have before : i ≤ n := by omega
    have opens : OpensTo (rowOfSelects n) (rowNode n i) (rowNode n (i + 1)) :=
      ⟨rowNode_select positive before, rowEdge i, by simp [rowNode_edges before],
        rowEdge_points before⟩
    exact .of_opens opens (ih (by omega) (by omega) (by omega))

theorem row_comesTo {n : Nat} (long : 1 ≤ n) :
    ComesTo (rowOfSelects n) (rowNode n 0) (rowNode n 1) := by
  have edges := rowNode_edges (Nat.zero_le n)
  refine ⟨by rw [edges]; rfl, ⟨_, ⟨rowEdge 0, by rw [edges]; rfl, ?_⟩, .refl⟩, ?_⟩
  · exact rowEdge_points (Nat.zero_le n)
  · simp [Node.Passing, rowNode_select (Nat.le_refl 1) long]

/-- A search along a row of selects gives up if the row is too long. -/
theorem row_tooDeep {n : Nat} (long : searchDepth < n) :
    nextChoice (rowOfSelects n) (rowNode n 0) = .error .tooDeep := by
  have rooted := rowOfSelects_rooted n
  have line : rowNode n 0 ∈ rowOfSelects n :=
    List.mem_of_getElem? (rowOfSelects_getElem? (Nat.zero_lt_succ _))
  rw [rooted.nextChoice_eq line, (rooted.choiceStart_iff line).2 (row_comesTo (by omega))]
  dsimp only
  have deep : n - 1 + 1 ≤ (choiceSight (rowOfSelects n) (rowNode n 1)).levels := by
    apply row_le_levels rooted _ _ 1 (Nat.le_refl 1) (by omega) _
      (rowOfSelects_getElem? (by omega)) (fun i none => absurd none List.not_mem_nil)
    · intro k positive within
      refine ⟨rowNode n k, rowOfSelects_getElem? (by omega), rowNode_select positive within, ?_⟩
      exact fun _ => ⟨rowEdge k, [], rowNode_edges within, rfl⟩
    · rw [rowOfSelects, List.length_map, List.length_range]
      omega
  rw [if_neg (by omega)]

/-- The search does not find every choice that can be reached. -/
theorem reachable_choice_not_found :
    Rooted (rowOfSelects 330) ∧ rowNode 330 0 ∈ rowOfSelects 330 ∧ (rowNode 330 0).kind = .text
      ∧ ComesTo (rowOfSelects 330) (rowNode 330 0) (rowNode 330 1)
      ∧ HoldsChoice (rowOfSelects 330) (rowNode 330 1)
      ∧ nextChoice (rowOfSelects 330) (rowNode 330 0) = .error .tooDeep := by
  have line : rowNode 330 0 ∈ rowOfSelects 330 :=
    List.mem_of_getElem? (rowOfSelects_getElem? (Nat.zero_lt_succ _))
  exact ⟨rowOfSelects_rooted 330, line, rfl, row_comesTo (by omega),
    row_holdsChoice (Nat.le_refl 1) (by omega), row_tooDeep (by decide)⟩

end Colloquy
