import Colloquy.Graph.ChoiceTree
import Colloquy.Proofs.Result
/-!
# The search for choices

The search behind a line gives up where selects are nested too deep. `sight` is the same search
without that bound; beside the answer it counts the nodes that it is deep in at most. The bounded
search has an answer exactly if that count keeps within the bound, and then it is the same answer.
-/

namespace Colloquy

/-- Nodes that know their places, with edges that lead to them. -/
structure Rooted (nodes : List Node) : Prop where
  index : ∀ (i : Nat) (n : Node), nodes[i]? = some n → n.index = i
  target : ∀ n ∈ nodes, ∀ e ∈ n.edges, ∀ r, e.target = some r →
    ∃ (p : Nat) (m : Node), r = .ofNat p ∧ nodes[p]? = some m

theorem follow_ofNat {nodes : List Node} {p : Nat} {m : Node} (there : nodes[p]? = some m) :
    follow nodes (.ofNat p) = .ok m := by
  have notNegative : ¬ (p : Int) < 0 := by omega
  simp [follow, Ref.ofNat, notNegative, there]

/-- The node that an edge with a target leads to, if it leads to one. -/
def landing (nodes : List Node) (target : Option Ref) : Option Node :=
  target.bind fun r => (follow nodes r).toOption

namespace Rooted

variable {nodes : List Node}

/-- Following an edge does not fail. -/
theorem follow_edge (rooted : Rooted nodes) {n : Node} (member : n ∈ nodes) {e : Edge}
    (own : e ∈ n.edges) {r : Ref} (target : e.target = some r) :
    ∃ m ∈ nodes, follow nodes r = .ok m ∧ landing nodes e.target = some m := by
  obtain ⟨p, m, rfl, there⟩ := rooted.target n member e own r target
  refine ⟨m, List.mem_of_getElem? there, follow_ofNat there, ?_⟩
  rw [landing, target, Option.bind_some, follow_ofNat there]
  rfl

theorem landing_mem (rooted : Rooted nodes) {n : Node} (member : n ∈ nodes) {e : Edge}
    (own : e ∈ n.edges) {m : Node} (lands : landing nodes e.target = some m) : m ∈ nodes := by
  obtain ⟨r, target, _⟩ := Option.bind_eq_some_iff.mp lands
  obtain ⟨m', inside, _, lands'⟩ := rooted.follow_edge member own target
  rw [lands] at lands'
  cases lands'
  exact inside

end Rooted

/-! ### The search without a bound -/

/-- What a search comes to: how many nodes deep it gets, whether it meets a choice, and the
positions that it has entered. -/
structure Sight where
  levels : Nat
  found : Bool
  seen : List Nat

/-- A search that goes on at the node that the next edge leads to, unless it has met a choice. -/
def Sight.through (search : Node → List Nat → Sight) (s : Sight) (next : Option Node) : Sight :=
  match s.found, next with
  | false, some n =>
    let t := search n s.seen
    ⟨max s.levels (t.levels + 1), t.found, t.seen⟩
  | _, _ => s

/-- The search for a choice, `fuel` being more than the selects that it can still enter. -/
def sight (nodes : List Node) : Nat → Node → List Nat → Sight
  | 0, _, seen => ⟨0, false, seen⟩
  | fuel + 1, node, seen =>
    if node.kind = .choice then ⟨1, true, seen⟩
    else if node.kind ≠ .select || seen.contains node.index then ⟨1, false, seen⟩
    else
      node.edges.foldl (fun s e => s.through (sight nodes fuel) (landing nodes e.target))
        ⟨1, false, node.index :: seen⟩

/-- The selects that a search has not entered yet. -/
def unentered (nodes : List Node) (seen : List Nat) : List Node :=
  nodes.filter fun n => n.kind = .select && !seen.contains n.index

section Sights

variable {nodes : List Node}

theorem unentered_le {seen seen' : List Nat} (more : seen ⊆ seen') :
    (unentered nodes seen').length ≤ (unentered nodes seen).length := by
  refine List.Sublist.length_le (List.monotone_filter_right nodes fun n keeps => ?_)
  simp only [Bool.and_eq_true, decide_eq_true_eq, Bool.not_eq_true', List.contains_eq_mem,
    decide_eq_false_iff_not] at keeps ⊢
  exact ⟨keeps.1, fun member => keeps.2 (more member)⟩

/-- Entering a select leaves one less to be entered. -/
theorem unentered_lt {node : Node} {seen : List Nat} (member : node ∈ nodes)
    (select : node.kind = .select) (new : node.index ∉ seen) :
    (unentered nodes (node.index :: seen)).length < (unentered nodes seen).length := by
  have fewer := @unentered_le nodes _ _ (List.subset_cons_self node.index seen)
  refine Nat.lt_of_le_of_ne fewer fun same => ?_
  have inside : node ∈ unentered nodes seen := by
    simp [unentered, member, select, new]
  have sub : (unentered nodes (node.index :: seen)).Sublist (unentered nodes seen) :=
    List.monotone_filter_right nodes fun n keeps => by
      simp only [Bool.and_eq_true, decide_eq_true_eq, Bool.not_eq_true', List.contains_eq_mem,
        decide_eq_false_iff_not, List.mem_cons, not_or] at keeps ⊢
      exact ⟨keeps.1, keeps.2.2⟩
  rw [← sub.eq_of_length same] at inside
  simp [unentered] at inside

theorem through_seen {search : Node → List Nat → Sight}
    (grows : ∀ n seen, seen ⊆ (search n seen).seen) (s : Sight) (next : Option Node) :
    s.seen ⊆ (s.through search next).seen := by
  unfold Sight.through
  split
  · exact grows _ _
  · exact List.Subset.refl _

theorem through_levels (search : Node → List Nat → Sight) (s : Sight) (next : Option Node) :
    s.levels ≤ (s.through search next).levels := by
  unfold Sight.through
  split
  · exact Nat.le_max_left _ _
  · exact Nat.le_refl _

theorem sight_seen (fuel : Nat) (node : Node) (seen : List Nat) :
    seen ⊆ (sight nodes fuel node seen).seen := by
  induction fuel generalizing node seen with
  | zero => exact List.Subset.refl _
  | succ fuel ih =>
    unfold sight
    split
    · exact List.Subset.refl _
    · split
      · exact List.Subset.refl _
      · suffices ∀ (es : List Edge) (s : Sight), seen ⊆ s.seen →
            seen ⊆ (es.foldl (fun s e => s.through (sight nodes fuel) (landing nodes e.target)) s).seen from
          this _ _ (List.subset_cons_self _ _)
        intro es
        induction es with
        | nil => exact fun s start => start
        | cons e rest step =>
          exact fun s start => step _
            (List.Subset.trans start (through_seen (fun n seen => ih n seen) s _))

theorem foldl_levels (search : Node → List Nat → Sight) (es : List Edge) (s : Sight) :
    s.levels ≤ (es.foldl (fun s e => s.through search (landing nodes e.target)) s).levels := by
  induction es generalizing s with
  | nil => exact Nat.le_refl _
  | cons e rest ih => exact Nat.le_trans (through_levels search s _) (ih _)

theorem sight_levels_pos (fuel : Nat) (node : Node) (seen : List Nat) :
    1 ≤ (sight nodes (fuel + 1) node seen).levels := by
  unfold sight
  split
  · exact Nat.le_refl 1
  · split
    · exact Nat.le_refl 1
    · exact foldl_levels (sight nodes fuel) node.edges ⟨1, false, node.index :: seen⟩

/-- What the bounded search says, from what the search without a bound comes to. -/
def Sight.within (depth : Nat) (s : Sight) : Except RefFault Sighting :=
  if s.levels ≤ depth then .ok (s.found, s.seen) else .error .tooDeep

/-- The edges of a node, searched one after the other with a bound and without. -/
theorem foldlM_within (rooted : Rooted nodes) {fuel depth : Nat}
    (search : ∀ m ∈ nodes, ∀ seen, (unentered nodes seen).length < fuel →
      sightFrom nodes depth m seen = (sight nodes fuel m seen).within depth)
    {node : Node} (member : node ∈ nodes) (es : List Edge) (own : es ⊆ node.edges) (s : Sight)
    (fits : s.levels ≤ depth + 1) (enough : (unentered nodes s.seen).length < fuel) :
    es.foldlM
        (fun sighting edge =>
          match sighting.1, edge.target with
          | false, some r => do sightFrom nodes depth (← follow nodes r) sighting.2
          | _, _ => .ok sighting)
        (s.found, s.seen)
      = (es.foldl (fun s e => s.through (sight nodes fuel) (landing nodes e.target)) s).within
          (depth + 1) := by
  induction es generalizing s with
  | nil =>
    rw [List.foldlM_nil, List.foldl_nil, Sight.within, if_pos fits]
    rfl
  | cons e rest ih =>
    have later := List.Subset.trans (List.subset_cons_self e rest) own
    rw [List.foldlM_cons, List.foldl_cons]
    cases found : s.found with
    | true =>
      have still : s.through (sight nodes fuel) (landing nodes e.target) = s := by
        simp [Sight.through, found]
      rw [still, ← ih later s fits enough, found]
      rfl
    | false =>
      cases target : e.target with
      | none =>
        have still : s.through (sight nodes fuel) (landing nodes none) = s := by
          simp [Sight.through, landing]
        rw [still, ← ih later s fits enough, found]
        rfl
      | some r =>
        obtain ⟨m, inside, follows, lands⟩ :=
          rooted.follow_edge member (own (List.mem_cons_self ..)) target
        rw [target] at lands
        have next : s.through (sight nodes fuel) (landing nodes (some r))
            = ⟨max s.levels ((sight nodes fuel m s.seen).levels + 1),
                (sight nodes fuel m s.seen).found, (sight nodes fuel m s.seen).seen⟩ := by
          simp [Sight.through, found, lands]
        simp only [follows, bind, Except.bind, search m inside s.seen enough, next]
        by_cases shallow : (sight nodes fuel m s.seen).levels ≤ depth
        · simp only [Sight.within, if_pos shallow]
          refine ih later ⟨max s.levels ((sight nodes fuel m s.seen).levels + 1),
            (sight nodes fuel m s.seen).found, (sight nodes fuel m s.seen).seen⟩ ?_ ?_
          · exact Nat.max_le.mpr ⟨fits, by omega⟩
          · exact Nat.lt_of_le_of_lt (unentered_le (sight_seen fuel m s.seen)) enough
        · -- The search gets no shallower by going on.
          have more := @foldl_levels nodes (sight nodes fuel) rest
            ⟨max s.levels ((sight nodes fuel m s.seen).levels + 1),
              (sight nodes fuel m s.seen).found, (sight nodes fuel m s.seen).seen⟩
          have deeper := Nat.le_max_right s.levels ((sight nodes fuel m s.seen).levels + 1)
          dsimp only at more
          simp only [Sight.within, if_neg shallow]
          rw [if_neg (by omega)]

/-- The bounded search has an answer exactly if it need not go deeper than the bound. -/
theorem sightFrom_eq (rooted : Rooted nodes) {fuel depth : Nat} {node : Node} {seen : List Nat}
    (member : node ∈ nodes) (enough : (unentered nodes seen).length < fuel) :
    sightFrom nodes depth node seen = (sight nodes fuel node seen).within depth := by
  induction fuel generalizing depth node seen with
  | zero => omega
  | succ fuel ih =>
    cases depth with
    | zero =>
      have := @sight_levels_pos nodes fuel node seen
      rw [Sight.within, if_neg (by omega)]
      rfl
    | succ depth =>
      rw [sightFrom, sight]
      split
      · rw [Sight.within, if_pos (Nat.succ_le_succ (Nat.zero_le depth))]
      · split
        · rw [Sight.within, if_pos (Nat.succ_le_succ (Nat.zero_le depth))]
        next entered =>
          simp only [Bool.or_eq_true, decide_eq_true_eq, not_or, Decidable.not_not,
            List.contains_eq_mem] at entered
          have less := unentered_lt member entered.1 entered.2
          exact foldlM_within rooted (fun m inside seen' enough' => ih inside enough') member
            node.edges (List.Subset.refl _) ⟨1, false, node.index :: seen⟩
            (Nat.succ_le_succ (Nat.zero_le depth)) (by dsimp only; omega)

/-- A search is not deeper than there are selects that it can enter, and one node more. -/
theorem sight_levels_le (rooted : Rooted nodes) {fuel : Nat} {node : Node} {seen : List Nat}
    (member : node ∈ nodes) :
    (sight nodes fuel node seen).levels ≤ (unentered nodes seen).length + 1 := by
  induction fuel generalizing node seen with
  | zero => exact Nat.zero_le _
  | succ fuel ih =>
    rw [sight]
    split
    · exact Nat.le_add_left 1 _
    · split
      · exact Nat.le_add_left 1 _
      next entered =>
        simp only [Bool.or_eq_true, decide_eq_true_eq, not_or, Decidable.not_not,
          List.contains_eq_mem] at entered
        have less := unentered_lt member entered.1 entered.2
        -- edge by edge: what has been seen grows, so fewer selects are left to enter
        suffices ∀ (es : List Edge), es ⊆ node.edges → ∀ (s : Sight),
            s.levels ≤ (unentered nodes seen).length + 1 → node.index :: seen ⊆ s.seen →
            (es.foldl (fun s e => s.through (sight nodes fuel) (landing nodes e.target)) s).levels
              ≤ (unentered nodes seen).length + 1 from
          this _ (List.Subset.refl _) _ (Nat.le_add_left 1 _) (List.Subset.refl _)
        intro es own
        induction es with
        | nil => exact fun s fits _ => fits
        | cons e rest step =>
          intro s fits start
          refine step (List.Subset.trans (List.subset_cons_self e rest) own) _ ?_
            (List.Subset.trans start (through_seen (fun n seen => sight_seen fuel n seen) s _))
          dsimp only
          cases found : s.found with
          | true => simpa only [Sight.through, found] using fits
          | false =>
            cases lands : landing nodes e.target with
            | none => simpa only [Sight.through, found] using fits
            | some m =>
              have inside := rooted.landing_mem member (own (List.mem_cons_self ..)) lands
              have fewer := @unentered_le nodes _ _ start
              have deep := @ih m s.seen inside
              simp only [Sight.through, found]
              exact Nat.max_le.mpr ⟨fits, by omega⟩

end Sights

/-- A search from the first of a row of selects goes as deep as the row is long. -/
theorem row_le_levels {nodes : List Node} {last : Nat} (rooted : Rooted nodes)
    (row : ∀ k, 1 ≤ k → k ≤ last → ∃ n, nodes[k]? = some n ∧ n.kind = .select
      ∧ (k < last → ∃ e rest, n.edges = e :: rest ∧ e.target = some (.ofNat (k + 1))))
    (fuel k : Nat) (positive : 1 ≤ k) (within : k ≤ last) (enough : last - k < fuel)
    {n : Node} (there : nodes[k]? = some n) {seen : List Nat} (before : ∀ i ∈ seen, i < k) :
    last - k + 1 ≤ (sight nodes fuel n seen).levels := by
  induction fuel generalizing k n seen with
  | zero => omega
  | succ fuel ih =>
    obtain ⟨n', same, select, next⟩ := row k positive within
    rw [there] at same
    cases same
    have place := rooted.index k n there
    have new : k ∉ seen := fun member => Nat.lt_irrefl k (before k member)
    -- the first edge of a select leads to the next one in the row
    by_cases more : k < last
    · obtain ⟨e, rest, edges, target⟩ := next more
      obtain ⟨m, there', _⟩ := row (k + 1) (by omega) more
      have lands : landing nodes e.target = some m := by
        rw [target, landing, Option.bind_some, follow_ofNat there']
        rfl
      have before' : ∀ i ∈ k :: seen, i < k + 1 := by
        intro i member
        rcases List.mem_cons.mp member with rfl | earlier
        · exact Nat.lt_succ_self i
        · exact Nat.lt_succ_of_lt (before i earlier)
      have later := ih (k + 1) (by omega) more (by omega) there' before'
      have whole := @foldl_levels nodes (sight nodes fuel) rest
        (Sight.through (sight nodes fuel) ⟨1, false, k :: seen⟩ (some m))
      rw [sight]
      simp only [select, place, List.contains_eq_mem, new, edges, List.foldl_cons, lands,
        reduceCtorEq, if_false, ne_eq, not_true_eq_false, decide_false, Bool.or_self,
        Bool.false_eq_true]
      simp only [Sight.through] at whole ⊢
      omega
    · have := @sight_levels_pos nodes fuel n seen
      omega

/-! ### The root of the choices -/

/-- The node after a step. -/
def ahead (nodes : List Node) (node : Node) : Option Node :=
  node.edges.head?.bind fun e => landing nodes e.target

/-- The first step from a node on that neither sets a variable nor raises an event. -/
def skipped (nodes : List Node) : Nat → Option Node → List Nat → Option Node
  | 0, _, _ => none
  | _ + 1, none, _ => none
  | fuel + 1, some node, seen =>
    if node.kind = .setVariable || node.kind = .event then
      if seen.contains node.index then none
      else skipped nodes fuel (ahead nodes node) (node.index :: seen)
    else some node

/-- The step at which the choices of a line are searched. -/
def choiceStart (nodes : List Node) (line : Node) : Option Node :=
  if line.edges.length ≠ 1 then none
  else skipped nodes (nodes.length + 2) (ahead nodes line) []

/-- What the search for the choices of a line comes to. -/
def choiceSight (nodes : List Node) (start : Node) : Sight :=
  sight nodes (nodes.length + 1) start []

section Roots

variable {nodes : List Node}

theorem Rooted.successor_eq (rooted : Rooted nodes) {n : Node} (member : n ∈ nodes) :
    successor nodes n = .ok (ahead nodes n) ∧ ∀ m, ahead nodes n = some m → m ∈ nodes := by
  unfold successor ahead
  cases edges : n.edges with
  | nil => exact ⟨rfl, fun _ none => by cases none⟩
  | cons e rest =>
    have own : e ∈ n.edges := edges ▸ List.mem_cons_self ..
    simp only [List.head?_cons, Option.bind_some]
    refine ⟨?_, fun m lands => rooted.landing_mem member own lands⟩
    cases target : e.target with
    | none => rfl
    | some r =>
      obtain ⟨m, _, follows, lands⟩ := rooted.follow_edge member own target
      rw [target] at lands
      simp only [follows, lands]
      rfl

theorem Rooted.skipSteps_eq (rooted : Rooted nodes) (fuel : Nat) (start : Option Node)
    (inside : ∀ n, start = some n → n ∈ nodes) (seen : List Nat) :
    skipSteps nodes fuel start seen = .ok (skipped nodes fuel start seen)
      ∧ ∀ n, skipped nodes fuel start seen = some n → n ∈ nodes := by
  induction fuel generalizing start seen with
  | zero => exact ⟨rfl, fun _ none => by cases none⟩
  | succ fuel ih =>
    cases start with
    | none => exact ⟨rfl, fun _ none => by cases none⟩
    | some node =>
      obtain ⟨next, later⟩ := rooted.successor_eq (inside node rfl)
      rw [skipSteps, skipped]
      split
      · split
        · exact ⟨rfl, fun _ none => by cases none⟩
        · rw [next]
          exact ih _ later _
      · exact ⟨rfl, fun n same => inside n same⟩

theorem Rooted.choiceStart_mem (rooted : Rooted nodes) {line start : Node} (member : line ∈ nodes)
    (begins : choiceStart nodes line = some start) : start ∈ nodes := by
  unfold choiceStart at begins
  split at begins
  · cases begins
  · exact (rooted.skipSteps_eq _ _ (rooted.successor_eq member).2 _).2 start begins

/-- The root of the choices of a line, if the search for it need not go too deep. -/
theorem Rooted.nextChoice_eq (rooted : Rooted nodes) {line : Node} (member : line ∈ nodes) :
    nextChoice nodes line =
      match choiceStart nodes line with
      | none => .ok none
      | some start =>
        if (choiceSight nodes start).levels ≤ searchDepth then
          .ok (if (choiceSight nodes start).found then some start else none)
        else .error .tooDeep := by
  obtain ⟨next, later⟩ := rooted.successor_eq member
  unfold nextChoice choiceStart
  split
  · rfl
  · obtain ⟨skips, inside⟩ := rooted.skipSteps_eq (nodes.length + 2) (ahead nodes line) later []
    rw [next]
    simp only [bind, Except.bind, skips]
    cases root : skipped nodes (nodes.length + 2) (ahead nodes line) [] with
    | none => rfl
    | some start =>
      have enough : (unentered nodes []).length < nodes.length + 1 :=
        Nat.lt_succ_of_le (List.length_filter_le _ _)
      have search := @sightFrom_eq nodes rooted _ searchDepth _ _ (inside start root) enough
      change _ = (choiceSight nodes start).within searchDepth at search
      by_cases shallow : (choiceSight nodes start).levels ≤ searchDepth
      · simp only [leadsToChoice, search, Sight.within, if_pos shallow]
        rfl
      · simp only [leadsToChoice, search, Sight.within, if_neg shallow]
        rfl

/-- Choices begin at a choice or a select. -/
theorem Rooted.nextChoice_root (rooted : Rooted nodes) {line root : Node} (member : line ∈ nodes)
    (found : nextChoice nodes line = .ok (some root)) :
    root ∈ nodes ∧ (root.kind = .choice ∨ root.kind = .select) := by
  rw [rooted.nextChoice_eq member] at found
  cases begins : choiceStart nodes line with
  | none =>
    rw [begins] at found
    cases found
  | some start =>
    rw [begins] at found
    dsimp only at found
    split at found
    · split at found
      next sighted =>
        cases found
        refine ⟨rooted.choiceStart_mem member begins, ?_⟩
        -- the search ends at once at a node of another kind
        by_contra other
        rw [not_or] at other
        rw [choiceSight, sight, if_neg other.1, if_pos (by simp [other.2])] at sighted
        cases sighted
      · cases found
    · cases found

/-- The selects behind every line are not nested deeper than a search may go. -/
def Searchable (nodes : List Node) : Prop :=
  ∀ line ∈ nodes, line.kind = .text → ∀ start, choiceStart nodes line = some start →
    (choiceSight nodes start).levels ≤ searchDepth

/-- An arena whose selects are few can be searched. -/
theorem searchable_of_few (rooted : Rooted nodes)
    (few : nodes.countP (·.kind = .select) < searchDepth) : Searchable nodes := by
  intro line member _ start begins
  have deep := @sight_levels_le nodes rooted (nodes.length + 1) start []
    (rooted.choiceStart_mem member begins)
  have selects : (unentered nodes []).length = nodes.countP (·.kind = .select) := by
    simp [unentered, List.countP_eq_length_filter]
  rw [selects] at deep
  exact Nat.le_trans deep few

/-- What can be noted of a node. -/
theorem markChoices_eq (rooted : Rooted nodes) {n : Node} (member : n ∈ nodes) :
    (∀ f, Graph.markChoices nodes n = .error f → f = .tooDeep)
      ∧ ((∃ n', Graph.markChoices nodes n = .ok n') ↔ (n.kind = .text →
        ∀ start, choiceStart nodes n = some start →
          (choiceSight nodes start).levels ≤ searchDepth)) := by
  unfold Graph.markChoices
  split
  next text =>
    rw [rooted.nextChoice_eq member]
    cases begins : choiceStart nodes n with
    | none => exact ⟨fun _ failed => (by cases failed), fun _ _ _ none => (by cases none),
        fun _ => ⟨_, rfl⟩⟩
    | some start =>
      dsimp only
      split
      next shallow =>
        refine ⟨fun _ failed => (by cases failed), fun _ _ start' same => ?_, fun _ => ⟨_, rfl⟩⟩
        cases same
        exact shallow
      next deep =>
        refine ⟨fun f failed => (Except.error.inj failed).symm, ?_, fun fits => ?_⟩
        · rintro ⟨n', made⟩
          cases made
        · exact absurd (fits text start rfl) deep
  next other =>
    exact ⟨fun _ failed => (by cases failed), fun _ text => absurd text other, fun _ => ⟨_, rfl⟩⟩

/-- It can be noted which lines have choices exactly if the arena can be searched. -/
theorem mapM_markChoices (rooted : Rooted nodes) :
    ((∃ marked, nodes.mapM (Graph.markChoices nodes) = .ok marked) ↔ Searchable nodes)
      ∧ (¬ Searchable nodes → nodes.mapM (Graph.markChoices nodes) = .error .tooDeep) := by
  have only : (∃ marked, nodes.mapM (Graph.markChoices nodes) = .ok marked)
      ∨ nodes.mapM (Graph.markChoices nodes) = .error .tooDeep :=
    mapM_ok_or_error fun n member => (markChoices_eq rooted member).1
  have works : (∃ marked, nodes.mapM (Graph.markChoices nodes) = .ok marked)
      ↔ Searchable nodes := by
    constructor
    · rintro ⟨marked, each⟩ line member
      obtain ⟨i, there⟩ := List.mem_iff_getElem?.mp member
      obtain ⟨n', _, made⟩ := forall₂_left (mapM_eq_ok.mp each) there
      exact (markChoices_eq rooted member).2.mp ⟨n', made⟩
    · intro fits
      exact mapM_ok fun n member => (markChoices_eq rooted member).2.mpr (fits n member)
  exact ⟨works, fun deep => only.resolve_left fun marked => deep (works.mp marked)⟩

end Roots

/-! ### Arenas without choices -/

section Choiceless

variable {nodes : List Node} (choiceless : ∀ n ∈ nodes, n.kind ≠ .choice)

include choiceless

theorem follow_choiceless {r : Ref} {n : Node} (found : follow nodes r = .ok n) :
    n.kind ≠ .choice := by
  cases r with
  | «at» i =>
    simp only [follow] at found
    generalize (if i < 0 then i + (nodes.length : Int) else i) = position at found
    split at found
    · cases found
    · split at found
      next there =>
        cases found
        exact choiceless _ (List.mem_of_getElem? there)
      · cases found
  | decimal x => cases found

theorem successor_choiceless {line n : Node} (found : successor nodes line = .ok (some n)) :
    n.kind ≠ .choice := by
  unfold successor at found
  split at found
  · cases found
  · split at found
    · cases found
    · obtain ⟨m, followed, same⟩ := map_eq_ok.mp found
      cases same
      exact follow_choiceless choiceless followed

theorem sightFrom_choiceless {depth : Nat} {node : Node} {seen : List Nat} {found : Sighting}
    (other : node.kind ≠ .choice) (searched : sightFrom nodes depth node seen = .ok found) :
    found.1 = false := by
  induction depth generalizing node seen found with
  | zero => cases searched
  | succ depth ih =>
    rw [sightFrom, if_neg other] at searched
    split at searched
    · cases searched
      rfl
    · -- No edge leads to a choice, so nothing is found along any of them.
      generalize node.edges = edges at searched
      generalize start : (false, node.index :: seen) = sighting at searched
      have none : sighting.1 = false := by rw [← start]
      clear start
      induction edges generalizing sighting with
      | nil =>
        cases searched
        exact none
      | cons e rest again =>
        obtain ⟨between, first, later⟩ := bind_eq_ok.mp searched
        refine again between later ?_
        dsimp only at first
        split at first
        next r _ target =>
          obtain ⟨m, followed, onward⟩ := bind_eq_ok.mp first
          exact ih (follow_choiceless choiceless followed) onward
        · cases first
          exact none

theorem skipSteps_choiceless {fuel : Nat} {start : Option Node} {seen : List Nat} {n : Node}
    (other : ∀ m, start = some m → m.kind ≠ .choice)
    (skipped : skipSteps nodes fuel start seen = .ok (some n)) : n.kind ≠ .choice := by
  induction fuel generalizing start seen with
  | zero => cases skipped
  | succ fuel ih =>
    cases start with
    | none => cases skipped
    | some m =>
      rw [skipSteps] at skipped
      split at skipped
      · split at skipped
        · cases skipped
        · obtain ⟨next, found, later⟩ := bind_eq_ok.mp skipped
          refine ih (fun m' same => ?_) later
          rw [same] at found
          exact successor_choiceless choiceless found
      · cases skipped
        exact other _ rfl

/-- Where there is no choice no line has any. -/
theorem nextChoice_choiceless {line : Node} {found : Option Node}
    (searched : nextChoice nodes line = .ok found) : found = none := by
  unfold nextChoice at searched
  split at searched
  · cases searched
    rfl
  · obtain ⟨next, ahead, later⟩ := bind_eq_ok.mp searched
    obtain ⟨start, skipped, last⟩ := bind_eq_ok.mp later
    cases start with
    | none =>
      cases last
      rfl
    | some n =>
      obtain ⟨leads, sighted, decided⟩ := bind_eq_ok.mp last
      obtain ⟨sighting, seen, same⟩ := map_eq_ok.mp sighted
      have other := skipSteps_choiceless choiceless (fun m is => by
        rw [is] at ahead
        exact successor_choiceless choiceless ahead) skipped
      have no := sightFrom_choiceless choiceless other seen
      rw [same] at no
      subst no
      cases decided
      rfl

end Choiceless

end Colloquy
