import Colloquy.Proofs.Graph.Alike
import Colloquy.Proofs.Script.Numerals
import Colloquy.Proofs.Script.WellFormed
/-!
# When a script compiles

Compiling has two ways to fail. A numeral may be beyond the digit limit, and the search for the
choices of a line may have to go too deep. A script that is free of the first fails exactly for the
second, and whatever graph it compiles to is well formed.
-/

namespace Colloquy.Script

section Arena

variable {s : Settings} {text : String} {b : Builder}

/-- The nodes before they have ids know their places, and their edges lead to nodes. -/
theorem plainNodes_rooted (linked : Linked s text b) : Rooted (plainNodes s b) := by
  have total := plainNodes_length s b
  have lands {p : Nat} (bound : p < (plainNodes s b).length) :
      ∃ (q : Nat) (m : Node), Ref.ofNat p = .ofNat q ∧ (plainNodes s b)[q]? = some m :=
    ⟨p, _, rfl, List.getElem?_eq_getElem bound⟩
  -- the nodes of the body come first, and those of the header after them
  refine ⟨fun i n there => ?_, fun n member e own r target => ?_⟩
  · by_cases inside : i < (bodyOf b).length
    · rw [plainNodes_body inside] at there
      obtain ⟨d, _, rfl⟩ := Option.map_eq_some_iff.mp there
      exact buildNode_index _ _ _ _
    · obtain ⟨k, rfl⟩ := Nat.exists_eq_add_of_le (Nat.le_of_not_lt inside)
      rw [plainNodes_header] at there
      obtain ⟨d, _, rfl⟩ := Option.map_eq_some_iff.mp there
      exact buildNode_index _ _ _ _
  · obtain ⟨i, there⟩ := List.mem_iff_getElem?.mp member
    by_cases inside : i < (bodyOf b).length
    · rw [plainNodes_body inside] at there
      obtain ⟨d, isKept, rfl⟩ := Option.map_eq_some_iff.mp there
      rw [bodyNode, buildNode_edges] at own
      obtain ⟨e₀, member₀, rfl⟩ := List.mem_map.mp own
      obtain ⟨p, place, rfl⟩ := Option.map_eq_some_iff.mp target
      have settled := (List.mem_filter.mp (List.mem_of_getElem? isKept)).1
      have sound := settleAll_sheet linked.healthy.sound.sheet d settled
      have bound := newTarget_lt linked
        (fun j leadsTo => (@settleAll_length b.nodes) ▸ sound.targets e₀ member₀ j leadsTo) place
      exact lands (by omega)
    · obtain ⟨k, rfl⟩ := Nat.exists_eq_add_of_le (Nat.le_of_not_lt inside)
      rw [plainNodes_header] at there
      obtain ⟨d, _, rfl⟩ := Option.map_eq_some_iff.mp there
      rw [headerNode, buildNode_edges] at own
      split at own
      · rw [List.mem_singleton.mp own] at target
        cases target
        exact lands (by omega)
      · cases own

theorem alike_of_named {n n' : Node} (named : TextId.Named n n') : n.Alike n' := by
  refine ⟨by rw [named.same], by rw [named.same], ?_⟩
  have edges := named.edges
  generalize n.edges = es, n'.edges = es' at edges
  induction edges with
  | nil => rfl
  | cons first _ ih => rw [List.map_cons, List.map_cons, ih, first.same]

end Arena

/-- Whether a draft has a fault that keeps it from giving a graph. -/
def refuses (s : Settings) (b : Builder) : Bool :=
  (b.diagnostics ++ (resolveGotos s.endLabel (settleAll b.nodes) b.labels).diagnostics).any
    (·.fatal)

section Compile

variable {s : Settings} {name text : String} {b : Builder}

theorem linked_of_not_refuses (read : Builder.readScript s (Text.lines text.toList) = .ok b)
    (clear : refuses s b = false) : Linked s text b := by
  refine ⟨read, List.eq_nil_iff_forall_not_mem.mpr fun d member => ?_⟩
  have fatal : refuses s b = true :=
    List.any_eq_true.mpr ⟨d, List.mem_append_right _ member, resolveGotos_fatal d member⟩
  rw [clear] at fatal
  cases fatal

theorem compile_of_refuses (read : Builder.readScript s (Text.lines text.toList) = .ok b)
    (fatal : refuses s b = true) : ∃ c, compile s name text = .ok c := by
  rw [compile, compileWith, read]
  exact ⟨_, if_pos fatal⟩

/-- A graph comes of an arena exactly if it can be searched. -/
theorem ofNodes_returns {nodes : List Node} (rooted : Rooted nodes) (first header : Option Ref)
    (labels : List (String × Ref)) :
    ((∃ g, Graph.ofNodes name nodes first header labels = .ok g) ↔ Searchable nodes)
      ∧ ∀ f, Graph.ofNodes name nodes first header labels = .error f → f = .tooDeep := by
  obtain ⟨returns, fails⟩ := mapM_markChoices rooted
  unfold Graph.ofNodes
  cases marked : nodes.mapM (Graph.markChoices nodes) with
  | ok marked' =>
    refine ⟨⟨fun _ => returns.mp ⟨marked', marked⟩, fun _ => ⟨_, rfl⟩⟩, fun f failed => ?_⟩
    cases failed
  | error f' =>
    have deep : ¬ Searchable nodes := by
      intro fits
      obtain ⟨other, made⟩ := returns.mpr fits
      rw [marked] at made
      cases made
    refine ⟨⟨?_, fun fits => absurd fits deep⟩, fun f failed => ?_⟩
    · rintro ⟨g, made⟩
      cases made
    · have same := marked.symm.trans (fails deep)
      cases same
      exact (Except.error.inj failed).symm

/-- A graph is built if one comes of the nodes with their ids, and else building fails like that. -/
theorem buildGraph_cases (s : Settings) (name : String) (b : Builder) :
    ∃ used first header labels,
      let made := Graph.ofNodes name
        (TextId.assignNodes TextId.digest s.textIdLength (plainNodes s b) used) first header labels
      let built := buildGraph TextId.digest s name { b with nodes := settleAll b.nodes }
        (gotosOf s b)
      (∃ g r, made = .ok g ∧ built = .ok r) ∨ ∃ f, made = .error f ∧ built = .error (.lost f) := by
  cases built : buildGraph TextId.digest s name { b with nodes := settleAll b.nodes }
      (gotosOf s b) with
  | ok r =>
    unfold buildGraph at built
    dsimp only at built
    split at built
    next g made =>
      rw [bodyNodes_length] at made
      exact ⟨_, _, _, _, Or.inl ⟨g, r, made, rfl⟩⟩
    · cases built
  | error f =>
    unfold buildGraph at built
    dsimp only at built
    split at built
    · cases built
    next f' failed =>
      cases built
      rw [bodyNodes_length] at failed
      exact ⟨_, _, _, _, Or.inr ⟨f', failed, rfl⟩⟩

/-- A draft without fatal faults becomes a graph exactly if its nodes can be searched. -/
theorem compile_of_linked (read : Builder.readScript s (Text.lines text.toList) = .ok b)
    (clear : refuses s b = false) :
    ((∃ c, compile s name text = .ok c) ↔ Searchable (plainNodes s b))
      ∧ ∀ f, compile s name text = .error f → f = .lost .tooDeep := by
  have linked := linked_of_not_refuses read clear
  have positive : 0 < s.textIdLength := Nat.lt_of_lt_of_le (by decide) s.id_range.1
  obtain ⟨used, first, header, labels, outcome⟩ := buildGraph_cases s name b
  have alike : List.Forall₂ Node.Alike (plainNodes s b)
      (TextId.assignNodes TextId.digest s.textIdLength (plainNodes s b) used) :=
    (TextId.assignNodes_named TextId.digest_ne_empty positive _ used).imp fun _ _ => alike_of_named
  obtain ⟨returns, only⟩ := @ofNodes_returns name _ ((plainNodes_rooted linked).ofAlike alike)
    first header labels
  have notFatal : ¬ refuses s b = true := by
    rw [clear]
    exact Bool.noConfusion
  -- What is left of compiling is to build the graph.
  have whole : compile s name text = (do
      let made ← buildGraph TextId.digest s name
        { b with nodes := settleAll b.nodes } (gotosOf s b)
      return ⟨some made.1, b.diagnostics
        ++ (resolveGotos s.endLabel (settleAll b.nodes) b.labels).diagnostics ++ made.2⟩) := by
    rw [compile, compileWith, read]
    exact if_neg notFatal
  rw [whole]
  rcases outcome with ⟨g, r, made, built⟩ | ⟨f, failed, built⟩
  · rw [built]
    refine ⟨⟨fun _ => ?_, fun _ => ⟨_, rfl⟩⟩, fun f failed => by cases failed⟩
    exact searchable_alike (alike_symm alike) (returns.mp ⟨g, made⟩)
  · rw [built, only f failed]
    refine ⟨⟨?_, fun fits => ?_⟩, fun f' same => (Except.error.inj same).symm⟩
    · rintro ⟨c, compiled⟩
      cases compiled
    · obtain ⟨g, made⟩ := returns.mpr (searchable_alike alike fits)
      cases failed.symm.trans made

/-- A script with numerals that fit is read. It compiles exactly if it is refused or no search for
the choices of a line has to go too deep, it fails in no other way, and the graph that it compiles
to, if any, is well formed. -/
theorem compile_wellFormed (s : Settings) (name text : String)
    (fits : NumeralsFit s (Text.lines text.toList)) :
    ∃ b, Builder.readScript s (Text.lines text.toList) = .ok b
      ∧ ((∃ c, compile s name text = .ok c) ↔
          (refuses s b = true ∨ Searchable (plainNodes s b)))
      ∧ (∀ f, compile s name text = .error f → f = .lost .tooDeep)
      ∧ ∀ c g, compile s name text = .ok c → c.graph = some g → g.WellFormed := by
  obtain ⟨b, read⟩ := Builder.readScript_ok fits
  have formed (c g) (compiled : compile s name text = .ok c) (graph : c.graph = some g) :
      g.WellFormed := by
    obtain ⟨b', linked, _, comes⟩ := compile_graph compiled graph
    exact comes.wellFormed linked
  cases fatal : refuses s b with
  | true =>
    obtain ⟨c, compiled⟩ := @compile_of_refuses s name text b read fatal
    refine ⟨b, read, ⟨fun _ => Or.inl fatal, fun _ => ⟨c, compiled⟩⟩, fun f failed => ?_, formed⟩
    cases compiled.symm.trans failed
  | false =>
    obtain ⟨returns, only⟩ := @compile_of_linked s name text b read fatal
    refine ⟨b, read, ⟨fun done => Or.inr (returns.mp done), fun either => ?_⟩, only, formed⟩
    rcases either with refused | searchable
    · rw [fatal] at refused
      cases refused
    · exact returns.mpr searchable

/-- A script that sets a variable in its header and offers options before a block and in it, one of
which leads back to a label. -/
def journey : String :=
  "===\n[set n 12]\n===\n:top\nA: hi\n* one\n    [set n {n} + 1]\n* two\n    B: bye\n"
    ++ "[if {n} > 20]\n    * three\n        [goto top]\n[endif]\nA: end\n"

/-- Its numerals fit, it compiles, and its graph is well formed, with a header and a label. -/
theorem compile_wellFormed_journey :
    NumeralsFit .standard (Text.lines journey.toList)
      ∧ ∃ c g, compile .standard "script" journey = .ok c ∧ c.graph = some g
        ∧ g.bodyLength < g.nodes.length ∧ g.labels ≠ [] ∧ g.WellFormed := by
  have fits : NumeralsFit .standard (Text.lines journey.toList) := by decide +kernel
  obtain ⟨b, _, _, _, formed⟩ := compile_wellFormed .standard "script" journey fits
  have gives : ((compile .standard "script" journey).toOption.any fun c => c.graph.any fun g =>
      g.bodyLength < g.nodes.length && g.labels ≠ []) = true := by
    decide +kernel
  obtain ⟨c, compiled, gives⟩ := exists_ok_of_any gives
  obtain ⟨g, graph, gives⟩ := (Option.any_eq_true _ _).1 gives
  obtain ⟨headed, labelled⟩ := Bool.and_eq_true_iff.1 gives
  exact ⟨fits, c, g, compiled, graph, of_decide_eq_true headed, of_decide_eq_true labelled,
    formed c g compiled graph⟩

/-- A script with few enough selects compiles. -/
theorem compile_of_few_selects (fits : NumeralsFit s (Text.lines text.toList))
    (few : ∀ b, Builder.readScript s (Text.lines text.toList) = .ok b →
      (plainNodes s b).countP (·.kind = .select) < searchDepth) :
    ∃ c, compile s name text = .ok c := by
  obtain ⟨b, read⟩ := Builder.readScript_ok fits
  cases fatal : refuses s b with
  | true => exact compile_of_refuses read fatal
  | false =>
    have rooted := plainNodes_rooted (linked_of_not_refuses read fatal)
    exact (compile_of_linked read fatal).1.mpr (searchable_of_few rooted (few b read))

end Compile

end Colloquy.Script
