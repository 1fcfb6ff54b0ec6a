import Mathlib.Data.List.Forall2
/-!
# Results

When a computation that may fail succeeds, so do its steps.
-/

namespace Colloquy

theorem bind_eq_ok {ε α β : Type} {x : Except ε α} {f : α → Except ε β} {y : β} :
    (x >>= f) = .ok y ↔ ∃ a, x = .ok a ∧ f a = .ok y := by
  cases x with
  | error e => simp [bind, Except.bind]
  | ok a => simp [bind, Except.bind]

theorem toOption_eq_some {ε α : Type} {x : Except ε α} {a : α} :
    x.toOption = some a ↔ x = .ok a := by
  cases x with
  | error e => simp [Except.toOption]
  | ok b => simp [Except.toOption]

/-- A computation whose result is known to pass a test succeeds. -/
theorem exists_ok_of_any {ε α : Type} {x : Except ε α} {test : α → Bool}
    (passes : x.toOption.any test = true) : ∃ a, x = .ok a ∧ test a = true := by
  cases x with
  | error e => cases passes
  | ok a => exact ⟨a, rfl, passes⟩

theorem map_eq_ok {ε α β : Type} {x : Except ε α} {f : α → β} {y : β} :
    x.map f = .ok y ↔ ∃ a, x = .ok a ∧ f a = y := by
  cases x with
  | error e => simp [Except.map]
  | ok a => simp [Except.map]

/-- A traversal succeeds when each step does. -/
theorem mapM_eq_ok {ε α β : Type} {f : α → Except ε β} {xs : List α} {ys : List β} :
    xs.mapM f = .ok ys ↔ List.Forall₂ (fun x y => f x = .ok y) xs ys := by
  induction xs generalizing ys with
  | nil => cases ys <;> simp [pure, Except.pure]
  | cons x rest ih =>
    rw [List.mapM_cons, bind_eq_ok]
    constructor
    · rintro ⟨y, first, later⟩
      obtain ⟨more, others, whole⟩ := bind_eq_ok.mp later
      cases whole
      exact .cons first (ih.mp others)
    · rintro (_ | ⟨first, others⟩)
      exact ⟨_, first, bind_eq_ok.mpr ⟨_, ih.mpr others, rfl⟩⟩

theorem mapM_ok {ε α β : Type} {f : α → Except ε β} {xs : List α}
    (each : ∀ x ∈ xs, ∃ y, f x = .ok y) : ∃ ys, xs.mapM f = .ok ys := by
  induction xs with
  | nil => exact ⟨[], rfl⟩
  | cons x rest ih =>
    obtain ⟨y, first⟩ := each x (List.mem_cons_self ..)
    obtain ⟨ys, others⟩ := ih fun x member => each x (List.mem_cons_of_mem _ member)
    rw [List.mapM_cons, first, others]
    exact ⟨y :: ys, rfl⟩

/-- A traversal whose steps can only fail in one way succeeds or fails in that way. -/
theorem mapM_ok_or_error {ε α β : Type} {f : α → Except ε β} {fault : ε} {xs : List α}
    (only : ∀ x ∈ xs, ∀ e, f x = .error e → e = fault) :
    (∃ ys, xs.mapM f = .ok ys) ∨ xs.mapM f = .error fault := by
  induction xs with
  | nil => exact Or.inl ⟨[], rfl⟩
  | cons x rest ih =>
    rw [List.mapM_cons]
    cases first : f x with
    | error e =>
      rw [only x (List.mem_cons_self ..) e first]
      exact Or.inr rfl
    | ok y =>
      rcases ih fun x member => only x (List.mem_cons_of_mem _ member) with ⟨ys, others⟩ | failed
      · rw [others]
        exact Or.inl ⟨y :: ys, rfl⟩
      · rw [failed]
        exact Or.inr rfl

/-- A traversal that fails when an item does not pass a test. -/
theorem mapM_test {α β γ : Type} {f : α → β} {g : β → Option γ} {h : α → γ} {test : α → Bool}
    {xs : List α} (each : ∀ x ∈ xs, g (f x) = if test x then some (h x) else none) :
    (xs.map f).mapM g = if xs.all test then some (xs.map h) else none := by
  induction xs with
  | nil => rfl
  | cons x rest ih =>
    rw [List.map_cons, List.mapM_cons, each x (List.mem_cons_self ..),
      ih fun y member => each y (List.mem_cons_of_mem _ member), List.all_cons]
    cases test x
    · rfl
    · cases rest.all test <;> rfl

theorem mapM_some {α β γ : Type} {f : α → β} {g : β → Option γ} {h : α → γ} {xs : List α}
    (each : ∀ x ∈ xs, g (f x) = some (h x)) : (xs.map f).mapM g = some (xs.map h) := by
  have passes : xs.all (fun _ => true) = true := List.all_eq_true.mpr fun _ _ => rfl
  have tested : ∀ x ∈ xs, g (f x) = if (fun _ => true) x then some (h x) else none := each
  rw [mapM_test tested, if_pos passes]

/-- A traversal of numbered items succeeds when the step of each item does. -/
theorem mapM_zipIdx {ε α β γ : Type} {f : β × Nat → Except ε γ} {r : α → β} {u : α → γ}
    {xs : List α} {k : Nat} (each : ∀ i x, xs[i]? = some x → f (r x, k + i) = .ok (u x)) :
    ((xs.map r).zipIdx k).mapM f = .ok (xs.map u) := by
  induction xs generalizing k with
  | nil => rfl
  | cons x rest ih =>
    have later := @ih (k + 1) fun i y there => by
      rw [Nat.add_right_comm, Nat.add_assoc]
      exact each (i + 1) y there
    rw [List.map_cons, List.zipIdx_cons, List.mapM_cons, later]
    have first : f (r x, k) = .ok (u x) := each 0 x rfl
    rw [first]
    rfl

/-! ### Results and faults -/

/-- A result has a property, or a fault is of some kind. -/
def Comes {ε α : Type} (ok : α → Prop) (fails : ε → Prop) : Except ε α → Prop
  | .ok a => ok a
  | .error e => fails e

namespace Comes

variable {ε α β : Type} {ok : α → Prop} {done : β → Prop} {fails : ε → Prop} {x : Except ε α}

theorem mono {weaker : α → Prop} (comes : Comes ok fails x) (weaken : ∀ a, ok a → weaker a) :
    Comes weaker fails x := by
  cases x with
  | ok a => exact weaken a comes
  | error e => exact comes

/-- The same of faults. -/
theorem excuse {weaker : ε → Prop} (comes : Comes ok fails x) (weaken : ∀ e, fails e → weaker e) :
    Comes ok weaker x := by
  cases x with
  | ok a => exact comes
  | error e => exact weaken e comes

/-- What a computation comes to is its result. -/
theorem known (comes : Comes ok fails x) : Comes (fun a => x = .ok a ∧ ok a) fails x := by
  cases x with
  | ok a => exact ⟨rfl, comes⟩
  | error e => exact comes

theorem holds (comes : Comes ok fails x) {a : α} (same : x = .ok a) : ok a := by
  rw [same] at comes
  exact comes

theorem bind {f : α → Except ε β} (first : Comes ok fails x)
    (later : ∀ a, ok a → Comes done fails (f a)) : Comes done fails (x >>= f) := by
  cases x with
  | ok a => exact later a first
  | error e => exact first

theorem map {f : α → β} (comes : Comes ok fails x) (keeps : ∀ a, ok a → done (f a)) :
    Comes done fails (x.map f) := by
  cases x with
  | ok a => exact keeps a comes
  | error e => exact comes

/-- A traversal comes to what its steps come to. -/
theorem mapM {f : α → Except ε β} {xs : List α} {r : α → β → Prop}
    (each : ∀ x ∈ xs, Comes (r x) fails (f x)) :
    Comes (List.Forall₂ r xs) fails (xs.mapM f) := by
  induction xs with
  | nil => exact .nil
  | cons x rest ih =>
    obtain ⟨first, others⟩ := List.forall_mem_cons.1 each
    rw [List.mapM_cons]
    exact first.bind fun y here => (ih others).bind fun ys there => .cons here there

theorem forM {f : α → Except ε Unit} {xs : List α} {p : α → Prop}
    (each : ∀ x ∈ xs, Comes (fun _ => p x) fails (f x)) :
    Comes (fun _ => ∀ x ∈ xs, p x) fails (xs.forM f) := by
  induction xs with
  | nil => exact fun _ none => by cases none
  | cons x rest ih =>
    obtain ⟨first, others⟩ := List.forall_mem_cons.1 each
    change Comes _ fails (f x >>= fun _ => rest.forM f)
    exact first.bind fun _ here => (ih others).mono fun _ there => List.forall_mem_cons.2 ⟨here, there⟩

end Comes

/-! ### Lists item by item -/

section Items

variable {α β γ δ : Type} {r : α → β → Prop} {xs : List α} {ys : List β}

theorem forall₂_right (related : List.Forall₂ r xs ys) {i : Nat} {y : β} (there : ys[i]? = some y) :
    ∃ x, xs[i]? = some x ∧ r x y := by
  induction related generalizing i with
  | nil => cases there
  | cons first _ ih =>
    cases i with
    | zero =>
      cases there
      exact ⟨_, rfl, first⟩
    | succ i => exact ih (i := i) there

theorem forall₂_left (related : List.Forall₂ r xs ys) {i : Nat} {x : α} (there : xs[i]? = some x) :
    ∃ y, ys[i]? = some y ∧ r x y :=
  forall₂_right (List.Forall₂.flip related) there

theorem forall₂_comp {q : β → γ → Prop} {zs : List γ} (first : List.Forall₂ r xs ys)
    (second : List.Forall₂ q ys zs) : List.Forall₂ (fun x z => ∃ y, r x y ∧ q y z) xs zs := by
  induction first generalizing zs with
  | nil =>
    cases second
    exact .nil
  | cons here _ ih =>
    cases second with
    | cons there rest => exact .cons ⟨_, here, there⟩ (ih rest)

theorem forall₂_getElem? (related : List.Forall₂ r xs ys) (i : Nat) : Option.Rel r xs[i]? ys[i]? := by
  induction related generalizing i with
  | nil => exact .none
  | cons first _ ih =>
    cases i with
    | zero => exact .some first
    | succ i => exact ih i

theorem forall₂_isEmpty (related : List.Forall₂ r xs ys) : ys.isEmpty = xs.isEmpty := by
  cases related <;> rfl

theorem forall₂_modify {f : α → α} {g : β → β} (i : Nat) (related : List.Forall₂ r xs ys)
    (each : ∀ x y, r x y → r (f x) (g y)) : List.Forall₂ r (xs.modify i f) (ys.modify i g) := by
  induction related generalizing i with
  | nil => cases i <;> exact .nil
  | cons first rest ih =>
    cases i with
    | zero => exact .cons (each _ _ first) rest
    | succ i => exact .cons first (ih i)

theorem forall₂_filterMap {f : α → Option γ} {g : β → Option γ} (related : List.Forall₂ r xs ys)
    (same : ∀ x y, r x y → g y = f x) : ys.filterMap g = xs.filterMap f := by
  induction related with
  | nil => rfl
  | cons first _ ih => rw [List.filterMap_cons, List.filterMap_cons, same _ _ first, ih]

theorem forall₂_findIdx? {p : α → Bool} {q : β → Bool} (related : List.Forall₂ r xs ys)
    (same : ∀ x y, r x y → q y = p x) : ys.findIdx? q = xs.findIdx? p := by
  induction related with
  | nil => rfl
  | cons first _ ih => rw [List.findIdx?_cons, List.findIdx?_cons, same _ _ first, ih]

theorem forall₂_mapIdx {q : γ → δ → Prop} {f : Nat → α → γ} {g : Nat → β → δ}
    (related : List.Forall₂ r xs ys) (each : ∀ i x y, r x y → q (f i x) (g i y)) :
    List.Forall₂ q (xs.mapIdx f) (ys.mapIdx g) := by
  induction related generalizing f g with
  | nil => exact .nil
  | cons first _ ih =>
    rw [List.mapIdx_cons, List.mapIdx_cons]
    exact .cons (each 0 _ _ first) (ih fun i x y => each (i + 1) x y)

theorem forall₂_mapIdx_self {q : β → α → Prop} {f : Nat → α → β} (l : List α)
    (each : ∀ i x, q (f i x) x) : List.Forall₂ q (l.mapIdx f) l := by
  have same : l.mapIdx (fun _ x => x) = l := by simp [List.mapIdx_eq_zipIdx_map]
  have related : List.Forall₂ q (l.mapIdx f) (l.mapIdx fun _ x => x) :=
    forall₂_mapIdx (List.forall₂_same.mpr fun _ _ => rfl) fun i x y (h : x = y) => h ▸ each i x
  rwa [same] at related

theorem map_eq_of_forall₂ {f : α → γ} {g : β → γ} (related : List.Forall₂ r xs ys)
    (same : ∀ x y, r x y → g y = f x) : ys.map g = xs.map f := by
  induction related with
  | nil => rfl
  | cons first _ ih => rw [List.map_cons, List.map_cons, same _ _ first, ih]

theorem eq_map_of_forall₂ {f : α → β} (related : List.Forall₂ (fun x y => y = f x) xs ys) :
    ys = xs.map f := by
  rw [← map_eq_of_forall₂ (g := id) related fun _ _ same => same, List.map_id]

theorem forall₂_countP {p : α → Bool} {q : β → Bool} (related : List.Forall₂ r xs ys)
    (same : ∀ x y, r x y → q y = p x) : ys.countP q = xs.countP p := by
  induction related with
  | nil => rfl
  | cons first _ ih => rw [List.countP_cons, List.countP_cons, same _ _ first, ih]

theorem forall₂_filter {p : α → Bool} {q : β → Bool} (related : List.Forall₂ r xs ys)
    (same : ∀ x y, r x y → q y = p x) : List.Forall₂ r (xs.filter p) (ys.filter q) := by
  induction related with
  | nil => exact .nil
  | cons first _ ih =>
    rw [List.filter_cons, List.filter_cons, same _ _ first]
    split
    · exact .cons first ih
    · exact ih

theorem forall₂_any {p : α → Bool} {q : β → Bool} (related : List.Forall₂ r xs ys)
    (same : ∀ x y, r x y → q y = p x) : ys.any q = xs.any p := by
  induction related with
  | nil => rfl
  | cons first _ ih => rw [List.any_cons, List.any_cons, same _ _ first, ih]

theorem rel_elim {q : γ → δ → Prop} {f : α → γ} {g : β → δ} {c : γ} {d : δ} {x : Option α}
    {y : Option β} (none : q c d) (related : Option.Rel r x y)
    (some : ∀ a b, r a b → q (f a) (g b)) : q (x.elim c f) (y.elim d g) := by
  cases related with
  | some first => exact some _ _ first
  | none => exact none

theorem rel_any {p : α → Bool} {q : β → Bool} {x : Option α} {y : Option β}
    (related : Option.Rel r x y) (same : ∀ a b, r a b → q b = p a) : y.any q = x.any p := by
  cases related with
  | some first => exact same _ _ first
  | none => rfl

theorem rel_bind {q : γ → δ → Prop} {f : α → Option γ} {g : β → Option δ} {x : Option α}
    {y : Option β} (related : Option.Rel r x y) (each : ∀ a b, r a b → Option.Rel q (f a) (g b)) :
    Option.Rel q (x.bind f) (y.bind g) := by
  cases related with
  | some both => exact each _ _ both
  | none => exact .none

theorem rel_map {q : γ → δ → Prop} {f : α → γ} {g : β → δ} {x : Option α} {y : Option β}
    (related : Option.Rel r x y) (each : ∀ a b, r a b → q (f a) (g b)) :
    Option.Rel q (x.map f) (y.map g) := by
  cases related with
  | some both => exact .some (each _ _ both)
  | none => exact .none

/-- What is found on one side is found on the other. -/
theorem rel_some {x : Option α} {y : Option β} {a : α} (related : Option.Rel r x y)
    (found : x = some a) : ∃ b, y = some b ∧ r a b := by
  subst found
  cases related with
  | some both => exact ⟨_, rfl, both⟩

theorem rel_none {x : Option α} {y : Option β} (related : Option.Rel r x y) (none : x = .none) :
    y = .none := by
  subst none
  cases related
  rfl

end Items

/-! ### Results side by side -/

/-- Two computations that fail in the same way or give results that are related. -/
inductive Both {ε α β : Type} (r : α → β → Prop) : Except ε α → Except ε β → Prop
  | ok {a : α} {b : β} (related : r a b) : Both r (.ok a) (.ok b)
  | error (e : ε) : Both r (.error e) (.error e)

namespace Both

variable {ε α β γ δ : Type} {r : α → β → Prop} {q : γ → δ → Prop}

theorem bind {x : Except ε α} {y : Except ε β} {f : α → Except ε γ} {g : β → Except ε δ}
    (first : Both r x y) (second : ∀ a b, r a b → Both q (f a) (g b)) :
    Both q (x >>= f) (y >>= g) := by
  cases first with
  | ok related => exact second _ _ related
  | error e => exact .error e

/-- Two computations that begin alike. -/
theorem bind_same (x : Except ε α) {f : α → Except ε γ} {g : α → Except ε δ}
    (second : ∀ a, Both q (f a) (g a)) : Both q (x >>= f) (x >>= g) := by
  cases x with
  | ok a => exact second a
  | error e => exact .error e

theorem ok_right {x : Except ε α} {b : β} (both : Both r x (.ok b)) : ∃ a, x = .ok a ∧ r a b := by
  cases both with
  | ok related => exact ⟨_, rfl, related⟩

theorem mono {q : α → β → Prop} {x : Except ε α} {y : Except ε β} (both : Both r x y)
    (weaker : ∀ a b, r a b → q a b) : Both q x y := by
  cases both with
  | ok related => exact .ok (weaker _ _ related)
  | error e => exact .error e

theorem refl {r : α → α → Prop} (same : ∀ a, r a a) (x : Except ε α) : Both r x x := by
  cases x with
  | ok a => exact .ok (same a)
  | error e => exact .error e

theorem outcomes {x : Except ε α} {y : Except ε β} (both : Both r x y) :
    (∃ a b, x = .ok a ∧ y = .ok b ∧ r a b) ∨ ∃ e, x = .error e ∧ y = .error e := by
  cases both with
  | ok related => exact .inl ⟨_, _, rfl, rfl, related⟩
  | error e => exact .inr ⟨e, rfl, rfl⟩

theorem flip {x : Except ε α} {y : Except ε β} (both : Both r x y) : Both (fun b a => r a b) y x := by
  cases both with
  | ok related => exact .ok related
  | error e => exact .error e

theorem comp {q : β → γ → Prop} {x : Except ε α} {y : Except ε β} {z : Except ε γ}
    (first : Both r x y) (second : Both q y z) : Both (fun a c => ∃ b, r a b ∧ q b c) x z := by
  cases first with
  | ok related =>
    cases second with
    | ok further => exact .ok ⟨_, related, further⟩
  | error e =>
    cases second
    exact .error e

theorem eq {x y : Except ε α} (both : Both (fun a b => b = a) x y) : y = x := by
  cases both with
  | ok same => rw [same]
  | error e => rfl

end Both

end Colloquy
