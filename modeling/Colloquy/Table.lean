/-!
# Tables

A table is a list of keys with entries, in the order in which the keys were first set. Entries of keys
that a table does not have are added at its end, in their order. An entry that is set is found under
its key, and all others are found as before.
-/

namespace Colloquy

/-- Sets the entry of a key: in its place if there is one, else at the end. -/
def setEntry {α : Type} (table : List (String × α)) (key : String) (entry : α) :
    List (String × α) :=
  if table.any (·.1 = key) then
    table.map fun e => if e.1 = key then (key, entry) else e
  else table ++ [(key, entry)]

/-- Sets the entries of a list of keys, one after the other. -/
def setEntries {α : Type} (table entries : List (String × α)) : List (String × α) :=
  entries.foldl (fun table e => setEntry table e.1 e.2) table

/-- Removes a key with its entry. -/
def eraseEntry {α : Type} (table : List (String × α)) (key : String) : List (String × α) :=
  table.filter (·.1 ≠ key)

/-! ### Tables of distinct keys -/

variable {α : Type}

theorem setEntry_of_absent {table : List (String × α)} {key : String} (entry : α)
    (absent : key ∉ table.map (·.1)) : setEntry table key entry = table ++ [(key, entry)] := by
  unfold setEntry
  rw [if_neg]
  intro found
  obtain ⟨e, member, same⟩ := List.any_eq_true.mp found
  exact absent (List.mem_map.mpr ⟨e, member, of_decide_eq_true same⟩)

theorem foldl_setEntry_of_nodup {β : Type} (key : β → String) (entry : β → α)
    {table : List (String × α)} {items : List β}
    (distinct : (table.map (·.1) ++ items.map key).Nodup) :
    items.foldl (fun table x => setEntry table (key x) (entry x)) table
      = table ++ items.map fun x => (key x, entry x) := by
  induction items generalizing table with
  | nil => simp
  | cons x rest ih =>
    have absent : key x ∉ table.map (·.1) := by
      intro member
      exact (List.nodup_append.mp distinct).2.2 _ member _ (List.mem_cons_self ..) rfl
    rw [List.foldl_cons, setEntry_of_absent (entry x) absent, ih, List.map_cons,
      List.append_assoc, List.singleton_append]
    simpa using distinct

/-- In a table of distinct keys a key has the entry that stands beside it. -/
theorem lookup_eq_some_iff {table : List (String × α)} (distinct : (table.map (·.1)).Nodup)
    {key : String} {entry : α} : table.lookup key = some entry ↔ (key, entry) ∈ table := by
  induction table with
  | nil => simp
  | cons e rest ih =>
    obtain ⟨key', entry'⟩ := e
    simp only [List.map_cons, List.nodup_cons] at distinct
    by_cases same : key = key'
    · subst same
      have absent : (key, entry) ∉ rest := fun member =>
        distinct.1 (List.mem_map.mpr ⟨_, member, rfl⟩)
      simp [absent, eq_comm]
    · have other : (key == key') = false := by simp [same]
      simp [List.lookup_cons, other, ih distinct.2, same]

/-! ### Looking up what was set -/

theorem lookup_eq_none {table : List (String × α)} {key : String} (absent : key ∉ table.map (·.1)) :
    table.lookup key = none := by
  refine List.lookup_eq_none_iff.mpr fun e inside => bne_iff_ne.mpr fun same => absent ?_
  exact List.mem_map.mpr ⟨e, inside, same.symm⟩

/-- Replacing the entries of a key changes what is found under it, if anything is. -/
theorem lookup_replace (table : List (String × α)) (key : String) (entry : α) (name : String) :
    (table.map fun e => if e.1 = key then (key, entry) else e).lookup name
      = if name = key then (table.lookup key).map fun _ => entry else table.lookup name := by
  induction table with
  | nil => simp
  | cons e rest ih =>
    obtain ⟨key', entry'⟩ := e
    rw [List.map_cons, List.lookup_cons, List.lookup_cons, List.lookup_cons]
    by_cases own : key' = key <;> by_cases here : name = key
    · simp [own, here]
    · have other : (name == key) = false := beq_false_of_ne here
      simpa [own, here, other] using ih
    · have other : (key == key') = false := beq_false_of_ne (Ne.symm own)
      simpa [own, here, other] using ih
    · by_cases there : name = key'
      · simp [there, own]
      · have elsewhere : (name == key') = false := beq_false_of_ne there
        simpa [own, here, elsewhere] using ih

theorem lookup_setEntry (table : List (String × α)) (key : String) (entry : α) (name : String) :
    (setEntry table key entry).lookup name
      = if name = key then some entry else table.lookup name := by
  unfold setEntry
  split
  next found =>
    obtain ⟨e, member, same⟩ := List.any_eq_true.mp found
    obtain ⟨entry', there⟩ : ∃ entry', table.lookup key = some entry' := by
      rw [← Option.isSome_iff_exists, ← Option.ne_none_iff_isSome]
      intro none
      have other := List.lookup_eq_none_iff.mp none e member
      exact bne_iff_ne.mp other (of_decide_eq_true same).symm
    rw [lookup_replace, there]
    rfl
  next absent =>
    have none : key ∉ table.map (·.1) := by
      intro member
      obtain ⟨e, inside, same⟩ := List.mem_map.mp member
      exact absent (List.any_eq_true.mpr ⟨e, inside, decide_eq_true same⟩)
    rw [List.lookup_append]
    by_cases here : name = key
    · rw [here, if_pos rfl, lookup_eq_none none]
      simp
    · rw [if_neg here, List.lookup_cons, beq_false_of_ne here]
      exact Option.or_none

theorem lookup_eraseEntry (table : List (String × α)) (key name : String) :
    (eraseEntry table key).lookup name = if name = key then none else table.lookup name := by
  unfold eraseEntry
  induction table with
  | nil => simp
  | cons e rest ih =>
    obtain ⟨key', entry'⟩ := e
    rw [List.filter_cons, List.lookup_cons]
    by_cases here : name = key'
    · subst here
      by_cases same : name = key
      · simpa [same] using ih
      · simp [same]
    · rw [beq_false_of_ne here]
      split
      · rw [List.lookup_cons, beq_false_of_ne here, ih]
      · exact ih

theorem setEntry_nodup {table : List (String × α)} (distinct : (table.map (·.1)).Nodup)
    (key : String) (entry : α) : ((setEntry table key entry).map (·.1)).Nodup := by
  by_cases there : key ∈ table.map (·.1)
  · have same : (setEntry table key entry).map (·.1) = table.map (·.1) := by
      obtain ⟨e, member, named⟩ := List.mem_map.mp there
      unfold setEntry
      rw [if_pos (List.any_eq_true.mpr ⟨e, member, decide_eq_true named⟩), List.map_map]
      refine List.map_congr_left fun e _ => ?_
      rw [Function.comp_apply]
      split
      next same => exact same.symm
      next => rfl
    rw [same]
    exact distinct
  · rw [setEntry_of_absent entry there, List.map_append]
    refine List.nodup_append.mpr ⟨distinct, by simp, ?_⟩
    rintro a member b (_ | ⟨_, ⟨⟩⟩) rfl
    exact there member

theorem setEntries_nodup {table : List (String × α)} (distinct : (table.map (·.1)).Nodup)
    (entries : List (String × α)) : ((setEntries table entries).map (·.1)).Nodup := by
  induction entries generalizing table with
  | nil => exact distinct
  | cons e rest ih => exact ih (setEntry_nodup distinct e.1 e.2)

theorem mem_setEntry {table : List (String × α)} {key : String} {entry : α} {e : String × α}
    (member : e ∈ setEntry table key entry) : e ∈ table ∨ e = (key, entry) := by
  unfold setEntry at member
  split at member
  · obtain ⟨e', there, same⟩ := List.mem_map.1 member
    split at same
    · exact .inr same.symm
    · exact .inl (same ▸ there)
  · exact (List.mem_append.1 member).imp id List.mem_singleton.1

theorem mem_setEntries {table entries : List (String × α)} {e : String × α}
    (member : e ∈ setEntries table entries) : e ∈ table ∨ e ∈ entries := by
  induction entries generalizing table with
  | nil => exact .inl member
  | cons first rest ih =>
    obtain before | later := ih member
    · exact (mem_setEntry before).imp id fun same => List.mem_cons.2 (.inl same)
    · exact .inr (List.mem_cons_of_mem _ later)

/-- Keys keep their order, and a new one comes last. -/
theorem keys_setEntry (table : List (String × α)) (key : String) (entry : α) :
    table.map (·.1) <+: (setEntry table key entry).map (·.1) := by
  unfold setEntry
  split
  · rw [List.map_map]
    have same : table.map ((·.1) ∘ fun e => if e.1 = key then (key, entry) else e)
        = table.map (·.1) := by
      refine List.map_congr_left fun e _ => ?_
      rw [Function.comp_apply]
      split
      next same => exact same.symm
      · rfl
    exact same ▸ List.prefix_rfl
  · rw [List.map_append]
    exact List.prefix_append _ _

theorem keys_setEntries (table entries : List (String × α)) :
    table.map (·.1) <+: (setEntries table entries).map (·.1) := by
  induction entries generalizing table with
  | nil => exact List.prefix_rfl
  | cons e rest ih => exact (keys_setEntry table e.1 e.2).trans (ih _)

/-- The entry of a key that stands in a table is replaced where it stands. -/
theorem setEntry_middle {before after : List (String × α)} {key : String} (old entry : α)
    (distinct : ((before ++ (key, old) :: after).map (·.1)).Nodup) :
    setEntry (before ++ (key, old) :: after) key entry = before ++ (key, entry) :: after := by
  rw [List.map_append, List.map_cons, List.perm_middle.nodup_iff, List.nodup_cons] at distinct
  have others : ∀ e ∈ before ++ after, (if e.1 = key then (key, entry) else e) = e := by
    intro e member
    refine if_neg fun same => distinct.1 ?_
    rw [← List.map_append]
    exact List.mem_map.2 ⟨e, member, same⟩
  unfold setEntry
  rw [if_pos (by simp), List.map_append, List.map_cons, if_pos rfl]
  congr 1
  · exact (List.map_congr_left fun e member =>
      others e (List.mem_append_left _ member)).trans (List.map_id' _)
  · congr 1
    exact (List.map_congr_left fun e member =>
      others e (List.mem_append_right _ member)).trans (List.map_id' _)

/-- A table that begins with the keys of another goes over it whole. -/
theorem setEntries_of_keys {table entries : List (String × α)}
    (distinct : (entries.map (·.1)).Nodup) (begins : table.map (·.1) <+: entries.map (·.1)) :
    setEntries table entries = entries := by
  -- the induction carries the entries that have been gone over already
  suffices goes : ∀ before : List (String × α), ((before ++ entries).map (·.1)).Nodup →
      setEntries (before ++ table) entries = before ++ entries from goes [] distinct
  clear distinct
  induction entries generalizing table with
  | nil =>
    intro before _
    rw [List.map_eq_nil_iff.1 (List.prefix_nil.1 begins)]
    rfl
  | cons e rest ih =>
    intro before distinct
    cases table with
    | nil =>
      rw [List.map_append] at distinct
      rw [List.append_nil, setEntries,
        foldl_setEntry_of_nodup (fun e : String × α => e.1) (fun e => e.2) distinct, List.map_id']
    | cons old others =>
      obtain ⟨key, entry⟩ := e
      obtain ⟨key', entry'⟩ := old
      obtain ⟨same, later⟩ := List.cons_prefix_cons.1 begins
      cases same
      have apart : ((before ++ (key, entry') :: others).map (·.1)).Nodup := by
        refine distinct.sublist ?_
        rw [List.map_append, List.map_append]
        exact List.Sublist.append_left (later.sublist.cons_cons key) _
      rw [List.append_cons] at distinct
      change setEntries (setEntry (before ++ (key, entry') :: others) key entry) rest = _
      rw [setEntry_middle entry' entry apart, List.append_cons, ih later _ distinct,
        ← List.append_cons]

/-- Entries that were set once are set again to the same. -/
theorem setEntries_setEntries {table : List (String × α)} (distinct : (table.map (·.1)).Nodup)
    (entries : List (String × α)) :
    setEntries table (setEntries table entries) = setEntries table entries :=
  setEntries_of_keys (setEntries_nodup distinct entries) (keys_setEntries table entries)

/-- Of the entries that are set one is found before those that were there. -/
theorem lookup_setEntries {entries : List (String × α)} (distinct : (entries.map (·.1)).Nodup)
    (table : List (String × α)) (name : String) :
    (setEntries table entries).lookup name = (entries.lookup name).or (table.lookup name) := by
  induction entries generalizing table with
  | nil => rfl
  | cons e rest ih =>
    obtain ⟨key, entry⟩ := e
    obtain ⟨absent, later⟩ := List.nodup_cons.mp distinct
    change (setEntries (setEntry table key entry) rest).lookup name = _
    rw [ih later, lookup_setEntry, List.lookup_cons]
    by_cases here : name = key
    · rw [if_pos here, here, lookup_eq_none absent, beq_self_eq_true]
      rfl
    · rw [if_neg here, beq_false_of_ne here]

theorem mem_of_lookup {β : Type} [BEq β] [LawfulBEq β] {table : List (β × α)} {key : β} {entry : α}
    (found : table.lookup key = some entry) : (key, entry) ∈ table := by
  induction table with
  | nil => cases found
  | cons e rest ih =>
    obtain ⟨key', entry'⟩ := e
    rw [List.lookup_cons] at found
    split at found
    next same =>
      cases found
      rw [eq_of_beq same]
      exact List.mem_cons_self ..
    · exact List.mem_cons_of_mem _ (ih found)

end Colloquy
