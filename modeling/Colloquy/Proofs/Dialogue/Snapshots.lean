import Colloquy.Dialogue.Snapshot
import Colloquy.Proofs.Json.RoundTrip
import Colloquy.Proofs.Result
import Colloquy.Table
/-!
# Snapshots read back

A snapshot is read from its text as it was written, payload for payload and kind for kind, as long as all
its numbers are finite. JSON has no other numbers: a snapshot that holds one is written all the same, but
its variables are refused when it is read.
-/

namespace Colloquy

theorem eraseDups_of_nodup {xs : List String} (distinct : xs.Nodup) : xs.eraseDups = xs := by
  induction xs with
  | nil => rfl
  | cons x rest ih =>
    obtain ⟨absent, later⟩ := List.nodup_cons.mp distinct
    have others : rest.filter (fun y => !y == x) = rest :=
      List.filter_eq_self.mpr fun y member => by
        have other : y ≠ x := fun same => absent (same ▸ member)
        simp [other]
    rw [List.eraseDups_cons, others, ih later]

/-! ### Saved values -/

/-- Whether a value is finite: all are but the infinities and what is not a number. -/
def Value.isFinite : Value → Bool
  | .float x => x.isFinite
  | _ => true

/-- Whether JSON has a value for a payload. -/
def Payload.isFinite : Payload → Bool
  | .float x => x.isFinite
  | _ => true

theorem Value.isFinite_save (v : Value) : v.save.payload.isFinite = v.isFinite := by
  cases v <;> rfl

theorem Value.isShowable_save (v : Value) : v.save.payload.datum.isShowable = v.isShowable := by
  cases v <;> rfl

theorem Payload.ofJson?_form (p : Payload) :
    Payload.ofJson? p.form = if p.isFinite then some p else none := by
  cases p with
  | bool b => rfl
  | int n => rfl
  | float x =>
    rw [Payload.form, Payload.isFinite]
    cases x.isFinite <;> rfl
  | text s => rfl

theorem Payload.fits_form {p : Payload} {depth : Nat} (shown : p.datum.isShowable = true) :
    Json.Fits depth p.form := by
  cases p with
  | bool b => exact .bool b
  | int n =>
    exact .int (by simpa [Payload.datum, Datum.isShowable, Value.isShowable] using shown)
  | float x =>
    rw [Payload.form]
    split
    · exact .float x
    · exact .null
  | text s => exact .text s

theorem SavedValue.ofJson?_form (s : SavedValue) :
    SavedValue.ofJson? s.form = if s.payload.isFinite then some s else none := by
  have kind : (Json.field? [("type", .text s.kind.name), ("value", s.payload.form)] "type")
      = some (.text s.kind.name) := rfl
  have payload : (Json.field? [("type", .text s.kind.name), ("value", s.payload.form)] "value")
      = some s.payload.form := rfl
  rw [SavedValue.form, SavedValue.ofJson?, kind, payload]
  simp only [Value.kind_ofName?_name, Option.bind_some, Payload.ofJson?_form]
  cases s.payload.isFinite <;> rfl

theorem SavedValue.fits_form {s : SavedValue} {depth : Nat} (shown : s.payload.datum.isShowable = true) :
    Json.Fits (depth + 1) s.form := by
  refine .object fun field member => ?_
  simp only [List.mem_cons, List.not_mem_nil, or_false] at member
  obtain rfl | rfl := member
  · exact .text _
  · exact Payload.fits_form shown

namespace Snapshot

/-! ### The fields of a snapshot -/

/-- What is kept in a snapshot can be taken over from it. -/
theorem values_capture (textId : String) (vars : List (String × Value)) (taken : List String) :
    (capture textId vars taken).values = .ok vars := by
  unfold values capture
  induction vars with
  | nil => rfl
  | cons v rest ih =>
    rw [List.map_cons, List.mapM_cons, ih, Value.restore_save]
    rfl

theorem vars?_form {vars : List (String × SavedValue)} (named : (vars.map (·.1)).Nodup) :
    vars? (.object (vars.map fun v => (v.1, v.2.form)))
      = if vars.all (·.2.payload.isFinite) then some vars else none := by
  have each : ∀ v ∈ vars, (SavedValue.ofJson? v.2.form).map (v.1, ·)
      = if v.2.payload.isFinite then some v else none := by
    intro v _
    rw [SavedValue.ofJson?_form]
    cases v.2.payload.isFinite <;> rfl
  have whole : setEntries [] vars = vars := by
    have distinct : (([] : List (String × SavedValue)).map (·.1) ++ vars.map (·.1)).Nodup := named
    have added := foldl_setEntry_of_nodup Prod.fst Prod.snd distinct
    exact added.trans (List.map_id vars)
  have read := @mapM_test _ _ _ (fun v : String × SavedValue => (v.1, v.2.form))
    (fun f => (SavedValue.ofJson? f.2).map (f.1, ·)) id _ _ each
  rw [vars?, read, List.map_id]
  split
  · exact congrArg some whole
  · rfl

theorem taken?_form {taken : List String} (chosen : taken.Nodup) :
    taken? (.list (taken.map .text)) = some taken := by
  have read := @mapM_some _ _ _ Json.text text? id taken fun _ _ => rfl
  rw [taken?, read, List.map_id, Option.map_some, eraseDups_of_nodup chosen]

theorem fits_form {s : Snapshot} {depth : Nat} (shown : s.isShowable = true) :
    Json.Fits (depth + 3) s.form := by
  refine .object fun field member => ?_
  simp only [List.mem_cons, List.not_mem_nil, or_false] at member
  obtain rfl | rfl | rfl := member
  · exact .text _
  · refine .object fun field member => ?_
    obtain ⟨v, there, rfl⟩ := List.mem_map.mp member
    exact SavedValue.fits_form (List.all_eq_true.mp shown v there)
  · refine .list fun item member => ?_
    obtain ⟨c, _, rfl⟩ := List.mem_map.mp member
    exact .text c

/-! ### Reading what was written -/

section Fields

variable {s : Snapshot} {held chosen : Json} {finite : Bool}

/-- The fields of a written snapshot, of which only the variables may be at fault. -/
theorem faults_fields (vars : vars? held = if finite then some s.vars else none)
    (taken : taken? chosen = some s.taken) :
    faults [("text_node_id", .text s.textId), ("variables", held), ("choices_taken", chosen)]
      = if finite then [] else ["variables"] := by
  have first : Json.field? [("text_node_id", .text s.textId), ("variables", held),
      ("choices_taken", chosen)] "text_node_id" = some (.text s.textId) := rfl
  have second : Json.field? [("text_node_id", .text s.textId), ("variables", held),
      ("choices_taken", chosen)] "variables" = some held := rfl
  have third : Json.field? [("text_node_id", .text s.textId), ("variables", held),
      ("choices_taken", chosen)] "choices_taken" = some chosen := rfl
  simp only [faults, List.filter_cons, List.filter_nil, first, second, third, set?, text?, vars, taken]
  cases finite <;> simp [List.eraseDups_cons]

theorem ofFields_fields (vars : vars? held = if finite then some s.vars else none)
    (taken : taken? chosen = some s.taken) :
    ofFields [("text_node_id", .text s.textId), ("variables", held), ("choices_taken", chosen)]
      = if finite then .ok s else .error ["variables"] := by
  rw [ofFields, faults_fields vars taken]
  cases finite with
  | false => rfl
  | true => simp [set?, text?, vars, taken]

end Fields

/-- A snapshot reads back as it was written unless a payload is not finite; then its variables are
refused. -/
theorem ofText_text {s : Snapshot} (named : (s.vars.map (·.1)).Nodup) (chosen : s.taken.Nodup)
    (shown : s.isShowable = true) :
    ofText s.text = if s.vars.all (·.2.payload.isFinite) then .ok s else .error ["variables"] := by
  have read : Json.readAll .records s.text = .ok s.form := Json.readAll_compact (fits_form shown)
  rw [ofText, read, form]
  exact ofFields_fields (vars?_form named) (taken?_form chosen)

/-- What is kept of a dialogue comes back from its text, and with it every variable as it was, as long as
all numbers are finite. If one is not, the variables are refused. -/
theorem saved_reads_back {vars : List (String × Value)} {taken : List String} (textId : String)
    (named : (vars.map (·.1)).Nodup) (chosen : taken.Nodup)
    (shown : ∀ v ∈ vars, v.2.isShowable = true) :
    ((∀ v ∈ vars, v.2.isFinite = true) → ∃ s, ofText (capture textId vars taken).text = .ok s
      ∧ s = capture textId vars taken ∧ s.values = .ok vars)
    ∧ ((∃ v ∈ vars, v.2.isFinite = false) →
      ofText (capture textId vars taken).text = .error ["variables"]) := by
  have named' : ((capture textId vars taken).vars.map (·.1)).Nodup := by
    simpa [capture, Function.comp_def] using named
  have shown' : (capture textId vars taken).isShowable = true := by
    simpa [isShowable, capture, Value.isShowable_save] using shown
  have finite : (capture textId vars taken).vars.all (·.2.payload.isFinite) = vars.all (·.2.isFinite) := by
    simp [capture, Function.comp_def, Value.isFinite_save]
  have read := ofText_text named' chosen shown'
  rw [finite] at read
  constructor
  · intro all
    rw [if_pos (List.all_eq_true.mpr all)] at read
    exact ⟨_, read, rfl, values_capture textId vars taken⟩
  · rintro ⟨v, member, infinite⟩
    rw [if_neg] at read
    · exact read
    · intro all
      rw [List.all_eq_true.mp all v member] at infinite
      cases infinite

/-- A variable of each kind, two of them alike in JSON but for the point. -/
def oneOfEach : List (String × Value) :=
  [("gold", .int 1), ("share", .float (Binary64.ofInt 1)), ("met", .bool true), ("name", .text "Zoë"),
    ("who", .gender .feminine)]

theorem every_kind_reads_back :
    (∃ s, ofText (capture "L1" oneOfEach ["L1C0"]).text = .ok s
      ∧ s = capture "L1" oneOfEach ["L1C0"] ∧ s.values = .ok oneOfEach)
    ∧ ofText (capture "L1" [("far", .float (.infinite false))] []).text = .error ["variables"] := by
  constructor
  · exact (saved_reads_back "L1" (by decide) (by decide) (by decide +kernel)).1 (by decide +kernel)
  · exact (saved_reads_back "L1" (by decide) (by decide) (by decide)).2 (by decide)

/-- A saved dialogue with an infinite variable cannot be read. -/
theorem infinity_refused : ¬ ∀ (textId : String) (vars : List (String × Value)) (taken : List String),
    (vars.map (·.1)).Nodup → taken.Nodup → (∀ v ∈ vars, v.2.isShowable = true) →
    ∃ s, ofText (capture textId vars taken).text = .ok s
      ∧ s = capture textId vars taken ∧ s.values = .ok vars := by
  intro claim
  obtain ⟨s, read, -⟩ :=
    claim "L" [("X", .float (.infinite false))] [] (by decide) (by decide) (by decide)
  have refused : ofText (capture "L" [("X", .float (.infinite false))] []).text
      = .error ["variables"] :=
    ofText_text (by decide) (by decide) (by decide)
  rw [refused] at read
  cases read

end Snapshot
end Colloquy
