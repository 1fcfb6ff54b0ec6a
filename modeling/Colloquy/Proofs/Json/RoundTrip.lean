import Colloquy.Proofs.Json.Numbers
import Colloquy.Proofs.Json.Texts
/-!
# JSON values read back

A value that is written on one line reads back as it was, with the kind of every number, as long as its
whole numbers are within the digit limit and it is nested no deeper than the reader puts up with.
-/

namespace Colloquy.Json

variable {bounds : Bounds} {depth fuel : Nat} {s body rest : List Char}

/-! ### Names -/

/-- What starts like no name is none. -/
theorem readName_none {c : Char} (unnamed : c ∉ ['n', 't', 'f', 'N', 'I', '-']) :
    readName (c :: s) = none := by
  have apart : ∀ d ∈ ['n', 't', 'f', 'N', 'I', '-'], d ≠ c := fun d member same =>
    unnamed (same ▸ member)
  have dropped : ∀ d ∈ ['n', 't', 'f', 'N', 'I', '-'], ∀ start, dropStart? (d :: start) (c :: s) = none :=
    fun d member start => if_neg (apart d member)
  simp [readName, dropped]

/-- The only name with a sign is that of an infinity. -/
theorem readName_minus {c : Char} (finite : c ≠ 'I') : readName ('-' :: c :: s) = none := by
  simp [readName, dropStart?, finite.symm]

theorem readValue_name {j : Json} (named : readName s = some (j, rest)) :
    readValue bounds depth (fuel + 1) s = .ok (j, rest) := by
  rw [readValue.eq_def]
  dsimp only
  rw [named]

/-! ### Numbers -/

/-- Whatever reads as a number starts with a digit. -/
theorem head_of_readNumber {negative : Bool} {result : Json × List Char}
    (read : readNumber bounds negative s = .ok result) : ∃ c tail, s = c :: tail ∧ c.isDigit = true := by
  cases whole : readWhole s with
  | none =>
    rw [readNumber, whole] at read
    cases read
  | some parts =>
    rw [readWhole.eq_def] at whole
    split at whole
    · exact ⟨'0', _, rfl, by decide⟩
    · split at whole
      next digit => exact ⟨_, _, rfl, digit⟩
      · cases whole
    · cases whole

theorem ne_of_isDigit {c d : Char} (digit : c.isDigit = true) (other : d.isDigit = false) : c ≠ d := by
  rintro rfl
  rw [digit] at other
  cases other

/-- A number with or without a sign is read as its digits are. -/
theorem readValue_number {negative : Bool} {result : Json × List Char}
    (read : readNumber bounds negative s = .ok result) :
    readValue bounds depth (fuel + 1) (if negative then '-' :: s else s) = .ok result := by
  obtain ⟨c, tail, rfl, digit⟩ := head_of_readNumber read
  cases negative with
  | true =>
    rw [if_pos rfl, readValue, readName_minus (ne_of_isDigit digit (by decide))]
    exact read
  | false =>
    have unnamed : c ∉ ['n', 't', 'f', 'N', 'I', '-'] := by
      intro member
      simp only [List.mem_cons, List.not_mem_nil, or_false] at member
      obtain rfl | rfl | rfl | rfl | rfl | rfl := member <;> exact absurd digit (by decide)
    rw [if_neg Bool.false_ne_true, readValue, readName_none unnamed]
    · exact read
    · exact fun _ same => absurd (List.cons.inj same).1 (ne_of_isDigit digit (by decide))
    · exact fun _ same => absurd (List.cons.inj same).1 (ne_of_isDigit digit (by decide))
    · exact fun _ same => absurd (List.cons.inj same).1 (ne_of_isDigit digit (by decide))
    · exact fun _ same => absurd (List.cons.inj same).1 (ne_of_isDigit digit (by decide))

/-! ### How a value starts -/

/-- The start of a value: no blank, and nothing that closes a list or an object. -/
def Starts (s : List Char) : Prop :=
  ∃ c tail, s = c :: tail ∧ isGap c = false ∧ c ≠ ']' ∧ c ≠ '\x7d'

theorem Starts.append (starts : Starts s) : Starts (s ++ rest) := by
  obtain ⟨c, tail, rfl, open'⟩ := starts
  exact ⟨c, tail ++ rest, rfl, open'⟩

theorem Starts.skipGap (starts : Starts s) : skipGap s = s := by
  obtain ⟨c, tail, rfl, solid, -⟩ := starts
  rw [Json.skipGap, List.dropWhile_cons, if_neg (by simp [solid])]

theorem starts_number {negative : Bool} {result : Json × List Char}
    (read : readNumber bounds negative s = .ok result) :
    Starts (if negative then '-' :: s else s) := by
  obtain ⟨c, tail, rfl, digit⟩ := head_of_readNumber read
  cases negative with
  | true => exact ⟨'-', _, rfl, by decide⟩
  | false =>
    refine ⟨c, tail, rfl, ?_, ne_of_isDigit digit (by decide), ne_of_isDigit digit (by decide)⟩
    have blank := ne_of_isDigit digit (d := ' ') (by decide)
    have tab := ne_of_isDigit digit (d := '\t') (by decide)
    have line := ne_of_isDigit digit (d := '\n') (by decide)
    have start := ne_of_isDigit digit (d := '\r') (by decide)
    simp [isGap, blank, tab, line, start]

/-! ### Values that are read back -/

/-- A written value is read back, whatever follows apart from it. -/
structure Reads (bounds : Bounds) (depth : Nat) (j : Json) : Prop where
  starts : Starts j.compact.toList
  read : ∀ {fuel rest}, 2 * j.compact.toList.length ≤ fuel → Apart rest →
    readValue bounds depth fuel (j.compact.toList ++ rest) = .ok (j, rest)

theorem Starts.fuel_succ (starts : Starts s) (enough : 2 * s.length ≤ fuel) : ∃ k, fuel = k + 1 := by
  obtain ⟨c, tail, rfl, -⟩ := starts
  rw [List.length_cons] at enough
  exact ⟨fuel - 1, by omega⟩

theorem reads_name {j : Json} (starts : Starts j.compact.toList)
    (named : ∀ rest, readName (j.compact.toList ++ rest) = some (j, rest)) : Reads bounds depth j := by
  refine ⟨starts, ?_⟩
  intro fuel rest enough _
  obtain ⟨fuel, rfl⟩ := starts.fuel_succ enough
  exact readValue_name (named rest)

theorem reads_number {j : Json} {negative : Bool}
    (written : j.compact.toList = if negative then '-' :: body else body)
    (read : ∀ rest, Apart rest → readNumber bounds negative (body ++ rest) = .ok (j, rest)) :
    Reads bounds depth j := by
  have alone := read [] (fun c member => by cases member)
  rw [List.append_nil] at alone
  have starts : Starts j.compact.toList := written ▸ starts_number alone
  refine ⟨starts, ?_⟩
  intro fuel rest enough apart
  obtain ⟨fuel, rfl⟩ := starts.fuel_succ enough
  have shown : j.compact.toList ++ rest = if negative then '-' :: (body ++ rest) else body ++ rest := by
    rw [written]
    cases negative <;> rfl
  rw [shown]
  exact readValue_number (read rest apart)

theorem reads_int {n : Int} (within : Number.exceedsDigitLimit n = false) :
    Reads bounds depth (.int n) := by
  have sign : (if n < 0 then -(n.natAbs : Int) else n.natAbs) = n := by
    omega
  have power (k : Nat) : Nat.pow 10 k = 10 ^ k := rfl
  have short : n.natAbs < 10 ^ Number.digitLimit := by
    rw [Number.exceedsDigitLimit, power, decide_eq_false_iff_not, Nat.not_le] at within
    exact within
  have written : (compact (.int n)).toList
      = if decide (n < 0) then '-' :: Nat.toDigits 10 n.natAbs else Nat.toDigits 10 n.natAbs := by
    rw [compact, Number.intText, Number.natText]
    simp only [decide_eq_true_eq]
    split
    · rw [String.toList_append, String.toList_ofList, String.toList_ofList]
      rfl
    · rw [String.toList_ofList]
  refine reads_number written fun rest apart => ?_
  rw [readNumber_natural short apart]
  simp only [decide_eq_true_eq, sign]

theorem reads_float {x : Binary64} : Reads bounds depth (.float x) := by
  cases x with
  | nan => exact reads_name ⟨'N', _, rfl, by decide⟩ fun _ => rfl
  | infinite negative =>
    cases negative with
    | true => exact reads_name ⟨'-', _, rfl, by decide⟩ fun _ => rfl
    | false => exact reads_name ⟨'I', _, rfl, by decide⟩ fun _ => rfl
  | finite negative units fits =>
    exact reads_number String.toList_ofList fun rest apart => readNumber_finite fits apart

/-! ### Texts -/

theorem writeText_append (t : String) :
    (writeText t).toList ++ rest = '"' :: (t.toList.flatMap escapeChar ++ '"' :: rest) := by
  rw [writeText, String.toList_ofList]
  simp

theorem escapeChar_ne_nil (c : Char) : escapeChar c ≠ [] := by
  rw [escapeChar]
  split_ifs <;> simp [escapeUnit]

theorem length_writeText (t : String) : t.toList.length + 2 ≤ (writeText t).toList.length := by
  have escaped (chars : List Char) : chars.length ≤ (chars.flatMap escapeChar).length := by
    induction chars with
    | nil => exact Nat.le_refl _
    | cons c chars ih =>
      have := List.length_pos_iff.2 (escapeChar_ne_nil c)
      rw [List.flatMap_cons, List.length_append, List.length_cons]
      omega
  have := escaped t.toList
  rw [writeText, String.toList_ofList, List.length_append, List.length_cons, List.length_singleton]
  omega

theorem reads_text {t : String} : Reads bounds depth (.text t) := by
  have starts : Starts (writeText t).toList := by
    rw [← List.append_nil (writeText t).toList, writeText_append]
    exact ⟨'"', _, rfl, by decide⟩
  refine ⟨starts, ?_⟩
  intro fuel rest enough _
  obtain ⟨fuel, rfl⟩ := starts.fuel_succ enough
  have long := length_writeText t
  rw [compact] at enough ⊢
  rw [writeText_append, readValue, readName_none (by decide), readText_written t rest (by omega)]
  rfl

/-! ### Lists and objects -/

theorem apart_of_mark {c : Char} (mark : c = ',' ∨ c = ']' ∨ c = '\x7d') : Apart (c :: rest) := by
  intro d member
  obtain rfl : c = d := by simpa using member
  obtain rfl | rfl | rfl := mark <;> decide

theorem Reads.item {j : Json} (reads : Reads bounds depth j)
    (enough : 2 * j.compact.toList.length ≤ fuel) (apart : Apart rest) :
    readValue bounds depth fuel (skipGap (j.compact.toList ++ rest)) = .ok (j, rest) := by
  rw [reads.starts.append.skipGap, reads.read enough apart]

theorem compactItems_cons (item next : Json) (more : List Json) :
    (compactItems (item :: next :: more)).toList
      = item.compact.toList ++ ',' :: (compactItems (next :: more)).toList := by
  rw [compactItems, String.toList_append, String.toList_append, List.append_assoc]
  · rfl
  · simp

theorem readItems_written {items : List Json} (nonempty : items ≠ [])
    (each : ∀ item ∈ items, Reads bounds depth item)
    (enough : 2 * (compactItems items).toList.length + 1 ≤ fuel) :
    readItems bounds depth fuel ((compactItems items).toList ++ ']' :: rest) = .ok (items, rest) := by
  induction items generalizing fuel with
  | nil => exact absurd rfl nonempty
  | cons item items ih =>
    obtain ⟨fuel, rfl⟩ : ∃ k, fuel = k + 1 := ⟨fuel - 1, by omega⟩
    have first := each item List.mem_cons_self
    cases items with
    | nil =>
      rw [compactItems] at enough ⊢
      rw [readItems, first.item (by omega) (apart_of_mark (.inr (.inl rfl)))]
      rfl
    | cons next more =>
      rw [compactItems_cons, List.length_append, List.length_cons] at enough
      rw [compactItems_cons, List.append_assoc, List.cons_append, readItems,
        first.item (by omega) (apart_of_mark (.inl rfl))]
      change (readItems bounds depth fuel _ >>= _) = _
      rw [ih (List.cons_ne_nil _ _) (fun j member => each j (List.mem_cons_of_mem _ member)) (by omega)]
      rfl

theorem compactFields_single (name : String) (value : Json) :
    (compactFields [(name, value)]).toList
      = (writeText name).toList ++ ':' :: value.compact.toList := by
  rw [compactFields, String.toList_append, String.toList_append, List.append_assoc]
  rfl

theorem compactFields_cons (name : String) (value : Json) (next : String × Json)
    (more : List (String × Json)) :
    (compactFields ((name, value) :: next :: more)).toList
      = (writeText name).toList
        ++ ':' :: (value.compact.toList ++ ',' :: (compactFields (next :: more)).toList) := by
  rw [compactFields, String.toList_append, String.toList_append, String.toList_append,
    String.toList_append, List.append_assoc, List.append_assoc, List.append_assoc]
  · rfl
  · simp

theorem readFields_written {fields : List (String × Json)} (nonempty : fields ≠ [])
    (each : ∀ field ∈ fields, Reads bounds depth field.2)
    (enough : 2 * (compactFields fields).toList.length + 1 ≤ fuel) :
    readFields bounds depth fuel ((compactFields fields).toList ++ '\x7d' :: rest)
      = .ok (fields, rest) := by
  induction fields generalizing fuel with
  | nil => exact absurd rfl nonempty
  | cons field fields ih =>
    obtain ⟨fuel, rfl⟩ : ∃ k, fuel = k + 1 := ⟨fuel - 1, by omega⟩
    obtain ⟨name, value⟩ := field
    have first : Reads bounds depth value := each (name, value) List.mem_cons_self
    have long := length_writeText name
    -- a brace follows the last field, and a comma any other
    cases fields with
    | nil =>
      rw [compactFields_single, List.length_append, List.length_cons] at enough
      rw [compactFields_single, List.append_assoc, List.cons_append, writeText_append, readFields]
      change (readText fuel _ >>= _) = _
      rw [readText_written name _ (by omega)]
      change (readValue bounds depth fuel (skipGap _) >>= _) = _
      rw [first.item (by omega) (apart_of_mark (.inr (.inr rfl)))]
      rfl
    | cons next more =>
      rw [compactFields_cons, List.length_append, List.length_cons, List.length_append,
        List.length_cons] at enough
      rw [compactFields_cons, List.append_assoc, List.cons_append, List.append_assoc, List.cons_append,
        writeText_append, readFields]
      change (readText fuel _ >>= _) = _
      rw [readText_written name _ (by omega)]
      change (readValue bounds depth fuel (skipGap _) >>= _) = _
      rw [first.item (by omega) (apart_of_mark (.inl rfl))]
      change (readFields bounds depth fuel _ >>= _) = _
      rw [ih (List.cons_ne_nil _ _) (fun f member => each f (List.mem_cons_of_mem _ member)) (by omega)]
      rfl

theorem starts_compactItems {items : List Json} (nonempty : items ≠ [])
    (each : ∀ item ∈ items, Reads bounds depth item) : Starts (compactItems items).toList := by
  cases items with
  | nil => exact absurd rfl nonempty
  | cons item items =>
    have first := (each item List.mem_cons_self).starts
    cases items with
    | nil =>
      rw [compactItems]
      exact first
    | cons next more =>
      rw [compactItems_cons]
      exact first.append

theorem starts_compactFields {fields : List (String × Json)} (nonempty : fields ≠ []) :
    Starts (compactFields fields).toList := by
  have named (name : String) (s : List Char) : Starts ((writeText name).toList ++ s) := by
    rw [writeText_append]
    exact ⟨'"', _, rfl, by decide⟩
  cases fields with
  | nil => exact absurd rfl nonempty
  | cons field fields =>
    cases fields with
    | nil =>
      rw [compactFields_single]
      exact named _ _
    | cons next more =>
      rw [compactFields_cons]
      exact named _ _

theorem toList_list (items : List Json) :
    (compact (.list items)).toList = '[' :: ((compactItems items).toList ++ [']']) := by
  rw [compact, String.toList_append, String.toList_append]
  rfl

theorem toList_object (fields : List (String × Json)) :
    (compact (.object fields)).toList = '\x7b' :: ((compactFields fields).toList ++ ['\x7d']) := by
  rw [compact, String.toList_append, String.toList_append]
  rfl

theorem reads_list {items : List Json} (each : ∀ item ∈ items, Reads bounds depth item) :
    Reads bounds (depth + 1) (.list items) := by
  have starts : Starts (compact (.list items)).toList := by
    rw [toList_list]
    exact ⟨'[', _, rfl, by decide⟩
  refine ⟨starts, ?_⟩
  intro fuel rest enough _
  obtain ⟨fuel, rfl⟩ := starts.fuel_succ enough
  rw [toList_list, List.length_cons, List.length_append, List.length_singleton] at enough
  rw [toList_list, List.cons_append, List.append_assoc, List.singleton_append, readValue,
    readName_none (by decide)]
  dsimp only
  cases items with
  | nil => rfl
  | cons item items =>
    have first := starts_compactItems (List.cons_ne_nil item items) each
    have items : readItems bounds depth fuel ((compactItems (item :: items)).toList ++ ']' :: rest)
        = .ok (item :: items, rest) :=
      readItems_written (List.cons_ne_nil item items) each (by omega)
    rw [first.append.skipGap]
    obtain ⟨c, tail, written, -, closes, -⟩ := first
    rw [written, List.cons_append] at items ⊢
    split
    next same => exact absurd (List.cons.inj same).1 closes
    · rw [items]
      rfl

theorem reads_object {fields : List (String × Json)}
    (each : ∀ field ∈ fields, Reads bounds depth field.2) : Reads bounds (depth + 1) (.object fields) := by
  have starts : Starts (compact (.object fields)).toList := by
    rw [toList_object]
    exact ⟨'\x7b', _, rfl, by decide⟩
  refine ⟨starts, ?_⟩
  intro fuel rest enough _
  obtain ⟨fuel, rfl⟩ := starts.fuel_succ enough
  rw [toList_object, List.length_cons, List.length_append, List.length_singleton] at enough
  rw [toList_object, List.cons_append, List.append_assoc, List.singleton_append, readValue,
    readName_none (by decide)]
  dsimp only
  cases fields with
  | nil => rfl
  | cons field fields =>
    have first := starts_compactFields (List.cons_ne_nil field fields)
    have fields : readFields bounds depth fuel
        ((compactFields (field :: fields)).toList ++ '\x7d' :: rest) = .ok (field :: fields, rest) :=
      readFields_written (List.cons_ne_nil field fields) each (by omega)
    rw [first.append.skipGap]
    obtain ⟨c, tail, written, -, -, closes⟩ := first
    rw [written, List.cons_append] at fields ⊢
    split
    next same => exact absurd (List.cons.inj same).1 closes
    · rw [fields]
      rfl

/-! ### Values that fit a reader -/

/-- A value that a reader takes which lets so many lists and objects be nested: its whole numbers are
within the digit limit. -/
inductive Fits : Nat → Json → Prop
  | null {depth : Nat} : Fits depth .null
  | bool {depth : Nat} (b : Bool) : Fits depth (.bool b)
  | int {depth : Nat} {n : Int} (within : Number.exceedsDigitLimit n = false) : Fits depth (.int n)
  | float {depth : Nat} (x : Binary64) : Fits depth (.float x)
  | text {depth : Nat} (s : String) : Fits depth (.text s)
  | list {depth : Nat} {items : List Json} (each : ∀ item ∈ items, Fits depth item) :
      Fits (depth + 1) (.list items)
  | object {depth : Nat} {fields : List (String × Json)} (each : ∀ field ∈ fields, Fits depth field.2) :
      Fits (depth + 1) (.object fields)

theorem Fits.reads {j : Json} (fits : Fits depth j) : Reads bounds depth j := by
  induction fits with
  | null => exact reads_name ⟨'n', _, rfl, by decide⟩ fun _ => rfl
  | bool b =>
    cases b with
    | true => exact reads_name ⟨'t', _, rfl, by decide⟩ fun _ => rfl
    | false => exact reads_name ⟨'f', _, rfl, by decide⟩ fun _ => rfl
  | int within => exact reads_int within
  | float x => exact reads_float
  | text s => exact reads_text
  | list _ each => exact reads_list each
  | object _ each => exact reads_object each

/-- A value that fits is read back as it was written. -/
theorem readAll_compact {j : Json} (fits : Fits bounds.depth j) : readAll bounds j.compact = .ok j := by
  have reads : Reads bounds bounds.depth j := fits.reads
  rw [readAll]
  dsimp only
  rw [reads.starts.skipGap]
  have read : readValue bounds bounds.depth (2 * j.compact.toList.length + 2) (j.compact.toList ++ [])
      = .ok (j, []) :=
    reads.read (by omega) fun c member => by cases member
  rw [List.append_nil] at read
  rw [read]
  rfl

end Colloquy.Json
