import Colloquy.Template
import Colloquy.Proofs.Listing
/-!
# Parameters of a text

Whoever reads a text from left to right meets a parameter wherever a dotted name stands in braces, and
otherwise one character after the other. This leaves no choice: the pieces of a text are what is read
so. Filling in goes over the pieces of the text and so never over what was filled in.
-/

namespace Colloquy.Template

/-! ### Reading a text -/

/-- A text begins with a parameter: a dotted name in braces, and the rest after it. -/
structure Opens (s name rest : List Char) : Prop where
  shape : s = '\x7b' :: (name ++ '\x7d' :: rest)
  named : name ≠ []
  dotted : ∀ c ∈ name, Text.isDotted c = true

/-- `Written s ps`: a text is these pieces one after the other. A character stands for itself only where
no parameter begins. -/
inductive Written : List Char → List Piece → Prop where
  | nothing : Written [] []
  | param {s name rest : List Char} {ps : List Piece} (opens : Opens s name rest)
      (later : Written rest ps) : Written s (.param name :: ps)
  | char {c : Char} {rest : List Char} {ps : List Piece}
      (plain : ∀ name after, ¬ Opens (c :: rest) name after) (later : Written rest ps) :
      Written (c :: rest) (.char c :: ps)

theorem exists_opens_of_paramAt? {s name : List Char} (found : paramAt? s = some name) :
    ∃ rest, Opens ('\x7b' :: s) name rest := by
  unfold paramAt? at found
  dsimp only at found
  split at found
  next closed =>
    obtain rfl := Option.some.inj found
    obtain ⟨rest, split⟩ := List.head?_eq_some_iff.mp closed.2
    have whole := List.takeWhile_append_dropWhile (p := Text.isDotted) (l := s)
    rw [split] at whole
    have dotted := List.all_eq_true.mp (List.all_takeWhile (p := Text.isDotted) (l := s))
    exact ⟨rest, by rw [whole], closed.1, dotted⟩
  · cases found

theorem Opens.drop {s name rest : List Char} (opens : Opens ('\x7b' :: s) name rest) :
    s.drop (name.length + 1) = rest := by
  rw [(List.cons.inj opens.shape).2]
  simp

theorem Opens.paramAt? {s name rest : List Char} (opens : Opens ('\x7b' :: s) name rest) :
    paramAt? s = some name := by
  obtain ⟨shape, named, dotted⟩ := opens
  obtain rfl := (List.cons.inj shape).2
  have stops : Text.isDotted '\x7d' = false := by decide +kernel
  have taken : (name ++ '\x7d' :: rest).takeWhile Text.isDotted = name := by
    rw [List.takeWhile_append_of_pos dotted, List.takeWhile_cons, stops]
    simp
  have left : (name ++ '\x7d' :: rest).dropWhile Text.isDotted = '\x7d' :: rest := by
    rw [List.dropWhile_append_of_pos dotted, List.dropWhile_cons, stops]
    simp
  rw [Template.paramAt?, taken, left]
  exact if_pos ⟨named, rfl⟩

/-- What belongs to a parameter is passed over. -/
theorem piecesAfter_append (passed rest : List Char) :
    piecesAfter passed.length (passed ++ rest) = piecesAfter 0 rest := by
  induction passed with
  | nil => rfl
  | cons c passed ih => exact ih

theorem written_piecesAfter (skip : Nat) (s : List Char) :
    Written (s.drop skip) (piecesAfter skip s) := by
  -- character by character, since a parameter is passed over one character at a time
  induction s generalizing skip with
  | nil => simpa [piecesAfter] using Written.nothing
  | cons c rest ih =>
    cases skip with
    | succ skip => exact ih skip
    | zero =>
      rw [piecesAfter]
      split
      next name found =>
        split at found
        next brace =>
          subst brace
          obtain ⟨after, opens⟩ := exists_opens_of_paramAt? found
          have later := ih (name.length + 1)
          rw [opens.drop] at later
          exact .param opens later
        · cases found
      next none =>
        refine .char (fun name after opens => ?_) (ih 0)
        obtain rfl := (List.cons.inj opens.shape).1
        rw [if_pos rfl, opens.paramAt?] at none
        cases none

/-- A text has one reading, its pieces. -/
theorem written_iff {s : List Char} {ps : List Piece} : Written s ps ↔ piecesAfter 0 s = ps := by
  constructor
  · intro written
    induction written with
    | nothing => rfl
    | @param s name rest ps opens _ ih =>
      obtain rfl := opens.shape
      rw [piecesAfter, if_pos rfl, opens.paramAt?, ← ih]
      have passed := piecesAfter_append (name ++ ['\x7d']) rest
      rw [List.append_assoc, List.length_append] at passed
      exact congrArg (Piece.param name :: ·) passed
    | @char c rest ps plain _ ih =>
      have none : (if c = '\x7b' then paramAt? rest else none) = none := by
        split
        next brace =>
          subst brace
          refine Option.eq_none_iff_forall_ne_some.mpr fun name found => ?_
          obtain ⟨after, opens⟩ := exists_opens_of_paramAt? found
          exact plain name after opens
        · rfl
      rw [piecesAfter, none, ih]
  · rintro rfl
    exact written_piecesAfter 0 s

/-- The pieces of a text are all of it. -/
theorem Written.source {s : List Char} {ps : List Piece} (written : Written s ps) :
    ps.flatMap Piece.source = s := by
  induction written with
  | nothing => rfl
  | param opens _ ih => rw [List.flatMap_cons, ih, opens.shape, Piece.source]; simp
  | char _ _ ih => rw [List.flatMap_cons, ih]; rfl

/-! ### Filling a text in -/

theorem listsOnce_params (text : String) :
    ListsOnce (params text) ((pieces text).filterMap Piece.name?) :=
  listsOnce_eraseDups _

theorem mem_params {text : String} {name : List Char} (member : .param name ∈ pieces text) :
    String.ofList name ∈ params text :=
  List.mem_eraseDups.mpr (List.mem_filterMap.mpr ⟨_, member, rfl⟩)

theorem fill_congr {text : String} {value value' : String → Option String}
    (agree : ∀ name ∈ params text, value name = value' name) :
    fill value text = fill value' text := by
  unfold fill
  congr 1
  refine List.flatMap_congr fun piece member => ?_
  cases piece with
  | char c => rfl
  | param name => rw [Piece.fill, Piece.fill, agree _ (mem_params member)]

/-- A text without parameters stays as it is. -/
theorem fill_of_params_eq_nil {text : String} (none : params text = [])
    (value : String → Option String) : fill value text = text := by
  have all : (pieces text).flatMap (Piece.fill value) = (pieces text).flatMap Piece.source := by
    refine List.flatMap_congr fun piece member => ?_
    cases piece with
    | char c => rfl
    | param name =>
      have named := mem_params member
      rw [none] at named
      cases named
  have written : Written text.toList (pieces text) := written_iff.mpr rfl
  rw [fill, all, written.source, String.ofList_toList]

end Colloquy.Template
