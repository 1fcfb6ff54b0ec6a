import Colloquy.Json.Reader
import Colloquy.Json.Writer
import Colloquy.Proofs.Number.Decimal
/-!
# JSON numbers read back

A number that is written and followed by nothing that could belong to it reads back as it was: a whole
number by its digits, any other by the decimal that it is written as, whatever the layout.
-/

namespace Colloquy.Json

variable {bounds : Bounds} {negative : Bool} {digits whole places s rest rest' : List Char}

/-! ### The parts of a number -/

/-- What can follow a number without belonging to it. -/
def Apart (rest : List Char) : Prop :=
  ∀ c ∈ rest.head?, c.isDigit = false ∧ c ≠ '.' ∧ c ≠ 'e' ∧ c ≠ 'E'

theorem takeWhile_digits (all : ∀ c ∈ digits, c.isDigit = true)
    (stops : ∀ c ∈ rest.head?, c.isDigit = false) :
    (digits ++ rest).takeWhile Char.isDigit = digits
      ∧ (digits ++ rest).dropWhile Char.isDigit = rest := by
  rw [List.takeWhile_append_of_pos all, List.dropWhile_append_of_pos all]
  cases rest with
  | nil => exact ⟨List.append_nil _, rfl⟩
  | cons c rest =>
    have none : c.isDigit = false := stops c rfl
    rw [List.takeWhile_cons_of_neg (by rw [none]; exact Bool.noConfusion),
      List.dropWhile_cons_of_neg (by rw [none]; exact Bool.noConfusion)]
    exact ⟨List.append_nil _, rfl⟩

theorem readWhole_digits {c : Char} (all : ∀ d ∈ c :: digits, d.isDigit = true) (leads : c ≠ '0')
    (stops : ∀ d ∈ rest.head?, d.isDigit = false) :
    readWhole (c :: digits ++ rest) = some (c :: digits, rest) := by
  obtain ⟨taken, left⟩ := takeWhile_digits all stops
  rw [List.cons_append] at taken left ⊢
  rw [readWhole]
  · rw [if_pos (all c List.mem_cons_self), taken, left]
  · exact leads

theorem readPlaces_digits (all : ∀ c ∈ digits, c.isDigit = true) (nonempty : digits ≠ [])
    (stops : ∀ c ∈ rest.head?, c.isDigit = false) :
    readPlaces ('.' :: (digits ++ rest)) = some (digits, rest) := by
  obtain ⟨taken, left⟩ := takeWhile_digits all stops
  rw [readPlaces, taken, left, if_neg (by simpa using nonempty)]

theorem readPlaces_none (stops : ∀ c ∈ rest.head?, c ≠ '.') : readPlaces rest = none := by
  rw [readPlaces]
  rintro tail rfl
  exact stops '.' rfl rfl

theorem readPower_none (stops : ∀ c ∈ rest.head?, c ≠ 'e' ∧ c ≠ 'E') : readPower rest = none := by
  cases rest with
  | nil => rfl
  | cons c rest =>
    obtain ⟨small, large⟩ := stops c rfl
    rw [readPower, if_neg (by simp [small, large])]

theorem readPower_digits (minus : Bool) (all : ∀ c ∈ digits, c.isDigit = true)
    (nonempty : digits ≠ []) (stops : ∀ c ∈ rest.head?, c.isDigit = false) :
    readPower ('e' :: (if minus then '-' else '+') :: (digits ++ rest))
      = some (if minus then -(Text.numeralValue digits : Int) else Text.numeralValue digits, rest) := by
  have sign : Number.readSign ((if minus then '-' else '+') :: (digits ++ rest))
      = (minus, digits ++ rest) := by
    cases minus <;> rfl
  obtain ⟨taken, left⟩ := takeWhile_digits all stops
  rw [readPower, if_pos (by decide), sign]
  dsimp only
  rw [taken, left, if_neg (by simpa using nonempty)]

theorem readPower_exponentText (e : Int) (stops : ∀ c ∈ rest.head?, c.isDigit = false) :
    readPower (Number.exponentText e ++ rest) = some (e, rest) := by
  have written : ∃ digits, Number.exponentText e
        = 'e' :: (if decide (e < 0) then '-' else '+') :: digits
      ∧ digits ≠ [] ∧ (∀ c ∈ digits, c.isDigit = true) ∧ Text.numeralValue digits = e.natAbs := by
    refine ⟨_, by rw [Number.exponentText]; simp only [decide_eq_true_eq]; rfl, ?_⟩
    split
    · refine ⟨List.cons_ne_nil _ _, ?_, ?_⟩
      · exact List.forall_mem_cons.2 ⟨rfl, fun c member => Number.isDigit_toDigits member⟩
      · rw [← List.singleton_append, Text.numeralValue_append, Text.numeralValue_toDigits]
        change Text.numeralValue (List.replicate 1 '0') * _ + _ = _
        rw [Text.numeralValue_zeros, Nat.zero_mul, Nat.zero_add]
    · exact ⟨Nat.toDigits_ne_nil, fun c member => Number.isDigit_toDigits member,
        Text.numeralValue_toDigits _⟩
  obtain ⟨digits, text, nonempty, all, value⟩ := written
  have sign : (if decide (e < 0) then -(e.natAbs : Int) else e.natAbs) = e := by
    simp only [decide_eq_true_eq]
    omega
  rw [text, List.cons_append, List.cons_append, readPower_digits _ all nonempty stops, value, sign]

/-! ### Whole numbers and others -/

section

variable {e : Int} {last : List Char} (first : readWhole s = some (whole, rest))
  (short : whole.length ≤ Number.digitLimit)

include first short

/-- A number with places and perhaps an exponent. -/
theorem readNumber_places (second : readPlaces rest = some (places, rest'))
    (third : (readPower rest').getD (0, rest') = (e, last)) :
    readNumber bounds negative s = .ok (.float (Binary64.ofDecimal negative
      (Text.numeralValue (whole ++ places)) (e - places.length)), last) := by
  have within : decide (whole.length > Number.digitLimit) = false :=
    decide_eq_false (Nat.not_lt.2 short)
  rw [readNumber, first]
  dsimp only
  rw [within, Bool.false_and, if_neg Bool.false_ne_true, second]
  dsimp only
  rw [third]

/-- A number with an exponent alone. -/
theorem readNumber_power (second : readPlaces rest = none) (third : readPower rest = some (e, last)) :
    readNumber bounds negative s
      = .ok (.float (Binary64.ofDecimal negative (Text.numeralValue whole) e), last) := by
  have within : decide (whole.length > Number.digitLimit) = false :=
    decide_eq_false (Nat.not_lt.2 short)
  rw [readNumber, first]
  dsimp only
  rw [within, Bool.false_and, if_neg Bool.false_ne_true, second, third]

theorem readNumber_whole (apart : Apart rest) :
    readNumber bounds negative s = .ok (.int (if negative then -(Text.numeralValue whole : Int)
      else Text.numeralValue whole), rest) := by
  have within : decide (whole.length > Number.digitLimit) = false :=
    decide_eq_false (Nat.not_lt.2 short)
  have second := readPlaces_none fun c member => (apart c member).2.1
  have third := readPower_none fun c member => (apart c member).2.2
  rw [readNumber, first]
  dsimp only
  rw [within, Bool.false_and, if_neg Bool.false_ne_true, second, third]
  dsimp only
  rw [if_neg (Nat.not_lt.2 short)]

end

/-! ### Decimals, however they are laid out -/

theorem Apart.stops (apart : Apart rest) : ∀ c ∈ rest.head?, c.isDigit = false :=
  fun c member => (apart c member).1

/-- Digits on both sides of the point and no exponent. -/
theorem readNumber_point (first : readWhole s = some (whole, '.' :: (digits ++ rest)))
    (short : whole.length ≤ Number.digitLimit) (all : ∀ c ∈ digits, c.isDigit = true)
    (nonempty : digits ≠ []) (apart : Apart rest) :
    readNumber bounds negative s = .ok (.float (Binary64.ofDecimal negative
      (Text.numeralValue (whole ++ digits)) (-digits.length)), rest) := by
  have none := readPower_none fun c member => (apart c member).2.2
  have third : (readPower rest).getD (0, rest) = (0, rest) := by
    rw [none]
    rfl
  refine (readNumber_places first short (readPlaces_digits all nonempty apart.stops) third).trans ?_
  rw [Int.zero_sub]

section

variable {c : Char} (all : ∀ d ∈ c :: digits, d.isDigit = true) (leads : c ≠ '0')
  (apart : Apart rest)

include all leads apart

theorem readNumber_exponential (point : Int) (far : (point ≤ -4 || point > 16) = true) :
    readNumber bounds negative (Number.layOut (c :: digits) point ++ rest)
      = .ok (.float (Binary64.ofDecimal negative (Text.numeralValue (c :: digits))
          (point - (c :: digits).length)), rest) := by
  have digit : ∀ d ∈ [c], d.isDigit = true := by simpa using all c List.mem_cons_self
  have single : [c].length ≤ Number.digitLimit := by
    rw [List.length_singleton]
    decide
  have power := readPower_exponentText (point - 1) apart.stops
  unfold Number.layOut
  rw [if_pos far]
  dsimp only
  rw [List.append_assoc]
  -- a single digit is written without a point
  cases digits with
  | nil =>
    have first : readWhole ([c] ++ (Number.exponentText (point - 1) ++ rest))
        = some ([c], Number.exponentText (point - 1) ++ rest) :=
      readWhole_digits digit leads (by rintro d ⟨⟩; rfl)
    have places : readPlaces (Number.exponentText (point - 1) ++ rest) = none :=
      readPlaces_none (by rintro d ⟨⟩; decide)
    exact readNumber_power first single places power
  | cons d digits =>
    have first : readWhole ([c] ++ ('.' :: (d :: digits ++ (Number.exponentText (point - 1) ++ rest))))
        = some ([c], '.' :: (d :: digits ++ (Number.exponentText (point - 1) ++ rest))) :=
      readWhole_digits digit leads (by rintro d ⟨⟩; rfl)
    have places := readPlaces_digits (List.forall_mem_cons.1 all).2 (List.cons_ne_nil d digits)
      (show ∀ d ∈ (Number.exponentText (point - 1) ++ rest).head?, d.isDigit = false by
        rintro d ⟨⟩; rfl)
    have last : (readPower (Number.exponentText (point - 1) ++ rest)).getD
        (0, Number.exponentText (point - 1) ++ rest) = (point - 1, rest) := by
      rw [power]
      rfl
    refine (readNumber_places first single places last).trans ?_
    rw [List.singleton_append, List.length_cons (a := c)]
    congr 4
    omega

omit leads in
/-- Zeros between the point and the digits. -/
theorem readNumber_leadingZeros (zeros : Nat) :
    readNumber bounds negative ('0' :: '.' :: (List.replicate zeros '0' ++ c :: digits ++ rest))
      = .ok (.float (Binary64.ofDecimal negative (Text.numeralValue (c :: digits))
          (-((zeros + (c :: digits).length : Nat) : Int))), rest) := by
  have after : ∀ d ∈ List.replicate zeros '0' ++ c :: digits, d.isDigit = true := by
    intro d member
    obtain zero | digit := List.mem_append.1 member
    · rw [List.eq_of_mem_replicate zero]
      rfl
    · exact all d digit
  have first : readWhole ('0' :: '.' :: (List.replicate zeros '0' ++ c :: digits ++ rest))
      = some (['0'], '.' :: (List.replicate zeros '0' ++ c :: digits ++ rest)) := rfl
  have value : Text.numeralValue (['0'] ++ (List.replicate zeros '0' ++ c :: digits))
      = Text.numeralValue (c :: digits) := by
    rw [← List.append_assoc, Text.numeralValue_append]
    change Text.numeralValue (List.replicate (zeros + 1) '0') * _ + _ = _
    rw [Text.numeralValue_zeros, Nat.zero_mul, Nat.zero_add]
  refine (readNumber_point first (by decide) after (by simp) apart).trans ?_
  rw [value, List.length_append, List.length_replicate]

/-- Zeros between the digits and the point, and one after it. -/
theorem readNumber_trailingZeros (zeros : Nat)
    (short : (c :: digits).length + zeros ≤ Number.digitLimit) :
    readNumber bounds negative (c :: digits ++ List.replicate zeros '0' ++ ['.', '0'] ++ rest)
      = .ok (.float (Binary64.ofDecimal negative (Text.numeralValue (c :: digits)) zeros), rest) := by
  have whole : ∀ d ∈ c :: (digits ++ List.replicate zeros '0'), d.isDigit = true := by
    intro d member
    obtain digit | zero := List.mem_append.1
      (List.cons_append ▸ member : d ∈ c :: digits ++ List.replicate zeros '0')
    · exact all d digit
    · rw [List.eq_of_mem_replicate zero]
      rfl
  have first : readWhole (c :: (digits ++ List.replicate zeros '0') ++ '.' :: (['0'] ++ rest))
      = some (c :: (digits ++ List.replicate zeros '0'), '.' :: (['0'] ++ rest)) :=
    readWhole_digits whole leads (by rintro d ⟨⟩; rfl)
  have few : (c :: (digits ++ List.replicate zeros '0')).length ≤ Number.digitLimit := by
    rw [← List.cons_append, List.length_append, List.length_replicate]
    exact short
  have text : c :: digits ++ List.replicate zeros '0' ++ ['.', '0'] ++ rest
      = c :: (digits ++ List.replicate zeros '0') ++ '.' :: (['0'] ++ rest) := by simp
  have value : Text.numeralValue (c :: (digits ++ List.replicate zeros '0') ++ ['0'])
      = Text.numeralValue (c :: digits) * 10 ^ (zeros + 1) := by
    rw [← List.cons_append, List.append_assoc, Text.numeralValue_append]
    change _ * 10 ^ (List.replicate _ '0' ++ List.replicate 1 '0').length
      + Text.numeralValue (List.replicate _ '0' ++ List.replicate 1 '0') = _
    rw [List.replicate_append_replicate, Text.numeralValue_zeros, List.length_replicate, Nat.add_zero]
  have exponent : (-(['0'].length : Int)) = zeros - ((zeros + 1 : Nat) : Int) := by
    rw [List.length_singleton]
    omega
  rw [text, readNumber_point first few (by simp) (by simp) apart, value, exponent,
    Binary64.ofDecimal_shift]

/-- The point among the digits. -/
theorem readNumber_inside {m : Nat} (inside : m < digits.length) (short : m < Number.digitLimit) :
    readNumber bounds negative (c :: digits.take m ++ '.' :: (digits.drop m ++ rest))
      = .ok (.float (Binary64.ofDecimal negative (Text.numeralValue (c :: digits))
          (-((digits.length - m : Nat) : Int))), rest) := by
  have first : readWhole (c :: digits.take m ++ '.' :: (digits.drop m ++ rest))
      = some (c :: digits.take m, '.' :: (digits.drop m ++ rest)) := by
    refine readWhole_digits (List.forall_mem_cons.2 ⟨all c List.mem_cons_self, fun d member => ?_⟩)
      leads (by rintro d ⟨⟩; rfl)
    exact all d (List.mem_cons_of_mem c (List.mem_of_mem_take member))
  have few : (c :: digits.take m).length ≤ Number.digitLimit := by
    rw [List.length_cons, List.length_take]
    omega
  have after : ∀ d ∈ digits.drop m, d.isDigit = true := fun d member =>
    all d (List.mem_cons_of_mem c (List.mem_of_mem_drop member))
  have nonempty : digits.drop m ≠ [] := by
    rw [Ne, List.drop_eq_nil_iff]
    omega
  rw [readNumber_point first few after nonempty apart, List.cons_append, List.take_append_drop,
    List.length_drop]

/-- Wherever the point stands among the digits. -/
theorem readNumber_layOut (point : Int) :
    readNumber bounds negative (Number.layOut (c :: digits) point ++ rest)
      = .ok (.float (Binary64.ofDecimal negative (Text.numeralValue (c :: digits))
          (point - (c :: digits).length)), rest) := by
  by_cases far : (point ≤ -4 || point > 16) = true
  · exact readNumber_exponential all leads apart point far
  have near : -4 < point ∧ point ≤ 16 := by simpa using far
  have limit : Number.digitLimit = 4300 := rfl
  unfold Number.layOut
  rw [if_neg far]
  -- the point stands before the digits, after them, or among them
  split
  next low =>
    have exponent : point - (c :: digits).length
        = -(((-point).toNat + (c :: digits).length : Nat) : Int) := by omega
    rw [exponent]
    exact readNumber_leadingZeros all apart (-point).toNat
  next high =>
    dsimp only
    split
    next short =>
      have exponent : point - (c :: digits).length
          = ((point.toNat - (c :: digits).length : Nat) : Int) := by omega
      rw [exponent]
      exact readNumber_trailingZeros all leads apart _ (by omega)
    next long =>
      obtain ⟨m, places⟩ : ∃ m, point.toNat = m + 1 := ⟨point.toNat - 1, by omega⟩
      rw [List.length_cons] at long
      have exponent : point - (c :: digits).length = -((digits.length - m : Nat) : Int) := by
        rw [List.length_cons]
        omega
      rw [exponent, places, List.take_succ_cons, List.drop_succ_cons, List.append_assoc,
        List.cons_append]
      exact readNumber_inside all leads apart (by omega) (by omega)

end

/-! ### Written numbers -/

theorem readNumber_natural {n : Nat} (short : n < 10 ^ Number.digitLimit) (apart : Apart rest) :
    readNumber bounds negative (Nat.toDigits 10 n ++ rest)
      = .ok (.int (if negative then -(n : Int) else n), rest) := by
  have few : (Nat.toDigits 10 n).length ≤ Number.digitLimit :=
    (Nat.length_toDigits_le_iff (by omega) (by decide)).2 short
  have first : readWhole (Nat.toDigits 10 n ++ rest) = some (Nat.toDigits 10 n, rest) := by
    by_cases zero : n = 0
    · rw [zero, Nat.toDigits_zero]
      rfl
    · obtain ⟨c, digits, written, leads⟩ := Number.head_toDigits zero
      rw [written]
      refine readWhole_digits (fun d member => Number.isDigit_toDigits (n := n) ?_) leads apart.stops
      rw [written]
      exact member
  rw [readNumber_whole first few apart, Text.numeralValue_toDigits]

/-- A decimal is read as the number that it reads as. -/
theorem readNumber_decimal {d : Number.Decimal} (nonzero : d.digits ≠ 0) (apart : Apart rest) :
    readNumber bounds negative (d.text ++ rest) = .ok (.float (d.toBinary64 negative), rest) := by
  have split := Number.dropZeros_append (Nat.toDigits 10 d.digits)
  have value := Text.numeralValue_toDigits d.digits
  obtain ⟨c, tail, written, leads⟩ := Number.head_toDigits nonzero
  rw [Number.Decimal.text]
  generalize Number.dropZeros (Nat.toDigits 10 d.digits) = dropped at split ⊢
  obtain ⟨kept, zeros⟩ := dropped
  dsimp only at split ⊢
  cases kept with
  | nil =>
    -- nothing but zeros
    rw [List.nil_append, written] at split
    cases zeros with
    | zero => cases split
    | succ zeros => exact absurd (List.cons.inj split).1.symm leads
  | cons c' kept =>
    have leads' : c' ≠ '0' := by
      rw [written, List.cons_append] at split
      exact (List.cons.inj split).1 ▸ leads
    have all : ∀ a ∈ c' :: kept, a.isDigit = true := fun a member =>
      Number.isDigit_toDigits (split ▸ List.mem_append_left _ member)
    rw [← split, Text.numeralValue_append, Text.numeralValue_zeros, Nat.add_zero,
      List.length_replicate] at value
    rw [readNumber_layOut all leads' apart, Number.Decimal.toBinary64, ← value,
      ← Binary64.ofDecimal_shift negative (Text.numeralValue (c' :: kept)) _ zeros]
    congr 4
    omega

/-- What a finite number is written as, after its sign. -/
theorem readNumber_finite {units : Nat} (fits : Representable units) (apart : Apart rest) :
    readNumber bounds negative ((if units = 0 then ['0', '.', '0']
        else (Number.shortest units (.finite false units fits)).text) ++ rest)
      = .ok (.float (.finite negative units fits), rest) := by
  split
  next zero =>
    subst zero
    have first : readWhole (['0', '.', '0'] ++ rest) = some (['0'], '.' :: (['0'] ++ rest)) := rfl
    exact readNumber_point first (by decide) (by simp) (by simp) apart
  next nonzero =>
    have reads := Number.shortest_reads fits nonzero
    have digits : (Number.shortest units (.finite false units fits)).digits ≠ 0 := by
      intro none
      rw [Number.Decimal.toBinary64, none] at reads
      injection reads with _ zero
      exact nonzero zero.symm
    rw [readNumber_decimal digits apart, Number.Decimal.toBinary64,
      Binary64.ofDecimal_signed reads]

end Colloquy.Json
