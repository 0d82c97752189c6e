import TeenyBasic.Proofs.PrintedNumbers
import TeenyBasic.Proofs.WholeDoubles

/-!
# The shape of printed numbers

A magnitude is printed as a whole part, perhaps a fraction and perhaps an exponent, none of them
with superfluous zeros (`Number.Shape`).  Which of the three are there depends on the magnitude
alone: `Number.exists_shape_written` says so for every finite double.
-/

namespace TeenyBasic

namespace Number

/-- Digits with no superfluous zero in front of them. -/
structure IsWholeText (digits : List Char) : Prop where
  ne_nil : digits ≠ []
  isDigit : ∀ character ∈ digits, character.isDigit = true
  leading : digits.head? = some '0' → digits = ['0']

/-- The parts of the text of a magnitude. -/
structure Shape where
  whole : List Char
  /-- The digits behind the point; without them there is no point. -/
  fraction : List Char
  /-- Whether the exponent is negative, and its digits. -/
  exponent : Option (Bool × List Char)
  isWholeText : IsWholeText whole
  isDigit : ∀ character ∈ fraction, character.isDigit = true
  trimmed : fraction.getLast? ≠ some '0'
  unpadded : ∀ negative digits, exponent = some (negative, digits) →
    IsWholeText digits ∧ digits ≠ ['0']

namespace Shape

def exponentText : Option (Bool × List Char) → List Char
  | none => []
  | some (negative, digits) => 'e' :: (if negative then '-' else '+') :: digits

def exponentOf : Option (Bool × List Char) → ℤ
  | none => 0
  | some (negative, digits) => if negative then -digitsValue digits else digitsValue digits

def text (shape : Shape) : List Char :=
  shape.whole ++ (if shape.fraction = [] then [] else '.' :: shape.fraction) ++
    exponentText shape.exponent

def value (shape : Shape) : ℚ :=
  digitsValue (shape.whole ++ shape.fraction) *
    10 ^ (exponentOf shape.exponent - shape.fraction.length)

end Shape

theorem digitChar_ne_zero {digit : ℕ} (small : digit < 10) (nonzero : digit ≠ 0) :
    digit.digitChar ≠ '0' := by
  have all : ∀ digit < 10, digit ≠ 0 → digit.digitChar ≠ '0' := by decide
  exact all digit small nonzero

private theorem getLast?_wholeDigits (number : ℕ) :
    (wholeDigits number).getLast? = some (number % 10).digitChar := by
  rcases Nat.lt_or_ge number 10 with single | several
  · rw [wholeDigits, Nat.toDigits_of_lt_base single, Nat.mod_eq_of_lt single]
    rfl
  · rw [wholeDigits, Nat.toDigits_of_base_le (by decide) several, List.getLast?_concat]

theorem head?_wholeDigits_ne_zero {number : ℕ} (positive : 0 < number) :
    (wholeDigits number).head? ≠ some '0' := by
  induction number using Nat.strong_induction_on with
  | h number induction =>
    rcases Nat.lt_or_ge number 10 with single | several
    · rw [wholeDigits, Nat.toDigits_of_lt_base single, List.head?_cons, ne_eq, Option.some_inj]
      exact digitChar_ne_zero single positive.ne'
    · have front := induction (number / 10) (by omega) (by omega)
      rw [wholeDigits, Nat.toDigits_of_base_le (by decide) several,
        List.head?_append_of_ne_nil _ Nat.toDigits_ne_nil]
      exact front

theorem isWholeText_wholeDigits (number : ℕ) : IsWholeText (wholeDigits number) where
  ne_nil := wholeDigits_ne_nil number
  isDigit _ := isDigit_of_mem_wholeDigits
  leading zero := by
    rcases Nat.eq_zero_or_pos number with rfl | positive
    · rfl
    · exact absurd zero (head?_wholeDigits_ne_zero positive)

private theorem wholeDigits_ne_zero {number : ℕ} (positive : 0 < number) :
    wholeDigits number ≠ ['0'] := by
  intro equal
  have front := head?_wholeDigits_ne_zero positive
  rw [equal] at front
  exact front rfl

theorem getLast?_ne_zero {number : ℕ} (trimmed : number % 10 ≠ 0) :
    (wholeDigits number).getLast? ≠ some '0' := by
  rw [getLast?_wholeDigits, ne_eq, Option.some_inj]
  exact digitChar_ne_zero (Nat.mod_lt _ (by decide)) trimmed

/-- A text is a numeral of one value only. -/
theorem Numeral.value_unique {text : List Char} {value value' : ℚ} (numeral : Numeral text value)
    (numeral' : Numeral text value') : value = value' := by
  obtain ⟨decimal, reads, rfl⟩ := numeral.reads
  obtain ⟨decimal', reads', rfl⟩ := numeral'.reads
  rw [reads, Option.some_inj] at reads'
  rw [reads']

namespace Shape

private theorem tail_exponentText (shape : Shape) :
    Tail (exponentText shape.exponent) (exponentOf shape.exponent) := by
  cases exponent_eq : shape.exponent with
  | none => exact tail_nil
  | some part =>
    obtain ⟨negative, digits⟩ := part
    have unpadded := (shape.unpadded negative digits exponent_eq).1
    exact tail_exponent unpadded.ne_nil unpadded.isDigit negative

/-- The text of a shape is read as its value. -/
theorem numeral (shape : Shape) : Numeral shape.text shape.value := by
  have nonempty := shape.isWholeText.ne_nil
  have inside := shape.isWholeText.isDigit
  have behind := shape.tail_exponentText
  unfold text value
  split
  · next noPoint =>
    rw [noPoint, List.append_nil, List.length_nil, Nat.cast_zero, sub_zero]
    exact numeral_whole nonempty inside behind
  · rw [List.append_assoc, List.cons_append]
    exact numeral_fraction shape.fraction nonempty
      (List.forall_mem_append.mpr ⟨inside, shape.isDigit⟩) behind

end Shape

private theorem exists_shape_wholeDigits (number : ℕ) :
    ∃ shape : Shape, shape.text = wholeDigits number ∧ shape.fraction = [] ∧
      shape.exponent = none := by
  refine ⟨⟨wholeDigits number, [], none, isWholeText_wholeDigits number, ?_, ?_, ?_⟩, ?_, rfl,
    rfl⟩
  · intro character member
    cases member
  · nofun
  · nofun
  · rw [Shape.text, if_pos rfl, List.append_nil]
    exact List.append_nil _

/-- On the console an exponent is not padded. -/
theorem exponentPart_consoleLayout (exponent : ℤ) :
    exponentPart consoleLayout exponent =
      Shape.exponentText (some (decide (exponent < 0), wholeDigits exponent.natAbs)) := by
  have width : consoleLayout.exponentWidth - (wholeDigits exponent.natAbs).length = 0 :=
    Nat.sub_eq_zero_of_le Nat.length_toDigits_pos
  simp only [exponentPart, Shape.exponentText, width, List.replicate_zero, List.cons_append,
    List.nil_append, decide_eq_true_eq]

section Decimals

variable {decimal : Decimal} (trimmed : decimal.digits % 10 ≠ 0)
include trimmed

private theorem exists_shape_positional (down : decimal.exponent < 0) :
    ∃ shape : Shape, shape.text = positional consoleLayout decimal ∧ shape.fraction ≠ [] ∧
      shape.exponent = none := by
  have isWhole := isWholeText_wholeDigits decimal.digits
  have last := getLast?_ne_zero trimmed
  have positive : 0 < decimal.digits := by omega
  have front := head?_wholeDigits_ne_zero positive
  unfold positional
  dsimp only
  rw [if_neg (by omega)]
  have places_pos : 0 < (-decimal.exponent).toNat := by omega
  generalize (-decimal.exponent).toNat = places at *
  generalize wholeDigits decimal.digits = digits at *
  split
  · next short =>
    have before : digits.take (digits.length - places) ≠ [] := by
      rw [← List.length_pos_iff, List.length_take]
      omega
    have after : digits.drop (digits.length - places) ≠ [] := by
      rw [← List.length_pos_iff, List.length_drop]
      omega
    refine ⟨⟨digits.take (digits.length - places), digits.drop (digits.length - places), none,
      ⟨before, ?_, ?_⟩, ?_, ?_, ?_⟩, ?_, after, rfl⟩
    · intro character member
      exact isWhole.isDigit character (List.mem_of_mem_take member)
    · intro zero
      rw [List.head?_take, if_neg (by omega)] at zero
      exact absurd zero front
    · intro character member
      exact isWhole.isDigit character (List.mem_of_mem_drop member)
    · rw [List.getLast?_drop, if_neg (by omega)]
      exact last
    · nofun
    · rw [Shape.text, if_neg after]
      exact List.append_nil _
  · next long =>
    refine ⟨⟨['0'], List.replicate (places - digits.length) '0' ++ digits, none,
      ⟨List.cons_ne_nil _ _, ?_, fun _ => rfl⟩, ?_, ?_, ?_⟩, ?_, ?_, rfl⟩
    · intro character member
      rw [List.mem_singleton.mp member]
      rfl
    · intro character member
      rcases List.mem_append.mp member with member | member
      · exact isDigit_of_mem_replicate member
      · exact isWhole.isDigit character member
    · rw [List.getLast?_append_of_ne_nil _ isWhole.ne_nil]
      exact last
    · nofun
    · rw [Shape.text, if_neg (List.append_ne_nil_of_right_ne_nil _ isWhole.ne_nil)]
      exact List.append_nil _
    · exact List.append_ne_nil_of_right_ne_nil _ isWhole.ne_nil

private theorem exists_shape_scientific (leading : leadingExponent decimal ≠ 0) :
    ∃ shape : Shape, shape.text = scientific consoleLayout decimal ∧
      shape.exponent.isSome = true ∧ shape.whole.length = 1 ∧ shape.whole ≠ ['0'] := by
  have isWhole := isWholeText_wholeDigits decimal.digits
  have last := getLast?_ne_zero trimmed
  have front := head?_wholeDigits_ne_zero (show 0 < decimal.digits by omega)
  have nonzero : 0 < (leadingExponent decimal).natAbs := by omega
  unfold scientific mantissaText
  rw [exponentPart_consoleLayout]
  generalize wholeDigits decimal.digits = digits at *
  cases digits with
  | nil => exact absurd rfl isWhole.ne_nil
  | cons first rest =>
    have first_ne : first ≠ '0' := fun equal => front (congrArg some equal)
    refine ⟨⟨[first], rest, some (decide (leadingExponent decimal < 0),
      wholeDigits (leadingExponent decimal).natAbs), ⟨List.cons_ne_nil _ _, ?_, ?_⟩, ?_, ?_, ?_⟩,
      ?_, rfl, rfl, ?_⟩
    · intro character member
      rw [List.mem_singleton.mp member]
      exact isWhole.isDigit first List.mem_cons_self
    · intro zero
      exact absurd (Option.some.inj zero) first_ne
    · intro character member
      exact isWhole.isDigit character (List.mem_cons_of_mem first member)
    · cases rest with
      | nil => nofun
      | cons second rest => exact last
    · rintro negative digits equal
      cases equal
      exact ⟨isWholeText_wholeDigits _, wholeDigits_ne_zero nonzero⟩
    · cases rest with
      | nil => rfl
      | cons second rest => rfl
    · intro equal
      exact first_ne (List.cons.inj equal).1

end Decimals

theorem le_leadingExponent_iff {decimal : Decimal} (positive : 0 < decimal.digits) (place : ℤ) :
    place ≤ leadingExponent decimal ↔ 10 ^ place ≤ decimal.value := by
  have ten_gt : (1 : ℚ) < 10 := by norm_num
  have le_value := Decimal.le_value positive
  have value_lt := decimal.value_lt
  constructor
  · intro le
    exact (zpow_le_zpow_right₀ ten_gt.le le).trans le_value
  · intro le
    have place_lt := (zpow_lt_zpow_iff_right₀ ten_gt).mp (le.trans_lt value_lt)
    rw [leadingExponent]
    omega

section Order

variable {number : ℚ} {mantissa mantissa' : ℕ} {exponent exponent' : ℤ}
  (stored : Stored mantissa exponent) (stored' : Stored mantissa' exponent')
  (rounds : RoundsTo number mantissa exponent)
include stored stored' rounds

/-- A number that rounds to less than a magnitude lies below its interval. -/
theorem RoundsTo.le_of_lt (full : 2 ^ 52 < mantissa')
    (less : (mantissa : ℚ) * 2 ^ exponent < mantissa' * 2 ^ exponent') :
    2 * number ≤ (2 * mantissa' - 1) * 2 ^ exponent' := by
  have le_high := rounds.le_high_half
  rcases lt_trichotomy exponent exponent' with below | rfl | above
  · have short : (mantissa : ℚ) + 1 ≤ 2 ^ 53 := by exact_mod_cast stored.mantissa_lt
    have long : (2 : ℚ) ^ 52 + 1 ≤ mantissa' := by exact_mod_cast full
    have power_pos := two_zpow_pos exponent
    calc
      2 * number ≤ (2 * mantissa + 1) * 2 ^ exponent := le_high
      _ ≤ 2 ^ 53 * (2 ^ exponent * 2) := by nlinarith
      _ = 2 ^ 53 * 2 ^ (exponent + 1) := by rw [zpow_add_one₀ two_ne_zero]
      _ ≤ (2 * mantissa' - 1) * 2 ^ exponent' := by
        have power_le : (2 : ℚ) ^ (exponent + 1) ≤ 2 ^ exponent' :=
          zpow_le_zpow_right₀ one_le_two (by omega)
        have power_pos' := two_zpow_pos exponent'
        nlinarith
  · have power_pos := two_zpow_pos exponent
    have mantissa_lt := lt_of_mul_lt_mul_right less power_pos.le
    have mantissa_le : (mantissa : ℚ) + 1 ≤ mantissa' := by exact_mod_cast mantissa_lt
    nlinarith
  · exact absurd (stored'.lt_of_exponent_lt stored above) less.asymm

/-- A number that rounds to more than a magnitude lies above its interval. -/
theorem RoundsTo.ge_of_gt (more : (mantissa' : ℚ) * 2 ^ exponent' < mantissa * 2 ^ exponent) :
    (2 * mantissa' + 1) * 2 ^ exponent' ≤ 2 * number := by
  rcases lt_trichotomy exponent exponent' with below | rfl | above
  · exact absurd (stored.lt_of_exponent_lt stored' below) more.asymm
  · have low_le := rounds.low_le_half
    have power_pos := two_zpow_pos exponent
    have mantissa_lt := lt_of_mul_lt_mul_right more power_pos.le
    have mantissa_le : (mantissa' : ℚ) + 1 ≤ mantissa := by exact_mod_cast mantissa_lt
    nlinarith
  · -- Just above a power of two the interval reaches down by a quarter only.
    have least := stored'.leastExponent_le
    have full : 2 ^ 52 ≤ mantissa := stored.normal.resolve_right (by omega)
    have low : (2 : ℚ) ^ 54 - 1 ≤ 4 * mantissa - quartersBelow mantissa exponent := by
      rcases full.eq_or_lt with rfl | longer
      · have quarter : quartersBelow (2 ^ 52) exponent = 1 := by
          rw [quartersBelow, decide_eq_true (show leastExponent < exponent by omega)]
          rfl
        rw [quarter]
        norm_num
      · have quarters : (quartersBelow mantissa exponent : ℚ) ≤ 2 := by
          exact_mod_cast quartersBelow_le mantissa exponent
        have long : (2 : ℚ) ^ 52 + 1 ≤ mantissa := by exact_mod_cast longer
        linarith
    have short : (mantissa' : ℚ) + 1 ≤ 2 ^ 53 := by exact_mod_cast stored'.mantissa_lt
    have power_le : (2 : ℚ) ^ exponent' * 2 ≤ 2 ^ exponent := by
      rw [← zpow_add_one₀ two_ne_zero]
      exact zpow_le_zpow_right₀ one_le_two (by omega)
    have power_pos := two_zpow_pos exponent'
    have low_le := rounds.low_le
    calc
      (2 * mantissa' + 1) * (2 : ℚ) ^ exponent' ≤ (2 ^ 54 - 1) * 2 ^ exponent / 2 := by nlinarith
      _ ≤ 2 * number := by nlinarith

end Order

theorem Stored.unique {mantissa mantissa' : ℕ} {exponent exponent' : ℤ}
    (stored : Stored mantissa exponent) (stored' : Stored mantissa' exponent')
    (equal : (mantissa : ℚ) * 2 ^ exponent = mantissa' * 2 ^ exponent') :
    mantissa = mantissa' ∧ exponent = exponent' := by
  rcases lt_trichotomy exponent exponent' with below | rfl | above
  · exact absurd equal (stored.lt_of_exponent_lt stored' below).ne
  · have cancelled := mul_right_cancel₀ (two_zpow_pos exponent).ne' equal
    exact ⟨by exact_mod_cast cancelled, rfl⟩
  · exact absurd equal.symm (stored'.lt_of_exponent_lt stored above).ne

/-- Shortest decimals are on the same side of a power of ten as their magnitudes are of the double
next to it, if this double is printed as the power itself. -/
theorem pow_le_shortest_iff {mantissa mantissa' : ℕ} {exponent exponent' power : ℤ}
    (stored : Stored mantissa exponent) (positive : 0 < mantissa)
    (stored' : Stored mantissa' exponent') (full : 2 ^ 52 < mantissa')
    (printed : shortest mantissa' exponent' = ⟨1, power⟩)
    (low_lt : (2 * mantissa' - 1) * 2 ^ exponent' < 2 * (10 : ℚ) ^ power)
    (lt_high : 2 * (10 : ℚ) ^ power < (2 * mantissa' + 1) * 2 ^ exponent') :
    10 ^ power ≤ (shortest mantissa exponent).value ↔
      (mantissa' : ℚ) * 2 ^ exponent' ≤ mantissa * 2 ^ exponent := by
  have rounds := roundsTo_shortest positive exponent
  rcases lt_trichotomy ((mantissa : ℚ) * 2 ^ exponent) (mantissa' * 2 ^ exponent') with
    less | equal | more
  · have value_le := rounds.le_of_lt stored stored' full less
    exact iff_of_false (by linarith) less.not_ge
  · obtain ⟨rfl, rfl⟩ := stored.unique stored' equal
    refine iff_of_true ?_ le_rfl
    rw [printed, Decimal.value, Nat.cast_one, one_mul]
  · have le_value := rounds.ge_of_gt stored stored' more
    exact iff_of_true (by linarith) more.le

/-- The magnitude of a finite double as an exact number. -/
def magnitude (value : Float) : ℚ :=
  match parts value with
  | .finite _ mantissa exponent => mantissa * 2 ^ exponent
  | _ => 0

def millionth : Float :=
  Decimal.toFloat ⟨1, -6⟩ false

theorem magnitude_of_parts {value : Float} {negative : Bool} {mantissa : ℕ} {exponent : ℤ}
    (parts_eq : parts value = .finite negative mantissa exponent) :
    magnitude value = mantissa * 2 ^ exponent := by
  rw [magnitude, parts_eq]

theorem magnitude_millionth : magnitude millionth = (4722366482869645 : ℕ) * 2 ^ (-72 : ℤ) := by
  have parts_eq : parts millionth = .finite false 4722366482869645 (-72) := by decide +kernel
  exact magnitude_of_parts parts_eq

private theorem negative_of_parts {value : Float} {negative : Bool} {mantissa : ℕ} {exponent : ℤ}
    (parts_eq : parts value = .finite negative mantissa exponent) :
    negative = decide (2 ^ 63 ≤ value.toBits.toNat) := by
  unfold parts at parts_eq
  simp only [Nat.pow_eq] at parts_eq
  split at parts_eq
  · split at parts_eq <;> cases parts_eq
  · split at parts_eq
    · cases parts_eq
      rfl
    · cases parts_eq
      rfl

theorem parts_of_isFinite {value : Float} (finite : value.isFinite = true) :
    ∃ mantissa exponent, Stored mantissa exponent ∧
      parts value = .finite (decide (2 ^ 63 ≤ value.toBits.toNat)) mantissa exponent := by
  have numeric : value.isNaN = false := by
    change value.toModel.unpack.isFinite = true at finite
    change value.toModel.unpack.isNaN = false
    generalize value.toModel.unpack = unpacked at *
    cases unpacked with
    | notANumber => cases finite
    | _ => rfl
  rcases parts_cases numeric with
    ⟨negative, -, value_eq⟩ | ⟨negative, mantissa, exponent, parts_eq, stored, -⟩
  · rw [value_eq] at finite
    cases negative with
    | false => exact absurd finite (by decide +kernel)
    | true => exact absurd finite (by decide +kernel)
  · refine ⟨mantissa, exponent, stored, ?_⟩
    rw [negative_of_parts parts_eq] at parts_eq
    exact parts_eq

theorem isFinite_of_parts {value : Float} {mantissa : ℕ} {exponent : ℤ}
    (finite : parts value = .finite false mantissa exponent) : value.isFinite = true := by
  obtain ⟨-, zero, nonzero⟩ := unpack_of_parts finite
  change value.toModel.unpack.isFinite = true
  rcases Nat.eq_zero_or_pos mantissa with empty | positive
  · rw [zero empty]
    rfl
  · rw [nonzero positive]
    rfl

section Magnitudes

variable {mantissa : ℕ} {exponent : ℤ}

/-- A magnitude is written with an exponent from 10^21 on and below a millionth. -/
theorem positional_iff (stored : Stored mantissa exponent) (positive : 0 < mantissa) :
    (-6 ≤ leadingExponent (shortest mantissa exponent) ∧
        leadingExponent (shortest mantissa exponent) < 21) ↔
      magnitude millionth ≤ mantissa * 2 ^ exponent ∧ (mantissa : ℚ) * 2 ^ exponent < 10 ^ 21 := by
  have digits_pos := Decimal.digits_pos ((roundsTo_shortest positive exponent).pos positive)
  have lower := pow_le_shortest_iff stored positive
    (show Stored 4722366482869645 (-72) from ⟨by decide, by decide, by decide, .inl (by decide)⟩)
    (by decide) (show shortest 4722366482869645 (-72) = ⟨1, -6⟩ by decide +kernel) (by norm_num)
    (by norm_num)
  have upper := pow_le_shortest_iff stored positive
    (show Stored 7629394531250000 17 from ⟨by decide, by decide, by decide, .inl (by decide)⟩)
    (by decide) (show shortest 7629394531250000 17 = ⟨1, 21⟩ by decide +kernel) (by norm_num)
    (by norm_num)
  have upper_eq : ((7629394531250000 : ℕ) : ℚ) * 2 ^ (17 : ℤ) = 10 ^ 21 := by norm_num
  rw [← magnitude_millionth, ← le_leadingExponent_iff digits_pos] at lower
  rw [upper_eq, ← le_leadingExponent_iff digits_pos, ← not_lt, ← not_lt, not_iff_not] at upper
  rw [lower, upper]

/-- The parts that a shape has are those that the magnitude asks for. -/
structure Shape.Fits (shape : Shape) (number : ℚ) : Prop where
  exponent_iff : shape.exponent.isSome = true ↔
    10 ^ 21 ≤ number ∨ 0 < number ∧ number < magnitude millionth
  single : shape.exponent.isSome = true → shape.whole.length = 1 ∧ shape.whole ≠ ['0']
  point_iff : shape.exponent = none → (shape.fraction ≠ [] ↔ ∀ whole : ℕ, number ≠ whole)

/-- A whole number below 10^21 has neither a point nor an exponent. -/
theorem exists_fits_whole {number : ℕ} (small : number < 10 ^ 21) :
    ∃ shape : Shape, shape.text = wholeDigits number ∧ shape.Fits number := by
  obtain ⟨shape, text_eq, fraction_eq, exponent_eq⟩ := exists_shape_wholeDigits number
  have small' : (number : ℚ) < 10 ^ 21 := by exact_mod_cast small
  refine ⟨shape, text_eq, ?_, ?_, ?_⟩
  · rw [exponent_eq]
    refine iff_of_false nofun ?_
    rintro (large | ⟨positive, less⟩)
    · exact small'.not_ge large
    · have one_le : (1 : ℚ) ≤ number := by exact_mod_cast Nat.cast_pos.mp positive
      have below_one : magnitude millionth < 1 := by
        rw [magnitude_millionth]
        norm_num
      linarith
  · rw [exponent_eq]
    nofun
  · intro _
    rw [fraction_eq]
    exact iff_of_false (fun nonempty => nonempty rfl) fun broken => broken number rfl

/-- What is laid out by the shortest decimal: a broken number, or one from 10^21 on. -/
theorem exists_fits_layOut (stored : Stored mantissa exponent) (positive : 0 < mantissa)
    (broken : (mantissa : ℚ) * 2 ^ exponent < 10 ^ 21 → whole? mantissa exponent = none) :
    ∃ shape : Shape, shape.text = layOut consoleLayout (shortest mantissa exponent) ∧
      shape.Fits (mantissa * 2 ^ exponent) := by
  have trimmed := digits_shortest_mod_ten positive exponent
  have bounds := positional_iff stored positive
  have magnitude_pos : (0 : ℚ) < mantissa * 2 ^ exponent :=
    mul_pos (by exact_mod_cast positive) (two_zpow_pos exponent)
  unfold layOut
  dsimp only
  split
  · next inside =>
    rw [Bool.and_eq_true, decide_eq_true_eq, decide_eq_true_eq] at inside
    obtain ⟨millionth_le, small⟩ := bounds.mp inside
    have notWhole := not_roundsTo_of_whole?_eq_none (broken small)
    have down := exponent_shortest_neg positive (broken small)
    obtain ⟨shape, text_eq, fraction_ne, exponent_eq⟩ := exists_shape_positional trimmed down
    refine ⟨shape, text_eq, ?_, ?_, ?_⟩
    · rw [exponent_eq]
      refine iff_of_false nofun ?_
      rintro (large | ⟨-, less⟩)
      · exact small.not_ge large
      · exact less.not_ge millionth_le
    · rw [exponent_eq]
      nofun
    · intro _
      refine iff_of_true fraction_ne fun whole equal => notWhole whole ?_
      rw [← equal]
      exact roundsTo_self mantissa exponent
  · next outside =>
    rw [Bool.and_eq_true, decide_eq_true_eq, decide_eq_true_eq] at outside
    have leading : leadingExponent (shortest mantissa exponent) ≠ 0 := by
      intro zero
      rw [zero] at outside
      exact outside (by decide)
    obtain ⟨shape, text_eq, exponent_isSome, single⟩ := exists_shape_scientific trimmed leading
    refine ⟨shape, text_eq, ?_, fun _ => single, ?_⟩
    · refine iff_of_true exponent_isSome ?_
      by_contra ordinary
      push Not at ordinary
      exact outside (bounds.mpr ⟨ordinary.2 magnitude_pos, ordinary.1⟩)
    · intro noExponent
      rw [noExponent] at exponent_isSome
      cases exponent_isSome

theorem exists_fits_magnitudeText (stored : Stored mantissa exponent) :
    ∃ shape : Shape, shape.text = magnitudeText mantissa exponent ∧
      shape.Fits (mantissa * 2 ^ exponent) := by
  rcases Nat.eq_zero_or_pos mantissa with rfl | positive
  · rw [magnitudeText_zero, Nat.cast_zero, zero_mul]
    exact_mod_cast exists_fits_whole (show 0 < 10 ^ 21 by decide)
  · rcases magnitudeText_cases positive exponent with
      ⟨number, found, small, text_eq⟩ | ⟨broken, text_eq⟩
    · rw [text_eq, ← cast_whole? found]
      exact exists_fits_whole small
    · rw [text_eq]
      exact exists_fits_layOut stored positive broken

/-- The number that is written rounds to the magnitude. -/
theorem Shape.roundsTo_of_text_eq {shape : Shape}
    (text_eq : shape.text = magnitudeText mantissa exponent) :
    RoundsTo shape.value mantissa exponent := by
  have numeral := shape.numeral
  rw [text_eq] at numeral
  rcases Nat.eq_zero_or_pos mantissa with rfl | positive
  · have zero := roundsTo_self 0 exponent
    rw [magnitudeText_zero] at numeral
    rwa [Nat.cast_zero, zero_mul, ← Nat.cast_zero,
      (numeral_wholeDigits 0).value_unique numeral] at zero
  · obtain ⟨number, numeral', rounds⟩ := exists_numeral_magnitudeText positive exponent
    rwa [numeral'.value_unique numeral] at rounds

end Magnitudes

/-- A finite double is printed with a sign if its sign bit is set, and then as a shape that fits
its magnitude and whose number rounds to it. -/
theorem exists_shape_written {value : Float} (finite : value.isFinite = true) :
    ∃ shape : Shape,
      (written value).toList = signText (decide (2 ^ 63 ≤ value.toBits.toNat)) ++ shape.text ∧
      shape.Fits (magnitude value) ∧
      ∃ mantissa exponent,
        parts value = .finite (decide (2 ^ 63 ≤ value.toBits.toNat)) mantissa exponent ∧
        RoundsTo shape.value mantissa exponent := by
  obtain ⟨mantissa, exponent, stored, parts_eq⟩ := parts_of_isFinite finite
  obtain ⟨shape, text_eq, fits⟩ := exists_fits_magnitudeText stored
  refine ⟨shape, ?_, ?_, mantissa, exponent, parts_eq, shape.roundsTo_of_text_eq text_eq⟩
  · rw [written, parts_eq, String.toList_ofList, text_eq]
  · rw [magnitude_of_parts parts_eq]
    exact fits

/-- A negative number below a millionth. -/
theorem exists_shape_written_small :
    (Decimal.toFloat ⟨15, -8⟩ true).isFinite = true ∧
      ∃ shape : Shape, "-1.5e-7".toList = signText true ++ shape.text ∧
        shape.Fits (magnitude (Decimal.toFloat ⟨15, -8⟩ true)) := by
  have finite : (Decimal.toFloat ⟨15, -8⟩ true).isFinite = true := by decide +kernel
  have text_eq : written (Decimal.toFloat ⟨15, -8⟩ true) = "-1.5e-7" := by decide +kernel
  have negative : decide (2 ^ 63 ≤ (Decimal.toFloat ⟨15, -8⟩ true).toBits.toNat) = true := by
    decide +kernel
  obtain ⟨shape, shape_eq, fits, -⟩ := exists_shape_written finite
  rw [text_eq, negative] at shape_eq
  exact ⟨finite, shape, shape_eq, fits⟩

end Number

end TeenyBasic
