import TeenyBasic.Number.Written
import TeenyBasic.Proofs.LexicalGrammar
import TeenyBasic.Proofs.ShortestDecimal

/-!
# Printed numbers read back

Whatever the layout, a decimal is written as a numeral of its value (`Number.numeral_layOut`), and
a numeral is read as the double that its value rounds to.  So a printed number is read as itself,
which is `Number.entered_written`.
-/

namespace TeenyBasic

namespace Number

open Lexical (Ends ends_cons takeWhile_append_of_ends dropWhile_append_of_ends isDigit_eq)

theorem digitsValue_eq (digits : List Char) :
    digitsValue digits = Nat.ofDigitChars 10 digits 0 := by
  have step_eq : (fun (number : ℕ) (digit : Char) => number * 10 + (digit.toNat - '0'.toNat)) =
      fun number digit => 10 * number + (digit.toNat - '0'.toNat) := by
    funext number digit
    rw [Nat.mul_comm]
  rw [digitsValue, step_eq, Nat.ofDigitChars_eq_foldl]

theorem digitsValue_append (front back : List Char) :
    digitsValue (front ++ back) = digitsValue front * 10 ^ back.length + digitsValue back := by
  rw [digitsValue_eq, digitsValue_eq, digitsValue_eq, Nat.ofDigitChars_append,
    Nat.ofDigitChars_eq_ofDigitChars_zero, Nat.mul_comm]

@[simp] theorem digitsValue_replicate (count : ℕ) : digitsValue (List.replicate count '0') = 0 := by
  rw [digitsValue_eq, Nat.ofDigitChars_replicate_zero, Nat.mul_zero]

@[simp] theorem digitsValue_wholeDigits (number : ℕ) :
    digitsValue (wholeDigits number) = number := by
  rw [digitsValue_eq, wholeDigits, Nat.ofDigitChars_ten_toDigits]

theorem wholeDigits_injective {number number' : ℕ}
    (same : wholeDigits number = wholeDigits number') : number = number' := by
  rw [← digitsValue_wholeDigits number, same, digitsValue_wholeDigits]

theorem isDigit_of_mem_wholeDigits {number : ℕ} {character : Char}
    (member : character ∈ wholeDigits number) : character.isDigit = true :=
  Nat.isDigit_of_mem_toDigits (by decide) (by decide) member

@[simp] theorem wholeDigits_ne_nil (number : ℕ) : wholeDigits number ≠ [] :=
  Nat.toDigits_ne_nil

theorem isDigit_of_mem_replicate {count : ℕ} {character : Char}
    (member : character ∈ List.replicate count '0') : character.isDigit = true := by
  rw [(List.mem_replicate.mp member).2]
  rfl

section Zeros

variable (number zeros : ℕ)

theorem isDigit_of_mem_leadingZeros {character : Char}
    (member : character ∈ List.replicate zeros '0' ++ wholeDigits number) :
    character.isDigit = true := by
  rcases List.mem_append.mp member with member | member
  · exact isDigit_of_mem_replicate member
  · exact isDigit_of_mem_wholeDigits member

@[simp] theorem digitsValue_leadingZeros :
    digitsValue (List.replicate zeros '0' ++ wholeDigits number) = number := by
  rw [digitsValue_append, digitsValue_replicate, digitsValue_wholeDigits, Nat.zero_mul,
    Nat.zero_add]

theorem isDigit_of_mem_trailingZeros {character : Char}
    (member : character ∈ wholeDigits number ++ List.replicate zeros '0') :
    character.isDigit = true := by
  rcases List.mem_append.mp member with member | member
  · exact isDigit_of_mem_wholeDigits member
  · exact isDigit_of_mem_replicate member

@[simp] theorem digitsValue_trailingZeros :
    digitsValue (wholeDigits number ++ List.replicate zeros '0') = number * 10 ^ zeros := by
  rw [digitsValue_append, digitsValue_wholeDigits, digitsValue_replicate, List.length_replicate,
    Nat.add_zero]

end Zeros

def IsPlain (character : Char) : Prop :=
  character ∈ "0123456789.e+-".toList

instance : DecidablePred IsPlain :=
  fun character => inferInstanceAs (Decidable (character ∈ "0123456789.e+-".toList))

theorem isPlain_of_isDigit {character : Char} (digit : character.isDigit = true) :
    IsPlain character := by
  have bounds : 48 ≤ character.toNat ∧ character.toNat ≤ 57 := Char.isDigit_iff_toNat.mp digit
  have code : character.toNat ∈ List.range' 48 10 := by
    rw [List.mem_range'_1]
    omega
  have all : ∀ number ∈ List.range' 48 10, Char.ofNat number ∈ "0123456789.e+-".toList := by
    decide
  rw [← Char.ofNat_toNat character]
  exact all _ code

/-- An unsigned text that is read as the given decimal. -/
structure Denotes (text : List Char) (decimal : Decimal) : Prop where
  reads : decimal? text = some decimal
  starts : ∃ first rest, text = first :: rest ∧ first.isDigit = true
  plain : ∀ character ∈ text, IsPlain character

/-- An unsigned text that is read as a decimal of the given value. -/
structure Numeral (text : List Char) (value : ℚ) : Prop where
  reads : ∃ decimal, decimal? text = some decimal ∧ decimal.value = value
  starts : ∃ first rest, text = first :: rest ∧ first.isDigit = true
  plain : ∀ character ∈ text, IsPlain character

theorem Denotes.numeral {text : List Char} {decimal : Decimal} (denotes : Denotes text decimal) :
    Numeral text decimal.value :=
  ⟨⟨decimal, denotes.reads, rfl⟩, denotes.starts, denotes.plain⟩

/-- What may follow the digits of a numeral, read as an exponent. -/
structure Tail (tail : List Char) (exponent : ℤ) : Prop where
  reads : exponentValue? tail = some exponent
  ends : Ends Char.isDigit tail
  noPoint : tail.head? ≠ some '.'
  plain : ∀ character ∈ tail, IsPlain character

theorem tail_nil : Tail [] 0 where
  reads := rfl
  ends character next := by cases next
  noPoint := nofun
  plain character member := by cases member

/-- An exponent with its sign is read, whatever zeros it begins with. -/
theorem tail_exponent {digits : List Char} (nonempty : digits ≠ [])
    (inside : ∀ character ∈ digits, character.isDigit = true) (negative : Bool) :
    Tail ('e' :: (if negative then '-' else '+') :: digits)
      (if negative then -(digitsValue digits : ℤ) else digitsValue digits) := by
  have readable : (digits.isEmpty || !digits.all isDigit) = false := by
    rw [isDigit_eq, List.isEmpty_eq_false_iff.mpr nonempty, List.all_eq_true.mpr inside]
    rfl
  refine ⟨?_, ends_cons.mpr (by decide), nofun, ?_⟩
  · cases negative <;>
      simp only [exponentValue?, splitSign, readable, decide_true, Bool.true_or, if_true,
        Bool.false_eq_true, if_false]
  · intro character member
    rcases List.mem_cons.mp member with rfl | member
    · decide
    · rcases List.mem_cons.mp member with rfl | member
      · split <;> decide
      · exact isPlain_of_isDigit (inside character member)

theorem tail_exponentPart (layout : Layout) (exponent : ℤ) :
    Tail (exponentPart layout exponent) exponent := by
  unfold exponentPart
  dsimp only
  rw [List.cons_append, List.cons_append]
  generalize layout.exponentWidth - (wholeDigits exponent.natAbs).length = zeros
  have tail := tail_exponent
    (List.append_ne_nil_of_right_ne_nil (List.replicate zeros '0') (wholeDigits_ne_nil _))
    (fun _ => isDigit_of_mem_leadingZeros exponent.natAbs zeros) (decide (exponent < 0))
  have exponent_eq : (if exponent < 0 then -(exponent.natAbs : ℤ) else exponent.natAbs) =
      exponent := by
    omega
  simp only [digitsValue_leadingZeros, decide_eq_true_eq, exponent_eq] at tail
  exact tail

section Numerals

variable {digits tail : List Char} {exponent : ℤ}

theorem exists_isDigit_head (nonempty : digits ≠ [])
    (inside : ∀ character ∈ digits, character.isDigit = true) (rest : List Char) :
    ∃ first behind, digits ++ rest = first :: behind ∧ first.isDigit = true := by
  cases digits with
  | nil => exact absurd rfl nonempty
  | cons first digits => exact ⟨first, digits ++ rest, rfl, inside first List.mem_cons_self⟩

theorem denotes_whole (nonempty : digits ≠ [])
    (inside : ∀ character ∈ digits, character.isDigit = true) (behind : Tail tail exponent) :
    Denotes (digits ++ tail) ⟨digitsValue digits, exponent⟩ where
  reads := by
    have noFraction : ∀ rest, tail ≠ '.' :: rest := by
      rintro rest rfl
      exact behind.noPoint rfl
    simp only [decimal?, isDigit_eq, takeWhile_append_of_ends inside behind.ends,
      dropWhile_append_of_ends inside behind.ends, behind.reads, List.append_nil]
    rw [List.isEmpty_eq_false_iff.mpr nonempty]
    change some (⟨digitsValue digits, exponent - 0⟩ : Decimal) = _
    rw [Int.sub_zero]
  starts := exists_isDigit_head nonempty inside tail
  plain character member := by
    rcases List.mem_append.mp member with member | member
    · exact isPlain_of_isDigit (inside character member)
    · exact behind.plain character member

theorem denotes_fraction (decimals : List Char) (nonempty : digits ≠ [])
    (inside : ∀ character ∈ digits ++ decimals, character.isDigit = true)
    (behind : Tail tail exponent) :
    Denotes (digits ++ '.' :: (decimals ++ tail))
      ⟨digitsValue (digits ++ decimals), exponent - decimals.length⟩ := by
  obtain ⟨before, after⟩ := List.forall_mem_append.mp inside
  refine ⟨?_, exists_isDigit_head nonempty before _, ?_⟩
  · have point : Ends Char.isDigit ('.' :: (decimals ++ tail)) := ends_cons.mpr (by decide)
    simp only [decimal?, isDigit_eq, takeWhile_append_of_ends before point,
      dropWhile_append_of_ends before point, takeWhile_append_of_ends after behind.ends,
      dropWhile_append_of_ends after behind.ends, behind.reads]
    rw [List.isEmpty_eq_false_iff.mpr nonempty]
    rfl
  · intro character member
    rcases List.mem_append.mp member with member | member
    · exact isPlain_of_isDigit (before character member)
    · rcases List.mem_cons.mp member with rfl | member
      · decide
      · rcases List.mem_append.mp member with member | member
        · exact isPlain_of_isDigit (after character member)
        · exact behind.plain character member

theorem numeral_whole (nonempty : digits ≠ [])
    (inside : ∀ character ∈ digits, character.isDigit = true) (behind : Tail tail exponent) :
    Numeral (digits ++ tail) (digitsValue digits * 10 ^ exponent) :=
  (denotes_whole nonempty inside behind).numeral

theorem numeral_fraction (decimals : List Char) (nonempty : digits ≠ [])
    (inside : ∀ character ∈ digits ++ decimals, character.isDigit = true)
    (behind : Tail tail exponent) :
    Numeral (digits ++ '.' :: (decimals ++ tail))
      (digitsValue (digits ++ decimals) * 10 ^ (exponent - decimals.length)) :=
  (denotes_fraction decimals nonempty inside behind).numeral

end Numerals

section Layouts

variable (layout : Layout) (decimal : Decimal)

theorem numeral_wholeDigits (number : ℕ) : Numeral (wholeDigits number) number := by
  have numeral := numeral_whole (wholeDigits_ne_nil number)
    (fun _ => isDigit_of_mem_wholeDigits) tail_nil
  rwa [List.append_nil, digitsValue_wholeDigits, zpow_zero, mul_one] at numeral

/-- Digits with zeros behind them, and perhaps one more behind a point. -/
theorem numeral_trailingZeros (number zeros : ℕ) (fraction : Bool) :
    Numeral (wholeDigits number ++ List.replicate zeros '0' ++
      (if fraction then ['.', '0'] else [])) (number * 10 ^ zeros) := by
  have nonempty : wholeDigits number ++ List.replicate zeros '0' ≠ [] :=
    List.append_ne_nil_of_left_ne_nil (wholeDigits_ne_nil _) _
  cases fraction with
  | false =>
    have numeral := numeral_whole nonempty
      (fun _ => isDigit_of_mem_trailingZeros number zeros) tail_nil
    rw [digitsValue_trailingZeros, zpow_zero, mul_one] at numeral
    exact_mod_cast numeral
  | true =>
    have one_more : wholeDigits number ++ List.replicate zeros '0' ++ ['0'] =
        wholeDigits number ++ List.replicate (zeros + 1) '0' := by
      rw [List.append_assoc, List.replicate_succ']
    have numeral := numeral_fraction ['0'] nonempty
      (one_more ▸ fun _ => isDigit_of_mem_trailingZeros number (zeros + 1)) tail_nil
    rw [one_more, digitsValue_trailingZeros] at numeral
    have value_eq : ((number * 10 ^ (zeros + 1) : ℕ) : ℚ) * 10 ^ (0 - (['0'].length : ℤ)) =
        number * 10 ^ zeros := by
      rw [List.length_singleton, Nat.cast_one, zero_sub, zpow_neg_one]
      push_cast
      rw [pow_succ]
      field_simp
    rwa [value_eq] at numeral

private theorem numeral_positional : Numeral (positional layout decimal) decimal.value := by
  unfold positional
  dsimp only
  split
  · next up =>
    have numeral := numeral_trailingZeros decimal.digits decimal.exponent.toNat layout.wholeFraction
    rw [← zpow_natCast, Int.toNat_of_nonneg up] at numeral
    exact numeral
  · next down =>
    have places_eq : ((-decimal.exponent).toNat : ℤ) = -decimal.exponent := by omega
    split
    · next short =>
      have inside : ∀ character ∈ wholeDigits decimal.digits, character.isDigit = true :=
        fun _ => isDigit_of_mem_wholeDigits
      have value_eq := digitsValue_wholeDigits decimal.digits
      generalize (-decimal.exponent).toNat = places at *
      generalize wholeDigits decimal.digits = digits at *
      have before : digits.take (digits.length - places) ≠ [] := by
        rw [← List.length_pos_iff, List.length_take]
        omega
      have numeral := numeral_fraction (digits.drop (digits.length - places)) before
        (by rwa [List.take_append_drop]) tail_nil
      rw [List.append_nil, List.take_append_drop, List.length_drop, value_eq,
        show 0 - ((digits.length - (digits.length - places) : ℕ) : ℤ) = decimal.exponent by omega]
        at numeral
      exact numeral
    · next long =>
      generalize (-decimal.exponent).toNat = places at *
      generalize zeros_eq : places - (wholeDigits decimal.digits).length = zeros
      -- The zero in front of the point is one more leading zero.
      have value_eq : digitsValue
          (['0'] ++ (List.replicate zeros '0' ++ wholeDigits decimal.digits)) = decimal.digits :=
        digitsValue_leadingZeros decimal.digits (zeros + 1)
      have numeral := numeral_fraction (List.replicate zeros '0' ++ wholeDigits decimal.digits)
        (List.cons_ne_nil '0' [])
        (fun _ => isDigit_of_mem_leadingZeros decimal.digits (zeros + 1)) tail_nil
      rw [List.append_nil, value_eq, List.length_append, List.length_replicate,
        show 0 - ((zeros + (wholeDigits decimal.digits).length : ℕ) : ℤ) = decimal.exponent by
          omega] at numeral
      exact numeral

/-- With an exponent, a decimal is read with the digits and the exponent that it has. -/
theorem denotes_scientific : Denotes (scientific layout decimal) decimal := by
  have inside : ∀ character ∈ wholeDigits decimal.digits, character.isDigit = true :=
    fun _ => isDigit_of_mem_wholeDigits
  have value_eq := digitsValue_wholeDigits decimal.digits
  have nonempty := wholeDigits_ne_nil decimal.digits
  have behind := tail_exponentPart layout (leadingExponent decimal)
  have leading_eq : leadingExponent decimal =
      decimal.exponent + (wholeDigits decimal.digits).length - 1 := rfl
  unfold scientific mantissaText
  generalize wholeDigits decimal.digits = digits at *
  split
  · next first second rest =>
    have denotes := denotes_fraction (second :: rest) (List.cons_ne_nil first []) inside behind
    have exponent_eq : leadingExponent decimal - ((second :: rest).length : ℤ) =
        decimal.exponent := by
      rw [leading_eq]
      simp only [List.length_cons]
      omega
    rw [exponent_eq, show digitsValue ([first] ++ second :: rest) = _ from value_eq] at denotes
    exact denotes
  · next several =>
    have single : digits.length = 1 := by
      rcases digits with _ | ⟨first, _ | ⟨second, rest⟩⟩
      · exact absurd rfl nonempty
      · rfl
      · exact absurd rfl (several first second rest)
    have exponent_eq : leadingExponent decimal = decimal.exponent := by
      rw [leading_eq, single]
      omega
    have denotes := denotes_whole nonempty inside behind
    rw [exponent_eq, value_eq] at denotes
    rwa [exponent_eq]

/-- Every layout writes a decimal as a numeral of its value. -/
theorem numeral_layOut : Numeral (layOut layout decimal) decimal.value := by
  unfold layOut
  dsimp only
  split
  · exact numeral_positional layout decimal
  · exact (denotes_scientific layout decimal).numeral

end Layouts

section ConsoleTexts

variable (layout : Layout) (decimal : Decimal)

private theorem exponentMark_not_mem_positional : 'e' ∉ positional layout decimal := by
  have noDigit : ∀ {characters : List Char},
      (∀ character ∈ characters, character.isDigit = true) → 'e' ∉ characters :=
    fun inside member => absurd (inside _ member) (by decide)
  have digits : 'e' ∉ wholeDigits decimal.digits := noDigit fun _ => isDigit_of_mem_wholeDigits
  have zeros : ∀ count, 'e' ∉ List.replicate count '0' :=
    fun count => noDigit fun _ => isDigit_of_mem_replicate
  unfold positional
  dsimp only
  split
  · split <;> simp [digits, zeros]
  · split
    · have front : ∀ count, 'e' ∉ (wholeDigits decimal.digits).take count :=
        fun count member => digits (List.mem_of_mem_take member)
      have back : ∀ count, 'e' ∉ (wholeDigits decimal.digits).drop count :=
        fun count member => digits (List.mem_of_mem_drop member)
      simp [front, back]
    · simp [digits, zeros]

private theorem exponentMark_not_mem_mantissaText : 'e' ∉ mantissaText decimal := by
  have digits : 'e' ∉ wholeDigits decimal.digits :=
    fun member => absurd (isDigit_of_mem_wholeDigits member) (by decide)
  unfold mantissaText
  split
  · next first second rest equal =>
    rw [equal] at digits
    simpa using digits
  · exact digits

private theorem ends_exponentPart (exponent : ℤ) :
    Ends (fun character => decide (character ≠ 'e')) (exponentPart layout exponent) := by
  unfold exponentPart
  dsimp only
  exact ends_cons.mpr (by decide)

/-- A text with an exponent is laid out again as the console wants it. -/
@[simp] theorem consoleText_scientific :
    consoleText (scientific layout decimal) = layOut consoleLayout decimal := by
  have digits : ∀ character ∈ mantissaText decimal, decide (character ≠ 'e') = true := by
    intro character member
    rw [decide_eq_true_eq]
    rintro rfl
    exact exponentMark_not_mem_mantissaText decimal member
  have marked : (scientific layout decimal).contains 'e' = true := by
    rw [List.contains_iff_mem]
    exact List.mem_append_right _ List.mem_cons_self
  have ends := ends_exponentPart layout (leadingExponent decimal)
  have reads := (tail_exponentPart layout (leadingExponent decimal)).reads
  have denotes := (denotes_scientific layout decimal).reads
  rw [consoleText, if_pos marked, denotes]
  unfold scientific
  rw [takeWhile_append_of_ends digits ends, dropWhile_append_of_ends digits ends, reads]
  rfl

/-- The console shows the fewest digits in its own layout.  Only whole numbers below 10^16 would
keep the point that they are given first. -/
@[simp] theorem consoleText_layOut (broken : leadingExponent decimal < 16 → decimal.exponent < 0) :
    consoleText (layOut shortestLayout decimal) = layOut consoleLayout decimal := by
  by_cases inside : -4 ≤ leadingExponent decimal ∧ leadingExponent decimal < 16
  · have down : ¬0 ≤ decimal.exponent := not_le.mpr (broken inside.2)
    have same : positional shortestLayout decimal = positional consoleLayout decimal := by
      rw [positional, positional, if_neg down, if_neg down]
    have unmarked : (positional consoleLayout decimal).contains 'e' = false := by
      rw [Bool.eq_false_iff, ne_eq, List.contains_iff_mem]
      exact exponentMark_not_mem_positional consoleLayout decimal
    have first : layOut shortestLayout decimal = positional shortestLayout decimal :=
      if_pos (by rw [Bool.and_eq_true, decide_eq_true_eq, decide_eq_true_eq]; exact inside)
    have second : layOut consoleLayout decimal = positional consoleLayout decimal :=
      if_pos (by
        rw [Bool.and_eq_true, decide_eq_true_eq, decide_eq_true_eq]
        change -6 ≤ leadingExponent decimal ∧ leadingExponent decimal < 21
        omega)
    rw [first, second, same, consoleText, unmarked]
    rfl
  · have first : layOut shortestLayout decimal = scientific shortestLayout decimal :=
      if_neg (by rw [Bool.and_eq_true, decide_eq_true_eq, decide_eq_true_eq]; exact inside)
    rw [first, consoleText_scientific]

end ConsoleTexts

/-- Characters of numerals are read as they stand, and no word begins with them. -/
theorem IsPlain.facts {character : Char} (plain : IsPlain character) :
    plainDigit character = character ∧ character ≠ '_' ∧ Text.isBlank character = false ∧
      character.toLower ≠ 'i' := by
  have all : "0123456789.e+-".toList.all (fun character =>
      decide (plainDigit character = character ∧ character ≠ '_' ∧
        Text.isBlank character = false ∧ character.toLower ≠ 'i')) = true := by
    decide
  exact of_decide_eq_true (List.all_eq_true.mp all character plain)

private theorem dropUnderscores_eq {text : List Char} {before : Char} (first : before ≠ '_')
    (none_mem : '_' ∉ text) : dropUnderscores before text = some text := by
  induction text generalizing before with
  | nil => rw [dropUnderscores, if_neg first]
  | cons character text induction =>
    have character_ne : character ≠ '_' := fun equal => none_mem (equal ▸ List.mem_cons_self)
    have rest := induction character_ne fun member => none_mem (List.mem_cons_of_mem _ member)
    rw [dropUnderscores, if_neg character_ne, rest]
    simp [first]

private theorem trimBlanks_newline {text : List Char}
    (solid : ∀ character ∈ text, Text.isBlank character = false) :
    Text.trimBlanks (text ++ ['\n']) = text := by
  cases text with
  | nil => decide
  | cons first text =>
    have untouched : (first :: text ++ ['\n']).dropWhile Text.isBlank =
        first :: text ++ ['\n'] :=
      List.dropWhile_cons_of_neg (Bool.eq_false_iff.mp (solid first List.mem_cons_self))
    have back : Ends Text.isBlank (first :: text).reverse := by
      intro character next
      exact solid character (List.mem_reverse.mp (List.mem_of_mem_head? next))
    have trimmed : ∀ character ∈ ['\n'], Text.isBlank character = true := by
      intro character member
      rw [List.mem_singleton.mp member]
      rfl
    rw [Text.trimBlanks, Text.trim, untouched, List.reverse_append, List.reverse_singleton,
      dropWhile_append_of_ends trimmed back, List.reverse_reverse]

section Signs

variable {text : List Char} {number : ℚ} (negative : Bool)

private theorem splitSign_signText {first : Char} (digit : first.isDigit = true)
    (rest : List Char) :
    splitSign (signText negative ++ first :: rest) = (negative, first :: rest) := by
  cases negative with
  | true => rfl
  | false =>
    change splitSign (first :: rest) = _
    unfold splitSign
    split
    · next equal =>
      cases equal
      exact absurd digit (by decide)
    · next equal =>
      cases equal
      exact absurd digit (by decide)
    · rfl

/-- A numeral with a sign is read as the double nearest to its value. -/
theorem Numeral.entered_eq (numeral : Numeral text number) :
    ∃ decimal : Decimal, decimal.value = number ∧
      entered (signText negative ++ text ++ ['\n']) = decimal.toFloat negative := by
  obtain ⟨decimal, reads, value_eq⟩ := numeral.reads
  obtain ⟨first, rest, rfl, digit⟩ := numeral.starts
  have plain : ∀ character ∈ signText negative ++ first :: rest, IsPlain character := by
    intro character member
    rcases List.mem_append.mp member with member | member
    · cases negative with
      | true =>
        rw [List.mem_singleton.mp member]
        decide
      | false => cases member
    · exact numeral.plain character member
  refine ⟨decimal, value_eq, ?_⟩
  have trimmed := trimBlanks_newline fun character member => (plain character member).facts.2.2.1
  have unchanged : (signText negative ++ first :: rest).map plainDigit =
      signText negative ++ first :: rest := by
    rw [List.map_congr_left fun character member => (plain character member).facts.1, List.map_id']
  have kept := dropUnderscores_eq (show ' ' ≠ '_' by decide)
    fun member => (plain _ member).facts.2.1 rfl
  have noWord : infinityWords.contains ((first :: rest).map Char.toLower) = false := by
    rw [Bool.eq_false_iff]
    intro word
    have letter : first.toLower = 'i' := by
      rcases List.mem_cons.mp (List.contains_iff_mem.mp word) with equal | member
      · exact (List.cons.inj equal).1
      · exact (List.cons.inj (List.mem_singleton.mp member)).1
    exact (numeral.plain first List.mem_cons_self).facts.2.2.2 letter
  rw [entered, trimmed, numeral?, unchanged, kept]
  simp only [Option.bind_eq_bind, Option.bind_some, splitSign_signText negative digit, noWord,
    reads]
  rfl

end Signs

theorem cast_whole? {mantissa whole : ℕ} {exponent : ℤ}
    (found : whole? mantissa exponent = some whole) : (whole : ℚ) = mantissa * 2 ^ exponent := by
  unfold whole? at found
  split at found
  · next up =>
    cases found
    rw [Nat.cast_mul, Nat.pow_eq, Nat.cast_pow, Nat.cast_two, ← zpow_natCast,
      Int.toNat_of_nonneg up]
  · next down =>
    dsimp only at found
    split at found
    · next divides =>
      cases found
      obtain ⟨whole, rfl⟩ := Nat.dvd_of_mod_eq_zero divides
      have power_eq := zpow_eq_div 2 exponent
      have scale_pos : 0 < 2 ^ (-exponent).toNat := Nat.two_pow_pos _
      rw [Nat.cast_ofNat, Int.toNat_of_nonpos (by omega), pow_zero] at power_eq
      rw [power_eq, Nat.pow_eq, Nat.mul_div_cancel_left whole scale_pos]
      push_cast
      field_simp
    · cases found

/-- No whole number rounds to a magnitude that is none. -/
theorem not_roundsTo_of_whole?_eq_none {mantissa : ℕ} {exponent : ℤ}
    (broken : whole? mantissa exponent = none) (number : ℕ) :
    ¬RoundsTo number mantissa exponent := by
  intro rounds
  have low_le := rounds.low_le_half
  have le_high := rounds.le_high_half
  unfold whole? at broken
  split at broken
  · cases broken
  · next down =>
    dsimp only at broken
    split at broken
    · cases broken
    · next remainder =>
      have power_eq := zpow_eq_div 2 exponent
      rw [Nat.cast_ofNat, Int.toNat_of_nonpos (by omega), pow_zero] at power_eq
      rw [Nat.pow_eq] at remainder
      rw [power_eq] at low_le le_high
      have scale_pos : 0 < 2 ^ (-exponent).toNat := Nat.two_pow_pos _
      generalize 2 ^ (-exponent).toNat = scale at *
      have scale_pos' : (0 : ℚ) < scale := by exact_mod_cast scale_pos
      rw [Nat.cast_one, mul_one_div, div_le_iff₀ scale_pos'] at low_le
      rw [Nat.cast_one, mul_one_div, le_div_iff₀ scale_pos'] at le_high
      have above : 2 * mantissa < 2 * (number * scale) + 2 := by
        rw [← Nat.cast_lt (α := ℚ)]
        push_cast
        linarith
      have below : 2 * (number * scale) < 2 * mantissa + 2 := by
        rw [← Nat.cast_lt (α := ℚ)]
        push_cast
        linarith
      apply remainder
      rw [show mantissa = number * scale by omega]
      exact Nat.mul_mod_left number scale

theorem exponent_shortest_neg {mantissa : ℕ} {exponent : ℤ} (positive : 0 < mantissa)
    (broken : whole? mantissa exponent = none) : (shortest mantissa exponent).exponent < 0 := by
  by_contra up
  have rounds := roundsTo_shortest positive exponent
  rw [Decimal.value_eq_div,
    Int.toNat_of_nonpos (show -(shortest mantissa exponent).exponent ≤ 0 by omega), pow_zero,
    Nat.cast_one, div_one] at rounds
  exact not_roundsTo_of_whole?_eq_none broken _ rounds

/-- A decimal that rounds to 10^21 or more is at least half of that. -/
theorem le_leadingExponent_shortest {mantissa : ℕ} {exponent : ℤ} (positive : 0 < mantissa)
    (large : (10 : ℚ) ^ 21 ≤ mantissa * 2 ^ exponent) :
    16 ≤ leadingExponent (shortest mantissa exponent) := by
  have low_le := (roundsTo_shortest positive exponent).low_le_half
  have value_lt := (shortest mantissa exponent).value_lt
  have one_le : (1 : ℚ) ≤ mantissa := by exact_mod_cast positive
  have half_le : mantissa * (2 : ℚ) ^ exponent ≤ (2 * mantissa - 1) * (2 : ℚ) ^ exponent :=
    mul_le_mul_of_nonneg_right (by linarith) (two_zpow_pos exponent).le
  by_contra less
  have power_le : (10 : ℚ) ^ ((shortest mantissa exponent).exponent +
      digitCount (shortest mantissa exponent).digits) ≤ 10 ^ (16 : ℤ) := by
    apply zpow_le_zpow_right₀ (by norm_num)
    unfold leadingExponent at less
    omega
  norm_num at power_le large
  linarith

/-- A whole number below 10^21 shows its digits, and any other the fewest that read back. -/
theorem magnitudeText_cases {mantissa : ℕ} (positive : 0 < mantissa) (exponent : ℤ) :
    (∃ number, whole? mantissa exponent = some number ∧ number < 10 ^ 21 ∧
        magnitudeText mantissa exponent = wholeDigits number) ∨
      (((mantissa : ℚ) * 2 ^ exponent < 10 ^ 21 → whole? mantissa exponent = none) ∧
        magnitudeText mantissa exponent = layOut consoleLayout (shortest mantissa exponent)) := by
  unfold magnitudeText
  dsimp only
  cases found : whole? mantissa exponent with
  | none =>
    have down := exponent_shortest_neg positive found
    exact .inr ⟨fun _ => rfl, consoleText_layOut _ fun _ => down⟩
  | some number =>
    have number_eq := cast_whole? found
    by_cases small : number < 10 ^ 21
    · exact .inl ⟨number, rfl, small, if_pos small⟩
    · have large : (10 : ℚ) ^ 21 ≤ mantissa * 2 ^ exponent := by
        rw [← number_eq]
        exact_mod_cast Nat.le_of_not_lt small
      have leading := le_leadingExponent_shortest positive large
      refine .inr ⟨fun less => absurd large less.not_ge, ?_⟩
      exact (if_neg small).trans (consoleText_layOut _ fun less => absurd leading less.not_ge)

/-- The text of a finite magnitude is a numeral that rounds to it. -/
theorem exists_numeral_magnitudeText {mantissa : ℕ} (positive : 0 < mantissa) (exponent : ℤ) :
    ∃ number, Numeral (magnitudeText mantissa exponent) number ∧
      RoundsTo number mantissa exponent := by
  rcases magnitudeText_cases positive exponent with ⟨whole, found, -, text_eq⟩ | ⟨-, text_eq⟩
  · rw [text_eq]
    refine ⟨_, numeral_wholeDigits whole, ?_⟩
    rw [cast_whole? found]
    exact roundsTo_self mantissa exponent
  · rw [text_eq]
    exact ⟨_, numeral_layOut consoleLayout _, roundsTo_shortest positive exponent⟩

@[simp] theorem magnitudeText_zero (exponent : ℤ) : magnitudeText 0 exponent = wholeDigits 0 := by
  have zero : whole? 0 exponent = some 0 := by
    unfold whole?
    dsimp only
    rw [Nat.zero_mul, Nat.zero_mod, if_pos rfl, Nat.zero_div, ite_self]
  rw [magnitudeText, zero]
  rfl

private theorem entered_magnitudeText {mantissa : ℕ} {exponent : ℤ}
    (stored : Stored mantissa exponent)
    (negative : Bool) :
    entered (signText negative ++ magnitudeText mantissa exponent ++ ['\n']) =
      ofSignedBits negative (magnitudeBits mantissa exponent) := by
  rcases Nat.eq_zero_or_pos mantissa with rfl | positive
  · obtain ⟨decimal, value_eq, read⟩ := (numeral_wholeDigits 0).entered_eq negative
    have digits_eq : decimal.digits = 0 := by
      rw [Decimal.value, Nat.cast_zero] at value_eq
      exact_mod_cast (mul_eq_zero.mp value_eq).resolve_right (ten_zpow_pos _).ne'
    have least : exponent = leastExponent := stored.normal.resolve_left (by decide)
    rw [magnitudeText_zero, read, Decimal.toFloat, Decimal.nearestBits, digits_eq, least]
    rfl
  · obtain ⟨number, numeral, rounds⟩ := exists_numeral_magnitudeText positive exponent
    obtain ⟨decimal, rfl, read⟩ := numeral.entered_eq negative
    rw [read, Decimal.toFloat, Decimal.nearestBits_eq stored positive rounds]

private theorem entered_infinity (negative : Bool) :
    entered (signText negative ++ "Infinity".toList ++ ['\n']) =
      ofSignedBits negative infinityBits := by
  cases negative <;> rfl

/-- A printed number is read as itself. -/
theorem entered_written_self {value : Float} (numeric : value.isNaN = false) :
    entered ((written value).toList ++ ['\n']) = value := by
  rcases parts_cases numeric with
    ⟨negative, parts_eq, value_eq⟩ | ⟨negative, mantissa, exponent, parts_eq, stored, value_eq⟩
  · have text_eq : (written value).toList = signText negative ++ "Infinity".toList := by
      rw [written, parts_eq, String.toList_ofList]
    rw [text_eq, entered_infinity, ← value_eq]
  · have text_eq :
        (written value).toList = signText negative ++ magnitudeText mantissa exponent := by
      rw [written, parts_eq, String.toList_ofList]
    rw [text_eq, entered_magnitudeText stored, ← value_eq]

/-- Every number but NaN that is printed and typed in again is the same double, bit for bit, so
that no two of them are printed alike. -/
theorem entered_written {value : Float} (numeric : value.isNaN = false) :
    entered ((written value).toList ++ ['\n']) = value ∧
      ∀ other : Float, other.isNaN = false → written other = written value → other = value := by
  refine ⟨entered_written_self numeric, ?_⟩
  intro other otherNumeric alike
  rw [← entered_written_self otherNumeric, alike, entered_written_self numeric]

/-- The least positive double is printed with a single digit. -/
theorem entered_written_least :
    (Float.ofBits 1).isNaN = false ∧ written (Float.ofBits 1) = "5e-324" ∧
      entered ("5e-324".toList ++ ['\n']) = Float.ofBits 1 ∧
      ∀ other : Float, other.isNaN = false → written other = "5e-324" → other = Float.ofBits 1 := by
  have numeric : (Float.ofBits 1).isNaN = false := by decide +kernel
  have text_eq : written (Float.ofBits 1) = "5e-324" := by decide +kernel
  have read := entered_written numeric
  rw [text_eq] at read
  exact ⟨numeric, text_eq, read⟩

end Number

end TeenyBasic
