import TeenyBasic.Arithmetic
import TeenyBasic.Lexer
import TeenyBasic.Proofs.PrintedNumbers

/-!
# Doubles that are whole numbers

A whole number below 2^53 is a double, the one that its literal stands for, and it is written in
all its digits.  Doubles that are whole numbers are compared as the numbers that they are
(`Relation.holds_eq_compares`).
-/

namespace TeenyBasic

namespace Number

open Float.Model (Format UnpackedFloat)
open Float.Model.UnpackedFloat

/-- The double is the given whole number; it is not the negative zero. -/
def IsWhole (value : Float) (number : ℕ) : Prop :=
  ∃ mantissa exponent, parts value = .finite false mantissa exponent ∧
    whole? mantissa exponent = some number

theorem written_of_isWhole {value : Float} {number : ℕ} (whole : IsWhole value number)
    (small : number < 10 ^ 21) : written value = String.ofList (wholeDigits number) := by
  obtain ⟨mantissa, exponent, finite, found⟩ := whole
  rw [written, finite]
  simp only [magnitudeText, found, Nat.pow_eq, if_pos small]
  rfl

/-- The bits of a stored magnitude are those of a double with its parts. -/
@[simp] theorem parts_ofSignedBits {mantissa : ℕ} {exponent : ℤ}
    (stored : Stored mantissa exponent) :
    parts (ofSignedBits false (magnitudeBits mantissa exponent)) =
      .finite false mantissa exponent := by
  obtain ⟨short, least, greatest, normal⟩ := stored
  rw [leastExponent] at least normal
  generalize bits_eq : magnitudeBits mantissa exponent = bits
  have value_eq : bits = (exponent + 1074).toNat * 2 ^ 52 + mantissa := by
    rw [← bits_eq, magnitudeBits, leastExponent]
    rfl
  have bound : bits < 2047 * 2 ^ 52 := by omega
  have word_eq : (UInt64.ofNat bits).toBitVec.toNat = bits := by
    rw [UInt64.toBitVec_ofNat', BitVec.toNat_ofNat]
    omega
  have numeric : (unpack .binary64 (UInt64.ofNat bits).toBitVec).isNaN = false := by
    have notSpecial : @unpackExponent .binary64 (UInt64.ofNat bits).toBitVec ≠ -1#11 := by
      intro special
      have field := congrArg BitVec.toNat special
      rw [toNat_unpackExponent, word_eq] at field
      have all : (-1#11).toNat = 2047 := by decide
      omega
    rw [unpack]
    dsimp only
    rw [if_neg notSpecial]
    split
    · split <;> rfl
    · rfl
  have kept : (ofSignedBits false bits).toBits.toNat = bits := by
    have toBits_eq : (ofSignedBits false bits).toBits.toBitVec =
        pack .binary64 (unpack .binary64 (UInt64.ofNat bits).toBitVec) := rfl
    rw [UInt64.toNat, toBits_eq, pack_unpack numeric, word_eq]
  unfold parts
  simp only [Nat.pow_eq, kept]
  rw [if_neg (by omega)]
  split
  · simp only [Parts.finite.injEq, decide_eq_false_iff_not, leastExponent]
    omega
  · simp only [Parts.finite.injEq, decide_eq_false_iff_not]
    omega

/-- Bits below those of infinity are a stored magnitude. -/
theorem exists_stored_of_lt {bits : ℕ} (finite : bits < infinityBits) :
    ∃ mantissa exponent, Stored mantissa exponent ∧ magnitudeBits mantissa exponent = bits := by
  rw [infinityBits, Nat.pow_eq] at finite
  have division := Nat.div_add_mod bits (2 ^ 52)
  have remainder := Nat.mod_lt bits (Nat.two_pow_pos 52)
  rcases Nat.eq_zero_or_pos (bits / 2 ^ 52) with least | normal
  · refine ⟨bits, leastExponent, ⟨by omega, le_rfl, by decide, .inr rfl⟩, ?_⟩
    rw [magnitudeBits, sub_self]
    exact Nat.zero_add bits
  · refine ⟨2 ^ 52 + bits % 2 ^ 52, (bits / 2 ^ 52 : ℕ) - 1075,
      ⟨by omega, ?_, by omega, .inl (by omega)⟩, ?_⟩
    · rw [leastExponent]
      omega
    · rw [magnitudeBits, leastExponent]
      omega

theorem nearestBits_le_infinityBits (numerator denominator : ℕ) :
    nearestBits numerator denominator ≤ infinityBits := by
  unfold nearestBits
  split
  · exact Nat.zero_le _
  · exact Nat.min_le_left _ _

theorem Decimal.nearestBits_le_infinityBits (decimal : Decimal) :
    decimal.nearestBits ≤ infinityBits := by
  unfold nearestBits
  dsimp only
  split
  · exact Nat.zero_le _
  · split
    · exact Nat.le_refl _
    · exact Number.nearestBits_le_infinityBits _ _

/-- What a decimal without a sign is rounded to. -/
theorem Decimal.parts_toFloat (decimal : Decimal) :
    parts (decimal.toFloat false) = .infinite false ∨
      ∃ mantissa exponent, Stored mantissa exponent ∧
        parts (decimal.toFloat false) = .finite false mantissa exponent := by
  unfold toFloat
  rcases decimal.nearestBits_le_infinityBits.lt_or_eq with finite | infinite
  · obtain ⟨mantissa, exponent, stored, bits_eq⟩ := exists_stored_of_lt finite
    refine .inr ⟨mantissa, exponent, stored, ?_⟩
    rw [← bits_eq]
    exact parts_ofSignedBits stored
  · left
    rw [infinite]
    decide +kernel

private theorem exists_stored {number : ℕ} (positive : 0 < number) (small : number < 2 ^ 53) :
    ∃ mantissa exponent, Stored mantissa exponent ∧ 0 < mantissa ∧
      whole? mantissa exponent = some number := by
  have nonzero := positive.ne'
  have log_le : number.log2 ≤ 52 := Nat.lt_succ_iff.mp ((Nat.log2_lt nonzero).mpr small)
  have low := Nat.log2_self_le nonzero
  have high := @Nat.lt_log2_self number
  generalize number.log2 = log at log_le low high
  have scale : 2 ^ log * 2 ^ (52 - log) = 2 ^ 52 := by
    rw [← Nat.pow_add]
    congr 1
    omega
  have power_pos : 0 < 2 ^ (52 - log) := Nat.two_pow_pos _
  refine ⟨number * 2 ^ (52 - log), -(52 - log : ℕ), ⟨?_, ?_, by omega, .inl ?_⟩, by positivity, ?_⟩
  · calc
      number * 2 ^ (52 - log) < 2 ^ (log + 1) * 2 ^ (52 - log) := by gcongr
      _ = 2 ^ 53 := by
        rw [Nat.pow_succ, Nat.mul_right_comm, scale]
        rfl
  · rw [leastExponent]
    omega
  · calc
      2 ^ 52 = 2 ^ log * 2 ^ (52 - log) := scale.symm
      _ ≤ number * 2 ^ (52 - log) := by gcongr
  · unfold whole?
    split
    · next up =>
      have full : 52 - log = 0 := by omega
      simp [full]
    · simp only [Int.neg_neg, Int.toNat_natCast, Nat.pow_eq]
      rw [if_pos (Nat.mul_mod_left _ _), Nat.mul_div_cancel _ power_pos]

/-- A decimal that is a whole number below 2^53 is that double. -/
theorem isWhole_toFloat {decimal : Decimal} {number : ℕ} (value_eq : decimal.value = number)
    (small : number < 2 ^ 53) : IsWhole (decimal.toFloat false) number := by
  rcases Nat.eq_zero_or_pos number with rfl | positive
  · have digits_eq : decimal.digits = 0 := by
      rw [Decimal.value, Nat.cast_zero] at value_eq
      exact_mod_cast (mul_eq_zero.mp value_eq).resolve_right (ten_zpow_pos _).ne'
    refine ⟨0, leastExponent, ?_, by decide +kernel⟩
    have bits_eq : decimal.nearestBits = 0 := by
      simp [Decimal.nearestBits, digits_eq]
    rw [Decimal.toFloat, bits_eq]
    decide +kernel
  · obtain ⟨mantissa, exponent, stored, nonzero, found⟩ := exists_stored positive small
    have rounds : RoundsTo decimal.value mantissa exponent := by
      rw [value_eq, cast_whole? found]
      exact roundsTo_self mantissa exponent
    refine ⟨mantissa, exponent, ?_, found⟩
    rw [Decimal.toFloat, Decimal.nearestBits_eq stored nonzero rounds]
    exact parts_ofSignedBits stored

/-- The literal of a whole number below 2^53, perhaps with zeros behind a point, stands for it. -/
theorem isWhole_numberValue {digits : List Char} (small : digitsValue digits < 2 ^ 53)
    (zeros : ℕ) :
    IsWhole (Lexer.numberValue digits (List.replicate zeros '0')) (digitsValue digits) := by
  refine isWhole_toFloat ?_ small
  have ten_ne : (10 : ℚ) ^ zeros ≠ 0 := by positivity
  rw [Decimal.value, digitsValue_append, digitsValue_replicate, List.length_replicate, Nat.add_zero,
    Nat.cast_mul, Nat.cast_pow, Nat.cast_ofNat, zpow_neg, zpow_natCast, mul_assoc,
    mul_inv_cancel₀ ten_ne, mul_one]

theorem ofBitVec_unpackSign {word : BitVec Format.binary64.numBits} (small : word.toNat < 2 ^ 63) :
    Sign.ofBitVec (unpackSign word) = .positive := by
  have bit : unpackSign word = 0#1 := by
    apply BitVec.eq_of_toNat_eq
    have value : (unpackSign word).toNat = word.toNat / 2 ^ 63 % 2 := by
      simp [unpackSign, BitVec.extractLsb, Nat.shiftRight_eq_div_pow]
    rw [value, Nat.div_eq_of_lt small]
    rfl
  rw [bit]
  rfl

/-- A non-negative double as comparisons see it. -/
theorem unpack_of_parts {value : Float} {mantissa : ℕ} {exponent : ℤ}
    (finite : parts value = .finite false mantissa exponent) :
    Stored mantissa exponent ∧ (mantissa = 0 → value.toModel.unpack = .zero .positive) ∧
      ∀ positive : 0 < mantissa,
        value.toModel.unpack = .finite .positive mantissa exponent positive := by
  have field := @toNat_unpackExponent value.toBits.toBitVec
  have fraction := @toNat_unpackMantissa value.toBits.toBitVec
  have bias : Format.binary64.exponentBias = 1023 := by decide
  unfold parts at finite
  simp only [Nat.pow_eq] at finite
  split at finite
  · split at finite <;> cases finite
  · next ordinary =>
    have notSpecial : @unpackExponent .binary64 value.toBits.toBitVec ≠ -1#11 := by
      intro special
      apply ordinary
      have toNat_eq := congrArg BitVec.toNat special
      rw [field] at toNat_eq
      exact toNat_eq
    have short : value.toBits.toNat % 2 ^ 52 < 2 ^ 52 := Nat.mod_lt _ (by decide)
    split at finite
    · next least =>
      simp only [Parts.finite.injEq, decide_eq_false_iff_not, not_le] at finite
      obtain ⟨small, rfl, rfl⟩ := finite
      have sign := ofBitVec_unpackSign small
      have zero : @unpackExponent .binary64 value.toBits.toBitVec = 0#11 := by
        apply BitVec.eq_of_toNat_eq
        rw [field]
        exact least
      refine ⟨⟨by omega, le_rfl, by decide, .inr rfl⟩, ?_, ?_⟩
      · intro empty
        have none : @unpackMantissa .binary64 value.toBits.toBitVec = 0#52 := by
          apply BitVec.eq_of_toNat_eq
          rw [fraction]
          exact empty
        change unpack .binary64 value.toBits.toBitVec = _
        rw [unpack]
        dsimp only
        rw [if_neg notSpecial, if_pos zero, dif_pos none, sign]
      · intro positive
        have some : @unpackMantissa .binary64 value.toBits.toBitVec ≠ 0#52 := by
          intro none
          have toNat_eq := congrArg BitVec.toNat none
          rw [fraction] at toNat_eq
          exact positive.ne' toNat_eq
        change unpack .binary64 value.toBits.toBitVec = _
        rw [unpack]
        dsimp only
        rw [if_neg notSpecial, if_pos zero, dif_neg some, sign]
        congr 1
        rw [zero, bias]
        rfl
    · next normal =>
      simp only [Parts.finite.injEq, decide_eq_false_iff_not, not_le] at finite
      obtain ⟨small, rfl, rfl⟩ := finite
      have sign := ofBitVec_unpackSign small
      have nonzero : @unpackExponent .binary64 value.toBits.toBitVec ≠ 0#11 := by
        intro zero
        apply normal
        have toNat_eq := congrArg BitVec.toNat zero
        rw [field] at toNat_eq
        exact toNat_eq
      refine ⟨⟨by omega, ?_, by omega, .inl (by omega)⟩, by omega, ?_⟩
      · rw [leastExponent]
        omega
      · intro positive
        change unpack .binary64 value.toBits.toBitVec = _
        rw [unpack]
        dsimp only
        rw [if_neg notSpecial, if_neg nonzero, sign]
        have leading : (1#1 ++ (@unpackMantissa .binary64 value.toBits.toBitVec)).toNat =
            value.toBits.toNat % 2 ^ 52 + 2 ^ 52 := by
          refine (toNat_leading (@unpackMantissa .binary64 value.toBits.toBitVec)).trans ?_
          rw [fraction, Nat.add_comm]
          rfl
        have scale : ((@unpackExponent .binary64 value.toBits.toBitVec).toNat : ℤ) -
            (Format.binary64.exponentBias + 52) =
              (value.toBits.toNat / 2 ^ 52 % 2 ^ 11 : ℕ) - 1075 := by
          rw [field, bias]
          rfl
        simp only [UnpackedFloat.finite.injEq, true_and]
        exact ⟨leading, scale⟩

theorem Stored.lt_of_exponent_lt {mantissa mantissa' : ℕ} {exponent exponent' : ℤ}
    (stored : Stored mantissa exponent) (stored' : Stored mantissa' exponent')
    (below : exponent < exponent') :
    (mantissa : ℚ) * 2 ^ exponent < mantissa' * 2 ^ exponent' := by
  have least := stored.leastExponent_le
  have full : 2 ^ 52 ≤ mantissa' := stored'.normal.resolve_right (by omega)
  have power_pos := two_zpow_pos exponent
  calc
    (mantissa : ℚ) * 2 ^ exponent < 2 ^ 53 * 2 ^ exponent := by
      gcongr
      exact_mod_cast stored.mantissa_lt
    _ = 2 ^ 52 * 2 ^ (exponent + 1) := by
      rw [zpow_add_one₀ two_ne_zero]
      ring
    _ ≤ mantissa' * 2 ^ exponent' := by
      gcongr
      · exact_mod_cast full
      · exact one_le_two
      · omega

private theorem compare_mantissas {mantissa mantissa' : ℕ} {exponent exponent' : ℤ}
    {number number' : ℕ}
    (stored : Stored mantissa exponent) (stored' : Stored mantissa' exponent')
    (found : whole? mantissa exponent = some number)
    (found' : whole? mantissa' exponent' = some number') :
    (compare exponent exponent').then (compare mantissa mantissa') = compare number number' := by
  have number_eq := cast_whole? found
  have number_eq' := cast_whole? found'
  rcases lt_trichotomy exponent exponent' with below | rfl | above
  · have less : number < number' := by
      have less := stored.lt_of_exponent_lt stored' below
      rw [← number_eq, ← number_eq'] at less
      exact_mod_cast less
    rw [compare_lt_iff_lt.mpr below, compare_lt_iff_lt.mpr less]
    rfl
  · have power_pos := two_zpow_pos exponent
    have order : mantissa < mantissa' ↔ number < number' := by
      rw [← Nat.cast_lt (α := ℚ), ← Nat.cast_lt (α := ℚ), number_eq, number_eq',
        mul_lt_mul_iff_left₀ power_pos]
    have order' : mantissa' < mantissa ↔ number' < number := by
      rw [← Nat.cast_lt (α := ℚ), ← Nat.cast_lt (α := ℚ), number_eq, number_eq',
        mul_lt_mul_iff_left₀ power_pos]
    rw [compare_eq_iff_eq.mpr rfl, Ordering.eq_then]
    rcases lt_trichotomy mantissa mantissa' with less | rfl | more
    · rw [compare_lt_iff_lt.mpr less, compare_lt_iff_lt.mpr (order.mp less)]
    · rw [compare_eq_iff_eq.mpr rfl, compare_eq_iff_eq.mpr (by omega)]
    · rw [compare_gt_iff_gt.mpr more, compare_gt_iff_gt.mpr (order'.mp more)]
  · have more : number' < number := by
      have more := stored'.lt_of_exponent_lt stored above
      rw [← number_eq, ← number_eq'] at more
      exact_mod_cast more
    rw [compare_gt_iff_gt.mpr above, compare_gt_iff_gt.mpr more]
    rfl

theorem whole?_eq_zero_iff {mantissa : ℕ} {exponent : ℤ} {number : ℕ}
    (found : whole? mantissa exponent = some number) : number = 0 ↔ mantissa = 0 := by
  have number_eq := cast_whole? found
  have power_pos := two_zpow_pos exponent
  rw [← Nat.cast_eq_zero (R := ℚ), ← Nat.cast_eq_zero (R := ℚ), number_eq]
  simp [power_pos.ne']

/-- Doubles that are whole numbers are compared as these. -/
theorem compare_of_isWhole {value value' : Float} {number number' : ℕ}
    (whole : IsWhole value number) (whole' : IsWhole value' number') :
    value.toModel.unpack.compare value'.toModel.unpack = some (compare number number') := by
  obtain ⟨mantissa, exponent, finite, found⟩ := whole
  obtain ⟨mantissa', exponent', finite', found'⟩ := whole'
  obtain ⟨stored, zero, nonzero⟩ := unpack_of_parts finite
  obtain ⟨stored', zero', nonzero'⟩ := unpack_of_parts finite'
  have zero_iff := whole?_eq_zero_iff found
  have zero_iff' := whole?_eq_zero_iff found'
  rcases Nat.eq_zero_or_pos mantissa with none | positive
  · rcases Nat.eq_zero_or_pos mantissa' with none' | positive'
    · rw [zero none, zero' none', zero_iff.mpr none, zero_iff'.mpr none']
      rfl
    · have above : 0 < number' := Nat.pos_of_ne_zero (mt zero_iff'.mp positive'.ne')
      rw [zero none, nonzero' positive', zero_iff.mpr none, compare_lt_iff_lt.mpr above]
      rfl
  · rcases Nat.eq_zero_or_pos mantissa' with none' | positive'
    · have above : 0 < number := Nat.pos_of_ne_zero (mt zero_iff.mp positive.ne')
      rw [nonzero positive, zero' none', zero_iff'.mpr none', compare_gt_iff_gt.mpr above]
      rfl
    · rw [nonzero positive, nonzero' positive', ← compare_mantissas stored stored' found found']
      rfl

section Comparisons

variable {left right : Float} {number number' : ℕ} (whole : IsWhole left number)
  (whole' : IsWhole right number')
include whole whole'

theorem lt_iff_of_isWhole : left < right ↔ number < number' := by
  have lt_eq : (left < right) =
      ((decide ((left.toModel.unpack.compare right.toModel.unpack == some .lt) = true)) = true) :=
    rfl
  rw [lt_eq, compare_of_isWhole whole whole', ← compare_lt_iff_lt]
  cases compare number number' <;> decide

theorem le_iff_of_isWhole : left ≤ right ↔ number ≤ number' := by
  have le_eq : (left ≤ right) =
      ((decide ((left.toModel.unpack.compare right.toModel.unpack).any (·.isLE) = true)) = true) :=
    rfl
  rw [le_eq, compare_of_isWhole whole whole', ← compare_le_iff_le]
  cases compare number number' <;> decide

theorem beq_eq_of_isWhole : (left == right) = decide (number = number') := by
  have beq_eq : (left == right) =
      (left.toModel.unpack.compare right.toModel.unpack == some .eq) := rfl
  have same : (compare number number' = .eq) = (number = number') := propext compare_eq_iff_eq
  rw [beq_eq, compare_of_isWhole whole whole', Bool.eq_iff_iff, decide_eq_true_eq, ← same]
  cases compare number number' <;> decide

end Comparisons

end Number

/-- Whether a comparison of whole numbers succeeds. -/
def Relation.compares : Relation → ℕ → ℕ → Bool
  | equal, left, right => left = right
  | unequal, left, right => left ≠ right
  | less, left, right => left < right
  | lessEqual, left, right => left ≤ right
  | greater, left, right => right < left
  | greaterEqual, left, right => right ≤ left

/-- Doubles that are whole numbers are in a relation if the numbers are. -/
theorem Relation.holds_eq_compares {left right : Float} {number number' : ℕ}
    (whole : Number.IsWhole left number) (whole' : Number.IsWhole right number')
    (relation : Relation) : relation.holds left right = relation.compares number number' := by
  have same := Number.beq_eq_of_isWhole whole whole'
  cases relation with
  | equal => exact same
  | unequal =>
    have differs : (left != right) = !(left == right) := rfl
    simp only [holds, compares, differs, same, decide_not]
  | less => simp only [holds, compares, Number.lt_iff_of_isWhole whole whole']
  | lessEqual => simp only [holds, compares, Number.le_iff_of_isWhole whole whole']
  | greater => simp only [holds, compares, Number.lt_iff_of_isWhole whole' whole]
  | greaterEqual => simp only [holds, compares, Number.le_iff_of_isWhole whole' whole]

end TeenyBasic
