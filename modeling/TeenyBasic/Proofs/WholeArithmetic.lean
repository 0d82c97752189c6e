import TeenyBasic.Proofs.WholeDoubles

/-!
# Arithmetic on doubles that are integers

A sum, a difference or a product of doubles that are integers is rounded like every other result.
As long as its magnitude is below 2^53, rounding finds nothing to drop, and the double is the exact
result (`IsInteger.apply`).  Zero is one integer but two doubles, so two doubles that are the same
integer are equal as doubles are compared (`IsInteger.beq`).
-/

namespace TeenyBasic

/-- The result of an operator on integers; a quotient is rounded towards zero. -/
def Arithmetic.onIntegers : Arithmetic → ℤ → ℤ → ℤ
  | plus, left, right => left + right
  | minus, left, right => left - right
  | times, left, right => left * right
  | divide, left, right => left.tdiv right

namespace Number

open Float.Model (Format UnpackedFloat totalExponent)
open Float.Model.UnpackedFloat

/-- How many binary places behind the point fill up the mantissa of a whole number. -/
def places (number : ℕ) : ℕ :=
  52 - number.log2

section Rounding

variable {number shift : ℕ}

theorem log2_mul_two_pow (positive : 0 < number) (shift : ℕ) :
    (number * 2 ^ shift).log2 = number.log2 + shift := by
  have low := Nat.log2_self_le positive.ne'
  have high := @Nat.lt_log2_self number
  rw [Nat.log2_eq_iff (by positivity)]
  constructor
  · rw [Nat.pow_add]
    gcongr
  · rw [Nat.add_right_comm, Nat.pow_add]
    gcongr

theorem log2_le_of_small (positive : 0 < number) (small : number < 2 ^ 53) :
    number.log2 ≤ 52 :=
  Nat.lt_succ_iff.mp ((Nat.log2_lt positive.ne').mpr small)

theorem targetExponent_shifted (positive : 0 < number) (small : number < 2 ^ 53) (shift : ℕ) :
    Format.binary64.targetExponent (totalExponent (number * 2 ^ shift) (-shift)) =
      -(places number : ℤ) := by
  have log_le := log2_le_of_small positive small
  have width : Format.binary64.mantissaBits = 53 := by decide
  have least : Format.binary64.minExponent = -1074 := by decide
  rw [Format.targetExponent, totalExponent, log2_mul_two_pow positive, width, least, places]
  omega

private theorem shiftRight_shifted (number shift : ℕ) :
    ExtendedMantissa.ofMantissaAndAccuracy (number * 2 ^ shift) .exact >>> shift =
      ExtendedMantissa.ofMantissaAndAccuracy number .exact := by
  induction shift generalizing number with
  | zero =>
    rw [pow_zero, mul_one]
    rfl
  | succ shift induction =>
    have inner : number * 2 ^ (shift + 1) = number * 2 * 2 ^ shift := by ring
    change ExtendedMantissa.shiftRightOne
      (ExtendedMantissa.ofMantissaAndAccuracy (number * 2 ^ (shift + 1)) .exact >>> shift) = _
    rw [inner, induction]
    simp [ExtendedMantissa.ofMantissaAndAccuracy, ExtendedMantissa.shiftRightOne]

theorem shiftToTargetExponent_shifted (positive : 0 < number) (small : number < 2 ^ 53)
    (long : places number ≤ shift) :
    shiftToTargetExponent .binary64 (number * 2 ^ shift) (-shift) .exact =
      (.ofMantissaAndAccuracy (number * 2 ^ places number) .exact, -(places number : ℤ)) := by
  obtain ⟨extra, rfl⟩ := Nat.exists_eq_add_of_le long
  have amount : (-(places number : ℤ) - -((places number + extra : ℕ) : ℤ)).toNat = extra := by
    omega
  rw [shiftToTargetExponent, targetExponent_shifted positive small, shiftToExponent]
  simp only [amount, pow_add, ← mul_assoc, shiftRight_shifted, Prod.mk.injEq, true_and]
  omega

theorem roundWithAccuracy_shifted (sign : Sign) (positive : 0 < number)
    (small : number < 2 ^ 53) (long : places number ≤ shift) :
    roundWithAccuracy .binary64 sign (number * 2 ^ shift) (-shift) .exact =
      .finite sign (number * 2 ^ places number) (-places number) (by positivity) := by
  have nonzero : number * 2 ^ places number ≠ 0 := by positivity
  rw [roundWithAccuracy, shiftToTargetExponent_shifted positive small long]
  dsimp only
  -- nothing was dropped, so rounding does not change the mantissa and the second shift is none
  have rounded : (ExtendedMantissa.ofMantissaAndAccuracy (number * 2 ^ places number)
      .exact).roundedMantissa = number * 2 ^ places number := rfl
  rw [rounded, shiftToTargetExponent_shifted positive small le_rfl]
  exact dif_neg nonzero

theorem round_shifted (sign : Sign) (positive : 0 < number) (small : number < 2 ^ 53)
    (shift : ℕ) :
    round .binary64 sign (number * 2 ^ shift) (-shift) =
      .finite sign (number * 2 ^ places number) (-places number) (by positivity) := by
  unfold UnpackedFloat.round decreaseExponent
  dsimp only
  rw [targetExponent_shifted positive small]
  have amount : (-(shift : ℤ) - -(places number : ℤ)).toNat = places number - shift := by omega
  have exponent_eq : -(shift : ℤ) - (places number - shift : ℕ) =
      -((shift + (places number - shift) : ℕ) : ℤ) := by omega
  rw [amount, Nat.shiftLeft_eq, mul_assoc, ← pow_add, exponent_eq]
  exact roundWithAccuracy_shifted sign positive small (by omega)

end Rounding

@[simp] theorem apply_neg (sign : Sign) (amount : ℤ) :
    (-sign).apply amount = -sign.apply amount := by
  cases sign with
  | negative => exact (neg_neg amount).symm
  | positive => rfl

private theorem natAbs_apply (sign : Sign) (amount : ℤ) :
    (sign.apply amount).natAbs = amount.natAbs := by
  cases sign with
  | negative => exact Int.natAbs_neg amount
  | positive => rfl

private theorem apply_mul (sign sign' : Sign) (amount amount' : ℤ) :
    (sign * sign').apply (amount * amount') = sign.apply amount * sign'.apply amount' := by
  cases sign with
  | negative =>
    cases sign' with
    | negative => exact (neg_mul_neg amount amount').symm
    | positive => exact (neg_mul amount amount').symm
  | positive =>
    cases sign' with
    | negative => exact (mul_neg amount amount').symm
    | positive => rfl

/-- The unpacked double is the given integer, with a mantissa of full length. -/
def Represents (number : ℤ) : UnpackedFloat → Prop
  | .zero _ => number = 0
  | .finite sign mantissa exponent _ =>
      ∃ shift : ℕ, exponent = -shift ∧ sign.apply mantissa = number * 2 ^ shift ∧
        2 ^ 52 ≤ mantissa ∧ mantissa < 2 ^ 53
  | .infinity _ => False
  | .notANumber => False

theorem represents_finite (sign : Sign) {magnitude : ℕ} (positive : 0 < magnitude)
    (small : magnitude < 2 ^ 53) :
    Represents (sign.apply magnitude)
      (.finite sign (magnitude * 2 ^ places magnitude) (-places magnitude) (by positivity)) := by
  have log_le := log2_le_of_small positive small
  have log_eq := log2_mul_two_pow positive (places magnitude)
  have full : (magnitude * 2 ^ places magnitude).log2 = 52 := by
    rw [log_eq, places]
    omega
  obtain ⟨low, high⟩ := (Nat.log2_eq_iff (by positivity)).mp full
  refine ⟨places magnitude, rfl, ?_, low, high⟩
  cases sign <;> simp [Sign.apply]

theorem magnitude_of_apply {number : ℤ} {sign : Sign} {mantissa shift : ℕ}
    (value : sign.apply mantissa = number * 2 ^ shift) (positive : 0 < mantissa) :
    mantissa = number.natAbs * 2 ^ shift ∧ sign.apply number.natAbs = number := by
  have power_pos : (0 : ℤ) < 2 ^ shift := by positivity
  have magnitude := congrArg Int.natAbs value
  rw [natAbs_apply, Int.natAbs_natCast, Int.natAbs_mul, Int.natAbs_pow] at magnitude
  refine ⟨magnitude, ?_⟩
  cases sign with
  | negative =>
    have below : number < 0 := by
      refine neg_of_mul_neg_left ?_ power_pos.le
      rw [← value, Sign.apply]
      omega
    rw [Sign.apply]
    omega
  | positive =>
    have above : 0 < number := by
      refine pos_of_mul_pos_left ?_ power_pos.le
      rw [← value, Sign.apply]
      omega
    rw [Sign.apply]
    omega

private theorem represents_roundWithAccuracy {number : ℤ} {sign : Sign} {mantissa shift : ℕ}
    (value : sign.apply mantissa = number * 2 ^ shift) (long : 2 ^ 52 ≤ mantissa)
    (small : |number| < 2 ^ 53) :
    Represents number (roundWithAccuracy .binary64 sign mantissa (-shift) .exact) := by
  obtain ⟨mantissa_eq, apply_eq⟩ := magnitude_of_apply value (by omega)
  have positive : 0 < number.natAbs := by
    by_contra none
    rw [Nat.eq_zero_of_not_pos none] at mantissa_eq
    omega
  have natAbs_small : number.natAbs < 2 ^ 53 := by
    rw [Int.abs_eq_natAbs] at small
    exact_mod_cast small
  have room : places number.natAbs ≤ shift := by
    have log_le : 52 ≤ mantissa.log2 := (Nat.le_log2 (by omega)).mpr long
    rw [mantissa_eq, log2_mul_two_pow positive] at log_le
    rw [places]
    omega
  rw [mantissa_eq, roundWithAccuracy_shifted sign positive natAbs_small room]
  nth_rewrite 1 [← apply_eq]
  exact represents_finite sign positive natAbs_small

theorem represents_normalize {number : ℤ} (small : |number| < 2 ^ 53) (shift : ℕ)
    (zeroSign : Sign) :
    Represents number (normalize .binary64 (number * 2 ^ shift) (-shift) zeroSign) := by
  obtain ⟨below, above⟩ := abs_lt.mp small
  have power_pos : (0 : ℤ) < 2 ^ shift := by positivity
  unfold UnpackedFloat.normalize
  rcases lt_trichotomy number 0 with negative | rfl | positive
  · obtain ⟨magnitude, rfl⟩ : ∃ magnitude : ℕ, number = -magnitude := ⟨number.natAbs, by omega⟩
    have less : -(magnitude : ℤ) * 2 ^ shift < 0 := mul_neg_of_neg_of_pos negative power_pos
    have natural : (-(-(magnitude : ℤ) * 2 ^ shift)).toNat = magnitude * 2 ^ shift := by
      rw [neg_mul, neg_neg]
      exact_mod_cast Int.toNat_natCast (magnitude * 2 ^ shift)
    rw [compare_lt_iff_lt.mpr less]
    dsimp only
    rw [natural, round_shifted .negative (by omega) (by omega)]
    exact represents_finite .negative (by omega) (by omega)
  · rw [zero_mul, compare_eq_iff_eq.mpr rfl]
    rfl
  · obtain ⟨magnitude, rfl⟩ : ∃ magnitude : ℕ, number = magnitude := ⟨number.natAbs, by omega⟩
    have greater : 0 < (magnitude : ℤ) * 2 ^ shift := mul_pos positive power_pos
    have natural : ((magnitude : ℤ) * 2 ^ shift).toNat = magnitude * 2 ^ shift := by
      exact_mod_cast Int.toNat_natCast (magnitude * 2 ^ shift)
    rw [compare_gt_iff_gt.mpr greater]
    dsimp only
    rw [natural, round_shifted .positive (by omega) (by omega)]
    exact represents_finite .positive (by omega) (by omega)

namespace Represents

variable {number number' : ℤ} {unpacked unpacked' : UnpackedFloat}

theorem zero_or_finite (represents : Represents number unpacked) :
    (number = 0 ∧ ∃ sign, unpacked = .zero sign) ∨
      ∃ sign mantissa exponent positive, unpacked = .finite sign mantissa exponent positive := by
  cases unpacked with
  | infinity sign => exact represents.elim
  | notANumber => exact represents.elim
  | zero sign => exact .inl ⟨represents, sign, rfl⟩
  | finite sign mantissa exponent positive =>
    exact .inr ⟨sign, mantissa, exponent, positive, rfl⟩

/-- A double that is an integer and not zero is so in one way. -/
theorem finite_eq {sign : Sign} {mantissa : ℕ} {exponent : ℤ} {positive : 0 < mantissa}
    (represents : Represents number (.finite sign mantissa exponent positive)) :
    mantissa = number.natAbs * 2 ^ places number.natAbs ∧ exponent = -places number.natAbs ∧
      sign.apply number.natAbs = number := by
  obtain ⟨shift, rfl, value, long, short⟩ := represents
  obtain ⟨mantissa_eq, apply_eq⟩ := magnitude_of_apply value positive
  have natAbs_pos : 0 < number.natAbs := Nat.pos_of_mul_pos_right (mantissa_eq ▸ positive)
  have full : mantissa.log2 = 52 := (Nat.log2_eq_iff positive.ne').mpr ⟨long, short⟩
  have shift_eq : shift = places number.natAbs := by
    rw [mantissa_eq, log2_mul_two_pow natAbs_pos] at full
    rw [places]
    omega
  exact ⟨shift_eq ▸ mantissa_eq, shift_eq ▸ rfl, apply_eq⟩

theorem natAbs_pos {sign : Sign} {mantissa : ℕ} {exponent : ℤ} {positive : 0 < mantissa}
    (represents : Represents number (.finite sign mantissa exponent positive)) :
    0 < number.natAbs := by
  obtain ⟨mantissa_eq, -, -⟩ := represents.finite_eq
  exact Nat.pos_of_mul_pos_right (mantissa_eq ▸ positive)

/-- The bits of a double that is an integer keep it. -/
theorem unpack_pack (represents : Represents number unpacked) :
    unpack .binary64 (pack .binary64 unpacked) = unpacked := by
  obtain ⟨-, sign, rfl⟩ | ⟨sign, mantissa, exponent, positive, rfl⟩ := represents.zero_or_finite
  · cases sign <;> rfl
  · obtain ⟨-, exponent_eq, -⟩ := represents.finite_eq
    obtain ⟨shift, rfl, -, long, short⟩ := represents
    have few : shift ≤ 52 := by
      rw [places] at exponent_eq
      omega
    have biased_eq : -(shift : ℤ) = ((1075 - shift : ℕ) : ℤ) - 1075 := by omega
    rw [biased_eq]
    exact unpack_pack_normal sign positive long short (by omega) (by omega)

theorem neg (represents : Represents number unpacked) : Represents (-number) unpacked.neg := by
  obtain ⟨rfl, sign, rfl⟩ | ⟨sign, mantissa, exponent, positive, rfl⟩ := represents.zero_or_finite
  · exact neg_zero
  · obtain ⟨shift, rfl, value, long, short⟩ := represents
    refine ⟨shift, rfl, ?_, long, short⟩
    rw [neg_mul, ← value, apply_neg]

/-- The mantissa of a double that is brought to an exponent below its own. -/
theorem aligned {sign : Sign} {mantissa shift most : ℕ}
    (value : sign.apply mantissa = number * 2 ^ shift) (below : shift ≤ most) :
    sign.apply ((mantissa <<< (-(shift : ℤ) - -(most : ℤ)).toNat : ℕ) : ℤ) = number * 2 ^ most := by
  obtain ⟨extra, rfl⟩ := Nat.exists_eq_add_of_le below
  have amount : (-(shift : ℤ) - -((shift + extra : ℕ) : ℤ)).toNat = extra := by omega
  rw [amount, Nat.shiftLeft_eq, pow_add, ← mul_assoc, ← value]
  cases sign <;> simp [Sign.apply]

private theorem add_finite {sign sign' : Sign} {mantissa mantissa' : ℕ} {exponent exponent' : ℤ}
    {positive : 0 < mantissa} {positive' : 0 < mantissa'}
    (represents : Represents number (.finite sign mantissa exponent positive))
    (represents' : Represents number' (.finite sign' mantissa' exponent' positive'))
    (small : |number + number'| < 2 ^ 53) :
    Represents (number + number') (UnpackedFloat.add .binary64
      (.finite sign mantissa exponent positive) (.finite sign' mantissa' exponent' positive')) := by
  obtain ⟨shift, rfl, value, -, -⟩ := represents
  obtain ⟨shift', rfl, value', -, -⟩ := represents'
  have least : min (-(shift : ℤ)) (-(shift' : ℤ)) = -((max shift shift' : ℕ) : ℤ) := by omega
  unfold UnpackedFloat.add decreaseExponent
  dsimp only
  rw [least, aligned value (le_max_left _ _), aligned value' (le_max_right _ _), ← add_mul]
  exact represents_normalize small _ _

theorem add (represents : Represents number unpacked) (represents' : Represents number' unpacked')
    (small : |number + number'| < 2 ^ 53) :
    Represents (number + number') (unpacked.add .binary64 unpacked') := by
  obtain ⟨rfl, sign, rfl⟩ | ⟨sign, mantissa, exponent, positive, rfl⟩ := represents.zero_or_finite
  · rw [zero_add]
    obtain ⟨rfl, sign', rfl⟩ | ⟨sign', mantissa', exponent', positive', rfl⟩ :=
      represents'.zero_or_finite
    · cases sign <;> cases sign' <;> rfl
    · exact represents'
  · obtain ⟨rfl, sign', rfl⟩ | ⟨sign', mantissa', exponent', positive', rfl⟩ :=
      represents'.zero_or_finite
    · rw [add_zero]
      exact represents
    · exact represents.add_finite represents' small

private theorem sub_eq_add (unpacked unpacked' : UnpackedFloat) :
    unpacked.sub .binary64 unpacked' = unpacked.add .binary64 unpacked'.neg := by
  cases unpacked <;> cases unpacked' <;> try rfl
  simp only [UnpackedFloat.sub, UnpackedFloat.add, UnpackedFloat.neg, apply_neg, sub_eq_add_neg]

theorem sub (represents : Represents number unpacked) (represents' : Represents number' unpacked')
    (small : |number - number'| < 2 ^ 53) :
    Represents (number - number') (unpacked.sub .binary64 unpacked') := by
  rw [sub_eq_add_neg] at small
  rw [sub_eq_add, sub_eq_add_neg]
  exact represents.add represents'.neg small

private theorem mul_finite {sign sign' : Sign} {mantissa mantissa' : ℕ} {exponent exponent' : ℤ}
    {positive : 0 < mantissa} {positive' : 0 < mantissa'}
    (represents : Represents number (.finite sign mantissa exponent positive))
    (represents' : Represents number' (.finite sign' mantissa' exponent' positive'))
    (small : |number * number'| < 2 ^ 53) :
    Represents (number * number') (UnpackedFloat.mul .binary64
      (.finite sign mantissa exponent positive) (.finite sign' mantissa' exponent' positive')) := by
  obtain ⟨shift, rfl, value, long, -⟩ := represents
  obtain ⟨shift', rfl, value', long', -⟩ := represents'
  have exponent_eq : -(shift : ℤ) + -(shift' : ℤ) = -((shift + shift' : ℕ) : ℤ) := by omega
  unfold UnpackedFloat.mul
  dsimp only
  rw [exponent_eq]
  refine represents_roundWithAccuracy ?_ ?_ small
  · calc
      (sign * sign').apply ((mantissa * mantissa' : ℕ) : ℤ) =
          sign.apply mantissa * sign'.apply mantissa' := by
        rw [Nat.cast_mul, apply_mul]
      _ = number * number' * 2 ^ (shift + shift') := by
        rw [value, value', pow_add]
        ring
  · calc
      2 ^ 52 ≤ mantissa := long
      _ ≤ mantissa * mantissa' := Nat.le_mul_of_pos_right mantissa positive'

theorem mul (represents : Represents number unpacked) (represents' : Represents number' unpacked')
    (small : |number * number'| < 2 ^ 53) :
    Represents (number * number') (unpacked.mul .binary64 unpacked') := by
  obtain ⟨rfl, sign, rfl⟩ | ⟨sign, mantissa, exponent, positive, rfl⟩ := represents.zero_or_finite
  · rw [zero_mul]
    obtain ⟨-, sign', rfl⟩ | ⟨sign', mantissa', exponent', positive', rfl⟩ :=
      represents'.zero_or_finite
    · rfl
    · rfl
  · obtain ⟨rfl, sign', rfl⟩ | ⟨sign', mantissa', exponent', positive', rfl⟩ :=
      represents'.zero_or_finite
    · rw [mul_zero]
      rfl
    · exact represents.mul_finite represents' small

theorem sign_eq {sign sign' : Sign} {mantissa mantissa' : ℕ} {exponent exponent' : ℤ}
    {positive : 0 < mantissa} {positive' : 0 < mantissa'}
    (represents : Represents number (.finite sign mantissa exponent positive))
    (represents' : Represents number (.finite sign' mantissa' exponent' positive')) :
    sign = sign' := by
  have nonzero := represents.natAbs_pos
  obtain ⟨-, -, apply_eq⟩ := represents.finite_eq
  obtain ⟨-, -, apply_eq'⟩ := represents'.finite_eq
  cases sign with
  | negative =>
    cases sign' with
    | negative => rfl
    | positive =>
      simp only [Sign.apply] at apply_eq apply_eq'
      omega
  | positive =>
    cases sign' with
    | negative =>
      simp only [Sign.apply] at apply_eq apply_eq'
      omega
    | positive => rfl

/-- Doubles that are the same integer are equal as doubles are compared. -/
theorem compare_eq (represents : Represents number unpacked)
    (represents' : Represents number unpacked') : unpacked.compare unpacked' = some .eq := by
  obtain ⟨rfl, sign, rfl⟩ | ⟨sign, mantissa, exponent, positive, rfl⟩ := represents.zero_or_finite
  · obtain ⟨-, sign', rfl⟩ | ⟨sign', mantissa', exponent', positive', rfl⟩ :=
      represents'.zero_or_finite
    · rfl
    · exact absurd represents'.natAbs_pos (lt_irrefl 0)
  · obtain ⟨rfl, sign', rfl⟩ | ⟨sign', mantissa', exponent', positive', rfl⟩ :=
      represents'.zero_or_finite
    · exact absurd represents.natAbs_pos (lt_irrefl 0)
    · obtain rfl := represents.sign_eq represents'
      obtain ⟨rfl, rfl, -⟩ := represents.finite_eq
      obtain ⟨rfl, rfl, -⟩ := represents'.finite_eq
      cases sign <;> simp [UnpackedFloat.compare]

end Represents

def IsInteger (value : Float) (number : ℤ) : Prop :=
  Represents number value.toModel.unpack

theorem isInteger_ofModel {unpacked : UnpackedFloat} {number : ℤ}
    (represents : Represents number unpacked) :
    IsInteger (.ofModel (.pack unpacked)) number := by
  have kept : (Float.Model.pack unpacked).unpack =
      unpack .binary64 (pack .binary64 unpacked) := rfl
  change Represents number (Float.Model.pack unpacked).unpack
  rw [kept, represents.unpack_pack]
  exact represents

namespace IsInteger

variable {value value' : Float} {number number' : ℤ}

theorem neg (integer : IsInteger value number) : IsInteger value.neg (-number) :=
  isInteger_ofModel (Represents.neg integer)

theorem apply {operator : Arithmetic} (integer : IsInteger value number)
    (integer' : IsInteger value' number') (exact : operator ≠ .divide)
    (small : |operator.onIntegers number number'| < 2 ^ 53) :
    IsInteger (operator.apply value value') (operator.onIntegers number number') := by
  cases operator with
  | plus => exact isInteger_ofModel (Represents.add integer integer' small)
  | minus => exact isInteger_ofModel (Represents.sub integer integer' small)
  | times => exact isInteger_ofModel (Represents.mul integer integer' small)
  | divide => exact absurd rfl exact

theorem beq (integer : IsInteger value number) (integer' : IsInteger value' number) :
    (value == value') = true := by
  have beq_eq : (value == value') =
      (value.toModel.unpack.compare value'.toModel.unpack == some .eq) := rfl
  rw [beq_eq, Represents.compare_eq integer integer']
  rfl

end IsInteger

/-- The conversion of a 32-bit integer is exact. -/
theorem isInteger_ofInt32 (word : Int32) :
    IsInteger (.ofModel (.ofInt32 word)) word.toInt := by
  have below := word.le_toInt
  have above := word.toInt_lt
  have small : |word.toInt| < 2 ^ 53 := by
    rw [abs_lt]
    omega
  have represents := represents_normalize small 0 .positive
  rw [pow_zero, mul_one, Nat.cast_zero, neg_zero] at represents
  exact isInteger_ofModel represents

private theorem Stored.exponent_nonpos {mantissa : ℕ} {exponent : ℤ} {number : ℕ}
    (stored : Stored mantissa exponent) (found : whole? mantissa exponent = some number)
    (small : number < 2 ^ 53) : exponent ≤ 0 := by
  by_contra above
  have full : 2 ^ 52 ≤ mantissa := stored.normal.resolve_right (by rw [leastExponent]; omega)
  have large : (2 : ℚ) ^ 53 ≤ (number : ℚ) := by
    calc
      (2 : ℚ) ^ 53 = (2 : ℚ) ^ 52 * (2 : ℚ) ^ (1 : ℤ) := by norm_num
      _ ≤ (mantissa : ℚ) * (2 : ℚ) ^ exponent := by
        gcongr
        · exact_mod_cast full
        · exact one_le_two
        · omega
      _ = (number : ℚ) := (cast_whole? found).symm
  exact absurd small (not_lt.mpr (by exact_mod_cast large))

/-- A whole number below 2^53 is an integer with a mantissa of full length. -/
theorem IsWhole.isInteger {value : Float} {number : ℕ} (whole : IsWhole value number)
    (small : number < 2 ^ 53) : IsInteger value number := by
  obtain ⟨mantissa, exponent, finite, found⟩ := whole
  obtain ⟨stored, zero, nonzero⟩ := unpack_of_parts finite
  have zero_iff := whole?_eq_zero_iff found
  rw [IsInteger]
  rcases Nat.eq_zero_or_pos mantissa with none | positive
  · rw [zero none, zero_iff.mpr none]
    rfl
  · have number_eq := cast_whole? found
    have number_pos : 0 < number := Nat.pos_of_ne_zero (mt zero_iff.mp positive.ne')
    rw [nonzero positive]
    have below := stored.exponent_nonpos found small
    obtain ⟨shift, rfl⟩ : ∃ shift : ℕ, exponent = -shift := ⟨(-exponent).toNat, by omega⟩
    have mantissa_eq : mantissa = number * 2 ^ shift := by
      rw [zpow_neg, zpow_natCast, eq_mul_inv_iff_mul_eq₀ (by positivity)] at number_eq
      exact_mod_cast number_eq.symm
    refine ⟨shift, rfl, ?_, ?_, stored.mantissa_lt⟩
    · rw [mantissa_eq]
      norm_cast
    · refine stored.normal.resolve_right fun least => ?_
      rw [leastExponent] at least
      have short := stored.mantissa_lt
      have long : 2 ^ 53 ≤ number * 2 ^ shift := by
        calc
          2 ^ 53 ≤ 2 ^ shift := Nat.pow_le_pow_right two_pos (by omega)
          _ ≤ number * 2 ^ shift := Nat.le_mul_of_pos_left _ number_pos
      rw [← mantissa_eq] at long
      omega

end Number

end TeenyBasic
