import Mathlib
import TeenyBasic.Number.Decimal
import TeenyBasic.Proofs.DoubleBits

/-!
# Rounding to the nearest double

The numbers that round to a stored magnitude form an interval around it (`Number.RoundsTo`).
`Number.nearestBits_eq` is the main statement: a quotient in this interval is rounded to the bits
of the magnitude.
-/

namespace TeenyBasic

namespace Number

/-- The number rounds to `mantissa * 2 ^ exponent`; the ends of the interval do so only if the
mantissa is even. -/
structure RoundsTo (number : ℚ) (mantissa : ℕ) (exponent : ℤ) : Prop where
  low_le : (4 * mantissa - quartersBelow mantissa exponent) * (2 : ℚ) ^ exponent ≤ 4 * number
  le_high : 4 * number ≤ (4 * mantissa + 2) * (2 : ℚ) ^ exponent
  low_lt : mantissa % 2 = 1 →
    (4 * mantissa - quartersBelow mantissa exponent) * (2 : ℚ) ^ exponent < 4 * number
  lt_high : mantissa % 2 = 1 → 4 * number < (4 * mantissa + 2) * (2 : ℚ) ^ exponent

theorem zpow_eq_div (base : ℕ) (exponent : ℤ) :
    (base : ℚ) ^ exponent =
      ((base ^ exponent.toNat : ℕ) : ℚ) / ((base ^ (-exponent).toNat : ℕ) : ℚ) := by
  rcases le_total 0 exponent with up | down
  · obtain ⟨steps, rfl⟩ := Int.eq_ofNat_of_zero_le up
    simp
  · obtain ⟨steps, equal⟩ := Int.eq_ofNat_of_zero_le (Int.neg_nonneg_of_nonpos down)
    obtain rfl : exponent = -(steps : ℤ) := by omega
    simp

theorem two_zpow_pos (exponent : ℤ) : (0 : ℚ) < 2 ^ exponent :=
  zpow_pos two_pos exponent

/-- Comparing a power with a quotient needs whole numbers only. -/
theorem zpow_le_div_iff {base denominator : ℕ} (positive : 0 < base) (below : 0 < denominator)
    (numerator : ℕ) (exponent : ℤ) :
    (base : ℚ) ^ exponent ≤ numerator / denominator ↔
      denominator * base ^ exponent.toNat ≤ numerator * base ^ (-exponent).toNat := by
  have below_pos : (0 : ℚ) < denominator := by exact_mod_cast below
  have power_pos : (0 : ℚ) < (base ^ (-exponent).toNat : ℕ) := by
    exact_mod_cast Nat.pow_pos positive
  rw [zpow_eq_div, div_le_div_iff₀ power_pos below_pos, mul_comm]
  exact_mod_cast Iff.rfl

/-- The logarithm of a quotient is the exponent of the greatest power of two below it. -/
theorem quotientLog2_bounds {numerator denominator : ℕ} (above : 0 < numerator)
    (below : 0 < denominator) :
    (2 : ℚ) ^ quotientLog2 numerator denominator ≤ numerator / denominator ∧
      (numerator / denominator : ℚ) < 2 ^ (quotientLog2 numerator denominator + 1) := by
  have below_pos : (0 : ℚ) < denominator := by exact_mod_cast below
  have le_numerator : (2 : ℚ) ^ (numerator.log2 : ℤ) ≤ numerator := by
    exact_mod_cast Nat.log2_self_le (Nat.pos_iff_ne_zero.mp above)
  have numerator_lt : (numerator : ℚ) < 2 ^ ((numerator.log2 : ℤ) + 1) := by
    exact_mod_cast Nat.lt_log2_self
  have le_denominator : (2 : ℚ) ^ (denominator.log2 : ℤ) ≤ denominator := by
    exact_mod_cast Nat.log2_self_le (Nat.pos_iff_ne_zero.mp below)
  have denominator_lt : (denominator : ℚ) < 2 ^ ((denominator.log2 : ℤ) + 1) := by
    exact_mod_cast Nat.lt_log2_self
  have test := zpow_le_div_iff two_pos below numerator (numerator.log2 - denominator.log2)
  unfold quotientLog2
  dsimp only
  simp only [Nat.pow_eq]
  generalize numerator.log2 = high at *
  generalize denominator.log2 = low at *
  split
  · next holds =>
    refine ⟨test.mpr holds, ?_⟩
    rw [div_lt_iff₀ below_pos]
    calc (numerator : ℚ) < 2 ^ ((high : ℤ) + 1) := numerator_lt
      _ = 2 ^ ((high : ℤ) - low + 1) * 2 ^ (low : ℤ) := by
        rw [← zpow_add₀ two_ne_zero]
        congr 1
        omega
      _ ≤ 2 ^ ((high : ℤ) - low + 1) * denominator :=
        mul_le_mul_of_nonneg_left le_denominator (two_zpow_pos _).le
  · next fails =>
    refine ⟨?_, ?_⟩
    · rw [le_div_iff₀ below_pos]
      calc (2 : ℚ) ^ ((high : ℤ) - low - 1) * denominator
          ≤ 2 ^ ((high : ℤ) - low - 1) * 2 ^ ((low : ℤ) + 1) :=
            mul_le_mul_of_nonneg_left denominator_lt.le (two_zpow_pos _).le
        _ = 2 ^ (high : ℤ) := by
          rw [← zpow_add₀ two_ne_zero]
          congr 1
          omega
        _ ≤ numerator := le_numerator
    · rw [sub_add_cancel]
      exact lt_of_not_ge (mt test.mp fails)

/-- Rounding gives the whole number at most half a unit away, and the even one of two. -/
theorem roundHalfEven_eq {numerator denominator nearest : ℕ} (positive : 0 < denominator)
    (low_le : 2 * (denominator * nearest) ≤ 2 * numerator + denominator)
    (le_high : 2 * numerator ≤ 2 * (denominator * nearest) + denominator)
    (low_lt : nearest % 2 = 1 → 2 * (denominator * nearest) < 2 * numerator + denominator)
    (lt_high : nearest % 2 = 1 → 2 * numerator < 2 * (denominator * nearest) + denominator) :
    roundHalfEven numerator denominator = nearest := by
  have division := Nat.div_add_mod numerator denominator
  have remainder := Nat.mod_lt numerator positive
  unfold roundHalfEven
  dsimp only
  generalize numerator / denominator = quotient at division ⊢
  generalize numerator % denominator = rest at division remainder ⊢
  have quotient_le : quotient ≤ nearest := by
    by_contra above
    have step := Nat.mul_le_mul_left denominator (Nat.succ_le_of_lt (Nat.lt_of_not_le above))
    rw [Nat.mul_succ] at step
    omega
  have le_succ : nearest ≤ quotient + 1 := by
    by_contra above
    have step := Nat.mul_le_mul_left denominator (Nat.succ_le_of_lt (Nat.lt_of_not_le above))
    rw [Nat.mul_succ, Nat.mul_succ] at step
    omega
  obtain rfl | rfl : nearest = quotient ∨ nearest = quotient + 1 := by omega
  · split
    · rfl
    · split
      · omega
      · split <;> omega
  · rw [Nat.mul_succ] at low_le le_high low_lt lt_high
    split
    · omega
    · split
      · rfl
      · split <;> omega

theorem quartersBelow_le (mantissa : ℕ) (exponent : ℤ) : quartersBelow mantissa exponent ≤ 2 := by
  unfold quartersBelow
  split <;> decide

section Interval

variable {number : ℚ} {mantissa : ℕ} {exponent : ℤ}

private theorem Stored.magnitudeBits_le (stored : Stored mantissa exponent) :
    magnitudeBits mantissa exponent ≤ infinityBits := by
  have short := stored.mantissa_lt
  have small := stored.exponent_le
  have least := stored.leastExponent_le
  rw [leastExponent] at least
  rw [magnitudeBits, infinityBits, leastExponent, Nat.pow_eq]
  omega

theorem half_below_le (mantissa : ℕ) (exponent : ℤ) :
    (4 * mantissa - 2) * (2 : ℚ) ^ exponent ≤
      (4 * mantissa - quartersBelow mantissa exponent) * (2 : ℚ) ^ exponent := by
  have quarters : (quartersBelow mantissa exponent : ℚ) ≤ 2 := by
    exact_mod_cast quartersBelow_le mantissa exponent
  exact mul_le_mul_of_nonneg_right (by linarith) (two_zpow_pos exponent).le

theorem RoundsTo.low_le_half (rounds : RoundsTo number mantissa exponent) :
    (2 * mantissa - 1) * (2 : ℚ) ^ exponent ≤ 2 * number := by
  have half_le := half_below_le mantissa exponent
  have low_le := rounds.low_le
  linarith

private theorem RoundsTo.low_lt_half (rounds : RoundsTo number mantissa exponent)
    (odd : mantissa % 2 = 1) : (2 * mantissa - 1) * (2 : ℚ) ^ exponent < 2 * number := by
  have half_le := half_below_le mantissa exponent
  have low_lt := rounds.low_lt odd
  linarith

theorem RoundsTo.le_high_half (rounds : RoundsTo number mantissa exponent) :
    2 * number ≤ (2 * mantissa + 1) * (2 : ℚ) ^ exponent := by
  have le_high := rounds.le_high
  linarith

private theorem RoundsTo.lt_high_half (rounds : RoundsTo number mantissa exponent)
    (odd : mantissa % 2 = 1) : 2 * number < (2 * mantissa + 1) * (2 : ℚ) ^ exponent := by
  have lt_high := rounds.lt_high odd
  linarith

/-- What lies between two numbers that round to a magnitude rounds to it as well. -/
theorem RoundsTo.of_between {low high : ℚ} (lower : RoundsTo low mantissa exponent)
    (upper : RoundsTo high mantissa exponent) (low_le : low ≤ number) (le_high : number ≤ high) :
    RoundsTo number mantissa exponent where
  low_le := lower.low_le.trans (by linarith)
  le_high := le_trans (by linarith) upper.le_high
  low_lt odd := (lower.low_lt odd).trans_le (by linarith)
  lt_high odd := lt_of_le_of_lt (by linarith) (upper.lt_high odd)

theorem RoundsTo.pow_le (rounds : RoundsTo number mantissa exponent) (positive : 0 < mantissa) :
    2 ^ (exponent - 1) ≤ number := by
  have one_le : (1 : ℚ) ≤ mantissa := by exact_mod_cast positive
  have power_pos := two_zpow_pos exponent
  have low_le := rounds.low_le_half
  rw [zpow_sub_one₀ two_ne_zero]
  nlinarith

theorem RoundsTo.pos (rounds : RoundsTo number mantissa exponent) (positive : 0 < mantissa) :
    0 < number :=
  (two_zpow_pos _).trans_le (rounds.pow_le positive)

theorem RoundsTo.lt_pow (rounds : RoundsTo number mantissa exponent)
    (stored : Stored mantissa exponent) : number < 2 ^ (53 + exponent) := by
  have short : (mantissa : ℚ) + 1 ≤ 2 ^ 53 := by exact_mod_cast stored.mantissa_lt
  have power_pos := two_zpow_pos exponent
  have le_high := rounds.le_high_half
  rw [zpow_add₀ two_ne_zero]
  have : (2 : ℚ) ^ (53 : ℤ) = 2 ^ 53 := by norm_cast
  nlinarith

/-- A number below a power of two that rounds up to it: there the doubles below lie closer. -/
theorem RoundsTo.of_lt_pow (rounds : RoundsTo number mantissa exponent)
    (stored : Stored mantissa exponent) (notLeast : leastExponent < exponent)
    (number_lt : number < 2 ^ (52 + exponent)) :
    mantissa = 2 ^ 52 ∧ (2 ^ 54 - 1) * (2 : ℚ) ^ (exponent - 1) ≤ 2 * number := by
  have power_pos := two_zpow_pos exponent
  have low_le := rounds.low_le
  rw [zpow_add₀ two_ne_zero, show (2 : ℚ) ^ (52 : ℤ) = 2 ^ 52 by norm_cast] at number_lt
  have full : 2 ^ 52 ≤ mantissa := stored.normal.resolve_right (by omega)
  have mantissa_eq : mantissa = 2 ^ 52 := by
    by_contra other
    have above : (2 ^ 52 : ℚ) + 1 ≤ mantissa := by
      exact_mod_cast Nat.lt_of_le_of_ne full (Ne.symm other)
    have low_le := rounds.low_le_half
    nlinarith
  refine ⟨mantissa_eq, ?_⟩
  have quarter : quartersBelow mantissa exponent = 1 := by
    rw [quartersBelow, mantissa_eq, decide_eq_true notLeast]
    rfl
  have halved : (2 : ℚ) ^ exponent = 2 ^ (exponent - 1) * 2 := by
    rw [← zpow_add_one₀ two_ne_zero, sub_add_cancel]
  rw [quarter, mantissa_eq, halved] at low_le
  push_cast at low_le
  linarith

end Interval

section Rounding

variable {numerator denominator : ℕ}

/-- Rounding a quotient on the grid of a power of two. -/
theorem roundHalfEven_grid {nearest : ℕ} {exponent : ℤ} (below : 0 < denominator)
    (low_le : (2 * nearest - 1) * (2 : ℚ) ^ exponent ≤ 2 * (numerator / denominator))
    (le_high : 2 * (numerator / denominator) ≤ (2 * nearest + 1) * (2 : ℚ) ^ exponent)
    (low_lt : nearest % 2 = 1 →
      (2 * nearest - 1) * (2 : ℚ) ^ exponent < 2 * (numerator / denominator))
    (lt_high : nearest % 2 = 1 →
      2 * (numerator / denominator) < (2 * nearest + 1) * (2 : ℚ) ^ exponent) :
    roundHalfEven (numerator * 2 ^ (-exponent).toNat) (denominator * 2 ^ exponent.toNat) =
      nearest := by
  have power_pos : 0 < 2 ^ exponent.toNat := Nat.two_pow_pos _
  have scale_pos : 0 < 2 ^ (-exponent).toNat := Nat.two_pow_pos _
  have power_eq := zpow_eq_div 2 exponent
  rw [Nat.cast_two] at power_eq
  rw [power_eq] at low_le le_high low_lt lt_high
  generalize 2 ^ exponent.toNat = power at *
  generalize 2 ^ (-exponent).toNat = scale at *
  have below_pos : (0 : ℚ) < denominator := by exact_mod_cast below
  have scale_pos' : (0 : ℚ) < scale := by exact_mod_cast scale_pos
  field_simp at low_le le_high low_lt lt_high
  refine roundHalfEven_eq (Nat.mul_pos below power_pos) ?_ ?_ ?_ ?_
  · rw [← Nat.cast_le (α := ℚ)]
    push_cast
    linarith
  · rw [← Nat.cast_le (α := ℚ)]
    push_cast
    linarith
  · intro odd
    have low_lt := low_lt odd
    rw [← Nat.cast_lt (α := ℚ)]
    push_cast
    linarith
  · intro odd
    have lt_high := lt_high odd
    rw [← Nat.cast_lt (α := ℚ)]
    push_cast
    linarith

theorem nearestBits_of_grid {nearest : ℕ} {exponent : ℤ} (above : 0 < numerator)
    (grid : max leastExponent (quotientLog2 numerator denominator - 52) = exponent)
    (rounded : roundHalfEven (numerator * 2 ^ (-exponent).toNat)
      (denominator * 2 ^ exponent.toNat) = nearest) :
    nearestBits numerator denominator = min infinityBits (magnitudeBits nearest exponent) := by
  unfold nearestBits
  simp only [Nat.pow_eq, grid, rounded]
  rw [if_neg (Nat.pos_iff_ne_zero.mp above), magnitudeBits]

/-- A quotient in the interval of a stored magnitude is rounded to its bits. -/
theorem nearestBits_eq {mantissa : ℕ} {exponent : ℤ} (below : 0 < denominator)
    (stored : Stored mantissa exponent) (positive : 0 < mantissa)
    (rounds : RoundsTo (numerator / denominator) mantissa exponent) :
    nearestBits numerator denominator = magnitudeBits mantissa exponent := by
  have number_pos := rounds.pos positive
  have above : 0 < numerator := by
    by_contra zero
    rw [Nat.eq_zero_of_not_pos zero, Nat.cast_zero, zero_div] at number_pos
    exact lt_irrefl _ number_pos
  obtain ⟨log_le, lt_log⟩ := quotientLog2_bounds above below
  have log_lt : quotientLog2 numerator denominator < 53 + exponent :=
    (zpow_lt_zpow_iff_right₀ one_lt_two).mp (lt_of_le_of_lt log_le (rounds.lt_pow stored))
  have least := stored.leastExponent_le
  rw [← Nat.min_eq_right (stored.magnitudeBits_le)]
  by_cases fine : exponent = leastExponent ∨ 52 + exponent ≤ quotientLog2 numerator denominator
  · -- The quotient is rounded on the grid of the magnitude itself.
    have grid : max leastExponent (quotientLog2 numerator denominator - 52) = exponent := by
      omega
    exact nearestBits_of_grid above grid (roundHalfEven_grid below rounds.low_le_half
      rounds.le_high_half rounds.low_lt_half rounds.lt_high_half)
  · -- The quotient lies below a power of two that it is rounded up to, on the finer grid there.
    push Not at fine
    obtain ⟨notLeast, coarse⟩ := fine
    have number_lt : (numerator / denominator : ℚ) < 2 ^ (52 + exponent) :=
      lt_of_lt_of_le lt_log (zpow_le_zpow_right₀ one_le_two (by omega))
    obtain ⟨rfl, low_le⟩ := rounds.of_lt_pow stored (by omega) number_lt
    have number_ge : (2 : ℚ) ^ (51 + exponent) ≤ numerator / denominator := by
      have power_pos := two_zpow_pos (exponent - 1)
      rw [show 51 + exponent = 52 + (exponent - 1) by omega, zpow_add₀ two_ne_zero,
        show (2 : ℚ) ^ (52 : ℤ) = 2 ^ 52 by norm_cast]
      linarith
    have log_ge : 51 + exponent < quotientLog2 numerator denominator + 1 :=
      (zpow_lt_zpow_iff_right₀ one_lt_two).mp (lt_of_le_of_lt number_ge lt_log)
    have grid : max leastExponent (quotientLog2 numerator denominator - 52) = exponent - 1 := by
      omega
    have bits_eq : magnitudeBits (2 ^ 52) exponent = magnitudeBits (2 ^ 53) (exponent - 1) := by
      rw [magnitudeBits, magnitudeBits]
      omega
    rw [bits_eq]
    refine nearestBits_of_grid above grid (roundHalfEven_grid below ?_ ?_ ?_ ?_)
    · push_cast
      linarith
    · rw [show 52 + exponent = 53 + (exponent - 1) by omega, zpow_add₀ two_ne_zero,
        show (2 : ℚ) ^ (53 : ℤ) = 2 ^ 53 by norm_cast] at number_lt
      have power_pos := two_zpow_pos (exponent - 1)
      push_cast
      linarith
    · intro odd
      exact absurd odd (by decide)
    · intro odd
      exact absurd odd (by decide)

end Rounding

end Number

end TeenyBasic
