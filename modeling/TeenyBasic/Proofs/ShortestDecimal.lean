import TeenyBasic.Proofs.NearestDouble

/-!
# Decimals that round to a double

The shortest decimal of a stored magnitude lies in its interval (`Number.roundsTo_shortest`), and
every decimal in the interval is rounded back to the bits of the magnitude
(`Number.Decimal.nearestBits_eq`).
-/

namespace TeenyBasic

namespace Number

def Decimal.value (decimal : Decimal) : ℚ :=
  decimal.digits * (10 : ℚ) ^ decimal.exponent

theorem ten_zpow_pos (exponent : ℤ) : (0 : ℚ) < 10 ^ exponent :=
  zpow_pos (by decide) exponent

section Grid

variable {mantissa : ℕ} {exponent power : ℤ}

theorem gridScale_pos (exponent power : ℤ) : 0 < gridScale exponent power :=
  Nat.mul_pos (Nat.pow_pos two_pos) (Nat.pow_pos (by decide))

/-- Up to a common factor, the unit of a grid is the power of two and its scale the power of
ten. -/
theorem exists_grid_factor (exponent power : ℤ) :
    ∃ factor : ℚ, 0 < factor ∧ (gridUnit exponent power : ℚ) = 2 ^ exponent * factor ∧
      (gridScale exponent power : ℚ) = 10 ^ power * factor := by
  have two_eq := zpow_eq_div 2 exponent
  have ten_eq := zpow_eq_div 10 power
  rw [Nat.cast_ofNat] at two_eq ten_eq
  have two_pos : (0 : ℚ) < (2 ^ (-exponent).toNat : ℕ) := by exact_mod_cast Nat.two_pow_pos _
  have ten_pos : (0 : ℚ) < (10 ^ (-power).toNat : ℕ) := by
    exact_mod_cast Nat.pow_pos (by decide)
  refine ⟨_, mul_pos two_pos ten_pos, ?_, ?_⟩
  · rw [two_eq, gridUnit, Nat.pow_eq, Nat.pow_eq, Nat.cast_mul]
    field_simp
  · rw [ten_eq, gridScale, Nat.pow_eq, Nat.pow_eq, Nat.cast_mul]
    field_simp

/-- Comparing a multiple of a power of two with one of a power of ten needs whole numbers only. -/
theorem grid_le_iff (exponent power : ℤ) (low high : ℕ) :
    low * gridUnit exponent power ≤ high * gridScale exponent power ↔
      (low : ℚ) * 2 ^ exponent ≤ high * 10 ^ power := by
  obtain ⟨factor, factor_pos, unit_eq, scale_eq⟩ := exists_grid_factor exponent power
  rw [← Nat.cast_le (α := ℚ), Nat.cast_mul, Nat.cast_mul, unit_eq, scale_eq, ← mul_assoc,
    ← mul_assoc, mul_le_mul_iff_left₀ factor_pos]

theorem le_grid_iff (exponent power : ℤ) (low high : ℕ) :
    low * gridScale exponent power ≤ high * gridUnit exponent power ↔
      (low : ℚ) * 10 ^ power ≤ high * 2 ^ exponent := by
  obtain ⟨factor, factor_pos, unit_eq, scale_eq⟩ := exists_grid_factor exponent power
  rw [← Nat.cast_le (α := ℚ), Nat.cast_mul, Nat.cast_mul, unit_eq, scale_eq, ← mul_assoc,
    ← mul_assoc, mul_le_mul_iff_left₀ factor_pos]

/-- The test on a grid point says whether its number rounds to the magnitude. -/
theorem roundsBack_iff {point : ℕ} (positive : 0 < mantissa) :
    roundsBack mantissa exponent power point = true ↔
      RoundsTo (point * 10 ^ power) mantissa exponent := by
  have quarters := quartersBelow_le mantissa exponent
  have low_cast : ((4 * mantissa - quartersBelow mantissa exponent : ℕ) : ℚ) =
      4 * mantissa - quartersBelow mantissa exponent := by
    rw [Nat.cast_sub (by omega)]
    push_cast
    rfl
  have low_le_iff := grid_le_iff exponent power
    (4 * mantissa - quartersBelow mantissa exponent) (4 * point)
  have le_high_iff := le_grid_iff exponent power (4 * point) (4 * mantissa + 2)
  have low_lt_iff := not_congr (le_grid_iff exponent power (4 * point)
    (4 * mantissa - quartersBelow mantissa exponent))
  have lt_high_iff := not_congr (grid_le_iff exponent power (4 * mantissa + 2) (4 * point))
  rw [not_le, not_le] at low_lt_iff lt_high_iff
  rw [low_cast] at low_le_iff low_lt_iff
  rw [Nat.cast_mul, Nat.cast_ofNat, mul_assoc 4 (point : ℚ)]
    at low_le_iff le_high_iff low_lt_iff lt_high_iff
  rw [Nat.cast_add, Nat.cast_mul, Nat.cast_ofNat, Nat.cast_ofNat] at le_high_iff lt_high_iff
  unfold roundsBack
  dsimp only
  split
  · next even =>
    rw [Bool.and_eq_true, decide_eq_true_eq, decide_eq_true_eq, low_le_iff, le_high_iff]
    constructor
    · intro back
      exact ⟨back.1, back.2, fun odd => by omega, fun odd => by omega⟩
    · intro rounds
      exact ⟨rounds.low_le, rounds.le_high⟩
  · next odd =>
    rw [Bool.and_eq_true, decide_eq_true_eq, decide_eq_true_eq, low_lt_iff, lt_high_iff]
    constructor
    · intro back
      exact ⟨back.1.le, back.2.le, fun _ => back.1, fun _ => back.2⟩
    · intro rounds
      exact ⟨rounds.low_lt (by omega), rounds.lt_high (by omega)⟩

private theorem roundHalfEven_cases (numerator denominator : ℕ) :
    roundHalfEven numerator denominator = numerator / denominator ∨
      roundHalfEven numerator denominator = numerator / denominator + 1 := by
  unfold roundHalfEven
  dsimp only
  split
  · exact .inl rfl
  · split
    · exact .inr rfl
    · split
      · exact .inl rfl
      · exact .inr rfl

private theorem roundsBack_of_gridPoint? {point : ℕ}
    (found : gridPoint? mantissa exponent power = some point) :
    roundsBack mantissa exponent power point = true := by
  unfold gridPoint? at found
  dsimp only at found
  split at found
  · next below above =>
    cases found
    rcases roundHalfEven_cases (mantissa * gridUnit exponent power) (gridScale exponent power) with
      rounded | rounded
    · rwa [rounded]
    · rwa [rounded]
  · next below _ =>
    cases found
    exact below
  · next _ above =>
    cases found
    exact above
  · cases found

/-- A magnitude rounds to itself. -/
theorem roundsTo_self (mantissa : ℕ) (exponent : ℤ) :
    RoundsTo (mantissa * 2 ^ exponent) mantissa exponent := by
  have power_pos := two_zpow_pos exponent
  have quarters : (1 : ℚ) ≤ quartersBelow mantissa exponent := by
    unfold quartersBelow
    split <;> norm_num
  have low_lt : (4 * mantissa - quartersBelow mantissa exponent) * (2 : ℚ) ^ exponent <
      4 * (mantissa * 2 ^ exponent) := by
    nlinarith
  have lt_high : 4 * (mantissa * (2 : ℚ) ^ exponent) < (4 * mantissa + 2) * 2 ^ exponent := by
    nlinarith
  exact ⟨low_lt.le, lt_high.le, fun _ => low_lt, fun _ => lt_high⟩

/-- On a fine enough grid the magnitude itself is a point. -/
theorem gridScale_dvd (mantissa : ℕ) (fine : power ≤ min exponent 0) :
    gridScale exponent power ∣ mantissa * gridUnit exponent power := by
  have power_le : (-exponent).toNat ≤ (-power).toNat := by omega
  have no_tens : power.toNat = 0 := by omega
  rw [gridScale, gridUnit, Nat.pow_eq, Nat.pow_eq, Nat.pow_eq, Nat.pow_eq, no_tens, pow_zero,
    mul_one]
  have two_dvd_ten : 2 ^ (-exponent).toNat ∣ 10 ^ (-power).toNat :=
    (pow_dvd_pow 2 power_le).trans (pow_dvd_pow_of_dvd (by decide) _)
  exact (two_dvd_ten.mul_left _).mul_left _

private theorem value_of_mul_gridUnit_eq {point : ℕ}
    (exact : mantissa * gridUnit exponent power = gridScale exponent power * point) :
    (point : ℚ) * 10 ^ power = mantissa * 2 ^ exponent := by
  obtain ⟨factor, factor_pos, unit_eq, scale_eq⟩ := exists_grid_factor exponent power
  have exact_cast := congrArg (Nat.cast : ℕ → ℚ) exact
  rw [Nat.cast_mul, Nat.cast_mul, unit_eq, scale_eq] at exact_cast
  apply mul_right_cancel₀ factor_pos.ne'
  linarith

/-- The search ends with a decimal that rounds to the magnitude. -/
theorem roundsTo_coarsestFrom (positive : 0 < mantissa) {steps : ℕ}
    (enough : power - steps ≤ min exponent 0) :
    RoundsTo (coarsestFrom mantissa exponent steps power).value mantissa exponent := by
  induction steps generalizing power with
  | zero =>
    obtain ⟨point, exact⟩ := gridScale_dvd mantissa (show power ≤ min exponent 0 by omega)
    rw [coarsestFrom, Decimal.value, exact, Nat.mul_div_cancel_left point (gridScale_pos _ _),
      value_of_mul_gridUnit_eq exact]
    exact roundsTo_self mantissa exponent
  | succ steps induction =>
    rw [coarsestFrom]
    split
    · next point found =>
      exact (roundsBack_iff positive).mp (roundsBack_of_gridPoint? found)
    · exact induction (by omega)

/-- The shortest decimal of a magnitude rounds to it. -/
theorem roundsTo_shortest (positive : 0 < mantissa) (exponent : ℤ) :
    RoundsTo (shortest mantissa exponent).value mantissa exponent := by
  unfold shortest
  dsimp only
  exact roundsTo_coarsestFrom positive (by omega)

/-- If a point of a grid rounds to the magnitude, so does one of the two next to it. -/
theorem gridPoint?_ne_none (positive : 0 < mantissa) {point : ℕ}
    (rounds : RoundsTo (point * 10 ^ power) mantissa exponent) :
    gridPoint? mantissa exponent power ≠ none := by
  have power_pos := ten_zpow_pos power
  have self := roundsTo_self mantissa exponent
  generalize below_eq : mantissa * gridUnit exponent power / gridScale exponent power = below
  have next : roundsBack mantissa exponent power below = true ∨
      roundsBack mantissa exponent power (below + 1) = true := by
    rw [roundsBack_iff positive, roundsBack_iff positive]
    rcases Nat.lt_or_ge below point with above | le
    · -- The point lies above the magnitude, and the upper neighbour between them.
      have magnitude_le := (grid_le_iff exponent power mantissa (below + 1)).mp <| by
        rw [← below_eq]
        exact (Nat.mul_comm _ _ ▸ Nat.lt_mul_div_succ _ (gridScale_pos exponent power)).le
      have le_point : ((below + 1 : ℕ) : ℚ) ≤ point := by exact_mod_cast above
      exact .inr (self.of_between rounds magnitude_le
        (mul_le_mul_of_nonneg_right le_point power_pos.le))
    · have le_magnitude := (le_grid_iff exponent power below mantissa).mp <| by
        rw [← below_eq]
        exact Nat.div_mul_le_self _ _
      have point_le : (point : ℚ) ≤ below := by exact_mod_cast le
      exact .inl (rounds.of_between self (mul_le_mul_of_nonneg_right point_le power_pos.le)
        le_magnitude)
  unfold gridPoint?
  dsimp only
  rw [below_eq]
  split
  · nofun
  · nofun
  · nofun
  · next lower upper =>
    rw [lower, upper] at next
    exact absurd next (by decide)

/-- No grid that the search has passed has a point that rounds to the magnitude. -/
theorem not_roundsTo_of_coarser (positive : 0 < mantissa) {steps : ℕ} {coarser : ℤ}
    (passed : (coarsestFrom mantissa exponent steps power).exponent < coarser)
    (coarser_le : coarser ≤ power) (point : ℕ) :
    ¬RoundsTo (point * 10 ^ coarser) mantissa exponent := by
  induction steps generalizing power with
  | zero =>
    change power < coarser at passed
    omega
  | succ steps induction =>
    rw [coarsestFrom] at passed
    split at passed
    · change power < coarser at passed
      omega
    · next missed =>
      rcases coarser_le.lt_or_eq with below | rfl
      · exact induction passed (by omega)
      · intro rounds
        exact gridPoint?_ne_none positive rounds missed

end Grid

namespace Decimal

variable {decimal : Decimal}

theorem lt_pow_digitCount (number : ℕ) : number < 10 ^ digitCount number :=
  (Nat.length_toDigits_le_iff (by decide) Nat.length_toDigits_pos).mp (Nat.le_refl _)

theorem pow_digitCount_le {number : ℕ} (positive : 0 < number) :
    10 ^ (digitCount number - 1) ≤ number := by
  by_contra above
  rcases Nat.eq_zero_or_pos (digitCount number - 1) with single | several
  · rw [single] at above
    omega
  · have fewer := (Nat.length_toDigits_le_iff (by decide) several).mpr (Nat.lt_of_not_le above)
    rw [digitCount] at several fewer
    omega

theorem value_lt (decimal : Decimal) :
    decimal.value < 10 ^ (decimal.exponent + digitCount decimal.digits) := by
  have digits_lt : (decimal.digits : ℚ) < 10 ^ digitCount decimal.digits := by
    exact_mod_cast lt_pow_digitCount decimal.digits
  rw [value, zpow_add₀ (by decide), zpow_natCast, mul_comm]
  exact mul_lt_mul_of_pos_left digits_lt (ten_zpow_pos _)

theorem le_value (positive : 0 < decimal.digits) :
    10 ^ (decimal.exponent + digitCount decimal.digits - 1) ≤ decimal.value := by
  have le_digits : (10 : ℚ) ^ (digitCount decimal.digits - 1) ≤ decimal.digits := by
    exact_mod_cast pow_digitCount_le positive
  have count_pos : 0 < digitCount decimal.digits := Nat.length_toDigits_pos
  rw [value, show decimal.exponent + digitCount decimal.digits - 1 =
    decimal.exponent + (digitCount decimal.digits - 1 : ℕ) by omega, zpow_add₀ (by decide),
    zpow_natCast, mul_comm]
  exact mul_le_mul_of_nonneg_right le_digits (ten_zpow_pos _).le

theorem digits_pos (positive : 0 < decimal.value) : 0 < decimal.digits := by
  by_contra zero
  rw [value, Nat.eq_zero_of_not_pos zero, Nat.cast_zero, zero_mul] at positive
  exact lt_irrefl _ positive

/-- A decimal is the quotient that is rounded for it. -/
theorem value_eq_div (decimal : Decimal) :
    decimal.value = ((decimal.digits * 10 ^ decimal.exponent.toNat : ℕ) : ℚ) /
      ((10 ^ (-decimal.exponent).toNat : ℕ) : ℚ) := by
  have ten_eq := zpow_eq_div 10 decimal.exponent
  rw [Nat.cast_ofNat] at ten_eq
  rw [value, ten_eq, Nat.cast_mul, mul_div_assoc]

section Rounding

variable {mantissa : ℕ} {exponent : ℤ} (stored : Stored mantissa exponent)
  (positive : 0 < mantissa) (rounds : RoundsTo decimal.value mantissa exponent)
include stored positive rounds

/-- No stored magnitude is so small that its decimals are settled by their length. -/
theorem top_ge : -330 ≤ decimal.exponent + digitCount decimal.digits := by
  by_contra far
  have least := stored.leastExponent_le
  rw [leastExponent] at least
  have powers : 2 ^ 1075 < 10 ^ 330 := by decide +kernel
  have tiny : (10 : ℚ) ^ (-330 : ℤ) < 2 ^ (-1075 : ℤ) := by
    rw [zpow_neg, zpow_neg]
    exact inv_strictAnti₀ (two_zpow_pos _) (by exact_mod_cast powers)
  have above : (2 : ℚ) ^ (-1075 : ℤ) ≤ decimal.value :=
    (zpow_le_zpow_right₀ one_le_two (by omega)).trans (rounds.pow_le positive)
  have below : decimal.value < 10 ^ (-330 : ℤ) :=
    decimal.value_lt.trans_le (zpow_le_zpow_right₀ (by norm_num) (by omega))
  exact lt_irrefl _ ((above.trans_lt below).trans tiny)

/-- No stored magnitude is so large that its decimals are settled by their length. -/
theorem top_le : decimal.exponent + digitCount decimal.digits ≤ 310 := by
  by_contra far
  have greatest := stored.exponent_le
  have powers : 2 ^ 1024 < 10 ^ 310 := by decide +kernel
  have huge : (2 : ℚ) ^ (1024 : ℤ) < 10 ^ (310 : ℤ) := by exact_mod_cast powers
  have below : decimal.value < 2 ^ (1024 : ℤ) :=
    (rounds.lt_pow stored).trans_le (zpow_le_zpow_right₀ one_le_two (by omega))
  have above : (10 : ℚ) ^ (310 : ℤ) ≤ decimal.value :=
    (zpow_le_zpow_right₀ (by norm_num) (by omega)).trans
      (le_value (digits_pos (rounds.pos positive)))
  exact lt_irrefl _ ((above.trans_lt below).trans huge)

/-- A decimal in the interval of a stored magnitude is rounded to its bits. -/
theorem nearestBits_eq : decimal.nearestBits = magnitudeBits mantissa exponent := by
  have nonzero := Nat.pos_iff_ne_zero.mp (digits_pos (rounds.pos positive))
  have small := top_ge stored positive rounds
  have large := top_le stored positive rounds
  unfold nearestBits
  dsimp only
  rw [if_neg (by simp [nonzero, small]), if_neg (by omega)]
  rw [value_eq_div] at rounds
  exact Number.nearestBits_eq (Nat.pow_pos (by decide)) stored positive rounds

end Rounding

end Decimal

private theorem lt_powerAbove {mantissa : ℕ} (positive : 0 < mantissa) (exponent : ℤ) :
    (mantissa : ℚ) * 2 ^ exponent < 10 ^ powerAbove mantissa exponent := by
  have power_eq := zpow_eq_div 2 exponent
  rw [Nat.cast_ofNat] at power_eq
  have above : 0 < mantissa * 2 ^ exponent.toNat := Nat.mul_pos positive (Nat.two_pow_pos _)
  have below : 0 < 2 ^ (-exponent).toNat := Nat.two_pow_pos _
  rw [power_eq, ← mul_div_assoc, ← Nat.cast_mul]
  unfold powerAbove
  simp only [Nat.pow_eq]
  generalize mantissa * 2 ^ exponent.toNat = numerator at *
  generalize 2 ^ (-exponent).toNat = denominator at *
  have below_pos : (0 : ℚ) < denominator := by exact_mod_cast below
  rw [div_lt_iff₀ below_pos]
  split
  · have digits_lt := Decimal.lt_pow_digitCount (numerator / denominator)
    rw [Nat.div_lt_iff_lt_mul below] at digits_lt
    rw [zpow_natCast]
    exact_mod_cast digits_lt
  · next less =>
    have quotient_pos : 0 < (denominator - 1) / numerator := Nat.div_pos (by omega) above
    have le_digits := Decimal.pow_digitCount_le quotient_pos
    rw [Nat.le_div_iff_mul_le above] at le_digits
    have count_pos : 0 < digitCount ((denominator - 1) / numerator) := Nat.length_toDigits_pos
    generalize digitCount ((denominator - 1) / numerator) = count at *
    have power_pos : (0 : ℚ) < 10 ^ (count - 1) := by positivity
    have numerator_lt : (10 : ℚ) ^ (count - 1) * numerator < denominator := by
      exact_mod_cast (show 10 ^ (count - 1) * numerator < denominator by omega)
    rw [show (1 : ℤ) - count = -((count - 1 : ℕ) : ℤ) by omega, zpow_neg, zpow_natCast,
      ← div_eq_inv_mul, lt_div_iff₀ power_pos, mul_comm]
    exact numerator_lt

/-- A shortest decimal has no zero at its end: without it, it would be a point of the next grid. -/
theorem digits_shortest_mod_ten {mantissa : ℕ} (positive : 0 < mantissa) (exponent : ℤ) :
    (shortest mantissa exponent).digits % 10 ≠ 0 := by
  intro divides
  have rounds := roundsTo_shortest positive exponent
  have digits_pos := Decimal.digits_pos (rounds.pos positive)
  obtain ⟨digits, digits_eq⟩ := Nat.dvd_of_mod_eq_zero divides
  have value_eq : (shortest mantissa exponent).value =
      digits * 10 ^ ((shortest mantissa exponent).exponent + 1) := by
    rw [Decimal.value, digits_eq, zpow_add_one₀ (by decide)]
    push_cast
    ring
  rcases lt_or_ge (shortest mantissa exponent).exponent (powerAbove mantissa exponent) with
    below | top
  · rw [value_eq] at rounds
    exact not_roundsTo_of_coarser positive (Int.lt_succ _) below digits rounds
  · -- On the coarsest grid of all, one step is already above the magnitude.
    have magnitude_lt := lt_powerAbove positive exponent
    have top_pos := ten_zpow_pos (powerAbove mantissa exponent)
    have one_le : (1 : ℚ) ≤ mantissa := by exact_mod_cast positive
    have digits_ge : (1 : ℚ) ≤ digits := by exact_mod_cast (show 1 ≤ digits by omega)
    have unit_le := le_mul_of_one_le_left (two_zpow_pos exponent).le one_le
    have step_le := le_mul_of_one_le_left
      (ten_zpow_pos ((shortest mantissa exponent).exponent + 1)).le digits_ge
    have power_le : (10 : ℚ) ^ (powerAbove mantissa exponent + 1) ≤
        10 ^ ((shortest mantissa exponent).exponent + 1) :=
      zpow_le_zpow_right₀ (by norm_num) (by omega)
    have le_high := rounds.le_high_half
    rw [value_eq] at le_high
    rw [zpow_add_one₀ (by decide)] at power_le
    linarith

end Number

end TeenyBasic
