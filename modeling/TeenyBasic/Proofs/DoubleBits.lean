import Mathlib
import TeenyBasic.Number.Binary

/-!
# The bits of doubles

A double that is a number is given by its sign and its magnitude: infinity, or a mantissa and an
exponent in the only form in which a finite magnitude is stored (`Number.Stored`).
`Number.parts_cases` says so for the bits, and `Number.eq_ofSignedBits` puts the double together
again.
-/

namespace TeenyBasic

namespace Number

open Float.Model (Format UnpackedFloat)
open Float.Model.UnpackedFloat

section Words

variable (word : BitVec Format.binary64.numBits)

@[simp] theorem toNat_unpackMantissa : (unpackMantissa word).toNat = word.toNat % 2 ^ 52 := by
  simp [unpackMantissa, BitVec.extractLsb]

@[simp] theorem toNat_unpackExponent :
    (unpackExponent word).toNat = word.toNat / 2 ^ 52 % 2 ^ 11 := by
  simp [unpackExponent, BitVec.extractLsb, Nat.shiftRight_eq_div_pow]

private theorem packComponents_fields :
    packComponents .binary64 (Sign.ofBitVec (unpackSign word)) (unpackExponent word)
      (unpackMantissa word) = word := by
  have sign_bit (sign : BitVec 1) : (Sign.ofBitVec sign).toBitVec = sign := by
    revert sign
    decide
  rw [packComponents, sign_bit]
  simp only [unpackSign, unpackExponent, unpackMantissa, BitVec.extractLsb]
  ext index
  grind

end Words

private theorem ofBitVec_unpackSign_packComponents (sign : Sign) (exponent : BitVec 11)
    (fraction : BitVec 52) :
    Sign.ofBitVec (unpackSign (packComponents .binary64 sign exponent fraction)) = sign := by
  simp only [unpackSign, packComponents, BitVec.extractLsb]
  rw [BitVec.extractLsb'_append_eq_of_le (by decide),
    BitVec.extractLsb'_append_eq_of_le (by decide)]
  cases sign <;> rfl

/-- The leading bit of a mantissa is not stored. -/
theorem toNat_leading (fraction : BitVec 52) :
    (1#1 ++ fraction).toNat = 2 ^ 52 + fraction.toNat := by
  rw [BitVec.toNat_append, ← Nat.shiftLeft_add_eq_or_of_lt fraction.isLt]
  rfl

section Packing

variable {mantissa : Nat} (sign : Sign) (positive : 0 < mantissa)

private theorem pack_subnormal (short : mantissa < 2 ^ 52) :
    pack .binary64 (.finite sign mantissa (-1074) positive) =
      packComponents .binary64 sign 0#11 (BitVec.ofNat 52 mantissa) := by
  have log_lt := (Nat.log2_lt (Nat.pos_iff_ne_zero.mp positive)).mpr short
  have width : Format.binary64.mantissaBits = 53 := by decide
  rw [pack]
  dsimp only
  rw [if_neg (by decide), if_neg (by omega)]

theorem pack_normal {biased : Nat} (above : 2 ^ 52 ≤ mantissa) (below : mantissa < 2 ^ 53)
    (bound : biased < 2047) :
    pack .binary64 (.finite sign mantissa ((biased : Int) - 1075) positive) =
      packComponents .binary64 sign (BitVec.ofNat 11 biased) (BitVec.ofNat 52 mantissa) := by
  have nonzero := Nat.pos_iff_ne_zero.mp positive
  have le_log := (Nat.le_log2 nonzero).mpr above
  have log_lt := (Nat.log2_lt nonzero).mpr below
  have width : Format.binary64.mantissaBits = 53 := by decide
  have bias : Format.binary64.exponentBias = 1023 := by decide
  have biased_eq : ((biased : Int) - 1075 + Format.binary64.exponentBias + 52).toNat = biased := by
    omega
  rw [pack]
  dsimp only
  rw [if_neg (by omega), if_pos (by omega)]
  exact congrArg (packComponents .binary64 sign · _) (congrArg (BitVec.ofNat 11) biased_eq)

end Packing

private theorem unpack_packComponents (sign : Sign) {exponent : BitVec 11} (fraction : BitVec 52)
    (notSpecial : exponent ≠ -1#11) (notLeast : exponent ≠ 0#11)
    (positive : 0 < 2 ^ 52 + fraction.toNat) :
    unpack .binary64 (packComponents .binary64 sign exponent fraction) =
      .finite sign (2 ^ 52 + fraction.toNat) ((exponent.toNat : ℤ) - 1075) positive := by
  have sign_eq := ofBitVec_unpackSign_packComponents sign exponent fraction
  have field := @unpackExponent_packComponents .binary64 sign exponent fraction
  have stored := @unpackMantissa_packComponents .binary64 sign exponent fraction
  have bias : Format.binary64.exponentBias = 1023 := by decide
  generalize packComponents .binary64 sign exponent fraction = word at sign_eq field stored
  rw [unpack]
  dsimp only
  rw [if_neg (field.trans_ne notSpecial), if_neg (field.trans_ne notLeast), sign_eq,
    UnpackedFloat.finite.injEq]
  refine ⟨rfl, ?_, ?_⟩
  · rw [← stored]
    exact toNat_leading (unpackMantissa word)
  · rw [field, bias]
    rfl

/-- Normal numbers are packed and unpacked again without loss. -/
theorem unpack_pack_normal (sign : Sign) {mantissa biased : ℕ} (positive : 0 < mantissa)
    (long : 2 ^ 52 ≤ mantissa) (short : mantissa < 2 ^ 53) (least : 0 < biased)
    (bound : biased < 2047) :
    unpack .binary64 (pack .binary64 (.finite sign mantissa ((biased : ℤ) - 1075) positive)) =
      .finite sign mantissa ((biased : ℤ) - 1075) positive := by
  have field : (BitVec.ofNat 11 biased).toNat = biased := by
    rw [BitVec.toNat_ofNat]
    omega
  have fraction : 2 ^ 52 + (BitVec.ofNat 52 mantissa).toNat = mantissa := by
    rw [BitVec.toNat_ofNat]
    omega
  have notSpecial : BitVec.ofNat 11 biased ≠ -1#11 := by
    intro special
    have all : (-1#11).toNat = 2047 := by decide
    rw [special, all] at field
    omega
  have notLeast : BitVec.ofNat 11 biased ≠ 0#11 := by
    intro zero
    rw [zero] at field
    exact least.ne field
  rw [pack_normal sign positive long short bound,
    unpack_packComponents sign _ notSpecial notLeast (by omega)]
  simp only [field, fraction]

/-- A word that is no NaN is unpacked and packed again without loss. -/
@[simp] theorem pack_unpack {word : BitVec Format.binary64.numBits}
    (numeric : (unpack .binary64 word).isNaN = false) :
    pack .binary64 (unpack .binary64 word) = word := by
  have short : (unpackMantissa word).toNat < 2 ^ 52 := (unpackMantissa word).isLt
  have fields := packComponents_fields word
  have bias : Format.binary64.exponentBias = 1023 := by decide
  revert numeric
  unfold unpack
  dsimp only
  split
  · next exponent_eq =>
    split
    · next mantissa_eq =>
      intro _
      rwa [exponent_eq, mantissa_eq] at fields
    · intro numeric
      cases numeric
  · next notSpecial =>
    split
    · next exponent_eq =>
      split
      · next mantissa_eq =>
        intro _
        rwa [exponent_eq, mantissa_eq] at fields
      · next mantissa_ne =>
        intro _
        have packed := pack_subnormal (Sign.ofBitVec (unpackSign word))
          (Nat.pos_iff_ne_zero.mpr fun zero => mantissa_ne (BitVec.eq_of_toNat_eq zero)) short
        rw [exponent_eq] at fields ⊢
        rw [BitVec.ofNat_toNat, BitVec.setWidth_eq, fields] at packed
        exact packed
    · next exponent_ne =>
      intro _
      have bound : (unpackExponent word).toNat < 2047 := by
        have lt : (unpackExponent word).toNat < 2048 := (unpackExponent word).isLt
        have ne : (unpackExponent word).toNat ≠ 2047 :=
          fun equal => notSpecial (BitVec.eq_of_toNat_eq equal)
        omega
      have mantissa_eq : (1#1 ++ unpackMantissa word).toNat =
          2 ^ 52 + (unpackMantissa word).toNat := toNat_leading (unpackMantissa word)
      have stored : BitVec.ofNat 52 (1#1 ++ unpackMantissa word).toNat = unpackMantissa word := by
        apply BitVec.eq_of_toNat_eq
        rw [BitVec.toNat_ofNat, mantissa_eq, Nat.add_mod_left, Nat.mod_eq_of_lt short]
      have packed := pack_normal (Sign.ofBitVec (unpackSign word))
        (show 0 < (1#1 ++ unpackMantissa word).toNat by omega) (by omega) (by omega) bound
      rw [stored, BitVec.ofNat_toNat, BitVec.setWidth_eq, fields] at packed
      exact packed

/-- A mantissa and an exponent as a finite magnitude is stored: the mantissa has its full length
unless the exponent is the least one. -/
structure Stored (mantissa : Nat) (exponent : Int) : Prop where
  mantissa_lt : mantissa < 2 ^ 53
  leastExponent_le : leastExponent ≤ exponent
  exponent_le : exponent ≤ 971
  normal : 2 ^ 52 ≤ mantissa ∨ exponent = leastExponent

def magnitudeBits (mantissa : Nat) (exponent : Int) : Nat :=
  (exponent - leastExponent).toNat * 2 ^ 52 + mantissa

/-- Taking the bits of a number and reading them as a number changes nothing. -/
@[simp] theorem ofBits_toBits {value : Float} (numeric : value.isNaN = false) :
    Float.ofBits value.toBits = value := by
  have packed : pack .binary64 (unpack .binary64 value.toModel.toBits.toBitVec) =
      value.toModel.toBits.toBitVec := pack_unpack numeric
  have model_eq : Float.Model.ofBits value.toModel.toBits = value.toModel := by
    rcases value with ⟨bits, valid⟩
    simp only [Float.Model.ofBits, Float.Model.pack, packed]
  exact congrArg Float.ofModel model_eq

theorem eq_ofSignedBits {value : Float} (numeric : value.isNaN = false) {magnitude : Nat}
    (magnitude_eq : value.toBits.toNat % 2 ^ 63 = magnitude) :
    value = ofSignedBits (decide (2 ^ 63 ≤ value.toBits.toNat)) magnitude := by
  have bound : value.toBits.toNat < 2 ^ 64 := value.toBits.toNat_lt
  have bits_eq : magnitude + (if decide (2 ^ 63 ≤ value.toBits.toNat) then 2 ^ 63 else 0) =
      value.toBits.toNat := by
    by_cases above : 2 ^ 63 ≤ value.toBits.toNat
    · rw [decide_eq_true above, if_pos rfl]
      omega
    · rw [decide_eq_false above, if_neg nofun]
      omega
  rw [ofSignedBits, Nat.pow_eq, bits_eq, UInt64.ofNat_toNat, ofBits_toBits numeric]

private theorem isNaN_of_fields {value : Float}
    (special : value.toBits.toNat / 2 ^ 52 % 2 ^ 11 = 0x7ff)
    (payload : value.toBits.toNat % 2 ^ 52 ≠ 0) : value.isNaN = true := by
  have exponent_eq : @unpackExponent .binary64 value.toBits.toBitVec = -1#11 := by
    apply BitVec.eq_of_toNat_eq
    rw [toNat_unpackExponent]
    exact special
  have mantissa_ne : @unpackMantissa .binary64 value.toBits.toBitVec ≠ 0#52 := by
    intro zero
    apply payload
    have toNat_eq := congrArg BitVec.toNat zero
    rwa [toNat_unpackMantissa] at toNat_eq
  change (unpack .binary64 value.toBits.toBitVec).isNaN = true
  rw [unpack]
  dsimp only
  rw [if_pos exponent_eq, if_neg mantissa_ne]
  rfl

/-- A number is a sign with infinity or with a finite magnitude. -/
theorem parts_cases {value : Float} (numeric : value.isNaN = false) :
    (∃ negative, parts value = .infinite negative ∧
      value = ofSignedBits negative infinityBits) ∨
    ∃ negative mantissa exponent, parts value = .finite negative mantissa exponent ∧
      Stored mantissa exponent ∧
      value = ofSignedBits negative (magnitudeBits mantissa exponent) := by
  unfold parts
  simp only [Nat.pow_eq]
  split
  · next special =>
    split
    · next zero =>
      refine .inl ⟨_, rfl, eq_ofSignedBits numeric ?_⟩
      rw [infinityBits, Nat.pow_eq]
      omega
    · next payload =>
      rw [isNaN_of_fields special payload] at numeric
      cases numeric
  · next finite =>
    refine .inr ⟨decide (2 ^ 63 ≤ value.toBits.toNat), ?_⟩
    split
    · next zero =>
      refine ⟨_, _, rfl, ⟨?_, Int.le_refl _, by decide, .inr rfl⟩, eq_ofSignedBits numeric ?_⟩
      · omega
      · rw [magnitudeBits, Int.sub_self]
        omega
    · next nonzero =>
      refine ⟨_, _, rfl, ⟨?_, ?_, ?_, .inl ?_⟩, eq_ofSignedBits numeric ?_⟩
      · omega
      · rw [leastExponent]
        omega
      · omega
      · omega
      · rw [magnitudeBits, leastExponent]
        omega

end Number

end TeenyBasic
