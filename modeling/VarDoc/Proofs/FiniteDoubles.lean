import VarDoc.Decimal.Binary

/-! Doubles that are numbers. A double is finite unless its exponent field is
all ones, and a whole number of 64 bits has a finite double nearest to it. Whatever
is a number equals itself. -/

set_option autoImplicit false

namespace VarDoc.Decimal

open Float.Model (UnpackedFloat Format)

/-- The exponent field of a double is not all ones, so that it is a number. -/
def NumberBits (bits : BitVec Format.binary64.numBits) : Prop :=
  UnpackedFloat.unpackExponent bits ≠ -BitVec.ofNat Format.binary64.exponentBits 1

def Moderate : UnpackedFloat → Prop
  | .zero _ => True
  | .finite _ _ exponent _ => exponent + 1075 < 0x7ff
  | _ => False

theorem numberBits_iff {bits : BitVec Format.binary64.numBits} :
    NumberBits bits ↔ bits.toNat / 0x10000000000000 % 0x800 ≠ 0x7ff := by
  rw [NumberBits, ne_eq, ← BitVec.toNat_inj]
  simp [UnpackedFloat.unpackExponent, BitVec.extractLsb, BitVec.extractLsb', Nat.shiftRight_eq_div_pow]

theorem unpack_moderate {bits : BitVec Format.binary64.numBits} (number : NumberBits bits) :
    Moderate (UnpackedFloat.unpack Format.binary64 bits) := by
  have field : (UnpackedFloat.unpackExponent bits).toNat < 0x7ff := by
    have small := (UnpackedFloat.unpackExponent bits).isLt
    have differs := fun same => number (BitVec.eq_of_toNat_eq same)
    simp at differs small
    omega
  have bias : Format.binary64.exponentBias = 1023 := rfl
  have mantissa : Format.binary64.mantissaBitsWithoutImplicit = 52 := rfl
  unfold UnpackedFloat.unpack
  rw [if_neg number]
  refine iteInduction (motive := Moderate) (fun zero => ?_) fun _ => ?_
  · have none : (UnpackedFloat.unpackExponent bits).toNat = 0 := by rw [zero]; rfl
    by_cases empty : UnpackedFloat.unpackMantissa bits = BitVec.ofNat _ 0
    · rw [dif_pos empty]
      trivial
    · rw [dif_neg empty]
      change _ + 1075 < (0x7ff : Int)
      rw [none]
      decide
  · change _ + 1075 < (0x7ff : Int)
    omega

theorem pack_numberBits {number : UnpackedFloat} (moderate : Moderate number) :
    NumberBits (UnpackedFloat.pack Format.binary64 number) := by
  have bias : Format.binary64.exponentBias = 1023 := rfl
  cases number with
  | notANumber | infinity => contradiction
  | zero sign =>
    change NumberBits (UnpackedFloat.packedZero Format.binary64 sign)
    simp [NumberBits, UnpackedFloat.packedZero]
  | finite sign mantissa exponent positive =>
    change exponent + 1075 < (0x7ff : Int) at moderate
    unfold NumberBits UnpackedFloat.pack
    dsimp only
    split
    next large =>
      simp at large
      omega
    next =>
      split
      · simp [← BitVec.toNat_inj]
        omega
      · simp

theorem isFinite_ofBits {bits : UInt64} (field : bits.toNat / 0x10000000000000 % 0x800 ≠ 0x7ff) :
    (Float.ofBits bits).isFinite = true := by
  have moderate := unpack_moderate (pack_numberBits (unpack_moderate (numberBits_iff.2 field)))
  change (UnpackedFloat.unpack Format.binary64 (UnpackedFloat.pack Format.binary64
    (UnpackedFloat.unpack Format.binary64 bits.toBitVec))).isFinite = true
  revert moderate
  cases UnpackedFloat.unpack Format.binary64 _ with
  | zero | finite => exact fun _ => rfl
  | notANumber | infinity => exact False.elim

theorem floorLog2_large {value : Nat} (large : 0x8000000000000000 ≤ value)
    (small : value < 0x10000000000000000) : floorLog2 value 1 = 63 := by
  have log : value.log2 = 63 := by
    apply (Nat.log2_eq_iff (by omega)).2
    omega
  have one : Nat.log2 1 = 0 := rfl
  have fits : 1 * twoTo 63 ≤ value * twoTo 0 := by
    change 1 * 0x8000000000000000 ≤ value * 1
    omega
  rw [floorLog2, log, one]
  exact if_pos fits

theorem nearestBits_large {value : Nat} (large : 0x8000000000000000 ≤ value)
    (small : value < 0x10000000000000000) :
    1086 * 0x10000000000000 ≤ nearestBits value 1 ∧ nearestBits value 1 ≤ 1087 * 0x10000000000000 := by
  have power : max (floorLog2 value 1 - 52) (-1074) = 11 := by
    rw [floorLog2_large large small]
    rfl
  have rounded : 0x10000000000000 ≤ roundHalfEven (value * 1) (1 * 2048) ∧
      roundHalfEven (value * 1) (1 * 2048) ≤ 0x20000000000000 := by
    simp only [roundHalfEven]
    split
    · omega
    · split
      · omega
      · omega
  have bits : nearestBits value 1 =
      min (1085 * 0x10000000000000 + roundHalfEven (value * 1) (1 * 2048)) infinityBits := by
    simp only [nearestBits, power, if_neg (show value ≠ 0 by omega)]
    rfl
  have infinite : infinityBits = 2047 * 0x10000000000000 := rfl
  rw [bits, infinite]
  omega

theorem isFinite_nearest {value : Nat} (large : 0x8000000000000000 ≤ value)
    (small : value < 0x10000000000000000) : (nearest value 1).isFinite = true := by
  have bounds := nearestBits_large large small
  apply isFinite_ofBits
  have fits : (nearestBits value 1).toUInt64.toNat = nearestBits value 1 := by
    apply UInt64.toNat_ofNat_of_lt
    change nearestBits value 1 < 0x10000000000000000
    omega
  rw [fits]
  omega

theorem compare_self_of_not_nan {number : UnpackedFloat} (isNumber : number.isNaN = false) :
    number.compare number = some .eq := by
  cases number with
  | notANumber => cases isNumber
  | infinity sign => cases sign <;> rfl
  | zero => rfl
  | finite sign mantissa exponent =>
    have same : (compare exponent exponent).then (compare mantissa mantissa) = .eq := by
      have power : compare exponent exponent = .eq := Std.ReflCmp.compare_self
      have digits : compare mantissa mantissa = .eq := Std.ReflCmp.compare_self
      rw [power, digits]
      rfl
    cases sign with
    | positive => exact congrArg some same
    | negative => exact congrArg (fun order => some order.swap) same

theorem beq_self {value : Float} (isNumber : value.isNaN = false) : (value == value) = true := by
  change (UnpackedFloat.compare value.toModel.unpack value.toModel.unpack == some .eq) = true
  rw [compare_self_of_not_nan isNumber]
  rfl

theorem isNaN_of_isFinite {value : Float} (finite : value.isFinite = true) : value.isNaN = false := by
  change value.toModel.unpack.isNaN = false
  change value.toModel.unpack.isFinite = true at finite
  revert finite
  cases value.toModel.unpack with
  | notANumber =>
    intro impossible
    cases impossible
  | infinity | zero | finite => exact fun _ => rfl

end VarDoc.Decimal
