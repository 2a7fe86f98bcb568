/-
  A double-precision number by the fields of its bits.

  Unpacking reads a sign, a biased exponent and a mantissa (`Unpacks`), and `parts` reads the same
  from them (`parts_eq`).
-/
import Mathlib.Tactic
import Stencil.Number.Whole
import Stencil.Proofs.Number.Rounding

namespace Stencil.Number

open Float.Model (UnpackedFloat totalExponent)
open Float.Model.Format (binary64)
open Float.Model.UnpackedFloat

/-! ## The fields of the bits -/

/-- The biased exponent. -/
def exponentField (b : BitVec 64) : Nat := b.toNat / 2 ^ 52 % 2048

/-- The mantissa without its first bit. -/
def mantissaField (b : BitVec 64) : Nat := b.toNat % 2 ^ 52

def signOf (b : BitVec 64) : Sign := if 2 ^ 63 ≤ b.toNat then .negative else .positive

theorem toNat_unpackMantissa (b : BitVec 64) :
    (@unpackMantissa binary64 b).toNat = mantissaField b := by
  simp [unpackMantissa, mantissaField]

theorem toNat_unpackExponent (b : BitVec 64) :
    (@unpackExponent binary64 b).toNat = exponentField b := by
  simp [unpackExponent, exponentField, Nat.shiftRight_eq_div_pow]

theorem ofBitVec_unpackSign (b : BitVec 64) :
    Sign.ofBitVec (@unpackSign binary64 b) = signOf b := by
  have hbit : (@unpackSign binary64 b).toNat = b.toNat / 2 ^ 63 % 2 := by
    simp [unpackSign, Nat.shiftRight_eq_div_pow]
  have hlt := b.isLt
  have hzero : @unpackSign binary64 b = 0#1 ↔ ¬ 2 ^ 63 ≤ b.toNat := by
    rw [← BitVec.toNat_inj, hbit, BitVec.toNat_ofNat]
    omega
  unfold Sign.ofBitVec signOf
  simp only [hzero, ite_not]

theorem toNat_leading_append (m : BitVec 52) : (1#1 ++ m).toNat = 2 ^ 52 + m.toNat := by
  rw [BitVec.toNat_append, ← Nat.shiftLeft_add_eq_or_of_lt m.isLt]
  simp [Nat.shiftLeft_eq]

/-- What the fields stand for. -/
inductive Unpacks (b : BitVec 64) : UnpackedFloat → Prop where
  | nan (he : exponentField b = 2047) (hm : mantissaField b ≠ 0) : Unpacks b .notANumber
  | infinity (he : exponentField b = 2047) (hm : mantissaField b = 0) :
      Unpacks b (.infinity (signOf b))
  | zero (he : exponentField b = 0) (hm : mantissaField b = 0) : Unpacks b (.zero (signOf b))
  | subnormal (he : exponentField b = 0) (hm : 0 < mantissaField b) :
      Unpacks b (.finite (signOf b) (mantissaField b) (-1074) hm)
  | normal (hzero : exponentField b ≠ 0) (hlarge : exponentField b ≠ 2047) :
      Unpacks b (.finite (signOf b) (mantissaField b + 2 ^ 52) (exponentField b - 1075)
        (by positivity))

theorem unpacks (b : BitVec 64) : Unpacks b (unpack binary64 b) := by
  have hbias : (binary64.exponentBias : Int) = 1023 := by decide
  have hexponent (n : Nat) (hn : n < 2048) :
      @unpackExponent binary64 b = BitVec.ofNat 11 n ↔ exponentField b = n := by
    rw [← BitVec.toNat_inj, toNat_unpackExponent, BitVec.toNat_ofNat]
    exact Eq.congr_right (Nat.mod_eq_of_lt hn)
  have hmantissa : @unpackMantissa binary64 b = 0#52 ↔ mantissaField b = 0 := by
    rw [← BitVec.toNat_inj, toNat_unpackMantissa]
    rfl
  have hlarge : @unpackExponent binary64 b = -1#11 ↔ exponentField b = 2047 :=
    hexponent 2047 (by norm_num)
  have hzero := hexponent 0 (by norm_num)
  simp only [unpack, ofBitVec_unpackSign, toNat_leading_append, toNat_unpackMantissa,
    toNat_unpackExponent, hbias]
  split_ifs with he hm he' hm
  · exact .infinity (hlarge.mp he) (hmantissa.mp hm)
  · exact .nan (hlarge.mp he) (mt hmantissa.mpr hm)
  · exact .zero (hzero.mp he') (hmantissa.mp hm)
  · convert Unpacks.subnormal (hzero.mp he') (Nat.pos_of_ne_zero (mt hmantissa.mpr hm)) using 2
    rw [hzero.mp he']
    norm_num
  · convert Unpacks.normal (mt hzero.mpr he') (mt hlarge.mpr he) using 2
    · exact Nat.add_comm _ _
    · push_cast
      omega

def isNegative : Sign → Bool
  | .negative => true
  | .positive => false

theorem isNegative_signOf (b : BitVec 64) : isNegative (signOf b) = decide (signBit ≤ b.toNat) := by
  change _ = decide (2 ^ 63 ≤ b.toNat)
  unfold signOf
  split_ifs with h <;> simp only [isNegative, h, decide_true, decide_false]

/-! ## The parts -/

/-- An unpacked number as its parts. -/
def Parts.ofUnpacked : UnpackedFloat → Parts
  | .notANumber => .nan
  | .infinity s => .infinite (isNegative s)
  | .zero s => .finite (isNegative s) 0 leastExponent
  | .finite s m e _ => .finite (isNegative s) m e

theorem parts_eq (x : Float) : parts x = Parts.ofUnpacked x.toModel.unpack := by
  change _ = Parts.ofUnpacked (unpack binary64 x.toBits.toBitVec)
  have hparts : parts x =
      let b := x.toBits.toBitVec
      if exponentField b = 2047 then
        if mantissaField b = 0 then .infinite (isNegative (signOf b)) else .nan
      else if exponentField b = 0 then .finite (isNegative (signOf b)) (mantissaField b) leastExponent
      else .finite (isNegative (signOf b)) (mantissaField b + leadingBit)
        ((exponentField b : Int) + leastExponent - 1) := by
    simp only [isNegative_signOf]
    rfl
  rw [hparts]
  generalize x.toBits.toBitVec = b
  have hunpacks := unpacks b
  generalize unpack binary64 b = u at hunpacks ⊢
  cases hunpacks with
  | nan he hm => simp only [he, hm, if_true, if_false, Parts.ofUnpacked]
  | infinity he hm => simp only [he, hm, if_true, Parts.ofUnpacked]
  | zero he hm => simp [he, hm, Parts.ofUnpacked]
  | subnormal he hm => simp [he, Parts.ofUnpacked, leastExponent]
  | normal hzero hlarge =>
    simp only [if_neg hzero, if_neg hlarge, Parts.ofUnpacked, leastExponent]
    congr 1
    omega

end Stencil.Number
