/-
  The sign of a double-precision number.

  Packing, rounding and multiplying keep track of it, so a count, which is made by these from
  positive numbers, is never equal to a negative number.
-/
import Mathlib
import Stencil.Number.Whole
import Stencil.Proofs.Number.Overflow

namespace Stencil.Number

open Float.Model (UnpackedFloat)
open Float.Model.Format (binary64)
open Float.Model.UnpackedFloat

/-- A number, with the sign `s`. -/
def HasSign (s : Sign) : UnpackedFloat → Prop
  | .zero t | .infinity t | .finite t _ _ _ => t = s
  | .notANumber => False

theorem hasSign_finite (s : Sign) {m : Nat} (e : Int) (hm : 0 < m) :
    HasSign s (.finite s m e hm) := rfl

theorem hasSign_unpack_packComponents {s : Sign} {e : BitVec 11} {m : BitVec 52}
    (h : e = -1#11 → m = 0#52) : HasSign s (unpack binary64 (packComponents binary64 s e m)) := by
  simp only [unpack, unpackExponent_packComponents, unpackMantissa_packComponents,
    unpackSign_packComponents, Sign.ofBitVec_toBitVec]
  split_ifs with he hm hz hm
  · rfl
  · exact hm (h he)
  all_goals rfl

theorem HasSign.unpack_pack {s : Sign} {x : UnpackedFloat} (h : HasSign s x) :
    HasSign s (Float.Model.pack x).unpack := by
  change HasSign s (unpack binary64 (pack binary64 x))
  cases x with
  | notANumber => exact h.elim
  | infinity t => exact h ▸ hasSign_unpack_packComponents fun _ => rfl
  | zero t => exact h ▸ hasSign_unpack_packComponents fun _ => rfl
  | finite t m e hm =>
    obtain rfl : t = s := h
    by_cases he : 972 ≤ e
    · rw [pack_finite_of_le he]
      exact hasSign_unpack_packComponents fun _ => rfl
    · obtain ⟨b, f, -, hb, hpack⟩ := pack_finite_of_lt t hm (Int.not_le.mp he)
      rw [hpack]
      exact hasSign_unpack_packComponents fun h => absurd h hb

theorem hasSign_roundWithAccuracy (s : Sign) (m : Nat) (e : Int) (acc : Accuracy) :
    HasSign s (roundWithAccuracy binary64 s m e acc) := by
  rcases roundWithAccuracy_cases s m e acc with ⟨-, h⟩ | ⟨-, n, hn, h⟩ <;> rw [h] <;> rfl

/-- A product with a positive number. -/
theorem HasSign.mul_positive {s : Sign} {x : UnpackedFloat} (h : HasSign s x) {m : Nat} {e : Int}
    (hm : 0 < m) : HasSign s (UnpackedFloat.mul binary64 x (.finite .positive m e hm)) := by
  have hproduct : s * .positive = s := by cases s <;> rfl
  cases x with
  | notANumber => exact h.elim
  | infinity t | zero t =>
    obtain rfl : t = s := h
    exact hproduct
  | finite t n f hn =>
    obtain rfl : t = s := h
    change HasSign t (roundWithAccuracy binary64 (t * .positive) (n * m) (f + e) .exact)
    rw [hproduct]
    exact hasSign_roundWithAccuracy _ _ _ _

theorem hasSign_toFloat {n : Nat} (hn : n < 2 ^ 53) :
    HasSign .positive n.toUInt64.toFloat.toModel.unpack := by
  change HasSign .positive (Float.Model.pack
    (UnpackedFloat.normalize binary64 (n.toUInt64.toNat : Int) 0 .positive)).unpack
  rw [show n.toUInt64.toNat = n from Nat.mod_eq_of_lt (by omega)]
  refine HasSign.unpack_pack ?_
  rcases Nat.eq_zero_or_pos n with rfl | hpos
  · rfl
  · have hgt : compare (n : Int) 0 = .gt := compare_gt_iff_gt.mpr (by omega)
    simp only [UnpackedFloat.normalize, hgt]
    exact hasSign_roundWithAccuracy _ _ _ _

/-- The power of ten that a whole number is multiplied by. -/
theorem unpack_tenToZero : (Float.exactlyRepresentablePowersOfTen[0]).toModel.unpack =
    .finite .positive (2 ^ 52) (-52) (by positivity) := rfl

theorem hasSign_ofScientific (n : Nat) : HasSign .positive (ofScientific binary64 n 0) := by
  by_cases hn : n = 0
  · simp only [ofScientific, dif_pos hn]
    rfl
  · have hlarge : ¬ (0 : Int) > 2 ^ binary64.exponentBits := by decide
    have hsmall : ¬ (0 : Int) < -((2 ^ binary64.exponentBits : Int) + n.log2) := by
      simp only [Int.reducePow]
      omega
    simp only [ofScientific, dif_neg hn, if_neg hlarge, if_neg hsmall, if_pos le_rfl]
    exact (hasSign_finite .positive _ _).mul_positive _

/-- A count is made of positive numbers, by one product in any case. -/
theorem hasSign_ofCount (n : Nat) : HasSign .positive (ofCount n).toModel.unpack := by
  change HasSign .positive (Float.ofScientific n false 0).toModel.unpack
  by_cases h : n < 2 ^ 53 ∧ 0 ≤ 22
  · have hproduct : HasSign .positive (Float.Model.pack (UnpackedFloat.mul binary64
        n.toUInt64.toFloat.toModel.unpack
        (Float.exactlyRepresentablePowersOfTen[0]).toModel.unpack)).unpack := by
      rw [unpack_tenToZero]
      exact ((hasSign_toFloat h.1).mul_positive _).unpack_pack
    simp only [Float.ofScientific, dif_pos h]
    exact hproduct
  · simp only [Float.ofScientific, dif_neg h]
    exact (hasSign_ofScientific n).unpack_pack

/-- No count is the number that stands for a missing position. -/
theorem ofCount_beq_neg_one (n : Nat) : (ofCount n == -1.0) = false := by
  have hnegative : (-1.0 : Float).toModel.unpack = .finite .negative (2 ^ 52) (-52) (by positivity) :=
    rfl
  have hsign := hasSign_ofCount n
  rw [← Bool.not_eq_true]
  intro hequal
  obtain ⟨-, -, heq | ⟨-, hzero⟩ | ⟨-, hzero⟩⟩ := (beq_iff_ne_notANumber_and_eq _ _).mp hequal
  · rw [heq, hnegative] at hsign
    cases hsign
  · cases hnegative.symm.trans hzero
  · cases hnegative.symm.trans hzero

end Stencil.Number
