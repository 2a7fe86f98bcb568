/-
  When a rounding overflows.

  A double-precision number is packed from a mantissa and an exponent, as an infinity from the
  exponent 972 on.  Rounding shifts the mantissa to 53 bits and rounds what is left off to the
  nearest, a tie to the even mantissa; it overflows when that exponent is reached, at once or by
  rounding up to the next power of two.  Both together are one bound on the number itself,
  `overflowBound` (`packsInfinite_round_iff`).
-/
import Mathlib

namespace Stencil.Number

open Float.Model (UnpackedFloat totalExponent)
open Float.Model.Format (binary64)
open Float.Model.UnpackedFloat

/-! ## Packing -/

/-- Whether an unpacked number is packed as an infinity: its exponent may be too large. -/
def PacksInfinite : UnpackedFloat → Prop
  | .infinity _ => True
  | .finite _ _ e _ => 972 ≤ e
  | .notANumber | .zero _ => False

theorem isInf_unpack_packComponents (s : Sign) (e : BitVec 11) (m : BitVec 52) :
    (unpack binary64 (packComponents binary64 s e m)).isInf = true ↔ e = -1#11 ∧ m = 0#52 := by
  simp only [unpack, unpackExponent_packComponents, unpackMantissa_packComponents]
  split_ifs with he hm hz hm <;> simp_all [isInf]

theorem isNaN_unpack_packComponents (s : Sign) (e : BitVec 11) (m : BitVec 52) :
    (unpack binary64 (packComponents binary64 s e m)).isNaN = true ↔ e = -1#11 ∧ m ≠ 0#52 := by
  simp only [unpack, unpackExponent_packComponents, unpackMantissa_packComponents]
  split_ifs with he hm hz hm <;> simp_all [isNaN]

theorem pack_finite_of_le {s : Sign} {m : Nat} {e : Int} {hm : 0 < m} (he : 972 ≤ e) :
    pack binary64 (.finite s m e hm) = packedInfinity binary64 s := by
  have hbias : (binary64.exponentBias : Int) = 1023 := by decide
  have hlarge : 2 ^ 11 ≤ (e + 1023 + (52 : Nat)).toNat + 1 := by omega
  simp only [pack, hbias]
  rw [if_pos hlarge]

/-- A number with a small exponent is packed with an exponent below that of the infinities. -/
theorem pack_finite_of_lt (s : Sign) {m : Nat} {e : Int} (hm : 0 < m) (he : e < 972) :
    ∃ (b : BitVec 11) (f : BitVec 52), b.toNat ≤ (e + 1075).toNat ∧ b ≠ -1#11 ∧
      pack binary64 (.finite s m e hm) = packComponents binary64 s b f := by
  have hbias : (binary64.exponentBias : Int) = 1023 := by decide
  have hsmall : ¬ 2 ^ 11 ≤ (e + 1023 + (52 : Nat)).toNat + 1 := by omega
  simp only [pack, hbias]
  rw [if_neg hsmall]
  split_ifs with hnormal
  · refine ⟨_, _, ?_, ?_, rfl⟩
    · rw [BitVec.toNat_ofNat, Nat.mod_eq_of_lt (by omega)]
      omega
    · rw [← BitVec.toNat_inj.ne, BitVec.toNat_ofNat, Nat.mod_eq_of_lt (by omega)]
      have : (-1#11).toNat = 2047 := by decide
      omega
  · exact ⟨_, _, Nat.zero_le _, by decide, rfl⟩

theorem isInf_pack (x : UnpackedFloat) : (Float.Model.pack x).isInf = true ↔ PacksInfinite x := by
  change (unpack binary64 (pack binary64 x)).isInf = true ↔ _
  cases x with
  | notANumber => simp [pack, packedNaN, isInf_unpack_packComponents, PacksInfinite]
  | infinity s => simp [pack, packedInfinity, isInf_unpack_packComponents, PacksInfinite]
  | zero s => simp [pack, packedZero, isInf_unpack_packComponents, PacksInfinite]
  | finite s m e hm =>
    by_cases he : 972 ≤ e
    · rw [pack_finite_of_le he]
      simp [packedInfinity, isInf_unpack_packComponents, PacksInfinite, he]
    · obtain ⟨b, f, -, hb, hpack⟩ := pack_finite_of_lt s hm (Int.not_le.mp he)
      rw [hpack, isInf_unpack_packComponents]
      simp only [hb, PacksInfinite, he, false_and]

theorem isNaN_pack (x : UnpackedFloat) : (Float.Model.pack x).isNaN = true ↔ x = .notANumber := by
  change (unpack binary64 (pack binary64 x)).isNaN = true ↔ _
  cases x with
  | notANumber =>
    simp only [pack, packedNaN, isNaN_unpack_packComponents]
    decide
  | infinity s =>
    simp only [pack, packedInfinity, isNaN_unpack_packComponents]
    simp
  | zero s =>
    simp only [pack, packedZero, isNaN_unpack_packComponents]
    simp
  | finite s m e hm =>
    by_cases he : 972 ≤ e
    · rw [pack_finite_of_le he, packedInfinity, isNaN_unpack_packComponents]
      simp
    · obtain ⟨b, f, -, hb, hpack⟩ := pack_finite_of_lt s hm (Int.not_le.mp he)
      rw [hpack, isNaN_unpack_packComponents]
      simp only [hb, false_and, reduceCtorEq]

/-- What unpacking gives: a mantissa of at most 53 bits, and no exponent of an infinity. -/
theorem unpack_bounds {b : BitVec binary64.numBits} {s : Sign} {m : Nat} {e : Int} {hm : 0 < m}
    (h : unpack binary64 b = .finite s m e hm) : m < 2 ^ 53 ∧ e < 972 := by
  have hbias : (binary64.exponentBias : Int) = 1023 := by decide
  simp only [unpack] at h
  split_ifs at h with he hf hz hf
  · injection h with _ hmant hexp
    constructor
    · rw [← hmant]
      have := (unpackMantissa b).isLt
      omega
    · rw [← hexp, hz, hbias]
      decide
  · injection h with _ hmant hexp
    constructor
    · rw [← hmant]
      exact (1#1 ++ unpackMantissa b).isLt
    · have hlt := (unpackExponent b).isLt
      have hne : (unpackExponent b).toNat ≠ 2047 := fun h => he (BitVec.eq_of_toNat_eq h)
      rw [hbias] at hexp
      simp only at hlt hexp
      omega

/-! ## Rounding -/

theorem shift_mantissa (m : Nat) (acc : Accuracy) (k : Nat) :
    (ExtendedMantissa.ofMantissaAndAccuracy m acc >>> k).mantissa = m / 2 ^ k := by
  change (k.repeat ExtendedMantissa.shiftRightOne _).mantissa = _
  induction k with
  | zero =>
    rcases acc with _ | _ | _ | _ <;> simp [Nat.repeat, ExtendedMantissa.ofMantissaAndAccuracy]
  | succ k ih =>
    rw [Nat.repeat, ExtendedMantissa.shiftRightOne, ih, Nat.div_div_eq_div_mul, ← pow_succ]

theorem shift_roundBit (m : Nat) (acc : Accuracy) (k : Nat) :
    (ExtendedMantissa.ofMantissaAndAccuracy m acc >>> (k + 1)).roundBit
      = (m / 2 ^ k % 2 != 0) := by
  rw [← shift_mantissa m acc k]
  rfl

theorem roundedMantissa_cases (x : ExtendedMantissa) :
    x.roundedMantissa = x.mantissa ∨ x.roundedMantissa = x.mantissa + 1 := by
  obtain ⟨m, r, t⟩ := x
  cases r <;> cases t <;>
    simp [ExtendedMantissa.roundedMantissa, ExtendedMantissa.accuracy, Accuracy.roundToNearestEven]
  omega

/-- An odd mantissa is rounded up just when its round bit is set. -/
theorem roundedMantissa_odd {x : ExtendedMantissa} (hodd : x.mantissa % 2 = 1) :
    x.roundedMantissa = x.mantissa + 1 ↔ x.roundBit = true := by
  obtain ⟨m, r, t⟩ := x
  cases r <;> cases t <;>
    simp_all [ExtendedMantissa.roundedMantissa, ExtendedMantissa.accuracy,
      Accuracy.roundToNearestEven]

/-- The exponent that the first shift of a rounding gives. -/
def firstExponent (m : Nat) (e : Int) : Int := max e (max (m.log2 - 52 + e) (-1074))

/-- The mantissa after the first shift of a rounding. -/
def firstMantissa (m : Nat) (e : Int) (acc : Accuracy) : ExtendedMantissa :=
  ExtendedMantissa.ofMantissaAndAccuracy m acc >>> (firstExponent m e - e).toNat

theorem firstMantissa_mantissa (m : Nat) (e : Int) (acc : Accuracy) :
    (firstMantissa m e acc).mantissa = m / 2 ^ (firstExponent m e - e).toNat :=
  shift_mantissa m acc _

theorem shiftToTargetExponent_eq (m : Nat) (e : Int) (acc : Accuracy) :
    shiftToTargetExponent binary64 m e acc = (firstMantissa m e acc, firstExponent m e) := by
  have hbits : (binary64.mantissaBits : Int) = 53 := by decide
  have hmin : binary64.minExponent = -1074 := by decide
  have htarget : binary64.targetExponent (totalExponent m e) = max (m.log2 - 52 + e) (-1074) := by
    simp only [Float.Model.Format.targetExponent, totalExponent, hbits, hmin]
    omega
  have hamount : (max (m.log2 - 52 + e) (-1074) - e).toNat = (firstExponent m e - e).toNat := by
    simp only [firstExponent]
    omega
  have hexponent : e + ((firstExponent m e - e).toNat : Int) = firstExponent m e := by
    simp only [firstExponent]
    omega
  simp only [shiftToTargetExponent, shiftToExponent, htarget, hamount, hexponent, firstMantissa]

/-- The mantissa that a rounding keeps has at most 53 bits; only one that was rounded up to the
    next power of two has one more. -/
theorem roundedMantissa_le (m : Nat) (e : Int) (acc : Accuracy) :
    (firstMantissa m e acc).roundedMantissa ≤ 2 ^ 53 := by
  have hlt : (firstMantissa m e acc).mantissa < 2 ^ 53 := by
    rw [firstMantissa_mantissa, Nat.div_lt_iff_lt_mul (by positivity), ← pow_add]
    refine lt_of_lt_of_le Nat.lt_log2_self (Nat.pow_le_pow_right (by norm_num) ?_)
    simp only [firstExponent]
    omega
  rcases roundedMantissa_cases (firstMantissa m e acc) with h | h <;> omega

theorem log2_le_of_lt {m k : Nat} (h : m < 2 ^ (k + 1)) : m.log2 ≤ k := by
  by_cases hz : m = 0
  · simp [hz]
  · exact Nat.lt_succ_iff.mp ((Nat.log2_lt hz).mpr h)

/-- The second shift of a rounding moves the exponent only for a mantissa of 54 bits. -/
theorem firstExponent_of_le {r : Nat} {e : Int} (hr : r ≤ 2 ^ 53) (he : -1074 ≤ e) :
    firstExponent r e = if r = 2 ^ 53 then e + 1 else e := by
  split_ifs with h
  · subst h
    simp only [firstExponent, Nat.log2_two_pow]
    omega
  · have hlog : r.log2 ≤ 52 := log2_le_of_lt (by omega)
    simp only [firstExponent]
    omega

theorem firstMantissa_eq_zero {r : Nat} {e : Int} (hr : r ≤ 2 ^ 53) (he : -1074 ≤ e) :
    (firstMantissa r e .exact).mantissa = 0 ↔ r = 0 := by
  rw [firstMantissa_mantissa, firstExponent_of_le hr he]
  split_ifs with h
  · simp [h]
  · simp

theorem neg_1074_le_firstExponent (m : Nat) (e : Int) : -1074 ≤ firstExponent m e := by
  simp only [firstExponent]
  omega

/-- A rounding gives a zero, or a number whose exponent is that of the first shift, or one more
    after rounding up to the next power of two. -/
theorem roundWithAccuracy_cases (s : Sign) (m : Nat) (e : Int) (acc : Accuracy) :
    ((firstMantissa m e acc).roundedMantissa = 0 ∧
      roundWithAccuracy binary64 s m e acc = .zero s) ∨
    ((firstMantissa m e acc).roundedMantissa ≠ 0 ∧
      ∃ n hn, roundWithAccuracy binary64 s m e acc = .finite s n
        (if (firstMantissa m e acc).roundedMantissa = 2 ^ 53 then firstExponent m e + 1
          else firstExponent m e) hn) := by
  have hle := roundedMantissa_le m e acc
  have hzero := firstMantissa_eq_zero hle (neg_1074_le_firstExponent m e)
  have hexp := firstExponent_of_le hle (neg_1074_le_firstExponent m e)
  simp only [roundWithAccuracy, shiftToTargetExponent_eq, ← hexp]
  split_ifs with h
  · exact .inl ⟨hzero.mp h, rfl⟩
  · exact .inr ⟨mt hzero.mpr h, _, Nat.pos_of_ne_zero h, rfl⟩

theorem roundWithAccuracy_ne_notANumber (s : Sign) (m : Nat) (e : Int) (acc : Accuracy) :
    roundWithAccuracy binary64 s m e acc ≠ .notANumber := by
  rcases roundWithAccuracy_cases s m e acc with ⟨-, h⟩ | ⟨-, n, hn, h⟩ <;> simp [h]

/-! ## Overflow -/

theorem packsInfinite_roundWithAccuracy (s : Sign) (m : Nat) (e : Int) (acc : Accuracy) :
    PacksInfinite (roundWithAccuracy binary64 s m e acc) ↔
      (firstMantissa m e acc).roundedMantissa ≠ 0 ∧
        (972 ≤ firstExponent m e ∨
          firstExponent m e = 971 ∧ (firstMantissa m e acc).roundedMantissa = 2 ^ 53) := by
  rcases roundWithAccuracy_cases s m e acc with ⟨hzero, h⟩ | ⟨hpos, n, hn, h⟩
  · simp [h, PacksInfinite, hzero]
  · simp only [h, PacksInfinite, hpos, ne_eq, not_false_eq_true, true_and]
    split_ifs <;> omega

/-- A number of 54 bits and more rounds up to the next power of two exactly when its first 54 bits
    are ones. -/
theorem roundedMantissa_eq_two_pow {m k : Nat} {e : Int} (acc : Accuracy)
    (hm : m < 2 ^ (k + 54)) (hshift : (firstExponent m e - e).toNat = k + 1) :
    (firstMantissa m e acc).roundedMantissa = 2 ^ 53 ↔ (2 ^ 54 - 1) * 2 ^ k ≤ m := by
  have hmantissa : (firstMantissa m e acc).mantissa = m / 2 ^ k / 2 := by
    rw [firstMantissa_mantissa, hshift, Nat.div_div_eq_div_mul, pow_succ]
  have hbit : (firstMantissa m e acc).roundBit = (m / 2 ^ k % 2 != 0) := by
    rw [firstMantissa, hshift, shift_roundBit]
  have hsize : m / 2 ^ k < 2 ^ 54 := by
    rw [Nat.div_lt_iff_lt_mul (by positivity), ← pow_add, Nat.add_comm 54]
    exact hm
  rw [← Nat.le_div_iff_mul_le (by positivity)]
  constructor
  · intro h
    have hup := roundedMantissa_cases (firstMantissa m e acc)
    have hodd : (firstMantissa m e acc).mantissa % 2 = 1 := by omega
    have := (roundedMantissa_odd hodd).mp (by omega)
    rw [hbit, bne_iff_ne] at this
    omega
  · intro h
    have hodd : (firstMantissa m e acc).mantissa % 2 = 1 := by omega
    rw [(roundedMantissa_odd hodd).mpr (by rw [hbit, bne_iff_ne]; omega)]
    omega

/-- Half a unit in the last place above the largest double-precision number: the least magnitude
    that rounds to an infinity. -/
def overflowBound : Nat := (2 ^ 54 - 1) * 2 ^ 970

/-- **Overflow of a rounding.** The number `m · 2 ^ (970 - k)` rounds to an infinity exactly when
    it is `overflowBound` or more; what is known of the digits after `m` makes no difference. -/
theorem packsInfinite_round_iff (s : Sign) (m k : Nat) (acc : Accuracy) :
    PacksInfinite (roundWithAccuracy binary64 s m (970 - k) acc) ↔ (2 ^ 54 - 1) * 2 ^ k ≤ m := by
  rw [packsInfinite_roundWithAccuracy]
  by_cases hm : m = 0
  · subst hm
    have hpos : 0 < (2 ^ 54 - 1) * 2 ^ k := by positivity
    have hexp : firstExponent 0 (970 - k) ≤ 970 := by
      simp only [firstExponent, Nat.log2_zero]
      omega
    omega
  have hlow : 2 ^ m.log2 ≤ m := Nat.log2_self_le hm
  have hhigh : m < 2 ^ (m.log2 + 1) := Nat.lt_log2_self
  have hexp : firstExponent m (970 - k) =
      max (970 - (k : Int)) (max ((m.log2 : Int) + 918 - k) (-1074)) := by
    simp only [firstExponent]
    omega
  have hup := roundedMantissa_cases (firstMantissa m (970 - k) acc)
  rcases Nat.lt_trichotomy m.log2 (k + 53) with hlog | hlog | hlog
  · -- below the last binade nothing reaches its exponent
    have hlt : m < 2 ^ 53 * 2 ^ k := by
      rw [← pow_add, Nat.add_comm 53]
      exact lt_of_lt_of_le hhigh (Nat.pow_le_pow_right (by norm_num) hlog)
    omega
  · -- in the last binade a number overflows by being rounded up
    have hshift : (firstExponent m (970 - k) - (970 - k)).toNat = k + 1 := by omega
    have hround := roundedMantissa_eq_two_pow acc (by rwa [hlog] at hhigh) hshift
    omega
  · -- above it every number overflows
    have hge : 2 ^ 54 * 2 ^ k ≤ m := by
      rw [← pow_add, Nat.add_comm 54]
      exact (Nat.pow_le_pow_right (by norm_num) hlog).trans hlow
    have hkept : 0 < (firstMantissa m (970 - k) acc).mantissa := by
      have hshift : (firstExponent m (970 - k) - (970 - k)).toNat = m.log2 - 52 := by omega
      rw [firstMantissa_mantissa, hshift]
      exact Nat.div_pos ((Nat.pow_le_pow_right (by norm_num) (by omega)).trans hlow) (by positivity)
    omega

end Stencil.Number
