/-
  Which numerals are too large for a double-precision number.

  `Float.ofScientific` multiplies or divides once by an exact power of ten where the digits and the
  power are few, and else rounds the exact product or quotient.  Either way its result is an
  infinity exactly from `overflowBound` on, and always a number (`ofScientific_status`).
-/
import Mathlib.Tactic
import Stencil.Number.Numeral
import Stencil.Proofs.Number.Rounding

namespace Stencil.Number

open Float.Model (UnpackedFloat totalExponent)
open Float.Model.Format (binary64)
open Float.Model.UnpackedFloat

/-! ## Decimal numbers -/

theorem overflowBound_pos : 0 < overflowBound := by
  unfold overflowBound
  positivity

theorem overflowBound_le {e : Nat} (he : 1024 ≤ e) : overflowBound ≤ 2 ^ e := by
  obtain ⟨d, rfl⟩ := Nat.exists_eq_add_of_le (show 970 ≤ e by omega)
  calc overflowBound
    _ ≤ 2 ^ 970 * 2 ^ 54 := by
      rw [overflowBound, Nat.mul_comm]
      exact Nat.mul_le_mul_left _ (Nat.sub_le _ _)
    _ ≤ 2 ^ 970 * 2 ^ d := Nat.mul_le_mul_left _ (Nat.pow_le_pow_right (by norm_num) (by omega))
    _ = 2 ^ (970 + d) := (pow_add 2 970 d).symm

/-- A decimal number with a power of ten to multiply by. -/
theorem packsInfinite_ofScientific_mul {m e : Nat} (hm : m ≠ 0) :
    PacksInfinite (ofScientific binary64 m e) ↔ overflowBound ≤ m * 10 ^ e := by
  have hbits : binary64.mantissaBits = 53 := by decide
  have hsmall : ¬ (e : Int) < -((2 ^ binary64.exponentBits : Int) + m.log2) := by
    simp only [Int.reducePow]
    omega
  by_cases hlarge : (e : Int) > 2 ^ binary64.exponentBits
  · simp only [ofScientific, dif_neg hm, if_pos hlarge, PacksInfinite, true_iff]
    have he : 1024 ≤ e := by
      simp only [Int.reducePow] at hlarge
      omega
    calc overflowBound
      _ ≤ 2 ^ e := overflowBound_le he
      _ ≤ 10 ^ e := Nat.pow_le_pow_left (by norm_num) e
      _ ≤ m * 10 ^ e := Nat.le_mul_of_pos_left _ (Nat.pos_of_ne_zero hm)
  · have hround := packsInfinite_round_iff (.positive * .positive) (m <<< 53 * 10 ^ e) 1023 .exact
    simp only [ofScientific, dif_neg hm, if_neg hlarge, if_neg hsmall,
      if_pos (Int.natCast_nonneg e), mul, hbits, Int.toNat_natCast]
    rw [show (-(53 : Nat) + 0 : Int) = 970 - (1023 : Nat) by norm_num, hround, overflowBound,
      Nat.shiftLeft_eq]
    have hscale : (2 ^ 54 - 1) * 2 ^ 1023 = (2 ^ 54 - 1) * 2 ^ 970 * 2 ^ 53 := by
      rw [Nat.mul_assoc, ← pow_add]
    rw [hscale, Nat.mul_right_comm m]
    exact Nat.mul_le_mul_right_iff (by positivity)

/-- A quotient overflows by its integer part, at whatever place it ends. -/
theorem packsInfinite_div (s t : Sign) {m d k : Nat} {e f : Int} (hm : 0 < m) (hd : 0 < d)
    (hk : e - f = 970 - k) :
    PacksInfinite (div binary64 (.finite s m e hm) (.finite t d f hd)) ↔
      (2 ^ 54 - 1) * 2 ^ k * d ≤ m := by
  simp only [div, divCore]
  generalize hplace : min (e - f) _ = place
  have hshift : ∃ n : Nat, place = e - f - n := ⟨(e - f - place).toNat, by omega⟩
  obtain ⟨n, rfl⟩ := hshift
  rw [show (e - f - (e - f - n)).toNat = n by omega,
    show e - f - (n : Int) = 970 - (k + n : Nat) by push_cast; omega, packsInfinite_round_iff,
    Nat.shiftLeft_eq, Nat.le_div_iff_mul_le hd, pow_add, ← Nat.mul_assoc, Nat.mul_right_comm]
  exact Nat.mul_le_mul_right_iff (by positivity)

/-- A decimal number with a power of ten to divide by. -/
theorem packsInfinite_ofScientific_div {m e : Nat} (hm : m ≠ 0) (he : e ≠ 0) :
    PacksInfinite (ofScientific binary64 m (-e)) ↔ overflowBound * 10 ^ e ≤ m := by
  have hnegative : ¬ 0 ≤ -(e : Int) := by omega
  have hlarge : ¬ -(e : Int) > 2 ^ binary64.exponentBits := by
    simp only [Int.reducePow]
    omega
  by_cases hsmall : -(e : Int) < -((2 ^ binary64.exponentBits : Int) + m.log2)
  · simp only [ofScientific, dif_neg hm, if_neg hlarge, if_pos hsmall, PacksInfinite, false_iff,
      not_le]
    have he : m.log2 + 1 ≤ e := by
      simp only [Int.reducePow] at hsmall
      omega
    calc m
      _ < 2 ^ (m.log2 + 1) := Nat.lt_log2_self
      _ ≤ 2 ^ e := Nat.pow_le_pow_right (by norm_num) he
      _ ≤ 10 ^ e := Nat.pow_le_pow_left (by norm_num) e
      _ ≤ overflowBound * 10 ^ e := Nat.le_mul_of_pos_left _ overflowBound_pos
  · simp only [ofScientific, dif_neg hm, if_neg hlarge, if_neg hsmall, if_neg hnegative]
    have hk : (0 : Int) - 0 = 970 - (970 : Nat) := by norm_num
    rw [packsInfinite_div _ _ _ _ hk, neg_neg, Int.toNat_natCast, overflowBound]

/-- **Overflow of a decimal number.** -/
theorem packsInfinite_ofScientific (m : Nat) (e : Int) :
    PacksInfinite (ofScientific binary64 m e) ↔ (overflowBound : ℚ) ≤ m * 10 ^ e := by
  by_cases hm : m = 0
  · subst hm
    have hpos : (0 : ℚ) < overflowBound := by exact_mod_cast overflowBound_pos
    rw [Nat.cast_zero, zero_mul]
    simpa only [ofScientific, dite_true, PacksInfinite, false_iff, not_le] using hpos
  obtain ⟨n, rfl | rfl⟩ := e.eq_nat_or_neg
  · rw [packsInfinite_ofScientific_mul hm, zpow_natCast]
    exact_mod_cast Iff.rfl
  · rcases Nat.eq_zero_or_pos n with rfl | hn
    · rw [Nat.cast_zero, neg_zero, ← Nat.cast_zero, packsInfinite_ofScientific_mul hm, zpow_natCast]
      exact_mod_cast Iff.rfl
    · rw [packsInfinite_ofScientific_div hm hn.ne', zpow_neg, zpow_natCast, ← div_eq_mul_inv,
        le_div_iff₀ (by positivity)]
      exact_mod_cast Iff.rfl

/-! ## Decimal numbers of few digits

A numeral whose digits and power of ten are exact is read by one multiplication or division. -/

/-- A zero, or a finite number far below the largest. -/
def IsModest : UnpackedFloat → Prop
  | .zero _ => True
  | .finite _ m e _ => m < 2 ^ 53 ∧ e ≤ 100
  | .infinity _ | .notANumber => False

instance : DecidablePred IsModest
  | .zero _ => .isTrue trivial
  | .finite _ m e _ => inferInstanceAs (Decidable (m < 2 ^ 53 ∧ e ≤ 100))
  | .infinity _ | .notANumber => .isFalse id

theorem isModest_unpack_pack {s : Sign} {m : Nat} {e : Int} {hm : 0 < m} (he : e ≤ 100) :
    IsModest (unpack binary64 (pack binary64 (.finite s m e hm))) := by
  obtain ⟨b, f, hle, hb, hpack⟩ := pack_finite_of_lt s hm (show e < 972 by omega)
  have hbias : (binary64.exponentBias : Int) = 1023 := by decide
  rw [hpack]
  simp only [unpack, unpackExponent_packComponents, unpackMantissa_packComponents, if_neg hb, hbias]
  split_ifs with hz hf
  · trivial
  · refine ⟨by have := f.isLt; omega, ?_⟩
    rw [hz]
    decide
  · refine ⟨(1#1 ++ f).isLt, ?_⟩
    omega

/-- A whole number of at most 53 bits keeps its bits. -/
theorem isModest_round {m : Nat} (hm : m < 2 ^ 53) (s : Sign) :
    IsModest (unpack binary64 (pack binary64 (UnpackedFloat.round binary64 s m 0))) := by
  have hlog := log2_le_of_lt hm
  have hshifted : (m <<< (52 - m.log2)).log2 ≤ 52 := by
    apply log2_le_of_lt
    calc m <<< (52 - m.log2)
      _ = m * 2 ^ (52 - m.log2) := Nat.shiftLeft_eq _ _
      _ < 2 ^ (m.log2 + 1) * 2 ^ (52 - m.log2) :=
        Nat.mul_lt_mul_of_pos_right Nat.lt_log2_self (by positivity)
      _ = 2 ^ 53 := by rw [← pow_add, show m.log2 + 1 + (52 - m.log2) = 53 by omega]
  have htarget : binary64.targetExponent (totalExponent m 0) = -(52 - m.log2 : Nat) := by
    have hbits : (binary64.mantissaBits : Int) = 53 := by decide
    have hmin : binary64.minExponent = -1074 := by decide
    simp only [Float.Model.Format.targetExponent, totalExponent, hbits, hmin]
    omega
  simp only [UnpackedFloat.round, decreaseExponent, htarget]
  rw [show (0 - -((52 - m.log2 : Nat) : Int)).toNat = 52 - m.log2 by omega]
  rcases roundWithAccuracy_cases s (m <<< (52 - m.log2)) (0 - (52 - m.log2 : Nat)) .exact with
    ⟨-, h⟩ | ⟨-, n, hn, h⟩
  · rw [h]
    cases s <;> decide
  · rw [h]
    refine isModest_unpack_pack ?_
    simp only [firstExponent]
    split_ifs <;> omega

theorem isModest_toFloat {m : Nat} (hm : m < 2 ^ 53) :
    IsModest m.toUInt64.toFloat.toModel.unpack := by
  change IsModest (unpack binary64 (pack binary64
    (UnpackedFloat.normalize binary64 (m.toUInt64.toNat : Int) 0 .positive)))
  rw [show m.toUInt64.toNat = m from Nat.mod_eq_of_lt (by omega)]
  rcases Nat.eq_zero_or_pos m with rfl | hpos
  · decide
  · have hgt : compare (m : Int) 0 = .gt := compare_gt_iff_gt.mpr (by omega)
    simp only [UnpackedFloat.normalize, hgt]
    exact isModest_round hm .positive

/-- A finite number other than zero, and neither large nor small. -/
def IsFactor : UnpackedFloat → Prop
  | .finite _ m e _ => m < 2 ^ 53 ∧ -100 ≤ e ∧ e ≤ 100
  | .zero _ | .infinity _ | .notANumber => False

instance : DecidablePred IsFactor
  | .finite _ m e _ => inferInstanceAs (Decidable (m < 2 ^ 53 ∧ -100 ≤ e ∧ e ≤ 100))
  | .zero _ | .infinity _ | .notANumber => .isFalse id

theorem isFactor_exactlyRepresentable :
    ∀ e : Fin 23, IsFactor (Float.exactlyRepresentablePowersOfTen[e]).toModel.unpack := by
  decide +kernel

theorem IsModest.mul {x y : UnpackedFloat} (hx : IsModest x) (hy : IsFactor y) :
    ¬ PacksInfinite (UnpackedFloat.mul binary64 x y) ∧
      UnpackedFloat.mul binary64 x y ≠ .notANumber := by
  cases y with
  | finite t d f hd =>
    obtain ⟨hd53, -, hf⟩ := hy
    cases x with
    | zero s => exact ⟨id, nofun⟩
    | finite s m e hm =>
      obtain ⟨hm53, he⟩ := hx
      refine ⟨?_, roundWithAccuracy_ne_notANumber _ _ _ _⟩
      obtain ⟨k, hk, hk770⟩ : ∃ k : Nat, e + f = 970 - k ∧ 770 ≤ k :=
        ⟨(970 - (e + f)).toNat, by omega, by omega⟩
      simp only [UnpackedFloat.mul, hk, packsInfinite_round_iff, not_le]
      calc m * d
        _ < 2 ^ 53 * 2 ^ 53 := Nat.mul_lt_mul'' hm53 hd53
        _ ≤ (2 ^ 54 - 1) * 2 ^ 53 := Nat.mul_le_mul_right _ (by norm_num)
        _ ≤ (2 ^ 54 - 1) * 2 ^ k :=
          Nat.mul_le_mul_left _ (Nat.pow_le_pow_right (by norm_num) (by omega))
    | infinity s => exact hx.elim
    | notANumber => exact hx.elim
  | zero t => exact hy.elim
  | infinity t => exact hy.elim
  | notANumber => exact hy.elim

theorem IsModest.div {x y : UnpackedFloat} (hx : IsModest x) (hy : IsFactor y) :
    ¬ PacksInfinite (UnpackedFloat.div binary64 x y) ∧
      UnpackedFloat.div binary64 x y ≠ .notANumber := by
  cases y with
  | finite t d f hd =>
    obtain ⟨-, hf, -⟩ := hy
    cases x with
    | zero s => exact ⟨id, nofun⟩
    | finite s m e hm =>
      obtain ⟨hm53, he⟩ := hx
      refine ⟨?_, roundWithAccuracy_ne_notANumber _ _ _ _⟩
      obtain ⟨k, hk⟩ : ∃ k : Nat, e - f = 970 - k := ⟨(970 - (e - f)).toNat, by omega⟩
      rw [packsInfinite_div s t hm hd hk, not_le]
      calc m
        _ < 2 ^ 53 := hm53
        _ ≤ 2 ^ 54 - 1 := by norm_num
        _ ≤ (2 ^ 54 - 1) * 2 ^ k := Nat.le_mul_of_pos_right _ (by positivity)
        _ ≤ (2 ^ 54 - 1) * 2 ^ k * d := Nat.le_mul_of_pos_right _ hd
    | infinity s => exact hx.elim
    | notANumber => exact hx.elim
  | zero t => exact hy.elim
  | infinity t => exact hy.elim
  | notANumber => exact hy.elim

/-! ## The number a scientific literal is -/

theorem ofScientific_ne_notANumber (m : Nat) (e : Int) :
    UnpackedFloat.ofScientific binary64 m e ≠ .notANumber := by
  unfold UnpackedFloat.ofScientific
  split_ifs <;>
    first
    | exact roundWithAccuracy_ne_notANumber _ _ _ _
    | nofun

-- `d` stays a variable here, so that the powers are not evaluated
theorem two_pow_le_mul {c d e : Nat} (hc : 0 < c) (he : e ≤ d) : 2 ^ e ≤ c * 2 ^ d :=
  (Nat.pow_le_pow_right (by norm_num) he).trans (Nat.le_mul_of_pos_left _ hc)

theorem two_pow_le_overflowBound {e : Nat} (he : e ≤ 970) : 2 ^ e ≤ overflowBound :=
  two_pow_le_mul (by norm_num) he

/-- A number of at most 53 bits times a small power of ten is not too large. -/
theorem lt_overflowBound {m e : Nat} (hm : m < 2 ^ 53) (he : e ≤ 22) (negative : Bool) :
    (m : ℚ) * 10 ^ (if negative then -(e : Int) else e) < overflowBound := by
  have hpower : (if negative then -(e : Int) else e) ≤ 22 := by split_ifs <;> omega
  calc (m : ℚ) * 10 ^ (if negative then -(e : Int) else e)
    _ ≤ m * 10 ^ (22 : Int) :=
      mul_le_mul_of_nonneg_left (zpow_le_zpow_right₀ (by norm_num) hpower) (by positivity)
    _ < 2 ^ 53 * 10 ^ (22 : Int) :=
      mul_lt_mul_of_pos_right (by exact_mod_cast hm) (by positivity)
    _ ≤ 2 ^ 200 := by norm_num
    _ ≤ overflowBound := by exact_mod_cast two_pow_le_overflowBound (e := 200) (by norm_num)

theorem isInf_ofModel_pack (x : UnpackedFloat) :
    (Float.ofModel (Float.Model.pack x)).isInf = true ↔ PacksInfinite x := isInf_pack x

theorem isNaN_ofModel_pack (x : UnpackedFloat) :
    (Float.ofModel (Float.Model.pack x)).isNaN = true ↔ x = .notANumber := isNaN_pack x

/-- **The status of a scientific literal.** It is an infinity exactly for a number that is
    `overflowBound` or more, and never what is not a number. -/
theorem ofScientific_status (m : Nat) (negative : Bool) (e : Nat) :
    ((Float.ofScientific m negative e).isInf = true ↔
      (overflowBound : ℚ) ≤ m * 10 ^ (if negative then -(e : Int) else e)) ∧
    (Float.ofScientific m negative e).isNaN = false := by
  rw [← Bool.not_eq_true]
  by_cases h : m < 2 ^ 53 ∧ e ≤ 22
  · have hlt := not_le.mpr (lt_overflowBound h.1 h.2 negative)
    have hfactor := isFactor_exactlyRepresentable ⟨e, by omega⟩
    simp only [Float.ofScientific, dif_pos h, hlt, iff_false]
    cases negative with
    | true =>
      obtain ⟨hfinite, hnumber⟩ := (isModest_toFloat h.1).div hfactor
      exact ⟨mt (isInf_ofModel_pack _).mp hfinite, mt (isNaN_ofModel_pack _).mp hnumber⟩
    | false =>
      obtain ⟨hfinite, hnumber⟩ := (isModest_toFloat h.1).mul hfactor
      exact ⟨mt (isInf_ofModel_pack _).mp hfinite, mt (isNaN_ofModel_pack _).mp hnumber⟩
  · have hpower : (if negative then Int.negOfNat e else Int.ofNat e) =
        if negative then -(e : Int) else e := by
      cases negative <;> simp [Int.negOfNat_eq]
    simp only [Float.ofScientific, dif_neg h, hpower]
    exact ⟨(isInf_ofModel_pack _).trans (packsInfinite_ofScientific _ _),
      mt (isNaN_ofModel_pack _).mp (ofScientific_ne_notANumber _ _)⟩

theorem packsInfinite_neg_iff {b : BitVec binary64.numBits} :
    PacksInfinite (unpack binary64 b).neg ↔ (unpack binary64 b).isInf = true := by
  cases hx : unpack binary64 b with
  | finite s m e hm =>
    have := (unpack_bounds hx).2
    simp only [UnpackedFloat.neg, PacksInfinite, UnpackedFloat.isInf, Bool.false_eq_true, iff_false]
    omega
  | _ => simp [UnpackedFloat.neg, PacksInfinite, UnpackedFloat.isInf]

theorem isInf_neg (x : Float) : (-x).isInf = x.isInf := by
  rw [Bool.eq_iff_iff]
  exact (isInf_pack x.toModel.unpack.neg).trans packsInfinite_neg_iff

theorem isNaN_neg (x : Float) : (-x).isNaN = x.isNaN := by
  rw [Bool.eq_iff_iff]
  refine (isNaN_pack x.toModel.unpack.neg).trans ?_
  change _ ↔ x.toModel.unpack.isNaN = true
  cases x.toModel.unpack <;> simp [UnpackedFloat.neg, UnpackedFloat.isNaN]

end Stencil.Number

namespace Stencil.Numeral

open Number

/-- The power of ten of a numeral's last place. -/
def exponent (n : Numeral) : Int :=
  (if n.powerNegative then -(natOfDigits n.power : Int) else natOfDigits n.power) -
    (n.fraction.length : Int)

/-- The number that a numeral denotes, without its sign. -/
def magnitude (n : Numeral) : ℚ := natOfDigits (n.whole ++ n.fraction) * 10 ^ n.exponent

/-- Whether the nearest double-precision number is an infinity. -/
def TooLarge (n : Numeral) : Prop := overflowBound ≤ n.magnitude

theorem toFloat_status (n : Numeral) :
    (n.toFloat.isInf = true ↔ n.TooLarge) ∧ n.toFloat.isNaN = false := by
  have hpower : (if decide (n.exponent < 0) then -(n.exponent.natAbs : Int)
      else n.exponent.natAbs) = n.exponent := by
    simp only [decide_eq_true_eq]
    split_ifs <;> omega
  have hstatus := ofScientific_status (natOfDigits (n.whole ++ n.fraction))
    (decide (n.exponent < 0)) n.exponent.natAbs
  rw [hpower] at hstatus
  have htoFloat : n.toFloat = if n.negative
      then -Float.ofScientific (natOfDigits (n.whole ++ n.fraction)) (decide (n.exponent < 0))
        n.exponent.natAbs
      else Float.ofScientific (natOfDigits (n.whole ++ n.fraction)) (decide (n.exponent < 0))
        n.exponent.natAbs := rfl
  rw [htoFloat]
  by_cases hneg : n.negative = true
  · rw [if_pos hneg, isInf_neg, isNaN_neg]
    exact hstatus
  · rw [if_neg hneg]
    exact hstatus

end Stencil.Numeral
