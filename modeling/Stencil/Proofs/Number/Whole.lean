/-
  Whole numbers of at most 53 bits.

  They are exact: making a double-precision number of one shifts it to 53 bits and loses nothing
  (`unpack_ofNat`), so that a number without fraction that is not too large is made from its whole
  part again (`ofInt_of_rounded`).
-/
import Mathlib
import Stencil.Proofs.Number.Fields
import Stencil.Proofs.Number.Sign

namespace Stencil.Number

open Float.Model (UnpackedFloat totalExponent)
open Float.Model.Format (binary64)
open Float.Model.UnpackedFloat

/-! ## Normal numbers -/

theorem log2_mul_two_pow {n : Nat} (hn : n ≠ 0) (k : Nat) : (n * 2 ^ k).log2 = n.log2 + k := by
  obtain ⟨hlow, hhigh⟩ := (Nat.log2_eq_iff hn).mp rfl
  rw [Nat.log2_eq_iff (Nat.mul_ne_zero hn (by positivity)), pow_add, Nat.add_right_comm, pow_add]
  exact ⟨Nat.mul_le_mul_right _ hlow, Nat.mul_lt_mul_of_pos_right hhigh (by positivity)⟩

/-- Shifting out zeros loses nothing. -/
theorem shift_zeros (m k : Nat) :
    ExtendedMantissa.ofMantissaAndAccuracy (m * 2 ^ k) .exact >>> k = ⟨m, false, false⟩ := by
  induction k generalizing m with
  | zero => rw [pow_zero, Nat.mul_one]; rfl
  | succ k ih =>
    change ExtendedMantissa.shiftRightOne
      (ExtendedMantissa.ofMantissaAndAccuracy (m * 2 ^ (k + 1)) .exact >>> k) = _
    rw [pow_succ', ← Nat.mul_assoc, ih]
    simp [ExtendedMantissa.shiftRightOne]

/-- A mantissa of 53 bits and an exponent in the range of the normal numbers. -/
structure IsNormal (m : Nat) (e : Int) : Prop where
  low : 2 ^ 52 ≤ m
  high : m < 2 ^ 53
  least : -1074 ≤ e
  greatest : e < 972

namespace IsNormal

variable {m : Nat} {e : Int}

theorem pos (h : IsNormal m e) : 0 < m := lt_of_lt_of_le (by positivity) h.low

theorem log2 (h : IsNormal m e) : m.log2 = 52 :=
  (Nat.log2_eq_iff h.pos.ne').mpr ⟨h.low, h.high⟩

/-- Packing keeps a normal number. -/
theorem unpack_pack (h : IsNormal m e) (s : Sign) :
    (Float.Model.pack (.finite s m e h.pos)).unpack = .finite s m e h.pos := by
  change unpack binary64 (pack binary64 (.finite s m e h.pos)) = _
  have hbias : (binary64.exponentBias : Int) = 1023 := by decide
  obtain ⟨b, hb⟩ : ∃ b : Nat, e + 1023 + (52 : Nat) = b := ⟨(e + 1075).toNat, by have := h.least; omega⟩
  have hrange : 0 < b ∧ b < 2047 := by have := h.least; have := h.greatest; omega
  have hsmall : ¬ 2 ^ 11 ≤ (b : Int).toNat + 1 := by omega
  have hfield (n : Nat) (hn : n < 2048) : BitVec.ofNat 11 b = BitVec.ofNat 11 n ↔ b = n := by
    rw [← BitVec.toNat_inj, BitVec.toNat_ofNat, BitVec.toNat_ofNat]
    omega
  have hlarge : BitVec.ofNat 11 b ≠ -1#11 := mt (hfield 2047 (by norm_num)).mp (by omega)
  have hzero : BitVec.ofNat 11 b ≠ 0#11 := mt (hfield 0 (by norm_num)).mp (by omega)
  simp only [pack, hbias, hb, if_neg hsmall, h.log2]
  rw [if_pos (by decide)]
  simp only [unpack, unpackExponent_packComponents, unpackMantissa_packComponents,
    unpackSign_packComponents, Sign.ofBitVec_toBitVec, Int.toNat_natCast]
  rw [if_neg hlarge, if_neg hzero]
  congr 1
  · rw [toNat_leading_append, BitVec.toNat_ofNat]
    have := h.low
    have := h.high
    omega
  · rw [BitVec.toNat_ofNat, hbias]
    omega

/-- Rounding keeps a normal number, also with zeros behind its mantissa. -/
theorem roundWithAccuracy (h : IsNormal m e) (s : Sign) (k : Nat) :
    UnpackedFloat.roundWithAccuracy binary64 s (m * 2 ^ k) (e - k) .exact = .finite s m e h.pos := by
  have hlog : (m * 2 ^ k).log2 = 52 + k := by rw [log2_mul_two_pow h.pos.ne', h.log2]
  have hexponent : firstExponent (m * 2 ^ k) (e - k) = e := by
    have := h.least
    rw [firstExponent, hlog]
    omega
  have hfirst : firstMantissa (m * 2 ^ k) (e - k) .exact = ⟨m, false, false⟩ := by
    rw [firstMantissa, hexponent, show (e - (e - k)).toNat = k by omega, shift_zeros]
  have hagain : firstExponent m e = e := by
    rw [firstExponent_of_le h.high.le h.least, if_neg h.high.ne]
  have hsecond : (firstMantissa m e .exact).mantissa = m := by
    rw [firstMantissa_mantissa, hagain, Int.sub_self]
    exact Nat.div_one m
  have hround : (⟨m, false, false⟩ : ExtendedMantissa).roundedMantissa = m := rfl
  simp only [UnpackedFloat.roundWithAccuracy, shiftToTargetExponent_eq, hexponent, hfirst, hround,
    hagain, hsecond, dif_neg h.pos.ne']

end IsNormal

/-! ## Counts -/

/-- A count of at most 53 bits, shifted to 53 bits. -/
theorem isNormal_shift {n : Nat} (hn : 0 < n) (hlt : n < 2 ^ 53) :
    IsNormal (n * 2 ^ (52 - n.log2)) (n.log2 - 52) := by
  have hlog : n.log2 ≤ 52 := log2_le_of_lt hlt
  obtain ⟨hlow, hhigh⟩ := (Nat.log2_eq_iff hn.ne').mp rfl
  constructor
  · calc 2 ^ 52
      _ = 2 ^ n.log2 * 2 ^ (52 - n.log2) := by rw [← pow_add]; congr 1; omega
      _ ≤ n * 2 ^ (52 - n.log2) := Nat.mul_le_mul_right _ hlow
  · calc n * 2 ^ (52 - n.log2)
      _ < 2 ^ (n.log2 + 1) * 2 ^ (52 - n.log2) := Nat.mul_lt_mul_of_pos_right hhigh (by positivity)
      _ = 2 ^ 53 := by rw [← pow_add]; congr 1; omega
  · omega
  · omega

theorem round_count {n : Nat} (hn : 0 < n) (hlt : n < 2 ^ 53) :
    UnpackedFloat.round binary64 .positive n 0 =
      .finite .positive (n * 2 ^ (52 - n.log2)) (n.log2 - 52) (isNormal_shift hn hlt).pos := by
  have hlog : n.log2 ≤ 52 := log2_le_of_lt hlt
  have htarget : binary64.targetExponent (totalExponent n 0) = n.log2 - 52 := by
    have hbits : (binary64.mantissaBits : Int) = 53 := by decide
    have hmin : binary64.minExponent = -1074 := by decide
    simp only [Float.Model.Format.targetExponent, totalExponent, hbits, hmin]
    omega
  have hamount : (0 - ((n.log2 : Int) - 52)).toNat = 52 - n.log2 := by omega
  have hexponent : (0 : Int) - (52 - n.log2 : Nat) = n.log2 - 52 := by omega
  have hround := (isNormal_shift hn hlt).roundWithAccuracy .positive 0
  simp only [UnpackedFloat.round, decreaseExponent, htarget, hamount, hexponent, Nat.shiftLeft_eq]
  simpa using hround

theorem unpack_ofNat {n : Nat} (hn : 0 < n) (hlt : n < 2 ^ 53) :
    (Float.ofNat n).toModel.unpack =
      .finite .positive (n * 2 ^ (52 - n.log2)) (n.log2 - 52) (isNormal_shift hn hlt).pos := by
  have hnormal := isNormal_shift hn hlt
  have hgt : compare (n : Int) 0 = .gt := compare_gt_iff_gt.mpr (by omega)
  have hcount : n.toUInt64.toFloat.toModel.unpack =
      .finite .positive (n * 2 ^ (52 - n.log2)) (n.log2 - 52) hnormal.pos := by
    change (Float.Model.pack
      (UnpackedFloat.normalize binary64 (n.toUInt64.toNat : Int) 0 .positive)).unpack = _
    rw [show n.toUInt64.toNat = n from Nat.mod_eq_of_lt (by omega)]
    simp only [UnpackedFloat.normalize, hgt, Int.toNat_natCast, round_count hn hlt,
      hnormal.unpack_pack]
  change (Float.ofScientific n false 0).toModel.unpack = _
  have hfast : n < 2 ^ 53 ∧ 0 ≤ 22 := ⟨hlt, by norm_num⟩
  have hproduct : (Float.Model.pack (UnpackedFloat.mul binary64 n.toUInt64.toFloat.toModel.unpack
      (Float.exactlyRepresentablePowersOfTen[0]).toModel.unpack)).unpack =
        .finite .positive (n * 2 ^ (52 - n.log2)) (n.log2 - 52) hnormal.pos := by
    rw [hcount, unpack_tenToZero]
    change (Float.Model.pack (UnpackedFloat.roundWithAccuracy binary64 .positive _ (_ - (52 : Nat)) _)).unpack = _
    rw [hnormal.roundWithAccuracy, hnormal.unpack_pack]
  simp only [Float.ofScientific, dif_pos hfast]
  exact hproduct

/-! ## Numbers without a fraction -/

theorem neg_unpack {x : Float} {s : Sign} {m : Nat} {e : Int} (h : IsNormal m e)
    (hx : x.toModel.unpack = .finite s m e h.pos) :
    (-x).toModel.unpack = .finite (-s) m e h.pos := by
  change (Float.Model.pack x.toModel.unpack.neg).unpack = _
  rw [hx]
  exact h.unpack_pack (-s)

/-- A mantissa without fraction below the point is the whole part, shifted. -/
theorem wholePart_shift {m : Nat} {e : Int} (he : e ≤ 0) (hfraction : e < 0 → m % 2 ^ (-e).toNat = 0) :
    m = wholePart m e * 2 ^ (-e).toNat := by
  rcases he.lt_or_eq with he | rfl
  · rw [wholePart, if_neg he.not_ge, Nat.shiftRight_eq_div_pow,
      Nat.div_mul_cancel (Nat.dvd_of_mod_eq_zero (hfraction he))]
  · simp [wholePart]

/-- A finite number without fraction that is not too large is normal, and its mantissa is its whole
    part shifted to 53 bits. -/
theorem isNormal_of_whole {b : BitVec 64} {s : Sign} {m : Nat} {e : Int} {hm : 0 < m}
    (hunpacks : Unpacks b (.finite s m e hm)) (hfraction : e < 0 → m % 2 ^ (-e).toNat = 0)
    (hlt : wholePart m e < 2 ^ 53) :
    IsNormal m e ∧ m = wholePart m e * 2 ^ (52 - (wholePart m e).log2) ∧
      e = (wholePart m e).log2 - 52 := by
  have hmantissa : mantissaField b < 2 ^ 52 := Nat.mod_lt _ (by positivity)
  have hexponent : exponentField b < 2048 := Nat.mod_lt _ (by norm_num)
  cases hunpacks with
  | subnormal he hm =>
    have hsmall : mantissaField b < 2 ^ (-(-1074 : Int)).toNat :=
      lt_of_lt_of_le hmantissa (Nat.pow_le_pow_right (by norm_num) (by decide))
    have := hfraction (by norm_num)
    rw [Nat.mod_eq_of_lt hsmall] at this
    omega
  | normal hzero hlarge =>
    have hnormal : IsNormal (mantissaField b + 2 ^ 52) (exponentField b - 1075) := by
      constructor <;> omega
    generalize mantissaField b + 2 ^ 52 = m at *
    generalize (exponentField b : Int) - 1075 = e at *
    have he : e ≤ 0 := by
      by_contra hpos
      have hwide : 2 ^ 1 ≤ 2 ^ e.toNat := Nat.pow_le_pow_right (by norm_num) (by omega)
      have := Nat.mul_le_mul hnormal.low hwide
      rw [wholePart, if_pos (by omega), Nat.shiftLeft_eq] at hlt
      omega
    have hshift := wholePart_shift he hfraction
    generalize wholePart m e = n at *
    have hn : n ≠ 0 := fun hn => by simpa [hshift, hn] using hnormal.pos
    have hlog : 52 = n.log2 + (-e).toNat := by
      rw [← hnormal.log2, hshift, log2_mul_two_pow hn]
    exact ⟨hnormal, by rwa [show 52 - n.log2 = (-e).toNat by omega], by omega⟩

/-- A number is determined by what it is unpacked to. -/
theorem eq_of_unpack_eq {x y : Float} (h : x.toModel.unpack = y.toModel.unpack) : x = y :=
  Float.toBits_inj.mp (UInt64.toBitVec_inj.mp
    ((unpack_inj_of_valid x.toModel.valid y.toModel.valid).mp h))

theorem beq_zero_iff (x : Float) : (x == 0.0) = true ↔ ∃ s, x.toModel.unpack = .zero s := by
  have hzero : (0.0 : Float).toModel.unpack = .zero .positive := rfl
  change x.toModel.unpack.beq (0.0 : Float).toModel.unpack = true ↔ _
  rw [beq_iff_ne_notANumber_and_eq, hzero]
  constructor
  · rintro ⟨-, -, heq | ⟨hs, -⟩ | ⟨hs, -⟩⟩ <;> exact ⟨_, ‹_›⟩
  · rintro ⟨s, hs⟩
    cases s <;> simp [hs]

theorem isFinite_iff (x : Float) : x.isFinite = true ↔ ∃ n, rounded x = .whole n := by
  change x.toModel.unpack.isFinite = true ↔ _
  cases hx : x.toModel.unpack <;> simp [rounded, parts_eq, hx, Parts.ofUnpacked, isFinite]

theorem rounded_zero {x : Float} (h : (x == 0.0) = true) :
    rounded x = .whole 0 ∧ isWhole x = true := by
  obtain ⟨s, hs⟩ := (beq_zero_iff x).mp h
  simp [rounded, isWhole, parts_eq, hs, Parts.ofUnpacked, wholePart, leastExponent]

/-- **Whole numbers are exact.** A finite number without fraction, other than zero and below 2^53,
    is made from its whole part. -/
theorem ofInt_of_rounded {x : Float} {n : Int} (hrounded : rounded x = .whole n)
    (hwhole : isWhole x = true) (hlt : n.natAbs < 2 ^ 53) (hzero : (x == 0.0) = false) :
    Float.ofInt n = x := by
  have hunpacks := unpacks x.toBits.toBitVec
  cases hx : x.toModel.unpack with
  | notANumber | infinity s => simp [rounded, parts_eq, hx, Parts.ofUnpacked] at hrounded
  | zero s => exact absurd ((beq_zero_iff x).mpr ⟨s, hx⟩) (by simp [hzero])
  | finite s m e hm =>
    have hfraction : e < 0 → m % 2 ^ (-e).toNat = 0 := fun he => by
      simpa [isWhole, parts_eq, hx, Parts.ofUnpacked, he.not_ge, twoTo] using hwhole
    have hn : n = if isNegative s then -(wholePart m e : Int) else wholePart m e := by
      simp only [rounded, parts_eq, hx, Parts.ofUnpacked, Rounded.whole.injEq] at hrounded
      exact hrounded.symm
    have hpart : wholePart m e = n.natAbs := by rw [hn]; split_ifs <;> simp
    have hb : unpack binary64 x.toBits.toBitVec = .finite s m e hm := hx
    rw [hb] at hunpacks
    rw [← hpart] at hlt
    obtain ⟨hnormal, hmantissa, hexponent⟩ := isNormal_of_whole hunpacks hfraction hlt
    have hpos : 0 < wholePart m e := Nat.pos_of_ne_zero fun hz => by
      rw [hz, Nat.zero_mul] at hmantissa
      exact hm.ne' hmantissa
    have hcount : (Float.ofNat (wholePart m e)).toModel.unpack = .finite .positive m e hm := by
      rw [unpack_ofNat hpos hlt]
      congr 1
      · exact hmantissa.symm
      · exact hexponent.symm
    refine eq_of_unpack_eq ?_
    rw [hx, hn]
    cases s with
    | positive => exact hcount
    | negative =>
      obtain ⟨k, hk⟩ := Nat.exists_eq_add_one.mpr hpos
      rw [hk] at hcount ⊢
      exact neg_unpack hnormal hcount

end Stencil.Number
