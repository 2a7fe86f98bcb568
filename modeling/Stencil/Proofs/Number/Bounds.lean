/-
  Numbers as bounds of a cut.

  A finite double-precision number has an exact value (`value?`), whose whole part is what its
  mantissa has of bits before the point (`wholePart_eq_floor`, `rounded_of_value`).  So the place
  that a number bounds is said on rational numbers, without bits (`Resolves`, `resolves_iff`).
-/
import Mathlib
import Stencil.Proofs.Number.Whole

namespace Stencil.Number

open Float.Model.UnpackedFloat (Sign)

/-! ## Exact values -/

/-- The exact value of a finite number. -/
def value? (x : Float) : Option ℚ :=
  match x.toModel.unpack with
  | .zero _ => some 0
  | .finite s m e _ => some (s.apply m * 2 ^ e)
  | .infinity _ | .notANumber => none

/-- A number without its fraction. -/
def towardZero (q : ℚ) : Int := if 0 ≤ q then ⌊q⌋ else ⌈q⌉

theorem towardZero_of_nonneg {q : ℚ} (h : 0 ≤ q) : towardZero q = ⌊q⌋ := if_pos h

/-- The sign stays with the whole part. -/
theorem towardZero_neg {q : ℚ} (h : 0 < q) : towardZero (-q) = -⌊q⌋ := by
  rw [towardZero, if_neg (by linarith), Int.ceil_neg]

/-- The bits before the point are the whole part. -/
theorem wholePart_eq_floor (m : Nat) (e : Int) : (wholePart m e : Int) = ⌊(m : ℚ) * 2 ^ e⌋ := by
  by_cases he : 0 ≤ e
  · obtain ⟨n, rfl⟩ := Int.eq_ofNat_of_zero_le he
    have hwhole : (m : ℚ) * 2 ^ (n : Int) = (m * 2 ^ n : Nat) := by push_cast; rw [zpow_natCast]
    rw [hwhole, Int.floor_natCast, wholePart, if_pos he, Int.toNat_natCast, Nat.shiftLeft_eq]
  · obtain ⟨n, rfl⟩ : ∃ n : Nat, e = -n := ⟨(-e).toNat, by omega⟩
    have hfraction : (m : ℚ) * 2 ^ (-n : Int) = (m : ℚ) / (2 ^ n : Nat) := by
      rw [zpow_neg, zpow_natCast, ← div_eq_mul_inv]
      push_cast
      rfl
    rw [hfraction, Rat.floor_natCast_div_natCast, wholePart, if_neg he, neg_neg,
      Int.toNat_natCast, Nat.shiftRight_eq_div_pow, Int.natCast_div]

/-- Rounding a number toward zero takes the fraction off its value. -/
theorem rounded_of_value {x : Float} {q : ℚ} (h : value? x = some q) :
    rounded x = .whole (towardZero q) := by
  unfold value? at h
  rw [rounded, parts_eq]
  cases hx : x.toModel.unpack with
  | notANumber | infinity s => simp [hx] at h
  | zero s =>
    simp only [hx, Option.some.injEq] at h
    subst h
    simp [Parts.ofUnpacked, wholePart, leastExponent, towardZero]
  | finite s m e hm =>
    simp only [hx, Option.some.injEq] at h
    subst h
    have hpos : (0 : ℚ) < m * 2 ^ e := by positivity
    simp only [Parts.ofUnpacked, wholePart_eq_floor]
    cases s with
    | positive =>
      have hvalue : ((Sign.positive.apply m : Int) : ℚ) * 2 ^ e = m * 2 ^ e := by
        simp [Sign.apply]
      rw [hvalue, towardZero_of_nonneg hpos.le]
      rfl
    | negative =>
      have hvalue : ((Sign.negative.apply m : Int) : ℚ) * 2 ^ e = -(m * 2 ^ e) := by
        simp [Sign.apply]
      rw [hvalue, towardZero_neg hpos]
      rfl

/-! ## Bounds -/

/-- The place in a sequence of `length` items that a whole number means: a negative one counts from
    the end, and what lies outside goes to the nearer end. -/
def placeOf (length : Nat) (n : Int) : Nat :=
  (max 0 (min (length : Int) (if n < 0 then length + n else n))).toNat

/-- The place in a sequence of `length` items that a number bounds. -/
inductive Resolves (length : Nat) : Float → Nat → Prop where
  | nan {x : Float} (h : x.isNaN = true) : Resolves length x 0
  | infinity : Resolves length infinity length
  | negInfinity : Resolves length (-infinity) 0
  | finite {x : Float} {q : ℚ} (h : value? x = some q) :
      Resolves length x (placeOf length (towardZero q))

variable (length : Nat)

theorem bound_of_isNaN {x : Float} (h : x.isNaN = true) : bound length x = 0 := by
  change x.toModel.unpack.isNaN = true at h
  rw [bound, rounded, parts_eq]
  cases hx : x.toModel.unpack with
  | notANumber => rfl
  | infinity s | zero s | finite s m e hm => simp [hx, Float.Model.UnpackedFloat.isNaN] at h

theorem bound_infinity : bound length infinity = length := by
  have hrounded : rounded infinity = .infinite false := by decide +kernel
  rw [bound, hrounded]
  rfl

theorem bound_negInfinity : bound length (-infinity) = 0 := by
  have hrounded : rounded (-infinity) = .infinite true := by decide +kernel
  rw [bound, hrounded]
  rfl

theorem bound_of_value {x : Float} {q : ℚ} (h : value? x = some q) :
    bound length x = placeOf length (towardZero q) := by
  rw [bound, rounded_of_value h]
  dsimp only
  unfold placeOf
  split_ifs <;> omega

theorem bound_zero : bound length 0.0 = 0 := by
  have hzero : ((0.0 : Float) == 0.0) = true := by decide +kernel
  rw [bound, (rounded_zero hzero).1]
  simp

/-- What is no number and not infinite has a value. -/
theorem number_cases (x : Float) :
    x.isNaN = true ∨ x = infinity ∨ x = -infinity ∨ ∃ q, value? x = some q := by
  cases hx : x.toModel.unpack with
  | notANumber =>
    refine .inl ?_
    change x.toModel.unpack.isNaN = true
    rw [hx]
    rfl
  | infinity s =>
    cases s with
    | positive => exact .inr (.inl (eq_of_unpack_eq hx))
    | negative => exact .inr (.inr (.inl (eq_of_unpack_eq hx)))
  | zero s => exact .inr (.inr (.inr ⟨0, by rw [value?, hx]⟩))
  | finite s m e hm => exact .inr (.inr (.inr ⟨_, by rw [value?, hx]⟩))

/-- **A number bounds the place that its value means**, and no other. -/
theorem resolves_iff {x : Float} {i : Nat} : Resolves length x i ↔ i = bound length x := by
  constructor
  · intro h
    cases h with
    | nan h => exact (bound_of_isNaN length h).symm
    | infinity => exact (bound_infinity length).symm
    | negInfinity => exact (bound_negInfinity length).symm
    | finite h => exact (bound_of_value length h).symm
  · rintro rfl
    rcases number_cases x with hnan | rfl | rfl | ⟨q, hq⟩
    · exact bound_of_isNaN length hnan ▸ .nan hnan
    · rw [bound_infinity]
      exact .infinity
    · rw [bound_negInfinity]
      exact .negInfinity
    · exact bound_of_value length hq ▸ .finite hq

end Stencil.Number
