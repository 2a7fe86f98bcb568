/-
  Reading numbers of JSON documents.

  A number ends where neither a digit nor a point nor a power can follow (`EndsNumber`).  In front
  of such a text it is read as it is read alone (`readNumber_append`), and the digits of a whole
  number are read as that number (`readScalar_signed`).
-/
import Mathlib.Tactic
import Stencil.Json.Reader
import Stencil.Json.Writer

namespace Stencil.Json

/-- A text that no number goes on with. -/
def EndsNumber (rest : List Char) : Prop :=
  ∀ c ∈ rest.head?, c.isDigit = false ∧ c ≠ '.' ∧ c ≠ 'e' ∧ c ≠ 'E'

theorem EndsNumber.nil : EndsNumber [] := by simp [EndsNumber]

theorem endsNumber_cons {c : Char} {rest : List Char} (h : c = ',' ∨ c = ']' ∨ c = '\x7d') :
    EndsNumber (c :: rest) := by
  rcases h with rfl | rfl | rfl <;> simp [EndsNumber]

variable {negative : Bool} {text rest r : List Char} {j : Json}

/-! ## In front of another text -/

theorem EndsNumber.takeWhile (h : EndsNumber rest) (text : List Char) :
    (text ++ rest).takeWhile Char.isDigit = text.takeWhile Char.isDigit := by
  induction text with
  | nil =>
    cases rest with
    | nil => rfl
    | cons c rest => simp [(h c rfl).1]
  | cons d text ih => simp only [List.cons_append, List.takeWhile_cons, ih]

theorem EndsNumber.dropWhile (h : EndsNumber rest) (text : List Char) :
    (text ++ rest).dropWhile Char.isDigit = text.dropWhile Char.isDigit ++ rest := by
  induction text with
  | nil =>
    cases rest with
    | nil => rfl
    | cons c rest => simp [(h c rfl).1]
  | cons d text ih =>
    simp only [List.cons_append, List.dropWhile_cons, ih]
    split_ifs <;> rfl

theorem EndsNumber.readSignificand (h : EndsNumber rest) (n : Nat) (text : List Char) :
    Json.readSignificand n (text ++ rest) =
      ((Json.readSignificand n text).1, (Json.readSignificand n text).2.1,
        (Json.readSignificand n text).2.2 ++ rest) := by
  induction text generalizing n with
  | nil =>
    cases rest with
    | nil => rfl
    | cons c rest => simp [Json.readSignificand, (h c rfl).1]
  | cons d text ih =>
    simp only [List.cons_append, Json.readSignificand]
    split_ifs
    · rw [ih]
    · rfl

theorem ofParts_append {significand : Nat} {exponent : Int}
    (h : ofParts negative significand exponent text = .ok (j, r)) (rest : List Char) :
    ofParts negative significand exponent (text ++ rest) = .ok (j, r ++ rest) := by
  unfold ofParts at h ⊢
  split at h
  · cases h
  · cases h
    rfl

/-- A power of ten behind its sign. -/
def powerBehind (negative : Bool) (significand : Nat) (exponent : Int) (down : Bool)
    (text : List Char) : Reads Json :=
  if (text.takeWhile Char.isDigit).isEmpty then .error (faultAt text)
  else if maxPower < natOfDigits (text.takeWhile Char.isDigit) then
    if significand ≠ 0 ∧ !down then .error .malformed
    else .ok (.float (withSign negative 0.0), text.dropWhile Char.isDigit)
  else
    ofParts negative significand (if down then exponent - natOfDigits (text.takeWhile Char.isDigit)
      else exponent + natOfDigits (text.takeWhile Char.isDigit)) (text.dropWhile Char.isDigit)

/-- Whether a power of ten is negative, and what stands behind its sign. -/
def powerSign (text : List Char) : Bool × List Char :=
  match text with
  | '+' :: rest => (false, rest)
  | '-' :: rest => (true, rest)
  | _ => (false, text)

theorem powerSign_append (h : text ≠ []) (rest : List Char) :
    powerSign (text ++ rest) = ((powerSign text).1, (powerSign text).2 ++ rest) := by
  obtain ⟨c, text, rfl⟩ := List.exists_cons_of_ne_nil h
  by_cases hplus : c = '+'
  · subst hplus
    rfl
  by_cases hminus : c = '-'
  · subst hminus
    rfl
  simp [powerSign, hplus, hminus]

theorem readPower_eq (negative : Bool) (significand : Nat) (exponent : Int) (text : List Char) :
    readPower negative significand exponent text =
      powerBehind negative significand exponent (powerSign text).1 (powerSign text).2 := rfl

theorem powerBehind_append {significand : Nat} {exponent : Int} {down : Bool}
    (hrest : EndsNumber rest)
    (h : powerBehind negative significand exponent down text = .ok (j, r)) :
    powerBehind negative significand exponent down (text ++ rest) = .ok (j, r ++ rest) := by
  unfold powerBehind at h ⊢
  rw [hrest.takeWhile, hrest.dropWhile]
  split_ifs at h ⊢
  · cases h
    rfl
  · exact ofParts_append h rest
  · exact ofParts_append h rest

theorem readPower_append {significand : Nat} {exponent : Int} (hrest : EndsNumber rest)
    (h : readPower negative significand exponent text = .ok (j, r)) :
    readPower negative significand exponent (text ++ rest) = .ok (j, r ++ rest) := by
  rw [readPower_eq] at h ⊢
  have hne : text ≠ [] := by
    rintro rfl
    cases h
  rw [powerSign_append hne]
  exact powerBehind_append hrest h

theorem EndsNumber.endNumber (hrest : EndsNumber rest) (significand : Nat) (exponent : Int) :
    endNumber negative significand exponent rest = ofParts negative significand exponent rest := by
  cases rest with
  | nil => rfl
  | cons c rest =>
    obtain ⟨-, -, he, hE⟩ := hrest c rfl
    simp [Json.endNumber, he, hE]

theorem endNumber_append {significand : Nat} {exponent : Int} (hrest : EndsNumber rest)
    (h : endNumber negative significand exponent text = .ok (j, r)) :
    endNumber negative significand exponent (text ++ rest) = .ok (j, r ++ rest) := by
  cases text with
  | nil =>
    rw [List.nil_append, hrest.endNumber]
    exact ofParts_append h rest
  | cons c text =>
    simp only [List.cons_append, endNumber] at h ⊢
    split_ifs at h ⊢
    · exact readPower_append hrest h
    · exact ofParts_append h rest

theorem readDecimals_append {significand : Nat} {exponent : Int} (hrest : EndsNumber rest)
    (h : readDecimals negative significand exponent text = .ok (j, r)) :
    readDecimals negative significand exponent (text ++ rest) = .ok (j, r ++ rest) := by
  cases text with
  | nil => simp [readDecimals] at h
  | cons c text =>
    unfold readDecimals at h ⊢
    have hhead : (c :: text ++ rest).head? = (c :: text).head? := rfl
    rw [hrest.readSignificand, hhead]
    dsimp only at h ⊢
    by_cases hdigit : (c :: text).head?.any Char.isDigit = false
    · rw [if_pos hdigit] at h
      cases h
    · rw [if_neg hdigit] at h ⊢
      rw [hrest.dropWhile]
      exact endNumber_append hrest h

theorem readLongWhole_append {significand : Nat} (hrest : EndsNumber rest)
    (h : readLongWhole negative significand text = .ok (j, r)) :
    readLongWhole negative significand (text ++ rest) = .ok (j, r ++ rest) := by
  unfold readLongWhole at h ⊢
  rw [hrest.takeWhile, hrest.dropWhile]
  generalize text.dropWhile Char.isDigit = behind at h ⊢
  match behind with
  | [] =>
    dsimp only [List.nil_append] at h ⊢
    split
    · exact absurd rfl (hrest _ rfl).2.1
    · exact endNumber_append hrest h
  | '.' :: behind => exact readDecimals_append hrest h
  | c :: behind =>
    dsimp only [List.cons_append] at h ⊢
    split at h
    · rename_i heq
      cases heq
      exact readDecimals_append hrest h
    · split
      · simp_all
      · rw [← List.cons_append]
        exact endNumber_append hrest h

/-- A number behind its first digits, which are `n`. -/
def afterDigits (negative : Bool) (n : Nat) (text : List Char) : Reads Json :=
  match text with
  | '.' :: text => readDecimals negative n 0 text
  | 'e' :: text | 'E' :: text => readPower negative n 0 text
  | d :: text =>
    if d.isDigit then readLongWhole negative n (d :: text)
    else readNumber.endWhole negative n (d :: text)
  | [] => readNumber.endWhole negative n []

theorem readNumber_cons (negative : Bool) (c : Char) (text : List Char) :
    readNumber negative (c :: text) =
      if !c.isDigit then .error .malformed
      else if c = '0' ∧ 0 < (readSignificand (digitValue c) text).2.1 then .error .malformed
      else afterDigits negative (readSignificand (digitValue c) text).1
        (readSignificand (digitValue c) text).2.2 := rfl

theorem EndsNumber.afterDigits (hrest : EndsNumber rest) (n : Nat) :
    Json.afterDigits negative n rest = readNumber.endWhole negative n rest := by
  cases rest with
  | nil => rfl
  | cons c rest =>
    obtain ⟨hdigit, hpoint, he, hE⟩ := hrest c rfl
    unfold Json.afterDigits
    split <;> simp_all

theorem endWhole_append {n : Nat} (h : readNumber.endWhole negative n text = .ok (j, r))
    (rest : List Char) : readNumber.endWhole negative n (text ++ rest) = .ok (j, r ++ rest) := by
  unfold readNumber.endWhole at h ⊢
  split_ifs at h ⊢ <;> cases h <;> rfl

theorem afterDigits_append {n : Nat} (hrest : EndsNumber rest)
    (h : afterDigits negative n text = .ok (j, r)) :
    afterDigits negative n (text ++ rest) = .ok (j, r ++ rest) := by
  match text with
  | [] =>
    rw [List.nil_append, hrest.afterDigits]
    exact endWhole_append h rest
  | c :: text =>
    by_cases hpoint : c = '.'
    · subst hpoint
      exact readDecimals_append hrest h
    by_cases he : c = 'e'
    · subst he
      exact readPower_append hrest h
    by_cases hE : c = 'E'
    · subst hE
      exact readPower_append hrest h
    simp only [List.cons_append, afterDigits] at h ⊢
    rw [← List.cons_append]
    split_ifs at h ⊢
    · exact readLongWhole_append hrest h
    · exact endWhole_append h rest

theorem readNumber_append (hrest : EndsNumber rest)
    (h : readNumber negative text = .ok (j, r)) :
    readNumber negative (text ++ rest) = .ok (j, r ++ rest) := by
  match text with
  | [] => cases h
  | c :: text =>
    rw [readNumber_cons] at h
    rw [List.cons_append, readNumber_cons, hrest.readSignificand]
    split_ifs at h ⊢
    exact afterDigits_append hrest h

theorem readScalar_of_isDigit {c : Char} (h : c.isDigit = true) (text : List Char) :
    readScalar (c :: text) = readNumber false (c :: text) := by
  unfold readScalar
  split <;> rename_i heq <;> cases heq
  all_goals first | rw [if_pos h] | exact absurd h (by decide)

/-- A number that is read alone is read in front of what ends it. -/
theorem readScalar_append {x : Float} (hrest : EndsNumber rest)
    (h : readScalar text = .ok (.float x, [])) :
    readScalar (text ++ rest) = .ok (.float x, rest) := by
  unfold readScalar at h
  split at h
  · rename_i text
    cases hread : readLetters ['u', 'l', 'l'] text <;> simp [hread, Except.map] at h
  · rename_i text
    cases hread : readLetters ['r', 'u', 'e'] text <;> simp [hread, Except.map] at h
  · rename_i text
    cases hread : readLetters ['a', 'l', 's', 'e'] text <;> simp [hread, Except.map] at h
  · exact readNumber_append hrest h
  · rename_i text
    cases hread : readString text <;> simp [hread, Except.map] at h
  · split_ifs at h with hdigit
    rw [List.cons_append, readScalar_of_isDigit hdigit, ← List.cons_append]
    exact readNumber_append hrest h
  · cases h

/-! ## Whole numbers -/

/-- Digits are read as the number that they go on to, if that fits. -/
theorem readSignificand_digits {ds : List Char} (hds : ∀ c ∈ ds, c.isDigit = true) {n : Nat}
    (hfits : Nat.ofDigitChars 10 ds n ≤ maxWord) (hrest : EndsNumber rest) :
    readSignificand n (ds ++ rest) = (Nat.ofDigitChars 10 ds n, ds.length, rest) := by
  induction ds generalizing n with
  | nil => simpa [readSignificand] using hrest.readSignificand n []
  | cons c ds ih =>
    obtain ⟨hc, hds⟩ := List.forall_mem_cons.mp hds
    rw [Nat.ofDigitChars_cons] at hfits
    have hstep : n * 10 + digitValue c = 10 * n + (c.toNat - '0'.toNat) := by
      rw [Nat.mul_comm, digitValue]
    have hle : 10 * n + (c.toNat - '0'.toNat) ≤ maxWord := by
      refine le_trans ?_ hfits
      rw [Nat.ofDigitChars_eq_ofDigitChars_zero]
      exact le_trans (Nat.le_mul_of_pos_left _ (by positivity)) (Nat.le_add_right _ _)
    simp only [List.cons_append, readSignificand, hc, hstep, hle, ih hds hfits,
      Nat.ofDigitChars_cons, decide_true, Bool.and_self, if_true, List.length_cons]

/-- Only zero is written with a zero in front. -/
theorem toDigits_head {n : Nat} {ds : List Char} (h : Nat.toDigits 10 n = '0' :: ds) : ds = [] := by
  induction n using Nat.strongRecOn generalizing ds with
  | ind n ih =>
    by_cases hn : n < 10
    · rw [Nat.toDigits_of_lt_base hn] at h
      exact (List.cons.inj h).2.symm
    · rw [Nat.toDigits_of_base_le (by norm_num) (by omega)] at h
      obtain ⟨c, cs, hcs⟩ := List.exists_cons_of_ne_nil (Nat.toDigits_ne_nil (n := n / 10) (b := 10))
      rw [hcs, List.cons_append, List.cons.injEq] at h
      obtain ⟨rfl, -⟩ := h
      -- the digits in front would be those of zero, and the number less than ten
      rw [ih (n / 10) (by omega) hcs] at hcs
      have hvalue := Nat.ofDigitChars_ten_toDigits (n := n / 10)
      rw [hcs] at hvalue
      have hzero : Nat.ofDigitChars 10 ['0'] 0 = 0 := by decide
      omega

theorem readNumber_toDigits {n : Nat} (hn : n ≤ maxWord) (hrest : EndsNumber rest) :
    readNumber negative (Nat.toDigits 10 n ++ rest) = readNumber.endWhole negative n rest := by
  obtain ⟨c, ds, hds⟩ := List.exists_cons_of_ne_nil (Nat.toDigits_ne_nil (n := n) (b := 10))
  have hdigits : ∀ d ∈ c :: ds, d.isDigit = true := fun d hd =>
    Nat.isDigit_of_mem_toDigits (by norm_num) (by norm_num) (hds ▸ hd)
  obtain ⟨hc, hothers⟩ := List.forall_mem_cons.mp hdigits
  have hvalue : Nat.ofDigitChars 10 ds (digitValue c) = n := by
    rw [← Nat.ofDigitChars_ten_toDigits (n := n), hds, Nat.ofDigitChars_cons]
    simp [digitValue]
  have hread := readSignificand_digits hothers (hvalue.trans_le hn) hrest
  rw [hvalue] at hread
  have hzero : ¬ (c = '0' ∧ 0 < ds.length) := by
    rintro ⟨rfl, hpos⟩
    simp [toDigits_head hds] at hpos
  rw [hds, List.cons_append, readNumber_cons, hread]
  simp only [hc, Bool.not_true, Bool.false_eq_true, if_false, if_neg hzero, hrest.afterDigits]

/-- **Whole numbers.** What fits into 64 bits with its sign is read as it is written. -/
theorem readScalar_signed {n : Int} (hn : n.natAbs ≤ 0x8000000000000000) (hrest : EndsNumber rest) :
    readScalar (Decimal.signed n ++ rest) = .ok (.whole n, rest) := by
  have hword : n.natAbs ≤ maxWord := hn.trans (by decide)
  unfold Decimal.signed Decimal.digitsOf
  split_ifs with hneg
  · change readNumber true (Nat.toDigits 10 n.natAbs ++ rest) = _
    rw [readNumber_toDigits hword hrest]
    have hpos : 0 < n.natAbs := by omega
    have hback : -(n.natAbs : Int) = n := by omega
    rw [readNumber.endWhole, if_neg (by decide), if_pos ⟨hpos, hn⟩, hback]
  · obtain ⟨c, ds, hds⟩ := List.exists_cons_of_ne_nil (Nat.toDigits_ne_nil (n := n.natAbs) (b := 10))
    have hc : c.isDigit = true :=
      Nat.isDigit_of_mem_toDigits (by norm_num) (by norm_num) (hds ▸ List.mem_cons_self)
    have hback : (n.natAbs : Int) = n := by omega
    rw [hds, List.cons_append, readScalar_of_isDigit hc, ← List.cons_append, ← hds,
      readNumber_toDigits hword hrest, readNumber.endWhole, if_pos (by decide), hback]

end Stencil.Json
