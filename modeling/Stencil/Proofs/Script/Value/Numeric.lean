/-
  A text as a number.

  `NumberOf` is what the language says of a text without its blanks: nothing is zero, an infinity
  has one spelling and may have a sign, a decimal numeral is its nearest double-precision number,
  and everything else is not a number.  The conversion says so too of every text but a sign before
  `inf`, or before `infinity` in other letters than the language's, which it takes for an infinity.
-/
import Mathlib.Tactic
import Stencil.Proofs.Number.Overflow
import Stencil.Proofs.Number.Written
import Stencil.Proofs.Text.Classes
import Stencil.Script.Value

namespace Stencil.Script.Value

/-- The spellings of the infinities. -/
def infinities : List (List Char) :=
  ["Infinity".toList, "+Infinity".toList, "-Infinity".toList]

theorem mem_infinities {t : List Char} : t ∈ infinities ↔
    t = "Infinity".toList ∨ t = "+Infinity".toList ∨ t = "-Infinity".toList := by
  simp [infinities]

/-- The number that a text without blanks at its ends stands for. -/
inductive NumberOf : List Char → Float → Prop where
  | blank : NumberOf [] 0.0
  | infinity {t : List Char} (h : t = "Infinity".toList ∨ t = "+Infinity".toList) :
      NumberOf t Number.infinity
  | negInfinity : NumberOf "-Infinity".toList (-Number.infinity)
  | numeral {t : List Char} {n : Numeral} (h : n.Written t) : NumberOf t n.toFloat
  | other {t : List Char} (hblank : t ≠ []) (hinfinity : t ∉ infinities)
      (hnumeral : ∀ n : Numeral, ¬ n.Written t) : NumberOf t Number.nan

/-- A sign before a word for infinity, whose letters may have either case. -/
def SignedWord : List Char → Prop
  | [] => False
  | sign :: word => (sign = '+' ∨ sign = '-') ∧
      (word.map Char.toLower = "inf".toList ∨ word.map Char.toLower = "infinity".toList)

instance : DecidablePred SignedWord
  | [] => .isFalse id
  | sign :: word => inferInstanceAs (Decidable ((sign = '+' ∨ sign = '-') ∧
      (word.map Char.toLower = "inf".toList ∨ word.map Char.toLower = "infinity".toList)))

/-- A sign before a word for infinity that is no spelling of the language. -/
def ForeignInfinity (t : List Char) : Prop := SignedWord t ∧ t ∉ infinities

instance : DecidablePred ForeignInfinity := fun t =>
  inferInstanceAs (Decidable (SignedWord t ∧ t ∉ infinities))

/-! ## Words and numerals -/

theorem toLower_of_isDigit {c : Char} (h : c.isDigit = true) : c.toLower = c := by
  have hdigit := Text.toNat_of_isDigit h
  have hupper : ¬ (c.val ≥ 65 ∧ c.val ≤ 90) := fun h => by
    have h65 : 65 ≤ c.toNat := h.1
    omega
  simp [Char.toLower, hupper]

/-- Digits stay digits in lower case, and the words have none. -/
theorem not_written_of_words {ws : List (List Char)}
    (hws : ∀ w ∈ ws, w.any Char.isDigit = false) {t : List Char} (ht : t.map Char.toLower ∈ ws)
    (n : Numeral) : ¬ n.Written t := by
  intro h
  obtain ⟨c, hc, hdigit⟩ := h.exists_digit
  have hmem : c ∈ t.map Char.toLower := List.mem_map.mpr ⟨c, hc, toLower_of_isDigit hdigit⟩
  exact List.any_eq_false.mp (hws _ ht) c hmem hdigit

theorem SignedWord.not_written {t : List Char} (h : SignedWord t) (n : Numeral) :
    ¬ n.Written t := by
  have hws : ∀ w ∈ ["+inf", "-inf", "+infinity", "-infinity"].map String.toList,
      w.any Char.isDigit = false := by decide
  refine not_written_of_words hws ?_ n
  cases t with
  | nil => exact h.elim
  | cons sign word =>
    obtain ⟨rfl | rfl, hword | hword⟩ := h <;>
      rw [List.map_cons (f := Char.toLower), hword] <;> decide

theorem not_written_of_mem_infinities {t : List Char} (h : t ∈ infinities) (n : Numeral) :
    ¬ n.Written t := by
  have hws : ∀ w ∈ ["infinity", "+infinity", "-infinity"].map String.toList,
      w.any Char.isDigit = false := by decide
  refine not_written_of_words hws ?_ n
  revert t
  decide

/-! ## The conversion -/

theorem numberOfText_eq (s : String) :
    numberOfText s = (let t := Text.trim s.toList
      if t = [] then 0.0
      else if t = "Infinity".toList then Number.infinity
      else if SignedWord t then
        if t.head? = some '-' then -Number.infinity else Number.infinity
      else ((Numeral.ofText? t).map Numeral.toFloat).getD Number.nan) := by
  unfold numberOfText
  generalize Text.trim s.toList = t
  cases t with
  | nil => rfl
  | cons sign word =>
    have hsigned : ((sign == '+' || sign == '-') && word.map Char.toLower == "inf".toList ||
        (sign == '+' || sign == '-') && word.map Char.toLower == "infinity".toList) = true ↔
          SignedWord (sign :: word) := by
      simp [SignedWord, ← and_or_left]
    simp only [List.isEmpty_cons, hsigned, beq_iff_eq, reduceCtorEq, if_false, Bool.false_eq_true]
    cases Numeral.ofText? (sign :: word) <;> rfl

/-- The conversion makes an infinity of every sign before a word for it. -/
theorem numberOfText_of_signedWord {s : String} (h : SignedWord (Text.trim s.toList)) :
    numberOfText s = if (Text.trim s.toList).head? = some '-' then -Number.infinity
      else Number.infinity := by
  have hblank : Text.trim s.toList ≠ [] := fun hnil => by simp [hnil, SignedWord] at h
  have hplain : Text.trim s.toList ≠ "Infinity".toList := fun hp => by
    rw [hp] at h
    revert h
    decide
  rw [numberOfText_eq]
  simp only [if_neg hblank, if_neg hplain, if_pos h]

theorem numberOf_numberOfText {s : String} (h : ¬ ForeignInfinity (Text.trim s.toList)) :
    NumberOf (Text.trim s.toList) (numberOfText s) := by
  by_cases hsigned : SignedWord (Text.trim s.toList)
  · have hmem : Text.trim s.toList ∈ infinities := not_not.mp fun hne => h ⟨hsigned, hne⟩
    rw [numberOfText_of_signedWord hsigned]
    rcases mem_infinities.mp hmem with hplain | hplus | hminus
    · exact absurd (hplain ▸ hsigned) (by decide)
    · rw [hplus]
      exact .infinity (.inr rfl)
    · rw [hminus]
      exact .negInfinity
  · rw [numberOfText_eq]
    simp only [if_neg hsigned]
    split_ifs with hblank hplain
    · exact hblank ▸ .blank
    · exact .infinity (.inl hplain)
    · cases hread : Numeral.ofText? (Text.trim s.toList) with
      | some n => exact .numeral (Numeral.ofText?_eq_some_iff.mp hread)
      | none =>
        refine .other hblank (fun hmem => ?_) (Numeral.ofText?_eq_none_iff.mp hread)
        rcases mem_infinities.mp hmem with h | h | h
        · exact hplain h
        · exact hsigned (h ▸ by decide)
        · exact hsigned (h ▸ by decide)

/-- An infinity is spelled so, or it is a numeral that is too large. -/
theorem NumberOf.isInf_iff {t : List Char} {x : Float} (h : NumberOf t x) :
    x.isInf = true ↔ t ∈ infinities ∨ ∃ n : Numeral, n.Written t ∧ n.TooLarge := by
  cases h with
  | blank =>
    have hzero : (0.0 : Float).isInf = false := by decide +kernel
    have hnumeral (n : Numeral) : ¬ n.Written [] := fun h => by simpa using h.exists_digit
    simp [hzero, hnumeral, infinities]
  | infinity h =>
    have hinf : Number.infinity.isInf = true := by decide +kernel
    exact iff_of_true hinf (.inl (mem_infinities.mpr (h.imp_right .inl)))
  | negInfinity =>
    have hinf : (-Number.infinity).isInf = true := by decide +kernel
    exact iff_of_true hinf (.inl (mem_infinities.mpr (.inr (.inr rfl))))
  | @numeral _ n h =>
    rw [n.toFloat_status.1]
    refine ⟨fun hlarge => .inr ⟨n, h, hlarge⟩, fun hor => ?_⟩
    rcases hor with hmem | ⟨m, hm, hlarge⟩
    · exact absurd h (not_written_of_mem_infinities hmem n)
    · exact hm.unique h ▸ hlarge
  | other hblank hinfinity hnumeral =>
    have hnan : Number.nan.isInf = false := by decide +kernel
    simp [hnan, hinfinity, hnumeral]

/-- Not a number is what is neither blank nor an infinity nor a numeral. -/
theorem NumberOf.isNaN_iff {t : List Char} {x : Float} (h : NumberOf t x) :
    x.isNaN = true ↔ t ≠ [] ∧ t ∉ infinities ∧ ∀ n : Numeral, ¬ n.Written t := by
  cases h with
  | blank =>
    have hzero : (0.0 : Float).isNaN = false := by decide +kernel
    rw [hzero]
    simp
  | infinity h =>
    have hinf : Number.infinity.isNaN = false := by decide +kernel
    have hmem : t ∈ infinities := mem_infinities.mpr (h.imp_right .inl)
    rw [hinf]
    simp [hmem]
  | negInfinity =>
    have hinf : (-Number.infinity).isNaN = false := by decide +kernel
    rw [hinf]
    simp [mem_infinities]
  | @numeral _ n h =>
    rw [n.toFloat_status.2]
    simp only [Bool.false_eq_true, false_iff]
    exact fun hnone => hnone.2.2 n h
  | other hblank hinfinity hnumeral =>
    have hnan : Number.nan.isNaN = true := by decide +kernel
    exact iff_of_true hnan ⟨hblank, hinfinity, hnumeral⟩

/-- **Text as a number.** A text is zero, an infinity, the double-precision number of its numeral,
    or not a number, as the language says; it is an infinity only for a spelling of it or for a
    numeral that is too large. -/
theorem numberOfText_grammar (s : String) (h : ¬ ForeignInfinity (Text.trim s.toList)) :
    NumberOf (Text.trim s.toList) (numberOfText s) ∧
    ((numberOfText s).isInf = true ↔ Text.trim s.toList ∈ infinities ∨
      ∃ n : Numeral, n.Written (Text.trim s.toList) ∧ n.TooLarge) ∧
    ((numberOfText s).isNaN = true ↔ Text.trim s.toList ≠ [] ∧ Text.trim s.toList ∉ infinities ∧
      ∀ n : Numeral, ¬ n.Written (Text.trim s.toList)) :=
  have hreads := numberOf_numberOfText h
  ⟨hreads, hreads.isInf_iff, hreads.isNaN_iff⟩

/-- A numeral between blanks that is too large. -/
theorem numberOfText_grammar_large :
    ¬ ForeignInfinity (Text.trim " 1e400".toList) ∧
      NumberOf (Text.trim " 1e400".toList) (numberOfText " 1e400") ∧
      ∃ n : Numeral, n.Written (Text.trim " 1e400".toList) ∧ n.TooLarge := by
  have h : ¬ ForeignInfinity (Text.trim " 1e400".toList) := by decide +kernel
  obtain ⟨hreads, hinf, -⟩ := numberOfText_grammar " 1e400" h
  have hinfinite : (numberOfText " 1e400").isInf = true := by decide +kernel
  have hspelled : Text.trim " 1e400".toList ∉ infinities := by decide +kernel
  exact ⟨h, hreads, (hinf.mp hinfinite).resolve_left hspelled⟩

/-- Another spelling with a sign is taken for an infinity. -/
theorem not_numberOf_foreign : ¬ NumberOf (Text.trim "-inf".toList) (numberOfText "-inf") := by
  intro h
  have hinfinite : (numberOfText "-inf").isInf = true := by decide +kernel
  have hspelled : Text.trim "-inf".toList ∉ infinities := by decide +kernel
  have hword : SignedWord (Text.trim "-inf".toList) := by decide +kernel
  obtain ⟨n, hn, -⟩ := (h.isInf_iff.mp hinfinite).resolve_left hspelled
  exact hword.not_written n hn

end Stencil.Script.Value
