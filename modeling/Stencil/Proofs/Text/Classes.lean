/-
  Classes of characters that have nothing in common.
-/
import Stencil.Text.Blank
import Stencil.Text.Letter

namespace Stencil.Text

namespace Ranges

/-- Whether no interval of one list meets an interval of the other. -/
def apart (rs qs : Ranges) : Bool := rs.all fun r => qs.all fun q => r.2 < q.1 || q.2 < r.1

theorem not_contains_of_apart {rs qs : Ranges} (h : rs.apart qs = true) {n : Nat}
    (hn : rs.contains n = true) : qs.contains n = false := by
  rw [← Bool.not_eq_true]
  intro hq
  obtain ⟨r, hr, hr1, hr2⟩ := (contains_iff rs n).mp hn
  obtain ⟨q, hq, hq1, hq2⟩ := (contains_iff qs n).mp hq
  have := List.all_eq_true.mp (List.all_eq_true.mp h r hr) q hq
  simp only [Bool.or_eq_true, decide_eq_true_eq] at this
  omega

end Ranges

theorem toNat_of_isDigit {c : Char} (h : c.isDigit = true) : 48 ≤ c.toNat ∧ c.toNat ≤ 57 := by
  simp only [Char.isDigit, Bool.and_eq_true, decide_eq_true_eq] at h
  exact h

theorem toNat_of_isAlpha {c : Char} (h : c.isAlpha = true) :
    65 ≤ c.toNat ∧ c.toNat ≤ 90 ∨ 97 ≤ c.toNat ∧ c.toNat ≤ 122 := by
  rcases (Bool.or_eq_true _ _).mp h with h | h
  · have hupper : c.val ≥ 65 ∧ c.val ≤ 90 := of_decide_eq_true h
    exact Or.inl hupper
  · obtain ⟨hfrom, hto⟩ := Bool.and_eq_true_iff.mp h
    exact Or.inr ⟨of_decide_eq_true hfrom, of_decide_eq_true hto⟩

/-- Between U+0021 and U+007F there is no white space. -/
theorem isBlank_of_visible {c : Char} (h : 33 ≤ c.toNat ∧ c.toNat < 128) : isBlank c = false := by
  rw [← Bool.not_eq_true]
  intro hblank
  obtain ⟨r, hr, h1, h2⟩ := (Ranges.contains_iff _ _).mp hblank
  have hr : r.2 < 33 ∨ 127 < r.1 := by
    have : ∀ r ∈ blankRanges, r.2 < 33 ∨ 127 < r.1 := by decide
    exact this r hr
  omega

theorem isBlank_of_isDigit {c : Char} (h : c.isDigit = true) : isBlank c = false := by
  have := toNat_of_isDigit h
  exact isBlank_of_visible (by omega)

theorem apart_alphabetic_blank : alphabeticRanges.apart blankRanges = true := by decide +kernel

/-- No letter is white space. -/
theorem isBlank_of_isAlphabetic {c : Char} (h : isAlphabetic c = true) : isBlank c = false := by
  unfold isAlphabetic at h
  split at h
  · have := toNat_of_isAlpha h
    exact isBlank_of_visible (by omega)
  · exact Ranges.not_contains_of_apart apart_alphabetic_blank h

/-- A letter of ASCII is one of the class of core. -/
theorem isAlpha_of_isAlphabetic {c : Char} (h : isAlphabetic c = true) (hc : c.toNat < 0x80) :
    c.isAlpha = true := by
  rwa [isAlphabetic, if_pos hc] at h

theorem not_isDigit_of_isAlphabetic {c : Char} (h : isAlphabetic c = true) : c.isDigit = false := by
  rw [← Bool.not_eq_true]
  intro hd
  have h1 := toNat_of_isDigit hd
  have h2 := toNat_of_isAlpha (isAlpha_of_isAlphabetic h (by omega))
  omega

end Stencil.Text
