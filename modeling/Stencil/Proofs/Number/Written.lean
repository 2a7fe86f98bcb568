/-
  How a decimal numeral is written.

  `Written` is the grammar: a sign, digits with a point after or before them, and a power of ten,
  where only the digits must be there.  The reader takes the longest numeral at the start of a
  text, part after part; a text it reads to its end is written so, and every text written so it
  reads to its end (`ofText?_eq_some_iff`).
-/
import Mathlib.Data.List.TakeWhile
import Mathlib.Tactic
import Stencil.Number.Numeral

namespace Stencil.Numeral

/-! ## The grammar -/

/-- A row of digits, which may be empty. -/
def Digits (ds : List Char) : Prop := ∀ c ∈ ds, c.isDigit = true

/-- A sign that may be left out, and whether it is a minus. -/
inductive Signed : List Char → Bool → Prop where
  | absent : Signed [] false
  | plus : Signed ['+'] false
  | minus : Signed ['-'] true

/-- Digits with a point after the first of them, before them, or no point. -/
inductive Pointed : List Char → List Char → List Char → Prop where
  | absent {ds : List Char} (hds : Digits ds) (hne : ds ≠ []) : Pointed ds ds []
  | present {ds fs : List Char} (hds : Digits ds) (hfs : Digits fs) (hne : ds ≠ [] ∨ fs ≠ []) :
      Pointed (ds ++ '.' :: fs) ds fs

/-- A power of ten that may be left out: whether its sign is a minus, and its digits. -/
inductive Powered : List Char → Bool → List Char → Prop where
  | absent : Powered [] false []
  | present {e : Char} {sign ds : List Char} {negative : Bool} (he : e = 'e' ∨ e = 'E')
      (hsign : Signed sign negative) (hds : Digits ds) (hne : ds ≠ []) :
      Powered (e :: (sign ++ ds)) negative ds

/-- A numeral as it is written. -/
inductive Written : List Char → Numeral → Prop where
  | mk {sign body power whole fraction ds : List Char} {negative powerNegative : Bool}
      (hsign : Signed sign negative) (hbody : Pointed body whole fraction)
      (hpower : Powered power powerNegative ds) :
      Written (sign ++ (body ++ power)) ⟨negative, whole, fraction, powerNegative, ds⟩

/-! ## Every numeral is read -/

/-- A digit is neither a sign nor a point. -/
theorem ne_of_isDigit {c : Char} (h : c.isDigit = true) : c ≠ '+' ∧ c ≠ '-' ∧ c ≠ '.' := by
  refine ⟨?_, ?_, ?_⟩ <;> (rintro rfl; revert h; decide)

theorem Digits.head {ds : List Char} (hds : Digits ds) {c : Char} (hc : ds.head? = some c) :
    c ≠ '+' ∧ c ≠ '-' := by
  have := ne_of_isDigit (hds c (List.mem_of_mem_head? hc))
  exact ⟨this.1, this.2.1⟩

/-- Digits are read up to what is none. -/
theorem Digits.read {ds rest : List Char} (hds : Digits ds)
    (hrest : ∀ c, rest.head? = some c → c.isDigit = false) : digits (ds ++ rest) = (ds, rest) := by
  have hstop : rest.takeWhile Char.isDigit = [] ∧ rest.dropWhile Char.isDigit = rest := by
    cases rest with
    | nil => exact ⟨rfl, rfl⟩
    | cons c rest => simp [hrest c rfl]
  simp [digits, List.takeWhile_append_of_pos hds, List.dropWhile_append_of_pos hds, hstop]

theorem Signed.read {s rest : List Char} {negative : Bool} (h : Signed s negative)
    (hrest : ∀ c, rest.head? = some c → c ≠ '+' ∧ c ≠ '-') :
    sign (s ++ rest) = (negative, rest) := by
  cases h with
  | absent =>
    cases rest with
    | nil => rfl
    | cons c rest =>
      obtain ⟨hplus, hminus⟩ := hrest c rfl
      simp [sign, hplus, hminus]
  | plus => rfl
  | minus => rfl

theorem Powered.head {p ds : List Char} {negative : Bool} (h : Powered p negative ds) {c : Char}
    (hc : p.head? = some c) : c.isDigit = false ∧ c ≠ '.' := by
  cases h with
  | absent => cases hc
  | present he =>
    cases hc
    rcases he with rfl | rfl <;> decide

theorem Powered.read {p ds : List Char} {negative : Bool} (h : Powered p negative ds) :
    readPower p = (negative, ds, []) := by
  cases h with
  | absent => rfl
  | @present e s ds negative he hsign hds hne =>
    have hread : sign (s ++ ds) = (negative, ds) := hsign.read fun c hc => hds.head hc
    have hdigits : digits (ds ++ []) = (ds, []) := hds.read nofun
    rw [List.append_nil] at hdigits
    simp only [readPower, if_pos he, hread, hdigits]

/-- The digits of a numeral are read with their point. -/
theorem Pointed.read {body whole fraction rest : List Char} (h : Pointed body whole fraction)
    (hrest : ∀ c, rest.head? = some c → c.isDigit = false ∧ c ≠ '.') :
    ∃ text, digits (body ++ rest) = (whole, text) ∧ readFraction text = (fraction, rest) ∧
      (whole.isEmpty && fraction.isEmpty) = false := by
  cases h with
  | absent hds hne =>
    refine ⟨rest, hds.read fun c hc => (hrest c hc).1, ?_, by simp [hne]⟩
    cases rest with
    | nil => rfl
    | cons c rest => simp [readFraction, (hrest c rfl).2]
  | @present whole fraction hds hfs hne =>
    refine ⟨'.' :: (fraction ++ rest), ?_, hfs.read fun c hc => (hrest c hc).1, ?_⟩
    · rw [List.append_assoc]
      exact hds.read (by rintro c ⟨⟩; decide)
    · rcases hne with h | h <;> simp [h]

theorem Pointed.head {body whole fraction rest : List Char} (h : Pointed body whole fraction)
    {c : Char} (hc : (body ++ rest).head? = some c) : c ≠ '+' ∧ c ≠ '-' := by
  cases h with
  | absent hds hne => exact hds.head (List.head?_append_of_ne_nil _ hne ▸ hc)
  | present hds hfs hne =>
    rw [List.append_assoc] at hc
    by_cases hwhole : whole = []
    · subst hwhole
      cases hc
      decide
    · exact hds.head (List.head?_append_of_ne_nil _ hwhole ▸ hc)

/-- **Every numeral is read.** -/
theorem Written.read {t : List Char} {n : Numeral} (h : Written t n) : ofText? t = some n := by
  cases h with
  | @mk s body power whole fraction ds negative powerNegative hsign hbody hpower =>
    obtain ⟨text, hdigits, hfraction, hne⟩ := hbody.read fun c hc => hpower.head hc
    have hs : sign (s ++ (body ++ power)) = (negative, body ++ power) :=
      hsign.read fun c hc => hbody.head hc
    simp only [ofText?, read?, hs, hdigits, hfraction, hne, hpower.read]
    rfl

/-! ## Only numerals are read -/

theorem signed_of_sign {text rest : List Char} {negative : Bool}
    (h : sign text = (negative, rest)) : ∃ s, Signed s negative ∧ text = s ++ rest := by
  unfold sign at h
  split at h <;> cases h
  · exact ⟨_, .minus, rfl⟩
  · exact ⟨_, .plus, rfl⟩
  · exact ⟨_, .absent, rfl⟩

theorem of_digits {text ds rest : List Char} (h : digits text = (ds, rest)) :
    Digits ds ∧ text = ds ++ rest := by
  obtain ⟨rfl, rfl⟩ := Prod.mk.inj h
  exact ⟨fun c hc => List.mem_takeWhile_imp hc, List.takeWhile_append_dropWhile.symm⟩

theorem of_readFraction {text fs rest : List Char} (h : readFraction text = (fs, rest)) :
    fs = [] ∧ text = rest ∨ Digits fs ∧ text = '.' :: (fs ++ rest) := by
  unfold readFraction at h
  split at h
  · obtain ⟨hfs, htext⟩ := of_digits h
    exact .inr ⟨hfs, congrArg ('.' :: ·) htext⟩
  · cases h
    exact .inl ⟨rfl, rfl⟩

theorem of_readPower {text ds rest : List Char} {negative : Bool}
    (h : readPower text = (negative, ds, rest)) :
    ∃ p, Powered p negative ds ∧ text = p ++ rest := by
  unfold readPower at h
  split at h
  · rename_i e text
    split_ifs at h with he
    · rcases hsign : sign text with ⟨negative', text'⟩
      rcases hdigits : digits text' with ⟨ds', text''⟩
      simp only [hsign, hdigits] at h
      obtain ⟨s, hs, rfl⟩ := signed_of_sign hsign
      obtain ⟨hds, rfl⟩ := of_digits hdigits
      cases ds' with
      | nil =>
        cases h
        exact ⟨[], .absent, rfl⟩
      | cons d ds =>
        cases h
        exact ⟨_, .present he hs hds (List.cons_ne_nil d ds), by simp⟩
    · cases h
      exact ⟨[], .absent, rfl⟩
  · cases h
    exact ⟨[], .absent, rfl⟩

/-- **Only numerals are read.** -/
theorem written_of_read {t : List Char} {n : Numeral} (h : ofText? t = some n) : Written t n := by
  unfold ofText? read? at h
  rcases hsign : sign t with ⟨negative, text⟩
  rcases hdigits : digits text with ⟨whole, text'⟩
  rcases hfraction : readFraction text' with ⟨fraction, text''⟩
  rcases hpower : readPower text'' with ⟨powerNegative, power, rest⟩
  simp only [hsign, hdigits, hfraction, hpower] at h
  obtain ⟨s, hs, rfl⟩ := signed_of_sign hsign
  obtain ⟨hwhole, rfl⟩ := of_digits hdigits
  split at h
  · rename_i n' hread
    split_ifs at hread with hne
    cases h
    cases hread
    obtain ⟨power', hp, rfl⟩ := of_readPower hpower
    rw [List.append_nil] at hfraction
    rw [Bool.and_eq_true, List.isEmpty_iff, List.isEmpty_iff, not_and_or] at hne
    rcases of_readFraction hfraction with ⟨rfl, rfl⟩ | ⟨hfs, rfl⟩
    · exact .mk hs (.absent hwhole (hne.resolve_right (not_not_intro rfl))) hp
    · simpa using Written.mk hs (.present hwhole hfs hne) hp
  · cases h

theorem ofText?_eq_some_iff {t : List Char} {n : Numeral} : ofText? t = some n ↔ Written t n :=
  ⟨written_of_read, Written.read⟩

theorem ofText?_eq_none_iff {t : List Char} : ofText? t = none ↔ ∀ n, ¬ Written t n := by
  simp [Option.eq_none_iff_forall_ne_some, ofText?_eq_some_iff]

/-- A text is no more than one numeral. -/
theorem Written.unique {t : List Char} {m n : Numeral} (hm : Written t m) (hn : Written t n) :
    m = n :=
  Option.some.inj (hm.read.symm.trans hn.read)

/-- Every numeral has a digit. -/
theorem Written.exists_digit {t : List Char} {n : Numeral} (h : Written t n) :
    ∃ c ∈ t, c.isDigit = true := by
  have hrow {ds : List Char} (hds : Digits ds) (hne : ds ≠ []) : ∃ c ∈ ds, c.isDigit = true :=
    ⟨_, List.head_mem hne, hds _ (List.head_mem hne)⟩
  cases h with
  | mk hsign hbody hpower =>
    cases hbody with
    | absent hds hne =>
      obtain ⟨c, hc, hdigit⟩ := hrow hds hne
      exact ⟨c, by simp [hc], hdigit⟩
    | present hds hfs hne =>
      rcases hne with hne | hne
      · obtain ⟨c, hc, hdigit⟩ := hrow hds hne
        exact ⟨c, by simp [hc], hdigit⟩
      · obtain ⟨c, hc, hdigit⟩ := hrow hfs hne
        exact ⟨c, by simp [hc], hdigit⟩

end Stencil.Numeral
