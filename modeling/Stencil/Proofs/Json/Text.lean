/-
  Reading back the texts of JSON documents.

  Every character is written as itself or as an escape that is read as it (`readText_escapeChar`),
  so a quoted text is read back in front of anything.
-/
import Mathlib.Tactic
import Stencil.Json.Reader
import Stencil.Json.Writer

namespace Stencil.Json

theorem hexDigit_reads : ∀ d < 16, isHexDigit (hexDigit d) = true ∧ hexValue (hexDigit d) = d ∧
    (hexDigit d).utf8Size = 1 := by
  decide

/-- Four hexadecimal digits, the first two of which are zeros. -/
theorem readUnit_low {n : Nat} (hn : n < 0x20) (rest : List Char) :
    readUnit ('0' :: '0' :: hexDigit (n / 16) :: hexDigit (n % 16) :: rest) = .ok (n, rest) := by
  obtain ⟨hhigh, hhighValue, hhighSize⟩ := hexDigit_reads (n / 16) (by omega)
  obtain ⟨hlow, hlowValue, hlowSize⟩ := hexDigit_reads (n % 16) (by omega)
  have hzero : isHexDigit '0' = true ∧ hexValue '0' = 0 ∧ '0'.utf8Size = 1 := by decide
  simp only [readUnit, List.take, List.drop, List.foldl, List.length, List.all, hhigh, hhighValue,
    hhighSize, hlow, hlowValue, hlowSize, hzero]
  simp
  omega

theorem readCodePoint_low {c : Char} (hc : c.toNat < 0x20) (rest : List Char) :
    readCodePoint ('0' :: '0' :: hexDigit (c.toNat / 16) :: hexDigit (c.toNat % 16) :: rest) =
      .ok (c, rest) := by
  unfold readCodePoint
  rw [readUnit_low hc]
  dsimp only
  rw [if_neg (by omega), if_pos (by omega), Char.ofNat_toNat]

/-- A character is read back as it is written. -/
theorem readText_escapeChar (c : Char) (fuel : Nat) (rest : List Char) :
    readText (fuel + 1) (escapeChar c ++ rest) = readText.prepend c (readText fuel rest) := by
  unfold escapeChar
  split_ifs with hquote hslash hb hf hn hr ht hlow
  all_goals try subst c
  all_goals try rfl
  · simp [readText, readCodePoint_low hlow]
  · simp [readText, hquote, hslash, hlow]

theorem readText_flatMap (rest : List Char) : ∀ (cs : List Char) (fuel : Nat), cs.length < fuel →
    readText fuel (cs.flatMap escapeChar ++ '\x22' :: rest) = .ok (cs, rest)
  | _, 0, h => absurd h (Nat.not_lt_zero _)
  | [], fuel + 1, _ => by simp [readText]
  | c :: cs, fuel + 1, h => by
    rw [List.flatMap_cons, List.append_assoc, readText_escapeChar,
      readText_flatMap rest cs fuel (by simpa using h)]
    rfl

theorem escapeChar_ne_nil (c : Char) : escapeChar c ≠ [] := by
  unfold escapeChar
  split_ifs <;> simp

theorem length_le_length_flatMap (cs : List Char) :
    cs.length ≤ (cs.flatMap escapeChar).length := by
  induction cs with
  | nil => simp
  | cons c cs ih =>
    have := List.length_pos_iff.mpr (escapeChar_ne_nil c)
    simp only [List.flatMap_cons, List.length_append, List.length_cons]
    omega

/-- **Texts.** A text is read back behind its opening quote, whatever follows. -/
theorem readString_quote (s : String) (rest : List Char) :
    readString (s.toList.flatMap escapeChar ++ '\x22' :: rest) = .ok (s, rest) := by
  have hfuel : s.toList.length < (s.toList.flatMap escapeChar ++ '\x22' :: rest).length + 1 := by
    have := length_le_length_flatMap s.toList
    simp only [List.length_append]
    omega
  rw [readString, readText_flatMap rest s.toList _ hfuel]
  dsimp only
  rw [String.ofList_toList]

theorem toList_quote (s : String) :
    (quote s).toList = '\x22' :: (s.toList.flatMap escapeChar ++ ['\x22']) := by
  simp [quote]

end Stencil.Json
