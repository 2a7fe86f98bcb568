/-
  A text literal in front of any script.

  The escapes of a text hold no line break, and the literal that they make up is read as the text
  whatever follows it (`spells_escapeString`): even the digits of an escape are closed by a brace,
  so that no character behind them counts for them.  Behind the literal the script is read as if it
  began there, faults included (`lexemesFrom_escapeString`); what it is read as is what it is read
  as by itself, in other places (`lexemesFrom_plus`).
-/
import Stencil.Proofs.Script.Lexemes.Places
import Stencil.Proofs.Script.Print.Written

namespace Stencil

/-! ## No line break in a literal -/

theorem newline_not_mem_escapeChar (c : Char) : '\n' ∉ escapeChar c := by
  unfold escapeChar
  split
  · decide
  split
  · decide
  split
  · decide
  split
  · decide
  split
  · decide
  split
  · decide
  split
  · -- the digits of the code point
    rename_i hcontrol
    intro hmem
    have hdigits := (charOfHex?_control c.toNat (lt_of_isControl hcontrol)).1
    have hline : '\n' ∈ Nat.toDigits 16 c.toNat := by simpa using hmem
    exact absurd (List.all_eq_true.mp hdigits '\n' hline) (by decide)
  · rename_i hline _ _ _ _
    exact fun hmem => hline (List.mem_singleton.mp hmem).symm

theorem newline_not_mem_escapeString (text : List Char) : '\n' ∉ escapeString text := by
  intro hmem
  rw [escapeString, List.mem_append, List.mem_cons, List.mem_flatMap] at hmem
  rcases hmem with (hquote | ⟨c, -, hc⟩) | hquote
  · exact absurd hquote (by decide)
  · exact newline_not_mem_escapeChar c hc
  · exact absurd hquote (by decide)

namespace Script

/-! ## What is read -/

/-- Behind a literal the script is read from the place where the literal ends on its line. -/
theorem lexemesFrom_escapeString (b : Bool) (pos : Position) (text rest : List Char) :
    lexemesFrom b ⟨pos, escapeString text ++ rest⟩
      = (lexemesFrom false ⟨⟨pos.row, pos.column + (escapeString text).length⟩, rest⟩).map
          (⟨.text (String.ofList text), pos, b⟩ :: ·) := by
  have hstop : pos.after (escapeString text) = ⟨pos.row, pos.column + (escapeString text).length⟩ :=
    Position.after_of_not_mem pos (newline_not_mem_escapeString text)
  rw [lexemesFrom_word (spells_escapeString text rest) pos, hstop]
  cases lexemesFrom false ⟨⟨pos.row, pos.column + (escapeString text).length⟩, rest⟩ <;> rfl

/-- **A text literal is read as the text that it was written from, in front of any script**: the
    literal is the first lexeme, and the others are those of the script behind it, each of them,
    and a fault too, moved to the right by the length of the literal as far as it stands on the
    same line.  With nothing behind it the literal is the only lexeme. -/
theorem lexemes_escapeString (text rest : List Char) :
    '\n' ∉ escapeString text ∧
    lexemes (String.ofList (escapeString text ++ rest))
      = (lexemesFrom false ⟨⟨0, (escapeString text).length⟩, rest⟩).map
          (⟨.text (String.ofList text), ⟨0, 0⟩, false⟩ :: ·) ∧
    lexemesFrom false ⟨⟨0, (escapeString text).length⟩, rest⟩
      = shiftRow (Position.plus ⟨0, (escapeString text).length⟩)
          (lexemes (String.ofList rest)) ∧
    lexemes (String.ofList (escapeString text))
      = .ok [⟨.text (String.ofList text), ⟨0, 0⟩, false⟩] := by
  have hread (rest : List Char) : lexemes (String.ofList (escapeString text ++ rest))
      = (lexemesFrom false ⟨⟨0, (escapeString text).length⟩, rest⟩).map
          (⟨.text (String.ofList text), ⟨0, 0⟩, false⟩ :: ·) := by
    have h := lexemesFrom_escapeString false .start text rest
    rw [Position.start, Nat.zero_add] at h
    rw [lexemes_eq, Cursor.ofString, String.toList_ofList]
    exact h
  refine ⟨newline_not_mem_escapeString text, hread rest, ?_, ?_⟩
  · rw [lexemes_eq, Cursor.ofString, String.toList_ofList]
    exact lexemesFrom_plus false ⟨0, (escapeString text).length⟩ rest
  · have hend := hread []
    rw [List.append_nil, lexemesFrom_nil] at hend
    exact hend

-- the digit behind the control is no digit of its escape, and the fault is where it would be
example : escapeString ['\x1b', 'f'] = "\"\\u\x7b1b\x7df\"".toList := by decide +kernel
example : lexemes (String.ofList (escapeString ['\x1b', 'f'] ++ " '".toList))
    = .error ⟨.unterminatedString, ⟨0, 10⟩⟩ := by decide +kernel

end Script

end Stencil
