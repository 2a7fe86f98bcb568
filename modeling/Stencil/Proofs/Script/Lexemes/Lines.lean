/-
  Two scripts with a line break between them.

  An item that ends with a text ends in front of a line break too, so a text has the same lexemes
  with a line break and anything else behind it (`SpellsRow.lexemesFrom_newline`).  Behind the line
  break everything is read as by itself, further down and with a break before the first lexeme
  (`lexemesFrom_break`, `lexemesFrom_shift`).  So both scripts keep their lexemes, and the first
  fault of the second one is the fault of both together (`lexemes_newline`).
-/
import Stencil.Proofs.Script.Lexemes.Cuts
import Stencil.Proofs.Script.Lexemes.Places

namespace Stencil

namespace Position

/-- Behind a line break a text is as many rows down as there are line breaks up to there. -/
theorem after_newline (text : List Char) :
    start.after (text ++ ['\n']) = start.down (1 + text.count '\n') := by
  rw [after_line _ _ (List.not_mem_nil), Nat.add_comm 1]
  simp [start, down]

end Position

namespace Script

/-! ## Behind a line break -/

/-- A line break before a text is seen by its first lexeme and by nothing else. -/
theorem lexemesFrom_break (b : Bool) (cur : Cursor) :
    lexemesFrom true cur = (lexemesFrom b cur).map breakBefore := by
  induction hn : cur.rest.length using Nat.strongRecOn generalizing b cur with
  | ind n ih =>
    obtain ⟨pos, rest⟩ := cur
    cases rest with
    | nil =>
      rw [lexemesFrom_nil, lexemesFrom_nil]
      rfl
    | cons c rest =>
      rw [lexemesFrom_cons, lexemesFrom_cons]
      cases hread : readItem ⟨pos, c :: rest⟩ c with
      | error e => rfl
      | ok out =>
        obtain ⟨item, stop⟩ := out
        cases item with
        | space breaks =>
          -- the break is handed on, past the space, to what stands behind it
          exact ih _ (hn ▸ readItem_length_lt rfl hread) (b || breaks) stop rfl
        | word w =>
          dsimp only
          cases lexemesFrom false stop <;> rfl

/-! ## In front of a line break -/

/-- **No item reaches over a line break behind the text.**  The text has the lexemes that it has by
    itself, and what follows is read from the beginning of the next row. -/
theorem SpellsRow.lexemesFrom_newline {b : Bool} {pos : Position} {text : List Char}
    {row : List Lexeme} (h : SpellsRow b pos text row) (more : List Char) :
    lexemesFrom b ⟨pos, text ++ '\n' :: more⟩
      = (lexemesFrom true ⟨pos.after (text ++ ['\n']), more⟩).map (row ++ ·) := by
  have hbefore {i : Item} {u rest : List Char} (h : Spells i u rest) :
      Spells i u (rest ++ '\n' :: more) :=
    Spells.change_gap .nil (.newline more) (.inr (.inl rfl)) (by rwa [List.append_nil])
  induction h with
  | @nil b pos =>
    have hbreak : Spells (.space true) ['\n'] more := .lineBreak
    have hread := lexemesFrom_space (b := b) hbreak pos
    rw [Bool.or_true] at hread
    rw [List.nil_append, List.nil_append]
    cases hmore : lexemesFrom true ⟨pos.after ['\n'], more⟩ <;>
      rw [hmore] at hread <;> exact hread
  | @space b breaks pos u rest row h _ ih =>
    rw [List.append_assoc, lexemesFrom_space (hbefore h), ih, List.append_assoc,
      Position.after_append pos u]
  | @word b pos w u rest row h _ ih =>
    rw [List.append_assoc, lexemesFrom_word_eq_map (hbefore h), ih, List.append_assoc,
      Position.after_append pos u]
    cases lexemesFrom true ⟨(pos.after u).after (rest ++ ['\n']), more⟩ <;> rfl

/-! ## The whole script -/

/-- **Cutting into lexemes goes line by line.**  Where a script can be cut, a line break and another
    script behind it change none of its lexemes.  The other script is read as by itself, as many
    rows further down as there are line breaks up to it: its lexemes follow, the first of them
    behind a break, or its fault is the fault of both. -/
theorem lexemes_newline {first : String} {row : List Lexeme} (h : lexemes first = .ok row)
    (second : String) :
    let down := Position.down (1 + first.toList.count '\n')
    lexemes (first ++ "\n" ++ second) = match lexemes second with
      | .ok more => .ok (row ++ breakBefore (more.map (Lexeme.shift down)))
      | .error e => .error (e.shift down) := by
  intro down
  have htext : (first ++ "\n" ++ second).toList = first.toList ++ '\n' :: second.toList := by
    simp
  have hfirst := (lexemes_eq_ok_iff.mp h).lexemesFrom_newline second.toList
  have hsecond : lexemesFrom false ⟨Position.start.down (1 + first.toList.count '\n'),
      second.toList⟩ = shiftRow down (lexemes second) := by
    rw [lexemes_eq]
    exact lexemesFrom_shift (Position.down_advance _) false ⟨.start, second.toList⟩
  rw [Position.after_newline, lexemesFrom_break false, hsecond] at hfirst
  rw [lexemes_eq, Cursor.ofString, htext, hfirst]
  cases lexemes second <;> rfl

/-- A comment ends with the line, and a slash there begins none on the next one. -/
theorem lexemes_newline_comment :
    lexemes ("a // b" ++ "\n" ++ "/") =
        .ok [⟨.name "a", ⟨0, 0⟩, false⟩, ⟨.symbol .slash, ⟨1, 0⟩, true⟩] ∧
      lexemes ("/" ++ "\n" ++ "/ '") = .error ⟨.unterminatedString, ⟨1, 2⟩⟩ := by
  have hcomment : lexemes "a // b" = .ok [⟨.name "a", ⟨0, 0⟩, false⟩] := by decide +kernel
  have hslash : lexemes "/" = .ok [⟨.symbol .slash, ⟨0, 0⟩, false⟩] := by decide +kernel
  have hopen : lexemes "/ '" = .error ⟨.unterminatedString, ⟨0, 2⟩⟩ := by decide +kernel
  constructor
  · rw [lexemes_newline hcomment "/", hslash]
    decide +kernel
  · rw [lexemes_newline hslash "/ '", hopen]
    decide +kernel

end Script

end Stencil
