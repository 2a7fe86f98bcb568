/-
  Rows of lexemes and the texts that spell them.

  A text spells a row of lexemes when it is cut into spellings of spaces and words, each of which
  sees what follows it (`SpellsRow`).  A script has the lexemes that its text spells and no others
  (`lexemesFrom_eq_ok_iff`), and a line that ends in a line break spells the same words wherever
  it stands and whatever follows it (`SpellsRow.append`).
-/
import Stencil.Proofs.Script.Lexemes.Items

namespace Stencil

namespace Position

/-- A change of places that goes along with every character goes along with a text. -/
theorem after_map {f : Position → Position} (hf : ∀ p c, f (p.advance c) = (f p).advance c)
    (p : Position) (text : List Char) : (f p).after text = f (p.after text) := by
  induction text generalizing p with
  | nil => rfl
  | cons c text ih => rw [after_cons, after_cons, ← hf, ih]

/-- The position so many rows further down. -/
def down (n : Nat) (p : Position) : Position := ⟨p.row + n, p.column⟩

theorem down_advance (n : Nat) (p : Position) (c : Char) :
    (p.advance c).down n = (p.down n).advance c := by
  by_cases h : c = '\n'
  · subst h
    simp [down, Nat.add_right_comm]
  · simp [down, advance_of_ne _ h]

theorem after_down (n : Nat) (p : Position) (text : List Char) :
    (p.down n).after text = (p.after text).down n :=
  after_map (down_advance n) p text

end Position

namespace Script

/-! ## Lexemes at other places -/

namespace Lexeme

/-- The lexeme at another position. -/
def shift (f : Position → Position) (l : Lexeme) : Lexeme := { l with pos := f l.pos }

@[simp] theorem word_shift (f : Position → Position) (l : Lexeme) : (l.shift f).word = l.word := rfl

@[simp] theorem pos_shift (f : Position → Position) (l : Lexeme) : (l.shift f).pos = f l.pos := rfl

@[simp] theorem afterBreak_shift (f : Position → Position) (l : Lexeme) :
    (l.shift f).afterBreak = l.afterBreak := rfl

/-- The lexeme with or without a line break before it. -/
def withBreak (b : Bool) (l : Lexeme) : Lexeme := { l with afterBreak := b }

@[simp] theorem word_withBreak (b : Bool) (l : Lexeme) : (l.withBreak b).word = l.word := rfl

@[simp] theorem afterBreak_withBreak (b : Bool) (l : Lexeme) :
    (l.withBreak b).afterBreak = b := rfl

end Lexeme

/-- The row behind a line break. -/
def breakBefore : List Lexeme → List Lexeme
  | [] => []
  | l :: row => l.withBreak true :: row

/-! ## Texts and their rows -/

/-- The text `text` spells a row of lexemes when it stands at `pos`; `b` says whether a line break
    stands before it. -/
inductive SpellsRow : Bool → Position → List Char → List Lexeme → Prop where
  | nil {b : Bool} {pos : Position} : SpellsRow b pos [] []
  | space {b breaks : Bool} {pos : Position} {u rest : List Char} {row : List Lexeme}
      (h : Spells (.space breaks) u rest) (hrest : SpellsRow (b || breaks) (pos.after u) rest row) :
      SpellsRow b pos (u ++ rest) row
  | word {b : Bool} {pos : Position} {w : Word} {u rest : List Char} {row : List Lexeme}
      (h : Spells (.word w) u rest) (hrest : SpellsRow false (pos.after u) rest row) :
      SpellsRow b pos (u ++ rest) (⟨w, pos, b⟩ :: row)

theorem lexemesFrom_space {b breaks : Bool} {u rest : List Char}
    (h : Spells (.space breaks) u rest) (pos : Position) :
    lexemesFrom b ⟨pos, u ++ rest⟩ = lexemesFrom (b || breaks) ⟨pos.after u, rest⟩ := by
  cases u with
  | nil => exact absurd rfl h.ne_nil
  | cons c u =>
    have hread := h.complete pos
    rw [List.cons_append] at hread ⊢
    simp only [lexemesFrom_cons, hread]

theorem lexemesFrom_word {b : Bool} {w : Word} {u rest : List Char} (h : Spells (.word w) u rest)
    (pos : Position) :
    lexemesFrom b ⟨pos, u ++ rest⟩ = match lexemesFrom false ⟨pos.after u, rest⟩ with
      | .error e => .error e
      | .ok others => .ok (⟨w, pos, b⟩ :: others) := by
  cases u with
  | nil => exact absurd rfl h.ne_nil
  | cons c u =>
    have hread := h.complete pos
    rw [List.cons_append] at hread ⊢
    cases hrow : lexemesFrom false ⟨pos.after (c :: u), rest⟩ <;>
      simp only [lexemesFrom_cons, hread, hrow]

theorem SpellsRow.row_nil {b : Bool} {pos : Position} {row : List Lexeme}
    (h : SpellsRow b pos [] row) : row = [] := by
  generalize htext : [] = text at h
  cases h with
  | nil => rfl
  | space h _ => exact absurd (List.append_eq_nil_iff.mp htext.symm).1 h.ne_nil
  | word h _ => exact absurd (List.append_eq_nil_iff.mp htext.symm).1 h.ne_nil

theorem SpellsRow.complete {b : Bool} {pos : Position} {text : List Char} {row : List Lexeme}
    (h : SpellsRow b pos text row) : lexemesFrom b ⟨pos, text⟩ = .ok row := by
  induction h with
  | nil => exact lexemesFrom_nil _ _
  | space h _ ih => rw [lexemesFrom_space h, ih]
  | word h _ ih => rw [lexemesFrom_word h, ih]

theorem lexemesFrom_sound {b : Bool} {cur : Cursor} {row : List Lexeme}
    (h : lexemesFrom b cur = .ok row) : SpellsRow b cur.pos cur.rest row := by
  fun_induction lexemesFrom b cur generalizing row with
  | case1 b cur hrest =>
    cases h
    rw [hrest]
    exact .nil
  | case2 => cases h
  | case3 b cur c rest hrest breaks stop hitem ih =>
    obtain ⟨u, hpass, hspells⟩ := readItem_sound hrest hitem
    have := ih h
    rw [hpass.pos_eq] at this
    rw [hpass.rest_eq]
    exact .space hspells this
  | case4 => cases h
  | case5 b cur c rest hrest w stop hitem others hothers ih =>
    cases h
    obtain ⟨u, hpass, hspells⟩ := readItem_sound hrest hitem
    have := ih hothers
    rw [hpass.pos_eq] at this
    rw [hpass.rest_eq]
    exact .word hspells this

/-- **A text has the lexemes that it spells.** -/
theorem lexemesFrom_eq_ok_iff {b : Bool} {pos : Position} {text : List Char}
    {row : List Lexeme} : lexemesFrom b ⟨pos, text⟩ = .ok row ↔ SpellsRow b pos text row :=
  ⟨fun h => lexemesFrom_sound h, fun h => h.complete⟩

theorem lexemes_eq_ok_iff {script : String} {row : List Lexeme} :
    lexemes script = .ok row ↔ SpellsRow false .start script.toList row := by
  rw [lexemes_eq]
  exact lexemesFrom_eq_ok_iff

/-! ## Lines behind one another -/

/-- Behind a line break the first lexeme has one before it, and nothing else changes. -/
theorem SpellsRow.breakBefore {b : Bool} {pos : Position} {text : List Char} {row : List Lexeme}
    (h : SpellsRow b pos text row) : SpellsRow true pos text (breakBefore row) := by
  induction h with
  | nil => exact .nil
  | space h _ ih => exact .space h (by rwa [Bool.true_or])
  | word h hrest _ => exact .word h hrest

/-- A number is made of digits, a point, the letter of a power of ten and a sign. -/
theorem SpellsNumber.not_mem {u rest : List Char} {n : Numeral} {c : Char}
    (hdigit : c.isDigit = false) (hmark : c ∉ ['.', 'e', 'E', '+', '-']) :
    SpellsNumber u n rest → c ∉ u
  | .mk (u := u) (v := v) hwhole _ hfraction hpower _ _ => by
    have hrow {digits : List Char} (h : ∀ d ∈ digits, d.isDigit = true) : c ∉ digits :=
      fun hmem => Bool.noConfusion (hdigit.symm.trans (h c hmem))
    have hu : c ∉ u := by
      cases hfraction with
      | absent _ => simp
      | present hdigits _ =>
        have := hrow hdigits
        simp_all
    have hv : c ∉ v := by
      cases hpower with
      | absent _ => simp
      | present he hsign hdigits _ =>
        have := hrow hdigits
        rcases he with rfl | rfl <;> rcases hsign with rfl | rfl | rfl <;> simp_all
    simp [hrow hwhole, hu, hv]

/-- Only a line break is spelled with a line break at its end. -/
theorem Spells.eq_lineBreak {i : Item} {u rest : List Char} (h : Spells i u rest)
    (hu : u.getLast? = some '\n') : u = ['\n'] ∧ i = .space true := by
  cases h with
  | lineBreak => exact ⟨rfl, rfl⟩
  | blank _ hline => exact absurd (by simpa using hu) hline
  | @lineComment text _ htext _ =>
    have := List.mem_of_getLast? hu
    simp [htext] at this
  | blockComment _ =>
    rw [← List.cons_append, ← List.cons_append, List.getLast?_append] at hu
    simp at hu
  | text hquote _ =>
    rw [← List.cons_append, List.getLast?_append] at hu
    obtain rfl : _ = '\n' := by simpa using hu
    simp at hquote
  | number h => exact absurd (List.mem_of_getLast? hu) (h.not_mem (by decide) (by decide))
  | @name c u _ hc hu' _ =>
    have hmem := List.mem_of_getLast? hu
    have hpart : isNamePart '\n' = true := by
      rcases List.mem_cons.mp hmem with h | h
      · exact h ▸ isNamePart_of_isNameStart hc
      · exact hu' _ h
    exact absurd hpart (by decide +kernel)
  | @symbol s _ _ _ _ _ => cases s <;> simp [Symbol.spelling] at hu

/-- The last part of a line, or the line break alone, is what a first part leaves. -/
theorem append_eq_line {u rest line : List Char} (h : line ++ ['\n'] = u ++ rest) :
    (rest = [] ∧ u = line ++ ['\n']) ∨ ∃ part, rest = part ++ ['\n'] ∧ line = u ++ part := by
  rcases List.eq_nil_or_concat rest with rfl | ⟨part, c, rfl⟩
  · exact Or.inl ⟨rfl, by rw [h, List.append_nil]⟩
  · rw [List.concat_eq_append, ← List.append_assoc] at h
    obtain ⟨hline, hc⟩ := List.append_inj' h rfl
    exact Or.inr ⟨part, by rw [List.concat_eq_append, ← hc], hline⟩

/-- **A line spells the same row further down in front of anything.** -/
theorem SpellsRow.append {b : Bool} {pos : Position} {line k : List Char} {row more : List Lexeme}
    (h : SpellsRow b pos (line ++ ['\n']) row) (n : Nat)
    (hk : SpellsRow true ((pos.after (line ++ ['\n'])).down n) k more) :
    SpellsRow b (pos.down n) (line ++ '\n' :: k)
      (row.map (Lexeme.shift (Position.down n)) ++ more) := by
  generalize htext : line ++ ['\n'] = text at h
  induction h generalizing line with
  | nil => simp at htext
  | @space b breaks pos u rest row h hrest ih =>
    rcases append_eq_line htext with ⟨rfl, hu⟩ | ⟨part, rfl, rfl⟩
    · -- the line break itself is the space
      obtain ⟨hline, hbreaks⟩ := h.eq_lineBreak (by simp [hu])
      obtain rfl : line = [] := by simpa [hline] using hu.symm
      obtain rfl : breaks = true := by simpa using hbreaks
      rw [hrest.row_nil]
      refine .space (u := ['\n']) .lineBreak ?_
      rw [Bool.or_true, Position.after_down]
      exact hk
    · -- the space sees a line break behind the line, with and without `k`
      have hpart := h.change_gap (.newline _) (.newline k) (.inr (.inl rfl))
      rw [List.append_assoc]
      refine .space hpart ?_
      rw [Position.after_down]
      refine ih ?_ rfl
      rwa [List.append_assoc, Position.after_append] at hk
  | @word b pos w u rest row h hrest ih =>
    rcases append_eq_line htext with ⟨rfl, hu⟩ | ⟨part, rfl, rfl⟩
    · cases (h.eq_lineBreak (by simp [hu])).2
    · have hpart := h.change_gap (.newline _) (.newline k) (.inr (.inl rfl))
      rw [List.append_assoc, List.map_cons, List.cons_append]
      refine .word hpart ?_
      rw [Position.after_down]
      refine ih ?_ rfl
      rwa [List.append_assoc, Position.after_append] at hk

end Script

end Stencil
