/-
  The lexemes of a script make up the script.

  A script that is read at all is spaces and words in turn: in front of every word white space and
  comments, then the spelling of the lexeme, and white space and comments behind the last one.
  Nothing is lost or read twice, every word is the longest that stands at its place, and every
  lexeme carries the place of its first character and whether the space before it breaks the line
  (`lexemes_segments`).
-/
import Stencil.Proofs.Script.Lexemes.Forms
import Stencil.Proofs.Script.Lexemes.Rows

namespace Stencil.Script

/-! ## Spaces -/

/-- The text is white space and comments when `rest` follows it.  A comment in a line goes up to
    the end of the line, a closed one up to its first closing mark. -/
inductive SpaceBefore (rest : List Char) : List Char → Prop where
  | nil : SpaceBefore rest []
  | blank {c : Char} {u : List Char} (hc : Text.isBlank c = true) (h : SpaceBefore rest u) :
      SpaceBefore rest (c :: u)
  | lineComment {text u : List Char} (htext : '\n' ∉ text)
      (hend : u ++ rest = [] ∨ (u ++ rest).head? = some '\n') (h : SpaceBefore rest u) :
      SpaceBefore rest ('/' :: '/' :: (text ++ u))
  | blockComment {text u : List Char} (htext : ¬ ['*', '/'] <:+: text) (h : SpaceBefore rest u) :
      SpaceBefore rest ('/' :: '*' :: (text ++ '*' :: '/' :: u))

/-- What is passed over in front of a space is part of the space. -/
theorem Spells.spaceBefore {b : Bool} {u v rest : List Char}
    (h : Spells (.space b) u (v ++ rest)) (hv : SpaceBefore rest v) :
    SpaceBefore rest (u ++ v) := by
  generalize hi : Item.space b = i at h
  cases h with
  | text | number | name | symbol => cases hi
  | lineBreak => exact .blank (by decide) hv
  | blank hc _ => exact .blank hc hv
  | lineComment htext hrest => exact .lineComment htext (hrest.imp_right id) hv
  | @blockComment text _ htext =>
    have hspace := @SpaceBefore.blockComment rest text v ?_ hv
    · simpa using hspace
    · intro hinfix
      -- the closing mark in the comment would be the start of one of its end parts
      obtain ⟨front, back, rfl⟩ := hinfix
      have hno := htext (['*', '/'] ++ back) (by simp) ⟨front, by simp⟩
      simp at hno

/-- A space breaks the line where a line break is among its characters. -/
theorem Spells.breaks_iff {b : Bool} {u rest : List Char} (h : Spells (.space b) u rest) :
    b = true ↔ '\n' ∈ u := by
  generalize hi : Item.space b = i at h
  cases h with
  | text | number | name | symbol => cases hi
  | lineBreak =>
    cases hi
    simp
  | blank _ hline =>
    cases hi
    simpa using hline.symm
  | lineComment htext _ =>
    cases hi
    simpa using htext
  | blockComment _ =>
    cases hi
    simp

/-! ## Words at their places -/

/-- The lexeme `l` is read from `word`, behind the text `before` and the space `space` and in front
    of `rest`. -/
structure Lexeme.ReadFrom (l : Lexeme) (before space word rest : List Char) : Prop where
  space_before : SpaceBefore (word ++ rest) space
  form : WordForm l.word word
  longest : Longest word (word ++ rest)
  no_comment : ¬ BeginsComment (word ++ rest)
  pos_eq : l.pos = Position.behind (before ++ space)
  afterBreak_iff : l.afterBreak = true ↔ '\n' ∈ space

/-- The lexemes cut the text, in front of which `before` stands; `b` says whether it ends in a space
    that breaks the line. -/
inductive CutsInto : Bool → List Char → List Char → List Lexeme → Prop where
  | last {b : Bool} {before last : List Char} (h : SpaceBefore [] last) : CutsInto b before last []
  | word {b : Bool} {before space word rest : List Char} {w : Word} {pos : Position}
      {row : List Lexeme}
      (hl : Lexeme.ReadFrom ⟨w, pos, space.contains '\n'⟩ before space word rest)
      (hrest : CutsInto false (before ++ space ++ word) rest row) :
      CutsInto b before (space ++ (word ++ rest)) (⟨w, pos, b || space.contains '\n'⟩ :: row)

/-- A space in front of what is cut goes to the space in front of its first word. -/
theorem CutsInto.space {b breaks : Bool} {before u rest : List Char} {row : List Lexeme}
    (h : Spells (.space breaks) u rest) (hrest : CutsInto (b || breaks) (before ++ u) rest row) :
    CutsInto b before (u ++ rest) row := by
  cases hrest with
  | last hspace =>
    rw [← List.append_nil rest] at h
    exact .last (h.spaceBefore hspace)
  | @word _ _ space word rest w pos row hl hrest =>
    have hbreaks : breaks = u.contains '\n' := by
      rw [Bool.eq_iff_iff, List.contains_iff_mem, h.breaks_iff]
    rw [← List.append_assoc, hbreaks, Bool.or_assoc, ← List.contains_append]
    refine .word ⟨h.spaceBefore hl.space_before, hl.form, hl.longest, hl.no_comment, ?_, ?_⟩ ?_
    · rw [← List.append_assoc]
      exact hl.pos_eq
    · simp
    · rwa [← List.append_assoc]

/-- A row that a text spells cuts it. -/
theorem SpellsRow.cutsInto {b : Bool} {pos : Position} {text : List Char} {row : List Lexeme}
    (h : SpellsRow b pos text row) {before : List Char} (hpos : pos = Position.behind before) :
    CutsInto b before text row := by
  induction h generalizing before with
  | nil => exact .last .nil
  | space h _ ih =>
    exact .space h (ih (by rw [hpos, Position.after_behind]))
  | @word b pos w u rest row h _ ih =>
    have hl : Lexeme.ReadFrom ⟨w, pos, ([] : List Char).contains '\n'⟩ before [] u rest :=
      ⟨.nil, h.wordForm, h.longest, h.not_beginsComment, by simpa using hpos, by simp⟩
    have hend : pos.after u = Position.behind (before ++ [] ++ u) := by
      rw [hpos, Position.after_behind, List.append_nil]
    have hcuts := CutsInto.word (b := b) hl (ih hend)
    simpa using hcuts

/-! ## The whole script -/

/-- Spaces and words behind one another. -/
def partsText (parts : List (List Char × List Char)) : List Char :=
  parts.flatMap fun part => part.1 ++ part.2

@[simp] theorem partsText_nil : partsText [] = [] := rfl

@[simp] theorem partsText_cons (part : List Char × List Char)
    (parts : List (List Char × List Char)) :
    partsText (part :: parts) = part.1 ++ part.2 ++ partsText parts := by
  simp [partsText]

/-- Lexemes that cut a text have a space and a word each, one behind the other. -/
theorem CutsInto.segments {before text : List Char} {row : List Lexeme}
    (h : CutsInto false before text row) :
    ∃ (parts : List (List Char × List Char)) (last : List Char),
      text = partsText parts ++ last ∧ parts.length = row.length ∧ SpaceBefore [] last ∧
      ∀ (i : Nat) (l : Lexeme) (space word : List Char),
        row[i]? = some l → parts[i]? = some (space, word) →
          l.ReadFrom (before ++ partsText (parts.take i)) space word
            (partsText (parts.drop (i + 1)) ++ last) := by
  generalize hb : false = b at h
  induction h with
  | @last _ before last hspace => exact ⟨[], last, rfl, rfl, hspace, by simp⟩
  | @word _ before space word rest w pos row hl _ ih =>
    obtain ⟨parts, last, rfl, hlength, hlast, hall⟩ := ih rfl
    subst hb
    refine ⟨(space, word) :: parts, last, by simp, by simp [hlength], hlast, ?_⟩
    intro i l space' word' hrow hpart
    cases i with
    | zero =>
      rw [Bool.false_or] at hrow
      obtain rfl : _ = l := by simpa only [List.getElem?_cons_zero, Option.some.injEq] using hrow
      obtain ⟨rfl, rfl⟩ : space = space' ∧ word = word' := by simpa using hpart
      simpa using hl
    | succ i =>
      have := hall i l space' word' (by simpa using hrow) (by simpa using hpart)
      simpa using this

/-- **Reading a script loses nothing and takes the longest words.**  A script that has the lexemes
    `row` is one space and one word for each of them and a space behind the last word.  Each word
    is a spelling of its lexeme and the longest front part of what stands there that spells a word,
    the lexeme has the place of the word's first character, and a line break stands before it
    exactly when there is one in the space before the word. -/
theorem lexemes_segments {script : String} {row : List Lexeme} (h : lexemes script = .ok row) :
    ∃ (parts : List (List Char × List Char)) (last : List Char),
      script.toList = partsText parts ++ last ∧ parts.length = row.length ∧ SpaceBefore [] last ∧
      ∀ (i : Nat) (l : Lexeme) (space word : List Char),
        row[i]? = some l → parts[i]? = some (space, word) →
          l.ReadFrom (partsText (parts.take i)) space word
            (partsText (parts.drop (i + 1)) ++ last) := by
  have hcuts : CutsInto false [] script.toList row := (lexemes_eq_ok_iff.mp h).cutsInto rfl
  exact hcuts.segments

/-- A comment in a line, an operator, a point that begins a number and an escape in a string. -/
theorem lexemes_segments_mixed :
    ∃ (parts : List (List Char × List Char)) (last : List Char),
      "a+=.5e1// x\n'\\n'".toList = partsText parts ++ last ∧ parts.length = 4 ∧
      SpaceBefore [] last ∧
      ∀ (i : Nat) (l : Lexeme) (space word : List Char),
        [⟨.name "a", ⟨0, 0⟩, false⟩, ⟨.symbol .plusAssign, ⟨0, 1⟩, false⟩,
          ⟨.number 5.0, ⟨0, 3⟩, false⟩, ⟨.text "\n", ⟨1, 0⟩, true⟩][i]? = some l →
        parts[i]? = some (space, word) →
          l.ReadFrom (partsText (parts.take i)) space word
            (partsText (parts.drop (i + 1)) ++ last) := by
  have hrow : lexemes "a+=.5e1// x\n'\\n'" = .ok [⟨.name "a", ⟨0, 0⟩, false⟩,
      ⟨.symbol .plusAssign, ⟨0, 1⟩, false⟩, ⟨.number 5.0, ⟨0, 3⟩, false⟩,
      ⟨.text "\n", ⟨1, 0⟩, true⟩] := by decide +kernel
  exact lexemes_segments hrow

end Stencil.Script
