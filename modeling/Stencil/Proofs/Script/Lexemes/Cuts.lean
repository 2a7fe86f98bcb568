/-
  What is read of a text in front of another one.

  A text is cut in front of `tail` when it is items behind one another as `tail` follows
  (`CutBefore`).  Its lexemes are then the same in front of everything that no item can tell from
  `tail` (`CutBefore.lexemesFrom`).  In front of the end of a call, every text of a script that is
  read is cut, but for one that ends inside a comment: such a comment takes in the whole rest of
  its line (`SpellsRow.cut_or_comment`).
-/
import Stencil.Proofs.Script.Lexemes.Rows

namespace Stencil.Script

/-- The text is items behind one another when `tail` follows it. -/
inductive CutBefore (tail : List Char) : List Char → Prop where
  | nil : CutBefore tail []
  | item {i : Item} {u rest : List Char} (h : Spells i u (rest ++ tail))
      (hrest : CutBefore tail rest) : CutBefore tail (u ++ rest)

/-- The text ends inside a comment that goes up to the end of the line. -/
def EndsInComment (text : List Char) : Prop :=
  ∃ front back, text = front ++ '/' :: '/' :: back ∧ '\n' ∉ back ∧
    CutBefore ('/' :: '/' :: back) front

/-! ## Texts that look alike -/

/-- No item in front of `tail` tells it from `tail'`. -/
def Alike (tail tail' : List Char) : Prop :=
  ∀ (i : Item) (u a : List Char), Spells i u (a ++ tail) → Spells i u (a ++ tail')

theorem Alike.refl (tail : List Char) : Alike tail tail := fun _ _ _ h => h

theorem alike_of_take {tail tail' : List Char} (h : tail.take 2 = tail'.take 2) :
    Alike tail tail' :=
  fun _ _ a hi => hi.change_far (take_append_of_take h a (Nat.le_add_left 2 a.length))

theorem alike_of_closing {rest tail : List Char} (h : Gap tail) : Alike (')' :: rest) tail :=
  fun _ _ _ hi => hi.change_gap (.closing rest) h (.inr (.inr rfl))

/-- The word that a text begins with is its first lexeme. -/
theorem lexemesFrom_word_eq_map {w : Word} {u rest : List Char} (h : Spells (.word w) u rest)
    (b : Bool) (pos : Position) :
    lexemesFrom b ⟨pos, u ++ rest⟩
      = (lexemesFrom false ⟨pos.after u, rest⟩).map (⟨w, pos, b⟩ :: ·) := by
  rw [lexemesFrom_word h]
  cases lexemesFrom false ⟨pos.after u, rest⟩ <;> rfl

/-- The lexemes of a text that is cut are there before anything that looks alike. -/
theorem CutBefore.lexemesFrom {tail text : List Char} (h : CutBefore tail text) (b : Bool)
    (pos : Position) :
    ∃ row b', ∀ tail', Alike tail tail' →
      Script.lexemesFrom b ⟨pos, text ++ tail'⟩
        = (Script.lexemesFrom b' ⟨pos.after text, tail'⟩).map (row ++ ·) := by
  induction h generalizing b pos with
  | nil =>
    refine ⟨[], b, fun tail' _ => ?_⟩
    cases hread : Script.lexemesFrom b ⟨pos, tail'⟩ <;> simp [hread, Except.map]
  | @item i u rest h _ ih =>
    cases i with
    | space breaks =>
      obtain ⟨row, b', hrow⟩ := ih (b || breaks) (pos.after u)
      refine ⟨row, b', fun tail' htail => ?_⟩
      rw [List.append_assoc, lexemesFrom_space (htail _ _ _ h), hrow tail' htail,
        Position.after_append]
    | word w =>
      obtain ⟨row, b', hrow⟩ := ih false (pos.after u)
      refine ⟨⟨w, pos, b⟩ :: row, b', fun tail' htail => ?_⟩
      rw [List.append_assoc, lexemesFrom_word_eq_map (htail _ _ _ h), hrow tail' htail,
        Position.after_append]
      cases Script.lexemesFrom b' ⟨(pos.after u).after rest, tail'⟩ <;> rfl

/-! ## The end of a call -/

/-- What stands behind the argument of a call. -/
def callEnd : List Char := [')', ';', '\n']

/-- An item that goes on into the end of a call is a comment. -/
theorem Spells.comment_of_callEnd {i : Item} {text part rest : List Char}
    (h : Spells i (text ++ ')' :: part) rest) (htext : text ≠ [])
    (hpart : ∀ c ∈ ')' :: part, c ∈ callEnd) :
    ∃ back, text = '/' :: '/' :: back ∧ '\n' ∉ back ++ ')' :: part := by
  have hmem : ')' ∈ (text ++ ')' :: part).tail := by
    obtain ⟨c, text, rfl⟩ := List.exists_cons_of_ne_nil htext
    simp
  have hlast : ∀ c, (text ++ ')' :: part).getLast? = some c → c ∈ callEnd := by
    intro c hc
    rw [List.getLast?_append, List.getLast?_cons, Option.some_or, ← List.getLast?_cons] at hc
    exact hpart c (List.mem_of_getLast? hc)
  generalize hu : text ++ ')' :: part = u at h hmem hlast
  cases h with
  | lineBreak => cases hmem
  | blank => cases hmem
  | lineComment hline _ =>
    match text with
    | [] => exact absurd rfl htext
    | [c] =>
      obtain ⟨-, hslash⟩ := List.cons.inj hu
      cases hslash
    | c :: d :: back =>
      simp only [List.cons_append, List.cons.injEq] at hu
      obtain ⟨rfl, rfl, rfl⟩ := hu
      exact ⟨back, rfl, hline⟩
  | blockComment _ =>
    have := hlast '/' (by rw [← List.cons_append, ← List.cons_append, List.getLast?_append]; rfl)
    exact absurd this (by decide)
  | @text quote _ _ _ hquote _ =>
    have := hlast quote (by rw [← List.cons_append, List.getLast?_append]; rfl)
    rcases hquote with rfl | rfl <;> exact absurd this (by decide)
  | number h => exact absurd (List.mem_of_mem_tail hmem) (h.not_mem (by decide) (by decide))
  | name hc hpart _ =>
    have hclosing : isNamePart ')' = false := by decide +kernel
    exact absurd (hpart _ hmem) (by simp [hclosing])
  | @symbol s _ _ _ _ _ => cases s <;> simp [Symbol.spelling] at hmem

/-- The first item of a text in front of the end of a call. -/
theorem Spells.cut_or_comment {i : Item} {u rest text : List Char} (h : Spells i u rest)
    (hall : text ++ callEnd = u ++ rest)
    (hmore : ∀ {text'}, text' ++ callEnd = rest → CutBefore callEnd text' ∨ EndsInComment text') :
    CutBefore callEnd text ∨ EndsInComment text := by
  rcases List.append_eq_append_iff.mp hall with ⟨part, rfl, hend⟩ | ⟨text', rfl, rfl⟩
  · by_cases htext : text = []
    · exact .inl (htext ▸ .nil)
    match part, hend with
    | [], hend =>
      -- the item ends with the text
      rw [List.append_nil] at h
      have hcut : CutBefore callEnd (text ++ []) := .item (by rwa [hend]) .nil
      exact .inl (List.append_nil text ▸ hcut)
    | c :: part, hend =>
      have hpart : ∀ d ∈ c :: part, d ∈ callEnd := fun d hd => hend ▸ List.mem_append_left rest hd
      obtain rfl : ')' = c := (List.cons.inj hend).1
      obtain ⟨back, rfl, hback⟩ := h.comment_of_callEnd htext hpart
      exact .inr ⟨[], back, rfl, fun hmem => hback (List.mem_append_left _ hmem), .nil⟩
  · -- the text goes on behind the item
    rcases hmore rfl with hcut | ⟨front, back, rfl, hback, hcut⟩
    · exact .inl (.item h hcut)
    · rw [List.append_assoc] at h
      have hlook : Alike ('/' :: '/' :: back ++ callEnd) ('/' :: '/' :: back) := alike_of_take rfl
      have hitem : Spells i u (front ++ '/' :: '/' :: back) := hlook i u front h
      exact .inr ⟨u ++ front, back, (List.append_assoc ..).symm, hback, .item hitem hcut⟩

/-- **In front of the end of a call a text is cut, or it ends in a comment.** -/
theorem SpellsRow.cut_or_comment {b : Bool} {pos : Position} {text : List Char}
    {row : List Lexeme} (h : SpellsRow b pos (text ++ callEnd) row) :
    CutBefore callEnd text ∨ EndsInComment text := by
  generalize hall : text ++ callEnd = all at h
  induction h generalizing text with
  | nil => simp [callEnd] at hall
  | space h _ ih => exact h.cut_or_comment hall ih
  | word h _ ih => exact h.cut_or_comment hall ih

/-! ## A comment in front of the end of a call -/

/-- Behind a comment in its last line a script has no more lexemes. -/
theorem lexemesFrom_comment {comment : List Char} (h : '\n' ∉ comment) (b : Bool)
    (pos : Position) : lexemesFrom b ⟨pos, '/' :: '/' :: comment ++ ['\n']⟩ = .ok [] := by
  have hspells : Spells (.space false) ('/' :: '/' :: comment) ['\n'] :=
    .lineComment h (.inr rfl)
  rw [lexemesFrom_space hspells]
  exact lexemesFrom_eq_ok_iff.mpr (.space (u := ['\n']) .lineBreak .nil)

/-- Where a text ends in a comment, the rest of the line is no part of the script. -/
theorem EndsInComment.lexemesFrom {text : List Char} (h : EndsInComment text) (b : Bool)
    (pos : Position) : ∃ row, ∀ more, '\n' ∉ more →
      Script.lexemesFrom b ⟨pos, text ++ (more ++ ['\n'])⟩ = .ok row := by
  obtain ⟨front, back, rfl, hback, hcut⟩ := h
  obtain ⟨row, b', hrow⟩ := hcut.lexemesFrom b pos
  refine ⟨row, fun more hmore => ?_⟩
  have hread := hrow ('/' :: '/' :: (back ++ more) ++ ['\n']) (alike_of_take (by simp))
  rw [lexemesFrom_comment (by simp [hback, hmore])] at hread
  simpa [Except.map] using hread

/-- Where a text is cut in front of the end of a call, a comment takes the place of the words that
    end the call. -/
theorem CutBefore.lexemesFrom_comment {text : List Char} (h : CutBefore callEnd text) (b : Bool)
    (pos : Position) : ∃ row closing semicolon,
      Script.lexemesFrom b ⟨pos, text ++ callEnd⟩ = .ok (row ++ [closing, semicolon]) ∧
      closing.word = .symbol .rightParen ∧ semicolon.word = .symbol .semicolon ∧
      ∀ comment, '\n' ∉ comment →
        Script.lexemesFrom b ⟨pos, text ++ (' ' :: '/' :: '/' :: comment ++ ['\n'])⟩ = .ok row := by
  obtain ⟨row, b', hrow⟩ := h.lexemesFrom b pos
  let behind := pos.after text
  refine ⟨row, ⟨.symbol .rightParen, behind, b'⟩,
    ⟨.symbol .semicolon, behind.after Symbol.rightParen.spelling, false⟩, ?_, rfl, rfl,
    fun comment hcomment => ?_⟩
  · have hend : SpellsRow b' behind callEnd
        [⟨.symbol .rightParen, behind, b'⟩,
          ⟨.symbol .semicolon, behind.after Symbol.rightParen.spelling, false⟩] :=
      .word (u := Symbol.rightParen.spelling) (.symbol rfl rfl rfl rfl)
        (.word (u := Symbol.semicolon.spelling) (.symbol rfl rfl rfl rfl)
          (.space (u := ['\n']) .lineBreak .nil))
    rw [hrow callEnd (Alike.refl callEnd), hend.complete]
    rfl
  · have hspace : Spells (.space false) [' '] ('/' :: '/' :: comment ++ ['\n']) :=
      .blank (by decide +kernel) (by decide)
    have hnone : Script.lexemesFrom b' ⟨behind, ' ' :: '/' :: '/' :: comment ++ ['\n']⟩ = .ok [] :=
      (lexemesFrom_space hspace behind).trans (Script.lexemesFrom_comment hcomment _ _)
    have hgap : Gap (' ' :: '/' :: '/' :: comment ++ ['\n']) := .space _
    rw [hrow _ (alike_of_closing hgap), hnone]
    simp [Except.map]

end Stencil.Script
