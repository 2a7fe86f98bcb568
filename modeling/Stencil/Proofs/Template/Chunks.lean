/-
  How a template with known text is cut.

  Literal text runs on as long as no script starts in it (`Delimiters.Literal`), which only the
  opening pair and a line sentinel can bring about.  There is one equation for each kind of token
  that says which token is cut off a text of its form and what is left (`next_chunk`, `next_line`,
  `next_block`, `next_expression`).
-/
import Stencil.Proofs.Text.Passes
import Stencil.Template.Token

namespace Stencil

/-! ## Where reading stops -/

/-- In the first column stands what the text begins with, and what a line break stands before. -/
theorem Position.column_after_eq_zero {p : Position} {text : List Char}
    (h : (p.after text).column = 0) :
    text = [] ∧ p.column = 0 ∨ ∃ front, text = front ++ ['\n'] := by
  rcases List.eq_nil_or_concat text with rfl | ⟨front, c, rfl⟩
  · exact Or.inl ⟨rfl, h⟩
  · rw [List.concat_eq_append] at h ⊢
    by_cases hc : c = '\n'
    · exact Or.inr ⟨front, by rw [hc]⟩
    · rw [after_append, after_cons, after_nil, advance_of_ne _ hc] at h
      exact absurd h (Nat.succ_ne_zero _)

/-- A pair of characters that stands in a text with one more character, which does not end the
    pair, stands in the text. -/
theorem pair_infix_of_append {x y z : Char} {text : List Char} (hy : y ≠ z)
    (h : [x, y] <:+: text ++ [z]) : [x, y] <:+: text := by
  obtain ⟨front, back, h⟩ := h
  rcases List.eq_nil_or_concat back with rfl | ⟨back, z', rfl⟩
  · rw [List.append_nil, ← List.singleton_append, ← List.append_assoc] at h
    exact absurd (List.cons.inj (List.append_inj' h rfl).2).1 hy
  · rw [List.concat_eq_append, ← List.append_assoc] at h
    exact ⟨front, back, (List.append_inj' h rfl).1⟩

namespace Delimiters

/-- No script starts in the text, which stands at `pos` in front of `rest`. -/
def Literal (d : Delimiters) (pos : Position) (text rest : List Char) : Prop :=
  ∀ front c back, text = front ++ c :: back →
    d.scriptStarts (pos.after front) (c :: (back ++ rest)) = false

/-- No script starts where there is no opening pair, and no line sentinel in a place where it
    counts. -/
theorem literal_of {d : Delimiters} {pos : Position} {text rest : List Char}
    (hpair : ¬ [d.opening.first, d.opening.second] <:+: text)
    (hrest : rest.head? ≠ some d.opening.second)
    (hline : ∀ front back, text = front ++ d.line :: back →
      d.lineStartOnly = true ∧ (pos.after front).column ≠ 0) : d.Literal pos text rest := by
  intro front c back htext
  rw [scriptStarts, Bool.or_eq_false_iff]
  constructor
  · rw [directiveStarts, Bool.and_eq_false_iff]
    by_cases hc : c = d.line
    · obtain ⟨honly, hcolumn⟩ := hline front back (by rw [htext, hc])
      right
      rw [honly, Bool.or_eq_false_iff]
      exact ⟨beq_eq_false_iff_ne.mpr hcolumn, rfl⟩
    · left
      exact beq_eq_false_iff_ne.mpr fun h => hc (Option.some.inj h)
  · rw [← Bool.not_eq_true, Pair.startsIn_iff]
    rintro ⟨more, hmore⟩
    obtain ⟨hc, hback⟩ := List.cons.inj hmore
    cases back with
    | nil =>
      -- only the pair's first character stands in the text
      rw [List.nil_append] at hback
      exact hrest (by rw [hback]; rfl)
    | cons c' back =>
      obtain ⟨hc', -⟩ := List.cons.inj hback
      exact hpair ⟨front, back, by rw [htext, hc, hc', List.append_assoc]; rfl⟩

/-- In literal text there is no opening pair. -/
theorem Literal.not_infix {d : Delimiters} {pos : Position} {text rest : List Char}
    (h : d.Literal pos text rest) : ¬ [d.opening.first, d.opening.second] <:+: text := by
  rintro ⟨front, back, htext⟩
  have hstarts := h front d.opening.first (d.opening.second :: back)
    (by rw [← htext, List.append_assoc]; rfl)
  rw [scriptStarts, Bool.or_eq_false_iff, ← Bool.not_eq_true, ← Bool.not_eq_true] at hstarts
  exact hstarts.2 (Pair.startsIn_iff.mpr ⟨back ++ rest, rfl⟩)

/-- In literal text a line sentinel stands only where it does not count. -/
theorem Literal.line {d : Delimiters} {pos : Position} {text rest front back : List Char}
    (h : d.Literal pos text rest) (htext : text = front ++ d.line :: back) :
    d.lineStartOnly = true ∧ (pos.after front).column ≠ 0 := by
  have hstarts := h front d.line back htext
  rw [scriptStarts, Bool.or_eq_false_iff, directiveStarts, List.head?_cons, beq_self_eq_true,
    Bool.true_and, Bool.or_eq_false_iff] at hstarts
  obtain ⟨hcolumn, honly⟩ := hstarts.1
  exact ⟨by simpa using honly, by simpa using hcolumn⟩

/-- With the standard delimiters the sentinel counts in the first column only: at the start of a
    text that stands there, and behind a line break. -/
theorem literal_standard {pos : Position} {text rest : List Char}
    (hpair : ¬ ['#', '|'] <:+: text) (hrest : rest.head? ≠ some '|')
    (hstart : pos.column = 0 → text.head? ≠ some '~') (hbreak : ¬ ['\n', '~'] <:+: text) :
    standard.Literal pos text rest := by
  refine literal_of hpair hrest fun front back htext => ⟨rfl, fun hcolumn => ?_⟩
  rcases Position.column_after_eq_zero hcolumn with ⟨rfl, hpos⟩ | ⟨before, rfl⟩
  · exact hstart hpos (by rw [htext]; rfl)
  · exact hbreak ⟨before, back, by rw [htext, List.append_assoc, List.append_assoc]; rfl⟩

end Delimiters

namespace Token

variable {d : Delimiters} {pos : Position} {text rest : List Char}

theorem scan_nil (d : Delimiters) (pos : Position) : scan d ⟨pos, []⟩ = [] := by
  rw [scan, if_neg (by simp [Cursor.hasNext])]

/-- The tokens of a text are the first one and those of what it leaves. -/
theorem scan_of_next {cur stop : Cursor} {t : Token} (hne : cur.rest ≠ [])
    (h : next d cur = (t, stop)) : scan d cur = t :: scan d stop := by
  rw [scan, if_pos (Cursor.hasNext_iff.mpr hne), h]

/-- Literal text is one token, up to where script starts. -/
theorem next_chunk (hne : text ≠ []) (hliteral : d.Literal pos text rest)
    (hstop : rest = [] ∨ d.scriptStarts (pos.after text) rest = true) :
    next d ⟨pos, text ++ rest⟩
      = (⟨.chunk, String.ofList text, pos⟩, ⟨pos.after text, rest⟩) := by
  have hread := Cursor.takeUntil_eq_at hliteral hstop
  obtain ⟨c, text', rfl⟩ := List.exists_cons_of_ne_nil hne
  have hfirst := hliteral [] c text' rfl
  rw [Delimiters.scriptStarts, Bool.or_eq_false_iff] at hfirst
  have hkind : kindAt d ⟨pos, c :: text' ++ rest⟩ = .chunk := by
    rw [kindAt_eq, if_neg, if_neg]
    · rw [Bool.not_eq_true]
      exact hfirst.2
    · rw [Bool.not_eq_true]
      exact hfirst.1
  rw [next, hkind]
  simp only [readKind, readChunk, hread]

/-- Literal text as tokens: one, if there is any text. -/
def ofLiteral (text : List Char) (pos : Position) : List Token :=
  if text = [] then [] else [⟨.chunk, String.ofList text, pos⟩]

/-- Where literal text stands, it is cut off first. -/
theorem scan_literal (hliteral : d.Literal pos text rest)
    (hstop : rest = [] ∨ d.scriptStarts (pos.after text) rest = true) :
    scan d ⟨pos, text ++ rest⟩ = ofLiteral text pos ++ scan d ⟨pos.after text, rest⟩ := by
  by_cases hne : text = []
  · subst hne
    rw [ofLiteral, if_pos rfl]
    rfl
  · rw [scan_of_next (by simp [hne]) (next_chunk hne hliteral hstop), ofLiteral, if_neg hne]
    rfl

theorem kind_of_mem_ofLiteral {t : Token} (h : t ∈ ofLiteral text pos) : t.kind = .chunk := by
  unfold ofLiteral at h
  split at h
  · cases h
  · rw [List.mem_singleton.mp h]

theorem length_ofLiteral_le (text : List Char) (pos : Position) :
    (ofLiteral text pos).length ≤ 1 := by
  unfold ofLiteral
  split <;> simp

theorem join_ofLiteral (text : List Char) (pos : Position) :
    String.join ((ofLiteral text pos).map Token.text) = String.ofList text := by
  unfold ofLiteral
  split
  · next h => rw [h]; rfl
  · exact String.empty_append

theorem takeUntil_newline (hline : '\n' ∉ text) :
    (Cursor.mk pos (text ++ '\n' :: rest)).takeUntil atNewline
      = (text, ⟨pos.after text, '\n' :: rest⟩) := by
  refine Cursor.takeUntil_eq (fun s hs hsuffix _ => ?_) (Or.inr fun _ => rfl) pos
  cases s with
  | nil => exact absurd rfl hs
  | cons c s =>
    have hc : c ≠ '\n' := fun h => hline (h ▸ hsuffix.subset List.mem_cons_self)
    simpa [atNewline] using hc

/-- A directive line is read from behind its sentinel through its line break. -/
theorem readLine_eq {sentinel : Char}
    (hblank : text.head? ≠ some ' ' ∧ text.head? ≠ some '\t') (hline : '\n' ∉ text)
    (hreturn : text.getLast? ≠ some '\r') :
    readLine ⟨pos, sentinel :: (text ++ '\n' :: rest)⟩
      = (text, ⟨pos.after (sentinel :: (text ++ ['\n'])), rest⟩) := by
  have hskip : (Cursor.mk pos (sentinel :: (text ++ '\n' :: rest))).skip 1
      = ⟨pos.advance sentinel, text ++ '\n' :: rest⟩ := rfl
  -- no blank stands at the start of the text, nor at the line break behind an empty one
  have hblanks : (Cursor.mk (pos.advance sentinel) (text ++ '\n' :: rest)).takeUntil atNonBlank
      = ([], ⟨pos.advance sentinel, text ++ '\n' :: rest⟩) := by
    cases text with
    | nil => exact Cursor.takeUntil_of_stop rfl
    | cons c text =>
      have hc : ¬ c = ' ' ∧ ¬ c = '\t' := by simpa using hblank
      exact Cursor.takeUntil_of_stop (by simp [atNonBlank, hc.1, hc.2])
  have htake : (Cursor.mk (pos.advance sentinel) (text ++ '\n' :: rest)).takeUntil atNewline
      = (text, ⟨(pos.advance sentinel).after text, '\n' :: rest⟩) := takeUntil_newline hline
  have hdrop : dropReturn text = text := if_neg hreturn
  have hend : (Cursor.mk ((pos.advance sentinel).after text) ('\n' :: rest)).skip 1
      = ⟨pos.after (sentinel :: (text ++ ['\n'])), rest⟩ := by
    have hafter := Position.after_append (pos.advance sentinel) text ['\n']
    rw [Position.after_cons pos sentinel, hafter]
    rfl
  simp only [readLine, hskip, hblanks, htake, List.isEmpty_cons, Bool.false_eq_true, if_false,
    hdrop, hend]

/-- A directive line is one token, from its sentinel through its line break. -/
theorem next_line (hdirective : d.directiveStarts pos (d.line :: (text ++ '\n' :: rest)))
    (hblock : (text ++ ['\n']).head? ≠ some d.block)
    (hblank : text.head? ≠ some ' ' ∧ text.head? ≠ some '\t') (hline : '\n' ∉ text)
    (hreturn : text.getLast? ≠ some '\r') :
    next d ⟨pos, d.line :: (text ++ '\n' :: rest)⟩
      = (⟨.line, String.ofList text, pos⟩,
          ⟨pos.after (d.line :: (text ++ ['\n'])), rest⟩) := by
  have hpair : d.blockPair.startsIn (d.line :: (text ++ '\n' :: rest)) = false := by
    cases text <;> simpa [Delimiters.blockPair, Pair.startsIn] using hblock
  have hkind : kindAt d ⟨pos, d.line :: (text ++ '\n' :: rest)⟩ = .line := by
    rw [kindAt_eq, if_pos hdirective, hpair]
    rfl
  rw [next, hkind]
  simp only [readKind, readLine_eq hblank hline hreturn]

/-- Reading up to a pair takes the text in front of it, when the pair does not stand in the text
    before, nor begin at the text's last character. -/
theorem takeUntil_pair {p : Pair} (h : ¬ [p.first, p.second] <:+: text ++ [p.first])
    (pos : Position) :
    (Cursor.mk pos (text ++ p.first :: p.second :: rest)).takeUntil (atPair p)
      = (text, ⟨pos.after text, p.first :: p.second :: rest⟩) := by
  refine Cursor.takeUntil_eq (fun s hs hsuffix _ => ?_) (Or.inr fun _ => ?_) pos
  · rw [← Bool.not_eq_true, atPair_iff]
    rintro ⟨more, hmore⟩
    apply h
    obtain ⟨front, hfront⟩ := hsuffix
    -- the pair would be the first two characters of `s` with the one behind it
    rcases s with _ | ⟨c, _ | ⟨c', s⟩⟩
    · exact absurd rfl hs
    · obtain ⟨rfl, hnext⟩ := List.cons.inj hmore
      exact ⟨front, [], by rw [← hfront, ← (List.cons.inj hnext).1]; simp⟩
    · obtain ⟨rfl, hnext⟩ := List.cons.inj hmore
      exact ⟨front, s ++ [p.first], by rw [← hfront, ← (List.cons.inj hnext).1]; simp⟩
  · exact atPair_iff.mpr ⟨rest, rfl⟩

theorem skipLine_eq {line : List Char} (hline : '\n' ∉ line) :
    skipLine ⟨pos, line ++ '\n' :: rest⟩ = ⟨pos.after (line ++ ['\n']), rest⟩ := by
  rw [skipLine, takeUntil_newline hline, Position.after_append]
  rfl

/-- A directive block is read from behind its marker through the line of the closing marker. -/
theorem readBlock_eq {x y : Char} {comment comment' : List Char} (hcomment : '\n' ∉ comment)
    (hcomment' : '\n' ∉ comment') (hclosing : ¬ [d.line, d.block] <:+: text ++ [d.line]) :
    readBlock d ⟨pos, x :: y :: (comment ++ '\n' ::
        (text ++ d.line :: d.block :: (comment' ++ '\n' :: rest)))⟩
      = (text, ⟨pos.after (x :: y :: (comment ++ '\n' ::
          (text ++ d.line :: d.block :: (comment' ++ ['\n'])))), rest⟩) := by
  let start := (pos.after [x, y]).after (comment ++ ['\n'])
  have hopen : skipLine ((Cursor.mk pos (x :: y :: (comment ++ '\n' ::
      (text ++ d.line :: d.block :: (comment' ++ '\n' :: rest))))).skip 2)
      = ⟨start, text ++ d.line :: d.block :: (comment' ++ '\n' :: rest)⟩ := skipLine_eq hcomment
  have htake : (Cursor.mk start (text ++ d.line :: d.block :: (comment' ++ '\n' :: rest))).takeUntil
      (atPair d.blockPair)
      = (text, ⟨start.after text, d.line :: d.block :: (comment' ++ '\n' :: rest)⟩) :=
    takeUntil_pair hclosing start
  have hclose : skipLine ((Cursor.mk (start.after text)
      (d.line :: d.block :: (comment' ++ '\n' :: rest))).skip 2)
      = ⟨((start.after text).after [d.line, d.block]).after (comment' ++ ['\n']), rest⟩ :=
    skipLine_eq hcomment'
  have hpos : pos.after (x :: y :: (comment ++ '\n' ::
      (text ++ d.line :: d.block :: (comment' ++ ['\n']))))
        = ((start.after text).after [d.line, d.block]).after (comment' ++ ['\n']) := by
    simp [start, Position.after_append]
  simp only [readBlock, hopen, htake, hclose, hpos]

/-- A directive block is one token, with all of the lines that its markers stand on. -/
theorem next_block {comment comment' : List Char}
    (hdirective : d.directiveStarts pos (d.line :: d.block :: (comment ++ '\n' ::
      (text ++ d.line :: d.block :: (comment' ++ '\n' :: rest)))))
    (hcomment : '\n' ∉ comment) (hcomment' : '\n' ∉ comment')
    (hclosing : ¬ [d.line, d.block] <:+: text ++ [d.line]) :
    next d ⟨pos, d.line :: d.block :: (comment ++ '\n' ::
        (text ++ d.line :: d.block :: (comment' ++ '\n' :: rest)))⟩
      = (⟨.block, String.ofList text, pos⟩,
          ⟨pos.after (d.line :: d.block :: (comment ++ '\n' ::
            (text ++ d.line :: d.block :: (comment' ++ ['\n'])))), rest⟩) := by
  have hkind : kindAt d ⟨pos, d.line :: d.block :: (comment ++ '\n' ::
      (text ++ d.line :: d.block :: (comment' ++ '\n' :: rest)))⟩ = .block := by
    rw [kindAt_eq, if_pos hdirective, if_pos]
    exact Pair.startsIn_iff.mpr ⟨_, rfl⟩
  rw [next, hkind]
  simp only [readKind, readBlock_eq hcomment hcomment' hclosing]

/-- An expression is read from behind its opening pair through its closing pair. -/
theorem readExpression_eq {x y : Char}
    (hclosing : ¬ [d.closing.first, d.closing.second] <:+: text ++ [d.closing.first]) :
    readExpression d ⟨pos, x :: y :: (text ++ d.closing.first :: d.closing.second :: rest)⟩
      = (text, ⟨pos.after (x :: y :: (text ++ [d.closing.first, d.closing.second])), rest⟩) := by
  have hskip : (Cursor.mk pos
      (x :: y :: (text ++ d.closing.first :: d.closing.second :: rest))).skip 2
      = ⟨pos.after [x, y], text ++ d.closing.first :: d.closing.second :: rest⟩ := rfl
  have hend : (Cursor.mk ((pos.after [x, y]).after text)
      (d.closing.first :: d.closing.second :: rest)).skip 2
      = ⟨pos.after (x :: y :: (text ++ [d.closing.first, d.closing.second])), rest⟩ := by
    have hafter := Position.after_append (pos.after [x, y]) text
      [d.closing.first, d.closing.second]
    have hopen := Position.after_append pos [x, y] (text ++ [d.closing.first, d.closing.second])
    rw [List.cons_append, List.singleton_append] at hopen
    rw [hopen, hafter]
    rfl
  simp only [readExpression, hskip, takeUntil_pair hclosing, hend]

/-- An expression is one token, through its closing pair. -/
theorem next_expression (hdirective : d.line ≠ d.opening.first)
    (hclosing : ¬ [d.closing.first, d.closing.second] <:+: text ++ [d.closing.first]) :
    next d ⟨pos, d.opening.first :: d.opening.second ::
        (text ++ d.closing.first :: d.closing.second :: rest)⟩
      = (⟨.expression, String.ofList text, pos⟩,
          ⟨pos.after (d.opening.first :: d.opening.second ::
            (text ++ [d.closing.first, d.closing.second])), rest⟩) := by
  have hkind : kindAt d ⟨pos, d.opening.first :: d.opening.second ::
      (text ++ d.closing.first :: d.closing.second :: rest)⟩ = .expression := by
    rw [kindAt_eq, if_neg, if_pos]
    · simp [Pair.startsIn]
    · simp [Delimiters.directiveStarts, hdirective.symm]
  rw [next, hkind]
  simp only [readKind, readExpression_eq hclosing]

end Token

end Stencil
