/-
  Cutting a template undoes writing it.

  With the standard delimiters every kind of token has its way of being written (`written`).  A
  token whose text holds nothing that would end it earlier, and which is a directive in the first
  column only, is cut off exactly where it was written (`next_written`), also where its text ends in
  a part of the marker behind it.  So the tokens of what was written are those that were written,
  each in the place where it was put (`ofTemplate_written`).
-/
import Stencil.Proofs.Template.Markers

namespace Stencil.Token

/-- How a token is written with the standard delimiters. -/
def written (t : Token) : List Char :=
  let text := t.text.toList
  match t.kind with
  | .chunk => text
  | .line => '~' :: (text ++ ['\n'])
  | .block => '~' :: '-' :: '\n' :: (text ++ ['~', '-', '\n'])
  | .expression => '#' :: '|' :: (text ++ ['|', '#'])

/-- Where the token behind the given ones is written. -/
def placeBehind (tokens : List Token) : Position := Position.behind (tokens.flatMap written)

/-- What a token has to be like to be written at `pos`. -/
structure Writable (pos : Position) (t : Token) : Prop where
  unmarked : Unmarked .standard pos t.text.toList t.kind
  column_eq : t.kind = .line ∨ t.kind = .block → pos.column = 0
  /-- The sentinel and the text of a line make up no block marker, and the text does not end in
      what would belong to the line break. -/
  line : t.kind = .line → t.text.toList.head? ≠ some '-' ∧ t.text.toList.getLast? ≠ some '\r'

/-! ## One token -/

theorem Writable.written_ne_nil {pos : Position} {t : Token} (h : t.Writable pos) :
    t.written ≠ [] := by
  obtain ⟨kind, text, p⟩ := t
  cases kind with
  | chunk => exact h.unmarked.1
  | line => exact List.cons_ne_nil _ _
  | block => exact List.cons_ne_nil _ _
  | expression => exact List.cons_ne_nil _ _

theorem directiveStarts_standard {pos : Position} (hpos : pos.column = 0) (rest : List Char) :
    Delimiters.standard.directiveStarts pos ('~' :: rest) = true := by
  rw [Delimiters.directiveStarts, hpos]
  rfl

/-- Script starts where a token is written that is no literal text. -/
theorem Writable.starts {pos : Position} {t : Token} (h : t.Writable pos) (hkind : t.kind ≠ .chunk)
    (rest : List Char) : Delimiters.standard.scriptStarts pos (t.written ++ rest) = true := by
  obtain ⟨kind, text, p⟩ := t
  rw [Delimiters.scriptStarts, Bool.or_eq_true]
  cases kind with
  | chunk => exact absurd rfl hkind
  | line => exact Or.inl (directiveStarts_standard (h.column_eq (Or.inl rfl)) _)
  | block => exact Or.inl (directiveStarts_standard (h.column_eq (Or.inr rfl)) _)
  | expression => exact Or.inr rfl

/-- Where script starts, the second character of an opening pair does not stand. -/
theorem head?_ne_of_starts {pos : Position} {rest : List Char}
    (h : Delimiters.standard.scriptStarts pos rest = true) : rest.head? ≠ some '|' := by
  intro hhead
  obtain ⟨more, rfl⟩ := List.head?_eq_some_iff.mp hhead
  cases more <;> cases h

/-- A pair does not begin at the last character of a text in front of it, because its characters
    differ. -/
theorem not_infix_append {x y : Char} {text : List Char} (hxy : y ≠ x)
    (h : ¬ [x, y] <:+: text) : ¬ [x, y] <:+: text ++ [x] :=
  fun hpair => h (pair_infix_of_append hxy hpair)

/-- **A token is cut off where it was written**, in front of anything; literal text needs to end
    where the template ends or script starts. -/
theorem next_written {pos : Position} {t : Token} {rest : List Char} (h : t.Writable pos)
    (hrest : t.kind = .chunk →
      rest = [] ∨ Delimiters.standard.scriptStarts (pos.after t.text.toList) rest = true) :
    next .standard ⟨pos, t.written ++ rest⟩ = ({ t with pos := pos }, ⟨pos.after t.written, rest⟩) := by
  obtain ⟨kind, text, p⟩ := t
  obtain ⟨hunmarked, hcolumn, hline⟩ := h
  cases kind with
  | chunk =>
    obtain ⟨hne, hpair, hsentinel⟩ := hunmarked
    have hend := hrest rfl
    have hhead : rest.head? ≠ some '|' := by
      rcases hend with rfl | hstarts
      · simp
      · exact head?_ne_of_starts hstarts
    have hnext := next_chunk hne (Delimiters.literal_of hpair hhead hsentinel) hend
    rwa [String.ofList_toList] at hnext
  | line =>
    obtain ⟨hnewline, hblank⟩ := hunmarked
    obtain ⟨hblock, hreturn⟩ := hline rfl
    have hpos := hcolumn (Or.inl rfl)
    have hmarker : (text.toList ++ ['\n']).head? ≠ some '-' := by
      cases htext : text.toList with
      | nil => decide
      | cons c more => rwa [htext] at hblock
    have hnext : next .standard ⟨pos, '~' :: (text.toList ++ '\n' :: rest)⟩
        = (⟨.line, String.ofList text.toList, pos⟩,
            ⟨pos.after ('~' :: (text.toList ++ ['\n'])), rest⟩) :=
      next_line (directiveStarts_standard hpos _) hmarker hblank hnewline hreturn
    rw [String.ofList_toList] at hnext
    simpa [written] using hnext
  | block =>
    have hpos := hcolumn (Or.inr rfl)
    have hnext : next .standard ⟨pos, '~' :: '-' :: ([] ++ '\n' ::
        (text.toList ++ '~' :: '-' :: ([] ++ '\n' :: rest)))⟩
        = (⟨.block, String.ofList text.toList, pos⟩,
            ⟨pos.after ('~' :: '-' :: ([] ++ '\n' ::
              (text.toList ++ '~' :: '-' :: ([] ++ ['\n'])))), rest⟩) :=
      next_block (directiveStarts_standard hpos _) (by simp) (by simp)
        (not_infix_append (by decide) hunmarked)
    rw [String.ofList_toList] at hnext
    simpa [written] using hnext
  | expression =>
    have hnext : next .standard ⟨pos, '#' :: '|' :: (text.toList ++ '|' :: '#' :: rest)⟩
        = (⟨.expression, String.ofList text.toList, pos⟩,
            ⟨pos.after ('#' :: '|' :: (text.toList ++ ['|', '#'])), rest⟩) :=
      next_expression (by decide) (not_infix_append (by decide) hunmarked)
    rw [String.ofList_toList] at hnext
    simpa [written] using hnext

/-! ## All tokens -/

theorem placeBehind_append (before : List Token) (t : Token) :
    (placeBehind before).after t.written = placeBehind (before ++ [t]) := by
  rw [placeBehind, Position.after_behind, placeBehind, List.flatMap_append, List.flatMap_singleton]

/-- From any place on, what was written is cut into the tokens that were written. -/
theorem scan_written (before : List Token) {tokens : List Token}
    (hchunks : tokens.IsChain fun t t' => t.kind = .chunk → t'.kind ≠ .chunk)
    (h : ∀ (i : Nat) (t : Token), tokens[i]? = some t → t.Writable (placeBehind (before ++ tokens.take i))) :
    scan .standard ⟨placeBehind before, tokens.flatMap written⟩
      = tokens.mapIdx fun i t => { t with pos := placeBehind (before ++ tokens.take i) } := by
  induction tokens generalizing before with
  | nil => exact scan_nil _ _
  | cons t tokens ih =>
    obtain ⟨hnext, hchain⟩ := List.isChain_cons.mp hchunks
    have ht : t.Writable (placeBehind before) := by simpa using h 0 t rfl
    have htokens : ∀ (i : Nat) (t' : Token), tokens[i]? = some t' →
        t'.Writable (placeBehind (before ++ [t] ++ tokens.take i)) := by
      intro i t' ht'
      have := h (i + 1) t' (by simpa using ht')
      rwa [List.take_succ_cons, List.append_cons] at this
    -- what stands behind literal text is the end, or a token of another kind
    have hstop : t.kind = .chunk → tokens.flatMap written = [] ∨
        Delimiters.standard.scriptStarts ((placeBehind before).after t.text.toList)
          (tokens.flatMap written) = true := by
      intro hkind
      have hwritten : t.written = t.text.toList := by rw [written, hkind]
      cases tokens with
      | nil => exact Or.inl rfl
      | cons t' tokens =>
        have ht' := htokens 0 t' rfl
        rw [List.take_zero, List.append_nil, ← placeBehind_append, hwritten] at ht'
        exact Or.inr (ht'.starts (hnext t' rfl hkind) _)
    have hne : t.written ++ tokens.flatMap written ≠ [] := by
      simp [ht.written_ne_nil]
    rw [List.flatMap_cons, scan_of_next hne (next_written ht hstop), placeBehind_append,
      ih (before ++ [t]) hchain htokens, List.mapIdx_cons]
    simp

/-- **Cutting undoes writing.**  Where no two literal texts stand side by side and every token can
    be written in its place, the tokens of the written template are those that were written, each
    at the place where it was written. -/
theorem ofTemplate_written {tokens : List Token}
    (hchunks : tokens.IsChain fun t t' => t.kind = .chunk → t'.kind ≠ .chunk)
    (h : ∀ (i : Nat) (t : Token), tokens[i]? = some t → t.Writable (placeBehind (tokens.take i))) :
    ofTemplate .standard (String.ofList (tokens.flatMap written))
      = tokens.mapIdx fun i t => { t with pos := placeBehind (tokens.take i) } := by
  rw [ofTemplate, Cursor.ofString, String.toList_ofList]
  exact scan_written [] hchunks h

/-- Literal text in which no expression begins and no line begins with a sentinel can be written. -/
theorem writable_chunk {pos p : Position} {text : String} (hne : text.toList ≠ [])
    (hpair : ¬ ['#', '|'] <:+: text.toList) (hstart : pos.column = 0 → text.toList.head? ≠ some '~')
    (hbreak : ¬ ['\n', '~'] <:+: text.toList) : Writable pos ⟨.chunk, text, p⟩ := by
  have hliteral : Delimiters.standard.Literal pos text.toList [] :=
    Delimiters.literal_standard hpair (by simp) hstart hbreak
  exact ⟨unmarked_of_literal hne hliteral, by simp, by simp⟩

/-- Texts that end in the first character of the marker behind them, a sentinel inside a line, and
    literal text in the first column that could go on with a marker before it. -/
theorem ofTemplate_written_overlaps :
    ofTemplate .standard "a##|x||#~\n~b\n~-\nc~~-\n-#|#|#"
      = [⟨.chunk, "a#", ⟨0, 0⟩⟩, ⟨.expression, "x|", ⟨0, 2⟩⟩, ⟨.chunk, "~\n", ⟨0, 8⟩⟩,
         ⟨.line, "b", ⟨1, 0⟩⟩, ⟨.block, "c~", ⟨2, 0⟩⟩, ⟨.chunk, "-", ⟨4, 0⟩⟩,
         ⟨.expression, "#", ⟨4, 1⟩⟩] := by
  let tokens : List Token :=
    [⟨.chunk, "a#", .start⟩, ⟨.expression, "x|", .start⟩, ⟨.chunk, "~\n", .start⟩,
     ⟨.line, "b", .start⟩, ⟨.block, "c~", .start⟩, ⟨.chunk, "-", .start⟩,
     ⟨.expression, "#", .start⟩]
  have hwritable : ∀ (i : Nat) (t : Token), tokens[i]? = some t →
      t.Writable (placeBehind (tokens.take i)) := by
    rintro (_ | _ | _ | _ | _ | _ | _ | i) t ht
    · cases ht
      exact writable_chunk (by decide +kernel) (by decide +kernel) (by decide +kernel)
        (by decide +kernel)
    · cases ht
      exact ⟨by simp only [Unmarked]; decide +kernel, by simp, by simp⟩
    · cases ht
      exact writable_chunk (by decide +kernel) (by decide +kernel) (by decide +kernel)
        (by decide +kernel)
    · cases ht
      exact ⟨⟨by decide +kernel, by decide +kernel⟩, by decide +kernel, by decide +kernel⟩
    · cases ht
      exact ⟨by simp only [Unmarked]; decide +kernel, by decide +kernel, by simp⟩
    · cases ht
      exact writable_chunk (by decide +kernel) (by decide +kernel) (by decide +kernel)
        (by decide +kernel)
    · cases ht
      exact ⟨by simp only [Unmarked]; decide +kernel, by simp, by simp⟩
    · cases ht
  have h := @ofTemplate_written tokens (by decide) hwritable
  have htext : String.ofList (tokens.flatMap written) = "a##|x||#~\n~b\n~-\nc~~-\n-#|#|#" := by
    decide +kernel
  rw [htext] at h
  rw [h]
  decide +kernel

end Stencil.Token
