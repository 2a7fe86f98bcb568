/-
  No marker of a template is overlooked.

  Every reader stops at the first place where its condition holds, so the condition holds nowhere
  in what it reads.  That says of a token's text that nothing stands in it which would have ended
  the token or begun another one (`Unmarked`), also where markers overlap themselves or each other.
  Every token but the last goes on to the mark that ends it (`Terminated`), because only the end of
  the template takes the place of such a mark (`ofTemplate_unmarked`).
-/
import Mathlib.Data.List.Chain
import Stencil.Proofs.Template.Chunks
import Stencil.Proofs.Template.Segments

namespace Stencil.Token

/-- Nothing that would have ended a token of the given kind stands in its text, which starts at
    `pos`. -/
def Unmarked (d : Delimiters) (pos : Position) (text : List Char) : TokenKind → Prop
  | .chunk =>
    text ≠ [] ∧ ¬ [d.opening.first, d.opening.second] <:+: text ∧
      ∀ front back, text = front ++ d.line :: back →
        d.lineStartOnly = true ∧ (pos.after front).column ≠ 0
  | .line => '\n' ∉ text ∧ text.head? ≠ some ' ' ∧ text.head? ≠ some '\t'
  | .block => ¬ [d.line, d.block] <:+: text
  | .expression => ¬ [d.closing.first, d.closing.second] <:+: text

/-- The segment of a token of the given kind and text goes on to the mark that ends the token. -/
def Terminated (d : Delimiters) (text segment : List Char) : TokenKind → Prop
  | .chunk => segment = text
  | .line =>
    ∃ blanks mark, (∀ c ∈ blanks, c = ' ' ∨ c = '\t') ∧ (mark = ['\n'] ∨ mark = ['\r', '\n']) ∧
      segment = d.line :: (blanks ++ text ++ mark)
  | .block =>
    ∃ comment comment', '\n' ∉ comment ∧ '\n' ∉ comment' ∧
      segment = d.line :: d.block :: (comment ++ '\n' ::
        (text ++ d.line :: d.block :: (comment' ++ ['\n'])))
  | .expression =>
    segment = d.opening.first :: d.opening.second ::
      (text ++ [d.closing.first, d.closing.second])

/-! ## What the readers leave out -/

/-- In what is read up to a pair there is no such pair. -/
theorem not_infix_takeUntil_pair (p : Pair) (cur : Cursor) :
    ¬ [p.first, p.second] <:+: (cur.takeUntil (atPair p)).1 := by
  rintro ⟨front, back, h⟩
  have hread : (cur.takeUntil (atPair p)).1 = front ++ p.first :: (p.second :: back) := by
    rw [← h, List.append_assoc]
    rfl
  have hstop := Cursor.not_stop_of_takeUntil_eq cur hread
  rw [← Bool.not_eq_true, atPair_iff] at hstop
  exact hstop ⟨_, rfl⟩

theorem unmarked_of_literal {d : Delimiters} {pos : Position} {text rest : List Char}
    (hne : text ≠ []) (h : d.Literal pos text rest) : Unmarked d pos text .chunk :=
  ⟨hne, h.not_infix, fun _ _ htext => h.line htext⟩

theorem readChunk_unmarked {d : Delimiters} {cur : Cursor} (hne : cur.rest ≠ [])
    (h : d.scriptStarts cur.pos cur.rest = false) :
    Unmarked d cur.pos (readChunk d cur).1 .chunk := by
  have hliteral : d.Literal cur.pos (readChunk d cur).1 (readChunk d cur).2.rest :=
    fun front c back hread => Cursor.not_stop_of_takeUntil_eq cur hread
  refine unmarked_of_literal ?_ hliteral
  intro hnil
  -- literal text that is read where no script starts shortens what is left
  have hlt := Cursor.takeUntil_length_lt hne h
  have happend := cur.takeUntil_append d.scriptStarts
  rw [readChunk] at hnil
  rw [hnil, List.nil_append] at happend
  rw [happend] at hlt
  exact absurd hlt (Nat.lt_irrefl _)

/-- Dropping a carriage return at the end brings no other character to the start. -/
theorem head?_of_dropReturn {text : List Char} {c : Char}
    (h : (dropReturn text).head? = some c) : text.head? = some c := by
  unfold dropReturn at h
  split at h
  · match text with
    | [_] => cases h
    | _ :: _ :: _ => exact h
  · exact h

theorem dropReturn_subset (text : List Char) : dropReturn text ⊆ text := by
  unfold dropReturn
  split
  · exact List.dropLast_subset text
  · exact List.Subset.refl text

theorem readLine_unmarked (d : Delimiters) (cur : Cursor) :
    Unmarked d cur.pos (readLine cur).1 .line := by
  have hstart := Cursor.takeUntil_stops atNonBlank (cur.skip 1)
  generalize hcur : ((cur.skip 1).takeUntil atNonBlank).2 = start at hstart
  have hline := newline_not_mem_takeUntil start
  -- the text begins with what stands behind the blanks
  have hhead : ∀ c, (start.takeUntil atNewline).1.head? = some c → c ≠ ' ' ∧ c ≠ '\t' := by
    intro c hc
    have hrest : start.rest.head? = some c := by
      rw [← start.takeUntil_append atNewline, List.head?_append, hc]
      rfl
    rcases hstart with h | h
    · rw [h] at hrest
      cases hrest
    · rw [atNonBlank, Cursor.peek?, hrest] at h
      simpa using h
  simp only [readLine, hcur]
  split
  · exact ⟨hline, fun h => (hhead _ h).1 rfl, fun h => (hhead _ h).2 rfl⟩
  · exact ⟨fun h => hline (dropReturn_subset _ h),
      fun h => (hhead _ (head?_of_dropReturn h)).1 rfl,
      fun h => (hhead _ (head?_of_dropReturn h)).2 rfl⟩

theorem kindAt_eq_chunk_iff {d : Delimiters} {cur : Cursor} :
    kindAt d cur = .chunk ↔ d.scriptStarts cur.pos cur.rest = false := by
  rw [kindAt_eq, Delimiters.scriptStarts]
  cases d.directiveStarts cur.pos cur.rest <;> cases d.opening.startsIn cur.rest <;>
    cases d.blockPair.startsIn cur.rest <;> simp

/-- One step of the cutting overlooks no marker. -/
theorem next_unmarked (d : Delimiters) {cur : Cursor} (hne : cur.rest ≠ []) :
    Unmarked d (next d cur).1.pos (next d cur).1.text.toList (next d cur).1.kind := by
  simp only [next, String.toList_ofList]
  cases hkind : kindAt d cur with
  | chunk => exact readChunk_unmarked hne (kindAt_eq_chunk_iff.mp hkind)
  | line => exact readLine_unmarked d cur
  | block => exact not_infix_takeUntil_pair d.blockPair (skipLine (cur.skip 2))
  | expression => exact not_infix_takeUntil_pair d.closing (cur.skip 2)

/-- Behind literal text script starts, if anything is left. -/
theorem kindAt_behind_chunk {d : Delimiters} {cur : Cursor} (h : kindAt d cur = .chunk)
    (hne : (next d cur).2.rest ≠ []) : kindAt d (next d cur).2 ≠ .chunk := by
  simp only [next, h] at hne ⊢
  have hstarts := (Cursor.takeUntil_stops d.scriptStarts cur).resolve_left hne
  intro hchunk
  rw [kindAt_eq_chunk_iff] at hchunk
  exact absurd (hstarts.symm.trans hchunk) (by simp)

/-! ## The whole template -/

theorem scan_unmarked (d : Delimiters) (cur : Cursor) :
    ∀ t ∈ scan d cur, Unmarked d t.pos t.text.toList t.kind := by
  fun_induction scan d cur with
  | case1 cur hmore step ih =>
    exact List.forall_mem_cons.mpr ⟨next_unmarked d (Cursor.hasNext_iff.mp hmore), ih⟩
  | case2 => simp

/-- What comes first is the token that starts at the cursor. -/
theorem mem_head?_scan {d : Delimiters} {cur : Cursor} {t : Token} (h : t ∈ (scan d cur).head?) :
    cur.rest ≠ [] ∧ t = (next d cur).1 := by
  rw [scan] at h
  split at h
  · next hmore => exact ⟨Cursor.hasNext_iff.mp hmore, (Option.some.inj h).symm⟩
  · cases h

/-- No literal text stands behind literal text. -/
theorem scan_isChain (d : Delimiters) (cur : Cursor) :
    (scan d cur).IsChain fun t t' => t.kind = .chunk → t'.kind ≠ .chunk := by
  fun_induction scan d cur with
  | case2 => exact .nil
  | case1 cur hmore step ih =>
    refine List.isChain_cons.mpr ⟨fun t ht hkind => ?_, ih⟩
    obtain ⟨hne, rfl⟩ := mem_head?_scan ht
    exact kindAt_behind_chunk hkind hne

/-- A rest of a line in front of something that follows has its line break. -/
theorem LineRest.of_ne_nil {part rest : List Char} (h : LineRest part rest) (hne : rest ≠ []) :
    ∃ line, '\n' ∉ line ∧ part = line ++ ['\n'] := by
  obtain ⟨line, hline, hpart | ⟨-, hrest⟩⟩ := h
  · exact ⟨line, hline, hpart⟩
  · exact absurd hrest hne

/-- Only the end of the template takes the place of the mark that ends a token. -/
theorem Segment.terminated {d : Delimiters} {kind : TokenKind} {text segment rest : List Char}
    (h : Segment d kind text segment rest) (hne : rest ≠ []) : Terminated d text segment kind := by
  cases h with
  | chunk => rfl
  | @line blanks text mark rest hblanks hmark =>
    refine ⟨blanks, mark, hblanks, ?_, rfl⟩
    rcases hmark with h | h | ⟨-, h⟩
    · exact Or.inl h
    · exact Or.inr h
    · exact absurd h hne
  | @block comment text mark rest hcomment hmark =>
    obtain ⟨line, hline, rfl⟩ := hcomment.of_ne_nil (by simp [hne])
    rcases hmark with ⟨closing, rfl, hclosing⟩ | ⟨-, h⟩
    · obtain ⟨line', hline', rfl⟩ := hclosing.of_ne_nil hne
      exact ⟨line, line', hline, hline', by simp [Delimiters.blockPair]⟩
    · exact absurd h hne
  | expression hmark =>
    rcases hmark with rfl | ⟨-, h⟩
    · rfl
    · exact absurd h hne

/-- **No marker is overlooked.**  For all delimiters and every template no two literal texts stand
    side by side, and there is one segment of the template for each token, as above, such that
    nothing stands in a token's text that would have ended it, and every token but the last goes on
    to the mark that ends it. -/
theorem ofTemplate_unmarked (d : Delimiters) (template : String) :
    (ofTemplate d template).IsChain (fun t t' => t.kind = .chunk → t'.kind ≠ .chunk) ∧
    ∃ segments : List (List Char),
      template.toList = segments.flatten ∧ segments.length = (ofTemplate d template).length ∧
      ∀ (i : Nat) (t : Token) (segment : List Char),
        (ofTemplate d template)[i]? = some t → segments[i]? = some segment →
          t.pos = Position.behind (segments.take i).flatten ∧
          Segment d t.kind t.text.toList segment (segments.drop (i + 1)).flatten ∧
          Unmarked d t.pos t.text.toList t.kind ∧
          (i + 1 < segments.length → Terminated d t.text.toList segment t.kind) := by
  refine ⟨scan_isChain d _, ?_⟩
  obtain ⟨segments, htext, hlength, hall⟩ := (scan_cuts d (.ofString template) [] rfl).segments
  refine ⟨segments, htext, hlength, fun i t segment ht hsegment => ?_⟩
  obtain ⟨-, hpos, hstands⟩ := hall i t segment ht hsegment
  refine ⟨hpos, hstands, scan_unmarked d _ t (List.mem_of_getElem? ht), fun hlast => ?_⟩
  -- the segment of the token behind this one is part of what follows
  refine hstands.terminated fun hnil => ?_
  have hbehind : i + 1 < (scan d (.ofString template)).length := hlength ▸ hlast
  obtain ⟨hne, -, -⟩ := hall (i + 1) _ _ (List.getElem?_eq_getElem hbehind)
    (List.getElem?_eq_getElem hlast)
  rw [List.drop_eq_getElem_cons hlast, List.flatten_cons, List.append_eq_nil_iff] at hnil
  exact hne hnil.1

end Stencil.Token
