/-
  The tokens of a template make up the template.

  Every token stands for a segment of the template: its text with the delimiters around it, and
  for directives with what is left of the lines they stand on.  Cutting a template loses nothing,
  doubles nothing and moves nothing: the segments in the order of their tokens are the template,
  and every token carries the place of its segment's first character (`ofTemplate_segments`).
-/
import Stencil.Proofs.Text.Passes
import Stencil.Template.Token

namespace Stencil.Token

/-! ## Segments -/

/-- The end of a directive line in front of `rest`: a line break that may have a carriage return,
    or nothing where the template ends. -/
def EndsLine (mark rest : List Char) : Prop :=
  mark = ['\n'] ∨ mark = ['\r', '\n'] ∨ mark = [] ∧ rest = []

/-- What is left of a line in front of `rest`, with its line break; the line break is missing only
    where the template ends. -/
def LineRest (part rest : List Char) : Prop :=
  ∃ line, '\n' ∉ line ∧ (part = line ++ ['\n'] ∨ part = line ∧ rest = [])

/-- The pair `p` in front of `rest`, missing only where the template ends. -/
def PairOrEnd (p : Pair) (mark rest : List Char) : Prop :=
  mark = [p.first, p.second] ∨ mark = [] ∧ rest = []

/-- The marker that closes a block, with what is left of its line; missing only where the template
    ends. -/
def ClosesBlock (p : Pair) (mark rest : List Char) : Prop :=
  (∃ comment, mark = p.first :: p.second :: comment ∧ LineRest comment rest) ∨
    mark = [] ∧ rest = []

/-- The stretch of a template that a token of the given kind and text stands for, where `rest` is
    what follows it in the template. -/
inductive Segment (d : Delimiters) : TokenKind → List Char → List Char → List Char → Prop where
  | chunk {text rest : List Char} : Segment d .chunk text text rest
  | line {blanks text mark rest : List Char} (hblanks : ∀ c ∈ blanks, c = ' ' ∨ c = '\t')
      (hmark : EndsLine mark rest) :
      Segment d .line text (d.line :: (blanks ++ text ++ mark)) rest
  | block {comment text mark rest : List Char} (hcomment : LineRest comment (text ++ mark ++ rest))
      (hmark : ClosesBlock d.blockPair mark rest) :
      Segment d .block text (d.line :: d.block :: (comment ++ text ++ mark)) rest
  | expression {text mark rest : List Char} (hmark : PairOrEnd d.closing mark rest) :
      Segment d .expression text (d.opening.first :: d.opening.second :: (text ++ mark)) rest

/-! ## What the readers pass -/

/-- A line break or the end of the template stands where reading up to a line break ends. -/
theorem takeUntil_newline_rest (cur : Cursor) :
    (cur.takeUntil atNewline).2.rest = [] ∨
      ∃ rest, (cur.takeUntil atNewline).2.rest = '\n' :: rest := by
  rcases Cursor.takeUntil_stops atNewline cur with h | h
  · exact Or.inl h
  · cases hr : (cur.takeUntil atNewline).2.rest with
    | nil => exact Or.inl rfl
    | cons c rest =>
      rw [hr] at h
      have hc : c = '\n' := by simpa [atNewline] using h
      exact Or.inr ⟨rest, by rw [hc]⟩

theorem newline_not_mem_takeUntil (cur : Cursor) : '\n' ∉ (cur.takeUntil atNewline).1 := by
  intro h
  have := Cursor.not_stop_of_mem_takeUntil (p := (· == '\n')) (fun _ _ _ => by simp [atNewline])
    cur _ h
  simp at this

/-- Skipping a line passes what is left of it and its line break. -/
theorem skipLine_passes (cur : Cursor) :
    ∃ part, cur.Passes part (skipLine cur) ∧ LineRest part (skipLine cur).rest := by
  have hline := newline_not_mem_takeUntil cur
  have hpass := Cursor.Passes.takeUntil atNewline cur
  rcases takeUntil_newline_rest cur with h | ⟨rest, h⟩
  · -- the template ends on this line
    have hend : skipLine cur = (cur.takeUntil atNewline).2 := Cursor.skip_of_rest_eq_nil h 1
    rw [hend]
    exact ⟨_, hpass, _, hline, Or.inr ⟨rfl, h⟩⟩
  · exact ⟨_, hpass.trans (Cursor.Passes.skip ['\n'] h), _, hline, Or.inl rfl⟩

/-- A line break and the carriage return that may be dropped before it make up the mark behind a
    directive line. -/
theorem dropReturn_append (text rest : List Char) :
    ∃ mark, EndsLine mark rest ∧ text ++ ['\n'] = dropReturn text ++ mark := by
  by_cases h : text.getLast? = some '\r'
  · obtain ⟨front, rfl⟩ := List.getLast?_eq_some_iff.mp h
    exact ⟨['\r', '\n'], Or.inr (Or.inl rfl), by simp [dropReturn]⟩
  · exact ⟨['\n'], Or.inl rfl, by simp [dropReturn, h]⟩

/-- A directive line is read as its segment. -/
theorem readLine_segment (d : Delimiters) {cur : Cursor} {rest : List Char}
    (hrest : cur.rest = d.line :: rest) :
    ∃ segment, cur.Passes segment (readLine cur).2 ∧
      Segment d .line (readLine cur).1 segment (readLine cur).2.rest := by
  have hmark := Cursor.Passes.skip [d.line] hrest
  have hblanks := Cursor.Passes.takeUntil atNonBlank (cur.skip 1)
  have hall : ∀ c ∈ ((cur.skip 1).takeUntil atNonBlank).1, c = ' ' ∨ c = '\t' := by
    intro c hc
    have := Cursor.not_stop_of_mem_takeUntil (p := fun c => !(c == ' ' || c == '\t'))
      (fun _ _ _ => by simp [atNonBlank]) _ c hc
    simpa [Decidable.or_iff_not_imp_left] using this
  generalize hstart : ((cur.skip 1).takeUntil atNonBlank).2 = start at hblanks
  have hpass := (hmark.trans hblanks).trans (Cursor.Passes.takeUntil atNewline start)
  simp only [readLine, hstart]
  rcases takeUntil_newline_rest start with h | ⟨rest', h⟩
  · -- the template ends on this line
    rw [h, List.isEmpty_nil, if_pos rfl]
    have hsegment : Segment d .line (start.takeUntil atNewline).1 _ [] :=
      Segment.line hall (Or.inr (Or.inr ⟨rfl, rfl⟩))
    exact ⟨_, hpass, by simpa [h] using hsegment⟩
  · rw [h, List.isEmpty_cons, if_neg (by simp)]
    obtain ⟨mark, hend, heq⟩ := dropReturn_append (start.takeUntil atNewline).1
      ((start.takeUntil atNewline).2.skip 1).rest
    refine ⟨_, hpass.trans (Cursor.Passes.skip ['\n'] h), ?_⟩
    have hsegment : Segment d .line (dropReturn (start.takeUntil atNewline).1) _ _ :=
      Segment.line hall hend
    rw [List.append_assoc _ _ mark, ← heq] at hsegment
    simpa using hsegment

/-- Where reading up to a pair ends, the pair stands or the template ends; either way skipping
    the pair passes it. -/
theorem takeUntil_pair_passes (p : Pair) (cur : Cursor) :
    ∃ mark, PairOrEnd p mark ((cur.takeUntil (atPair p)).2.skip 2).rest ∧
      cur.Passes ((cur.takeUntil (atPair p)).1 ++ mark) ((cur.takeUntil (atPair p)).2.skip 2) := by
  have hpass := Cursor.Passes.takeUntil (atPair p) cur
  rcases Cursor.takeUntil_stops (atPair p) cur with h | h
  · rw [Cursor.skip_of_rest_eq_nil h]
    exact ⟨[], Or.inr ⟨rfl, h⟩, (List.append_nil _).symm ▸ hpass⟩
  · obtain ⟨rest, hr⟩ := atPair_iff.mp h
    exact ⟨_, Or.inl rfl, hpass.trans (Cursor.Passes.skip [p.first, p.second] hr)⟩

/-- An expression is read as its segment. -/
theorem readExpression_segment (d : Delimiters) {cur : Cursor} {rest : List Char}
    (hrest : cur.rest = d.opening.first :: d.opening.second :: rest) :
    ∃ segment, cur.Passes segment (readExpression d cur).2 ∧
      Segment d .expression (readExpression d cur).1 segment (readExpression d cur).2.rest := by
  have hopen := Cursor.Passes.skip [d.opening.first, d.opening.second] hrest
  obtain ⟨mark, hmark, hpass⟩ := takeUntil_pair_passes d.closing (cur.skip 2)
  exact ⟨_, hopen.trans hpass, Segment.expression hmark⟩

/-- A directive block is read as its segment. -/
theorem readBlock_segment (d : Delimiters) {cur : Cursor} {rest : List Char}
    (hrest : cur.rest = d.line :: d.block :: rest) :
    ∃ segment, cur.Passes segment (readBlock d cur).2 ∧
      Segment d .block (readBlock d cur).1 segment (readBlock d cur).2.rest := by
  have hopen := Cursor.Passes.skip [d.line, d.block] hrest
  obtain ⟨comment, hline, hcomment⟩ := skipLine_passes (cur.skip 2)
  generalize hstart : skipLine (cur.skip 2) = start at hline hcomment
  obtain ⟨mark, hmark, htext⟩ := takeUntil_pair_passes d.blockPair start
  obtain ⟨part, hpart, hend⟩ := skipLine_passes ((start.takeUntil (atPair d.blockPair)).2.skip 2)
  have hpass := ((hopen.trans hline).trans htext).trans hpart
  have hread : readBlock d cur = ((start.takeUntil (atPair d.blockPair)).1,
      skipLine ((start.takeUntil (atPair d.blockPair)).2.skip 2)) := by
    simp only [readBlock, hstart]
  have hstop := (htext.trans hpart).rest_eq
  rw [hread]
  refine ⟨_, hpass, ?_⟩
  -- the closing marker is there with its line, or the template has ended before it
  have hclose : ClosesBlock d.blockPair (mark ++ part)
      (skipLine ((start.takeUntil (atPair d.blockPair)).2.skip 2)).rest := by
    rcases hmark with rfl | ⟨rfl, hnone⟩
    · exact Or.inl ⟨part, rfl, hend⟩
    · have h := hpart.rest_eq
      rw [hnone] at h
      obtain ⟨hpart, hrest⟩ := List.append_eq_nil_iff.mp h.symm
      exact Or.inr ⟨by rw [hpart]; rfl, hrest⟩
  have hfirst : LineRest comment ((start.takeUntil (atPair d.blockPair)).1 ++ (mark ++ part) ++
      (skipLine ((start.takeUntil (atPair d.blockPair)).2.skip 2)).rest) := by
    rw [← List.append_assoc, ← hstop]
    exact hcomment
  simpa using Segment.block hfirst hclose

/-- Literal text is its own segment. -/
theorem readChunk_segment (d : Delimiters) (cur : Cursor) :
    cur.Passes (readChunk d cur).1 (readChunk d cur).2 ∧
      Segment d .chunk (readChunk d cur).1 (readChunk d cur).1 (readChunk d cur).2.rest :=
  ⟨Cursor.Passes.takeUntil _ cur, Segment.chunk⟩

/-! ## The whole template -/

theorem line_of_directiveStarts {d : Delimiters} {pos : Position} {rest : List Char}
    (h : d.directiveStarts pos rest = true) : ∃ more, rest = d.line :: more := by
  cases rest with
  | nil => simp [Delimiters.directiveStarts] at h
  | cons c more =>
    have hc : c = d.line := by
      simp only [Delimiters.directiveStarts, List.head?_cons, Bool.and_eq_true] at h
      simpa using h.1
    exact ⟨more, by rw [hc]⟩

/-- One step of the cutting: the token that starts at the cursor carries its place, and the cursor
    passes the token's segment. -/
theorem next_segment (d : Delimiters) (cur : Cursor) :
    ∃ segment, cur.Passes segment (next d cur).2 ∧
      Segment d (next d cur).1.kind (next d cur).1.text.toList segment (next d cur).2.rest := by
  simp only [next, String.toList_ofList]
  cases hkind : kindAt d cur with
  | chunk => exact ⟨_, readChunk_segment d cur⟩
  | line =>
    obtain ⟨rest, hrest⟩ : ∃ rest, cur.rest = d.line :: rest := by
      by_cases h : d.directiveStarts cur.pos cur.rest = true
      · exact line_of_directiveStarts h
      · simp only [kindAt_eq, if_neg h] at hkind
        split at hkind <;> simp at hkind
    exact readLine_segment d hrest
  | block =>
    obtain ⟨rest, hrest⟩ : ∃ rest, cur.rest = d.line :: d.block :: rest := by
      by_cases h : d.blockPair.startsIn cur.rest = true
      · exact Pair.startsIn_iff.mp h
      · simp only [kindAt_eq, if_neg h] at hkind
        split at hkind
        · simp at hkind
        · split at hkind <;> simp at hkind
    exact readBlock_segment d hrest
  | expression =>
    obtain ⟨rest, hrest⟩ : ∃ rest, cur.rest = d.opening.first :: d.opening.second :: rest := by
      by_cases h : d.opening.startsIn cur.rest = true
      · exact Pair.startsIn_iff.mp h
      · simp only [kindAt_eq, if_neg h] at hkind
        split at hkind
        · split at hkind <;> simp at hkind
        · simp at hkind
    exact readExpression_segment d hrest

/-- The tokens `tokens` cut the text `text`, in front of which `before` stands. -/
inductive Cuts (d : Delimiters) : List Char → List Token → List Char → Prop where
  | nil {before : List Char} : Cuts d before [] []
  | cons {before segment rest : List Char} {t : Token} {tokens : List Token}
      (hne : segment ≠ []) (hpos : t.pos = Position.behind before)
      (hsegment : Segment d t.kind t.text.toList segment rest)
      (hrest : Cuts d (before ++ segment) tokens rest) :
      Cuts d before (t :: tokens) (segment ++ rest)

/-- The run of the cutting: from any place on, the tokens cut what is left of the template. -/
theorem scan_cuts (d : Delimiters) (cur : Cursor) (before : List Char)
    (hpos : cur.pos = Position.behind before) : Cuts d before (scan d cur) cur.rest := by
  fun_induction scan d cur generalizing before with
  | case1 cur hmore step ih =>
    obtain ⟨segment, hpass, hsegment⟩ := next_segment d cur
    -- every step of the cutting shortens what is left
    have hne : segment ≠ [] := by
      rintro rfl
      have hlt := next_length_lt d (Cursor.hasNext_iff.mp hmore)
      rw [hpass.rest_eq] at hlt
      simp at hlt
    have hstop : step.2.pos = Position.behind (before ++ segment) := by
      rw [← Position.after_behind, ← hpos]
      exact hpass.pos_eq
    rw [hpass.rest_eq]
    exact Cuts.cons hne hpos hsegment (ih _ hstop)
  | case2 cur hmore =>
    rw [Cursor.hasNext_iff, ne_eq, Decidable.not_not] at hmore
    rw [hmore]
    exact Cuts.nil

/-- Tokens that cut a text have a segment each, one behind the other. -/
theorem Cuts.segments {d : Delimiters} {before text : List Char} {tokens : List Token}
    (h : Cuts d before tokens text) :
    ∃ segments : List (List Char), text = segments.flatten ∧ segments.length = tokens.length ∧
      ∀ (i : Nat) (t : Token) (segment : List Char),
        tokens[i]? = some t → segments[i]? = some segment →
          segment ≠ [] ∧ t.pos = Position.behind (before ++ (segments.take i).flatten) ∧
          Segment d t.kind t.text.toList segment (segments.drop (i + 1)).flatten := by
  induction h with
  | nil => exact ⟨[], rfl, rfl, by simp⟩
  | @cons before segment rest t tokens hne hpos hsegment _ ih =>
    obtain ⟨segments, rfl, hlength, hall⟩ := ih
    refine ⟨segment :: segments, rfl, by simp [hlength], ?_⟩
    intro i t' segment' ht hs
    cases i with
    | zero =>
      obtain rfl : t = t' := by simpa using ht
      obtain rfl : segment = segment' := by simpa using hs
      exact ⟨hne, by simpa using hpos, hsegment⟩
    | succ i =>
      have := hall i t' segment' (by simpa using ht) (by simpa using hs)
      simpa using this

/-- **Cutting a template loses nothing.**  For all delimiters and every template there is one
    segment for each token such that the template is the segments one behind the other, each
    token stands for its segment, and each token's position is the place of the first character
    of its segment. -/
theorem ofTemplate_segments (d : Delimiters) (template : String) :
    ∃ segments : List (List Char),
      template.toList = segments.flatten ∧ segments.length = (ofTemplate d template).length ∧
      ∀ (i : Nat) (t : Token) (segment : List Char),
        (ofTemplate d template)[i]? = some t → segments[i]? = some segment →
          segment ≠ [] ∧ t.pos = Position.behind (segments.take i).flatten ∧
          Segment d t.kind t.text.toList segment (segments.drop (i + 1)).flatten :=
  (scan_cuts d (.ofString template) [] rfl).segments

end Stencil.Token
