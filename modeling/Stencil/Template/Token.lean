/-
  The tokens of a template, and how a template is cut into them.

  Cutting never fails: script left open at the end of the template holds everything up to the end.
  Each reader below takes a cursor at the token's first character and gives back the token's text
  and a cursor behind the token, which is strictly further on (`next_length_lt`).
-/
import Stencil.Text.Cursor
import Stencil.Template.Delimiters

namespace Stencil

/-- What a piece of a template is. -/
inductive TokenKind where
  /-- Text that is copied to the output. -/
  | chunk
  /-- The statement text of one directive line. -/
  | line
  /-- The statement text between two block markers. -/
  | block
  /-- The text of an expression whose value is output. -/
  | expression
  deriving DecidableEq, Repr

/-- A piece of a template: its kind, its text without delimiters, and where it starts. -/
structure Token where
  kind : TokenKind
  text : String
  pos : Position
  deriving DecidableEq, Repr

namespace Token

/-! ## The places where readers stop -/

/-- A line break stands here. -/
def atNewline (pos : Position) (rest : List Char) : Bool :=
  (Cursor.mk pos rest).peek? == some '\n'

/-- No space or tab stands here. -/
def atNonBlank (pos : Position) (rest : List Char) : Bool :=
  let c := (Cursor.mk pos rest).peek?
  !(c == some ' ' || c == some '\t')

/-- The pair `p` stands here: its first character can be read, and then its second. -/
def atPair (p : Pair) (pos : Position) (rest : List Char) : Bool :=
  match (Cursor.mk pos rest).nextIf? p.first with
  | some (_, behind) => (behind.nextIf? p.second).isSome
  | none => false

theorem atPair_eq (p : Pair) (pos : Position) (rest : List Char) :
    atPair p pos rest = p.startsIn rest := by
  simp only [atPair, Cursor.nextIf?, Cursor.peek?, Cursor.next?]
  rcases rest with _ | ⟨a, _ | ⟨b, rest⟩⟩
  · rfl
  · by_cases h : a = p.first <;> simp [Pair.startsIn, h]
  · by_cases h : a = p.first <;> by_cases h' : b = p.second <;> simp [Pair.startsIn, h, h']

theorem atPair_iff {p : Pair} {pos : Position} {rest : List Char} :
    atPair p pos rest = true ↔ ∃ behind, rest = p.first :: p.second :: behind := by
  rw [atPair_eq, Pair.startsIn_iff]

/-! ## Reading one token -/

/-- Past the end of the line. -/
def skipLine (cur : Cursor) : Cursor := (cur.takeUntil atNewline).2.skip 1

/-- A line that a line break ends may end in a carriage return, which belongs to the break. -/
def dropReturn (text : List Char) : List Char :=
  if text.getLast? = some '\r' then text.dropLast else text

/-- Literal text runs up to the next script. -/
def readChunk (d : Delimiters) (cur : Cursor) : List Char × Cursor :=
  cur.takeUntil d.scriptStarts

/-- A directive line: the sentinel, blanks, and the text up to the end of the line. -/
def readLine (cur : Cursor) : List Char × Cursor :=
  let (text, stop) := ((cur.skip 1).takeUntil atNonBlank).2.takeUntil atNewline
  if stop.rest.isEmpty then (text, stop) else (dropReturn text, stop.skip 1)

/-- A directive block: what is left of the opening line is a comment, and so is what is left of
    the closing line. -/
def readBlock (d : Delimiters) (cur : Cursor) : List Char × Cursor :=
  let (text, stop) := (skipLine (cur.skip 2)).takeUntil (atPair d.blockPair)
  (text, skipLine (stop.skip 2))

/-- An expression runs up to the closing pair. -/
def readExpression (d : Delimiters) (cur : Cursor) : List Char × Cursor :=
  let (text, stop) := (cur.skip 2).takeUntil (atPair d.closing)
  (text, stop.skip 2)

/-- What starts at a place: a directive is recognised before an expression. -/
def kindAt (d : Delimiters) (cur : Cursor) : TokenKind :=
  if d.directiveStarts cur.pos cur.rest then
    if atPair d.blockPair cur.pos cur.rest then .block else .line
  else if atPair d.opening cur.pos cur.rest then .expression
  else .chunk

theorem kindAt_eq (d : Delimiters) (cur : Cursor) :
    kindAt d cur =
      if d.directiveStarts cur.pos cur.rest then
        if d.blockPair.startsIn cur.rest then .block else .line
      else if d.opening.startsIn cur.rest then .expression
      else .chunk := by
  rw [kindAt, atPair_eq, atPair_eq]

def readKind (d : Delimiters) (cur : Cursor) : TokenKind → List Char × Cursor
  | .chunk => readChunk d cur
  | .line => readLine cur
  | .block => readBlock d cur
  | .expression => readExpression d cur

/-- The token that starts here, and the cursor behind it. -/
def next (d : Delimiters) (cur : Cursor) : Token × Cursor :=
  let kind := kindAt d cur
  let (text, stop) := readKind d cur kind
  (⟨kind, String.ofList text, cur.pos⟩, stop)

/-! ## Every token takes something off the text -/

theorem skipLine_length_le (cur : Cursor) : (skipLine cur).rest.length ≤ cur.rest.length := by
  have := cur.takeUntil_length_le atNewline
  rw [skipLine, Cursor.skip_length]; omega

theorem readLine_length_lt {cur : Cursor} (hne : cur.rest ≠ []) :
    (readLine cur).2.rest.length < cur.rest.length := by
  have h1 := (cur.skip 1).takeUntil_length_le atNonBlank
  have h2 := ((cur.skip 1).takeUntil atNonBlank).2.takeUntil_length_le atNewline
  have h3 := List.length_pos_iff.mpr hne
  rw [Cursor.skip_length] at h1
  simp only [readLine]
  split
  · dsimp only; omega
  · rw [Cursor.skip_length]; omega

theorem readBlock_length_lt {d : Delimiters} {cur : Cursor} (hne : cur.rest ≠ []) :
    (readBlock d cur).2.rest.length < cur.rest.length := by
  have h1 := skipLine_length_le (cur.skip 2)
  have h2 := (skipLine (cur.skip 2)).takeUntil_length_le (atPair d.blockPair)
  have h3 := skipLine_length_le (((skipLine (cur.skip 2)).takeUntil (atPair d.blockPair)).2.skip 2)
  have h4 := List.length_pos_iff.mpr hne
  rw [Cursor.skip_length] at h1 h3
  simp only [readBlock]
  omega

theorem readExpression_length_lt {d : Delimiters} {cur : Cursor} (hne : cur.rest ≠ []) :
    (readExpression d cur).2.rest.length < cur.rest.length := by
  have h1 := (cur.skip 2).takeUntil_length_le (atPair d.closing)
  have h2 := List.length_pos_iff.mpr hne
  rw [Cursor.skip_length] at h1
  simp only [readExpression]
  rw [Cursor.skip_length]; omega

theorem next_length_lt (d : Delimiters) {cur : Cursor} (hne : cur.rest ≠ []) :
    (next d cur).2.rest.length < cur.rest.length := by
  simp only [next, kindAt_eq]
  split
  · split
    · exact readBlock_length_lt hne
    · exact readLine_length_lt hne
  · split
    · exact readExpression_length_lt hne
    · refine Cursor.takeUntil_length_lt hne ?_
      simp only [Delimiters.scriptStarts, Bool.or_eq_false_iff]
      exact ⟨by simp_all, by simp_all⟩

/-! ## The whole template -/

/-- The tokens from a cursor to the end of the template. -/
def scan (d : Delimiters) (cur : Cursor) : List Token :=
  if cur.hasNext then
    let step := next d cur
    step.1 :: scan d step.2
  else []
termination_by cur.rest.length
decreasing_by exact next_length_lt d (Cursor.hasNext_iff.mp ‹_›)

/-- The tokens of a template. -/
def ofTemplate (d : Delimiters) (template : String) : List Token := scan d (.ofString template)

example : (ofTemplate .standard "a\n~ b\n#|c|#").map (fun t => (t.kind, t.text))
    = [(.chunk, "a\n"), (.line, "b"), (.expression, "c")] := by decide +kernel

end Token

end Stencil
