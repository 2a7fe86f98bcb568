/-
  Lexemes do not depend on where a script begins.

  The readers look at the characters and never at the place, and move the place along by
  `Position.advance` only.  So a change of places that goes along with `advance` changes nothing in
  what is read but the places, of lexemes and of faults alike (`lexemesFrom_shift`).  A text that
  stands behind another one is such a change (`Position.plus`), and its lexemes there are those that
  it has by itself (`lexemesFrom_plus`).
-/
import Stencil.Proofs.Script.Lexemes.Rows

namespace Stencil

namespace Position

/-- The place `p` of a text, seen from where the text is put at `origin`: only the first row of the
    text goes on with a row that was there before. -/
def plus (origin p : Position) : Position :=
  if p.row = 0 then ⟨origin.row, origin.column + p.column⟩ else ⟨origin.row + p.row, p.column⟩

theorem plus_advance (origin p : Position) (c : Char) :
    origin.plus (p.advance c) = (origin.plus p).advance c := by
  by_cases hc : c = '\n'
  · subst hc
    unfold plus
    by_cases hp : p.row = 0
    · simp [hp]
    · simp [hp, Nat.add_assoc]
  · rw [advance_of_ne p hc, advance_of_ne _ hc]
    unfold plus
    by_cases hp : p.row = 0
    · simp [hp, Nat.add_assoc]
    · simp [hp]

end Position

/-- The cursor in another place, with the same text to be read. -/
def Cursor.shift (f : Position → Position) (cur : Cursor) : Cursor := ⟨f cur.pos, cur.rest⟩

@[simp] theorem Cursor.shift_pos (f : Position → Position) (cur : Cursor) :
    (cur.shift f).pos = f cur.pos := rfl

@[simp] theorem Cursor.shift_rest (f : Position → Position) (cur : Cursor) :
    (cur.shift f).rest = cur.rest := rfl

namespace Script

/-- The fault in another place. -/
def ScriptError.shift (f : Position → Position) (e : ScriptError) : ScriptError :=
  ⟨e.fault, f e.pos⟩

/-- What comes of reading when places are changed by `f`, which changes what is read by `g`. -/
def shiftOutcome {α β : Type} (f : Position → Position) (g : α → β)
    (outcome : Except ScriptError α) : Except ScriptError β :=
  (outcome.map g).mapError (ScriptError.shift f)

@[simp] theorem shiftOutcome_ok {α β : Type} (f : Position → Position) (g : α → β) (a : α) :
    shiftOutcome f g (.ok a) = .ok (g a) := rfl

/-- What comes of a reader that gives something without a place and a cursor. -/
abbrev shiftRead {α : Type} (f : Position → Position) :
    Except ScriptError (α × Cursor) → Except ScriptError (α × Cursor) :=
  shiftOutcome f fun out => (out.1, out.2.shift f)

/-- What comes of reading a row of lexemes. -/
abbrev shiftRow (f : Position → Position) :
    Except ScriptError (List Lexeme) → Except ScriptError (List Lexeme) :=
  shiftOutcome f (List.map (Lexeme.shift f))

section

variable {f : Position → Position} (hf : ∀ p c, f (p.advance c) = (f p).advance c)

include hf

/-! ## Moving over the text -/

theorem skip_shift (cur : Cursor) (n : Nat) : (cur.shift f).skip n = (cur.skip n).shift f := by
  rw [Cursor.skip_eq, Cursor.skip_eq, Cursor.shift, Cursor.shift, Position.after_map hf]

theorem takeUntil_shift {stop : Position → List Char → Bool}
    (hstop : ∀ p q rest, stop p rest = stop q rest) (cur : Cursor) :
    (cur.shift f).takeUntil stop
      = ((cur.takeUntil stop).1, (cur.takeUntil stop).2.shift f) := by
  obtain ⟨pos, rest⟩ := cur
  show (Cursor.mk (f pos) rest).takeUntil stop = _
  induction rest generalizing pos with
  | nil => rw [Cursor.takeUntil_nil, Cursor.takeUntil_nil]; rfl
  | cons c rest ih =>
    by_cases h : stop pos (c :: rest) = true
    · have h' : stop (f pos) (c :: rest) = true := (hstop _ pos _).trans h
      rw [Cursor.takeUntil_of_stop h, Cursor.takeUntil_of_stop h']
      rfl
    · rw [Bool.not_eq_true] at h
      have h' : stop (f pos) (c :: rest) = false := (hstop _ pos _).trans h
      rw [Cursor.takeUntil_cons h, Cursor.takeUntil_cons h', ← hf, ih]

/-! ## Text literals -/

theorem readString_shift (quote : Char) (start : Position) (cur : Cursor) :
    readString quote (f start) (cur.shift f) = shiftRead f (readString quote start cur) := by
  induction hn : cur.rest.length using Nat.strongRecOn generalizing cur with
  | ind n ih =>
    obtain ⟨pos, rest⟩ := cur
    cases rest with
    | nil => rw [Cursor.shift, readString_nil, readString_nil]; rfl
    | cons c rest =>
      have hlt : rest.length < n := by rw [← hn]; exact Nat.lt_succ_self _
      rw [Cursor.shift, readString_cons, readString_cons, ← hf]
      by_cases hline : c = '\n'
      · rw [if_pos hline, if_pos hline]; rfl
      rw [if_neg hline, if_neg hline]
      by_cases hquote : c = quote
      · rw [if_pos hquote, if_pos hquote]; rfl
      rw [if_neg hquote, if_neg hquote]
      by_cases hescape : c = '\\'
      · rw [if_pos hescape, if_pos hescape]
        cases readEscape rest with
        | cutOff => rfl
        | invalid shown => rfl
        | char value length =>
          -- an escape may take several characters
          have hskip : Cursor.skip ⟨f (pos.advance c), rest⟩ length
              = (Cursor.skip ⟨pos.advance c, rest⟩ length).shift f :=
            skip_shift hf ⟨pos.advance c, rest⟩ length
          have hle : (Cursor.skip ⟨pos.advance c, rest⟩ length).rest.length < n :=
            Nat.lt_of_le_of_lt (by rw [Cursor.skip_length]; exact Nat.sub_le _ _) hlt
          simp only [hskip, ih _ hle _ rfl]
          cases readString quote start (Cursor.skip ⟨pos.advance c, rest⟩ length) <;> rfl
      · rw [if_neg hescape, if_neg hescape]
        have hrest := ih _ hlt ⟨pos.advance c, rest⟩ rfl
        rw [Cursor.shift] at hrest
        rw [hrest]
        cases readString quote start ⟨pos.advance c, rest⟩ <;> rfl

/-! ## Numbers, names and comments -/

theorem readDigits_shift (cur : Cursor) :
    readDigits (cur.shift f) = ((readDigits cur).1, (readDigits cur).2.shift f) :=
  takeUntil_shift hf (fun _ _ _ => rfl) cur

theorem readName_shift (cur : Cursor) :
    readName (cur.shift f) = ((readName cur).1, (readName cur).2.shift f) :=
  takeUntil_shift hf (fun _ _ _ => rfl) cur

theorem readFraction_shift (cur : Cursor) :
    readFraction (cur.shift f) = ((readFraction cur).1, (readFraction cur).2.shift f) := by
  have hdigits := readDigits_shift hf (cur.skip 1)
  rw [← skip_shift hf] at hdigits
  obtain ⟨pos, rest⟩ := cur
  simp only [readFraction, Cursor.shift] at hdigits ⊢
  split
  · split
    · exact hdigits
    · rfl
  · rfl

theorem readSign_shift (cur : Cursor) :
    readSign (cur.shift f) = ((readSign cur).1, (readSign cur).2.shift f) := by
  obtain ⟨pos, rest⟩ := cur
  cases rest with
  | nil => rfl
  | cons c rest =>
    have hskip := skip_shift hf ⟨pos, c :: rest⟩ 1
    simp only [Cursor.shift] at hskip
    simp only [readSign, Cursor.shift, hskip]
    split <;> rfl

omit hf in
theorem endNumber_shift (start : Position) (n : Numeral) (written : List Char) (cur : Cursor) :
    endNumber (f start) n written (cur.shift f) = shiftRead f (endNumber start n written cur) := by
  obtain ⟨pos, rest⟩ := cur
  cases rest with
  | nil => rfl
  | cons c rest =>
    simp only [endNumber, Cursor.shift]
    split <;> rfl

theorem readPower_shift (start : Position) (whole fraction written : List Char) (cur : Cursor) :
    readPower (f start) whole fraction written (cur.shift f)
      = shiftRead f (readPower start whole fraction written cur) := by
  have hpeek : (cur.shift f).peek? = cur.peek? := rfl
  simp only [readPower, hpeek, skip_shift hf, readSign_shift hf, readDigits_shift hf,
    endNumber_shift]
  split
  · split <;> rfl
  · rfl

theorem readNumber_shift (cur : Cursor) :
    readNumber (cur.shift f) = shiftRead f (readNumber cur) := by
  simp only [readNumber, readDigits_shift hf, readFraction_shift hf, Cursor.shift_pos,
    readPower_shift hf]

theorem readLineComment_shift (cur : Cursor) :
    readLineComment (cur.shift f) = ((readLineComment cur).1, (readLineComment cur).2.shift f) := by
  rw [readLineComment, takeUntil_shift hf (fun _ _ _ => rfl)]
  rfl

theorem readBlockComment_shift (cur : Cursor) :
    readBlockComment (cur.shift f) = shiftRead f (readBlockComment cur) := by
  have htext : ((cur.skip 2).shift f).takeUntil (fun _ rest => ['*', '/'].isPrefixOf rest) = _ :=
    takeUntil_shift hf (fun _ _ _ => rfl) (cur.skip 2)
  simp only [readBlockComment, skip_shift hf, htext, Cursor.shift_rest]
  split <;> rfl

/-! ## Items and rows -/

theorem readItem_shift (cur : Cursor) (c : Char) :
    readItem (cur.shift f) c = shiftRead f (readItem cur c) := by
  simp only [readItem, Cursor.shift_rest, Cursor.shift_pos, skip_shift hf, readLineComment_shift hf,
    readBlockComment_shift hf, readString_shift hf, readNumber_shift hf, readName_shift hf]
  split
  · rfl
  split
  · rfl
  split
  · rfl
  split
  · rfl
  split
  · cases readString c cur.pos (cur.skip 1) <;> rfl
  split
  · cases readNumber cur <;> rfl
  split
  · rfl
  cases Symbol.at? cur.rest <;> rfl

theorem lexemesFrom_shift (b : Bool) (cur : Cursor) :
    lexemesFrom b (cur.shift f) = shiftRow f (lexemesFrom b cur) := by
  induction hn : cur.rest.length using Nat.strongRecOn generalizing b cur with
  | ind n ih =>
    obtain ⟨pos, rest⟩ := cur
    cases rest with
    | nil => rw [Cursor.shift, lexemesFrom_nil, lexemesFrom_nil]; rfl
    | cons c rest =>
      have hitem := readItem_shift hf ⟨pos, c :: rest⟩ c
      rw [Cursor.shift] at hitem ⊢
      rw [lexemesFrom_cons, lexemesFrom_cons, hitem]
      cases hread : readItem ⟨pos, c :: rest⟩ c with
      | error e => rfl
      | ok out =>
        obtain ⟨item, stop⟩ := out
        have hlt : stop.rest.length < n := hn ▸ readItem_length_lt rfl hread
        cases item with
        | space breaks => exact ih _ hlt (b || breaks) stop rfl
        | word w =>
          simp only [shiftOutcome_ok, ih _ hlt false stop rfl]
          cases lexemesFrom false stop <;> rfl

end

/-- **Text behind another one is read as by itself.** -/
theorem lexemesFrom_plus (b : Bool) (origin : Position) (text : List Char) :
    lexemesFrom b ⟨origin, text⟩ = shiftRow origin.plus (lexemesFrom b ⟨.start, text⟩) :=
  lexemesFrom_shift origin.plus_advance b ⟨.start, text⟩

end Script

end Stencil
