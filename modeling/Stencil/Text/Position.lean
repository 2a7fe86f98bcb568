/-
  Positions in a text, by row and column.

  Both count from zero and a column counts characters.  There is one way to move past a character
  (`advance`), and the positions of templates, of the generated code and of everything made from
  either are all reached by it.
-/

namespace Stencil

/-- A place in a text: how many line breaks stand before it, and how many characters since. -/
structure Position where
  row : Nat
  column : Nat
  deriving DecidableEq, Repr, Inhabited

namespace Position

/-- Where every text begins. -/
def start : Position := ⟨0, 0⟩

/-- The position after the character `c`: a line break opens a new row. -/
def advance (p : Position) (c : Char) : Position :=
  if c = '\n' then ⟨p.row + 1, 0⟩ else ⟨p.row, p.column + 1⟩

/-- The position after all of `text`. -/
def after (p : Position) (text : List Char) : Position := text.foldl advance p

/-- Readers count lines and columns from one. -/
def describe (p : Position) : String :=
  "line " ++ toString (p.row + 1) ++ ", column " ++ toString (p.column + 1)

/-! ## Moving past a text -/

@[simp] theorem after_nil (p : Position) : p.after [] = p := rfl

@[simp] theorem after_cons (p : Position) (c : Char) (text : List Char) :
    p.after (c :: text) = (p.advance c).after text := rfl

theorem after_append (p : Position) (a b : List Char) : p.after (a ++ b) = (p.after a).after b :=
  List.foldl_append

@[simp] theorem advance_newline (p : Position) : p.advance '\n' = ⟨p.row + 1, 0⟩ := rfl

theorem advance_of_ne {c : Char} (p : Position) (h : c ≠ '\n') :
    p.advance c = ⟨p.row, p.column + 1⟩ := by simp [advance, h]

/-- The row is the number of line breaks passed. -/
theorem row_after (p : Position) (text : List Char) :
    (p.after text).row = p.row + text.count '\n' := by
  induction text generalizing p with
  | nil => simp
  | cons c rest ih =>
    by_cases h : c = '\n'
    · subst h; simp [ih]; omega
    · simp [ih, advance_of_ne p h, h]

/-- Without a line break only the column moves. -/
theorem after_of_not_mem (p : Position) {text : List Char} (h : '\n' ∉ text) :
    p.after text = ⟨p.row, p.column + text.length⟩ := by
  induction text generalizing p with
  | nil => simp
  | cons c rest ih =>
    have hc : c ≠ '\n' := fun e => h (e ▸ List.mem_cons_self)
    have hr : '\n' ∉ rest := fun m => h (List.mem_cons_of_mem _ m)
    rw [after_cons, advance_of_ne p hc, ih _ hr, List.length_cons]
    simp; omega

/-- After the last line break the column is the number of characters since, whatever stood before. -/
theorem after_line (p : Position) (before : List Char) {line : List Char} (h : '\n' ∉ line) :
    p.after (before ++ '\n' :: line) = ⟨p.row + before.count '\n' + 1, line.length⟩ := by
  rw [after_append, after_cons, advance_newline, after_of_not_mem _ h, row_after]
  simp

example : start.after ['a', '\n', 'b', 'c'] = ⟨1, 2⟩ := by decide
example : (start.after ['a']).describe = "line 1, column 2" := by decide

end Position

end Stencil
