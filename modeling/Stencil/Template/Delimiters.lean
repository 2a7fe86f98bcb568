/-
  The characters that mark the script inside a template.

  A line sentinel opens a directive line, the sentinel followed by the block marker opens and
  closes a directive block, and two pairs of characters enclose an expression.
-/
import Stencil.Text.Position

namespace Stencil

/-- A marker of two characters. -/
structure Pair where
  first : Char
  second : Char
  deriving DecidableEq, Repr

namespace Pair

/-- A marker is given by a text of exactly two characters. -/
def ofString? (text : String) : Option Pair :=
  match text.toList with
  | [a, b] => some ⟨a, b⟩
  | _ => none

/-- Whether the text begins with the pair. -/
def startsIn (p : Pair) : List Char → Bool
  | a :: b :: _ => a == p.first && b == p.second
  | _ => false

theorem startsIn_iff {p : Pair} {text : List Char} :
    p.startsIn text = true ↔ ∃ rest, text = p.first :: p.second :: rest := by
  match text with
  | [] => simp [startsIn]
  | [_] => simp [startsIn]
  | a :: b :: rest => simp [startsIn]

end Pair

/-- The delimiters of a template. -/
structure Delimiters where
  line : Char
  block : Char
  opening : Pair
  closing : Pair
  /-- Whether the line sentinel counts at the start of a line only. -/
  lineStartOnly : Bool
  deriving DecidableEq, Repr

namespace Delimiters

/-- `~` and `~-` for directives, `#|` and `|#` around expressions. -/
def standard : Delimiters := ⟨'~', '-', ⟨'#', '|'⟩, ⟨'|', '#'⟩, true⟩

/-- The pair that opens and closes a directive block. -/
def blockPair (d : Delimiters) : Pair := ⟨d.line, d.block⟩

/-- Whether a directive starts here. -/
def directiveStarts (d : Delimiters) (pos : Position) (rest : List Char) : Bool :=
  rest.head? == some d.line && (pos.column == 0 || !d.lineStartOnly)

/-- Whether literal text ends here, because script starts. -/
def scriptStarts (d : Delimiters) (pos : Position) (rest : List Char) : Bool :=
  d.directiveStarts pos rest || d.opening.startsIn rest

end Delimiters

example : Pair.ofString? "#|" = some ⟨'#', '|'⟩ := by decide +kernel
example : Pair.ofString? "#" = none := by decide +kernel

end Stencil
