/-
  Reading a row of lexemes from left to right.

  A reader takes what it reads off the front of the row or fails.  The combinators for rows of
  items run as often as there are lexemes left, which is enough because every item takes at least
  one.
-/
import Stencil.Script.Error

namespace Stencil.Script

/-- Takes something off the front of a row of lexemes, or fails. -/
def Reader (α : Type) := List Lexeme → Except ScriptError (α × List Lexeme)

namespace Reader

instance : Monad Reader where
  pure a := fun row => .ok (a, row)
  bind r next := fun row =>
    match r row with
    | .error e => .error e
    | .ok (a, row') => next a row'

theorem pure_apply {α : Type} (a : α) (row : List Lexeme) :
    (pure a : Reader α) row = .ok (a, row) := rfl

theorem bind_apply {α β : Type} (r : Reader α) (next : α → Reader β) (row : List Lexeme) :
    (r >>= next) row = match r row with
      | .error e => .error e
      | .ok (a, row') => next a row' := rfl

/-- A sequence of two readers succeeds when both do. -/
theorem bind_eq_ok {α β : Type} {r : Reader α} {next : α → Reader β} {row : List Lexeme}
    {out : β × List Lexeme} :
    (r >>= next) row = .ok out ↔ ∃ a row', r row = .ok (a, row') ∧ next a row' = .ok out := by
  rw [bind_apply]
  constructor
  · intro h
    split at h
    · simp at h
    · exact ⟨_, _, by assumption, h⟩
  · rintro ⟨a, row', ha, h⟩
    simp [ha, h]

/-! ## Looking ahead -/

def fail {α : Type} (e : ScriptError) : Reader α := fun _ => .error e

/-- The word that comes next, left in place. -/
def peek? : Reader (Option Word) := fun row => .ok (row.head?.map Lexeme.word, row)

/-- The words that come next, left in place. -/
def upcoming : Reader (List Word) := fun row => .ok (row.map Lexeme.word, row)

/-- Whether this symbol comes next. -/
def sees (s : Symbol) : Reader Bool := fun row =>
  .ok (row.head?.map Lexeme.word == some (.symbol s), row)

/-- Whether the next word stands on a later line than the one before. -/
def afterBreak : Reader Bool := fun row => .ok (row.head?.any Lexeme.afterBreak, row)

/-- Where the reader stands: at the next lexeme, or at `last` when there is none. -/
def here (last : Position) : Reader Position := fun row =>
  .ok ((row.head?.map Lexeme.pos).getD last, row)

/-- Fails because something else was expected here. -/
def unexpected {α : Type} (last : Position) (expected : Expected) : Reader α := fun row =>
  match row with
  | [] => .error ⟨.unexpectedEnd expected, last⟩
  | l :: _ => .error ⟨.unexpectedWord expected l.word, l.pos⟩

/-! ## Taking -/

/-- Take the next lexeme, whatever it is. -/
def drop : Reader Unit := fun row => .ok ((), row.tail)

/-- Take this symbol if it comes next, and say whether it did. -/
def takes (s : Symbol) : Reader Bool := fun row =>
  match row with
  | [] => .ok (false, [])
  | l :: rest => if l.word = .symbol s then .ok (true, rest) else .ok (false, l :: rest)

/-- Take this symbol, which must come next. -/
def expect (last : Position) (s : Symbol) : Reader Unit := do
  if ← takes s then pure () else unexpected last (.symbol s)

/-- Take this reserved word if it comes next, and say whether it did. -/
def takesKeyword (k : Keyword) : Reader Bool := fun row =>
  match row with
  | [] => .ok (false, [])
  | l :: rest => if l.word = .keyword k then .ok (true, rest) else .ok (false, l :: rest)

/-- Take a name, which must come next. -/
def expectName (last : Position) : Reader String := fun row =>
  match row with
  | ⟨.name s, _, _⟩ :: rest => .ok (s, rest)
  | _ => unexpected last .identifier row

/-! ## Rows of items -/

/-- Items with commas between them up to the symbol `close`, which is taken; a comma may stand
    before it. -/
def commaList {α : Type} (last : Position) (close : Symbol) (item : Reader α) : Reader (List α) :=
  fun row => go (row.length + 1) row
where
  go : Nat → Reader (List α)
    | 0 => unexpected last (.symbol close)
    | fuel + 1 => do
      if ← takes close then pure []
      else
        let x ← item
        if ← takes .comma then
          let others ← go fuel
          pure (x :: others)
        else
          expect last close
          pure [x]

/-- At least one item, with commas between them. -/
def commaSeparated {α : Type} (item : Reader α) : Reader (List α) := fun row => go row.length row
where
  go : Nat → Reader (List α)
    | 0 => do
      let x ← item
      pure [x]
    | fuel + 1 => do
      let x ← item
      if ← takes .comma then
        let others ← go fuel
        pure (x :: others)
      else pure [x]

/-- Items up to a closing brace, which is taken. -/
def untilBrace {α : Type} (last : Position) (item : Reader α) : Reader (List α) := fun row =>
  go (row.length + 1) row
where
  go : Nat → Reader (List α)
    | 0 => unexpected last (.symbol .rightBrace)
    | fuel + 1 => do
      if ← takes .rightBrace then pure []
      else if (← peek?).isNone then unexpected last (.symbol .rightBrace)
      else
        let x ← item
        let others ← go fuel
        pure (x :: others)

/-- Items up to the end of the row. -/
def untilEnd {α : Type} (item : Reader α) : Reader (List α) := fun row => go row.length row
where
  go : Nat → Reader (List α)
    | 0 => pure []
    | fuel + 1 => do
      if (← peek?).isNone then pure []
      else
        let x ← item
        let others ← go fuel
        pure (x :: others)

end Reader

end Stencil.Script
