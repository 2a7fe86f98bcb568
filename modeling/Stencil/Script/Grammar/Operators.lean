/-
  The operators between operands and how tightly they bind.

  A larger power binds tighter.  An operator takes its left operand from a place that asks for at
  most its left power, and asks for its right power on its right: with the right power above the
  left one a row of operators groups to the left, with the left above the right it groups to the
  right.
-/
import Stencil.Script.Lexeme
import Stencil.Script.Tree

namespace Stencil.Script

/-- How tightly an operator binds on its two sides. -/
structure Power where
  left : Nat
  right : Nat
  deriving DecidableEq, Repr

namespace Power

def groupsLeft (power : Nat) : Power := ⟨power, power + 1⟩

def groupsRight (power : Nat) : Power := ⟨power + 1, power⟩

/-- What a place asks for that takes any expression. -/
def any : Nat := 0

def assignment : Power := groupsRight 4
def conditional : Power := groupsRight 6
def nullish : Power := groupsLeft 8
def or : Power := groupsLeft 10
def and : Power := groupsLeft 12
def equality : Power := groupsLeft 20
def relational : Power := groupsLeft 22
def additive : Power := groupsLeft 26
def multiplicative : Power := groupsLeft 28
def exponent : Power := groupsRight 30

/-- What an item of a list asks for. -/
def item : Nat := assignment.right

/-- What the operand of an operator before it asks for: more than any operator between operands
    gives. -/
def operand : Nat := 32

end Power

/-- What a symbol between two operands makes of them. -/
inductive Connective where
  | binary (op : BinaryOp)
  | logical (op : LogicalOp)
  | assign (op : Option BinaryOp)
  | conditional
  deriving DecidableEq, Repr

/-- The meaning of a symbol between two operands, if it has one. -/
def Symbol.connective? : Symbol → Option (Power × Connective)
  | .assign => some (.assignment, .assign none)
  | .plusAssign => some (.assignment, .assign (some .add))
  | .minusAssign => some (.assignment, .assign (some .sub))
  | .starAssign => some (.assignment, .assign (some .mul))
  | .slashAssign => some (.assignment, .assign (some .div))
  | .percentAssign => some (.assignment, .assign (some .rem))
  | .question => some (.conditional, .conditional)
  | .questionQuestion => some (.nullish, .logical .nullish)
  | .orOr => some (.or, .logical .or)
  | .andAnd => some (.and, .logical .and)
  | .equal => some (.equality, .binary .equal)
  | .notEqual => some (.equality, .binary .notEqual)
  | .strictEqual => some (.equality, .binary .strictEqual)
  | .strictNotEqual => some (.equality, .binary .strictNotEqual)
  | .less => some (.relational, .binary .less)
  | .lessEqual => some (.relational, .binary .lessEqual)
  | .greater => some (.relational, .binary .greater)
  | .greaterEqual => some (.relational, .binary .greaterEqual)
  | .plus => some (.additive, .binary .add)
  | .minus => some (.additive, .binary .sub)
  | .star => some (.multiplicative, .binary .mul)
  | .slash => some (.multiplicative, .binary .div)
  | .percent => some (.multiplicative, .binary .rem)
  | .starStar => some (.exponent, .binary .pow)
  | _ => none

/-- The connective that a word is, between operands in a place that asks for `least`. -/
def Word.connective? (least : Nat) : Word → Option (Power × Connective)
  | .symbol s => s.connective?.filter fun c => least ≤ c.1.left
  | _ => none

/-- The operator that a word is before its operand; increment and decrement are apart. -/
def Word.unary? : Word → Option UnaryOp
  | .symbol .bang => some .not
  | .symbol .minus => some .negate
  | .symbol .plus => some .plus
  | .keyword .kwTypeof => some .typeOf
  | _ => none

/-- Increment or decrement. -/
def Word.update? : Word → Option UpdateOp
  | .symbol .plusPlus => some .increment
  | .symbol .minusMinus => some .decrement
  | _ => none

end Stencil.Script
