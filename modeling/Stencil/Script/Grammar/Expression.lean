/-
  Reading expressions.

  The recursion is on the number of nesting levels still allowed.  An expression takes one level,
  and so does each operator between operands and each member, index or call behind an operand; a
  finished expression or operand gives its levels back, because its caller goes on with the number
  it had.  When no level is left the script is refused, so no limit beside the language's own one
  is needed to see that reading ends.
-/
import Stencil.Script.Grammar.Operators
import Stencil.Script.Grammar.Reading

namespace Stencil.Script.Grammar

open Reader

/-- Deepest nesting of statements and expressions in a script. -/
def maxNesting : Nat := 64

/-- No nesting level is left. -/
def tooDeep {α : Type} (last : Position) : Reader α := do
  fail ⟨.nestingTooDeep maxNesting, ← here last⟩

/-- The place that an expression names; it must name one. -/
def placeOf (e : Expr) : Reader Place :=
  match e.toPlace? with
  | some p => pure p
  | none => fail ⟨.invalidTarget, e.pos⟩

/-! ## Operands -/

/-- A property name behind a point: a name or a reserved word. -/
def property (last : Position) : Reader String := do
  match ← peek? with
  | some (.name s) => drop; pure s
  | some (.keyword k) => drop; pure k.spelling
  | _ => unexpected last .propertyName

/-- A member of an object literal: a key and its value, or a name that is both. -/
def objectMember (last : Position) (value : Reader Expr) : Reader (String × Expr) := do
  let pos ← here last
  match ← peek? with
  | some (.name s) =>
    drop
    if ← takes .colon then return (s, ← value) else return (s, .name pos s)
  | some (.text s) => drop; expect last .colon; return (s, ← value)
  | some (.keyword k) => drop; expect last .colon; return (k.spelling, ← value)
  | some (.number x) => drop; expect last .colon; return (numberText x, ← value)
  | _ => unexpected last .propertyName

/-- A literal, a name, or something in brackets; `sub` reads an expression for a place that asks
    for a given power. -/
def primary (last : Position) (sub : Nat → Reader Expr) : Reader Expr := do
  let pos ← here last
  match ← peek? with
  | some (.number x) => drop; return .number pos x
  | some (.text s) => drop; return .text pos s
  | some (.name s) => drop; return .name pos s
  | some (.keyword .kwTrue) => drop; return .bool pos true
  | some (.keyword .kwFalse) => drop; return .bool pos false
  | some (.keyword .kwNull) => drop; return .null pos
  | some (.keyword .kwUndefined) => drop; return .undefined pos
  | some (.symbol .leftParen) =>
    drop
    let inner ← sub Power.any
    expect last .rightParen
    return inner
  | some (.symbol .leftBracket) =>
    drop
    return .array pos (← commaList last .rightBracket (sub Power.item))
  | some (.symbol .leftBrace) =>
    drop
    return .object pos (← commaList last .rightBrace (objectMember last (sub Power.item)))
  | _ => unexpected last .expression

/-- An operand with the operators before and behind it; `suffixes` reads the latter. -/
def operand (last : Position) (sub : Nat → Reader Expr) (suffixes : Expr → Reader Expr) :
    Reader Expr := do
  let pos ← here last
  let word ← peek?
  match word.bind Word.update? with
  | some op =>
    drop
    let target ← placeOf (← sub Power.operand)
    return .update pos op true target
  | none =>
    match word.bind Word.unary? with
    | some op =>
      drop
      return .unary pos op (← sub Power.operand)
    | none => suffixes (← primary last sub)

/-- What stands behind an operand and takes a level. -/
inductive Suffix where
  | member | index | call

def Word.suffix? : Word → Option Suffix
  | .symbol .dot => some .member
  | .symbol .leftBracket => some .index
  | .symbol .leftParen => some .call
  | _ => none

/-- The operand `e` with one suffix, whose first word is taken already. -/
def suffixed (last : Position) (sub : Nat → Reader Expr) (e : Expr) : Suffix → Reader Expr
  | .member => return .member e.pos e (← property last)
  | .index => do
    let key ← sub Power.any
    expect last .rightBracket
    return .index e.pos e key
  | .call => return .call e.pos e (← commaList last .rightParen (sub Power.item))

/-- Increment or decrement behind the operand `e`, which must stand on the same line. -/
def updated (e : Expr) : Reader Expr := do
  match (← peek?).bind Word.update? with
  | some op =>
    if ← afterBreak then return e
    else
      let target ← placeOf e
      drop
      return .update e.pos op false target
  | none => return e

/-! ## Operators between operands -/

/-- The expression with `lhs` on the left of a connective, whose symbol is taken already. -/
def joined (last : Position) (sub : Nat → Reader Expr) (lhs : Expr) (power : Power) :
    Connective → Reader Expr
  | .binary op => return .binary lhs.pos op lhs (← sub power.right)
  | .logical op => return .logical lhs.pos op lhs (← sub power.right)
  | .assign op => do
    let target ← placeOf lhs
    return .assign lhs.pos op target (← sub power.right)
  | .conditional => do
    let whenTrue ← sub Power.item
    expect last .colon
    return .conditional lhs.pos lhs whenTrue (← sub power.right)

mutual

/-- An expression for a place that asks for the power `least`, with so many levels left. -/
def expression (last : Position) : (levels : Nat) → (least : Nat) → Reader Expr
  | 0, _ => tooDeep last
  | levels + 1, least => do
    let lhs ← operand last (expression last levels) (suffixes last levels)
    operators last levels least lhs

/-- The operators behind `lhs` and their right operands. -/
def operators (last : Position) : (levels : Nat) → (least : Nat) → (lhs : Expr) → Reader Expr
  -- with no level left the expression must end here
  | 0, least, lhs => do
    match (← peek?).bind (Word.connective? least) with
    | none => return lhs
    | some _ => tooDeep last
  | levels + 1, least, lhs => do
    match (← peek?).bind (Word.connective? least) with
    | none => return lhs
    | some (power, c) =>
      drop
      let e ← joined last (expression last levels) lhs power c
      operators last levels least e

/-- The members, indices and calls behind the operand `e`. -/
def suffixes (last : Position) : (levels : Nat) → (e : Expr) → Reader Expr
  | 0, e => do
    match (← peek?).bind Word.suffix? with
    | none => updated e
    | some _ => tooDeep last
  | levels + 1, e => do
    match (← peek?).bind Word.suffix? with
    | none => updated e
    | some s =>
      drop
      let e' ← suffixed last (expression last levels) e s
      suffixes last levels e'

end

end Stencil.Script.Grammar
