/-
  Reading statements, and whole scripts.

  A statement takes one nesting level.  `break` and `continue` are read inside loops only and
  `return` inside functions only; a function's body is not inside the loops around the function.
-/
import Stencil.Script.Grammar.Expression
import Stencil.Script.Lexemes

namespace Stencil.Script.Grammar

open Reader

/-- Where a statement stands. -/
structure Surroundings where
  /-- The position of the last lexeme, named when the script ends too early. -/
  last : Position
  inLoop : Bool
  inFunction : Bool

namespace Surroundings

def loopBody (s : Surroundings) : Surroundings := { s with inLoop := true }

def functionBody (s : Surroundings) : Surroundings := { s with inLoop := false, inFunction := true }

end Surroundings

/-! ## Ends of statements -/

/-- Whether the next word cannot continue the statement. -/
def atStatementEnd : Reader Bool := do
  match ← peek? with
  | none => return true
  | some w =>
    if ← afterBreak then return true
    else return w = .symbol .semicolon || w = .symbol .rightBrace

/-- A statement ends at a semicolon, which is taken, before a closing brace, at a line break, or at
    the end of the script. -/
def endStatement (last : Position) : Reader Unit := do
  if ← takes .semicolon then return ()
  else if ← atStatementEnd then return ()
  else unexpected last (.symbol .semicolon)

/-! ## Parts of statements -/

def Word.declares? : Word → Option DeclKind
  | .keyword .kwLet => some .letDecl
  | .keyword .kwVar => some .varDecl
  | .keyword .kwConst => some .constDecl
  | _ => none

/-- One name of a declaration; a constant must have a value. -/
def declarator (last : Position) (kind : DeclKind) (value : Reader Expr) : Reader Declarator := do
  let pos ← here last
  let name ← expectName last
  if ← takes .assign then return ⟨name, pos, some (← value)⟩
  else if kind = .constDecl then unexpected last .constantValue
  else return ⟨name, pos, none⟩

/-- An expression in parentheses. -/
def condition (last : Position) (expr : Reader Expr) : Reader Expr := do
  expect last .leftParen
  let e ← expr
  expect last .rightParen
  return e

/-- An expression that may be missing before the symbol `stop`. -/
def optional (stop : Symbol) (expr : Reader Expr) : Reader (Option Expr) := do
  if ← sees stop then return none else return some (← expr)

/-- What a counting loop does before its first round. -/
def loopStart (last : Position) (expr : Nat → Reader Expr) : Reader (Option LoopStart) := do
  if ← sees .semicolon then return none
  else
    match (← peek?).bind Word.declares? with
    | some kind =>
      drop
      return some (.declare kind (← commaSeparated (declarator last kind (expr Power.item))))
    | none => return some (.expr (← expr Power.any))

/-- The kind and the name of a loop over items, when the words up to `of` come next. -/
def forOfHead? : List Word → Option (DeclKind × String)
  | w :: .name name :: .name "of" :: _ => (Word.declares? w).map fun kind => (kind, name)
  | _ => none

/-- A loop behind the word `for`. -/
def loop (last : Position) (expr : Nat → Reader Expr) (body : Reader Stmt) : Reader Stmt := do
  expect last .leftParen
  match forOfHead? (← upcoming) with
  | some (kind, name) =>
    drop; drop; drop
    let iterable ← expr Power.any
    expect last .rightParen
    return .forOf kind name iterable (← body)
  | none =>
    let start ← loopStart last expr
    expect last .semicolon
    let cond ← optional .semicolon (expr Power.any)
    expect last .semicolon
    let update ← optional .rightParen (expr Power.any)
    expect last .rightParen
    return .forLoop start cond update (← body)

/-- Statements in braces. -/
def braces (last : Position) (stmt : Reader Stmt) : Reader (List Stmt) := do
  expect last .leftBrace
  untilBrace last stmt

/-- A function behind the word `function`, which stands at `pos`. -/
def function (last pos : Position) (stmt : Reader Stmt) : Reader Stmt := do
  let name ← expectName last
  expect last .leftParen
  let params ← commaList last .rightParen (expectName last)
  return .function pos name params (← braces last stmt)

/-! ## Statements -/

/-- A statement, with so many nesting levels left. -/
def statement : (levels : Nat) → Surroundings → Reader Stmt
  | 0, s => tooDeep s.last
  | levels + 1, s => do
    let last := s.last
    let expr := expression last levels
    let pos ← here last
    match ← peek? with
    | none => unexpected last .statement
    | some (.keyword .kwIf) =>
      drop
      let cond ← condition last (expr Power.any)
      let whenTrue ← statement levels s
      if ← takesKeyword .kwElse then return .branch cond whenTrue (some (← statement levels s))
      else return .branch cond whenTrue none
    | some (.keyword .kwFor) => drop; loop last expr (statement levels s.loopBody)
    | some (.keyword .kwWhile) =>
      drop
      let cond ← condition last (expr Power.any)
      return .whileLoop cond (← statement levels s.loopBody)
    | some (.keyword .kwDo) =>
      drop
      let body ← statement levels s.loopBody
      if ← takesKeyword .kwWhile then
        let cond ← condition last (expr Power.any)
        -- this semicolon may be missing even where the line goes on
        let _ ← takes .semicolon
        return .doWhile body cond
      else unexpected last (.keyword .kwWhile)
    | some (.keyword .kwFunction) => drop; function last pos (statement levels s.functionBody)
    | some (.keyword .kwBreak) =>
      drop
      if s.inLoop then endStatement last; return .breakLoop
      else fail ⟨.breakOutsideLoop, pos⟩
    | some (.keyword .kwContinue) =>
      drop
      if s.inLoop then endStatement last; return .continueLoop
      else fail ⟨.continueOutsideLoop, pos⟩
    | some (.keyword .kwReturn) =>
      drop
      if s.inFunction then
        let value ← if ← atStatementEnd then pure none else pure (some (← expr Power.any))
        endStatement last
        return .ret value
      else fail ⟨.returnOutsideFunction, pos⟩
    | some (.symbol .leftBrace) => return .block (← braces last (statement levels s))
    | some (.symbol .semicolon) => drop; return .empty
    | some w =>
      match Word.declares? w with
      | some kind =>
        drop
        let items ← commaSeparated (declarator last kind (expr Power.item))
        endStatement last
        return .declare kind items
      | none =>
        let e ← expr Power.any
        endStatement last
        return .expr e

/-- The statements of a row of lexemes. -/
def program (row : List Lexeme) : Except ScriptError (List Stmt) :=
  let last := (row.getLast?.map Lexeme.pos).getD .start
  match untilEnd (statement maxNesting ⟨last, false, false⟩) row with
  | .error e => .error e
  | .ok (body, _) => .ok body

end Grammar

/-- The statements of a script. -/
def parse (script : String) : Except ScriptError (List Stmt) :=
  match lexemes script with
  | .error e => .error e
  | .ok row => Grammar.program row

end Stencil.Script
