/-
  Writing programs back as words.

  Every expression has a rank, which says how tightly its outermost operator binds: assignment
  binds loosest, and what stands in brackets or is a single word binds tightest.  A place in an
  expression asks for a rank, and an operand of a lower rank is put in parentheses there; no other
  parentheses are written, except around a statement that would begin with a brace.  The ranks
  follow the table of the language and know nothing of the powers by which scripts are read; how
  the two go together is a matter of a few comparisons (`Rank.power`).
-/
import Stencil.Proofs.Script.Tree.Positions
import Stencil.Script.Grammar.Statement

namespace Stencil.Script

/-! ## Ranks -/

/-- How tightly an expression is held together, the loosest first. -/
inductive Rank where
  | assignment | conditional | nullish | or | and | equality | relational | additive
  | multiplicative | exponent
  /-- An operator before its operand. -/
  | before
  /-- An increment or decrement behind its operand. -/
  | behind
  /-- A literal, a name, something in brackets, a member, an index or a call. -/
  | operand
  deriving DecidableEq, Repr

namespace Rank

/-- The number of ranks that are looser. -/
def depth : Rank → Nat
  | assignment => 0
  | conditional => 1
  | nullish => 2
  | or => 3
  | and => 4
  | equality => 5
  | relational => 6
  | additive => 7
  | multiplicative => 8
  | exponent => 9
  | before => 10
  | behind => 11
  | operand => 12

/-- The rank that is tighter by one. -/
def next : Rank → Rank
  | assignment => conditional
  | conditional => nullish
  | nullish => or
  | or => and
  | and => equality
  | equality => relational
  | relational => additive
  | additive => multiplicative
  | multiplicative => exponent
  | exponent => before
  | before => behind
  | behind | operand => operand

/-- The powers by which an expression of a rank is read. -/
def power : Rank → Power
  | assignment => .assignment
  | conditional => .conditional
  | nullish => .nullish
  | or => .or
  | and => .and
  | equality => .equality
  | relational => .relational
  | additive => .additive
  | multiplicative => .multiplicative
  | exponent => .exponent
  | before | behind | operand => ⟨Power.operand, Power.operand⟩

/-- Tighter ranks have larger powers, on both sides. -/
theorem power_mono {j k : Rank} (h : j.depth ≤ k.depth) :
    j.power.left ≤ k.power.left ∧ j.power.right ≤ k.power.right := by
  revert h
  cases j <;> cases k <;> decide

/-- An item of a list may be any expression. -/
theorem item_le (k : Rank) : Power.item ≤ k.power.left ∧ Power.item ≤ k.power.right := by
  cases k <;> decide

end Rank

/-! ## Operators -/

def UnaryOp.word : UnaryOp → Word
  | not => .symbol .bang
  | negate => .symbol .minus
  | plus => .symbol .plus
  | typeOf => .keyword .kwTypeof

def UpdateOp.word : UpdateOp → Word
  | increment => .symbol .plusPlus
  | decrement => .symbol .minusMinus

namespace BinaryOp

def symbol : BinaryOp → Symbol
  | add => .plus
  | sub => .minus
  | mul => .star
  | div => .slash
  | rem => .percent
  | pow => .starStar
  | equal => .equal
  | notEqual => .notEqual
  | strictEqual => .strictEqual
  | strictNotEqual => .strictNotEqual
  | less => .less
  | lessEqual => .lessEqual
  | greater => .greater
  | greaterEqual => .greaterEqual

def rank : BinaryOp → Rank
  | add | sub => .additive
  | mul | div | rem => .multiplicative
  | pow => .exponent
  | equal | notEqual | strictEqual | strictNotEqual => .equality
  | less | lessEqual | greater | greaterEqual => .relational

/-- What the operator asks for on its left.  A row of operators groups to the left, a row of powers
    to the right. -/
def leftRank (op : BinaryOp) : Rank := if op = pow then op.rank.next else op.rank

/-- What the operator asks for on its right. -/
def rightRank (op : BinaryOp) : Rank := if op = pow then op.rank else op.rank.next

theorem connective?_symbol (op : BinaryOp) :
    op.symbol.connective? = some (op.rank.power, .binary op) := by cases op <;> rfl

/-- The operator is taken behind an operand of the rank that it asks for on its left. -/
theorem left_lt (op : BinaryOp) : op.rank.power.left < op.leftRank.power.right := by
  cases op <;> decide

theorem left_le (op : BinaryOp) : op.rank.power.left ≤ op.leftRank.power.left := by
  cases op <;> decide

/-- What the operator asks for on its right has the power to stand there. -/
theorem right_le (op : BinaryOp) : op.rank.power.right ≤ op.rightRank.power.left ∧
    op.rank.power.right ≤ op.rightRank.power.right := by
  cases op <;> decide

end BinaryOp

namespace LogicalOp

def symbol : LogicalOp → Symbol
  | and => .andAnd
  | or => .orOr
  | nullish => .questionQuestion

def rank : LogicalOp → Rank
  | and => .and
  | or => .or
  | nullish => .nullish

theorem connective?_symbol (op : LogicalOp) :
    op.symbol.connective? = some (op.rank.power, .logical op) := by cases op <;> rfl

theorem left_lt (op : LogicalOp) : op.rank.power.left < op.rank.power.right := by
  cases op <;> decide

theorem right_le (op : LogicalOp) : op.rank.power.right ≤ op.rank.next.power.left ∧
    op.rank.power.right ≤ op.rank.next.power.right := by
  cases op <;> decide

end LogicalOp

/-- The symbol of an assignment.  The operators that are not listed have none, and no assignment
    with them is ever read. -/
def assignSymbol : Option BinaryOp → Symbol
  | some .add => .plusAssign
  | some .sub => .minusAssign
  | some .mul => .starAssign
  | some .div => .slashAssign
  | some .rem => .percentAssign
  | _ => .assign

def DeclKind.word : DeclKind → Word
  | varDecl => .keyword .kwVar
  | letDecl => .keyword .kwLet
  | constDecl => .keyword .kwConst

/-! ## Parentheses and commas -/

/-- Words in parentheses. -/
def enclosed (ws : List Word) : List Word :=
  .symbol .leftParen :: (ws ++ [.symbol .rightParen])

/-- The words of an expression of the rank `own` at a place that asks for `asked`. -/
def fitted (asked own : Rank) (ws : List Word) : List Word :=
  if own.depth < asked.depth then enclosed ws else ws

/-- Items with commas between them. -/
def commas : List (List Word) → List Word
  | [] => []
  | [item] => item
  | item :: items => item ++ .symbol .comma :: commas items

/-! ## Expressions -/

def Expr.rank : Expr → Rank
  | .assign .. => .assignment
  | .conditional .. => .conditional
  | .logical _ op _ _ => op.rank
  | .binary _ op _ _ => op.rank
  | .unary .. => .before
  | .update _ _ before _ => if before then .before else .behind
  | .number .. | .text .. | .bool .. | .null .. | .undefined .. | .name .. | .array .. | .object ..
  | .member .. | .index .. | .call .. => .operand

mutual

/-- The words of an expression. -/
def Expr.words : Expr → List Word
  | .number _ x => [.number x]
  | .text _ s => [.text s]
  | .bool _ b => [.keyword (if b then .kwTrue else .kwFalse)]
  | .null _ => [.keyword .kwNull]
  | .undefined _ => [.keyword .kwUndefined]
  | .name _ s => [.name s]
  | .array _ items =>
    .symbol .leftBracket :: (commas (Expr.wordsItems items) ++ [.symbol .rightBracket])
  | .object _ members =>
    .symbol .leftBrace :: (commas (Expr.wordsMembers members) ++ [.symbol .rightBrace])
  | .unary _ op operand => op.word :: fitted .before operand.rank operand.words
  | .binary _ op lhs rhs =>
    fitted op.leftRank lhs.rank lhs.words
      ++ .symbol op.symbol :: fitted op.rightRank rhs.rank rhs.words
  | .logical _ op lhs rhs =>
    fitted op.rank lhs.rank lhs.words
      ++ .symbol op.symbol :: fitted op.rank.next rhs.rank rhs.words
  | .conditional _ cond whenTrue whenFalse =>
    fitted Rank.conditional.next cond.rank cond.words
      ++ .symbol .question :: (whenTrue.words
        ++ .symbol .colon :: fitted .conditional whenFalse.rank whenFalse.words)
  | .assign _ op target value =>
    target.words ++ .symbol (assignSymbol op) :: fitted .assignment value.rank value.words
  | .update _ op before target =>
    if before then op.word :: target.words else target.words ++ [op.word]
  | .member _ object property =>
    fitted .operand object.rank object.words ++ [.symbol .dot, .ofName property]
  | .index _ object key =>
    fitted .operand object.rank object.words
      ++ .symbol .leftBracket :: (key.words ++ [.symbol .rightBracket])
  | .call _ callee args =>
    fitted .operand callee.rank callee.words
      ++ .symbol .leftParen :: (commas (Expr.wordsItems args) ++ [.symbol .rightParen])

def Place.words : Place → List Word
  | .name _ s => [.name s]
  | .member _ base property => base.words ++ [.symbol .dot, .ofName property]
  | .index _ base key =>
    base.words ++ .symbol .leftBracket :: (key.words ++ [.symbol .rightBracket])

def Expr.wordsItems : List Expr → List (List Word)
  | [] => []
  | x :: xs => x.words :: Expr.wordsItems xs

/-- Keys are written as text literals. -/
def Expr.wordsMembers : List (String × Expr) → List (List Word)
  | [] => []
  | (s, x) :: xs => (.text s :: .symbol .colon :: x.words) :: Expr.wordsMembers xs

end

@[simp] theorem Place.rank_toExpr (p : Place) : p.toExpr.rank = .operand := by cases p <;> rfl

theorem fitted_of_le {asked own : Rank} {ws : List Word} (h : asked.depth ≤ own.depth) :
    fitted asked own ws = ws := if_neg (Nat.not_lt.mpr h)

/-- A place is written like the expression that names it. -/
theorem Place.words_toExpr : ∀ p : Place, p.toExpr.words = p.words
  | .name _ _ => rfl
  | .member _ base _ => by
    rw [toExpr, Expr.words, Place.words, base.words_toExpr, base.rank_toExpr,
      fitted_of_le (Nat.le_refl _)]
  | .index _ base _ => by
    rw [toExpr, Expr.words, Place.words, base.words_toExpr, base.rank_toExpr,
      fitted_of_le (Nat.le_refl _)]

theorem Place.words_ne_nil : ∀ p : Place, p.words ≠ []
  | .name _ _ => by simp [words]
  | .member _ _ _ => by simp [words]
  | .index _ _ _ => by simp [words]

theorem Expr.words_ne_nil (e : Expr) : e.words ≠ [] := by
  cases e with
  | update pos op before target =>
    have := target.words_ne_nil
    cases before <;> simp [words]
  | _ => simp [words]

/-! ## Statements -/

def Declarator.words (x : Declarator) : List Word :=
  .name x.name :: match x.init with
    | none => []
    | some e => .symbol .assign :: e.words

/-- The words of a declaration, without the semicolon behind it. -/
def declarationWords (kind : DeclKind) (items : List Declarator) : List Word :=
  kind.word :: commas (items.map Declarator.words)

def LoopStart.words : LoopStart → List Word
  | .declare kind items => declarationWords kind items
  | .expr e => e.words

/-- The words of something that may be missing. -/
def wordsOrNone {α : Type} (words : α → List Word) : Option α → List Word
  | none => []
  | some a => words a

/-- An expression as a statement: it must not begin with the brace of a block. -/
def standingAlone (ws : List Word) : List Word :=
  if ws.head? = some (.symbol .leftBrace) then enclosed ws else ws

mutual

/-- The words of a statement. -/
@[simp] def Stmt.words : Stmt → List Word
  | .declare kind items => declarationWords kind items ++ [.symbol .semicolon]
  | .expr e => standingAlone e.words ++ [.symbol .semicolon]
  | .branch cond whenTrue whenFalse =>
    .keyword .kwIf :: (enclosed cond.words ++ (whenTrue.words ++ Stmt.wordsElse whenFalse))
  | .whileLoop cond body => .keyword .kwWhile :: (enclosed cond.words ++ body.words)
  | .doWhile body cond =>
    .keyword .kwDo :: (body.words
      ++ .keyword .kwWhile :: (enclosed cond.words ++ [.symbol .semicolon]))
  | .forLoop start cond update body =>
    .keyword .kwFor :: .symbol .leftParen :: (wordsOrNone LoopStart.words start
      ++ .symbol .semicolon :: (wordsOrNone Expr.words cond
        ++ .symbol .semicolon :: (wordsOrNone Expr.words update
          ++ .symbol .rightParen :: body.words)))
  | .forOf kind name iterable body =>
    .keyword .kwFor :: .symbol .leftParen :: kind.word :: .name name :: .name "of"
      :: (iterable.words ++ .symbol .rightParen :: body.words)
  | .block body => .symbol .leftBrace :: (Stmt.wordsList body ++ [.symbol .rightBrace])
  | .function _ name params body =>
    .keyword .kwFunction :: .name name :: .symbol .leftParen
      :: (commas (params.map fun param => [.name param]) ++ .symbol .rightParen
        :: .symbol .leftBrace :: (Stmt.wordsList body ++ [.symbol .rightBrace]))
  | .ret value => .keyword .kwReturn :: (wordsOrNone Expr.words value ++ [.symbol .semicolon])
  | .breakLoop => [.keyword .kwBreak, .symbol .semicolon]
  | .continueLoop => [.keyword .kwContinue, .symbol .semicolon]
  | .empty => [.symbol .semicolon]

@[simp] def Stmt.wordsElse : Option Stmt → List Word
  | none => []
  | some stmt => .keyword .kwElse :: stmt.words

/-- The words of statements one behind the other. -/
@[simp] def Stmt.wordsList : List Stmt → List Word
  | [] => []
  | x :: xs => x.words ++ Stmt.wordsList xs

end

end Stencil.Script
