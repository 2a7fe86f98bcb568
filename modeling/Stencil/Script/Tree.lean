/-
  The trees that scripts are read into.

  Every expression carries the position of its first word.  What can be assigned to has a type of
  its own, `Place`, so that no tree holds an assignment to anything else; `Place.toExpr` reads a
  place as an expression and `Expr.toPlace?` finds the place that an expression names.
-/
import Stencil.Text.Position

namespace Stencil.Script

/-! ## Operators -/

inductive UnaryOp where
  | not | negate | plus | typeOf
  deriving DecidableEq, Repr

inductive BinaryOp where
  | add | sub | mul | div | rem | pow
  | equal | notEqual | strictEqual | strictNotEqual
  | less | lessEqual | greater | greaterEqual
  deriving DecidableEq, Repr

/-- Operators that may leave their second operand unevaluated. -/
inductive LogicalOp where
  | and | or | nullish
  deriving DecidableEq, Repr

inductive UpdateOp where
  | increment | decrement
  deriving DecidableEq, Repr

/-! ## Expressions and places -/

mutual

/-- An expression, with the position of its first word. -/
inductive Expr where
  | number (pos : Position) (x : Float)
  | text (pos : Position) (s : String)
  | bool (pos : Position) (b : Bool)
  | null (pos : Position)
  | undefined (pos : Position)
  | name (pos : Position) (s : String)
  | array (pos : Position) (items : List Expr)
  /-- The members in the order in which they are written. -/
  | object (pos : Position) (members : List (String × Expr))
  | unary (pos : Position) (op : UnaryOp) (operand : Expr)
  | binary (pos : Position) (op : BinaryOp) (lhs rhs : Expr)
  | logical (pos : Position) (op : LogicalOp) (lhs rhs : Expr)
  | conditional (pos : Position) (cond whenTrue whenFalse : Expr)
  /-- Assignment, or with an operator the assignment of what it makes of the old value. -/
  | assign (pos : Position) (op : Option BinaryOp) (target : Place) (value : Expr)
  /-- Increment or decrement, whose value is the new number when the operator stands before. -/
  | update (pos : Position) (op : UpdateOp) (before : Bool) (target : Place)
  | member (pos : Position) (object : Expr) (property : String)
  | index (pos : Position) (object key : Expr)
  | call (pos : Position) (callee : Expr) (args : List Expr)

/-- What can be assigned to: a variable, or a member of a place. -/
inductive Place where
  | name (pos : Position) (s : String)
  | member (pos : Position) (base : Place) (property : String)
  | index (pos : Position) (base : Place) (key : Expr)

end

namespace Expr

def pos : Expr → Position
  | number pos _ | text pos _ | bool pos _ | null pos | undefined pos | name pos _ | array pos _
  | object pos _ | unary pos _ _ | binary pos _ _ _ | logical pos _ _ _ | conditional pos _ _ _
  | assign pos _ _ _ | update pos _ _ _ | member pos _ _ | index pos _ _ | call pos _ _ => pos

/-- The place that an expression names, if it names one. -/
def toPlace? : Expr → Option Place
  | name pos s => some (.name pos s)
  | member pos whole property => whole.toPlace?.map (.member pos · property)
  | index pos whole key => whole.toPlace?.map (.index pos · key)
  | _ => none

/-- The expression as messages name it where a function was expected. -/
def describe : Expr → String
  | name _ s => s
  | member _ whole property => whole.describe ++ "." ++ property
  | index _ whole _ => whole.describe ++ "[...]"
  | _ => "expression"

end Expr

namespace Place

/-- The place read as an expression. -/
def toExpr : Place → Expr
  | name pos s => .name pos s
  | member pos base property => .member pos base.toExpr property
  | index pos base key => .index pos base.toExpr key

/-- The variable that the place lies in. -/
def root : Place → String
  | name _ s => s
  | member _ base _ => base.root
  | index _ base _ => base.root

theorem toPlace?_toExpr (p : Place) : p.toExpr.toPlace? = some p := by
  match p with
  | name pos s => rfl
  | member pos base property => simp [toExpr, Expr.toPlace?, toPlace?_toExpr base]
  | index pos base key => simp [toExpr, Expr.toPlace?, toPlace?_toExpr base]

theorem toExpr_of_toPlace? {e : Expr} {p : Place} (h : e.toPlace? = some p) : p.toExpr = e := by
  match e with
  | .name pos s => simp [Expr.toPlace?] at h; subst h; rfl
  | .member pos whole property =>
    simp only [Expr.toPlace?, Option.map_eq_some_iff] at h
    obtain ⟨base, hbase, rfl⟩ := h
    simp [toExpr, toExpr_of_toPlace? hbase]
  | .index pos whole key =>
    simp only [Expr.toPlace?, Option.map_eq_some_iff] at h
    obtain ⟨base, hbase, rfl⟩ := h
    simp [toExpr, toExpr_of_toPlace? hbase]
  | .number .. | .text .. | .bool .. | .null .. | .undefined .. | .array .. | .object ..
  | .unary .. | .binary .. | .logical .. | .conditional .. | .assign .. | .update .. | .call .. =>
    simp [Expr.toPlace?] at h

/-- An expression names a place exactly when it is that place read as an expression. -/
theorem toPlace?_eq_some_iff {e : Expr} {p : Place} : e.toPlace? = some p ↔ e = p.toExpr :=
  ⟨fun h => (toExpr_of_toPlace? h).symm, fun h => h ▸ toPlace?_toExpr p⟩

end Place

/-! ## Statements -/

/-- How a declaration binds its names. -/
inductive DeclKind where
  /-- In the function, or in the environment outside of functions. -/
  | varDecl
  /-- In the block. -/
  | letDecl
  /-- In the block, never to be assigned again. -/
  | constDecl
  deriving DecidableEq, Repr

/-- One name of a declaration, with its position and its initial value. -/
structure Declarator where
  name : String
  pos : Position
  init : Option Expr

/-- What a counting loop does before its first round. -/
inductive LoopStart where
  | declare (kind : DeclKind) (items : List Declarator)
  | expr (e : Expr)

inductive Stmt where
  | declare (kind : DeclKind) (items : List Declarator)
  | expr (e : Expr)
  | branch (cond : Expr) (whenTrue : Stmt) (whenFalse : Option Stmt)
  | whileLoop (cond : Expr) (body : Stmt)
  | doWhile (body : Stmt) (cond : Expr)
  | forLoop (start : Option LoopStart) (cond update : Option Expr) (body : Stmt)
  /-- A round for each item of an array or character of a string. -/
  | forOf (kind : DeclKind) (name : String) (iterable : Expr) (body : Stmt)
  | block (body : List Stmt)
  /-- A function declaration, with the position of its first word. -/
  | function (pos : Position) (name : String) (params : List String) (body : List Stmt)
  | ret (value : Option Expr)
  | breakLoop
  | continueLoop
  | empty

/-- A declared function. -/
structure Function where
  pos : Position
  name : String
  params : List String
  body : List Stmt

/-- What a loop does before its first round, as a statement. -/
def LoopStart.toStmt : LoopStart → Stmt
  | declare kind items => .declare kind items
  | expr e => .expr e

/-- The functions declared directly among some statements. -/
def declaredFunctions (body : List Stmt) : List Function :=
  body.filterMap fun
    | .function pos name params body => some ⟨pos, name, params, body⟩
    | _ => none

end Stencil.Script
