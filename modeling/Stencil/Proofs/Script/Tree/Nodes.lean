/-
  The parts of a tree that carry a position.

  `nodes` lists them, however deep they lie: the expressions, the declared names and the declared
  functions.  What is assigned to counts as the expression that names it, with all the expressions
  in it (`Place.nodes_toExpr`).
-/
import Stencil.Script.Tree

namespace Stencil.Script

/-- A part of a script that carries a position. -/
inductive Node where
  | expr (e : Expr)
  | declarator (x : Declarator)
  | function (f : Function)

/-! ## Expressions -/

mutual

/-- The expression and every expression in it. -/
def Expr.nodes : Expr → List Expr
  | .number pos x => [.number pos x]
  | .text pos s => [.text pos s]
  | .bool pos b => [.bool pos b]
  | .null pos => [.null pos]
  | .undefined pos => [.undefined pos]
  | .name pos s => [.name pos s]
  | .array pos items => .array pos items :: Expr.nodesItems items
  | .object pos members => .object pos members :: Expr.nodesMembers members
  | .unary pos op operand => .unary pos op operand :: operand.nodes
  | .binary pos op lhs rhs => .binary pos op lhs rhs :: (lhs.nodes ++ rhs.nodes)
  | .logical pos op lhs rhs => .logical pos op lhs rhs :: (lhs.nodes ++ rhs.nodes)
  | .conditional pos cond whenTrue whenFalse =>
    .conditional pos cond whenTrue whenFalse ::
      (cond.nodes ++ (whenTrue.nodes ++ whenFalse.nodes))
  | .assign pos op target value => .assign pos op target value :: (target.nodes ++ value.nodes)
  | .update pos op before target => .update pos op before target :: target.nodes
  | .member pos object property => .member pos object property :: object.nodes
  | .index pos object key => .index pos object key :: (object.nodes ++ key.nodes)
  | .call pos callee args => .call pos callee args :: (callee.nodes ++ Expr.nodesItems args)

/-- The expressions in a place, the one that names it and the keys included. -/
def Place.nodes : Place → List Expr
  | .name pos s => [.name pos s]
  | .member pos base property => .member pos base.toExpr property :: base.nodes
  | .index pos base key => .index pos base.toExpr key :: (base.nodes ++ key.nodes)

def Expr.nodesItems : List Expr → List Expr
  | [] => []
  | x :: xs => x.nodes ++ Expr.nodesItems xs

def Expr.nodesMembers : List (String × Expr) → List Expr
  | [] => []
  | (_, x) :: xs => x.nodes ++ Expr.nodesMembers xs

end

theorem Place.nodes_toExpr : ∀ p : Place, p.toExpr.nodes = p.nodes
  | .name _ _ => rfl
  | .member _ base _ => by rw [toExpr, Expr.nodes, nodes, nodes_toExpr base]
  | .index _ base _ => by rw [toExpr, Expr.nodes, nodes, nodes_toExpr base]

theorem Expr.nodes_of_toPlace? {e : Expr} {p : Place} (h : e.toPlace? = some p) :
    p.nodes = e.nodes := by
  rw [← Place.toExpr_of_toPlace? h, Place.nodes_toExpr]

/-! ## Statements -/

/-- The nodes of an expression that may be missing. -/
def Expr.nodesOption : Option Expr → List Node
  | none => []
  | some e => e.nodes.map .expr

def Declarator.nodesList : List Declarator → List Node
  | [] => []
  | x :: xs => .declarator x :: (Expr.nodesOption x.init ++ Declarator.nodesList xs)

def LoopStart.nodesOption : Option LoopStart → List Node
  | none => []
  | some (.declare _ items) => Declarator.nodesList items
  | some (.expr e) => e.nodes.map .expr

mutual

/-- Every part of a statement that carries a position, those in the bodies of declared functions
    included. -/
def Stmt.nodes : Stmt → List Node
  | .declare _ items => Declarator.nodesList items
  | .expr e => e.nodes.map .expr
  | .branch cond whenTrue whenFalse =>
    cond.nodes.map .expr ++ (whenTrue.nodes ++ Stmt.nodesElse whenFalse)
  | .whileLoop cond body => cond.nodes.map .expr ++ body.nodes
  | .doWhile body cond => body.nodes ++ cond.nodes.map .expr
  | .forLoop start cond update body =>
    LoopStart.nodesOption start ++ (Expr.nodesOption cond ++
      (Expr.nodesOption update ++ body.nodes))
  | .forOf _ _ iterable body => iterable.nodes.map .expr ++ body.nodes
  | .block body => Stmt.nodesList body
  | .function pos name params body => .function ⟨pos, name, params, body⟩ :: Stmt.nodesList body
  | .ret value => Expr.nodesOption value
  | .breakLoop | .continueLoop | .empty => []

def Stmt.nodesElse : Option Stmt → List Node
  | none => []
  | some stmt => stmt.nodes

def Stmt.nodesList : List Stmt → List Node
  | [] => []
  | x :: xs => x.nodes ++ Stmt.nodesList xs

end

end Stencil.Script
