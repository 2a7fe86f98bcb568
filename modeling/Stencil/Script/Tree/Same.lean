/-
  When two trees are the same: node by node, positions included, numbers by their value.
-/
import Stencil.Script.Tree

namespace Stencil.Script

/-- Both missing, or both there and related. -/
def sameOption {α : Type} (same : α → α → Bool) : Option α → Option α → Bool
  | none, none => true
  | some a, some b => same a b
  | _, _ => false

mutual

def Expr.same : Expr → Expr → Bool
  | .number p x, .number q y => p == q && x == y
  | .text p s, .text q t => p == q && s == t
  | .bool p a, .bool q b => p == q && a == b
  | .null p, .null q => p == q
  | .undefined p, .undefined q => p == q
  | .name p s, .name q t => p == q && s == t
  | .array p xs, .array q ys => p == q && Expr.sameList xs ys
  | .object p xs, .object q ys => p == q && Expr.sameMembers xs ys
  | .unary p op a, .unary q op' b => p == q && op == op' && Expr.same a b
  | .binary p op a b, .binary q op' a' b' =>
    p == q && op == op' && Expr.same a a' && Expr.same b b'
  | .logical p op a b, .logical q op' a' b' =>
    p == q && op == op' && Expr.same a a' && Expr.same b b'
  | .conditional p a b c, .conditional q a' b' c' =>
    p == q && Expr.same a a' && Expr.same b b' && Expr.same c c'
  | .assign p op a b, .assign q op' a' b' =>
    p == q && op == op' && Place.same a a' && Expr.same b b'
  | .update p op before a, .update q op' before' b =>
    p == q && op == op' && before == before' && Place.same a b
  | .member p a s, .member q b t => p == q && s == t && Expr.same a b
  | .index p a b, .index q a' b' => p == q && Expr.same a a' && Expr.same b b'
  | .call p a xs, .call q b ys => p == q && Expr.same a b && Expr.sameList xs ys
  | _, _ => false

def Place.same : Place → Place → Bool
  | .name p s, .name q t => p == q && s == t
  | .member p a s, .member q b t => p == q && s == t && Place.same a b
  | .index p a b, .index q a' b' => p == q && Place.same a a' && Expr.same b b'
  | _, _ => false

def Expr.sameList : List Expr → List Expr → Bool
  | [], [] => true
  | x :: xs, y :: ys => Expr.same x y && Expr.sameList xs ys
  | _, _ => false

def Expr.sameMembers : List (String × Expr) → List (String × Expr) → Bool
  | [], [] => true
  | (s, x) :: xs, (t, y) :: ys => s == t && Expr.same x y && Expr.sameMembers xs ys
  | _, _ => false

end

def Declarator.same (a b : Declarator) : Bool :=
  a.name == b.name && a.pos == b.pos && sameOption Expr.same a.init b.init

def Declarator.sameList : List Declarator → List Declarator → Bool
  | [], [] => true
  | x :: xs, y :: ys => x.same y && Declarator.sameList xs ys
  | _, _ => false

def LoopStart.same : LoopStart → LoopStart → Bool
  | .declare k xs, .declare k' ys => k == k' && Declarator.sameList xs ys
  | .expr a, .expr b => a.same b
  | _, _ => false

mutual

def Stmt.same : Stmt → Stmt → Bool
  | .declare k xs, .declare k' ys => k == k' && Declarator.sameList xs ys
  | .expr a, .expr b => a.same b
  | .branch c a b, .branch c' a' b' => c.same c' && Stmt.same a a' && Stmt.sameElse b b'
  | .whileLoop c a, .whileLoop c' a' => c.same c' && Stmt.same a a'
  | .doWhile a c, .doWhile a' c' => Stmt.same a a' && c.same c'
  | .forLoop s c u a, .forLoop s' c' u' a' =>
    sameOption LoopStart.same s s' && sameOption Expr.same c c' && sameOption Expr.same u u'
      && Stmt.same a a'
  | .forOf k n e a, .forOf k' n' e' a' => k == k' && n == n' && e.same e' && Stmt.same a a'
  | .block xs, .block ys => Stmt.sameList xs ys
  | .function p n ps xs, .function q m qs ys => p == q && n == m && ps == qs && Stmt.sameList xs ys
  | .ret a, .ret b => sameOption Expr.same a b
  | .breakLoop, .breakLoop => true
  | .continueLoop, .continueLoop => true
  | .empty, .empty => true
  | _, _ => false

def Stmt.sameElse : Option Stmt → Option Stmt → Bool
  | none, none => true
  | some a, some b => Stmt.same a b
  | _, _ => false

def Stmt.sameList : List Stmt → List Stmt → Bool
  | [], [] => true
  | x :: xs, y :: ys => Stmt.same x y && Stmt.sameList xs ys
  | _, _ => false

end

def Function.same (f g : Function) : Bool :=
  f.pos == g.pos && f.name == g.name && f.params == g.params && Stmt.sameList f.body g.body

end Stencil.Script
