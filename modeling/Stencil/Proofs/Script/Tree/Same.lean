/-
  Sameness of trees.

  It is symmetric, and a tree is the same as itself if the numbers in it are equal to themselves,
  as all numbers are that are not NaN.
-/
import Mathlib
import Stencil.Proofs.Script.Tree.Nodes
import Stencil.Script.Tree.Same

namespace Stencil.Script

/-! ## Symmetry -/

/-! ### Expressions -/

mutual

theorem Expr.same_comm (a b : Expr) : a.same b = b.same a := by
  match a with
  | .number .. | .text .. | .bool .. | .null .. | .undefined .. | .name .. =>
    cases b <;> simp only [Expr.same, BEq.comm]
  | .array _ items => cases b <;> simp only [Expr.same, BEq.comm, Expr.sameList_comm items]
  | .object _ members => cases b <;> simp only [Expr.same, BEq.comm, Expr.sameMembers_comm members]
  | .unary _ _ x | .member _ x _ => cases b <;> simp only [Expr.same, BEq.comm, Expr.same_comm x]
  | .binary _ _ x y | .logical _ _ x y | .index _ x y =>
    cases b <;> simp only [Expr.same, BEq.comm, Expr.same_comm x, Expr.same_comm y]
  | .conditional _ x y z =>
    cases b <;>
      simp only [Expr.same, BEq.comm, Expr.same_comm x, Expr.same_comm y, Expr.same_comm z]
  | .assign _ _ target x =>
    cases b <;> simp only [Expr.same, BEq.comm, Place.same_comm target, Expr.same_comm x]
  | .update _ _ _ target => cases b <;> simp only [Expr.same, BEq.comm, Place.same_comm target]
  | .call _ x args =>
    cases b <;> simp only [Expr.same, BEq.comm, Expr.same_comm x, Expr.sameList_comm args]

theorem Place.same_comm (a b : Place) : a.same b = b.same a := by
  cases a with
  | name => cases b <;> simp only [Place.same, BEq.comm]
  | member _ base _ => cases b <;> simp only [Place.same, BEq.comm, Place.same_comm base]
  | index _ base key =>
    cases b <;> simp only [Place.same, BEq.comm, Place.same_comm base, Expr.same_comm key]

theorem Expr.sameList_comm (xs ys : List Expr) : Expr.sameList xs ys = Expr.sameList ys xs := by
  match xs, ys with
  | [], [] | [], _ :: _ | _ :: _, [] => simp only [Expr.sameList]
  | x :: xs, y :: ys => simp only [Expr.sameList, Expr.same_comm x, Expr.sameList_comm xs]

theorem Expr.sameMembers_comm (xs ys : List (String × Expr)) :
    Expr.sameMembers xs ys = Expr.sameMembers ys xs := by
  match xs, ys with
  | [], [] | [], _ :: _ | _ :: _, [] => simp only [Expr.sameMembers]
  | (_, x) :: xs, (_, _) :: _ =>
    simp only [Expr.sameMembers, BEq.comm, Expr.same_comm x, Expr.sameMembers_comm xs]

end

theorem sameOption_comm {α : Type} {same : α → α → Bool} (h : ∀ x y, same x y = same y x) :
    ∀ a b : Option α, sameOption same a b = sameOption same b a
  | none, none | none, some _ | some _, none => rfl
  | some x, some y => h x y

/-! ### Statements -/

theorem Declarator.same_comm (a b : Declarator) : a.same b = b.same a := by
  simp only [Declarator.same, BEq.comm, sameOption_comm Expr.same_comm a.init]

theorem Declarator.sameList_comm : ∀ xs ys : List Declarator, sameList xs ys = sameList ys xs
  | [], [] | [], _ :: _ | _ :: _, [] => rfl
  | x :: xs, y :: ys => by simp only [sameList, same_comm x, sameList_comm xs]

theorem LoopStart.same_comm (a b : LoopStart) : a.same b = b.same a := by
  cases a <;> cases b <;>
    simp only [LoopStart.same, BEq.comm, Declarator.sameList_comm, Expr.same_comm]

mutual

theorem Stmt.same_comm (a b : Stmt) : a.same b = b.same a := by
  match a with
  | .declare _ items => cases b <;> simp only [Stmt.same, BEq.comm, Declarator.sameList_comm items]
  | .expr x => cases b <;> simp only [Stmt.same, Expr.same_comm x]
  | .branch x y z =>
    cases b <;> simp only [Stmt.same, Expr.same_comm x, Stmt.same_comm y, Stmt.sameElse_comm z]
  | .whileLoop x y | .doWhile y x =>
    cases b <;> simp only [Stmt.same, Expr.same_comm x, Stmt.same_comm y]
  | .forLoop start cond update body =>
    cases b <;>
      simp only [Stmt.same, sameOption_comm LoopStart.same_comm start,
        sameOption_comm Expr.same_comm cond, sameOption_comm Expr.same_comm update,
        Stmt.same_comm body]
  | .forOf _ _ x body =>
    cases b <;> simp only [Stmt.same, BEq.comm, Expr.same_comm x, Stmt.same_comm body]
  | .block body => cases b <;> simp only [Stmt.same, Stmt.sameList_comm body]
  | .function _ _ _ body => cases b <;> simp only [Stmt.same, BEq.comm, Stmt.sameList_comm body]
  | .ret value => cases b <;> simp only [Stmt.same, sameOption_comm Expr.same_comm value]
  | .breakLoop | .continueLoop | .empty => cases b <;> simp only [Stmt.same]

theorem Stmt.sameElse_comm (a b : Option Stmt) : Stmt.sameElse a b = Stmt.sameElse b a := by
  match a, b with
  | none, none | none, some _ | some _, none => simp only [Stmt.sameElse]
  | some x, some _ => simp only [Stmt.sameElse, Stmt.same_comm x]

theorem Stmt.sameList_comm (xs ys : List Stmt) : Stmt.sameList xs ys = Stmt.sameList ys xs := by
  match xs, ys with
  | [], [] | [], _ :: _ | _ :: _, [] => simp only [Stmt.sameList]
  | x :: xs, y :: ys => simp only [Stmt.sameList, Stmt.same_comm x, Stmt.sameList_comm xs]

end

theorem Function.same_comm (f g : Function) : f.same g = g.same f := by
  simp only [Function.same, BEq.comm, Stmt.sameList_comm f.body]

/-! ## Trees without NaN -/

/-- If the expression is a number, then one that is equal to itself. -/
def Expr.Definite : Expr → Prop
  | .number _ x => (x == x) = true
  | _ => True

def Node.Definite : Node → Prop
  | .expr e => e.Definite
  | _ => True

theorem Node.definite_map {xs : List Expr} :
    (∀ x ∈ xs.map .expr, Node.Definite x) ↔ ∀ x ∈ xs, x.Definite :=
  List.forall_mem_map (f := Node.expr)

/-! ### Expressions -/

mutual

theorem Expr.same_self (e : Expr) (h : ∀ x ∈ e.nodes, x.Definite) : e.same e = true := by
  cases e with
  | number =>
    have hx : (_ == _) = true := h _ List.mem_cons_self
    simpa only [Expr.same, beq_self_eq_true, Bool.true_and] using hx
  | text | bool | null | undefined | name => simp only [Expr.same, beq_self_eq_true, Bool.and_self]
  | array _ items =>
    simp only [Expr.nodes, List.forall_mem_cons] at h
    simp only [Expr.same, beq_self_eq_true, Expr.sameList_self items h.2, Bool.and_self]
  | object _ members =>
    simp only [Expr.nodes, List.forall_mem_cons] at h
    simp only [Expr.same, beq_self_eq_true, Expr.sameMembers_self members h.2, Bool.and_self]
  | unary _ _ x | member _ x _ =>
    simp only [Expr.nodes, List.forall_mem_cons] at h
    simp only [Expr.same, beq_self_eq_true, Expr.same_self x h.2, Bool.and_self]
  | binary _ _ x y | logical _ _ x y | index _ x y =>
    simp only [Expr.nodes, List.forall_mem_cons, List.forall_mem_append] at h
    simp only [Expr.same, beq_self_eq_true, Expr.same_self x h.2.1, Expr.same_self y h.2.2,
      Bool.and_self]
  | conditional _ x y z =>
    simp only [Expr.nodes, List.forall_mem_cons, List.forall_mem_append] at h
    simp only [Expr.same, beq_self_eq_true, Expr.same_self x h.2.1, Expr.same_self y h.2.2.1,
      Expr.same_self z h.2.2.2, Bool.and_self]
  | assign _ _ target x =>
    simp only [Expr.nodes, List.forall_mem_cons, List.forall_mem_append] at h
    simp only [Expr.same, beq_self_eq_true, target.same_self h.2.1, Expr.same_self x h.2.2,
      Bool.and_self]
  | update _ _ _ target =>
    simp only [Expr.nodes, List.forall_mem_cons] at h
    simp only [Expr.same, beq_self_eq_true, target.same_self h.2, Bool.and_self]
  | call _ x args =>
    simp only [Expr.nodes, List.forall_mem_cons, List.forall_mem_append] at h
    simp only [Expr.same, beq_self_eq_true, Expr.same_self x h.2.1, Expr.sameList_self args h.2.2,
      Bool.and_self]

theorem Place.same_self (p : Place) (h : ∀ x ∈ p.nodes, x.Definite) : p.same p = true := by
  cases p with
  | name => simp only [Place.same, beq_self_eq_true, Bool.and_self]
  | member _ base _ =>
    simp only [Place.nodes, List.forall_mem_cons] at h
    simp only [Place.same, beq_self_eq_true, base.same_self h.2, Bool.and_self]
  | index _ base key =>
    simp only [Place.nodes, List.forall_mem_cons, List.forall_mem_append] at h
    simp only [Place.same, beq_self_eq_true, base.same_self h.2.1, key.same_self h.2.2,
      Bool.and_self]

theorem Expr.sameList_self (xs : List Expr) (h : ∀ x ∈ Expr.nodesItems xs, x.Definite) :
    Expr.sameList xs xs = true := by
  cases xs with
  | nil => simp only [Expr.sameList]
  | cons x xs =>
    rw [Expr.nodesItems, List.forall_mem_append] at h
    simp only [Expr.sameList, Expr.same_self x h.1, Expr.sameList_self xs h.2, Bool.and_self]

theorem Expr.sameMembers_self (xs : List (String × Expr))
    (h : ∀ x ∈ Expr.nodesMembers xs, x.Definite) : Expr.sameMembers xs xs = true := by
  match xs with
  | [] => simp only [Expr.sameMembers]
  | (_, x) :: xs =>
    rw [Expr.nodesMembers, List.forall_mem_append] at h
    simp only [Expr.sameMembers, beq_self_eq_true, Expr.same_self x h.1,
      Expr.sameMembers_self xs h.2, Bool.and_self]

end

theorem Expr.sameOption_self {e : Option Expr} (h : ∀ x ∈ Expr.nodesOption e, x.Definite) :
    sameOption Expr.same e e = true := by
  cases e with
  | none => rfl
  | some e => exact e.same_self (Node.definite_map.mp h)

/-! ### Statements -/

theorem Declarator.sameList_self : ∀ {xs : List Declarator},
    (∀ x ∈ nodesList xs, x.Definite) → sameList xs xs = true
  | [], _ => rfl
  | x :: xs, h => by
    simp only [nodesList, List.forall_mem_cons, List.forall_mem_append] at h
    simp only [sameList, same, beq_self_eq_true, Expr.sameOption_self h.2.1, sameList_self h.2.2,
      Bool.and_self]

theorem LoopStart.sameOption_self {start : Option LoopStart}
    (h : ∀ x ∈ nodesOption start, x.Definite) : sameOption LoopStart.same start start = true := by
  rcases start with - | ⟨kind, items⟩ | e
  · rfl
  · simp only [sameOption, LoopStart.same, beq_self_eq_true, Declarator.sameList_self h,
      Bool.and_self]
  · exact e.same_self (Node.definite_map.mp h)

mutual

theorem Stmt.same_self (s : Stmt) (h : ∀ x ∈ s.nodes, x.Definite) : s.same s = true := by
  cases s with
  | declare _ items =>
    simp only [Stmt.same, beq_self_eq_true, Declarator.sameList_self h, Bool.and_self]
  | expr e => exact e.same_self (Node.definite_map.mp h)
  | branch cond x y =>
    simp only [Stmt.nodes, List.forall_mem_append, Node.definite_map] at h
    simp only [Stmt.same, cond.same_self h.1, Stmt.same_self x h.2.1, Stmt.sameElse_self y h.2.2,
      Bool.and_self]
  | whileLoop cond body =>
    simp only [Stmt.nodes, List.forall_mem_append, Node.definite_map] at h
    simp only [Stmt.same, cond.same_self h.1, Stmt.same_self body h.2, Bool.and_self]
  | doWhile body cond =>
    simp only [Stmt.nodes, List.forall_mem_append, Node.definite_map] at h
    simp only [Stmt.same, cond.same_self h.2, Stmt.same_self body h.1, Bool.and_self]
  | forLoop start cond update body =>
    simp only [Stmt.nodes, List.forall_mem_append] at h
    simp only [Stmt.same, LoopStart.sameOption_self h.1, Expr.sameOption_self h.2.1,
      Expr.sameOption_self h.2.2.1, Stmt.same_self body h.2.2.2, Bool.and_self]
  | forOf _ _ e body =>
    simp only [Stmt.nodes, List.forall_mem_append, Node.definite_map] at h
    simp only [Stmt.same, beq_self_eq_true, e.same_self h.1, Stmt.same_self body h.2, Bool.and_self]
  | block body => exact Stmt.sameList_self body h
  | function _ _ _ body =>
    simp only [Stmt.nodes, List.forall_mem_cons] at h
    simp only [Stmt.same, beq_self_eq_true, Stmt.sameList_self body h.2, Bool.and_self]
  | ret e => exact Expr.sameOption_self h
  | breakLoop | continueLoop | empty => simp only [Stmt.same]

theorem Stmt.sameElse_self (s : Option Stmt) (h : ∀ x ∈ Stmt.nodesElse s, x.Definite) :
    Stmt.sameElse s s = true := by
  cases s with
  | none => simp only [Stmt.sameElse]
  | some s => exact Stmt.same_self s h

theorem Stmt.sameList_self (xs : List Stmt) (h : ∀ x ∈ Stmt.nodesList xs, x.Definite) :
    Stmt.sameList xs xs = true := by
  cases xs with
  | nil => simp only [Stmt.sameList]
  | cons x xs =>
    rw [Stmt.nodesList, List.forall_mem_append] at h
    simp only [Stmt.sameList, Stmt.same_self x h.1, Stmt.sameList_self xs h.2, Bool.and_self]

end

/-- A function without NaN in it is the same as itself. -/
theorem Function.same_self (f : Function) (h : ∀ x ∈ Stmt.nodesList f.body, x.Definite) :
    f.same f = true := by
  simp only [Function.same, beq_self_eq_true, Stmt.sameList_self f.body h, Bool.and_self]

end Stencil.Script
