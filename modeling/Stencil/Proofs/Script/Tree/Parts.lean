/-
  What a tree is made of.

  `positions` lists the positions that a tree carries, `functions` the functions that are declared
  in it, however deep they lie.  The parts of a declared function are parts of the tree around it
  (`positions_of_mem_functions`, `functions_of_mem_functions`), so what holds of a whole script
  holds of every function of it.

  `Placed` is about jumps: `break` and `continue` stand in a loop of the function that they are
  in, and `return` stands in a function.
-/
import Stencil.Script.Tree

namespace Stencil.Script

/-! ## Positions -/

mutual

/-- Every position in an expression. -/
def Expr.positions : Expr → List Position
  | .number pos _ | .text pos _ | .bool pos _ | .null pos | .undefined pos | .name pos _ => [pos]
  | .array pos items => pos :: Expr.positionsItems items
  | .object pos members => pos :: Expr.positionsMembers members
  | .unary pos _ operand => pos :: operand.positions
  | .binary pos _ lhs rhs => pos :: (lhs.positions ++ rhs.positions)
  | .logical pos _ lhs rhs => pos :: (lhs.positions ++ rhs.positions)
  | .conditional pos cond whenTrue whenFalse =>
    pos :: (cond.positions ++ (whenTrue.positions ++ whenFalse.positions))
  | .assign pos _ target value => pos :: (target.positions ++ value.positions)
  | .update pos _ _ target => pos :: target.positions
  | .member pos object _ => pos :: object.positions
  | .index pos object key => pos :: (object.positions ++ key.positions)
  | .call pos callee args => pos :: (callee.positions ++ Expr.positionsItems args)

def Place.positions : Place → List Position
  | .name pos _ => [pos]
  | .member pos base _ => pos :: base.positions
  | .index pos base key => pos :: (base.positions ++ key.positions)

def Expr.positionsItems : List Expr → List Position
  | [] => []
  | x :: xs => x.positions ++ Expr.positionsItems xs

def Expr.positionsMembers : List (String × Expr) → List Position
  | [] => []
  | (_, x) :: xs => x.positions ++ Expr.positionsMembers xs

end

theorem Expr.forall_positionsItems {P : Position → Prop} :
    ∀ {items : List Expr}, (∀ x ∈ items, ∀ p ∈ x.positions, P p) → ∀ p ∈ positionsItems items, P p
  | [], _ => by simp [positionsItems]
  | _ :: _, h => by
    rw [positionsItems, List.forall_mem_append]
    exact ⟨h _ List.mem_cons_self,
      forall_positionsItems fun y hy => h y (List.mem_cons_of_mem _ hy)⟩

theorem Expr.forall_positionsMembers {P : Position → Prop} :
    ∀ {members : List (String × Expr)}, (∀ x ∈ members, ∀ p ∈ x.2.positions, P p) →
      ∀ p ∈ positionsMembers members, P p
  | [], _ => by simp [positionsMembers]
  | _ :: _, h => by
    rw [positionsMembers, List.forall_mem_append]
    exact ⟨h _ List.mem_cons_self,
      forall_positionsMembers fun y hy => h y (List.mem_cons_of_mem _ hy)⟩

theorem Expr.pos_mem_positions (e : Expr) : e.pos ∈ e.positions := by
  cases e <;> simp [pos, positions]

/-- A place carries the positions of the expression that names it. -/
theorem Place.positions_toExpr : ∀ p : Place, p.toExpr.positions = p.positions
  | .name _ _ => rfl
  | .member _ base _ => by rw [toExpr, Expr.positions, positions, positions_toExpr base]
  | .index _ base _ => by rw [toExpr, Expr.positions, positions, positions_toExpr base]

theorem Expr.positions_of_toPlace? {e : Expr} {p : Place} (h : e.toPlace? = some p) :
    p.positions = e.positions := by
  rw [← Place.toExpr_of_toPlace? h, Place.positions_toExpr]

/-- Every position in an expression that may be missing. -/
def Expr.positionsOption : Option Expr → List Position
  | none => []
  | some e => e.positions

def Declarator.positionsList : List Declarator → List Position
  | [] => []
  | x :: xs => x.pos :: (Expr.positionsOption x.init ++ Declarator.positionsList xs)

theorem Declarator.forall_positionsList {P : Position → Prop} :
    ∀ {items : List Declarator},
      (∀ x ∈ items, P x.pos ∧ ∀ p ∈ Expr.positionsOption x.init, P p) →
        ∀ p ∈ positionsList items, P p
  | [], _ => by simp [positionsList]
  | _ :: _, h => by
    rw [positionsList, List.forall_mem_cons, List.forall_mem_append]
    have hx := h _ List.mem_cons_self
    exact ⟨hx.1, hx.2, forall_positionsList fun y hy => h y (List.mem_cons_of_mem _ hy)⟩

def LoopStart.positionsOption : Option LoopStart → List Position
  | none => []
  | some (.declare _ items) => Declarator.positionsList items
  | some (.expr e) => e.positions

mutual

/-- Every position in a statement, those in the bodies of declared functions included. -/
def Stmt.positions : Stmt → List Position
  | .declare _ items => Declarator.positionsList items
  | .expr e => e.positions
  | .branch cond whenTrue whenFalse =>
    cond.positions ++ (whenTrue.positions ++ Stmt.positionsElse whenFalse)
  | .whileLoop cond body => cond.positions ++ body.positions
  | .doWhile body cond => body.positions ++ cond.positions
  | .forLoop start cond update body =>
    LoopStart.positionsOption start ++ (Expr.positionsOption cond ++
      (Expr.positionsOption update ++ body.positions))
  | .forOf _ _ iterable body => iterable.positions ++ body.positions
  | .block body => Stmt.positionsList body
  | .function pos _ _ body => pos :: Stmt.positionsList body
  | .ret value => Expr.positionsOption value
  | .breakLoop | .continueLoop | .empty => []

def Stmt.positionsElse : Option Stmt → List Position
  | none => []
  | some stmt => stmt.positions

def Stmt.positionsList : List Stmt → List Position
  | [] => []
  | x :: xs => x.positions ++ Stmt.positionsList xs

end

theorem Stmt.forall_positionsList {P : Position → Prop} :
    ∀ {body : List Stmt}, (∀ x ∈ body, ∀ p ∈ x.positions, P p) → ∀ p ∈ positionsList body, P p
  | [], _ => by simp [positionsList]
  | _ :: _, h => by
    rw [positionsList, List.forall_mem_append]
    exact ⟨h _ List.mem_cons_self, forall_positionsList fun y hy => h y (List.mem_cons_of_mem _ hy)⟩

/-- Every position in a function. -/
def Function.positions (f : Function) : List Position := f.pos :: Stmt.positionsList f.body

/-! ## Declared functions -/

mutual

/-- Every function declared in a statement, those declared in other functions included. -/
def Stmt.functions : Stmt → List Function
  | .declare .. | .expr _ | .ret _ | .breakLoop | .continueLoop | .empty => []
  | .branch _ whenTrue whenFalse => whenTrue.functions ++ Stmt.functionsElse whenFalse
  | .whileLoop _ body => body.functions
  | .doWhile body _ => body.functions
  | .forLoop _ _ _ body => body.functions
  | .forOf _ _ _ body => body.functions
  | .block body => Stmt.functionsList body
  | .function pos name params body => ⟨pos, name, params, body⟩ :: Stmt.functionsList body

def Stmt.functionsElse : Option Stmt → List Function
  | none => []
  | some stmt => stmt.functions

def Stmt.functionsList : List Stmt → List Function
  | [] => []
  | x :: xs => x.functions ++ Stmt.functionsList xs

end

/-- What is declared directly is declared. -/
theorem mem_functionsList_of_declared {f : Function} :
    ∀ {body : List Stmt}, f ∈ declaredFunctions body → f ∈ Stmt.functionsList body
  | x :: xs, h => by
    rw [Stmt.functionsList, List.mem_append]
    rw [declaredFunctions, List.filterMap_cons] at h
    split at h
    · exact Or.inr (mem_functionsList_of_declared h)
    · rename_i g hg
      rcases List.mem_cons.mp h with rfl | h
      · cases x <;> cases hg
        exact Or.inl List.mem_cons_self
      · exact Or.inr (mem_functionsList_of_declared h)

mutual

/-- A declared function carries positions of the statement around it only. -/
theorem Stmt.positions_of_mem_functions {f : Function} {p : Position} (hp : p ∈ f.positions) :
    ∀ {stmt : Stmt}, f ∈ stmt.functions → p ∈ stmt.positions
  | .branch .., h => by
    simp only [functions, positions, List.mem_append] at h ⊢
    rcases h with h | h
    · exact Or.inr (Or.inl (positions_of_mem_functions hp h))
    · exact Or.inr (Or.inr (positionsElse_of_mem_functions hp h))
  | .whileLoop .., h => List.mem_append_right _ (positions_of_mem_functions hp h)
  | .doWhile .., h => List.mem_append_left _ (positions_of_mem_functions hp h)
  | .forLoop .., h => by
    simp only [positions, List.mem_append]
    exact Or.inr (Or.inr (Or.inr (positions_of_mem_functions hp h)))
  | .forOf .., h => List.mem_append_right _ (positions_of_mem_functions hp h)
  | .block _, h => positionsList_of_mem_functions hp h
  | .function .., h => by
    rcases List.mem_cons.mp h with rfl | h
    · exact hp
    · exact List.mem_cons_of_mem _ (positionsList_of_mem_functions hp h)

theorem Stmt.positionsElse_of_mem_functions {f : Function} {p : Position} (hp : p ∈ f.positions) :
    ∀ {stmt : Option Stmt}, f ∈ Stmt.functionsElse stmt → p ∈ Stmt.positionsElse stmt
  | some _, h => positions_of_mem_functions hp h

theorem Stmt.positionsList_of_mem_functions {f : Function} {p : Position} (hp : p ∈ f.positions) :
    ∀ {body : List Stmt}, f ∈ Stmt.functionsList body → p ∈ Stmt.positionsList body
  | _ :: _, h => by
    rcases List.mem_append.mp h with h | h
    · exact List.mem_append_left _ (positions_of_mem_functions hp h)
    · exact List.mem_append_right _ (positionsList_of_mem_functions hp h)

end

mutual

/-- What is declared in a declared function is declared in the statement around it. -/
theorem Stmt.functions_of_mem_functions {f g : Function} (hg : g ∈ Stmt.functionsList f.body) :
    ∀ {stmt : Stmt}, f ∈ stmt.functions → g ∈ stmt.functions
  | .branch .., h => by
    rcases List.mem_append.mp h with h | h
    · exact List.mem_append_left _ (functions_of_mem_functions hg h)
    · exact List.mem_append_right _ (functionsElse_of_mem_functions hg h)
  | .whileLoop _ _, h => by
    rw [functions] at h ⊢
    exact functions_of_mem_functions hg h
  | .doWhile _ _, h => by
    rw [functions] at h ⊢
    exact functions_of_mem_functions hg h
  | .forLoop _ _ _ _, h => by
    rw [functions] at h ⊢
    exact functions_of_mem_functions hg h
  | .forOf _ _ _ _, h => by
    rw [functions] at h ⊢
    exact functions_of_mem_functions hg h
  | .block _, h => functionsList_of_mem_functions hg h
  | .function .., h => by
    rcases List.mem_cons.mp h with rfl | h
    · exact List.mem_cons_of_mem _ hg
    · exact List.mem_cons_of_mem _ (functionsList_of_mem_functions hg h)

theorem Stmt.functionsElse_of_mem_functions {f g : Function}
    (hg : g ∈ Stmt.functionsList f.body) :
    ∀ {stmt : Option Stmt}, f ∈ Stmt.functionsElse stmt → g ∈ Stmt.functionsElse stmt
  | some _, h => functions_of_mem_functions hg h

theorem Stmt.functionsList_of_mem_functions {f g : Function}
    (hg : g ∈ Stmt.functionsList f.body) :
    ∀ {body : List Stmt}, f ∈ Stmt.functionsList body → g ∈ Stmt.functionsList body
  | _ :: _, h => by
    rcases List.mem_append.mp h with h | h
    · exact List.mem_append_left _ (functions_of_mem_functions hg h)
    · exact List.mem_append_right _ (functionsList_of_mem_functions hg h)

end

/-! ## Jumps -/

mutual

/-- Every `break` and `continue` stands in a loop and every `return` in a function, where
    `inLoop` and `inFunction` say what stands around the statement.  The body of a function is not
    inside the loops around the function. -/
def Stmt.Placed : (inLoop inFunction : Bool) → Stmt → Prop
  | _, _, .declare .. | _, _, .expr _ | _, _, .empty => True
  | inLoop, inFunction, .branch _ whenTrue whenFalse =>
    whenTrue.Placed inLoop inFunction ∧ Stmt.PlacedElse inLoop inFunction whenFalse
  | _, inFunction, .whileLoop _ body => body.Placed true inFunction
  | _, inFunction, .doWhile body _ => body.Placed true inFunction
  | _, inFunction, .forLoop _ _ _ body => body.Placed true inFunction
  | _, inFunction, .forOf _ _ _ body => body.Placed true inFunction
  | inLoop, inFunction, .block body => Stmt.PlacedList inLoop inFunction body
  | _, _, .function _ _ _ body => Stmt.PlacedList false true body
  | _, inFunction, .ret _ => inFunction = true
  | inLoop, _, .breakLoop | inLoop, _, .continueLoop => inLoop = true

def Stmt.PlacedElse : (inLoop inFunction : Bool) → Option Stmt → Prop
  | _, _, none => True
  | inLoop, inFunction, some stmt => stmt.Placed inLoop inFunction

def Stmt.PlacedList : (inLoop inFunction : Bool) → List Stmt → Prop
  | _, _, [] => True
  | inLoop, inFunction, x :: xs => x.Placed inLoop inFunction ∧ Stmt.PlacedList inLoop inFunction xs

end

/-- Every jump in the body of the function is in its place. -/
def Function.Placed (f : Function) : Prop := Stmt.PlacedList false true f.body

mutual

/-- In a statement with every jump in its place, so are those of the functions declared in it. -/
theorem Stmt.Placed.functions {f : Function} {inLoop inFunction : Bool} :
    ∀ {stmt : Stmt}, stmt.Placed inLoop inFunction → f ∈ stmt.functions → f.Placed
  | .branch .., h, hf => by
    rcases List.mem_append.mp hf with hf | hf
    · exact Stmt.Placed.functions h.1 hf
    · exact Stmt.PlacedElse.functions h.2 hf
  | .whileLoop _ _, h, hf => by
    rw [Placed] at h
    rw [Stmt.functions] at hf
    exact Stmt.Placed.functions h hf
  | .doWhile _ _, h, hf => by
    rw [Placed] at h
    rw [Stmt.functions] at hf
    exact Stmt.Placed.functions h hf
  | .forLoop _ _ _ _, h, hf => by
    rw [Placed] at h
    rw [Stmt.functions] at hf
    exact Stmt.Placed.functions h hf
  | .forOf _ _ _ _, h, hf => by
    rw [Placed] at h
    rw [Stmt.functions] at hf
    exact Stmt.Placed.functions h hf
  | .block _, h, hf => Stmt.PlacedList.functions h hf
  | .function .., h, hf => by
    rcases List.mem_cons.mp hf with rfl | hf
    · exact h
    · exact Stmt.PlacedList.functions h hf

theorem Stmt.PlacedElse.functions {f : Function} {inLoop inFunction : Bool} :
    ∀ {stmt : Option Stmt}, Stmt.PlacedElse inLoop inFunction stmt →
      f ∈ Stmt.functionsElse stmt → f.Placed
  | some _, h, hf => Stmt.Placed.functions h hf

theorem Stmt.PlacedList.functions {f : Function} {inLoop inFunction : Bool} :
    ∀ {body : List Stmt}, Stmt.PlacedList inLoop inFunction body →
      f ∈ Stmt.functionsList body → f.Placed
  | _ :: _, h, hf => by
    rcases List.mem_append.mp hf with hf | hf
    · exact Stmt.Placed.functions h.1 hf
    · exact Stmt.PlacedList.functions h.2 hf

end

end Stencil.Script
