/-
  Moving the positions in a tree.

  `mapPos` changes every position that a tree carries and nothing else.  Moving down by some rows
  is one instance, forgetting the positions another; what a tree names or calls is not touched by
  either.
-/
import Stencil.Script.Tree

namespace Stencil.Script

variable (f : Position → Position)

/-! ## Expressions and places -/

mutual

/-- The expression with every position changed by `f`. -/
def Expr.mapPos : Expr → Expr
  | .number pos x => .number (f pos) x
  | .text pos s => .text (f pos) s
  | .bool pos b => .bool (f pos) b
  | .null pos => .null (f pos)
  | .undefined pos => .undefined (f pos)
  | .name pos s => .name (f pos) s
  | .array pos items => .array (f pos) (Expr.mapPosItems items)
  | .object pos members => .object (f pos) (Expr.mapPosMembers members)
  | .unary pos op operand => .unary (f pos) op operand.mapPos
  | .binary pos op lhs rhs => .binary (f pos) op lhs.mapPos rhs.mapPos
  | .logical pos op lhs rhs => .logical (f pos) op lhs.mapPos rhs.mapPos
  | .conditional pos cond whenTrue whenFalse =>
    .conditional (f pos) cond.mapPos whenTrue.mapPos whenFalse.mapPos
  | .assign pos op target value => .assign (f pos) op target.mapPos value.mapPos
  | .update pos op before target => .update (f pos) op before target.mapPos
  | .member pos object property => .member (f pos) object.mapPos property
  | .index pos object key => .index (f pos) object.mapPos key.mapPos
  | .call pos callee args => .call (f pos) callee.mapPos (Expr.mapPosItems args)

def Place.mapPos : Place → Place
  | .name pos s => .name (f pos) s
  | .member pos base property => .member (f pos) base.mapPos property
  | .index pos base key => .index (f pos) base.mapPos key.mapPos

def Expr.mapPosItems : List Expr → List Expr
  | [] => []
  | x :: xs => x.mapPos :: Expr.mapPosItems xs

def Expr.mapPosMembers : List (String × Expr) → List (String × Expr)
  | [] => []
  | (s, x) :: xs => (s, x.mapPos) :: Expr.mapPosMembers xs

end

@[simp] theorem Expr.pos_mapPos (e : Expr) : (e.mapPos f).pos = f e.pos := by
  cases e <;> rfl

/-- An expression names the same place as before, moved. -/
theorem Expr.toPlace?_mapPos : ∀ e : Expr, (e.mapPos f).toPlace? = e.toPlace?.map (Place.mapPos f)
  | .name _ _ => rfl
  | .member _ whole _ => by
    rw [mapPos, toPlace?, toPlace?, toPlace?_mapPos whole, Option.map_map, Option.map_map]
    rfl
  | .index _ whole _ => by
    rw [mapPos, toPlace?, toPlace?, toPlace?_mapPos whole, Option.map_map, Option.map_map]
    rfl
  | .number .. | .text .. | .bool .. | .null .. | .undefined .. | .array .. | .object ..
  | .unary .. | .binary .. | .logical .. | .conditional .. | .assign .. | .update .. | .call .. =>
    rfl

theorem Expr.toPlace?_mapPos_of_some {e : Expr} {p : Place} (h : e.toPlace? = some p) :
    (e.mapPos f).toPlace? = some (p.mapPos f) := by
  rw [toPlace?_mapPos, h, Option.map_some]

/-! ## Statements -/

def Declarator.mapPos (x : Declarator) : Declarator :=
  ⟨x.name, f x.pos, x.init.map (Expr.mapPos f)⟩

def LoopStart.mapPos : LoopStart → LoopStart
  | .declare kind items => .declare kind (items.map (Declarator.mapPos f))
  | .expr e => .expr (e.mapPos f)

mutual

/-- The statement with every position changed by `f`. -/
def Stmt.mapPos : Stmt → Stmt
  | .declare kind items => .declare kind (items.map (Declarator.mapPos f))
  | .expr e => .expr (e.mapPos f)
  | .branch cond whenTrue whenFalse =>
    .branch (cond.mapPos f) whenTrue.mapPos (Stmt.mapPosElse whenFalse)
  | .whileLoop cond body => .whileLoop (cond.mapPos f) body.mapPos
  | .doWhile body cond => .doWhile body.mapPos (cond.mapPos f)
  | .forLoop start cond update body =>
    .forLoop (start.map (LoopStart.mapPos f)) (cond.map (Expr.mapPos f))
      (update.map (Expr.mapPos f)) body.mapPos
  | .forOf kind name iterable body => .forOf kind name (iterable.mapPos f) body.mapPos
  | .block body => .block (Stmt.mapPosList body)
  | .function pos name params body => .function (f pos) name params (Stmt.mapPosList body)
  | .ret value => .ret (value.map (Expr.mapPos f))
  | .breakLoop => .breakLoop
  | .continueLoop => .continueLoop
  | .empty => .empty

def Stmt.mapPosElse : Option Stmt → Option Stmt
  | none => none
  | some stmt => some stmt.mapPos

def Stmt.mapPosList : List Stmt → List Stmt
  | [] => []
  | x :: xs => x.mapPos :: Stmt.mapPosList xs

end

theorem Stmt.mapPosList_eq_map : ∀ body : List Stmt, mapPosList f body = body.map (mapPos f)
  | [] => rfl
  | x :: xs => by rw [mapPosList, mapPosList_eq_map xs, List.map_cons]

/-! ## Not moved -/

mutual

theorem Expr.mapPos_id : ∀ e : Expr, e.mapPos id = e
  | .number .. | .text .. | .bool .. | .null _ | .undefined _ | .name .. => rfl
  | .array _ items => by simp [Expr.mapPos, Expr.mapPosItems_id items]
  | .object _ members => by simp [Expr.mapPos, Expr.mapPosMembers_id members]
  | .unary _ _ operand => by simp [Expr.mapPos, operand.mapPos_id]
  | .binary _ _ lhs rhs | .logical _ _ lhs rhs | .index _ lhs rhs => by
    simp [Expr.mapPos, lhs.mapPos_id, rhs.mapPos_id]
  | .conditional _ cond whenTrue whenFalse => by
    simp [Expr.mapPos, cond.mapPos_id, whenTrue.mapPos_id, whenFalse.mapPos_id]
  | .assign _ _ target value => by simp [Expr.mapPos, target.mapPos_id, value.mapPos_id]
  | .update _ _ _ target => by simp [Expr.mapPos, target.mapPos_id]
  | .member _ object _ => by simp [Expr.mapPos, object.mapPos_id]
  | .call _ callee args => by simp [Expr.mapPos, callee.mapPos_id, Expr.mapPosItems_id args]

theorem Place.mapPos_id (p : Place) : p.mapPos id = p := by
  cases p with
  | name pos s => rfl
  | member pos base property => simp [Place.mapPos, base.mapPos_id]
  | index pos base key => simp [Place.mapPos, base.mapPos_id, key.mapPos_id]

theorem Expr.mapPosItems_id : ∀ items : List Expr, Expr.mapPosItems id items = items
  | [] => rfl
  | x :: xs => by simp [Expr.mapPosItems, x.mapPos_id, Expr.mapPosItems_id xs]

theorem Expr.mapPosMembers_id :
    ∀ members : List (String × Expr), Expr.mapPosMembers id members = members
  | [] => rfl
  | (_, x) :: xs => by simp [Expr.mapPosMembers, x.mapPos_id, Expr.mapPosMembers_id xs]

end

theorem Expr.map_mapPos_id (e : Option Expr) : e.map (Expr.mapPos id) = e := by
  rw [funext Expr.mapPos_id, Option.map_id']

theorem Declarator.mapPos_id (x : Declarator) : x.mapPos id = x := by
  rw [mapPos, Expr.map_mapPos_id]
  rfl

theorem Declarator.map_mapPos_id (items : List Declarator) :
    items.map (Declarator.mapPos id) = items := by
  rw [funext Declarator.mapPos_id, List.map_id']

theorem LoopStart.mapPos_id (start : LoopStart) : start.mapPos id = start := by
  cases start with
  | declare kind items => rw [mapPos, Declarator.map_mapPos_id]
  | expr e => rw [mapPos, Expr.mapPos_id]

mutual

theorem Stmt.mapPos_id : ∀ s : Stmt, s.mapPos id = s
  | .declare _ items => by rw [Stmt.mapPos, Declarator.map_mapPos_id]
  | .expr e => by rw [Stmt.mapPos, e.mapPos_id]
  | .branch cond whenTrue whenFalse => by
    rw [Stmt.mapPos, cond.mapPos_id, whenTrue.mapPos_id, Stmt.mapPosElse_id whenFalse]
  | .whileLoop cond body => by rw [Stmt.mapPos, cond.mapPos_id, body.mapPos_id]
  | .doWhile body cond => by rw [Stmt.mapPos, cond.mapPos_id, body.mapPos_id]
  | .forLoop start cond update body => by
    rw [Stmt.mapPos, funext LoopStart.mapPos_id, Option.map_id', Expr.map_mapPos_id,
      Expr.map_mapPos_id, body.mapPos_id]
  | .forOf _ _ iterable body => by rw [Stmt.mapPos, iterable.mapPos_id, body.mapPos_id]
  | .block body => by rw [Stmt.mapPos, Stmt.mapPosList_id body]
  | .function _ _ _ body => by rw [Stmt.mapPos, Stmt.mapPosList_id body, id]
  | .ret value => by rw [Stmt.mapPos, Expr.map_mapPos_id]
  | .breakLoop | .continueLoop | .empty => rfl

theorem Stmt.mapPosElse_id : ∀ s : Option Stmt, Stmt.mapPosElse id s = s
  | none => rfl
  | some s => by rw [Stmt.mapPosElse, s.mapPos_id]

theorem Stmt.mapPosList_id : ∀ body : List Stmt, Stmt.mapPosList id body = body
  | [] => rfl
  | x :: xs => by rw [Stmt.mapPosList, x.mapPos_id, Stmt.mapPosList_id xs]

end

/-! ## Without positions -/

/-- The expression with every position forgotten. -/
def Expr.erase (e : Expr) : Expr := e.mapPos fun _ => .start

def Place.erase (p : Place) : Place := p.mapPos fun _ => .start

/-- The statement with every position forgotten. -/
def Stmt.erase (stmt : Stmt) : Stmt := stmt.mapPos fun _ => .start

/-- An expression that is a place up to positions is a place. -/
theorem Expr.toPlace?_of_erase_eq {e e' : Expr} {p : Place} (h : e'.erase = e.erase)
    (hp : e.toPlace? = some p) : ∃ p', e'.toPlace? = some p' ∧ p'.erase = p.erase := by
  have h' : e'.erase.toPlace? = some p.erase := by
    rw [h]
    exact toPlace?_mapPos_of_some _ hp
  rw [erase, toPlace?_mapPos, Option.map_eq_some_iff] at h'
  exact h'

end Stencil.Script
