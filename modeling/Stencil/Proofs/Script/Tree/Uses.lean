/-
  The names that code uses.

  `uses` lists what a piece of code does with names: which it reads, which it changes, which it
  declares.  The bodies of declared functions are left out, because they run on their own, when
  they are called; `usesWhole` adds them, however deep they lie.  `bound` lists the names that a
  statement binds in the very block it stands in.
-/
import Stencil.Proofs.Script.Tree.Parts
import Stencil.Script.Evaluate

namespace Stencil.Script

/-- What code does with a name. -/
inductive NameUse where
  /-- Its value is read. -/
  | read
  /-- It is the variable of an assignment or update, or of an array changed by `push` or `pop`. -/
  | change
  /-- A declaration or a loop over items declares it. -/
  | declare (kind : DeclKind)
  /-- It names a declared function. -/
  | function
  deriving DecidableEq

/-- The use gives the name a value. -/
def NameUse.writes : NameUse → Bool
  | read => false
  | change | declare _ | function => true

/-- The use binds the name where the code runs. -/
def NameUse.binds : NameUse → Bool
  | read | change => false
  | declare _ | function => true

/-! ## Expressions -/

/-- The variable that a call of `callee` changes, if it is a `push` or `pop` on a place. -/
def Expr.mutates : Expr → List (NameUse × String)
  | .member _ whole property =>
    match mutatedPlace? whole property with
    | some place => [(.change, place.root)]
    | none => []
  | _ => []

mutual

/-- The uses of names in an expression. -/
def Expr.uses : Expr → List (NameUse × String)
  | .number .. | .text .. | .bool .. | .null _ | .undefined _ => []
  | .name _ s => [(.read, s)]
  | .array _ items => Expr.usesItems items
  | .object _ members => Expr.usesMembers members
  | .unary _ _ operand => operand.uses
  | .binary _ _ lhs rhs => lhs.uses ++ rhs.uses
  | .logical _ _ lhs rhs => lhs.uses ++ rhs.uses
  | .conditional _ cond whenTrue whenFalse => cond.uses ++ (whenTrue.uses ++ whenFalse.uses)
  | .assign _ _ target value => target.uses ++ value.uses
  | .update _ _ _ target => target.uses
  | .member _ object _ => object.uses
  | .index _ object key => object.uses ++ key.uses
  | .call _ callee args => callee.mutates ++ (callee.uses ++ Expr.usesItems args)

/-- The uses of names in what is assigned to: its variable is changed, its keys are read. -/
def Place.uses : Place → List (NameUse × String)
  | .name _ s => [(.change, s)]
  | .member _ base _ => base.uses
  | .index _ base key => base.uses ++ key.uses

def Expr.usesItems : List Expr → List (NameUse × String)
  | [] => []
  | x :: xs => x.uses ++ Expr.usesItems xs

def Expr.usesMembers : List (String × Expr) → List (NameUse × String)
  | [] => []
  | (_, x) :: xs => x.uses ++ Expr.usesMembers xs

end

/-- What is assigned to is changed. -/
theorem Place.root_mem_uses : ∀ p : Place, (NameUse.change, p.root) ∈ p.uses
  | .name _ _ => List.mem_singleton.mpr rfl
  | .member _ base _ => base.root_mem_uses
  | .index _ base _ => List.mem_append_left _ base.root_mem_uses

/-- Apart from the change of its variable, a place uses the names that the expression does. -/
theorem Place.uses_toExpr {u : NameUse × String} : ∀ {p : Place}, u ∈ p.uses →
    u = (.change, p.root) ∨ u ∈ p.toExpr.uses
  | .name _ _, h => Or.inl (List.mem_singleton.mp h)
  | .member _ base _, h => by
    rw [uses] at h
    exact uses_toExpr (p := base) h
  | .index _ base key, h => by
    rw [uses, List.mem_append] at h
    rw [toExpr, Expr.uses, List.mem_append]
    rcases h with h | h
    · exact (uses_toExpr h).imp_right Or.inl
    · exact Or.inr (Or.inr h)

/-- The uses of names in an expression that may be missing. -/
def Expr.usesOption : Option Expr → List (NameUse × String)
  | none => []
  | some e => e.uses

theorem Expr.not_mem_mutates {kind : DeclKind} {name : String} (e : Expr) :
    (NameUse.declare kind, name) ∉ e.mutates := by
  unfold mutates
  split
  · split <;> simp
  · exact List.not_mem_nil

section

variable {kind : DeclKind} {name : String}

mutual

/-- An expression declares no variables itself. -/
theorem Expr.not_mem_uses : ∀ e : Expr, (NameUse.declare kind, name) ∉ e.uses
  | .number .. | .text .. | .bool .. | .null _ | .undefined _ | .name .. => by simp [Expr.uses]
  | .array _ items => by simp [Expr.uses, Expr.not_mem_usesItems items]
  | .object _ members => by simp [Expr.uses, Expr.not_mem_usesMembers members]
  | .unary _ _ operand => by simp [Expr.uses, operand.not_mem_uses]
  | .binary _ _ lhs rhs | .logical _ _ lhs rhs | .index _ lhs rhs => by
    simp [Expr.uses, lhs.not_mem_uses, rhs.not_mem_uses]
  | .conditional _ cond whenTrue whenFalse => by
    simp [Expr.uses, cond.not_mem_uses, whenTrue.not_mem_uses, whenFalse.not_mem_uses]
  | .assign _ _ target value => by simp [Expr.uses, target.not_mem_uses, value.not_mem_uses]
  | .update _ _ _ target => by simp [Expr.uses, target.not_mem_uses]
  | .member _ object _ => by simp [Expr.uses, object.not_mem_uses]
  | .call _ callee args => by
    simp [Expr.uses, callee.not_mem_mutates, callee.not_mem_uses, Expr.not_mem_usesItems args]

theorem Place.not_mem_uses : ∀ p : Place, (NameUse.declare kind, name) ∉ p.uses
  | .name .. => by simp [Place.uses]
  | .member _ base _ => by simp [Place.uses, base.not_mem_uses]
  | .index _ base key => by simp [Place.uses, base.not_mem_uses, key.not_mem_uses]

theorem Expr.not_mem_usesItems :
    ∀ items : List Expr, (NameUse.declare kind, name) ∉ Expr.usesItems items
  | [] => List.not_mem_nil
  | x :: xs => by simp [Expr.usesItems, x.not_mem_uses, Expr.not_mem_usesItems xs]

theorem Expr.not_mem_usesMembers :
    ∀ members : List (String × Expr), (NameUse.declare kind, name) ∉ Expr.usesMembers members
  | [] => List.not_mem_nil
  | (_, x) :: xs => by simp [Expr.usesMembers, x.not_mem_uses, Expr.not_mem_usesMembers xs]

end

end

/-! ## Statements -/

def Declarator.usesList (kind : DeclKind) : List Declarator → List (NameUse × String)
  | [] => []
  | x :: xs => (.declare kind, x.name) :: (Expr.usesOption x.init ++ Declarator.usesList kind xs)

def LoopStart.usesOption : Option LoopStart → List (NameUse × String)
  | none => []
  | some (.declare kind items) => Declarator.usesList kind items
  | some (.expr e) => e.uses

mutual

/-- The uses of names in a statement, those in the bodies of declared functions excluded. -/
def Stmt.uses : Stmt → List (NameUse × String)
  | .declare kind items => Declarator.usesList kind items
  | .expr e => e.uses
  | .branch cond whenTrue whenFalse => cond.uses ++ (whenTrue.uses ++ Stmt.usesElse whenFalse)
  | .whileLoop cond body => cond.uses ++ body.uses
  | .doWhile body cond => body.uses ++ cond.uses
  | .forLoop start cond update body =>
    LoopStart.usesOption start ++ (Expr.usesOption cond ++ (Expr.usesOption update ++ body.uses))
  | .forOf kind name iterable body => (.declare kind, name) :: (iterable.uses ++ body.uses)
  | .block body => Stmt.usesList body
  | .function _ name _ _ => [(.function, name)]
  | .ret value => Expr.usesOption value
  | .breakLoop | .continueLoop | .empty => []

def Stmt.usesElse : Option Stmt → List (NameUse × String)
  | none => []
  | some stmt => stmt.uses

def Stmt.usesList : List Stmt → List (NameUse × String)
  | [] => []
  | x :: xs => x.uses ++ Stmt.usesList xs

end

/-- What is declared directly among some statements is a name that they use. -/
theorem mem_usesList_of_declared {f : Function} :
    ∀ {body : List Stmt}, f ∈ declaredFunctions body →
      (NameUse.function, f.name) ∈ Stmt.usesList body
  | x :: xs, h => by
    rw [Stmt.usesList, List.mem_append]
    rw [declaredFunctions, List.filterMap_cons] at h
    split at h
    · exact Or.inr (mem_usesList_of_declared h)
    · rename_i g hg
      rcases List.mem_cons.mp h with rfl | h
      · cases x <;> cases hg
        exact Or.inl List.mem_cons_self
      · exact Or.inr (mem_usesList_of_declared h)

/-- The names that a statement binds in the block it stands in.  What it binds in blocks of its own
    is gone with these, and `var` binds in the function or the environment. -/
def Stmt.bound : Stmt → List String
  | .declare .letDecl items | .declare .constDecl items => items.map Declarator.name
  | _ => []

/-- How the statement declares variables, if it is a declaration. -/
def Stmt.declKind? : Stmt → Option DeclKind
  | .declare kind _ => some kind
  | _ => none

/-- A statement that declares no constants directly binds none of its constants directly. -/
theorem Stmt.not_mem_uses_of_bound {s : Stmt} (h : s.declKind? ≠ some .constDecl) {name : String}
    (hname : name ∈ s.bound) : (NameUse.declare .constDecl, name) ∉ s.uses := by
  have hitems : ∀ items : List Declarator,
      (NameUse.declare .constDecl, name) ∉ Declarator.usesList .letDecl items := by
    intro items
    induction items with
    | nil => exact List.not_mem_nil
    | cons x xs ih =>
      cases hinit : x.init with
      | none => simp [Declarator.usesList, Expr.usesOption, hinit, ih]
      | some e => simp [Declarator.usesList, Expr.usesOption, hinit, ih, e.not_mem_uses]
  cases s with
  | declare kind items =>
    cases kind with
    | varDecl => cases hname
    | letDecl => exact hitems items
    | constDecl => exact absurd rfl h
  | _ => cases hname

/-- The names that a statement declares by `var`, other than in functions declared in it. -/
def Stmt.vars (s : Stmt) : List String :=
  s.uses.filterMap fun
    | (.declare .varDecl, name) => some name
    | _ => none

theorem Stmt.mem_vars {s : Stmt} {name : String} :
    name ∈ s.vars ↔ (NameUse.declare .varDecl, name) ∈ s.uses := by
  simp only [vars, List.mem_filterMap]
  constructor
  · rintro ⟨u, hmem, h⟩
    split at h <;> cases h
    exact hmem
  · exact fun h => ⟨_, h, rfl⟩

theorem Stmt.mem_usesList {u : NameUse × String} {body : List Stmt} :
    u ∈ Stmt.usesList body ↔ ∃ s ∈ body, u ∈ s.uses := by
  induction body with
  | nil => simp [Stmt.usesList]
  | cons s rest ih => simp [Stmt.usesList, ih]

theorem Stmt.mem_varsList {body : List Stmt} {name : String} :
    (∃ s ∈ body, name ∈ s.vars) ↔ (NameUse.declare .varDecl, name) ∈ Stmt.usesList body := by
  rw [Stmt.mem_usesList]
  exact exists_congr fun s => and_congr_right fun _ => Stmt.mem_vars

/-! ## With the functions in it -/

/-- The uses of names in some statements and in all functions declared in them. -/
def Stmt.usesWhole (body : List Stmt) : List (NameUse × String) :=
  Stmt.usesList body ++ (Stmt.functionsList body).flatMap fun f => Stmt.usesList f.body

theorem Stmt.usesList_subset_usesWhole (body : List Stmt) :
    Stmt.usesList body ⊆ Stmt.usesWhole body := List.subset_append_left _ _

/-- What a declared function uses, its own functions included, is used in the code around it. -/
theorem Stmt.usesWhole_subset {f : Function} {body : List Stmt}
    (hf : f ∈ Stmt.functionsList body) : Stmt.usesWhole f.body ⊆ Stmt.usesWhole body := by
  intro u hu
  refine List.mem_append_right _ (List.mem_flatMap.mpr ?_)
  rcases List.mem_append.mp hu with hu | hu
  · exact ⟨f, hf, hu⟩
  · obtain ⟨g, hg, hu⟩ := List.mem_flatMap.mp hu
    exact ⟨g, Stmt.functionsList_of_mem_functions hg hf, hu⟩

end Stencil.Script
