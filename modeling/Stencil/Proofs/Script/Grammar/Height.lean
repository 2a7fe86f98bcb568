/-
  How high the trees of accepted scripts are.

  A level is taken for each expression, for each suffix behind an operand and for each operator
  behind a first operand, and it is given back when the operand or the expression is complete.
  Levels that an operand has given back are free again for the operators that put nodes on top of
  it, so the levels do not count the nodes above a leaf: with one level more, an expression has
  one level more at each suffix and each operator on the way, and the bound on its height grows
  by twice the number of levels (`exprBound`).  The height of a whole tree is therefore bounded by
  the square of the limit and not by a multiple of it.
-/
import Stencil.Proofs.Script.Grammar.Sound

namespace Stencil.Script

/-! ## The height of a tree -/

mutual

/-- The nodes on the longest way from the root of an expression to a leaf. -/
def Expr.height : Expr → Nat
  | .number .. | .text .. | .bool .. | .null .. | .undefined .. | .name .. => 1
  | .array _ items => Expr.heights items + 1
  | .object _ members => Expr.memberHeights members + 1
  | .unary _ _ operand => operand.height + 1
  | .binary _ _ lhs rhs => max lhs.height rhs.height + 1
  | .logical _ _ lhs rhs => max lhs.height rhs.height + 1
  | .conditional _ cond whenTrue whenFalse =>
    max cond.height (max whenTrue.height whenFalse.height) + 1
  | .assign _ _ target value => max target.height value.height + 1
  | .update _ _ _ target => target.height + 1
  | .member _ object _ => object.height + 1
  | .index _ object key => max object.height key.height + 1
  | .call _ callee args => max callee.height (Expr.heights args) + 1

def Place.height : Place → Nat
  | .name .. => 1
  | .member _ base _ => base.height + 1
  | .index _ base key => max base.height key.height + 1

/-- The height of the highest of some expressions. -/
def Expr.heights : List Expr → Nat
  | [] => 0
  | x :: xs => max x.height (Expr.heights xs)

def Expr.memberHeights : List (String × Expr) → Nat
  | [] => 0
  | (_, x) :: xs => max x.height (Expr.memberHeights xs)

end

/-- The height of an expression that may be missing. -/
def Expr.heightOf : Option Expr → Nat
  | none => 0
  | some e => e.height

/-- The height of the highest initial value of a declaration. -/
def Declarator.heights : List Declarator → Nat
  | [] => 0
  | x :: xs => max (Expr.heightOf x.init) (Declarator.heights xs)

/-- What a loop does before its first round is a statement, and counts as one. -/
def LoopStart.height : LoopStart → Nat
  | .declare _ items => Declarator.heights items + 1
  | .expr e => e.height + 1

def LoopStart.heightOf : Option LoopStart → Nat
  | none => 0
  | some start => start.height

mutual

/-- The nodes on the longest way from the root of a statement to a leaf, statements and
    expressions counted. -/
def Stmt.height : Stmt → Nat
  | .declare _ items => Declarator.heights items + 1
  | .expr e => e.height + 1
  | .branch cond whenTrue whenFalse =>
    max cond.height (max whenTrue.height (Stmt.elseHeight whenFalse)) + 1
  | .whileLoop cond body => max cond.height body.height + 1
  | .doWhile body cond => max body.height cond.height + 1
  | .forLoop start cond update body =>
    max (LoopStart.heightOf start)
      (max (Expr.heightOf cond) (max (Expr.heightOf update) body.height)) + 1
  | .forOf _ _ iterable body => max iterable.height body.height + 1
  | .block body => Stmt.heights body + 1
  | .function _ _ _ body => Stmt.heights body + 1
  | .ret value => Expr.heightOf value + 1
  | .breakLoop | .continueLoop | .empty => 1

def Stmt.elseHeight : Option Stmt → Nat
  | none => 0
  | some stmt => stmt.height

/-- The height of the highest of some statements. -/
def Stmt.heights : List Stmt → Nat
  | [] => 0
  | x :: xs => max x.height (Stmt.heights xs)

end

/-- A place is as high as the expression that names it. -/
theorem Place.height_toExpr : ∀ p : Place, p.toExpr.height = p.height
  | .name _ _ => rfl
  | .member _ base _ => by rw [toExpr, Expr.height, height, height_toExpr base]
  | .index _ base _ => by rw [toExpr, Expr.height, height, height_toExpr base]

theorem Expr.height_of_toPlace? {e : Expr} {p : Place} (h : e.toPlace? = some p) :
    p.height = e.height := by
  rw [← Place.toExpr_of_toPlace? h, Place.height_toExpr]

theorem Stmt.height_le_heights {stmt : Stmt} :
    ∀ {body : List Stmt}, stmt ∈ body → stmt.height ≤ Stmt.heights body
  | x :: xs, h => by
    rw [heights]
    rcases List.mem_cons.mp h with rfl | h
    · exact Nat.le_max_left _ _
    · exact Nat.le_trans (height_le_heights h) (Nat.le_max_right _ _)

namespace Grammar

/-! ## The bounds -/

/-- The greatest height of an expression that is read with so many levels left.  The operand
    takes up the height of an expression with one level less and `n` suffixes on top of it; of
    the operators behind it the last one needs a level for its right operand. -/
def exprBound : Nat → Nat
  | 0 => 1
  | n + 1 => exprBound n + 1 + n + (n - 1)

/-- The greatest height of a statement that is read with so many levels left. -/
def stmtBound : Nat → Nat
  | 0 => 0
  | n + 1 => exprBound n + 2

theorem exprBound_lt_succ (n : Nat) : exprBound n < exprBound (n + 1) := by
  rw [exprBound]
  omega

theorem stmtBound_lt_succ (n : Nat) : stmtBound n < stmtBound (n + 1) := by
  cases n with
  | zero => exact Nat.succ_pos _
  | succ n => exact Nat.add_lt_add_right (exprBound_lt_succ n) 2

theorem exprBound_succ (n : Nat) : exprBound (n + 1) = (n + 1) * n + 2 := by
  induction n with
  | zero => rfl
  | succ n ih =>
    have h : (n + 1 + 1) * (n + 1) = (n + 1) * n + 2 * (n + 1) := by
      rw [Nat.mul_comm, Nat.mul_add, Nat.mul_add, Nat.mul_comm 2]
      omega
    rw [exprBound, ih, h]
    omega

theorem stmtBound_eq (n : Nat) : stmtBound (n + 2) = (n + 1) * n + 4 := by
  rw [stmtBound, exprBound_succ]

/-! ## Expressions -/

theorem DerivesExpr.levels_pos {n least : Nat} {row rest : List Lexeme} {e : Expr}
    (h : DerivesExpr n least row e rest) : 0 < n := by
  cases h with
  | mk _ _ => exact Nat.succ_pos _

theorem DerivesJoined.levels_pos {n : Nat} {row rest : List Lexeme} {lhs e : Expr} {power : Power}
    {c : Connective} (h : DerivesJoined n lhs power c row e rest) : 0 < n := by
  cases h with
  | binary hrhs => exact hrhs.levels_pos
  | logical hrhs => exact hrhs.levels_pos
  | assign _ hrhs => exact hrhs.levels_pos
  | conditional _ _ hfalse => exact hfalse.levels_pos

/-- What is no more than `bound` high, and no more than one node higher when it is not a place.
    An operand is higher by its brackets, which no place has around it. -/
structure OperandWithin (bound : Nat) (e : Expr) : Prop where
  height_le : e.height ≤ bound + 1
  of_place : ∀ {p : Place}, e.toPlace? = some p → e.height ≤ bound

mutual

theorem DerivesExpr.height_le {n least : Nat} {row rest : List Lexeme} {e : Expr} :
    DerivesExpr n least row e rest → e.height ≤ exprBound n
  | .mk (n := m) hlhs hops => hops.height_le hlhs.height_le (by omega)

theorem DerivesOperand.height_le {n : Nat} {row rest : List Lexeme} {e : Expr} :
    DerivesOperand n row e rest → e.height ≤ exprBound n + 1 + n
  | .update _ he htarget => by
    -- a place is as high as what it was read as, and the update is the node on top
    have h := he.height_le
    rw [Expr.height, Expr.height_of_toPlace? htarget]
    omega
  | .unary _ he => by
    have h := he.height_le
    rw [Expr.height]
    omega
  | .primary he hsuffixes => hsuffixes.height_le he.within (Nat.le_refl _)

theorem DerivesPrimary.within {n : Nat} {row rest : List Lexeme} {e : Expr} :
    DerivesPrimary n row e rest → OperandWithin (exprBound n) e
  | .atom (l := l) h => by
    have h1 : e.height = 1 := by
      unfold Word.atom? at h
      split at h <;> cases h <;> rfl
    have h0 : 1 ≤ exprBound n := by cases n <;> simp only [exprBound] <;> omega
    exact ⟨by omega, fun _ => by omega⟩
  | .group _ he _ => ⟨Nat.le_succ_of_le he.height_le, fun _ => he.height_le⟩
  | .array _ hitems => ⟨Nat.succ_le_succ hitems.heights_le, fun h => by cases h⟩
  | .object _ hmembers => ⟨Nat.succ_le_succ hmembers.heights_le, fun h => by cases h⟩

theorem DerivesSuffixes.height_le {n bound : Nat} {row rest : List Lexeme} {e e' : Expr}
    (h : OperandWithin bound e) (hbound : exprBound n ≤ bound) :
    DerivesSuffixes n e row e' rest → e'.height ≤ bound + 1 + n
  | .done _ _ => Nat.le_trans h.height_le (Nat.le_add_right _ _)
  | .update _ _ htarget => by
    have := h.of_place htarget
    rw [Expr.height, Expr.height_of_toPlace? htarget]
    omega
  | .more (n := m) _ hone hmore => by
    -- the level that the suffix takes is the node that it puts on top
    have hm := exprBound_lt_succ m
    have := hmore.height_le (hone.within h (by omega)) (by omega)
    omega

/-- A suffix puts one node on top of the operand. -/
theorem DerivesSuffixed.within {n bound : Nat} {row rest : List Lexeme} {e e' : Expr} {s : Suffix}
    (h : OperandWithin bound e) (hbound : exprBound n ≤ bound) :
    DerivesSuffixed n e s row e' rest → OperandWithin (bound + 1) e'
  | .member _ => by
    refine ⟨Nat.succ_le_succ h.height_le, fun hp => ?_⟩
    obtain ⟨base, hbase, -⟩ := Option.map_eq_some_iff.mp hp
    exact Nat.succ_le_succ (h.of_place hbase)
  | .index hkey _ => by
    have hk := hkey.height_le
    refine ⟨Nat.succ_le_succ (Nat.max_le.mpr ⟨h.height_le, by omega⟩), fun hp => ?_⟩
    obtain ⟨base, hbase, -⟩ := Option.map_eq_some_iff.mp hp
    exact Nat.succ_le_succ (Nat.max_le.mpr ⟨h.of_place hbase, by omega⟩)
  | .call hargs => by
    have ha := hargs.heights_le
    exact ⟨Nat.succ_le_succ (Nat.max_le.mpr ⟨h.height_le, by omega⟩), fun hp => by cases hp⟩

theorem DerivesOperators.height_le {n least bound : Nat} {row rest : List Lexeme} {lhs e : Expr}
    (h : lhs.height ≤ bound) (hbound : exprBound n ≤ bound) :
    DerivesOperators n least lhs row e rest → e.height ≤ bound + (n - 1)
  | .done _ => Nat.le_trans h (Nat.le_add_right _ _)
  | .more (n := m) _ hone hmore => by
    -- the operand on the right takes a level too, so there are fewer operators than levels
    have hm := exprBound_lt_succ m
    have hpos := hone.levels_pos
    have := hmore.height_le (hone.height_le h (by omega)) (by omega)
    omega

/-- A connective puts one node on top of its operands. -/
theorem DerivesJoined.height_le {n bound : Nat} {row rest : List Lexeme} {lhs e : Expr}
    {power : Power} {c : Connective} (h : lhs.height ≤ bound) (hbound : exprBound n ≤ bound) :
    DerivesJoined n lhs power c row e rest → e.height ≤ bound + 1
  | .binary hrhs => Nat.succ_le_succ (Nat.max_le.mpr ⟨h, Nat.le_trans hrhs.height_le hbound⟩)
  | .logical hrhs => Nat.succ_le_succ (Nat.max_le.mpr ⟨h, Nat.le_trans hrhs.height_le hbound⟩)
  | .assign htarget hrhs => by
    rw [Expr.height, Expr.height_of_toPlace? htarget]
    exact Nat.succ_le_succ (Nat.max_le.mpr ⟨h, Nat.le_trans hrhs.height_le hbound⟩)
  | .conditional htrue _ hfalse =>
    Nat.succ_le_succ (Nat.max_le.mpr ⟨h, Nat.max_le.mpr
      ⟨Nat.le_trans htrue.height_le hbound, Nat.le_trans hfalse.height_le hbound⟩⟩)

theorem DerivesItems.heights_le {n : Nat} {close : Symbol} {row rest : List Lexeme}
    {xs : List Expr} : DerivesItems n close row xs rest → Expr.heights xs ≤ exprBound n
  | .nil _ => Nat.zero_le _
  | .last _ hx _ _ => Nat.max_le.mpr ⟨hx.height_le, Nat.zero_le _⟩
  | .cons _ hx _ hothers => Nat.max_le.mpr ⟨hx.height_le, hothers.heights_le⟩

theorem DerivesMembers.heights_le {n : Nat} {row rest : List Lexeme} {xs : List (String × Expr)} :
    DerivesMembers n row xs rest → Expr.memberHeights xs ≤ exprBound n
  | .nil _ => Nat.zero_le _
  | .last hx _ => Nat.max_le.mpr ⟨hx.height_le, Nat.zero_le _⟩
  | .cons hx _ hothers => Nat.max_le.mpr ⟨hx.height_le, hothers.heights_le⟩

theorem DerivesMember.height_le {n : Nat} {row rest : List Lexeme} {x : String × Expr} :
    DerivesMember n row x rest → x.2.height ≤ exprBound n
  | .short _ _ => by cases n <;> simp only [Expr.height, exprBound] <;> omega
  | .keyed _ _ he => he.height_le

end

/-! ## Statements -/

theorem DerivesDeclarators.heights_le {n : Nat} {kind : DeclKind} {row rest : List Lexeme}
    {xs : List Declarator} (h : DerivesDeclarators n kind row xs rest) :
    Declarator.heights xs ≤ exprBound n := by
  have one {n kind row x rest} : DerivesDeclarator n kind row x rest →
      Expr.heightOf x.init ≤ exprBound n
    | .valued _ _ he => he.height_le
    | .bare _ _ _ => Nat.zero_le _
  induction h with
  | last hx _ => exact Nat.max_le.mpr ⟨one hx, Nat.zero_le _⟩
  | cons hx _ _ ih => exact Nat.max_le.mpr ⟨one hx, ih⟩

theorem DerivesCondition.height_le {n : Nat} {row rest : List Lexeme} {e : Expr} :
    DerivesCondition n row e rest → e.height ≤ exprBound n
  | .mk _ he _ => he.height_le

theorem DerivesOptional.height_le {n : Nat} {stop : Symbol} {row rest : List Lexeme}
    {e : Option Expr} : DerivesOptional n stop row e rest → Expr.heightOf e ≤ exprBound n
  | .none _ => Nat.zero_le _
  | .some _ he _ => he.height_le

theorem DerivesStart.height_le {n : Nat} {row rest : List Lexeme} {start : Option LoopStart} :
    DerivesStart n row start rest → LoopStart.heightOf start ≤ exprBound n + 1
  | .none _ => Nat.zero_le _
  | .declare _ hitems _ => Nat.succ_le_succ hitems.heights_le
  | .expr _ _ he _ => Nat.succ_le_succ he.height_le

mutual

theorem DerivesStmt.height_le {n : Nat} {s : Surroundings} {row rest : List Lexeme} {stmt : Stmt} :
    DerivesStmt n s row stmt rest → stmt.height ≤ stmtBound n
  | .branch (n := m) _ hcond htrue _ => by
    have := stmtBound_lt_succ m
    have := hcond.height_le
    have := htrue.height_le
    simp only [Stmt.height, Stmt.elseHeight, stmtBound] at *
    omega
  | .branchElse (n := m) _ hcond htrue _ hfalse => by
    have := stmtBound_lt_succ m
    have := hcond.height_le
    have := htrue.height_le
    have := hfalse.height_le
    simp only [Stmt.height, Stmt.elseHeight, stmtBound] at *
    omega
  | .whileLoop (n := m) _ hcond hbody => by
    have := stmtBound_lt_succ m
    have := hcond.height_le
    have := hbody.height_le
    simp only [Stmt.height, stmtBound] at *
    omega
  | .doWhile (n := m) _ hbody _ hcond _ => by
    have := stmtBound_lt_succ m
    have := hcond.height_le
    have := hbody.height_le
    simp only [Stmt.height, stmtBound] at *
    omega
  | .forOf (n := m) _ _ _ _ _ hiter _ hbody => by
    have := stmtBound_lt_succ m
    have := hiter.height_le
    have := hbody.height_le
    simp only [Stmt.height, stmtBound] at *
    omega
  | .forLoop (n := m) _ _ (.mk _ hstart hcond hupdate) hbody => by
    have := stmtBound_lt_succ m
    have := hstart.height_le
    have := hcond.height_le
    have := hupdate.height_le
    have := hbody.height_le
    simp only [Stmt.height, stmtBound] at *
    omega
  | .function (n := m) _ _ _ _ _ hbody => Nat.lt_of_le_of_lt hbody.heights_le (stmtBound_lt_succ m)
  | .block (n := m) _ hbody => Nat.lt_of_le_of_lt hbody.heights_le (stmtBound_lt_succ m)
  | .declare _ hitems _ => Nat.succ_le_succ (Nat.le_succ_of_le hitems.heights_le)
  | .expr _ he _ => Nat.succ_le_succ (Nat.le_succ_of_le he.height_le)
  | .retSome _ _ _ he _ => Nat.succ_le_succ (Nat.le_succ_of_le he.height_le)
  | .retNone _ _ _ => Nat.succ_le_succ (Nat.zero_le _)
  | .breakLoop _ _ _ => Nat.succ_le_succ (Nat.zero_le _)
  | .continueLoop _ _ _ => Nat.succ_le_succ (Nat.zero_le _)
  | .empty _ => Nat.succ_le_succ (Nat.zero_le _)

theorem DerivesBlock.heights_le {n : Nat} {s : Surroundings} {row rest : List Lexeme}
    {body : List Stmt} : DerivesBlock n s row body rest → Stmt.heights body ≤ stmtBound n
  | .nil _ => Nat.zero_le _
  | .cons _ hx hothers => Nat.max_le.mpr ⟨hx.height_le, hothers.heights_le⟩

end

theorem DerivesProgram.heights_le {s : Surroundings} {row : List Lexeme} {body : List Stmt}
    (h : DerivesProgram s row body) : Stmt.heights body ≤ stmtBound maxNesting := by
  induction h with
  | nil => exact Nat.zero_le _
  | cons hx _ ih => exact Nat.max_le.mpr ⟨hx.height_le, ih⟩

end Grammar

end Stencil.Script
