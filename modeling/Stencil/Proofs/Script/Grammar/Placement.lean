/-
  Jumps in the scripts that are read.

  `break` and `continue` are derived only where a loop of the same function stands around them, and
  `return` only inside a function, because the body of a loop and the body of a function are
  derived in surroundings that say so.  Every jump of an accepted script is therefore in its place
  (`placedList_of_parse`).
-/
import Stencil.Proofs.Script.Grammar.Complete
import Stencil.Proofs.Script.Tree.Parts

namespace Stencil.Script

namespace Grammar

mutual

/-- What is derived as a statement has its jumps in the places that its surroundings allow. -/
theorem DerivesStmt.placed {n : Nat} {s : Surroundings} {row rest : List Lexeme} {stmt : Stmt} :
    DerivesStmt n s row stmt rest → stmt.Placed s.inLoop s.inFunction
  | .branch _ _ htrue _ => ⟨htrue.placed, trivial⟩
  | .branchElse _ _ htrue _ hfalse => ⟨htrue.placed, hfalse.placed⟩
  | .whileLoop _ _ hbody => hbody.placed
  | .doWhile _ hbody _ _ _ => hbody.placed
  | .forOf _ _ _ _ _ _ _ hbody => hbody.placed
  | .forLoop _ _ _ hbody => hbody.placed
  | .function _ _ _ _ _ hbody => hbody.placed
  | .breakLoop _ hloop _ => hloop
  | .continueLoop _ hloop _ => hloop
  | .retNone _ hfunction _ => hfunction
  | .retSome _ hfunction _ _ _ => hfunction
  | .block _ hbody => hbody.placed
  | .empty _ => trivial
  | .declare _ _ _ => trivial
  | .expr _ _ _ => trivial

theorem DerivesBlock.placed {n : Nat} {s : Surroundings} {row rest : List Lexeme}
    {body : List Stmt} :
    DerivesBlock n s row body rest → Stmt.PlacedList s.inLoop s.inFunction body
  | .nil _ => trivial
  | .cons _ hx hothers => ⟨hx.placed, hothers.placed⟩

end

theorem DerivesProgram.placed {s : Surroundings} {row : List Lexeme} {body : List Stmt}
    (h : DerivesProgram s row body) : Stmt.PlacedList s.inLoop s.inFunction body := by
  induction h with
  | nil => trivial
  | cons hx _ ih => exact ⟨hx.placed, ih⟩

end Grammar

/-- **Every jump of an accepted script is in its place.**  Around the whole script there is neither
    a loop nor a function. -/
theorem placedList_of_parse {script : String} {body : List Stmt} (h : parse script = .ok body) :
    Stmt.PlacedList false false body := by
  obtain ⟨row, -, hprogram⟩ := (parse_eq_ok_iff .start).mp h
  exact hprogram.placed

/-- The function is declared in a script that is accepted. -/
def Function.Parsed (f : Function) : Prop :=
  ∃ script body, parse script = .ok body ∧ f ∈ Stmt.functionsList body

namespace Function.Parsed

theorem placed {f : Function} (h : f.Parsed) : f.Placed := by
  obtain ⟨script, body, hbody, hf⟩ := h
  exact (placedList_of_parse hbody).functions hf

/-- What is declared in a function of a script is declared in the script. -/
theorem inner {f g : Function} (h : f.Parsed) (hg : g ∈ Stmt.functionsList f.body) : g.Parsed := by
  obtain ⟨script, body, hbody, hf⟩ := h
  exact ⟨script, body, hbody, Stmt.functionsList_of_mem_functions hg hf⟩

end Function.Parsed

end Stencil.Script
