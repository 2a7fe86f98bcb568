/-
  Faults before and during a run.

  A fault of syntax is one that is found before anything runs: such a script leaves its
  environment as it was, and a script that is accepted never fails with one.  The second part is
  about the whole evaluator: every jump of an accepted script is in its place, so none leaves the
  body of a function or the script, and nothing else that runs raises a fault of syntax.  Functions
  that earlier scripts left in the environment are covered as long as these were accepted
  themselves, which every run keeps up.
-/
import Stencil.Proofs.Script.Grammar.Faults
import Stencil.Proofs.Script.Grammar.Placement
import Stencil.Proofs.Script.Run.Jumps
import Stencil.Proofs.Script.Run.Sound

namespace Stencil.Script

/-- The functions of accepted scripts are closed under declaration, wherever they stand. -/
theorem closed_parsed : Closed (fun _ => True) Function.Parsed :=
  fun _ hf => ⟨fun _ _ => trivial, fun _ hg => hf.inner hg⟩

/-- **Faults of syntax are exactly those found before anything runs.**  Let every function in the
    environment come from a script that was accepted.  A script that is refused fails with a fault
    of syntax and leaves the environment alone.  In one that is accepted every jump is in its
    place; what it fails with is no fault of syntax, the functions it leaves behind come from
    accepted scripts again, neither the script nor the body of such a function finishes with a
    `break` or `continue`, and the script does not finish with a `return` either.  That what is
    assigned to is a place lies in the type of the trees. -/
theorem execute_faults (limits : Limits) (script : String) {env : Environment}
    (henv : env.Holds Function.Parsed) :
    (∀ e, parse script = .error e →
      e.isSyntax = true ∧ execute limits script env = .failed e env) ∧
    ∀ body, parse script = .ok body →
      Stmt.PlacedList false false body ∧
      (∀ e env', execute limits script env = .failed e env' →
        e.isSyntax = false ∧ env'.Holds Function.Parsed) ∧
      (∀ env', execute limits script env = .done () env' → env'.Holds Function.Parsed) ∧
      (∀ steps m m' flow, execAll limits.maxDepth steps body m = .done flow m' → flow = .next) ∧
      ∀ f : Function, f.Parsed → f.Placed ∧
        ∀ steps m m' flow, execAll limits.maxDepth steps f.body m = .done flow m' →
          flow = .next ∨ ∃ v, flow = .ret v := by
  refine ⟨fun e he => ⟨(parse_fault he).1, by rw [execute, he]⟩, fun body hbody => ?_⟩
  have hplaced := placedList_of_parse hbody
  have hover : Stmt.OverList (fun _ => True) Function.Parsed body :=
    ⟨fun _ _ => trivial, fun f hf => ⟨script, body, hbody, hf⟩⟩
  have hkeeps := runProgram_keeps closed_parsed limits hover henv
  have hexecute : execute limits script env = runProgram limits body env := by rw [execute, hbody]
  refine ⟨hplaced, fun e env' h => ?_, fun env' h => ?_, fun _ _ _ _ h => execAll_script hplaced h,
    fun f hf => ⟨hf.placed, fun _ _ _ _ h => execAll_body hf.placed h⟩⟩
  · rw [← hexecute, h] at hkeeps
    exact ⟨hkeeps.1.1, hkeeps.2⟩
  · rw [← hexecute, h] at hkeeps
    exact hkeeps

/-- A function left by an earlier script, called by a later one; and a `break` in no loop. -/
theorem execute_faults_missing :
    let f : Function := ⟨⟨0, 0⟩, "f", [], [.ret (some (.name ⟨0, 22⟩ "missing"))]⟩
    let env : Environment := [("f", .function 1 f)]
    env.Holds Function.Parsed ∧
    (∃ env', execute ⟨64, 100⟩ "f();" env = .failed ⟨.undefinedVariable "missing", ⟨0, 22⟩⟩ env' ∧
      env'.Holds Function.Parsed) ∧
    execute ⟨64, 100⟩ "break;" env = .failed ⟨.breakOutsideLoop, ⟨0, 0⟩⟩ env := by
  intro f env
  have hdeclares : lexemes "function f() \x7b return missing; \x7d" = .ok
      [⟨.keyword .kwFunction, ⟨0, 0⟩, false⟩, ⟨.name "f", ⟨0, 9⟩, false⟩,
       ⟨.symbol .leftParen, ⟨0, 10⟩, false⟩, ⟨.symbol .rightParen, ⟨0, 11⟩, false⟩,
       ⟨.symbol .leftBrace, ⟨0, 13⟩, false⟩, ⟨.keyword .kwReturn, ⟨0, 15⟩, false⟩,
       ⟨.name "missing", ⟨0, 22⟩, false⟩, ⟨.symbol .semicolon, ⟨0, 29⟩, false⟩,
       ⟨.symbol .rightBrace, ⟨0, 31⟩, false⟩] := by decide +kernel
  have hcalls : lexemes "f();" = .ok
      [⟨.name "f", ⟨0, 0⟩, false⟩, ⟨.symbol .leftParen, ⟨0, 1⟩, false⟩,
       ⟨.symbol .rightParen, ⟨0, 2⟩, false⟩, ⟨.symbol .semicolon, ⟨0, 3⟩, false⟩] := by
    decide +kernel
  have hbreaks : lexemes "break;" = .ok
      [⟨.keyword .kwBreak, ⟨0, 0⟩, false⟩, ⟨.symbol .semicolon, ⟨0, 5⟩, false⟩] := by
    decide +kernel
  have hf : f.Parsed := by
    refine ⟨"function f() \x7b return missing; \x7d",
      [.function f.pos f.name f.params f.body], ?_, ?_⟩
    · rw [parse, hdeclares]
      rfl
    · exact List.mem_cons_self
  have henv : env.Holds Function.Parsed := Environment.holds_iff.mpr (by simpa [env] using hf)
  have hbody : parse "f();" = .ok [.expr (.call ⟨0, 0⟩ (.name ⟨0, 0⟩ "f") [])] := by
    rw [parse, hcalls]
    rfl
  have hbreak : parse "break;" = .error ⟨.breakOutsideLoop, ⟨0, 0⟩⟩ := by
    rw [parse, hbreaks]
    rfl
  have hrun : execute ⟨64, 100⟩ "f();" env
      = .failed ⟨.undefinedVariable "missing", ⟨0, 22⟩⟩ env := by
    rw [execute, hbody]
    rfl
  refine ⟨henv, ⟨env, hrun, ?_⟩, ?_⟩
  · exact (((execute_faults ⟨64, 100⟩ "f();" henv).2 _ hbody).2.1 _ _ hrun).2
  · exact ((execute_faults ⟨64, 100⟩ "break;" henv).1 _ hbreak).2

end Stencil.Script
