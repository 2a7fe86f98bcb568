/-
  Where a script fails.

  A fault that is found before anything runs stands at a lexeme of the script, or keeps the script
  from being cut into lexemes.  A fault of a run is met in code of the script and then stands there,
  or in code that the environment held before: then the innermost call that is active is a call of
  a function of that code (`execute_located`).  Where the environment held no functions, every
  fault stands in the script itself.
-/
import Stencil.Proofs.Script.Grammar.Spans
import Stencil.Proofs.Script.Run.Faults
import Stencil.Proofs.Script.Run.Origins
import Stencil.Proofs.Script.Run.Raised

namespace Stencil.Script

/-- The fault stands at a lexeme of the script, or is what keeps the script from being cut into
    lexemes. -/
def AtLexeme (script : String) (e : ScriptError) : Prop :=
  lexemes script = .error e ∨ ∃ row, lexemes script = .ok row ∧ ∃ l ∈ row, l.pos = e.pos

/-- The function of the run `number` stands in code that the environment holds: it is a function
    in a value of the environment, or is declared in one of the same run. -/
def Environment.HoldsCode (env : Environment) (number : Nat) (f : Function) : Prop :=
  ∃ g, (number, g) ∈ Value.originsMembers env ∧ (f = g ∨ f ∈ Stmt.functionsList g.body)

/-- The script, run in the environment, meets the fault in code that the environment held before:
    in the statements of a function of that code, which was called, and in no call that these
    make. -/
def MetInHeld (limits : Limits) (script : String) (env : Environment) (e : ScriptError) : Prop :=
  ∃ body, parse script = .ok body ∧ ∃ number f, env.HoldsCode number f ∧
    (Task.execAll body).RaisesInCall limits.maxDepth limits.steps
      ((Machine.start env.freshRun env).hoist body) number f e

/-- A script that meets a fault there fails with it. -/
theorem MetInHeld.failed {limits : Limits} {script : String} {env : Environment} {e : ScriptError}
    (h : MetInHeld limits script env e) : ∃ env', execute limits script env = .failed e env' := by
  obtain ⟨body, hparse, number, f, -, hraises⟩ := h
  obtain ⟨m, hrun⟩ := hraises.failed
  rw [execute, hparse]
  exact ⟨m.env, runProgram_eq_failed.mpr ⟨m, hrun, rfl⟩⟩

/-- **A fault of a script stands in the script, or was met in code of an earlier one.** -/
theorem execute_located {limits : Limits} {script : String} {env env' : Environment}
    {e : ScriptError} (h : execute limits script env = .failed e env') :
    MetInHeld limits script env e ∨ AtLexeme script e := by
  unfold execute at h
  cases hparse : parse script with
  | error e' =>
    rw [hparse] at h
    cases h
    exact Or.inr (parse_fault hparse).2
  | ok body =>
    rw [hparse] at h
    obtain ⟨row, hrow, hbody⟩ := parse_positions hparse
    have hlexeme (hp : e.pos ∈ Stmt.positionsList body) : AtLexeme script e :=
      Or.inr ⟨row, hrow, hbody _ hp⟩
    obtain ⟨m, hrun, -⟩ := runProgram_eq_failed.mp h
    rcases Task.run_failed_cases hrun with hraises | ⟨number, f, hraises⟩
    · exact Or.inr (hlexeme hraises.pos_mem)
    · -- whatever is called stands in the script or in the code held before
      let C (number : Nat) (f : Function) : Prop :=
        f ∈ Stmt.functionsList body ∨ env.HoldsCode number f
      have hC : Nested C := by
        rintro number f (hf | ⟨g, hg, hf⟩) k hk
        · exact Or.inl (Stmt.functionsList_of_mem_functions hk hf)
        · refine Or.inr ⟨g, hg, Or.inr ?_⟩
          rcases hf with rfl | hf
          · exact hk
          · exact Stmt.functionsList_of_mem_functions hk hf
      have hstart : (Machine.start env.freshRun env).Rooted C env.freshRun :=
        ⟨⟨Value.forall_originsMembers.mp fun p hp => Or.inr ⟨p.2, hp, Or.inl rfl⟩,
          fun _ hs => by cases hs⟩, rfl⟩
      have hin : ∀ g ∈ Stmt.functionsList body, C env.freshRun g := fun g hg => Or.inl hg
      obtain ⟨active, left, pos, args, m', hcomes, hdepth, hmeets⟩ := id hraises
      obtain ⟨-, -, hcalled, -⟩ := hcomes.given hC hin (hstart.hoist hin)
      rcases hcalled with hf | hheld
      · have hpos := List.mem_cons_of_mem f.pos hmeets.pos_mem
        exact Or.inr (hlexeme (Stmt.positionsList_of_mem_functions hpos hf))
      · exact Or.inl ⟨body, hparse, number, f, hheld, hraises⟩

/-- **Positions in trees and in faults are positions of lexemes.**  In an accepted script every
    expression, however deep it lies, stands at the first of its own lexemes other than an opening
    parenthesis, every declared name at the name, and every function at its first word.  Where the
    environment holds no functions of other scripts, a script that cannot be cut into lexemes fails
    at one of its characters, or at its end when that cuts an escape off, and any other script that
    fails does so at one of its lexemes. -/
theorem positions_of_lexemes (script : String) :
    (∀ body, parse script = .ok body →
      ∃ row, lexemes script = .ok row ∧ ∀ x ∈ Stmt.nodesList body, x.StandsIn row) ∧
    ∀ (limits : Limits) (env : Environment), (∀ f, f ∉ Value.functionsMembers env) →
      ∀ e env', execute limits script env = .failed e env' →
        lexemes script = .error e ∧ FaultAhead (.ofString script) e ∨
          ∃ row, lexemes script = .ok row ∧ ∃ l ∈ row, l.pos = e.pos := by
  refine ⟨fun body hbody => parse_stands hbody, fun limits env henv e env' h => ?_⟩
  rcases execute_located h with ⟨-, -, number, f, ⟨g, hg, -⟩, -⟩ | herror | hlexeme
  · rw [← Value.map_snd_originsMembers] at henv
    exact absurd (List.mem_map_of_mem hg) (henv g)
  · exact Or.inl ⟨herror, (lexemes_fault herror).2⟩
  · exact Or.inr hlexeme

/-- A variable in parentheses that is not defined. -/
theorem positions_of_lexemes_missing :
    let script := "x = (a) + 1;"
    ∃ row, lexemes script = .ok row ∧
      (Node.expr (.binary ⟨0, 5⟩ .add (.name ⟨0, 5⟩ "a") (.number ⟨0, 10⟩ 1))).StandsIn row ∧
      execute {} script [] = .failed ⟨.undefinedVariable "a", ⟨0, 5⟩⟩ [] ∧
      ∃ l ∈ row, l.pos = ⟨0, 5⟩ := by
  intro script
  have hlexemes : lexemes script = .ok
      [⟨.name "x", ⟨0, 0⟩, false⟩, ⟨.symbol .assign, ⟨0, 2⟩, false⟩,
       ⟨.symbol .leftParen, ⟨0, 4⟩, false⟩, ⟨.name "a", ⟨0, 5⟩, false⟩,
       ⟨.symbol .rightParen, ⟨0, 6⟩, false⟩, ⟨.symbol .plus, ⟨0, 8⟩, false⟩,
       ⟨.number 1, ⟨0, 10⟩, false⟩, ⟨.symbol .semicolon, ⟨0, 11⟩, false⟩] := by decide +kernel
  have hbody : parse script = .ok [.expr (.assign ⟨0, 0⟩ none (.name ⟨0, 0⟩ "x")
      (.binary ⟨0, 5⟩ .add (.name ⟨0, 5⟩ "a") (.number ⟨0, 10⟩ 1)))] := by
    rw [parse, hlexemes]
    rfl
  have hrun : execute {} script [] = .failed ⟨.undefinedVariable "a", ⟨0, 5⟩⟩ [] := by
    rw [execute, hbody]
    rfl
  obtain ⟨hnodes, hfaults⟩ := positions_of_lexemes script
  obtain ⟨row, hrow, hstand⟩ := hnodes _ hbody
  refine ⟨row, hrow, hstand _ (by simp [Stmt.nodesList, Stmt.nodes, Expr.nodes]), hrun, ?_⟩
  rcases hfaults {} [] (by simp [Value.functionsMembers]) _ _ hrun with
    ⟨herror, -⟩ | ⟨row', hrow', hl⟩
  · rw [hlexemes] at herror
    cases herror
  · rw [hrow'] at hrow
    cases hrow
    exact hl

end Stencil.Script
