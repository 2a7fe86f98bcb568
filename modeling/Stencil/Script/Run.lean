/-
  Running scripts against an environment.

  A run either finishes or fails, and leaves an environment behind in both cases; a script that
  cannot be read leaves the environment as it was.  A run that takes more than the steps it is
  given stays unfinished.
-/
import Stencil.Script.Evaluate
import Stencil.Script.Grammar.Statement

namespace Stencil.Script

/-- How a run ended, and the environment it left behind. -/
inductive Ending (α : Type) where
  | done (a : α) (env : Environment)
  | failed (e : ScriptError) (env : Environment)
  | unfinished

/-- How far a run may go. -/
structure Limits where
  /-- How many calls of script functions may be active at once. -/
  maxDepth : Nat := 64
  /-- How many steps may be nested or repeated. -/
  steps : Nat := 0x4000000000000000

/-- Run the statements of a script that was read for this run, so that the functions it declares
    are none of those that other runs have left. -/
def runProgram (limits : Limits) (body : List Stmt) (env : Environment) : Ending Unit :=
  match execProgram limits.maxDepth limits.steps body (.start env.freshRun env) with
  | .done _ m => .done () m.env
  | .failed e m => .failed e m.env
  | .exhausted => .unfinished

/-- Read and run a script. -/
def execute (limits : Limits) (script : String) (env : Environment) : Ending Unit :=
  match parse script with
  | .error e => .failed e env
  | .ok body => runProgram limits body env

/-- The environment that a run for output starts in: nothing has been output, and the output
    function is in place. -/
def prepare (env : Environment) : Environment :=
  Dict.insert (Dict.insert env outputName (.text "")) Native.append.name (.native .append)

/-- Run a script and give back what it output. -/
def runForOutput (limits : Limits) (script : String) (env : Environment) : Ending String :=
  match execute limits script (prepare env) with
  | .done _ env' => .done (((Dict.get? env' outputName).map Value.display).getD "") env'
  | .failed e env' => .failed e env'
  | .unfinished => .unfinished

end Stencil.Script
