/-
  What a run outputs.

  Where the output function is in place (`Environment.withOutput`), a call of it adds the text of
  its argument to the output and changes nothing else, so statements that are such calls output
  the texts of their arguments one behind the other (`execAll_outputs`), and a loop over the items
  of an array around them does so once for each item (`execForOf_outputs`).
-/
import Mathlib.Data.List.Forall2
import Stencil.Proofs.Dict
import Stencil.Proofs.Script.Grammar.Derivation
import Stencil.Proofs.Script.Run.Rules
import Stencil.Script.Run

namespace Stencil.Script

open Effect

/-! ## Effects that finish -/

namespace Effect

variable {α β : Type}

theorem modify_bind (g : Machine → Machine) (f : Unit → Effect β) (m : Machine) :
    (Effect.modify g >>= f) m = f () (g m) := rfl

theorem within_of_done {x : Effect α} {scope s : Scope} {m m' : Machine} {a : α}
    (h : x (m.enter scope) = .done a (m'.enter s)) : within scope x m = .done a m' := by
  have h' : x { m with scopes := scope :: m.scopes } = .done a (m'.enter s) := h
  rw [within, h']
  rfl

end Effect

theorem eval_name {maxDepth : Nat} {m : Machine} {s : String} {v : Value}
    (h : m.lookup? s = some v) (p : Position) (n : Nat) :
    eval maxDepth (n + 1) (.name p s) m = .done v m := by
  rw [eval, get_bind, h]
  rfl

/-! ## Environments with output -/

/-- The environment with the output function in place and with what has been output so far. -/
def Environment.withOutput (env : Environment) (out : String) : Environment :=
  Dict.insert (Dict.insert env outputName (.text out)) Native.append.name (.native .append)

theorem outputName_ne : outputName ≠ Native.append.name := by decide

theorem prepare_eq (env : Environment) : prepare env = env.withOutput "" := rfl

namespace Environment

variable (env : Environment) (out out' : String)

@[simp] theorem get?_withOutput_output :
    Dict.get? (env.withOutput out) outputName = some (.text out) := by
  rw [withOutput, Dict.get?_insert_of_ne _ _ outputName_ne, Dict.get?_insert_self]

@[simp] theorem get?_withOutput_append :
    Dict.get? (env.withOutput out) Native.append.name = some (.native .append) :=
  Dict.get?_insert_self _ _ _

/-- Every other name keeps its value. -/
theorem get?_withOutput_of_ne {name : String} (houtput : name ≠ outputName)
    (happend : name ≠ Native.append.name) :
    Dict.get? (env.withOutput out) name = Dict.get? env name := by
  rw [withOutput, Dict.get?_insert_of_ne _ _ happend, Dict.get?_insert_of_ne _ _ houtput]

theorem insert_withOutput :
    Dict.insert (env.withOutput out) outputName (.text out') = env.withOutput out' := by
  rw [withOutput, Dict.insert_comm _ outputName_ne.symm, Dict.insert_insert, withOutput]

end Environment

/-! ## One call -/

/-- The statement calls the output function with the literal or the name that the word is. -/
def Stmt.Outputs (s : Stmt) (w : Word) : Prop :=
  ∃ p q e, w.atom? q = some e ∧ s = .expr (.call p (.name p Native.append.name) [e])

/-- The value of a word that is a text literal or a name bound in the scopes. -/
def Word.valueIn? (scopes : List Scope) : Word → Option Value
  | .text s => some (.text s)
  | .name s => (findBinding? scopes s).map Binding.value
  | .number _ | .keyword _ | .symbol _ => none

/-- The state puts its output into `env`, and no scope hides the output function. -/
structure Machine.Outputs (m : Machine) (env : Environment) (out : String) : Prop where
  env_eq : m.env = env.withOutput out
  append_free : findBinding? m.scopes Native.append.name = none

/-- The state after something was output. -/
def Machine.output (m : Machine) (env : Environment) (out : String) : Machine :=
  { m with env := env.withOutput out }

section

variable {maxDepth : Nat} {m : Machine} {env : Environment} {out : String}

theorem Machine.Outputs.output (h : m.Outputs env out) (out' : String) :
    (m.output env out').Outputs env out' := ⟨rfl, h.append_free⟩

theorem Machine.output_output (m : Machine) (env : Environment) (out out' : String) :
    (m.output env out).output env out' = m.output env out' := rfl

theorem eval_atom {w : Word} {q : Position} {e : Expr} (he : w.atom? q = some e) {v : Value}
    (hv : w.valueIn? m.scopes = some v) (n : Nat) : eval maxDepth (n + 1) e m = .done v m := by
  cases w with
  | text s =>
    cases he
    cases hv
    rfl
  | name s =>
    cases he
    obtain ⟨b, hb, rfl⟩ := Option.map_eq_some_iff.mp hv
    have hlookup : m.lookup? s = some b.value := by rw [Machine.lookup?, hb]
    exact eval_name hlookup q n
  | number _ => cases hv
  | keyword _ => cases hv
  | symbol _ => cases hv

/-- The output function adds the text of its argument. -/
theorem appendOutput_eq (h : m.Outputs env out) (pos : Position) (v : Value) :
    appendOutput pos [v] m = .done .undefined (m.output env (out ++ v.display)) := by
  have hout : Dict.get? m.env outputName = some (.text out) := by
    rw [h.env_eq, Environment.get?_withOutput_output]
  have hset : m.setEnv outputName (.text (out ++ v.display)) = m.output env (out ++ v.display) := by
    rw [Machine.setEnv, h.env_eq, Environment.insert_withOutput, Machine.output]
  rw [appendOutput, get_bind, hout]
  dsimp only
  rw [modify_bind, List.foldl_cons, List.foldl_nil, hset]
  rfl

/-- **A call of the output function outputs the text of its argument** and changes nothing else. -/
theorem exec_outputs (h : m.Outputs env out) {s : Stmt} {w : Word} (hs : s.Outputs w) {v : Value}
    (hv : w.valueIn? m.scopes = some v) (n : Nat) :
    exec maxDepth (n + 4) s m = .done .next (m.output env (out ++ v.display)) := by
  -- a step each for the statement, the call, the list of arguments and the argument
  obtain ⟨p, q, e, he, rfl⟩ := hs
  have hlookup : m.lookup? Native.append.name = some (.native .append) := by
    rw [Machine.lookup?, h.append_free, h.env_eq, Environment.get?_withOutput_append]
  have hname : eval maxDepth (n + 2) (.name p Native.append.name) m
      = .done (.native .append) m := eval_name hlookup p (n + 1)
  have hargs : evalAll maxDepth (n + 2) [e] m = .done [v] m := by
    rw [evalAll, bind_of_done (eval_atom he hv n)]
    rfl
  have hcall : eval maxDepth (n + 3) (.call p (.name p Native.append.name) [e]) m
      = .done .undefined (m.output env (out ++ v.display)) := by
    rw [eval, bind_of_done hname, bind_of_done hargs, callValue, appendOutput_eq h]
    simp
  rw [exec, bind_of_done hcall]
  rfl

/-! ## Statements in a row -/

/-- What is output when some values are, one behind the other. -/
def outputAll (out : String) (vs : List Value) : String :=
  vs.foldl (fun out v => out ++ v.display) out

/-- The texts that are output are joined in order. -/
theorem outputAll_eq (out : String) (vs : List Value) :
    outputAll out vs = out ++ String.join (vs.map Value.display) := by
  induction vs generalizing out with
  | nil => simp [outputAll, String.join]
  | cons v vs ih =>
    have hcons : outputAll out (v :: vs) = outputAll (out ++ v.display) vs := rfl
    rw [hcons, ih]
    apply String.toList_injective
    simp [String.toList_join]

theorem execAll_outputs (h : m.Outputs env out) {body : List Stmt} {words : List Word}
    (hbody : List.Forall₂ Stmt.Outputs body words) {vs : List Value}
    (hvs : List.Forall₂ (fun w v => w.valueIn? m.scopes = some v) words vs) (n : Nat) :
    execAll maxDepth (n + body.length + 4) body m
      = .done .next (m.output env (outputAll out vs)) := by
  induction hbody generalizing m out vs n with
  | nil =>
    cases hvs
    rw [execAll, outputAll, List.foldl_nil, Machine.output, ← h.env_eq]
    rfl
  | @cons s w body words hs _ ih =>
    cases hvs with
    | @cons _ v _ vs hv hvs =>
      have hrest := ih (h.output (out ++ v.display)) hvs n
      rw [Machine.output_output] at hrest
      have hlength : n + (s :: body).length + 4 = n + body.length + 4 + 1 := by
        rw [List.length_cons]
        omega
      rw [hlength, execAll, bind_of_done (exec_outputs h hs hv _)]
      exact hrest

/-- Such statements declare no functions. -/
theorem declaredFunctions_outputs {body : List Stmt} {words : List Word}
    (hbody : List.Forall₂ Stmt.Outputs body words) : declaredFunctions body = [] := by
  induction hbody with
  | nil => rfl
  | cons hs _ ih =>
    obtain ⟨p, q, e, -, rfl⟩ := hs
    exact ih

/-! ## Loops -/

/-- The scope of a round in which the loop's name stands for an item. -/
def Scope.ofRound (kind : DeclKind) (name : String) (v : Value) : Scope :=
  Scope.block.bind name ⟨v, kind == .constDecl⟩

/-- In every round the words have the values that `values` gives for the item. -/
def Word.InRounds (kind : DeclKind) (name : String) (words : List Word)
    (values : Value → List Value) : Prop :=
  ∀ v scopes, List.Forall₂ (fun w u =>
    w.valueIn? (Scope.block :: Scope.ofRound kind name v :: scopes) = some u) words (values v)

theorem declareName_block {kind : DeclKind} (hkind : kind ≠ .varDecl) (pos : Position)
    (name : String) (v : Value) (m : Machine) :
    declareName pos kind name v (m.enter .block) = .done () (m.enter (.ofRound kind name v)) := by
  cases kind with
  | varDecl => exact absurd rfl hkind
  | letDecl => rfl
  | constDecl => rfl

theorem findBinding?_ofRound {name other : String} (h : other ≠ name) (kind : DeclKind) (v : Value)
    (scopes : List Scope) :
    findBinding? (Scope.block :: Scope.ofRound kind name v :: scopes) other
      = findBinding? scopes other := by
  have hround : (Scope.ofRound kind name v).get? other = none := by
    rw [Scope.get?, Scope.ofRound, Scope.bind, Dict.get?_insert_of_ne _ _ h]
    rfl
  have hblock : Scope.block.get? other = none := rfl
  simp [findBinding?, hround, hblock]

theorem findBinding?_ofRound_self (name : String) (kind : DeclKind) (v : Value)
    (scopes : List Scope) :
    findBinding? (Scope.block :: Scope.ofRound kind name v :: scopes) name
      = some ⟨v, kind == .constDecl⟩ := by
  have hround : (Scope.ofRound kind name v).get? name = some ⟨v, kind == .constDecl⟩ := by
    rw [Scope.get?, Scope.ofRound, Scope.bind, Dict.get?_insert_self]
  have hblock : Scope.block.get? name = none := rfl
  simp [findBinding?, hround, hblock]

section

variable {kind : DeclKind} (hkind : kind ≠ .varDecl) {name : String}
  (hname : Native.append.name ≠ name) {body : List Stmt} {words : List Word}
  (hbody : List.Forall₂ Stmt.Outputs body words) {values : Value → List Value}
  (hvalues : Word.InRounds kind name words values)

include hkind hname hbody hvalues

/-- One round: the body sees the item under its name, and nothing but the output is left of it. -/
theorem round_outputs (h : m.Outputs env out) (pos : Position) (v : Value) (n : Nat) :
    within .block (do
      declareName pos kind name v
      execScoped maxDepth (n + body.length + 6) (.block body)) m
        = .done .next (m.output env (outputAll out (values v))) := by
  have hinner : ((m.enter (.ofRound kind name v)).enter .block).Outputs env out :=
    ⟨h.env_eq, (findBinding?_ofRound hname kind v m.scopes).trans h.append_free⟩
  have hall : (do
      modify fun m => m.hoist body
      execAll maxDepth (n + body.length + 4) body : Effect Flow)
        ((m.enter (.ofRound kind name v)).enter .block)
      = .done .next (((m.enter (.ofRound kind name v)).output env
          (outputAll out (values v))).enter .block) := by
    rw [modify_bind, Machine.hoist, declaredFunctions_outputs hbody]
    exact execAll_outputs hinner hbody (hvalues v m.scopes) n
  have hblock : execScoped maxDepth (n + body.length + 6) (.block body)
      (m.enter (.ofRound kind name v))
      = .done .next ((m.output env (outputAll out (values v))).enter (.ofRound kind name v)) := by
    rw [execScoped, execBlock]
    exact within_of_done hall
  refine within_of_done (s := .ofRound kind name v) ?_
  rw [bind_of_done (declareName_block hkind pos name v m)]
  exact hblock

/-- **A loop over items outputs what its body does, once for each item in order**, and leaves
    nothing else behind. -/
theorem execForOf_outputs (h : m.Outputs env out) (pos : Position) (items : List Value) (n : Nat) :
    execForOf maxDepth (n + body.length + items.length + 7) pos kind name (.block body) items m
      = .done .next (m.output env (items.foldl (fun out v => outputAll out (values v)) out)) := by
  -- the rounds go on from the state that the one before left, so state and output are general
  induction items generalizing m out with
  | nil =>
    rw [execForOf, List.foldl_nil, Machine.output, ← h.env_eq]
    rfl
  | cons v rest ih =>
    have hrest := ih (h.output (outputAll out (values v)))
    rw [Machine.output_output] at hrest
    have hround : within .block (do
        declareName pos kind name v
        execScoped maxDepth (n + body.length + rest.length + 7) (.block body)) m
          = .done .next (m.output env (outputAll out (values v))) := by
      have hsteps : n + body.length + rest.length + 7 = n + rest.length + 1 + body.length + 6 := by
        omega
      rw [hsteps]
      exact round_outputs hkind hname hbody hvalues h pos v (n + rest.length + 1)
    have hsteps : n + body.length + (v :: rest).length + 7
        = n + body.length + rest.length + 7 + 1 := by
      rw [List.length_cons]
      omega
    rw [hsteps, execForOf, bind_of_done hround]
    exact hrest

theorem exec_forOf_outputs (h : m.Outputs env out) {iterable : Expr} {v : Value}
    {items : List Value} (n : Nat)
    (hv : eval maxDepth (n + body.length + items.length + 7) iterable m = .done v m)
    (hitems : iterated? v = some items) :
    exec maxDepth (n + body.length + items.length + 8) (.forOf kind name iterable (.block body)) m
      = .done .next (m.output env (items.foldl (fun out v => outputAll out (values v)) out)) := by
  rw [exec, bind_of_done hv, hitems]
  exact execForOf_outputs hkind hname hbody hvalues h iterable.pos items n

end

end

/-- What the rounds of a loop output is joined in order. -/
theorem foldl_outputAll_eq (values : Value → List Value) (out : String) (items : List Value) :
    items.foldl (fun out v => outputAll out (values v)) out
      = out ++ String.join (items.map fun v => String.join ((values v).map Value.display)) := by
  induction items generalizing out with
  | nil => simp [String.join]
  | cons v items ih =>
    rw [List.foldl_cons, ih, outputAll_eq]
    apply String.toList_injective
    simp [String.toList_join]

/-! ## Whole runs -/

/-- The state in which a run for output starts. -/
def Machine.forOutput (env : Environment) : Machine := .start (prepare env).freshRun (prepare env)

theorem Machine.outputs_forOutput (env : Environment) : (forOutput env).Outputs env "" :=
  ⟨prepare_eq env, rfl⟩

theorem Machine.lookup?_forOutput {env : Environment} {name : String} {v : Value}
    (houtput : name ≠ outputName) (happend : name ≠ Native.append.name)
    (h : Dict.get? env name = some v) : (forOutput env).lookup? name = some v := by
  have hfree : findBinding? (forOutput env).scopes name = none := rfl
  have henv : Dict.get? (forOutput env).env name = some v :=
    (env.get?_withOutput_of_ne "" houtput happend).trans h
  rw [lookup?, hfree, henv]

/-- A script whose statements leave nothing but output behind gives the output back. -/
theorem runForOutput_of_execAll {limits : Limits} {script : String} {env : Environment}
    {out : String} {body : List Stmt} (hparse : parse script = .ok body)
    (hdeclares : declaredFunctions body = [])
    (h : execAll limits.maxDepth limits.steps body (.forOutput env)
      = .done .next ((Machine.forOutput env).output env out)) :
    runForOutput limits script env = .done out (env.withOutput out) := by
  have hrun : execProgram limits.maxDepth limits.steps body (.forOutput env)
      = .done () ((Machine.forOutput env).output env out) := by
    rw [execProgram, modify_bind, Machine.hoist, hdeclares, List.foldl_nil, bind_of_done h]
    rfl
  have hexecute : execute limits script (prepare env) = .done () (env.withOutput out) := by
    rw [execute, hparse]
    show runProgram limits body (prepare env) = _
    rw [runProgram, ← Machine.forOutput, hrun]
    rfl
  rw [runForOutput, hexecute]
  show Ending.done (((Dict.get? (env.withOutput out) outputName).map Value.display).getD "") _ = _
  rw [Environment.get?_withOutput_output]
  rfl

end Stencil.Script
