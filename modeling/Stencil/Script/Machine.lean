/-
  The state of a run, and effects on it.

  Names are looked up in the scopes from the innermost outward, then in the environment, then among
  the names of the language.  An effect either finishes, or fails with the state it left behind, or
  runs out of the steps it was given.
-/
import Stencil.Script.Environment
import Stencil.Script.Native.Call

namespace Stencil.Script

/-! ## State -/

structure Binding where
  value : Value
  constant : Bool

/-- The names bound by a block or by a call.  The frame of a call takes the `var` declarations of
    the function. -/
structure Scope where
  isFrame : Bool
  names : Dict Binding

/-- What a run changes. -/
structure Machine where
  env : Environment
  /-- The names that `let` and `const` bound in the environment during this run, and whether they
      are constant. -/
  lexical : Dict Bool
  /-- The scopes in force, innermost first. -/
  scopes : List Scope
  /-- How many calls of script functions are active. -/
  depth : Nat
  /-- The run that the code being executed was read in. -/
  run : Nat

/-- How a statement finished. -/
inductive Flow where
  | next
  | breakLoop
  | continueLoop
  | ret (v : Value)

/-! ## Effects -/

inductive Outcome (α : Type) where
  | done (a : α) (m : Machine)
  | failed (e : ScriptError) (m : Machine)
  | exhausted

/-- Something that a run does. -/
def Effect (α : Type) := Machine → Outcome α

namespace Effect

instance : Monad Effect where
  pure a := fun m => .done a m
  bind x f := fun m =>
    match x m with
    | .done a m' => f a m'
    | .failed e m' => .failed e m'
    | .exhausted => .exhausted

theorem bind_apply {α β : Type} (x : Effect α) (f : α → Effect β) (m : Machine) :
    (x >>= f) m = match x m with
      | .done a m' => f a m'
      | .failed e m' => .failed e m'
      | .exhausted => .exhausted := rfl

/-- An effect that never finishes within its steps. -/
def exhausted {α : Type} : Effect α := fun _ => .exhausted

def fail {α : Type} (pos : Position) (fault : Fault) : Effect α := fun m => .failed ⟨fault, pos⟩ m

/-- The result of a computation that does not touch the state; a fault is placed at `pos`. -/
def lift {α : Type} (pos : Position) : Except Fault α → Effect α
  | .ok a => pure a
  | .error fault => fail pos fault

def get : Effect Machine := fun m => .done m m

def modify (f : Machine → Machine) : Effect Unit := fun m => .done () (f m)

/-- Do something with one more scope, which is taken away however it ends. -/
def within {α : Type} (scope : Scope) (x : Effect α) : Effect α := fun m =>
  match x { m with scopes := scope :: m.scopes } with
  | .done a m' => .done a { m' with scopes := m'.scopes.tail }
  | .failed e m' => .failed e { m' with scopes := m'.scopes.tail }
  | .exhausted => .exhausted

/-- Do something one call deeper, in code of another run, with the scopes of that call alone; what
    the caller had comes back however it ends. -/
def inCall {α : Type} (run : Nat) (scopes : List Scope) (x : Effect α) : Effect α := fun m =>
  match x { m with scopes := scopes, depth := m.depth + 1, run := run } with
  | .done a m' => .done a { m' with scopes := m.scopes, depth := m.depth, run := m.run }
  | .failed e m' => .failed e { m' with scopes := m.scopes, depth := m.depth, run := m.run }
  | .exhausted => .exhausted

end Effect

/-! ## Scopes -/

namespace Scope

/-- A block with nothing bound in it. -/
def block : Scope := ⟨false, []⟩

def get? (s : Scope) (name : String) : Option Binding := Dict.get? s.names name

def bind (s : Scope) (name : String) (b : Binding) : Scope :=
  { s with names := Dict.insert s.names name b }

/-- The scopes of a call: the frame with the parameters, of which missing arguments are
    `undefined`, around it the function's own name. -/
def ofCall (run : Nat) (f : Function) (args : List Value) : List Scope :=
  let params := f.params.zipIdx.map fun (name, i) =>
    (name, Binding.mk (args[i]?.getD .undefined) false)
  [⟨true, Dict.ofList params⟩, ⟨false, [(f.name, ⟨.function run f, false⟩)]⟩]

end Scope

/-- The binding of a name in the innermost scope that has one. -/
def findBinding? (scopes : List Scope) (name : String) : Option Binding :=
  scopes.findSome? fun s => s.get? name

/-- The scopes with the value of a name changed in the innermost scope that binds it. -/
def setBinding (scopes : List Scope) (name : String) (value : Value) : List Scope :=
  match scopes with
  | [] => []
  | s :: outer =>
    match s.get? name with
    | some b => s.bind name { b with value := value } :: outer
    | none => s :: setBinding outer name value

/-- The scopes with a name bound in the nearest frame, if a call is active. -/
def bindInFrame? (scopes : List Scope) (name : String) (b : Binding) : Option (List Scope) :=
  match scopes with
  | [] => none
  | s :: outer =>
    if s.isFrame then some (s.bind name b :: outer)
    else (bindInFrame? outer name b).map (s :: ·)

namespace Machine

/-- At the start of the run with the given number. -/
def start (run : Nat) (env : Environment) : Machine := ⟨env, [], [], 0, run⟩

/-- Whether a call of a script function is active. -/
def inFunction (m : Machine) : Bool := m.scopes.any Scope.isFrame

/-- The value of a name. -/
def lookup? (m : Machine) (name : String) : Option Value :=
  match findBinding? m.scopes name with
  | some b => some b.value
  | none =>
    match Dict.get? m.env name with
    | some v => some v
    | none => global? name

def setEnv (m : Machine) (name : String) (value : Value) : Machine :=
  { m with env := Dict.insert m.env name value }

/-- Bind a name in the innermost scope, or in the environment outside of all scopes. -/
def bindInnermost (m : Machine) (name : String) (value : Value) : Machine :=
  match m.scopes with
  | [] => m.setEnv name value
  | s :: outer => { m with scopes := s.bind name ⟨value, false⟩ :: outer }

/-- Bind a name as a declaration of the given kind does.  Within one block a name can be declared
    only once by `let` and `const`. -/
def declare (m : Machine) (kind : DeclKind) (name : String) (value : Value) :
    Except Fault Machine :=
  match kind with
  | .varDecl =>
    match bindInFrame? m.scopes name ⟨value, false⟩ with
    | some scopes => .ok { m with scopes := scopes }
    | none => .ok (m.setEnv name value)
  | .letDecl | .constDecl =>
    let constant := kind == .constDecl
    match m.scopes with
    | [] =>
      if Dict.contains m.lexical name then .error (.redeclaration name)
      else .ok { m.setEnv name value with lexical := Dict.insert m.lexical name constant }
    | s :: outer =>
      if (s.get? name).isSome then .error (.redeclaration name)
      else .ok { m with scopes := s.bind name ⟨value, constant⟩ :: outer }

/-- Give a variable a new value.  A name that no scope binds is a variable of the environment. -/
def assign (m : Machine) (name : String) (value : Value) : Except Fault Machine :=
  match findBinding? m.scopes name with
  | some b =>
    if b.constant then .error (.constantAssignment name)
    else .ok { m with scopes := setBinding m.scopes name value }
  | none =>
    if Dict.get? m.lexical name = some true then .error (.constantAssignment name)
    else .ok (m.setEnv name value)

/-- The value of a variable that can be changed from inside: one of a scope or of the
    environment. -/
def changeable? (m : Machine) (name : String) : Option Value :=
  match findBinding? m.scopes name with
  | some b => some b.value
  | none => Dict.get? m.env name

/-- Change a variable from inside; a constant one may be changed so. -/
def setVariable (m : Machine) (name : String) (value : Value) : Machine :=
  match findBinding? m.scopes name with
  | some _ => { m with scopes := setBinding m.scopes name value }
  | none => m.setEnv name value

/-- Bind the functions declared directly among some statements. -/
def hoist (m : Machine) (body : List Stmt) : Machine :=
  (declaredFunctions body).foldl (fun m f => m.bindInnermost f.name (.function m.run f)) m

end Machine

end Stencil.Script
