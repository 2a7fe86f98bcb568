/-
  The evaluator, taken apart.

  What a function of the evaluator does with one step is a `Plan`: effects done at once, and tasks
  for the functions of the evaluator with one step less, one after the other, in blocks and in
  calls.  `Task.plan` gives it for each of them, and `Task.run_succ` says that the evaluator does
  what the plan says.  So what holds of plans holds of the evaluator, by one induction on the
  steps, and the points that a run comes through can be told (`Task.Comes`): they are where the
  plans start their tasks.
-/
import Stencil.Proofs.Script.Run.Logic
import Stencil.Proofs.Script.Run.Rules

namespace Stencil.Script

open Effect

/-! ## Tasks and plans -/

/-- A function of the evaluator with what it is given; the type is that of its results. -/
inductive Task : Type → Type where
  | eval (e : Expr) : Task Value
  | evalAll (es : List Expr) : Task (List Value)
  | evalMembers (es : List (String × Expr)) (members : Dict Value) : Task (Dict Value)
  | resolve (place : Place) : Task Slot
  | callMethod (pos : Position) (callee : Expr) (receiver : Value) (name : String)
      (args : List Value) : Task Value
  | callValue (pos : Position) (callee : Expr) (v : Value) (args : List Value) : Task Value
  | callFunction (pos : Position) (run : Nat) (f : Function) (args : List Value) : Task Value
  | exec (s : Stmt) : Task Flow
  | execAll (body : List Stmt) : Task Flow
  | declareAll (kind : DeclKind) (items : List Declarator) : Task Unit
  | execBlock (body : List Stmt) : Task Flow
  | execScoped (s : Stmt) : Task Flow
  | execWhile (cond : Expr) (body : Stmt) : Task Flow
  | execDoWhile (body : Stmt) (cond : Expr) : Task Flow
  | execFor (cond update : Option Expr) (body : Stmt) : Task Flow
  | execForOf (pos : Position) (kind : DeclKind) (name : String) (body : Stmt)
      (items : List Value) : Task Flow

/-- What the evaluator does with one step. -/
inductive Plan : Type → Type 1 where
  /-- Something that needs no step. -/
  | effect {α : Type} (x : Effect α) : Plan α
  /-- A task, with one step less. -/
  | task {α : Type} (t : Task α) : Plan α
  | bind {α β : Type} (p : Plan α) (f : α → Plan β) : Plan β
  | within {α : Type} (scope : Scope) (p : Plan α) : Plan α
  | inCall {α : Type} (run : Nat) (scopes : List Scope) (p : Plan α) : Plan α

instance : Monad Plan where
  pure a := .effect (pure a)
  bind := .bind

instance : MonadLift Effect Plan := ⟨.effect⟩

instance : MonadLift Task Plan := ⟨.task⟩

/-- A way to do all tasks. -/
abbrev Runner := ∀ {α : Type}, Task α → Effect α

/-- Follow a plan, doing its tasks by `run`. -/
def Plan.follow (run : Runner) {α : Type} : Plan α → Effect α
  | .effect x => x
  | .task t => run t
  | .bind p f => p.follow run >>= fun a => (f a).follow run
  | .within scope p => Effect.within scope (p.follow run)
  | .inCall number scopes p => Effect.inCall number scopes (p.follow run)

/-- Do a task with so many steps. -/
def Task.run (maxDepth steps : Nat) : Runner
  | _, .eval e => Script.eval maxDepth steps e
  | _, .evalAll es => Script.evalAll maxDepth steps es
  | _, .evalMembers es members => Script.evalMembers maxDepth steps es members
  | _, .resolve place => Script.resolve maxDepth steps place
  | _, .callMethod pos callee receiver name args =>
    Script.callMethod maxDepth steps pos callee receiver name args
  | _, .callValue pos callee v args => Script.callValue maxDepth steps pos callee v args
  | _, .callFunction pos number f args => Script.callFunction maxDepth steps pos number f args
  | _, .exec s => Script.exec maxDepth steps s
  | _, .execAll body => Script.execAll maxDepth steps body
  | _, .declareAll kind items => Script.declareAll maxDepth steps kind items
  | _, .execBlock body => Script.execBlock maxDepth steps body
  | _, .execScoped s => Script.execScoped maxDepth steps s
  | _, .execWhile cond body => Script.execWhile maxDepth steps cond body
  | _, .execDoWhile body cond => Script.execDoWhile maxDepth steps body cond
  | _, .execFor cond update body => Script.execFor maxDepth steps cond update body
  | _, .execForOf pos kind name body items =>
    Script.execForOf maxDepth steps pos kind name body items

/-! ## The plan of each task -/

/-- Fail if no more calls may be active. -/
def checkDepth (maxDepth : Nat) (pos : Position) : Effect Unit := do
  if maxDepth ≤ (← get).depth then fail pos (.callDepthExceeded maxDepth)

theorem checkDepth_apply (maxDepth : Nat) (pos : Position) (m : Machine) :
    checkDepth maxDepth pos m
      = if maxDepth ≤ m.depth then .failed ⟨.callDepthExceeded maxDepth, pos⟩ m
        else .done () m := by
  rw [checkDepth, get_bind]
  split <;> rfl

/-- The value of a name, which must have one. -/
def nameValue (pos : Position) (name : String) : Effect Value := do
  match ← lookupName name with
  | some v => return v
  | none => fail pos (.undefinedVariable name)

theorem nameValue_apply (pos : Position) (name : String) (m : Machine) :
    nameValue pos name m = match m.lookup? name with
      | some v => .done v m
      | none => .failed ⟨.undefinedVariable name, pos⟩ m := by
  rw [nameValue, bind_of_done (x := lookupName name) rfl]
  cases m.lookup? name <;> rfl

theorem eval_name_eq {maxDepth steps : Nat} {pos : Position} (name : String) :
    eval maxDepth (steps + 1) (.name pos name) = nameValue pos name := rfl

/-- The value held in a slot. -/
def heldSlot (pos : Position) (slot : Slot) : Effect Value := do lift pos (slot.held (← get))

/-- Go on after a round of a loop. -/
def planRound (flow : Flow) (next : Plan Flow) : Plan Flow :=
  match flow with
  | .breakLoop => return .next
  | .ret v => return .ret v
  | .next | .continueLoop => next

def planCall (pos : Position) (callee : Expr) (args : List Expr) : Plan Value :=
  match callee with
  | .member mpos object property =>
    match mutatedPlace? object property with
    | some place => do
      let slot ← Task.resolve place
      let vs ← Task.evalAll args
      match ← heldSlot pos slot with
      | .array items => changeArray pos slot (property == "pop") items vs
      | v => Task.callMethod pos (.member mpos object property) v property vs
    | none => do
      let v ← Task.eval object
      let vs ← Task.evalAll args
      Task.callMethod pos (.member mpos object property) v property vs
  | callee => do
    let f ← Task.eval callee
    let vs ← Task.evalAll args
    Task.callValue pos callee f vs

def planEval : Expr → Plan Value
  | .number _ x => return .number x
  | .text _ s => return .text s
  | .bool _ b => return .bool b
  | .null _ => return .null
  | .undefined _ => return .undefined
  | .name pos s => nameValue pos s
  | .array _ items => return .array (← Task.evalAll items)
  | .object _ members => return .object (← Task.evalMembers members [])
  | .unary _ .typeOf (.name _ s) => return .text ((← lookupName s).getD .undefined).typeName
  | .unary _ op operand => return op.apply (← Task.eval operand)
  | .binary _ op lhs rhs => do
    let a ← Task.eval lhs
    let b ← Task.eval rhs
    return op.apply a b
  | .logical _ op lhs rhs => do
    let a ← Task.eval lhs
    if op.skips a then return a else Task.eval rhs
  | .conditional _ cond whenTrue whenFalse => do
    if (← Task.eval cond).truthy then Task.eval whenTrue else Task.eval whenFalse
  | .assign pos none target value => do
    let slot ← Task.resolve target
    let v ← Task.eval value
    writeSlot pos slot v
    return v
  | .assign pos (some op) target value => do
    let slot ← Task.resolve target
    let old ← readSlot pos slot
    let v ← Task.eval value
    writeSlot pos slot (op.apply old v)
    return op.apply old v
  | .update pos op before target => do
    let slot ← Task.resolve target
    let old ← readSlot pos slot
    writeSlot pos slot (.number (op.apply old.toNumber))
    return .number (if before then op.apply old.toNumber else old.toNumber)
  | .member pos object property => do lift pos ((← Task.eval object).readMember property)
  | .index pos object key => do
    let v ← Task.eval object
    let k ← Task.eval key
    lift pos (v.readIndex k)
  | .call pos callee args => planCall pos callee args

def planExec : Stmt → Plan Flow
  | .declare kind items => do
    Task.declareAll kind items
    return .next
  | .expr e => do
    let _ ← Task.eval e
    return .next
  | .branch cond whenTrue whenFalse => do
    if (← Task.eval cond).truthy then Task.execScoped whenTrue
    else
      match whenFalse with
      | some s => Task.execScoped s
      | none => return .next
  | .whileLoop cond body => Task.execWhile cond body
  | .doWhile body cond => Task.execDoWhile body cond
  | .forLoop start cond update body => .within .block do
    match start with
    | some (.declare kind items) => Task.declareAll kind items
    | some (.expr e) => do let _ ← Task.eval e
    | none => pure ()
    Task.execFor cond update body
  | .forOf kind name iterable body => do
    let v ← Task.eval iterable
    match iterated? v with
    | some items => Task.execForOf iterable.pos kind name body items
    | none => (fail iterable.pos (.misuse (.notIterable v.typeName)) : Effect Flow)
  | .block body => Task.execBlock body
  | .function .. | .empty => return .next
  | .ret none => return .ret .undefined
  | .ret (some e) => return .ret (← Task.eval e)
  | .breakLoop => return .breakLoop
  | .continueLoop => return .continueLoop

def planCallMethod (pos : Position) (callee : Expr) (receiver : Value) (name : String)
    (args : List Value) : Plan Value :=
  let own :=
    match receiver with
    | .object members => Dict.get? members name
    | _ => none
  match own with
  | some f => Task.callValue pos callee f args
  | none => lift pos (receiver.callMethod name args)

def planCallValue (pos : Position) (callee : Expr) (v : Value) (args : List Value) : Plan Value :=
  match v with
  | .function run f => Task.callFunction pos run f args
  | .native .append => appendOutput pos args
  | .native n => lift pos (n.call args)
  | _ => (fail callee.pos (.notCallable callee.describe) : Effect Value)

def planBody (run : Nat) (f : Function) (args : List Value) : Plan Flow :=
  .inCall run (Scope.ofCall run f args) do
    Effect.modify fun m => m.hoist f.body
    Task.execAll f.body

def planCallFunction (maxDepth : Nat) (pos : Position) (run : Nat) (f : Function)
    (args : List Value) : Plan Value := do
  checkDepth maxDepth pos
  match ← planBody run f args with
  | .ret v => return v
  | _ => return .undefined

/-- What the evaluator does with one step of a task, when up to `maxDepth` calls may be active. -/
def Task.plan (maxDepth : Nat) {α : Type} : Task α → Plan α
  | .eval e => planEval e
  | .evalAll [] => return []
  | .evalAll (e :: rest) => do
    let v ← Task.eval e
    let vs ← Task.evalAll rest
    return v :: vs
  | .evalMembers [] members => return members
  | .evalMembers ((key, e) :: rest) members => do
    let v ← Task.eval e
    Task.evalMembers rest (Dict.insert members key v)
  | .resolve (.name _ s) => return ⟨s, []⟩
  | .resolve (.member _ base property) => do
    let slot ← Task.resolve base
    return slot.into (.text property)
  | .resolve (.index _ base key) => do
    let slot ← Task.resolve base
    let k ← Task.eval key
    return slot.into k
  | .callMethod pos callee receiver name args => planCallMethod pos callee receiver name args
  | .callValue pos callee v args => planCallValue pos callee v args
  | .callFunction pos number f args => planCallFunction maxDepth pos number f args
  | .exec s => planExec s
  | .execAll [] => return .next
  | .execAll (s :: rest) => do
    match ← Task.exec s with
    | .next => Task.execAll rest
    | flow => return flow
  | .declareAll _ [] => return ()
  | .declareAll kind (d :: rest) => do
    let v ←
      match d.init with
      | some e => Task.eval e
      | none => pure .undefined
    declareName d.pos kind d.name v
    Task.declareAll kind rest
  | .execBlock body => .within .block do
    Effect.modify fun m => m.hoist body
    Task.execAll body
  | .execScoped (.block body) => Task.execBlock body
  | .execScoped s => .within .block (.task (.exec s))
  | .execWhile cond body => do
    if (← Task.eval cond).truthy then
      planRound (← Task.execScoped body) (.task (.execWhile cond body))
    else return .next
  | .execDoWhile body cond => do
    planRound (← Task.execScoped body) do
      if (← Task.eval cond).truthy then Task.execDoWhile body cond else return .next
  | .execFor cond update body => do
    let v ←
      match cond with
      | some e => Task.eval e
      | none => pure (.bool true)
    if v.truthy then
      planRound (← Task.execScoped body) do
        match update with
        | some e => do let _ ← Task.eval e
        | none => pure ()
        Task.execFor cond update body
    else return .next
  | .execForOf _ _ _ _ [] => return .next
  | .execForOf pos kind name body (v :: rest) => do
    let flow ← Plan.within .block do
      declareName pos kind name v
      Task.execScoped body
    planRound flow (.task (.execForOf pos kind name body rest))

/-! ## The evaluator follows its plans -/

section

variable {maxDepth steps : Nat}

theorem follow_bind {α β : Type} (run : Runner) {x : Effect α} {f : α → Effect β} {p : Plan α}
    {g : α → Plan β} (hx : x = p.follow run) (hf : ∀ a, f a = (g a).follow run) :
    x >>= f = (p >>= g).follow run := by
  rw [hx, funext hf]
  rfl

theorem follow_ite {α : Type} (run : Runner) {c : Prop} [Decidable c] {x y : Effect α}
    {p q : Plan α} (hx : x = p.follow run) (hy : y = q.follow run) :
    (if c then x else y) = (if c then p else q).follow run := by
  split
  · exact hx
  · exact hy

theorem call_follow (pos : Position) (callee : Expr) (args : List Expr) :
    eval maxDepth (steps + 1) (.call pos callee args)
      = (planCall pos callee args).follow (Task.run maxDepth steps) := by
  cases callee with
  | member mpos object property =>
    rw [eval, planCall]
    cases mutatedPlace? object property with
    | some place =>
      refine follow_bind _ rfl fun slot => follow_bind _ rfl fun vs => ?_
      refine .trans rfl (follow_bind _ (x := heldSlot pos slot) rfl (f := fun v =>
        match v with
        | .array items => changeArray pos slot (property == "pop") items vs
        | v => callMethod maxDepth steps pos (.member mpos object property) v property vs) ?_)
      intro v
      cases v <;> rfl
    | none => rfl
  | _ => rfl

theorem eval_follow (e : Expr) :
    eval maxDepth (steps + 1) e = (planEval e).follow (Task.run maxDepth steps) := by
  cases e with
  | name pos s => exact eval_name_eq s
  | unary pos op operand =>
    cases op with
    | typeOf => cases operand <;> rfl
    | _ => rfl
  | logical pos op lhs rhs =>
    rw [eval, planEval]
    exact follow_bind _ rfl fun v => follow_ite _ rfl rfl
  | conditional pos cond whenTrue whenFalse =>
    rw [eval, planEval]
    exact follow_bind _ rfl fun v => follow_ite _ rfl rfl
  | assign pos op target value => cases op <;> rfl
  | call pos callee args => exact call_follow pos callee args
  | _ => rfl

theorem exec_follow (s : Stmt) :
    exec maxDepth (steps + 1) s = (planExec s).follow (Task.run maxDepth steps) := by
  cases s with
  | branch cond whenTrue whenFalse =>
    refine follow_bind _ (x := eval maxDepth steps cond) (p := .task (.eval cond)) rfl fun v =>
      follow_ite _ rfl ?_
    cases whenFalse <;> rfl
  | forLoop start cond update body =>
    rcases start with - | ⟨kind, items⟩ | e <;> rfl
  | forOf kind name iterable body =>
    rw [exec, planExec]
    refine follow_bind _ rfl fun v => ?_
    cases iterated? v <;> rfl
  | ret value => cases value <;> rfl
  | _ => rfl

theorem round_follow {x : Effect Flow} {p : Plan Flow} {next : Effect Flow} {rest : Plan Flow}
    (hx : x = p.follow (Task.run maxDepth steps))
    (hnext : next = rest.follow (Task.run maxDepth steps)) :
    (do
      match ← x with
      | .breakLoop => return .next
      | .ret v => return .ret v
      | .next | .continueLoop => next)
      = (do planRound (← p) rest : Plan Flow).follow (Task.run maxDepth steps) := by
  refine follow_bind _ hx fun flow => ?_
  cases flow with
  | next => exact hnext
  | continueLoop => exact hnext
  | breakLoop => rfl
  | ret v => rfl

theorem callValue_follow (pos : Position) (callee : Expr) (v : Value) (args : List Value) :
    callValue maxDepth (steps + 1) pos callee v args
      = (planCallValue pos callee v args).follow (Task.run maxDepth steps) := by
  cases v with
  | native n => cases n <;> rfl
  | _ => rfl

theorem callFunction_follow (pos : Position) (run : Nat) (f : Function) (args : List Value) :
    callFunction maxDepth (steps + 1) pos run f args
      = (planCallFunction maxDepth pos run f args).follow (Task.run maxDepth steps) := by
  rw [callFunction, planCallFunction]
  funext m
  rw [get_bind]
  have hcheck := checkDepth_apply maxDepth pos m
  split
  · rename_i hdepth
    rw [if_pos hdepth] at hcheck
    exact (bind_of_failed hcheck).symm
  · rename_i hdepth
    rw [if_neg hdepth] at hcheck
    refine .trans ?_ (bind_of_done hcheck).symm
    refine congrFun (follow_bind (Task.run maxDepth steps) (p := planBody run f args) rfl
      fun flow => ?_) m
    cases flow <;> rfl

/-- **The evaluator follows its plans.**  One step more of a task is what its plan says, with the
    steps before for the tasks in the plan. -/
theorem Task.run_succ (maxDepth steps : Nat) {α : Type} (t : Task α) :
    t.run maxDepth (steps + 1) = (t.plan maxDepth).follow (Task.run maxDepth steps) := by
  cases t with
  | eval e => exact eval_follow e
  | evalAll es => cases es <;> rfl
  | evalMembers es members => cases es <;> rfl
  | resolve place => cases place <;> rfl
  | callMethod pos callee receiver name args =>
    cases receiver with
    | object members =>
      simp only [Task.run, Script.callMethod, Task.plan, planCallMethod]
      cases Dict.get? members name <;> rfl
    | _ => rfl
  | callValue pos callee v args => exact callValue_follow pos callee v args
  | callFunction pos number f args => exact callFunction_follow pos number f args
  | exec s => exact exec_follow s
  | execAll body =>
    cases body with
    | nil => rfl
    | cons s rest =>
      refine follow_bind _ (x := Script.exec maxDepth steps s) (p := .task (.exec s)) rfl
        fun flow => ?_
      cases flow <;> rfl
  | declareAll kind items =>
    rcases items with - | ⟨⟨name, pos, init⟩, rest⟩
    · rfl
    · cases init <;> rfl
  | execBlock body => rfl
  | execScoped s => cases s <;> rfl
  | execWhile cond body =>
    refine follow_bind _ (x := Script.eval maxDepth steps cond) (p := .task (.eval cond)) rfl
      fun v => ?_
    exact follow_ite _ (round_follow (p := .task (.execScoped body)) rfl rfl) rfl
  | execDoWhile body cond =>
    refine round_follow (p := .task (.execScoped body)) rfl ?_
    refine follow_bind _ (x := Script.eval maxDepth steps cond) (p := .task (.eval cond)) rfl
      fun v => ?_
    exact follow_ite _ rfl rfl
  | execFor cond update body =>
    have hnext : (do
        match update with
        | some e => do let _ ← Script.eval maxDepth steps e
        | none => pure ()
        Script.execFor maxDepth steps cond update body : Effect Flow) = (do
        match update with
        | some e => do let _ ← Task.eval e
        | none => pure ()
        Task.execFor cond update body : Plan Flow).follow (Task.run maxDepth steps) := by
      cases update <;> rfl
    cases cond with
    | none =>
      refine follow_bind _ (x := pure (Value.bool true)) (p := pure (Value.bool true)) rfl
        fun v => ?_
      exact follow_ite _ (round_follow (p := .task (.execScoped body)) rfl hnext) rfl
    | some e =>
      refine follow_bind _ (x := Script.eval maxDepth steps e) (p := .task (.eval e)) rfl
        fun v => ?_
      exact follow_ite _ (round_follow (p := .task (.execScoped body)) rfl hnext) rfl
  | execForOf pos kind name body items =>
    cases items with
    | nil => rfl
    | cons v rest => exact round_follow rfl rfl

end

/-! ## What a plan is made of -/

namespace Plan

/-- All effects of the plan have `Q`, and it makes calls only if `C` holds. -/
def All (Q : ∀ {α : Type}, Effect α → Prop) (C : Prop) {α : Type} : Plan α → Prop
  | effect x => Q x
  | task _ => True
  | bind p f => p.All Q C ∧ ∀ a, (f a).All Q C
  | within _ p => p.All Q C
  | inCall _ _ p => C ∧ p.All Q C

/-- The plan, followed from a state, starts a task in a state, with so many calls of its own
    active. -/
inductive Starts (run : Runner) :
    {α β : Type} → Plan α → Machine → Nat → Task β → Machine → Prop where
  | task {β : Type} (t : Task β) (m : Machine) : Starts run (task t) m 0 t m
  | first {α β γ : Type} {p : Plan α} {f : α → Plan β} {m m' : Machine} {active : Nat}
      {t : Task γ} : Starts run p m active t m' → Starts run (bind p f) m active t m'
  | next {α β γ : Type} {p : Plan α} {f : α → Plan β} {m m' m'' : Machine} {active : Nat} {a : α}
      {t : Task γ} : p.follow run m = .done a m' → Starts run (f a) m' active t m'' →
      Starts run (bind p f) m active t m''
  | within {α β : Type} {scope : Scope} {p : Plan α} {m m' : Machine} {active : Nat} {t : Task β} :
      Starts run p (m.enter scope) active t m' → Starts run (within scope p) m active t m'
  | inCall {α β : Type} {number : Nat} {scopes : List Scope} {p : Plan α} {m m' : Machine}
      {active : Nat} {t : Task β} :
      Starts run p (m.beginCall number scopes) active t m' →
      Starts run (inCall number scopes p) m (active + 1) t m'

end Plan

/-- With so many steps, the task comes to another one in the course of its run, with so many calls
    of its own active and so many steps left. -/
inductive Task.Comes (maxDepth : Nat) :
    {α β : Type} → Nat → Task α → Machine → (active left : Nat) → Task β → Machine → Prop where
  | here {α : Type} (steps : Nat) (t : Task α) (m : Machine) : Comes maxDepth steps t m 0 steps t m
  | further {α β γ : Type} {steps active active' left : Nat} {t : Task α} {t' : Task β}
      {t'' : Task γ} {m m' m'' : Machine} :
      (t.plan maxDepth).Starts (Task.run maxDepth steps) m active t' m' →
      Comes maxDepth steps t' m' active' left t'' m'' →
      Comes maxDepth (steps + 1) t m (active + active') left t'' m''

end Stencil.Script
