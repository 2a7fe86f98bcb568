/-
  What expressions and statements do.

  Every function takes the number of calls that may be active at once, and the number of steps it
  may nest or repeat; with no step left it is exhausted.
  Operands are evaluated from left to right, and a slot is found before the value for it is.
-/
import Stencil.Script.Slot

namespace Stencil.Script

open Effect

/-- The variable that the output function appends to. -/
def outputName : String := "_output"

/-- Add the texts of the arguments to the output. -/
def appendOutput (pos : Position) (args : List Value) : Effect Value := do
  match Dict.get? (← get).env outputName with
  | some (.text out) =>
    modify fun m => m.setEnv outputName (.text (args.foldl (fun s v => s ++ v.display) out))
    return .undefined
  | _ => fail pos (.misuse (.outputNotString outputName))

/-- Whether an operator that may skip its second operand does so. -/
def LogicalOp.skips (op : LogicalOp) (v : Value) : Bool :=
  match op with
  | .and => !v.truthy
  | .or => v.truthy
  | .nullish => !v.isNullish

def UpdateOp.apply (op : UpdateOp) (x : Float) : Float :=
  match op with
  | .increment => x + 1.0
  | .decrement => x - 1.0

def UnaryOp.apply (op : UnaryOp) (v : Value) : Value :=
  match op with
  | .not => .bool (!v.truthy)
  | .negate => .number (-v.toNumber)
  | .plus => .number v.toNumber
  | .typeOf => .text v.typeName

/-- What a loop runs over. -/
def iterated? : Value → Option (List Value)
  | .array items => some items
  | .text s => some (s.toList.map fun c => .text (String.singleton c))
  | _ => none

/-- Write a slot; a fault is placed at `pos`, and leaves the state that it was found in, since a
    write settles everything before it changes anything. -/
def writeSlot (pos : Position) (s : Slot) (v : Value) : Effect Unit := fun m =>
  match s.write v m with
  | .ok m' => .done () m'
  | .error fault => .failed ⟨fault, pos⟩ m

/-- Append to the array in a slot, or take its last item away; the result is the new length or the
    item. -/
def changeArray (pos : Position) (s : Slot) (pop : Bool) (items args : List Value) :
    Effect Value := fun m =>
  let items' := if pop then items.dropLast else items ++ args
  let result : Value :=
    if pop then items.getLast?.getD .undefined else .number (Number.ofCount items'.length)
  match s.modify (fun _ => .ok (.array items', ())) m with
  | .ok (m', _) => .done result m'
  | .error fault => .failed ⟨fault, pos⟩ m

def declareName (pos : Position) (kind : DeclKind) (name : String) (v : Value) : Effect Unit :=
  fun m =>
    match m.declare kind name v with
    | .ok m' => .done () m'
    | .error fault => .failed ⟨fault, pos⟩ m

/-- The place whose array a method call changes: `push` and `pop` on a place do so. -/
def mutatedPlace? (object : Expr) (property : String) : Option Place :=
  if property = "push" ∨ property = "pop" then object.toPlace? else none

mutual

/-- The value of an expression. -/
def eval (maxDepth : Nat) : (steps : Nat) → Expr → Effect Value
  | 0, _ => exhausted
  | steps + 1, e =>
    match e with
    | .number _ x => return .number x
    | .text _ s => return .text s
    | .bool _ b => return .bool b
    | .null _ => return .null
    | .undefined _ => return .undefined
    | .name pos s => do
      match (← get).lookup? s with
      | some v => return v
      | none => fail pos (.undefinedVariable s)
    | .array _ items => return .array (← evalAll maxDepth steps items)
    | .object _ members => return .object (← evalMembers maxDepth steps members [])
    -- a name may be asked for its kind even if it is not defined
    | .unary _ .typeOf (.name _ s) =>
      return .text (((← get).lookup? s).getD .undefined).typeName
    | .unary _ op operand => return op.apply (← eval maxDepth steps operand)
    | .binary _ op lhs rhs => do
      let a ← eval maxDepth steps lhs
      let b ← eval maxDepth steps rhs
      return op.apply a b
    | .logical _ op lhs rhs => do
      let a ← eval maxDepth steps lhs
      if op.skips a then return a else eval maxDepth steps rhs
    | .conditional _ cond whenTrue whenFalse => do
      if (← eval maxDepth steps cond).truthy then eval maxDepth steps whenTrue
      else eval maxDepth steps whenFalse
    | .assign pos none target value => do
      let slot ← resolve maxDepth steps target
      let v ← eval maxDepth steps value
      writeSlot pos slot v
      return v
    | .assign pos (some op) target value => do
      let slot ← resolve maxDepth steps target
      let old ← lift pos (slot.read (← get))
      let v := op.apply old (← eval maxDepth steps value)
      writeSlot pos slot v
      return v
    | .update pos op before target => do
      let slot ← resolve maxDepth steps target
      let old := (← lift pos (slot.read (← get))).toNumber
      writeSlot pos slot (.number (op.apply old))
      return .number (if before then op.apply old else old)
    | .member pos object property => do
      lift pos ((← eval maxDepth steps object).readMember property)
    | .index pos object key => do
      let v ← eval maxDepth steps object
      let k ← eval maxDepth steps key
      lift pos (v.readIndex k)
    | .call pos (.member mpos object property) args => do
      match mutatedPlace? object property with
      | some place =>
        let slot ← resolve maxDepth steps place
        let vs ← evalAll maxDepth steps args
        -- read after the arguments, which may have changed the array
        match ← lift pos (slot.held (← get)) with
        | .array items => changeArray pos slot (property == "pop") items vs
        | v => callMethod maxDepth steps pos (.member mpos object property) v property vs
      | none =>
        let v ← eval maxDepth steps object
        let vs ← evalAll maxDepth steps args
        callMethod maxDepth steps pos (.member mpos object property) v property vs
    | .call pos callee args => do
      let f ← eval maxDepth steps callee
      let vs ← evalAll maxDepth steps args
      callValue maxDepth steps pos callee f vs

/-- The values of some expressions, from left to right. -/
def evalAll (maxDepth : Nat) : (steps : Nat) → List Expr → Effect (List Value)
  | 0, _ => exhausted
  | _ + 1, [] => return []
  | steps + 1, e :: rest => do
    let v ← eval maxDepth steps e
    let vs ← evalAll maxDepth steps rest
    return v :: vs

/-- The members of an object literal added to those before; of two with one name the later
    counts. -/
def evalMembers (maxDepth : Nat) :
    (steps : Nat) → List (String × Expr) → Dict Value → Effect (Dict Value)
  | 0, _, _ => exhausted
  | _ + 1, [], members => return members
  | steps + 1, (key, e) :: rest, members => do
    let v ← eval maxDepth steps e
    evalMembers maxDepth steps rest (Dict.insert members key v)

/-- The slot of a place: its keys are evaluated from the root outward. -/
def resolve (maxDepth : Nat) : (steps : Nat) → Place → Effect Slot
  | 0, _ => exhausted
  | _ + 1, .name _ s => return ⟨s, []⟩
  | steps + 1, .member _ base property => do
    let slot ← resolve maxDepth steps base
    return slot.into (.text property)
  | steps + 1, .index _ base key => do
    let slot ← resolve maxDepth steps base
    let k ← eval maxDepth steps key
    return slot.into k

/-- Call the method `name` of `receiver`: a member of its own comes before the methods of the
    language. -/
def callMethod (maxDepth : Nat) :
    (steps : Nat) → Position → (callee : Expr) → (receiver : Value) → (name : String) →
      List Value → Effect Value
  | 0, _, _, _, _, _ => exhausted
  | steps + 1, pos, callee, receiver, name, args =>
    let own :=
      match receiver with
      | .object members => Dict.get? members name
      | _ => none
    match own with
    | some f => callValue maxDepth steps pos callee f args
    | none => lift pos (receiver.callMethod name args)

/-- Call a value, which must be a function. -/
def callValue (maxDepth : Nat) :
    (steps : Nat) → Position → (callee : Expr) → Value → List Value → Effect Value
  | 0, _, _, _, _ => exhausted
  | steps + 1, pos, callee, v, args =>
    match v with
    | .function run f => callFunction maxDepth steps pos run f args
    | .native .append => appendOutput pos args
    | .native n => lift pos (n.call args)
    | _ => fail callee.pos (.notCallable callee.describe)

/-- Call a script function.  Its body sees its parameters, its own name and the environment. -/
def callFunction (maxDepth : Nat) :
    (steps : Nat) → Position → (run : Nat) → Function → List Value → Effect Value
  | 0, _, _, _, _ => exhausted
  | steps + 1, pos, run, f, args => do
    if maxDepth ≤ (← get).depth then fail pos (.callDepthExceeded maxDepth)
    else
      let flow ← inCall run (Scope.ofCall run f args) do
        modify fun m => m.hoist f.body
        execAll maxDepth steps f.body
      match flow with
      | .ret v => return v
      | _ => return .undefined

/-- Execute a statement. -/
def exec (maxDepth : Nat) : (steps : Nat) → Stmt → Effect Flow
  | 0, _ => exhausted
  | steps + 1, s =>
    match s with
    | .declare kind items => do
      declareAll maxDepth steps kind items
      return .next
    | .expr e => do
      let _ ← eval maxDepth steps e
      return .next
    | .branch cond whenTrue whenFalse => do
      if (← eval maxDepth steps cond).truthy then execScoped maxDepth steps whenTrue
      else
        match whenFalse with
        | some s => execScoped maxDepth steps s
        | none => return .next
    | .whileLoop cond body => execWhile maxDepth steps cond body
    | .doWhile body cond => execDoWhile maxDepth steps body cond
    | .forLoop start cond update body => within .block do
      match start with
      | some (.declare kind items) => declareAll maxDepth steps kind items
      | some (.expr e) => do let _ ← eval maxDepth steps e
      | none => pure ()
      execFor maxDepth steps cond update body
    | .forOf kind name iterable body => do
      let v ← eval maxDepth steps iterable
      match iterated? v with
      | some items => execForOf maxDepth steps iterable.pos kind name body items
      | none => fail iterable.pos (.misuse (.notIterable v.typeName))
    | .block body => execBlock maxDepth steps body
    | .function .. | .empty => return .next
    | .ret none => return .ret .undefined
    | .ret (some e) => return .ret (← eval maxDepth steps e)
    | .breakLoop => return .breakLoop
    | .continueLoop => return .continueLoop

/-- Execute statements until one does not finish normally. -/
def execAll (maxDepth : Nat) : (steps : Nat) → List Stmt → Effect Flow
  | 0, _ => exhausted
  | _ + 1, [] => return .next
  | steps + 1, s :: rest => do
    match ← exec maxDepth steps s with
    | .next => execAll maxDepth steps rest
    | flow => return flow

/-- Execute the names of a declaration one after the other. -/
def declareAll (maxDepth : Nat) : (steps : Nat) → DeclKind → List Declarator → Effect Unit
  | 0, _, _ => exhausted
  | _ + 1, _, [] => return ()
  | steps + 1, kind, d :: rest => do
    let v ←
      match d.init with
      | some e => eval maxDepth steps e
      | none => pure .undefined
    declareName d.pos kind d.name v
    declareAll maxDepth steps kind rest

/-- Execute statements in a scope of their own, their functions declared first. -/
def execBlock (maxDepth : Nat) : (steps : Nat) → List Stmt → Effect Flow
  | 0, _ => exhausted
  | steps + 1, body => within .block do
    modify fun m => m.hoist body
    execAll maxDepth steps body

/-- Execute a branch or the body of a loop, in a scope of its own. -/
def execScoped (maxDepth : Nat) : (steps : Nat) → Stmt → Effect Flow
  | 0, _ => exhausted
  | steps + 1, .block body => execBlock maxDepth steps body
  | steps + 1, s => within .block (exec maxDepth steps s)

def execWhile (maxDepth : Nat) : (steps : Nat) → Expr → Stmt → Effect Flow
  | 0, _, _ => exhausted
  | steps + 1, cond, body => do
    if (← eval maxDepth steps cond).truthy then
      match ← execScoped maxDepth steps body with
      | .breakLoop => return .next
      | .ret v => return .ret v
      | .next | .continueLoop => execWhile maxDepth steps cond body
    else return .next

def execDoWhile (maxDepth : Nat) : (steps : Nat) → Stmt → Expr → Effect Flow
  | 0, _, _ => exhausted
  | steps + 1, body, cond => do
    match ← execScoped maxDepth steps body with
    | .breakLoop => return .next
    | .ret v => return .ret v
    | .next | .continueLoop =>
      if (← eval maxDepth steps cond).truthy then execDoWhile maxDepth steps body cond
      else return .next

/-- The rounds of a counting loop; a missing condition holds. -/
def execFor (maxDepth : Nat) :
    (steps : Nat) → (cond update : Option Expr) → Stmt → Effect Flow
  | 0, _, _, _ => exhausted
  | steps + 1, cond, update, body => do
    let v ←
      match cond with
      | some e => eval maxDepth steps e
      | none => pure (.bool true)
    if v.truthy then
      match ← execScoped maxDepth steps body with
      | .breakLoop => return .next
      | .ret v => return .ret v
      | .next | .continueLoop =>
        match update with
        | some e => do let _ ← eval maxDepth steps e
        | none => pure ()
        execFor maxDepth steps cond update body
    else return .next

/-- A round for each item, in a scope with the name of the item. -/
def execForOf (maxDepth : Nat) :
    (steps : Nat) → Position → DeclKind → String → Stmt → List Value → Effect Flow
  | 0, _, _, _, _, _ => exhausted
  | _ + 1, _, _, _, _, [] => return .next
  | steps + 1, pos, kind, name, body, v :: rest => do
    let flow ← within .block do
      declareName pos kind name v
      execScoped maxDepth steps body
    match flow with
    | .breakLoop => return .next
    | .ret v => return .ret v
    | .next | .continueLoop => execForOf maxDepth steps pos kind name body rest

end

/-! ## Whole scripts -/

/-- Run the statements of a script. -/
def execProgram (maxDepth : Nat) (steps : Nat) (body : List Stmt) : Effect Unit := do
  modify fun m => m.hoist body
  let _ ← execAll maxDepth steps body

end Stencil.Script
