/-
  Where functions come from.

  A function value carries the number of the run that declared it.  Say which functions stand in the
  code of which run (`C`), where what a function declares stands in the same code as the function.
  Whatever runs then makes function values of its own code only, and goes on in other code only by
  calling a function of that code.  So if all functions that the state holds stand in the code of
  their runs, they do so after everything that is evaluated or executed (`Task.run_rooted`).
-/
import Stencil.Proofs.Script.Run.Changes
import Stencil.Proofs.Script.Run.Moves
import Stencil.Proofs.Script.Run.Steps

namespace Stencil.Script

open Effect
open Value (Hereditary)

/-! ## Functions and their runs -/

namespace Value

mutual

/-- Every function found in a value, with the number of its run. -/
def origins : Value → List (Nat × Function)
  | function run f => [(run, f)]
  | array items => originsItems items
  | object members => originsMembers members
  | undefined | null | bool _ | number _ | text _ | native _ => []

def originsItems : List Value → List (Nat × Function)
  | [] => []
  | v :: rest => origins v ++ originsItems rest

def originsMembers : List (String × Value) → List (Nat × Function)
  | [] => []
  | (_, v) :: rest => origins v ++ originsMembers rest

end

mutual

/-- They are the functions found in the value. -/
theorem map_snd_origins : ∀ v : Value, v.origins.map Prod.snd = v.functions
  | function _ _ => rfl
  | array items => map_snd_originsItems items
  | object members => map_snd_originsMembers members
  | undefined | null | bool _ | number _ | text _ | native _ => rfl

theorem map_snd_originsItems :
    ∀ items : List Value, (originsItems items).map Prod.snd = functionsItems items
  | [] => rfl
  | v :: rest => by
    rw [originsItems, functionsItems, List.map_append, map_snd_origins v, map_snd_originsItems rest]

theorem map_snd_originsMembers : ∀ members : List (String × Value),
    (originsMembers members).map Prod.snd = functionsMembers members
  | [] => rfl
  | (_, v) :: rest => by
    rw [originsMembers, functionsMembers, List.map_append, map_snd_origins v,
      map_snd_originsMembers rest]

end

/-- Every function found in the value stands in the code of its run. -/
def Rooted (C : Nat → Function → Prop) (v : Value) : Prop := ∀ p ∈ v.origins, C p.1 p.2

variable {C : Nat → Function → Prop}

theorem rooted_function {run : Nat} {f : Function} : Rooted C (function run f) ↔ C run f := by
  simp [Rooted, origins]

theorem forall_originsMembers {members : List (String × Value)} :
    (∀ p ∈ originsMembers members, C p.1 p.2) ↔ ∀ p ∈ members, Rooted C p.2 := by
  induction members with
  | nil => simp [originsMembers]
  | cons p rest ih =>
    rw [originsMembers, List.forall_mem_append, ih, List.forall_mem_cons]
    rfl

theorem forall_originsItems {items : List Value} :
    (∀ p ∈ originsItems items, C p.1 p.2) ↔ ∀ v ∈ items, Rooted C v := by
  induction items with
  | nil => simp [originsItems]
  | cons v rest ih =>
    rw [originsItems, List.forall_mem_append, ih, List.forall_mem_cons]
    rfl

instance : Hereditary (Rooted C) where
  undefined := fun _ hp => by cases hp
  null := fun _ hp => by cases hp
  bool _ := fun _ hp => by cases hp
  number _ := fun _ hp => by cases hp
  text _ := fun _ hp => by cases hp
  native _ := fun _ hp => by cases hp
  array := forall_originsItems
  object := forall_originsMembers

end Value

/-! ## The number of the run -/

namespace Machine

theorem run_setVariable (m : Machine) (name : String) (v : Value) :
    (m.setVariable name v).run = m.run := by
  unfold setVariable
  split <;> rfl

theorem run_hoist (m : Machine) (body : List Stmt) : (m.hoist body).run = m.run := by
  cases h : m.scopes with
  | nil => rw [hoist_of_nil body h]
  | cons s outer => rw [hoist_of_cons body h]

variable {m m' : Machine} {name : String} {v : Value}

theorem run_assign (h : m.assign name v = .ok m') : m'.run = m.run := by
  rcases assign_cases h with ⟨i, s, b, -, -, -, rfl⟩ | ⟨-, rfl⟩ <;> rfl

theorem run_declare {kind : DeclKind} (h : m.declare kind name v = .ok m') : m'.run = m.run := by
  rcases declare_cases h with ⟨-, ⟨i, s, -, -, rfl⟩ | ⟨-, rfl⟩⟩ |
    ⟨-, ⟨s, -, -, rfl⟩ | ⟨-, -, rfl⟩⟩ <;> rfl

end Machine

theorem Slot.run_write {s : Slot} {m m' : Machine} {v : Value} (h : s.write v m = .ok m') :
    m'.run = m.run := by
  rcases write_cases h with hassign | ⟨w, w', -, -, rfl⟩
  · exact Machine.run_assign hassign
  · exact m.run_setVariable _ _

/-! ## Effects -/

/-- The code of the run `number` is executed, and every function that the state holds stands in the
    code of its run. -/
structure Machine.Rooted (C : Nat → Function → Prop) (number : Nat) (m : Machine) : Prop where
  values : m.All (Value.Rooted C)
  run : m.run = number

/-- However the effect ends, the functions of the state still stand in the code of their runs; its
    result has `Q`. -/
def Roots {α : Type} (C : Nat → Function → Prop) (number : Nat) (x : Effect α) (Q : α → Prop) :
    Prop :=
  Keeps (Machine.Rooted C number) (fun _ => True) x Q

section

variable {C : Nat → Function → Prop} {number : Nat} {α β : Type} {pos : Position}

theorem roots_pure {a : α} {Q : α → Prop} (h : Q a) : Roots C number (pure a) Q := keeps_pure h

theorem roots_fail {fault : Fault} {Q : α → Prop} :
    Roots C number (fail pos fault : Effect α) Q := keeps_fail trivial

theorem Roots.bind {x : Effect α} {f : α → Effect β} {S : α → Prop} {Q : β → Prop}
    (hx : Roots C number x S) (hf : ∀ a, S a → Roots C number (f a) Q) :
    Roots C number (x >>= f) Q := Keeps.bind hx hf

theorem roots_lift {r : Except Fault α} {Q : α → Prop} (h : Gives r Q) :
    Roots C number (lift pos r) Q := by
  cases r with
  | ok a => exact roots_pure h
  | error fault => exact roots_fail

theorem roots_lookupName (name : String) :
    Roots C number (lookupName name) fun v? => ∀ v, v? = some v → v.Rooted C :=
  fun _ hm => ⟨fun _ hv => hm.values.lookup? hv, hm⟩

theorem roots_nameValue (name : String) :
    Roots C number (nameValue pos name) (Value.Rooted C) := by
  refine (roots_lookupName name).bind fun v? hv => ?_
  cases v? with
  | some v => exact roots_pure (hv v rfl)
  | none => exact roots_fail

theorem roots_readSlot (s : Slot) : Roots C number (readSlot pos s) (Value.Rooted C) :=
  fun m hm => roots_lift (hm.values.slot_read s) m hm

theorem roots_heldSlot (s : Slot) : Roots C number (heldSlot pos s) (Value.Rooted C) :=
  fun m hm => roots_lift (hm.values.slot_held s) m hm

theorem roots_writeSlot (s : Slot) {v : Value} (hv : v.Rooted C) :
    Roots C number (writeSlot pos s v) fun _ => True := by
  intro m hm
  have hwrite := hm.values.slot_write s hv
  unfold writeSlot
  cases h : s.write v m with
  | error fault => exact ⟨trivial, hm⟩
  | ok m' =>
    rw [h] at hwrite
    exact ⟨trivial, hwrite, (Slot.run_write h).trans hm.run⟩

theorem roots_changeArray (s : Slot) (pop : Bool) {items args : List Value}
    (hitems : ∀ v ∈ items, v.Rooted C) (hargs : ∀ v ∈ args, v.Rooted C) :
    Roots C number (changeArray pos s pop items args) (Value.Rooted C) := by
  intro m hm
  have hchanged : ∀ v ∈ if pop then items.dropLast else items ++ args, v.Rooted C := by
    split
    · exact fun v hv => hitems v (List.dropLast_subset items hv)
    · exact List.forall_mem_append.mpr ⟨hitems, hargs⟩
  unfold changeArray
  dsimp only
  -- what has become of the array does not matter, only that its items are such values
  generalize (if pop then items.dropLast else items ++ args) = changed at hchanged ⊢
  have hreplace := hm.values.slot_replace s (Hereditary.array.mpr hchanged)
  cases h : s.modify (fun _ => .ok (.array changed, ())) m with
  | error fault => exact ⟨trivial, hm⟩
  | ok out =>
    rw [h] at hreplace
    obtain ⟨v, v', -, -, hout⟩ := Slot.modify_cases h
    refine ⟨?_, hreplace, hout ▸ (m.run_setVariable _ _).trans hm.run⟩
    split
    · exact Value.holds_getLast?_getD hitems
    · exact Hereditary.number _

theorem roots_appendOutput (args : List Value) :
    Roots C number (appendOutput pos args) (Value.Rooted C) := by
  refine keeps_iff_goes.mpr fun m hm => ?_
  rw [appendOutput_apply]
  split
  · exact ⟨Hereditary.undefined, ⟨hm.values.setEnv _ (Hereditary.text _), hm.run⟩, trivial⟩
  · exact ⟨trivial, hm, trivial⟩

theorem roots_declareName (kind : DeclKind) (name : String) {v : Value} (hv : v.Rooted C) :
    Roots C number (declareName pos kind name v) fun _ => True := by
  intro m hm
  have hdeclare := hm.values.declare kind name hv
  unfold declareName
  cases h : m.declare kind name v with
  | error fault => exact ⟨trivial, hm⟩
  | ok m' =>
    rw [h] at hdeclare
    exact ⟨trivial, hdeclare, (Machine.run_declare h).trans hm.run⟩

/-- Functions of the code that is executed are declared in front. -/
theorem Machine.Rooted.hoist {m : Machine} (hm : m.Rooted C number) {body : List Stmt}
    (hbody : ∀ f ∈ Stmt.functionsList body, C number f) : (m.hoist body).Rooted C number := by
  refine ⟨hm.values.hoist fun f hf => ?_, (m.run_hoist body).trans hm.run⟩
  rw [hm.run]
  exact Value.rooted_function.mpr (hbody f (mem_functionsList_of_declared hf))

theorem roots_hoist {body : List Stmt} (hbody : ∀ f ∈ Stmt.functionsList body, C number f) :
    Roots C number (modify fun m => m.hoist body) fun _ => True :=
  fun _ hm => ⟨trivial, hm.hoist hbody⟩

theorem roots_checkDepth (maxDepth : Nat) :
    Roots C number (checkDepth maxDepth pos) fun _ => True := by
  refine keeps_iff_goes.mpr fun m hm => ?_
  rw [checkDepth_apply]
  split <;> exact ⟨trivial, hm, trivial⟩

theorem Machine.Rooted.block {m : Machine} (hm : m.Rooted C number) :
    (m.enter .block).Rooted C number :=
  ⟨⟨hm.values.env, List.forall_mem_cons.mpr ⟨Scope.block_all, hm.values.scopes⟩⟩, hm.run⟩

/-- In a call, the code is that of the function. -/
theorem Machine.Rooted.call {m : Machine} (hm : m.Rooted C number) {run : Nat} {f : Function}
    {args : List Value} (hf : C run f) (hargs : ∀ v ∈ args, v.Rooted C) :
    (m.beginCall run (Scope.ofCall run f args)).Rooted C run :=
  ⟨⟨hm.values.env, Scope.ofCall_all (Value.rooted_function.mpr hf) hargs⟩, rfl⟩

theorem roots_block {x : Effect α} {Q : α → Prop} (hx : Roots C number x Q) :
    Roots C number (within .block x) Q :=
  Keeps.within hx (fun _ hm => hm.block)
    fun _ hm => ⟨⟨hm.values.env, fun s hs => hm.values.scopes s (List.mem_of_mem_tail hs)⟩, hm.run⟩

/-- A call goes on in the code of the function. -/
theorem roots_call {x : Effect α} {Q : α → Prop} {run : Nat} {f : Function} {args : List Value}
    (hf : C run f) (hargs : ∀ v ∈ args, v.Rooted C) (hx : Roots C run x Q) :
    Roots C number (inCall run (Scope.ofCall run f args) x) Q := by
  refine keeps_iff_goes.mpr fun m hm => ?_
  have hlead := keeps_iff_goes.mp hx _ (hm.call hf hargs)
  rw [inCall_apply]
  cases h : x (m.beginCall run (Scope.ofCall run f args)) with
  | done a n =>
    rw [h] at hlead
    exact ⟨hlead.1, ⟨⟨hlead.2.1.values.env, hm.values.scopes⟩, hm.run⟩, trivial⟩
  | failed e n =>
    rw [h] at hlead
    exact ⟨trivial, ⟨⟨hlead.2.1.values.env, hm.values.scopes⟩, hm.run⟩, trivial⟩
  | exhausted => trivial

end

/-! ## Tasks -/

/-- What a statement finishes with, if with a value, has the property. -/
def Flow.All (H : Value → Prop) : Flow → Prop
  | .ret v => H v
  | .next | .breakLoop | .continueLoop => True

namespace Task

/-- The statements of the task stand in the code of the run `number`, and so does a function that is
    called in that of its run; the functions in values that the task is given do too. -/
def Given (C : Nat → Function → Prop) (number : Nat) : {α : Type} → Task α → Prop
  | _, .eval _ | _, .evalAll _ | _, .resolve _ | _, .declareAll .. => True
  | _, .evalMembers _ members => ∀ p ∈ members, p.2.Rooted C
  | _, .callMethod _ _ v _ args | _, .callValue _ _ v args => v.Rooted C ∧ ∀ w ∈ args, w.Rooted C
  | _, .callFunction _ run f args => C run f ∧ ∀ w ∈ args, w.Rooted C
  | _, .exec s | _, .execScoped s => ∀ f ∈ s.functions, C number f
  | _, .execAll body | _, .execBlock body => ∀ f ∈ Stmt.functionsList body, C number f
  | _, .execWhile _ body | _, .execDoWhile body _ | _, .execFor _ _ body =>
    ∀ f ∈ body.functions, C number f
  | _, .execForOf _ _ _ body items =>
    (∀ f ∈ body.functions, C number f) ∧ ∀ v ∈ items, v.Rooted C

/-- The functions in the result of the task stand in the code of their runs. -/
def Gives (C : Nat → Function → Prop) : {α : Type} → Task α → α → Prop
  | _, .eval _, v | _, .callMethod .., v | _, .callValue .., v | _, .callFunction .., v =>
    v.Rooted C
  | _, .evalAll _, vs => ∀ v ∈ vs, v.Rooted C
  | _, .evalMembers .., members => ∀ p ∈ members, p.2.Rooted C
  | _, .exec _, flow | _, .execAll _, flow | _, .execBlock _, flow | _, .execScoped _, flow
  | _, .execWhile .., flow | _, .execDoWhile .., flow | _, .execFor .., flow
  | _, .execForOf .., flow => flow.All (Value.Rooted C)
  | _, .resolve _, _ | _, .declareAll .., _ => True

end Task

/-- What a function declares stands in the code in which the function stands. -/
def Nested (C : Nat → Function → Prop) : Prop :=
  ∀ number f, C number f → ∀ g ∈ Stmt.functionsList f.body, C number g

/-- The plan of something in the code of the run `number`: its effects keep the functions of the
    state in the code of their runs, its calls go on in the code of the functions called, and its
    result has `Q`. -/
inductive Plan.Rooted (C : Nat → Function → Prop) :
    {α : Type} → Nat → Plan α → (α → Prop) → Prop where
  | effect {α : Type} {number : Nat} {x : Effect α} {Q : α → Prop} :
      Roots C number x Q → Rooted C number (effect x) Q
  | task {α : Type} {number : Nat} {t : Task α} :
      t.Given C number → Rooted C number (task t) (t.Gives C)
  | bind {α β : Type} {number : Nat} {p : Plan α} {f : α → Plan β} {S : α → Prop}
      {Q : β → Prop} : Rooted C number p S → (∀ a, S a → Rooted C number (f a) Q) →
      Rooted C number (bind p f) Q
  | block {α : Type} {number : Nat} {p : Plan α} {Q : α → Prop} :
      Rooted C number p Q → Rooted C number (within .block p) Q
  | call {α : Type} {number run : Nat} {f : Function} {args : List Value} {p : Plan α}
      {Q : α → Prop} : C run f → (∀ v ∈ args, v.Rooted C) → Rooted C run p Q →
      Rooted C number (inCall run (Scope.ofCall run f args) p) Q

section

variable {C : Nat → Function → Prop} {number : Nat} {α : Type}

theorem rooted_pure {a : α} {Q : α → Prop} (h : Q a) : (pure a : Plan α).Rooted C number Q :=
  .effect (roots_pure h)

theorem rooted_task (t : Task α) (ht : t.Given C number) :
    (liftM t : Plan α).Rooted C number (t.Gives C) := .task ht

theorem rooted_eval (e : Expr) :
    (liftM (Task.eval e) : Plan Value).Rooted C number (Value.Rooted C) := .task trivial

theorem rooted_resolve (place : Place) :
    (liftM (Task.resolve place) : Plan Slot).Rooted C number fun _ => True := .task trivial

theorem rooted_ite {c : Prop} [Decidable c] {p q : Plan α} {Q : α → Prop}
    (hp : p.Rooted C number Q) (hq : q.Rooted C number Q) :
    (if c then p else q).Rooted C number Q := by
  split
  · exact hp
  · exact hq

theorem rooted_round {flow : Flow} {next : Plan Flow} (hflow : flow.All (Value.Rooted C))
    (hnext : next.Rooted C number (Flow.All (Value.Rooted C))) :
    (planRound flow next).Rooted C number (Flow.All (Value.Rooted C)) := by
  cases flow with
  | next => exact hnext
  | continueLoop => exact hnext
  | breakLoop => exact rooted_pure trivial
  | ret v => exact rooted_pure hflow

theorem planCall_rooted (pos : Position) (callee : Expr) (args : List Expr) :
    (planCall pos callee args).Rooted C number (Value.Rooted C) := by
  have hcall (e : Expr) : (do
      let f ← Task.eval e
      let vs ← Task.evalAll args
      Task.callValue pos callee f vs : Plan Value).Rooted C number (Value.Rooted C) :=
    (rooted_eval e).bind fun v hv => (rooted_task (.evalAll args) trivial).bind fun vs hvs =>
      rooted_task (.callValue pos callee v vs) ⟨hv, hvs⟩
  cases callee with
  | member mpos object property =>
    rw [planCall]
    cases mutatedPlace? object property with
    | some place =>
      refine (rooted_resolve place).bind fun slot _ =>
        (rooted_task (.evalAll args) trivial).bind fun vs hvs =>
          .bind (.effect (roots_heldSlot slot)) fun v hv => ?_
      cases v with
      | array items => exact .effect (roots_changeArray slot _ (Hereditary.array.mp hv) hvs)
      | _ =>
        exact rooted_task (.callMethod pos (.member mpos object property) _ property vs) ⟨hv, hvs⟩
    | none =>
      exact (rooted_eval object).bind fun v hv =>
        (rooted_task (.evalAll args) trivial).bind fun vs hvs =>
          rooted_task (.callMethod pos (.member mpos object property) v property vs) ⟨hv, hvs⟩
  | _ => exact hcall _

theorem planEval_rooted (e : Expr) :
    (planEval e).Rooted C number (Value.Rooted C) := by
  cases e with
  | number pos x => exact rooted_pure (Hereditary.number _)
  | text pos s => exact rooted_pure (Hereditary.text _)
  | bool pos b => exact rooted_pure (Hereditary.bool _)
  | null pos => exact rooted_pure Hereditary.null
  | undefined pos => exact rooted_pure Hereditary.undefined
  | name pos s => exact .effect (roots_nameValue s)
  | array pos items =>
    exact (rooted_task (.evalAll items) trivial).bind fun vs hvs =>
      rooted_pure (Hereditary.array.mpr hvs)
  | object pos members =>
    exact (rooted_task (.evalMembers members []) fun _ hp => by cases hp).bind fun vs hvs =>
      rooted_pure (Hereditary.object.mpr hvs)
  | unary pos op operand =>
    have hoperand : (do
        return op.apply (← Task.eval operand) : Plan Value).Rooted C number (Value.Rooted C) := by
      refine (rooted_eval operand).bind fun v _ => rooted_pure ?_
      cases op with
      | not => exact Hereditary.bool _
      | negate => exact Hereditary.number _
      | plus => exact Hereditary.number _
      | typeOf => exact Hereditary.text _
    cases op with
    | typeOf =>
      cases operand with
      | name pos s =>
        exact .bind (.effect (roots_lookupName s)) fun _ _ => rooted_pure (Hereditary.text _)
      | _ => exact hoperand
    | _ => exact hoperand
  | binary pos op lhs rhs =>
    exact (rooted_eval lhs).bind fun a _ => (rooted_eval rhs).bind fun b _ =>
      rooted_pure (op.apply_holds a b)
  | logical pos op lhs rhs =>
    exact (rooted_eval lhs).bind fun a ha => rooted_ite (rooted_pure ha) (rooted_eval rhs)
  | conditional pos cond whenTrue whenFalse =>
    exact (rooted_eval cond).bind fun _ _ =>
      rooted_ite (rooted_eval whenTrue) (rooted_eval whenFalse)
  | assign pos op target value =>
    cases op with
    | none =>
      exact (rooted_resolve target).bind fun slot _ => (rooted_eval value).bind fun v hv =>
        .bind (.effect (roots_writeSlot slot hv)) fun _ _ => rooted_pure hv
    | some op =>
      refine (rooted_resolve target).bind fun slot _ =>
        .bind (.effect (roots_readSlot slot)) fun old _ => (rooted_eval value).bind fun v _ => ?_
      have hnew := op.apply_holds (H := Value.Rooted C) old v
      exact .bind (.effect (roots_writeSlot slot hnew)) fun _ _ => rooted_pure hnew
  | update pos op before target =>
    exact (rooted_resolve target).bind fun slot _ =>
      .bind (.effect (roots_readSlot slot)) fun old _ =>
        .bind (.effect (roots_writeSlot slot (Hereditary.number _))) fun _ _ =>
          rooted_pure (Hereditary.number _)
  | member pos object property =>
    exact (rooted_eval object).bind fun v hv =>
      .effect (roots_lift (Value.readMember_yields hv property).gives)
  | index pos object key =>
    exact (rooted_eval object).bind fun v hv => (rooted_eval key).bind fun k _ =>
      .effect (roots_lift (Value.readIndex_yields hv k).gives)
  | call pos callee args => exact planCall_rooted pos callee args

theorem planExec_rooted (s : Stmt) (hs : ∀ f ∈ s.functions, C number f) :
    (planExec s).Rooted C number (Flow.All (Value.Rooted C)) := by
  cases s with
  | declare kind items =>
    exact (rooted_task (.declareAll kind items) trivial).bind fun _ _ => rooted_pure trivial
  | expr e => exact (rooted_eval e).bind fun _ _ => rooted_pure trivial
  | branch cond whenTrue whenFalse =>
    rw [Stmt.functions, List.forall_mem_append] at hs
    refine (rooted_eval cond).bind fun _ _ =>
      rooted_ite (rooted_task (.execScoped whenTrue) hs.1) ?_
    cases whenFalse with
    | none => exact rooted_pure trivial
    | some s => exact rooted_task (.execScoped s) hs.2
  | whileLoop cond body => exact rooted_task (.execWhile cond body) hs
  | doWhile body cond => exact rooted_task (.execDoWhile body cond) hs
  | forLoop start cond update body =>
    have hrounds := rooted_task (.execFor cond update body) hs
    refine .block ?_
    rcases start with - | ⟨kind, items⟩ | e
    · exact hrounds
    · exact (rooted_task (.declareAll kind items) trivial).bind fun _ _ => hrounds
    · exact (rooted_eval e).bind fun _ _ => hrounds
  | forOf kind name iterable body =>
    refine (rooted_eval iterable).bind fun v hv => ?_
    cases hitems : iterated? v with
    | some items =>
      exact rooted_task (.execForOf iterable.pos kind name body items)
        ⟨hs, iterated?_holds hv hitems⟩
    | none => exact .effect roots_fail
  | block body => exact rooted_task (.execBlock body) hs
  | function pos name params body => exact rooted_pure trivial
  | ret value =>
    cases value with
    | none => exact rooted_pure (Hereditary.undefined (H := Value.Rooted C))
    | some e => exact (rooted_eval e).bind fun v hv => rooted_pure hv
  | breakLoop => exact rooted_pure trivial
  | continueLoop => exact rooted_pure trivial
  | empty => exact rooted_pure trivial

theorem planCallMethod_rooted (pos : Position) (callee : Expr) {receiver : Value} (name : String)
    {args : List Value} (hreceiver : receiver.Rooted C) (hargs : ∀ v ∈ args, v.Rooted C) :
    (planCallMethod pos callee receiver name args).Rooted C number (Value.Rooted C) := by
  have hlift : (liftM (lift pos (receiver.callMethod name args)) : Plan Value).Rooted C number
      (Value.Rooted C) :=
    .effect (roots_lift (Value.callMethod_yields hreceiver name args).gives)
  cases receiver with
  | object members =>
    simp only [planCallMethod]
    cases hown : Dict.get? members name with
    | some f =>
      exact rooted_task (.callValue pos callee f args)
        ⟨Dict.forall_get? (Hereditary.object.mp hreceiver) hown, hargs⟩
    | none => exact hlift
  | _ => exact hlift

theorem planCallValue_rooted (pos : Position) (callee : Expr) {v : Value} {args : List Value}
    (hv : v.Rooted C) (hargs : ∀ w ∈ args, w.Rooted C) :
    (planCallValue pos callee v args).Rooted C number (Value.Rooted C) := by
  cases v with
  | function number f =>
    exact rooted_task (.callFunction pos number f args) ⟨Value.rooted_function.mp hv, hargs⟩
  | native n =>
    have hlift : (liftM (lift pos (n.call args)) : Plan Value).Rooted C number (Value.Rooted C) :=
      .effect (roots_lift (n.call_yields args).gives)
    cases n with
    | append => exact .effect (roots_appendOutput args)
    | _ => exact hlift
  | _ => exact .effect roots_fail

/-- A call goes on in the code of the function, which declares its functions there. -/
theorem planCallFunction_rooted (hC : Nested C) (maxDepth : Nat) (pos : Position) {called : Nat}
    {f : Function} {args : List Value} (hf : C called f) (hargs : ∀ v ∈ args, v.Rooted C) :
    (planCallFunction maxDepth pos called f args).Rooted C number (Value.Rooted C) := by
  have hinner := hC called f hf
  have hbody : (planBody called f args).Rooted C number (Flow.All (Value.Rooted C)) :=
    .call hf hargs (.bind (.effect (roots_hoist hinner)) fun _ _ =>
      rooted_task (.execAll f.body) hinner)
  refine .bind (.effect (roots_checkDepth maxDepth)) fun _ _ => hbody.bind fun flow hflow => ?_
  cases flow with
  | ret v => exact rooted_pure hflow
  | _ => exact rooted_pure (Hereditary.undefined (H := Value.Rooted C))

theorem Task.plan_rooted (hC : Nested C) (maxDepth : Nat) (t : Task α) (ht : t.Given C number) :
    (t.plan maxDepth).Rooted C number (t.Gives C) := by
  cases t with
  | eval e => exact planEval_rooted e
  | evalAll es =>
    cases es with
    | nil => exact rooted_pure fun _ hv => by cases hv
    | cons e rest =>
      exact (rooted_eval e).bind fun v hv =>
        (rooted_task (.evalAll rest) trivial).bind fun vs hvs =>
          rooted_pure (List.forall_mem_cons.mpr ⟨hv, hvs⟩)
  | evalMembers es members =>
    cases es with
    | nil => exact rooted_pure ht
    | cons p rest =>
      exact (rooted_eval p.2).bind fun v hv =>
        rooted_task (.evalMembers rest _) (Dict.forall_insert (Q := Value.Rooted C) ht p.1 hv)
  | resolve place =>
    cases place with
    | name pos s => exact rooted_pure trivial
    | member pos base property =>
      exact (rooted_resolve base).bind fun _ _ => rooted_pure trivial
    | index pos base key =>
      exact (rooted_resolve base).bind fun _ _ => (rooted_eval key).bind fun _ _ =>
        rooted_pure trivial
  | callMethod pos callee receiver name args =>
    exact planCallMethod_rooted pos callee name ht.1 ht.2
  | callValue pos callee v args => exact planCallValue_rooted pos callee ht.1 ht.2
  | callFunction pos called f args => exact planCallFunction_rooted hC maxDepth pos ht.1 ht.2
  | exec s => exact planExec_rooted s ht
  | execAll body =>
    cases body with
    | nil => exact rooted_pure trivial
    | cons s rest =>
      obtain ⟨hs, hrest⟩ := List.forall_mem_append.mp ht
      refine (rooted_task (.exec s) hs).bind fun flow hflow => ?_
      cases flow with
      | next => exact rooted_task (.execAll rest) hrest
      | ret v => exact rooted_pure hflow
      | breakLoop => exact rooted_pure trivial
      | continueLoop => exact rooted_pure trivial
  | declareAll kind items =>
    rcases items with - | ⟨⟨name, pos, init⟩, rest⟩
    · exact rooted_pure trivial
    · have hthen (v : Value) (hv : v.Rooted C) : (do
          declareName pos kind name v
          Task.declareAll kind rest : Plan Unit).Rooted C number fun _ => True :=
        .bind (.effect (roots_declareName kind name hv)) fun _ _ =>
          rooted_task (.declareAll kind rest) trivial
      cases init with
      | none => exact (rooted_pure (Hereditary.undefined (H := Value.Rooted C))).bind hthen
      | some e => exact (rooted_eval e).bind hthen
  | execBlock body =>
    exact .block (.bind (.effect (roots_hoist ht)) fun _ _ => rooted_task (.execAll body) ht)
  | execScoped s =>
    cases s with
    | block body => exact rooted_task (.execBlock body) ht
    | _ => exact .block (rooted_task (.exec _) ht)
  | execWhile cond body =>
    refine (rooted_eval cond).bind fun _ _ => rooted_ite ?_ (rooted_pure trivial)
    exact (rooted_task (.execScoped body) ht).bind fun flow hflow =>
      rooted_round hflow (rooted_task (.execWhile cond body) ht)
  | execDoWhile body cond =>
    refine (rooted_task (.execScoped body) ht).bind fun flow hflow => rooted_round hflow ?_
    exact (rooted_eval cond).bind fun _ _ =>
      rooted_ite (rooted_task (.execDoWhile body cond) ht) (rooted_pure trivial)
  | execFor cond update body =>
    have hround {next : Plan Flow}
        (hnext : next.Rooted C number (Flow.All (Value.Rooted C))) (v : Value) :
        (do
          if v.truthy then planRound (← Task.execScoped body) next
          else return .next : Plan Flow).Rooted C number (Flow.All (Value.Rooted C)) :=
      rooted_ite ((rooted_task (.execScoped body) ht).bind fun flow hflow =>
        rooted_round hflow hnext) (rooted_pure trivial)
    have hrest := rooted_task (.execFor cond update body) ht
    have htrue : (pure (.bool true) : Plan Value).Rooted C number (Value.Rooted C) :=
      rooted_pure (Hereditary.bool true)
    cases cond with
    | none =>
      cases update with
      | none => exact htrue.bind fun v _ => hround hrest v
      | some e => exact htrue.bind fun v _ => hround ((rooted_eval e).bind fun _ _ => hrest) v
    | some c =>
      cases update with
      | none => exact (rooted_eval c).bind fun v _ => hround hrest v
      | some e =>
        exact (rooted_eval c).bind fun v _ => hround ((rooted_eval e).bind fun _ _ => hrest) v
  | execForOf pos kind name body items =>
    cases items with
    | nil => exact rooted_pure trivial
    | cons v rest =>
      obtain ⟨hbody, hitems⟩ := ht
      obtain ⟨hv, hrest⟩ := List.forall_mem_cons.mp hitems
      have hround : (Plan.within .block (do declareName pos kind name v; Task.execScoped body)
          : Plan Flow).Rooted C number (Flow.All (Value.Rooted C)) :=
        .block (.bind (.effect (roots_declareName kind name hv)) fun _ _ =>
          rooted_task (.execScoped body) hbody)
      exact hround.bind fun flow hflow =>
        rooted_round hflow (rooted_task (.execForOf pos kind name body rest) ⟨hbody, hrest⟩)

/-! ## The evaluator -/

/-- What a plan does keeps the functions in the code of their runs if the tasks do. -/
theorem Plan.Rooted.follow {run : Runner}
    (hrun : ∀ {α : Type} {number : Nat} (t : Task α), t.Given C number →
      Roots C number (run t) (t.Gives C))
    {p : Plan α} {Q : α → Prop} (h : p.Rooted C number Q) : Roots C number (p.follow run) Q := by
  induction h with
  | effect hx => exact hx
  | task ht => exact hrun _ ht
  | bind _ _ ihp ihf => exact ihp.bind ihf
  | block _ ih => exact roots_block ih
  | call hf hargs _ ih => exact roots_call hf hargs ih

/-- **Whatever runs keeps the functions in the code of their runs.** -/
theorem Task.run_rooted (hC : Nested C) (maxDepth steps : Nat) (t : Task α)
    (ht : t.Given C number) : Roots C number (t.run maxDepth steps) (t.Gives C) := by
  induction steps generalizing α number with
  | zero =>
    rw [Task.run_zero]
    exact fun _ _ => trivial
  | succ steps ih =>
    rw [Task.run_succ]
    exact (t.plan_rooted hC maxDepth ht).follow fun t ht => ih t ht

theorem execProgram_rooted (hC : Nested C) (maxDepth steps : Nat) {body : List Stmt}
    (hbody : ∀ f ∈ Stmt.functionsList body, C number f) :
    Roots C number (execProgram maxDepth steps body) fun _ => True :=
  (roots_hoist hbody).bind fun _ _ =>
    ((Task.execAll body).run_rooted hC maxDepth steps hbody).bind fun _ _ => roots_pure trivial

/-- A task that a plan comes to is of the code in force there, and so is the state. -/
theorem Plan.Rooted.starts {run : Runner}
    (hrun : ∀ {α : Type} {number : Nat} (t : Task α), t.Given C number →
      Roots C number (run t) (t.Gives C))
    {β : Type} {p : Plan α} {Q : α → Prop} {m m' : Machine} {active : Nat} {t : Task β}
    (hp : p.Rooted C number Q) (hm : m.Rooted C number) (h : p.Starts run m active t m') :
    ∃ number', m'.Rooted C number' ∧ t.Given C number' := by
  induction h generalizing number with
  | task t m =>
    cases hp with
    | task ht => exact ⟨number, hm, ht⟩
  | first _ ih =>
    cases hp with
    | bind hp _ => exact ih hp hm
  | next hdone _ ih =>
    cases hp with
    -- what comes first has ended, and what it gives is what the rest is given
    | bind hp hf =>
      have hend := hp.follow hrun _ hm
      rw [hdone] at hend
      exact ih (hf _ hend.1) hend.2
  | within _ ih =>
    cases hp with
    | block hp => exact ih hp hm.block
  | inCall _ ih =>
    cases hp with
    -- the tasks of a call are of the code of the function, which may be that of another run
    | call hf hargs hp => exact ih hp (hm.call hf hargs)

/-- **At every moment of a run** the functions stand in the code of their runs, and what is done
    next is of the code in force there. -/
theorem Task.Comes.given (hC : Nested C) {maxDepth steps active left : Nat} {β : Type}
    {t : Task α} {t' : Task β} {m m' : Machine} (h : t.Comes maxDepth steps m active left t' m')
    (ht : t.Given C number) (hm : m.Rooted C number) :
    ∃ number', m'.Rooted C number' ∧ t'.Given C number' := by
  induction h generalizing number with
  | here => exact ⟨number, hm, ht⟩
  | further hstarts _ ih =>
    obtain ⟨number', hm', ht'⟩ :=
      (Task.plan_rooted hC maxDepth _ ht).starts (fun t ht => t.run_rooted hC maxDepth _ ht) hm
        hstarts
    exact ih ht' hm'

end

end Stencil.Script
