/-
  What the evaluator is made of.

  Besides starting tasks, in blocks and in calls, a plan does a few things at once: it looks names
  up, reads, writes and changes slots, declares names and appends to the output.  `Task.plan_made`
  goes through the plans of all tasks but the calls of script functions and finds nothing else in
  them, and that names are declared only by declarations and in blocks, and only names that the
  code declares.  So what is true of each of these effects is true of the whole evaluator.
-/
import Stencil.Proofs.Script.Run.Tasks

namespace Stencil.Script

open Effect

/-! ## Effects -/

/-- What a plan does at once; names are declared only if `declares` says so, and only those in
    `N`. -/
inductive Elementary (declares : Bool) (N : String → Prop) : {α : Type} → Effect α → Prop where
  | pure {α : Type} (a : α) : Elementary declares N (pure a : Effect α)
  | fail {α : Type} (pos : Position) {fault : Fault} (h : fault.isOfValues = true) :
      Elementary declares N (fail pos fault : Effect α)
  | lift {α : Type} (pos : Position) {r : Except Fault α} {Q : α → Prop} (h : Yields r Q) :
      Elementary declares N (lift pos r)
  | lookupName (name : String) : Elementary declares N (lookupName name)
  | nameValue (pos : Position) (name : String) : Elementary declares N (nameValue pos name)
  | readSlot (pos : Position) (s : Slot) : Elementary declares N (readSlot pos s)
  | heldSlot (pos : Position) (s : Slot) : Elementary declares N (heldSlot pos s)
  | writeSlot (pos : Position) (s : Slot) (v : Value) : Elementary declares N (writeSlot pos s v)
  | changeArray (pos : Position) (s : Slot) (pop : Bool) (items args : List Value) :
      Elementary declares N (changeArray pos s pop items args)
  | appendOutput (pos : Position) (args : List Value) :
      Elementary declares N (appendOutput pos args)
  | declareName (pos : Position) (kind : DeclKind) (name : String) (v : Value)
      (h : declares = true) (hname : N name) : Elementary declares N (declareName pos kind name v)
  | hoist (body : List Stmt) (h : declares = true)
      (hnames : ∀ f ∈ declaredFunctions body, N f.name) :
      Elementary declares N (modify fun m => m.hoist body)

/-- However the effect ends, it leaves the state as it is. -/
def Still {α : Type} (x : Effect α) : Prop :=
  ∀ m, (∃ a, x m = .done a m) ∨ ∃ e, x m = .failed e m

theorem still_lift {α : Type} (pos : Position) (r : Except Fault α) : Still (lift pos r) := by
  intro m
  cases r with
  | ok a => exact Or.inl ⟨a, rfl⟩
  | error fault => exact Or.inr ⟨_, rfl⟩

theorem still_nameValue (pos : Position) (name : String) : Still (nameValue pos name) := by
  intro m
  rw [nameValue_apply]
  cases m.lookup? name with
  | some v => exact Or.inl ⟨v, rfl⟩
  | none => exact Or.inr ⟨_, rfl⟩

theorem still_checkDepth (maxDepth : Nat) (pos : Position) : Still (checkDepth maxDepth pos) := by
  intro m
  rw [checkDepth_apply]
  split
  · exact Or.inr ⟨_, rfl⟩
  · exact Or.inl ⟨(), rfl⟩

/-- An effect leaves the state as it is, or it is one of the five that do not. -/
theorem of_elementary {declares : Bool} {N : String → Prop} {α : Type} {x : Effect α}
    (h : Elementary declares N x) {motive : {α : Type} → Effect α → Prop}
    (hstill : ∀ {α : Type} {x : Effect α}, Still x → motive x)
    (hwrite : ∀ pos s v, motive (writeSlot pos s v))
    (harray : ∀ pos s pop items args, motive (changeArray pos s pop items args))
    (houtput : ∀ pos args, motive (appendOutput pos args))
    (hdeclare : ∀ pos kind name v, N name → motive (declareName pos kind name v))
    (hhoist : ∀ body, (∀ f ∈ declaredFunctions body, N f.name) →
      motive (modify fun m => m.hoist body)) : motive x := by
  cases h with
  | pure a => exact hstill fun m => Or.inl ⟨a, rfl⟩
  | fail pos _ => exact hstill fun m => Or.inr ⟨_, rfl⟩
  | lift pos _ => exact hstill (still_lift pos _)
  | lookupName name => exact hstill fun m => Or.inl ⟨m.lookup? name, rfl⟩
  | nameValue pos name => exact hstill (still_nameValue pos name)
  | readSlot pos s => exact hstill fun m => still_lift pos (s.read m) m
  | heldSlot pos s => exact hstill fun m => still_lift pos (s.held m) m
  | writeSlot pos s v => exact hwrite pos s v
  | changeArray pos s pop items args => exact harray pos s pop items args
  | appendOutput pos args => exact houtput pos args
  | declareName pos kind name v _ hname => exact hdeclare pos kind name v hname
  | hoist body _ hnames => exact hhoist body hnames

/-- If the use binds a name, the name is in `N`. -/
def BindsIn (N : String → Prop) (u : NameUse × String) : Prop := u.1.binds = true → N u.2

/-! ## Tasks -/

/-- Whether the statement binds names where it stands. -/
def Stmt.declares : Stmt → Bool
  | .declare .. => true
  | _ => false

namespace Task

variable {α : Type}

/-- Whether the task is the call of a script function. -/
def isCall : Task α → Bool
  | .callFunction .. => true
  | _ => false

/-- Whether the task binds names in the scope that it is started in. -/
def declares : Task α → Bool
  | .exec s => s.declares
  | .execAll body => body.any Stmt.declares
  | .declareAll .. => true
  | _ => false

/-- What the statements of the task do with names. -/
def uses : Task α → List (NameUse × String)
  | exec s | execScoped s => s.uses
  | execAll body | execBlock body => Stmt.usesList body
  | declareAll kind items => Declarator.usesList kind items
  | execWhile _ body | execDoWhile body _ | execFor _ _ body => body.uses
  | execForOf _ kind name body _ => (.declare kind, name) :: body.uses
  | _ => []

end Task

/-! ## Plans -/

/-- The plan makes no call and consists of elementary effects; names are bound in the scope that it
    is followed in only if `declares` says so, and all names that are bound are in `N`. -/
def Plan.Made {α : Type} (declares : Bool) (N : String → Prop) : Plan α → Prop
  | effect x => Elementary declares N x
  | task t => (t.declares = true → declares = true) ∧ ∀ u ∈ t.uses, BindsIn N u
  | bind p f => p.Made declares N ∧ ∀ a, (f a).Made declares N
  | within scope p => scope = .block ∧ p.Made true N
  | inCall .. => False

section

variable {α β : Type} {declares : Bool} {N : String → Prop}

/-- What is true of all elementary effects is true of the effects of the plan. -/
theorem Plan.Made.all {Q : {α : Type} → Effect α → Prop} {C : Prop}
    (hQ : ∀ {α : Type} {declares : Bool} {x : Effect α}, Elementary declares N x → Q x)
    {p : Plan α} (h : p.Made declares N) : p.All Q C := by
  induction p generalizing declares with
  | effect x => exact hQ h
  | task t => trivial
  | bind p f ihp ihf => exact ⟨ihp h.1, fun a => ihf a (h.2 a)⟩
  | within scope p ih => exact ih h.2
  | inCall number scopes p ih => exact h.elim

theorem Plan.Made.bind {p : Plan α} {f : α → Plan β} (hp : p.Made declares N)
    (hf : ∀ a, (f a).Made declares N) : (p >>= f).Made declares N := ⟨hp, hf⟩

/-- An effect in front of the rest of a plan. -/
theorem Elementary.bind {x : Effect α} {f : α → Plan β} (hx : Elementary declares N x)
    (hf : ∀ a, (f a).Made declares N) : ((liftM x : Plan α) >>= f).Made declares N := ⟨hx, hf⟩

theorem made_pure (a : α) : (pure a : Plan α).Made declares N := .pure a

theorem made_task {t : Task α} (h : t.declares = false) (huses : ∀ u ∈ t.uses, BindsIn N u) :
    (liftM t : Plan α).Made declares N :=
  ⟨fun h' => absurd (h.symm.trans h') Bool.false_ne_true, huses⟩

/-- A task without statements. -/
theorem made_free {t : Task α} (h : t.declares = false) (huses : t.uses = []) :
    (liftM t : Plan α).Made declares N :=
  made_task h fun _ hu => absurd (huses ▸ hu) List.not_mem_nil

theorem made_ite {c : Prop} [Decidable c] {p q : Plan α} (hp : p.Made declares N)
    (hq : q.Made declares N) : (if c then p else q).Made declares N := by
  split
  · exact hp
  · exact hq

theorem made_round (flow : Flow) {next : Plan Flow} (h : next.Made declares N) :
    (planRound flow next).Made declares N := by
  cases flow with
  | next => exact h
  | continueLoop => exact h
  | breakLoop => exact made_pure _
  | ret v => exact made_pure _

theorem planCall_made (pos : Position) (callee : Expr) (args : List Expr) :
    (planCall pos callee args).Made declares N := by
  unfold planCall
  split
  · split
    · refine (made_free rfl rfl).bind fun slot => (made_free rfl rfl).bind fun vs =>
        (Elementary.heldSlot pos slot).bind fun v => ?_
      split
      · exact .changeArray pos slot _ _ _
      · exact made_free rfl rfl
    · exact (made_free rfl rfl).bind fun v => (made_free rfl rfl).bind fun vs => made_free rfl rfl
  · exact (made_free rfl rfl).bind fun f => (made_free rfl rfl).bind fun vs => made_free rfl rfl

theorem planEval_made (e : Expr) : (planEval e).Made declares N := by
  cases e with
  | number pos x => exact made_pure _
  | text pos s => exact made_pure _
  | bool pos b => exact made_pure _
  | null pos => exact made_pure _
  | undefined pos => exact made_pure _
  | name pos s => exact .nameValue pos s
  | array pos items => exact (made_free rfl rfl).bind fun _ => made_pure _
  | object pos members => exact (made_free rfl rfl).bind fun _ => made_pure _
  | unary pos op operand =>
    have hoperand : (do return op.apply (← Task.eval operand) : Plan Value).Made declares N :=
      (made_free rfl rfl).bind fun _ => made_pure _
    cases op with
    | typeOf =>
      cases operand with
      | name pos s => exact (Elementary.lookupName s).bind fun _ => made_pure _
      | _ => exact hoperand
    | _ => exact hoperand
  | binary pos op lhs rhs =>
    exact (made_free rfl rfl).bind fun _ => (made_free rfl rfl).bind fun _ => made_pure _
  | logical pos op lhs rhs =>
    exact (made_free rfl rfl).bind fun _ => made_ite (made_pure _) (made_free rfl rfl)
  | conditional pos cond whenTrue whenFalse =>
    exact (made_free rfl rfl).bind fun _ => made_ite (made_free rfl rfl) (made_free rfl rfl)
  | assign pos op target value =>
    cases op with
    | none => exact (made_free rfl rfl).bind fun _ => (made_free rfl rfl).bind fun _ =>
        (Elementary.writeSlot pos _ _).bind fun _ => made_pure _
    | some op => exact (made_free rfl rfl).bind fun _ => (Elementary.readSlot pos _).bind fun _ =>
        (made_free rfl rfl).bind fun _ => (Elementary.writeSlot pos _ _).bind fun _ => made_pure _
  | update pos op before target =>
    exact (made_free rfl rfl).bind fun _ => (Elementary.readSlot pos _).bind fun _ =>
      (Elementary.writeSlot pos _ _).bind fun _ => made_pure _
  | member pos object property =>
    exact (made_free rfl rfl).bind fun v =>
      .lift pos (Value.readMember_yields (H := Value.Holds fun _ => True) (fun _ _ => trivial) property)
  | index pos object key =>
    exact (made_free rfl rfl).bind fun v => (made_free rfl rfl).bind fun k =>
      .lift pos (Value.readIndex_yields (H := Value.Holds fun _ => True) (fun _ _ => trivial) k)
  | call pos callee args => exact planCall_made pos callee args

theorem planExec_made (s : Stmt) (hN : ∀ u ∈ s.uses, BindsIn N u) :
    (planExec s).Made s.declares N := by
  cases s with
  | declare kind items => exact Plan.Made.bind ⟨fun _ => rfl, hN⟩ fun _ => made_pure _
  | expr e => exact (made_free rfl rfl).bind fun _ => made_pure _
  | branch cond whenTrue whenFalse =>
    rw [Stmt.uses, List.forall_mem_append, List.forall_mem_append] at hN
    refine (made_free rfl rfl).bind fun _ => made_ite (made_task rfl hN.2.1) ?_
    cases whenFalse with
    | none => exact made_pure _
    | some s => exact made_task rfl hN.2.2
  | whileLoop cond body =>
    rw [Stmt.uses, List.forall_mem_append] at hN
    exact made_task rfl hN.2
  | doWhile body cond =>
    rw [Stmt.uses, List.forall_mem_append] at hN
    exact made_task rfl hN.1
  | forLoop start cond update body =>
    rw [Stmt.uses, List.forall_mem_append, List.forall_mem_append, List.forall_mem_append] at hN
    -- what is declared in the head of the loop is declared in the block around it
    have hrounds : (liftM (Task.execFor cond update body) : Plan Flow).Made true N :=
      made_task rfl hN.2.2.2
    rcases start with - | ⟨kind, items⟩ | e
    · exact ⟨rfl, hrounds⟩
    · exact ⟨rfl, Plan.Made.bind ⟨fun _ => rfl, hN.1⟩ fun _ => hrounds⟩
    · exact ⟨rfl, (made_free rfl rfl).bind fun _ => hrounds⟩
  | forOf kind name iterable body =>
    rw [Stmt.uses, List.forall_mem_cons, List.forall_mem_append] at hN
    refine (made_free rfl rfl).bind fun v => ?_
    cases iterated? v with
    | some items => exact made_task rfl (List.forall_mem_cons.mpr ⟨hN.1, hN.2.2⟩)
    | none => exact .fail _ rfl
  | block body => exact made_task rfl hN
  | function pos name params body => exact made_pure _
  | ret value =>
    cases value with
    | none => exact made_pure _
    | some e => exact (made_free rfl rfl).bind fun _ => made_pure _
  | breakLoop => exact made_pure _
  | continueLoop => exact made_pure _
  | empty => exact made_pure _

theorem planCallMethod_made (pos : Position) (callee : Expr) (receiver : Value) (name : String)
    (args : List Value) : (planCallMethod pos callee receiver name args).Made declares N := by
  unfold planCallMethod
  dsimp only
  split
  · exact made_free rfl rfl
  · exact .lift pos (Value.callMethod_yields (H := Value.Holds fun _ => True) (fun _ _ => trivial) name args)

theorem planCallValue_made (pos : Position) (callee : Expr) (v : Value) (args : List Value) :
    (planCallValue pos callee v args).Made declares N := by
  unfold planCallValue
  split
  · exact made_free rfl rfl
  · exact .appendOutput pos args
  · exact .lift pos (Native.call_yields (H := Value.Holds fun _ => True) _ args)
  · exact .fail _ rfl

theorem planExecAll_made (maxDepth : Nat) (body : List Stmt)
    (hN : ∀ u ∈ Stmt.usesList body, BindsIn N u) :
    ((Task.execAll body).plan maxDepth).Made (body.any Stmt.declares) N := by
  cases body with
  | nil => exact made_pure _
  | cons s rest =>
    rw [Stmt.usesList, List.forall_mem_append] at hN
    rw [List.any_cons]
    refine Plan.Made.bind ⟨fun h => by rw [show s.declares = true from h, Bool.true_or], hN.1⟩
      fun flow => ?_
    cases flow with
    | next =>
      exact ⟨fun h => by rw [show rest.any Stmt.declares = true from h, Bool.or_true], hN.2⟩
    | ret v => exact made_pure _
    | breakLoop => exact made_pure _
    | continueLoop => exact made_pure _

/-- What is declared directly among some statements is hoisted under names that they bind. -/
theorem hoist_made {body : List Stmt} (hN : ∀ u ∈ Stmt.usesList body, BindsIn N u) :
    Elementary true N (modify fun m => m.hoist body) :=
  .hoist body rfl fun _ hf => hN _ (mem_usesList_of_declared hf) rfl

theorem planExecFor_made (maxDepth : Nat) (cond update : Option Expr) (body : Stmt)
    (hN : ∀ u ∈ body.uses, BindsIn N u) :
    ((Task.execFor cond update body).plan maxDepth).Made declares N := by
  have hround {next : Plan Flow} (hnext : next.Made declares N) (v : Value) : (do
      if v.truthy then planRound (← Task.execScoped body) next
      else return .next : Plan Flow).Made declares N :=
    made_ite ((made_task (t := .execScoped body) rfl hN).bind fun flow => made_round flow hnext)
      (made_pure _)
  have hagain : (liftM (Task.execFor cond update body) : Plan Flow).Made declares N :=
    made_task rfl hN
  cases cond with
  | none =>
    cases update with
    | none => exact (made_pure _).bind (hround hagain)
    | some e => exact (made_pure _).bind (hround ((made_free rfl rfl).bind fun _ => hagain))
  | some e =>
    cases update with
    | none => exact (made_free rfl rfl).bind (hround hagain)
    | some e' =>
      exact (made_free rfl rfl).bind (hround ((made_free rfl rfl).bind fun _ => hagain))

/-- **What plans are made of.** -/
theorem Task.plan_made (maxDepth : Nat) (t : Task α) (ht : t.isCall = false)
    (hN : ∀ u ∈ t.uses, BindsIn N u) : (t.plan maxDepth).Made t.declares N := by
  cases t with
  | eval e => exact planEval_made e
  | evalAll es =>
    cases es with
    | nil => exact made_pure _
    | cons e rest =>
      exact (made_free rfl rfl).bind fun _ => (made_free rfl rfl).bind fun _ => made_pure _
  | evalMembers es members =>
    cases es with
    | nil => exact made_pure _
    | cons p rest => exact (made_free rfl rfl).bind fun _ => made_free rfl rfl
  | resolve place =>
    cases place with
    | name pos s => exact made_pure _
    | member pos base property => exact (made_free rfl rfl).bind fun _ => made_pure _
    | index pos base key =>
      exact (made_free rfl rfl).bind fun _ => (made_free rfl rfl).bind fun _ => made_pure _
  | callMethod pos callee receiver name args =>
    exact planCallMethod_made pos callee receiver name args
  | callValue pos callee v args => exact planCallValue_made pos callee v args
  | callFunction pos run f args => cases ht
  | exec s => exact planExec_made s hN
  | execAll body => exact planExecAll_made maxDepth body hN
  | declareAll kind items =>
    rcases items with - | ⟨⟨name, pos, init⟩, rest⟩
    · exact made_pure _
    · rw [Task.uses, Declarator.usesList, List.forall_mem_cons, List.forall_mem_append] at hN
      have hrest : ∀ v, (do
          declareName pos kind name v
          Task.declareAll kind rest : Plan Unit).Made true N := fun v =>
        (Elementary.declareName pos kind name v rfl (hN.1 rfl)).bind fun _ =>
          ⟨fun _ => rfl, hN.2.2⟩
      cases init with
      | none => exact (made_pure _).bind hrest
      | some e => exact (made_free rfl rfl).bind hrest
  | execBlock body =>
    have hbody : (do
        Effect.modify fun m => m.hoist body
        Task.execAll body : Plan Flow).Made true N :=
      (hoist_made hN).bind fun _ => ⟨fun _ => rfl, hN⟩
    exact ⟨rfl, hbody⟩
  | execScoped s =>
    cases s with
    | block body => exact made_task rfl hN
    | _ => exact ⟨rfl, fun _ => rfl, hN⟩
  | execWhile cond body =>
    refine (made_free rfl rfl).bind fun _ => made_ite ?_ (made_pure _)
    exact (made_task rfl hN).bind fun flow => made_round flow (made_task rfl hN)
  | execDoWhile body cond =>
    refine (made_task (t := .execScoped body) rfl hN).bind fun flow => made_round flow ?_
    exact (made_free rfl rfl).bind fun _ => made_ite (made_task rfl hN) (made_pure _)
  | execFor cond update body => exact planExecFor_made maxDepth cond update body hN
  | execForOf pos kind name body items =>
    cases items with
    | nil => exact made_pure _
    | cons v rest =>
      rw [Task.uses, List.forall_mem_cons] at hN
      have hround : (do
          declareName pos kind name v
          Task.execScoped body : Plan Flow).Made true N :=
        (Elementary.declareName pos kind name v rfl (hN.1 rfl)).bind fun _ => made_task rfl hN.2
      exact Plan.Made.bind ⟨rfl, hround⟩ fun flow => made_round flow
        (made_task rfl (List.forall_mem_cons.mpr hN))

/-- A task is the call of a script function, or its plan is made of elementary effects. -/
theorem Task.made_or_call (maxDepth : Nat) {motive : {α : Type} → Task α → Prop}
    (hmade : ∀ {α : Type} (t : Task α), (t.plan maxDepth).Made t.declares (fun _ => True) →
      motive t)
    (hcall : ∀ pos run f args, motive (.callFunction pos run f args)) (t : Task α) : motive t := by
  cases ht : t.isCall with
  | false => exact hmade t (t.plan_made maxDepth ht fun _ _ _ => trivial)
  | true =>
    cases t with
    | callFunction pos run f args => exact hcall pos run f args
    | _ => cases ht

/-- Besides elementary effects, the evaluator only checks the number of calls. -/
theorem Task.plan_all (maxDepth : Nat) {Q : {α : Type} → Effect α → Prop}
    (hQ : ∀ {α : Type} {declares : Bool} {x : Effect α},
      Elementary declares (fun _ => True) x → Q x)
    (hcheck : ∀ pos, Q (checkDepth maxDepth pos)) (t : Task α) : (t.plan maxDepth).All Q True := by
  refine t.made_or_call maxDepth (fun t ht => ht.all hQ) fun pos run f args => ?_
  refine ⟨hcheck pos, fun _ => ⟨⟨trivial, hQ (.hoist f.body rfl fun _ _ => trivial),
    fun _ => trivial⟩, fun flow => ?_⟩⟩
  cases flow <;> exact hQ (@Elementary.pure false _ _ _)

end

end Stencil.Script
