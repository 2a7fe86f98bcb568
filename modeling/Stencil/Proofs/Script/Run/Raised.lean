/-
  Whose code a fault is met in.

  A run that fails comes to something that fails by itself, in the statements of the script or in
  those of a function: then the innermost of the calls that are active there is a call of the
  function (`Task.run_failed_cases`).  It fails with nothing else (`Task.RaisesInCall.failed`).
  What fails, fails at a position that the code carries (`Task.Raises.pos_mem`), for with each step
  the code that is executed is a part of the code before, except where a call goes on in the code
  of a function (`Task.plan_at`).
-/
import Stencil.Proofs.Script.Run.Depth

namespace Stencil.Script

open Effect

/-! ## Positions of faults -/

/-- What the effect fails with, if it does, has a position in `P`. -/
def FailsAt (P : Position → Prop) {α : Type} (x : Effect α) : Prop :=
  ∀ m e m', x m = .failed e m' → P e.pos

section

variable {P : Position → Prop} {α : Type} {pos : Position}

theorem failsAt_of_done {x : Effect α} (h : ∀ m, ∃ a m', x m = .done a m') : FailsAt P x := by
  intro m e m' hx
  obtain ⟨a, n, hdone⟩ := h m
  cases hdone.symm.trans hx

theorem failsAt_pure (a : α) : FailsAt P (pure a : Effect α) :=
  failsAt_of_done fun m => ⟨a, m, rfl⟩

theorem failsAt_hoist (body : List Stmt) : FailsAt P (modify fun m => m.hoist body) :=
  failsAt_of_done fun m => ⟨(), m.hoist body, rfl⟩

theorem failsAt_lookupName (name : String) : FailsAt P (lookupName name) :=
  failsAt_of_done fun m => ⟨m.lookup? name, m, rfl⟩

theorem failsAt_fail (hpos : P pos) (fault : Fault) : FailsAt P (fail pos fault : Effect α) := by
  rintro m e m' ⟨⟩
  exact hpos

theorem failsAt_lift (hpos : P pos) (r : Except Fault α) : FailsAt P (lift pos r) := by
  cases r with
  | ok a => exact failsAt_pure a
  | error fault => exact failsAt_fail hpos fault

theorem failsAt_checkDepth (maxDepth : Nat) (hpos : P pos) :
    FailsAt P (checkDepth maxDepth pos) := by
  intro m e m' hx
  rw [checkDepth_apply] at hx
  split at hx <;> cases hx
  exact hpos

theorem failsAt_nameValue (hpos : P pos) (name : String) : FailsAt P (nameValue pos name) := by
  intro m e m' hx
  rw [nameValue_apply] at hx
  split at hx <;> cases hx
  exact hpos

theorem failsAt_readSlot (hpos : P pos) (s : Slot) : FailsAt P (readSlot pos s) :=
  fun m => failsAt_lift hpos (s.read m) m

theorem failsAt_heldSlot (hpos : P pos) (s : Slot) : FailsAt P (heldSlot pos s) :=
  fun m => failsAt_lift hpos (s.held m) m

theorem failsAt_writeSlot (hpos : P pos) (s : Slot) (v : Value) :
    FailsAt P (writeSlot pos s v) := by
  intro m e m' hx
  unfold writeSlot at hx
  split at hx <;> cases hx
  exact hpos

theorem failsAt_changeArray (hpos : P pos) (s : Slot) (pop : Bool) (items args : List Value) :
    FailsAt P (changeArray pos s pop items args) := by
  intro m e m' hx
  unfold changeArray at hx
  dsimp only at hx
  split at hx <;> cases hx
  exact hpos

theorem failsAt_appendOutput (hpos : P pos) (args : List Value) :
    FailsAt P (appendOutput pos args) := by
  intro m e m' hx
  rw [appendOutput_apply] at hx
  split at hx <;> cases hx
  exact hpos

theorem failsAt_declareName (hpos : P pos) (kind : DeclKind) (name : String) (v : Value) :
    FailsAt P (declareName pos kind name v) := by
  intro m e m' hx
  unfold declareName at hx
  split at hx <;> cases hx
  exact hpos

end

/-! ## Positions of tasks -/

/-- Every position in the code of the task.  A call that begins stands where it is made; the code of
    the function is not part of it. -/
def Task.positions : {α : Type} → Task α → List Position
  | _, .eval e => e.positions
  | _, .evalAll es => Expr.positionsItems es
  | _, .evalMembers es _ => Expr.positionsMembers es
  | _, .resolve place => place.positions
  | _, .callMethod pos callee _ _ _ | _, .callValue pos callee _ _ => pos :: callee.positions
  | _, .callFunction pos _ _ _ => [pos]
  | _, .exec s | _, .execScoped s => s.positions
  | _, .execAll body | _, .execBlock body => Stmt.positionsList body
  | _, .declareAll _ items => Declarator.positionsList items
  | _, .execWhile cond body => cond.positions ++ body.positions
  | _, .execDoWhile body cond => body.positions ++ cond.positions
  | _, .execFor cond update body =>
    Expr.positionsOption cond ++ (Expr.positionsOption update ++ body.positions)
  | _, .execForOf pos _ _ body _ => pos :: body.positions

/-- What the plan does itself fails at positions in `P` only, and its tasks have no others.  In its
    calls nothing fails but tasks. -/
def Plan.At (P : Position → Prop) {α : Type} : Plan α → Prop
  | effect x => FailsAt P x
  | task t => ∀ p ∈ t.positions, P p
  | bind p f => p.At P ∧ ∀ a, (f a).At P
  | within _ p => p.At P
  | inCall _ _ p => p.All (FailsAt fun _ => False) True

section

variable {P : Position → Prop} {α β : Type}

theorem Plan.At.bind {p : Plan α} {f : α → Plan β} (hp : p.At P) (hf : ∀ a, (f a).At P) :
    (p >>= f).At P := ⟨hp, hf⟩

theorem at_pure (a : α) : (pure a : Plan α).At P := failsAt_pure a

theorem at_task (t : Task α) (h : ∀ p ∈ t.positions, P p) : (liftM t : Plan α).At P := h

theorem at_eval {e : Expr} (h : ∀ p ∈ e.positions, P p) :
    (liftM (Task.eval e) : Plan Value).At P := h

theorem at_effect {x : Effect α} (h : FailsAt P x) : (liftM x : Plan α).At P := h

theorem at_ite {c : Prop} [Decidable c] {p q : Plan α} (hp : p.At P) (hq : q.At P) :
    (if c then p else q).At P := by
  split
  · exact hp
  · exact hq

theorem at_round (flow : Flow) {next : Plan Flow} (h : next.At P) : (planRound flow next).At P := by
  cases flow with
  | next => exact h
  | continueLoop => exact h
  | breakLoop => exact at_pure _
  | ret v => exact at_pure _

theorem planCall_at {pos : Position} (hpos : P pos) {callee : Expr} {args : List Expr}
    (hcallee : ∀ p ∈ callee.positions, P p) (hargs : ∀ p ∈ Expr.positionsItems args, P p) :
    (planCall pos callee args).At P := by
  have hwhere : ∀ p ∈ pos :: callee.positions, P p := List.forall_mem_cons.mpr ⟨hpos, hcallee⟩
  have hevalAll := at_task (.evalAll args) hargs
  cases callee with
  | member mpos object property =>
    have hobject : ∀ p ∈ object.positions, P p := (List.forall_mem_cons.mp hcallee).2
    rw [planCall]
    cases hplace : mutatedPlace? object property with
    | some place =>
      -- the place is the object, read as a place
      have hpositions : place.positions = object.positions := by
        unfold mutatedPlace? at hplace
        split at hplace
        · exact Expr.positions_of_toPlace? hplace
        · cases hplace
      refine (at_task (.resolve place) fun p hp => hobject p (hpositions ▸ hp)).bind fun slot =>
        hevalAll.bind fun vs => (at_effect (failsAt_heldSlot hpos slot)).bind fun v => ?_
      cases v with
      | array items => exact failsAt_changeArray hpos slot _ items vs
      | _ => exact hwhere
    | none => exact (at_eval hobject).bind fun v => hevalAll.bind fun vs => hwhere
  | _ => exact (at_eval hcallee).bind fun f => hevalAll.bind fun vs => hwhere

theorem planEval_at {e : Expr} (he : ∀ p ∈ e.positions, P p) : (planEval e).At P := by
  cases e with
  | number pos x => exact at_pure _
  | text pos s => exact at_pure _
  | bool pos b => exact at_pure _
  | null pos => exact at_pure _
  | undefined pos => exact at_pure _
  | name pos s => exact failsAt_nameValue (he pos List.mem_cons_self) s
  | array pos items =>
    exact (at_task (.evalAll items) (List.forall_mem_cons.mp he).2).bind fun _ => at_pure _
  | object pos members =>
    exact (at_task (.evalMembers members []) (List.forall_mem_cons.mp he).2).bind fun _ => at_pure _
  | unary pos op operand =>
    have hoperand : (do return op.apply (← Task.eval operand) : Plan Value).At P :=
      (at_eval (List.forall_mem_cons.mp he).2).bind fun _ => at_pure _
    cases op with
    | typeOf =>
      cases operand with
      | name pos s => exact (at_effect (failsAt_lookupName s)).bind fun _ => at_pure _
      | _ => exact hoperand
    | _ => exact hoperand
  | binary pos op lhs rhs =>
    obtain ⟨hlhs, hrhs⟩ := List.forall_mem_append.mp (List.forall_mem_cons.mp he).2
    exact (at_eval hlhs).bind fun _ => (at_eval hrhs).bind fun _ => at_pure _
  | logical pos op lhs rhs =>
    obtain ⟨hlhs, hrhs⟩ := List.forall_mem_append.mp (List.forall_mem_cons.mp he).2
    exact (at_eval hlhs).bind fun _ => at_ite (at_pure _) hrhs
  | conditional pos cond whenTrue whenFalse =>
    obtain ⟨hcond, hbranches⟩ := List.forall_mem_append.mp (List.forall_mem_cons.mp he).2
    obtain ⟨htrue, hfalse⟩ := List.forall_mem_append.mp hbranches
    exact (at_eval hcond).bind fun _ => at_ite htrue hfalse
  | assign pos op target value =>
    obtain ⟨hpos, hparts⟩ := List.forall_mem_cons.mp he
    obtain ⟨htarget, hvalue⟩ := List.forall_mem_append.mp hparts
    have hresolve := at_task (.resolve target) htarget
    cases op with
    | none =>
      exact hresolve.bind fun slot => (at_eval hvalue).bind fun v =>
        (at_effect (failsAt_writeSlot hpos slot v)).bind fun _ => at_pure _
    | some op =>
      exact hresolve.bind fun slot => (at_effect (failsAt_readSlot hpos slot)).bind fun old =>
        (at_eval hvalue).bind fun v =>
          (at_effect (failsAt_writeSlot hpos slot _)).bind fun _ => at_pure _
  | update pos op before target =>
    obtain ⟨hpos, htarget⟩ := List.forall_mem_cons.mp he
    exact (at_task (.resolve target) htarget).bind fun slot =>
      (at_effect (failsAt_readSlot hpos slot)).bind fun old =>
        (at_effect (failsAt_writeSlot hpos slot _)).bind fun _ => at_pure _
  | member pos object property =>
    obtain ⟨hpos, hobject⟩ := List.forall_mem_cons.mp he
    exact (at_eval hobject).bind fun v => failsAt_lift hpos _
  | index pos object key =>
    obtain ⟨hpos, hparts⟩ := List.forall_mem_cons.mp he
    obtain ⟨hobject, hkey⟩ := List.forall_mem_append.mp hparts
    exact (at_eval hobject).bind fun v => (at_eval hkey).bind fun k => failsAt_lift hpos _
  | call pos callee args =>
    obtain ⟨hpos, hparts⟩ := List.forall_mem_cons.mp he
    obtain ⟨hcallee, hargs⟩ := List.forall_mem_append.mp hparts
    exact planCall_at hpos hcallee hargs

theorem planExec_at {s : Stmt} (hs : ∀ p ∈ s.positions, P p) : (planExec s).At P := by
  cases s with
  | declare kind items => exact (at_task (.declareAll kind items) hs).bind fun _ => at_pure _
  | expr e => exact (at_eval hs).bind fun _ => at_pure _
  | branch cond whenTrue whenFalse =>
    obtain ⟨hcond, hbranches⟩ := List.forall_mem_append.mp hs
    obtain ⟨htrue, hfalse⟩ := List.forall_mem_append.mp hbranches
    refine (at_eval hcond).bind fun _ => at_ite (at_task (.execScoped whenTrue) htrue) ?_
    cases whenFalse with
    | none => exact at_pure _
    | some s => exact at_task (.execScoped s) hfalse
  | whileLoop cond body => exact at_task (.execWhile cond body) hs
  | doWhile body cond => exact at_task (.execDoWhile body cond) hs
  | forLoop start cond update body =>
    obtain ⟨hstart, hrest⟩ := List.forall_mem_append.mp hs
    have hrounds := at_task (.execFor cond update body) hrest
    rcases start with - | ⟨kind, items⟩ | e
    · exact hrounds
    · exact (at_task (.declareAll kind items) hstart).bind fun _ => hrounds
    · exact (at_eval (e := e) hstart).bind fun _ => hrounds
  | forOf kind name iterable body =>
    obtain ⟨hiterable, hbody⟩ := List.forall_mem_append.mp hs
    have hpos : P iterable.pos := hiterable _ iterable.pos_mem_positions
    refine (at_eval hiterable).bind fun v => ?_
    cases iterated? v with
    | some items =>
      exact at_task (.execForOf iterable.pos kind name body items)
        (List.forall_mem_cons.mpr ⟨hpos, hbody⟩)
    | none => exact failsAt_fail hpos _
  | block body => exact at_task (.execBlock body) hs
  | function pos name params body => exact at_pure _
  | ret value =>
    cases value with
    | none => exact at_pure _
    | some e => exact (at_eval (e := e) hs).bind fun _ => at_pure _
  | breakLoop => exact at_pure _
  | continueLoop => exact at_pure _
  | empty => exact at_pure _

theorem planCallMethod_at {pos : Position} (hpos : P pos) {callee : Expr}
    (hcallee : ∀ p ∈ callee.positions, P p) (receiver : Value) (name : String)
    (args : List Value) : (planCallMethod pos callee receiver name args).At P := by
  unfold planCallMethod
  dsimp only
  split
  · exact at_task (.callValue pos callee _ args) (List.forall_mem_cons.mpr ⟨hpos, hcallee⟩)
  · exact failsAt_lift hpos _

theorem planCallValue_at {pos : Position} (hpos : P pos) {callee : Expr}
    (hcallee : ∀ p ∈ callee.positions, P p) (v : Value) (args : List Value) :
    (planCallValue pos callee v args).At P := by
  unfold planCallValue
  split
  · exact at_task (.callFunction pos _ _ args) (List.forall_mem_singleton.mpr hpos)
  · exact failsAt_appendOutput hpos args
  · exact failsAt_lift hpos _
  · exact failsAt_fail (hcallee _ callee.pos_mem_positions) _

/-- A call that may not begin fails where it is made. -/
theorem planCallFunction_at (maxDepth : Nat) {pos : Position} (hpos : P pos) (run : Nat)
    (f : Function) (args : List Value) : (planCallFunction maxDepth pos run f args).At P := by
  have hhoist : FailsAt (fun _ => False) (modify fun m => m.hoist f.body) := failsAt_hoist f.body
  have hbody : (planBody run f args).At P := ⟨hhoist, fun _ => trivial⟩
  refine (at_effect (failsAt_checkDepth maxDepth hpos)).bind fun _ => hbody.bind fun flow => ?_
  cases flow <;> exact at_pure _

/-- **Code is executed part by part.**  What a task does itself fails at positions of its code, and
    its own tasks carry no others. -/
theorem Task.plan_at (maxDepth : Nat) {t : Task α} (ht : ∀ p ∈ t.positions, P p) :
    (t.plan maxDepth).At P := by
  cases t with
  | eval e => exact planEval_at ht
  | evalAll es =>
    cases es with
    | nil => exact at_pure _
    | cons e rest =>
      obtain ⟨he, hrest⟩ := List.forall_mem_append.mp ht
      exact (at_eval he).bind fun _ => (at_task (.evalAll rest) hrest).bind fun _ => at_pure _
  | evalMembers es members =>
    cases es with
    | nil => exact at_pure _
    | cons p rest =>
      obtain ⟨he, hrest⟩ := List.forall_mem_append.mp ht
      exact (at_eval he).bind fun _ => at_task (.evalMembers rest _) hrest
  | resolve place =>
    cases place with
    | name pos s => exact at_pure _
    | member pos base property =>
      exact (at_task (.resolve base) (List.forall_mem_cons.mp ht).2).bind fun _ => at_pure _
    | index pos base key =>
      obtain ⟨hbase, hkey⟩ := List.forall_mem_append.mp (List.forall_mem_cons.mp ht).2
      exact (at_task (.resolve base) hbase).bind fun _ => (at_eval hkey).bind fun _ => at_pure _
  | callMethod pos callee receiver name args =>
    obtain ⟨hpos, hcallee⟩ := List.forall_mem_cons.mp ht
    exact planCallMethod_at hpos hcallee receiver name args
  | callValue pos callee v args =>
    obtain ⟨hpos, hcallee⟩ := List.forall_mem_cons.mp ht
    exact planCallValue_at hpos hcallee v args
  | callFunction pos run f args =>
    exact planCallFunction_at maxDepth (ht pos List.mem_cons_self) run f args
  | exec s => exact planExec_at ht
  | execAll body =>
    cases body with
    | nil => exact at_pure _
    | cons s rest =>
      obtain ⟨hs, hrest⟩ := List.forall_mem_append.mp ht
      refine (at_task (.exec s) hs).bind fun flow => ?_
      cases flow with
      | next => exact at_task (.execAll rest) hrest
      | _ => exact at_pure _
  | declareAll kind items =>
    rcases items with - | ⟨⟨name, pos, init⟩, rest⟩
    · exact at_pure _
    · obtain ⟨hpos, hparts⟩ := List.forall_mem_cons.mp ht
      obtain ⟨hinit, hrest⟩ := List.forall_mem_append.mp hparts
      have hthen (v : Value) : (do
          declareName pos kind name v
          Task.declareAll kind rest : Plan Unit).At P :=
        (at_effect (failsAt_declareName hpos kind name v)).bind fun _ =>
          at_task (.declareAll kind rest) hrest
      cases init with
      | none => exact (at_pure _).bind hthen
      | some e => exact (at_eval (e := e) hinit).bind hthen
  | execBlock body =>
    exact (at_effect (failsAt_hoist body)).bind fun _ => at_task (.execAll body) ht
  | execScoped s =>
    cases s with
    | block body => exact at_task (.execBlock body) ht
    | _ => exact ht
  | execWhile cond body =>
    obtain ⟨hcond, hbody⟩ := List.forall_mem_append.mp ht
    refine (at_eval hcond).bind fun _ => at_ite ?_ (at_pure _)
    exact (at_task (.execScoped body) hbody).bind fun flow =>
      at_round flow (at_task (.execWhile cond body) ht)
  | execDoWhile body cond =>
    obtain ⟨hbody, hcond⟩ := List.forall_mem_append.mp ht
    refine (at_task (.execScoped body) hbody).bind fun flow => at_round flow ?_
    exact (at_eval hcond).bind fun _ => at_ite (at_task (.execDoWhile body cond) ht) (at_pure _)
  | execFor cond update body =>
    obtain ⟨hcond, hparts⟩ := List.forall_mem_append.mp ht
    obtain ⟨hupdate, hbody⟩ := List.forall_mem_append.mp hparts
    have hround {next : Plan Flow} (hnext : next.At P) (v : Value) : (do
        if v.truthy then planRound (← Task.execScoped body) next
        else return .next : Plan Flow).At P :=
      at_ite ((at_task (.execScoped body) hbody).bind fun flow => at_round flow hnext) (at_pure _)
    have hrest := at_task (.execFor cond update body) ht
    cases cond with
    | none =>
      cases update with
      | none => exact (at_pure _).bind (hround hrest)
      | some e =>
        exact (at_pure _).bind (hround ((at_eval (e := e) hupdate).bind fun _ => hrest))
    | some c =>
      cases update with
      | none => exact (at_eval (e := c) hcond).bind (hround hrest)
      | some e =>
        exact (at_eval (e := c) hcond).bind
          (hround ((at_eval (e := e) hupdate).bind fun _ => hrest))
  | execForOf pos kind name body items =>
    cases items with
    | nil => exact at_pure _
    | cons v rest =>
      obtain ⟨hpos, hbody⟩ := List.forall_mem_cons.mp ht
      have hround : (Plan.within .block (do declareName pos kind name v; Task.execScoped body)
          : Plan Flow).At P :=
        (at_effect (failsAt_declareName hpos kind name v)).bind fun _ =>
          at_task (.execScoped body) hbody
      exact hround.bind fun flow => at_round flow (at_task (.execForOf pos kind name body rest) ht)

end

/-! ## Faults and calls -/

/-- With so many steps, the task meets the fault in its own code: outside of the calls that it makes
    it comes to something that fails. -/
inductive Task.Raises (maxDepth : Nat) :
    {α : Type} → Nat → Task α → Machine → ScriptError → Prop where
  | here {α β : Type} {steps : Nat} {t : Task α} {m m' m'' : Machine} {x : Effect β}
      {e : ScriptError} : (t.plan maxDepth).Does (Task.run maxDepth steps) m x m' →
      x m' = .failed e m'' → Raises maxDepth (steps + 1) t m e
  | further {α β : Type} {steps : Nat} {t : Task α} {t' : Task β} {m m' : Machine}
      {e : ScriptError} : (t.plan maxDepth).Starts (Task.run maxDepth steps) m 0 t' m' →
      Raises maxDepth steps t' m' e → Raises maxDepth (steps + 1) t m e

section

variable {P : Position → Prop} {α β : Type} {maxDepth steps : Nat} {m m' : Machine}
  {e : ScriptError}

theorem Plan.At.does {p : Plan α} (hp : p.At P) {run : Runner} {x : Effect β}
    (h : p.Does run m x m') : FailsAt P x := by
  induction h with
  | effect x m => exact hp
  | first _ ih => exact ih hp.1
  | next _ _ ih => exact ih (hp.2 _)
  | within _ ih => exact ih hp
  | inCall h => exact fun m e m' hx => (Plan.All.does hp h m e m' hx).elim

theorem Plan.At.starts {p : Plan α} (hp : p.At P) {run : Runner} {active : Nat} {t : Task β}
    (h : p.Starts run m active t m') (hactive : active = 0) : ∀ q ∈ t.positions, P q := by
  induction h with
  | task t m => exact hp
  | first _ ih => exact ih hp.1 hactive
  | next _ _ ih => exact ih (hp.2 _) hactive
  | within _ ih => exact ih hp hactive
  | inCall _ _ => cases hactive

/-- **What code meets itself stands in it.** -/
theorem Task.Raises.pos_mem {t : Task α} (h : t.Raises maxDepth steps m e) :
    e.pos ∈ t.positions := by
  suffices ∀ P : Position → Prop, (∀ p ∈ t.positions, P p) → P e.pos from this _ fun _ hp => hp
  intro P ht
  induction h with
  | here hdoes hx => exact (Task.plan_at maxDepth ht).does hdoes _ _ _ hx
  | further hstarts _ ih => exact ih ((Task.plan_at maxDepth ht).starts hstarts rfl)

/-- A task that meets a fault fails with it. -/
theorem Task.Raises.failed {t : Task α} (h : t.Raises maxDepth steps m e) :
    ∃ n, t.run maxDepth steps m = .failed e n := by
  induction h with
  | here hdoes hx =>
    obtain ⟨n, hn, -⟩ := hdoes.failed hx
    exact ⟨n, by rw [Task.run_succ, hn]⟩
  | further hstarts _ ih =>
    obtain ⟨n, hn⟩ := ih
    obtain ⟨k, hk, -⟩ := hstarts.failed hn
    exact ⟨k, by rw [Task.run_succ, hk]⟩

/-- In the course of the task the function `f` of the run `number` is called, and its statements
    meet the fault, outside of the calls that they make. -/
def Task.RaisesInCall (maxDepth steps : Nat) (t : Task α) (m : Machine) (number : Nat)
    (f : Function) (e : ScriptError) : Prop :=
  ∃ active left pos args m',
    t.Comes maxDepth steps m active (left + 1) (.callFunction pos number f args) m' ∧
    m'.depth < maxDepth ∧
    (Task.execAll f.body).Raises maxDepth left
      ((m'.beginCall number (Scope.ofCall number f args)).hoist f.body) e

/-- A fault that the statements of a called function meet ends the task that the call belongs to. -/
theorem Task.RaisesInCall.failed {t : Task α} {number : Nat} {f : Function}
    (h : t.RaisesInCall maxDepth steps m number f e) :
    ∃ n, t.run maxDepth steps m = .failed e n := by
  obtain ⟨active, left, pos, args, m', hcomes, hdepth, hraises⟩ := h
  refine hcomes.failed ?_
  obtain ⟨n, hn⟩ := hraises.failed
  -- the call goes past the check of its depth and comes to the statements of the function
  have hcheck : checkDepth maxDepth pos m' = .done () m' := by
    rw [checkDepth_apply, if_neg (Nat.not_le_of_lt hdepth)]
  have hstarts : (planCallFunction maxDepth pos number f args).Starts (Task.run maxDepth left) m' 1
      (.execAll f.body) ((m'.beginCall number (Scope.ofCall number f args)).hoist f.body) :=
    .next hcheck (.first (.inCall (.next rfl (.task _ _))))
  obtain ⟨k, hk, -⟩ := hstarts.failed hn
  exact ⟨k, by rw [Task.run_succ]; exact hk⟩

/-- **A fault is met in the code itself or in that of a function that is called**, in which it is
    the innermost call that is active. -/
theorem Task.run_failed_cases {t : Task α} (h : t.run maxDepth steps m = .failed e m') :
    t.Raises maxDepth steps m e ∨ ∃ number f, t.RaisesInCall maxDepth steps m number f e := by
  obtain ⟨β, x, n, n', hdoes, hx, -⟩ := Task.does_of_failed h
  clear h
  induction hdoes with
  | here hdoes => exact Or.inl (.here hdoes hx)
  | @further _ _ _ steps active t t' m m₁ n x hstarts hdoes ih =>
    rcases ih hx with hraises | ⟨number, f, active', left, pos, args, m₂, hcomes, hcall⟩
    · revert hstarts hraises
      refine t.calm_or_call maxDepth (motive := fun t =>
        (t.plan maxDepth).Starts (Task.run maxDepth steps) m active t' m₁ →
        t'.Raises maxDepth steps m₁ e → t.Raises maxDepth (steps + 1) m e ∨
          ∃ number f, t.RaisesInCall maxDepth (steps + 1) m number f e)
        (fun t ht hstarts hraises => ?_) fun pos number f args hstarts => ?_
      · obtain rfl := ht.starts hstarts
        exact Or.inl (.further hstarts hraises)
      · exact planCallFunction_starts_cases (motive := fun _ t' m₁ =>
          t'.Raises maxDepth steps m₁ e → _) hstarts fun hdepth hraises =>
          Or.inr ⟨number, f, 0, steps, pos, args, m, .here _ _ _, hdepth, hraises⟩
    · exact Or.inr ⟨number, f, _, left, pos, args, m₂, .further hstarts hcomes, hcall⟩

end

end Stencil.Script
