/-
  How statements finish.

  A statement with its jumps in their places finishes with `break` or `continue` only inside a
  loop, and with `return` only inside a function: loops take the former in, calls take the latter.
  So the body of a function finishes normally or with its value, and a whole script normally
  (`execAll_body`, `execAll_script`), whatever the state is that it runs in.
-/
import Stencil.Proofs.Script.Run.Rules
import Stencil.Proofs.Script.Tree.Parts
import Stencil.Script.Evaluate

namespace Stencil.Script

open Effect

variable {α β : Type}

/-- What a statement may finish with, where a loop or a function stands around it or not. -/
def Flow.Allowed (inLoop inFunction : Bool) : Flow → Prop
  | .next => True
  | .breakLoop | .continueLoop => inLoop = true
  | .ret _ => inFunction = true

/-- All results of the effect have `Q`. -/
def Finishes (x : Effect α) (Q : α → Prop) : Prop :=
  Keeps (fun _ => True) (fun _ => True) x Q

theorem finishes_pure {a : α} {Q : α → Prop} (h : Q a) : Finishes (pure a) Q := keeps_pure h

theorem finishes_any (x : Effect α) : Finishes x fun _ => True := by
  intro m _
  cases x m with
  | done a m' => exact ⟨trivial, trivial⟩
  | failed e m' => exact ⟨trivial, trivial⟩
  | exhausted => trivial

theorem Finishes.bind {x : Effect α} {f : α → Effect β} {R : α → Prop} {Q : β → Prop}
    (hx : Finishes x R) (hf : ∀ a, R a → Finishes (f a) Q) : Finishes (x >>= f) Q :=
  Keeps.bind hx hf

/-- Only the last of some effects decides what the result is. -/
theorem finishes_after {x : Effect α} {f : α → Effect β} {Q : β → Prop}
    (hf : ∀ a, Finishes (f a) Q) : Finishes (x >>= f) Q :=
  (finishes_any x).bind fun a _ => hf a

theorem Finishes.within {x : Effect α} {Q : α → Prop} (scope : Scope) (h : Finishes x Q) :
    Finishes (within scope x) Q := Keeps.within h (fun _ _ => trivial) fun _ _ => trivial

/-- What `x` finishes with from some state. -/
theorem Finishes.of_done {x : Effect α} {Q : α → Prop} (h : Finishes x Q) {m m' : Machine} {a : α}
    (hx : x m = .done a m') : Q a := by
  have := h m trivial
  rw [hx] at this
  exact this.1

/-- Behind the body of a loop only `return` goes on outward. -/
theorem finishes_round {inLoop inFunction : Bool} {x : Effect Flow}
    (hx : Finishes x (Flow.Allowed true inFunction)) {next : Effect Flow}
    (hnext : Finishes next (Flow.Allowed inLoop inFunction)) :
    Finishes (do
      match ← x with
      | .breakLoop => return .next
      | .ret v => return .ret v
      | .next | .continueLoop => next) (Flow.Allowed inLoop inFunction) := by
  refine hx.bind fun flow hflow => ?_
  cases flow with
  | next => exact hnext
  | continueLoop => exact hnext
  | breakLoop => exact finishes_pure trivial
  | ret v => exact finishes_pure hflow

/-! ## One step more -/

/-- With so many steps, every statement finishes as its surroundings allow.  A loop takes the jumps
    of its body in. -/
structure StatementsPlaced (maxDepth steps : Nat) : Prop where
  exec : ∀ {inLoop inFunction : Bool} (s : Stmt), s.Placed inLoop inFunction →
    Finishes (exec maxDepth steps s) (Flow.Allowed inLoop inFunction)
  execAll : ∀ {inLoop inFunction : Bool} (body : List Stmt),
    Stmt.PlacedList inLoop inFunction body →
    Finishes (execAll maxDepth steps body) (Flow.Allowed inLoop inFunction)
  execBlock : ∀ {inLoop inFunction : Bool} (body : List Stmt),
    Stmt.PlacedList inLoop inFunction body →
    Finishes (execBlock maxDepth steps body) (Flow.Allowed inLoop inFunction)
  execScoped : ∀ {inLoop inFunction : Bool} (s : Stmt), s.Placed inLoop inFunction →
    Finishes (execScoped maxDepth steps s) (Flow.Allowed inLoop inFunction)
  execWhile : ∀ {inFunction : Bool} (inLoop : Bool) (cond : Expr) (body : Stmt),
    body.Placed true inFunction →
    Finishes (execWhile maxDepth steps cond body) (Flow.Allowed inLoop inFunction)
  execDoWhile : ∀ {inFunction : Bool} (inLoop : Bool) (body : Stmt) (cond : Expr),
    body.Placed true inFunction →
    Finishes (execDoWhile maxDepth steps body cond) (Flow.Allowed inLoop inFunction)
  execFor : ∀ {inFunction : Bool} (inLoop : Bool) (cond update : Option Expr) (body : Stmt),
    body.Placed true inFunction →
    Finishes (execFor maxDepth steps cond update body) (Flow.Allowed inLoop inFunction)
  execForOf : ∀ {inFunction : Bool} (inLoop : Bool) (pos : Position) (kind : DeclKind)
    (name : String) (body : Stmt) (items : List Value), body.Placed true inFunction →
    Finishes (execForOf maxDepth steps pos kind name body items) (Flow.Allowed inLoop inFunction)

namespace StatementsPlaced

variable {maxDepth steps : Nat} {inLoop inFunction : Bool}

theorem zero : StatementsPlaced maxDepth 0 where
  exec _ _ := keeps_exhausted
  execAll _ _ := keeps_exhausted
  execBlock _ _ := keeps_exhausted
  execScoped _ _ := keeps_exhausted
  execWhile _ _ _ _ := keeps_exhausted
  execDoWhile _ _ _ _ := keeps_exhausted
  execFor _ _ _ _ _ := keeps_exhausted
  execForOf _ _ _ _ _ _ _ := keeps_exhausted

variable (h : StatementsPlaced maxDepth steps)

include h

theorem exec_succ (s : Stmt) (hs : s.Placed inLoop inFunction) :
    Finishes (Script.exec maxDepth (steps + 1) s) (Flow.Allowed inLoop inFunction) := by
  cases s with
  | declare kind items => exact finishes_after fun _ => finishes_pure trivial
  | expr e => exact finishes_after fun _ => finishes_pure trivial
  | branch cond whenTrue whenFalse =>
    refine finishes_after fun v => ?_
    split
    · exact h.execScoped whenTrue hs.1
    · cases whenFalse with
      | none => exact finishes_pure trivial
      | some s => exact h.execScoped s hs.2
  | whileLoop cond body => exact h.execWhile inLoop cond body hs
  | doWhile body cond => exact h.execDoWhile inLoop body cond hs
  | forLoop start cond update body =>
    have hrounds := h.execFor inLoop cond update body hs
    rw [Script.exec]
    refine Finishes.within _ ?_
    cases start with
    | none => exact finishes_after (x := pure ()) fun _ => hrounds
    | some start =>
      cases start with
      | declare kind items =>
        exact finishes_after (x := Script.declareAll maxDepth steps kind items) fun _ => hrounds
      | expr e => exact finishes_after (x := Script.eval maxDepth steps e) fun _ => hrounds
  | forOf kind name iterable body =>
    rw [Script.exec]
    refine finishes_after fun v => ?_
    split
    · exact h.execForOf inLoop _ _ _ _ _ hs
    · exact keeps_fail trivial
  | block body => exact h.execBlock body hs
  | function pos name params body => exact finishes_pure trivial
  | ret value =>
    cases value with
    | none => exact finishes_pure hs
    | some e => exact finishes_after fun v => finishes_pure hs
  | breakLoop => exact finishes_pure hs
  | continueLoop => exact finishes_pure hs
  | empty => exact finishes_pure trivial

theorem execAll_succ (body : List Stmt) (hbody : Stmt.PlacedList inLoop inFunction body) :
    Finishes (Script.execAll maxDepth (steps + 1) body) (Flow.Allowed inLoop inFunction) := by
  cases body with
  | nil => exact finishes_pure trivial
  | cons s rest =>
    refine (h.exec s hbody.1).bind fun flow hflow => ?_
    cases flow with
    | next => exact h.execAll rest hbody.2
    | breakLoop => exact finishes_pure hflow
    | continueLoop => exact finishes_pure hflow
    | ret v => exact finishes_pure hflow

theorem execScoped_succ (s : Stmt) (hs : s.Placed inLoop inFunction) :
    Finishes (Script.execScoped maxDepth (steps + 1) s) (Flow.Allowed inLoop inFunction) := by
  cases s with
  | block body => exact h.execBlock body hs
  | _ =>
    rw [Script.execScoped]
    · exact (h.exec _ hs).within _
    · simp

/-! ### Loops -/

theorem execWhile_succ (cond : Expr) (body : Stmt) (hbody : body.Placed true inFunction) :
    Finishes (Script.execWhile maxDepth (steps + 1) cond body)
      (Flow.Allowed inLoop inFunction) := by
  refine finishes_after fun v => ?_
  split
  · exact finishes_round (h.execScoped body hbody) (h.execWhile inLoop cond body hbody)
  · exact finishes_pure trivial

theorem execDoWhile_succ (body : Stmt) (cond : Expr) (hbody : body.Placed true inFunction) :
    Finishes (Script.execDoWhile maxDepth (steps + 1) body cond)
      (Flow.Allowed inLoop inFunction) := by
  rw [Script.execDoWhile]
  refine finishes_round (h.execScoped body hbody) (finishes_after fun v => ?_)
  split
  · exact h.execDoWhile inLoop body cond hbody
  · exact finishes_pure trivial

/-- A round of a counting loop, after its condition has been evaluated. -/
theorem execFor_round (cond update : Option Expr) (body : Stmt)
    (hbody : body.Placed true inFunction) (v : Value) : Finishes (do
      if v.truthy then
        match ← Script.execScoped maxDepth steps body with
        | .breakLoop => return .next
        | .ret v => return .ret v
        | .next | .continueLoop =>
          match update with
          | some e => do let _ ← Script.eval maxDepth steps e
          | none => pure ()
          Script.execFor maxDepth steps cond update body
      else return .next) (Flow.Allowed inLoop inFunction) := by
  have hnext := h.execFor inLoop cond update body hbody
  split
  · refine finishes_round (h.execScoped body hbody) ?_
    cases update with
    | none => exact finishes_after (x := pure ()) fun _ => hnext
    | some e => exact finishes_after (x := Script.eval maxDepth steps e) fun _ => hnext
  · exact finishes_pure trivial

theorem execFor_succ (cond update : Option Expr) (body : Stmt)
    (hbody : body.Placed true inFunction) :
    Finishes (Script.execFor maxDepth (steps + 1) cond update body)
      (Flow.Allowed inLoop inFunction) := by
  cases cond with
  | none => exact finishes_after (x := pure (.bool true)) (h.execFor_round none update body hbody)
  | some e =>
    exact finishes_after (x := Script.eval maxDepth steps e)
      (h.execFor_round (some e) update body hbody)

theorem execForOf_succ (pos : Position) (kind : DeclKind) (name : String) (body : Stmt)
    (items : List Value) (hbody : body.Placed true inFunction) :
    Finishes (Script.execForOf maxDepth (steps + 1) pos kind name body items)
      (Flow.Allowed inLoop inFunction) := by
  cases items with
  | nil => exact finishes_pure trivial
  | cons v rest =>
    have hround : Finishes (within .block do
        declareName pos kind name v
        Script.execScoped maxDepth steps body) (Flow.Allowed true inFunction) :=
      Finishes.within _ (finishes_after fun _ => h.execScoped body hbody)
    rw [Script.execForOf]
    exact finishes_round hround (h.execForOf inLoop pos kind name body rest hbody)

theorem succ : StatementsPlaced maxDepth (steps + 1) where
  exec := h.exec_succ
  execAll := h.execAll_succ
  execBlock body hbody := Finishes.within _ (finishes_after fun _ => h.execAll body hbody)
  execScoped := h.execScoped_succ
  execWhile _ := h.execWhile_succ
  execDoWhile _ := h.execDoWhile_succ
  execFor _ := h.execFor_succ
  execForOf _ := h.execForOf_succ

end StatementsPlaced

/-- **Every statement finishes as its surroundings allow**, after however many steps. -/
theorem statements_placed (maxDepth steps : Nat) : StatementsPlaced maxDepth steps := by
  induction steps with
  | zero => exact .zero
  | succ steps ih => exact ih.succ

/-- The body of a function finishes normally or with a value. -/
theorem execAll_body {f : Function} (hf : f.Placed) {maxDepth steps : Nat} {m m' : Machine}
    {flow : Flow} (h : execAll maxDepth steps f.body m = .done flow m') :
    flow = .next ∨ ∃ v, flow = .ret v := by
  have := ((statements_placed maxDepth steps).execAll f.body hf).of_done h
  cases flow with
  | next => exact Or.inl rfl
  | ret v => exact Or.inr ⟨v, rfl⟩
  | breakLoop | continueLoop => cases this

/-- A whole script finishes normally. -/
theorem execAll_script {body : List Stmt} (hbody : Stmt.PlacedList false false body)
    {maxDepth steps : Nat} {m m' : Machine} {flow : Flow}
    (h : execAll maxDepth steps body m = .done flow m') : flow = .next := by
  have := ((statements_placed maxDepth steps).execAll body hbody).of_done h
  cases flow with
  | next => rfl
  | ret _ | breakLoop | continueLoop => cases this

end Stencil.Script
