/-
  Counting loops are loops with a condition.

  A `for` does the same as a block with its start and a `while`, whose body is the body of the `for`
  and behind it the update (`exec_forLoop_iff_while`).  The block around the body and the update is
  one scope more than the `for` has, in which nothing is bound, so it makes no difference; and a
  body without a `continue` of its own comes to the update in the same cases.
-/
import Stencil.Proofs.Script.Run.Jumps
import Stencil.Proofs.Script.Run.Padding
import Stencil.Proofs.Script.Run.Rounds

namespace Stencil.Script

open Effect

/-! ## Statements that do not continue a loop around them -/

mutual

/-- Whether the statement has a `continue` of the loop around it.  Loops in it have their own. -/
def Stmt.continues : Stmt → Bool
  | .branch _ whenTrue whenFalse => whenTrue.continues || Stmt.continuesElse whenFalse
  | .block body => Stmt.continuesList body
  | .continueLoop => true
  | .declare .. | .expr _ | .whileLoop .. | .doWhile .. | .forLoop .. | .forOf .. | .function ..
  | .ret _ | .breakLoop | .empty => false

def Stmt.continuesElse : Option Stmt → Bool
  | none => false
  | some s => s.continues

def Stmt.continuesList : List Stmt → Bool
  | [] => false
  | s :: rest => s.continues || Stmt.continuesList rest

end

/-- Followed so, the plan does not finish with `continue`. -/
def Plan.Moderate (run : Runner) (p : Plan Flow) : Prop :=
  Finishes (p.follow run) fun flow => flow ≠ .continueLoop

section

variable {run : Runner} {α : Type}

theorem moderate_pure {flow : Flow} (h : flow ≠ .continueLoop) :
    (pure flow : Plan Flow).Moderate run := finishes_pure h

/-- Only the last part of a plan decides how it finishes. -/
theorem moderate_after {p : Plan α} {f : α → Plan Flow} (h : ∀ a, (f a).Moderate run) :
    (p >>= f).Moderate run := finishes_after h

theorem moderate_ite {c : Prop} [Decidable c] {p q : Plan Flow} (hp : p.Moderate run)
    (hq : q.Moderate run) : (if c then p else q).Moderate run := by
  split
  · exact hp
  · exact hq

theorem moderate_round (flow : Flow) {next : Plan Flow} (h : next.Moderate run) :
    (planRound flow next).Moderate run := by
  cases flow with
  | next => exact h
  | continueLoop => exact h
  | breakLoop => exact moderate_pure nofun
  | ret v => exact moderate_pure nofun

end

/-- The tasks do not finish with `continue`, unless there is one of the loop around. -/
structure Moderately (run : Runner) : Prop where
  exec : ∀ s : Stmt, s.continues = false → (Plan.task (.exec s)).Moderate run
  execAll : ∀ body, Stmt.continuesList body = false → (Plan.task (.execAll body)).Moderate run
  execBlock : ∀ body, Stmt.continuesList body = false → (Plan.task (.execBlock body)).Moderate run
  execScoped : ∀ s : Stmt, s.continues = false → (Plan.task (.execScoped s)).Moderate run
  execWhile : ∀ cond body, (Plan.task (.execWhile cond body)).Moderate run
  execDoWhile : ∀ body cond, (Plan.task (.execDoWhile body cond)).Moderate run
  execFor : ∀ cond update body, (Plan.task (.execFor cond update body)).Moderate run
  execForOf : ∀ pos kind name body items,
    (Plan.task (.execForOf pos kind name body items)).Moderate run

namespace Moderately

variable {run : Runner} (h : Moderately run)

include h

theorem planExec (s : Stmt) (hs : s.continues = false) : (planExec s).Moderate run := by
  cases s with
  | declare kind items => exact moderate_after fun _ => moderate_pure nofun
  | expr e => exact moderate_after fun _ => moderate_pure nofun
  | branch cond whenTrue whenFalse =>
    obtain ⟨htrue, hfalse⟩ := Bool.or_eq_false_iff.mp hs
    refine moderate_after fun v => moderate_ite (h.execScoped whenTrue htrue) ?_
    cases whenFalse with
    | none => exact moderate_pure nofun
    | some s => exact h.execScoped s hfalse
  | whileLoop cond body => exact h.execWhile cond body
  | doWhile body cond => exact h.execDoWhile body cond
  | forLoop start cond update body =>
    have hrounds := h.execFor cond update body
    refine Finishes.within _ ?_
    rcases start with - | ⟨kind, items⟩ | e
    · exact hrounds
    · exact moderate_after fun _ => hrounds
    · exact moderate_after fun _ => hrounds
  | forOf kind name iterable body =>
    refine moderate_after fun v => ?_
    cases iterated? v with
    | some items => exact h.execForOf _ kind name body items
    | none => exact fun _ _ => ⟨trivial, trivial⟩
  | block body => exact h.execBlock body hs
  | ret value =>
    cases value with
    | none => exact moderate_pure nofun
    | some e => exact moderate_after fun _ => moderate_pure nofun
  | continueLoop => cases hs
  | function | breakLoop | empty => exact moderate_pure nofun

theorem planExecAll (maxDepth : Nat) (body : List Stmt) (hbody : Stmt.continuesList body = false) :
    ((Task.execAll body).plan maxDepth).Moderate run := by
  cases body with
  | nil => exact moderate_pure nofun
  | cons s rest =>
    obtain ⟨hs, hrest⟩ := Bool.or_eq_false_iff.mp hbody
    refine Finishes.bind (h.exec s hs) fun flow hflow => ?_
    cases flow with
    | next => exact h.execAll rest hrest
    | continueLoop => exact absurd rfl hflow
    | breakLoop => exact moderate_pure nofun
    | ret v => exact moderate_pure nofun

theorem planExecScoped (maxDepth : Nat) (s : Stmt) (hs : s.continues = false) :
    ((Task.execScoped s).plan maxDepth).Moderate run := by
  cases s with
  | block body => exact h.execBlock body hs
  | _ => exact Finishes.within _ (h.exec _ hs)

theorem planExecFor (maxDepth : Nat) (cond update : Option Expr) (body : Stmt) :
    ((Task.execFor cond update body).plan maxDepth).Moderate run := by
  have hloop := h.execFor cond update body
  have hround {next : Plan Flow} (hnext : next.Moderate run) (v : Value) : (do
      if v.truthy then planRound (← Task.execScoped body) next
      else return .next : Plan Flow).Moderate run :=
    moderate_ite (moderate_after fun flow => moderate_round flow hnext) (moderate_pure nofun)
  cases cond with
  | none =>
    cases update with
    | none => exact moderate_after (hround hloop)
    | some e => exact moderate_after (hround (moderate_after fun _ => hloop))
  | some e =>
    cases update with
    | none => exact moderate_after (hround hloop)
    | some e' => exact moderate_after (hround (moderate_after fun _ => hloop))

theorem planExecForOf (maxDepth : Nat) (pos : Position) (kind : DeclKind) (name : String)
    (body : Stmt) (items : List Value) :
    ((Task.execForOf pos kind name body items).plan maxDepth).Moderate run := by
  cases items with
  | nil => exact moderate_pure nofun
  | cons v rest =>
    exact moderate_after fun flow => moderate_round flow (h.execForOf pos kind name body rest)

/-- One step more. -/
theorem step (maxDepth : Nat) : Moderately fun t => (t.plan maxDepth).follow run where
  exec s hs := h.planExec s hs
  execAll body hbody := h.planExecAll maxDepth body hbody
  execBlock body hbody := Finishes.within _ (moderate_after fun _ => h.execAll body hbody)
  execScoped s hs := h.planExecScoped maxDepth s hs
  execWhile cond body := moderate_after fun _ => moderate_ite
    (moderate_after fun flow => moderate_round flow (h.execWhile cond body)) (moderate_pure nofun)
  execDoWhile body cond := moderate_after fun flow => moderate_round flow (moderate_after fun _ =>
    moderate_ite (h.execDoWhile body cond) (moderate_pure nofun))
  execFor cond update body := h.planExecFor maxDepth cond update body
  execForOf pos kind name body items := h.planExecForOf maxDepth pos kind name body items

end Moderately

/-- A statement without a `continue` of the loop around it does not finish with one. -/
theorem moderately_run (maxDepth steps : Nat) : Moderately (Task.run maxDepth steps) := by
  induction steps with
  | zero =>
    have hnone (t : Task Flow) : (Plan.task t).Moderate (Task.run maxDepth 0) := by
      rw [Plan.Moderate, Plan.follow, Task.run_zero]
      exact keeps_exhausted
    exact ⟨fun _ _ => hnone _, fun _ _ => hnone _, fun _ _ => hnone _, fun _ _ => hnone _,
      fun _ _ => hnone _, fun _ _ => hnone _, fun _ _ _ => hnone _, fun _ _ _ _ _ => hnone _⟩
  | succ steps ih =>
    have hrun : (fun {α : Type} (t : Task α) => (t.plan maxDepth).follow (Task.run maxDepth steps))
        = @Task.run maxDepth (steps + 1) := by
      funext α t
      exact (t.run_succ maxDepth steps).symm
    exact hrun ▸ ih.step maxDepth

/-! ## The rounds of the loops -/

/-- What a loop does behind a round whose body finished so. -/
def Flow.afterRound : Flow → Option Flow
  | .breakLoop => some .next
  | .ret v => some (.ret v)
  | .next | .continueLoop => none

/-- A round of a loop with a condition. -/
def planWhileRound (cond : Expr) (body : Stmt) : Plan (Option Flow) := do
  if (← Task.eval cond).truthy then return (← Task.execScoped body).afterRound
  else return some .next

/-- What a counting loop does before it goes on. -/
def planUpdate : Option Expr → Plan (Option Flow)
  | some e => do
    let _ ← Task.eval e
    return none
  | none => return none

/-- The condition of a counting loop; a missing one holds. -/
def planCondition : Option Expr → Plan Value
  | some e => Task.eval e
  | none => return .bool true

/-- A round of a counting loop, with the update behind it. -/
def planForRound (cond update : Option Expr) (body : Stmt) : Plan (Option Flow) := do
  if (← planCondition cond).truthy then
    match (← Task.execScoped body).afterRound with
    | some flow => return some flow
    | none => planUpdate update
  else return some .next

section

variable {α : Type} {run : Runner} {k : Option Flow → Plan Flow}

theorem follow_bind_next {p : Plan α} {f : α → Plan Flow} {g : α → Plan (Option Flow)}
    (h : ∀ a, (f a).follow run = (g a >>= k).follow run) :
    (p >>= f).follow run = (p >>= g >>= k).follow run := by
  have hf : (p >>= f).follow run = (p >>= fun a => g a >>= k).follow run :=
    congrArg (p.follow run >>= ·) (funext h)
  rw [hf]
  exact Plan.follow_assoc p g k

theorem follow_ite_next {c : Prop} [Decidable c] {p q : Plan Flow} {p' q' : Plan (Option Flow)}
    (hp : p.follow run = (p' >>= k).follow run) (hq : q.follow run = (q' >>= k).follow run) :
    (if c then p else q).follow run = ((if c then p' else q') >>= k).follow run := by
  split
  · exact hp
  · exact hq

end

theorem execWhile_loops (maxDepth : Nat) (cond : Expr) (body : Stmt) :
    (Task.execWhile cond body).Loops maxDepth (planWhileRound cond body) := fun run =>
  follow_bind_next fun v => follow_ite_next
    (follow_bind_next fun flow => by cases flow <;> rfl) rfl

theorem execFor_loops (maxDepth : Nat) (cond update : Option Expr) (body : Stmt) :
    (Task.execFor cond update body).Loops maxDepth (planForRound cond update body) := by
  intro run
  have hround (v : Value) : (do
      if v.truthy then
        planRound (← Task.execScoped body) do
          match update with
          | some e => do let _ ← Task.eval e
          | none => pure ()
          Task.execFor cond update body
      else return .next : Plan Flow).follow run = ((do
      if v.truthy then
        match (← Task.execScoped body).afterRound with
        | some flow => return some flow
        | none => planUpdate update
      else return some .next) >>= planNext (.execFor cond update body)).follow run := by
    refine follow_ite_next (follow_bind_next fun flow => ?_) rfl
    cases update with
    | none => cases flow <;> rfl
    | some e =>
      cases flow with
      | next | continueLoop => exact follow_bind_next fun _ => rfl
      | breakLoop | ret v => rfl
  cases cond <;> exact follow_bind_next hround

/-! ## Statements one after the other -/

section

variable {maxDepth : Nat} {m : Machine}

theorem same_execAll_cons (s : Stmt) (rest : List Stmt) :
    (Plan.task (.execAll (s :: rest))).Same maxDepth (do
      match ← Task.exec s with
      | .next => Task.execAll rest
      | flow => return flow) m := .task _

theorem same_execAll_singleton (s : Stmt) :
    (Plan.task (.execAll [s])).Same maxDepth (.task (.exec s)) m := by
  refine (same_execAll_cons s []).trans (.trans ?_ (.bind_pure _))
  refine .andThen fun flow n => ?_
  cases flow with
  | next => exact .task _
  | continueLoop | breakLoop | ret v => exact .refl _

/-- A statement that never jumps, in front of others. -/
theorem same_execAll_after {α : Type} {p : Plan α} {s : Stmt} (rest : List Stmt)
    (hs : (Plan.task (.exec s)).Same maxDepth (p >>= fun _ => pure .next) m) :
    (Plan.task (.execAll (s :: rest))).Same maxDepth (p >>= fun _ => .task (.execAll rest)) m := by
  refine (same_execAll_cons s rest).trans ((Plan.Same.bind hs fun _ _ _ => .refl _).trans ?_)
  exact (Plan.Same.bind_assoc _ _ _).trans (.andThen fun _ _ => .pure_bind _ _)

/-- A block without functions. -/
theorem same_execBlock {body : List Stmt} (h : declaredFunctions body = []) :
    (Plan.task (.execBlock body)).Same maxDepth (.within .block (.task (.execAll body))) m := by
  refine (Plan.Same.task _).trans (.within (.of_run fun steps => ?_))
  have hhoist (m : Machine) : m.hoist body = m := by
    rw [Machine.hoist, h]
    rfl
  exact bind_of_done (congrArg (Outcome.done ()) (hhoist _))

/-- A block in which nothing is bound. -/
theorem same_execBlock_plain {body : List Stmt} (h : declaredFunctions body = [])
    (hdeclares : body.any Stmt.declares = false) :
    (Plan.task (.execBlock body)).Same maxDepth (.task (.execAll body)) m :=
  (same_execBlock h).trans
    (.of_run fun steps => within_block_run maxDepth steps (.execAll body) hdeclares m)

/-! ## The rounds side by side -/

variable {body : List Stmt} (hbody : Stmt.continuesList body = false) (update : Option Expr)

/-- What stands behind the body of a counting loop when it is written with a condition only. -/
def updateStmts (update : Option Expr) : List Stmt := (update.map Stmt.expr).toList

theorem same_update : (do
    return (← Task.execAll (updateStmts update)).afterRound : Plan (Option Flow)).Same maxDepth
      (planUpdate update) m := by
  cases update with
  | none => exact (Plan.Same.bind (.task _) fun _ _ _ => .refl _).trans (.pure_bind _ _)
  | some e =>
    have hexec : (Plan.task (.execAll (updateStmts (some e)))).Same maxDepth (do
        let _ ← Task.eval e
        return .next) m := (same_execAll_singleton _).trans (.task _)
    refine (Plan.Same.bind hexec fun _ _ _ => .refl _).trans ((Plan.Same.bind_assoc _ _ _).trans ?_)
    exact .andThen fun _ _ => .pure_bind _ _

include hbody

/-- Behind the body and the update a round ends as it does behind the body, which comes to the
    update unless it jumps out of the loop. -/
theorem same_body : (do
    return (← Task.execBlock (.block body :: updateStmts update)).afterRound
      : Plan (Option Flow)).Same maxDepth (do
    match (← Task.execBlock body).afterRound with
    | some flow => return some flow
    | none => planUpdate update) m := by
  have hblock : (Plan.task (.execBlock (.block body :: updateStmts update))).Same maxDepth (do
      match ← Task.exec (.block body) with
      | .next => Task.execAll (updateStmts update)
      | flow => return flow) m :=
    (same_execBlock_plain (by cases update <;> rfl) (by cases update <;> rfl)).trans
      (same_execAll_cons _ _)
  refine (Plan.Same.bind hblock fun _ _ _ => .refl _).trans ((Plan.Same.bind_assoc _ _ _).trans ?_)
  refine .bind (.task _) fun flow n hends => ?_
  cases flow with
  | next => exact same_update update
  | breakLoop | ret v => exact .pure_bind _ _
  | continueLoop =>
    -- the body has no `continue` of this loop
    obtain ⟨-, steps, hrun⟩ := hends
    exact absurd rfl (((moderately_run maxDepth steps).exec (.block body) hbody).of_done hrun)

theorem same_round (pos : Position) (cond : Option Expr) :
    (planForRound cond update (.block body)).Same maxDepth
      (planWhileRound (cond.getD (.bool pos true)) (.block (.block body :: updateStmts update)))
      m := by
  have hcond (m : Machine) : (planCondition cond).Same maxDepth
      (.task (.eval (cond.getD (.bool pos true)))) m := by
    cases cond with
    | none => exact (Plan.Same.task (.eval (.bool pos true))).symm
    | some e => exact .refl _
  refine .bind (hcond m) fun v n _ => ?_
  refine .ite (fun _ => ?_) fun _ => .refl _
  have hfor : (do
      match (← Task.execScoped (.block body)).afterRound with
      | some flow => return some flow
      | none => planUpdate update : Plan (Option Flow)).Same maxDepth (do
      match (← Task.execBlock body).afterRound with
      | some flow => return some flow
      | none => planUpdate update) n := .bind (.task _) fun _ _ _ => .refl _
  have hwhile : (do
      return (← Task.execScoped (.block (.block body :: updateStmts update))).afterRound
        : Plan (Option Flow)).Same maxDepth (do
      return (← Task.execBlock (.block body :: updateStmts update)).afterRound) n :=
    .bind (.task _) fun _ _ _ => .refl _
  exact hfor.trans ((same_body hbody update).symm.trans hwhile.symm)

end

/-! ## The whole loops -/

/-- The loop with a condition that does what a counting loop does behind its start.  A missing
    condition is `true`, at `pos`. -/
def whileOf (pos : Position) (cond update : Option Expr) (body : List Stmt) : Stmt :=
  .whileLoop (cond.getD (.bool pos true)) (.block (.block body :: updateStmts update))

/-- A counting loop written with a condition only: its start in front, and behind its body the
    update. -/
def whileForm (pos : Position) (start : Option LoopStart) (cond update : Option Expr)
    (body : List Stmt) : Stmt :=
  .block ((start.map LoopStart.toStmt).toList ++ [whileOf pos cond update body])

theorem same_forLoop {body : List Stmt} (hbody : Stmt.continuesList body = false) (maxDepth : Nat)
    (pos : Position) (start : Option LoopStart) (cond update : Option Expr) (m : Machine) :
    (Plan.task (.exec (.forLoop start cond update (.block body)))).Same maxDepth
      (.task (.exec (whileForm pos start cond update body))) m := by
  have hblock : (Plan.task (.exec (whileForm pos start cond update body))).Same maxDepth
      (.within .block (.task (.execAll
        ((start.map LoopStart.toStmt).toList ++ [whileOf pos cond update body])))) m :=
    (Plan.Same.task _).trans (same_execBlock (by rcases start with - | ⟨kind, items⟩ | e <;> rfl))
  have hloops (m : Machine) : (Plan.task (.execAll [whileOf pos cond update body])).Same maxDepth
      (.task (.execFor cond update (.block body))) m := by
    have hloop : (Plan.task (.exec (whileOf pos cond update body))).Same maxDepth
        (.task (.execWhile _ _)) m := .task _
    have hrounds := (execFor_loops maxDepth cond update (.block body)).same
      (execWhile_loops maxDepth _ _) (fun m => same_round hbody update pos cond) (m := m)
    exact (same_execAll_singleton _).trans (hloop.trans hrounds.symm)
  refine .trans (.task _) (.trans (.within (.symm ?_)) hblock.symm)
  rcases start with - | ⟨kind, items⟩ | e
  · exact hloops _
  · exact (same_execAll_after _ (.task _)).trans (.andThen fun _ n => hloops n)
  · exact (same_execAll_after _ (.task _)).trans (.andThen fun _ n => hloops n)

/-- **A counting loop is the same as its form with a condition.**  If no `continue` in the body is
    one of the loop, then in every state both diverge, or both end in the same way and leave the
    same state behind: they finish with the same flow or meet the same fault at the same place, with
    the same environment and the same scopes. -/
theorem exec_forLoop_iff_while {body : List Stmt} (hbody : Stmt.continuesList body = false)
    (maxDepth : Nat) (pos : Position) (start : Option LoopStart) (cond update : Option Expr)
    (m : Machine) :
    (∀ out, Ends (exec maxDepth · (.forLoop start cond update (.block body))) m out ↔
      Ends (exec maxDepth · (whileForm pos start cond update body)) m out) ∧
    (Diverges (exec maxDepth · (.forLoop start cond update (.block body))) m ↔
      Diverges (exec maxDepth · (whileForm pos start cond update body)) m) :=
  have hsame := same_forLoop hbody maxDepth pos start cond update m
  ⟨hsame, hsame.diverges_iff⟩

/-- A loop that declares a variable, makes one round, in which it keeps the variable's value in
    another one, and changes the variable. -/
theorem exec_forLoop_iff_while_once :
    let body : List Stmt :=
      [.expr (.assign ⟨0, 38⟩ none (.name ⟨0, 38⟩ "seen") (.name ⟨0, 45⟩ "go"))]
    let start := LoopStart.declare .letDecl [⟨"go", ⟨0, 9⟩, some (.bool ⟨0, 14⟩ true)⟩]
    let cond : Expr := .name ⟨0, 20⟩ "go"
    let update : Expr := .assign ⟨0, 24⟩ none (.name ⟨0, 24⟩ "go") (.bool ⟨0, 29⟩ false)
    let form := whileForm ⟨0, 0⟩ (some start) (some cond) (some update) body
    Stmt.continuesList body = false ∧
    (∀ out, Ends (exec 64 · (.forLoop (some start) (some cond) (some update) (.block body)))
        (.start 1 []) out ↔ Ends (exec 64 · form) (.start 1 []) out) ∧
    (Diverges (exec 64 · (.forLoop (some start) (some cond) (some update) (.block body)))
        (.start 1 []) ↔ Diverges (exec 64 · form) (.start 1 [])) ∧
    Ends (exec 64 · form) (.start 1 []) (.done .next (.start 1 [("seen", .bool true)])) := by
  intro body start cond update form
  have hbody : Stmt.continuesList body = false := rfl
  obtain ⟨hends, hdiverges⟩ := exec_forLoop_iff_while hbody 64 ⟨0, 0⟩ (some start) (some cond)
    (some update) (.start 1 [])
  exact ⟨hbody, hends, hdiverges, nofun, 20, rfl⟩

end Stencil.Script
