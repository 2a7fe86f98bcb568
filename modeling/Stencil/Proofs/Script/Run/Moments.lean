/-
  What a run does, and when.

  A run does its effects one after the other, each in the state that those before it left behind
  (`Task.Does`).  If the run fails, one of its effects does, and the environment of that moment is
  the one left behind; and if an effect fails, the run does (`Task.run_failed_iff`).  So what a
  fault says about the state can be asked of the moment at which it arises, before the scopes in
  force there are taken away again.
-/
import Stencil.Proofs.Script.Run.Tasks
import Stencil.Script.Run

namespace Stencil.Script

open Effect

/-! ## Moments -/

namespace Plan

/-- The plan, followed from a state, comes to an effect of its own in a state. -/
inductive Does (run : Runner) :
    {α β : Type} → Plan α → Machine → Effect β → Machine → Prop where
  | effect {β : Type} (x : Effect β) (m : Machine) : Does run (effect x) m x m
  | first {α β γ : Type} {p : Plan α} {f : α → Plan β} {m m' : Machine} {x : Effect γ} :
      Does run p m x m' → Does run (bind p f) m x m'
  | next {α β γ : Type} {p : Plan α} {f : α → Plan β} {m m' m'' : Machine} {a : α}
      {x : Effect γ} : p.follow run m = .done a m' → Does run (f a) m' x m'' →
      Does run (bind p f) m x m''
  | within {α β : Type} {scope : Scope} {p : Plan α} {m m' : Machine} {x : Effect β} :
      Does run p (m.enter scope) x m' → Does run (within scope p) m x m'
  | inCall {α β : Type} {number : Nat} {scopes : List Scope} {p : Plan α} {m m' : Machine}
      {x : Effect β} : Does run p (m.beginCall number scopes) x m' →
      Does run (inCall number scopes p) m x m'

/-- What all effects of a plan have, those that it comes to have. -/
theorem All.does {Q : {α : Type} → Effect α → Prop} {C : Prop} {α β : Type} {p : Plan α}
    {run : Runner} {m m' : Machine} {x : Effect β} (hp : p.All Q C) (h : p.Does run m x m') :
    Q x := by
  induction h with
  | effect x m => exact hp
  | first _ ih => exact ih hp.1
  | next _ _ ih => exact ih (hp.2 _)
  | within _ ih => exact ih hp
  | inCall _ ih => exact ih hp.2

end Plan

/-- With so many steps, the task comes to an effect in the course of its run. -/
inductive Task.Does (maxDepth : Nat) :
    {α β : Type} → Nat → Task α → Machine → Effect β → Machine → Prop where
  | here {α β : Type} {steps : Nat} {t : Task α} {m m' : Machine} {x : Effect β} :
      (t.plan maxDepth).Does (Task.run maxDepth steps) m x m' →
      Does maxDepth (steps + 1) t m x m'
  | further {α β γ : Type} {steps active : Nat} {t : Task α} {t' : Task β} {m m' m'' : Machine}
      {x : Effect γ} : (t.plan maxDepth).Starts (Task.run maxDepth steps) m active t' m' →
      Does maxDepth steps t' m' x m'' → Does maxDepth (steps + 1) t m x m''

/-! ## The moment of a fault -/

section

variable {α β : Type} {m m' n : Machine} {e : ScriptError}

namespace Plan

variable {run : Runner} {p : Plan α}

/-- A plan fails because an effect or a task of it does. -/
theorem failed_cases (h : p.follow run m = .failed e m') :
    (∃ (β : Type) (x : Effect β) (n n' : Machine),
      p.Does run m x n ∧ x n = .failed e n' ∧ n'.env = m'.env) ∨
    ∃ (β : Type) (active : Nat) (t : Task β) (n n' : Machine),
      p.Starts run m active t n ∧ run t n = .failed e n' ∧ n'.env = m'.env := by
  induction p generalizing m m' with
  | effect x => exact Or.inl ⟨_, x, m, m', .effect x m, h, rfl⟩
  | task t => exact Or.inr ⟨_, 0, t, m, m', .task t m, h, rfl⟩
  | bind p f ihp ihf =>
    rcases bind_failed_cases h with hp | ⟨a, k, hp, hf⟩
    · rcases ihp hp with ⟨β, x, n, n', hdoes, hx⟩ | ⟨β, active, t, n, n', hstarts, ht⟩
      · exact Or.inl ⟨β, x, n, n', .first hdoes, hx⟩
      · exact Or.inr ⟨β, active, t, n, n', .first hstarts, ht⟩
    · rcases ihf a hf with ⟨β, x, n, n', hdoes, hx⟩ | ⟨β, active, t, n, n', hstarts, ht⟩
      · exact Or.inl ⟨β, x, n, n', .next hp hdoes, hx⟩
      · exact Or.inr ⟨β, active, t, n, n', .next hp hstarts, ht⟩
  | within scope p ih =>
    obtain ⟨k, hp, rfl⟩ := within_failed_iff.mp h
    rcases ih hp with ⟨β, x, n, n', hdoes, hx⟩ | ⟨β, active, t, n, n', hstarts, ht⟩
    · exact Or.inl ⟨β, x, n, n', .within hdoes, hx⟩
    · exact Or.inr ⟨β, active, t, n, n', .within hstarts, ht⟩
  | inCall number scopes p ih =>
    obtain ⟨k, hp, rfl⟩ := inCall_failed_iff.mp h
    rcases ih hp with ⟨β, x, n, n', hdoes, hx⟩ | ⟨β, active, t, n, n', hstarts, ht⟩
    · exact Or.inl ⟨β, x, n, n', .inCall hdoes, hx⟩
    · exact Or.inr ⟨β, active + 1, t, n, n', .inCall hstarts, ht⟩

theorem Does.failed {x : Effect β} (h : p.Does run m x n) (hx : x n = .failed e m') :
    ∃ k, p.follow run m = .failed e k ∧ k.env = m'.env := by
  induction h with
  | effect x m => exact ⟨m', hx, rfl⟩
  | first _ ih =>
    obtain ⟨k, hp, henv⟩ := ih hx
    exact ⟨k, bind_of_failed hp, henv⟩
  | next hdone _ ih =>
    obtain ⟨k, hf, henv⟩ := ih hx
    exact ⟨k, (bind_of_done hdone).trans hf, henv⟩
  | within _ ih =>
    obtain ⟨k, hp, henv⟩ := ih hx
    exact ⟨k.leave, within_failed_iff.mpr ⟨k, hp, rfl⟩, henv⟩
  | @inCall _ _ _ _ _ m _ _ _ ih =>
    obtain ⟨k, hp, henv⟩ := ih hx
    exact ⟨k.endCall m, inCall_failed_iff.mpr ⟨k, hp, rfl⟩, henv⟩

/-- What fails in the course of a plan makes the whole plan fail. -/
theorem Starts.failed {active : Nat} {t : Task β} (h : p.Starts run m active t n)
    (ht : run t n = .failed e m') : ∃ k, p.follow run m = .failed e k ∧ k.env = m'.env := by
  induction h with
  | task t m => exact ⟨m', ht, rfl⟩
  | first _ ih =>
    obtain ⟨k, hp, henv⟩ := ih ht
    exact ⟨k, bind_of_failed hp, henv⟩
  | next hdone _ ih =>
    obtain ⟨k, hf, henv⟩ := ih ht
    exact ⟨k, (bind_of_done hdone).trans hf, henv⟩
  | within _ ih =>
    obtain ⟨k, hp, henv⟩ := ih ht
    exact ⟨k.leave, within_failed_iff.mpr ⟨k, hp, rfl⟩, henv⟩
  | @inCall _ _ _ _ _ m _ _ _ _ ih =>
    obtain ⟨k, hp, henv⟩ := ih ht
    exact ⟨k.endCall m, inCall_failed_iff.mpr ⟨k, hp, rfl⟩, henv⟩

end Plan

namespace Task

variable {maxDepth steps : Nat} {t : Task α}

theorem does_of_failed (h : t.run maxDepth steps m = .failed e m') :
    ∃ (β : Type) (x : Effect β) (n n' : Machine),
      t.Does maxDepth steps m x n ∧ x n = .failed e n' ∧ n'.env = m'.env := by
  induction steps generalizing α m m' with
  | zero => cases t <;> cases h
  | succ steps ih =>
    rw [Task.run_succ] at h
    rcases Plan.failed_cases h with ⟨β, x, n, n', hdoes, hx⟩ |
      ⟨β, active, t', k, k', hstarts, ht', henv⟩
    · exact ⟨β, x, n, n', .here hdoes, hx⟩
    · obtain ⟨γ, x, n, n', hdoes, hx, henv'⟩ := ih ht'
      exact ⟨γ, x, n, n', .further hstarts hdoes, hx, henv'.trans henv⟩

/-- What all effects of the evaluator have, those that a run comes to have. -/
theorem Does.of_all {Q : {α : Type} → Effect α → Prop} {C : Prop} {x : Effect β}
    (hall : ∀ {γ : Type} (t : Task γ), (t.plan maxDepth).All Q C)
    (h : t.Does maxDepth steps m x n) : Q x := by
  induction h with
  | @here _ _ _ t _ _ _ hdoes => exact (hall t).does hdoes
  | further _ _ ih => exact ih

theorem Does.failed {x : Effect β} (h : t.Does maxDepth steps m x n) (hx : x n = .failed e m') :
    ∃ k, t.run maxDepth steps m = .failed e k ∧ k.env = m'.env := by
  induction h with
  | here hdoes =>
    rw [Task.run_succ]
    exact hdoes.failed hx
  | further hstarts _ ih =>
    obtain ⟨k, hrun, henv⟩ := ih hx
    obtain ⟨k', hplan, henv'⟩ := hstarts.failed hrun
    exact ⟨k', by rw [Task.run_succ, hplan], henv'.trans henv⟩

/-- **A run fails just where one of its effects does**, and leaves the environment of that moment
    behind. -/
theorem run_failed_iff {env : Environment} :
    (∃ m', t.run maxDepth steps m = .failed e m' ∧ m'.env = env) ↔
      ∃ (β : Type) (x : Effect β) (n n' : Machine),
        t.Does maxDepth steps m x n ∧ x n = .failed e n' ∧ n'.env = env := by
  constructor
  · rintro ⟨m', h, rfl⟩
    exact does_of_failed h
  · rintro ⟨β, x, n, n', hdoes, hx, rfl⟩
    exact hdoes.failed hx

end Task

/-- A script fails just where its statements do, after its functions have been declared. -/
theorem runProgram_eq_failed {limits : Limits} {body : List Stmt} {env env' : Environment} :
    runProgram limits body env = .failed e env' ↔
      ∃ m, (Task.execAll body).run limits.maxDepth limits.steps
        ((Machine.start env.freshRun env).hoist body) = .failed e m ∧ m.env = env' := by
  have hrun : execProgram limits.maxDepth limits.steps body (.start env.freshRun env)
      = ((Task.execAll body).run limits.maxDepth limits.steps >>= fun _ => pure ())
        ((Machine.start env.freshRun env).hoist body) := rfl
  rw [runProgram, hrun, bind_apply]
  cases (Task.execAll body).run limits.maxDepth limits.steps
      ((Machine.start env.freshRun env).hoist body) with
  | done flow m => exact iff_of_false (fun h => by cases h) fun ⟨_, h, _⟩ => by cases h
  | failed e' m =>
    constructor
    · intro h
      cases h
      exact ⟨m, rfl, rfl⟩
    · rintro ⟨m', h, rfl⟩
      cases h
      rfl
  | exhausted => exact iff_of_false (fun h => by cases h) fun ⟨_, h, _⟩ => by cases h

end

end Stencil.Script
