/-
  Loops.

  A loop is known by its rounds (`Repeats`): each of them says that the loop goes on or how it
  finishes.  So two loops whose rounds are the same are the same.
-/
import Stencil.Proofs.Script.Run.Same

namespace Stencil.Script

open Effect

/-! ## Rounds -/

/-- What a loop does after a round: it finishes as the round says, or goes on. -/
def planNext (loop : Task Flow) : Option Flow → Plan Flow
  | some flow => return flow
  | none => loop

/-- The loop makes a round and goes on as the round says. -/
def Task.Loops (maxDepth : Nat) (loop : Task Flow) (round : Plan (Option Flow)) : Prop :=
  ∀ run : Runner, (loop.plan maxDepth).follow run = (round >>= planNext loop).follow run

section

variable {maxDepth : Nat} {round round' : Plan (Option Flow)} {loop loop' : Task Flow}
  {m m' : Machine}

/-- Rounds are made until one of them fails or says how the loop finishes. -/
inductive Repeats (maxDepth : Nat) (round : Plan (Option Flow)) :
    Machine → Outcome Flow → Prop where
  | stop {m m' : Machine} {flow : Flow} (h : Ends (round.run maxDepth) m (.done (some flow) m')) :
      Repeats maxDepth round m (.done flow m')
  | fail {m m' : Machine} {e : ScriptError} (h : Ends (round.run maxDepth) m (.failed e m')) :
      Repeats maxDepth round m (.failed e m')
  | again {m m' : Machine} {out : Outcome Flow} (h : Ends (round.run maxDepth) m (.done none m'))
      (hthen : Repeats maxDepth round m' out) : Repeats maxDepth round m out

theorem Repeats.congr (h : ∀ m, round.Same maxDepth round' m) {out : Outcome Flow}
    (hround : Repeats maxDepth round m out) : Repeats maxDepth round' m out := by
  induction hround with
  | stop hstop => exact .stop ((h _ _).mp hstop)
  | fail hfail => exact .fail ((h _ _).mp hfail)
  | again hagain _ ih => exact .again ((h _ _).mp hagain) ih

/-- A loop that ends does so after some rounds; by induction on the steps, of which each round takes
    one. -/
theorem Task.Loops.repeats (h : loop.Loops maxDepth round) {out : Outcome Flow}
    (hends : Ends ((Plan.task loop).run maxDepth) m out) : Repeats maxDepth round m out := by
  obtain ⟨hout, steps, hrun⟩ := hends
  have hloop : loop.run maxDepth steps m = out := hrun
  clear hrun
  induction steps generalizing m with
  | zero => exact absurd ((congrFun loop.run_zero m).symm.trans hloop).symm hout
  | succ steps ih =>
    rw [Task.run_succ, h] at hloop
    have hround : (round.run maxDepth steps >>= fun r =>
      (planNext loop r).run maxDepth steps) m = out := hloop
    rw [bind_apply] at hround
    cases hr : round.run maxDepth steps m with
    | done r n =>
      rw [hr] at hround
      cases r with
      | some flow =>
        obtain rfl : Outcome.done flow n = out := hround
        exact .stop ⟨nofun, steps, hr⟩
      | none => exact .again ⟨nofun, steps, hr⟩ (ih hround)
    | failed e n =>
      rw [hr] at hround
      obtain rfl : Outcome.failed e n = out := hround
      exact .fail ⟨nofun, steps, hr⟩
    | exhausted =>
      rw [hr] at hround
      exact absurd hround.symm hout

theorem Task.Loops.ends (h : loop.Loops maxDepth round) {out : Outcome Flow}
    (hround : Repeats maxDepth round m out) : Ends ((Plan.task loop).run maxDepth) m out := by
  have hsame (m : Machine) :
      (Plan.task loop).Same maxDepth (round >>= planNext loop) m :=
    (Plan.Same.task loop).trans (.of_run fun steps => congrFun (h _) m)
  induction hround with
  | stop hstop =>
    exact (hsame _ _).mpr ((Plan.ends_bind_of_done hstop).mpr (Plan.ends_pure.mpr rfl))
  | fail hfail => exact (hsame _ _).mpr (Plan.ends_bind_failed.mpr (Or.inl hfail))
  | again hagain _ ih => exact (hsame _ _).mpr ((Plan.ends_bind_of_done hagain).mpr ih)

/-- **Loops whose rounds are the same are the same.** -/
theorem Task.Loops.same (h : loop.Loops maxDepth round) (h' : loop'.Loops maxDepth round')
    (hrounds : ∀ m, round.Same maxDepth round' m) :
    (Plan.task loop).Same maxDepth (Plan.task loop') m := fun _ =>
  ⟨fun hends => h'.ends ((h.repeats hends).congr hrounds),
    fun hends => h.ends ((h'.repeats hends).congr fun m => (hrounds m).symm)⟩

end

end Stencil.Script
