/-
  More steps.

  What a task does hangs on its plan and on the tasks in it.  So one that ends within some steps
  does just the same with more of them (`Task.run_of_le`), and statements that come after others can
  be given the steps that both need (`execAll_append`).  What something does with enough steps is
  therefore one thing: it ends in one way (`Ends`), or it never does (`Diverges`).
-/
import Stencil.Proofs.Script.Run.Tasks

namespace Stencil.Script

open Effect

variable {α β : Type} {maxDepth : Nat} {m m' : Machine}

/-! ## The same with more steps -/

/-- A plan does the same if all tasks do that end. -/
theorem Plan.follow_of_ends {run run' : Runner}
    (hrun : ∀ {β : Type} (t : Task β) {m : Machine}, run t m ≠ .exhausted → run' t m = run t m)
    (p : Plan α) (h : p.follow run m ≠ .exhausted) : p.follow run' m = p.follow run m := by
  induction p generalizing m with
  | effect x => rfl
  | task t => exact hrun t h
  | bind p f ihp ihf =>
    simp only [Plan.follow, bind_apply] at h ⊢
    have hp : p.follow run m ≠ .exhausted := fun hx => h (by rw [hx])
    rw [ihp hp]
    cases hx : p.follow run m with
    | done a n =>
      rw [hx] at h
      exact ihf a h
    | failed e n => rfl
    | exhausted => rfl
  | within scope p ih =>
    simp only [Plan.follow, within_apply] at h ⊢
    rw [ih fun hx => h (Outcome.mapState_eq_exhausted.mpr hx)]
  | inCall number scopes p ih =>
    simp only [Plan.follow, inCall_apply] at h ⊢
    rw [ih fun hx => h (Outcome.mapState_eq_exhausted.mpr hx)]

/-- With no step left, no task ends. -/
theorem Task.run_zero (t : Task α) : t.run maxDepth 0 = exhausted := by
  cases t <;> rfl

theorem Task.run_step {steps : Nat} (t : Task α) (h : t.run maxDepth steps m ≠ .exhausted) :
    t.run maxDepth (steps + 1) m = t.run maxDepth steps m := by
  induction steps generalizing α m with
  | zero => exact absurd (congrFun t.run_zero m) h
  | succ steps ih =>
    rw [Task.run_succ] at h
    rw [Task.run_succ, Task.run_succ]
    exact Plan.follow_of_ends (fun t _ => ih t) _ h

/-- **A task that ends does the same with more steps.** -/
theorem Task.run_of_le {steps steps' : Nat} (hle : steps ≤ steps') (t : Task α)
    (h : t.run maxDepth steps m ≠ .exhausted) :
    t.run maxDepth steps' m = t.run maxDepth steps m := by
  induction hle with
  | refl => rfl
  | step _ ih => exact (t.run_step fun hx => h (ih ▸ hx)).trans ih

theorem Task.run_more {steps steps' : Nat} (hle : steps ≤ steps') (t : Task α) {a : α}
    (h : t.run maxDepth steps m = .done a m') : t.run maxDepth steps' m = .done a m' :=
  (t.run_of_le hle fun hx => by rw [h] at hx; cases hx).trans h

/-- Statements that finish normally, and others behind them. -/
theorem execAll_append {steps steps' : Nat} {body rest : List Stmt} {m'' : Machine} {flow : Flow}
    (hbody : execAll maxDepth steps body m = .done .next m')
    (hrest : execAll maxDepth steps' rest m' = .done flow m'') :
    execAll maxDepth (steps + steps') (body ++ rest) m = .done flow m'' := by
  induction body generalizing steps m with
  | nil =>
    cases steps with
    | zero => cases hbody
    | succ steps =>
      cases hbody
      exact Task.run_more (Nat.le_add_left _ _) (.execAll rest) hrest
  | cons s body ih =>
    cases steps with
    | zero => cases hbody
    | succ steps =>
      rw [execAll] at hbody
      obtain ⟨flow', n, hs, hthen⟩ := bind_done_iff.mp hbody
      cases flow' with
      | next =>
        have hmore : exec maxDepth (steps + steps') s m = .done .next n :=
          Task.run_more (Nat.le_add_right _ _) (.exec s) hs
        rw [Nat.succ_add, List.cons_append, execAll, bind_of_done hmore]
        exact ih hthen
      | ret v => cases hthen
      | breakLoop => cases hthen
      | continueLoop => cases hthen

/-! ## Enough steps -/

/-- With enough steps, `x` ends so when it is started in `m`. -/
def Ends (x : Nat → Effect α) (m : Machine) (out : Outcome α) : Prop :=
  out ≠ .exhausted ∧ ∃ steps, x steps m = out

/-- No number of steps is enough for `x` when it is started in `m`. -/
def Diverges (x : Nat → Effect α) (m : Machine) : Prop := ∀ steps, x steps m = .exhausted

/-- What does not end diverges. -/
theorem diverges_iff {x : Nat → Effect α} : Diverges x m ↔ ∀ out, ¬ Ends x m out := by
  constructor
  · rintro h out ⟨hout, steps, rfl⟩
    exact hout (h steps)
  · exact fun h steps => Classical.byContradiction fun hout => h _ ⟨hout, steps, rfl⟩

namespace Plan

/-- What a plan does with so many steps for its tasks. -/
def run (maxDepth : Nat) (p : Plan α) (steps : Nat) : Effect α := p.follow (Task.run maxDepth steps)

theorem run_of_le {steps steps' : Nat} (hle : steps ≤ steps') (p : Plan α)
    (h : p.run maxDepth steps m ≠ .exhausted) :
    p.run maxDepth steps' m = p.run maxDepth steps m :=
  p.follow_of_ends (fun t _ => t.run_of_le hle) h

variable {p : Plan α} {out out' : Outcome α}

/-- **A plan ends in one way.** -/
theorem ends_unique (h : Ends (p.run maxDepth) m out) (h' : Ends (p.run maxDepth) m out') :
    out = out' := by
  obtain ⟨hout, steps, rfl⟩ := h
  obtain ⟨hout', steps', rfl⟩ := h'
  rcases Nat.le_total steps steps' with hle | hle
  · exact (p.run_of_le hle hout).symm
  · exact p.run_of_le hle hout'

theorem ends_pure {a : α} :
    Ends ((pure a : Plan α).run maxDepth) m out ↔ out = .done a m := by
  constructor
  · rintro ⟨-, steps, rfl⟩
    rfl
  · rintro rfl
    exact ⟨nofun, 0, rfl⟩

theorem ends_effect {x : Effect α} :
    Ends ((effect x).run maxDepth) m out ↔ out ≠ .exhausted ∧ x m = out :=
  ⟨fun ⟨hout, _, h⟩ => ⟨hout, h⟩, fun ⟨hout, h⟩ => ⟨hout, 0, h⟩⟩

/-- A task ends as its plan does. -/
theorem ends_task {t : Task α} :
    Ends ((task t).run maxDepth) m out ↔ Ends ((t.plan maxDepth).run maxDepth) m out := by
  constructor
  · rintro ⟨hout, steps, h⟩
    cases steps with
    | zero => exact absurd ((congrFun t.run_zero m).symm.trans h).symm hout
    | succ steps => exact ⟨hout, steps, (congrFun (t.run_succ maxDepth steps) m).symm.trans h⟩
  · rintro ⟨hout, steps, h⟩
    exact ⟨hout, steps + 1, (congrFun (t.run_succ maxDepth steps) m).trans h⟩

/-- A plan that goes on with another one fails in one of them, or ends as the second one does. -/
theorem ends_bind {f : α → Plan β} {out : Outcome β} :
    Ends ((p >>= f).run maxDepth) m out ↔
      (∃ a n, Ends (p.run maxDepth) m (.done a n) ∧ Ends ((f a).run maxDepth) n out) ∨
      ∃ e n, Ends (p.run maxDepth) m (.failed e n) ∧ out = .failed e n := by
  constructor
  · rintro ⟨hout, steps, h⟩
    have hbind : (p.run maxDepth steps >>= fun a => (f a).run maxDepth steps) m = out := h
    rw [bind_apply] at hbind
    cases hp : p.run maxDepth steps m with
    | done a n =>
      rw [hp] at hbind
      exact Or.inl ⟨a, n, ⟨nofun, steps, hp⟩, hout, steps, hbind⟩
    | failed e n =>
      rw [hp] at hbind
      exact Or.inr ⟨e, n, ⟨nofun, steps, hp⟩, hbind.symm⟩
    | exhausted =>
      rw [hp] at hbind
      exact absurd hbind.symm hout
  · rintro (⟨a, n, ⟨hdone, steps, hp⟩, hout, steps', hf⟩ | ⟨e, n, ⟨hfailed, steps, hp⟩, rfl⟩)
    · refine ⟨hout, max steps steps', ?_⟩
      have hp' : p.run maxDepth (max steps steps') m = .done a n := by
        rw [p.run_of_le (Nat.le_max_left _ _) (by rw [hp]; exact hdone), hp]
      have hf' : (f a).run maxDepth (max steps steps') n = out := by
        rw [(f a).run_of_le (Nat.le_max_right _ _) (by rw [hf]; exact hout), hf]
      exact (bind_of_done hp').trans hf'
    · exact ⟨nofun, steps, bind_of_failed hp⟩

theorem ends_bind_done {f : α → Plan β} {b : β} :
    Ends ((p >>= f).run maxDepth) m (.done b m') ↔
      ∃ a n, Ends (p.run maxDepth) m (.done a n) ∧ Ends ((f a).run maxDepth) n (.done b m') := by
  rw [ends_bind]
  exact or_iff_left fun ⟨_, _, _, h⟩ => by cases h

theorem ends_bind_failed {f : α → Plan β} {e : ScriptError} :
    Ends ((p >>= f).run maxDepth) m (.failed e m') ↔
      Ends (p.run maxDepth) m (.failed e m') ∨
      ∃ a n, Ends (p.run maxDepth) m (.done a n) ∧ Ends ((f a).run maxDepth) n (.failed e m') := by
  rw [ends_bind, or_comm]
  refine or_congr_left ⟨fun ⟨e', n, h, heq⟩ => ?_, fun h => ⟨e, m', h, rfl⟩⟩
  cases heq
  exact h

/-- A plan whose beginning is done ends as the rest does. -/
theorem ends_bind_of_done {f : α → Plan β} {a : α} {n : Machine} {out : Outcome β}
    (h : Ends (p.run maxDepth) m (.done a n)) :
    Ends ((p >>= f).run maxDepth) m out ↔ Ends ((f a).run maxDepth) n out := by
  rw [ends_bind]
  constructor
  · rintro (⟨a', n', h', hout⟩ | ⟨e, n', h', -⟩)
    · cases ends_unique h h'
      exact hout
    · cases ends_unique h h'
  · exact fun hout => Or.inl ⟨a, n, h, hout⟩

/-- If what comes after a plan always gives a result, both together fail or diverge as the plan
    does. -/
theorem fails_bind_iff {f : α → Plan β} (hf : ∀ a n, Ends (p.run maxDepth) m (.done a n) →
      ∃ b n', Ends ((f a).run maxDepth) n (.done b n')) :
    (∀ e n, Ends ((p >>= f).run maxDepth) m (.failed e n) ↔ Ends (p.run maxDepth) m (.failed e n)) ∧
    (Diverges ((p >>= f).run maxDepth) m ↔ Diverges (p.run maxDepth) m) := by
  constructor
  · intro e n
    rw [ends_bind_failed]
    refine or_iff_left ?_
    rintro ⟨a, n', ha, hfails⟩
    obtain ⟨b, n'', hb⟩ := hf a n' ha
    cases ends_unique hfails hb
  · constructor
    · intro h
      rw [diverges_iff] at h ⊢
      intro out hout
      cases out with
      | done a n =>
        obtain ⟨b, n', hb⟩ := hf a n hout
        exact h _ (ends_bind_done.mpr ⟨a, n, hout, hb⟩)
      | failed e n => exact h _ (ends_bind_failed.mpr (Or.inl hout))
      | exhausted => exact hout.1 rfl
    · intro h steps
      have hbind : (p >>= f).run maxDepth steps m
          = (p.run maxDepth steps >>= fun a => (f a).run maxDepth steps) m := rfl
      rw [hbind, bind_apply, h steps]

theorem ends_map_done {f : α → β} {b : β} :
    Ends ((p >>= fun a => pure (f a)).run maxDepth) m (.done b m') ↔
      ∃ a, Ends (p.run maxDepth) m (.done a m') ∧ b = f a := by
  rw [ends_bind_done]
  constructor
  · rintro ⟨a, n, ha, hb⟩
    cases ends_pure.mp hb
    exact ⟨a, ha, rfl⟩
  · rintro ⟨a, ha, rfl⟩
    exact ⟨a, m', ha, ends_pure.mpr rfl⟩

theorem fails_map_iff {f : α → β} :
    (∀ e n, Ends ((p >>= fun a => pure (f a)).run maxDepth) m (.failed e n) ↔
      Ends (p.run maxDepth) m (.failed e n)) ∧
    (Diverges ((p >>= fun a => pure (f a)).run maxDepth) m ↔ Diverges (p.run maxDepth) m) :=
  fails_bind_iff fun a n _ => ⟨f a, n, ends_pure.mpr rfl⟩

theorem ends_within {scope : Scope} :
    Ends ((within scope p).run maxDepth) m out ↔
      ∃ out', Ends (p.run maxDepth) (m.enter scope) out' ∧ out'.mapState Machine.leave = out := by
  constructor
  · rintro ⟨hout, steps, h⟩
    have hrun := within_apply.symm.trans h
    exact ⟨_, ⟨fun hx => hout (hrun ▸ Outcome.mapState_eq_exhausted.mpr hx), steps, rfl⟩, hrun⟩
  · rintro ⟨out', ⟨hout', steps, rfl⟩, rfl⟩
    exact ⟨fun hx => hout' (Outcome.mapState_eq_exhausted.mp hx), steps, within_apply⟩

end Plan

end Stencil.Script
