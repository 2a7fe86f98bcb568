/-
  Plans that come to the same.

  Two plans are the same in a state if they end there in the same ways (`Plan.Same`), so if one of
  them diverges the other does too; how many steps they take is left out of it.  One may stand for
  the other wherever it is followed.  They agree if they are the same but for the places of faults
  (`Agree`), as what a script does and a longer way to write it.
-/
import Stencil.Proofs.Script.Run.Steps

namespace Stencil.Script

open Effect

/-! ## The same plans -/

theorem Plan.follow_assoc {run : Runner} {α β γ : Type} (p : Plan α) (f : α → Plan β)
    (g : β → Plan γ) :
    (p >>= fun a => f a >>= g).follow run = (p >>= f >>= g).follow run := by
  funext m
  have hbind : (p >>= f >>= g).follow run m
      = ((p.follow run >>= fun a => (f a).follow run) >>= fun b => (g b).follow run) m := rfl
  have hbind' : (p >>= fun a => f a >>= g).follow run m
      = (p.follow run >>= fun a => (f a).follow run >>= fun b => (g b).follow run) m := rfl
  rw [hbind, hbind', bind_apply, bind_apply, bind_apply]
  cases p.follow run m <;> rfl

/-- Started in `m`, both plans end in the same ways. -/
def Plan.Same (maxDepth : Nat) {α : Type} (p q : Plan α) (m : Machine) : Prop :=
  ∀ out, Ends (p.run maxDepth) m out ↔ Ends (q.run maxDepth) m out

section

variable {α β γ : Type} {maxDepth : Nat} {m : Machine} {p q r : Plan α} {f g : α → Plan β}

namespace Plan.Same

theorem refl (p : Plan α) : p.Same maxDepth p m := fun _ => Iff.rfl

theorem symm (h : p.Same maxDepth q m) : q.Same maxDepth p m := fun out => (h out).symm

theorem trans (h : p.Same maxDepth q m) (h' : q.Same maxDepth r m) : p.Same maxDepth r m :=
  fun out => (h out).trans (h' out)

/-- If one of the plans diverges, the other one does. -/
theorem diverges_iff (h : p.Same maxDepth q m) :
    Diverges (p.run maxDepth) m ↔ Diverges (q.run maxDepth) m := by
  rw [Script.diverges_iff, Script.diverges_iff]
  exact forall_congr' fun out => not_congr (h out)

theorem of_run (h : ∀ steps, p.run maxDepth steps m = q.run maxDepth steps m) :
    p.Same maxDepth q m := by
  intro out
  simp only [Ends, h]

/-- A task comes to the same as its plan. -/
theorem task (t : Task α) : (Plan.task t).Same maxDepth (t.plan maxDepth) m := fun _ =>
  Plan.ends_task

theorem bind (hp : p.Same maxDepth q m)
    (hf : ∀ a n, Ends (p.run maxDepth) m (.done a n) → (f a).Same maxDepth (g a) n) :
    (p >>= f).Same maxDepth (q >>= g) m := by
  intro out
  rw [Plan.ends_bind, Plan.ends_bind]
  refine or_congr ?_ (exists_congr fun e => exists_congr fun n => and_congr_left fun _ => hp _)
  refine exists_congr fun a => exists_congr fun n => ?_
  constructor
  · rintro ⟨ha, hout⟩
    exact ⟨(hp _).mp ha, (hf a n ha out).mp hout⟩
  · rintro ⟨ha, hout⟩
    have ha' := (hp _).mpr ha
    exact ⟨ha', (hf a n ha' out).mpr hout⟩

/-- The same plan, gone on with in the same ways. -/
theorem andThen (hf : ∀ a n, (f a).Same maxDepth (g a) n) :
    (p >>= f).Same maxDepth (p >>= g) m := bind (refl p) fun a n _ => hf a n

theorem pure_bind (a : α) (f : α → Plan β) : (pure a >>= f).Same maxDepth (f a) m :=
  of_run fun _ => rfl

theorem bind_pure (p : Plan α) : (p >>= pure).Same maxDepth p m := by
  refine of_run fun steps => ?_
  have hbind : (p >>= pure).run maxDepth steps m
      = (p.run maxDepth steps >>= fun a => Pure.pure a) m := rfl
  rw [hbind, bind_apply]
  cases p.run maxDepth steps m <;> rfl

theorem bind_assoc (p : Plan α) (f : α → Plan β) (g : β → Plan γ) :
    (p >>= f >>= g).Same maxDepth (p >>= fun a => f a >>= g) m :=
  of_run fun _ => congrFun (Plan.follow_assoc p f g).symm m

theorem within {scope : Scope} (h : p.Same maxDepth q (m.enter scope)) :
    (Plan.within scope p).Same maxDepth (Plan.within scope q) m := by
  intro out
  rw [Plan.ends_within, Plan.ends_within]
  exact exists_congr fun out' => and_congr_left fun _ => h out'

theorem ite {c : Prop} [Decidable c] {p' q' : Plan α} (h : c → p.Same maxDepth q m)
    (h' : ¬ c → p'.Same maxDepth q' m) :
    (if c then p else p').Same maxDepth (if c then q else q') m := by
  split
  · exact h ‹_›
  · exact h' ‹_›

end Plan.Same

end

/-! ## The same but for the places of faults -/

/-- Started in `m`, both finish with the same results, or meet the same faults, and leave the same
    states behind; or both diverge.  Where the faults are placed is left out of it. -/
structure Agree {α : Type} (x y : Nat → Effect α) (m : Machine) : Prop where
  done : ∀ a n, Ends x m (.done a n) ↔ Ends y m (.done a n)
  failed : ∀ fault n, (∃ pos, Ends x m (.failed ⟨fault, pos⟩ n)) ↔
    ∃ pos, Ends y m (.failed ⟨fault, pos⟩ n)
  diverges : Diverges x m ↔ Diverges y m

namespace Agree

variable {α β : Type} {maxDepth : Nat} {m : Machine} {x y z : Nat → Effect α}

theorem diverges_of_ends (hdone : ∀ a n, Ends y m (.done a n) → Ends x m (.done a n))
    (hfailed : ∀ fault n, (∃ pos, Ends y m (.failed ⟨fault, pos⟩ n)) →
      ∃ pos, Ends x m (.failed ⟨fault, pos⟩ n)) (h : Diverges x m) : Diverges y m := by
  rw [Script.diverges_iff] at h ⊢
  intro out hout
  cases out with
  | done a n => exact h _ (hdone a n hout)
  | failed e n =>
    obtain ⟨pos, hpos⟩ := hfailed e.fault n ⟨e.pos, hout⟩
    exact h _ hpos
  | exhausted => exact hout.1 rfl

/-- What ends in the same ways diverges in the same states. -/
theorem of_ends (hdone : ∀ a n, Ends x m (.done a n) ↔ Ends y m (.done a n))
    (hfailed : ∀ fault n, (∃ pos, Ends x m (.failed ⟨fault, pos⟩ n)) ↔
      ∃ pos, Ends y m (.failed ⟨fault, pos⟩ n)) : Agree x y m :=
  ⟨hdone, hfailed,
    diverges_of_ends (fun a n => (hdone a n).mpr) fun fault n => (hfailed fault n).mpr,
    diverges_of_ends (fun a n => (hdone a n).mp) fun fault n => (hfailed fault n).mp⟩

theorem of_same {p q : Plan α} (h : p.Same maxDepth q m) :
    Agree (p.run maxDepth) (q.run maxDepth) m :=
  ⟨fun _ _ => h _, fun _ _ => exists_congr fun _ => h _, h.diverges_iff⟩

theorem symm (h : Agree x y m) : Agree y x m :=
  ⟨fun a n => (h.done a n).symm, fun fault n => (h.failed fault n).symm, h.diverges.symm⟩

theorem trans (h : Agree x y m) (h' : Agree y z m) : Agree x z m :=
  ⟨fun a n => (h.done a n).trans (h'.done a n),
    fun fault n => (h.failed fault n).trans (h'.failed fault n), h.diverges.trans h'.diverges⟩

theorem bind_failed {p q : Plan α} {f g : α → Plan β} {fault : Fault} {n : Machine}
    (hp : Agree (p.run maxDepth) (q.run maxDepth) m)
    (hf : ∀ a n, Ends (p.run maxDepth) m (.done a n) →
      Agree ((f a).run maxDepth) ((g a).run maxDepth) n)
    (h : ∃ pos, Ends ((p >>= f).run maxDepth) m (.failed ⟨fault, pos⟩ n)) :
    ∃ pos, Ends ((q >>= g).run maxDepth) m (.failed ⟨fault, pos⟩ n) := by
  obtain ⟨pos, h⟩ := h
  rcases Plan.ends_bind_failed.mp h with hfirst | ⟨a, n', ha, hthen⟩
  · obtain ⟨pos', hpos'⟩ := (hp.failed fault n).mp ⟨pos, hfirst⟩
    exact ⟨pos', Plan.ends_bind_failed.mpr (Or.inl hpos')⟩
  · obtain ⟨pos', hpos'⟩ := ((hf a n' ha).failed fault n).mp ⟨pos, hthen⟩
    exact ⟨pos', Plan.ends_bind_failed.mpr (Or.inr ⟨a, n', (hp.done a n').mp ha, hpos'⟩)⟩

theorem bind {p q : Plan α} {f g : α → Plan β} (hp : Agree (p.run maxDepth) (q.run maxDepth) m)
    (hf : ∀ a n, Ends (p.run maxDepth) m (.done a n) →
      Agree ((f a).run maxDepth) ((g a).run maxDepth) n) :
    Agree ((p >>= f).run maxDepth) ((q >>= g).run maxDepth) m := by
  refine of_ends (fun b n => ?_) fun fault n => ⟨bind_failed hp hf, bind_failed hp.symm ?_⟩
  · rw [Plan.ends_bind_done, Plan.ends_bind_done]
    refine exists_congr fun a => exists_congr fun n' => ?_
    rw [← hp.done a n']
    exact and_congr_right fun ha => (hf a n' ha).done b n
  · exact fun a n' ha => (hf a n' ((hp.done a n').mpr ha)).symm

end Agree

end Stencil.Script
