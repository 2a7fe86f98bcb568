/-
  Strict equality of arrays and objects.

  Functions are strictly equal when one declaration of one run made both, but in arrays and objects
  functions are compared by declaration alone.  So content is compared by strict equality, except
  that functions of two runs count as equal if their declarations are the same (`Twins`).
-/
import Mathlib
import Stencil.Proofs.Script.Run.Origins

namespace Stencil.Script.Value

/-- Two functions whose declarations are the same, in the scripts of two runs. -/
def Twins (v w : Value) : Prop :=
  ∃ r f s g, v = function r f ∧ w = function s g ∧ r ≠ s ∧ f.same g = true

/-- Strictly equal, or functions that only their runs tell apart. -/
def Akin (v w : Value) : Prop := v.strictEquals w = true ∨ v.Twins w

theorem twins_function {r s : Nat} {f g : Function} :
    (function r f).Twins (function s g) ↔ r ≠ s ∧ f.same g = true := by
  constructor
  · rintro ⟨_, _, _, _, hl, hr, htwins⟩
    cases hl
    cases hr
    exact htwins
  · exact fun h => ⟨r, f, s, g, rfl, rfl, h⟩

/-! ## Item by item -/

theorem sameItems_iff {vs ws : List Value} :
    sameItems vs ws = true ↔ List.Forall₂ (fun v w => v.same w = true) vs ws := by
  induction vs generalizing ws with
  | nil => cases ws <;> simp [sameItems]
  | cons v vs ih => cases ws <;> simp [sameItems, ih]

/-- The members of two objects are compared under the same keys. -/
theorem sameMembers_iff {xs ys : List (String × Value)} :
    sameMembers xs ys = true ↔ xs.map Prod.fst = ys.map Prod.fst ∧
      List.Forall₂ (fun v w => v.same w = true) (xs.map Prod.snd) (ys.map Prod.snd) := by
  induction xs generalizing ys with
  | nil => cases ys <;> simp [sameMembers]
  | cons p xs ih =>
    cases ys with
    | nil => simp [sameMembers]
    | cons q ys =>
      simp only [sameMembers, Bool.and_eq_true, beq_iff_eq, ih, List.map_cons, List.cons.injEq,
        List.forall₂_cons]
      tauto

/-! ## Functions -/

/-- In the code of one run, functions are told apart by their positions, and each is the same as
    itself. -/
structure Distinct (C : Nat → Function → Prop) : Prop where
  unique : ∀ {run : Nat} {f g : Function}, C run f → C run g → f.pos = g.pos → f = g
  same : ∀ {run : Nat} {f : Function}, C run f → f.same f = true

variable {C : Nat → Function → Prop} {v w : Value}

/-- Unless both are functions, values are strictly equal when they are the same. -/
theorem akin_iff_same (h : ¬ ∃ r f s g, v = function r f ∧ w = function s g) :
    v.Akin w ↔ v.same w = true := by
  have htwins : ¬ v.Twins w := fun ⟨r, f, s, g, hv, hw, _⟩ => h ⟨r, f, s, g, hv, hw⟩
  have hstrict : v.strictEquals w = v.same w := by
    unfold strictEquals
    split
    · exact absurd ⟨_, _, _, _, rfl, rfl⟩ h
    · rfl
  rw [Akin, hstrict]
  exact or_iff_left htwins

/-- Two functions of one run are the same when one declaration made both. -/
theorem Distinct.same_iff_pos (hC : Distinct C) {run : Nat} {f g : Function} (hf : C run f)
    (hg : C run g) : f.same g = true ↔ f.pos = g.pos := by
  constructor
  · intro h
    simp only [Function.same, Bool.and_eq_true, beq_iff_eq] at h
    exact h.1.1.1
  · intro h
    cases hC.unique hf hg h
    exact hC.same hf

/-- **Sameness is strict equality but for twins.** -/
theorem Distinct.same_iff (hC : Distinct C) (hv : v.Rooted C) (hw : w.Rooted C) :
    v.same w = true ↔ v.Akin w := by
  cases v with
  | function r f =>
    cases w with
    | function s g =>
      have hf := rooted_function.mp hv
      have hg := rooted_function.mp hw
      -- in one run strict equality asks for the position, sameness for everything, and a position
      -- says everything; across runs strict equality fails, and sameness makes twins
      by_cases hrun : r = s
      · subst hrun
        simp only [Akin, twins_function, ne_eq, not_true_eq_false, false_and, or_false,
          strictEquals, Value.same, beq_self_eq_true, Bool.true_and, beq_iff_eq,
          hC.same_iff_pos hf hg]
      · simp only [Akin, twins_function, ne_eq, hrun, not_false_eq_true, true_and, strictEquals,
          Value.same, beq_eq_false_iff_ne.mpr hrun, Bool.false_and, Bool.false_eq_true, false_or]
    | _ => exact (akin_iff_same (by simp)).symm
  | _ => exact (akin_iff_same (by simp)).symm

/-! ## Arrays and objects -/

theorem Distinct.forall₂_same_iff (hC : Distinct C) {vs ws : List Value}
    (hvs : ∀ v ∈ vs, v.Rooted C) (hws : ∀ w ∈ ws, w.Rooted C) :
    List.Forall₂ (fun v w => v.same w = true) vs ws ↔ List.Forall₂ Akin vs ws := by
  induction vs generalizing ws with
  | nil => simp
  | cons v vs ih =>
    cases ws with
    | nil => simp
    | cons w ws =>
      rw [List.forall_mem_cons] at hvs hws
      rw [List.forall₂_cons, List.forall₂_cons, hC.same_iff hvs.1 hws.1, ih hvs.2 hws.2]

/-- Arrays are strictly equal when their items are, but for twins. -/
theorem Distinct.array_iff (hC : Distinct C) {vs ws : List Value} (hvs : (array vs).Rooted C)
    (hws : (array ws).Rooted C) :
    (array vs).strictEquals (array ws) = true ↔ List.Forall₂ Akin vs ws :=
  calc (array vs).strictEquals (array ws) = true
    _ ↔ sameItems vs ws = true := Iff.rfl
    _ ↔ List.Forall₂ (fun v w => v.same w = true) vs ws := sameItems_iff
    _ ↔ List.Forall₂ Akin vs ws :=
      hC.forall₂_same_iff (Hereditary.array.mp hvs) (Hereditary.array.mp hws)

/-- Objects are strictly equal when they have the same keys and their members are strictly equal,
    but for twins. -/
theorem Distinct.object_iff (hC : Distinct C) {xs ys : List (String × Value)}
    (hxs : (object xs).Rooted C) (hys : (object ys).Rooted C) :
    (object xs).strictEquals (object ys) = true ↔ xs.map Prod.fst = ys.map Prod.fst ∧
      List.Forall₂ Akin (xs.map Prod.snd) (ys.map Prod.snd) := by
  rw [← hC.forall₂_same_iff (List.forall_mem_map.mpr (Hereditary.object.mp hxs))
    (List.forall_mem_map.mpr (Hereditary.object.mp hys)), ← sameMembers_iff]
  rfl

end Stencil.Script.Value
