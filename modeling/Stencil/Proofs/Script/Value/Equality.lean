/-
  Strict and loose equality.

  Strict equality is symmetric because sameness is, level by level.  Loose equality first turns
  truth values into numbers and then a text next to a number; what it compares after that depends
  on both kinds in the same way, and where nothing is turned it is strict equality.
-/
import Stencil.Proofs.Script.Tree.Same
import Stencil.Script.Value

namespace Stencil.Script.Value

/-! ## Strict equality -/

mutual

theorem same_comm (v w : Value) : v.same w = w.same v := by
  match v with
  | undefined | null | bool _ | number _ | text _ | native _ =>
    cases w <;> simp only [same, BEq.comm]
  | array items => cases w <;> simp only [same, sameItems_comm items]
  | object members => cases w <;> simp only [same, sameMembers_comm members]
  | function _ f => cases w <;> simp only [same, f.same_comm]

theorem sameItems_comm (xs ys : List Value) : sameItems xs ys = sameItems ys xs := by
  match xs, ys with
  | [], [] | [], _ :: _ | _ :: _, [] => simp only [sameItems]
  | x :: xs, y :: ys => simp only [sameItems, same_comm x, sameItems_comm xs]

theorem sameMembers_comm (xs ys : List (String × Value)) :
    sameMembers xs ys = sameMembers ys xs := by
  match xs, ys with
  | [], [] | [], _ :: _ | _ :: _, [] => simp only [sameMembers]
  | (_, x) :: xs, (_, _) :: _ =>
    simp only [sameMembers, BEq.comm, same_comm x, sameMembers_comm xs]

end

theorem strictEquals_comm (a b : Value) : a.strictEquals b = b.strictEquals a := by
  cases a with
  | function _ f => cases b <;> simp only [strictEquals, BEq.comm, same_comm (function _ f)]
  | _ => cases b <;> simp only [strictEquals, same_comm]

theorem typeName_of_strictEquals {a b : Value} (h : a.strictEquals b = true) :
    a.typeName = b.typeName ∧ a.isNullish = b.isNullish := by
  cases a <;> cases b <;> simp_all [strictEquals, same, typeName, isNullish]

/-! ## Loose equality -/

/-- Neither nothing nor a truth value. -/
def Solid : Value → Prop
  | undefined | null | bool _ => False
  | _ => True

/-- One of the two is a number and the other a text. -/
def NumberAndText : Value → Value → Prop
  | number _, text _ | text _, number _ => True
  | _, _ => False

theorem looseEquals_comm (a b : Value) : a.looseEquals b = b.looseEquals a := by
  unfold looseEquals
  rw [Bool.or_comm, Bool.and_comm]
  generalize a.boolAsNumber = v
  generalize b.boolAsNumber = w
  cases v with
  | number x => cases w <;> simp only [BEq.comm (a := x), strictEquals_comm (number x)]
  | text s => cases w <;> simp only [BEq.comm (a := numberOfText s), strictEquals_comm (text s)]
  | _ => simp only [strictEquals_comm]

/-- Where loose equality turns nothing into a number, it is strict equality. -/
theorem looseEquals_eq_strictEquals {a b : Value} (ha : Solid a) (hb : Solid b)
    (hkinds : ¬ NumberAndText a b) : a.looseEquals b = a.strictEquals b := by
  cases a <;> cases b <;>
    simp_all [Solid, NumberAndText, looseEquals, isNullish, boolAsNumber]

theorem looseEquals_of_strictEquals {a b : Value} (h : a.strictEquals b = true) :
    a.looseEquals b = true := by
  obtain ⟨htype, hnullish⟩ := typeName_of_strictEquals h
  cases ha : a with
  | undefined | null => simp_all [looseEquals, isNullish]
  | bool p =>
    have hb : b = bool p := by cases b <;> simp_all [strictEquals, same]
    subst hb
    cases p <;> decide +kernel
  | _ =>
    have hb : Solid b := by cases b <;> simp_all [typeName, isNullish, Solid]
    have hkinds : ¬ NumberAndText a b := by cases b <;> simp_all [typeName, NumberAndText]
    rw [← ha, looseEquals_eq_strictEquals (by simp [ha, Solid]) hb hkinds, h]

/-- **Equality.** Strict and loose equality are symmetric; values that are strictly equal are
    loosely equal, and the two agree unless a side is nothing or a truth value, or one side is a
    number and the other a text. -/
theorem looseEquals_extends_strictEquals (a b : Value) :
    a.strictEquals b = b.strictEquals a ∧ a.looseEquals b = b.looseEquals a ∧
    (a.strictEquals b = true → a.looseEquals b = true) ∧
    (Solid a → Solid b → ¬ NumberAndText a b → a.looseEquals b = a.strictEquals b) :=
  ⟨strictEquals_comm a b, looseEquals_comm a b, looseEquals_of_strictEquals,
    looseEquals_eq_strictEquals⟩

/-- Two arrays with equal items, a text and an array that reads as it, and a number and the text
    that it is equal to only loosely, on whichever side it stands. -/
theorem looseEquals_extends_strictEquals_arrays :
    (array [number 1.0]).looseEquals (array [number 1.0]) = true ∧
    (text "1").looseEquals (array [number 1.0]) = false ∧
    (text " 1 ").looseEquals (number 1.0) = true ∧
    (text " 1 ").strictEquals (number 1.0) = false := by
  have hstrict : (array [number 1.0]).strictEquals (array [number 1.0]) = true := by decide +kernel
  have hother : (text "1").strictEquals (array [number 1.0]) = false := by decide +kernel
  have hread : (number 1.0).looseEquals (text " 1 ") = true := by decide +kernel
  have hkinds : (number 1.0).strictEquals (text " 1 ") = false := by decide +kernel
  obtain ⟨hstrictComm, hlooseComm, -⟩ :=
    looseEquals_extends_strictEquals (text " 1 ") (number 1.0)
  exact ⟨(looseEquals_extends_strictEquals _ _).2.2.1 hstrict,
    ((looseEquals_extends_strictEquals (text "1") (array [number 1.0])).2.2.2
      trivial trivial id).trans hother, hlooseComm.trans hread, hstrictComm.trans hkinds⟩

end Stencil.Script.Value
