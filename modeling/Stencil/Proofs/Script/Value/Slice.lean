/-
  Cutting a part out of a text or an array.

  A cut takes the items from one place up to another (`Between`), where both places lie in the
  sequence whatever numbers are given for them.  So a cut up to a place and the cut from there on
  make up the sequence again (`cut_append_cut`), and texts, of which it cuts the characters, and
  arrays are cut alike (`slice_cuts`).
-/
import Stencil.Proofs.Number.Bounds
import Stencil.Script.Value.Method

namespace Stencil.Script.Value

/-! ## Cuts -/

/-- The items that stand from the place `start` up to the place `stop`; none where `stop` is not
    behind `start`. -/
def Between {α : Type} (items : List α) (start stop : Nat) (run : List α) : Prop :=
  ∃ before behind, items = before ++ run ++ behind ∧ before.length = start ∧
    run.length = stop - start

section

variable {α : Type} (items : List α)

theorem cut_numbers (a b : Float) : cut items [number a, number b] =
    (items.drop (Number.bound items.length a)).take
      (Number.bound items.length b - Number.bound items.length a) := rfl

/-- Where the second bound is missing, a cut goes up to the end. -/
theorem cut_number (a : Float) :
    cut items [number a] = items.drop (Number.bound items.length a) := by
  change (items.drop (Number.bound items.length a)).take
    (items.length - Number.bound items.length a) = _
  exact List.take_of_length_le (by rw [List.length_drop])

theorem between_take_drop {start stop : Nat} (hstart : start ≤ items.length)
    (hstop : stop ≤ items.length) :
    Between items start stop ((items.drop start).take (stop - start)) := by
  refine ⟨items.take start, (items.drop start).drop (stop - start), ?_, ?_, ?_⟩
  · rw [List.append_assoc, List.take_append_drop, List.take_append_drop]
  · rw [List.length_take, Nat.min_eq_left hstart]
  · rw [List.length_take, List.length_drop]
    omega

/-- A cut between two numbers takes what stands between the places that they bound. -/
theorem cut_between (a b : Float) : ∃ start stop,
    Number.Resolves items.length a start ∧ Number.Resolves items.length b stop ∧
    start ≤ items.length ∧ stop ≤ items.length ∧
    Between items start stop (cut items [number a, number b]) ∧
    (stop ≤ start → cut items [number a, number b] = []) := by
  have hstart := Number.bound_le items.length a
  have hstop := Number.bound_le items.length b
  have hcut := between_take_drop items hstart hstop
  rw [← cut_numbers] at hcut
  refine ⟨_, _, (Number.resolves_iff _).mpr rfl, (Number.resolves_iff _).mpr rfl, hstart, hstop,
    hcut, fun hle => ?_⟩
  obtain ⟨-, -, -, -, hlength⟩ := hcut
  rw [← List.length_eq_zero_iff, hlength]
  omega

example : cut "slice".toList [number (-3.5), number 4.0] = "ic".toList := by decide +kernel

/-- **A cut loses nothing and takes nothing twice.** -/
theorem cut_append_cut (k : Float) :
    cut items [number 0.0, number k] ++ cut items [number k] = items := by
  rw [cut_numbers, cut_number, Number.bound_zero, List.drop_zero, Nat.sub_zero,
    List.take_append_drop]

end

/-! ## Texts and arrays -/

theorem callMethod_slice_text (s : String) (args : List Value) :
    (text s).callMethod "slice" args = .ok (text (String.ofList (cut s.toList args))) := rfl

theorem callMethod_slice_array (items args : List Value) :
    (array items).callMethod "slice" args = .ok (array (cut items args)) := rfl

/-- **Slices.**  The slices of a text or an array up to a number and from it on make it up again.
    The slice between two numbers is the run of characters or items between the places that they
    bound, which lie in the sequence; it is empty where the second is not behind the first. -/
theorem slice_cuts (a b k : Float) :
    (∀ s : String,
      (∃ front back,
        (text s).callMethod "slice" [number 0.0, number k] = .ok (text front) ∧
        (text s).callMethod "slice" [number k] = .ok (text back) ∧ front ++ back = s) ∧
      ∃ start stop t,
        Number.Resolves s.length a start ∧ Number.Resolves s.length b stop ∧
        start ≤ s.length ∧ stop ≤ s.length ∧
        (text s).callMethod "slice" [number a, number b] = .ok (text t) ∧
        Between s.toList start stop t.toList ∧ (stop ≤ start → t = "")) ∧
    (∀ items : List Value,
      (∃ front back,
        (array items).callMethod "slice" [number 0.0, number k] = .ok (array front) ∧
        (array items).callMethod "slice" [number k] = .ok (array back) ∧ front ++ back = items) ∧
      ∃ start stop run,
        Number.Resolves items.length a start ∧ Number.Resolves items.length b stop ∧
        start ≤ items.length ∧ stop ≤ items.length ∧
        (array items).callMethod "slice" [number a, number b] = .ok (array run) ∧
        Between items start stop run ∧ (stop ≤ start → run = [])) := by
  refine ⟨fun s => ⟨⟨_, _, callMethod_slice_text s _, callMethod_slice_text s _, ?_⟩, ?_⟩,
    fun items => ⟨⟨_, _, callMethod_slice_array items _, callMethod_slice_array items _,
      cut_append_cut items k⟩, ?_⟩⟩
  · rw [← String.ofList_append, cut_append_cut, String.ofList_toList]
  · obtain ⟨start, stop, ha, hb, hstart, hstop, hrun, hnone⟩ := cut_between s.toList a b
    rw [String.length_toList] at ha hb hstart hstop
    refine ⟨start, stop, _, ha, hb, hstart, hstop, callMethod_slice_text s _, ?_, fun hle => ?_⟩
    · rwa [String.toList_ofList]
    · rw [hnone hle, String.ofList_nil]
  · obtain ⟨start, stop, ha, hb, hstart, hstop, hrun, hnone⟩ := cut_between items a b
    exact ⟨start, stop, _, ha, hb, hstart, hstop, callMethod_slice_array items _, hrun, hnone⟩

end Stencil.Script.Value
