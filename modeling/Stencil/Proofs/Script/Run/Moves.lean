/-
  What a run does to the state, change by change.

  `Moves F U D m m'` says that the state `m` turns into `m'` by changes that code makes: it writes
  slots, changes arrays in place, outputs, declares names, and does all this inside blocks and
  calls.  The names that it changes and declares itself are those of `U`, the names that it
  declares in the innermost block are in `D`, and the functions that it declares or calls have
  `F`; in a call, the names are those of the function.  Everything that the evaluator does is such
  a series of changes (`Stencil.Proofs.Script.Run.Sound`), so what these keep is kept by every run.
-/
import Stencil.Proofs.Script.Run.Logic
import Stencil.Proofs.Script.Run.Rules

namespace Stencil.Script

inductive Moves (F : Function → Prop) :
    (NameUse × String → Prop) → (String → Prop) → Machine → Machine → Prop where
  | stay {U D m} : Moves F U D m m
  | andThen {U D m m' m''} : Moves F U D m m' → Moves F U D m' m'' → Moves F U D m m''
  | write {U D m m'} {slot : Slot} {v : Value} : U (.change, slot.root) →
      slot.write v m = .ok m' → Moves F U D m m'
  /-- The array in a slot loses its last item or gets more. -/
  | mutate {U D m m'} {slot : Slot} {items items' : List Value} : U (.change, slot.root) →
      slot.held m = .ok (.array items) → (items' = items.dropLast ∨ items <+: items') →
      slot.modify (fun _ => .ok (.array items', ())) m = .ok (m', ()) → Moves F U D m m'
  | output {U D m out} (more : String) : Dict.get? m.env outputName = some (.text out) →
      Moves F U D m (m.setEnv outputName (.text (out ++ more)))
  | declare {U D m m' kind name v} : U (.declare kind, name) → (kind ≠ .varDecl → D name) →
      m.declare kind name v = .ok m' → Moves F U D m m'
  /-- In a block, whose functions are declared first. -/
  | block {U D m m' body} : Hoistable F U body →
      Moves F U (fun _ => True) ((m.enter .block).hoist body) m' → Moves F U D m m'.leave
  /-- In a call. -/
  | call {U D m m' run f args} : F f → Hoistable F f.Uses f.body →
      Moves F f.Uses (fun _ => True) ((m.beginCall run (Scope.ofCall run f args)).hoist f.body) m' →
      Moves F U D m (m'.endCall m)

/-! ## Output -/

/-- What the output function adds is one text behind the other. -/
theorem foldl_display (out : String) (args : List Value) :
    args.foldl (fun s v => s ++ v.display) out
      = out ++ args.foldl (fun s v => s ++ v.display) "" := by
  induction args generalizing out with
  | nil => exact (String.append_empty).symm
  | cons v rest ih =>
    rw [List.foldl_cons, List.foldl_cons, ih, ih ("" ++ v.display), String.empty_append,
      String.append_assoc]

theorem appendOutput_apply (pos : Position) (args : List Value) (m : Machine) :
    appendOutput pos args m =
      match Dict.get? m.env outputName with
      | some (.text out) =>
        .done .undefined
          (m.setEnv outputName (.text (args.foldl (fun s v => s ++ v.display) out)))
      | _ => .failed ⟨.misuse (.outputNotString outputName), pos⟩ m := by
  rw [appendOutput, Effect.get_bind]
  cases Dict.get? m.env outputName with
  | none => rfl
  | some v => cases v <;> rfl

end Stencil.Script
